import Baffle.Proofs.Walks

namespace Baffle

namespace Proofs

variable {t : SocketTree} {path : SocketPath} {s : SocketStore} {i : Nat} {loc : Location Text}
  {keys : List FileIdentity}

section Bind

variable {s0 : SocketStore} {current parent : Descriptor} {fails : BindCall → Bool}
  {alloc : Allocator} {name : Text} {tree : SocketTree}

/-- The checks of the path itself. -/
structure PathChecked (fails : BindCall → Bool) (path : SocketPath) (name : Text) : Prop where
  currentDir : (path.relative && fails .currentDir) = false
  short : path.bytes < unixSocketPathBytes
  named : path.name = some name
  root : fails .openRoot = false

/-- The calls after which nothing takes back what was made: below a directory that
was there, a directory was made and cannot be opened or inspected, or the socket
was bound and cannot be inspected. -/
inductive LeavesBehind (fails : BindCall → Bool) (tree : SocketTree) (path : SocketPath) : Prop where
  | directory (name : Text) (hs : PathChecked fails path name) (i : Nat) (hi : i < path.parents.length)
      (before : ∀ j < i, Passes fails tree path j) (hl : Lost fails tree path i)
      (parent : tree.node (path.position i) ≠ none) : LeavesBehind fails tree path
  | socket (name : Text) (hs : PathChecked fails path name)
      (passes : ∀ i < path.parents.length, Passes fails tree path i)
      (free : tree.node (name :: path.last) = none)
      (new : ∀ i ≤ path.parents.length, name :: path.last ≠ path.position i)
      (inspected : fails .inspectPath = false) (bound : fails .bindSocket = false)
      (lost : fails .inspectSocket = true) (parent : tree.node path.last ≠ none) :
      LeavesBehind fails tree path

/-- A `bind` that fails, and whose removals succeed, leaves tree and registry as they were. -/
def CleansUp (fails : BindCall → Bool) (alloc : Allocator) (path : SocketPath) (s : SocketStore) :
    Prop :=
  ∀ s', UnixSocketGuard.bind fails alloc path s = (s', none) →
    s'.failedRemovals = s.failedRemovals → s'.tree = s.tree ∧ s'.registry = s.registry

/-- The socket of a guard that is dropped before anyone else gets to it. -/
theorem drop_bound (keys : List FileIdentity) {key : FileIdentity} (hd : s.tree.holds parent = true)
    (hn : s.tree.node (name :: parent.location) = none)
    (hplus : s.tree.Plus (name :: parent.location) ⟨.socket, key⟩ tree) :
    UnixSocketGuard.current ⟨parent, name, key, keys⟩ { s with tree } = true ∧
      UnixSocketGuard.drop ⟨parent, name, key, keys⟩ { s with tree } = s.releaseAll keys := by
  have hd' := plus_held hplus hd hn
  have hstat : tree.statAt parent (.name name) = some ⟨.socket, key⟩ :=
    (stat_at_held hd').trans hplus.here
  have hown : UnixSocketGuard.current ⟨parent, name, key, keys⟩ { s with tree } = true := by
    simp [UnixSocketGuard.current, hstat, UnixSocketGuard.matchesMetadata]
  refine ⟨hown, ?_⟩
  obtain ⟨tree', hunlink, hminus⟩ := unlink_vacant (s := { s with tree }) false hd'
    hplus.here rfl (plus_vacant hplus hn)
  have hsame : tree' = s.tree := hplus.undone hminus hn
  rw [UnixSocketGuard.drop, UnixSocketGuard.unlinkOwned, if_pos hown, hunlink, hsame]

/-- How `bind` ends below an open and leased parent directory. -/
inductive Below (fails : BindCall → Bool) (parent : Descriptor) (name : Text)
    (keys : List FileIdentity) (s : SocketStore) : SocketStore × Option UnixSocketGuard → Prop where
  | refused (h : s.tree.node (name :: parent.location) = none → fails .inspectPath = false →
      fails .bindSocket = false → fails .inspectSocket = false) :
      Below fails parent name keys s (s.releaseAll keys, none)
  | lost (free : s.tree.node (name :: parent.location) = none) (inspected : fails .inspectPath = false)
      (bound : fails .bindSocket = false) (lost : fails .inspectSocket = true) (tree : SocketTree)
      (node : FileNode FileIdentity) (hplus : s.tree.Plus (name :: parent.location) node tree) :
      Below fails parent name keys s (SocketStore.releaseAll { s with tree } keys, none)
  | bound (h : fails .inspectSocket = false) (s' : SocketStore) (guard : UnixSocketGuard) :
      Below fails parent name keys s (s', some guard)

theorem below_outcome (fails : BindCall → Bool) (alloc : Allocator) (name : Text)
    (keys : List FileIdentity) (hd : s.tree.holds parent = true) :
    Below fails parent name keys s (UnixSocketGuard.bindBelow fails alloc parent name keys s) := by
  have hstat : s.tree.statAt parent (.name name) = s.tree.node (name :: parent.location) :=
    stat_at_held hd
  unfold UnixSocketGuard.bindBelow
  rw [hstat]
  split
  · rename_i hearly
    refine .refused fun hfree hinspected => ?_
    rw [hfree, hinspected] at hearly
    cases hearly
  · rename_i hearly
    simp only [Bool.not_eq_true, Bool.or_eq_false_iff, Option.isSome_eq_false_iff,
      Option.isNone_iff_eq_none] at hearly
    obtain ⟨hinspected, hfree⟩ := hearly
    obtain ⟨tree, ht, hplus⟩ := create_at_free ⟨.socket, alloc.pick s.used⟩ hd hfree
    have hstat' : tree.statAt parent (.name name) = some ⟨.socket, alloc.pick s.used⟩ :=
      (stat_at_held (plus_held hplus hd hfree)).trans hplus.here
    rw [ht]
    cases hbind : fails .bindSocket with
    | true =>
      refine .refused fun _ _ hb => ?_
      rw [hbind] at hb
      cases hb
    | false =>
      cases hlost : fails .inspectSocket with
      | true => exact .lost hfree hinspected hbind hlost tree _ hplus
      | false =>
        obtain ⟨hcurrent, hdrop⟩ := drop_bound keys hd hfree hplus
        simp only [attempt, Bool.false_eq_true, ↓reduceIte, hstat', hcurrent, hdrop]
        split
        · exact .refused fun _ _ _ => hlost
        · exact .bound hlost _ _

/-- The parent directory is open and leased, or `bind` has failed. -/
theorem parent_ends (alloc : Allocator) (hs : PathChecked fails path name) (s0 : SocketStore) :
    Ends fails path s0 (openSocketParentLocked fails alloc path s0) := by
  obtain ⟨identity, hroot⟩ := s0.tree.rooted
  have hopen : openRoot s0.tree = some ⟨[], identity⟩ := by
    rw [openRoot, FileTree.node, hroot]
    rfl
  unfold openSocketParentLocked
  rw [hs.root, hopen]
  exact walk_ends List.drop_zero (Nat.zero_le _) (fun j hj => absurd hj (Nat.not_lt_zero j))
    (walked_start path s0 hopen)

theorem bind_reached (hs : PathChecked fails path name)
    (h : openSocketParentLocked fails alloc path s0 = (s, keys, some parent)) :
    UnixSocketGuard.bind fails alloc path s0 =
      UnixSocketGuard.bindBelow fails alloc parent name keys s := by
  unfold UnixSocketGuard.bind
  rw [hs.currentDir, if_neg Bool.false_ne_true, if_neg (Nat.not_le.mpr hs.short), hs.named]
  simp only [openSocketParent, h]

theorem bind_stopped (hs : PathChecked fails path name)
    (h : openSocketParentLocked fails alloc path s0 = (s, keys, none)) :
    UnixSocketGuard.bind fails alloc path s0 = (s.releaseAll keys, none) := by
  unfold UnixSocketGuard.bind
  rw [hs.currentDir, if_neg Bool.false_ne_true, if_neg (Nat.not_le.mpr hs.short), hs.named]
  simp only [openSocketParent, h]

/-- A `bind` that does not get as far as the root directory has changed nothing. -/
theorem bind_not_started (h : ∀ name, ¬PathChecked fails path name) :
    UnixSocketGuard.bind fails alloc path s0 = (s0, none) := by
  unfold UnixSocketGuard.bind
  split
  · rfl
  · rename_i hdir
    split
    · rfl
    · rename_i hlong
      cases hname : path.name with
      | none => rfl
      | some name =>
        have hroot : fails .openRoot = true := by
          by_contra hroot
          exact h name ⟨Bool.not_eq_true _ ▸ hdir, by omega, hname, Bool.not_eq_true _ ▸ hroot⟩
        simp [openSocketParent, openSocketParentLocked, hroot, SocketStore.releaseAll]

/-- How a `bind` ends. -/
inductive BindEnds (fails : BindCall → Bool) (path : SocketPath) (s0 : SocketStore) :
    SocketStore × Option UnixSocketGuard → Prop where
  | clean (h : ¬LeavesBehind fails s0.tree path) : BindEnds fails path s0 (s0, none)
  | left (h : LeavesBehind fails s0.tree path) (s' : SocketStore) (parent : Location Text)
      (hp : s0.tree.node parent ≠ none) (hr : Remains s0 s' parent) :
      BindEnds fails path s0 (s', none)
  | noticed (h : ¬LeavesBehind fails s0.tree path) (s' : SocketStore) (parent : Location Text)
      (hp : s0.tree.node parent = none) (hr : Remains s0 s' parent) :
      BindEnds fails path s0 (s', none)
  | bound (h : ¬LeavesBehind fails s0.tree path) (s' : SocketStore) (guard : UnixSocketGuard) :
      BindEnds fails path s0 (s', some guard)

/-- Where the walk stops, the component there decides what stays behind. -/
theorem stopped_leaves (hi : i < path.parents.length) (before : ∀ j < i, Passes fails t path j)
    (hp : ¬Passes fails t path i) (h : LeavesBehind fails t path) :
    Lost fails t path i ∧ t.node (path.position i) ≠ none := by
  cases h with
  | directory name hs j hj before' hl parent =>
    have hji : j = i := by
      by_contra hne
      rcases Nat.lt_or_gt_of_ne hne with hlt | hgt
      · exact hl.stops (before j hlt)
      · exact hp (before' i hgt)
    subst hji
    exact ⟨hl, parent⟩
  | socket name hs passes => exact absurd (passes i hi) hp

/-- A name that is free when the walk is over was free before, and is no directory
of the walk. -/
theorem Entered.free {current : Descriptor} (h : Entered path s0 i current keys s) :
    s.tree.node loc = none ↔ s0.tree.node loc = none ∧ ∀ j ≤ i, loc ≠ path.position j := by
  constructor
  · intro hn
    refine ⟨?_, fun j hj he => ?_⟩
    · rw [← h.old, hn]
      intro hm
      obtain ⟨identity, hd⟩ := h.there hm
      rw [hn] at hd
      cases hd
    · obtain ⟨identity, hv⟩ := h.visited j hj
      rw [← he, hn] at hv
      cases hv
  · rintro ⟨hn, hnew⟩
    rw [h.old, hn]
    rintro ⟨j, hj, -, hloc⟩
    exact hnew (j + 1) hj hloc.symm

theorem below_ends (hs : PathChecked fails path name)
    (hp : ∀ i < path.parents.length, Passes fails s0.tree path i)
    (hw : Entered path s0 path.parents.length parent keys s) :
    BindEnds fails path s0 (UnixSocketGuard.bindBelow fails alloc parent name keys s) := by
  have hat : name :: parent.location = name :: path.last := by rw [hw.location]; rfl
  have hleaves : LeavesBehind fails s0.tree path → s.tree.node (name :: path.last) = none ∧
      fails .inspectPath = false ∧ fails .bindSocket = false ∧ fails .inspectSocket = true ∧
      s0.tree.node path.last ≠ none := by
    intro h
    cases h with
    | directory name' hs' i hi before hl parent => exact absurd (hp i hi) hl.stops
    | socket name' hs' passes free new inspected bound lost parent =>
      have hname : name' = name := Option.some.inj (hs'.named.symm.trans hs.named)
      subst hname
      exact ⟨hw.free.mpr ⟨free, new⟩, inspected, bound, lost, parent⟩
  have hout := below_outcome fails alloc name keys hw.held
  generalize UnixSocketGuard.bindBelow fails alloc parent name keys s = result at hout ⊢
  cases hout with
  | refused h =>
    rw [walked_clean hw]
    refine .clean fun hl => ?_
    obtain ⟨hfree, hi, hb, hlost, -⟩ := hleaves hl
    rw [h (hat ▸ hfree) hi hb] at hlost
    cases hlost
  | lost free inspected bound lost tree node hplus =>
    rw [hat] at free hplus
    have hr := walked_remains hw free hplus
    by_cases hparent : s0.tree.node path.last = none
    · exact .noticed (fun hl => (hleaves hl).2.2.2.2 hparent) _ _ hparent hr
    · obtain ⟨hold, hnew⟩ := hw.free.mp free
      exact .left (.socket name hs hp hold hnew inspected bound lost hparent) _ _ hparent hr
  | bound h s' guard =>
    refine .bound (fun hl => ?_) s' guard
    rw [h] at hleaves
    exact absurd (hleaves hl).2.2.2.1 Bool.false_ne_true

theorem bind_ends (fails : BindCall → Bool) (alloc : Allocator) (path : SocketPath)
    (s0 : SocketStore) : BindEnds fails path s0 (UnixSocketGuard.bind fails alloc path s0) := by
  by_cases hstarts : ∃ name, PathChecked fails path name
  · obtain ⟨name, hs⟩ := hstarts
    have hends := parent_ends alloc hs s0
    generalize hlocked : openSocketParentLocked fails alloc path s0 = result at hends
    cases hends with
    | reached hp parent keys s hw =>
      rw [bind_reached hs hlocked]
      exact below_ends hs hp hw
    | refused i hi before hp hl current keys s hw =>
      rw [bind_stopped hs hlocked, walked_clean hw]
      exact .clean (fun h => hl (stopped_leaves hi before hp h).1)
    | lost i hi before hl current keys s hw tree node hplus =>
      rw [bind_stopped hs hlocked]
      obtain ⟨below, -, hpos⟩ := hl.makes.named
      rw [hpos] at hplus
      have hfree : s.tree.node (below :: path.position i) = none := by
        rw [← hpos, hw.free]
        exact ⟨hl.makes.1, hl.makes.2⟩
      have hr := walked_remains hw hfree hplus
      by_cases hparent : s0.tree.node (path.position i) = none
      · exact .noticed (fun h => (stopped_leaves hi before hl.stops h).2 hparent) _ _ hparent hr
      · exact .left (.directory name hs i hi before hl hparent) _ _ hparent hr
  · have hnone : ∀ name, ¬PathChecked fails path name := fun name hs => hstarts ⟨name, hs⟩
    rw [bind_not_started hnone]
    refine .clean fun h => ?_
    cases h with
    | directory name hs => exact hnone name hs
    | socket name hs => exact hnone name hs

/-- A failed `bind` leaves nothing behind if and only if it does not stop between
making something in a directory that was there and taking responsibility for it. -/
theorem bind_cleans_up (fails : BindCall → Bool) (alloc : Allocator) (path : SocketPath)
    (s : SocketStore) : CleansUp fails alloc path s ↔ ¬LeavesBehind fails s.tree path := by
  have hends := bind_ends fails alloc path s
  unfold CleansUp
  generalize UnixSocketGuard.bind fails alloc path s = result at hends ⊢
  cases hends with
  | clean h =>
    refine iff_of_true (fun s' he _ => ?_) h
    obtain ⟨rfl, -⟩ := Prod.mk.inj he
    exact ⟨rfl, rfl⟩
  | left h s' parent hp hr =>
    refine iff_of_false (fun hclean => ?_) (not_not.mpr h)
    exact hr.changed hp (hclean s' rfl (hr.quiet hp)).1
  | noticed h s' parent hp hr =>
    refine iff_of_true (fun s1 he hquiet => ?_) h
    obtain ⟨rfl, -⟩ := Prod.mk.inj he
    exact absurd hquiet (hr.noticed hp)
  | bound h s' guard =>
    refine iff_of_true (fun s1 he => ?_) h
    cases (Prod.mk.inj he).2

/-- The least number above all in use. -/
def nextInode : Allocator where
  pick used := ⟨0, used.sup FileIdentity.inode + 1⟩
  fresh _ h := absurd (Finset.le_sup (f := FileIdentity.inode) h) (Nat.not_succ_le_self _)

def rootTree : SocketTree := .bare ⟨0, 1⟩

/-- A root directory with one directory in it, and nothing registered. -/
def runStore : SocketStore where
  tree := rootTree.add "run".toList [] ⟨.directory, ⟨0, 2⟩⟩ rootTree.rooted (by decide +kernel)
  registry := .init
  failedRemovals := 0

/-- `/run/a/s.sock`, whose parent is to be made. -/
def newParentPath : SocketPath := ⟨false, 13, [.name "run".toList, .name "a".toList], some "s.sock".toList⟩

/-- `/run/s.sock` -/
def oldParentPath : SocketPath := ⟨false, 11, [.name "run".toList], some "s.sock".toList⟩

/-- One call fails: the new directory stays, or the new socket. -/
theorem bind_leaves_behind :
    ¬CleansUp (fun call => call == .reopenParent 1) nextInode newParentPath runStore ∧
      ¬CleansUp (fun call => call == .inspectSocket) nextInode oldParentPath runStore := by
  have hleft : ∀ fails path loc,
      (UnixSocketGuard.bind fails nextInode path runStore).2.isNone = true →
      (UnixSocketGuard.bind fails nextInode path runStore).1.failedRemovals = 0 →
      ((UnixSocketGuard.bind fails nextInode path runStore).1.tree.node loc).isSome = true →
      (runStore.tree.node loc).isSome = false → ¬CleansUp fails nextInode path runStore := by
    intro fails path loc hnone hquiet hnew hold hclean
    have hsame := (hclean _ (Prod.ext rfl (Option.isNone_iff_eq_none.mp hnone)) hquiet).1
    rw [hsame, hold] at hnew
    cases hnew
  constructor
  · exact hleft _ _ ["a".toList, "run".toList] (by decide +kernel) (by decide +kernel)
      (by decide +kernel) (by decide +kernel)
  · exact hleft _ _ ["s.sock".toList, "run".toList] (by decide +kernel) (by decide +kernel)
      (by decide +kernel) (by decide +kernel)

end Bind

end Proofs

end Baffle
