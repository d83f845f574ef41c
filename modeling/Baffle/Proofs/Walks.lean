import Baffle.SocketDirectories

namespace Baffle

/-- Where the first components of the parent path lead. -/
def SocketPath.position (path : SocketPath) (i : Nat) : Location Text :=
  (path.parents.take i).foldl (fun loc c => c.follow loc) []

/-- Where the parent directory of the socket is. -/
def SocketPath.last (path : SocketPath) : Location Text := path.position path.parents.length

namespace Proofs

variable {t t' : SocketTree} {d next : Descriptor} {c : PathComponent Text} {path : SocketPath}
  {s s0 s' : SocketStore} {i j : Nat} {loc : Location Text} {keys : List FileIdentity}

theorem stat_at_held (h : t.holds d = true) : t.statAt d c = t.node (c.follow d.location) :=
  if_pos h

theorem open_at_directory {identity : FileIdentity} (h : t.holds d = true)
    (hn : t.node (c.follow d.location) = some ⟨.directory, identity⟩) :
    t.openAt d c = .ok ⟨c.follow d.location, identity⟩ := by
  rw [FileTree.openAt, stat_at_held h, hn]

theorem open_at_missing (h : t.holds d = true) (hn : t.node (c.follow d.location) = none) :
    t.openAt d c = .error .notFound := by
  rw [FileTree.openAt, stat_at_held h, hn]

theorem open_at_other {node : FileNode FileIdentity} (h : t.holds d = true)
    (hn : t.node (c.follow d.location) = some node) (hk : node.kind ≠ .directory) :
    t.openAt d c = .error .other := by
  obtain ⟨kind, identity⟩ := node
  rw [FileTree.openAt, stat_at_held h, hn]
  cases kind with
  | directory => exact absurd rfl hk
  | socket => rfl
  | other => rfl

theorem create_at_free (node : FileNode FileIdentity) {name : Text} (h : t.holds d = true)
    (hn : t.node (name :: d.location) = none) :
    ∃ t', t.createAt d (.name name) node = .ok t' ∧
      t.Plus (name :: d.location) node t' := by
  refine ⟨t.add name d.location node ⟨d.identity, FileTree.holds_iff.mp h⟩ hn, ?_,
    FileTree.plus_add⟩
  rw [FileTree.createAt, dif_pos h, dif_pos hn]

/-- Nothing is below an entry that is not there. -/
theorem missing_below {name : Text} (h : t.node loc = none) : t.node (name :: loc) = none := by
  by_contra hne
  obtain ⟨i, hi⟩ := t.nested name loc (Option.isSome_iff_ne_none.mpr hne)
  rw [FileTree.node, hi] at h
  cases h

theorem plus_vacant {node : FileNode FileIdentity} (h : t.Plus loc node t')
    (hn : t.node loc = none) : t'.vacant loc = true := by
  refine FileTree.vacant_iff.mpr fun name => ?_
  rw [h.elsewhere _ (List.cons_ne_self name loc), missing_below hn]

theorem plus_held {node : FileNode FileIdentity} (h : t.Plus loc node t') (hd : t.holds d = true)
    (hn : t.node loc = none) : t'.holds d = true := by
  rw [FileTree.holds_iff] at hd ⊢
  rw [h.elsewhere, hd]
  rintro rfl
  rw [hn] at hd
  cases hd

/-- An empty entry is taken away. -/
theorem unlink_vacant (directory : Bool) {name : Text} {node : FileNode FileIdentity}
    (hd : s.tree.holds d = true) (hn : s.tree.node (name :: d.location) = some node)
    (hk : (node.kind == .directory) = directory) (hv : s.tree.vacant (name :: d.location) = true) :
    ∃ tree, s.unlink d (.name name) directory = { s with tree } ∧
      s.tree.Minus (name :: d.location) tree := by
  refine ⟨s.tree.erase name d.location hv, ?_, FileTree.minus_erase⟩
  have hstat : s.tree.statAt d (.name name) = some node := (stat_at_held hd).trans hn
  have hok : s.tree.unlinkAt d (.name name) directory = .ok (s.tree.erase name d.location hv) := by
    simp only [FileTree.unlinkAt, hstat, hk, bne_self_eq_false, Bool.false_eq_true, ↓reduceIte]
    exact dif_pos hv
  rw [SocketStore.unlink, hok]

theorem unlink_full {name : Text} {directory : Bool} (hv : s.tree.vacant (name :: d.location) = false) :
    s.unlink d (.name name) directory = { s with failedRemovals := s.failedRemovals + 1 } := by
  have hfail : ∃ e, s.tree.unlinkAt d (.name name) directory = .error e := by
    simp only [FileTree.unlinkAt]
    split
    · exact ⟨_, rfl⟩
    · split
      · exact ⟨_, rfl⟩
      · rw [dif_neg (by rw [hv]; exact Bool.false_ne_true)]
        exact ⟨_, rfl⟩
  obtain ⟨e, he⟩ := hfail
  rw [SocketStore.unlink, he]

theorem position_next (h : path.parents[i]? = some c) :
    path.position (i + 1) = c.follow (path.position i) := by
  rw [SocketPath.position, List.take_add_one, h, List.foldl_append]
  rfl

theorem position_end (h : path.parents[i]? = none) : path.position (i + 1) = path.position i := by
  rw [SocketPath.position, List.take_add_one, h]
  simp [SocketPath.position]

/-- A path has been in a directory before it is in one below. -/
theorem position_above {name : Text} (h : path.position i = name :: loc) :
    ∃ j < i, path.position j = loc := by
  induction i using Nat.strong_induction_on generalizing name loc with
  | _ i ih =>
    cases i with
    | zero => cases h
    | succ i =>
      cases hc : path.parents[i]? with
      | none =>
        rw [position_end hc] at h
        obtain ⟨j, hj, hloc⟩ := ih i (Nat.lt_succ_self i) h
        exact ⟨j, Nat.lt_succ_of_lt hj, hloc⟩
      | some c =>
        rw [position_next hc] at h
        cases c with
        | name n =>
          obtain ⟨-, rfl⟩ := List.cons.inj h
          exact ⟨i, Nat.lt_succ_self i, rfl⟩
        | parent =>
          cases hp : path.position i with
          | nil =>
            rw [hp] at h
            cases h
          | cons below rest =>
            rw [hp] at h
            have hrest : rest = name :: loc := h
            obtain ⟨j, hj, hat⟩ := ih i (Nat.lt_succ_self i) hp
            obtain ⟨k, hk, hloc⟩ := ih j (Nat.lt_succ_of_lt hj) (hat.trans hrest)
            exact ⟨k, Nat.lt_succ_of_lt (hk.trans hj), hloc⟩

/-- This component is the first to lead to a directory that is not there. -/
def Makes (tree : SocketTree) (path : SocketPath) (i : Nat) : Prop :=
  tree.node (path.position (i + 1)) = none ∧ ∀ j ≤ i, path.position (i + 1) ≠ path.position j

theorem Makes.named (h : Makes t path i) :
    ∃ name, path.parents[i]? = some (.name name) ∧
      path.position (i + 1) = name :: path.position i := by
  cases hc : path.parents[i]? with
  | none => exact absurd (position_end hc) (h.2 i le_rfl)
  | some c =>
    cases c with
    | name n => exact ⟨n, rfl, position_next hc⟩
    | parent =>
      have hnext : path.position (i + 1) = (path.position i).tail := position_next hc
      cases hp : path.position i with
      | nil =>
        rw [hp] at hnext
        exact absurd (hnext.trans hp.symm) (h.2 i le_rfl)
      | cons below rest =>
        rw [hp] at hnext
        obtain ⟨j, hj, hat⟩ := position_above hp
        exact absurd (hnext.trans hat.symm) (h.2 j hj.le)

/-- A directory that one of the first components made. -/
def MadeBefore (tree : SocketTree) (path : SocketPath) (i : Nat) (loc : Location Text) : Prop :=
  ∃ j < i, Makes tree path j ∧ path.position (j + 1) = loc

theorem made_next (h : Makes t path i) :
    MadeBefore t path (i + 1) loc ↔ MadeBefore t path i loc ∨ loc = path.position (i + 1) := by
  constructor
  · rintro ⟨j, hj, hm, rfl⟩
    rcases Nat.lt_succ_iff_lt_or_eq.mp hj with hlt | rfl
    · exact Or.inl ⟨j, hlt, hm, rfl⟩
    · exact Or.inr rfl
  · rintro (⟨j, hj, hm, rfl⟩ | rfl)
    · exact ⟨j, Nat.lt_succ_of_lt hj, hm, rfl⟩
    · exact ⟨i, Nat.lt_succ_self i, h, rfl⟩

theorem kept_next (h : ¬Makes t path i) :
    MadeBefore t path (i + 1) loc ↔ MadeBefore t path i loc := by
  constructor
  · rintro ⟨j, hj, hm, rfl⟩
    rcases Nat.lt_succ_iff_lt_or_eq.mp hj with hlt | rfl
    · exact ⟨j, hlt, hm, rfl⟩
    · exact absurd hm h
  · rintro ⟨j, hj, hm, rfl⟩
    exact ⟨j, Nat.lt_succ_of_lt hj, hm, rfl⟩

/-- Nothing has been made below the directory that comes next. -/
theorem none_below (h : Makes t path i) {name : Text} :
    ¬MadeBefore t path (i + 1) (name :: path.position (i + 1)) := by
  rintro ⟨j, hj, -, hloc⟩
  obtain ⟨k, hk, hat⟩ := position_above hloc
  exact h.2 k (by omega) hat.symm

@[simp] theorem registry_get_put {registry : SocketDirectoryRegistry} {key : FileIdentity}
    {record : DirectoryRecord} {h : 0 < record.leases} (key' : FileIdentity) :
    (registry.put key record h).get key' = if key' = key then some record else registry.get key' :=
  SortedMap.get_insert ..

@[simp] theorem registry_get_remove {registry : SocketDirectoryRegistry} {key : FileIdentity}
    (key' : FileIdentity) :
    (registry.remove key).get key' = if key' = key then none else registry.get key' :=
  SortedMap.get_erase ..

theorem registry_get_register {registry : SocketDirectoryRegistry} {key : FileIdentity}
    {made : Bool} (key' : FileIdentity) :
    (registry.register d c key made).get key' =
      let record := (registry.get key).getD ⟨d, c, made, 0⟩
      if key' = key then some { record with
        createdByBaffle := record.createdByBaffle || made
        leases := record.leases + 1 }
      else registry.get key' :=
  registry_get_put (h := Nat.succ_pos _) key'

theorem registry_ext {registry other : SocketDirectoryRegistry}
    (h : ∀ key, registry.get key = other.get key) : registry = other :=
  SocketDirectoryRegistry.ext (SortedMap.ext_get h)

theorem remove_keeps_registry {key : FileIdentity} :
    (s.removeDirectoryIfUnchanged d c key).registry = s.registry := by
  unfold SocketStore.removeDirectoryIfUnchanged SocketStore.unlink
  split
  · split <;> rfl
  · rfl

theorem remove_fails_more {key : FileIdentity} :
    s.failedRemovals ≤ (s.removeDirectoryIfUnchanged d c key).failedRemovals := by
  unfold SocketStore.removeDirectoryIfUnchanged SocketStore.unlink
  split
  · split
    · exact le_rfl
    · exact Nat.le_succ _
  · exact le_rfl

theorem release_fails_more (s : SocketStore) (key : FileIdentity) :
    s.failedRemovals ≤ (s.releaseDirectoryLease key).failedRemovals := by
  unfold SocketStore.releaseDirectoryLease
  split
  · exact le_rfl
  · split
    · exact le_rfl
    · dsimp only
      split
      · exact remove_fails_more
      · exact le_rfl

/-- The release of the lease that was registered last. -/
theorem release_registered {key : FileIdentity} {made : Bool} (u : SocketStore)
    (hreg : u.registry = s.registry.register d c key made)
    (hnew : made = true → s.registry.get key = none) :
    u.releaseDirectoryLease key =
      { (if made then u.removeDirectoryIfUnchanged d c key else u) with registry := s.registry } := by
  unfold SocketStore.releaseDirectoryLease
  cases hget : s.registry.get key with
  | none =>
    have hrecord : u.registry.get key = some ⟨d, c, made || made, 0 + 1⟩ := by
      rw [hreg, registry_get_register, hget]
      exact if_pos rfl
    have hback : u.registry.remove key = s.registry := by
      refine registry_ext fun key' => ?_
      rw [registry_get_remove, hreg, registry_get_register]
      by_cases he : key' = key
      · rw [if_pos he, he, hget]
      · rw [if_neg he, if_neg he]
    rw [hrecord]
    dsimp only
    rw [dif_neg (by decide)]
    cases made with
    | true => simp [remove_keeps_registry, hback]
    | false => simp [hback]
  | some record =>
    have hmade : made = false := by
      cases made with
      | true =>
        rw [hnew rfl] at hget
        cases hget
      | false => rfl
    subst hmade
    have hpos := s.registry.held key record hget
    have hrecord : u.registry.get key = some { record with leases := record.leases + 1 } := by
      rw [hreg, registry_get_register, hget]
      refine (if_pos rfl).trans ?_
      rw [Option.getD_some, Bool.or_false]
    rw [hrecord]
    dsimp only
    rw [dif_pos (by omega)]
    congr 1
    refine registry_ext fun key' => ?_
    rw [registry_get_put, hreg, registry_get_register]
    by_cases he : key' = key
    · rw [if_pos he, he, hget, Nat.add_sub_cancel]
    · rw [if_neg he, if_neg he]

theorem release_all_last (s : SocketStore) (keys : List FileIdentity) (key : FileIdentity) :
    s.releaseAll (keys ++ [key]) = (s.releaseDirectoryLease key).releaseAll keys := by
  rw [SocketStore.releaseAll, List.foldr_append]
  rfl

theorem release_all_fails_more (s : SocketStore) (keys : List FileIdentity) :
    s.failedRemovals ≤ (s.releaseAll keys).failedRemovals := by
  induction keys with
  | nil => exact le_rfl
  | cons key keys ih => exact ih.trans (release_fails_more _ key)

/-- Whatever is in a directory that the walk has made was made by the walk. -/
def Sealed (old : SocketTree) (path : SocketPath) (i : Nat) (t : SocketTree) : Prop :=
  ∀ name loc, MadeBefore old path i loc → t.node (name :: loc) ≠ none →
    MadeBefore old path i (name :: loc)

/-- The leases of the first components are taken back: exactly what they made goes,
unless something else is in it. -/
structure Undone (path : SocketPath) (s0 : SocketStore) (i : Nat) (keys : List FileIdentity)
    (u : SocketStore) : Prop where
  registry : (u.releaseAll keys).registry = s0.registry
  gone : Sealed s0.tree path i u.tree → ∀ loc, MadeBefore s0.tree path i loc →
    (u.releaseAll keys).tree.node loc = none
  stays : Sealed s0.tree path i u.tree → ∀ loc, ¬MadeBefore s0.tree path i loc →
    (u.releaseAll keys).tree.node loc = u.tree.node loc
  quiet : Sealed s0.tree path i u.tree → (u.releaseAll keys).failedRemovals = u.failedRemovals
  noticed : ¬Sealed s0.tree path i u.tree → u.failedRemovals < (u.releaseAll keys).failedRemovals

/-- The walk has entered the first components, from the store `s0`. -/
structure Entered (path : SocketPath) (s0 : SocketStore) (i : Nat) (current : Descriptor)
    (keys : List FileIdentity) (s : SocketStore) : Prop where
  location : current.location = path.position i
  held : s.tree.holds current = true
  visited : ∀ j ≤ i, ∃ identity, s.tree.node (path.position j) = some ⟨.directory, identity⟩
  old : ∀ loc, ¬MadeBefore s0.tree path i loc → s.tree.node loc = s0.tree.node loc
  quiet : s.failedRemovals = s0.failedRemovals
  undo : ∀ u, u.registry = s.registry →
    (∀ j ≤ i, u.tree.node (path.position j) = s.tree.node (path.position j)) →
    Undone path s0 i keys u

theorem not_made_start : ¬MadeBefore t path 0 loc := by
  rintro ⟨j, hj, -⟩
  exact absurd hj (Nat.not_lt_zero j)

theorem walked_start (path : SocketPath) (s : SocketStore) {root : Descriptor}
    (h : openRoot s.tree = some root) : Entered path s 0 root [] s := by
  obtain ⟨node, hn, rfl⟩ := Option.map_eq_some_iff.mp h
  obtain ⟨identity, hroot⟩ := s.tree.rooted
  have hnode : s.tree.node [] = some ⟨.directory, identity⟩ := hroot
  rw [hn, Option.some.injEq] at hnode
  subst hnode
  refine ⟨rfl, FileTree.holds_iff.mpr hn, fun j hj => ?_, fun _ _ => rfl, rfl, fun u hu _ => ?_⟩
  · rw [Nat.le_zero.mp hj]
    exact ⟨identity, hn⟩
  · exact ⟨hu, fun _ _ hm => absurd hm not_made_start, fun _ _ _ => rfl, fun _ => rfl,
      fun hs => absurd (fun _ _ hm => absurd hm not_made_start) hs⟩

section Steps

variable {s0 : SocketStore} {current : Descriptor} {key : FileIdentity}

theorem Entered.not_made (h : Entered path s0 i current keys s)
    (hn : s.tree.node (path.position (i + 1)) ≠ none) : ¬Makes s0.tree path i := by
  intro hm
  have hnot : ¬MadeBefore s0.tree path i (path.position (i + 1)) := by
    rintro ⟨j, hj, -, hloc⟩
    exact hm.2 (j + 1) hj hloc.symm
  rw [h.old _ hnot, hm.1] at hn
  exact hn rfl

theorem Entered.makes (h : Entered path s0 i current keys s)
    (hn : s.tree.node (path.position (i + 1)) = none) : Makes s0.tree path i := by
  have hfirst : ∀ j ≤ i, path.position (i + 1) ≠ path.position j := by
    intro j hj he
    obtain ⟨identity, hv⟩ := h.visited j hj
    rw [← he, hn] at hv
    cases hv
  refine ⟨?_, hfirst⟩
  rw [← h.old _, hn]
  rintro ⟨j, hj, -, hloc⟩
  exact hfirst (j + 1) hj hloc.symm

theorem undone_kept (h : Entered path s0 i current keys s) (hm : ¬Makes s0.tree path i)
    {u : SocketStore} (hu : u.registry = s.registry.register current c key false)
    (hsame : ∀ j ≤ i, u.tree.node (path.position j) = s.tree.node (path.position j)) :
    Undone path s0 (i + 1) (keys ++ [key]) u := by
  have hlast : u.releaseAll (keys ++ [key]) = SocketStore.releaseAll
      { u with registry := s.registry } keys := by
    rw [release_all_last, release_registered u hu (fun hf => absurd hf Bool.false_ne_true)]
    rfl
  have hundo := h.undo { u with registry := s.registry } rfl hsame
  have hsealed : Sealed s0.tree path (i + 1) u.tree ↔ Sealed s0.tree path i u.tree := by
    simp only [Sealed, kept_next hm]
  refine ⟨?_, fun hs loc hmade => ?_, fun hs loc hmade => ?_, fun hs => ?_, fun hs => ?_⟩ <;>
    rw [hlast]
  · exact hundo.registry
  · exact hundo.gone (hsealed.mp hs) loc ((kept_next hm).mp hmade)
  · exact hundo.stays (hsealed.mp hs) loc (fun hmade' => hmade ((kept_next hm).mpr hmade'))
  · exact hundo.quiet (hsealed.mp hs)
  · exact hundo.noticed (fun hs' => hs (hsealed.mpr hs'))

/-- A made directory that is still empty goes with its lease. -/
theorem release_vacant {name : Text} {u : SocketStore} (hd : u.tree.holds current = true)
    (hn : u.tree.node (name :: current.location) = some ⟨.directory, key⟩)
    (hv : u.tree.vacant (name :: current.location) = true) :
    ∃ tree, u.removeDirectoryIfUnchanged current (.name name) key = { u with tree } ∧
      u.tree.Minus (name :: current.location) tree := by
  obtain ⟨tree, hunlink, hminus⟩ := unlink_vacant true hd hn rfl hv
  have hstat : u.tree.statAt current (.name name) = some ⟨.directory, key⟩ :=
    (stat_at_held hd).trans hn
  exact ⟨tree, (if_pos hstat).trans hunlink, hminus⟩

theorem release_full {name : Text} {u : SocketStore} (hd : u.tree.holds current = true)
    (hn : u.tree.node (name :: current.location) = some ⟨.directory, key⟩)
    (hv : u.tree.vacant (name :: current.location) = false) :
    u.removeDirectoryIfUnchanged current (.name name) key =
      { u with failedRemovals := u.failedRemovals + 1 } := by
  have hstat : u.tree.statAt current (.name name) = some ⟨.directory, key⟩ :=
    (stat_at_held hd).trans hn
  exact (if_pos hstat).trans (unlink_full hv)

theorem undone_made (h : Entered path s0 i current keys s) (hm : Makes s0.tree path i) {name : Text}
    (hpos : path.position (i + 1) = name :: path.position i) {u : SocketStore}
    (hu : u.registry = s.registry.register current (.name name) key true)
    (hnew : s.registry.get key = none)
    (hsame : ∀ j ≤ i, u.tree.node (path.position j) = s.tree.node (path.position j))
    (hn : u.tree.node (path.position (i + 1)) = some ⟨.directory, key⟩) :
    Undone path s0 (i + 1) (keys ++ [key]) u := by
  have hat : name :: current.location = path.position (i + 1) := by rw [h.location, hpos]
  have hd : u.tree.holds current = true := by
    rw [FileTree.holds_iff, h.location, hsame i le_rfl, ← h.location]
    exact FileTree.holds_iff.mp h.held
  have hn' : u.tree.node (name :: current.location) = some ⟨.directory, key⟩ := by rw [hat, hn]
  have hlast : u.releaseAll (keys ++ [key]) = SocketStore.releaseAll
      { u.removeDirectoryIfUnchanged current (.name name) key with registry := s.registry } keys := by
    rw [release_all_last, release_registered u hu (fun _ => hnew)]
    rfl
  have hnot : ¬MadeBefore s0.tree path i (path.position (i + 1)) := by
    rintro ⟨j, hj, -, hloc⟩
    exact hm.2 (j + 1) hj hloc.symm
  have hlast_made : MadeBefore s0.tree path (i + 1) (path.position (i + 1)) :=
    (made_next hm).mpr (Or.inr rfl)
  cases hv : u.tree.vacant (name :: current.location) with
  | true =>
    obtain ⟨tree, hrelease, hminus⟩ := release_vacant hd hn' hv
    rw [hrelease] at hlast
    rw [hat] at hminus
    have hkeep : ∀ j ≤ i, tree.node (path.position j) = s.tree.node (path.position j) := by
      intro j hj
      rw [hminus.elsewhere _ (hm.2 j hj).symm, hsame j hj]
    have hundo := h.undo { u with tree, registry := s.registry } rfl hkeep
    have hsealed : Sealed s0.tree path (i + 1) u.tree ↔ Sealed s0.tree path i tree := by
      constructor
      · intro hs below loc hmade hsome
        have hne : below :: loc ≠ path.position (i + 1) := by
          intro he
          rw [he, hminus.here] at hsome
          exact hsome rfl
        rw [hminus.elsewhere _ hne] at hsome
        exact ((made_next hm).mp (hs below loc ((made_next hm).mpr (Or.inl hmade)) hsome)).resolve_right
          hne
      · intro hs below loc hmade hsome
        by_cases he : below :: loc = path.position (i + 1)
        · rw [he]
          exact hlast_made
        · rcases (made_next hm).mp hmade with hbefore | rfl
          · rw [← hminus.elsewhere _ he] at hsome
            exact (made_next hm).mpr (Or.inl (hs below loc hbefore hsome))
          · rw [hat] at hv
            exact absurd (FileTree.vacant_iff.mp hv below) hsome
    refine ⟨?_, fun hs loc hmade => ?_, fun hs loc hmade => ?_, fun hs => ?_, fun hs => ?_⟩ <;>
      rw [hlast]
    · exact hundo.registry
    · rcases (made_next hm).mp hmade with hbefore | rfl
      · exact hundo.gone (hsealed.mp hs) loc hbefore
      · rw [hundo.stays (hsealed.mp hs) _ hnot]
        exact hminus.here
    · rw [hundo.stays (hsealed.mp hs) loc (fun hb => hmade ((made_next hm).mpr (Or.inl hb)))]
      refine hminus.elsewhere loc ?_
      rintro rfl
      exact hmade hlast_made
    · exact hundo.quiet (hsealed.mp hs)
    · exact hundo.noticed (fun hs' => hs (hsealed.mpr hs'))
  | false =>
    have hunsealed : ¬Sealed s0.tree path (i + 1) u.tree := by
      intro hs
      refine Bool.eq_false_iff.mp hv (FileTree.vacant_iff.mpr fun below => ?_)
      by_contra hsome
      rw [hat] at hsome
      exact none_below hm (hs below _ hlast_made hsome)
    rw [release_full hd hn' hv] at hlast
    have hundo := h.undo { u with failedRemovals := u.failedRemovals + 1, registry := s.registry }
      rfl hsame
    refine ⟨by rw [hlast]; exact hundo.registry, fun hs => absurd hs hunsealed,
      fun hs => absurd hs hunsealed, fun hs => absurd hs hunsealed, fun _ => ?_⟩
    rw [hlast]
    exact Nat.lt_of_lt_of_le (Nat.lt_succ_self u.failedRemovals) (release_all_fails_more
      { u with failedRemovals := u.failedRemovals + 1, registry := s.registry } keys)

theorem Entered.kept (h : Entered path s0 i current keys s) (hm : ¬Makes s0.tree path i)
    (hn : s.tree.node (path.position (i + 1)) = some ⟨.directory, key⟩) :
    Entered path s0 (i + 1) ⟨path.position (i + 1), key⟩ (keys ++ [key])
      { s with registry := s.registry.register current c key false } where
  location := rfl
  held := FileTree.holds_iff.mpr hn
  visited j hj := by
    rcases Nat.le_succ_iff.mp hj with hle | rfl
    · exact h.visited j hle
    · exact ⟨key, hn⟩
  old loc hloc := h.old loc (fun hb => hloc ((kept_next hm).mpr hb))
  quiet := h.quiet
  undo u hu hsame := undone_kept h hm hu (fun j hj => hsame j (Nat.le_succ_of_le hj))

theorem Entered.made (h : Entered path s0 i current keys s) (hm : Makes s0.tree path i) {name : Text}
    (hpos : path.position (i + 1) = name :: path.position i) (hnew : s.registry.get key = none)
    {tree : SocketTree} (hplus : s.tree.Plus (path.position (i + 1)) ⟨.directory, key⟩ tree) :
    Entered path s0 (i + 1) ⟨path.position (i + 1), key⟩ (keys ++ [key])
      { s with tree, registry := s.registry.register current (.name name) key true } where
  location := rfl
  held := FileTree.holds_iff.mpr hplus.here
  visited j hj := by
    rcases Nat.le_succ_iff.mp hj with hle | rfl
    · obtain ⟨identity, hv⟩ := h.visited j hle
      exact ⟨identity, (hplus.elsewhere _ (hm.2 j hle).symm).trans hv⟩
    · exact ⟨key, hplus.here⟩
  old loc hloc := by
    have hne : loc ≠ path.position (i + 1) := by
      rintro rfl
      exact hloc ((made_next hm).mpr (Or.inr rfl))
    exact (hplus.elsewhere loc hne).trans
      (h.old loc (fun hb => hloc ((made_next hm).mpr (Or.inl hb))))
  quiet := h.quiet
  undo u hu hsame := by
    refine undone_made h hm hpos hu hnew (fun j hj => ?_) ((hsame (i + 1) le_rfl).trans hplus.here)
    exact (hsame j (Nat.le_succ_of_le hj)).trans (hplus.elsewhere _ (hm.2 j hj).symm)

variable {fails : BindCall → Bool} {alloc : Allocator}

/-- No call of this component fails, and no file is in its way. -/
structure Passes (fails : BindCall → Bool) (tree : SocketTree) (path : SocketPath) (i : Nat) :
    Prop where
  opened : fails (.openParent i) = false
  directory : ∀ node, tree.node (path.position (i + 1)) = some node → node.kind = .directory
  created : Makes tree path i → fails (.createParent i) = false ∧
    fails (.reopenParent i) = false ∧ ∀ call, fails (.setParentMode i call) = false
  inspected : fails (.inspectParent i) = false
  cloned : fails (.cloneParent i) = false

/-- This component makes a directory, which then cannot be opened or inspected. -/
structure Lost (fails : BindCall → Bool) (tree : SocketTree) (path : SocketPath) (i : Nat) :
    Prop where
  opened : fails (.openParent i) = false
  makes : Makes tree path i
  created : fails (.createParent i) = false
  lost : fails (.reopenParent i) = true ∨ fails (.inspectParent i) = true

theorem Lost.stops (h : Lost fails t path i) : ¬Passes fails t path i := by
  intro hp
  rcases h.lost with hr | hi
  · rw [(hp.created h.makes).2.1] at hr
    cases hr
  · rw [hp.inspected] at hi
    cases hi

/-- What the walk does with one more component. -/
inductive Enters (fails : BindCall → Bool) (path : SocketPath) (s0 : SocketStore) (i : Nat)
    (keys : List FileIdentity) (s : SocketStore) : SocketStore × Option Descriptor → Prop where
  | entered (hp : Passes fails s0.tree path i) (next : Descriptor) (s' : SocketStore)
      (hw : Entered path s0 (i + 1) next (keys ++ [next.identity]) s') :
      Enters fails path s0 i keys s (s', some next)
  | refused (hp : ¬Passes fails s0.tree path i) (hl : ¬Lost fails s0.tree path i) :
      Enters fails path s0 i keys s (s, none)
  | lost (hl : Lost fails s0.tree path i) (tree : SocketTree) (node : FileNode FileIdentity)
      (hplus : s.tree.Plus (path.position (i + 1)) node tree) :
      Enters fails path s0 i keys s ({ s with tree }, none)

theorem open_ok {next : Descriptor} (hf : fails (.openParent i) = false)
    (ho : s.tree.openAt current c = .ok next) :
    openOrCreate fails alloc i current c s = (s, some (next, false)) := by
  simp only [openOrCreate, attempt, hf, ho, Bool.false_eq_true, ↓reduceIte]

theorem open_fails (h : fails (.openParent i) = true ∨ s.tree.openAt current c = .error .other) :
    openOrCreate fails alloc i current c s = (s, none) := by
  have hattempt : attempt (fails (.openParent i)) (s.tree.openAt current c) = .error .other := by
    rcases h with hf | ho
    · rw [attempt, if_pos hf]
    · rw [attempt, ho, ite_self]
  simp only [openOrCreate, hattempt]

theorem create_fails (hf : fails (.openParent i) = false)
    (ho : s.tree.openAt current c = .error .notFound) (hc : fails (.createParent i) = true) :
    openOrCreate fails alloc i current c s = (s, none) := by
  simp only [openOrCreate, attempt, hf, ho, hc, Bool.false_eq_true, ↓reduceIte]

theorem create_ok (hf : fails (.openParent i) = false)
    (ho : s.tree.openAt current c = .error .notFound) (hc : fails (.createParent i) = false)
    {tree : SocketTree}
    (ht : s.tree.createAt current c ⟨.directory, alloc.pick s.used⟩ = .ok tree) :
    openOrCreate fails alloc i current c s =
      reopenComponent fails i current c true { s with tree } := by
  simp only [openOrCreate, attempt, hf, ho, hc, ht, Bool.false_eq_true, ↓reduceIte]

theorem picked_new : s.registry.get (alloc.pick s.used) = none := by
  by_contra hne
  obtain ⟨record, hr⟩ := Option.ne_none_iff_exists'.mp hne
  refine alloc.fresh s.used (Finset.mem_union_right _ (List.mem_toFinset.mpr ?_))
  exact SortedMap.mem_keys.mpr ⟨record, hr⟩

theorem Entered.follow (h : Entered path s0 i current keys s) (hc : path.parents[i]? = some c) :
    c.follow current.location = path.position (i + 1) := by
  rw [h.location, position_next hc]

/-- What was there before the walk is what is there now, where the walk has made nothing. -/
theorem Entered.before (h : Entered path s0 i current keys s) {node : FileNode FileIdentity}
    (hn : s0.tree.node loc = some node) : s.tree.node loc = some node := by
  rw [h.old, hn]
  rintro ⟨j, -, hm, rfl⟩
  rw [hm.1] at hn
  cases hn

/-- Made directories are still there. -/
theorem Entered.there (h : Entered path s0 i current keys s)
    (hm : MadeBefore s0.tree path i loc) :
    ∃ identity, s.tree.node loc = some ⟨.directory, identity⟩ := by
  obtain ⟨j, hj, -, rfl⟩ := hm
  exact h.visited (j + 1) hj

theorem enters_directory (h : Entered path s0 i current keys s) (hc : path.parents[i]? = some c)
    (hf : fails (.openParent i) = false)
    (hn : s.tree.node (path.position (i + 1)) = some ⟨.directory, key⟩) :
    Enters fails path s0 i keys s (enterComponent fails alloc i current c s) := by
  have hm : ¬Makes s0.tree path i := by
    refine h.not_made ?_
    rw [hn]
    exact Option.some_ne_none _
  have hopen : s.tree.openAt current c = .ok ⟨path.position (i + 1), key⟩ := by
    rw [← h.follow hc] at hn ⊢
    exact open_at_directory h.held hn
  have hl : ¬Lost fails s0.tree path i := fun hl => hm hl.makes
  simp only [enterComponent, open_ok hf hopen, Bool.false_and, Bool.false_eq_true, ↓reduceIte]
  split
  · rename_i hi
    refine .refused (fun hp => ?_) hl
    rw [hp.inspected] at hi
    cases hi
  · rename_i hi
    split
    · rename_i hcl
      refine .refused (fun hp => ?_) hl
      rw [hp.cloned] at hcl
      cases hcl
    · rename_i hcl
      rw [Bool.not_eq_true] at hi hcl
      refine .entered ⟨hf, fun node hnode => ?_, fun hm' => absurd hm' hm, hi, hcl⟩ _ _ (h.kept hm hn)
      rw [h.before hnode, Option.some.injEq] at hn
      rw [hn]

/-- A directory that was made and could not be used is taken away again. -/
theorem made_undone {name : Text} {tree : SocketTree} (hd : s.tree.holds current = true)
    (hn : s.tree.node (name :: current.location) = none)
    (hplus : s.tree.Plus (name :: current.location) ⟨.directory, key⟩ tree) :
    SocketStore.removeDirectoryIfUnchanged { s with tree } current (.name name) key = s := by
  obtain ⟨tree', hrelease, hminus⟩ := release_vacant (u := { s with tree })
    (plus_held hplus hd hn) hplus.here (plus_vacant hplus hn)
  have hsame : tree' = s.tree := hplus.undone hminus hn
  rw [hrelease, hsame]

theorem mode_set {name : Text} {tree : SocketTree} (hd : tree.holds current = true)
    (hn : tree.node (name :: current.location) = some ⟨.directory, key⟩) :
    setCreatedDirectoryMode fails i current (.name name) key { s with tree } = true ↔
      ∀ call, fails (.setParentMode i call) = false := by
  have hstat : tree.statAt current (.name name) = some ⟨.directory, key⟩ := (stat_at_held hd).trans hn
  simp only [setCreatedDirectoryMode, hstat, beq_self_eq_true, Bool.and_true, Bool.and_eq_true,
    Bool.not_eq_true']
  constructor
  · rintro ⟨⟨hr, hi⟩, hc⟩ call
    cases call with
    | reopen => exact hr
    | inspect => exact hi
    | change => exact hc
  · exact fun hall => ⟨⟨hall .reopen, hall .inspect⟩, hall .change⟩

theorem enters_missing (h : Entered path s0 i current keys s) (hf : fails (.openParent i) = false)
    (hn : s.tree.node (path.position (i + 1)) = none) {name : Text}
    (hc : path.parents[i]? = some (.name name)) :
    Enters fails path s0 i keys s (enterComponent fails alloc i current (.name name) s) := by
  have hm := h.makes hn
  have hpos : path.position (i + 1) = name :: path.position i := position_next hc
  have hat : name :: current.location = path.position (i + 1) := h.follow hc
  have hn' : s.tree.node (name :: current.location) = none := by rw [hat, hn]
  have hopen : s.tree.openAt current (.name name) = .error .notFound := open_at_missing h.held hn'
  cases hcr : fails (.createParent i) with
  | true =>
    simp only [enterComponent, create_fails hf hopen hcr]
    refine .refused (fun hp => ?_) (fun hl => ?_)
    · rw [(hp.created hm).1] at hcr
      cases hcr
    · rw [hl.created] at hcr
      cases hcr
  | false =>
    obtain ⟨tree, ht, hplus⟩ := create_at_free ⟨.directory, alloc.pick s.used⟩ h.held hn'
    have hd := plus_held hplus h.held hn'
    have hreopen : tree.openAt current (.name name) =
        .ok ⟨path.position (i + 1), alloc.pick s.used⟩ := by
      rw [← hat]
      exact open_at_directory hd hplus.here
    have hplus' : s.tree.Plus (path.position (i + 1)) ⟨.directory, alloc.pick s.used⟩ tree :=
      hat ▸ hplus
    cases hr : fails (.reopenParent i) with
    | true =>
      simp only [enterComponent, create_ok hf hopen hcr ht, reopenComponent, attempt, hr, ↓reduceIte]
      exact .lost ⟨hf, hm, hcr, Or.inl hr⟩ tree _ hplus'
    | false =>
      simp only [enterComponent, create_ok hf hopen hcr ht, reopenComponent, attempt, hr, hreopen,
        Bool.false_eq_true, ↓reduceIte, Bool.true_and, made_undone h.held hn' hplus]
      have hl : fails (.inspectParent i) = false → ¬Lost fails s0.tree path i := by
        intro hi hl
        rcases hl.lost with hr' | hi'
        · rw [hr] at hr'
          cases hr'
        · rw [hi] at hi'
          cases hi'
      split
      · rename_i hi
        exact .lost ⟨hf, hm, hcr, Or.inr hi⟩ tree _ hplus'
      · rename_i hi
        rw [Bool.not_eq_true] at hi
        split
        · rename_i hmode
          refine .refused (fun hp => ?_) (hl hi)
          rw [(mode_set hd hplus.here).mpr (hp.created hm).2.2] at hmode
          cases hmode
        · rename_i hmode
          rw [Bool.not_eq_true, Bool.not_eq_false'] at hmode
          split
          · rename_i hcl
            refine .refused (fun hp => ?_) (hl hi)
            rw [hp.cloned] at hcl
            cases hcl
          · rename_i hcl
            rw [Bool.not_eq_true] at hcl
            refine .entered ⟨hf, fun node hnode => ?_, fun _ => ⟨hcr, hr,
              (mode_set hd hplus.here).mp hmode⟩, hi, hcl⟩ _ _ (h.made hm hpos picked_new hplus')
            rw [h.before hnode] at hn
            cases hn

/-- What one more component does, whatever fails. -/
theorem enter_outcome (fails : BindCall → Bool) (alloc : Allocator)
    (h : Entered path s0 i current keys s) (hc : path.parents[i]? = some c) :
    Enters fails path s0 i keys s (enterComponent fails alloc i current c s) := by
  cases hf : fails (.openParent i) with
  | true =>
    simp only [enterComponent, open_fails (Or.inl hf)]
    refine .refused (fun hp => ?_) (fun hl => ?_)
    · rw [hp.opened] at hf
      cases hf
    · rw [hl.opened] at hf
      cases hf
  | false =>
    cases hn : s.tree.node (path.position (i + 1)) with
    | none =>
      obtain ⟨name, hname, -⟩ := (h.makes hn).named
      rw [hc, Option.some.injEq] at hname
      subst hname
      exact enters_missing h hf hn hc
    | some node =>
      by_cases hk : node.kind = .directory
      · obtain ⟨kind, identity⟩ := node
        cases hk
        exact enters_directory h hc hf hn
      · have hopen : s.tree.openAt current c = .error .other :=
          open_at_other h.held (by rw [h.follow hc, hn]) hk
        simp only [enterComponent, open_fails (Or.inr hopen)]
        have hold : s0.tree.node (path.position (i + 1)) = some node := by
          rw [← h.old, hn]
          intro hm
          obtain ⟨identity, hd⟩ := h.there hm
          rw [hn, Option.some.injEq] at hd
          rw [hd] at hk
          exact hk rfl
        refine .refused (fun hp => hk (hp.directory node hold)) (fun hl => ?_)
        rw [hl.makes.1] at hold
        cases hold

/-- How a walk over the components ends. -/
inductive Ends (fails : BindCall → Bool) (path : SocketPath) (s0 : SocketStore) :
    SocketStore × List FileIdentity × Option Descriptor → Prop where
  | reached (hp : ∀ i < path.parents.length, Passes fails s0.tree path i) (parent : Descriptor)
      (keys : List FileIdentity) (s : SocketStore)
      (hw : Entered path s0 path.parents.length parent keys s) :
      Ends fails path s0 (s, keys, some parent)
  | refused (i : Nat) (hi : i < path.parents.length)
      (before : ∀ j < i, Passes fails s0.tree path j) (hp : ¬Passes fails s0.tree path i)
      (hl : ¬Lost fails s0.tree path i) (current : Descriptor) (keys : List FileIdentity)
      (s : SocketStore) (hw : Entered path s0 i current keys s) : Ends fails path s0 (s, keys, none)
  | lost (i : Nat) (hi : i < path.parents.length)
      (before : ∀ j < i, Passes fails s0.tree path j) (hl : Lost fails s0.tree path i)
      (current : Descriptor) (keys : List FileIdentity) (s : SocketStore)
      (hw : Entered path s0 i current keys s) (tree : SocketTree) (node : FileNode FileIdentity)
      (hplus : s.tree.Plus (path.position (i + 1)) node tree) :
      Ends fails path s0 ({ s with tree }, keys, none)

theorem walk_ends {components : List (PathComponent Text)} (hdrop : path.parents.drop i = components)
    (hle : i ≤ path.parents.length) (before : ∀ j < i, Passes fails s0.tree path j)
    (h : Entered path s0 i current keys s) :
    Ends fails path s0 (walkParents fails alloc i components current keys s) := by
  induction components generalizing i current keys s with
  | nil =>
    have hlen : i = path.parents.length :=
      le_antisymm hle (List.drop_eq_nil_iff.mp hdrop)
    subst hlen
    exact .reached before current keys s h
  | cons c rest ih =>
    have hlt : i < path.parents.length := by
      by_contra hge
      rw [List.drop_eq_nil_iff.mpr (by omega)] at hdrop
      cases hdrop
    have hc : path.parents[i]? = some c := by
      rw [← List.head?_drop, hdrop]
      rfl
    have hrest : path.parents.drop (i + 1) = rest := by
      rw [← List.tail_drop, hdrop]
      rfl
    have hout := enter_outcome fails alloc h hc
    unfold walkParents
    generalize enterComponent fails alloc i current c s = result at hout
    cases hout with
    | entered hp next s' hw =>
      refine ih hrest hlt (fun j hj => ?_) hw
      rcases Nat.lt_succ_iff_lt_or_eq.mp hj with hlt | rfl
      · exact before j hlt
      · exact hp
    | refused hp hl => exact .refused i hlt before hp hl current keys s h
    | lost hl tree node hplus => exact .lost i hlt before hl current keys s h tree node hplus

theorem Entered.sealed (h : Entered path s0 i current keys s) : Sealed s0.tree path i s.tree := by
  intro name loc hm hsome
  by_contra hnot
  rw [h.old _ hnot] at hsome
  obtain ⟨j, -, hmakes, rfl⟩ := hm
  exact hsome (missing_below hmakes.1)

/-- A walk that is taken back has never happened. -/
theorem walked_clean (h : Entered path s0 i current keys s) : s.releaseAll keys = s0 := by
  have hundo := h.undo s rfl (fun _ _ => rfl)
  have htree : (s.releaseAll keys).tree = s0.tree := by
    refine FileTree.ext_node fun loc => ?_
    by_cases hm : MadeBefore s0.tree path i loc
    · rw [hundo.gone h.sealed loc hm]
      obtain ⟨j, -, hmakes, rfl⟩ := hm
      exact hmakes.1.symm
    · rw [hundo.stays h.sealed loc hm, h.old loc hm]
  have hregistry := hundo.registry
  have hquiet := (hundo.quiet h.sealed).trans h.quiet
  cases hs : s.releaseAll keys
  rw [hs] at htree hregistry hquiet
  dsimp only at htree hregistry hquiet
  subst htree hregistry hquiet
  rfl

/-- Something more was put into the last directory. It stays, and the removal of a
directory around it that the walk has made fails. -/
structure Remains (s0 s : SocketStore) (parent : Location Text) : Prop where
  registry : s.registry = s0.registry
  changed : s0.tree.node parent ≠ none → s.tree ≠ s0.tree
  quiet : s0.tree.node parent ≠ none → s.failedRemovals = s0.failedRemovals
  noticed : s0.tree.node parent = none → s.failedRemovals ≠ s0.failedRemovals

theorem walked_remains (h : Entered path s0 i current keys s) {name : Text}
    {node : FileNode FileIdentity} {tree : SocketTree}
    (hfree : s.tree.node (name :: path.position i) = none)
    (hplus : s.tree.Plus (name :: path.position i) node tree) :
    Remains s0 (SocketStore.releaseAll { s with tree } keys) (path.position i) := by
  have hnot : ¬MadeBefore s0.tree path i (name :: path.position i) := by
    intro hm
    obtain ⟨identity, hd⟩ := h.there hm
    rw [hfree] at hd
    cases hd
  have hvisited : ∀ j ≤ i, name :: path.position i ≠ path.position j := by
    intro j hj he
    obtain ⟨identity, hv⟩ := h.visited j hj
    rw [← he, hfree] at hv
    cases hv
  have hundo := h.undo { s with tree } rfl
    (fun j hj => hplus.elsewhere _ (hvisited j hj).symm)
  have hold : s0.tree.node (name :: path.position i) = none := by rw [← h.old _ hnot, hfree]
  have hsealed : s0.tree.node (path.position i) ≠ none → Sealed s0.tree path i tree := by
    intro hparent below loc hm hsome
    by_cases he : below :: loc = name :: path.position i
    · obtain ⟨-, rfl⟩ := List.cons.inj he
      obtain ⟨j, -, hmakes, hloc⟩ := hm
      rw [← hloc] at hparent
      exact absurd hmakes.1 hparent
    · rw [hplus.elsewhere _ he] at hsome
      exact h.sealed below loc hm hsome
  have hunsealed : s0.tree.node (path.position i) = none → ¬Sealed s0.tree path i tree := by
    intro hparent hs
    have hm : MadeBefore s0.tree path i (path.position i) := by
      by_contra hnone
      obtain ⟨identity, hv⟩ := h.visited i le_rfl
      rw [h.old _ hnone, hparent] at hv
      cases hv
    refine hnot (hs name _ hm ?_)
    rw [hplus.here]
    exact Option.some_ne_none _
  refine ⟨hundo.registry, fun hparent he => ?_, fun hparent => ?_, fun hparent he => ?_⟩
  · have hstays := hundo.stays (hsealed hparent) _ hnot
    rw [he, hold] at hstays
    have hhere : tree.node (name :: path.position i) = some node := hplus.here
    rw [hhere] at hstays
    cases hstays
  · rw [hundo.quiet (hsealed hparent)]
    exact h.quiet
  · have hless := hundo.noticed (hunsealed hparent)
    rw [he, ← h.quiet] at hless
    exact absurd hless (lt_irrefl _)

end Steps

end Proofs

end Baffle
