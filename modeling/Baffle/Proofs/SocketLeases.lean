import Baffle.SocketLeases
import Baffle.Proofs.Directories

namespace Baffle

def BindStage.parent : BindStage → Option Descriptor
  | .opened parent _ _ | .free parent _ _ | .listening parent _ _ => some parent
  | .bound guard => some guard.parent
  | .idle | .releasing _ | .dropped => none

/-- Where the socket of a session was bound. -/
def BindStage.socket : BindStage → Option (Location Text)
  | .listening parent name _ => some (name :: parent.location)
  | .bound guard => some (guard.name :: guard.parent.location)
  | _ => none

/-- The session will take this socket for its own. -/
def BindStage.recognizes (identity : FileIdentity) : BindStage → Prop
  | .bound guard => guard.identity = identity
  | _ => True

namespace Proofs

variable {tree0 tree tree' : SocketTree} {s s' : LeaseState} {g : Nat} {key : FileIdentity}
  {keys : List FileIdentity} {locs : List (Location Text)} {loc : Location Text}
  {stage : BindStage}

/-- Leased directories in the order of their leases, each below the root or below
an earlier one. -/
inductive Trail (tree : SocketTree) : List FileIdentity → List (Location Text) → Prop where
  | nil : Trail tree [] []
  | snoc {keys : List FileIdentity} {locs : List (Location Text)} {key : FileIdentity}
      {loc : Location Text} (before : Trail tree keys locs)
      (hn : tree.node loc = some ⟨.directory, key⟩) (hb : loc.tail = [] ∨ loc.tail ∈ locs) :
      Trail tree (keys ++ [key]) (locs ++ [loc])

theorem Trail.closed (h : Trail tree keys locs) : ∀ loc ∈ locs, loc.tail = [] ∨ loc.tail ∈ locs := by
  induction h with
  | nil => exact fun _ hm => absurd hm List.not_mem_nil
  | snoc before hn hb ih =>
    intro loc hm
    rcases List.mem_append.mp hm with hm | hm
    · exact (ih loc hm).imp id (List.mem_append_left _)
    · rw [List.mem_singleton.mp hm]
      exact hb.imp id (List.mem_append_left _)

theorem Trail.leased (h : Trail tree keys locs) :
    ∀ loc ∈ locs, ∃ key ∈ keys, tree.node loc = some ⟨.directory, key⟩ := by
  induction h with
  | nil => exact fun _ hm => absurd hm List.not_mem_nil
  | snoc before hn hb ih =>
    intro loc hm
    rcases List.mem_append.mp hm with hm | hm
    · obtain ⟨key, hk, hn⟩ := ih loc hm
      exact ⟨key, List.mem_append_left _ hk, hn⟩
    · rw [List.mem_singleton.mp hm]
      exact ⟨_, List.mem_append_right _ (List.mem_singleton_self _), hn⟩

theorem Trail.located (h : Trail tree keys locs) :
    ∀ key ∈ keys, ∃ loc ∈ locs, tree.node loc = some ⟨.directory, key⟩ := by
  induction h with
  | nil => exact fun _ hm => absurd hm List.not_mem_nil
  | snoc before hn hb ih =>
    intro key hm
    rcases List.mem_append.mp hm with hm | hm
    · obtain ⟨loc, hl, hn⟩ := ih key hm
      exact ⟨loc, List.mem_append_left _ hl, hn⟩
    · rw [List.mem_singleton.mp hm]
      exact ⟨_, List.mem_append_right _ (List.mem_singleton_self _), hn⟩

/-- Leased directories are not touched. -/
theorem Trail.kept (h : Trail tree keys locs)
    (hk : ∀ loc, ∀ key ∈ keys, tree.node loc = some ⟨.directory, key⟩ →
      tree'.node loc = some ⟨.directory, key⟩) : Trail tree' keys locs := by
  induction h with
  | nil => exact .nil
  | snoc before hn hb ih =>
    refine .snoc (ih fun loc key hm => hk loc key (List.mem_append_left _ hm)) ?_ hb
    exact hk _ _ (List.mem_append_right _ (List.mem_singleton_self _)) hn

theorem Trail.pop (h : Trail tree (keys ++ [key]) locs) :
    ∃ locs', Trail tree keys locs' := by
  generalize hks : keys ++ [key] = ks at h
  cases h with
  | nil => exact absurd hks (by simp)
  | snoc before hn hb =>
    obtain ⟨rfl, -⟩ := List.append_inj' hks rfl
    exact ⟨_, before⟩

/-- The leases of a stage are a trail to its open directory. -/
def Placed (tree : SocketTree) (stage : BindStage) : Prop :=
  ∃ locs, Trail tree stage.keys locs ∧ ∀ d, stage.parent = some d →
    tree.holds d = true ∧ (d.location = [] ∨ d.location ∈ locs)

/-- A location that a stage has leased, or the root. -/
theorem Placed.kept (h : Placed tree stage)
    (hk : ∀ loc, ∀ key ∈ stage.keys, tree.node loc = some ⟨.directory, key⟩ →
      tree'.node loc = some ⟨.directory, key⟩)
    (hroot : tree'.node [] = tree.node []) : Placed tree' stage := by
  obtain ⟨locs, ht, hp⟩ := h
  refine ⟨locs, ht.kept hk, fun d hd => ?_⟩
  obtain ⟨hheld, hat⟩ := hp d hd
  refine ⟨?_, hat⟩
  rw [FileTree.holds_iff] at hheld ⊢
  rcases hat with hnil | hm
  · rw [hnil] at hheld ⊢
    rw [hroot, hheld]
  · obtain ⟨key, hkey, hn⟩ := ht.leased _ hm
    rw [hheld] at hn
    rw [hk _ key hkey (hheld.trans hn), ← hn]

def leasesOf (registry : SocketDirectoryRegistry) (key : FileIdentity) : Nat :=
  ((registry.get key).map DirectoryRecord.leases).getD 0

/-- The leases that live sessions hold on a directory, counted with multiplicity. -/
def leasesHeld (s : LeaseState) (key : FileIdentity) : Nat :=
  ∑ g ∈ Finset.range s.nextGuard, (s.guards g).keys.count key

/-- A directory that Baffle has made, as its record describes it. -/
structure MadeAt (tree0 tree : SocketTree) (key : FileIdentity) (record : DirectoryRecord) : Prop where
  named : ∃ name, record.name = .name name
  held : tree.holds record.parent = true
  here : tree.node (record.name.follow record.parent.location) = some ⟨.directory, key⟩
  new : tree0.node (record.name.follow record.parent.location) = none
  apart : ∀ loc, tree0.node loc ≠ some ⟨.directory, key⟩

structure Leased (tree0 : SocketTree) (s : LeaseState) : Prop where
  idle : ∀ g, s.nextGuard ≤ g → s.guards g = .idle
  quiet : s.store.failedRemovals = 0
  kept : ∀ loc node, tree0.node loc = some node → s.store.tree.node loc = some node
  counts : ∀ key, leasesOf s.store.registry key = leasesHeld s key
  records : ∀ key record, s.store.registry.get key = some record →
    record.createdByBaffle = true → MadeAt tree0 s.store.tree key record
  made : ∀ loc key, s.store.tree.node loc = some ⟨.directory, key⟩ → tree0.node loc = none →
    ∃ record, s.store.registry.get key = some record ∧ record.createdByBaffle = true ∧
      record.name.follow record.parent.location = loc
  placed : ∀ g, Placed s.store.tree (s.guards g)
  clear : ∀ g loc, (s.guards g).socket = some loc → tree0.node loc = none
  sockets : ∀ loc node, s.store.tree.node loc = some node → node.kind ≠ .directory →
    tree0.node loc = none → node.kind = .socket ∧
      ∃ g, (s.guards g).socket = some loc ∧ (s.guards g).recognizes node.identity

theorem leased_init (tree0 : SocketTree) : Leased tree0 (LeaseState.init tree0) where
  idle _ _ := rfl
  quiet := rfl
  kept _ _ h := h
  counts key := by
    rw [leasesHeld, LeaseState.init, Finset.range_zero, Finset.sum_empty]
    rfl
  records key record h := by
    have hnone : SocketDirectoryRegistry.init.get key = none := SortedMap.get_empty key
    rw [LeaseState.init, hnone] at h
    cases h
  made loc key hn hnone := by
    have hsame : tree0.node loc = some ⟨.directory, key⟩ := hn
    rw [hnone] at hsame
    cases hsame
  placed _ := ⟨[], .nil, fun d hd => nomatch hd⟩
  clear g loc h := nomatch h
  sockets loc node hn _ hnone := by
    have hsame : tree0.node loc = some node := hn
    rw [hnone] at hsame
    cases hsame

@[simp] theorem set_guard_self : (s.setGuard g stage).guards g = stage := Function.update_self ..

@[simp] theorem set_guard_ne {q : Nat} (h : q ≠ g) : (s.setGuard g stage).guards q = s.guards q :=
  Function.update_of_ne h ..

theorem held_set (stage : BindStage) (hg : g < s.nextGuard) (key : FileIdentity) :
    leasesHeld (s.setGuard g stage) key + (s.guards g).keys.count key =
      leasesHeld s key + stage.keys.count key := by
  have hmem : g ∈ Finset.range s.nextGuard := Finset.mem_range.mpr hg
  have hrest : ∑ q ∈ (Finset.range s.nextGuard).erase g,
      ((s.setGuard g stage).guards q).keys.count key =
      ∑ q ∈ (Finset.range s.nextGuard).erase g, (s.guards q).keys.count key := by
    refine Finset.sum_congr rfl fun q hq => ?_
    rw [set_guard_ne (Finset.ne_of_mem_erase hq)]
  have hnew : ((s.setGuard g stage).guards g).keys.count key = stage.keys.count key := by
    rw [set_guard_self]
  have hafter := Finset.add_sum_erase (Finset.range s.nextGuard)
    (fun q => ((s.setGuard g stage).guards q).keys.count key) hmem
  have hbefore := Finset.add_sum_erase (Finset.range s.nextGuard)
    (fun q => (s.guards q).keys.count key) hmem
  have hsame : leasesHeld (s.setGuard g stage) key =
      ∑ q ∈ Finset.range s.nextGuard, ((s.setGuard g stage).guards q).keys.count key := rfl
  rw [hsame, leasesHeld]
  omega

theorem leases_pos (h : ∀ g, s.nextGuard ≤ g → s.guards g = .idle) :
    0 < leasesHeld s key ↔ ∃ g, key ∈ (s.guards g).keys := by
  rw [leasesHeld, Finset.sum_pos_iff]
  constructor
  · rintro ⟨g, -, hg⟩
    exact ⟨g, List.count_pos_iff.mp hg⟩
  · rintro ⟨g, hg⟩
    refine ⟨g, ?_, List.count_pos_iff.mpr hg⟩
    by_contra hge
    rw [h g (by simpa using hge)] at hg
    exact absurd hg List.not_mem_nil

theorem leases_record {registry : SocketDirectoryRegistry} :
    0 < leasesOf registry key ↔ ∃ record, registry.get key = some record := by
  rw [leasesOf]
  cases hr : registry.get key with
  | none => simp
  | some record => simpa using registry.held key record hr

theorem BindStage.socket_parent {stage : BindStage} (h : stage.socket = some loc) :
    ∃ d, stage.parent = some d ∧ loc.tail = d.location := by
  cases stage with
  | listening parent name keys =>
    rw [← Option.some.inj h]
    exact ⟨parent, rfl, rfl⟩
  | bound guard =>
    rw [← Option.some.inj h]
    exact ⟨guard.parent, rfl, rfl⟩
  | _ => cases h

theorem Leased.located (h : Leased tree0 s) {record : DirectoryRecord}
    (hr : s.store.registry.get key = some record) (hc : record.createdByBaffle = true)
    (hn : s.store.tree.node loc = some ⟨.directory, key⟩) :
    record.name.follow record.parent.location = loc := by
  cases hold : tree0.node loc with
  | none =>
    obtain ⟨record', hr', -, hloc⟩ := h.made loc key hn hold
    rw [hr, Option.some.injEq] at hr'
    rw [hr', hloc]
  | some node =>
    rw [h.kept loc node hold, Option.some.injEq] at hn
    rw [hn] at hold
    exact absurd hold ((h.records key record hr hc).apart loc)

/-- A trail that leads into a made directory, or a socket in it, leases it. -/
theorem placed_leases {record : DirectoryRecord} (hm : MadeAt tree0 tree key record)
    (hp : Placed tree stage)
    (hat : (∃ below ∈ stage.keys, ∀ l, tree.node l = some ⟨.directory, below⟩ →
        l.tail = record.name.follow record.parent.location) ∨
      ∃ d, stage.parent = some d ∧ d.location = record.name.follow record.parent.location) :
    key ∈ stage.keys := by
  obtain ⟨locs, ht, hparent⟩ := hp
  have hroot : record.name.follow record.parent.location ≠ [] := by
    intro he
    obtain ⟨identity, hi⟩ := tree0.rooted
    have hnew := hm.new
    rw [he, FileTree.node, hi] at hnew
    cases hnew
  have hin : record.name.follow record.parent.location ∈ locs := by
    rcases hat with ⟨below, hb, htail⟩ | ⟨d, hd, hloc⟩
    · obtain ⟨l, hl, hn⟩ := ht.located below hb
      rw [← htail l hn] at hroot ⊢
      exact (ht.closed l hl).resolve_left hroot
    · rw [← hloc] at hroot ⊢
      exact (hparent d hd).2.resolve_left hroot
  obtain ⟨key', hk, hn⟩ := ht.leased _ hin
  rw [hm.here, Option.some.injEq, FileNode.mk.injEq] at hn
  rw [hn.2]
  exact hk

theorem release_shared {store : SocketStore} {record : DirectoryRecord}
    (hr : store.registry.get key = some record) (hl : 0 < record.leases - 1) :
    store.releaseDirectoryLease key = { store with
      registry := store.registry.put key { record with leases := record.leases - 1 } hl } := by
  unfold SocketStore.releaseDirectoryLease
  rw [hr]
  exact dif_pos hl

theorem release_last {store : SocketStore} {record : DirectoryRecord}
    (hr : store.registry.get key = some record) (hl : record.leases = 1) :
    store.releaseDirectoryLease key =
      { (if record.createdByBaffle then
          store.removeDirectoryIfUnchanged record.parent record.name key else store) with
        registry := store.registry.remove key } := by
  have hregistry : (if record.createdByBaffle then
      store.removeDirectoryIfUnchanged record.parent record.name key else store).registry =
      store.registry := by
    split
    · exact remove_keeps_registry
    · rfl
  unfold SocketStore.releaseDirectoryLease
  rw [hr]
  refine (dif_neg (by omega)).trans ?_
  dsimp only
  rw [hregistry]

theorem leases_put {registry : SocketDirectoryRegistry} {record : DirectoryRecord}
    {h : 0 < record.leases} (key' : FileIdentity) :
    leasesOf (registry.put key record h) key' =
      if key' = key then record.leases else leasesOf registry key' := by
  rw [leasesOf, registry_get_put]
  split
  · rfl
  · rfl

theorem leases_remove {registry : SocketDirectoryRegistry} (key' : FileIdentity) :
    leasesOf (registry.remove key) key' = if key' = key then 0 else leasesOf registry key' := by
  rw [leasesOf, registry_get_remove]
  split
  · rfl
  · rfl

/-- The state after one lease of a session that drops its directories. -/
def popped (s : LeaseState) (g : Nat) (keys : List FileIdentity) (key : FileIdentity) : LeaseState :=
  { s with store := s.store.releaseDirectoryLease key }.setGuard g (.releasing keys)

/-- A step removes directories only when they are not leased any more and were not
there before. -/
def RemovesUnleased (tree0 : SocketTree) (s s' : LeaseState) : Prop :=
  ∀ loc node, s.store.tree.node loc = some node → node.kind = .directory →
    s'.store.tree.node loc = some node ∨
      tree0.node loc = none ∧ leasesHeld s' node.identity = 0

theorem Leased.guard_lt (h : Leased tree0 s) (hg : s.guards g ≠ .idle) : g < s.nextGuard := by
  by_contra hge
  exact hg (h.idle g (Nat.le_of_not_lt hge))

theorem Placed.pop (h : Placed tree (.releasing (keys ++ [key]))) : Placed tree (.releasing keys) := by
  obtain ⟨locs, ht, -⟩ := h
  obtain ⟨locs', ht'⟩ := ht.pop
  exact ⟨locs', ht', fun d hd => nomatch hd⟩

theorem popped_guards (q : Nat) : (popped s g keys key).guards q =
    if q = g then .releasing keys else s.guards q := Function.update_apply ..

theorem popped_socket (hg : s.guards g = .releasing (keys ++ [key])) {q : Nat} :
    ((popped s g keys key).guards q).socket = (s.guards q).socket := by
  rw [popped_guards]
  split
  · rename_i hq
    rw [hq, hg]
    rfl
  · rfl

theorem popped_recognizes {q : Nat} {identity : FileIdentity}
    (hr : (s.guards q).recognizes identity) :
    ((popped s g keys key).guards q).recognizes identity := by
  rw [popped_guards]
  split
  · trivial
  · exact hr

/-- What the release of one lease may do to registry and tree. -/
structure Releases (tree0 : SocketTree) (key : FileIdentity) (left : Nat) (store store' : SocketStore) :
    Prop where
  quiet : store'.failedRemovals = store.failedRemovals
  counts : ∀ key', leasesOf store'.registry key' + (if key' = key then 1 else 0) =
    leasesOf store.registry key'
  less : ∀ loc node, store'.tree.node loc = some node → store.tree.node loc = some node
  gone : ∀ loc node, store.tree.node loc = some node →
    store'.tree.node loc = some node ∨ node = ⟨.directory, key⟩ ∧ tree0.node loc = none ∧ left = 0
  before : ∀ key' record, store'.registry.get key' = some record → ∃ record0,
    store.registry.get key' = some record0 ∧ record.name = record0.name ∧
      record.parent = record0.parent ∧ record.createdByBaffle = record0.createdByBaffle ∧
      (key' = key → 0 < left)
  after : ∀ key' record0 loc, store.registry.get key' = some record0 →
    record0.createdByBaffle = true → store'.tree.node loc = some ⟨.directory, key'⟩ →
    record0.name.follow record0.parent.location = loc → ∃ record,
      store'.registry.get key' = some record ∧ record.name = record0.name ∧
        record.parent = record0.parent ∧ record.createdByBaffle = true

section Release

variable {store : SocketStore} {record : DirectoryRecord} {left : Nat}

theorem removed_counts (hr : store.registry.get key = some record) (hone : record.leases = 1)
    (key' : FileIdentity) : leasesOf (store.registry.remove key) key' +
      (if key' = key then 1 else 0) = leasesOf store.registry key' := by
  rw [leases_remove]
  split
  · rename_i he
    rw [he, leasesOf, hr]
    exact hone.symm
  · rfl

theorem removed_before {registry : SocketDirectoryRegistry} {key' : FileIdentity}
    (hget : (registry.remove key).get key' = some record) :
    key' ≠ key ∧ registry.get key' = some record := by
  rw [registry_get_remove] at hget
  split at hget
  · cases hget
  · rename_i hne
    exact ⟨hne, hget⟩

theorem removed_after {registry : SocketDirectoryRegistry} {key' : FileIdentity} (hne : key' ≠ key)
    (hget : registry.get key' = some record) : (registry.remove key).get key' = some record :=
  ((registry_get_remove key').trans (if_neg hne)).trans hget

/-- Another session has a lease on the directory. -/
theorem releases_shared (hr : store.registry.get key = some record)
    (hshared : 0 < record.leases - 1) (hleft : 0 < left) :
    Releases tree0 key left store (store.releaseDirectoryLease key) := by
  rw [release_shared hr hshared]
  refine ⟨rfl, fun key' => ?_, fun _ _ hn => hn, fun _ _ hn => Or.inl hn, ?_, ?_⟩
  · have hleases : leasesOf store.registry key = record.leases := by rw [leasesOf, hr]; rfl
    rw [leases_put]
    split
    · rename_i he
      rw [he, hleases]
      dsimp only
      omega
    · rfl
  · intro key' record' hget
    rw [registry_get_put] at hget
    split at hget
    · rename_i he
      rw [← Option.some.inj hget, he]
      exact ⟨record, hr, rfl, rfl, rfl, fun _ => hleft⟩
    · rename_i hne
      exact ⟨record', hget, rfl, rfl, rfl, fun he => absurd he hne⟩
  · intro key' record0 loc hget hc _ _
    by_cases he : key' = key
    · rw [he, hr, Option.some.injEq] at hget
      subst hget
      exact ⟨_, (registry_get_put (h := hshared) key').trans (if_pos he), rfl, rfl, hc⟩
    · exact ⟨record0, ((registry_get_put (h := hshared) key').trans (if_neg he)).trans hget, rfl, rfl, hc⟩

/-- The last lease goes, of a directory that Baffle has not made. -/
theorem releases_unmade (hr : store.registry.get key = some record) (hone : record.leases = 1)
    (hc : record.createdByBaffle = false) :
    Releases tree0 key left store (store.releaseDirectoryLease key) := by
  rw [release_last hr hone, hc]
  refine ⟨rfl, removed_counts hr hone, fun _ _ hn => hn, fun _ _ hn => Or.inl hn, ?_, ?_⟩
  · intro key' record' hget
    obtain ⟨hne, hold⟩ := removed_before hget
    exact ⟨record', hold, rfl, rfl, rfl, fun he => absurd he hne⟩
  · intro key' record0 loc hget hc0 _ _
    have hne : key' ≠ key := by
      intro he
      rw [he, hr, Option.some.injEq] at hget
      rw [← hget, hc] at hc0
      cases hc0
    exact ⟨record0, removed_after hne hget, rfl, rfl, hc0⟩

/-- The last lease goes, and a directory that Baffle has made goes with it. -/
theorem releases_made (hr : store.registry.get key = some record) (hone : record.leases = 1)
    (hc : record.createdByBaffle = true) (hm : MadeAt tree0 store.tree key record)
    (hvacant : store.tree.vacant (record.name.follow record.parent.location) = true) :
    Releases tree0 key 0 store (store.releaseDirectoryLease key) := by
  obtain ⟨name, hname⟩ := hm.named
  have hhere := hm.here
  have hnew := hm.new
  rw [hname] at hhere hvacant hnew
  obtain ⟨tree', hremove, hminus⟩ := release_vacant hm.held hhere hvacant
  rw [release_last hr hone, hc, hname, if_pos rfl, hremove]
  refine ⟨rfl, removed_counts hr hone, fun _ _ hn => (hminus.less hn).2, ?_, ?_, ?_⟩
  · intro loc node hn
    by_cases hl : loc = name :: record.parent.location
    · subst hl
      rw [show store.tree.node (name :: record.parent.location) = _ from hhere,
        Option.some.injEq] at hn
      exact Or.inr ⟨hn.symm, hnew, rfl⟩
    · exact Or.inl ((hminus.elsewhere loc hl).trans hn)
  · intro key' record' hget
    obtain ⟨hne, hold⟩ := removed_before hget
    exact ⟨record', hold, rfl, rfl, rfl, fun he => absurd he hne⟩
  · intro key' record0 loc hget hc0 hn hloc
    have hne : key' ≠ key := by
      intro he
      rw [he, hr, Option.some.injEq] at hget
      subst hget
      rw [hname] at hloc
      exact (hminus.less hn).1 hloc.symm
    exact ⟨record0, removed_after hne hget, rfl, rfl, hc0⟩

end Release

section Pop

variable (h : Leased tree0 s) (hg : s.guards g = .releasing (keys ++ [key]))

include h hg

theorem popped_held (key' : FileIdentity) :
    leasesHeld (popped s g keys key) key' + (if key' = key then 1 else 0) = leasesHeld s key' := by
  have hlt : g < s.nextGuard := h.guard_lt (by rw [hg]; exact nofun)
  have hset := held_set (.releasing keys) hlt key'
  have hcount : (s.guards g).keys.count key' =
      keys.count key' + if key' = key then 1 else 0 := by
    rw [hg]
    show (keys ++ [key]).count key' = _
    rw [List.count_append]
    by_cases he : key' = key
    · rw [if_pos he, he, List.count_singleton_self]
    · rw [if_neg he, List.count_eq_zero_of_not_mem (fun hm => he (List.mem_singleton.mp hm))]
  have hkeys : (BindStage.releasing keys).keys.count key' = keys.count key' := rfl
  have hsame : leasesHeld (popped s g keys key) key' =
      leasesHeld (s.setGuard g (.releasing keys)) key' := rfl
  omega

theorem popped_placed (q : Nat) :
    Placed s.store.tree ((popped s g keys key).guards q) := by
  rw [popped_guards]
  split
  · have hp := h.placed g
    rw [hg] at hp
    exact hp.pop
  · exact h.placed q

theorem popped_idle : ∀ q, (popped s g keys key).nextGuard ≤ q →
    (popped s g keys key).guards q = .idle := by
  intro q hq
  have hlt : g < s.nextGuard := h.guard_lt (by rw [hg]; exact nofun)
  have hle : s.nextGuard ≤ q := hq
  rw [popped_guards, if_neg (by omega)]
  exact h.idle q hle

/-- Nothing is left in a made directory whose last lease goes. -/
theorem popped_vacant {record : DirectoryRecord} (hr : s.store.registry.get key = some record)
    (hc : record.createdByBaffle = true) (hlast : leasesHeld (popped s g keys key) key = 0) :
    s.store.tree.vacant (record.name.follow record.parent.location) = true := by
  have hm := h.records key record hr hc
  have hnone : ∀ q, key ∉ ((popped s g keys key).guards q).keys := by
    intro q hq
    have hpos := (leases_pos (popped_idle h hg)).mpr ⟨q, hq⟩
    omega
  refine FileTree.vacant_iff.mpr fun name => ?_
  by_contra hsome
  obtain ⟨node, hn⟩ := Option.ne_none_iff_exists'.mp hsome
  have hnew : tree0.node (name :: record.name.follow record.parent.location) = none :=
    missing_below hm.new
  by_cases hk : node.kind = .directory
  · obtain ⟨kind, below⟩ := node
    cases hk
    obtain ⟨record', hr', hc', hloc⟩ := h.made _ below hn hnew
    have hne : below ≠ key := by
      rintro rfl
      rw [hr, Option.some.injEq] at hr'
      rw [hr'] at hloc
      exact absurd hloc.symm (List.cons_ne_self _ _)
    have hpos : 0 < leasesHeld (popped s g keys key) below := by
      have hheld := popped_held h hg below
      rw [if_neg hne] at hheld
      have hleases := leases_record.mpr ⟨record', hr'⟩
      have hcount := h.counts below
      omega
    obtain ⟨q, hq⟩ := (leases_pos (popped_idle h hg)).mp hpos
    refine hnone q (placed_leases hm (popped_placed h hg q) (Or.inl ⟨below, hq, fun l hl => ?_⟩))
    rw [← h.located hr' hc' hl, hloc]
    rfl
  · obtain ⟨-, q, hq, -⟩ := h.sockets _ node hn hk hnew
    rw [← popped_socket hg] at hq
    obtain ⟨d, hd, htail⟩ := BindStage.socket_parent hq
    exact hnone q (placed_leases hm (popped_placed h hg q) (Or.inr ⟨d, hd, htail.symm⟩))

omit hg in
theorem popped_kept
    (hr : Releases tree0 key (leasesHeld (popped s g keys key) key) s.store
      (s.store.releaseDirectoryLease key)) :
    ∀ loc node, tree0.node loc = some node →
      (popped s g keys key).store.tree.node loc = some node := by
  intro loc node hn
  rcases hr.gone loc node (h.kept loc node hn) with hs | ⟨-, hnone, -⟩
  · exact hs
  · rw [hn] at hnone
    cases hnone

omit hg in
theorem popped_records
    (hr : Releases tree0 key (leasesHeld (popped s g keys key) key) s.store
      (s.store.releaseDirectoryLease key)) {key' : FileIdentity} {record : DirectoryRecord}
    (hget : (popped s g keys key).store.registry.get key' = some record)
    (hc : record.createdByBaffle = true) :
    MadeAt tree0 (popped s g keys key).store.tree key' record := by
  obtain ⟨record0, hget0, hname, hparent, hcreated, hleft⟩ := hr.before key' record hget
  obtain ⟨hnamed, hopen, hat, hnew, hapart⟩ := h.records key' record0 hget0 (hcreated ▸ hc)
  rw [← hname, ← hparent] at hat hnew
  rw [← hparent] at hopen
  rw [← hname] at hnamed
  obtain ⟨name, hn⟩ := hnamed
  have hhere : (popped s g keys key).store.tree.node
      (record.name.follow record.parent.location) = some ⟨.directory, key'⟩ := by
    rcases hr.gone _ _ hat with hs | ⟨he, -, hnone⟩
    · exact hs
    · have hpos := hleft (FileNode.mk.inj he).2
      omega
  have hheld : (popped s g keys key).store.tree.holds record.parent = true := by
    rw [hn] at hhere
    obtain ⟨i, hi⟩ := (popped s g keys key).store.tree.nested name record.parent.location
      (Option.isSome_iff_exists.mpr ⟨_, hhere⟩)
    have hold := hr.less _ _ hi
    rw [FileTree.holds_iff.mp hopen] at hold
    exact FileTree.holds_iff.mpr (hi.trans hold.symm)
  exact ⟨⟨name, hn⟩, hheld, hhere, hnew, hapart⟩

theorem popped_leased
    (hr : Releases tree0 key (leasesHeld (popped s g keys key) key) s.store
      (s.store.releaseDirectoryLease key)) :
    Leased tree0 (popped s g keys key) ∧ RemovesUnleased tree0 s (popped s g keys key) := by
  have hstore : (popped s g keys key).store = s.store.releaseDirectoryLease key := rfl
  have hkept := popped_kept h hr
  have hroot : (popped s g keys key).store.tree.node [] = s.store.tree.node [] := by
    obtain ⟨i, hi⟩ := tree0.rooted
    rw [h.kept [] _ hi, hkept [] _ hi]
  refine ⟨⟨popped_idle h hg, hr.quiet.trans h.quiet, hkept, fun key' => ?_,
    fun _ _ => popped_records h hr, ?_, ?_, ?_, ?_⟩, ?_⟩
  · have hcounts := hr.counts key'
    have hheld := popped_held h hg key'
    have hbefore := h.counts key'
    rw [hstore]
    omega
  · intro loc key' hn hnone
    obtain ⟨record0, hget0, hc0, hloc⟩ := h.made loc key' (hr.less _ _ hn) hnone
    obtain ⟨record, hget, hname, hparent, hc⟩ := hr.after key' record0 loc hget0 hc0 hn hloc
    exact ⟨record, hget, hc, by rw [hname, hparent, hloc]⟩
  · intro q
    refine (popped_placed h hg q).kept (fun loc key' hk hn => ?_) hroot
    rcases hr.gone loc _ hn with hs | ⟨he, -, hnone⟩
    · exact hs
    · rw [(FileNode.mk.inj he).2] at hk
      have hpos := (leases_pos (popped_idle h hg)).mpr ⟨q, hk⟩
      omega
  · intro q loc hs
    rw [popped_socket hg] at hs
    exact h.clear q loc hs
  · intro loc node hn hk hnone
    obtain ⟨hkind, q, hq, hrec⟩ := h.sockets loc node (hr.less _ _ hn) hk hnone
    exact ⟨hkind, q, (popped_socket hg).trans hq, popped_recognizes hrec⟩
  · intro loc node hn hk
    rcases hr.gone loc node hn with hs | ⟨rfl, hnone, hleft⟩
    · exact Or.inl hs
    · exact Or.inr ⟨hnone, hleft⟩

theorem releases_popped :
    Releases tree0 key (leasesHeld (popped s g keys key) key) s.store
      (s.store.releaseDirectoryLease key) := by
  have hheld := popped_held h hg key
  rw [if_pos rfl] at hheld
  have hcount := h.counts key
  obtain ⟨record, hr⟩ := leases_record.mp (by omega : 0 < leasesOf s.store.registry key)
  have hleases : leasesOf s.store.registry key = record.leases := by rw [leasesOf, hr]; rfl
  by_cases hshared : 0 < record.leases - 1
  · exact releases_shared hr hshared (by omega)
  · have hpos := s.store.registry.held key record hr
    have hone : record.leases = 1 := by omega
    have hleft : leasesHeld (popped s g keys key) key = 0 := by omega
    cases hc : record.createdByBaffle with
    | false => exact releases_unmade hr hone hc
    | true =>
      have hvacant := popped_vacant h hg hr hc hleft
      rw [hleft]
      exact releases_made hr hone hc (h.records key record hr hc) hvacant

end Pop

section Walk

variable {current : Descriptor} {c : PathComponent Text} {name : Text} {made : Bool}
  {store : SocketStore}

/-- A component leads to a directory that was there, or that it has made. -/
structure Attained (current : Descriptor) (c : PathComponent Text) (key : FileIdentity) (made : Bool)
    (store : SocketStore) (tree : SocketTree) : Prop where
  kept : ∀ loc node, store.tree.node loc = some node → tree.node loc = some node
  here : tree.node (c.follow current.location) = some ⟨.directory, key⟩
  elsewhere : ∀ loc, loc ≠ c.follow current.location → tree.node loc = store.tree.node loc
  same : made = false → store.tree.node (c.follow current.location) = some ⟨.directory, key⟩
  named : made = true → ∃ name, c = .name name
  new : made = true → store.tree.node (c.follow current.location) = none
  unrecorded : made = true → store.registry.get key = none
  apart : made = true → ∀ loc node, store.tree.node loc = some node → node.identity ≠ key

/-- The directory above an open one is there. -/
theorem parent_there (h : tree.holds current = true) : tree.node current.location.tail ≠ none := by
  cases hl : current.location with
  | nil =>
    obtain ⟨i, hi⟩ := tree.rooted
    rw [List.tail_nil, FileTree.node, hi]
    exact Option.some_ne_none _
  | cons n above =>
    have hn := FileTree.holds_iff.mp h
    rw [hl] at hn
    obtain ⟨i, hi⟩ := tree.nested n above (Option.isSome_iff_exists.mpr ⟨_, hn⟩)
    rw [List.tail_cons, FileTree.node, hi]
    exact Option.some_ne_none _

theorem picked_apart {alloc : Allocator} {node : FileNode FileIdentity}
    (hn : store.tree.node loc = some node) : node.identity ≠ alloc.pick store.used := by
  intro he
  refine alloc.fresh store.used (Finset.mem_union_left _ ?_)
  rw [← he]
  exact FileTree.mem_identities hn

/-- One component, when no call fails by itself. -/
theorem enter_attains (alloc : Allocator) (i : Nat) (hd : store.tree.holds current = true) :
    enterComponent (fun _ => false) alloc i current c store = (store, none) ∨
      ∃ key made tree, Attained current c key made store tree ∧
        enterComponent (fun _ => false) alloc i current c store =
          ({ store with tree, registry := store.registry.register current c key made },
            some ⟨c.follow current.location, key⟩) := by
  cases hn : store.tree.node (c.follow current.location) with
  | none =>
    cases c with
    | parent => exact absurd hn (parent_there hd)
    | name n =>
      right
      obtain ⟨tree, ht, hplus⟩ := create_at_free ⟨.directory, alloc.pick store.used⟩ hd hn
      have hd' := plus_held hplus hd hn
      have hopen := open_at_directory (c := .name n) hd' hplus.here
      refine ⟨alloc.pick store.used, true, tree, ⟨fun loc node hl => ?_, hplus.here, hplus.elsewhere,
        (fun h => by cases h), fun _ => ⟨n, rfl⟩, fun _ => hn, fun _ => picked_new, fun _ _ _ => picked_apart⟩, ?_⟩
      · rw [hplus.elsewhere, hl]
        rintro rfl
        rw [show store.tree.node (n :: current.location) = none from hn] at hl
        cases hl
      · have hmode : setCreatedDirectoryMode (fun _ => false) i current (.name n)
            (alloc.pick store.used) { store with tree } = true :=
          (mode_set hd' hplus.here).mpr (fun _ => rfl)
        have hmake : openOrCreate (fun _ => false) alloc i current (.name n) store =
            reopenComponent (fun _ => false) i current (.name n) true { store with tree } :=
          create_ok rfl (open_at_missing hd hn) rfl ht
        simp only [enterComponent, hmake, reopenComponent, attempt, hopen, hmode, Bool.false_eq_true,
          ↓reduceIte, Bool.not_true, Bool.and_false]
  | some node =>
    by_cases hk : node.kind = .directory
    · obtain ⟨kind, key⟩ := node
      cases hk
      right
      refine ⟨key, false, store.tree, ⟨fun _ _ hl => hl, hn, fun _ _ => rfl, fun _ => hn,
        (fun h => by cases h), (fun h => by cases h), (fun h => by cases h), fun h => by cases h⟩, ?_⟩
      have hopened : openOrCreate (fun _ => false) alloc i current c store =
          (store, some (⟨c.follow current.location, key⟩, false)) :=
        open_ok rfl (open_at_directory hd hn)
      simp only [enterComponent, hopened, Bool.false_and, Bool.false_eq_true, ↓reduceIte]
    · left
      have hopened : openOrCreate (fun _ => false) alloc i current c store = (store, none) :=
        open_fails (Or.inr (open_at_other hd hn hk))
      simp only [enterComponent, hopened]

theorem leases_register (key' : FileIdentity) :
    leasesOf (store.registry.register current c key made) key' =
      leasesOf store.registry key' + if key' = key then 1 else 0 := by
  rw [leasesOf, registry_get_register]
  by_cases he : key' = key
  · rw [if_pos he, if_pos he, he, leasesOf]
    cases store.registry.get key with
    | none => rfl
    | some record => rfl
  · rw [if_neg he, if_neg he]
    rfl

/-- The state when a session has entered one more directory. -/
def entered (s : LeaseState) (g : Nat) (name : Text) (keys : List FileIdentity) (current : Descriptor)
    (c : PathComponent Text) (key : FileIdentity) (made : Bool) (tree : SocketTree) : LeaseState :=
  { s with store := { s.store with
    tree, registry := s.store.registry.register current c key made } }.setGuard g
      (.opened ⟨c.follow current.location, key⟩ name (keys ++ [key]))

section Enter

variable (h : Leased tree0 s) (hg : s.guards g = .opened current name keys)
  (ha : Attained current c key made s.store tree)

include h hg

theorem entered_held (key' : FileIdentity) :
    leasesHeld (entered s g name keys current c key made tree) key' =
      leasesHeld s key' + if key' = key then 1 else 0 := by
  have hlt : g < s.nextGuard := h.guard_lt (by rw [hg]; exact nofun)
  have hset := held_set (.opened ⟨c.follow current.location, key⟩ name (keys ++ [key])) hlt key'
  have hcount : (keys ++ [key]).count key' = keys.count key' + if key' = key then 1 else 0 := by
    rw [List.count_append]
    by_cases he : key' = key
    · rw [if_pos he, he, List.count_singleton_self]
    · rw [if_neg he, List.count_eq_zero_of_not_mem (fun hm => he (List.mem_singleton.mp hm))]
  rw [hg] at hset
  have hsame : leasesHeld (entered s g name keys current c key made tree) key' = leasesHeld
    (s.setGuard g (.opened ⟨c.follow current.location, key⟩ name (keys ++ [key]))) key' := rfl
  dsimp only [BindStage.keys] at hset
  omega

include ha

theorem entered_placed (q : Nat) :
    Placed tree ((entered s g name keys current c key made tree).guards q) := by
  have hroot : tree.node [] = s.store.tree.node [] := by
    obtain ⟨i, hi⟩ := tree0.rooted
    have hold := h.kept [] _ hi
    rw [hold, ha.kept [] _ hold]
  have hp := (h.placed q).kept (fun loc key' _ hn => ha.kept loc _ hn) hroot
  by_cases hq : q = g
  · subst hq
    rw [hg] at hp
    obtain ⟨locs, ht, hparent⟩ := hp
    obtain ⟨-, hat⟩ := hparent current rfl
    have habove : current.location.tail = [] ∨ current.location.tail ∈ locs := by
      rcases hat with hnil | hm
      · rw [hnil]
        exact Or.inl rfl
      · exact ht.closed _ hm
    have hbelow : (c.follow current.location).tail = [] ∨
        (c.follow current.location).tail ∈ locs := by
      cases c with
      | name n => exact hat
      | parent =>
        rcases habove with hnil | hm
        · left
          show current.location.tail.tail = []
          rw [hnil]
          rfl
        · exact ht.closed _ hm
    refine ⟨locs ++ [c.follow current.location], ?_, fun d hd => ?_⟩
    · rw [entered, set_guard_self]
      exact ht.snoc ha.here hbelow
    · rw [entered, set_guard_self] at hd
      rw [← Option.some.inj hd]
      exact ⟨FileTree.holds_iff.mpr ha.here,
        Or.inr (List.mem_append_right _ (List.mem_singleton_self _))⟩
  · rw [entered, set_guard_ne hq]
    exact hp

theorem entered_record {key' : FileIdentity} {record : DirectoryRecord}
    (hr : (s.store.registry.register current c key made).get key' = some record)
    (hc : record.createdByBaffle = true) : MadeAt tree0 tree key' record := by
  have hold : ∀ record', s.store.registry.get key' = some record' →
      record'.createdByBaffle = true → record'.name = record.name →
      record'.parent = record.parent → MadeAt tree0 tree key' record := by
    intro record' hr' hc' hname hparent
    obtain ⟨hnamed, hheld, hhere, hnew, hapart⟩ := h.records key' record' hr' hc'
    rw [hname, hparent] at hhere hnew
    rw [hparent, FileTree.holds_iff] at hheld
    rw [hname] at hnamed
    exact ⟨hnamed, FileTree.holds_iff.mpr (ha.kept _ _ hheld), ha.kept _ _ hhere, hnew, hapart⟩
  rw [registry_get_register] at hr
  by_cases he : key' = key
  · subst he
    rw [if_pos rfl, Option.some.injEq] at hr
    cases hget : s.store.registry.get key' with
    | some record' =>
      rw [hget, Option.getD_some] at hr
      subst hr
      cases made with
      | true =>
        rw [ha.unrecorded rfl] at hget
        cases hget
      | false =>
        rw [Bool.or_false] at hc
        exact hold record' hget hc rfl rfl
    | none =>
      rw [hget, Option.getD_none] at hr
      subst hr
      rw [Bool.or_self] at hc
      have hopen := ((h.placed g).choose_spec.2 current (by rw [hg]; rfl)).1
      refine ⟨ha.named hc, ?_, ha.here, ?_, fun loc hn => ?_⟩
      · exact FileTree.holds_iff.mpr (ha.kept _ _ (FileTree.holds_iff.mp hopen))
      · by_contra hsome
        obtain ⟨node, hn⟩ := Option.ne_none_iff_exists'.mp hsome
        have hnow := h.kept _ node hn
        rw [ha.new hc] at hnow
        cases hnow
      · exact ha.apart hc loc _ (h.kept loc _ hn) rfl
  · rw [if_neg he] at hr
    exact hold record hr hc rfl rfl

theorem entered_leased :
    Leased tree0 (entered s g name keys current c key made tree) := by
  have hlt : g < s.nextGuard := h.guard_lt (by rw [hg]; exact nofun)
  have hsockets : ∀ q, ((entered s g name keys current c key made tree).guards q).socket =
      (s.guards q).socket := by
    intro q
    by_cases hq : q = g
    · rw [hq, entered, set_guard_self, hg]
      rfl
    · rw [entered, set_guard_ne hq]
  refine ⟨fun q hq => ?_, h.quiet, fun loc node hn => ha.kept loc node (h.kept loc node hn),
    fun key' => ?_, fun key' record => entered_record h hg ha, fun loc key' hn hnone => ?_,
    entered_placed h hg ha, fun q loc hs => ?_, fun loc node hn hk hnone => ?_⟩
  · have hle : s.nextGuard ≤ q := hq
    rw [entered, set_guard_ne (by omega)]
    exact h.idle q hle
  · rw [entered_held h hg]
    exact (leases_register key').trans (by rw [h.counts])
  · have hn' : tree.node loc = some ⟨.directory, key'⟩ := hn
    by_cases hnow : s.store.tree.node loc = some ⟨.directory, key'⟩
    · obtain ⟨record, hr, hc, hloc⟩ := h.made loc key' hnow hnone
      by_cases he : key' = key
      · subst he
        refine ⟨_, (registry_get_register key').trans (if_pos rfl), ?_, ?_⟩
        · rw [hr, Option.getD_some, hc, Bool.true_or]
        · rw [hr, Option.getD_some]
          exact hloc
      · exact ⟨record, ((registry_get_register key').trans (if_neg he)).trans hr, hc, hloc⟩
    · have hat : loc = c.follow current.location := by
        by_contra hne
        rw [ha.elsewhere loc hne] at hn'
        exact hnow hn'
      subst hat
      rw [ha.here, Option.some.injEq, FileNode.mk.injEq] at hn'
      obtain ⟨-, rfl⟩ := hn'
      cases made with
      | false => exact absurd (ha.same rfl) hnow
      | true =>
        refine ⟨_, (registry_get_register key).trans (if_pos rfl), ?_, ?_⟩
        · rw [Bool.or_true]
        · rw [ha.unrecorded rfl]
          rfl
  · rw [hsockets] at hs
    exact h.clear q loc hs
  · have hne : loc ≠ c.follow current.location := by
      rintro rfl
      rw [show (entered s g name keys current c key made tree).store.tree.node _ = _ from ha.here,
        Option.some.injEq] at hn
      rw [← hn] at hk
      exact hk rfl
    have hn' : s.store.tree.node loc = some node := (ha.elsewhere loc hne).symm.trans hn
    obtain ⟨hkind, q, hq, hrec⟩ := h.sockets loc node hn' hk hnone
    refine ⟨hkind, q, (hsockets q).trans hq, ?_⟩
    have hqg : q ≠ g := by
      rintro rfl
      rw [hg] at hq
      cases hq
    rw [entered, set_guard_ne hqg]
    exact hrec

end Enter

/-- Where a session is after some components. -/
def walkedStage (name : Text) (keys : List FileIdentity) : Option Descriptor → BindStage
  | some parent => .opened parent name keys
  | none => .releasing keys

/-- Nothing goes away. -/
def Grows (s s' : LeaseState) : Prop :=
  ∀ loc node, s.store.tree.node loc = some node → s'.store.tree.node loc = some node

theorem Grows.removes (h : Grows s s') : RemovesUnleased tree0 s s' :=
  fun loc node hn _ => Or.inl (h loc node hn)

/-- The state of a session changes, and with it at most one socket. -/
theorem Leased.move (h : Leased tree0 s) (hidle : s.guards g ≠ .idle)
    (hkeys : stage.keys = (s.guards g).keys) (hplaced : ∀ d, stage.parent = some d →
      (s.guards g).parent = some d)
    (hdirs : ∀ loc key, tree.node loc = some ⟨.directory, key⟩ ↔
      s.store.tree.node loc = some ⟨.directory, key⟩)
    (hkept : ∀ loc node, tree0.node loc = some node → tree.node loc = some node)
    (hclear : ∀ loc, stage.socket = some loc → tree0.node loc = none)
    (hsockets : ∀ loc node, tree.node loc = some node → node.kind ≠ .directory →
      tree0.node loc = none → node.kind = .socket ∧
        (stage.socket = some loc ∧ stage.recognizes node.identity ∨
          ∃ q ≠ g, (s.guards q).socket = some loc ∧ (s.guards q).recognizes node.identity)) :
    Leased tree0 ({ s with store := { s.store with tree } }.setGuard g stage) := by
  have hlt : g < s.nextGuard := h.guard_lt hidle
  have hroot : tree.node [] = s.store.tree.node [] := by
    obtain ⟨i, hi⟩ := tree0.rooted
    rw [h.kept [] _ hi, hkept [] _ hi]
  refine ⟨fun q hq => ?_, h.quiet, hkept, fun key => ?_, fun key record hr hc => ?_,
    fun loc key hn => h.made loc key ((hdirs loc key).mp hn), fun q => ?_, fun q loc hs => ?_,
    fun loc node hn hk hnone => ?_⟩
  · have hle : s.nextGuard ≤ q := hq
    rw [set_guard_ne (by omega)]
    exact h.idle q hle
  · have hset := held_set stage hlt key
    rw [hkeys] at hset
    have hsame : leasesHeld ({ s with store := { s.store with tree } }.setGuard g stage) key =
        leasesHeld (s.setGuard g stage) key := rfl
    have hcounts := h.counts key
    rw [hsame]
    dsimp only [LeaseState.setGuard] at hset ⊢
    omega
  · obtain ⟨hnamed, hheld, hhere, hnew, hapart⟩ := h.records key record hr hc
    refine ⟨hnamed, ?_, (hdirs _ _).mpr hhere, hnew, hapart⟩
    rw [FileTree.holds_iff] at hheld ⊢
    exact (hdirs _ _).mpr hheld
  · have hp := (h.placed q).kept (fun loc key' _ hn => (hdirs loc key').mpr hn) hroot
    by_cases hq : q = g
    · subst hq
      obtain ⟨locs, ht, hparent⟩ := hp
      rw [set_guard_self]
      exact ⟨locs, hkeys ▸ ht, fun d hd => hparent d (hplaced d hd)⟩
    · rw [set_guard_ne hq]
      exact hp
  · by_cases hq : q = g
    · rw [hq, set_guard_self] at hs
      exact hclear loc hs
    · rw [set_guard_ne hq] at hs
      exact h.clear q loc hs
  · obtain ⟨hkind, ⟨hs, hrec⟩ | ⟨q, hq, hs, hrec⟩⟩ := hsockets loc node hn hk hnone
    · exact ⟨hkind, g, by rw [set_guard_self]; exact ⟨hs, hrec⟩⟩
    · exact ⟨hkind, q, by rw [set_guard_ne hq]; exact ⟨hs, hrec⟩⟩

theorem Leased.opened (h : Leased tree0 s) {parent : Descriptor}
    (hp : (s.guards g).parent = some parent) : s.store.tree.holds parent = true :=
  ((h.placed g).choose_spec.2 parent hp).1

/-- Only the stage of a session without a socket changes. -/
theorem Leased.restage (h : Leased tree0 s) (hidle : s.guards g ≠ .idle)
    (hkeys : stage.keys = (s.guards g).keys)
    (hplaced : ∀ d, stage.parent = some d → (s.guards g).parent = some d)
    (hclear : ∀ loc, stage.socket = some loc → tree0.node loc = none)
    (hrec : ∀ loc node, (s.guards g).socket = some loc → s.store.tree.node loc = some node →
      stage.socket = some loc ∧ stage.recognizes node.identity) :
    Leased tree0 (s.setGuard g stage) := by
  refine h.move hidle hkeys hplaced (fun _ _ => Iff.rfl) h.kept hclear (fun loc node hn hk hnone => ?_)
  obtain ⟨hkind, q, hs, hq⟩ := h.sockets loc node hn hk hnone
  by_cases he : q = g
  · subst he
    exact ⟨hkind, Or.inl (hrec loc node hs hn)⟩
  · exact ⟨hkind, Or.inr ⟨q, he, hs, hq⟩⟩

theorem set_guard_twice {stage' : BindStage} (store : SocketStore) :
    { s.setGuard g stage with store }.setGuard g stage' = { s with store }.setGuard g stage' := by
  simp only [LeaseState.setGuard, Function.update_idem]

theorem walk_leased {components : List (PathComponent Text)} {alloc : Allocator} {i : Nat}
    (h : Leased tree0 s) (hg : s.guards g = .opened current name keys)
    {r : SocketStore × List FileIdentity × Option Descriptor}
    (hr : walkParents (fun _ => false) alloc i components current keys s.store = r) :
    Leased tree0 ({ s with store := r.1 }.setGuard g (walkedStage name r.2.1 r.2.2)) ∧
      Grows s { s with store := r.1 } := by
  have hsame : s.setGuard g (.opened current name keys) = s := by
    rw [← hg, LeaseState.setGuard, Function.update_eq_self]
  induction components generalizing s current keys i with
  | nil =>
    subst hr
    refine ⟨?_, fun _ _ hn => hn⟩
    show Leased tree0 (s.setGuard g (.opened current name keys))
    rw [hsame]
    exact h
  | cons c rest ih =>
    have hopen := ((h.placed g).choose_spec.2 current (by rw [hg]; rfl)).1
    rw [walkParents] at hr
    rcases enter_attains alloc i hopen with hstop | ⟨key, made, tree, ha, hnext⟩
    · rw [hstop] at hr
      subst hr
      refine ⟨?_, fun _ _ hn => hn⟩
      show Leased tree0 (s.setGuard g (.releasing keys))
      refine h.restage (by rw [hg]; exact nofun) (by rw [hg]; rfl) nofun nofun ?_
      rw [hg]
      exact nofun
    · rw [hnext] at hr
      have hl := entered_leased h hg ha
      have hg' : (entered s g name keys current c key made tree).guards g =
          .opened ⟨c.follow current.location, key⟩ name (keys ++ [key]) := set_guard_self
      obtain ⟨hafter, hgrows⟩ := ih hl hg' hr (by
        rw [← hg', LeaseState.setGuard, Function.update_eq_self])
      refine ⟨?_, fun loc node hn => hgrows loc node (ha.kept loc node hn)⟩
      rw [entered, set_guard_twice] at hafter
      exact hafter

theorem spawn_leased {root : Descriptor} (name : Text) (h : Leased tree0 s)
    (hroot : openRoot s.store.tree = some root) :
    Leased tree0 ({ s with nextGuard := s.nextGuard + 1 }.setGuard s.nextGuard
      (.opened root name [])) := by
  have hfresh := h.idle s.nextGuard le_rfl
  have hsockets : ∀ q, (({ s with nextGuard := s.nextGuard + 1 }.setGuard s.nextGuard
      (.opened root name [])).guards q).socket = (s.guards q).socket := by
    intro q
    by_cases hq : q = s.nextGuard
    · rw [hq, set_guard_self, hfresh]
      rfl
    · rw [set_guard_ne hq]
  have hheld : ∀ key, leasesHeld ({ s with nextGuard := s.nextGuard + 1 }.setGuard s.nextGuard
      (.opened root name [])) key = leasesHeld s key := by
    intro key
    have hnew : leasesHeld ({ s with nextGuard := s.nextGuard + 1 }.setGuard s.nextGuard
        (.opened root name [])) key = ∑ q ∈ Finset.range (s.nextGuard + 1),
        (({ s with nextGuard := s.nextGuard + 1 }.setGuard s.nextGuard
          (.opened root name [])).guards q).keys.count key := rfl
    rw [hnew, Finset.sum_range_succ, set_guard_self, leasesHeld]
    refine (Nat.add_zero _).trans (Finset.sum_congr rfl fun q hq => ?_)
    rw [set_guard_ne (Nat.ne_of_lt (Finset.mem_range.mp hq))]
  refine ⟨fun q hq => ?_, h.quiet, h.kept, fun key => (h.counts key).trans (hheld key).symm, h.records,
    h.made, fun q => ?_, fun q loc hs => ?_, fun loc node hn hk hnone => ?_⟩
  · have hle : s.nextGuard + 1 ≤ q := hq
    rw [set_guard_ne (by omega)]
    exact h.idle q (by omega)
  · by_cases hq : q = s.nextGuard
    · rw [hq, set_guard_self]
      refine ⟨[], .nil, fun d hd => ?_⟩
      obtain ⟨node, hn, rfl⟩ := Option.map_eq_some_iff.mp hroot
      obtain rfl := Option.some.inj hd
      obtain ⟨i, hi⟩ := s.store.tree.rooted
      have hnode : s.store.tree.node [] = some ⟨.directory, i⟩ := hi
      rw [hn, Option.some.injEq] at hnode
      subst hnode
      exact ⟨FileTree.holds_iff.mpr hn, Or.inl rfl⟩
    · rw [set_guard_ne hq]
      exact h.placed q
  · rw [hsockets] at hs
    exact h.clear q loc hs
  · obtain ⟨hkind, q, hs, hrec⟩ := h.sockets loc node hn hk hnone
    refine ⟨hkind, q, (hsockets q).trans hs, ?_⟩
    have hq : q ≠ s.nextGuard := by
      rintro rfl
      rw [hfresh] at hs
      cases hs
    rw [set_guard_ne hq]
    exact hrec

theorem open_parent_leased (path : SocketPath) (alloc : Allocator) (name : Text)
    (h : Leased tree0 s) :
    Leased tree0 (s.openParent path alloc name) ∧ Grows s (s.openParent path alloc name) := by
  obtain ⟨i, hi⟩ := s.store.tree.rooted
  have hroot : openRoot s.store.tree = some ⟨[], i⟩ := by
    rw [openRoot, FileTree.node, hi]
    rfl
  have hspawn := spawn_leased name h hroot
  have hwalked : openSocketParentLocked (fun _ => false) alloc path s.store =
      walkParents (fun _ => false) alloc 0 path.parents ⟨[], i⟩ [] s.store := by
    rw [openSocketParentLocked, if_neg Bool.false_ne_true, hroot]
  obtain ⟨hafter, hgrows⟩ := walk_leased hspawn set_guard_self hwalked.symm
  have heq : s.openParent path alloc name = { s with
      store := (openSocketParentLocked (fun _ => false) alloc path s.store).1
      nextGuard := s.nextGuard + 1 }.setGuard s.nextGuard (walkedStage name
        (openSocketParentLocked (fun _ => false) alloc path s.store).2.1
        (openSocketParentLocked (fun _ => false) alloc path s.store).2.2) := by
    unfold LeaseState.openParent
    rcases openSocketParentLocked (fun _ => false) alloc path s.store with ⟨store, keys, _ | parent⟩
    · rfl
    · rfl
  rw [set_guard_twice] at hafter
  rw [heq]
  exact ⟨hafter, hgrows⟩

end Walk

theorem inspect_leased (h : Leased tree0 s) (hstep : LeaseState.step (.inspect g) s = some s') :
    Leased tree0 s' ∧ Grows s s' := by
  cases hg : s.guards g with
  | opened parent name keys =>
    simp only [LeaseState.step, hg] at hstep
    split at hstep
    · rw [← Option.some.inj hstep]
      refine ⟨h.restage (by rw [hg]; exact nofun) (by rw [hg]; rfl) nofun nofun ?_, fun _ _ hn => hn⟩
      rw [hg]
      exact nofun
    · rw [← Option.some.inj hstep]
      refine ⟨h.restage (by rw [hg]; exact nofun) (by rw [hg]; rfl) ?_ nofun ?_, fun _ _ hn => hn⟩
      · rw [hg]
        exact fun _ hd => hd
      · rw [hg]
        exact nofun
  | _ => simp [LeaseState.step, hg] at hstep

theorem bind_leased {alloc : Allocator} (h : Leased tree0 s)
    (hstep : LeaseState.step (.bind g alloc) s = some s') : Leased tree0 s' ∧ Grows s s' := by
  cases hg : s.guards g with
  | free parent name keys =>
    have hidle : s.guards g ≠ .idle := by
      rw [hg]
      intro he
      cases he
    have hd := h.opened (g := g) (by rw [hg]; rfl)
    simp only [LeaseState.step, hg] at hstep
    cases hn : s.store.tree.node (name :: parent.location) with
    | none =>
      obtain ⟨tree, ht, hplus⟩ := create_at_free ⟨.socket, alloc.pick s.store.used⟩ hd hn
      have hgrows : ∀ loc node, s.store.tree.node loc = some node → tree.node loc = some node := by
        intro loc node hl
        rw [hplus.elsewhere, hl]
        rintro rfl
        rw [hn] at hl
        cases hl
      rw [ht] at hstep
      obtain rfl := Option.some.inj hstep
      refine ⟨h.move hidle (by rw [hg]; rfl) ?_ (fun loc key => ⟨fun hl => ?_,
        hgrows loc _⟩) (fun loc node hl => hgrows loc node (h.kept loc node hl)) (fun loc hs => ?_)
        (fun loc node hl hk hnone => ?_), hgrows⟩
      · rw [hg]
        exact fun _ hd => hd
      · rw [← hplus.elsewhere, hl]
        rintro rfl
        rw [hplus.here] at hl
        cases hl
      · rw [← Option.some.inj hs]
        by_contra hsome
        obtain ⟨node, hold⟩ := Option.ne_none_iff_exists'.mp hsome
        rw [h.kept _ node hold] at hn
        cases hn
      · by_cases he : loc = name :: parent.location
        · subst he
          rw [hplus.here, Option.some.injEq] at hl
          rw [← hl]
          exact ⟨rfl, Or.inl ⟨rfl, trivial⟩⟩
        · rw [hplus.elsewhere loc he] at hl
          obtain ⟨hkind, q, hs, hrec⟩ := h.sockets loc node hl hk hnone
          refine ⟨hkind, Or.inr ⟨q, ?_, hs, hrec⟩⟩
          rintro rfl
          rw [hg] at hs
          cases hs
    | some node =>
      have htaken : s.store.tree.createAt parent (.name name) ⟨.socket, alloc.pick s.store.used⟩ =
          .error .alreadyExists := by
        rw [FileTree.createAt, dif_pos hd, dif_neg (by rw [hn]; intro he; cases he)]
      rw [htaken] at hstep
      rw [← Option.some.inj hstep]
      refine ⟨h.restage hidle (by rw [hg]; rfl) (fun _ hp => by cases hp) (fun _ hs => by cases hs)
        ?_, fun _ _ hn => hn⟩
      rw [hg]
      intro loc node hs
      cases hs
  | _ => simp [LeaseState.step, hg] at hstep

theorem identify_leased (h : Leased tree0 s) (hstep : LeaseState.step (.identify g) s = some s') :
    Leased tree0 s' ∧ Grows s s' := by
  cases hg : s.guards g with
  | listening parent name keys =>
    have hd := h.opened (g := g) (by rw [hg]; rfl)
    have hclear := h.clear g (name :: parent.location) (by rw [hg]; rfl)
    simp only [LeaseState.step, hg, stat_at_held hd] at hstep
    cases hn : s.store.tree.node ((PathComponent.name name).follow parent.location) with
    | some node =>
      rw [hn] at hstep
      rw [← Option.some.inj hstep]
      refine ⟨h.restage (by rw [hg]; exact nofun) (by rw [hg]; rfl) ?_ (fun loc hs => ?_) ?_,
        fun _ _ hn => hn⟩
      · rw [hg]
        exact fun _ hd => hd
      · rw [← Option.some.inj hs]
        exact hclear
      · rw [hg]
        intro loc node' hs hn'
        obtain rfl := Option.some.inj hs
        rw [show s.store.tree.node (name :: parent.location) = some node from hn,
          Option.some.injEq] at hn'
        exact ⟨rfl, congrArg FileNode.identity hn'⟩
    | none =>
      rw [hn] at hstep
      rw [← Option.some.inj hstep]
      refine ⟨h.restage (by rw [hg]; exact nofun) (by rw [hg]; rfl) nofun nofun ?_, fun _ _ hn => hn⟩
      rw [hg]
      intro loc node' hs hn'
      obtain rfl := Option.some.inj hs
      rw [show s.store.tree.node (name :: parent.location) = none from hn] at hn'
      cases hn'
  | _ => simp [LeaseState.step, hg] at hstep

/-- `unlink_owned` takes away the socket if it is recognized. -/
theorem unlink_owned_outcome {store : SocketStore} {guard : UnixSocketGuard}
    (hd : store.tree.holds guard.parent = true) :
    guard.current store = false ∧ guard.unlinkOwned store = store ∨
      store.tree.node (guard.name :: guard.parent.location) = some ⟨.socket, guard.identity⟩ ∧
        ∃ tree, guard.unlinkOwned store = { store with tree } ∧
          store.tree.Minus (guard.name :: guard.parent.location) tree := by
  cases hc : guard.current store with
  | false => exact Or.inl ⟨rfl, if_neg (by rw [hc]; exact Bool.false_ne_true)⟩
  | true =>
    right
    have hown := hc
    rw [UnixSocketGuard.current, stat_at_held hd, Option.any_eq_true] at hown
    obtain ⟨⟨kind, identity⟩, hn, hm⟩ := hown
    simp only [UnixSocketGuard.matchesMetadata, Bool.and_eq_true, beq_iff_eq] at hm
    obtain ⟨rfl, rfl⟩ := hm
    have hn' : store.tree.node (guard.name :: guard.parent.location) =
      some ⟨.socket, guard.identity⟩ := hn
    have hvacant : store.tree.vacant (guard.name :: guard.parent.location) = true := by
      refine FileTree.vacant_iff.mpr fun below => ?_
      by_contra hsome
      obtain ⟨i, hi⟩ := store.tree.nested below _ (Option.isSome_iff_ne_none.mpr hsome)
      rw [show store.tree.entries.get _ = _ from hn'] at hi
      cases hi
    obtain ⟨tree, hunlink, hminus⟩ := unlink_vacant false hd hn' rfl hvacant
    exact ⟨hn', tree, (if_pos hc).trans hunlink, hminus⟩

section Unlink

variable {guard : UnixSocketGuard} (h : Leased tree0 s) (hg : s.guards g = .bound guard)
  (hkeys : stage.keys = guard.keys) (hparent : ∀ d, stage.parent = some d → guard.parent = d)
  (hsocket : ∀ loc, stage.socket = some loc → guard.name :: guard.parent.location = loc)

include h hg hkeys hparent hsocket

/-- The path names another file, or nothing. -/
theorem untouched_leased (hc : guard.current s.store = false) :
    Leased tree0 (s.setGuard g stage) ∧ RemovesUnleased tree0 s (s.setGuard g stage) := by
  have hd : s.store.tree.holds guard.parent = true := h.opened (by rw [hg]; rfl)
  refine ⟨h.move (by rw [hg]; exact nofun) (by rw [hg]; exact hkeys) ?_ (fun _ _ => Iff.rfl)
    h.kept ?_ ?_, fun _ _ hl _ => Or.inl hl⟩
  · intro d hs
    rw [hg, ← hparent d hs]
    rfl
  · intro loc hs
    exact h.clear g loc (by rw [hg, ← hsocket loc hs]; rfl)
  · intro loc node hl hk hnone
    obtain ⟨hkind, q, hs, hrec⟩ := h.sockets loc node hl hk hnone
    refine ⟨hkind, Or.inr ⟨q, ?_, hs, hrec⟩⟩
    intro hq
    rw [hq, hg] at hs hrec
    obtain rfl := Option.some.inj hs
    obtain ⟨kind, identity⟩ := node
    have hcurrent : guard.current s.store = true := by
      rw [UnixSocketGuard.current, stat_at_held hd,
        show s.store.tree.node ((PathComponent.name guard.name).follow _) = _ from hl]
      have hid : guard.identity = identity := hrec
      have hsock : kind = .socket := hkind
      simp [UnixSocketGuard.matchesMetadata, hid, hsock]
    rw [hc] at hcurrent
    cases hcurrent

theorem unlinked_leased (hn : s.store.tree.node (guard.name :: guard.parent.location) =
      some ⟨.socket, guard.identity⟩)
    (hminus : s.store.tree.Minus (guard.name :: guard.parent.location) tree) :
    Leased tree0 ({ s with store := { s.store with tree } }.setGuard g stage) ∧
      RemovesUnleased tree0 s ({ s with store := { s.store with tree } }.setGuard g stage) := by
  have hclear := h.clear g (guard.name :: guard.parent.location) (by rw [hg]; rfl)
  have hdirs : ∀ loc key, tree.node loc = some ⟨.directory, key⟩ ↔
      s.store.tree.node loc = some ⟨.directory, key⟩ := by
    intro loc key
    by_cases he : loc = guard.name :: guard.parent.location
    · rw [he, hminus.here, hn]
      exact ⟨nofun, nofun⟩
    · rw [hminus.elsewhere loc he]
  refine ⟨h.move (by rw [hg]; exact nofun) (by rw [hg]; exact hkeys) ?_ hdirs ?_ ?_ ?_, ?_⟩
  · intro d hs
    rw [hg, ← hparent d hs]
    rfl
  · intro loc node hl
    rw [hminus.elsewhere, h.kept loc node hl]
    intro he
    rw [he, hclear] at hl
    cases hl
  · intro loc hs
    rw [← hsocket loc hs]
    exact hclear
  · intro loc node hl hk hnone
    obtain ⟨hne, hold⟩ := hminus.less hl
    obtain ⟨hkind, q, hs, hrec⟩ := h.sockets loc node hold hk hnone
    refine ⟨hkind, Or.inr ⟨q, ?_, hs, hrec⟩⟩
    intro hq
    rw [hq, hg] at hs
    exact hne (Option.some.inj hs).symm
  · intro loc node hl hk
    obtain ⟨kind, key⟩ := node
    cases hk
    exact Or.inl ((hdirs loc key).mpr hl)

theorem unlink_leased :
    Leased tree0 ({ s with store := guard.unlinkOwned s.store }.setGuard g stage) ∧
      RemovesUnleased tree0 s ({ s with store := guard.unlinkOwned s.store }.setGuard g stage) := by
  have hd : s.store.tree.holds guard.parent = true := h.opened (by rw [hg]; rfl)
  rcases unlink_owned_outcome hd with ⟨hc, hsame⟩ | ⟨hn, tree, hunlink, hminus⟩
  · rw [hsame]
    exact untouched_leased h hg hkeys hparent hsocket hc
  · rw [hunlink]
    exact unlinked_leased h hg hkeys hparent hsocket hn hminus

end Unlink

theorem release_leased (h : Leased tree0 s) (hg : s.guards g = .releasing keys) :
    Leased tree0 ({ s with store := s.store.releaseAll keys }.setGuard g .dropped) ∧
      RemovesUnleased tree0 s ({ s with store := s.store.releaseAll keys }.setGuard g .dropped) ∧
      ∀ key, leasesHeld ({ s with store := s.store.releaseAll keys }.setGuard g .dropped) key ≤
        leasesHeld s key := by
  induction keys using List.reverseRecOn generalizing s with
  | nil =>
    have hsame : ∀ key, leasesHeld (s.setGuard g .dropped) key = leasesHeld s key := by
      intro key
      have hset := held_set .dropped (h.guard_lt (by rw [hg]; exact nofun)) key
      rw [hg] at hset
      exact hset
    refine ⟨h.restage (by rw [hg]; exact nofun) (by rw [hg]; rfl) nofun nofun ?_,
      fun _ _ hn _ => Or.inl hn, fun key => (hsame key).le⟩
    rw [hg]
    exact nofun
  | append_singleton keys key ih =>
    obtain ⟨hpopped, hremoves⟩ := popped_leased h hg (releases_popped h hg)
    obtain ⟨hafter, hmore, hless⟩ := ih hpopped (by rw [popped_guards, if_pos rfl])
    have heq : { popped s g keys key with store := (popped s g keys key).store.releaseAll keys }.setGuard
        g .dropped = { s with store := s.store.releaseAll (keys ++ [key]) }.setGuard g .dropped := by
      rw [release_all_last, popped, set_guard_twice]
      rfl
    rw [heq] at hafter hmore hless
    refine ⟨hafter, fun loc node hn hk => ?_, fun key' => ?_⟩
    · rcases hremoves loc node hn hk with hs | ⟨hnone, hzero⟩
      · exact hmore loc node hs hk
      · exact Or.inr ⟨hnone, Nat.le_zero.mp (hzero ▸ hless node.identity)⟩
    · have hheld := popped_held h hg key'
      exact (hless key').trans (by omega)

theorem step_leased (h : Leased tree0 s) {action : LeaseAction}
    (hstep : LeaseState.step action s = some s') :
    Leased tree0 s' ∧ RemovesUnleased tree0 s s' := by
  cases action with
  | enter path alloc =>
    simp only [LeaseState.step] at hstep
    cases hname : path.name with
    | none =>
      rw [hname] at hstep
      cases hstep
    | some name =>
      rw [hname] at hstep
      dsimp only at hstep
      split at hstep
      · cases hstep
      · obtain ⟨hafter, hgrows⟩ := open_parent_leased path alloc name h
        rw [← Option.some.inj hstep]
        exact ⟨hafter, hgrows.removes⟩
  | inspect g => exact (inspect_leased h hstep).imp id Grows.removes
  | bind g alloc => exact (bind_leased h hstep).imp id Grows.removes
  | identify g => exact (identify_leased h hstep).imp id Grows.removes
  | retire g =>
    cases hg : s.guards g with
    | bound guard =>
      simp only [LeaseState.step, hg] at hstep
      have hsame : { s with store := guard.unlinkOwned s.store }.setGuard g (.bound guard) = s' := by
        rw [← Option.some.inj hstep, LeaseState.setGuard, ← hg, Function.update_eq_self]
      rw [← hsame]
      exact unlink_leased h hg rfl (fun _ hd => Option.some.inj hd) (fun _ hs => Option.some.inj hs)
    | _ => simp [LeaseState.step, hg] at hstep
  | drop g =>
    cases hg : s.guards g with
    | bound guard =>
      simp only [LeaseState.step, hg] at hstep
      rw [← Option.some.inj hstep]
      exact unlink_leased h hg rfl nofun nofun
    | _ => simp [LeaseState.step, hg] at hstep
  | release g =>
    cases hg : s.guards g with
    | releasing keys =>
      simp only [LeaseState.step, hg] at hstep
      rw [← Option.some.inj hstep]
      obtain ⟨hafter, hremoves, -⟩ := release_leased h hg
      exact ⟨hafter, hremoves⟩
    | _ => simp [LeaseState.step, hg] at hstep

theorem reach_leased (h : Reach LeaseState.step (LeaseState.init tree0) s) : Leased tree0 s :=
  h.invariant (leased_init tree0) fun _ hl hs => (step_leased hl hs).1

theorem BindStage.live_of_keys (h : key ∈ stage.keys) : stage.live = true := by
  cases stage with
  | idle => exact absurd h List.not_mem_nil
  | dropped => exact absurd h List.not_mem_nil
  | _ => rfl

theorem BindStage.live_of_socket (h : stage.socket = some loc) : stage.live = true := by
  cases stage with
  | listening => rfl
  | bound => rfl
  | _ => cases h

/-- What is recorded is what is leased, and nothing else is left of a session. -/
structure ExactLeases (tree0 : SocketTree) (s : LeaseState) : Prop where
  recorded : ∀ key, (∃ record, s.store.registry.get key = some record) ↔
    ∃ g, (s.guards g).live = true ∧ key ∈ (s.guards g).keys
  counted : ∀ key record, s.store.registry.get key = some record →
    record.leases = leasesHeld s key
  removed : ∀ action s', LeaseState.step action s = some s' → ∀ loc key,
    s.store.tree.node loc = some ⟨.directory, key⟩ →
    s'.store.tree.node loc ≠ some ⟨.directory, key⟩ → leasesHeld s' key = 0 ∧
      ∃ record, s.store.registry.get key = some record ∧ record.createdByBaffle = true
  leased : ∀ g key, key ∈ (s.guards g).keys →
    ∃ loc, s.store.tree.node loc = some ⟨.directory, key⟩
  kept : ∀ loc key, tree0.node loc = some ⟨.directory, key⟩ →
    s.store.tree.node loc = some ⟨.directory, key⟩
  restored : (∀ g, (s.guards g).live = false) → s.store.tree = tree0

theorem Leased.restored (h : Leased tree0 s) (hdead : ∀ g, (s.guards g).live = false) :
    s.store.tree = tree0 := by
  refine FileTree.ext_node fun loc => ?_
  cases hold : tree0.node loc with
  | some node => exact h.kept loc node hold
  | none =>
    by_contra hsome
    obtain ⟨node, hn⟩ := Option.ne_none_iff_exists'.mp hsome
    by_cases hk : node.kind = .directory
    · obtain ⟨kind, key⟩ := node
      cases hk
      obtain ⟨record, hr, -, -⟩ := h.made loc key hn hold
      have hpos := leases_record.mpr ⟨record, hr⟩
      rw [h.counts] at hpos
      obtain ⟨g, hg⟩ := (leases_pos h.idle).mp hpos
      have hlive := BindStage.live_of_keys hg
      rw [hdead g] at hlive
      cases hlive
    · obtain ⟨-, g, hs, -⟩ := h.sockets loc node hn hk hold
      have hlive := BindStage.live_of_socket hs
      rw [hdead g] at hlive
      cases hlive

/-- Socket-directory leases are exact in every run of any number of sessions, and
the tree is as it was when no session is left. -/
theorem leases_exact (tree0 : SocketTree) {s : LeaseState}
    (h : Reach LeaseState.step (LeaseState.init tree0) s) : ExactLeases tree0 s := by
  have hl := reach_leased h
  refine ⟨fun key => ?_, fun key record hr => ?_, fun action s' hs loc key hn hgone => ?_,
    fun g key hk => ?_, fun loc key => hl.kept loc _, hl.restored⟩
  · rw [← leases_record, hl.counts, leases_pos hl.idle]
    exact exists_congr fun g => ⟨fun hk => ⟨BindStage.live_of_keys hk, hk⟩, fun hk => hk.2⟩
  · rw [← hl.counts, leasesOf, hr]
    rfl
  · obtain ⟨-, hremoves⟩ := step_leased hl hs
    obtain ⟨hnone, hzero⟩ := (hremoves loc _ hn rfl).resolve_left hgone
    obtain ⟨record, hr, hc, -⟩ := hl.made loc key hn hnone
    exact ⟨hzero, record, hr, hc⟩
  · obtain ⟨locs, ht, -⟩ := hl.placed g
    obtain ⟨loc, -, hn⟩ := ht.located key hk
    exact ⟨loc, hn⟩

/-- Another socket in the same new directory. -/
def siblingPath : SocketPath :=
  ⟨false, 13, [.name "run".toList, .name "a".toList], some "t.sock".toList⟩

/-- Two sessions share a new directory; the one that made it is dropped first. -/
def sharedRun : List LeaseAction :=
  [.enter newParentPath nextInode, .inspect 0, .bind 0 nextInode, .identify 0,
    .enter siblingPath nextInode, .drop 0, .inspect 1, .bind 1 nextInode, .release 0, .identify 1]

theorem leases_exact_shared : ∃ s, Reach LeaseState.step (LeaseState.init runStore.tree) s ∧
    ExactLeases runStore.tree s ∧ leasesHeld s ⟨0, 3⟩ = 1 ∧ (s.guards 0).live = false ∧
    ∃ s', Reach LeaseState.step (LeaseState.init runStore.tree) s' ∧
      ExactLeases runStore.tree s' ∧ s'.store.tree = runStore.tree := by
  have hrun : (runSteps LeaseState.step sharedRun (LeaseState.init runStore.tree)).any
      (fun s => leasesHeld s ⟨0, 3⟩ == 1 && !(s.guards 0).live) = true := by decide +kernel
  have hlast : (runSteps LeaseState.step (sharedRun ++ [.drop 1, .release 1])
      (LeaseState.init runStore.tree)).any (fun s => s.nextGuard == 2 && !(s.guards 0).live &&
        !(s.guards 1).live) = true := by decide +kernel
  obtain ⟨s, hs, htest⟩ := run_any hrun
  obtain ⟨s', hs', htest'⟩ := run_any hlast
  simp only [Bool.and_eq_true, beq_iff_eq, Bool.not_eq_true'] at htest htest'
  have hreach := reach_run .start hs
  have hreach' := reach_run .start hs'
  have hexact' := leases_exact runStore.tree hreach'
  refine ⟨s, hreach, leases_exact runStore.tree hreach, htest.1, htest.2, s', hreach', hexact',
    hexact'.restored fun g => ?_⟩
  by_cases hg : s'.nextGuard ≤ g
  · rw [(reach_leased hreach').idle g hg]
    rfl
  · obtain ⟨⟨hn, h0⟩, h1⟩ := htest'
    have hcases : g = 0 ∨ g = 1 := by omega
    rcases hcases with rfl | rfl
    · exact h0
    · exact h1

end Proofs

end Baffle
