import Baffle.Lib.SortedMap

namespace Baffle

/-- The device of a file and its number there. -/
structure FileIdentity where
  device : Nat
  inode : Nat

instance : LinearOrder FileIdentity :=
  LinearOrder.lift' (fun i => toLex (i.device, i.inode)) (by
    rintro ⟨d, i⟩ ⟨d', i'⟩ h
    obtain ⟨rfl, rfl⟩ := Prod.mk.inj (toLex.injective h)
    rfl)

inductive FileKind where
  | directory
  | socket
  | other
deriving DecidableEq

structure FileNode (I : Type) where
  kind : FileKind
  identity : I
deriving DecidableEq

/-- The name of an entry, then the names of the directories above it. -/
abbrev Location (N : Type) := List N

/-- What a path component names. -/
inductive PathComponent (N : Type) where
  | parent
  | name (name : N)
deriving DecidableEq

def PathComponent.follow {N : Type} (c : PathComponent N) (loc : Location N) : Location N :=
  match c with
  | .parent => loc.tail
  | .name n => n :: loc

/-- Why a call on the tree fails. -/
inductive FileError where
  | notFound
  | alreadyExists
  | other
deriving DecidableEq

/-- The parent of every entry is a directory. -/
@[ext] structure FileTree (N I : Type) [LinearOrder N] where
  entries : SortedMap (Location N) (FileNode I)
  rooted : ∃ i, entries.get [] = some ⟨.directory, i⟩
  nested : ∀ name parent, (entries.get (name :: parent)).isSome = true →
    ∃ i, entries.get parent = some ⟨.directory, i⟩

structure OpenDirectory (N I : Type) where
  location : Location N
  identity : I
deriving DecidableEq

namespace FileTree

variable {N I : Type} [LinearOrder N]

def node (t : FileTree N I) (loc : Location N) : Option (FileNode I) := t.entries.get loc

theorem ext_node {t u : FileTree N I} (h : ∀ loc, t.node loc = u.node loc) : t = u :=
  FileTree.ext (SortedMap.ext_get h)

/-- A root directory with nothing in it. -/
def bare (i : I) : FileTree N I where
  entries := SortedMap.insert ∅ [] ⟨.directory, i⟩
  rooted := ⟨i, SortedMap.get_insert_self ..⟩
  nested name parent h := by
    rw [SortedMap.get_insert_ne _ (List.cons_ne_nil name parent), SortedMap.get_empty] at h
    cases h

def identities [DecidableEq I] (t : FileTree N I) : Finset I :=
  (t.entries.values.map FileNode.identity).toFinset

theorem mem_identities [DecidableEq I] {t : FileTree N I} {loc : Location N} {node : FileNode I}
    (h : t.node loc = some node) : node.identity ∈ t.identities :=
  List.mem_toFinset.mpr (List.mem_map_of_mem (SortedMap.mem_values.mpr ⟨loc, h⟩))

/-- A new entry of a directory. -/
def add (t : FileTree N I) (name : N) (parent : Location N) (new : FileNode I)
    (hp : ∃ i, t.node parent = some ⟨.directory, i⟩) (hf : t.node (name :: parent) = none) :
    FileTree N I where
  entries := t.entries.insert (name :: parent) new
  rooted := by
    obtain ⟨i, h⟩ := t.rooted
    exact ⟨i, by rw [SortedMap.get_insert_ne _ (List.cons_ne_nil name parent).symm, h]⟩
  nested := by
    have hkeep : ∀ {loc node}, t.node loc = some node →
        (t.entries.insert (name :: parent) new).get loc = some node := by
      intro loc node h
      rw [SortedMap.get_insert_ne, ← h]
      · rfl
      · rintro rfl
        rw [hf] at h
        cases h
    intro name' parent' h
    by_cases he : name' :: parent' = name :: parent
    · obtain ⟨-, rfl⟩ := List.cons.inj he
      obtain ⟨i, hi⟩ := hp
      exact ⟨i, hkeep hi⟩
    · rw [SortedMap.get_insert_ne _ he] at h
      obtain ⟨i, hi⟩ := t.nested name' parent' h
      exact ⟨i, hkeep hi⟩

/-- Another tree has one entry more. -/
structure Plus (t : FileTree N I) (loc : Location N) (new : FileNode I) (t' : FileTree N I) :
    Prop where
  here : t'.node loc = some new
  elsewhere : ∀ l, l ≠ loc → t'.node l = t.node l

/-- Another tree has one entry less. -/
structure Minus (t : FileTree N I) (loc : Location N) (t' : FileTree N I) : Prop where
  here : t'.node loc = none
  elsewhere : ∀ l, l ≠ loc → t'.node l = t.node l

theorem Minus.less {t t' : FileTree N I} {loc l : Location N} {node : FileNode I}
    (h : t.Minus loc t') (hn : t'.node l = some node) : l ≠ loc ∧ t.node l = some node := by
  have hne : l ≠ loc := by
    intro he
    rw [he, h.here] at hn
    cases hn
  exact ⟨hne, (h.elsewhere l hne).symm.trans hn⟩

/-- A new entry that goes again leaves the tree as it was. -/
theorem Plus.undone {t t' u : FileTree N I} {loc : Location N} {new : FileNode I}
    (hplus : t.Plus loc new t') (hminus : t'.Minus loc u) (hn : t.node loc = none) : u = t := by
  apply ext_node
  intro l
  by_cases hl : l = loc
  · rw [hl, hminus.here, hn]
  · rw [hminus.elsewhere l hl, hplus.elsewhere l hl]

theorem plus_add {t : FileTree N I} {name : N} {parent : Location N} {new : FileNode I}
    {hp : ∃ i, t.node parent = some ⟨.directory, i⟩} {hf : t.node (name :: parent) = none} :
    t.Plus (name :: parent) new (t.add name parent new hp hf) where
  here := SortedMap.get_insert_self ..
  elsewhere _ h := SortedMap.get_insert_ne _ h _

/-- Nothing is in the directory. -/
def vacant (t : FileTree N I) (loc : Location N) : Bool :=
  t.entries.keys.all (fun l => match l with
    | [] => true
    | _ :: parent => decide (parent ≠ loc))

theorem vacant_iff {t : FileTree N I} {loc : Location N} :
    t.vacant loc = true ↔ ∀ name, t.node (name :: loc) = none := by
  simp only [vacant, List.all_eq_true]
  constructor
  · intro h name
    by_contra hne
    obtain ⟨found, hfound⟩ := Option.ne_none_iff_exists'.mp hne
    have hm := h (name :: loc) (SortedMap.mem_keys.mpr ⟨found, hfound⟩)
    simp at hm
  · intro h l hl
    obtain ⟨found, hfound⟩ := SortedMap.mem_keys.mp hl
    cases l with
    | nil => rfl
    | cons name parent =>
      refine decide_eq_true ?_
      rintro rfl
      have hnone := h name
      rw [node, hfound] at hnone
      cases hnone

/-- Without an entry that is no directory, or an empty one. -/
def erase (t : FileTree N I) (name : N) (parent : Location N)
    (h : t.vacant (name :: parent) = true) : FileTree N I where
  entries := t.entries.erase (name :: parent)
  rooted := by
    obtain ⟨i, hi⟩ := t.rooted
    exact ⟨i, by rw [SortedMap.get_erase_ne _ (List.cons_ne_nil name parent).symm, hi]⟩
  nested := by
    intro name' parent' hsome
    by_cases he : name' :: parent' = name :: parent
    · rw [he, SortedMap.get_erase_self] at hsome
      cases hsome
    · rw [SortedMap.get_erase_ne _ he] at hsome
      obtain ⟨i, hi⟩ := t.nested name' parent' hsome
      refine ⟨i, ?_⟩
      rw [SortedMap.get_erase_ne, hi]
      rintro rfl
      have hnone := vacant_iff.mp h name'
      rw [node] at hnone
      rw [hnone] at hsome
      cases hsome

theorem minus_erase {t : FileTree N I} {name : N} {parent : Location N}
    {h : t.vacant (name :: parent) = true} :
    t.Minus (name :: parent) (t.erase name parent h) where
  here := SortedMap.get_erase_self ..
  elsewhere _ h := SortedMap.get_erase_ne _ h

variable [DecidableEq I]

/-- The open directory has not been removed. -/
def holds (t : FileTree N I) (d : OpenDirectory N I) : Bool :=
  t.node d.location == some ⟨.directory, d.identity⟩

theorem holds_iff {t : FileTree N I} {d : OpenDirectory N I} :
    t.holds d = true ↔ t.node d.location = some ⟨.directory, d.identity⟩ := beq_iff_eq

/-- `fstatat` that follows no link -/
def statAt (t : FileTree N I) (d : OpenDirectory N I) (c : PathComponent N) :
    Option (FileNode I) :=
  if t.holds d then t.node (c.follow d.location) else none

/-- `openat` of a directory -/
def openAt (t : FileTree N I) (d : OpenDirectory N I) (c : PathComponent N) :
    Except FileError (OpenDirectory N I) :=
  match t.statAt d c with
  | none => .error .notFound
  | some ⟨.directory, identity⟩ => .ok ⟨c.follow d.location, identity⟩
  | some _ => .error .other

/-- `mkdirat`, or the `bind` of a socket -/
def createAt (t : FileTree N I) (d : OpenDirectory N I) (c : PathComponent N) (new : FileNode I) :
    Except FileError (FileTree N I) :=
  match c with
  | .parent => .error .alreadyExists
  | .name name =>
    if hd : t.holds d = true then
      if hf : t.node (name :: d.location) = none then
        .ok (t.add name d.location new ⟨d.identity, holds_iff.mp hd⟩ hf)
      else .error .alreadyExists
    else .error .notFound

/-- `unlinkat`, of a directory with `AT_REMOVEDIR` or of another file -/
def unlinkAt (t : FileTree N I) (d : OpenDirectory N I) (c : PathComponent N) (directory : Bool) :
    Except FileError (FileTree N I) :=
  match c with
  | .parent => .error .other
  | .name name =>
    match t.statAt d (.name name) with
    | none => .error .notFound
    | some node =>
      if (node.kind == .directory) != directory then .error .other
      else if hv : t.vacant (name :: d.location) = true then .ok (t.erase name d.location hv)
      else .error .other

end FileTree

end Baffle
