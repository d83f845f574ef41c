import Baffle.Lib.Transition

namespace Baffle

inductive InodeKind (D : Type) where
  | directory
  | regular (content : D)
  | other

structure Inode (U D : Type) where
  owner : U
  mode : BitVec 32
  kind : InodeKind D

namespace Inode

variable {U D : Type}

/-- The group or other users may write. -/
def shared (node : Inode U D) : Bool := node.mode &&& 0o022 != 0

def sticky (node : Inode U D) : Bool := node.mode &&& 0o1000 != 0

def isDir (node : Inode U D) : Bool :=
  match node.kind with
  | .directory => true
  | _ => false

/-- An owner may change the mode, and so write whatever it is. -/
def writable [DecidableEq U] (node : Inode U D) (user : U) : Bool :=
  decide (node.owner = user) || node.shared

/-- Only its owner can change it, and the owner is trusted. -/
def guarded (trusted : U → Bool) (node : Inode U D) : Bool := trusted node.owner && !node.shared

theorem guarded_iff {trusted : U → Bool} {node : Inode U D} :
    node.guarded trusted = true ↔ trusted node.owner = true ∧ node.shared = false := by
  rw [guarded, Bool.and_eq_true_iff, Bool.not_eq_true']

end Inode

/-- Only inodes have entries, and every entry is an inode. -/
structure OwnedFiles (U N I D : Type) where
  inodes : I → Option (Inode U D)
  entries : I → N → Option I
  root : I
  linked : ∀ dir name i, entries dir name = some i →
    (inodes dir).isSome = true ∧ (inodes i).isSome = true

/-- A call of a user without privileges. A rename unlinks and links. -/
inductive FileCall (N I D : Type) where
  | create (i : I) (mode : BitVec 32) (kind : InodeKind D)
  | chmod (i : I) (mode : BitVec 32)
  | write (i : I) (content : D)
  | link (dir : I) (name : N) (i : I)
  | unlink (dir : I) (name : N)

namespace OwnedFiles

variable {U N I D : Type}

section

variable {trusted : U → Bool} {fs fs' fs'' : OwnedFiles U N I D}

/-- What becomes of an inode with a trusted owner. -/
structure Retained (node node' : Inode U D) : Prop where
  owner : node'.owner = node.owner
  mode : node'.mode = node.mode
  directory : node'.isDir = node.isDir
  guarded : node.shared = false → node' = node

/-- A later state in which everything that trusted users rely on is as it was. -/
structure Protected (trusted : U → Bool) (fs fs' : OwnedFiles U N I D) : Prop where
  root : fs'.root = fs.root
  inodes : ∀ i node, fs.inodes i = some node → trusted node.owner = true →
    ∃ node', fs'.inodes i = some node' ∧ Retained node node'
  /-- trust is not gained -/
  owners : ∀ i node', fs'.inodes i = some node' → trusted node'.owner = true →
    ∃ node, fs.inodes i = some node ∧ trusted node.owner = true
  entries : ∀ i node, fs.inodes i = some node → node.guarded trusted = true →
    fs'.entries i = fs.entries i
  sticky : ∀ dir node name i target, fs.inodes dir = some node → trusted node.owner = true →
    node.sticky = true → fs.entries dir name = some i → fs.inodes i = some target →
    trusted target.owner = true → fs'.entries dir name = some i

theorem Protected.refl (trusted : U → Bool) (fs : OwnedFiles U N I D) :
    Protected trusted fs fs where
  root := rfl
  inodes _ node h _ := ⟨node, h, rfl, rfl, rfl, fun _ => rfl⟩
  owners _ node h ht := ⟨node, h, ht⟩
  entries _ _ _ _ := rfl
  sticky _ _ _ _ _ _ _ _ h _ _ := h

theorem Protected.trans (h : Protected trusted fs fs') (h' : Protected trusted fs' fs'') :
    Protected trusted fs fs'' where
  root := h'.root.trans h.root
  inodes i node hi ht := by
    obtain ⟨node', hi', hr⟩ := h.inodes i node hi ht
    obtain ⟨node'', hi'', hr'⟩ := h'.inodes i node' hi' (hr.owner ▸ ht)
    refine ⟨node'', hi'', hr'.owner.trans hr.owner, hr'.mode.trans hr.mode,
      hr'.directory.trans hr.directory, ?_⟩
    intro hs
    have he := hr.guarded hs
    rw [hr'.guarded (he ▸ hs), he]
  owners i node'' hi ht := by
    obtain ⟨node', hi', ht'⟩ := h'.owners i node'' hi ht
    exact h.owners i node' hi' ht'
  entries i node hi hg := by
    obtain ⟨ht, hs⟩ := Inode.guarded_iff.mp hg
    obtain ⟨node', hi', hr⟩ := h.inodes i node hi ht
    rw [hr.guarded hs] at hi'
    rw [h'.entries i node hi' hg, h.entries i node hi hg]
  sticky dir node name i target hd ht hs he hi hti := by
    obtain ⟨node', hd', hr⟩ := h.inodes dir node hd ht
    obtain ⟨target', hi', hri⟩ := h.inodes i target hi hti
    refine h'.sticky dir node' name i target' hd' (hr.owner ▸ ht) ?_
      (h.sticky dir node name i target hd ht hs he hi hti) hi' (hri.owner ▸ hti)
    rw [Inode.sticky, hr.mode]
    exact hs

/-- The inode is there and guarded. -/
def Guards (trusted : U → Bool) (fs : OwnedFiles U N I D) (i : I) : Prop :=
  ∃ node, fs.inodes i = some node ∧ node.guarded trusted = true

theorem Protected.guarded_inode {i : I} (h : Protected trusted fs fs') (hg : Guards trusted fs i) :
    fs'.inodes i = fs.inodes i := by
  obtain ⟨node, hi, hn⟩ := hg
  obtain ⟨ht, hs⟩ := Inode.guarded_iff.mp hn
  obtain ⟨node', hi', hr⟩ := h.inodes i node hi ht
  rw [hi', hi, hr.guarded hs]

theorem Protected.guarded_entries {i : I} (h : Protected trusted fs fs')
    (hg : Guards trusted fs i) : fs'.entries i = fs.entries i := by
  obtain ⟨node, hi, hn⟩ := hg
  exact h.entries i node hi hn

theorem Protected.guards_iff {i : I} (h : Protected trusted fs fs') :
    Guards trusted fs' i ↔ Guards trusted fs i := by
  constructor
  · rintro ⟨node', hi', hn⟩
    obtain ⟨ht, hs⟩ := Inode.guarded_iff.mp hn
    obtain ⟨node, hi, ht0⟩ := h.owners i node' hi' ht
    obtain ⟨node'', hi'', hr⟩ := h.inodes i node hi ht0
    rw [hi', Option.some.injEq] at hi''
    refine ⟨node, hi, Inode.guarded_iff.mpr ⟨ht0, ?_⟩⟩
    rw [hi'', Inode.shared, hr.mode] at hs
    exact hs
  · intro hg
    obtain ⟨node, hi, hn⟩ := hg
    exact ⟨node, (h.guarded_inode ⟨node, hi, hn⟩).trans hi, hn⟩

end

variable [DecidableEq I]

def setInode (fs : OwnedFiles U N I D) (i : I) (node : Inode U D) : OwnedFiles U N I D where
  inodes := Function.update fs.inodes i (some node)
  entries := fs.entries
  root := fs.root
  linked dir name j h := by
    have hset : ∀ k, (fs.inodes k).isSome = true →
        (Function.update fs.inodes i (some node) k).isSome = true := by
      intro k hk
      by_cases he : k = i
      · rw [he, Function.update_self]
        rfl
      · rw [Function.update_of_ne he]
        exact hk
    obtain ⟨hd, hj⟩ := fs.linked dir name j h
    exact ⟨hset dir hd, hset j hj⟩

variable [DecidableEq N]

def setEntry (fs : OwnedFiles U N I D) (dir : I) (name : N) (entry : Option I)
    (h : ∀ i, entry = some i → (fs.inodes dir).isSome = true ∧ (fs.inodes i).isSome = true) :
    OwnedFiles U N I D where
  inodes := fs.inodes
  entries := Function.update fs.entries dir (Function.update (fs.entries dir) name entry)
  root := fs.root
  linked dir' name' j hj := by
    by_cases hd : dir' = dir
    · rw [hd, Function.update_self] at hj
      rw [hd]
      by_cases hn : name' = name
      · rw [hn, Function.update_self] at hj
        exact h j hj
      · rw [Function.update_of_ne hn] at hj
        exact fs.linked dir name' j hj
    · rw [Function.update_of_ne hd] at hj
      exact fs.linked dir' name' j hj

variable [DecidableEq U]

def call (user : U) (fs : OwnedFiles U N I D) : FileCall N I D → Option (OwnedFiles U N I D)
  | .create i mode kind =>
    match fs.inodes i with
    | none => some (fs.setInode i ⟨user, mode, kind⟩)
    | some _ => none
  | .chmod i mode =>
    match fs.inodes i with
    | some node => if node.owner = user then some (fs.setInode i { node with mode }) else none
    | none => none
  | .write i content =>
    match fs.inodes i with
    | some ⟨owner, mode, .regular before⟩ =>
      if (⟨owner, mode, .regular before⟩ : Inode U D).writable user then
        some (fs.setInode i ⟨owner, mode, .regular content⟩)
      else none
    | _ => none
  | .link dir name i =>
    match hd : fs.inodes dir, hi : fs.inodes i with
    | some node, some _ =>
      if node.writable user && (fs.entries dir name).isNone then
        some (fs.setEntry dir name (some i) (by
          rintro _ ⟨⟩
          rw [hd, hi]
          exact ⟨rfl, rfl⟩))
      else none
    | _, _ => none
  | .unlink dir name =>
    match fs.inodes dir, (fs.entries dir name).bind fs.inodes with
    | some node, some target =>
      -- in a sticky directory only the owner of an entry may remove it
      if node.writable user && (!node.sticky || decide (node.owner = user ∨ target.owner = user))
      then some (fs.setEntry dir name none (by rintro _ ⟨⟩))
      else none
    | _, _ => none

/-- The calls of all users -/
def step (a : U × FileCall N I D) (fs : OwnedFiles U N I D) : Option (OwnedFiles U N I D) :=
  fs.call a.1 a.2

variable {trusted : U → Bool} {user : U} {fs fs' : OwnedFiles U N I D}

omit [DecidableEq N] [DecidableEq U] in
theorem set_inode_self {i : I} {node : Inode U D} : (fs.setInode i node).inodes i = some node :=
  Function.update_self ..

omit [DecidableEq N] [DecidableEq U] in
theorem set_inode_ne {i j : I} {node : Inode U D} (h : j ≠ i) :
    (fs.setInode i node).inodes j = fs.inodes j := Function.update_of_ne h ..

omit [DecidableEq U] in
theorem set_entry_self {dir : I} {name : N} {entry : Option I}
    {hl : ∀ i, entry = some i → (fs.inodes dir).isSome = true ∧ (fs.inodes i).isSome = true} :
    (fs.setEntry dir name entry hl).entries dir = Function.update (fs.entries dir) name entry :=
  Function.update_self ..

omit [DecidableEq U] in
theorem set_entry_ne {dir dir' : I} {name : N} {entry : Option I}
    {hl : ∀ i, entry = some i → (fs.inodes dir).isSome = true ∧ (fs.inodes i).isSome = true}
    (h : dir' ≠ dir) : (fs.setEntry dir name entry hl).entries dir' = fs.entries dir' :=
  Function.update_of_ne h ..

omit [DecidableEq N] [DecidableEq U] in
theorem protected_set {i : I} {new : Inode U D}
    (h : ∀ node, fs.inodes i = some node → trusted node.owner = true → Retained node new)
    (ho : trusted new.owner = true →
      ∃ node, fs.inodes i = some node ∧ trusted node.owner = true) :
    Protected trusted fs (fs.setInode i new) where
  root := rfl
  inodes j node hj ht := by
    by_cases he : j = i
    · subst he
      exact ⟨new, set_inode_self, h node hj ht⟩
    · exact ⟨node, (set_inode_ne he).trans hj, rfl, rfl, rfl, fun _ => rfl⟩
  owners j node' hj ht := by
    by_cases he : j = i
    · subst he
      rw [set_inode_self, Option.some.injEq] at hj
      rw [← hj] at ht
      exact ho ht
    · rw [set_inode_ne he] at hj
      exact ⟨node', hj, ht⟩
  entries _ _ _ _ := rfl
  sticky _ _ _ _ _ _ _ _ h _ _ := h

/-- A trusted inode that an untrusted user may write is not guarded. -/
theorem not_guarded {node : Inode U D} (hu : trusted user = false)
    (hw : node.writable user = true) : node.guarded trusted = false := by
  rw [Inode.writable, Bool.or_eq_true_iff, decide_eq_true_iff] at hw
  rcases hw with rfl | hs
  · rw [Inode.guarded, hu, Bool.false_and]
  · rw [Inode.guarded, hs, Bool.not_true, Bool.and_false]

omit [DecidableEq U] in
theorem protected_entry {dir : I} {name : N} {entry : Option I} {node : Inode U D}
    {hl : ∀ i, entry = some i → (fs.inodes dir).isSome = true ∧ (fs.inodes i).isSome = true}
    (hd : fs.inodes dir = some node) (hg : node.guarded trusted = false)
    (hs : ∀ i target, trusted node.owner = true → node.sticky = true →
      fs.entries dir name = some i → fs.inodes i = some target → trusted target.owner = false) :
    Protected trusted fs (fs.setEntry dir name entry hl) where
  root := rfl
  inodes _ node h _ := ⟨node, h, rfl, rfl, rfl, fun _ => rfl⟩
  owners _ node h ht := ⟨node, h, ht⟩
  entries i node' hi hg' := by
    apply set_entry_ne
    rintro rfl
    rw [hd, Option.some.injEq] at hi
    rw [hi, hg'] at hg
    cases hg
  sticky dir' node' name' i target hd' ht hst he hi hti := by
    by_cases heq : dir' = dir
    · subst heq
      rw [hd, Option.some.injEq] at hd'
      rw [← hd'] at ht hst
      rw [set_entry_self]
      by_cases hn : name' = name
      · subst hn
        rw [hs i target ht hst he hi] at hti
        cases hti
      · rw [Function.update_of_ne hn]
        exact he
    · rw [set_entry_ne heq]
      exact he

theorem create_protected {i : I} {mode : BitVec 32} {kind : InodeKind D}
    (hu : trusted user = false) (h : fs.call user (.create i mode kind) = some fs') :
    Protected trusted fs fs' := by
  rw [call] at h
  split at h
  · rename_i hi
    rw [← Option.some.inj h]
    refine protected_set ?_ ?_
    · intro node hn
      rw [hi] at hn
      cases hn
    · intro ht
      rw [hu] at ht
      cases ht
  · cases h

theorem chmod_protected {i : I} {mode : BitVec 32} (hu : trusted user = false)
    (h : fs.call user (.chmod i mode) = some fs') : Protected trusted fs fs' := by
  rw [call] at h
  split at h
  · rename_i node hi
    split at h
    · rename_i ho
      rw [← Option.some.inj h]
      refine protected_set ?_ ?_
      · intro node' hn ht
        rw [hi, Option.some.injEq] at hn
        rw [← hn, ho, hu] at ht
        cases ht
      · intro ht
        exact ⟨node, hi, ht⟩
    · cases h
  · cases h

theorem write_protected {i : I} {content : D} (hu : trusted user = false)
    (h : fs.call user (.write i content) = some fs') : Protected trusted fs fs' := by
  rw [call] at h
  split at h
  · rename_i owner mode before hi
    split at h
    · rename_i hw
      rw [← Option.some.inj h]
      refine protected_set ?_ ?_
      · intro node hn ht
        rw [hi, Option.some.injEq] at hn
        subst hn
        refine ⟨rfl, rfl, rfl, ?_⟩
        intro hs
        have hg := not_guarded hu hw
        rw [Inode.guarded, ht, hs] at hg
        cases hg
      · intro ht
        exact ⟨_, hi, ht⟩
    · cases h
  · cases h

theorem link_protected {dir i : I} {name : N} (hu : trusted user = false)
    (h : fs.call user (.link dir name i) = some fs') : Protected trusted fs fs' := by
  rw [call] at h
  split at h
  · rename_i node target hd hi
    split at h
    · rename_i hw
      rw [← Option.some.inj h]
      rw [Bool.and_eq_true_iff] at hw
      refine protected_entry hd (not_guarded hu hw.1) ?_
      intro j target' ht hs he
      rw [he] at hw
      cases hw.2
    · cases h
  · cases h

theorem unlink_protected {dir : I} {name : N} (hu : trusted user = false)
    (h : fs.call user (.unlink dir name) = some fs') : Protected trusted fs fs' := by
  rw [call] at h
  split at h
  · rename_i node target hd hi
    split at h
    · rename_i hw
      rw [← Option.some.inj h]
      rw [Bool.and_eq_true_iff, Bool.or_eq_true_iff, decide_eq_true_iff] at hw
      refine protected_entry hd (not_guarded hu hw.1) ?_
      intro i target' ht hs he hi'
      rw [he, Option.bind_some, hi', Option.some.injEq] at hi
      rw [hs] at hw
      rcases hw.2 with hf | ho | ho
      · cases hf
      · rw [ho, hu] at ht
        cases ht
      · rw [hi, ho, hu]
    · cases h
  · cases h

theorem call_protected {c : FileCall N I D} (hu : trusted user = false)
    (h : fs.call user c = some fs') : Protected trusted fs fs' := by
  cases c with
  | create i mode kind => exact create_protected hu h
  | chmod i mode => exact chmod_protected hu h
  | write i content => exact write_protected hu h
  | link dir name i => exact link_protected hu h
  | unlink dir name => exact unlink_protected hu h

/-- The calls of the users that are not trusted. -/
def Untrusted (trusted : U → Bool) (a : U × FileCall N I D) (_ : OwnedFiles U N I D) : Prop :=
  trusted a.1 = false

theorem untrusted_protected (h : ReachBy step (Untrusted trusted) fs fs') :
    Protected trusted fs fs' := by
  refine ReachBy.invariant (.refl trusted fs) ?_ h
  rintro s s' ⟨user, c⟩ - hi hu hs
  exact hi.trans (call_protected hu hs)

/-- States in which one finds the files one after the other, with calls of
untrusted users in between. -/
def Tampered (trusted : U → Bool) (clock : Nat → OwnedFiles U N I D) : Prop :=
  ∀ k, ReachBy step (Untrusted trusted) (clock k) (clock (k + 1))

theorem Tampered.protected {clock : Nat → OwnedFiles U N I D} (h : Tampered trusted clock)
    (j k : Nat) : Protected trusted (clock j) (clock (j + k)) := by
  induction k with
  | zero => exact .refl trusted (clock j)
  | succ k ih => exact ih.trans (untrusted_protected (h (j + k)))

end OwnedFiles

end Baffle
