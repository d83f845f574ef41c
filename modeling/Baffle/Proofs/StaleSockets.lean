import Baffle.StaleSockets

namespace Baffle.Proofs

variable {N : Type} [LinearOrder N] {env : SweepEnv N} {uid : Nat} {t t' t'' : SweepTree N}
  {d : SweepDirectory N} {root loc below : Location N} {name : N}

/-- A socket of the operator on which nobody listens. -/
def Stale (env : SweepEnv N) (uid : Nat) (t : SweepTree N) (loc : Location N) : Prop :=
  ∃ i, t.node loc = some ⟨.socket, i⟩ ∧ i.uid = uid ∧ env.probe loc = .stale

/-- The location is reached from the root through directories alone. -/
inductive RealPath (t : SweepTree N) (root : Location N) : Location N → Prop where
  | root : RealPath t root root
  | entry {parent : Location N} (name : N) (before : RealPath t root parent)
      (real : ∃ i, t.node parent = some ⟨.directory, i⟩) : RealPath t root (name :: parent)

/-- Stale sockets at or below the location are gone; all else is as it was. -/
def Cleared (env : SweepEnv N) (uid : Nat) (below : Location N) (t t' : SweepTree N) : Prop :=
  ∀ loc, t'.node loc = t.node loc ∨ (below <:+ loc ∧ Stale env uid t loc ∧ t'.node loc = none)

/-- What a part of the cleanup does at or below a location. -/
structure Sweeps (env : SweepEnv N) (uid : Nat) (below : Location N) (t : SweepTree N)
    (out : Swept N Unit) : Prop where
  cleared : Cleared env uid below t out.2
  whole : out.1 = .ok () → ∀ loc, below <:+ loc → Stale env uid t loc → out.2.node loc = none

theorem Stale.not_directory (h : Stale env uid t loc) {i : EntryStat N} :
    t.node loc ≠ some ⟨.directory, i⟩ := by
  intro hd
  obtain ⟨j, hj, -⟩ := h
  rw [hd] at hj
  cases hj

theorem Cleared.refl (below : Location N) (t : SweepTree N) : Cleared env uid below t t :=
  fun _ => Or.inl rfl

theorem Cleared.trans (h : Cleared env uid below t t') (h' : Cleared env uid below t' t'') :
    Cleared env uid below t t'' := by
  intro loc
  rcases h loc with hsame | ⟨hbelow, hstale, hnone⟩
  · rcases h' loc with hsame' | ⟨hbelow, ⟨i, hi, hrest⟩, hnone⟩
    · exact Or.inl (hsame'.trans hsame)
    · exact Or.inr ⟨hbelow, ⟨i, hsame ▸ hi, hrest⟩, hnone⟩
  · refine Or.inr ⟨hbelow, hstale, ?_⟩
    rcases h' loc with hsame' | ⟨-, -, hnone'⟩
    · exact hsame'.trans hnone
    · exact hnone'

theorem Cleared.widen (h : Cleared env uid below t t') (hb : root <:+ below) :
    Cleared env uid root t t' := by
  intro loc
  rcases h loc with hsame | ⟨hbelow, hrest⟩
  · exact Or.inl hsame
  · exact Or.inr ⟨hb.trans hbelow, hrest⟩

theorem Cleared.holds (h : Cleared env uid below t t') (hd : t.holds d = true) :
    t'.holds d = true := by
  have hdir := FileTree.holds_iff.mp hd
  rcases h d.location with hsame | ⟨-, hstale, -⟩
  · exact FileTree.holds_iff.mpr (hsame.trans hdir)
  · exact absurd hdir hstale.not_directory

theorem Cleared.stale (h : Cleared env uid below t t') (hs : Stale env uid t loc) :
    Stale env uid t' loc ∨ t'.node loc = none := by
  rcases h loc with hsame | ⟨-, -, hnone⟩
  · obtain ⟨i, hi, hrest⟩ := hs
    exact Or.inl ⟨i, hsame.trans hi, hrest⟩
  · exact Or.inr hnone

theorem Cleared.none (h : Cleared env uid below t t') (hn : t.node loc = none) :
    t'.node loc = none := by
  rcases h loc with hsame | ⟨-, -, hnone⟩
  · exact hsame.trans hn
  · exact hnone

theorem stat_at (hd : t.holds d = true) (name : N) :
    t.statAt d (.name name) = t.node (name :: d.location) := if_pos hd

/-- Above an entry there are only directories. -/
theorem above_directory (hn : (t.node loc).isSome = true) (hb : below <:+ loc)
    (hne : below ≠ loc) : ∃ i, t.node below = some ⟨.directory, i⟩ := by
  induction loc with
  | nil => exact absurd (List.suffix_nil.mp hb) hne
  | cons name parent ih =>
    obtain ⟨i, hi⟩ := t.nested name parent hn
    have hparent : t.node parent = some ⟨.directory, i⟩ := hi
    rcases List.suffix_cons_iff.mp hb with he | hb
    · exact absurd he hne
    · by_cases he : below = parent
      · rw [he]
        exact ⟨i, hparent⟩
      · apply ih _ hb he
        rw [hparent]
        rfl

/-- Below what is no directory there is no stale socket. -/
theorem stale_below (hs : Stale env uid t loc) (hb : below <:+ loc)
    (hno : ∀ i, t.node below ≠ some ⟨.directory, i⟩) : below = loc := by
  by_contra hne
  obtain ⟨i, hi, -⟩ := hs
  obtain ⟨j, hj⟩ := above_directory (by rw [hi]; rfl) hb hne
  exact hno j hj

theorem unlink_socket {i : EntryStat N} (hd : t.holds d = true)
    (hn : t.node (name :: d.location) = some ⟨.socket, i⟩) :
    ∃ t', t.unlinkAt d (.name name) false = .ok t' ∧ t.Minus (name :: d.location) t' := by
  have hv : t.vacant (name :: d.location) = true := by
    apply FileTree.vacant_iff.mpr
    intro below
    by_contra hne
    obtain ⟨j, hj⟩ := t.nested below (name :: d.location) (Option.isSome_iff_ne_none.mpr hne)
    have hj' : t.node (name :: d.location) = some ⟨.directory, j⟩ := hj
    rw [hn] at hj'
    cases hj'
  refine ⟨t.erase name d.location hv, ?_, FileTree.minus_erase⟩
  unfold FileTree.unlinkAt
  dsimp only
  rw [stat_at hd, hn]
  exact dif_pos hv

/-- Removing a stale socket. -/
theorem minus_sweeps (hs : Stale env uid t (name :: d.location))
    (hm : t.Minus (name :: d.location) t') :
    Cleared env uid (name :: d.location) t t' := by
  intro loc
  by_cases he : loc = name :: d.location
  · rw [he]
    exact Or.inr ⟨List.suffix_refl _, hs, hm.here⟩
  · exact Or.inl (hm.elsewhere loc he)

/-- What a call does for one location, whatever it returns. -/
structure Clears (env : SweepEnv N) (uid : Nat) (loc : Location N) (t : SweepTree N)
    (out : Swept N Bool) : Prop where
  cleared : Cleared env uid loc t out.2
  whole : ∀ b, out.1 = .ok b → Stale env uid t loc → out.2.node loc = none

theorem Clears.failed (error : SweepError N) : Clears env uid loc t (.error error, t) :=
  ⟨Cleared.refl loc t, fun _ h => nomatch h⟩

theorem Clears.kept (b : Bool) (h : ¬ Stale env uid t loc) : Clears env uid loc t (.ok b, t) :=
  ⟨Cleared.refl loc t, fun _ _ hs => absurd hs h⟩

theorem remove_stale_socket (env : SweepEnv N) (uid : Nat) (hd : t.holds d = true) (name : N) :
    Clears env uid (name :: d.location) t (removeStaleSocketAtWithProbe env uid d name t) := by
  unfold removeStaleSocketAtWithProbe
  dsimp only
  rw [stat_at hd]
  split
  · exact .failed _
  cases hn : t.node (name :: d.location) with
  | none =>
    apply Clears.kept
    intro hs
    obtain ⟨i, hi, -⟩ := hs
    cases hn.symm.trans hi
  | some metadata =>
    dsimp only
    split
    · rename_i hother
      apply Clears.kept
      intro hs
      obtain ⟨i, hi, huid, -⟩ := hs
      cases hn.symm.trans hi
      rcases hother with h | h
      · exact h rfl
      · exact h huid
    · rename_i hsocket
      rw [not_or, not_ne_iff, not_ne_iff] at hsocket
      split
      · exact .failed _
      cases hprobe : env.probe (name :: d.location) with
      | active =>
        apply Clears.kept
        intro hs
        obtain ⟨i, -, -, hstale⟩ := hs
        rw [hprobe] at hstale
        cases hstale
      | stale =>
        have hs : Stale env uid t (name :: d.location) := by
          obtain ⟨kind, i⟩ := metadata
          obtain ⟨hkind, huid⟩ := hsocket
          obtain rfl : kind = .socket := hkind
          exact ⟨i, hn, huid, hprobe⟩
        dsimp only
        split
        · exact .failed _
        split
        · exact .failed _
        split
        · exact .failed _
        obtain ⟨i, hi, -⟩ := id hs
        obtain ⟨t', hunlink, hminus⟩ := unlink_socket hd hi
        rw [hunlink]
        exact ⟨minus_sweeps hs hminus, fun _ _ _ => hminus.here⟩

/-- The call for a nested directory does its part. -/
def Descends (env : SweepEnv N) (uid : Nat)
    (descend : Option (SweepDirectory N → SweepTree N → Swept N Unit)) : Prop :=
  ∀ call, descend = some call → ∀ child t, t.holds child = true →
    Sweeps env uid child.location t (call child t)

theorem Sweeps.failed (error : SweepError N) : Sweeps env uid below t (.error error, t) :=
  ⟨Cleared.refl below t, fun h => nomatch h⟩

theorem Sweeps.kept (h : ∀ loc, below <:+ loc → ¬ Stale env uid t loc) :
    Sweeps env uid below t (.ok (), t) :=
  ⟨Cleared.refl below t, fun _ loc hb hs => absurd hs (h loc hb)⟩

theorem open_directory {i : EntryStat N} (hd : t.holds d = true)
    (hn : t.node (name :: d.location) = some ⟨.directory, i⟩) :
    t.openAt d (.name name) = .ok ⟨name :: d.location, i⟩ := by
  unfold FileTree.openAt
  rw [stat_at hd, hn]
  rfl

theorem sweep_entry {descend : Option (SweepDirectory N → SweepTree N → Swept N Unit)}
    (hdescend : Descends env uid descend) (hd : t.holds d = true) (name : N) :
    Sweeps env uid (name :: d.location) t (sweepEntry env uid descend d name t) := by
  unfold sweepEntry
  dsimp only
  rw [stat_at hd]
  split
  · exact .failed _
  cases hn : t.node (name :: d.location) with
  | none =>
    apply Sweeps.kept
    intro loc hb hs
    obtain rfl := stale_below hs hb (fun i hi => by cases hn.symm.trans hi)
    obtain ⟨i, hi, -⟩ := hs
    cases hn.symm.trans hi
  | some metadata =>
    obtain ⟨kind, i⟩ := metadata
    cases kind with
    | directory =>
      dsimp only
      rw [open_directory hd hn]
      split
      · exact .failed _
      · rename_i call hcall
        have hsome : descend = some call := by
          split at hcall
          · cases hcall
          · exact hcall
        dsimp only
        split
        · exact .failed _
        rw [if_neg (by simp)]
        exact hdescend call hsome ⟨name :: d.location, i⟩ t (FileTree.holds_iff.mpr hn)
    | socket =>
      have hclears := remove_stale_socket env uid hd name
      dsimp only
      generalize removeStaleSocketAtWithProbe env uid d name t = out at hclears ⊢
      obtain ⟨r, t'⟩ := out
      cases r with
      | error error => exact ⟨hclears.cleared, fun h => nomatch h⟩
      | ok b =>
        refine ⟨hclears.cleared, ?_⟩
        intro _ loc hb hs
        obtain rfl := stale_below hs hb (fun j hj => by cases hn.symm.trans hj)
        exact hclears.whole b rfl hs
    | other =>
      apply Sweeps.kept
      intro loc hb hs
      obtain rfl := stale_below hs hb (fun j hj => by cases hn.symm.trans hj)
      obtain ⟨j, hj, -⟩ := hs
      cases hn.symm.trans hj

/-- What the loop does with the names that are left. -/
structure SweepsNames (env : SweepEnv N) (uid : Nat) (directory : Location N) (names : List N)
    (t : SweepTree N) (out : Swept N Unit) : Prop where
  cleared : Cleared env uid directory t out.2
  whole : out.1 = .ok () → ∀ name ∈ names, ∀ loc, name :: directory <:+ loc →
    Stale env uid t loc → out.2.node loc = none

theorem sweep_names {descend : Option (SweepDirectory N → SweepTree N → Swept N Unit)}
    (hdescend : Descends env uid descend) (names : List N) (hd : t.holds d = true) :
    SweepsNames env uid d.location names t (sweepNames env uid descend d names t) := by
  induction names generalizing t with
  | nil => exact ⟨Cleared.refl _ t, fun _ name hm => absurd hm List.not_mem_nil⟩
  | cons name names ih =>
    have hentry := sweep_entry hdescend hd name
    rw [sweepNames]
    generalize sweepEntry env uid descend d name t = out at hentry ⊢
    obtain ⟨r, t'⟩ := out
    have hcleared : Cleared env uid d.location t t' :=
      hentry.cleared.widen (List.suffix_cons name d.location)
    cases r with
    | error error => exact ⟨hcleared, fun h => nomatch h⟩
    | ok u =>
      have hrest := ih (hcleared.holds hd)
      refine ⟨hcleared.trans hrest.cleared, ?_⟩
      intro hok other hm loc hb hs
      rcases List.mem_cons.mp hm with rfl | hm
      · exact hrest.cleared.none (hentry.whole rfl loc hb hs)
      · rcases hcleared.stale hs with hs' | hnone
        · exact hrest.whole hok other hm loc hb hs'
        · exact hrest.cleared.none hnone

theorem mem_names {i : FileNode (EntryStat N)} (hd : t.holds d = true)
    (hn : t.node (name :: d.location) = some i) : name ∈ t.names d := by
  unfold FileTree.names
  rw [if_pos hd, List.mem_filterMap]
  exact ⟨name :: d.location, SortedMap.mem_keys.mpr ⟨i, hn⟩, if_pos rfl⟩

theorem mem_entry_names {i : FileNode (EntryStat N)} {names : List N} (hd : t.holds d = true)
    (hn : t.node (name :: d.location) = some i)
    (h : directoryEntryNames env t d = some names) : name ∈ names := by
  unfold directoryEntryNames at h
  split at h
  · cases h
  · cases h
    rw [List.mem_filterMap]
    refine ⟨.name name, ?_, rfl⟩
    apply (env.order_perm d.location _).mem_iff.mpr
    apply List.mem_cons_of_mem
    apply List.mem_cons_of_mem
    exact List.mem_map_of_mem (mem_names hd hn)

/-- An entry below a directory is at or below one of its names. -/
theorem below_name (hd : t.holds d = true) (hb : d.location <:+ loc) (hs : Stale env uid t loc) :
    ∃ name i, name :: d.location <:+ loc ∧ t.node (name :: d.location) = some i := by
  obtain ⟨above, rfl⟩ := hb
  rcases List.eq_nil_or_concat above with rfl | ⟨others, name, rfl⟩
  · exact absurd (FileTree.holds_iff.mp hd) hs.not_directory
  · rw [List.concat_eq_append, List.append_assoc, List.singleton_append] at hs ⊢
    have hsuffix : name :: d.location <:+ others ++ name :: d.location := List.suffix_append _ _
    by_cases he : name :: d.location = others ++ name :: d.location
    · obtain ⟨i, hi, -⟩ := hs
      exact ⟨name, _, hsuffix, (congrArg t.node he).trans hi⟩
    · obtain ⟨i, hi, -⟩ := hs
      obtain ⟨j, hj⟩ := above_directory (by rw [hi]; rfl) hsuffix he
      exact ⟨name, _, hsuffix, hj⟩

theorem sweep_directory {descend : Option (SweepDirectory N → SweepTree N → Swept N Unit)}
    (hdescend : Descends env uid descend) (hd : t.holds d = true) :
    Sweeps env uid d.location t (sweepDirectory env uid descend d t) := by
  unfold sweepDirectory
  split
  · exact .failed _
  · rename_i names hnames
    have hsweeps := sweep_names hdescend names hd
    refine ⟨hsweeps.cleared, ?_⟩
    intro hok loc hb hs
    obtain ⟨name, i, hbelow, hn⟩ := below_name hd hb hs
    exact hsweeps.whole hok name (mem_entry_names hd hn hnames) loc hbelow hs

theorem sweep (env : SweepEnv N) (uid descriptors : Nat) (hd : t.holds d = true) :
    Sweeps env uid d.location t (removeStaleSessionSocketsAt env uid descriptors d t) := by
  induction descriptors generalizing t d with
  | zero => exact sweep_directory (fun _ h => nomatch h) hd
  | succ descriptors ih =>
    apply sweep_directory _ hd
    intro call hcall child t hchild
    cases hcall
    exact ih hchild

theorem real_path_below (h : RealPath t root loc) : root <:+ loc := by
  induction h with
  | root => exact List.suffix_refl root
  | entry name before real ih => exact ih.trans (List.suffix_cons name _)

theorem below_real_path (hn : (t.node loc).isSome = true) (hb : root <:+ loc) :
    RealPath t root loc := by
  induction loc with
  | nil =>
    obtain rfl := List.suffix_nil.mp hb
    exact .root
  | cons name parent ih =>
    rcases List.suffix_cons_iff.mp hb with rfl | hb
    · exact .root
    · obtain ⟨i, hi⟩ := t.nested name parent hn
      have hparent : t.node parent = some ⟨.directory, i⟩ := hi
      refine .entry name (ih ?_ hb) ⟨i, hparent⟩
      rw [hparent]
      rfl

/-- A stale socket that the operator owns, reached through directories alone. -/
def Removable (env : SweepEnv N) (uid : Nat) (t : SweepTree N) (root loc : Location N) : Prop :=
  RealPath t root loc ∧ Stale env uid t loc

theorem remove_stale_returns (uid : Nat) (hf : ∀ call loc, env.fails call loc = false)
    (hd : t.holds d = true) (name : N) :
    ∃ b, (removeStaleSocketAtWithProbe env uid d name t).1 = .ok b := by
  unfold removeStaleSocketAtWithProbe
  dsimp only
  rw [stat_at hd]
  simp only [hf, Bool.false_eq_true, if_false]
  cases hn : t.node (name :: d.location) with
  | none => exact ⟨false, rfl⟩
  | some metadata =>
    dsimp only
    split
    · exact ⟨false, rfl⟩
    · rename_i hsocket
      rw [not_or, not_ne_iff, not_ne_iff] at hsocket
      cases env.probe (name :: d.location) with
      | active => exact ⟨false, rfl⟩
      | stale =>
        obtain ⟨kind, i⟩ := metadata
        obtain ⟨hkind, huid⟩ := hsocket
        obtain rfl : kind = .socket := hkind
        obtain ⟨t', hunlink, -⟩ := unlink_socket hd hn
        have hsame : i.uid = uid := huid
        dsimp only
        rw [if_neg (by simp [hsame]), hunlink]
        exact ⟨true, rfl⟩

/-- Directories below the location are nested no deeper than that. -/
def Nesting (t : SweepTree N) (root : Location N) (depth : Nat) : Prop :=
  ∀ loc i, root <:+ loc → t.node loc = some ⟨.directory, i⟩ → loc.length ≤ root.length + depth

theorem Nesting.cleared {depth : Nat} (h : Nesting t root depth) (hc : Cleared env uid below t t') :
    Nesting t' root depth := by
  intro loc i hb hn
  rcases hc loc with hsame | ⟨-, -, hnone⟩
  · exact h loc i hb (hsame.symm.trans hn)
  · cases hnone.symm.trans hn

/-- The call for a nested directory can be made, and returns. -/
def DescentReturns (descend : Option (SweepDirectory N → SweepTree N → Swept N Unit))
    (root : Location N) (depth : Nat) : Prop :=
  ∀ name i t, Nesting t root depth → t.node (name :: root) = some ⟨.directory, i⟩ →
    ∃ call, descend = some call ∧ (call ⟨name :: root, i⟩ t).1 = .ok ()

theorem entry_returns {descend : Option (SweepDirectory N → SweepTree N → Swept N Unit)}
    {depth : Nat} (uid : Nat) (hf : ∀ call loc, env.fails call loc = false)
    (hdescent : DescentReturns descend d.location depth) (hdepth : Nesting t d.location depth)
    (hd : t.holds d = true) (name : N) : (sweepEntry env uid descend d name t).1 = .ok () := by
  unfold sweepEntry
  dsimp only
  rw [stat_at hd]
  simp only [hf, Bool.false_eq_true, if_false]
  cases hn : t.node (name :: d.location) with
  | none => rfl
  | some metadata =>
    obtain ⟨kind, i⟩ := metadata
    cases kind with
    | directory =>
      obtain ⟨call, rfl, hcall⟩ := hdescent name i t hdepth hn
      dsimp only
      rw [open_directory hd hn]
      dsimp only
      rw [if_neg (by simp)]
      exact hcall
    | socket =>
      obtain ⟨b, hb⟩ := remove_stale_returns uid hf hd name
      dsimp only
      generalize removeStaleSocketAtWithProbe env uid d name t = out at hb ⊢
      obtain ⟨r, t'⟩ := out
      obtain rfl : r = .ok b := hb
      rfl
    | other => rfl

theorem names_return {descend : Option (SweepDirectory N → SweepTree N → Swept N Unit)}
    {depth : Nat} (hf : ∀ call loc, env.fails call loc = false)
    (hdescend : Descends env uid descend) (hdescent : DescentReturns descend d.location depth)
    (names : List N) (hdepth : Nesting t d.location depth) (hd : t.holds d = true) :
    (sweepNames env uid descend d names t).1 = .ok () := by
  induction names generalizing t with
  | nil => rfl
  | cons name names ih =>
    have hreturn := entry_returns uid hf hdescent hdepth hd name
    have hcleared := (sweep_entry hdescend hd name).cleared
    rw [sweepNames]
    generalize sweepEntry env uid descend d name t = out at hreturn hcleared ⊢
    obtain ⟨r, t'⟩ := out
    obtain rfl : r = .ok () := hreturn
    exact ih (hdepth.cleared hcleared) (hcleared.holds hd)

theorem directory_returns {descend : Option (SweepDirectory N → SweepTree N → Swept N Unit)}
    {depth : Nat} (hf : ∀ call loc, env.fails call loc = false)
    (hdescend : Descends env uid descend) (hdescent : DescentReturns descend d.location depth)
    (hdepth : Nesting t d.location depth) (hd : t.holds d = true) :
    (sweepDirectory env uid descend d t).1 = .ok () := by
  unfold sweepDirectory
  split
  · rename_i hnone
    unfold directoryEntryNames at hnone
    rw [if_neg (by simp [hf])] at hnone
    cases hnone
  · rename_i names hnames
    exact names_return hf hdescend hdescent names hdepth hd

theorem sweep_returns (hf : ∀ call loc, env.fails call loc = false) (descriptors : Nat)
    (hdepth : Nesting t d.location descriptors) (hd : t.holds d = true) :
    (removeStaleSessionSocketsAt env uid descriptors d t).1 = .ok () := by
  induction descriptors generalizing t d with
  | zero =>
    apply directory_returns hf _ _ hdepth hd
    · intro call hcall
      cases hcall
    · intro name i t hdepth hn
      have hlen := hdepth _ i (List.suffix_cons name d.location) hn
      rw [List.length_cons] at hlen
      omega
  | succ descriptors ih =>
    apply directory_returns hf _ _ hdepth hd
    · intro call hcall child t hchild
      cases hcall
      exact sweep env uid descriptors hchild
    · intro name i t hdepth hn
      refine ⟨_, rfl, ih ?_ (FileTree.holds_iff.mpr hn)⟩
      intro loc j hb hj
      have hlen := hdepth loc j ((List.suffix_cons name d.location).trans hb) hj
      rw [List.length_cons]
      omega

/-- A cleanup that returns has removed the stale sockets of the operator that are
reached through directories alone, and nothing else; one that fails has removed
none but such; and without a failing call it returns. -/
theorem stale_sockets_swept (env : SweepEnv N) (uid descriptors : Nat) :
    (∀ t d, t.holds d = true →
      (removeStaleSessionSocketsAt env uid descriptors d t).1 = .ok () → ∀ loc,
      (Removable env uid t d.location loc →
        (removeStaleSessionSocketsAt env uid descriptors d t).2.node loc = none) ∧
      (¬ Removable env uid t d.location loc →
        (removeStaleSessionSocketsAt env uid descriptors d t).2.node loc = t.node loc)) ∧
    (∀ t d error, t.holds d = true →
      (removeStaleSessionSocketsAt env uid descriptors d t).1 = .error error → ∀ loc,
      (removeStaleSessionSocketsAt env uid descriptors d t).2.node loc = t.node loc ∨
        (Removable env uid t d.location loc ∧
          (removeStaleSessionSocketsAt env uid descriptors d t).2.node loc = none)) ∧
    ∀ t d, t.holds d = true → (∀ call loc, env.fails call loc = false) →
      Nesting t d.location descriptors →
      (removeStaleSessionSocketsAt env uid descriptors d t).1 = .ok () := by
  have hchanged : ∀ t (d : SweepDirectory N), t.holds d = true → ∀ loc,
      (removeStaleSessionSocketsAt env uid descriptors d t).2.node loc = t.node loc ∨
        (Removable env uid t d.location loc ∧
          (removeStaleSessionSocketsAt env uid descriptors d t).2.node loc = none) := by
    intro t d hd loc
    rcases (sweep env uid descriptors hd).cleared loc with
      hsame | ⟨hbelow, hstale, hnone⟩
    · exact Or.inl hsame
    · obtain ⟨i, hi, -⟩ := id hstale
      exact Or.inr ⟨⟨below_real_path (by rw [hi]; rfl) hbelow, hstale⟩, hnone⟩
  refine ⟨?_, fun t d _ hd _ => hchanged t d hd, ?_⟩
  · intro t d hd hok loc
    refine ⟨?_, ?_⟩
    · intro h
      exact (sweep env uid descriptors hd).whole hok loc (real_path_below h.1) h.2
    · intro h
      rcases hchanged t d hd loc with hsame | ⟨hremovable, -⟩
      · exact hsame
      · exact absurd hremovable h
  · intro t d hd hf hdepth
    exact sweep_returns hf descriptors hdepth hd

end Baffle.Proofs
