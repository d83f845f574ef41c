import Mathlib

namespace Baffle.Split

variable {α β : Type} [DecidableEq α] [DecidableEq β] {sep : α}

theorem split_prepend {x s piece : List α} {pieces : List (List α)} (hn : sep ∉ x)
    (h : s.splitOn sep = piece :: pieces) : (x ++ s).splitOn sep = (x ++ piece) :: pieces := by
  induction x with
  | nil => simpa using h
  | cons b x ih =>
    simp only [List.mem_cons, not_or] at hn
    rw [List.cons_append, List.splitOn_cons_eq_if_modifyHead, ih hn.2]
    simp [Ne.symm hn.1]

/-- Writing every element as a piece of its own keeps the parts, when only the
separator is written with the new separator. -/
theorem split_flat_map {sep' : β} {f : α → List β} {l : List α} (hsep : f sep = [sep'])
    (hother : ∀ a ∈ l, a ≠ sep → sep' ∉ f a) :
    (l.flatMap f).splitOn sep' = (l.splitOn sep).map (List.flatMap f) := by
  induction l with
  | nil => simp
  | cons a l ih =>
    have hl := ih (fun b hb => hother b (List.mem_cons_of_mem _ hb))
    by_cases ha : a = sep
    · subst ha
      rw [List.flatMap_cons, hsep, List.splitOn_cons_eq_if_modifyHead]
      simp [List.splitOn_cons_eq_if_modifyHead, hl]
    · obtain ⟨piece, pieces, hp⟩ := List.exists_cons_of_ne_nil (List.splitOn_ne_nil sep l)
      have hn := hother a (by simp) ha
      rw [List.splitOn_cons_eq_if_modifyHead, hp, List.flatMap_cons]
      simp only [beq_iff_eq, ha, if_false, List.modifyHead_cons, List.map_cons, List.flatMap_cons]
      rw [hp, List.map_cons] at hl
      exact split_prepend hn hl

theorem mem_of_split {l part : List α} {a : α} (hp : part ∈ l.splitOn sep) (ha : a ∈ part) :
    a ∈ l := by
  induction l generalizing part with
  | nil =>
    rw [List.splitOn_nil, List.mem_singleton] at hp
    rw [hp] at ha
    exact ha
  | cons b l ih =>
    obtain ⟨piece, pieces, hl⟩ := List.exists_cons_of_ne_nil (List.splitOn_ne_nil sep l)
    rw [List.splitOn_cons_eq_if_modifyHead, hl] at hp
    rw [hl] at ih
    split at hp
    · rcases List.mem_cons.mp hp with rfl | hp
      · cases ha
      · exact List.mem_cons_of_mem _ (ih hp ha)
    · rw [List.modifyHead_cons, List.mem_cons] at hp
      rcases hp with rfl | hp
      · rcases List.mem_cons.mp ha with rfl | ha
        · exact List.mem_cons_self
        · exact List.mem_cons_of_mem _ (ih (by simp) ha)
      · exact List.mem_cons_of_mem _ (ih (List.mem_cons_of_mem _ hp) ha)

theorem sep_not_in_part {l part : List α} (hp : part ∈ l.splitOn sep) : sep ∉ part := by
  induction l generalizing part with
  | nil =>
    rw [List.splitOn_nil, List.mem_singleton] at hp
    rw [hp]
    exact List.not_mem_nil
  | cons b l ih =>
    obtain ⟨piece, pieces, hl⟩ := List.exists_cons_of_ne_nil (List.splitOn_ne_nil sep l)
    rw [List.splitOn_cons_eq_if_modifyHead, hl] at hp
    rw [hl] at ih
    split at hp
    · rcases List.mem_cons.mp hp with rfl | hp
      · exact List.not_mem_nil
      · exact ih hp
    · rename_i hb
      rw [List.modifyHead_cons, List.mem_cons] at hp
      rcases hp with rfl | hp
      · rw [List.mem_cons, not_or]
        exact ⟨fun he => hb (by simp [he]), ih List.mem_cons_self⟩
      · exact ih (List.mem_cons_of_mem _ hp)

/-- A list is determined by its parts. -/
theorem split_inj {a b : List α} : a.splitOn sep = b.splitOn sep ↔ a = b := by
  constructor
  · intro h
    have he := congrArg ([sep].intercalate) h
    rwa [List.intercalate_splitOn, List.intercalate_splitOn] at he
  · intro h
    rw [h]

omit [DecidableEq α] in
theorem intercalate_append {ls ms : List (List α)} (hl : ls ≠ []) (hm : ms ≠ []) :
    [sep].intercalate (ls ++ ms) = [sep].intercalate ls ++ sep :: [sep].intercalate ms := by
  induction ls with
  | nil => exact absurd rfl hl
  | cons l ls ih =>
    cases ls with
    | nil =>
      obtain ⟨m, ms, rfl⟩ := List.exists_cons_of_ne_nil hm
      simp [List.intercalate]
    | cons l' ls =>
      have h := ih (by simp)
      simp only [List.intercalate, List.cons_append, List.intersperse_cons_cons, List.flatten_cons]
        at h ⊢
      rw [h]
      simp

/-- A list that ends with the separator is a prefix exactly when its parts before
that separator are a proper prefix of the parts. -/
theorem prefix_iff_split {d c : List α} :
    (d ++ [sep]) <+: c ↔ d.splitOn sep <+: c.splitOn sep ∧ d.splitOn sep ≠ c.splitOn sep := by
  constructor
  · rintro ⟨rest, rfl⟩
    have hs : (d ++ [sep] ++ rest).splitOn sep = d.splitOn sep ++ rest.splitOn sep := by
      rw [List.append_assoc, List.singleton_append, List.splitOn_append_cons_self]
    rw [hs]
    refine ⟨List.prefix_append _ _, fun he => ?_⟩
    have hnil := List.append_right_eq_self.mp he.symm
    exact List.splitOn_ne_nil sep rest hnil
  · rintro ⟨⟨rest, hrest⟩, hne⟩
    have hr : rest ≠ [] := by
      intro h
      rw [h, List.append_nil] at hrest
      exact hne hrest
    have he := congrArg ([sep].intercalate) hrest
    rw [intercalate_append (List.splitOn_ne_nil sep d) hr, List.intercalate_splitOn,
      List.intercalate_splitOn] at he
    refine ⟨[sep].intercalate rest, ?_⟩
    rw [List.append_assoc]
    exact he

end Baffle.Split
