import Mathlib

namespace Baffle.Canonical

variable {α β κ : Type} [LinearOrder κ]

def sortBy (key : α → κ) (l : List α) : List α :=
  l.mergeSort (fun a b => decide (key a ≤ key b))

variable {key : α → κ} {l l' : List α}

theorem sort_by_perm (key : α → κ) (l : List α) : (sortBy key l).Perm l :=
  List.mergeSort_perm _ _

theorem sort_by_sorted (key : α → κ) (l : List α) :
    (sortBy key l).Pairwise (fun a b => key a ≤ key b) := by
  have h : (sortBy key l).Pairwise (fun a b => decide (key a ≤ key b) = true) := by
    apply List.pairwise_mergeSort
    · intro a b c hab hbc
      simp only [decide_eq_true_eq] at hab hbc ⊢
      exact le_trans hab hbc
    · intro a b
      simp only [Bool.or_eq_true, decide_eq_true_eq]
      exact le_total (key a) (key b)
  exact h.imp of_decide_eq_true

/-- Where the key tells the elements apart, the sorted list forgets the order and
nothing else. -/
theorem sort_by_eq (hkey : ∀ a ∈ l, ∀ b ∈ l, key a = key b → a = b) :
    sortBy key l = sortBy key l' ↔ l.Perm l' := by
  constructor
  · intro h
    have hp := (sort_by_perm key l).symm
    rw [h] at hp
    exact hp.trans (sort_by_perm key l')
  · intro hp
    have hperm : (sortBy key l).Perm (sortBy key l') :=
      (sort_by_perm key l).trans (hp.trans (sort_by_perm key l').symm)
    apply List.Perm.eq_of_pairwise _ (sort_by_sorted key l) (sort_by_sorted key l') hperm
    intro a b ha hb hab hba
    have ha' : a ∈ l := (sort_by_perm key l).mem_iff.mp ha
    have hb' : b ∈ l := hp.mem_iff.mpr ((sort_by_perm key l').mem_iff.mp hb)
    exact hkey a ha' b hb' (le_antisymm hab hba)

theorem sort_by_eq_of_nodup (hn : (l.map key).Nodup) :
    sortBy key l = sortBy key l' ↔ l.Perm l' := by
  apply sort_by_eq
  intro a ha b hb h
  exact List.inj_on_of_nodup_map hn ha hb h

theorem sort_eq {l l' : List κ} : sortBy id l = sortBy id l' ↔ l.Perm l' := by
  apply sort_by_eq
  intro a _ b _ h
  exact h

/-- The lists hold related elements, in some order. -/
def UpTo (r : α → β → Prop) (l : List α) (l' : List β) : Prop :=
  ∃ order, List.Forall₂ r l order ∧ order.Perm l'

/-- Two lists agree up to a relation that compares a value of the elements exactly
when their values are a permutation of each other. -/
theorem up_to_map {r : α → α → Prop} (f : α → β) (hr : ∀ a ∈ l, ∀ b ∈ l', r a b ↔ f a = f b) :
    UpTo r l l' ↔ (l.map f).Perm (l'.map f) := by
  constructor
  · intro h
    obtain ⟨order, hall, hp⟩ := h
    have heq : List.Forall₂ (fun a b => f a = f b) l order := by
      rw [List.forall₂_iff_zip] at hall ⊢
      refine ⟨hall.1, ?_⟩
      intro a b hab
      obtain ⟨ha, hb⟩ := List.of_mem_zip hab
      exact (hr a ha b (hp.mem_iff.mp hb)).mp (hall.2 hab)
    have hmap : l.map f = order.map f := by
      apply List.forall₂_eq_eq_eq.le
      rw [List.forall₂_map_left_iff, List.forall₂_map_right_iff]
      exact heq
    rw [hmap]
    exact hp.map f
  · intro hp
    have hvalues : List.Forall₂ (fun value b => value = f b) (l'.map f) l' := by
      rw [List.forall₂_map_left_iff]
      exact List.forall₂_same.mpr (fun _ _ => rfl)
    obtain ⟨order, hall, hp⟩ := List.perm_comp_forall₂ hp hvalues
    refine ⟨order, ?_, hp⟩
    rw [List.forall₂_map_left_iff, List.forall₂_iff_zip] at hall
    rw [List.forall₂_iff_zip]
    refine ⟨hall.1, ?_⟩
    intro a b hab
    obtain ⟨ha, hb⟩ := List.of_mem_zip hab
    exact (hr a ha b (hp.mem_iff.mp hb)).mpr (hall.2 hab)

end Baffle.Canonical
