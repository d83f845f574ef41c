import Mathlib

namespace Baffle.Search

variable {α : Type} {pattern a b s : List α} {p q : Nat}

theorem lt_of_match (hne : pattern ≠ []) (h : pattern <+: s.drop p) :
    p + pattern.length ≤ s.length := by
  have hpos := List.length_pos_of_ne_nil hne
  have hle := h.length_le
  rw [List.length_drop] at hle
  omega

/-- A match within the first part is one of the whole, and the other way. -/
theorem match_append (hq : q + pattern.length ≤ a.length) :
    pattern <+: (a ++ b).drop q ↔ pattern <+: a.drop q := by
  rw [List.drop_append_of_le_length (by omega)]
  constructor
  · intro h
    apply List.prefix_of_prefix_length_le h (List.prefix_append _ _)
    rw [List.length_drop]
    omega
  · intro h
    exact h.trans (List.prefix_append _ _)

/-- The shortest part that ends with the pattern. -/
structure UpToFirst (pattern s part : List α) : Prop where
  within : part <+: s
  ended : pattern <:+ part
  first : ∀ early, early <+: s → pattern <:+ early → part.length ≤ early.length

theorem match_of_suffix {early : List α} (hearly : early <+: s) (hend : pattern <:+ early) :
    pattern <+: s.drop (early.length - pattern.length) := by
  obtain ⟨before, rfl⟩ := hend
  obtain ⟨after, rfl⟩ := hearly
  rw [List.length_append, Nat.add_sub_cancel, List.append_assoc, List.drop_left]
  exact List.prefix_append pattern after

theorem suffix_of_match (h : pattern <+: s.drop p) :
    pattern <:+ s.take (p + pattern.length) := by
  obtain ⟨rest, hrest⟩ := h
  rw [List.take_add, ← hrest, List.take_left]
  exact List.suffix_append _ pattern

variable [DecidableEq α]

def firstMatch (pattern s : List α) : Option Nat :=
  s.tails.findIdx? (fun t => pattern.isPrefixOf t)

theorem first_match_some (hne : pattern ≠ []) : firstMatch pattern s = some p ↔
    pattern <+: s.drop p ∧ ∀ q < p, ¬ pattern <+: s.drop q := by
  simp only [firstMatch, List.findIdx?_eq_some_iff_getElem, List.getElem_tails,
    List.isPrefixOf_iff_prefix, List.length_tails]
  constructor
  · intro h
    obtain ⟨_, hp, hbefore⟩ := h
    exact ⟨hp, hbefore⟩
  · intro h
    have hp := lt_of_match hne h.1
    exact ⟨by omega, h.1, h.2⟩

theorem first_match_none (hne : pattern ≠ []) : firstMatch pattern s = none ↔
    ∀ q, ¬ pattern <+: s.drop q := by
  constructor
  · intro h q hq
    obtain ⟨p, hp, hbefore⟩ : ∃ p, pattern <+: s.drop p ∧ ∀ q < p, ¬ pattern <+: s.drop q := by
      have hmatch : ∃ q, pattern <+: s.drop q := ⟨q, hq⟩
      exact ⟨Nat.find hmatch, Nat.find_spec hmatch, fun _ => Nat.find_min hmatch⟩
    rw [(first_match_some hne).mpr ⟨hp, hbefore⟩] at h
    cases h
  · intro h
    cases hs : firstMatch pattern s with
    | none => rfl
    | some p => exact absurd ((first_match_some hne).mp hs).1 (h p)

theorem first_match_append (hne : pattern ≠ []) (h : firstMatch pattern a = some p) :
    firstMatch pattern (a ++ b) = some p := by
  obtain ⟨hp, hbefore⟩ := (first_match_some hne).mp h
  have hlen := lt_of_match hne hp
  rw [first_match_some hne]
  refine ⟨(match_append hlen).mpr hp, ?_⟩
  intro q hq hm
  exact hbefore q hq ((match_append (by omega)).mp hm)

/-- A match that the first part does not have ends in the second. -/
theorem first_match_beyond (hne : pattern ≠ []) (ha : firstMatch pattern a = none)
    (h : firstMatch pattern (a ++ b) = some p) : a.length < p + pattern.length := by
  by_contra hlen
  have hp := ((first_match_some hne).mp h).1
  exact (first_match_none hne).mp ha p ((match_append (by omega)).mp hp)

theorem first_match_length (hne : pattern ≠ []) (h : firstMatch pattern s = some p) :
    p + pattern.length ≤ s.length :=
  lt_of_match hne ((first_match_some hne).mp h).1

theorem up_to_first_iff {part : List α} (hne : pattern ≠ []) : UpToFirst pattern s part ↔
    ∃ p, firstMatch pattern s = some p ∧ part = s.take (p + pattern.length) := by
  constructor
  · intro h
    have hlen := h.ended.length_le
    refine ⟨part.length - pattern.length, ?_, ?_⟩
    · rw [first_match_some hne]
      refine ⟨match_of_suffix h.within h.ended, ?_⟩
      intro q hq hm
      have hfirst := h.first _ (List.take_prefix _ _) (suffix_of_match hm)
      rw [List.length_take] at hfirst
      omega
    · rw [Nat.sub_add_cancel hlen]
      exact List.prefix_iff_eq_take.mp h.within
  · intro h
    obtain ⟨p, hp, rfl⟩ := h
    obtain ⟨hm, hbefore⟩ := (first_match_some hne).mp hp
    refine ⟨List.take_prefix _ _, suffix_of_match hm, ?_⟩
    intro early hearly hend
    have hlen := hend.length_le
    have hle : p ≤ early.length - pattern.length := by
      by_contra hlt
      exact hbefore _ (Nat.lt_of_not_le hlt) (match_of_suffix hearly hend)
    rw [List.length_take]
    omega

end Baffle.Search
