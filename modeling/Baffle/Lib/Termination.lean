import Mathlib
import Baffle.Lib.Transition

namespace Baffle

variable {σ α : Type} {step : α → σ → Option σ} {allowed : α → σ → Prop} {s s' : σ}

/-- The first state follows the second by an admitted step. -/
def Follows (step : α → σ → Option σ) (allowed : α → σ → Prop) (s' s : σ) : Prop :=
  ∃ a, allowed a s ∧ step a s = some s'

/-- Every run of admitted steps ends. -/
def Terminates (step : α → σ → Option σ) (allowed : α → σ → Prop) (s : σ) : Prop :=
  Acc (Follows step allowed) s

/-- No admitted step is enabled. -/
def Rests (step : α → σ → Option σ) (allowed : α → σ → Prop) (s : σ) : Prop :=
  ∀ a, allowed a s → step a s = none

/-- The ranking rule: an invariant under which every admitted step lowers the rank. -/
theorem Terminates.of_rank {τ : Type} [Preorder τ] [WellFoundedLT τ] (inv : σ → Prop) (rank : σ → τ)
    (hstep : ∀ {s s' a}, inv s → allowed a s → step a s = some s' → inv s' ∧ rank s' < rank s)
    (h : inv s) : Terminates step allowed s := by
  induction hr : rank s using WellFoundedLT.induction generalizing s with
  | ind r ih =>
    subst hr
    refine Acc.intro s ?_
    rintro s' ⟨a, ha, hs⟩
    obtain ⟨hinv, hlt⟩ := hstep h ha hs
    exact ih (rank s') hlt hinv rfl

theorem ReachBy.head {s1 : σ} {a : α} (ha : allowed a s) (hs : step a s = some s1)
    (h : ReachBy step allowed s1 s') : ReachBy step allowed s s' := by
  induction h with
  | start => exact .next .start ha hs
  | next _ hb hs2 ih => exact .next ih hb hs2

/-- Some run comes to rest. -/
theorem Terminates.rest (h : Terminates step allowed s) :
    ∃ s', ReachBy step allowed s s' ∧ Rests step allowed s' := by
  induction h with
  | intro s _ ih =>
    by_cases hr : Rests step allowed s
    · exact ⟨s, .start, hr⟩
    · unfold Rests at hr
      push Not at hr
      obtain ⟨a, ha, hs⟩ := hr
      obtain ⟨s1, hs1⟩ := Option.ne_none_iff_exists'.mp hs
      obtain ⟨s', hreach, hrest⟩ := ih s1 ⟨a, ha, hs1⟩
      exact ⟨s', hreach.head ha hs1, hrest⟩

end Baffle
