import Mathlib

namespace Baffle

variable {σ α : Type} {step : α → σ → Option σ} {init s s' : σ}

/-- States reachable by steps that `allowed` admits in the state before them. -/
inductive ReachBy (step : α → σ → Option σ) (allowed : α → σ → Prop) (init : σ) : σ → Prop where
  | start : ReachBy step allowed init init
  | next {s s' : σ} {a : α} (before : ReachBy step allowed init s) (ha : allowed a s)
      (hs : step a s = some s') : ReachBy step allowed init s'

/-- States reachable by any steps. -/
def Reach (step : α → σ → Option σ) (init : σ) : σ → Prop := ReachBy step (fun _ _ => True) init

/-- The invariant rule: what holds at the start and is kept by every admitted
step from a reachable state holds in every reachable state. -/
theorem ReachBy.invariant {allowed : α → σ → Prop} {inv : σ → Prop} (h0 : inv init)
    (hstep : ∀ {s s' a}, ReachBy step allowed init s → inv s → allowed a s → step a s = some s' →
      inv s') (h : ReachBy step allowed init s) : inv s := by
  induction h with
  | start => exact h0
  | next before ha hs ih => exact hstep before ih ha hs

theorem ReachBy.reach {allowed : α → σ → Prop} (h : ReachBy step allowed init s) :
    Reach step init s := by
  induction h with
  | start => exact .start
  | next before ha hs ih => exact .next ih trivial hs

theorem Reach.next (h : Reach step init s) {a : α} (hs : step a s = some s') :
    Reach step init s' := ReachBy.next h trivial hs

theorem Reach.trans {u : σ} (h : Reach step init s) (h' : Reach step s u) :
    Reach step init u := by
  induction h' with
  | start => exact h
  | next before ha hs ih => exact ih.next hs

theorem Reach.invariant {inv : σ → Prop} (h0 : inv init)
    (hstep : ∀ {s s' a}, Reach step init s → inv s → step a s = some s' → inv s')
    (h : Reach step init s) : inv s :=
  ReachBy.invariant h0 (fun hr hi _ hs => hstep hr hi hs) h

/-- Run a list of labels. -/
def runSteps (step : α → σ → Option σ) : List α → σ → Option σ
  | [], s => some s
  | a :: labels, s => (step a s).bind (runSteps step labels)

theorem reach_run {labels : List α} (h : Reach step init s)
    (hr : runSteps step labels s = some s') : Reach step init s' := by
  induction labels generalizing s with
  | nil =>
    rw [← Option.some.inj hr]
    exact h
  | cons a labels ih =>
    obtain ⟨s1, h1, h2⟩ := Option.bind_eq_some_iff.mp hr
    exact ih (h.next h1) h2

/-- A run all of whose steps pass a check that implies `allowed`. -/
theorem reach_by_run {allowed : α → σ → Prop} {check : α → σ → Bool} {labels : List α}
    (hcheck : ∀ {a s}, Reach step init s → check a s = true → allowed a s)
    (h : ReachBy step allowed init s)
    (hr : runSteps (fun a s => if check a s then step a s else none) labels s = some s') :
    ReachBy step allowed init s' := by
  induction labels generalizing s with
  | nil =>
    rw [← Option.some.inj hr]
    exact h
  | cons a labels ih =>
    obtain ⟨s1, h1, h2⟩ := Option.bind_eq_some_iff.mp hr
    dsimp only at h1
    split at h1
    · rename_i hc
      exact ih (h.next (hcheck h.reach hc) h1) h2
    · cases h1

/-- A run that was evaluated: it ends, and the test holds at its end. -/
theorem run_any {labels : List α} {test : σ → Bool}
    (h : (runSteps step labels s).any test = true) :
    ∃ s', runSteps step labels s = some s' ∧ test s' = true := by
  cases hr : runSteps step labels s with
  | none =>
    rw [hr] at h
    cases h
  | some s' =>
    rw [hr] at h
    exact ⟨s', rfl, h⟩

/-- A sequence of steps that all start in states where `during` holds. -/
inductive StepsWhile (step : α → σ → Option σ) (during : σ → Prop) : σ → σ → Prop where
  | refl (s : σ) : StepsWhile step during s s
  | tail {s t u : σ} {a : α} (before : StepsWhile step during s t) (hd : during t)
      (hs : step a t = some u) : StepsWhile step during s u

theorem StepsWhile.reach {during : σ → Prop} (h : StepsWhile step during s s')
    (hr : Reach step init s) : Reach step init s' := by
  induction h with
  | refl => exact hr
  | tail before hd hs ih => exact ih.next hs

/-- A run all of whose steps start in states that pass a check that implies `during`. -/
theorem steps_while_run {during : σ → Prop} {check : σ → Bool} {labels : List α}
    (hcheck : ∀ {s}, check s = true → during s) (h : StepsWhile step during init s)
    (hr : runSteps (fun a s => if check s then step a s else none) labels s = some s') :
    StepsWhile step during init s' := by
  induction labels generalizing s with
  | nil =>
    rw [← Option.some.inj hr]
    exact h
  | cons a labels ih =>
    obtain ⟨s1, h1, h2⟩ := Option.bind_eq_some_iff.mp hr
    dsimp only at h1
    split at h1
    · rename_i hc
      exact ih (h.tail (hcheck hc) h1) h2
    · cases h1

theorem StepsWhile.starts {during : σ → Prop} (h : StepsWhile step during s s') :
    s = s' ∨ during s := by
  induction h with
  | refl => exact Or.inl rfl
  | tail before hd hs ih =>
    rcases ih with rfl | ih
    · exact Or.inr hd
    · exact Or.inr ih

end Baffle
