import Baffle.Proofs.Heap

namespace Baffle

namespace Proofs

variable {P : Type} {m : SessionManager P} {t : TaskId} {s s' : State P} {pc pc' : Pc P}
  {id : SessionId}

/-- What the handle of a runtime does besides replacing the generation. -/
inductive Handled (c : RuntimeCell) : RuntimeCell → Prop where
  | install : Handled c c.install
  | markRetiring : Handled c c.markRetiring
  | retire : Handled c c.retire
  | shutdown (n : Nat) : Handled c (c.shutdown n)
  | drop (n : Nat) : Handled c (c.drop n)
  | abort : Handled c c.abort

/-- The history of one runtime: its generation is replaced, its connections are
opened and closed, and its handle is used, in any order. -/
inductive Lived : RuntimeCell → Prop where
  | start (id : SessionId) (generation : Nat) (semaphore : SemaphoreRef) (pair : PolicyPair) :
      Lived (RuntimeCell.start id generation semaphore pair)
  | moved {gate now : Nat} {c c' : RuntimeCell} {sent : List ProxyRuntimeEvent} (h : Lived c)
      (hm : CellMove gate now c c' sent) : Lived c'
  | replaced {c c' : RuntimeCell} {pair : PolicyPair} (h : Lived c)
      (hc : c.replaceGeneration pair = some c') : Lived c'
  | handled {c c' : RuntimeCell} (h : Lived c) (hh : Handled c c') : Lived c'

/-- What a move of a call does to the history of a runtime. -/
theorem move_lived (h : Move m t s pc s' pc') {r : RuntimeRef} (hr : r < s.nextCell)
    (hc : Lived (s.cells r)) : Lived (s'.cells r) := by
  have hset : ∀ {u : State P} {q : RuntimeRef} {c : RuntimeCell}, Lived (u.cells r) →
      (Lived (u.cells q) → Lived c) → Lived ((u.setCell q c).cells r) := by
    intro u q c hu hq
    by_cases hrq : r = q
    · subst hrq
      simp only [State.setCell, Function.update_self]
      exact hq hu
    · simp only [State.setCell, Function.update_of_ne hrq]
      exact hu
  have hfresh : ∀ {c : RuntimeCell}, Lived (Function.update s.cells s.nextCell c r) := by
    intro c
    rw [Function.update_of_ne (Nat.ne_of_lt hr)]
    exact hc
  cases h with
  | create call h =>
    cases h with
    | started socketPath => exact hfresh
    | registered runtime ha => exact hset hc (fun h => h.handled .install)
    | dropped runtime => exact hc.handled (.drop _)
    | _ => exact hc
  | reload j batch h =>
    cases h with
    | turnedDown | begun | limited | withinLimits | vacant => exact hc.handled (.drop _)
    | stopping => exact hc.handled (.shutdown _)
    | sameCommitted target ha session hs runtime hruntime cell hcell =>
      exact hset hc (fun h => h.replaced hcell)
    | replacing target options => exact hfresh
    | switched target options replacement ha session hs hstate oldRuntime hruntime =>
      exact hset (hset hc (fun h => h.handled .install)) (fun h => h.handled .markRetiring)
    | lost target options oldRuntime hs =>
      have hret := hset (q := oldRuntime.cell) (c := (s.cells oldRuntime.cell).retire) hc
        (fun h => h.handled .retire)
      exact hret.handled (.drop _)
    | retired target options oldRuntime session hs =>
      exact hset hc (fun h => h.handled .retire)
    | _ => exact hc
  | teardown kind j h =>
    cases h with
    | forgotten | removed => exact hc.handled (.drop _)
    | stopping => exact hc.handled (.shutdown _)
    | _ => exact hc
  | sweep h =>
    cases h with
    | stopping => exact hc.handled (.shutdown _)
    | cleared => exact hc.handled (.drop _)
    | _ => exact hc
  | listed answer => exact hc.handled (.drop _)
  | _ => exact hc

/-- Every runtime of the system has such a history. -/
def AllLived (s : State P) : Prop := ∀ r, r < s.nextCell → Lived (s.cells r)

theorem AllLived.step (h : AllLived s) (ho : Outcome m s s') : AllLived s' := by
  cases ho with
  | create call hid => exact h
  | call hpc => exact h
  | delivered event events he => exact h
  | moved t hm =>
    intro r hr
    rcases move_started hm with hn | ⟨j, generation, semaphore, pair, -, hn, hcell⟩
    · rw [State.goto, hn] at hr
      exact move_lived hm hr (h r hr)
    · rw [State.goto, hn] at hr
      rcases Nat.lt_succ_iff_lt_or_eq.mp hr with hlt | rfl
      · exact move_lived hm hlt (h r hlt)
      · simp only [State.goto]
        rw [hcell]
        exact .start j generation semaphore pair
  | expired t =>
    intro r hr
    simp only [State.abortCells]
    split
    · exact (h r hr).handled .abort
    · exact h r hr
  | aborted t ha hb =>
    intro r hr
    have hdrop : Lived ((s.dropRuntimes (s.tasks t).owned).cells r) := (h r hr).handled (.drop _)
    simp only [State.goto, State.abortCells]
    split
    · exact hdrop.handled .abort
    · exact hdrop
  | runtime q hq cell permits sent hc hb =>
    intro r hr
    by_cases hrq : r = q
    · subst hrq
      simp only [cellMoved, State.setCell, Function.update_self]
      exact (h r hr).moved hc
    · simp only [cellMoved, State.setCell, Function.update_of_ne hrq]
      exact h r hr

theorem all_lived_reach [DecidableEq P] (h : Reach m.step State.init s) : AllLived s := by
  have h0 : AllLived (State.init : State P) := fun r hr => absurd hr (Nat.not_lt_zero r)
  exact h.invariant h0 (fun _ hi hs => hi.step (step_outcome hs))

end Proofs

end Baffle
