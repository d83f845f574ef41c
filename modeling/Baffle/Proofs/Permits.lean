import Baffle.Proofs.Heap

namespace Baffle

namespace Proofs

variable {P : Type} {m : SessionManager P} {t : TaskId} {s s' : State P} {pc pc' : Pc P}
  {id : SessionId}

/-- A handle names the semaphore of its runtime. -/
def Tied (s : State P) : Prop :=
  ∀ t id runtime, Has s (s.tasks t) id runtime →
    (s.cells runtime.cell).permits = runtime.permits

theorem tied_init : Tied (State.init : State P) := by
  rintro t id runtime (⟨session, hs, _⟩ | h)
  · cases hs
  · cases h

/-- A step that moves no handle. -/
theorem Tied.still (h : Tied s) (hl : Linked s) (he : Extends s s')
    (hs : s'.sessions = s.sessions)
    (ht : ∀ u, s'.tasks u = s.tasks u ∨ (s'.tasks u).handles = []) : Tied s' := by
  have hold : ∀ {u id runtime}, Has s (s.tasks u) id runtime →
      (s'.cells runtime.cell).permits = runtime.permits := by
    intro u id runtime hh
    rw [he.permits _ (hl u id runtime hh).1]
    exact h u id runtime hh
  rintro u id runtime (⟨session, hget, hr⟩ | hr)
  · rw [hs] at hget
    exact hold (u := u) (Or.inl ⟨session, hget, hr⟩)
  · rcases ht u with hu | hu
    · rw [hu] at hr
      exact hold (Or.inr hr)
    · simp [hu] at hr

theorem Tied.moved (h : Tied s) (hl : Linked s) (hm : Move m t s (s.tasks t) s' pc') :
    Tied (s'.goto t pc') := by
  have hold : ∀ {u id runtime}, Has s (s.tasks u) id runtime →
      (s'.cells runtime.cell).permits = runtime.permits := by
    intro u id runtime hh
    rw [(move_extends hm).permits _ (hl u id runtime hh).1]
    exact h u id runtime hh
  have hmoved : ∀ {id runtime}, Has s' pc' id runtime →
      (s'.cells runtime.cell).permits = runtime.permits := by
    intro id runtime hh
    rcases move_handles hm hh with hh | hh
    · exact hold hh
    · exact hh.2
  rintro u id runtime (hr | hr)
  · exact hmoved (Or.inl hr)
  · simp only [State.goto, (move_calls hm).1] at hr
    by_cases hut : u = t
    · subst hut
      rw [Function.update_self] at hr
      exact hmoved (Or.inr hr)
    · rw [Function.update_of_ne hut] at hr
      exact hold (Or.inr hr)

theorem Tied.step (h : Tied s) (hl : Linked s) (ho : Outcome m s s') : Tied s' := by
  have he := step_extends ho
  cases ho with
  | create call hid =>
    exact h.still hl he rfl (fun u => (spawn_tasks u).imp_right (fun hu => by rw [hu]; rfl))
  | call hpc =>
    exact h.still hl he rfl
      (fun u => (spawn_tasks u).imp_right (fun hu => by rw [hu, hpc.handles]))
  | delivered event events hev =>
    exact h.still hl he rfl (fun u => (spawn_tasks u).imp_right (fun hu => by rw [hu]; rfl))
  | moved t hm => exact h.moved hl hm
  | expired t => exact h.still hl he rfl (fun _ => Or.inl rfl)
  | aborted t ha hb =>
    exact h.still hl he rfl (fun u => (goto_tasks u).imp_right (fun hu => by rw [hu]; rfl))
  | runtime r hr cell permits sent hc => exact h.still hl he rfl (fun _ => Or.inl rfl)

theorem tied_reach [DecidableEq P] (h : Reach m.step State.init s) : Tied s :=
  h.invariant tied_init (fun hr hi hs => hi.step (linked_reach hr) (step_outcome hs))

/-- The semaphore that a reload is about to start a runtime with. -/
def Pc.offers : Pc P → Option SemaphoreRef
  | .reload _ _ (.start _ options) => some options.permits
  | _ => none

theorem Between.offers (h : Between pc) : Pc.offers pc = none := by cases h <;> rfl

theorem Initial.offers (h : Initial pc) : Pc.offers pc = none := by cases h <;> rfl

/-- A reload offers the semaphore of a runtime that there is. -/
def Offered (s : State P) : Prop :=
  ∀ t semaphore, Pc.offers (s.tasks t) = some semaphore →
    ∃ r < s.nextCell, (s.cells r).permits = semaphore

theorem move_offers (hm : Move m t s pc s' pc') {semaphore : SemaphoreRef}
    (ho : Pc.offers pc' = some semaphore) :
    ∃ id session runtime, s.sessions.get id = some session ∧ session.runtime = some runtime ∧
      runtime.permits = semaphore := by
  cases hm with
  | unknown j batch hs => simp [(reload_lookup_between batch hs).offers] at ho
  | reloadReturned j batch result => simp [(after_reload_between batch result).offers] at ho
  | reloadAll => simp [reload_all_between.offers] at ho
  | reload j batch h =>
    cases h with
    | withinLimits target ha session hs runtime hruntime hroom =>
      exact ⟨j, session, runtime, hs, hruntime, Option.some.inj ho⟩
    | _ => cases ho
  | _ => cases ho

theorem Offered.step (h : Offered s) (hl : Linked s) (ht : Tied s) (ho : Outcome m s s') :
    Offered s' := by
  have he := step_extends ho
  have hkeep : ∀ {semaphore}, (∃ r < s.nextCell, (s.cells r).permits = semaphore) →
      ∃ r < s'.nextCell, (s'.cells r).permits = semaphore := by
    rintro semaphore ⟨r, hr, hp⟩
    exact ⟨r, Nat.lt_of_lt_of_le hr he.nextCell, (he.permits r hr).trans hp⟩
  intro u semaphore hu
  cases ho with
  | create call hid =>
    rcases spawn_tasks u with hs | hs <;> rw [hs] at hu
    · exact hkeep (h u semaphore hu)
    · cases hu
  | call hpc =>
    rcases spawn_tasks u with hs | hs <;> rw [hs] at hu
    · exact hkeep (h u semaphore hu)
    · simp [hpc.offers] at hu
  | delivered event events hev =>
    rcases spawn_tasks u with hs | hs <;> rw [hs] at hu
    · exact hkeep (h u semaphore hu)
    · cases hu
  | moved t hm =>
    simp only [State.goto, (move_calls hm).1] at hu
    by_cases hut : u = t
    · subst hut
      rw [Function.update_self] at hu
      obtain ⟨id, session, runtime, hs, hruntime, hp⟩ := move_offers hm hu
      have hmem : runtime ∈ session.runtimes := mem_runtimes.mpr (Or.inr hruntime)
      refine hkeep ⟨runtime.cell, (hl.session hs hmem).1, ?_⟩
      rw [ht u id runtime (Or.inl ⟨session, hs, hmem⟩)]
      exact hp
    · rw [Function.update_of_ne hut] at hu
      exact hkeep (h u semaphore hu)
  | expired t => exact hkeep (h u semaphore hu)
  | aborted t ha hb =>
    rcases goto_tasks u with hs | hs <;> rw [hs] at hu
    · exact hkeep (h u semaphore hu)
    · cases hu
  | runtime r hr cell permits sent hc => exact hkeep (h u semaphore hu)

theorem offered_reach [DecidableEq P] (h : Reach m.step State.init s) : Offered s := by
  have h0 : Offered (State.init : State P) := fun _ _ h => by cases h
  exact h.invariant h0 (fun hr hi hs => hi.step (linked_reach hr) (tied_reach hr)
    (step_outcome hs))

/-- The connections served on a semaphore. -/
def served (s : State P) (semaphore : SemaphoreRef) : Nat :=
  ∑ r ∈ Finset.range s.nextCell,
    if (s.cells r).permits = semaphore then (s.cells r).connections.length else 0

theorem served_same (hn : s'.nextCell = s.nextCell)
    (hc : ∀ r, r < s.nextCell → (s'.cells r).permits = (s.cells r).permits ∧
      (s'.cells r).connections = (s.cells r).connections) (semaphore : SemaphoreRef) :
    served s' semaphore = served s semaphore := by
  unfold served
  rw [hn]
  refine Finset.sum_congr rfl (fun r hr => ?_)
  obtain ⟨hp, hconn⟩ := hc r (Finset.mem_range.mp hr)
  rw [hp, hconn]

/-- A new runtime serves nobody. -/
theorem served_started {u : State P} {cell : RuntimeCell} (hempty : cell.connections = [])
    (hcells : u.cells = Function.update s.cells s.nextCell cell)
    (hnext : u.nextCell = s.nextCell + 1) (semaphore : SemaphoreRef) :
    served u semaphore = served s semaphore := by
  unfold served
  rw [hnext, Finset.sum_range_succ, hcells, Function.update_self, hempty]
  simp only [List.length_nil, ite_self, Nat.add_zero]
  refine Finset.sum_congr rfl (fun r hr => ?_)
  rw [Function.update_of_ne (Nat.ne_of_lt (Finset.mem_range.mp hr))]

theorem served_at {r : RuntimeRef} (hr : r < s.nextCell) (semaphore : SemaphoreRef) :
    served s semaphore = (if (s.cells r).permits = semaphore then (s.cells r).connections.length
        else 0)
      + ∑ q ∈ (Finset.range s.nextCell).erase r,
        if (s.cells q).permits = semaphore then (s.cells q).connections.length else 0 :=
  (Finset.add_sum_erase _ _ (Finset.mem_range.mpr hr)).symm

/-- The move of a runtime shifts between its semaphore and its connections. -/
theorem served_moved {r : RuntimeRef} (hr : r < s.nextCell) (hn : s'.nextCell = s.nextCell)
    (hp : (s'.cells r).permits = (s.cells r).permits)
    (hother : ∀ q, q ≠ r → s'.cells q = s.cells q) (hb : Balanced s r s')
    (semaphore : SemaphoreRef) :
    s'.permits semaphore + served s' semaphore = s.permits semaphore + served s semaphore := by
  have hrest : ∑ q ∈ (Finset.range s'.nextCell).erase r,
      (if (s'.cells q).permits = semaphore then (s'.cells q).connections.length else 0)
      = ∑ q ∈ (Finset.range s.nextCell).erase r,
        if (s.cells q).permits = semaphore then (s.cells q).connections.length else 0 := by
    rw [hn]
    refine Finset.sum_congr rfl (fun q hq => ?_)
    rw [hother q (Finset.ne_of_mem_erase hq)]
  rw [served_at (hn ▸ hr), served_at hr, hrest, hp]
  by_cases hs : (s.cells r).permits = semaphore
  · subst hs
    simp only [↓reduceIte]
    have := hb.own
    omega
  · simp only [hs, ↓reduceIte]
    rw [hb.others semaphore (Ne.symm hs)]

/-- What is free of a semaphore and what is served on it add up to the limit. -/
structure Metered (m : SessionManager P) (s : State P) : Prop where
  bound : ∀ r, r < s.nextCell → (s.cells r).permits < s.nextCell
  law : ∀ r, r < s.nextCell →
    s.permits (s.cells r).permits + served s (s.cells r).permits = m.maxConnectionsPerSession

theorem Metered.still (h : Metered m s) (hn : s'.nextCell = s.nextCell)
    (hp : ∀ r, r < s.nextCell → (s'.cells r).permits = (s.cells r).permits)
    (hsum : ∀ q, s'.permits q + served s' q = s.permits q + served s q) : Metered m s' where
  bound r hr := by
    rw [hn] at hr ⊢
    rw [hp r hr]
    exact h.bound r hr
  law r hr := by
    rw [hn] at hr
    rw [hp r hr, hsum]
    exact h.law r hr

/-- A step that leaves semaphores and connections alone. -/
theorem Metered.tended (h : Metered m s) (hn : s'.nextCell = s.nextCell)
    (hc : ∀ r, r < s.nextCell → Tended (s.cells r) (s'.cells r))
    (hp : s'.permits = s.permits) : Metered m s' := by
  refine h.still hn (fun r hr => (hc r hr).permits) (fun q => ?_)
  rw [hp, served_same hn (fun r hr => ⟨(hc r hr).permits, (hc r hr).connections⟩)]

/-- One more runtime, on a semaphore that is in use or on one of its own. -/
theorem Metered.started (h : Metered m s) {u : State P} {semaphore : SemaphoreRef}
    {cell : RuntimeCell} (hcell : cell.permits = semaphore) (hempty : cell.connections = [])
    (hcells : u.cells = Function.update s.cells s.nextCell cell)
    (hnext : u.nextCell = s.nextCell + 1)
    (hold : ∀ q, q < s.nextCell → u.permits q = s.permits q) (hb : semaphore < u.nextCell)
    (hlaw : u.permits semaphore + served s semaphore = m.maxConnectionsPerSession) :
    Metered m u := by
  have hserved := served_started hempty hcells hnext
  have hcases : ∀ r, r < u.nextCell → r = s.nextCell ∧ (u.cells r).permits = semaphore ∨
      r < s.nextCell ∧ (u.cells r).permits = (s.cells r).permits := by
    intro r hr
    rw [hnext] at hr
    rcases Nat.lt_succ_iff_lt_or_eq.mp hr with hlt | rfl
    · right
      rw [hcells, Function.update_of_ne (Nat.ne_of_lt hlt)]
      exact ⟨hlt, rfl⟩
    · left
      rw [hcells, Function.update_self]
      exact ⟨rfl, hcell⟩
  constructor
  · intro r hr
    rcases hcases r hr with ⟨-, hp⟩ | ⟨hlt, hp⟩
    · rw [hp]
      exact hb
    · rw [hp, hnext]
      exact Nat.lt_succ_of_lt (h.bound r hlt)
  · intro r hr
    rcases hcases r hr with ⟨-, hp⟩ | ⟨hlt, hp⟩
    · rw [hp, hserved]
      exact hlaw
    · rw [hp, hserved, hold _ (h.bound r hlt)]
      exact h.law r hlt

/-- Nobody is served on a semaphore that no runtime has. -/
theorem Metered.unused (h : Metered m s) : served s s.nextCell = 0 := by
  unfold served
  refine Finset.sum_eq_zero (fun r hr => if_neg ?_)
  exact Nat.ne_of_lt (h.bound r (Finset.mem_range.mp hr))

theorem Metered.moved (h : Metered m s) (ho : Offered s) (hm : Move m t s (s.tasks t) s' pc') :
    Metered m s' := by
  have hsame : s'.nextCell = s.nextCell → s'.permits = s.permits → Metered m s' := fun hn hp =>
    h.tended hn (fun r hr => move_cells hm hr) hp
  generalize hpc : s.tasks t = pc at hm
  cases hm with
  | create call h' =>
    cases h' with
    | started socketPath =>
      have hcell : (RuntimeCell.start call.id 1 s.nextCell
          ⟨SessionPolicy.compile m.crates call.session call.credentialSeed, call.secrets⟩).permits
            = s.nextCell := rfl
      refine h.started hcell rfl rfl rfl (fun q hq => ?_) (Nat.lt_succ_self _) ?_
      · exact Function.update_of_ne (Nat.ne_of_lt hq) _ _
      · rw [h.unused]
        exact Function.update_self ..
    | _ => exact hsame rfl rfl
  | reload j batch h' =>
    cases h' with
    | replacing target options =>
      obtain ⟨r, hr, hp⟩ := ho t options.permits (by rw [hpc]; rfl)
      refine h.started rfl rfl rfl rfl (fun _ _ => rfl) ?_ ?_
      · rw [← hp]
        exact Nat.lt_succ_of_lt (h.bound r hr)
      · rw [← hp]
        exact h.law r hr
    | _ => exact hsame rfl rfl
  | teardown kind j h' => cases h' <;> exact hsame rfl rfl
  | sweep h' => cases h' <;> exact hsame rfl rfl
  | _ => exact hsame rfl rfl

theorem Metered.step (h : Metered m s) (hoff : Offered s) (ho : Outcome m s s') : Metered m s' := by
  have he := step_extends ho
  cases ho with
  | create | call | delivered =>
    exact h.still rfl (fun _ _ => rfl) (fun _ => rfl)
  | moved t hm =>
    exact (h.moved hoff hm).still rfl (fun _ _ => rfl) (fun _ => rfl)
  | expired t =>
    exact h.tended rfl (fun r _ => tended_abort_cells _ r) rfl
  | aborted t ha hb => exact h.tended rfl (fun r _ => tended_aborted _ _ r) rfl
  | runtime r hr cell permits sent hc hb =>
    refine h.still rfl he.permits (served_moved hr rfl (he.permits r hr) (fun q hq => ?_) hb)
    exact Function.update_of_ne hq _ _

theorem metered_reach [DecidableEq P] (h : Reach m.step State.init s) : Metered m s := by
  have h0 : Metered m (State.init : State P) :=
    ⟨fun r hr => absurd hr (Nat.not_lt_zero r), fun r hr => absurd hr (Nat.not_lt_zero r)⟩
  exact h.invariant h0 (fun hr hi hs => hi.step (offered_reach hr) (step_outcome hs))

end Proofs

end Baffle
