import Baffle.SocketOwnership

namespace Baffle.Proofs

variable {s s' : PathState} {r : Nat} {runtime : PathRuntime} {entry : Option BoundSocket}

/-- A bind gets a number that no guard remembers. -/
def Unremembered : PathLabel → PathState → Prop
  | .bind identity, s => ∀ r < s.count, (s.runtimes r).guard ≠ some identity
  | _, _ => True

instance (label : PathLabel) (s : PathState) : Decidable (Unremembered label s) :=
  match label with
  | .bind identity =>
    inferInstanceAs (Decidable (∀ r < s.count, (s.runtimes r).guard ≠ some identity))
  | .record _ | .retire _ | .shutdown _ | .drop _ | .endLoop _ | .failTask _ | .abort _
  | .inspect _ _ | .unlink _ => .isTrue trivial

/-- What a runtime remembers of the path is its own. -/
structure Recalls (entry : Option BoundSocket) (r : Nat) (runtime : PathRuntime) : Prop where
  guard : ∀ e, entry = some e → runtime.guard = some e.identity → e.owner = r
  binding : runtime.owner = .binding →
    (∃ i, entry = some ⟨r, i⟩) ∧ runtime.unlinking = none ∧ runtime.task = .ended
  unlinking : runtime.unlinking ≠ none → ∃ i, entry = some ⟨r, i⟩

structure OwnRemovals (s : PathState) : Prop where
  each : ∀ r, Recalls s.entry r (s.runtimes r)
  later : ∀ r, s.count ≤ r → s.runtimes r = .absent
  own : ∀ removal ∈ s.removals, removal.2 = removal.1

theorem absent_recalls (entry : Option BoundSocket) (r : Nat) : Recalls entry r .absent where
  guard _ _ h := nomatch h
  binding h := nomatch h
  unlinking h := absurd rfl h

theorem own_start : OwnRemovals PathState.init where
  each r := absent_recalls none r
  later _ _ := rfl
  own _ h := absurd h List.not_mem_nil

theorem set_self (s : PathState) (r : Nat) (runtime : PathRuntime) :
    (s.set r runtime).runtimes r = runtime := Function.update_self ..

theorem runtime_other {other : Nat} (h : other ≠ r) :
    (s.set r runtime).runtimes other = s.runtimes other := Function.update_of_ne h ..

/-- A runtime that moves by itself. -/
theorem OwnRemovals.set (h : OwnRemovals s) (hr : s.runtimes r ≠ .absent)
    (hrecalls : Recalls s.entry r runtime) : OwnRemovals (s.set r runtime) where
  each other := by
    by_cases he : other = r
    · rw [he, set_self]
      exact hrecalls
    · rw [runtime_other he]
      exact h.each other
  later other hle := by
    by_cases he : other = r
    · rw [he] at hle
      exact absurd (h.later r hle) hr
    · rw [runtime_other he]
      exact h.later other hle
  own := h.own

theorem own_bind {identity : FileIdentity} (h : OwnRemovals s)
    (hfresh : ∀ r < s.count, (s.runtimes r).guard ≠ some identity)
    (hs : s.bind identity = some s') : OwnRemovals s' := by
  unfold PathState.bind at hs
  split at hs
  · rename_i hfree
    cases hs
    have hnone : s.entry = none := Option.isNone_iff_eq_none.mp hfree.1
    refine ⟨?_, ?_, h.own⟩
    · intro r
      by_cases hr : r = s.count
      · subst hr
        simp only [Function.update_self]
        exact ⟨(fun _ _ hg => nomatch hg), fun _ => ⟨⟨identity, rfl⟩, rfl, rfl⟩,
          fun hu => absurd rfl hu⟩
      · simp only [Function.update_of_ne hr]
        have hold := h.each r
        refine ⟨?_, ?_, ?_⟩
        · intro e he hguard
          cases he
          rcases Nat.lt_or_ge r s.count with hlt | hge
          · exact absurd hguard (hfresh r hlt)
          · rw [h.later r hge] at hguard
            cases hguard
        · intro hbinding
          obtain ⟨⟨i, hi⟩, -, -⟩ := hold.binding hbinding
          rw [hnone] at hi
          cases hi
        · intro hunlinking
          obtain ⟨i, hi⟩ := hold.unlinking hunlinking
          rw [hnone] at hi
          cases hi
    · intro r hle
      have hr : r ≠ s.count := by
        dsimp only at hle
        omega
      simp only [Function.update_of_ne hr]
      apply h.later
      dsimp only at hle
      omega
  · cases hs

theorem own_record (h : OwnRemovals s) (hs : s.record r = some s') : OwnRemovals s' := by
  unfold PathState.record at hs
  split at hs
  · rename_i hbinding
    have hr : s.runtimes r ≠ .absent := by
      intro he
      rw [he] at hbinding
      cases hbinding
    obtain ⟨⟨i, hi⟩, hidle, -⟩ := (h.each r).binding hbinding
    rw [hi] at hs
    cases hs
    apply h.set hr
    refine ⟨?_, (fun ho => nomatch ho), fun hu => absurd hidle hu⟩
    intro e he _
    rw [hi] at he
    cases he
    rfl
  · cases hs

/-- After a call of `unlink_owned` that leaves the path alone. -/
theorem finish_recalls (caller : Unlinker) (h : Recalls entry r runtime) :
    Recalls entry r (runtime.finish caller) := by
  cases caller with
  | retire => exact ⟨h.guard, (fun ho => nomatch ho), fun hu => absurd rfl hu⟩
  | task =>
    exact ⟨(fun _ _ hg => nomatch hg), fun ho => ⟨(h.binding ho).1, rfl, rfl⟩,
      fun hu => absurd rfl hu⟩
  | owner =>
    exact ⟨(fun _ _ hg => nomatch hg), (fun ho => nomatch ho), fun hu => absurd rfl hu⟩

theorem finish_owner {caller : Unlinker} (h : (runtime.finish caller).owner = .binding) :
    runtime.owner = .binding := by
  cases caller with
  | retire => cases h
  | task => exact h
  | owner => cases h

theorem finish_idle (runtime : PathRuntime) (caller : Unlinker) :
    (runtime.finish caller).unlinking = none := by
  cases caller <;> rfl

/-- A runtime that does not bind makes its move, whatever its task does. -/
theorem Recalls.move {runtime' : PathRuntime} (h : Recalls entry r runtime)
    (hguard : runtime'.guard = runtime.guard) (hunlinking : runtime'.unlinking = runtime.unlinking)
    (ho : runtime'.owner ≠ .binding) : Recalls entry r runtime' where
  guard e he hg := h.guard e he (hguard.symm.trans hg)
  binding hb := absurd hb ho
  unlinking hu := h.unlinking (hunlinking ▸ hu)

theorem OwnRemovals.owner_move (h : OwnRemovals s)
    (hlive : (s.runtimes r).owner = .active ∨ (s.runtimes r).owner = .retired)
    (hguard : runtime.guard = (s.runtimes r).guard)
    (hunlinking : runtime.unlinking = (s.runtimes r).unlinking)
    (ho : runtime.owner ≠ .binding) : OwnRemovals (s.set r runtime) := by
  apply h.set _ ((h.each r).move hguard hunlinking ho)
  intro he
  rw [he] at hlive
  rcases hlive with h | h <;> cases h

/-- The task of a runtime runs only once its guard was made. -/
theorem OwnRemovals.task_move (h : OwnRemovals s) (hrunning : (s.runtimes r).task = .running)
    (hguard : runtime.guard = (s.runtimes r).guard)
    (hunlinking : runtime.unlinking = (s.runtimes r).unlinking)
    (ho : runtime.owner = (s.runtimes r).owner) : OwnRemovals (s.set r runtime) := by
  refine h.set ?_ ((h.each r).move hguard hunlinking ?_)
  · intro he
    rw [he] at hrunning
    cases hrunning
  · intro hb
    have hended := ((h.each r).binding (ho.symm.trans hb)).2.2
    rw [hrunning] at hended
    cases hended

theorem calls_busy {caller : Unlinker} (h : Recalls entry r runtime)
    (hc : runtime.calls caller = true) : runtime ≠ .absent ∧ runtime.owner ≠ .binding := by
  refine ⟨?_, ?_⟩
  · intro he
    rw [he] at hc
    cases caller <;> cases hc
  · intro hb
    obtain ⟨-, -, hended⟩ := h.binding hb
    cases caller <;> simp [PathRuntime.calls, hb, hended] at hc

theorem own_inspect {caller : Unlinker} (h : OwnRemovals s)
    (hs : s.inspect r caller = some s') : OwnRemovals s' := by
  unfold PathState.inspect at hs
  dsimp only at hs
  split at hs
  · rename_i hcalls
    obtain ⟨hr, hbusy⟩ := calls_busy (h.each r) hcalls.1
    split at hs
    · rename_i hfound
      cases hs
      apply h.set hr
      refine ⟨(h.each r).guard, fun ho => absurd ho hbusy, ?_⟩
      intro _
      obtain ⟨hsome, hsame⟩ := hfound
      cases he : s.entry with
      | none =>
        rw [← hsame, he] at hsome
        cases hsome
      | some e =>
        rw [he] at hsame
        obtain rfl := (h.each r).guard e he hsame.symm
        exact ⟨e.identity, rfl⟩
    · cases hs
      exact h.set hr (finish_recalls caller (h.each r))
  · cases hs

/-- The unlink of a call that found its own identity removes its own entry. -/
theorem own_unlink (h : OwnRemovals s) (hs : s.unlink r = some s') : OwnRemovals s' := by
  unfold PathState.unlink at hs
  split at hs
  · cases hs
  · rename_i caller hcaller
    have hunlinking : (s.runtimes r).unlinking ≠ none := by
      rw [hcaller]
      exact Option.some_ne_none caller
    obtain ⟨i, hi⟩ := (h.each r).unlinking hunlinking
    rw [hi] at hs
    cases hs
    have hr : s.runtimes r ≠ .absent := by
      intro he
      rw [he] at hunlinking
      exact hunlinking rfl
    have hset := h.set hr (finish_recalls caller (h.each r))
    refine ⟨?_, hset.later, ?_⟩
    · intro other
      have hother := hset.each other
      refine ⟨(fun _ he => nomatch he), ?_, ?_⟩
      · intro hb
        obtain ⟨⟨j, hj⟩, hrest⟩ := hother.binding hb
        have he := hi.symm.trans hj
        cases he
        rw [set_self] at hb
        have hidle := ((h.each r).binding (finish_owner hb)).2.1
        exact absurd hidle hunlinking
      · intro hu
        obtain ⟨j, hj⟩ := hother.unlinking hu
        have he := hi.symm.trans hj
        cases he
        have hidle : ((s.set r ((s.runtimes r).finish caller)).runtimes r).unlinking = none := by
          rw [set_self]
          exact finish_idle _ caller
        exact absurd hidle hu
    · intro removal hm
      rcases List.mem_append.mp hm with hm | hm
      · exact h.own removal hm
      · rw [List.mem_singleton.mp hm]

theorem own_step {label : PathLabel} (h : OwnRemovals s) (ha : Unremembered label s)
    (hs : PathState.step label s = some s') : OwnRemovals s' := by
  cases label with
  | bind identity => exact own_bind h ha hs
  | record r => exact own_record h hs
  | inspect r caller => exact own_inspect h hs
  | unlink r => exact own_unlink h hs
  | retire r =>
    simp only [PathState.step] at hs
    split at hs
    · rename_i hactive
      cases hs
      exact h.owner_move (Or.inl hactive) rfl rfl (fun ho => nomatch ho)
    · cases hs
  | shutdown r =>
    simp only [PathState.step] at hs
    split at hs
    · rename_i hlive
      cases hs
      exact h.owner_move hlive rfl rfl (fun ho => nomatch ho)
    · cases hs
  | drop r =>
    simp only [PathState.step] at hs
    split at hs
    · rename_i hlive
      cases hs
      exact h.owner_move hlive rfl rfl (fun ho => nomatch ho)
    · cases hs
  | endLoop r =>
    simp only [PathState.step] at hs
    split at hs
    · rename_i hrunning
      cases hs
      exact h.task_move hrunning.1 rfl rfl rfl
    · cases hs
  | failTask r =>
    simp only [PathState.step] at hs
    split at hs
    · rename_i hrunning
      cases hs
      exact h.task_move hrunning rfl rfl rfl
    · cases hs
  | abort r =>
    simp only [PathState.step] at hs
    split at hs
    · rename_i hrunning
      cases hs
      exact h.task_move hrunning.1 rfl rfl rfl
    · cases hs

/-- As long as a bind never gets a number that a guard still remembers, no runtime
unlinks the socket of another. -/
theorem unlinks_own (h : ReachBy PathState.step Unremembered PathState.init s) :
    ∀ removal ∈ s.removals, removal.2 = removal.1 :=
  (ReachBy.invariant own_start (fun _ hi ha hs => own_step hi ha hs) h).own

/-- A path change, and another session that gets a number of its own. -/
def freshNumber : List PathLabel :=
  [.bind ⟨1, 5⟩, .record 0, .retire 0, .inspect 0 .retire, .unlink 0, .endLoop 0,
    .bind ⟨1, 6⟩, .record 1, .inspect 0 .task]

theorem unlinks_own_fresh :
    ∃ s : PathState, s.removals = [(0, 0)] ∧ s.entry.isSome = true ∧
      ∀ removal ∈ s.removals, removal.2 = removal.1 := by
  have hrun : (runSteps (fun label s => if decide (Unremembered label s) then
      PathState.step label s else none) freshNumber PathState.init).any
      (fun s => decide (s.removals = [(0, 0)]) && s.entry.isSome) = true := by
    decide +kernel
  obtain ⟨s, hs, htest⟩ := run_any hrun
  rw [Bool.and_eq_true] at htest
  exact ⟨s, of_decide_eq_true htest.1, htest.2,
    unlinks_own (reach_by_run (fun _ hc => of_decide_eq_true hc) .start hs)⟩

/-- A session whose path changes retires its runtime; another session binds the old
path and gets the same number before the retired task drops its guard. -/
def reusedNumber : List PathLabel :=
  [.bind ⟨1, 5⟩, .record 0, .retire 0, .inspect 0 .retire, .unlink 0, .endLoop 0,
    .bind ⟨1, 5⟩, .record 1, .inspect 0 .task, .unlink 0]

theorem unlinks_another : ¬ ∀ s, Reach PathState.step PathState.init s →
    ∀ removal ∈ s.removals, removal.2 = removal.1 := by
  intro h
  have hrun : (runSteps PathState.step reusedNumber PathState.init).any
      (fun s => s.removals.any (fun removal => removal.2 != removal.1)) = true := by
    decide +kernel
  obtain ⟨s, hs, htest⟩ := run_any hrun
  obtain ⟨removal, hm, hne⟩ := List.any_eq_true.mp htest
  have hown := h s (reach_run .start hs) removal hm
  rw [hown, bne_self_eq_false] at hne
  cases hne

end Baffle.Proofs
