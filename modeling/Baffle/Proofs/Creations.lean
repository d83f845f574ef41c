import Baffle.Proofs.Capacity

namespace Baffle

namespace Proofs

variable {P : Type} {m : SessionManager P} {s s' : State P} {call : CreateCall}

/-- Where a `create` call that is seen after a step was before it. -/
theorem create_before (ho : Outcome m s s') {u : TaskId} {stage' : CreateStage P}
    (hpc : s'.tasks u = .create call stage') :
    s.tasks u = .create call stage' ∨
      (∃ stage s1, s.tasks u = .create call stage ∧ CreateMove m s call stage s1 stage') ∨
      call.id ∉ s.used ∧ call.id ∈ s'.used ∧ u = s.nextTask ∧ stage' = .reserve := by
  have hspawned : ∀ {v : State P} {pc : Pc P}, v.tasks = s.tasks →
      (v.spawn pc).tasks u = .create call stage' →
      s.tasks u = .create call stage' ∨ u = v.nextTask ∧ pc = .create call stage' := by
    intro v pc hv hpc
    by_cases hu : u = v.nextTask
    · subst hu
      have hself : (v.spawn pc).tasks v.nextTask = pc := Function.update_self ..
      exact Or.inr ⟨rfl, hself.symm.trans hpc⟩
    · have hother : (v.spawn pc).tasks u = v.tasks u := Function.update_of_ne hu _ _
      rw [← hv]
      exact Or.inl (hother.symm.trans hpc)
  cases ho with
  | create call' hid =>
    rcases hspawned (by rfl) hpc with h | ⟨hu, h⟩
    · exact Or.inl h
    · cases h
      exact Or.inr (Or.inr ⟨hid, Finset.mem_insert_self .., hu, rfl⟩)
  | call hi =>
    rcases hspawned (by rfl) hpc with h | ⟨-, h⟩
    · exact Or.inl h
    · rw [h] at hi
      cases hi
  | delivered event events hev =>
    rcases hspawned (by rfl) hpc with h | ⟨-, h⟩
    · exact Or.inl h
    · cases h
  | moved t hm =>
    simp only [State.goto, (move_calls hm).1] at hpc
    by_cases hut : u = t
    · subst hut
      rw [Function.update_self] at hpc
      obtain ⟨stage, hu, hmove⟩ := (move_back hm).1 hpc
      exact Or.inr (Or.inl ⟨stage, _, hu, hmove⟩)
    · rw [Function.update_of_ne hut] at hpc
      exact Or.inl hpc
  | expired t => exact Or.inl hpc
  | aborted t ha hb =>
    rcases goto_tasks u with hs | hs <;> rw [hs] at hpc
    · exact Or.inl hpc
    · cases hpc
  | runtime r hr cell permits sent hc => exact Or.inl hpc

theorem step_used (ho : Outcome m s s') : s.used ⊆ s'.used := by
  cases ho with
  | create call hid => exact Finset.subset_insert _ _
  | moved t hm =>
    show s.used ⊆ _
    rw [State.goto, (move_calls hm).2.2]
  | _ => exact Finset.Subset.refl _

theorem reach_used [DecidableEq P] (h : Reach m.step s s') : s.used ⊆ s'.used := by
  induction h with
  | start => exact Finset.Subset.refl _
  | next before ha hs ih => exact ih.trans (step_used (step_outcome hs))

/-- The answer of a `create` call that succeeded. -/
structure Answers (m : SessionManager P) (call : CreateCall) (created : CreatedSession) : Prop where
  id : created.info.id = call.id
  persistent : created.info.persistent = call.session.persistent
  seed : created.credentialSeedBase64url = call.credentialSeed.asBase64url m.crates

structure Creations (m : SessionManager P) (s : State P) : Prop where
  used : ∀ t call stage, s.tasks t = .create call stage → call.id ∈ s.used
  unique : ∀ t u call call' stage stage', s.tasks t = .create call stage →
    s.tasks u = .create call' stage' → call.id = call'.id → t = u
  answers : ∀ t call created, s.tasks t = .create call (.done (.ok created)) →
    Answers m call created

theorem creations_init : Creations m (State.init : State P) :=
  ⟨fun _ _ _ h => (by cases h), fun _ _ _ _ _ _ h => (by cases h), fun _ _ _ h => (by cases h)⟩

theorem Creations.step (h : Creations m s) (ho : Outcome m s s') : Creations m s' where
  used t call stage hpc := by
    rcases create_before ho hpc with hb | ⟨stage0, _, hb, -⟩ | ⟨-, hu, -⟩
    · exact step_used ho (h.used t call _ hb)
    · exact step_used ho (h.used t call _ hb)
    · exact hu
  unique t u call call' stage stage' ht hu hid := by
    have hold : ∀ {v call stage}, s'.tasks v = .create call stage →
        (∃ stage, s.tasks v = .create call stage) ∨ call.id ∉ s.used ∧ v = s.nextTask := by
      intro v call stage hv
      rcases create_before ho hv with hb | ⟨stage0, _, hb, -⟩ | ⟨hn, -, hv, -⟩
      · exact Or.inl ⟨_, hb⟩
      · exact Or.inl ⟨_, hb⟩
      · exact Or.inr ⟨hn, hv⟩
    rcases hold ht with ⟨st, ht⟩ | ⟨hnt, ht⟩
    · rcases hold hu with ⟨su, hu⟩ | ⟨hnu, -⟩
      · exact h.unique t u call call' st su ht hu hid
      · exact absurd (hid ▸ h.used t call st ht) hnu
    · rcases hold hu with ⟨su, hu⟩ | ⟨-, hu⟩
      · exact absurd (hid ▸ h.used u call' su hu) hnt
      · rw [ht, hu]
  answers t call created hpc := by
    rcases create_before ho hpc with hb | ⟨stage0, _, -, hmove⟩ | ⟨-, -, -, hs⟩
    · exact h.answers t call created hb
    · cases hmove with
      | registered runtime ha => exact ⟨rfl, rfl, rfl⟩
    · cases hs

theorem creations_reach [DecidableEq P] (h : Reach m.step State.init s) : Creations m s :=
  h.invariant creations_init (fun _ hi hs => hi.step (step_outcome hs))

/-- After a `create` call no other one is for its id. -/
theorem creation_only [DecidableEq P] {s0 s1 : State P} (h0 : Reach m.step State.init s0)
    (hcreate : m.step (.create call) s0 = some s1) (hrun : Reach m.step s1 s) {t : TaskId}
    {call' : CreateCall} {stage : CreateStage P} (hpc : s.tasks t = .create call' stage)
    (hid : call'.id = call.id) : call' = call := by
  have h1 := h0.next hcreate
  induction hrun generalizing stage with
  | start =>
    have hnew : s1.tasks s0.nextTask = .create call .reserve ∧ call.id ∉ s0.used := by
      simp only [SessionManager.step] at hcreate
      split at hcreate
      · cases hcreate
      · rename_i hn
        rw [← Option.some.inj hcreate]
        exact ⟨Function.update_self .., hn⟩
    have hsame := (creations_reach h1).unique t _ call' call stage _ hpc hnew.1 hid
    rw [hsame, hnew.1] at hpc
    cases hpc
    rfl
  | next before ha hs ih =>
    have hreach := h1.trans before
    rcases create_before (step_outcome hs) hpc with hb | ⟨stage0, _, hb, -⟩ | ⟨hn, -⟩
    · exact ih hb
    · exact ih hb
    · have hused : call.id ∈ s1.used := by
        simp only [SessionManager.step] at hcreate
        split at hcreate
        · cases hcreate
        · rw [← Option.some.inj hcreate]
          exact Finset.mem_insert_self ..
      rw [hid] at hn
      exact absurd (reach_used before hused) hn

/-- Ids are drawn by `create` calls. -/
theorem step_draws [DecidableEq P] {a : Action P} (hs : m.step a s = some s')
    (hn : ∀ call, a ≠ .create call) : s'.used = s.used := by
  cases a with
  | create call => exact absurd rfl (hn call)
  | deliver =>
    simp only [SessionManager.step] at hs
    split at hs
    · cases hs
    · rw [← Option.some.inj hs]
      rfl
  | advance t env =>
    obtain ⟨⟨u, pc⟩, ha, rfl⟩ := Option.map_eq_some_iff.mp hs
    exact (move_calls (advance_move ha)).2.2
  | abort t =>
    simp only [SessionManager.step] at hs
    split at hs
    · rw [← Option.some.inj hs]
      rfl
    · cases hs
  | runtime r move =>
    simp only [SessionManager.step] at hs
    split at hs
    · obtain ⟨cell, permits, sent, rfl, -⟩ := runtime_move hs
      rfl
    · cases hs
  | _ =>
    rw [← Option.some.inj hs]
    rfl

/-- Every id in use comes from one step of the run. -/
theorem creation_of [DecidableEq P] {allowed : Action P → State P → Prop} {id : SessionId}
    (h : ReachBy m.step allowed State.init s) (hid : id ∈ s.used) :
    ∃ call s0 s1, call.id = id ∧ allowed (.create call) s0 ∧ Reach m.step State.init s0 ∧
      m.step (.create call) s0 = some s1 ∧ Reach m.step s1 s := by
  induction h with
  | start => cases hid
  | @next s s' a before ha hs ih =>
    by_cases hold : id ∈ s.used
    · obtain ⟨call, s0, s1, hcall, hall, h0, h1, hrun⟩ := ih hold
      exact ⟨call, s0, s1, hcall, hall, h0, h1, hrun.next hs⟩
    · by_cases hc : ∃ call, a = .create call
      · obtain ⟨call, rfl⟩ := hc
        refine ⟨call, s, s', ?_, ha, before.reach, hs, .start⟩
        simp only [SessionManager.step] at hs
        split at hs
        · cases hs
        · rw [← Option.some.inj hs] at hid
          exact ((Finset.mem_insert.mp hid).resolve_right hold).symm
      · rw [step_draws hs (fun call he => hc ⟨call, he⟩)] at hid
        exact absurd hid hold

end Proofs

end Baffle
