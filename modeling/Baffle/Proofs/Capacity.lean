import Baffle.Proofs.Registry

namespace Baffle

/-- The stages of `create` at which it has a reservation. -/
def CreateStage.reserving {P : Type} : CreateStage P → Bool
  | .start | .release _ | .register _ => true
  | _ => false

namespace Proofs

variable {P : Type} {m : SessionManager P} {t : TaskId} {s s' : State P} {pc pc' : Pc P}
  {id : SessionId}

structure Capacity (m : SessionManager P) (s : State P) : Prop where
  room : s.sessions.size + s.provisioning.card ≤ m.maxSessions
  disjoint : ∀ id ∈ s.provisioning, s.sessions.get id = none
  used : ∀ id ∈ s.provisioning, id ∈ s.used
  drawn : ∀ t call stage, s.tasks t = .create call stage → call.id ∈ s.used
  unique : ∀ t u call call' stage stage', s.tasks t = .create call stage →
    s.tasks u = .create call' stage' → call.id = call'.id → t = u
  reserved : ∀ t call stage, s.tasks t = .create call stage → stage.reserving = true →
    s.acceptingSessions = true → call.id ∈ s.provisioning
  released : ∀ t call stage, s.tasks t = .create call stage → stage.reserving = false →
    call.id ∉ s.provisioning
  owned : ∀ id ∈ s.provisioning, s.acceptingSessions = false ∨
    ∃ t call stage, s.tasks t = .create call stage ∧ call.id = id ∧ stage.reserving = true

theorem capacity_init : Capacity m (State.init : State P) where
  room := Nat.zero_le _
  disjoint _ h := by cases h
  used _ h := by cases h
  drawn _ _ _ h := by cases h
  unique _ _ _ _ _ _ h := by cases h
  reserved _ _ _ h := by cases h
  released _ _ _ h := by cases h
  owned _ h := by cases h

/-- What the calls other than `create` do to the registry and the reservations. -/
theorem move_size (h : Move m t s pc s' pc') (hp : ∀ call stage, pc ≠ .create call stage) :
    s'.sessions.size ≤ s.sessions.size ∧
      (s'.provisioning = s.provisioning ∨
        s'.provisioning = ∅ ∧ s'.acceptingSessions = false) := by
  have hwrite : ∀ {k : SessionId} {old : ManagedSession P} (new : ManagedSession P),
      s.sessions.get k = some old → (s.sessions.insert k new).size ≤ s.sessions.size :=
    fun new hk => Nat.le_of_eq (SortedMap.size_insert_present hk new)
  cases h with
  | create call h => exact absurd rfl (hp call _)
  | reload j batch h =>
    cases h with
    | turnedDown session hj => exact ⟨hwrite _ hj, Or.inl rfl⟩
    | begun session hj => exact ⟨hwrite _ hj, Or.inl rfl⟩
    | sameCommitted target ha session hj => exact ⟨hwrite _ hj, Or.inl rfl⟩
    | limited target session hj => exact ⟨hwrite _ hj, Or.inl rfl⟩
    | withinLimits target ha session hj => exact ⟨hwrite _ hj, Or.inl rfl⟩
    | vacant target options replacement session hj => exact ⟨hwrite _ hj, Or.inl rfl⟩
    | switched target options replacement ha session hj => exact ⟨hwrite _ hj, Or.inl rfl⟩
    | retired target options oldRuntime session hj => exact ⟨hwrite _ hj, Or.inl rfl⟩
    | _ => exact ⟨Nat.le_refl _, Or.inl rfl⟩
  | teardown kind j h =>
    cases h with
    | forgotten g hk session hj => exact ⟨hwrite _ hj, Or.inl rfl⟩
    | claimed session hj => exact ⟨hwrite _ hj, Or.inl rfl⟩
    | removed session hj => exact ⟨SortedMap.size_erase_le _ _, Or.inl rfl⟩
    | _ => exact ⟨Nat.le_refl _, Or.inl rfl⟩
  | sweep h =>
    cases h with
    | begun => exact ⟨Nat.le_refl _, Or.inr ⟨rfl, rfl⟩⟩
    | claimed j ids runtimes count session hj => exact ⟨hwrite _ hj, Or.inl rfl⟩
    | cleared count => exact ⟨Nat.zero_le _, Or.inl rfl⟩
    | _ => exact ⟨Nat.le_refl _, Or.inl rfl⟩
  | listed answer => exact ⟨Nat.le_of_eq (SortedMap.size_map_values _ _), Or.inl rfl⟩
  | _ => exact ⟨Nat.le_refl _, Or.inl rfl⟩

/-- A step that starts no `create` call and moves none. -/
theorem Capacity.still (h : Capacity m s) (hsize : s'.sessions.size ≤ s.sessions.size)
    (hget : ∀ id, s.sessions.get id = none → s'.sessions.get id = none)
    (hp : s'.provisioning = s.provisioning ∨
      s'.provisioning = ∅ ∧ s'.acceptingSessions = false)
    (ha : s'.acceptingSessions = true → s.acceptingSessions = true) (hused : s.used ⊆ s'.used)
    (ht : ∀ u call stage, s'.tasks u = .create call stage → s.tasks u = .create call stage)
    (ht' : ∀ u call stage, s.tasks u = .create call stage →
      s'.tasks u = .create call stage ∨ s'.acceptingSessions = false) : Capacity m s' := by
  have hacc : s.acceptingSessions = false → s'.acceptingSessions = false := by
    intro hf
    cases hs' : s'.acceptingSessions with
    | false => rfl
    | true =>
      rw [ha hs'] at hf
      cases hf
  have hsub : s'.provisioning ⊆ s.provisioning := by
    rcases hp with hp | ⟨hp, -⟩ <;> rw [hp]
    exact Finset.empty_subset _
  refine ⟨?_, fun id hid => hget id (h.disjoint id (hsub hid)),
    fun id hid => hused (h.used id (hsub hid)),
    fun u call stage hu => hused (h.drawn u call stage (ht u call stage hu)),
    fun u v call call' stage stage' hu hv =>
      h.unique u v call call' stage stage' (ht u call stage hu) (ht v call' stage' hv),
    ?_, fun u call stage hu hr hid => h.released u call stage (ht u call stage hu) hr (hsub hid), ?_⟩
  · exact (Nat.add_le_add hsize (Finset.card_le_card hsub)).trans h.room
  · intro u call stage hu hr hacc'
    rcases hp with hp | ⟨-, hf⟩
    · rw [hp]
      exact h.reserved u call stage (ht u call stage hu) hr (ha hacc')
    · rw [hf] at hacc'
      cases hacc'
  · intro id hid
    rcases h.owned id (hsub hid) with hf | ⟨u, call, stage, hu, hc, hr⟩
    · exact Or.inl (hacc hf)
    · rcases ht' u call stage hu with hu' | hf
      · exact Or.inr ⟨u, call, stage, hu', hc, hr⟩
      · exact Or.inl hf

/-- A `create` call moves on, with its own reservation as it should be. -/
theorem Capacity.own {call : CreateCall} {stage stage' : CreateStage P} (h : Capacity m s)
    (hpc : s.tasks t = .create call stage) (htasks : s'.tasks = s.tasks)
    (hused : s'.used = s.used) (ha : s'.acceptingSessions = s.acceptingSessions)
    (hroom : s'.sessions.size + s'.provisioning.card ≤ m.maxSessions)
    (hothers : ∀ id, id ≠ call.id → (id ∈ s'.provisioning ↔ id ∈ s.provisioning))
    (hget : ∀ id ∈ s'.provisioning, s.sessions.get id = none → s'.sessions.get id = none)
    (hmine : call.id ∈ s'.provisioning → s.sessions.get call.id = none)
    (hin : stage'.reserving = true → s.acceptingSessions = true → call.id ∈ s'.provisioning)
    (hout : stage'.reserving = false → call.id ∉ s'.provisioning) :
    Capacity m (s'.goto t (.create call stage')) := by
  have hself : (s'.goto t (.create call stage')).tasks t = .create call stage' :=
    Function.update_self ..
  have hother : ∀ u, u ≠ t → (s'.goto t (.create call stage')).tasks u = s.tasks u := fun u hu => by
    rw [← htasks]
    exact Function.update_of_ne hu _ _
  -- every `create` call of the new state is one of the old state with the same id
  have hback : ∀ u call' stage1, (s'.goto t (.create call stage')).tasks u = .create call' stage1 →
      ∃ stage2, s.tasks u = .create call' stage2 ∧ (u ≠ t → stage2 = stage1) ∧
        (u = t → call' = call ∧ stage1 = stage') := by
    intro u call' stage1 hu
    by_cases hut : u = t
    · rw [hut, hself] at hu
      cases hu
      exact ⟨stage, hut ▸ hpc, fun hn => absurd hut hn, fun _ => ⟨rfl, rfl⟩⟩
    · rw [hother u hut] at hu
      exact ⟨stage1, hu, fun _ => rfl, fun he => absurd he hut⟩
  refine ⟨hroom, ?_, ?_, ?_, ?_, ?_, ?_, ?_⟩
  · intro id hid
    refine hget id hid ?_
    by_cases hc : id = call.id
    · subst hc
      exact hmine hid
    · exact h.disjoint id ((hothers id hc).mp hid)
  · intro id hid
    simp only [State.goto, hused]
    by_cases hc : id = call.id
    · rw [hc]
      exact h.drawn t call stage hpc
    · exact h.used id ((hothers id hc).mp hid)
  · intro u call' stage1 hu
    obtain ⟨stage2, hu, -, -⟩ := hback u call' stage1 hu
    simp only [State.goto, hused]
    exact h.drawn u call' stage2 hu
  · intro u v call1 call2 stage1 stage2 hu hv
    obtain ⟨_, hu, -, -⟩ := hback u call1 stage1 hu
    obtain ⟨_, hv, -, -⟩ := hback v call2 stage2 hv
    exact h.unique u v call1 call2 _ _ hu hv
  · intro u call' stage1 hu hr hacc
    simp only [State.goto, ha] at hacc
    obtain ⟨stage2, hu, hne, heq⟩ := hback u call' stage1 hu
    by_cases hut : u = t
    · obtain ⟨rfl, rfl⟩ := heq hut
      exact hin hr hacc
    · have hid : call'.id ≠ call.id := fun he => hut (h.unique u t _ _ _ _ hu hpc he)
      cases hne hut
      exact (hothers _ hid).mpr (h.reserved u call' _ hu hr hacc)
  · intro u call' stage1 hu hr
    obtain ⟨stage2, hu, hne, heq⟩ := hback u call' stage1 hu
    by_cases hut : u = t
    · obtain ⟨rfl, rfl⟩ := heq hut
      exact hout hr
    · have hid : call'.id ≠ call.id := fun he => hut (h.unique u t _ _ _ _ hu hpc he)
      cases hne hut
      exact fun hmem => h.released u call' _ hu hr ((hothers _ hid).mp hmem)
  · intro id hid
    by_cases hc : id = call.id
    · refine Or.inr ⟨t, call, stage', hself, hc.symm, ?_⟩
      cases hr : stage'.reserving with
      | true => rfl
      | false => exact absurd (hc ▸ hid) (hout hr)
    · rcases h.owned id ((hothers id hc).mp hid) with hf | ⟨u, call', stage1, hu, hcid, hr⟩
      · exact Or.inl (ha.trans hf)
      · have hut : u ≠ t := by
          rintro rfl
          rw [hpc] at hu
          cases hu
          exact hc hcid.symm
        exact Or.inr ⟨u, call', stage1, (hother u hut).trans hu, hcid, hr⟩

theorem capacity_create {call : CreateCall} {stage stage' : CreateStage P} (hx : Exclusive s)
    (h : Capacity m s) (hpc : s.tasks t = .create call stage)
    (hm : CreateMove m s call stage s' stage') : Capacity m (s'.goto t (.create call stage')) := by
  have hnone : stage.reserving = true → s.sessions.get call.id = none := by
    intro hr
    refine unregistered hx hpc ?_
    rw [hpc]
    cases stage <;> first | rfl | cases hr
  have hout := h.released t call stage hpc
  have herase : ∀ id, id ≠ call.id →
      (id ∈ s.provisioning.erase call.id ↔ id ∈ s.provisioning) :=
    fun id hid => by simp [hid]
  have hsmaller : s.sessions.size + (s.provisioning.erase call.id).card ≤ m.maxSessions :=
    (Nat.add_le_add_left (Finset.card_erase_le ..) _).trans h.room
  cases hm with
  | refused error =>
    exact h.own hpc rfl rfl rfl h.room (fun _ _ => Iff.rfl) (fun _ _ hg => hg)
      (fun hid => absurd hid (hout rfl)) (fun hr => by cases hr) (fun _ => hout rfl)
  | reserved ha hroom hs hp =>
    refine h.own hpc rfl rfl rfl ?_ (fun id hid => by simp [hid]) (fun _ _ hg => hg)
      (fun _ => hs) (fun _ _ => Finset.mem_insert_self _ _) (fun hr => by cases hr)
    rw [Finset.card_insert_of_notMem hp]
    exact hroom
  | failed error =>
    exact h.own hpc rfl rfl rfl h.room (fun _ _ => Iff.rfl) (fun _ _ hg => hg)
      (fun _ => hnone rfl) (fun _ ha => h.reserved t call _ hpc rfl ha) (fun hr => by cases hr)
  | started socketPath =>
    exact h.own hpc rfl rfl rfl h.room (fun _ _ => Iff.rfl) (fun _ _ hg => hg)
      (fun _ => hnone rfl) (fun _ ha => h.reserved t call _ hpc rfl ha) (fun hr => by cases hr)
  | released error =>
    exact h.own hpc rfl rfl rfl hsmaller herase (fun _ _ hg => hg)
      (fun _ => hnone rfl) (fun hr => by cases hr) (fun _ => Finset.notMem_erase _ _)
  | late runtime ha =>
    exact h.own hpc rfl rfl rfl hsmaller herase (fun _ _ hg => hg)
      (fun _ => hnone rfl) (fun hr => by cases hr) (fun _ => Finset.notMem_erase _ _)
  | registered runtime ha =>
    refine h.own hpc rfl rfl rfl ?_ herase (fun id hid hg => ?_)
      (fun _ => hnone rfl) (fun hr => by cases hr) (fun _ => Finset.notMem_erase _ _)
    · -- the session takes the place of its reservation
      have hmem := h.reserved t call _ hpc rfl ha
      have hcard := Finset.card_erase_add_one hmem
      have hsize := SortedMap.size_insert_new (hnone rfl) (m.createdSession call runtime)
      have hroom := h.room
      simp only [State.setSession, State.setCell, hsize]
      omega
    · have hid' : id ≠ call.id := fun he => Finset.notMem_erase _ _ (he ▸ hid)
      simp only [State.setSession, State.setCell, SortedMap.get_insert_ne _ hid']
      exact hg
  | dropped runtime =>
    exact h.own hpc rfl rfl rfl h.room (fun _ _ => Iff.rfl) (fun _ _ hg => hg)
      (fun hid => absurd hid (hout rfl)) (fun hr => by cases hr) (fun _ => hout rfl)

theorem creating_create (h : pc.creating = some id) :
    ∃ call stage, pc = .create call stage := by
  cases pc with
  | create call stage => exact ⟨call, stage, rfl⟩
  | _ => cases h

/-- No call but `create` is in `create` before or after. -/
theorem goto_create (hm : Move m t s (s.tasks t) s' pc')
    (hp : ∀ call stage, s.tasks t ≠ .create call stage) {u : TaskId} {call : CreateCall}
    {stage : CreateStage P} :
    (s'.goto t pc').tasks u = .create call stage ↔ s.tasks u = .create call stage := by
  simp only [State.goto, (move_calls hm).1]
  by_cases hut : u = t
  · subst hut
    rw [Function.update_self]
    refine ⟨fun hpc => ?_, fun hu => absurd hu (hp call stage)⟩
    obtain ⟨stage', hu, -⟩ := (move_back hm).1 hpc
    exact absurd hu (hp call stage')
  · rw [Function.update_of_ne hut]

theorem Capacity.moved (hx : Exclusive s) (h : Capacity m s)
    (hm : Move m t s (s.tasks t) s' pc') : Capacity m (s'.goto t pc') := by
  by_cases hp : ∃ call stage, s.tasks t = .create call stage
  · obtain ⟨call, stage, hpc⟩ := hp
    rw [hpc] at hm
    cases hm with
    | create call hm => exact capacity_create hx h hpc hm
  · have hp : ∀ call stage, s.tasks t ≠ .create call stage :=
      fun call stage hpc => hp ⟨call, stage, hpc⟩
    obtain ⟨hsize, hprov⟩ := move_size hm hp
    have hnone : ∀ id, s.sessions.get id = none → s'.sessions.get id = none := by
      intro id hs
      by_contra hs'
      rcases move_registered hm (by simpa [Option.isSome_iff_ne_none] using hs') with hr | ⟨hc, -⟩
      · simp [hs] at hr
      · obtain ⟨call, stage, hpc⟩ := creating_create hc
        exact hp call stage hpc
    refine h.still hsize hnone hprov ?_ ?_ (fun u call stage => (goto_create hm hp).mp)
      (fun u call stage hu => Or.inl ((goto_create hm hp).mpr hu))
    · exact fun ha => move_accepting hm (show s'.acceptingSessions = true from ha)
    · simp only [State.goto, (move_calls hm).2.2]
      exact Finset.Subset.refl _

/-- A call that is in progress is where it was after another has been started. -/
theorem spawn_progress (hnext : s.tasks s.nextTask = .absent) {u : TaskId}
    (hu : s.tasks u ≠ .absent) : (s.spawn pc).tasks u = s.tasks u := by
  refine Function.update_of_ne ?_ _ _
  rintro rfl
  exact hu hnext

theorem Capacity.spawn (hx : Exclusive s) (h : Capacity m s)
    (hp : ∀ call stage, pc ≠ .create call stage) : Capacity m (s.spawn pc) := by
  refine h.still (Nat.le_refl _) (fun _ hs => hs) (Or.inl rfl) (fun ha => ha)
    (Finset.Subset.refl _) (fun u call stage hu => ?_) (fun u call stage hu => Or.inl ?_)
  · rcases spawn_tasks u with hg | hg <;> rw [hg] at hu
    · exact hu
    · exact absurd hu (hp call stage)
  · rw [spawn_progress (hx.absent _ (Nat.le_refl _)) (by rw [hu]; rintro ⟨⟩)]
    exact hu

theorem Capacity.spawn_create (hx : Exclusive s) (h : Capacity m s) {call : CreateCall}
    (hid : call.id ∉ s.used) :
    Capacity m (({ s with used := insert call.id s.used } : State P).spawn
      (.create call .reserve)) := by
  have hcases : ∀ u call' stage', (({ s with used := insert call.id s.used } : State P).spawn
      (.create call .reserve)).tasks u = .create call' stage' →
      s.tasks u = .create call' stage' ∨
        u = s.nextTask ∧ call' = call ∧ stage' = .reserve := by
    intro u call' stage' hu
    by_cases hut : u = s.nextTask
    · subst hut
      simp only [State.spawn, State.goto, Function.update_self] at hu
      cases hu
      exact Or.inr ⟨rfl, rfl, rfl⟩
    · simp only [State.spawn, State.goto, Function.update_of_ne hut] at hu
      exact Or.inl hu
  have hne : ∀ u call' stage', s.tasks u = .create call' stage' → call'.id ≠ call.id :=
    fun u call' stage' hu he => hid (he ▸ h.drawn u call' stage' hu)
  refine ⟨h.room, h.disjoint, fun id hmem => Finset.mem_insert_of_mem (h.used id hmem), ?_, ?_, ?_,
    ?_, ?_⟩
  · intro u call' stage' hu
    rcases hcases u call' stage' hu with hu | ⟨-, rfl, -⟩
    · exact Finset.mem_insert_of_mem (h.drawn u call' stage' hu)
    · exact Finset.mem_insert_self _ _
  · intro u v call1 call2 stage1 stage2 hu hv he
    rcases hcases u call1 stage1 hu with hold | ⟨hnew, hc1, -⟩ <;>
      rcases hcases v call2 stage2 hv with hold' | ⟨hnew', hc2, -⟩
    · exact h.unique u v call1 call2 stage1 stage2 hold hold' he
    · rw [hc2] at he
      exact absurd he (hne u call1 stage1 hold)
    · rw [hc1] at he
      exact absurd he.symm (hne v call2 stage2 hold')
    · rw [hnew, hnew']
  · intro u call' stage' hu hr ha
    rcases hcases u call' stage' hu with hu | ⟨-, rfl, rfl⟩
    · exact h.reserved u call' stage' hu hr ha
    · cases hr
  · intro u call' stage' hu hr
    rcases hcases u call' stage' hu with hu | ⟨-, rfl, rfl⟩
    · exact h.released u call' stage' hu hr
    · exact fun hmem => hid (h.used _ hmem)
  · intro id hmem
    rcases h.owned id hmem with hf | ⟨u, call', stage', hu, hc, hr⟩
    · exact Or.inl hf
    · refine Or.inr ⟨u, call', stage', ?_, hc, hr⟩
      have hlive : s.tasks u ≠ .absent := by
        rw [hu]
        rintro ⟨⟩
      have hnext : ({ s with used := insert call.id s.used } : State P).tasks s.nextTask = .absent :=
        hx.absent _ (Nat.le_refl _)
      exact (spawn_progress hnext hlive).trans hu

theorem Capacity.step (hx : Exclusive s) (h : Capacity m s) (ho : Outcome m s s') :
    Capacity m s' := by
  cases ho with
  | create call hid => exact h.spawn_create hx hid
  | call hpc =>
    refine h.spawn hx (fun call stage he => ?_)
    rw [he] at hpc
    cases hpc
  | delivered event events he =>
    have h' : Capacity m ({ s with events } : State P) :=
      h.still (Nat.le_refl _) (fun _ hs => hs) (Or.inl rfl) (fun ha => ha)
        (Finset.Subset.refl _) (fun _ _ _ hu => hu) (fun _ _ _ hu => Or.inl hu)
    exact h'.spawn (hx.same rfl rfl rfl rfl) (fun call stage he => by cases he)
  | moved t hm => exact h.moved hx hm
  | expired t =>
    exact h.still (Nat.le_refl _) (fun _ hs => hs) (Or.inl rfl) (fun ha => ha)
      (Finset.Subset.refl _) (fun _ _ _ hu => hu) (fun _ _ _ hu => Or.inl hu)
  | aborted t ha hb =>
    refine h.still (Nat.le_refl _) (fun _ hs => hs) (Or.inl rfl) (fun ha => ha)
      (Finset.Subset.refl _) (fun u call stage hu => ?_) (fun _ _ _ _ => Or.inr ha)
    rcases goto_tasks u with hg | hg <;> rw [hg] at hu
    · exact hu
    · cases hu
  | runtime r hr cell permits sent hc =>
    exact h.still (Nat.le_refl _) (fun _ hs => hs) (Or.inl rfl) (fun ha => ha)
      (Finset.Subset.refl _) (fun _ _ _ hu => hu) (fun _ _ _ hu => Or.inl hu)

theorem capacity_reach [DecidableEq P] (h : Reach m.step State.init s) : Capacity m s :=
  h.invariant capacity_init (fun hr hi hs => hi.step (exclusive_reach hr) (step_outcome hs))

/-- Once shutdown has begun, a step registers nothing and does not take it back. -/
theorem shut_step [DecidableEq P] {action : Action P} (h : m.step action s = some s')
    (ha : s.acceptingSessions = false) :
    s'.acceptingSessions = false ∧
      ∀ id, (s'.sessions.get id).isSome = true → (s.sessions.get id).isSome = true := by
  have ho := step_outcome h
  cases ho with
  | moved t hm =>
    refine ⟨?_, fun id hid => ?_⟩
    · rename_i u pc
      cases hu : u.acceptingSessions with
      | false => exact hu
      | true =>
        rw [move_accepting hm hu] at ha
        cases ha
    · rcases move_registered hm hid with hs | ⟨-, -, hacc⟩
      · exact hs
      · rw [ha] at hacc
        cases hacc
  | _ => exact ⟨ha, fun _ hid => hid⟩

/-- In every reachable state: the limit holds for registered sessions and
reservations together, no id is both, a `create` that is over has no reservation,
every reservation has its `create` call in progress until shutdown begins, and
from then on no run registers a session. -/
theorem session_capacity [DecidableEq P] (h : Reach m.step State.init s) :
    s.sessions.size + s.provisioning.card ≤ m.maxSessions ∧
    (∀ id, (s.sessions.get id).isSome = true → id ∉ s.provisioning) ∧
    (∀ t call result, s.tasks t = .create call (.done result) → call.id ∉ s.provisioning) ∧
    (∀ id ∈ s.provisioning, s.acceptingSessions = true →
      ∃ t call stage, s.tasks t = .create call stage ∧ call.id = id ∧
        ∀ result, stage ≠ .done result) ∧
    (s.acceptingSessions = false → ∀ s', Reach m.step s s' →
      s'.acceptingSessions = false ∧
        ∀ id, (s'.sessions.get id).isSome = true → (s.sessions.get id).isSome = true) := by
  have hc := capacity_reach h
  refine ⟨hc.room, ?_, fun t call result hpc => hc.released t call _ hpc rfl, ?_, ?_⟩
  · intro id hs hid
    rw [hc.disjoint id hid] at hs
    cases hs
  · intro id hid ha
    rcases hc.owned id hid with hf | ⟨t, call, stage, hpc, hcall, hr⟩
    · rw [ha] at hf
      cases hf
    · refine ⟨t, call, stage, hpc, hcall, ?_⟩
      rintro result rfl
      cases hr
  · intro ha s' hreach
    induction hreach with
    | start => exact ⟨ha, fun _ hid => hid⟩
    | next before _ hs ih =>
      obtain ⟨hf, hsub⟩ := shut_step hs ih.1
      exact ⟨hf, fun id hid => ih.2 id (hsub id hid)⟩

/-- After one creation, with a second one reserved, the limit of two is reached. -/
theorem session_capacity_sample :
    ∃ s, runSteps sampleManager.step (sampleCreation ++
        [.create { sampleCall with id := "b".toList }, .advance 1 sampleEnvironment])
        State.init = some s ∧
      s.sessions.size + s.provisioning.card = 2 ∧
      s.sessions.size + s.provisioning.card ≤ sampleManager.maxSessions := by
  have hrun : (runSteps sampleManager.step (sampleCreation ++
      [.create { sampleCall with id := "b".toList }, .advance 1 sampleEnvironment])
      State.init).any (fun s => s.sessions.size + s.provisioning.card == 2) = true := by decide
  obtain ⟨s, hs, htest⟩ := run_any hrun
  exact ⟨s, hs, by simpa using htest, (session_capacity (reach_run .start hs)).1⟩

end Proofs

end Baffle
