import Baffle.Proofs.Moves

namespace Baffle

namespace Pc

variable {P : Type}

/-- The session that the call is creating. -/
def creating : Pc P → Option SessionId
  | .create _ (.done _) => none
  | .create call _ => some call.id
  | _ => none

/-- The session that the call works on. -/
def holds (pc : Pc P) : Option SessionId := pc.creating.or pc.serial

/-- The sessions that the call has found in the registry and has not finished with. -/
def seen : Pc P → List SessionId
  | .reload _ _ .lookup => []
  | .reload id _ _ => [id]
  | .teardown _ id stage =>
    match stage with
    | .lookup | .done _ => []
    | _ => [id]
  | .shutdownAll stage =>
    match stage with
    | .next ids _ _ => ids
    | .lock id ids _ _ | .claim id ids _ _ => id :: ids
    | _ => []
  | _ => []

theorem seen_of_serial {pc : Pc P} {id : SessionId} (h : pc.serial = some id) : id ∈ pc.seen := by
  cases pc with
  | reload j batch stage => cases stage <;> simp_all [serial, seen, ReloadStage.locked]
  | teardown kind j stage => cases stage <;> simp_all [serial, seen, TeardownStage.locked]
  | shutdownAll stage => cases stage <;> simp_all [serial, seen]
  | _ => cases h

theorem creating_serial {pc : Pc P} {id : SessionId} (h : pc.creating = some id) :
    pc.serial = none := by
  cases pc with
  | create call stage => rfl
  | _ => cases h

theorem holds_cases {pc : Pc P} {id : SessionId} (h : pc.holds = some id) :
    pc.creating = some id ∨ pc.serial = some id := by
  unfold holds at h
  cases hc : pc.creating with
  | none =>
    rw [hc] at h
    exact Or.inr h
  | some j =>
    rw [hc] at h
    exact Or.inl h

theorem holds_of_creating {pc : Pc P} {id : SessionId} (h : pc.creating = some id) :
    pc.holds = some id := by
  simp [holds, h]

theorem holds_of_serial {pc : Pc P} {id : SessionId} (h : pc.serial = some id) :
    pc.holds = some id := by
  cases hc : pc.creating with
  | none => simp [holds, hc, h]
  | some j =>
    have hn := creating_serial hc
    rw [hn] at h
    cases h

theorem holds_create {call : CreateCall} {stage : CreateStage P} {id : SessionId}
    (h : (Pc.create call stage).holds = some id) : call.id = id := by
  cases stage <;> first | exact Option.some.inj h | cases h

theorem holds_reload {j : SessionId} {batch : Option Batch} {stage : ReloadStage P}
    {id : SessionId} (h : (Pc.reload j batch stage).holds = some id) : j = id := by
  cases stage <;> first | exact Option.some.inj h | cases h

theorem holds_teardown {kind : TeardownKind} {j : SessionId} {stage : TeardownStage P}
    {id : SessionId} (h : (Pc.teardown kind j stage).holds = some id) : j = id := by
  cases stage <;> first | exact Option.some.inj h | cases h

end Pc

/-- The call has returned or was aborted. -/
def Pc.over {P : Type} : Pc P → Bool
  | .absent | .create _ (.done _) | .reloadAnswer _ | .reloadNotFound | .teardown _ _ (.done _)
  | .shutdownAll .done | .listAnswer _ | .returned | .aborted => true
  | _ => false

namespace Proofs

variable {P : Type} {m : SessionManager P} {t : TaskId} {s s' : State P} {pc pc' : Pc P}
  {id : SessionId}

/-- The id is in use and its `create` call is over. -/
def Born (s : State P) (id : SessionId) : Prop :=
  id ∈ s.used ∧ ∀ t, (s.tasks t).creating ≠ some id

/-- At most one call works on a session, and the ids in the registry and in the
hands of calls are those of sessions that were created. -/
structure Exclusive (s : State P) : Prop where
  absent : ∀ t, s.nextTask ≤ t → s.tasks t = .absent
  unique : ∀ t u id, (s.tasks t).holds = some id → (s.tasks u).holds = some id → t = u
  used : ∀ t id, (s.tasks t).creating = some id → id ∈ s.used
  registered : ∀ id, (s.sessions.get id).isSome = true → Born s id
  seen : ∀ t id, id ∈ (s.tasks t).seen → Born s id

theorem exclusive_init : Exclusive (State.init : State P) where
  absent _ _ := rfl
  unique _ _ _ h := by cases h
  used _ _ h := by cases h
  registered _ h := by cases h
  seen _ _ h := by cases h

theorem move_calls (h : Move m t s pc s' pc') :
    s'.tasks = s.tasks ∧ s'.nextTask = s.nextTask ∧ s'.used = s.used := by
  cases h with
  | create call h => cases h <;> exact ⟨rfl, rfl, rfl⟩
  | reload id batch h => cases h <;> exact ⟨rfl, rfl, rfl⟩
  | teardown kind id h => cases h <;> exact ⟨rfl, rfl, rfl⟩
  | sweep h => cases h <;> exact ⟨rfl, rfl, rfl⟩
  | _ => exact ⟨rfl, rfl, rfl⟩

/-- Where a reload is before and after its work on one session. -/
inductive Between : Pc P → Prop where
  | notFound : Between .reloadNotFound
  | answer (results : List SessionReloadResult) : Between (.reloadAnswer results)
  | lookup (id : SessionId) (batch : Option Batch) : Between (.reload id batch .lookup)

theorem after_reload_between (batch : Option Batch) (result : SessionReloadResult) :
    Between (SessionManager.afterReload batch result : Pc P) := by
  unfold SessionManager.afterReload
  cases batch with
  | none => exact .answer _
  | some batch =>
    dsimp only
    split
    · exact .answer _
    · exact .lookup _ _

theorem reload_lookup_between (batch : Option Batch) (hs : s.sessions.get id = none) :
    Between (SessionManager.reloadLookup id batch s) := by
  unfold SessionManager.reloadLookup
  rw [if_neg (by simp [SortedMap.contains, hs])]
  cases batch with
  | none => exact .notFound
  | some batch => exact after_reload_between _ _

theorem reload_all_between : Between (SessionManager.reloadAllSnapshot s) := by
  unfold SessionManager.reloadAllSnapshot
  dsimp only
  split
  · exact .answer _
  · exact .lookup _ _

/-- A call that is on its way was on its way before the move. -/
theorem move_back (h : Move m t s pc s' pc') :
    (∀ {call stage'}, pc' = .create call stage' →
      ∃ stage, pc = .create call stage ∧ CreateMove m s call stage s' stage') ∧
    (∀ {kind id stage'}, pc' = .teardown kind id stage' →
      ∃ stage, pc = .teardown kind id stage ∧ TeardownMove t s kind id stage s' stage') ∧
    ∀ {stage'}, pc' = .shutdownAll stage' →
      ∃ stage, pc = .shutdownAll stage ∧ SweepMove t s stage s' stage' := by
  have hnone : Between pc' → (∀ {call stage'}, pc' ≠ .create call stage') ∧
      (∀ {kind id stage'}, pc' ≠ .teardown kind id stage') ∧
        ∀ {stage'}, pc' ≠ .shutdownAll stage' := by
    intro hb
    cases hb <;> exact ⟨by rintro _ _ ⟨⟩, by rintro _ _ _ ⟨⟩, by rintro _ ⟨⟩⟩
  cases h with
  | create call h => exact ⟨by rintro _ _ ⟨⟩; exact ⟨_, rfl, h⟩, by rintro _ _ _ ⟨⟩, by rintro _ ⟨⟩⟩
  | teardown kind id h =>
    exact ⟨by rintro _ _ ⟨⟩, by rintro _ _ _ ⟨⟩; exact ⟨_, rfl, h⟩, by rintro _ ⟨⟩⟩
  | sweep h => exact ⟨by rintro _ _ ⟨⟩, by rintro _ _ _ ⟨⟩, by rintro _ ⟨⟩; exact ⟨_, rfl, h⟩⟩
  | unknown id batch hs =>
    have ⟨hc, ht, hw⟩ := hnone (reload_lookup_between batch hs)
    exact ⟨fun hp => absurd hp hc, fun hp => absurd hp ht, fun hp => absurd hp hw⟩
  | reloadReturned id batch result =>
    have ⟨hc, ht, hw⟩ := hnone (after_reload_between batch result)
    exact ⟨fun hp => absurd hp hc, fun hp => absurd hp ht, fun hp => absurd hp hw⟩
  | reloadAll =>
    have ⟨hc, ht, hw⟩ := hnone reload_all_between
    exact ⟨fun hp => absurd hp hc, fun hp => absurd hp ht, fun hp => absurd hp hw⟩
  | _ => exact ⟨by rintro _ _ ⟨⟩, by rintro _ _ _ ⟨⟩, by rintro _ ⟨⟩⟩

theorem Between.creating (h : Between pc) : pc.creating = none := by cases h <;> rfl

theorem Between.serial (h : Between pc) : pc.serial = none := by cases h <;> rfl

theorem Between.seen (h : Between pc) : pc.seen = [] := by cases h <;> rfl

theorem move_creating (h : Move m t s pc s' pc') (hc : pc'.creating = some id) :
    pc.creating = some id := by
  cases h with
  | create call h =>
    cases h with
    | refused | released | registered | dropped => cases hc
    | reserved | failed | started | late => exact hc
  | unknown j batch hs => simp [(reload_lookup_between batch hs).creating] at hc
  | reloadReturned j batch result => simp [(after_reload_between batch result).creating] at hc
  | reloadAll => simp [reload_all_between.creating] at hc
  | _ => cases hc

theorem move_serial (h : Move m t s pc s' pc') (hc : pc'.serial = some id) :
    pc.serial = some id ∨ s.serialFree id = true ∧ id ∈ pc.seen ∧ s' = s := by
  cases h with
  | unknown j batch hs => simp [(reload_lookup_between batch hs).serial] at hc
  | reloadReturned j batch result => simp [(after_reload_between batch result).serial] at hc
  | reloadAll => simp [reload_all_between.serial] at hc
  | locked j batch hfree =>
    cases hc
    exact Or.inr ⟨hfree, List.mem_singleton_self _, rfl⟩
  | reload j batch h => cases h <;> exact Or.inl hc
  | teardown kind j h =>
    cases h with
    | locked hfree =>
      cases hc
      exact Or.inr ⟨hfree, List.mem_singleton_self _, rfl⟩
    | unknown | found | gone | forgotten | late | entryGone | counted => cases hc
    | claimed | stopping | drained | removed => exact Or.inl hc
  | sweep h =>
    cases h with
    | locked j ids runtimes count hfree =>
      cases hc
      exact Or.inr ⟨hfree, List.mem_cons_self, rfl⟩
    | _ => cases hc
  | _ => cases hc

theorem move_seen (h : Move m t s pc s' pc') (hc : id ∈ pc'.seen) :
    id ∈ pc.seen ∨ (s.sessions.get id).isSome = true := by
  cases h with
  | create call h => cases hc
  | unknown j batch hs => simp [(reload_lookup_between batch hs).seen] at hc
  | found j batch hs =>
    cases List.mem_singleton.mp hc
    exact Or.inr hs
  | locked j batch hfree => exact Or.inl hc
  | reload j batch h => cases h <;> exact Or.inl hc
  | reloadReturned j batch result => simp [(after_reload_between batch result).seen] at hc
  | reloadAll => simp [reload_all_between.seen] at hc
  | teardown kind j h =>
    cases h with
    | found hs =>
      cases List.mem_singleton.mp hc
      exact Or.inr hs
    | unknown | gone | forgotten | late | entryGone | counted => cases hc
    | locked | claimed | stopping | drained | removed => exact Or.inl hc
  | sweep h =>
    cases h with
    | begun =>
      obtain ⟨session, hs⟩ := SortedMap.mem_keys.mp hc
      exact Or.inr (by rw [hs]; rfl)
    | skipped j ids runtimes count hs => exact Or.inl (List.mem_cons_of_mem _ hc)
    | gone j ids runtimes count hs => exact Or.inl (List.mem_cons_of_mem _ hc)
    | claimed j ids runtimes count session hs => exact Or.inl (List.mem_cons_of_mem _ hc)
    | found | locked => exact Or.inl hc
    | _ => cases hc
  | rejected | listed => cases hc

/-- A write to an entry that is there registers nothing. -/
theorem present_insert {k : SessionId} {old new : ManagedSession P}
    (hk : s.sessions.get k = some old)
    (h : ((s.sessions.insert k new).get id).isSome = true) :
    (s.sessions.get id).isSome = true := by
  by_cases hid : id = k
  · rw [hid, hk]
    rfl
  · rwa [SortedMap.get_insert_ne _ hid] at h

/-- Only `create` registers a session, with its last step under the lock. -/
theorem move_registered (h : Move m t s pc s' pc')
    (hs : (s'.sessions.get id).isSome = true) :
    (s.sessions.get id).isSome = true ∨
      pc.creating = some id ∧ pc'.creating = none ∧ s.acceptingSessions = true := by
  cases h with
  | create call h =>
    cases h with
    | registered runtime ha =>
      by_cases hid : id = call.id
      · exact Or.inr ⟨congrArg some hid.symm, rfl, ha⟩
      · left
        rwa [← SortedMap.get_insert_ne s.sessions hid (m.createdSession call runtime)]
    | _ => exact Or.inl hs
  | reload j batch h =>
    cases h with
    | turnedDown session hj => exact Or.inl (present_insert hj hs)
    | begun session hj => exact Or.inl (present_insert hj hs)
    | sameCommitted target ha session hj => exact Or.inl (present_insert hj hs)
    | limited target session hj => exact Or.inl (present_insert hj hs)
    | withinLimits target ha session hj => exact Or.inl (present_insert hj hs)
    | vacant target options replacement session hj => exact Or.inl (present_insert hj hs)
    | switched target options replacement ha session hj => exact Or.inl (present_insert hj hs)
    | retired target options oldRuntime session hj => exact Or.inl (present_insert hj hs)
    | _ => exact Or.inl hs
  | teardown kind j h =>
    cases h with
    | forgotten g hk session hj => exact Or.inl (present_insert hj hs)
    | claimed session hj => exact Or.inl (present_insert hj hs)
    | removed session hj =>
      by_cases hid : id = j
      · simp [SessionManager.removeEntry, hid] at hs
      · left
        simpa [SessionManager.removeEntry, hid] using hs
    | _ => exact Or.inl hs
  | sweep h =>
    cases h with
    | claimed j ids runtimes count session hj => exact Or.inl (present_insert hj hs)
    | cleared count => simp [SessionManager.sweepClear] at hs
    | _ => exact Or.inl hs
  | listed answer =>
    left
    simpa [SessionManager.listSessions, SortedMap.get_map_values] using hs
  | _ => exact Or.inl hs

theorem serial_free_none (h : Exclusive s) (hfree : s.serialFree id = true) (u : TaskId) :
    (s.tasks u).serial ≠ some id := by
  by_cases hu : u < s.nextTask
  · have hall := List.all_eq_true.mp hfree u (List.mem_range.mpr hu)
    simpa using hall
  · rw [h.absent u (Nat.le_of_not_lt hu)]
    simp [Pc.serial]

/-- Before a call starts to work on a session, nobody does. -/
theorem holds_none (h : Exclusive s) (hfree : s.serialFree id = true) (hb : Born s id)
    (u : TaskId) : (s.tasks u).holds ≠ some id := by
  intro hu
  rcases Pc.holds_cases hu with hc | hc
  · exact hb.2 u hc
  · exact serial_free_none h hfree u hc

theorem move_holds (hx : Exclusive s) (h : Move m t s (s.tasks t) s' pc')
    (hc : pc'.holds = some id) :
    (s.tasks t).holds = some id ∨
      (∀ u, (s.tasks u).holds ≠ some id) ∧ Born s id ∧ s' = s := by
  rcases Pc.holds_cases hc with hc | hc
  · exact Or.inl (Pc.holds_of_creating (move_creating h hc))
  · rcases move_serial h hc with hc | ⟨hfree, hseen, hs⟩
    · exact Or.inl (Pc.holds_of_serial hc)
    · exact Or.inr ⟨holds_none hx hfree (hx.seen t id hseen), hx.seen t id hseen, hs⟩

/-- Only calls that exist move. -/
theorem move_live (hx : Exclusive s) (h : Move m t s (s.tasks t) s' pc') : t < s.nextTask := by
  by_contra ht
  rw [hx.absent t (Nat.le_of_not_lt ht)] at h
  cases h

/-- One task moves on, and gains at most what nobody had. -/
theorem Exclusive.goto (h : Exclusive s) (hlive : t < s.nextTask) (htasks : s'.tasks = s.tasks)
    (hnext : s'.nextTask = s.nextTask) (hused : s'.used = s.used)
    (hcreating : ∀ id, pc'.creating = some id → (s.tasks t).creating = some id)
    (hholds : ∀ id, pc'.holds = some id →
      (s.tasks t).holds = some id ∨ ∀ u, (s.tasks u).holds ≠ some id)
    (hseen : ∀ id, id ∈ pc'.seen → Born s id)
    (hregistered : ∀ id, (s'.sessions.get id).isSome = true →
      (s.sessions.get id).isSome = true ∨ (s.tasks t).creating = some id ∧ pc'.creating = none) :
    Exclusive (s'.goto t pc') := by
  have hself : (s'.goto t pc').tasks t = pc' := Function.update_self ..
  have hother : ∀ u, u ≠ t → (s'.goto t pc').tasks u = s.tasks u := fun u hu => by
    rw [← htasks]
    exact Function.update_of_ne hu _ _
  have hborn : ∀ {id}, Born s id → Born (s'.goto t pc') id := by
    intro id hb
    refine ⟨by simpa [State.goto, hused] using hb.1, fun u hu => ?_⟩
    by_cases hut : u = t
    · rw [hut, hself] at hu
      exact hb.2 t (hcreating id hu)
    · rw [hother u hut] at hu
      exact hb.2 u hu
  refine ⟨?_, ?_, ?_, ?_, ?_⟩
  · intro u hu
    simp only [State.goto, hnext] at hu
    rw [hother u (Nat.ne_of_gt (Nat.lt_of_lt_of_le hlive hu))]
    exact h.absent u hu
  · have hcross : ∀ v id, v ≠ t → pc'.holds = some id → (s.tasks v).holds = some id → t = v := by
      intro v id hvt ht hv
      rcases hholds id ht with hold | hnone
      · exact h.unique _ _ _ hold hv
      · exact absurd hv (hnone v)
    intro u v id hu hv
    by_cases hut : u = t <;> by_cases hvt : v = t
    · rw [hut, hvt]
    · rw [hut, hself] at hu
      rw [hother v hvt] at hv
      rw [hut, hcross v id hvt hu hv]
    · rw [hvt, hself] at hv
      rw [hother u hut] at hu
      rw [hvt, hcross u id hut hv hu]
    · rw [hother u hut] at hu
      rw [hother v hvt] at hv
      exact h.unique u v id hu hv
  · intro u id hu
    simp only [State.goto, hused]
    by_cases hut : u = t
    · rw [hut, hself] at hu
      exact h.used t id (hcreating id hu)
    · rw [hother u hut] at hu
      exact h.used u id hu
  · intro id hid
    rcases hregistered id hid with hs | ⟨hc, hc'⟩
    · exact hborn (h.registered id hs)
    · refine ⟨by simpa [State.goto, hused] using h.used t id hc, fun u hu => ?_⟩
      by_cases hut : u = t
      · rw [hut, hself, hc'] at hu
        cases hu
      · rw [hother u hut] at hu
        exact hut (h.unique _ _ _ (Pc.holds_of_creating hu) (Pc.holds_of_creating hc))
  · intro u id hu
    by_cases hut : u = t
    · rw [hut, hself] at hu
      exact hborn (hseen id hu)
    · rw [hother u hut] at hu
      exact hborn (h.seen u id hu)

theorem Exclusive.moved (h : Exclusive s) (hm : Move m t s (s.tasks t) s' pc') :
    Exclusive (s'.goto t pc') := by
  obtain ⟨htasks, hnext, hused⟩ := move_calls hm
  refine h.goto (move_live h hm) htasks hnext hused (fun id => move_creating hm) ?_ ?_ ?_
  · intro id hc
    exact (move_holds h hm hc).imp_right And.left
  · intro id hc
    rcases move_seen hm hc with hs | hs
    · exact h.seen t id hs
    · exact h.registered id hs
  · intro id hs
    exact (move_registered hm hs).imp_right (fun hc => ⟨hc.1, hc.2.1⟩)

/-- A state that differs in nothing that `Exclusive` looks at. -/
theorem Exclusive.same (h : Exclusive s) (htasks : s'.tasks = s.tasks)
    (hnext : s'.nextTask = s.nextTask) (hused : s'.used = s.used)
    (hs : s'.sessions = s.sessions) : Exclusive s' := by
  obtain ⟨ha, hun, hu, hr, hse⟩ := h
  refine ⟨?_, ?_, ?_, ?_, ?_⟩ <;> simp only [Born, htasks, hnext, hused, hs] <;> assumption

/-- A new call, which may be a `create` with an id that was not in use. -/
theorem Exclusive.spawn (h : Exclusive s) (used : Finset SessionId) (hsub : s.used ⊆ used)
    (hc : ∀ id, pc.creating = some id → id ∈ used ∧ id ∉ s.used) (hserial : pc.serial = none)
    (hseen : pc.seen = []) : Exclusive (({ s with used } : State P).spawn pc) := by
  have hself : (({ s with used } : State P).spawn pc).tasks s.nextTask = pc :=
    Function.update_self ..
  have hother : ∀ u, u ≠ s.nextTask →
      (({ s with used } : State P).spawn pc).tasks u = s.tasks u :=
    fun u hu => Function.update_of_ne hu _ _
  have hborn : ∀ {id}, Born s id → Born (({ s with used } : State P).spawn pc) id := by
    intro id hb
    refine ⟨hsub hb.1, fun u hu => ?_⟩
    by_cases hut : u = s.nextTask
    · rw [hut, hself] at hu
      exact (hc id hu).2 hb.1
    · rw [hother u hut] at hu
      exact hb.2 u hu
  have hnew : ∀ {id} u, pc.holds = some id → (s.tasks u).holds ≠ some id := by
    intro id u hp hu
    have hid : id ∉ s.used := by
      rcases Pc.holds_cases hp with hcr | hsr
      · exact (hc id hcr).2
      · simp [hserial] at hsr
    rcases Pc.holds_cases hu with hcr | hsr
    · exact hid (h.used u id hcr)
    · exact hid (h.seen u id (Pc.seen_of_serial hsr)).1
  refine ⟨?_, ?_, ?_, fun id hid => hborn (h.registered id hid), ?_⟩
  · intro u hu
    have hlt : s.nextTask < u := hu
    rw [hother u (Nat.ne_of_gt hlt)]
    exact h.absent u (Nat.le_of_lt hlt)
  · intro u v id hu hv
    by_cases hut : u = s.nextTask <;> by_cases hvt : v = s.nextTask
    · rw [hut, hvt]
    · rw [hut, hself] at hu
      rw [hother v hvt] at hv
      exact absurd hv (hnew v hu)
    · rw [hvt, hself] at hv
      rw [hother u hut] at hu
      exact absurd hu (hnew u hv)
    · rw [hother u hut] at hu
      rw [hother v hvt] at hv
      exact h.unique u v id hu hv
  · intro u id hu
    by_cases hut : u = s.nextTask
    · rw [hut, hself] at hu
      exact (hc id hu).1
    · rw [hother u hut] at hu
      exact hsub (h.used u id hu)
  · intro u id hu
    by_cases hut : u = s.nextTask
    · rw [hut, hself, hseen] at hu
      cases hu
    · rw [hother u hut] at hu
      exact hborn (h.seen u id hu)

theorem Initial.creating (h : Initial pc) : pc.creating = none := by cases h <;> rfl

theorem Initial.serial (h : Initial pc) : pc.serial = none := by cases h <;> rfl

theorem Initial.seen (h : Initial pc) : pc.seen = [] := by cases h <;> rfl

theorem Exclusive.step (h : Exclusive s) (ho : Outcome m s s') : Exclusive s' := by
  cases ho with
  | create call hid =>
    refine h.spawn _ (Finset.subset_insert _ _) ?_ rfl rfl
    rintro id ⟨⟩
    exact ⟨Finset.mem_insert_self _ _, hid⟩
  | call hpc =>
    refine h.spawn s.used (Finset.Subset.refl _) ?_ hpc.serial hpc.seen
    simp [hpc.creating]
  | delivered event events he =>
    have h' : Exclusive ({ s with events } : State P) := h.same rfl rfl rfl rfl
    exact h'.spawn s.used (Finset.Subset.refl _) (fun id hid => by cases hid) rfl rfl
  | moved t hm => exact h.moved hm
  | expired t => exact h.same rfl rfl rfl rfl
  | aborted t ha hb =>
    have hlive : t < s.nextTask := by
      by_contra ht
      rw [h.absent t (Nat.le_of_not_lt ht)] at hb
      cases hb
    exact h.goto hlive rfl rfl rfl (fun id hid => by cases hid) (fun id hid => by cases hid)
      (fun id hid => by cases hid) (fun id hid => Or.inl hid)
  | runtime r hr cell permits sent hc => exact h.same rfl rfl rfl rfl

theorem exclusive_reach [DecidableEq P] (h : Reach m.step State.init s) : Exclusive s :=
  h.invariant exclusive_init (fun _ hi hs => hi.step (step_outcome hs))

/-- A session that is being created is not registered. -/
theorem unregistered (hx : Exclusive s) {call : CreateCall} {stage : CreateStage P}
    (hpc : s.tasks t = .create call stage) (hh : (s.tasks t).holds = some id) :
    s.sessions.get id = none := by
  by_contra hn
  have hborn := hx.registered id (by simpa [Option.isSome_iff_ne_none] using hn)
  rcases Pc.holds_cases hh with hc | hc
  · exact hborn.2 t hc
  · rw [hpc] at hc
    cases hc

theorem over_ended (h : pc.over = true) : ¬Move m t s pc s' pc' := by
  intro hm
  cases hm with
  | create call hm => cases hm <;> cases h
  | reload j batch hm => cases hm <;> cases h
  | teardown kind j hm => cases hm <;> cases h
  | sweep hm => cases hm <;> cases h
  | _ => cases h

theorem over_abortable (h : pc.over = true) : pc.abortable = false := by
  cases pc with
  | create call stage => cases stage <;> first | rfl | cases h
  | teardown kind j stage => cases kind <;> cases stage <;> first | rfl | cases h
  | reload j batch stage => cases h
  | reloadAll => cases h
  | list => cases h
  | _ => rfl

/-- A call that is over stays where it is. -/
theorem over_stays (ho : Outcome m s s') (hne : t ≠ s.nextTask)
    (h : (s.tasks t).over = true) : s'.tasks t = s.tasks t := by
  cases ho with
  | create call hid => exact Function.update_of_ne hne _ _
  | call hpc => exact Function.update_of_ne hne _ _
  | delivered event events he => exact Function.update_of_ne hne _ _
  | moved u hm =>
    have hut : t ≠ u := by
      rintro rfl
      exact over_ended h hm
    simp only [State.goto, Function.update_of_ne hut, (move_calls hm).1]
  | expired u => rfl
  | aborted u ha hb =>
    have hut : t ≠ u := by
      rintro rfl
      rw [over_abortable h] at hb
      cases hb
    exact Function.update_of_ne hut _ _
  | runtime r hr cell permits sent hc hb => rfl

/-- A call that is in progress was so before, or it is new. -/
theorem live_before (ho : Outcome m s s') (h : (s'.tasks t).over = false) :
    (s.tasks t).over = false ∨ t = s.nextTask ∧ s'.nextTask = s.nextTask + 1 := by
  have hspawn : ∀ {u : State P} {pc : Pc P}, u.tasks = s.tasks → u.nextTask = s.nextTask →
      ((u.spawn pc).tasks t).over = false → (s.tasks t).over = false ∨
        t = s.nextTask ∧ (u.spawn pc).nextTask = s.nextTask + 1 := by
    intro u pc htasks hnext hover
    by_cases ht : t = u.nextTask
    · exact Or.inr ⟨ht.trans hnext, congrArg (· + 1) hnext⟩
    · left
      simpa only [State.spawn, State.goto, Function.update_of_ne ht, htasks] using hover
  cases ho with
  | create call hid => exact hspawn rfl rfl h
  | call hpc => exact hspawn rfl rfl h
  | delivered event events he => exact hspawn rfl rfl h
  | moved u hm =>
    left
    by_cases hut : t = u
    · subst hut
      cases hover : (s.tasks t).over with
      | false => rfl
      | true => exact absurd hm (over_ended hover)
    · simpa only [State.goto, Function.update_of_ne hut, (move_calls hm).1] using h
  | expired u => exact Or.inl h
  | aborted u ha hb =>
    left
    by_cases hut : t = u
    · subst hut
      simp only [State.goto, Function.update_self] at h
      cases h
    · simp only [State.goto, Function.update_of_ne hut] at h
      exact h
  | runtime r hr cell permits sent hc hb => exact Or.inl h

end Proofs

end Baffle
