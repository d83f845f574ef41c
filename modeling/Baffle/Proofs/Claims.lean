import Baffle.Proofs.Reloads

namespace Baffle.Proofs

variable {P : Type} {m : SessionManager P} {t : TaskId} {s s' : State P} {pc pc' : Pc P}
  {id : SessionId}

/-- The state of a session that is registered. -/
def lifecycle (s : State P) (id : SessionId) : Option SessionLifecycle :=
  (s.sessions.get id).map (fun session => session.info.state)

theorem lifecycle_some {session : ManagedSession P} (h : s.sessions.get id = some session) :
    lifecycle s id = some session.info.state := by
  rw [lifecycle, h]
  rfl

theorem lifecycle_none : lifecycle s id = none ↔ s.sessions.get id = none := by
  simp [lifecycle]

theorem running_iff : Running s id ↔ lifecycle s id = some .running := by
  simp [Running, lifecycle]

/-- The two kinds of calls that take the runtimes of a session. -/
inductive Takes (s : State P) : Pc P → Pc P → SessionId → ManagedSession P → Prop where
  | teardown (kind : TeardownKind) (id : SessionId) (session : ManagedSession P)
      (hlive : session.info.state = .stopping → session.runtime ≠ none) :
      Takes s (.teardown kind id .claim) (.teardown kind id (.shutdown session.runtimes)) id session
  | sweep (id : SessionId) (ids : List SessionId) (runtimes : List (ProxyRuntime P)) (count : Nat)
      (session : ManagedSession P) :
      Takes s (.shutdownAll (.claim id ids runtimes count))
        (.shutdownAll (.next ids (runtimes ++ session.runtimes) (count + 1))) id session

/-- What a move does to one entry of the registry and to the record of its end. -/
inductive EntryChange (t : TaskId) (s : State P) (pc : Pc P) (s' : State P) (pc' : Pc P)
    (id : SessionId) : Prop where
  | still (hl : lifecycle s' id = lifecycle s id) (hc : s'.claimedBy id = s.claimedBy id)
      (hr : s'.removedBy id = s.removedBy id)
  | registered (call : CreateCall) (runtime : ProxyRuntime P)
      (hpc : pc = .create call (.register runtime)) (hid : call.id = id)
      (hl : lifecycle s' id = some .running) (hc : s'.claimedBy id = s.claimedBy id)
      (hr : s'.removedBy id = s.removedBy id)
  | taken (session : ManagedSession P) (hs : s.sessions.get id = some session)
      (hpc : Takes s pc pc' id session) (hl : lifecycle s' id = some .stopping)
      (hc : s'.claimedBy id = (s.claimedBy id).or (some t))
      (hr : s'.removedBy id = s.removedBy id)
  | removed (hs : (s.sessions.get id).isSome = true) (hl : lifecycle s' id = none)
      (hpc : (∃ kind, pc = .teardown kind id .finish) ∨ ∃ count, pc = .shutdownAll (.clear count))
      (hc : s'.claimedBy id = s.claimedBy id) (hr : s'.removedBy id = t :: s.removedBy id)

/-- A write that leaves the state of the session. -/
theorem lifecycle_write {k : SessionId} {old new : ManagedSession P}
    (hk : s.sessions.get k = some old) (hget : s'.sessions = s.sessions.insert k new)
    (hstate : new.info.state = old.info.state) : lifecycle s' id = lifecycle s id := by
  simp only [lifecycle, hget]
  by_cases hid : id = k
  · rw [hid, SortedMap.get_insert_self, hk, Option.map_some, Option.map_some, hstate]
  · rw [SortedMap.get_insert_ne _ hid]

theorem entry_write {k : SessionId} {old new : ManagedSession P}
    (hk : s.sessions.get k = some old) (hget : s'.sessions = s.sessions.insert k new)
    (hstate : new.info.state = old.info.state) (hc : s'.claimedBy = s.claimedBy)
    (hr : s'.removedBy = s.removedBy) : EntryChange t s pc s' pc' id :=
  .still (lifecycle_write hk hget hstate) (by rw [hc]) (by rw [hr])

theorem entry_taken {k : SessionId} {session : ManagedSession P}
    (hk : s.sessions.get k = some session) (hpc : Takes s pc pc' k session) :
    EntryChange t s pc (SessionManager.takeRuntimes t k session s) pc' id := by
  by_cases hid : id = k
  · subst hid
    refine .taken session hk hpc ?_ (Function.update_self ..) rfl
    simp [lifecycle, SessionManager.takeRuntimes, State.setSession, ManagedSession.stopped]
  · refine .still ?_ (Function.update_of_ne hid _ _) rfl
    simp [lifecycle, SessionManager.takeRuntimes, State.setSession,
      SortedMap.get_insert_ne _ hid]

theorem move_change (h : Move m t s pc s' pc') (id : SessionId) :
    EntryChange t s pc s' pc' id := by
  cases h with
  | create call h =>
    cases h with
    | registered runtime ha =>
      by_cases hid : id = call.id
      · refine .registered call runtime rfl hid.symm ?_ rfl rfl
        simp [lifecycle, hid, State.setSession, SessionManager.createdSession]
      · refine .still ?_ rfl rfl
        simp [lifecycle, State.setSession, State.setCell, SortedMap.get_insert_ne _ hid]
    | _ => exact .still rfl rfl rfl
  | reload j batch h =>
    cases h with
    | turnedDown session hj | begun session hj => exact entry_write hj rfl rfl rfl rfl
    | sameCommitted target ha session hj => exact entry_write hj rfl rfl rfl rfl
    | limited target session hj => exact entry_write hj rfl rfl rfl rfl
    | withinLimits target ha session hj => exact entry_write hj rfl rfl rfl rfl
    | vacant target options replacement session hj => exact entry_write hj rfl rfl rfl rfl
    | switched target options replacement ha session hj => exact entry_write hj rfl rfl rfl rfl
    | retired target options oldRuntime session hj => exact entry_write hj rfl rfl rfl rfl
    | _ => exact .still rfl rfl rfl
  | teardown kind j h =>
    cases h with
    | forgotten g hk session hj => exact entry_write hj rfl rfl rfl rfl
    | claimed session hj hk hlive => exact entry_taken hj (.teardown kind j session hlive)
    | removed session hj =>
      by_cases hid : id = j
      · subst hid
        refine .removed (by rw [hj]; rfl) ?_ (Or.inl ⟨kind, rfl⟩) rfl (Function.update_self ..)
        simp [lifecycle, SessionManager.removeEntry]
      · refine .still ?_ rfl (Function.update_of_ne hid _ _)
        simp [lifecycle, SessionManager.removeEntry, SortedMap.get_erase_ne _ hid]
    | _ => exact .still rfl rfl rfl
  | sweep h =>
    cases h with
    | claimed j ids runtimes count session hj =>
      exact entry_taken hj (.sweep j ids runtimes count session)
    | cleared count =>
      by_cases hs : s.sessions.contains id = true
      · exact .removed hs rfl (Or.inr ⟨count, rfl⟩) rfl (by simp [SessionManager.sweepClear, hs])
      · refine .still ?_ rfl (by simp [SessionManager.sweepClear, hs])
        rw [lifecycle_none.mpr (contains_false hs)]
        rfl
    | _ => exact .still rfl rfl rfl
  | listed answer =>
    refine .still ?_ rfl rfl
    simp only [lifecycle, SessionManager.listSessions, SortedMap.get_map_values, Option.map_map]
    rfl
  | _ => exact .still rfl rfl rfl

theorem Born.step (hb : Born s id) (ho : Outcome m s s') : Born s' id := by
  cases ho with
  | create call hid =>
    refine ⟨Finset.mem_insert_of_mem hb.1, fun u hu => ?_⟩
    rcases spawn_tasks u with hs | hs <;> rw [hs] at hu
    · exact hb.2 u hu
    · cases hu
      exact hid hb.1
  | call hpc =>
    refine ⟨hb.1, fun u hu => ?_⟩
    rcases spawn_tasks u with hs | hs <;> rw [hs] at hu
    · exact hb.2 u hu
    · simp [hpc.creating] at hu
  | delivered event events he =>
    refine ⟨hb.1, fun u hu => ?_⟩
    rcases spawn_tasks u with hs | hs <;> rw [hs] at hu
    · exact hb.2 u hu
    · cases hu
  | moved t hm =>
    refine ⟨by simpa [State.goto, (move_calls hm).2.2] using hb.1, fun u hu => ?_⟩
    rcases goto_tasks u with hs | hs <;> rw [hs] at hu
    · rw [(move_calls hm).1] at hu
      exact hb.2 u hu
    · exact hb.2 t (move_creating hm hu)
  | expired t => exact hb
  | aborted t ha hb' =>
    refine ⟨hb.1, fun u hu => ?_⟩
    rcases goto_tasks u with hs | hs <;> rw [hs] at hu
    · exact hb.2 u hu
    · cases hu
  | runtime r hr cell permits sent hc => exact hb

/-- A session is claimed when it is stopped, and its entry is removed once. -/
structure Claimed (s : State P) (id : SessionId) : Prop where
  running : lifecycle s id = some .running → s.claimedBy id = none
  stopping : lifecycle s id = some .stopping → (s.claimedBy id).isSome = true
  born : (s.claimedBy id).isSome = true → Born s id
  present : (lifecycle s id).isSome = true → s.removedBy id = []
  unclaimed : s.claimedBy id = none → s.removedBy id = []
  removed : (s.claimedBy id).isSome = true → lifecycle s id = none → ∃ u, s.removedBy id = [u]

theorem claimed_init (id : SessionId) : Claimed (State.init : State P) id where
  running h := by cases h
  stopping h := by cases h
  born h := by cases h
  present h := by cases h
  unclaimed _ := rfl
  removed h := by cases h

theorem Claimed.same (h : Claimed s id) (hl : lifecycle s' id = lifecycle s id)
    (hc : s'.claimedBy id = s.claimedBy id) (hr : s'.removedBy id = s.removedBy id)
    (hb : Born s id → Born s' id) : Claimed s' id where
  running h' := by
    rw [hl] at h'
    rw [hc]
    exact h.running h'
  stopping h' := by
    rw [hl] at h'
    rw [hc]
    exact h.stopping h'
  born h' := hb (h.born (hc ▸ h'))
  present h' := by
    rw [hl] at h'
    rw [hr]
    exact h.present h'
  unclaimed h' := by
    rw [hr]
    exact h.unclaimed (hc ▸ h')
  removed h1 h2 := by
    rw [hl] at h2
    rw [hr]
    exact h.removed (hc ▸ h1) h2

/-- The calls that remove entries only find sessions that are stopping. -/
theorem removal_stopping [DecidableEq P] (hreach : Reach m.step State.init s)
    (hpc : (∃ kind, s.tasks t = .teardown kind id .finish) ∨
      ∃ count, s.tasks t = .shutdownAll (.clear count))
    {session : ManagedSession P} (hs : s.sessions.get id = some session) :
    session.info.state = .stopping := by
  rcases hpc with ⟨kind, hpc⟩ | ⟨count, hpc⟩
  · have hh : (s.tasks t).holds = some id := by
      rw [hpc]
      rfl
    have hw := working_reach hreach hh
    rw [hpc] at hw
    exact hw session hs
  · cases hstate : session.info.state with
    | stopping => rfl
    | running =>
      have hswept := (swept_reach hreach t _ [] hpc rfl).2 id ⟨session, hs, hstate⟩
      cases hswept

theorem Claimed.moved [DecidableEq P] (hreach : Reach m.step State.init s)
    (hm : Move m t s (s.tasks t) s' pc') (h : Claimed s id) : Claimed (s'.goto t pc') id := by
  have hx := exclusive_reach hreach
  have ho : Outcome m s (s'.goto t pc') := .moved t hm
  have hborn : Born s id → Born (s'.goto t pc') id := fun hb => hb.step ho
  have hlife : lifecycle (s'.goto t pc') id = lifecycle s' id := rfl
  cases move_change hm id with
  | still hl hc hr => exact h.same hl hc hr hborn
  | registered call runtime hpc hid hl hc hr =>
    have hunclaimed : s.claimedBy id = none := by
      cases hcl : s.claimedBy id with
      | none => rfl
      | some u =>
        refine absurd ?_ ((h.born (by rw [hcl]; rfl)).2 t)
        rw [hpc, ← hid]
        rfl
    refine ⟨fun _ => hc.trans hunclaimed, fun h' => ?_, fun h' => ?_, fun _ => ?_, fun _ => ?_,
      fun _ h' => ?_⟩
    · rw [hlife, hl] at h'
      cases h'
    · rw [show (s'.goto t pc').claimedBy id = none from hc.trans hunclaimed] at h'
      cases h'
    · exact hr.trans (h.unclaimed hunclaimed)
    · exact hr.trans (h.unclaimed hunclaimed)
    · rw [hlife, hl] at h'
      cases h'
  | taken session hs hpc hl hc hr =>
    have hpresent := h.present (by rw [lifecycle_some hs]; rfl)
    have hsome : ((s'.goto t pc').claimedBy id).isSome = true := by
      rw [show (s'.goto t pc').claimedBy id = (s.claimedBy id).or (some t) from hc]
      cases s.claimedBy id <;> rfl
    refine ⟨fun h' => ?_, fun _ => hsome, fun _ => ?_, fun _ => hr.trans hpresent,
      fun _ => hr.trans hpresent, fun _ h' => ?_⟩
    · rw [hlife, hl] at h'
      cases h'
    · exact hborn (hx.registered id (by rw [hs]; rfl))
    · rw [hlife, hl] at h'
      cases h'
  | removed hs hl hpc hc hr =>
    obtain ⟨session, hs⟩ := Option.isSome_iff_exists.mp hs
    have hstop := removal_stopping hreach hpc hs
    have hpresent := h.present (by rw [lifecycle_some hs]; rfl)
    have hclaimed := h.stopping (by rw [lifecycle_some hs, hstop])
    refine ⟨fun h' => ?_, fun h' => ?_, fun h' => ?_, fun h' => ?_, fun h' => ?_, fun _ _ => ?_⟩
    · rw [hlife, hl] at h'
      cases h'
    · rw [hlife, hl] at h'
      cases h'
    · exact hborn (h.born hclaimed)
    · rw [hlife, hl] at h'
      cases h'
    · rw [← hc, show s'.claimedBy id = none from h'] at hclaimed
      cases hclaimed
    · exact ⟨t, by rw [← hpresent]; exact hr⟩

theorem Claimed.step [DecidableEq P] (hreach : Reach m.step State.init s) (h : Claimed s id)
    (ho : Outcome m s s') : Claimed s' id := by
  have hborn : Born s id → Born s' id := fun hb => hb.step ho
  cases ho with
  | moved t hm => exact h.moved hreach hm
  | create | call | delivered | expired | aborted | runtime => exact h.same rfl rfl rfl hborn

def AllClaimed (s : State P) : Prop := ∀ id, Claimed s id

theorem claimed_reach [DecidableEq P] (h : Reach m.step State.init s) : AllClaimed s :=
  h.invariant claimed_init (fun hr hi hs id => (hi id).step hr (step_outcome hs))

/-- A claim stays with the call that made it. -/
theorem claim_stays (ho : Outcome m s s') (hc : s.claimedBy id = some t) :
    s'.claimedBy id = some t := by
  cases ho with
  | moved u hm =>
    show _ = some t
    cases move_change hm id with
    | still hl hcl hr | registered call runtime hpc hid hl hcl hr | removed hs hl hpc hcl hr =>
      exact hcl.trans hc
    | taken session hs hpc hl hcl hr =>
      refine hcl.trans ?_
      rw [hc]
      rfl
  | create | call | delivered | expired | aborted | runtime => exact hc

/-- A session whose entry is gone is not registered again. -/
theorem gone_stays (ho : Outcome m s s') (hb : Born s id) (hs : s.sessions.get id = none) :
    s'.sessions.get id = none := by
  cases ho with
  | moved u hm =>
    rename_i s1 pc1
    show s1.sessions.get id = none
    by_contra hn
    rcases move_registered hm (Option.isSome_iff_ne_none.mpr hn) with hsome | ⟨hc, -⟩
    · rw [hs] at hsome
      cases hsome
    · exact hb.2 u hc
  | create | call | delivered | expired | aborted | runtime => exact hs

/-- Where the call is that has claimed a session. -/
def Claimant (s : State P) (id : SessionId) : Pc P → Prop
  | .teardown _ j stage => j = id ∧
    match stage with
    | .lookup | .lock | .claim => False
    | .shutdown _ | .draining _ | .finish => True
    | .decrement | .done _ => s.sessions.get id = none
  | .shutdownAll stage =>
    match stage with
    | .begin => False
    | .decrement _ | .done => s.sessions.get id = none
    | _ => True
  | .aborted => True
  | _ => False

theorem Claimant.gone (h : Claimant s id pc)
    (hs : s.sessions.get id = none → s'.sessions.get id = none) : Claimant s' id pc := by
  cases pc with
  | teardown kind j stage =>
    refine ⟨h.1, ?_⟩
    cases stage with
    | lookup | lock | claim => exact h.2
    | shutdown | draining | finish => trivial
    | decrement | done => exact hs h.2
  | shutdownAll stage =>
    cases stage with
    | begin => exact h
    | decrement | done => exact hs h
    | _ => trivial
  | aborted => trivial
  | _ => exact h

theorem Claimant.move (hm : Move m t s pc s' pc') (hb : Born s id) (h : Claimant s id pc) :
    Claimant s' id pc' := by
  cases hm with
  | teardown kind j hm =>
    obtain ⟨rfl, h⟩ := h
    cases hm with
    | unknown | found | locked | gone | forgotten | late | claimed => exact h.elim
    | stopping | drained => exact ⟨rfl, trivial⟩
    | entryGone hs => exact ⟨rfl, hs⟩
    | removed session hs =>
      exact ⟨rfl, by simp [SessionManager.removeEntry]⟩
    | counted => exact ⟨rfl, h⟩
  | sweep hm =>
    cases hm with
    | begun => exact h.elim
    | cleared count => exact SortedMap.get_empty _
    | counted | ended => exact h
    | _ => trivial
  | create call hm => exact h.elim
  | _ => exact h.elim

/-- A session is with the call that has claimed it until its entry is gone. -/
def Answered (s : State P) : Prop := ∀ id t, s.claimedBy id = some t → Claimant s id (s.tasks t)

theorem answered_init : Answered (State.init : State P) := fun _ _ h => by cases h

theorem Answered.step [DecidableEq P] (hreach : Reach m.step State.init s) (h : Answered s)
    (ho : Outcome m s s') : Answered s' := by
  have hx := exclusive_reach hreach
  have hborn : ∀ {id t}, s.claimedBy id = some t → Born s id := fun hc =>
    (claimed_reach hreach _).born (by rw [hc]; rfl)
  have hgone : ∀ {id t}, s.claimedBy id = some t → s.sessions.get id = none →
      s'.sessions.get id = none := fun hc => gone_stays ho (hborn hc)
  intro id t hc
  cases ho with
  | moved u hm =>
    rename_i s1 pc1
    have hcases : s.claimedBy id = some t ∨ u = t ∧ Claimant s1 id pc1 := by
      cases move_change hm id with
      | still hl hcl hr | registered call runtime hpc hid hl hcl hr | removed hs hl hpc hcl hr =>
        exact Or.inl (hcl.symm.trans hc)
      | taken session hs hpc hl hcl hr =>
        have hc : (s.claimedBy id).or (some u) = some t := hcl.symm.trans hc
        cases hold : s.claimedBy id with
        | some v =>
          rw [hold] at hc
          exact Or.inl hc
        | none =>
          rw [hold] at hc
          refine Or.inr ⟨Option.some.inj hc, ?_⟩
          generalize s.tasks u = pc at hpc
          cases hpc with
          | teardown => exact ⟨rfl, trivial⟩
          | sweep => trivial
    have hself : (s1.goto u pc1).tasks u = pc1 := Function.update_self ..
    rcases hcases with hold | ⟨rfl, hnew⟩
    · by_cases hut : u = t
      · subst hut
        rw [hself]
        exact ((h id u hold).move hm (hborn hold)).gone (fun hs => hs)
      · have hother : (s1.goto u pc1).tasks t = s.tasks t := by
          simp only [State.goto, (move_calls hm).1]
          exact Function.update_of_ne (fun he => hut he.symm) _ _
        rw [hother]
        exact (h id t hold).gone (hgone hold)
    · rw [hself]
      exact hnew.gone (fun hs => hs)
  | create | call | delivered =>
    have hold : s.claimedBy id = some t := hc
    have hlive : t ≠ s.nextTask := by
      rintro rfl
      have hcl := h id _ hold
      rw [hx.absent _ (Nat.le_refl _)] at hcl
      exact hcl
    have hsame := (h id t hold).gone (hgone hold)
    rwa [← Function.update_of_ne hlive _ s.tasks] at hsame
  | expired u => exact (h id t hc).gone (hgone hc)
  | aborted u ha hb =>
    rcases goto_tasks t with hg | hg <;> rw [hg]
    · exact (h id t hc).gone (hgone hc)
    · trivial
  | runtime r hr cell permits sent hcell => exact (h id t hc).gone (hgone hc)

theorem answered_reach [DecidableEq P] (h : Reach m.step State.init s) : Answered s :=
  h.invariant answered_init (fun hr hi hs => hi.step hr (step_outcome hs))

end Baffle.Proofs
