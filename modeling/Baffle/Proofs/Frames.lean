import Baffle.Proofs.Heap

namespace Baffle

/-- The sessions that `shutdown_all` may still find running. -/
def SweepStage.rest {P : Type} : SweepStage P → Option (List SessionId)
  | .begin => none
  | .next ids _ _ => some ids
  | .lock id ids _ _ | .claim id ids _ _ => some (id :: ids)
  | _ => some []

namespace Proofs

variable {P : Type} {m : SessionManager P} {t : TaskId} {s s' : State P} {pc pc' : Pc P}
  {id : SessionId}

def Running (s : State P) (id : SessionId) : Prop :=
  ∃ session, s.sessions.get id = some session ∧ session.info.state = .running

theorem move_accepting (h : Move m t s pc s' pc') (ha : s'.acceptingSessions = true) :
    s.acceptingSessions = true := by
  cases h with
  | create call h => cases h <;> exact ha
  | reload j batch h => cases h <;> exact ha
  | teardown kind j h => cases h <;> exact ha
  | sweep h =>
    cases h with
    | begun => cases ha
    | _ => exact ha
  | rejected => cases ha
  | _ => exact ha

/-- A write to an entry that is there starts no session. -/
theorem running_insert {k : SessionId} {old new : ManagedSession P}
    (hk : s.sessions.get k = some old) (hget : s'.sessions = s.sessions.insert k new)
    (hstate : new.info.state = .running → old.info.state = .running) (h : Running s' id) :
    Running s id := by
  obtain ⟨session, hs, hrun⟩ := h
  rw [hget] at hs
  by_cases hid : id = k
  · rw [hid, SortedMap.get_insert_self] at hs
    cases hs
    exact ⟨old, hid ▸ hk, hstate hrun⟩
  · rw [SortedMap.get_insert_ne _ hid] at hs
    exact ⟨session, hs, hrun⟩

/-- Only `create` starts a session, and only before shutdown. -/
theorem move_running (h : Move m t s pc s' pc') (hr : Running s' id) :
    Running s id ∨ pc.creating = some id ∧ s.acceptingSessions = true := by
  cases h with
  | create call h =>
    cases h with
    | registered runtime ha =>
      by_cases hid : id = call.id
      · exact Or.inr ⟨congrArg some hid.symm, ha⟩
      · obtain ⟨session, hs, hrun⟩ := hr
        simp only [State.setSession, State.setCell, SortedMap.get_insert_ne _ hid] at hs
        exact Or.inl ⟨session, hs, hrun⟩
    | _ => exact Or.inl hr
  | reload j batch h =>
    left
    cases h with
    | turnedDown session hj => exact running_insert hj rfl (fun h => by exact h) hr
    | begun session hj => exact running_insert hj rfl (fun h => by exact h) hr
    | sameCommitted target ha session hj => exact running_insert hj rfl (fun h => by exact h) hr
    | limited target session hj => exact running_insert hj rfl (fun h => by exact h) hr
    | withinLimits target ha session hj => exact running_insert hj rfl (fun h => by exact h) hr
    | vacant target options replacement session hj =>
      exact running_insert hj rfl (fun h => by exact h) hr
    | switched target options replacement ha session hj =>
      exact running_insert hj rfl (fun h => by exact h) hr
    | retired target options oldRuntime session hj =>
      exact running_insert hj rfl (fun h => by exact h) hr
    | _ => exact hr
  | teardown kind j h =>
    left
    cases h with
    | forgotten g hk session hj => exact running_insert hj rfl (fun h => by exact h) hr
    | claimed session hj => exact running_insert hj rfl (fun h => by cases h) hr
    | removed session hj =>
      obtain ⟨session', hs, hrun⟩ := hr
      by_cases hid : id = j
      · simp [SessionManager.removeEntry, hid] at hs
      · simp only [SessionManager.removeEntry, SortedMap.get_erase_ne _ hid] at hs
        exact ⟨session', hs, hrun⟩
    | _ => exact hr
  | sweep h =>
    left
    cases h with
    | claimed j ids runtimes count session hj =>
      exact running_insert hj rfl (fun h => by cases h) hr
    | cleared count =>
      obtain ⟨session', hs, -⟩ := hr
      cases hs
    | _ => exact hr
  | listed answer =>
    obtain ⟨session', hs, hrun⟩ := hr
    simp only [SessionManager.listSessions, SortedMap.get_map_values] at hs
    obtain ⟨session, hold, rfl⟩ := Option.map_eq_some_iff.mp hs
    exact Or.inl ⟨session, hold, hrun⟩
  | _ => exact Or.inl hr

/-- `shutdown_all` has stopped every session that it has passed. -/
def Swept (s : State P) : Prop :=
  ∀ t stage ids, s.tasks t = .shutdownAll stage → stage.rest = some ids →
    s.acceptingSessions = false ∧ ∀ id, Running s id → id ∈ ids

theorem swept_init : Swept (State.init : State P) := by
  rintro t stage ids h
  cases h

/-- A step that starts no session and begins no sweep. -/
theorem Swept.still (h : Swept s) (ha : s'.acceptingSessions = true → s.acceptingSessions = true)
    (hr : ∀ id, s.acceptingSessions = false → Running s' id → Running s id)
    (ht : ∀ u stage, s'.tasks u = .shutdownAll stage →
      s.tasks u = .shutdownAll stage ∨ stage.rest = none) : Swept s' := by
  intro u stage ids hu hrest
  rcases ht u stage hu with hu | hn
  · obtain ⟨hacc, hall⟩ := h u stage ids hu hrest
    refine ⟨?_, fun id hid => hall id (hr id hacc hid)⟩
    cases hs' : s'.acceptingSessions with
    | false => rfl
    | true =>
      rw [ha hs'] at hacc
      cases hacc
  · rw [hn] at hrest
    cases hrest

theorem sweep_move (m : SessionManager P) {stage stage' : SweepStage P} {ids' : List SessionId}
    (hm : SweepMove t s stage s' stage')
    (hstage : ∀ ids, stage.rest = some ids →
      s.acceptingSessions = false ∧ ∀ id, Running s id → id ∈ ids)
    (hrest : stage'.rest = some ids') :
    s'.acceptingSessions = false ∧ ∀ id, Running s' id → id ∈ ids' := by
  have hsame : s' = s → stage.rest = some ids' →
      s'.acceptingSessions = false ∧ ∀ id, Running s' id → id ∈ ids' := by
    rintro rfl hi
    exact hstage ids' hi
  have hmove : Move m t s (.shutdownAll stage) s' (.shutdownAll stage') := .sweep hm
  cases hm with
  | begun =>
    cases hrest
    refine ⟨rfl, ?_⟩
    rintro id ⟨session, hs, -⟩
    exact SortedMap.mem_keys.mpr ⟨session, hs⟩
  | stopping runtimes count =>
    cases hrest
    exact hstage [] rfl
  | skipped id ids runtimes count hs =>
    obtain rfl := Option.some.inj hrest
    obtain ⟨ha, hall⟩ := hstage (id :: ids) rfl
    refine ⟨ha, fun j hj => ?_⟩
    rcases List.mem_cons.mp (hall j hj) with rfl | hmem
    · obtain ⟨session, hget, -⟩ := hj
      rw [hs] at hget
      cases hget
    · exact hmem
  | found id ids runtimes count hs => exact hsame rfl hrest
  | locked id ids runtimes count hfree => exact hsame rfl hrest
  | gone id ids runtimes count hs =>
    obtain rfl := Option.some.inj hrest
    obtain ⟨ha, hall⟩ := hstage (id :: ids) rfl
    refine ⟨ha, fun j hj => ?_⟩
    rcases List.mem_cons.mp (hall j hj) with rfl | hmem
    · obtain ⟨session, hget, -⟩ := hj
      rw [hs] at hget
      cases hget
    · exact hmem
  | claimed id ids runtimes count session hs =>
    obtain rfl := Option.some.inj hrest
    obtain ⟨ha, hall⟩ := hstage (id :: ids) rfl
    refine ⟨ha, fun j hj => ?_⟩
    by_cases hid : j = id
    · obtain ⟨session', hget, hrun⟩ := hj
      rw [hid] at hget
      simp only [SessionManager.takeRuntimes, State.setSession, SortedMap.get_insert_self] at hget
      cases hget
      cases hrun
    · rcases move_running hmove hj with hj | ⟨hc, -⟩
      · exact (List.mem_cons.mp (hall j hj)).resolve_left hid
      · cases hc
  | drained cells count hf => exact hsame rfl hrest
  | cleared count =>
    cases hrest
    refine ⟨(hstage [] rfl).1, ?_⟩
    rintro id ⟨session, hs, -⟩
    cases hs
  | counted count =>
    cases hrest
    exact hstage [] rfl
  | ended => exact hsame rfl hrest

theorem Swept.moved (h : Swept s) (hm : Move m t s (s.tasks t) s' pc') :
    Swept (s'.goto t pc') := by
  have htasks := (move_calls hm).1
  intro u stage' ids hu hrest
  simp only [State.goto, htasks] at hu
  by_cases hut : u = t
  · -- the sweep itself moves
    subst hut
    rw [Function.update_self] at hu
    obtain ⟨stage, hstage, hsweep⟩ := (move_back hm).2.2 hu
    obtain ⟨ha, hall⟩ := sweep_move m hsweep (fun ids hi => h u stage ids hstage hi) hrest
    exact ⟨ha, hall⟩
  · -- another call moves, and no session is started any more
    rw [Function.update_of_ne hut] at hu
    obtain ⟨ha, hall⟩ := h u stage' ids hu hrest
    refine ⟨?_, fun id hid => ?_⟩
    · cases hs' : s'.acceptingSessions with
      | false => exact hs'
      | true =>
        rw [move_accepting hm hs'] at ha
        cases ha
    · rcases move_running hm hid with hr | ⟨-, hacc⟩
      · exact hall id hr
      · rw [ha] at hacc
        cases hacc

theorem Swept.step (h : Swept s) (ho : Outcome m s s') : Swept s' := by
  cases ho with
  | create call hid =>
    refine h.still (fun ha => ha) (fun _ _ hr => hr) (fun u stage hu => ?_)
    rcases spawn_tasks u with hs | hs <;> rw [hs] at hu
    · exact Or.inl hu
    · cases hu
  | call hpc =>
    refine h.still (fun ha => ha) (fun _ _ hr => hr) (fun u stage hu => ?_)
    rcases spawn_tasks u with hs | hs <;> rw [hs] at hu
    · exact Or.inl hu
    · subst hu
      cases hpc
      exact Or.inr rfl
  | delivered event events he =>
    refine h.still (fun ha => ha) (fun _ _ hr => hr) (fun u stage hu => ?_)
    rcases spawn_tasks u with hs | hs <;> rw [hs] at hu
    · exact Or.inl hu
    · cases hu
  | moved t hm => exact h.moved hm
  | expired t => exact h.still (fun ha => ha) (fun _ _ hr => hr) (fun _ _ hu => Or.inl hu)
  | aborted t ha hb =>
    refine h.still (fun ha => ha) (fun _ _ hr => hr) (fun u stage hu => ?_)
    rcases goto_tasks u with hs | hs <;> rw [hs] at hu
    · exact Or.inl hu
    · cases hu
  | runtime r hr cell permits sent hc =>
    exact h.still (fun ha => ha) (fun _ _ hr => hr) (fun _ _ hu => Or.inl hu)

theorem swept_reach [DecidableEq P] (h : Reach m.step State.init s) : Swept s :=
  h.invariant swept_init (fun _ hi hs => hi.step (step_outcome hs))

/-- The record of a session that has lost finished retired runtimes at most. -/
structure Kept (s : State P) (old new : ManagedSession P) : Prop where
  id : new.info.id = old.info.id
  socket : new.info.socket = old.info.socket
  persistent : new.info.persistent = old.info.persistent
  state : new.info.state = old.info.state
  generation : new.info.generation = old.info.generation
  configuration : new.configuration = old.configuration
  secrets : new.secrets = old.secrets
  configSource : new.configSource = old.configSource
  runtime : new.runtime = old.runtime
  listenerGeneration : new.listenerGeneration = old.listenerGeneration
  retired : new.retiredRuntimes.Sublist old.retiredRuntimes
  finished : ∀ runtime ∈ old.retiredRuntimes, runtime ∉ new.retiredRuntimes →
    (s.cells runtime.cell).phase = .finished

theorem Kept.refl (session : ManagedSession P) : Kept s session session :=
  ⟨rfl, rfl, rfl, rfl, rfl, rfl, rfl, rfl, rfl, rfl, List.Sublist.refl _,
    fun _ h hn => absurd h hn⟩

/-- A retain of the unfinished runtimes. -/
theorem kept_unfinished (session : ManagedSession P) :
    Kept s session (SessionManager.unfinished s session) := by
  refine ⟨rfl, rfl, rfl, rfl, rfl, rfl, rfl, rfl, rfl, rfl, List.filter_sublist, ?_⟩
  intro runtime hr hn
  by_contra hf
  exact hn (List.mem_filter.mpr ⟨hr, by simpa [State.isFinished] using hf⟩)

theorem Kept.count {old new : ManagedSession P} (h : Kept s old new) :
    Kept s old new.countDraining :=
  ⟨h.id, h.socket, h.persistent, h.state, h.generation, h.configuration, h.secrets,
    h.configSource, h.runtime, h.listenerGeneration, h.retired, h.finished⟩

/-- What only the call that works on the session changes in the cell of its runtime. -/
structure Core (c c' : RuntimeCell) : Prop where
  current : c'.current = c.current
  retired : c'.retired = c.retired
  installed : c'.installed = c.installed

theorem Core.of_eq {c c' : RuntimeCell} (h : c' = c) : Core c c' := by
  rw [h]
  exact ⟨rfl, rfl, rfl⟩

/-- What a step keeps of a session that nobody moving works on. An entry is lost
only to `shutdown_all`, which has stopped the session before. -/
structure Frame (id : SessionId) (s s' : State P) : Prop where
  heap : Extends s s'
  fresh : ∀ r, r < s'.nextCell → (s'.cells r).runtimeId = id → r < s.nextCell
  core : ∀ r, r < s.nextCell → (s.cells r).runtimeId = id → Core (s.cells r) (s'.cells r)
  kept : ∀ session, s.sessions.get id = some session →
    (∃ session', s'.sessions.get id = some session' ∧ Kept s session session') ∨
      session.info.state = .stopping ∧ s'.sessions.get id = none
  absent : s.sessions.get id = none → s'.sessions.get id = none
  gate : s'.gates id = s.gates id
  history : s'.history id = s.history id
  accepting : s'.acceptingSessions = true → s.acceptingSessions = true
  claimed : s'.claimedBy id = s.claimedBy id
  used : s.used ⊆ s'.used
  tasks : ∀ u, (s.tasks u).holds = some id → s'.tasks u = s.tasks u

theorem reload_elsewhere {j : SessionId} {batch : Option Batch} {stage stage' : ReloadStage P}
    (h : ReloadMove m s j stage s' stage') (hn : (Pc.reload j batch stage).holds ≠ some id) :
    id ≠ j := by
  rintro rfl
  cases h <;> exact hn rfl

theorem move_gate (h : Move m t s pc s' pc') (hn : pc.holds ≠ some id) :
    s'.gates id = s.gates id ∧ s'.history id = s.history id := by
  cases h with
  | create call h =>
    cases h with
    | started socketPath =>
      have hid : id ≠ call.id := fun h => hn (congrArg some h.symm)
      exact ⟨Function.update_of_ne hid _ _, Function.update_of_ne hid _ _⟩
    | _ => exact ⟨rfl, rfl⟩
  | reload j batch h =>
    have hid := reload_elsewhere h hn
    cases h with
    | sameCommitted => exact ⟨rfl, Function.update_of_ne hid _ _⟩
    | gateStored => exact ⟨Function.update_of_ne hid _ _, Function.update_of_ne hid _ _⟩
    | _ => exact ⟨rfl, rfl⟩
  | teardown kind j h => cases h <;> exact ⟨rfl, rfl⟩
  | sweep h => cases h <;> exact ⟨rfl, rfl⟩
  | _ => exact ⟨rfl, rfl⟩

theorem move_claimed (h : Move m t s pc s' pc') (hn : pc.holds ≠ some id) :
    s'.claimedBy id = s.claimedBy id := by
  cases h with
  | create call h => cases h <;> rfl
  | reload j batch h => cases h <;> rfl
  | teardown kind j h =>
    cases h with
    | claimed session hs => exact Function.update_of_ne (fun h => hn (congrArg some h.symm)) _ _
    | _ => rfl
  | sweep h =>
    cases h with
    | claimed j ids runtimes count session hs =>
      exact Function.update_of_ne (fun h => hn (congrArg some h.symm)) _ _
    | _ => rfl
  | _ => rfl

/-- A write to the cell of another session. -/
theorem set_other {q r : RuntimeRef} {c : RuntimeCell} (hq : (s.cells q).runtimeId ≠ id)
    (hr : (s.cells r).runtimeId = id) : (s.setCell q c).cells r = s.cells r := by
  refine Function.update_of_ne ?_ _ _
  rintro rfl
  exact hq hr

theorem move_core (hlinked : ∀ id runtime, Has s pc id runtime → LinkedTo s id runtime)
    (h : Move m t s pc s' pc') (hn : pc.holds ≠ some id) {r : RuntimeRef} (hr : r < s.nextCell)
    (hid : (s.cells r).runtimeId = id) : Core (s.cells r) (s'.cells r) := by
  cases h with
  | create call h =>
    cases h with
    | started socketPath => exact .of_eq (Function.update_of_ne (Nat.ne_of_lt hr) _ _)
    | registered runtime ha =>
      have hl := hlinked call.id runtime (Or.inr (List.mem_singleton_self _))
      refine .of_eq (set_other ?_ hid)
      rw [hl.2.1]
      exact fun h => hn (congrArg some h)
    | _ => exact ⟨rfl, rfl, rfl⟩
  | reload j batch h =>
    have hj := reload_elsewhere h hn
    cases h with
    | sameCommitted target ha session hs runtime hruntime cell hcell =>
      have hl := hlinked j runtime (Or.inl ⟨session, hs, mem_runtimes.mpr (Or.inr hruntime)⟩)
      refine .of_eq (set_other ?_ hid)
      rw [hl.2.1]
      exact hj.symm
    | replacing target options => exact .of_eq (Function.update_of_ne (Nat.ne_of_lt hr) _ _)
    | switched target options replacement ha session hs hstate oldRuntime hruntime =>
      have hnew := hlinked j replacement (Or.inr (List.mem_singleton_self _))
      have hold := hlinked j oldRuntime
        (Or.inl ⟨session, hs, mem_runtimes.mpr (Or.inr hruntime)⟩)
      have hfirst : (s.setCell replacement.cell (s.cells replacement.cell).install).cells r
          = s.cells r := set_other (by rw [hnew.2.1]; exact hj.symm) hid
      refine .of_eq (Eq.trans ?_ hfirst)
      refine Function.update_of_ne ?_ _ _
      intro he
      rw [he, hold.2.1] at hid
      exact hj hid.symm
    | lost target options oldRuntime hs =>
      have hl := hlinked j oldRuntime (Or.inr (List.mem_singleton_self _))
      have hset := set_other (c := (s.cells oldRuntime.cell).retire)
        (by rw [hl.2.1]; exact hj.symm) hid
      have hcore := Core.of_eq hset
      exact ⟨hcore.current, hcore.retired, hcore.installed⟩
    | retired target options oldRuntime session hs =>
      have hl := hlinked j oldRuntime (Or.inr (List.mem_singleton_self _))
      refine .of_eq (set_other ?_ hid)
      rw [hl.2.1]
      exact hj.symm
    | _ => exact ⟨rfl, rfl, rfl⟩
  | teardown kind j h => cases h <;> exact ⟨rfl, rfl, rfl⟩
  | sweep h => cases h <;> exact ⟨rfl, rfl, rfl⟩
  | _ => exact ⟨rfl, rfl, rfl⟩

/-- What a call that does not work on a session does to its entry. -/
theorem move_kept (h : Move m t s pc s' pc') (hn : pc.holds ≠ some id)
    (hswept : ∀ count, pc = .shutdownAll (.clear count) → ¬Running s id)
    {session : ManagedSession P} (hs : s.sessions.get id = some session) :
    (∃ session', s'.sessions.get id = some session' ∧ Kept s session session') ∨
      session.info.state = .stopping ∧ s'.sessions.get id = none := by
  have hsame : s'.sessions.get id = s.sessions.get id →
      ∃ session', s'.sessions.get id = some session' ∧ Kept s session session' :=
    fun he => ⟨session, he.trans hs, .refl session⟩
  cases h with
  | create call h =>
    cases h with
    | registered runtime ha =>
      refine Or.inl (hsame (SortedMap.get_insert_ne _ ?_ _))
      exact fun h => hn (congrArg some h.symm)
    | _ => exact Or.inl (hsame rfl)
  | reload j batch h =>
    have hj := reload_elsewhere h hn
    cases h with
    | turnedDown | begun | sameCommitted | limited | withinLimits | vacant | switched | retired =>
      exact Or.inl (hsame (SortedMap.get_insert_ne _ hj _))
    | _ => exact Or.inl (hsame rfl)
  | teardown kind j h =>
    cases h with
    | forgotten | claimed =>
      have hj : id ≠ j := fun h => hn (congrArg some h.symm)
      exact Or.inl (hsame (SortedMap.get_insert_ne _ hj _))
    | removed session' hs' =>
      have hj : id ≠ j := fun h => hn (congrArg some h.symm)
      exact Or.inl (hsame (SortedMap.get_erase_ne _ hj))
    | _ => exact Or.inl (hsame rfl)
  | sweep h =>
    cases h with
    | claimed j ids runtimes count session' hs' =>
      have hj : id ≠ j := fun h => hn (congrArg some h.symm)
      exact Or.inl (hsame (SortedMap.get_insert_ne _ hj _))
    | cleared count =>
      refine Or.inr ⟨?_, rfl⟩
      cases hstate : session.info.state with
      | stopping => rfl
      | running => exact absurd ⟨session, hs, hstate⟩ (hswept count rfl)
    | _ => exact Or.inl (hsame rfl)
  | listed answer =>
    refine Or.inl ⟨(SessionManager.unfinished s session).countDraining, ?_,
      (kept_unfinished session).count⟩
    simp only [SessionManager.listSessions, SortedMap.get_map_values, hs]
    rfl
  | _ => exact Or.inl (hsame rfl)

/-- What holds of calls and handles in every reachable state. -/
structure Sound (s : State P) : Prop where
  exclusive : Exclusive s
  linked : Linked s
  swept : Swept s

theorem sound_reach [DecidableEq P] (h : Reach m.step State.init s) : Sound s :=
  ⟨exclusive_reach h, linked_reach h, swept_reach h⟩

theorem frame_moved (hs : Sound s) (hm : Move m t s (s.tasks t) s' pc')
    (hn : (s.tasks t).holds ≠ some id) : Frame id s (s'.goto t pc') where
  heap := step_extends (.moved t hm)
  fresh r hr hid := by
    rcases move_started hm with he | ⟨j, generation, permits, pair, hj, he, hcell⟩
    · simpa only [State.goto, he] using hr
    · simp only [State.goto, he] at hr
      rcases Nat.lt_succ_iff_lt_or_eq.mp hr with hlt | rfl
      · exact hlt
      · simp only [State.goto, hcell, RuntimeCell.start] at hid
        exact absurd (hid ▸ hj) hn
  core r hr hid := move_core (hs.linked t) hm hn hr hid
  kept session hget := by
    refine move_kept hm hn (fun count hpc hrun => ?_) hget
    have hswept := (hs.swept t _ [] hpc rfl).2 id hrun
    cases hswept
  absent hget := by
    cases hget' : s'.sessions.get id with
    | none => exact hget'
    | some session =>
      rcases move_registered hm (by rw [hget']; rfl) with hr | ⟨hc, -⟩
      · rw [hget] at hr
        cases hr
      · exact absurd (Pc.holds_of_creating hc) hn
  gate := (move_gate hm hn).1
  history := (move_gate hm hn).2
  accepting ha := move_accepting hm (show s'.acceptingSessions = true from ha)
  claimed := show s'.claimedBy id = _ from move_claimed hm hn
  used := by
    simp only [State.goto, (move_calls hm).2.2]
    exact Finset.Subset.refl _
  tasks u hu := by
    have hut : u ≠ t := by
      rintro rfl
      exact hn hu
    simp only [State.goto, (move_calls hm).1]
    exact Function.update_of_ne hut _ _

/-- A step that leaves registry, gates, history and the number of runtimes alone. -/
theorem frame_still (he : Extends s s') (hnext : s'.nextCell = s.nextCell)
    (hcore : ∀ r, Core (s.cells r) (s'.cells r)) (hsessions : s'.sessions = s.sessions)
    (hgates : s'.gates = s.gates) (hhistory : s'.history = s.history)
    (ha : s'.acceptingSessions = s.acceptingSessions) (hclaimed : s'.claimedBy = s.claimedBy)
    (hused : s.used ⊆ s'.used)
    (ht : ∀ u, (s.tasks u).holds = some id → s'.tasks u = s.tasks u) : Frame id s s' where
  heap := he
  fresh r hr _ := by rwa [hnext] at hr
  core r _ _ := hcore r
  kept session hs := Or.inl ⟨session, by rw [hsessions, hs], .refl session⟩
  absent hs := by rw [hsessions, hs]
  gate := by rw [hgates]
  history := by rw [hhistory]
  accepting h := by rwa [ha] at h
  claimed := by rw [hclaimed]
  used := hused
  tasks := ht

theorem spawn_holds (hx : Exclusive s) {u : TaskId} (hu : (s.tasks u).holds = some id) :
    (s.spawn pc).tasks u = s.tasks u := by
  refine Function.update_of_ne ?_ _ _
  rintro rfl
  rw [hx.absent _ (Nat.le_refl _)] at hu
  cases hu

/-- A step leaves a session alone, or it is one of the call that works on it. -/
inductive Stirs (m : SessionManager P) (id : SessionId) (s : State P) : State P → Prop where
  | moved (t : TaskId) (hh : (s.tasks t).holds = some id) {s' : State P} {pc : Pc P}
      (h : Move m t s (s.tasks t) s' pc) : Stirs m id s (s'.goto t pc)
  | aborted (t : TaskId) (hh : (s.tasks t).holds = some id) (ha : s.acceptingSessions = false)
      (hb : (s.tasks t).abortable = true) :
      Stirs m id s
        (((s.dropRuntimes (s.tasks t).owned).abortCells (s.tasks t).draining).goto t .aborted)

theorem core_abort_cells (cells : List RuntimeRef) (r : RuntimeRef) :
    Core (s.cells r) ((s.abortCells cells).cells r) := by
  simp only [State.abortCells]
  split <;> exact ⟨rfl, rfl, rfl⟩

theorem step_frame (hs : Sound s) (ho : Outcome m s s') (id : SessionId) :
    Frame id s s' ∨ Stirs m id s s' := by
  have he := step_extends ho
  cases ho with
  | create call hid =>
    refine Or.inl (frame_still he rfl (fun r => .of_eq rfl) rfl rfl rfl rfl rfl
      (Finset.subset_insert _ _) (fun u hu => ?_))
    exact spawn_holds (hs.exclusive.same rfl rfl rfl rfl) hu
  | call hpc =>
    exact Or.inl (frame_still he rfl (fun r => .of_eq rfl) rfl rfl rfl rfl rfl
      (Finset.Subset.refl _) (fun u hu => spawn_holds hs.exclusive hu))
  | delivered event events hev =>
    refine Or.inl (frame_still he rfl (fun r => .of_eq rfl) rfl rfl rfl rfl rfl
      (Finset.Subset.refl _) (fun u hu => ?_))
    have hx : Exclusive ({ s with events } : State P) := hs.exclusive.same rfl rfl rfl rfl
    exact spawn_holds hx hu
  | moved t hm =>
    by_cases hh : (s.tasks t).holds = some id
    · exact Or.inr (.moved t hh hm)
    · exact Or.inl (frame_moved hs hm hh)
  | expired t =>
    exact Or.inl (frame_still he rfl (core_abort_cells _) rfl rfl rfl rfl rfl
      (Finset.Subset.refl _) (fun _ _ => rfl))
  | aborted t ha hb =>
    by_cases hh : (s.tasks t).holds = some id
    · exact Or.inr (.aborted t hh ha hb)
    · refine Or.inl (frame_still he rfl (fun r => ?_) rfl rfl rfl rfl rfl
        (Finset.Subset.refl _) (fun u hu => ?_))
      · have hcore := core_abort_cells (s := s.dropRuntimes (s.tasks t).owned)
          (s.tasks t).draining r
        exact ⟨hcore.current, hcore.retired, hcore.installed⟩
      · refine Function.update_of_ne ?_ _ _
        rintro rfl
        exact hh hu
  | runtime r hr cell permits sent hc =>
    refine Or.inl (frame_still he rfl (fun q => ?_) rfl rfl rfl rfl rfl
      (Finset.Subset.refl _) (fun _ _ => rfl))
    have hset := settled_cells permits hc q
    exact ⟨hset.current, hset.retired, hset.installed⟩

/-- Where a call is when it starts to work on a session. -/
inductive Entry (s : State P) (id : SessionId) : Pc P → Prop where
  | create (call : CreateCall) (hid : call.id = id) (hnew : id ∉ s.used) :
      Entry s id (.create call .reserve)
  | begin (batch : Option Batch) (hb : Born s id) : Entry s id (.reload id batch .begin)
  | claim (kind : TeardownKind) (hb : Born s id) : Entry s id (.teardown kind id .claim)
  | sweep (ids : List SessionId) (runtimes : List (ProxyRuntime P)) (count : Nat)
      (hb : Born s id) : Entry s id (.shutdownAll (.claim id ids runtimes count))

theorem move_entry (h : Move m t s pc s' pc') (hn : pc.holds ≠ some id)
    (hh : pc'.holds = some id) (hb : Born s id) : Entry s id pc' := by
  have hbetween : ¬Between pc' := by
    intro hb
    simp [Pc.holds, hb.creating, hb.serial] at hh
  cases h with
  | create call h =>
    have hc := (Pc.holds_cases hh).resolve_right (by simp [Pc.serial])
    exact absurd (Pc.holds_of_creating (move_creating (.create call h : Move m t s _ s' _) hc)) hn
  | unknown j batch hs => exact absurd (reload_lookup_between batch hs) hbetween
  | locked j batch hfree =>
    cases hh
    exact .begin batch hb
  | reload j batch h => cases h <;> exact absurd hh hn
  | reloadReturned j batch result => exact absurd (after_reload_between batch result) hbetween
  | reloadAll => exact absurd reload_all_between hbetween
  | teardown kind j h =>
    cases h with
    | locked hfree =>
      cases hh
      exact .claim kind hb
    | unknown | found | gone | forgotten | late | entryGone | counted => cases hh
    | claimed | stopping | drained | removed => exact absurd hh hn
  | sweep h =>
    cases h with
    | locked j ids runtimes count hfree =>
      cases hh
      exact .sweep ids runtimes count hb
    | _ => cases hh
  | _ => cases hh

/-- After a step that leaves the session alone, the call that works on it is where
it was, or it has just begun to. -/
theorem frame_tasks (hs : Sound s) (ho : Outcome m s s') (hf : Frame id s s') {u : TaskId}
    (hu : (s'.tasks u).holds = some id) :
    (s.tasks u).holds = some id ∧ s'.tasks u = s.tasks u ∨
      Entry s id (s'.tasks u) ∧ ∀ v, (s.tasks v).holds ≠ some id := by
  by_cases hold : (s.tasks u).holds = some id
  · exact Or.inl ⟨hold, hf.tasks u hold⟩
  · refine Or.inr ?_
    cases ho with
    | create call hid =>
      rcases spawn_tasks u with hsp | hsp <;> rw [hsp] at hu
      · exact absurd hu hold
      · cases hu
        rw [hsp]
        refine ⟨.create call rfl hid, fun v hv => hid ?_⟩
        rcases Pc.holds_cases hv with hc | hc
        · exact hs.exclusive.used v _ hc
        · exact (hs.exclusive.seen v _ (Pc.seen_of_serial hc)).1
    | call hpc =>
      rcases spawn_tasks u with hsp | hsp <;> rw [hsp] at hu
      · exact absurd hu hold
      · simp [Pc.holds, hpc.creating, hpc.serial] at hu
    | delivered event events hev =>
      rcases spawn_tasks u with hsp | hsp <;> rw [hsp] at hu
      · exact absurd hu hold
      · cases hu
    | moved t hm =>
      by_cases hut : u = t
      · subst hut
        rename_i u' pc'
        have hself : (u'.goto u pc').tasks u = pc' := Function.update_self ..
        rw [hself] at hu ⊢
        rcases move_holds hs.exclusive hm hu with hh | ⟨hnone, hborn, -⟩
        · exact absurd hh hold
        · exact ⟨move_entry hm hold hu hborn, hnone⟩
      · simp only [State.goto, (move_calls hm).1, Function.update_of_ne hut] at hu
        exact absurd hu hold
    | expired t => exact absurd hu hold
    | aborted t ha hb =>
      rcases goto_tasks u with hsp | hsp <;> rw [hsp] at hu
      · exact absurd hu hold
      · cases hu
    | runtime r hr cell permits sent hc => exact absurd hu hold

section

variable {R : SessionId → State P → Prop} {A : SessionId → State P → Pc P → Prop}

/-- `R` holds of the session, and `A` of the call that works on it. -/
def Upheld (R : SessionId → State P → Prop) (A : SessionId → State P → Pc P → Prop)
    (id : SessionId) (s : State P) : Prop :=
  R id s ∧ ∀ t, (s.tasks t).holds = some id → A id s (s.tasks t)

/-- The step rule for a property `R` of a session with an assertion `A` about the
call that works on it: both are stable under what other calls do, and the steps
of that call itself keep them. -/
theorem upheld_step [DecidableEq P] {action : Action P}
    (hframe : ∀ {s s'}, Reach m.step State.init s → Frame id s s' → R id s → R id s')
    (hstable : ∀ {s s'} {t : TaskId}, Reach m.step State.init s →
      (s.tasks t).holds = some id → R id s → Frame id s s' → A id s (s.tasks t) →
      A id s' (s.tasks t))
    (hentry : ∀ {s s' pc}, Reach m.step State.init s → Entry s id pc →
      (∀ u, (s.tasks u).holds ≠ some id) → Frame id s s' → R id s → A id s' pc)
    (hown : ∀ {s s'} {t : TaskId} {pc : Pc P}, Reach m.step State.init s →
      (s.tasks t).holds = some id → R id s → A id s (s.tasks t) →
      Move m t s (s.tasks t) s' pc → R id (s'.goto t pc) ∧ A id (s'.goto t pc) pc)
    (habort : ∀ {s} {t : TaskId}, Reach m.step State.init s → (s.tasks t).holds = some id →
      s.acceptingSessions = false → (s.tasks t).abortable = true → R id s → A id s (s.tasks t) →
      R id (((s.dropRuntimes (s.tasks t).owned).abortCells
        (s.tasks t).draining).goto t .aborted))
    (hreach : Reach m.step State.init s) (h : Upheld R A id s)
    (hstep : m.step action s = some s') : Upheld R A id s' := by
  obtain ⟨hr, ha⟩ := h
  have hs := sound_reach hreach
  have ho := step_outcome hstep
  rcases step_frame hs ho id with hf | hstirs
  · refine ⟨hframe hreach hf hr, fun u hu => ?_⟩
    rcases frame_tasks hs ho hf hu with ⟨hold, hsame⟩ | ⟨hen, hnone⟩
    · rw [hsame]
      exact hstable hreach hold hr hf (ha u hold)
    · exact hentry hreach hen hnone hf hr
  · -- the call that works on the session moves; afterwards nobody else does
    cases hstirs with
    | moved t hh hm =>
      rename_i s1 pc
      obtain ⟨hr', ha'⟩ := hown hreach hh hr (ha t hh) hm
      refine ⟨hr', fun u hu => ?_⟩
      have hself : (s1.goto t pc).tasks t = pc := Function.update_self ..
      by_cases hut : u = t
      · rw [hut, hself]
        exact ha'
      · have hother : (s1.goto t pc).tasks u = s.tasks u := by
          simp only [State.goto, (move_calls hm).1]
          exact Function.update_of_ne hut _ _
        rw [hother] at hu
        exact absurd (hs.exclusive.unique u t id hu hh) hut
    | aborted t hh hacc hb =>
      refine ⟨habort hreach hh hacc hb hr (ha t hh), fun u hu => ?_⟩
      rcases goto_tasks u with hg | hg <;> rw [hg] at hu
      · by_cases hut : u = t
        · subst hut
          simp only [State.goto, Function.update_self] at hg
          simp only [State.abortCells, State.dropRuntimes] at hg
          rw [← hg] at hh
          cases hh
        · exact absurd (hs.exclusive.unique u t id hu hh) hut
      · cases hu

/-- The invariant rule that goes with `upheld_step`. -/
theorem session_rule [DecidableEq P]
    (hinit : ∀ id, R id State.init)
    (hframe : ∀ {id s s'}, Reach m.step State.init s → Frame id s s' → R id s → R id s')
    (hstable : ∀ {id s s'} {t : TaskId}, Reach m.step State.init s →
      (s.tasks t).holds = some id → R id s → Frame id s s' → A id s (s.tasks t) →
      A id s' (s.tasks t))
    (hentry : ∀ {id s s' pc}, Reach m.step State.init s → Entry s id pc →
      (∀ u, (s.tasks u).holds ≠ some id) → Frame id s s' → R id s → A id s' pc)
    (hown : ∀ {id s s'} {t : TaskId} {pc : Pc P}, Reach m.step State.init s →
      (s.tasks t).holds = some id → R id s → A id s (s.tasks t) →
      Move m t s (s.tasks t) s' pc → R id (s'.goto t pc) ∧ A id (s'.goto t pc) pc)
    (habort : ∀ {id s} {t : TaskId}, Reach m.step State.init s → (s.tasks t).holds = some id →
      s.acceptingSessions = false → (s.tasks t).abortable = true → R id s → A id s (s.tasks t) →
      R id (((s.dropRuntimes (s.tasks t).owned).abortCells
        (s.tasks t).draining).goto t .aborted))
    (h : Reach m.step State.init s) (id : SessionId) :
    Upheld R A id s := by
  refine h.invariant ⟨hinit id, fun t ht => by cases ht⟩ ?_
  intro s s' a hreach hi hstep
  exact upheld_step hframe hstable hentry hown habort hreach hi hstep

end

end Proofs

end Baffle
