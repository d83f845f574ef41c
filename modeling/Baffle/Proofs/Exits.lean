import Baffle.Proofs.Teardown

namespace Baffle

/-- The listener whose exit the call has still to deal with. -/
def Pc.exit {P : Type} : Pc P → Option (SessionId × Nat)
  | .teardown _ _ (.done _) => none
  | .teardown (.runtimeExit listenerGeneration) id _ => some (id, listenerGeneration)
  | _ => none

namespace Proofs

variable {P : Type} {m : SessionManager P} {t : TaskId} {s s' : State P} {pc pc' : Pc P}
  {id : SessionId}

/-- The exit of a listener is queued, or a call deals with it. -/
def Announced (s : State P) (id : SessionId) (listenerGeneration : Nat) : Prop :=
  (∃ event ∈ s.events, event.runtimeId = id ∧ event.listenerGeneration = listenerGeneration) ∨
    ∃ t, (s.tasks t).exit = some (id, listenerGeneration)

/-- Before shutdown no running session has a current runtime that has ended, unless
its exit is on the way. -/
def Watched (s : State P) : Prop :=
  s.acceptingSessions = true → ∀ id session runtime, s.sessions.get id = some session →
    session.info.state = .running → session.runtime = some runtime →
    (s.cells runtime.cell).Over → Announced s id session.listenerGeneration

/-- The current runtime of a running session, or the one that `create` is about to register. -/
inductive Current (s : State P) (id : SessionId) (runtime : ProxyRuntime P) : Prop where
  | session (session : ManagedSession P) (hs : s.sessions.get id = some session)
      (hrun : session.info.state = .running) (hr : session.runtime = some runtime)
  | creating (u : TaskId) (call : CreateCall) (hid : call.id = id)
      (hpc : s.tasks u = .create call (.register runtime))

/-- A step that does not lose an exit: `runtime_exit` does not look for a session
that `create` has not registered yet, a reload does not make a replacement current
that has ended, and no replacement decides on its exit event between
`mark_retiring` and the store to the gate. -/
def Timely (a : Action P) (s : State P) : Prop :=
  match a with
  | .advance t _ =>
    match s.tasks t with
    | .teardown (.runtimeExit _) id .lookup =>
      ∀ u call runtime, s.tasks u = .create call (.register runtime) → call.id ≠ id
    | .reload _ _ (.commit _ _ replacement) =>
      s.acceptingSessions = true → ¬(s.cells replacement.cell).Over
    | _ => True
  | .runtime r .decideExit =>
    ∀ u id session runtime, (s.tasks u).marks = some id → s.sessions.get id = some session →
      session.runtime = some runtime → runtime.cell ≠ r
  | _ => True

theorem timely_advance {env : Environment P} (h : Timely (.advance t env) s) :
    (∀ g id u call runtime, s.tasks t = .teardown (.runtimeExit g) id .lookup →
      s.tasks u = .create call (.register runtime) → call.id ≠ id) ∧
    (∀ id batch target options replacement,
      s.tasks t = .reload id batch (.commit target options replacement) →
      s.acceptingSessions = true → ¬(s.cells replacement.cell).Over) := by
  constructor
  · intro g id u call runtime hpc
    simp only [Timely, hpc] at h
    exact h u call runtime
  · intro id batch target options replacement hpc
    simp only [Timely, hpc] at h
    exact h

theorem current_insert {k : SessionId} {old new : ManagedSession P} {runtime : ProxyRuntime P}
    (hk : s.sessions.get k = some old) (hget : s'.sessions = s.sessions.insert k new)
    (hstate : new.info.state = .running → old.info.state = .running)
    (hnew : id = k → ∀ runtime, new.runtime = some runtime → old.runtime = some runtime)
    {session' : ManagedSession P} (hs' : s'.sessions.get id = some session')
    (hrun : session'.info.state = .running) (hr : session'.runtime = some runtime) :
    Current s id runtime := by
  rw [hget] at hs'
  by_cases hid : id = k
  · rw [hid, SortedMap.get_insert_self] at hs'
    cases hs'
    exact .session old (hid ▸ hk) (hstate hrun) (hnew hid runtime hr)
  · rw [SortedMap.get_insert_ne _ hid] at hs'
    exact .session session' hs' hrun hr

/-- A runtime becomes current where it was registered by `create` or a reload. -/
theorem move_current (hm : Move m t s pc s' pc') (hpc : s.tasks t = pc)
    {runtime : ProxyRuntime P} {session' : ManagedSession P}
    (hs' : s'.sessions.get id = some session') (hrun : session'.info.state = .running)
    (hr : session'.runtime = some runtime) :
    Current s id runtime ∨
      ∃ batch target options, pc = .reload id batch (.commit target options runtime) ∧
        s.acceptingSessions = true := by
  have hsame : s'.sessions = s.sessions → Current s id runtime := by
    intro he
    rw [he] at hs'
    exact .session session' hs' hrun hr
  cases hm with
  | create call hm =>
    cases hm with
    | registered runtime' ha =>
      by_cases hid : id = call.id
      · subst hid
        simp only [State.setSession, SortedMap.get_insert_self, Option.some.injEq] at hs'
        subst hs'
        cases hr
        exact Or.inl (.creating t call rfl hpc)
      · simp only [State.setSession, State.setCell, SortedMap.get_insert_ne _ hid] at hs'
        exact Or.inl (.session session' hs' hrun hr)
    | _ => exact Or.inl (hsame rfl)
  | reload j batch hm =>
    cases hm with
    | turnedDown session hj | begun session hj =>
      exact Or.inl (current_insert hj rfl (fun h => by exact h) (fun _ _ h => by exact h) hs' hrun hr)
    | sameCommitted target ha session hj =>
      exact Or.inl (current_insert hj rfl (fun h => by exact h) (fun _ _ h => by exact h) hs' hrun hr)
    | limited target session hj =>
      exact Or.inl (current_insert hj rfl (fun h => by exact h) (fun _ _ h => by exact h) hs' hrun hr)
    | withinLimits target ha session hj =>
      exact Or.inl (current_insert hj rfl (fun h => by exact h) (fun _ _ h => by exact h) hs' hrun hr)
    | vacant target options replacement session hj =>
      exact Or.inl (current_insert hj rfl (fun h => by exact h) (fun _ _ h => by cases h) hs' hrun hr)
    | switched target options replacement ha session hj hstate oldRuntime hruntime =>
      by_cases hid : id = j
      · subst hid
        simp only [State.setSession, SortedMap.get_insert_self, Option.some.injEq] at hs'
        subst hs'
        cases hr
        exact Or.inr ⟨batch, target, options, rfl, ha⟩
      · simp only [State.setSession, State.setCell, SortedMap.get_insert_ne _ hid] at hs'
        exact Or.inl (.session session' hs' hrun hr)
    | retired target options oldRuntime session hj =>
      exact Or.inl (current_insert hj rfl (fun h => by exact h) (fun _ _ h => by exact h) hs' hrun hr)
    | _ => exact Or.inl (hsame rfl)
  | teardown kind j hm =>
    left
    cases hm with
    | forgotten g hk session hj =>
      exact current_insert hj rfl (fun h => by exact h) (fun _ _ h => by exact h) hs' hrun hr
    | claimed session hj =>
      exact current_insert hj rfl (fun h => by cases h) (fun _ _ h => by cases h) hs' hrun hr
    | removed session hj =>
      by_cases hid : id = j
      · simp [SessionManager.removeEntry, hid] at hs'
      · simp only [SessionManager.removeEntry, SortedMap.get_erase_ne _ hid] at hs'
        exact .session session' hs' hrun hr
    | _ => exact hsame rfl
  | sweep hm =>
    left
    cases hm with
    | claimed j ids runtimes count session hj =>
      exact current_insert hj rfl (fun h => by cases h) (fun _ _ h => by cases h) hs' hrun hr
    | cleared count => cases hs'
    | _ => exact hsame rfl
  | listed answer =>
    simp only [SessionManager.listSessions, SortedMap.get_map_values] at hs'
    obtain ⟨session, hs, rfl⟩ := Option.map_eq_some_iff.mp hs'
    exact Or.inl (.session session hs hrun hr)
  | _ => exact Or.inl (hsame rfl)

/-- A call is done with an exit when its session is gone, is being stopped or has
another listener, or when it does not find the session. -/
theorem move_exit (hm : Move m t s pc s' pc') {g : Nat} (hpc : pc.exit = some (id, g))
    (hw : pc.holds = some id → Working s pc) :
    pc'.exit = some (id, g) ∨
      pc = .teardown (.runtimeExit g) id .lookup ∧ s.sessions.get id = none ∧ s' = s ∨
      id ∈ pc.seen ∧ ∀ session, s.sessions.get id = some session →
        session.info.state = .running → session.listenerGeneration ≠ g := by
  have hnone : s.sessions.get id = none → ∀ session, s.sessions.get id = some session →
      session.info.state = .running → session.listenerGeneration ≠ g := by
    intro hn session hs
    rw [hn] at hs
    cases hs
  cases hm with
  | teardown kind j hm =>
    have hk : kind = .runtimeExit g ∧ j = id := by
      cases kind with
      | runtimeExit g' => cases hm <;> cases hpc <;> exact ⟨rfl, rfl⟩
      | stop | remove => cases hm <;> cases hpc
    obtain ⟨rfl, rfl⟩ := hk
    cases hm with
    | unknown hs => exact Or.inr (Or.inl ⟨rfl, hs, rfl⟩)
    | found | locked | claimed | stopping | drained | removed => exact Or.inl rfl
    | gone hs | entryGone hs =>
      exact Or.inr (Or.inr ⟨List.mem_singleton_self _, hnone hs⟩)
    | forgotten g' hk session hs hne =>
      cases hk
      refine Or.inr (Or.inr ⟨List.mem_singleton_self _, fun session' hs' _ => ?_⟩)
      rw [hs] at hs'
      cases hs'
      exact hne
    | late session hs hstate =>
      refine Or.inr (Or.inr ⟨List.mem_singleton_self _, fun session' hs' hrun => ?_⟩)
      rw [hs] at hs'
      cases hs'
      rw [hstate] at hrun
      cases hrun
    | counted =>
      exact Or.inr (Or.inr ⟨List.mem_singleton_self _, hnone (hw rfl)⟩)
  | _ => cases hpc

/-- Exits of current runtimes are on the way. -/
def Tracked (s : State P) : Prop :=
  s.acceptingSessions = true → ∀ id runtime, Current s id runtime →
    (s.cells runtime.cell).Over → Announced s id runtime.listenerGeneration

theorem tracked_init : Tracked (State.init : State P) := by
  intro _ id runtime hcur
  cases hcur with
  | session session hs => cases hs
  | creating u call hid hpc => cases hpc

/-- A step that makes no runtime current, ends none and loses no exit. -/
theorem Tracked.still (h : Tracked s)
    (ha : s'.acceptingSessions = true → s.acceptingSessions = true)
    (hcur : ∀ id runtime, Current s' id runtime → Current s id runtime)
    (hover : ∀ r, (s'.cells r).Over → (s.cells r).Over)
    (hann : ∀ id g, Announced s id g → Announced s' id g) : Tracked s' :=
  fun hacc id runtime hc ho =>
    hann _ _ (h (ha hacc) id runtime (hcur id runtime hc) (hover _ ho))

theorem current_link (hl : Linked s) {runtime : ProxyRuntime P} (h : Current s id runtime) :
    LinkedTo s id runtime := by
  cases h with
  | session session hs hrun hr => exact hl.session hs (mem_runtimes.mpr (Or.inr hr))
  | creating u call hid hpc =>
    subst hid
    exact hl u call.id runtime (Or.inr (by rw [hpc]; exact List.mem_singleton_self _))

/-- A new call. -/
theorem Tracked.spawn (h : Tracked s) (hx : Exclusive s) (used : Finset SessionId)
    (hpc : pc.creating = none ∨ ∃ call, pc = .create call .reserve) :
    Tracked (({ s with used } : State P).spawn pc) := by
  refine h.still (fun ha => ha) (fun id runtime hcur => ?_) (fun _ ho => ho)
    (fun id g hann => hann.imp_right (fun ⟨u, hu⟩ => ⟨u, ?_⟩))
  · cases hcur with
    | session session hs hrun hr => exact .session session hs hrun hr
    | creating u call hid hu =>
      rcases spawn_tasks u with hs | hs <;> rw [hs] at hu
      · exact .creating u call hid hu
      · rcases hpc with hpc | ⟨call', hpc⟩
        · rw [hu] at hpc
          cases hpc
        · rw [hu] at hpc
          cases hpc
  · have hne : u ≠ s.nextTask := by
      rintro rfl
      rw [hx.absent _ (Nat.le_refl _)] at hu
      cases hu
    have hsame : (({ s with used } : State P).spawn pc).tasks u = s.tasks u :=
      Function.update_of_ne hne _ _
    rw [hsame]
    exact hu

theorem Tracked.moved [DecidableEq P] {env : Environment P} (hreach : Reach m.step State.init s)
    (h : Tracked s) (ht : Timely (.advance t env) s) (hm : Move m t s (s.tasks t) s' pc') :
    Tracked (s'.goto t pc') := by
  have hl := linked_reach hreach
  have hx := exclusive_reach hreach
  obtain ⟨hlookup, hcommit⟩ := timely_advance ht
  have hself : (s'.goto t pc').tasks t = pc' := Function.update_self ..
  intro hacc id runtime hcur hover
  have hacc0 : s.acceptingSessions = true := move_accepting hm hacc
  -- the runtime was current before, and had ended
  have hbefore : Current s id runtime := by
    cases hcur with
    | session session hs hrun hr =>
      rcases move_current hm rfl hs hrun hr with hc | ⟨batch, target, options, hpc, -⟩
      · exact hc
      · have hlink := hl t id runtime (Or.inr (by rw [hpc]; exact List.mem_singleton_self _))
        refine absurd ?_ (hcommit id batch target options runtime hpc hacc0)
        unfold RuntimeCell.Over at hover ⊢
        rw [← (move_cells hm hlink.1).phase]
        exact hover
    | creating u call hid hu =>
      rcases goto_tasks u with hs | hs <;> rw [hs] at hu
      · rw [(move_calls hm).1] at hu
        exact .creating u call hid hu
      · -- a runtime that was just started
        obtain ⟨stage, -, hstart⟩ := (move_back hm).1 hu
        have hserving : (s'.cells runtime.cell).phase = .serving := by
          cases hstart with
          | started socketPath => simp [created, State.startRuntime, RuntimeCell.start]
        have hover : (s'.cells runtime.cell).Over := hover
        unfold RuntimeCell.Over at hover
        rw [hserving] at hover
        rcases hover with ho | ho <;> cases ho
  have hlink := current_link hl hbefore
  have hover0 : (s.cells runtime.cell).Over := by
    unfold RuntimeCell.Over at hover ⊢
    rw [← (move_cells hm hlink.1).phase]
    exact hover
  rcases h hacc0 id runtime hbefore hover0 with ⟨event, he, hev⟩ | ⟨u, hu⟩
  · refine Or.inl ⟨event, ?_, hev⟩
    show event ∈ s'.events
    rw [move_events hm]
    exact he
  · by_cases hut : u = t
    · subst hut
      rcases move_exit hm hu (fun hh => working_reach hreach hh) with
        hx' | ⟨hpc, hnone, hs⟩ | ⟨hseen, hother⟩
      · exact Or.inr ⟨u, by rw [hself]; exact hx'⟩
      · -- the lookup found no session, so `create` has still to register it
        cases hbefore with
        | session session hs' =>
          rw [hnone] at hs'
          cases hs'
        | creating v call hid hv => exact absurd hid (hlookup _ id v call runtime hpc hv)
      · cases hbefore with
        | session session hs' hrun hr =>
          obtain ⟨runtime', hr', hg, -⟩ := ((recorded_reach hreach id).agrees session hs').running hrun
          rw [hr] at hr'
          cases hr'
          exact absurd hg.symm (hother session hs' hrun)
        | creating v call hid hv =>
          refine absurd ?_ ((hx.seen u id hseen).2 v)
          rw [hv, ← hid]
          rfl
    · refine Or.inr ⟨u, ?_⟩
      have hsame : (s'.goto t pc').tasks u = s.tasks u := by
        simp only [State.goto, (move_calls hm).1]
        exact Function.update_of_ne hut _ _
      rw [hsame]
      exact hu

/-- A runtime ends with its event or without one. -/
theorem cell_ends {gate now : Nat} {c c' : RuntimeCell} {sent : List ProxyRuntimeEvent}
    (h : CellMove gate now c c' sent) (hover : c'.Over) :
    c.Over ∨
      (∃ event ∈ sent, event.runtimeId = c.runtimeId ∧
        event.listenerGeneration = c.listenerGeneration) ∨
      c.phase = .checked false ∧ gate ≠ c.listenerGeneration := by
  cases h with
  | left | ended | checked | reporting => rcases hover with h | h <;> cases h
  | silent hp hg => exact Or.inr (Or.inr ⟨hp, hg⟩)
  | reported retired hp => exact Or.inr (Or.inl ⟨_, List.mem_singleton_self _, rfl, rfl⟩)
  | finished hp => exact Or.inl (Or.inl hp)
  | _ => exact Or.inl hover

/-- Only the load of the gate takes the waiting task on from there. -/
theorem checked_move {r : RuntimeRef} {move : RuntimeMove} {retired : Bool}
    (h : s.runtimeMove r move = some s') (hp : (s.cells r).phase = .checked retired)
    (hover : (s'.cells r).Over) : move = .decideExit := by
  have hidle : ∀ {cell : Option RuntimeCell} {u : State P}, u.cells = s.cells →
      u.onCell r cell = some s' → (∀ c, cell = some c → c.phase = .checked retired) → False := by
    intro cell u hu ho hphase
    obtain ⟨c, hc, rfl⟩ := on_cell_some ho
    have hcell : (u.setCell r c).cells r = c := Function.update_self ..
    rw [hcell] at hover
    rcases hover with ho | ho <;> rw [hphase c hc] at ho <;> cases ho
  cases move with
  | decideExit => rfl
  | accept =>
    refine (hidle rfl h (fun c hc => ?_)).elim
    simp [RuntimeCell.accept, hp] at hc
  | checkGate =>
    refine (hidle rfl h (fun c hc => ?_)).elim
    unfold RuntimeCell.checkGate at hc
    split at hc
    · split at hc <;> cases hc <;> exact hp
    · cases hc
  | borrow =>
    refine (hidle rfl h (fun c hc => ?_)).elim
    unfold RuntimeCell.borrow at hc
    split at hc
    · cases hc
      exact hp
    · cases hc
  | dispatch =>
    simp only [State.runtimeMove] at h
    split at h
    · refine (hidle (by rfl) h (fun c hc => ?_)).elim
      unfold RuntimeCell.dispatch at hc
      split at hc
      · cases hc
        exact hp
      · cases hc
    · cases h
  | turnAway =>
    simp only [State.runtimeMove] at h
    split at h
    · refine (hidle rfl h (fun c hc => ?_)).elim
      unfold RuntimeCell.turnAway at hc
      split at hc
      · cases hc
        exact hp
      · cases hc
    · cases h
  | close i =>
    refine (hidle (by rfl) h (fun c hc => ?_)).elim
    unfold RuntimeCell.close at hc
    split at hc
    · cases hc
      exact hp
    · cases hc
  | leave =>
    refine (hidle rfl h (fun c hc => ?_)).elim
    simp [RuntimeCell.leave, hp] at hc
  | fail =>
    refine (hidle (by rfl) h (fun c hc => ?_)).elim
    simp [RuntimeCell.fail, hp] at hc
  | drained =>
    refine (hidle rfl h (fun c hc => ?_)).elim
    simp [RuntimeCell.drained, hp] at hc
  | aborts =>
    refine (hidle (by rfl) h (fun c hc => ?_)).elim
    simp [RuntimeCell.aborts, hp] at hc
  | readRetired =>
    refine (hidle rfl h (fun c hc => ?_)).elim
    simp [RuntimeCell.readRetired, hp] at hc
  | sendExit => simp [State.runtimeMove, RuntimeCell.sendExit, hp] at h
  | finish =>
    refine (hidle rfl h (fun c hc => ?_)).elim
    simp [RuntimeCell.finish, hp] at hc

/-- The gate of a current runtime is its own, except in the middle of a reload. -/
theorem current_gate [DecidableEq P] (hreach : Reach m.step State.init s)
    {runtime : ProxyRuntime P} (h : Current s id runtime) :
    s.gates id = (s.cells runtime.cell).listenerGeneration ∨
      ∃ u session, (s.tasks u).marks = some id ∧ s.sessions.get id = some session ∧
        session.runtime = some runtime := by
  have hlink := current_link (linked_reach hreach) h
  rw [hlink.2.2]
  cases h with
  | session session hs hrun hr =>
    have hrec := recorded_reach hreach id
    obtain ⟨runtime', hr', hg, -⟩ := (hrec.agrees session hs).running hrun
    rw [hr] at hr'
    cases hr'
    rcases hrec.gate session hs with hgate | ⟨u, hu⟩
    · exact Or.inl (hgate.trans hg.symm)
    · exact Or.inr ⟨u, session, hu, hs, hr⟩
  | creating u call hid hpc =>
    have hh : (s.tasks u).holds = some call.id := by
      rw [hpc]
      rfl
    have hw := working_reach hreach hh
    rw [hpc] at hw
    obtain ⟨hgate, hg⟩ := hw.2 runtime rfl
    left
    rw [← hid, hgate, hg]

theorem Tracked.runtime [DecidableEq P] {r : RuntimeRef} {move : RuntimeMove}
    (hreach : Reach m.step State.init s) (h : Tracked s) (ht : Timely (.runtime r move) s)
    (hmove : s.runtimeMove r move = some s') : Tracked s' := by
  obtain ⟨cell, permits, sent, rfl, hcell⟩ := runtime_move hmove
  intro hacc id runtime hcur hover
  have hbefore : Current s id runtime := by
    cases hcur with
    | session session hs hrun hr => exact .session session hs hrun hr
    | creating u call hid hpc => exact .creating u call hid hpc
  have hkept : (s.cells runtime.cell).Over →
      Announced (cellMoved s r cell permits sent) id runtime.listenerGeneration := by
    intro ho
    rcases h hacc id runtime hbefore ho with ⟨event, he, hev⟩ | hu
    · exact Or.inl ⟨event, List.mem_append_left _ he, hev⟩
    · exact Or.inr hu
  by_cases hr : runtime.cell = r
  · subst hr
    have hself : (cellMoved s runtime.cell cell permits sent).cells runtime.cell = cell :=
      Function.update_self ..
    have hlink := current_link (linked_reach hreach) hbefore
    have hover' := hover
    rw [hself] at hover
    rcases cell_ends hcell hover with ho | ⟨event, he, hid, hg⟩ | ⟨hp, hgate⟩
    · exact hkept ho
    · exact Or.inl ⟨event, List.mem_append_right _ he, hid.trans hlink.2.1, hg.trans hlink.2.2⟩
    · -- the gate was not that of the runtime, so a reload has still to store to it
      obtain rfl := checked_move hmove hp hover'
      rcases current_gate hreach hbefore with hg | ⟨u, session, hu, hs, hrt⟩
      · rw [hlink.2.1] at hgate
        exact absurd hg hgate
      · exact absurd rfl (ht u id session runtime hu hs hrt)
  · have hother : (cellMoved s r cell permits sent).cells runtime.cell = s.cells runtime.cell :=
      Function.update_of_ne hr _ _
    rw [hother] at hover
    exact hkept hover

theorem Tracked.step [DecidableEq P] {a : Action P} (hreach : Reach m.step State.init s)
    (h : Tracked s) (ht : Timely a s) (hstep : m.step a s = some s') : Tracked s' := by
  have hx := exclusive_reach hreach
  cases a with
  | create call =>
    simp only [SessionManager.step] at hstep
    split at hstep
    · cases hstep
    · cases hstep
      exact h.spawn hx _ (Or.inr ⟨call, rfl⟩)
  | deliver =>
    simp only [SessionManager.step] at hstep
    split at hstep
    · cases hstep
    · rename_i event events he
      cases hstep
      refine h.still (fun ha => ha) (fun id runtime hcur => ?_) (fun _ ho => ho)
        (fun id g hann => ?_)
      · cases hcur with
        | session session hs hrun hr => exact .session session hs hrun hr
        | creating u call hid hu =>
          rcases spawn_tasks u with hs | hs <;> rw [hs] at hu
          · exact .creating u call hid hu
          · cases hu
      · -- the event at the head of the queue becomes a call
        rcases hann with ⟨event', he', hid, hg⟩ | ⟨u, hu⟩
        · rw [he] at he'
          rcases List.mem_cons.mp he' with rfl | he'
          · refine Or.inr ⟨s.nextTask, ?_⟩
            rw [← hid, ← hg]
            simp [State.spawn, State.goto, Pc.exit]
          · exact Or.inl ⟨event', he', hid, hg⟩
        · refine Or.inr ⟨u, ?_⟩
          have hne : u ≠ s.nextTask := by
            rintro rfl
            rw [hx.absent _ (Nat.le_refl _)] at hu
            cases hu
          simp only [State.spawn, State.goto, Function.update_of_ne hne]
          exact hu
  | advance t env =>
    obtain ⟨⟨u, pc⟩, ha, rfl⟩ := Option.map_eq_some_iff.mp hstep
    exact h.moved hreach ht (advance_move ha)
  | expire t =>
    cases hstep
    refine h.still (fun ha => ha) (fun id runtime hcur => ?_) (fun r ho => ?_) (fun _ _ hann => hann)
    · cases hcur with
      | session session hs hrun hr => exact .session session hs hrun hr
      | creating u call hid hu => exact .creating u call hid hu
    · unfold RuntimeCell.Over at ho ⊢
      rw [(tended_abort_cells _ r).phase] at ho
      exact ho
  | abort t =>
    simp only [SessionManager.step] at hstep
    split at hstep
    · rename_i ha
      cases hstep
      intro hacc
      have hacc : s.acceptingSessions = true := hacc
      rw [ha.1] at hacc
      cases hacc
    · cases hstep
  | runtime r move =>
    simp only [SessionManager.step] at hstep
    split at hstep
    · exact h.runtime hreach ht hstep
    · cases hstep
  | reload | reloadAll | stop | remove | list | rejectNewSessions | shutdownAll =>
    cases hstep
    exact h.spawn hx s.used (Or.inl rfl)

/-- In every run whose steps are timely, no running session is left with a dead
listener before shutdown. -/
theorem dead_listener_reported [DecidableEq P] (h : ReachBy m.step Timely State.init s) :
    Watched s := by
  have htracked : Tracked s :=
    ReachBy.invariant tracked_init
      (fun hr hi ht hs => hi.step hr.reach ht hs) h
  intro hacc id session runtime hs hrun hr hover
  obtain ⟨runtime', hr', hg, -⟩ := ((recorded_reach h.reach id).agrees session hs).running hrun
  rw [hr] at hr'
  cases hr'
  rw [← hg]
  exact htracked hacc id runtime (.session session hs hrun hr) hover

/-- The runtime of a session fails. -/
def sampleFailure : List (Action Text) :=
  [.runtime 0 .fail, .runtime 0 .readRetired, .runtime 0 .decideExit, .runtime 0 .sendExit]

/-- Whether the step is one of a `create` call or of a runtime while the registry is free. -/
def calm (a : Action P) (s : State P) : Bool :=
  match a with
  | .advance t _ =>
    match s.tasks t with
    | .create .. => true
    | _ => false
  | .runtime _ .decideExit => s.registryFree
  | _ => true

theorem calm_timely {a : Action P} (hx : Exclusive s) (h : calm a s = true) : Timely a s := by
  unfold calm at h
  split at h
  · split at h
    · rename_i hpc
      simp only [Timely, hpc]
    · cases h
  · intro u id session runtime hu
    exact absurd hu (marks_free hx h u)
  · rename_i hadvance hdecide
    unfold Timely
    split
    · exact absurd rfl (hadvance _ _)
    · exact absurd rfl (hdecide _)
    · trivial

def currentEnded (s : State Text) : Bool :=
  s.acceptingSessions && (s.sessions.get sampleCall.id).any (fun session =>
    session.info.state == .running && session.runtime.any (fun runtime =>
      (s.cells runtime.cell).phase == .exiting))

theorem current_ended {s : State Text} (h : currentEnded s = true) :
    s.acceptingSessions = true ∧ ∃ session runtime, s.sessions.get sampleCall.id = some session ∧
      session.info.state = .running ∧ session.runtime = some runtime ∧
      (s.cells runtime.cell).Over := by
  simp only [currentEnded, Bool.and_eq_true, Option.any_eq_true, beq_iff_eq] at h
  obtain ⟨hacc, session, hs, hrun, runtime, hr, hp⟩ := h
  exact ⟨hacc, session, runtime, hs, hrun, hr, Or.inl hp⟩

/-- The runtime fails after the session was registered. -/
theorem dead_listener_reported_sample :
    ∃ s session runtime, ReachBy sampleManager.step Timely State.init s ∧
      s.sessions.get sampleCall.id = some session ∧ session.runtime = some runtime ∧
      (s.cells runtime.cell).Over ∧ Announced s sampleCall.id session.listenerGeneration := by
  have hrun : (runSteps (fun a s => if calm a s then sampleManager.step a s else none)
      (sampleCreation ++ sampleFailure) State.init).any currentEnded = true := by decide
  obtain ⟨s, hs, htest⟩ := run_any hrun
  have hreach : ReachBy sampleManager.step Timely State.init s :=
    reach_by_run (fun hr hc => calm_timely (exclusive_reach hr) hc) .start hs
  obtain ⟨hacc, session, runtime, hget, hstate, hr, hover⟩ := current_ended htest
  exact ⟨s, session, runtime, hreach, hget, hr, hover,
    dead_listener_reported hreach hacc _ session runtime hget hstate hr hover⟩

/-- The runtime fails before `create` registers the session, and `runtime_exit`
looks for it in vain. -/
def sampleRace : List (Action Text) :=
  sampleCreation.take 3 ++ sampleFailure ++
    [.deliver, .advance 1 sampleEnvironment, .advance 0 sampleEnvironment]

theorem dead_listener_registered :
    ¬∀ s, Reach sampleManager.step (State.init : State Text) s → Watched s := by
  intro hall
  have hrun : (runSteps sampleManager.step sampleRace State.init).any (fun s =>
      currentEnded s && s.events.isEmpty &&
        (List.range s.nextTask).all (fun t => (s.tasks t).exit.isNone)) = true := by decide
  obtain ⟨s, hs, htest⟩ := run_any hrun
  have hreach : Reach sampleManager.step State.init s := reach_run .start hs
  simp only [Bool.and_eq_true, List.isEmpty_iff, List.all_eq_true, List.mem_range,
    Option.isNone_iff_eq_none] at htest
  obtain ⟨⟨hended, hevents⟩, hcalls⟩ := htest
  obtain ⟨hacc, session, runtime, hget, hstate, hr, hover⟩ := current_ended hended
  rcases hall s hreach hacc _ session runtime hget hstate hr hover with ⟨event, he, -⟩ | ⟨u, hu⟩
  · rw [hevents] at he
    cases he
  · by_cases hlt : u < s.nextTask
    · rw [hcalls u hlt] at hu
      cases hu
    · rw [(exclusive_reach hreach).absent u (Nat.le_of_not_lt hlt)] at hu
      cases hu

end Proofs

end Baffle
