import Baffle.Proofs.Serving

namespace Baffle

/-- All connections have been joined. -/
def ServerPhase.joined : ServerPhase → Bool
  | .cleaning | .sweeping _ | .stopped => true
  | _ => false

/-- All cleanup tasks have been joined too. -/
def ServerPhase.cleaned : ServerPhase → Bool
  | .sweeping _ | .stopped => true
  | _ => false

namespace Proofs

variable {P : Type} {m : SessionManager P} {c : ControlServer P} {t : TaskId}

section

variable {s s' : State P} {pc : Pc P}

theorem over_owes (h : pc.over = true) : pc.owes = 0 := by
  cases pc with
  | teardown kind j stage => cases stage <;> first | rfl | cases h
  | shutdownAll stage => cases stage <;> first | rfl | cases h
  | _ => rfl

theorem sweeping_over (h : pc.sweeping = true) : pc.over = false := by
  cases pc with
  | shutdownAll stage => cases stage <;> first | rfl | cases h
  | _ => cases h

theorem internal_next [DecidableEq P] {a : Action P} (ha : Internal a)
    (hs : m.step a s = some s') : s'.nextTask = s.nextTask := by
  cases ha with
  | advance u env =>
    obtain ⟨⟨v, pc⟩, hadv, rfl⟩ := Option.map_eq_some_iff.mp hs
    exact (move_calls (advance_move hadv)).2.1
  | expire u =>
    rw [← Option.some.inj hs]
    rfl
  | runtime r move =>
    simp only [SessionManager.step] at hs
    split at hs
    · obtain ⟨cell, permits, sent, rfl, -⟩ := runtime_move hs
      rfl
    · cases hs

theorem abort_step [DecidableEq P] (hs : m.step (.abort t) s = some s') :
    s'.nextTask = s.nextTask ∧ s'.tasks t = .aborted ∧ s.acceptingSessions = false := by
  simp only [SessionManager.step] at hs
  split at hs
  · rename_i ha
    rw [← Option.some.inj hs]
    exact ⟨rfl, Function.update_self .., ha.1⟩
  · cases hs

end

section

variable {s s' : ServerState P}

/-- Somebody waits for every call that is in progress. -/
def Attended (s : ServerState P) : Prop :=
  ∀ t, (s.core.tasks t).over = false → (∃ h, (s.handlers h).waits = some t) ∨ t ∈ s.cleanups ∨
    s.phase = .rejecting t ∨ s.phase = .sweeping t

/-- What `shutdown` has waited for. -/
structure Joined (s : ServerState P) : Prop where
  absent : ∀ h, s.nextHandler ≤ h → s.handlers h = .absent
  connections : s.phase.joined = true → ∀ h < s.nextHandler, (s.handlers h).over = true
  cleanups : s.phase.cleaned = true → ∀ t ∈ s.cleanups, isDone (s.core.tasks t) = true
  swept : s.phase = .stopped → ∃ t, s.core.tasks t = .shutdownAll .done

theorem answer_over {request : ControlRequest} {pc : Pc P} {response : Response}
    (h : answer request pc = some response) : pc.over = true := by
  unfold answer at h
  split at h <;> first | rfl | cases h

theorem handler_move_waits {core : State P} {handler handler' : Handler}
    (hm : HandlerMove core handler handler') (hw : handler.waits = some t) :
    (core.tasks t).over = true := by
  cases hm with
  | created u call result hpc =>
    cases hw
    rw [hpc]
    rfl
  | answered request u response ha =>
    cases hw
    exact answer_over ha
  | removed u id j found hpc =>
    cases hw
    rw [hpc]
    rfl
  | _ => cases hw

theorem handler_move_source {core : State P} {handler handler' : Handler}
    (hm : HandlerMove core handler handler') : handler ≠ .absent ∧ handler.over = false := by
  cases hm <;> exact ⟨by rintro ⟨⟩, rfl⟩

theorem handler_call_source {a : Action P} {handler handler' : Handler}
    (hc : HandlerCall m t handler a handler') :
    handler ≠ .absent ∧ handler.over = false ∧ handler.waits = none ∧ handler'.waits = some t := by
  cases hc <;> exact ⟨by rintro ⟨⟩, rfl, rfl, rfl⟩

theorem idle_source {handler : Handler} (hi : Idle handler) :
    handler ≠ .absent ∧ handler.over = false ∧ handler.waits = none := by
  cases hi <;> exact ⟨by rintro ⟨⟩, rfl, rfl⟩

theorem waits_source {handler : Handler} (hw : handler.waits = some t) :
    handler ≠ .absent ∧ handler.over = false := by
  cases handler with
  | creating | calling | removing => exact ⟨by rintro ⟨⟩, rfl⟩
  | _ => cases hw

theorem over_waits {handler : Handler} (h : handler.over = true) : handler.waits = none := by
  cases handler <;> first | rfl | cases h

/-- A handler that is not over is one of those that shutdown waits for. -/
theorem Joined.active (h : Joined s) {k : Nat} (hk : s.handlers k ≠ .absent)
    (ho : (s.handlers k).over = false) : k < s.nextHandler ∧ s.phase.joined = false := by
  have hlt : k < s.nextHandler := by
    by_contra hn
    exact hk (h.absent k (Nat.le_of_not_lt hn))
  refine ⟨hlt, ?_⟩
  cases hp : s.phase.joined with
  | false => rfl
  | true =>
    rw [h.connections hp k hlt] at ho
    cases ho

/-- Once the connections are joined nobody waits for a call but the server itself. -/
theorem Joined.nobody (h : Joined s) (hp : s.phase.joined = true) (k : Nat) :
    (s.handlers k).waits = none := by
  by_cases hk : k < s.nextHandler
  · exact over_waits (h.connections hp k hk)
  · rw [h.absent k (Nat.le_of_not_lt hk)]
    rfl

theorem set_waits {k h : Nat} {handler : Handler} (hw : (s.handlers k).waits = some t)
    (hne : (s.handlers h).waits ≠ some t) :
    ((s.setHandler h handler).handlers k).waits = some t := by
  have hkh : k ≠ h := by
    rintro rfl
    exact hne hw
  simp only [ServerState.setHandler, Function.update_of_ne hkh]
  exact hw

theorem attended_serves [DecidableEq P] (hj : Joined s) (h : Attended s) (hs : Serves c s s') :
    Attended s' := by
  intro t ht
  -- who waits for a call that is not new
  have hold : ∀ {a : Action P} {core : State P}, c.sessions.step a s.core = some core →
      (core.tasks t).over = false → t ≠ s.core.nextTask → (s.core.tasks t).over = false := by
    intro a core hstep hover hne
    rcases live_before (step_outcome hstep) hover with hb | ⟨hn, -⟩
    · exact hb
    · exact absurd hn hne
  cases hs with
  | connected hp =>
    rcases h t ht with ⟨k, hk⟩ | hrest
    · have hnone : (s.handlers s.nextHandler).waits ≠ some t := by
        rw [hj.absent _ (Nat.le_refl _)]
        rintro ⟨⟩
      exact Or.inl ⟨k, set_waits hk hnone⟩
    · exact Or.inr hrest
  | handled k handler slots hm =>
    rcases h t ht with ⟨k', hk⟩ | hrest
    · have hnone : (s.handlers k).waits ≠ some t := by
        intro hw
        have hover : (s.core.tasks t).over = true := handler_move_waits hm hw
        rw [show (s.core.tasks t).over = false from ht] at hover
        cases hover
      exact Or.inl ⟨k', set_waits hk hnone⟩
    · exact Or.inr hrest
  | called k handler slots a core hc hstep =>
    obtain ⟨-, -, hfree, hnew⟩ := handler_call_source hc
    by_cases hn : t = s.core.nextTask
    · refine Or.inl ⟨k, ?_⟩
      simp only [ServerState.setHandler, Function.update_self]
      rw [hnew, hn]
    · rcases h t (hold hstep ht hn) with ⟨k', hk⟩ | hrest
      · exact Or.inl ⟨k', set_waits hk (by rw [hfree]; rintro ⟨⟩)⟩
      · exact Or.inr hrest
  | cancelled k slots hp hi =>
    rcases h t ht with ⟨k', hk⟩ | hrest
    · exact Or.inl ⟨k', set_waits hk (by rw [(idle_source hi).2.2]; rintro ⟨⟩)⟩
    · exact Or.inr hrest
  | interrupted k slots u core hp hw hstep =>
    obtain ⟨hnext, haborted, -⟩ := abort_step hstep
    have hlive : (s.core.tasks t).over = false := by
      rcases live_before (step_outcome hstep) ht with hb | ⟨-, hn⟩
      · exact hb
      · exact absurd (hnext.symm.trans hn) (Nat.ne_of_lt (Nat.lt_succ_self _))
    have hut : u ≠ t := by
      rintro rfl
      have hover : (core.tasks u).over = false := ht
      rw [haborted] at hover
      cases hover
    rcases h t hlive with ⟨k', hk⟩ | hrest
    · refine Or.inl ⟨k', set_waits hk ?_⟩
      rw [hw]
      exact fun he => hut (Option.some.inj he)
    · exact Or.inr hrest
  | delivered core hp hstep =>
    by_cases hn : t = s.core.nextTask
    · exact Or.inr (Or.inl (hn ▸ List.mem_cons_self ..))
    · rcases h t (hold hstep ht hn) with hk | hmem | hrest
      · exact Or.inl hk
      · exact Or.inr (Or.inl (List.mem_cons_of_mem _ hmem))
      · exact Or.inr (Or.inr hrest)
  | moved a core ha hstep =>
    have hnext := internal_next ha hstep
    rcases live_before (step_outcome hstep) ht with hb | ⟨-, hn⟩
    · exact h t hb
    · exact absurd (hnext.symm.trans hn) (Nat.ne_of_lt (Nat.lt_succ_self _))
  | closed core hp hstep =>
    by_cases hn : t = s.core.nextTask
    · exact Or.inr (Or.inr (Or.inl (by rw [hn])))
    · rcases h t (hold hstep ht hn) with hk | hmem | hr | hsw
      · exact Or.inl hk
      · exact Or.inr (Or.inl hmem)
      · rw [hp] at hr
        cases hr
      · rw [hp] at hsw
        cases hsw
  | rejected u hp hpc =>
    rcases h t ht with hk | hmem | hr | hsw
    · exact Or.inl hk
    · exact Or.inr (Or.inl hmem)
    · rw [hp] at hr
      have hut : u = t := ServerPhase.rejecting.inj hr
      have hover : (s.core.tasks t).over = false := ht
      rw [← hut, hpc] at hover
      cases hover
    · rw [hp] at hsw
      cases hsw
  | joined hp hall =>
    rcases h t ht with hk | hmem | hr | hsw
    · exact Or.inl hk
    · exact Or.inr (Or.inl hmem)
    · rw [hp] at hr
      cases hr
    · rw [hp] at hsw
      cases hsw
  | cleaned core hp hall hstep =>
    by_cases hn : t = s.core.nextTask
    · exact Or.inr (Or.inr (Or.inr (by rw [hn])))
    · rcases h t (hold hstep ht hn) with hk | hmem | hr | hsw
      · exact Or.inl hk
      · exact Or.inr (Or.inl hmem)
      · rw [hp] at hr
        cases hr
      · rw [hp] at hsw
        cases hsw
  | finished u hp hpc =>
    rcases h t ht with hk | hmem | hr | hsw
    · exact Or.inl hk
    · exact Or.inr (Or.inl hmem)
    · rw [hp] at hr
      cases hr
    · rw [hp] at hsw
      have hut : u = t := ServerPhase.sweeping.inj hsw
      have hover : (s.core.tasks t).over = false := ht
      rw [← hut, hpc] at hover
      cases hover

/-- A cleanup task that is done stays so. -/
theorem done_stays [DecidableEq P] {core core' : State P} {a : Action P} (hx : Exclusive core)
    (hs : m.step a core = some core') (h : isDone (core.tasks t) = true) :
    isDone (core'.tasks t) = true := by
  have hover : (core.tasks t).over = true := by
    generalize core.tasks t = pc at h
    unfold isDone at h
    split at h
    · rfl
    · cases h
  have hne : t ≠ core.nextTask := by
    rintro rfl
    rw [hx.absent _ (Nat.le_refl _)] at h
    cases h
  rwa [over_stays (step_outcome hs) hne hover]

theorem swept_stays [DecidableEq P] {core core' : State P} {a : Action P} (hx : Exclusive core)
    (hs : m.step a core = some core') (h : core.tasks t = .shutdownAll .done) :
    core'.tasks t = .shutdownAll .done := by
  have hne : t ≠ core.nextTask := by
    rintro rfl
    rw [hx.absent _ (Nat.le_refl _)] at h
    cases h
  rwa [over_stays (step_outcome hs) hne (by rw [h]; rfl)]

/-- A step of the core while the main task and the connections stay as they are. -/
theorem Joined.core [DecidableEq P] {core : State P} {a : Action P} (h : Joined s)
    (hx : Exclusive s.core) (hs : c.sessions.step a s.core = some core) :
    Joined { s with core } where
  absent := h.absent
  connections := h.connections
  cleanups hp t ht := done_stays hx hs (h.cleanups hp t ht)
  swept hp := by
    obtain ⟨t, ht⟩ := h.swept hp
    exact ⟨t, swept_stays hx hs ht⟩

/-- A step of a handler that is in progress. -/
theorem Joined.handler (h : Joined s) {k : Nat} (handler : Handler) (slots : Nat)
    (hk : s.handlers k ≠ .absent) (ho : (s.handlers k).over = false) :
    Joined { s.setHandler k handler with provisioningSlots := slots } := by
  obtain ⟨hlt, hp⟩ := h.active hk ho
  refine ⟨fun k' hk' => ?_, fun hjoined => ?_, h.cleanups, h.swept⟩
  · have hne : k' ≠ k := Nat.ne_of_gt (Nat.lt_of_lt_of_le hlt hk')
    simp only [ServerState.setHandler, Function.update_of_ne hne]
    exact h.absent k' hk'
  · have hj : s.phase.joined = true := hjoined
    rw [hp] at hj
    cases hj

theorem joined_serves [DecidableEq P] (hx : Exclusive s.core) (h : Joined s)
    (hs : Serves c s s') : Joined s' := by
  cases hs with
  | connected hp =>
    refine ⟨fun k hk => ?_, fun hj => ?_, fun hc => ?_, fun hc => ?_⟩
    · have hlt : s.nextHandler < k := hk
      simp only [ServerState.setHandler, Function.update_of_ne (Nat.ne_of_gt hlt)]
      exact h.absent k (Nat.le_of_lt hlt)
    · have hj : s.phase.joined = true := hj
      rw [hp] at hj
      cases hj
    · have hc : s.phase.cleaned = true := hc
      rw [hp] at hc
      cases hc
    · have hc : s.phase = .stopped := hc
      rw [hp] at hc
      cases hc
  | handled k handler slots hm =>
    obtain ⟨hk, ho⟩ := handler_move_source hm
    exact h.handler handler slots hk ho
  | called k handler slots a core hc hstep =>
    obtain ⟨hk, ho, -⟩ := handler_call_source hc
    exact (h.core hx hstep).handler handler slots hk ho
  | cancelled k slots hp hi =>
    obtain ⟨hk, ho, -⟩ := idle_source hi
    exact h.handler .aborted slots hk ho
  | interrupted k slots u core hp hw hstep =>
    obtain ⟨hk, ho⟩ := waits_source hw
    exact (h.core hx hstep).handler .aborted slots hk ho
  | delivered core hp hstep =>
    have hcore := h.core hx hstep
    refine ⟨hcore.absent, hcore.connections, fun hc => ?_, hcore.swept⟩
    have hc : s.phase.cleaned = true := hc
    rw [hp] at hc
    cases hc
  | moved a core ha hstep => exact h.core hx hstep
  | closed core hp hstep =>
    exact ⟨h.absent, fun hc => (by cases hc), fun hc => (by cases hc), fun hc => (by cases hc)⟩
  | rejected u hp hpc =>
    exact ⟨h.absent, fun hc => (by cases hc), fun hc => (by cases hc), fun hc => (by cases hc)⟩
  | joined hp hall =>
    exact ⟨h.absent, fun _ => hall, fun hc => (by cases hc), fun hc => (by cases hc)⟩
  | cleaned core hp hall hstep =>
    refine ⟨h.absent, fun _ => h.connections (by rw [hp]; rfl), fun _ t ht => ?_,
      fun hc => (by cases hc)⟩
    exact done_stays hx hstep (hall t ht)
  | finished u hp hpc =>
    exact ⟨h.absent, fun _ => h.connections (by rw [hp]; rfl),
      fun _ => h.cleanups (by rw [hp]; rfl), fun _ => ⟨u, hpc⟩⟩

/-- When the cleanup tasks have been joined, no call is in progress. -/
theorem idle_core (hj : Joined s) (h : Attended s) (hp : s.phase = .cleaning)
    (hall : ∀ t ∈ s.cleanups, isDone (s.core.tasks t) = true) (t : TaskId) :
    (s.core.tasks t).over = true := by
  cases hover : (s.core.tasks t).over with
  | true => rfl
  | false =>
    rcases h t hover with ⟨k, hk⟩ | hmem | hr | hsw
    · rw [hj.nobody (by rw [hp]; rfl) k] at hk
      cases hk
    · have hdone := hall t hmem
      generalize s.core.tasks t = pc at hdone hover
      unfold isDone at hdone
      split at hdone
      · cases hover
      · cases hdone
    · rw [hp] at hr
      cases hr
    · rw [hp] at hsw
      cases hsw

/-- What holds of the server in every reachable state. -/
structure Orderly (c : ControlServer P) [DecidableEq P] (s : ServerState P) : Prop where
  core : ReachBy c.sessions.step Lone State.init s.core
  joined : Joined s
  attended : Attended s

theorem handler_call_lone {core : State P} {a : Action P} {handler handler' : Handler}
    (hc : HandlerCall m t handler a handler') : Lone a core := by
  cases hc with
  | request request a ho => cases ho <;> trivial
  | _ => trivial

/-- `shutdown_all` is called once, when nothing else is in progress. -/
theorem serves_lone [DecidableEq P] (h : Orderly c s) (hs : Serves c s s') :
    ReachBy c.sessions.step Lone State.init s'.core := by
  cases hs with
  | connected | handled | cancelled | rejected | joined | finished => exact h.core
  | called k handler slots a core hc hstep =>
    exact h.core.next (handler_call_lone hc) hstep
  | interrupted k slots u core hp hw hstep => exact h.core.next (a := .abort u) trivial hstep
  | delivered core hp hstep => exact h.core.next (a := .deliver) trivial hstep
  | moved a core ha hstep =>
    refine h.core.next ?_ hstep
    cases ha <;> trivial
  | closed core hp hstep => exact h.core.next (a := .rejectNewSessions) trivial hstep
  | cleaned core hp hall hstep =>
    refine h.core.next (fun t => ?_) hstep
    have hover := idle_core h.joined h.attended hp hall t
    cases hsw : (s.core.tasks t).sweeping with
    | false => rfl
    | true =>
      rw [sweeping_over hsw] at hover
      cases hover

theorem orderly_reach [DecidableEq P] (h : Reach c.step c.init s) : Orderly c s := by
  have h0 : Orderly c c.init := by
    refine ⟨.start, ⟨fun _ _ => rfl, fun hp => (by cases hp), fun hp => (by cases hp),
      fun hp => (by cases hp)⟩, fun t ht => ?_⟩
    cases ht
  refine h.invariant h0 (fun _ hi hs => ?_)
  have hserves := step_serves hs
  exact ⟨serves_lone hi hserves, joined_serves (exclusive_reach hi.core.reach) hi.joined hserves,
    attended_serves hi.joined hi.attended hserves⟩

/-- When `shutdown` has completed, no call is in progress and no session registered. -/
theorem stopped_idle [DecidableEq P] (h : Orderly c s) (hp : s.phase = .stopped) :
    (∀ t, (s.core.tasks t).over = true) ∧ s.core.sessions = ∅ := by
  constructor
  · intro t
    cases hover : (s.core.tasks t).over with
    | true => rfl
    | false =>
      rcases h.attended t hover with ⟨k, hk⟩ | hmem | hr | hsw
      · rw [h.joined.nobody (by rw [hp]; rfl) k] at hk
        cases hk
      · have hdone := h.joined.cleanups (by rw [hp]; rfl) t hmem
        generalize s.core.tasks t = pc at hdone hover
        unfold isDone at hdone
        split at hdone
        · cases hover
        · cases hdone
      · rw [hp] at hr
        cases hr
      · rw [hp] at hsw
        cases hsw
  · obtain ⟨t, ht⟩ := h.joined.swept hp
    obtain ⟨-, hnone⟩ := emptied_reach h.core.reach t _ ht rfl
    apply SortedMap.ext_get
    intro id
    rw [hnone id, SortedMap.get_empty]

/-- The gauge of active sessions is exact. For every interleaving of calls with one
`shutdown_all` at a time it is the number of registered sessions and of removals
whose decrement has not been made, and no decrement finds it at zero; the server
runs its session manager in this way, and after its shutdown the gauge is zero. -/
theorem gauge_exact [DecidableEq P] (c : ControlServer P) :
    (∀ s, ReachBy c.sessions.step Lone State.init s →
      s.activeSessions = s.sessions.size + owed s ∧
      ∀ t, 0 < (s.tasks t).owes → 0 < s.activeSessions) ∧
    ∀ s, Reach c.step c.init s → ReachBy c.sessions.step Lone State.init s.core ∧
      (s.phase = .stopped → s.core.activeSessions = 0) := by
  refine ⟨fun s h => ?_, fun s h => ?_⟩
  · have hgauge := gauged_reach h
    refine ⟨hgauge, fun t ht => ?_⟩
    have hle := owes_le (exclusive_reach h.reach) t
    unfold Gauged at hgauge
    omega
  · have hall := orderly_reach h
    refine ⟨hall.core, fun hp => ?_⟩
    obtain ⟨hover, hempty⟩ := stopped_idle hall hp
    have hgauge := gauged_reach hall.core
    have howed : owed s.core = 0 := by
      unfold owed overCalls
      exact Finset.sum_eq_zero (fun t _ => over_owes (hover t))
    rw [Gauged, hempty, howed] at hgauge
    exact hgauge

end

def sampleServer : ControlServer Text where
  createMode := .inline
  maxProvisioningRequests := 1
  sessions := sampleManager

def sampleCreateRequest (persistent : Bool) : RawControlRequest :=
  .create (some {
    version := some 2
    persistent
    socketName := none
    unmatched := none
    rules := none
    credentials := none
    unsupportedFields := [] })

/-- A client creates a session and keeps its lease. -/
def sampleLease : List (ServerAction Text) :=
  [.connect, .request 0 (sampleCreateRequest false) ⟨sampleCall.id, zeroSeed⟩ sampleEnvironment] ++
    List.replicate 3 (.advance 0 sampleEnvironment) ++ [.proceed 0, .written 0 true]

/-- The server shuts down, up to the end of the runtime. -/
def sampleEnding : List (ServerAction Text) :=
  [.shutdown, .advance 1 sampleEnvironment, .abortAll, .abort 0, .joinConnections, .joinCleanups] ++
    List.replicate 5 (.advance 2 sampleEnvironment) ++
    [.runtime 0 .leave, .runtime 0 .drained, .runtime 0 .readRetired, .runtime 0 .decideExit,
      .runtime 0 .sendExit, .runtime 0 .finish]

/-- The registry is cleared, and then the gauge is brought down. -/
def sampleClearing : List (ServerAction Text) := List.replicate 2 (.advance 2 sampleEnvironment)

def sampleStopped : List (ServerAction Text) :=
  List.replicate 2 (.advance 2 sampleEnvironment) ++ [.finish]

theorem gauge_exact_sample :
    (∃ s, Reach sampleServer.step sampleServer.init s ∧ s.core.sessions.size = 0 ∧
      owed s.core = 1 ∧ s.core.activeSessions = 0 + 1) ∧
    ∃ s, Reach sampleServer.step sampleServer.init s ∧ s.phase = .stopped ∧
      s.core.activeSessions = 0 := by
  obtain ⟨hgauge, hserver⟩ := gauge_exact sampleServer
  constructor
  · have hrun : (runSteps sampleServer.step (sampleLease ++ sampleEnding ++ sampleClearing)
        sampleServer.init).any
        (fun s => s.core.sessions.size == 0 && owed s.core == 1) = true := by decide +kernel
    obtain ⟨s, hs, htest⟩ := run_any hrun
    simp only [Bool.and_eq_true, beq_iff_eq] at htest
    have hreach : Reach sampleServer.step sampleServer.init s := reach_run .start hs
    have hsame := (hgauge s.core (hserver s hreach).1).1
    rw [htest.1, htest.2] at hsame
    exact ⟨s, hreach, htest.1, htest.2, hsame⟩
  · have hrun : (runSteps sampleServer.step
        (sampleLease ++ sampleEnding ++ sampleClearing ++ sampleStopped)
        sampleServer.init).any (fun s => s.phase == .stopped) = true := by decide +kernel
    obtain ⟨s, hs, htest⟩ := run_any hrun
    rw [beq_iff_eq] at htest
    have hreach : Reach sampleServer.step sampleServer.init s := reach_run .start hs
    exact ⟨s, hreach, htest, (hserver s hreach).2 htest⟩

end Proofs

end Baffle
