import Baffle.Proofs.Gauge
import Baffle.Server

namespace Baffle

/-- The call of the session manager that a handler waits for. -/
def Handler.waits : Handler → Option TaskId
  | .creating t | .calling _ t | .removing t _ => some t
  | _ => none

namespace Proofs

variable {P : Type} {c : ControlServer P} {s s' : ServerState P}

/-- A policy that was validated when it was read. -/
inductive Validated (x : Crates) (session : SessionConfig) : Prop where
  | inline (raw : Option RawSessionConfig) (h : SessionConfig.fromToml x raw = .ok session)
  | file (store : SessionConfigStore) (name : Text) (h : readSession x store name = .ok session)

/-- The arguments of a `create` call of the server. -/
structure Provisioned (m : SessionManager P) (call : CreateCall) : Prop where
  validated : Validated m.crates call.session
  resolved : ∃ files, (m.secretStore files).resolve call.session = .ok call.secrets

/-- What a handler does without the session manager. -/
inductive HandlerMove (core : State P) : Handler → Handler → Prop where
  | refused (response : Response) (permit : Bool) :
      HandlerMove core .reading (.responding response none permit)
  | hungUp : HandlerMove core .reading .ended
  | created (t : TaskId) (call : CreateCall) (result : Except SessionError CreatedSession)
      (hpc : core.tasks t = .create call (.done result)) :
      HandlerMove core (.creating t)
        (.responding (createResponse result).1 (createResponse result).2 false)
  | answered (request : ControlRequest) (t : TaskId) (response : Response)
      (ha : answer request (core.tasks t) = some response) :
      HandlerMove core (.calling request t) (.responding response none false)
  | removed (t : TaskId) (id j : SessionId) (found : Bool)
      (hpc : core.tasks t = .teardown .remove j (.done found)) :
      HandlerMove core (.removing t id) .ended
  | granted (response : Response) (id : SessionId) (permit : Bool) :
      HandlerMove core (.responding response (some id) permit) (.leasing id)
  | written (response : Response) (permit : Bool) :
      HandlerMove core (.responding response none permit) .ended

/-- The call that serves a request for no new session. -/
inductive Operation : ControlRequest → Action P → Prop where
  | stop (id : SessionId) : Operation (.stop id) (.stop id)
  | reload (id : SessionId) : Operation (.reload id) (.reload id)
  | reloadAll : Operation .reloadAll .reloadAll
  | list : Operation .list .list

/-- A handler calls the session manager, as its task `t`. -/
inductive HandlerCall (m : SessionManager P) (t : TaskId) : Handler → Action P → Handler → Prop where
  | create (call : CreateCall) (hp : Provisioned m call) :
      HandlerCall m t .reading (.create call) (.creating t)
  | request (request : ControlRequest) (a : Action P) (ho : Operation request a) :
      HandlerCall m t .reading a (.calling request t)
  | unwritten (response : Response) (id : SessionId) (permit : Bool) :
      HandlerCall m t (.responding response (some id) permit) (.remove id) (.removing t id)
  | released (id : SessionId) : HandlerCall m t (.leasing id) (.remove id) (.removing t id)

/-- A handler that waits, but for no call. -/
inductive Idle : Handler → Prop where
  | reading : Idle .reading
  | responding (response : Response) (lease : Option SessionId) (permit : Bool) :
      Idle (.responding response lease permit)
  | leasing (id : SessionId) : Idle (.leasing id)

/-- The steps that calls and runtimes take by themselves. -/
inductive Internal : Action P → Prop where
  | advance (t : TaskId) (env : Environment P) : Internal (.advance t env)
  | expire (t : TaskId) : Internal (.expire t)
  | runtime (r : RuntimeRef) (move : RuntimeMove) : Internal (.runtime r move)

theorem release_slots (permit : Bool) (h : Nat) (handler : Handler) :
    ∃ slots, (s.release permit).setHandler h handler =
      { s.setHandler h handler with provisioningSlots := slots } := by
  cases permit with
  | true => exact ⟨s.provisioningSlots + 1, rfl⟩
  | false => exact ⟨s.provisioningSlots, rfl⟩

section

variable [DecidableEq P]

/-- The outcomes of a step of the server. -/
inductive Serves (c : ControlServer P) (s : ServerState P) : ServerState P → Prop where
  | connected (hp : s.phase = .running) :
      Serves c s { s.setHandler s.nextHandler .reading with nextHandler := s.nextHandler + 1 }
  | handled (h : Nat) (handler : Handler) (slots : Nat)
      (hm : HandlerMove s.core (s.handlers h) handler) :
      Serves c s { s.setHandler h handler with provisioningSlots := slots }
  | called (h : Nat) (handler : Handler) (slots : Nat) (a : Action P) (core : State P)
      (hc : HandlerCall c.sessions s.core.nextTask (s.handlers h) a handler)
      (hs : c.sessions.step a s.core = some core) :
      Serves c s { s.setHandler h handler with core, provisioningSlots := slots }
  | cancelled (h slots : Nat) (hp : s.phase = .aborting) (hi : Idle (s.handlers h)) :
      Serves c s { s.setHandler h .aborted with provisioningSlots := slots }
  | interrupted (h slots : Nat) (t : TaskId) (core : State P) (hp : s.phase = .aborting)
      (hw : (s.handlers h).waits = some t) (hs : c.sessions.step (.abort t) s.core = some core) :
      Serves c s { s.setHandler h .aborted with core, provisioningSlots := slots }
  | delivered (core : State P) (hp : s.phase = .running)
      (hs : c.sessions.step .deliver s.core = some core) :
      Serves c s { s with core, cleanups := s.core.nextTask :: s.cleanups }
  | moved (a : Action P) (core : State P) (ha : Internal a)
      (hs : c.sessions.step a s.core = some core) : Serves c s { s with core }
  | closed (core : State P) (hp : s.phase = .running)
      (hs : c.sessions.step .rejectNewSessions s.core = some core) :
      Serves c s { s with core, phase := .rejecting s.core.nextTask }
  | rejected (t : TaskId) (hp : s.phase = .rejecting t) (hpc : s.core.tasks t = .returned) :
      Serves c s { s with phase := .aborting }
  | joined (hp : s.phase = .aborting) (hj : ∀ h < s.nextHandler, (s.handlers h).over = true) :
      Serves c s { s with phase := .cleaning }
  | cleaned (core : State P) (hp : s.phase = .cleaning)
      (hj : ∀ t ∈ s.cleanups, isDone (s.core.tasks t) = true)
      (hs : c.sessions.step .shutdownAll s.core = some core) :
      Serves c s { s with core, phase := .sweeping s.core.nextTask }
  | finished (t : TaskId) (hp : s.phase = .sweeping t)
      (hpc : s.core.tasks t = .shutdownAll .done) : Serves c s { s with phase := .stopped }

theorem on_core_some {a : Action P} (h : c.onCore s a = some s') :
    ∃ core, c.sessions.step a s.core = some core ∧ s' = { s with core } := by
  obtain ⟨core, hs, rfl⟩ := Option.map_eq_some_iff.mp h
  exact ⟨core, hs, rfl⟩

theorem call_some {h : Nat} {a : Action P} {next : TaskId → Handler}
    (hcall : c.call s h a next = some s') :
    ∃ core, c.sessions.step a s.core = some core ∧
      s' = { s.setHandler h (next s.core.nextTask) with core } := by
  obtain ⟨s1, hs1, rfl⟩ := Option.map_eq_some_iff.mp hcall
  obtain ⟨core, hs, rfl⟩ := on_core_some hs1
  exact ⟨core, hs, rfl⟩

theorem responded {h : Nat} (hh : s.handlers h = .reading) (response : Response) (permit : Bool)
    (slots : Nat) :
    Serves c s { s.setHandler h (.responding response none permit) with
      provisioningSlots := slots } :=
  .handled h _ slots (by rw [hh]; exact .refused response permit)

theorem create_session_serves {h : Nat} {session : SessionConfig} {configSource : Option Text}
    {draw : Draw} {env : Environment P} (hh : s.handlers h = .reading)
    (hv : Validated c.sessions.crates session)
    (hs : c.createSession h session configSource draw env s = some s') : Serves c s s' := by
  unfold ControlServer.createSession at hs
  split at hs
  · rw [← Option.some.inj hs]
    exact responded hh _ false s.provisioningSlots
  · rename_i secrets hsecrets
    obtain ⟨core, hcore, rfl⟩ := call_some hs
    refine .called h _ (s.provisioningSlots - 1) _ core ?_ hcore
    rw [hh]
    exact .create _ ⟨hv, env.secretFiles, hsecrets⟩

theorem create_from_file_serves {h : Nat} {name : Text} {requireEphemeral : Bool} {draw : Draw}
    {env : Environment P} (hh : s.handlers h = .reading)
    (hs : c.createFromFile h name requireEphemeral draw env s = some s') : Serves c s s' := by
  unfold ControlServer.createFromFile at hs
  split at hs
  · rw [← Option.some.inj hs]
    exact responded hh _ true (s.provisioningSlots - 1)
  · rename_i store hstore
    split at hs
    · rw [← Option.some.inj hs]
      exact responded hh _ true (s.provisioningSlots - 1)
    · rename_i session hread
      split at hs
      · rw [← Option.some.inj hs]
        exact responded hh _ false s.provisioningSlots
      · exact create_session_serves hh (.file store name hread) hs

theorem request_serves {h : Nat} {raw : RawControlRequest} {request : ControlRequest} {draw : Draw}
    {env : Environment P} (hh : s.handlers h = .reading)
    (hr : ControlRequest.fromToml c.sessions.crates raw = .ok request)
    (hs : c.handleRequest h request draw env s = some s') : Serves c s s' := by
  have hcall : ∀ {a : Action P}, Operation request a →
      c.call s h a (.calling request) = some s' → Serves c s s' := by
    intro a ho hs
    obtain ⟨core, hcore, rfl⟩ := call_some hs
    refine .called h _ s.provisioningSlots a core ?_ hcore
    rw [hh]
    exact .request request a ho
  cases request with
  | create session =>
    simp only [ControlServer.handleRequest] at hs
    split at hs
    · rw [← Option.some.inj hs]
      exact responded hh _ false s.provisioningSlots
    · split at hs
      · rw [← Option.some.inj hs]
        exact responded hh _ false s.provisioningSlots
      · refine create_session_serves hh ?_ hs
        cases raw with
        | create document =>
          simp only [ControlRequest.fromToml, bind_ok, pure_ok] at hr
          obtain ⟨config, hconfig, heq⟩ := hr
          cases heq
          exact .inline document hconfig
        | _ => simp [ControlRequest.fromToml] at hr
  | createFromFile name requireEphemeral =>
    simp only [ControlServer.handleRequest] at hs
    split at hs
    · rw [← Option.some.inj hs]
      exact responded hh _ false s.provisioningSlots
    · split at hs
      · rw [← Option.some.inj hs]
        exact responded hh _ false s.provisioningSlots
      · exact create_from_file_serves hh hs
  | stop id => exact hcall (.stop id) hs
  | reload id => exact hcall (.reload id) hs
  | reloadAll => exact hcall .reloadAll hs
  | list => exact hcall .list hs

theorem proceed_serves {h : Nat} (hs : ControlServer.proceed h s = some s') : Serves c s s' := by
  unfold ControlServer.proceed at hs
  split at hs
  · rename_i t hh
    split at hs
    · rename_i call result hpc
      rw [← Option.some.inj hs]
      refine .handled h _ (s.provisioningSlots + 1) ?_
      rw [hh]
      exact .created t call result hpc
    · cases hs
  · rename_i request t hh
    obtain ⟨response, ha, rfl⟩ := Option.map_eq_some_iff.mp hs
    refine .handled h _ s.provisioningSlots ?_
    rw [hh]
    exact .answered request t response ha
  · rename_i t id hh
    split at hs
    · rename_i j found hpc
      rw [← Option.some.inj hs]
      refine .handled h _ s.provisioningSlots ?_
      rw [hh]
      exact .removed t id j found hpc
    · cases hs
  · cases hs

theorem written_serves {h : Nat} {ok : Bool} (hs : c.written h ok s = some s') : Serves c s s' := by
  unfold ControlServer.written at hs
  split at hs
  · rename_i response id permit hh
    split at hs
    · rw [← Option.some.inj hs]
      refine .handled h _ s.provisioningSlots ?_
      rw [hh]
      exact .granted response id permit
    · obtain ⟨core, hcore, rfl⟩ := call_some hs
      refine .called h _ s.provisioningSlots _ core ?_ hcore
      rw [hh]
      exact .unwritten response id permit
  · rename_i response permit hh
    obtain ⟨slots, heq⟩ := release_slots (s := s) permit h .ended
    rw [← Option.some.inj hs, heq]
    refine .handled h _ slots ?_
    rw [hh]
    exact .written response permit
  · cases hs

theorem read_returns_serves {h : Nat} (hs : c.readReturns h s = some s') : Serves c s s' := by
  unfold ControlServer.readReturns at hs
  split at hs
  · rename_i id hh
    obtain ⟨core, hcore, rfl⟩ := call_some hs
    refine .called h _ s.provisioningSlots _ core ?_ hcore
    rw [hh]
    exact .released id
  · cases hs

theorem abort_serves {h : Nat} (hp : s.phase = .aborting) (hs : c.abortHandler h s = some s') :
    Serves c s s' := by
  unfold ControlServer.abortHandler at hs
  split at hs
  · rename_i hh
    rw [← Option.some.inj hs]
    exact .cancelled h s.provisioningSlots hp (hh ▸ .reading)
  · rename_i id hh
    rw [← Option.some.inj hs]
    exact .cancelled h s.provisioningSlots hp (hh ▸ .leasing id)
  · rename_i response lease permit hh
    obtain ⟨slots, heq⟩ := release_slots (s := s) permit h .aborted
    rw [← Option.some.inj hs, heq]
    exact .cancelled h slots hp (hh ▸ .responding response lease permit)
  · rename_i t hh
    obtain ⟨s1, hs1, rfl⟩ := Option.map_eq_some_iff.mp hs
    obtain ⟨core, hcore, rfl⟩ := on_core_some hs1
    exact .interrupted h (s.provisioningSlots + 1) t core hp (by rw [hh]; rfl) hcore
  · rename_i request t hh
    obtain ⟨s1, hs1, rfl⟩ := Option.map_eq_some_iff.mp hs
    obtain ⟨core, hcore, rfl⟩ := on_core_some hs1
    exact .interrupted h s.provisioningSlots t core hp (by rw [hh]; rfl) hcore
  · rename_i t id hh
    obtain ⟨s1, hs1, rfl⟩ := Option.map_eq_some_iff.mp hs
    obtain ⟨core, hcore, rfl⟩ := on_core_some hs1
    exact .interrupted h s.provisioningSlots t core hp (by rw [hh]; rfl) hcore
  · cases hs

theorem internal_serves {a : Action P} (ha : Internal a) (hs : c.onCore s a = some s') :
    Serves c s s' := by
  obtain ⟨core, hcore, rfl⟩ := on_core_some hs
  exact .moved a core ha hcore

theorem step_serves {a : ServerAction P} (hs : c.step a s = some s') : Serves c s s' := by
  cases a with
  | connect =>
    simp only [ControlServer.step] at hs
    split at hs
    · rename_i hp
      rw [← Option.some.inj hs]
      exact .connected hp
    · cases hs
  | reject h error =>
    simp only [ControlServer.step] at hs
    split at hs
    · rename_i hh
      rw [← Option.some.inj hs]
      exact responded hh _ false s.provisioningSlots
    · cases hs
  | hangUp h =>
    simp only [ControlServer.step] at hs
    split at hs
    · rename_i hh
      rw [← Option.some.inj hs]
      refine .handled h _ s.provisioningSlots ?_
      rw [hh]
      exact .hungUp
    · cases hs
  | request h raw draw env =>
    simp only [ControlServer.step] at hs
    split at hs
    · rename_i hh
      split at hs
      · rename_i request hr
        exact request_serves hh hr hs
      · rw [← Option.some.inj hs]
        exact responded hh _ false s.provisioningSlots
    · cases hs
  | proceed h => exact proceed_serves hs
  | written h ok => exact written_serves hs
  | readReturns h => exact read_returns_serves hs
  | abort h =>
    simp only [ControlServer.step] at hs
    split at hs
    · rename_i hp
      exact abort_serves hp hs
    · cases hs
  | deliver =>
    simp only [ControlServer.step] at hs
    split at hs
    · rename_i hp
      obtain ⟨s1, hs1, rfl⟩ := Option.map_eq_some_iff.mp hs
      obtain ⟨core, hcore, rfl⟩ := on_core_some hs1
      exact .delivered core hp hcore
    · cases hs
  | advance t env => exact internal_serves (.advance t env) hs
  | expire t => exact internal_serves (.expire t) hs
  | runtime r move => exact internal_serves (.runtime r move) hs
  | shutdown =>
    simp only [ControlServer.step, ControlServer.proceedShutdown] at hs
    split at hs
    · rename_i hp
      obtain ⟨s1, hs1, rfl⟩ := Option.map_eq_some_iff.mp hs
      obtain ⟨core, hcore, rfl⟩ := on_core_some hs1
      exact .closed core hp hcore
    · cases hs
  | abortAll =>
    simp only [ControlServer.step, ControlServer.proceedShutdown] at hs
    split at hs
    · rename_i t hp
      split at hs
      · rename_i hpc
        rw [← Option.some.inj hs]
        exact .rejected t hp hpc
      · cases hs
    · cases hs
  | joinConnections =>
    simp only [ControlServer.step, ControlServer.proceedShutdown] at hs
    split at hs
    · rename_i hp
      rw [← Option.some.inj hs]
      refine .joined hp.1 (fun h hh => ?_)
      exact List.all_eq_true.mp hp.2 h (List.mem_range.mpr hh)
    · cases hs
  | joinCleanups =>
    simp only [ControlServer.step, ControlServer.proceedShutdown] at hs
    split at hs
    · rename_i hp
      obtain ⟨s1, hs1, rfl⟩ := Option.map_eq_some_iff.mp hs
      obtain ⟨core, hcore, rfl⟩ := on_core_some hs1
      exact .cleaned core hp.1 (List.all_eq_true.mp hp.2) hcore
    · cases hs
  | finish =>
    simp only [ControlServer.step, ControlServer.proceedShutdown] at hs
    split at hs
    · rename_i t hp
      split at hs
      · rename_i hpc
        rw [← Option.some.inj hs]
        exact .finished t hp hpc
      · cases hs
    · cases hs

end

end Proofs

end Baffle
