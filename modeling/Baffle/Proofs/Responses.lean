import Baffle.Responses
import Baffle.Proofs.Framing
import Baffle.Proofs.Leases

namespace Baffle

/-- What a response tells a client. -/
def Response.meaning (caCertificatePem : Text) : Response → Except ExchangeError ClientReply
  | .error (code, message) => .error (mapRemoteError code message)
  | .created id socket persistent credentialSeedBase64url => .ok (.session {
      id, socketPath := socket, persistent
      caCertificatePem := some caCertificatePem
      credentialSeedBase64url := some credentialSeedBase64url
      lease := !persistent })
  | .stopped => .ok .stopped
  | .reloaded r => .ok (.reloaded r)
  | .results rs => .ok (.results rs)
  | .sessions infos => .ok (.sessions infos)

namespace Proofs
open Streams Json

theorem string_inverts : Inverts asString (fun s : String => .string s.toList) := by
  intro s
  rw [asString, asText, Option.map_some, String.ofList_toList]

theorem lifecycle_inverts : Inverts readLifecycle SessionLifecycle.json := by
  rintro (_ | _) <;> rfl

theorem reload_status_inverts : Inverts readReloadStatus ReloadStatus.json := by
  rintro (_ | _ | _) <;> rfl

theorem session_info_inverts : Inverts readSessionInfo SessionInfo.json := by
  intro info
  have hstate : info.json.field "state" readLifecycle = some info.state :=
    lifecycle_inverts info.state
  rw [readSessionInfo, hstate]
  rfl

theorem reload_result_inverts : Inverts readReloadResult SessionReloadResult.json := by
  rintro ⟨id, status, socket, reason, detail⟩
  generalize hj : SessionReloadResult.json ⟨id, status, socket, reason, detail⟩ = j
  have hstatus : j.field "status" readReloadStatus = some status :=
    hj ▸ reload_status_inverts status
  have hreason : j.optional "reason" asString = some reason := by
    rw [← hj]
    cases reason with
    | none => cases detail <;> exact optional_missing rfl
    | some reason => exact optional_member rfl (string_inverts reason) rfl
  have hdetail : j.optional "detail" asString = some detail := by
    rw [← hj]
    cases detail with
    | none => cases reason <;> exact optional_missing rfl
    | some detail => cases reason <;> exact optional_member rfl (string_inverts detail) rfl
  rw [readReloadResult, hstatus, hreason, hdetail, ← hj]
  rfl

/-- A successful response is read as its result. -/
theorem success_read (members : List (String × Json)) :
    readEnvelope (success (.object members)) =
      some { version := protocolVersion, ok := true, result := some (.object members)
             error := none } := rfl

theorem error_read (error : ControlError) :
    readEnvelope (errorValue error) =
      some { version := protocolVersion, ok := false, result := none, error := some error } := by
  have hremote : readRemoteError
      (.object [("code", .string error.1.toList), ("message", .string error.2.toList)]) =
      some error := by
    show (asString (.string error.1.toList)).bind (fun code =>
      (asString (.string error.2.toList)).bind (fun message => some (code, message))) = some error
    rw [string_inverts error.1, string_inverts error.2]
    rfl
  have herror : (errorValue error).optional "error" readRemoteError = some (some error) :=
    optional_member rfl hremote rfl
  rw [readEnvelope, herror]
  rfl

/-- A session with this lifetime may be created for the request. -/
inductive AsksFor : RawControlRequest → Bool → Prop where
  | inline (session : Option RawSessionConfig) (persistent : Bool) :
      AsksFor (.create session) persistent
  | file (name : Text) (requireEphemeral persistent : Bool)
      (h : requireEphemeral = true → persistent = false) :
      AsksFor (.createFromFile name requireEphemeral) persistent

inductive Meets : RawControlRequest → Response → Prop where
  | error (raw : RawControlRequest) (e : ControlError) : Meets raw (.error e)
  | created (raw : RawControlRequest) (id : SessionId) (socket : Text) (persistent : Bool)
      (seed : Text) (h : AsksFor raw persistent) : Meets raw (.created id socket persistent seed)
  | stopped (id : SessionId) : Meets (.stop id) .stopped
  | reloaded (id : SessionId) (r : SessionReloadResult) : Meets (.reload id) (.reloaded r)
  | results (rs : List SessionReloadResult) : Meets .reloadAll (.results rs)
  | sessions (infos : List SessionInfo) : Meets .list (.sessions infos)

variable {T : Type} {x : ControlCodec T Json} {ca : Text}

theorem open_success {members : List (String × Json)} {bytes : Bytes}
    (hread : x.fromSlice bytes = readEnvelope (success (.object members))) :
    openResponse x bytes = .ok (.object members) := by
  rw [openResponse, hread, success_read]
  rfl

theorem open_error {error : ControlError} {bytes : Bytes}
    (hread : x.fromSlice bytes = readEnvelope (errorValue error)) :
    openResponse x bytes = .error (mapRemoteError error.1 error.2) := by
  rw [openResponse, hread, error_read]
  rfl

/-- A response that fits a call is taken for what it means. -/
theorem meant_received {call : ClientCall} {response : Response} {bytes : Bytes}
    (hm : Meets call.written response)
    (hread : x.fromSlice bytes = readEnvelope (response.value ca)) :
    (openResponse x bytes >>= call.receive) = response.meaning ca := by
  generalize hraw : call.written = raw at hm
  cases hm with
  | error raw e =>
    rw [open_error hread]
    rfl
  | created raw id socket persistent seed ha =>
    rw [open_success hread]
    cases call with
    | create request => rfl
    | createFromFile name requireEphemeral =>
      cases requireEphemeral with
      | false => rfl
      | true =>
        subst hraw
        cases ha with
        | file _ _ _ hp =>
          obtain rfl := hp rfl
          rfl
    | _ =>
      subst hraw
      cases ha
  | stopped id =>
    rw [open_success hread]
    cases call with
    | stop id => rfl
    | _ => cases hraw
  | reloaded id r =>
    rw [open_success hread]
    cases call with
    | reload id =>
      show (successResult (readReloadResult r.json)).bind (fun r => .ok (.reloaded r)) =
        .ok (ClientReply.reloaded r)
      rw [reload_result_inverts]
      rfl
    | _ => cases hraw
  | results rs =>
    rw [open_success hread]
    cases call with
    | reloadAll =>
      show (successResult (asList readReloadResult (.array (rs.map SessionReloadResult.json)))).bind
        (fun rs => .ok (.results rs)) = .ok (ClientReply.results rs)
      rw [list_inverts reload_result_inverts]
      rfl
    | _ => cases hraw
  | sessions infos =>
    rw [open_success hread]
    cases call with
    | list =>
      show (successResult (asList readSessionInfo (.array (infos.map SessionInfo.json)))).bind
        (fun infos => .ok (.sessions infos)) = .ok (ClientReply.sessions infos)
      rw [list_inverts session_info_inverts]
      rfl
    | _ => cases hraw

variable {P : Type} {m : SessionManager P} {core core' : State P} {handler handler' : Handler}
variable {raw : RawControlRequest} {request : ControlRequest}

/-- The lease of a response. -/
def leaseOf : Response → Option SessionId
  | .created id _ false _ => some id
  | _ => none

/-- A request and what its validation leaves of it. -/
inductive Asked : RawControlRequest → ControlRequest → Prop where
  | create (document : Option RawSessionConfig) (session : SessionConfig) :
      Asked (.create document) (.create session)
  | createFromFile (name : Text) (requireEphemeral : Bool) :
      Asked (.createFromFile name requireEphemeral) (.createFromFile name requireEphemeral)
  | stop (id : SessionId) : Asked (.stop id) (.stop id)
  | reload (id : SessionId) : Asked (.reload id) (.reload id)
  | reloadAll : Asked .reloadAll .reloadAll
  | list : Asked .list .list

/-- The connection serves the request, or has served it. -/
inductive Pending (raw : RawControlRequest) (core : State P) : Handler → Prop where
  | creating (t : TaskId) (call : CreateCall) (stage : CreateStage P)
      (hpc : core.tasks t = .create call stage) (ha : AsksFor raw call.session.persistent) :
      Pending raw core (.creating t)
  | calling (request : ControlRequest) (t : TaskId) (hr : Asked raw request) :
      Pending raw core (.calling request t)
  | responding (response : Response) (lease : Option SessionId) (permit : Bool)
      (hm : Meets raw response) (hl : lease = leaseOf response) :
      Pending raw core (.responding response lease permit)
  | leasing (id : SessionId) : Pending raw core (.leasing id)
  | removing (t : TaskId) (id : SessionId) : Pending raw core (.removing t id)
  | ended : Pending raw core .ended
  | aborted : Pending raw core .aborted

theorem from_toml_asked {crates : Crates} (h : ControlRequest.fromToml crates raw = .ok request) :
    Asked raw request := by
  cases raw with
  | create document =>
    simp only [ControlRequest.fromToml, bind_ok, pure_ok] at h
    obtain ⟨session, -, rfl⟩ := h
    exact .create document session
  | createFromFile name requireEphemeral =>
    simp only [ControlRequest.fromToml, bind_ok, pure_ok] at h
    obtain ⟨-, -, rfl⟩ := h
    exact .createFromFile name requireEphemeral
  | stop id =>
    simp only [ControlRequest.fromToml, bind_ok, pure_ok] at h
    obtain ⟨-, -, rfl⟩ := h
    exact .stop id
  | reload id =>
    simp only [ControlRequest.fromToml, bind_ok, pure_ok] at h
    obtain ⟨-, -, rfl⟩ := h
    exact .reload id
  | reloadAll =>
    cases h
    exact .reloadAll
  | list =>
    cases h
    exact .list

theorem pending_error (error : ControlError) (permit : Bool) :
    Pending raw core (.responding (.error error) none permit) :=
  .responding _ _ permit (.error raw error) rfl

/-- The answer of a call that has returned. -/
theorem pending_answer {pc : Pc P} {response : Response} (hr : Asked raw request)
    (ha : answer request pc = some response) :
    Pending raw core (.responding response none false) := by
  unfold answer at ha
  split at ha
  · rename_i id j found
    cases hr
    cases found with
    | true =>
      cases ha
      exact .responding _ _ _ (.stopped id) rfl
    | false =>
      cases ha
      exact pending_error _ _
  · rename_i id result
    cases hr
    cases ha
    exact .responding _ _ _ (.reloaded id result) rfl
  · cases ha
    exact pending_error _ _
  · rename_i results
    cases hr
    cases ha
    exact .responding _ _ _ (.results results) rfl
  · rename_i sessions
    cases hr
    cases ha
    exact .responding _ _ _ (.sessions sessions) rfl
  · cases ha

/-- A session is created with the lifetime that the configuration of its call asks for. -/
theorem pending_created (hc : Creations m core) {t : TaskId} {call : CreateCall}
    {result : Except SessionError CreatedSession}
    (hpc : core.tasks t = .create call (.done result))
    (ha : AsksFor raw call.session.persistent) :
    Pending raw core
      (.responding (createResponse result).1 (createResponse result).2 false) := by
  cases result with
  | error error => cases error <;> exact pending_error _ _
  | ok created =>
    have hsame := (hc.answers t call created hpc).persistent
    refine .responding _ _ _ (.created raw _ _ _ _ (hsame ▸ ha)) ?_
    show (if created.info.persistent then none else some created.info.id) = leaseOf (.created ..)
    cases created.info.persistent <;> rfl

theorem Pending.moved (hc : Creations m core) (h : Pending raw core handler)
    (hm : HandlerMove core handler handler') : Pending raw core handler' := by
  cases hm with
  | refused | hungUp => cases h
  | created t call result hpc =>
    cases h with
    | creating _ call' stage hpc' ha =>
      rw [hpc] at hpc'
      cases hpc'
      exact pending_created hc hpc ha
  | answered request t response ha =>
    cases h with
    | calling _ _ hr => exact pending_answer hr ha
  | removed | written => exact .ended
  | granted response id permit => exact .leasing id

theorem Pending.called {t : TaskId} {a : Action P} (h : Pending raw core handler)
    (hc : HandlerCall m t handler a handler') : Pending raw core' handler' := by
  cases hc with
  | create | request => cases h
  | unwritten response id permit => exact .removing t id
  | released id => exact .removing t id

section

variable [DecidableEq P]

/-- A step of the session manager leaves the connection where it is. -/
theorem Pending.core_step {a : Action P} (h : Pending raw core handler)
    (hs : m.step a core = some core') (hlive : ∀ t, handler.waits = some t → t < core.nextTask)
    (hcreate : ∀ t, handler = .creating t → ∃ call stage, core'.tasks t = .create call stage) :
    Pending raw core' handler := by
  cases h with
  | creating t call stage hpc ha =>
    obtain ⟨call', stage', hpc'⟩ := hcreate t rfl
    have hcall : call' = call := by
      rcases create_before (step_outcome hs) hpc' with hb | ⟨stage0, _, hb, -⟩ | ⟨-, -, hnew, -⟩
      · rw [hpc] at hb
        cases hb
        rfl
      · rw [hpc] at hb
        cases hb
        rfl
      · exact absurd hnew (Nat.ne_of_lt (hlive t rfl))
    exact .creating t call' stage' hpc' (hcall ▸ ha)
  | calling request t hr => exact .calling request t hr
  | responding response lease permit hm hl => exact .responding response lease permit hm hl
  | leasing id => exact .leasing id
  | removing t id => exact .removing t id
  | ended => exact .ended
  | aborted => exact .aborted

end

section

variable [DecidableEq P] {c : ControlServer P} {s s' : ServerState P} {k : Nat}

theorem Pending.serves (ho : Orderly c s) (hh : Holdings s) (hh' : Holdings s')
    (h : Pending raw s.core (s.handlers k)) (hs : Serves c s s') :
    Pending raw s'.core (s'.handlers k) := by
  have hcreations : Creations c.sessions s.core := creations_reach ho.core.reach
  -- a connection that another one moves is where it was
  have hset : ∀ {j : Nat} {handler : Handler}, k ≠ j →
      (s.setHandler j handler).handlers k = s.handlers k := fun hk => Function.update_of_ne hk _ _
  have hself : ∀ {handler : Handler}, (s.setHandler k handler).handlers k = handler :=
    by simp only [ServerState.setHandler, Function.update_self, implies_true]
  have hcore : ∀ {a : Action P} {core : State P}, c.sessions.step a s.core = some core →
      s'.core = core → s'.handlers k = s.handlers k → Pending raw s'.core (s'.handlers k) := by
    intro a core hstep hc he
    have hcreate := hh'.creating k
    rw [hc, he] at hcreate ⊢
    exact h.core_step hstep (hh.live k) hcreate
  cases hs with
  | connected hp =>
    by_cases hk : k = s.nextHandler
    · subst hk
      rw [ho.joined.absent _ (Nat.le_refl _)] at h
      cases h
    · exact (hset hk).symm ▸ h
  | handled j handler slots hm =>
    by_cases hk : k = j
    · subst hk
      exact hself.symm ▸ h.moved hcreations hm
    · exact (hset hk).symm ▸ h
  | called j handler slots a core hc hstep =>
    by_cases hk : k = j
    · subst hk
      exact hself.symm ▸ h.called hc
    · exact hcore hstep rfl (hset hk)
  | cancelled j slots hp hi =>
    by_cases hk : k = j
    · subst hk
      exact hself.symm ▸ .aborted
    · exact (hset hk).symm ▸ h
  | interrupted j slots t core hp hw hstep =>
    by_cases hk : k = j
    · subst hk
      exact hself.symm ▸ .aborted
    · exact hcore hstep rfl (hset hk)
  | delivered core hp hstep => exact hcore hstep rfl rfl
  | moved a core ha hstep => exact hcore hstep rfl rfl
  | closed core hp hstep => exact hcore hstep rfl rfl
  | cleaned core hp hj hstep => exact hcore hstep rfl rfl
  | rejected | joined | finished => exact h

theorem pending_call {a : Action P} {request : ControlRequest} (hr : Asked raw request)
    (hs : c.call s k a (.calling request) = some s') : Pending raw s'.core (s'.handlers k) := by
  obtain ⟨core, -, rfl⟩ := call_some hs
  simp only [ServerState.setHandler, Function.update_self]
  exact .calling request _ hr

omit [DecidableEq P] in
theorem pending_refused {error : ControlError} {permit : Bool}
    (hs : some (s.setHandler k (.responding (.error error) none permit)) = some s') :
    Pending raw s'.core (s'.handlers k) := by
  rw [← Option.some.inj hs]
  simp only [ServerState.setHandler, Function.update_self]
  exact pending_error error permit

theorem pending_session {session : SessionConfig} {configSource : Option Text} {draw : Draw}
    {env : Environment P} (ha : AsksFor raw session.persistent)
    (hs : c.createSession k session configSource draw env s = some s') :
    Pending raw s'.core (s'.handlers k) := by
  unfold ControlServer.createSession at hs
  split at hs
  · exact pending_refused hs
  · obtain ⟨core, hstep, rfl⟩ := call_some hs
    simp only [ServerState.setHandler, Function.update_self]
    exact .creating _ _ _ (create_spawned hstep).1 ha

/-- What a request is turned to. -/
theorem pending_request {draw : Draw} {env : Environment P}
    (hs : c.step (.request k raw draw env) s = some s') :
    Pending raw s'.core (s'.handlers k) := by
  simp only [ControlServer.step] at hs
  split at hs
  · split at hs
    · rename_i request hr
      have hasked := from_toml_asked hr
      cases hasked with
      | create document session =>
        simp only [ControlServer.handleRequest] at hs
        split at hs
        · exact pending_refused hs
        · split at hs
          · exact pending_refused hs
          · exact pending_session (.inline document _) hs
      | createFromFile name requireEphemeral =>
        simp only [ControlServer.handleRequest] at hs
        split at hs
        · exact pending_refused hs
        · split at hs
          · exact pending_refused hs
          · unfold ControlServer.createFromFile at hs
            split at hs
            · exact pending_refused hs
            · split at hs
              · exact pending_refused hs
              · rename_i session hread
                split at hs
                · exact pending_refused hs
                · rename_i hlifetime
                  refine pending_session (.file name requireEphemeral _ (fun hrequire => ?_)) hs
                  rw [hrequire, Bool.true_and, Bool.not_eq_true] at hlifetime
                  exact hlifetime
      | stop id => exact pending_call (.stop id) hs
      | reload id => exact pending_call (.reload id) hs
      | reloadAll => exact pending_call .reloadAll hs
      | list => exact pending_call .list hs
    · exact pending_refused hs
  · cases hs

theorem pending_reach (h : Reach c.step c.init s) (hp : Pending raw s.core (s.handlers k))
    (hrun : Reach c.step s s') : Pending raw s'.core (s'.handlers k) := by
  induction hrun with
  | start => exact hp
  | next before ha hs ih =>
    have hreach := h.trans before
    exact ih.serves (orderly_reach hreach) (granted_reach hreach).holdings
      (granted_reach (hreach.next hs)).holdings (step_serves hs)

/-- The server keeps a connection as a lease when the client does. -/
theorem lease_meaning (ca : Text) (response : Response) :
    leaseOf response = (response.meaning ca).toOption.bind ClientReply.lease := by
  cases response with
  | created id socket persistent seed => cases persistent <;> rfl
  | _ => rfl

/-- A method of the client returns what the server found out: whatever other connections,
calls and runtimes do before its request is answered, the frame of the answer is read as
the result that the method stands for, and the client keeps the connection as the lease
of exactly the session that the server has leased to it. -/
theorem client_server_agree {S T : Type} [Source S UInt8] (x : ControlCodec T Json)
    (c : ControlServer P) (ca : Text) (call : ClientCall) {s0 s1 : ServerState P} {draw : Draw}
    {env : Environment P} {response : Response} {lease : Option SessionId} {permit : Bool}
    {bytes : Bytes} (h : Reach c.step c.init s0)
    (hrequest : c.step (.request k call.written draw env) s0 = some s1)
    (hrun : Reach c.step s1 s) (hk : s.handlers k = .responding response lease permit)
    (hbytes : x.toVec (response.value ca) = some bytes) (hmax : bytes.length ≤ maxResponseBytes)
    (hread : x.fromSlice bytes = readEnvelope (response.value ca)) :
    (writeValue x (response.value ca) .fresh).1 = .ok () ∧
      lease = (response.meaning ca).toOption.bind ClientReply.lease ∧
      ∀ (request : T) (sink : Sink UInt8) (client : S) (after : Bytes),
        (writeRequest x request sink).1 = .ok () →
        Source.content client = (writeValue x (response.value ca) .fresh).2.written ++ after →
        ∃ result client', exchange x request sink client =
            (some result, (writeRequest x request sink).2, client') ∧
          Source.content client' = after ∧
          (result >>= call.receive) = response.meaning ca := by
  have hpending := pending_reach (h.next hrequest) (pending_request hrequest) hrun
  rw [hk] at hpending
  have hu32 : bytes.length < 2 ^ 32 := by
    unfold maxResponseBytes at hmax
    omega
  have hwritten : writeValue x (response.value ca) .fresh = (.ok (), ⟨frame bytes, none, false⟩) :=
    write_value hbytes hu32 rfl
  cases hpending with
  | responding _ _ _ hm hl =>
    rw [hwritten]
    refine ⟨rfl, hl.trans (lease_meaning ca response), ?_⟩
    intro request sink client after hw hs
    have hpos := List.length_pos_of_ne_nil (x.toVec_ne _ bytes hbytes)
    obtain ⟨client', hresponse, hpast⟩ := read_response hs hpos hmax
    refine ⟨_, client', exchange_read hw hresponse, ?_, meant_received hm hread⟩
    rw [hpast.content, hs]
    exact List.drop_left

end

def asciiBytes (text : String) : Bytes := text.toList.map (fun c => UInt8.ofNat c.toNat)

/-- A session without rules that ends with the connection of its client. -/
def sampleCreate : CreateRequest where
  version := protocolVersion
  operation := "create"
  session := { version := sessionConfigVersion, persistent := false, socketName := none,
               unmatched := .deny, credentials := none, rules := ∅ }

def sampleCreateText : String :=
  "version = 2\noperation = \"create\"\n\n[session]\nversion = 2\npersistent = false\n\n[session.rules]\n"

/-- The client creates the session, up to the response of the server. -/
def sampleCreating : List (ServerAction Text) :=
  [.connect, .request 0 (ClientCall.create sampleCreate).written ⟨sampleCall.id, zeroSeed⟩
      sampleEnvironment] ++
    List.replicate 3 (.advance 0 sampleEnvironment) ++ [.proceed 0]

def sampleSocket : Text := "/run/a.sock".toList

def sampleSeedText : Text := List.replicate 43 'A'

def sampleCertificate : Text := "certificate".toList

def sampleCreated : Response := .created sampleCall.id sampleSocket false sampleSeedText

def sampleText : Bytes := asciiBytes ("\x7b\"ok\":true,\"result\":" ++
  "\x7b\"ca_certificate_pem\":\"certificate\"," ++
  "\"credential_seed_base64url\":\"AAAAAAAAAAAAAAAAAAAAAAAAAAAAAAAAAAAAAAAAAAA\"," ++
  "\"id\":\"a\",\"persistent\":false,\"socket\":\"/run/a.sock\"\x7d,\"version\":2\x7d")

/-- The serialisers, as far as this exchange goes. -/
def sampleCodec : ControlCodec String Json where
  toToml request := some (asciiBytes request)
  toVec
    | .object [_, _, ("result", .object [(_, .string id), (_, .string socket), (_, .bool false),
        (_, .string certificate), (_, .string seed)])] =>
      if (id, socket, certificate, seed) =
          (sampleCall.id, sampleSocket, sampleCertificate, sampleSeedText) then some sampleText
      else none
    | _ => none
  fromSlice bytes :=
    if bytes = sampleText then readEnvelope (sampleCreated.value sampleCertificate) else none
  toVec_ne := by
    intro value bytes h
    split at h
    · split at h
      · rw [← Option.some.inj h]
        decide +kernel
      · cases h
    · cases h

def sampleAnswered : Handler → Bool
  | .responding (.created id socket false seed) (some lease) false =>
    decide ((id, socket, seed, lease) = (sampleCall.id, sampleSocket, sampleSeedText, sampleCall.id))
  | _ => false

theorem sample_answered {handler : Handler} (h : sampleAnswered handler = true) :
    handler = .responding sampleCreated (some sampleCall.id) false := by
  unfold sampleAnswered at h
  split at h
  · obtain ⟨rfl, rfl, rfl, rfl⟩ := by simpa only [Prod.mk.injEq] using of_decide_eq_true h
    rfl
  · cases h

/-- The client keeps its connection as the lease of the session that it has created. -/
theorem client_server_agree_sample :
    ∃ s, Reach sampleServer.step sampleServer.init s ∧
      s.handlers 0 = .responding sampleCreated (some sampleCall.id) false ∧
      ∃ result client', exchange sampleCodec sampleCreateText .fresh
          (⟨frame sampleText, [1, 2], .silent⟩ : Incoming UInt8) =
          (some result, ⟨frame (asciiBytes sampleCreateText), none, false⟩, client') ∧
        ∃ opened, (result >>= (ClientCall.create sampleCreate).receive) = .ok (.session opened) ∧
          opened.id = sampleCall.id ∧ opened.lease = true := by
  have hrun : (runSteps sampleServer.step sampleCreating sampleServer.init).any
      (fun s => sampleAnswered (s.handlers 0)) = true := by decide +kernel
  obtain ⟨s, hs, htest⟩ := run_any hrun
  have hk := sample_answered htest
  have hreach : Reach sampleServer.step sampleServer.init s := reach_run .start hs
  obtain ⟨s0, hconnect, hs⟩ := Option.bind_eq_some_iff.mp hs
  obtain ⟨s1, hrequest, hs⟩ := Option.bind_eq_some_iff.mp hs
  have hwritten : writeRequest sampleCodec sampleCreateText .fresh =
      (.ok (), ⟨frame (asciiBytes sampleCreateText), none, false⟩) :=
    write_request rfl (by decide) (by decide) rfl
  have hbytes : sampleCodec.toVec (sampleCreated.value sampleCertificate) = some sampleText :=
    rfl
  have hread : sampleCodec.fromSlice sampleText =
      readEnvelope (sampleCreated.value sampleCertificate) := by
    simp only [sampleCodec, ↓reduceIte]
  obtain ⟨-, -, hexchange⟩ := client_server_agree (S := Incoming UInt8) sampleCodec sampleServer
    sampleCertificate (.create sampleCreate) (Reach.next .start hconnect) hrequest
    (reach_run .start hs) hk hbytes (by decide +kernel) hread
  obtain ⟨result, client', hresult, -, hreceived⟩ := hexchange sampleCreateText .fresh
    ⟨frame sampleText, [1, 2], .silent⟩ [] (by rw [hwritten]) (by decide +kernel)
  rw [hwritten] at hresult
  exact ⟨s, hreach, hk, result, client', hresult, _, hreceived, rfl, rfl⟩

end Proofs

end Baffle
