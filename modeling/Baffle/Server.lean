import Baffle.System

/-!
The control server (`src/control/server.rs`): one `handle_connection` task for
each control connection, the cleanup tasks of `run`, and `shutdown`. Between two
steps of one task every other task and every runtime may move.
-/

namespace Baffle

inductive SessionCreateMode where
  | inline
  | fileOnly
deriving DecidableEq

/-- A request whose TOML could be parsed. The policy of a `create` is TOML of its own. -/
inductive RawControlRequest where
  | create (session : Option RawSessionConfig)
  | createFromFile (name : Text) (requireEphemeral : Bool)
  | stop (sessionId : SessionId)
  | reload (sessionId : SessionId)
  | reloadAll
  | list

/-- A validated request. -/
inductive ControlRequest where
  | create (session : SessionConfig)
  | createFromFile (name : Text) (requireEphemeral : Bool)
  | stop (sessionId : SessionId)
  | reload (sessionId : SessionId)
  | reloadAll
  | list

def validateSessionId (id : SessionId) : Except String Unit :=
  refuse (id.isEmpty || 128 < Text.len id
      || !id.all (fun c => c.isAlphanum || c == '-' || c == '_'))
    "session_id must be a non-empty opaque identifier"

def ControlRequest.fromToml (x : Crates) : RawControlRequest → Except String ControlRequest
  | .create session => do
    let session ← SessionConfig.fromToml x session
    pure (.create session)
  | .createFromFile name requireEphemeral => do
    validateSessionConfigName name
    pure (.createFromFile name requireEphemeral)
  | .stop sessionId => do
    validateSessionId sessionId
    pure (.stop sessionId)
  | .reload sessionId => do
    validateSessionId sessionId
    pure (.reload sessionId)
  | .reloadAll => pure .reloadAll
  | .list => pure .list

/-- The code and the message of an error. -/
abbrev ControlError := String × String

def errInvalidRequest : ControlError := ("invalid_request", "request is invalid")
def errBusy : ControlError := ("busy", "server is busy")
def errSessionLimit : ControlError := ("session_limit", "session limit has been reached")
def errSessionNotFound : ControlError := ("session_not_found", "session was not found")
def errSecretUnavailable : ControlError :=
  ("secret_unavailable", "one or more requested secrets are unavailable")
def errInternal : ControlError := ("internal_error", "request could not be completed")
def errShuttingDown : ControlError := ("shutting_down", "daemon is shutting down")
def errOperationNotAllowed : ControlError :=
  ("operation_not_allowed", "session creation operation is not allowed by daemon configuration")
def errEphemeralRequired : ControlError :=
  ("ephemeral_required", "session configuration must be ephemeral")

inductive Response where
  | error (error : ControlError)
  | created (id : SessionId) (socket : Text) (persistent : Bool) (credentialSeedBase64url : Text)
  | stopped
  | reloaded (result : SessionReloadResult)
  | results (results : List SessionReloadResult)
  | sessions (sessions : List SessionInfo)

/-- The end of `create_session_response`: the response, and the lease of an ephemeral session. -/
def createResponse : Except SessionError CreatedSession → Response × Option SessionId
  | .ok created =>
    (.created created.info.id created.info.socket created.info.persistent
        created.credentialSeedBase64url,
      if created.info.persistent then none else some created.info.id)
  | .error .atCapacity => (.error errSessionLimit, none)
  | .error .runtime => (.error errInternal, none)
  | .error .shuttingDown => (.error errShuttingDown, none)
  | .error .internal => (.error errInternal, none)

/-- The response to a request whose call has returned. -/
def answer {P : Type} : ControlRequest → Pc P → Option Response
  | .stop _, .teardown .stop _ (.done found) =>
    some (if found then .stopped else .error errSessionNotFound)
  | .reload _, .reloadAnswer [result] => some (.reloaded result)
  | .reload _, .reloadNotFound => some (.error errSessionNotFound)
  | .reloadAll, .reloadAnswer results => some (.results results)
  | .list, .listAnswer sessions => some (.sessions sessions)
  | _, _ => none

/-- Where a `handle_connection` task is, with `lease_id` and whether it holds a
provisioning permit. -/
inductive Handler where
  | absent
  | reading
  | creating (t : TaskId)
  | calling (request : ControlRequest) (t : TaskId)
  | responding (response : Response) (lease : Option SessionId) (permit : Bool)
  | leasing (id : SessionId)
  | removing (t : TaskId) (id : SessionId)
  | ended
  | aborted

def Handler.over : Handler → Bool
  | .ended | .aborted => true
  | _ => false

/-- Where the main task is: in `run`, or at an await of `shutdown`. -/
inductive ServerPhase where
  | running
  | rejecting (t : TaskId)
  | aborting
  | cleaning
  | sweeping (t : TaskId)
  | stopped
deriving DecidableEq

structure ServerState (P : Type) where
  core : State P
  handlers : Nat → Handler
  nextHandler : Nat
  provisioningSlots : Nat
  cleanups : List TaskId
  phase : ServerPhase

namespace ServerState

variable {P : Type}

def setHandler (s : ServerState P) (h : Nat) (handler : Handler) : ServerState P :=
  { s with handlers := Function.update s.handlers h handler }

def respond (s : ServerState P) (h : Nat) (response : Response) : ServerState P :=
  s.setHandler h (.responding response none false)

def acquire (s : ServerState P) : ServerState P :=
  { s with provisioningSlots := s.provisioningSlots - 1 }

def release (s : ServerState P) (permit : Bool) : ServerState P :=
  if permit then { s with provisioningSlots := s.provisioningSlots + 1 } else s

end ServerState

/-- The settings of the server and of its session manager. -/
structure ControlServer (P : Type) where
  createMode : SessionCreateMode
  maxProvisioningRequests : Nat
  sessions : SessionManager P

/-- What a `create` call draws at random. -/
structure Draw where
  id : SessionId
  credentialSeed : CredentialSeed

namespace ControlServer

variable {P : Type} [DecidableEq P] (c : ControlServer P)

def init : ServerState P where
  core := State.init
  handlers _ := .absent
  nextHandler := 0
  provisioningSlots := c.maxProvisioningRequests
  cleanups := []
  phase := .running

/-- A step of the session manager. -/
def onCore (s : ServerState P) (a : Action P) : Option (ServerState P) :=
  (c.sessions.step a s.core).map (fun core => { s with core })

/-- A handler calls the session manager and waits for the new call. -/
def call (s : ServerState P) (h : Nat) (a : Action P) (next : TaskId → Handler) :
    Option (ServerState P) :=
  (c.onCore s a).map (fun s' => s'.setHandler h (next s.core.nextTask))

/-- `create_session_response`, up to the call of `create`. -/
def createSession (h : Nat) (session : SessionConfig) (configSource : Option Text) (draw : Draw)
    (env : Environment P) (s : ServerState P) : Option (ServerState P) :=
  match (c.sessions.secretStore env.secretFiles).resolve session with
  | .error _ => some (s.respond h (.error errSecretUnavailable))
  | .ok secrets =>
    c.call s.acquire h
      (.create { id := draw.id, session, secrets, configSource,
                 credentialSeed := draw.credentialSeed })
      .creating

/-- A permit that could be taken is held until the response is written when there
is no configuration to create a session from. -/
def createFromFile (h : Nat) (name : Text) (requireEphemeral : Bool) (draw : Draw)
    (env : Environment P) (s : ServerState P) : Option (ServerState P) :=
  match env.configs with
  | none => some (s.acquire.setHandler h (.responding (.error errInternal) none true))
  | some store =>
    match readSession c.sessions.crates store name with
    | .error error =>
      some (s.acquire.setHandler h
        (.responding (.error (error.createCode, error.detail)) none true))
    | .ok session =>
      if requireEphemeral && session.persistent then
        some (s.respond h (.error errEphemeralRequired))
      else c.createSession h session (some name) draw env s

def handleRequest (h : Nat) (request : ControlRequest) (draw : Draw) (env : Environment P)
    (s : ServerState P) : Option (ServerState P) :=
  match request with
  | .create session =>
    if c.createMode ≠ .inline then some (s.respond h (.error errOperationNotAllowed))
    else if s.provisioningSlots = 0 then some (s.respond h (.error errBusy))
    else c.createSession h session none draw env s
  | .createFromFile name requireEphemeral =>
    if c.createMode ≠ .fileOnly then some (s.respond h (.error errOperationNotAllowed))
    else if s.provisioningSlots = 0 then some (s.respond h (.error errBusy))
    else c.createFromFile h name requireEphemeral draw env s
  | .stop id => c.call s h (.stop id) (.calling request)
  | .reload id => c.call s h (.reload id) (.calling request)
  | .reloadAll => c.call s h .reloadAll (.calling request)
  | .list => c.call s h .list (.calling request)

/-- The call that a handler waits for has returned. -/
def proceed (h : Nat) (s : ServerState P) : Option (ServerState P) :=
  match s.handlers h with
  | .creating t =>
    match s.core.tasks t with
    | .create _ (.done result) =>
      some ((s.release true).setHandler h
        (.responding (createResponse result).1 (createResponse result).2 false))
    | _ => none
  | .calling request t => (answer request (s.core.tasks t)).map (s.respond h)
  | .removing t _ =>
    match s.core.tasks t with
    | .teardown .remove _ (.done _) => some (s.setHandler h .ended)
    | _ => none
  | _ => none

/-- The response has been written, or could not be. -/
def written (h : Nat) (ok : Bool) (s : ServerState P) : Option (ServerState P) :=
  match s.handlers h with
  | .responding _ (some id) _ =>
    if ok then some (s.setHandler h (.leasing id))
    else c.call s h (.remove id) (fun t => .removing t id)
  | .responding _ none permit => some ((s.release permit).setHandler h .ended)
  | _ => none

/-- The read on a lease ends: another byte, the end of the stream or an error. -/
def readReturns (h : Nat) (s : ServerState P) : Option (ServerState P) :=
  match s.handlers h with
  | .leasing id => c.call s h (.remove id) (fun t => .removing t id)
  | _ => none

/-- An abort takes effect where the task waits. -/
def abortHandler (h : Nat) (s : ServerState P) : Option (ServerState P) :=
  match s.handlers h with
  | .reading | .leasing _ => some (s.setHandler h .aborted)
  | .responding _ _ permit => some ((s.release permit).setHandler h .aborted)
  | .creating t => (c.onCore s (.abort t)).map (fun s => (s.release true).setHandler h .aborted)
  | .calling _ t | .removing t _ => (c.onCore s (.abort t)).map (fun s => s.setHandler h .aborted)
  | _ => none

end ControlServer

inductive ServerAction (P : Type) where
  /-- a client connects -/
  | connect
  /-- the client is not authorized, or its request cannot be read -/
  | reject (h : Nat) (error : ControlError)
  /-- the client closes before it sends a request -/
  | hangUp (h : Nat)
  | request (h : Nat) (request : RawControlRequest) (draw : Draw) (env : Environment P)
  | proceed (h : Nat)
  | written (h : Nat) (ok : Bool)
  | readReturns (h : Nat)
  | abort (h : Nat)
  | deliver
  | advance (t : TaskId) (env : Environment P)
  | expire (t : TaskId)
  | runtime (r : RuntimeRef) (move : RuntimeMove)
  /-- `run` ends, and `shutdown` closes the listener -/
  | shutdown
  | abortAll
  | joinConnections
  | joinCleanups
  | finish

/-- The handlers of all connections have ended. -/
def ServerState.connectionsJoined {P : Type} (s : ServerState P) : Bool :=
  (List.range s.nextHandler).all (fun h => (s.handlers h).over)

def isDone {P : Type} : Pc P → Bool
  | .teardown _ _ (.done _) => true
  | _ => false

def ServerState.cleanupsJoined {P : Type} (s : ServerState P) : Bool :=
  s.cleanups.all (fun t => isDone (s.core.tasks t))

namespace ControlServer

variable {P : Type} [DecidableEq P] (c : ControlServer P)

/-- The steps of `shutdown`, each taking it to its next await. -/
def proceedShutdown (s : ServerState P) : ServerAction P → Option (ServerState P)
  | .shutdown =>
    if s.phase = .running then
      (c.onCore s .rejectNewSessions).map
        (fun s' => { s' with phase := .rejecting s.core.nextTask })
    else none
  | .abortAll =>
    match s.phase with
    | .rejecting t =>
      match s.core.tasks t with
      | .returned => some { s with phase := .aborting }
      | _ => none
    | _ => none
  | .joinConnections =>
    if s.phase = .aborting ∧ s.connectionsJoined then some { s with phase := .cleaning } else none
  | .joinCleanups =>
    if s.phase = .cleaning ∧ s.cleanupsJoined then
      (c.onCore s .shutdownAll).map (fun s' => { s' with phase := .sweeping s.core.nextTask })
    else none
  | .finish =>
    match s.phase with
    | .sweeping t =>
      match s.core.tasks t with
      | .shutdownAll .done => some { s with phase := .stopped }
      | _ => none
    | _ => none
  | _ => none

/-- One step of the server. Events of runtimes are delivered, and connections
accepted, while `run` is running. -/
def step (a : ServerAction P) (s : ServerState P) : Option (ServerState P) :=
  match a with
  | .connect =>
    if s.phase = .running then
      some { s.setHandler s.nextHandler .reading with nextHandler := s.nextHandler + 1 }
    else none
  | .reject h error =>
    match s.handlers h with
    | .reading => some (s.respond h (.error error))
    | _ => none
  | .hangUp h =>
    match s.handlers h with
    | .reading => some (s.setHandler h .ended)
    | _ => none
  | .request h request draw env =>
    match s.handlers h with
    | .reading =>
      match ControlRequest.fromToml c.sessions.crates request with
      | .ok request => c.handleRequest h request draw env s
      | .error _ => some (s.respond h (.error errInvalidRequest))
    | _ => none
  | .proceed h => proceed h s
  | .written h ok => c.written h ok s
  | .readReturns h => c.readReturns h s
  | .abort h => if s.phase = .aborting then c.abortHandler h s else none
  | .deliver =>
    if s.phase = .running then
      (c.onCore s .deliver).map (fun s' => { s' with cleanups := s.core.nextTask :: s.cleanups })
    else none
  | .advance t env => c.onCore s (.advance t env)
  | .expire t => c.onCore s (.expire t)
  | .runtime r move => c.onCore s (.runtime r move)
  | a => c.proceedShutdown s a

end ControlServer

end Baffle
