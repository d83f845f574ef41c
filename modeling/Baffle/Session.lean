import Baffle.Manager

/-!
The lock sections of `create`, `stop`, `remove`, `runtime_exit`, `shutdown_all`
and `list` (`src/control/session.rs`). Each takes the state in which the call
gets the lock to the state in which it lets go, and to where the call is then.
-/

namespace Baffle

variable {P : Type}

/-- What the environment answers during one move of a call. -/
structure Environment (P : Type) where
  configs : Option SessionConfigStore
  secretFiles : SecretFiles
  currentDir : Option P
  bound : Bool

def socketName (session : SessionConfig) (id : SessionId) : Text :=
  session.socketName.getD (id ++ ".sock".toList)

namespace SessionManager

variable (m : SessionManager P)

def createReserve (call : CreateCall) (s : State P) : State P × CreateStage P :=
  if !s.acceptingSessions then (s, .done (.error .shuttingDown))
  else if m.maxSessions ≤ s.sessions.size + s.provisioning.card then
    (s, .done (.error .atCapacity))
  else if s.sessions.contains call.id || decide (call.id ∈ s.provisioning) then
    (s, .done (.error .internal))
  else ({ s with provisioning := insert call.id s.provisioning }, .start)

/-- From the reservation to the running runtime there is no await. The gate and
the semaphore of the session are made here. -/
def createStart (call : CreateCall) (env : Environment P) (s : State P) : State P × CreateStage P :=
  match absoluteSocketPath m.paths env.currentDir
      (m.paths.join m.socketDir (socketName call.session call.id)) with
  | none => (s, .release .internal)
  | some socketPath =>
    if !env.bound then (s, .release .runtime)
    else
      let semaphore := s.nextCell
      let s := { s with
        gates := Function.update s.gates call.id 1
        permits := Function.update s.permits semaphore m.maxConnectionsPerSession
        history := Function.update s.history call.id
          [⟨SessionPolicy.compile m.crates call.session call.credentialSeed, call.secrets⟩] }
      let (s, runtime) := s.startRuntime m.crates call.id call.session call.secrets
        call.credentialSeed socketPath semaphore 1
      (s, .register runtime)

def createRelease (call : CreateCall) (error : SessionError) (s : State P) :
    State P × CreateStage P :=
  ({ s with provisioning := s.provisioning.erase call.id }, .done (.error error))

def createdSession (call : CreateCall) (runtime : ProxyRuntime P) : ManagedSession P :=
  { info := {
      id := call.id
      socket := m.paths.toStringLossy runtime.socketPath
      persistent := call.session.persistent
      state := .running
      generation := 1
      drainingGenerations := 0 }
    configuration := call.session
    secrets := call.secrets
    configSource := call.configSource
    runtime := some runtime
    retiredRuntimes := []
    listenerGeneration := 1 }

def createRegister (call : CreateCall) (runtime : ProxyRuntime P) (s : State P) :
    State P × CreateStage P :=
  let s := { s with provisioning := s.provisioning.erase call.id }
  if !s.acceptingSessions then (s, .drop runtime)
  else
    let session := m.createdSession call runtime
    let s := s.setCell runtime.cell (s.cells runtime.cell).install
    ({ s.setSession call.id session with activeSessions := s.activeSessions + 1 },
      .done (.ok {
        info := session.info
        credentialSeedBase64url := call.credentialSeed.asBase64url m.crates }))

/-- A tear-down takes the runtimes of a session. -/
def takeRuntimes (t : TaskId) (id : SessionId) (session : ManagedSession P) (s : State P) :
    State P :=
  { s.setSession id session.stopped with
    claimedBy := Function.update s.claimedBy id ((s.claimedBy id).or (some t)) }

/-- Whether the second look at the session ends the call. -/
def alreadyStopping (kind : TeardownKind) (session : ManagedSession P) : Bool :=
  match kind with
  | .stop => session.info.state == .stopping
  | .remove | .runtimeExit _ => session.info.state == .stopping && session.runtime.isNone

/-- The section in which a tear-down claims the session. The exit of another
listener than the current one only forgets that listener. -/
def teardownClaim (t : TaskId) (kind : TeardownKind) (id : SessionId) (s : State P) :
    State P × TeardownStage P :=
  match s.sessions.get id with
  | none => (s, .done false)
  | some session =>
    let claim :=
      if alreadyStopping kind session then (s, TeardownStage.done true)
      else (takeRuntimes t id session s, .shutdown session.runtimes)
    match kind with
    | .runtimeExit listenerGeneration =>
      if session.listenerGeneration ≠ listenerGeneration then
        let s := s.dropRuntimes (session.retiredRuntimes.filter
          (fun runtime => runtime.listenerGeneration == listenerGeneration))
        (s.setSession id (session.retain
          (fun runtime => runtime.listenerGeneration != listenerGeneration)).countDraining,
          .done true)
      else claim
    | _ => claim

/-- `sessions.remove(id)` -/
def removeEntry (t : TaskId) (id : SessionId) (session : ManagedSession P) (s : State P) : State P :=
  { s.dropRuntimes session.runtimes with
    sessions := s.sessions.erase id
    removedBy := Function.update s.removedBy id (t :: s.removedBy id) }

def teardownFinish (t : TaskId) (id : SessionId) (s : State P) : State P × TeardownStage P :=
  match s.sessions.get id with
  | none => (s, .done true)
  | some session => (removeEntry t id session s, .decrement)

/-- `Metrics::session_stopped`: a 64-bit counter wraps around at zero. -/
def sessionStopped (s : State P) : State P :=
  { s with activeSessions := if s.activeSessions = 0 then maxU64 else s.activeSessions - 1 }

def sweepBegin (s : State P) : State P × SweepStage P :=
  ({ s with acceptingSessions := false, provisioning := ∅ }, .next s.sessions.keys [] 0)

def sweepNext (ids : List SessionId) (runtimes : List (ProxyRuntime P)) (count : Nat)
    (s : State P) : State P × SweepStage P :=
  match ids with
  | [] => (s.shutdownRuntimes runtimes, .draining (runtimes.map ProxyRuntime.cell) count)
  | id :: ids =>
    if s.sessions.contains id then (s, .lock id ids runtimes count)
    else (s, .next ids runtimes count)

def sweepClaim (t : TaskId) (id : SessionId) (ids : List SessionId)
    (runtimes : List (ProxyRuntime P)) (count : Nat) (s : State P) : State P × SweepStage P :=
  match s.sessions.get id with
  | none => (s, .next ids runtimes count)
  | some session =>
    (takeRuntimes t id session s, .next ids (runtimes ++ session.runtimes) (count + 1))

/-- `sessions.clear()` -/
def sweepClear (t : TaskId) (count : Nat) (s : State P) : State P × SweepStage P :=
  ({ s.dropRuntimes (s.sessions.values.flatMap ManagedSession.runtimes) with
      sessions := ∅
      removedBy := fun id => if s.sessions.contains id then t :: s.removedBy id else s.removedBy id },
    .decrement count)

def listSessions (s : State P) : State P × List SessionInfo :=
  let sessions := s.sessions.mapValues (fun session =>
    (session.retain (fun runtime => !s.isFinished runtime)).countDraining)
  ({ s.dropRuntimes (s.sessions.values.flatMap (fun session =>
        session.retiredRuntimes.filter s.isFinished)) with sessions },
    sessions.values.map ManagedSession.info)

end SessionManager

end Baffle
