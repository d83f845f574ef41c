import Baffle.FileConfig
import Baffle.Runtime

/-!
The session registry and the calls in progress on it (`src/control/session.rs`,
`src/control/reload.rs`). A call is a program counter with its local variables;
it moves from one lock section to the next, and between two of its moves every
other call and every runtime may move.
-/

namespace Baffle

abbrev TaskId := Nat

def maxU64 : Nat := 2 ^ 64 - 1

/-- `u64::saturating_add(1)` -/
def saturatingSucc (n : Nat) : Nat := if n < maxU64 then n + 1 else n

/-- `u64::checked_add(1)` -/
def checkedSucc (n : Nat) : Option Nat := if n < maxU64 then some (n + 1) else none

/-- The operations of `std::path` that the control plane uses. -/
structure Paths (P : Type) where
  join : P → Text → P
  joinPath : P → P → P
  isAbsolute : P → Bool
  fromText : Text → P
  toStringLossy : P → Text

/-- The current directory is read from the environment, which may fail. -/
def absoluteSocketPath {P : Type} (paths : Paths P) (currentDir : Option P) (path : P) : Option P :=
  if paths.isAbsolute path then some path else currentDir.map (fun dir => paths.joinPath dir path)

/-- The settings of a `SessionManager`, and those of the secret store that its callers pass. -/
structure SessionManager (P : Type) where
  crates : Crates
  paths : Paths P
  socketDir : P
  maxSessions : Nat
  maxConnectionsPerSession : Nat
  trustedOperatorUid : Nat
  allowedSecrets : Finset Text

/-- The daemon's secret store, with what its directory holds at the moment. -/
def SessionManager.secretStore {P : Type} (m : SessionManager P) (files : SecretFiles) :
    SecretStore :=
  { trustedOperatorUid := m.trustedOperatorUid, allowed := m.allowedSecrets, files }

inductive SessionLifecycle where
  | running
  | stopping
deriving DecidableEq

structure SessionInfo where
  id : SessionId
  socket : Text
  persistent : Bool
  state : SessionLifecycle
  generation : Nat
  drainingGenerations : Nat
deriving DecidableEq

/-- The reload lock and the listener gate of a session are shared objects; they
are kept in the system state under the session's id. -/
structure ManagedSession (P : Type) where
  info : SessionInfo
  configuration : SessionConfig
  secrets : ResolvedSecrets
  configSource : Option Text
  runtime : Option (ProxyRuntime P)
  retiredRuntimes : List (ProxyRuntime P)
  listenerGeneration : Nat
deriving DecidableEq

inductive SessionError where
  | atCapacity
  | runtime
  | shuttingDown
  | internal
deriving DecidableEq

inductive ReloadStatus where
  | reloaded
  | unchanged
  | failed
deriving DecidableEq

structure SessionReloadResult where
  id : SessionId
  status : ReloadStatus
  socket : Text
  reason : Option String
  detail : Option String
deriving DecidableEq

namespace SessionReloadResult

def reloaded (id : SessionId) (socket : Text) : SessionReloadResult :=
  { id, status := .reloaded, socket, reason := none, detail := none }

def unchanged (id : SessionId) (socket : Text) : SessionReloadResult :=
  { id, status := .unchanged, socket, reason := none, detail := none }

def failed (id : SessionId) (socket : Text) (reason : String) : SessionReloadResult :=
  { id, status := .failed, socket, reason := some reason, detail := none }

def failedWithDetail (id : SessionId) (socket : Text) (reason detail : String) :
    SessionReloadResult :=
  { id, status := .failed, socket, reason := some reason, detail := some detail }

end SessionReloadResult

/-- Arguments of `create`, with the seed and the id it draws first. -/
structure CreateCall where
  id : SessionId
  session : SessionConfig
  secrets : ResolvedSecrets
  configSource : Option Text
  credentialSeed : CredentialSeed

structure CreatedSession where
  info : SessionInfo
  credentialSeedBase64url : Text

inductive CreateStage (P : Type) where
  | reserve
  | start
  | release (error : SessionError)
  | register (runtime : ProxyRuntime P)
  | drop (runtime : ProxyRuntime P)
  | done (result : Except SessionError CreatedSession)

inductive TeardownKind where
  | stop
  | remove
  | runtimeExit (listenerGeneration : Nat)
deriving DecidableEq

/-- `stop`, `remove` and `runtime_exit`. -/
inductive TeardownStage (P : Type) where
  | lookup
  | lock
  | claim
  | shutdown (runtimes : List (ProxyRuntime P))
  | draining (cells : List RuntimeRef)
  | finish
  | decrement
  | done (found : Bool)

/-- `shutdown_all`, with its `session_ids`, `runtimes` and `session_count`. -/
inductive SweepStage (P : Type) where
  | begin
  | next (ids : List SessionId) (runtimes : List (ProxyRuntime P)) (count : Nat)
  | lock (id : SessionId) (ids : List SessionId) (runtimes : List (ProxyRuntime P)) (count : Nat)
  | claim (id : SessionId) (ids : List SessionId) (runtimes : List (ProxyRuntime P)) (count : Nat)
  | draining (cells : List RuntimeRef) (count : Nat)
  | clear (count : Nat)
  | decrement (count : Nat)
  | done

/-- What the first section of `reload_locked` reads. -/
structure ReloadSource where
  source : Text
  secrets : ResolvedSecrets
  socket : Text
  persistent : Bool

/-- A validated candidate and where it wants to listen. -/
structure ReloadTarget (P : Type) where
  candidate : SessionConfig
  secrets : ResolvedSecrets
  path : P
  socket : Text

/-- What the replacement takes over from the current runtime. -/
structure Replacement where
  permits : SemaphoreRef
  credentialSeed : CredentialSeed
  nextListenerGeneration : Nat

inductive ReloadStage (P : Type) where
  | lookup
  | lock
  | begin
  | prepare (source : ReloadSource)
  | compare (source : ReloadSource) (target : ReloadTarget P)
  | commitSame (target : ReloadTarget P)
  | limits (target : ReloadTarget P)
  | start (target : ReloadTarget P) (options : Replacement)
  | commit (target : ReloadTarget P) (options : Replacement) (replacement : ProxyRuntime P)
  | marked (target : ReloadTarget P) (options : Replacement) (oldRuntime : ProxyRuntime P)
  | gated (target : ReloadTarget P) (options : Replacement) (oldRuntime : ProxyRuntime P)
  | shutdown (replacement : ProxyRuntime P) (result : SessionReloadResult)
  | draining (cell : RuntimeRef) (result : SessionReloadResult)
  | returning (result : SessionReloadResult)

/-- The loop of `reload_all` around one `reload`. -/
structure Batch where
  socket : Text
  rest : List (SessionId × Text)
  results : List SessionReloadResult

inductive Pc (P : Type) where
  | absent
  | create (call : CreateCall) (stage : CreateStage P)
  | reload (id : SessionId) (batch : Option Batch) (stage : ReloadStage P)
  | reloadAll
  | reloadAnswer (results : List SessionReloadResult)
  | reloadNotFound
  | teardown (kind : TeardownKind) (id : SessionId) (stage : TeardownStage P)
  | shutdownAll (stage : SweepStage P)
  | rejectNewSessions
  | list
  | listAnswer (sessions : List SessionInfo)
  | returned
  | aborted

namespace ReloadStage

variable {P : Type}

/-- The stages inside `reload_locked`, where the reload lock is held. -/
def locked : ReloadStage P → Bool
  | .lookup | .lock => false
  | _ => true

def owned : ReloadStage P → List (ProxyRuntime P)
  | .commit _ _ runtime | .marked _ _ runtime | .gated _ _ runtime | .shutdown runtime _ => [runtime]
  | _ => []

end ReloadStage

namespace TeardownStage

variable {P : Type}

def locked : TeardownStage P → Bool
  | .claim | .shutdown _ | .draining _ | .finish | .decrement => true
  | _ => false

end TeardownStage

namespace Pc

variable {P : Type}

/-- The session whose reload lock the call holds. -/
def serial : Pc P → Option SessionId
  | .reload id _ stage => if stage.locked then some id else none
  | .teardown _ id stage => if stage.locked then some id else none
  | .shutdownAll (.claim id _ _ _) => some id
  | _ => none

/-- Whether the call holds the registry lock from one move to the next. -/
def guards : Pc P → Bool
  | .reload _ _ (.marked ..) | .reload _ _ (.gated ..) => true
  | _ => false

/-- The runtimes that the call owns. -/
def owned : Pc P → List (ProxyRuntime P)
  | .create _ (.register runtime) | .create _ (.drop runtime) => [runtime]
  | .reload _ _ stage => stage.owned
  | .teardown _ _ (.shutdown runtimes) => runtimes
  | .shutdownAll (.next _ runtimes _) | .shutdownAll (.lock _ _ runtimes _)
  | .shutdownAll (.claim _ _ runtimes _) => runtimes
  | _ => []

/-- The runtimes whose shutdown the call waits for. -/
def draining : Pc P → List RuntimeRef
  | .reload _ _ (.draining cell _) => [cell]
  | .teardown _ _ (.draining cells) => cells
  | .shutdownAll (.draining cells _) => cells
  | _ => []

/-- Whether the call is suspended at an await, where an abort takes effect. Only
the tasks of control connections are aborted. -/
def abortable : Pc P → Bool
  | .create _ .reserve | .create _ (.release _) | .create _ (.register _) => true
  | .reload _ _ stage =>
    match stage with
    | .lookup | .lock | .begin | .compare .. | .commitSame _ | .limits _ | .commit .. | .draining .. =>
      true
    | _ => false
  | .reloadAll | .list => true
  | .teardown kind _ stage =>
    match kind with
    | .runtimeExit _ => false
    | _ => match stage with
      | .lookup | .lock | .claim | .draining _ | .finish => true
      | _ => false
  | _ => false

end Pc

structure State (P : Type) where
  acceptingSessions : Bool
  sessions : SortedMap SessionId (ManagedSession P)
  provisioning : Finset SessionId
  activeSessions : Nat
  gates : SessionId → Nat
  cells : RuntimeRef → RuntimeCell
  nextCell : RuntimeRef
  permits : SemaphoreRef → Nat
  events : List ProxyRuntimeEvent
  tasks : TaskId → Pc P
  nextTask : TaskId
  /-- ids drawn so far -/
  used : Finset SessionId
  /-- the committed pairs of each session, oldest first -/
  history : SessionId → List PolicyPair
  /-- the call that took the runtimes of a running session -/
  claimedBy : SessionId → Option TaskId
  /-- the calls that removed the entry of a session -/
  removedBy : SessionId → List TaskId

namespace State

variable {P : Type}

def init : State P where
  acceptingSessions := true
  sessions := ∅
  provisioning := ∅
  activeSessions := 0
  gates _ := 0
  cells _ := .unused
  nextCell := 0
  permits _ := 0
  events := []
  tasks _ := .absent
  nextTask := 0
  used := ∅
  history _ := []
  claimedBy _ := none
  removedBy _ := []

def goto (s : State P) (t : TaskId) (pc : Pc P) : State P :=
  { s with tasks := Function.update s.tasks t pc }

def setCell (s : State P) (r : RuntimeRef) (cell : RuntimeCell) : State P :=
  { s with cells := Function.update s.cells r cell }

def setSession (s : State P) (id : SessionId) (session : ManagedSession P) : State P :=
  { s with sessions := s.sessions.insert id session }

/-- Whether the registry lock is free. -/
def registryFree (s : State P) : Bool := (List.range s.nextTask).all (fun t => !(s.tasks t).guards)

/-- Whether the reload lock of a session is free. -/
def serialFree (s : State P) (id : SessionId) : Bool :=
  (List.range s.nextTask).all (fun t => (s.tasks t).serial != some id)

/-- `ProxyRuntime::is_finished` -/
def isFinished (s : State P) (runtime : ProxyRuntime P) : Bool :=
  (s.cells runtime.cell).phase == .finished

/-- The start of `shutdown` on each of the runtimes. -/
def shutdownRuntimes (s : State P) (runtimes : List (ProxyRuntime P)) : State P :=
  { s with cells := fun r => (s.cells r).shutdown ((runtimes.map ProxyRuntime.cell).count r) }

/-- Dropping the handles. -/
def dropRuntimes (s : State P) (runtimes : List (ProxyRuntime P)) : State P :=
  { s with cells := fun r => (s.cells r).drop ((runtimes.map ProxyRuntime.cell).count r) }

/-- `start_with_options`, when the socket could be bound. -/
def startRuntime (s : State P) (x : Crates) (id : SessionId) (session : SessionConfig)
    (secrets : ResolvedSecrets) (credentialSeed : CredentialSeed) (socketPath : P)
    (permits : SemaphoreRef) (listenerGeneration : Nat) : State P × ProxyRuntime P :=
  let pair := ⟨SessionPolicy.compile x session credentialSeed, secrets⟩
  ({ s with
      cells := Function.update s.cells s.nextCell
        (RuntimeCell.start id listenerGeneration permits pair)
      nextCell := s.nextCell + 1 },
    { runtimeId := id, listenerGeneration, socketPath, permits, credentialSeed, cell := s.nextCell })

end State

namespace ManagedSession

variable {P : Type}

/-- All handles of a session. -/
def runtimes (session : ManagedSession P) : List (ProxyRuntime P) :=
  session.retiredRuntimes ++ session.runtime.toList

/-- The session once a tear-down has taken its runtimes. -/
def stopped (session : ManagedSession P) : ManagedSession P :=
  { session with
    info := { session.info with state := .stopping }
    runtime := none
    retiredRuntimes := [] }

/-- `retired_runtimes.retain` -/
def retain (session : ManagedSession P) (keep : ProxyRuntime P → Bool) : ManagedSession P :=
  { session with retiredRuntimes := session.retiredRuntimes.filter keep }

/-- `info.draining_generations = retired_runtimes.len()` -/
def countDraining (session : ManagedSession P) : ManagedSession P :=
  { session with
    info := { session.info with drainingGenerations := session.retiredRuntimes.length } }

end ManagedSession

end Baffle
