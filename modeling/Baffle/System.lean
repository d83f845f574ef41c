import Baffle.Lib.Transition
import Baffle.Reload

/-!
The daemon as a transition system: calls on the session manager, the delivery of
exit events by `ControlServer::run`, the abort of control connections at
shutdown, and the tasks of every runtime, in any order.
-/

namespace Baffle

variable {P : Type} [DecidableEq P]

/-- The moves of the tasks of one runtime. -/
inductive RuntimeMove where
  | accept
  | checkGate
  | borrow
  | dispatch
  | turnAway
  | close (i : Nat)
  | leave
  | fail
  | drained
  | aborts
  | readRetired
  | decideExit
  | sendExit
  | finish

inductive Action (P : Type) where
  | create (call : CreateCall)
  | reload (id : SessionId)
  | reloadAll
  | stop (id : SessionId)
  | remove (id : SessionId)
  | list
  | rejectNewSessions
  | shutdownAll
  | deliver
  | advance (t : TaskId) (env : Environment P)
  | expire (t : TaskId)
  | abort (t : TaskId)
  | runtime (r : RuntimeRef) (move : RuntimeMove)

def inCreate (call : CreateCall) (r : State P × CreateStage P) : State P × Pc P :=
  (r.1, .create call r.2)

def inReload (id : SessionId) (batch : Option Batch) (r : State P × ReloadStage P) :
    State P × Pc P := (r.1, .reload id batch r.2)

def inTeardown (kind : TeardownKind) (id : SessionId) (r : State P × TeardownStage P) :
    State P × Pc P := (r.1, .teardown kind id r.2)

def inSweep (r : State P × SweepStage P) : State P × Pc P := (r.1, .shutdownAll r.2)

/-- A section under the registry lock. -/
def underLock (s : State P) (r : State P × Pc P) : Option (State P × Pc P) :=
  if s.registryFree then some r else none

/-- All the runtimes have ended. -/
def allFinished (s : State P) (cells : List RuntimeRef) : Bool :=
  cells.all (fun r => (s.cells r).phase == .finished)

namespace SessionManager

variable (m : SessionManager P)

def advanceCreate (call : CreateCall) (env : Environment P) (s : State P) :
    CreateStage P → Option (State P × Pc P)
  | .reserve => underLock s (inCreate call (m.createReserve call s))
  | .start => some (inCreate call (m.createStart call env s))
  | .release error => underLock s (inCreate call (createRelease call error s))
  | .register runtime => underLock s (inCreate call (m.createRegister call runtime s))
  | .drop runtime =>
    some (s.dropRuntimes [runtime], .create call (.done (.error .shuttingDown)))
  | .done _ => none

def advanceReload (id : SessionId) (batch : Option Batch) (env : Environment P) (s : State P) :
    ReloadStage P → Option (State P × Pc P)
  | .lookup => underLock s (s, reloadLookup id batch s)
  | .lock => if s.serialFree id then some (s, .reload id batch .begin) else none
  | .begin => underLock s (inReload id batch (reloadBegin id s))
  | .prepare source => some (s, .reload id batch (m.reloadPrepare id source env))
  | .compare source target =>
    underLock s (s, .reload id batch (m.reloadCompare id source target s))
  | .commitSame target => underLock s (inReload id batch (m.reloadCommitSame id target s))
  | .limits target => underLock s (inReload id batch (reloadLimits id target s))
  | .start target options => some (inReload id batch (m.reloadStart id target options env s))
  | .commit target options replacement =>
    underLock s (inReload id batch (m.reloadCommit id target options replacement s))
  | .marked target options oldRuntime =>
    some (m.reloadGate id target options s, .reload id batch (.gated target options oldRuntime))
  | .gated target _ oldRuntime => some (inReload id batch (m.reloadRetire id target oldRuntime s))
  | .shutdown replacement result =>
    some (s.shutdownRuntimes [replacement], .reload id batch (.draining replacement.cell result))
  | .draining cell result =>
    if allFinished s [cell] then some (s, .reload id batch (.returning result)) else none
  | .returning result => some (s, afterReload batch result)

def advanceTeardown (t : TaskId) (kind : TeardownKind) (id : SessionId) (s : State P) :
    TeardownStage P → Option (State P × Pc P)
  | .lookup => underLock s (s, .teardown kind id
      (if s.sessions.contains id then .lock else .done false))
  | .lock => if s.serialFree id then some (s, .teardown kind id .claim) else none
  | .claim => underLock s (inTeardown kind id (teardownClaim t kind id s))
  | .shutdown runtimes => some (s.shutdownRuntimes runtimes,
      .teardown kind id (.draining (runtimes.map ProxyRuntime.cell)))
  | .draining cells =>
    if allFinished s cells then some (s, .teardown kind id .finish) else none
  | .finish => underLock s (inTeardown kind id (teardownFinish t id s))
  | .decrement => some (sessionStopped s, .teardown kind id (.done true))
  | .done _ => none

def advanceSweep (t : TaskId) (s : State P) : SweepStage P → Option (State P × Pc P)
  | .begin => underLock s (inSweep (sweepBegin s))
  | .next ids runtimes count => underLock s (inSweep (sweepNext ids runtimes count s))
  | .lock id ids runtimes count =>
    if s.serialFree id then some (s, .shutdownAll (.claim id ids runtimes count)) else none
  | .claim id ids runtimes count =>
    underLock s (inSweep (sweepClaim t id ids runtimes count s))
  | .draining cells count =>
    if allFinished s cells then some (s, .shutdownAll (.clear count)) else none
  | .clear count => underLock s (inSweep (sweepClear t count s))
  | .decrement 0 => some (s, .shutdownAll .done)
  | .decrement (count + 1) => some (sessionStopped s, .shutdownAll (.decrement count))
  | .done => none

/-- One move of a call, up to its next lock or await. -/
def advance (t : TaskId) (env : Environment P) (s : State P) : Pc P → Option (State P × Pc P)
  | .create call stage => m.advanceCreate call env s stage
  | .reload id batch stage => m.advanceReload id batch env s stage
  | .reloadAll => underLock s (s, reloadAllSnapshot s)
  | .teardown kind id stage => advanceTeardown t kind id s stage
  | .shutdownAll stage => advanceSweep t s stage
  | .rejectNewSessions => underLock s ({ s with acceptingSessions := false }, .returned)
  | .list => underLock s ((listSessions s).1, .listAnswer (listSessions s).2)
  | _ => none

end SessionManager

namespace State

variable (s : State P)

def addPermits (semaphore : SemaphoreRef) (n : Nat) : State P :=
  { s with permits := Function.update s.permits semaphore (s.permits semaphore + n) }

def takePermit (semaphore : SemaphoreRef) : State P :=
  { s with permits := Function.update s.permits semaphore (s.permits semaphore - 1) }

/-- A move that only changes the cell. -/
def onCell (r : RuntimeRef) (cell : Option RuntimeCell) : Option (State P) :=
  cell.map (s.setCell r)

def runtimeMove (r : RuntimeRef) : RuntimeMove → Option (State P)
  | .accept => s.onCell r ((s.cells r).accept (s.history (s.cells r).runtimeId).length)
  | .checkGate => s.onCell r ((s.cells r).checkGate (s.gates (s.cells r).runtimeId))
  | .borrow => s.onCell r (s.cells r).borrow
  | .dispatch =>
    if 0 < s.permits (s.cells r).permits then
      (s.takePermit (s.cells r).permits).onCell r
        ((s.cells r).dispatch (s.history (s.cells r).runtimeId).length)
    else none
  | .turnAway => if s.permits (s.cells r).permits = 0 then s.onCell r (s.cells r).turnAway else none
  | .close i => (s.addPermits (s.cells r).permits 1).onCell r ((s.cells r).close i)
  | .leave => s.onCell r (s.cells r).leave
  | .fail => (s.addPermits (s.cells r).permits (s.cells r).connections.length).onCell r
      (s.cells r).fail
  | .drained => s.onCell r (s.cells r).drained
  | .aborts => (s.addPermits (s.cells r).permits (s.cells r).connections.length).onCell r
      (s.cells r).aborts
  | .readRetired => s.onCell r (s.cells r).readRetired
  | .decideExit => s.onCell r ((s.cells r).decideExit (s.gates (s.cells r).runtimeId))
  | .sendExit => (s.cells r).sendExit.map (fun sent =>
      { s.setCell r sent.1 with events := s.events ++ [sent.2] })
  | .finish => s.onCell r (s.cells r).finish

/-- A new call. -/
def spawn (pc : Pc P) : State P :=
  { s.goto s.nextTask pc with nextTask := s.nextTask + 1 }

/-- `abort` of the runtimes whose shutdown takes too long or whose owner is gone. -/
def abortCells (cells : List RuntimeRef) : State P :=
  { s with cells := fun r => if r ∈ cells then (s.cells r).abort else s.cells r }

end State

/-- One step of the daemon. Ids are drawn fresh. -/
def SessionManager.step (m : SessionManager P) (action : Action P) (s : State P) :
    Option (State P) :=
  match action with
  | .create call =>
    if call.id ∈ s.used then none
    else some (({ s with used := insert call.id s.used } : State P).spawn (.create call .reserve))
  | .reload id => some (s.spawn (.reload id none .lookup))
  | .reloadAll => some (s.spawn .reloadAll)
  | .stop id => some (s.spawn (.teardown .stop id .lookup))
  | .remove id => some (s.spawn (.teardown .remove id .lookup))
  | .list => some (s.spawn .list)
  | .rejectNewSessions => some (s.spawn .rejectNewSessions)
  | .shutdownAll => some (s.spawn (.shutdownAll .begin))
  | .deliver =>
    match s.events with
    | [] => none
    | event :: events => some (({ s with events } : State P).spawn
        (.teardown (.runtimeExit event.listenerGeneration) event.runtimeId .lookup))
  | .advance t env => (m.advance t env s (s.tasks t)).map (fun r => r.1.goto t r.2)
  | .expire t => some (s.abortCells (s.tasks t).draining)
  | .abort t =>
    if s.acceptingSessions = false ∧ (s.tasks t).abortable then
      some (((s.dropRuntimes (s.tasks t).owned).abortCells (s.tasks t).draining).goto t .aborted)
    else none
  | .runtime r move => if r < s.nextCell then s.runtimeMove r move else none

end Baffle
