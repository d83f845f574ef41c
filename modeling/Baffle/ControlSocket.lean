import Baffle.SocketOwnership

/-!
The control socket at one path and the daemons that bind and leave it:
`ControlServer::bind`, `ControlServer::shutdown`, `SocketGuard` and the removal of a
stale socket (`src/control/server.rs`). Between two system calls of one daemon the
others may make theirs.
-/

namespace Baffle

/-- Where a daemon is: in `bind` under the startup lock, serving, or in `shutdown`. -/
inductive DaemonStage where
  | absent
  | waiting
  | locked
  | checking
  | probing (identity : FileIdentity)
  | stale (identity : FileIdentity)
  | unlinking
  | clear
  | bound
  | guarded
  | serving
  | draining
  | dropping
  | stopped
deriving DecidableEq

structure ControlDaemon where
  stage : DaemonStage
  listener : Option FileIdentity
  guard : Option FileIdentity

def ControlDaemon.absent : ControlDaemon := { stage := .absent, listener := none, guard := none }

/-- `lock` is the daemon that holds the startup lock; `removals` records every unlink
by a guard: by whom, and whose socket it was. -/
structure ControlPath where
  entry : Option BoundSocket
  lock : Option Nat
  count : Nat
  daemons : Nat → ControlDaemon
  removals : List (Nat × Nat)

inductive ControlLabel where
  | start
  | acquire (d : Nat)
  | look (d : Nat)
  | inspect (d : Nat)
  | probe (d : Nat)
  | recheck (d : Nat)
  | unlinkStale (d : Nat)
  | bind (d : Nat) (identity : FileIdentity)
  | record (d : Nat)
  | finishBind (d : Nat)
  | giveUp (d : Nat)
  | close (d : Nat)
  | checkGuard (d : Nat)
  | removeGuarded (d : Nat)

/-- The stages of `ControlServer::bind`. -/
def DaemonStage.binds : DaemonStage → Bool
  | .locked | .checking | .probing _ | .stale _ | .unlinking | .clear | .bound | .guarded => true
  | _ => false

namespace ControlPath

def init : ControlPath :=
  { entry := none, lock := none, count := 0, daemons := fun _ => .absent, removals := [] }

def set (s : ControlPath) (d : Nat) (daemon : ControlDaemon) : ControlPath :=
  { s with daemons := Function.update s.daemons d daemon }

def stage (s : ControlPath) (d : Nat) : DaemonStage := (s.daemons d).stage

def goto (s : ControlPath) (d : Nat) (stage : DaemonStage) : ControlPath :=
  s.set d { s.daemons d with stage }

/-- The daemon is through: it has closed its listener, dropped its guard and
released the startup lock. -/
def finish (s : ControlPath) (d : Nat) : ControlPath :=
  { s.set d { stage := .stopped, listener := none, guard := none } with
    lock := if s.lock = some d then none else s.lock }

/-- Somebody listens on the socket at the path. -/
def listening (s : ControlPath) (entry : BoundSocket) : Bool :=
  (s.daemons entry.owner).listener.isSome

def acquire (s : ControlPath) (d : Nat) : Option ControlPath :=
  if s.stage d = .waiting ∧ s.lock = none then some { s.goto d .locked with lock := some d }
  else none

/-- `symlink_metadata` of the control path. -/
def look (s : ControlPath) (d : Nat) : Option ControlPath :=
  if s.stage d = .locked then
    some (s.goto d (if s.entry.isSome then .checking else .clear))
  else none

/-- The first `stat_at` of `remove_stale_socket_at_with_probe`. -/
def inspect (s : ControlPath) (d : Nat) : Option ControlPath :=
  if s.stage d = .checking then
    match s.entry with
    | none => some (s.finish d)
    | some entry => some (s.goto d (.probing entry.identity))
  else none

/-- A connection that is refused, or finds no file, means that the socket is stale. -/
def probe (s : ControlPath) (d : Nat) : Option ControlPath :=
  match s.stage d with
  | .probing identity =>
    if s.entry.any s.listening then some (s.finish d) else some (s.goto d (.stale identity))
  | _ => none

def recheck (s : ControlPath) (d : Nat) : Option ControlPath :=
  match s.stage d with
  | .stale identity =>
    if s.entry.map BoundSocket.identity = some identity then some (s.goto d .unlinking)
    else some (s.finish d)
  | _ => none

def unlinkStale (s : ControlPath) (d : Nat) : Option ControlPath :=
  if s.stage d = .unlinking then
    if s.entry.isSome then some { s.goto d .clear with entry := none } else some (s.finish d)
  else none

/-- `UnixListener::bind`: the path is free, and the new file has a number that no
linked file and no open listener has. -/
def bind (s : ControlPath) (d : Nat) (identity : FileIdentity) : Option ControlPath :=
  if s.stage d = .clear ∧ s.entry.isNone ∧
      ∀ r < s.count, (s.daemons r).listener ≠ some identity then
    some { s.set d { s.daemons d with stage := .bound, listener := some identity } with
      entry := some ⟨d, identity⟩ }
  else none

/-- The guard remembers what the path names now. -/
def record (s : ControlPath) (d : Nat) : Option ControlPath :=
  if s.stage d = .bound then
    match s.entry with
    | none => some (s.finish d)
    | some entry =>
      some (s.set d { s.daemons d with stage := .guarded, guard := some entry.identity })
  else none

def finishBind (s : ControlPath) (d : Nat) : Option ControlPath :=
  if s.stage d = .guarded then some { s.goto d .serving with lock := none } else none

/-- Another step of `bind` fails. A guard that was made is dropped first. -/
def giveUp (s : ControlPath) (d : Nat) : Option ControlPath :=
  if s.stage d = .guarded then some (s.goto d .draining)
  else if (s.stage d).binds ∨ s.stage d = .waiting then some (s.finish d)
  else none

def close (s : ControlPath) (d : Nat) : Option ControlPath :=
  if s.stage d = .serving then
    some (s.set d { s.daemons d with stage := .draining, listener := none })
  else none

/-- The check in the drop of the guard. -/
def checkGuard (s : ControlPath) (d : Nat) : Option ControlPath :=
  if s.stage d = .draining then
    if s.entry.isSome ∧ s.entry.map BoundSocket.identity = (s.daemons d).guard then
      some (s.goto d .dropping)
    else some (s.finish d)
  else none

/-- `remove_file`, of whatever the path names now. -/
def removeGuarded (s : ControlPath) (d : Nat) : Option ControlPath :=
  if s.stage d = .dropping then
    match s.entry with
    | none => some (s.finish d)
    | some entry =>
      some { s.finish d with entry := none, removals := s.removals ++ [(d, entry.owner)] }
  else none

def step : ControlLabel → ControlPath → Option ControlPath
  | .start, s =>
    some { s.set s.count { ControlDaemon.absent with stage := .waiting } with count := s.count + 1 }
  | .acquire d, s => s.acquire d
  | .look d, s => s.look d
  | .inspect d, s => s.inspect d
  | .probe d, s => s.probe d
  | .recheck d, s => s.recheck d
  | .unlinkStale d, s => s.unlinkStale d
  | .bind d identity, s => s.bind d identity
  | .record d, s => s.record d
  | .finishBind d, s => s.finishBind d
  | .giveUp d, s => s.giveUp d
  | .close d, s => s.close d
  | .checkGuard d, s => s.checkGuard d
  | .removeGuarded d, s => s.removeGuarded d

end ControlPath

end Baffle
