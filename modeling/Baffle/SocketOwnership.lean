import Baffle.Lib.FileTree
import Baffle.Lib.Transition

/-!
The data socket at one path and the runtimes that bind the path one after the
other: `run_proxy` and `UnixSocketGuard` (`src/proxy_runtime/rama/ingress.rs`),
`retire`, `shutdown` and the drop of a runtime (`src/proxy_runtime/rama.rs`). A
file is identified by its device and inode, and the number of a file that is
neither linked nor held open by its listener may be given to a new one.
-/

namespace Baffle

/-- The entry at the path: a socket, and the runtime that bound it. -/
structure BoundSocket where
  owner : Nat
  identity : FileIdentity

/-- Where the owner of a `ProxyRuntime` is. -/
inductive RuntimeOwner where
  | absent
  | binding
  | active
  | retiring
  | retired
  | stopping
  | dropping
  | stopped
deriving DecidableEq

/-- Where `run_proxy` is: in its loop, past `drop(listener)`, or past the guard. -/
inductive ProxyTask where
  | running
  | closing
  | ended
deriving DecidableEq

/-- Who calls `unlink_owned`. -/
inductive Unlinker where
  | retire
  | task
  | owner
deriving DecidableEq

/-- One runtime: its pieces of the path, and the call of `unlink_owned` that has found
its own identity at the path and holds the lock of the guard. -/
structure PathRuntime where
  owner : RuntimeOwner
  task : ProxyTask
  cancelled : Bool
  listener : Option FileIdentity
  guard : Option FileIdentity
  unlinking : Option Unlinker

def PathRuntime.absent : PathRuntime :=
  { owner := .absent, task := .ended, cancelled := false, listener := none, guard := none,
    unlinking := none }

/-- `removals` records every unlink: by whom, and whose entry it was. -/
structure PathState where
  entry : Option BoundSocket
  count : Nat
  runtimes : Nat → PathRuntime
  removals : List (Nat × Nat)

namespace PathState

def init : PathState :=
  { entry := none, count := 0, runtimes := fun _ => .absent, removals := [] }

def set (s : PathState) (r : Nat) (runtime : PathRuntime) : PathState :=
  { s with runtimes := Function.update s.runtimes r runtime }

end PathState

inductive PathLabel where
  | bind (identity : FileIdentity)
  | record (r : Nat)
  | retire (r : Nat)
  | shutdown (r : Nat)
  | drop (r : Nat)
  | endLoop (r : Nat)
  | failTask (r : Nat)
  | abort (r : Nat)
  | inspect (r : Nat) (caller : Unlinker)
  | unlink (r : Nat)

namespace PathRuntime

/-- The runtime is where this call of `unlink_owned` is made. -/
def calls (runtime : PathRuntime) : Unlinker → Bool
  | .retire => runtime.owner == .retiring
  | .task => runtime.task == .closing
  | .owner => runtime.owner == .stopping || runtime.owner == .dropping

/-- After the call. A retirement leaves the guard where it is; the others have taken it. -/
def finish (runtime : PathRuntime) : Unlinker → PathRuntime
  | .retire => { runtime with owner := .retired, unlinking := none }
  | .task => { runtime with task := .ended, guard := none, unlinking := none }
  | .owner =>
    { runtime with owner := .stopped, cancelled := true, guard := none, unlinking := none }

end PathRuntime

namespace PathState

/-- `UnixListener::bind`: the path is free, and the new file has a number that no
linked file and no open listener has. -/
def bind (s : PathState) (identity : FileIdentity) : Option PathState :=
  if s.entry.isNone ∧ ∀ r < s.count, (s.runtimes r).listener ≠ some identity then
    some { s with
      entry := some ⟨s.count, identity⟩
      count := s.count + 1
      runtimes := Function.update s.runtimes s.count
        { PathRuntime.absent with owner := .binding, listener := some identity } }
  else none

/-- The rest of `UnixSocketGuard::bind`: the guard remembers what the path names now. -/
def record (s : PathState) (r : Nat) : Option PathState :=
  if (s.runtimes r).owner = .binding then
    match s.entry with
    | none => some (s.set r { s.runtimes r with owner := .stopped, listener := none })
    | some entry =>
      some (s.set r { s.runtimes r with
        owner := .active
        task := .running
        guard := some entry.identity })
  else none

/-- The check of `unlink_owned`, under the lock of the guard. -/
def inspect (s : PathState) (r : Nat) (caller : Unlinker) : Option PathState :=
  let runtime := s.runtimes r
  if runtime.calls caller ∧ runtime.unlinking = none then
    if runtime.guard.isSome ∧ s.entry.map BoundSocket.identity = runtime.guard then
      some (s.set r { runtime with unlinking := some caller })
    else some (s.set r (runtime.finish caller))
  else none

/-- `unlinkat`, of whatever the path names now. -/
def unlink (s : PathState) (r : Nat) : Option PathState :=
  match (s.runtimes r).unlinking with
  | none => none
  | some caller =>
    let s' := s.set r ((s.runtimes r).finish caller)
    match s.entry with
    | none => some s'
    | some entry => some { s' with entry := none, removals := s.removals ++ [(r, entry.owner)] }

def step : PathLabel → PathState → Option PathState
  | .bind identity, s => s.bind identity
  | .record r, s => s.record r
  | .retire r, s =>
    if (s.runtimes r).owner = .active then
      some (s.set r { s.runtimes r with owner := .retiring, cancelled := true })
    else none
  | .shutdown r, s =>
    if (s.runtimes r).owner = .active ∨ (s.runtimes r).owner = .retired then
      some (s.set r { s.runtimes r with owner := .stopping })
    else none
  | .drop r, s =>
    if (s.runtimes r).owner = .active ∨ (s.runtimes r).owner = .retired then
      some (s.set r { s.runtimes r with owner := .dropping, cancelled := true })
    else none
  | .endLoop r, s =>
    if (s.runtimes r).task = .running ∧ (s.runtimes r).cancelled = true then
      some (s.set r { s.runtimes r with task := .closing, listener := none })
    else none
  | .failTask r, s =>
    if (s.runtimes r).task = .running then
      some (s.set r { s.runtimes r with task := .ended, listener := none })
    else none
  | .abort r, s =>
    if (s.runtimes r).task = .running ∧
        ((s.runtimes r).owner = .dropping ∨ (s.runtimes r).owner = .stopped) then
      some (s.set r { s.runtimes r with task := .ended, listener := none })
    else none
  | .inspect r caller, s => s.inspect r caller
  | .unlink r, s => s.unlink r

end PathState

end Baffle
