import Baffle.Secrets

/-!
One proxy runtime (`src/proxy_runtime/rama.rs`, `rama/ingress.rs`): the accept
loop of `run_proxy`, the task that waits for it and reports its end, and the
handle that owns both. Everything that the tasks of a runtime share through
atomics, tokens and channels is one cell; the handle refers to its cell.
-/

namespace Baffle

def maxPolicyGenerations : Nat := 8

abbrev SessionId := Text
abbrev RuntimeRef := Nat
abbrev SemaphoreRef := Nat

/-- What a connection runs under. -/
structure PolicyPair where
  policy : SessionPolicy
  secrets : ResolvedSecrets
deriving DecidableEq

/-- An allocated `ProxyGeneration`; the serial number stands for the address. -/
structure ProxyGeneration where
  serial : Nat
  pair : PolicyPair
deriving DecidableEq

/-- A connection task. The two marks count the committed pairs of its session
at the accept and at the dispatch. -/
structure Connection where
  generation : ProxyGeneration
  acceptedAt : Nat
  dispatchedAt : Nat
deriving DecidableEq

/-- The accept branch of the loop, between its shared reads. -/
inductive Acceptor where
  | idle
  | accepted (acceptedAt : Nat)
  | admitted (acceptedAt : Nat)
  | holding (acceptedAt : Nat) (generation : ProxyGeneration)
deriving DecidableEq

/-- `serving` and `draining` are the loop and the end of `run_proxy`; from
`ended` on it is the waiting task that moves. -/
inductive Phase where
  | serving
  | draining
  | ended
  | checked (retired : Bool)
  | sending (retired : Bool)
  | exiting
  | finished
deriving DecidableEq

structure RuntimeCell where
  runtimeId : SessionId
  listenerGeneration : Nat
  permits : SemaphoreRef
  /-- the value of the watch channel -/
  current : ProxyGeneration
  /-- the weak references, by serial number -/
  generations : List Nat
  nextSerial : Nat
  retired : Bool
  retirement : Bool
  cancelled : Bool
  aborted : Bool
  phase : Phase
  acceptor : Acceptor
  connections : List Connection
  /-- how often the handle was shut down or dropped -/
  disposals : Nat
  /-- whether the session ever had it as its current runtime -/
  installed : Bool
deriving DecidableEq

structure ProxyRuntimeEvent where
  runtimeId : SessionId
  listenerGeneration : Nat
  retired : Bool
deriving DecidableEq

/-- The owning handle. -/
structure ProxyRuntime (P : Type) where
  runtimeId : SessionId
  listenerGeneration : Nat
  socketPath : P
  permits : SemaphoreRef
  credentialSeed : CredentialSeed
  cell : RuntimeRef
deriving DecidableEq

namespace RuntimeCell

/-- The cell of a runtime that was just started. -/
def start (runtimeId : SessionId) (listenerGeneration : Nat) (permits : SemaphoreRef)
    (pair : PolicyPair) : RuntimeCell :=
  { runtimeId, listenerGeneration, permits
    current := ⟨0, pair⟩
    generations := [0]
    nextSerial := 1
    retired := false
    retirement := false
    cancelled := false
    aborted := false
    phase := .serving
    acceptor := .idle
    connections := []
    disposals := 0
    installed := false }

/-- No runtime: what stands in a reference that is not in use. -/
def unused : RuntimeCell :=
  { start [] 0 0 ⟨⟨∅, .deny⟩, ∅⟩ with phase := .finished }

/-- `strong_count() > 0` -/
def alive (cell : RuntimeCell) (serial : Nat) : Bool :=
  cell.current.serial == serial
    || cell.connections.any (fun c => c.generation.serial == serial)
    || match cell.acceptor with
      | .holding _ generation => generation.serial == serial
      | _ => false

/-- `replace_generation`; `none` is the generation limit. -/
def replaceGeneration (cell : RuntimeCell) (pair : PolicyPair) : Option RuntimeCell :=
  let generations := cell.generations.filter cell.alive
  if maxPolicyGenerations ≤ generations.length then none
  else some { cell with
    current := ⟨cell.nextSerial, pair⟩
    generations := generations ++ [cell.nextSerial]
    nextSerial := cell.nextSerial + 1 }

def markRetiring (cell : RuntimeCell) : RuntimeCell := { cell with retired := true }

def retire (cell : RuntimeCell) : RuntimeCell :=
  { cell.markRetiring with retirement := true }

def install (cell : RuntimeCell) : RuntimeCell := { cell with installed := true }

/-- `shutdown` of `n` handles of this cell, up to its wait for the task. -/
def shutdown (n : Nat) (cell : RuntimeCell) : RuntimeCell :=
  { cell with cancelled := cell.cancelled || 0 < n, disposals := cell.disposals + n }

/-- `drop` of `n` handles of this cell, which does not wait. -/
def drop (n : Nat) (cell : RuntimeCell) : RuntimeCell :=
  { cell with
    cancelled := cell.cancelled || 0 < n
    aborted := cell.aborted || 0 < n
    disposals := cell.disposals + n }

def abort (cell : RuntimeCell) : RuntimeCell := { cell with aborted := true }

def accept (now : Nat) (cell : RuntimeCell) : Option RuntimeCell :=
  if cell.phase = .serving ∧ cell.acceptor = .idle then
    some { cell with acceptor := .accepted now }
  else none

/-- The load of the listener gate after an accept. -/
def checkGate (gate : Nat) (cell : RuntimeCell) : Option RuntimeCell :=
  match cell.acceptor with
  | .accepted since =>
    if gate ≠ cell.listenerGeneration then some { cell with acceptor := .idle }
    else some { cell with acceptor := .admitted since }
  | _ => none

/-- The read of the watch channel. -/
def borrow (cell : RuntimeCell) : Option RuntimeCell :=
  match cell.acceptor with
  | .admitted since => some { cell with acceptor := .holding since cell.current }
  | _ => none

/-- `try_acquire_owned` succeeded: the connection task is spawned. -/
def dispatch (now : Nat) (cell : RuntimeCell) : Option RuntimeCell :=
  match cell.acceptor with
  | .holding since generation => some { cell with
      acceptor := .idle
      connections := ⟨generation, since, now⟩ :: cell.connections }
  | _ => none

/-- `try_acquire_owned` failed. -/
def turnAway (cell : RuntimeCell) : Option RuntimeCell :=
  match cell.acceptor with
  | .holding _ _ => some { cell with acceptor := .idle }
  | _ => none

/-- One connection task ends. -/
def close (i : Nat) (cell : RuntimeCell) : Option RuntimeCell :=
  if i < cell.connections.length then some { cell with connections := cell.connections.eraseIdx i }
  else none

/-- The loop sees a cancelled token. -/
def leave (cell : RuntimeCell) : Option RuntimeCell :=
  if cell.phase = .serving ∧ cell.acceptor = .idle ∧ (cell.cancelled || cell.retirement) then
    some { cell with phase := .draining }
  else none

/-- `accept` failed or a connection task panicked: the connections go with the loop. -/
def fail (cell : RuntimeCell) : Option RuntimeCell :=
  if cell.phase = .serving ∧ cell.acceptor = .idle then
    some { cell with phase := .ended, connections := [] }
  else none

def drained (cell : RuntimeCell) : Option RuntimeCell :=
  if cell.phase = .draining ∧ cell.connections = [] then some { cell with phase := .ended }
  else none

/-- The abort of the proxy task takes effect. -/
def aborts (cell : RuntimeCell) : Option RuntimeCell :=
  if cell.aborted ∧ (cell.phase = .serving ∨ cell.phase = .draining) ∧ cell.acceptor = .idle then
    some { cell with phase := .ended, connections := [] }
  else none

def readRetired (cell : RuntimeCell) : Option RuntimeCell :=
  if cell.phase = .ended then some { cell with phase := .checked cell.retired } else none

/-- The load of the gate, which decides whether the end is reported. -/
def decideExit (gate : Nat) (cell : RuntimeCell) : Option RuntimeCell :=
  match cell.phase with
  | .checked retired =>
    if retired || gate == cell.listenerGeneration then
      some { cell with phase := .sending retired }
    else some { cell with phase := .exiting }
  | _ => none

def sendExit (cell : RuntimeCell) : Option (RuntimeCell × ProxyRuntimeEvent) :=
  match cell.phase with
  | .sending retired =>
    some ({ cell with phase := .exiting }, ⟨cell.runtimeId, cell.listenerGeneration, retired⟩)
  | _ => none

def finish (cell : RuntimeCell) : Option RuntimeCell :=
  if cell.phase = .exiting then some { cell with phase := .finished } else none

end RuntimeCell

end Baffle
