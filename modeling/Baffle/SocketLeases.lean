import Baffle.Lib.Transition
import Baffle.SocketDirectories

/-!
Any number of sessions that share one `SocketDirectoryRegistry`
(`src/proxy_runtime/rama/ingress.rs`). No call fails but for what is in the tree.
The walk of a `bind` and the drop of a directory set hold the registry lock, so
each is one step; between the other calls every other session may act.
-/

namespace Baffle

/-- Where a `bind`, or the guard that it has returned, is. -/
inductive BindStage where
  | idle
  /-- `open_socket_parent` has returned -/
  | opened (parent : Descriptor) (name : Text) (keys : List FileIdentity)
  /-- there was nothing under the name of the socket -/
  | free (parent : Descriptor) (name : Text) (keys : List FileIdentity)
  /-- the listener is bound -/
  | listening (parent : Descriptor) (name : Text) (keys : List FileIdentity)
  | bound (guard : UnixSocketGuard)
  /-- the directory set is about to be dropped, after an error or with its guard -/
  | releasing (keys : List FileIdentity)
  | dropped

/-- The leases that a stage holds, in the order of acquisition. -/
def BindStage.keys : BindStage → List FileIdentity
  | .idle | .dropped => []
  | .opened _ _ keys | .free _ _ keys | .listening _ _ keys | .releasing keys => keys
  | .bound guard => guard.keys

def BindStage.live : BindStage → Bool
  | .idle | .dropped => false
  | _ => true

structure LeaseState where
  store : SocketStore
  guards : Nat → BindStage
  nextGuard : Nat

inductive LeaseAction where
  /-- a `bind` begins and walks to the parent directory -/
  | enter (path : SocketPath) (alloc : Allocator)
  | inspect (g : Nat)
  | bind (g : Nat) (alloc : Allocator)
  | identify (g : Nat)
  /-- `unlink_owned` of a retired runtime -/
  | retire (g : Nat)
  /-- the guard is dropped, by its owner or by a `bind` that fails after all -/
  | drop (g : Nat)
  | release (g : Nat)

namespace LeaseState

def init (tree : SocketTree) : LeaseState where
  store := { tree, registry := .init, failedRemovals := 0 }
  guards _ := .idle
  nextGuard := 0

def setGuard (s : LeaseState) (g : Nat) (stage : BindStage) : LeaseState :=
  { s with guards := Function.update s.guards g stage }

/-- `open_socket_parent_locked` when no call fails by itself. -/
def openParent (path : SocketPath) (alloc : Allocator) (name : Text) (s : LeaseState) :
    LeaseState :=
  let s' := { s with nextGuard := s.nextGuard + 1 }
  match openSocketParentLocked (fun _ => false) alloc path s.store with
  | (store, keys, some parent) =>
    { s' with store }.setGuard s.nextGuard (.opened parent name keys)
  | (store, keys, none) => { s' with store }.setGuard s.nextGuard (.releasing keys)

def step (action : LeaseAction) (s : LeaseState) : Option LeaseState :=
  match action with
  | .enter path alloc =>
    match path.name with
    | none => none
    | some name =>
      if unixSocketPathBytes ≤ path.bytes then none else some (s.openParent path alloc name)
  | .inspect g =>
    match s.guards g with
    | .opened parent name keys =>
      if (s.store.tree.statAt parent (.name name)).isSome then some (s.setGuard g (.releasing keys))
      else some (s.setGuard g (.free parent name keys))
    | _ => none
  | .bind g alloc =>
    match s.guards g with
    | .free parent name keys =>
      match s.store.tree.createAt parent (.name name) ⟨.socket, alloc.pick s.store.used⟩ with
      | .ok tree =>
        some ({ s with store := { s.store with tree } }.setGuard g (.listening parent name keys))
      | .error _ => some (s.setGuard g (.releasing keys))
    | _ => none
  | .identify g =>
    match s.guards g with
    | .listening parent name keys =>
      match s.store.tree.statAt parent (.name name) with
      | some node => some (s.setGuard g (.bound ⟨parent, name, node.identity, keys⟩))
      | none => some (s.setGuard g (.releasing keys))
    | _ => none
  | .retire g =>
    match s.guards g with
    | .bound guard => some { s with store := guard.unlinkOwned s.store }
    | _ => none
  | .drop g =>
    match s.guards g with
    | .bound guard =>
      some ({ s with store := guard.unlinkOwned s.store }.setGuard g (.releasing guard.keys))
    | _ => none
  | .release g =>
    match s.guards g with
    | .releasing keys =>
      some ({ s with store := s.store.releaseAll keys }.setGuard g .dropped)
    | _ => none

end LeaseState

end Baffle
