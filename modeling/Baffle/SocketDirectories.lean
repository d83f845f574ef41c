import Baffle.Lib.FileTree
import Baffle.Lib.Text

/-!
Binding of proxy sockets and the leases on their directories
(`src/proxy_runtime/rama/ingress.rs`). The calls that may fail in one `bind` are
named by their place in it. The calls that only clean up are never interfered
with: they fail where the tree makes them fail, and such failures are counted.
-/

namespace Baffle

/-- A directory that was opened without following links. -/
abbrev Descriptor := OpenDirectory Text FileIdentity

abbrev SocketTree := FileTree Text FileIdentity

/-- What the file system calls a new file: no identity in use or held open. -/
structure Allocator where
  pick : Finset FileIdentity → FileIdentity
  fresh : ∀ used, pick used ∉ used

structure DirectoryRecord where
  parent : Descriptor
  name : PathComponent Text
  createdByBaffle : Bool
  leases : Nat
deriving DecidableEq

/-- A record without leases is dropped at once. -/
@[ext] structure SocketDirectoryRegistry where
  directories : SortedMap FileIdentity DirectoryRecord
  held : ∀ key record, directories.get key = some record → 0 < record.leases

namespace SocketDirectoryRegistry

def init : SocketDirectoryRegistry where
  directories := ∅
  held key record h := by
    rw [SortedMap.get_empty] at h
    cases h

def get (registry : SocketDirectoryRegistry) (key : FileIdentity) : Option DirectoryRecord :=
  registry.directories.get key

def put (registry : SocketDirectoryRegistry) (key : FileIdentity) (record : DirectoryRecord)
    (h : 0 < record.leases) : SocketDirectoryRegistry where
  directories := registry.directories.insert key record
  held key' record' hget := by
    rw [SortedMap.get_insert] at hget
    split at hget
    · rw [← Option.some.inj hget]
      exact h
    · exact registry.held key' record' hget

def remove (registry : SocketDirectoryRegistry) (key : FileIdentity) :
    SocketDirectoryRegistry where
  directories := registry.directories.erase key
  held key' record' hget := by
    rw [SortedMap.get_erase] at hget
    split at hget
    · cases hget
    · exact registry.held key' record' hget

/-- `register_directory`, after the clone of the parent descriptor. -/
def register (registry : SocketDirectoryRegistry) (parent : Descriptor) (name : PathComponent Text)
    (key : FileIdentity) (createdByBaffle : Bool) : SocketDirectoryRegistry :=
  let record := (registry.get key).getD ⟨parent, name, createdByBaffle, 0⟩
  registry.put key { record with
    createdByBaffle := record.createdByBaffle || createdByBaffle
    leases := record.leases + 1 } (Nat.succ_pos _)

end SocketDirectoryRegistry

structure SocketStore where
  tree : SocketTree
  registry : SocketDirectoryRegistry
  /-- the removals that have failed so far -/
  failedRemovals : Nat

namespace SocketStore

/-- Registered directories are held open, like those that exist. -/
def used (s : SocketStore) : Finset FileIdentity :=
  s.tree.identities ∪ s.registry.directories.keys.toFinset

/-- `unlinkat` -/
def unlink (s : SocketStore) (parent : Descriptor) (name : PathComponent Text) (directory : Bool) :
    SocketStore :=
  match s.tree.unlinkAt parent name directory with
  | .ok tree => { s with tree }
  | .error _ => { s with failedRemovals := s.failedRemovals + 1 }

/-- `remove_created_directory_if_unchanged`, and the removal of `release_directory_lease` -/
def removeDirectoryIfUnchanged (s : SocketStore) (parent : Descriptor) (name : PathComponent Text)
    (expected : FileIdentity) : SocketStore :=
  if s.tree.statAt parent name = some ⟨.directory, expected⟩ then s.unlink parent name true else s

def releaseDirectoryLease (s : SocketStore) (key : FileIdentity) : SocketStore :=
  match s.registry.get key with
  | none => s
  | some record =>
    if h : 0 < record.leases - 1 then
      { s with registry := s.registry.put key { record with leases := record.leases - 1 } h }
    else
      let s := if record.createdByBaffle then
          s.removeDirectoryIfUnchanged record.parent record.name key
        else s
      { s with registry := s.registry.remove key }

/-- The drop of a `CreatedDirectorySet`: the last lease goes first. -/
def releaseAll (s : SocketStore) (keys : List FileIdentity) : SocketStore :=
  keys.foldr (fun key s => s.releaseDirectoryLease key) s

end SocketStore

inductive ModeCall where
  | reopen
  | inspect
  | change
deriving DecidableEq

/-- The calls of one `bind`. -/
inductive BindCall where
  | currentDir
  | openRoot
  | openParent (index : Nat)
  | createParent (index : Nat)
  | reopenParent (index : Nat)
  | inspectParent (index : Nat)
  | setParentMode (index : Nat) (call : ModeCall)
  | cloneParent (index : Nat)
  | inspectPath
  | bindSocket
  | inspectSocket
  | setSocketMode
  | checkSocket
deriving DecidableEq

/-- A path as `bind` takes it apart. There is no name when the path has none, or
one with a NUL. The parents are the components of the normalized parent path. -/
structure SocketPath where
  relative : Bool
  bytes : Nat
  parents : List (PathComponent Text)
  name : Option Text

def unixSocketPathBytes : Nat := 108

/-- A call that may fail for a reason outside the tree. -/
def attempt {α : Type} (fails : Bool) (result : Except FileError α) : Except FileError α :=
  if fails then .error .other else result

section Bind

variable (fails : BindCall → Bool) (alloc : Allocator)

/-- `openat` again, after `mkdirat` -/
def reopenComponent (index : Nat) (current : Descriptor) (c : PathComponent Text) (made : Bool)
    (s : SocketStore) : SocketStore × Option (Descriptor × Bool) :=
  match attempt (fails (.reopenParent index)) (s.tree.openAt current c) with
  | .ok next => (s, some (next, made))
  | .error _ => (s, none)

/-- `openat`, and `mkdirat` where there is nothing. -/
def openOrCreate (index : Nat) (current : Descriptor) (c : PathComponent Text) (s : SocketStore) :
    SocketStore × Option (Descriptor × Bool) :=
  match attempt (fails (.openParent index)) (s.tree.openAt current c) with
  | .ok next => (s, some (next, false))
  | .error .notFound =>
    match attempt (fails (.createParent index))
        (s.tree.createAt current c ⟨.directory, alloc.pick s.used⟩) with
    | .ok tree => reopenComponent fails index current c true { s with tree }
    | .error .alreadyExists => reopenComponent fails index current c false s
    | .error _ => (s, none)
  | .error _ => (s, none)

/-- `set_created_directory_mode` -/
def setCreatedDirectoryMode (index : Nat) (current : Descriptor) (c : PathComponent Text)
    (expected : FileIdentity) (s : SocketStore) : Bool :=
  !fails (.setParentMode index .reopen) && !fails (.setParentMode index .inspect) &&
    s.tree.statAt current c == some ⟨.directory, expected⟩ && !fails (.setParentMode index .change)

/-- One component of the walk: the directory that it leads to, leased. -/
def enterComponent (index : Nat) (current : Descriptor) (c : PathComponent Text)
    (s : SocketStore) : SocketStore × Option Descriptor :=
  match openOrCreate fails alloc index current c s with
  | (s, none) => (s, none)
  | (s, some (next, made)) =>
    let undone := if made then s.removeDirectoryIfUnchanged current c next.identity else s
    if fails (.inspectParent index) then (s, none)
    else if made && !setCreatedDirectoryMode fails index current c next.identity s then
      (undone, none)
    else if fails (.cloneParent index) then (undone, none)
    else ({ s with registry := s.registry.register current c next.identity made }, some next)

/-- `open_socket_parent_locked`, from the component with this index on -/
def walkParents (index : Nat) (components : List (PathComponent Text)) (current : Descriptor)
    (keys : List FileIdentity) (s : SocketStore) :
    SocketStore × List FileIdentity × Option Descriptor :=
  match components with
  | [] => (s, keys, some current)
  | c :: rest =>
    match enterComponent fails alloc index current c s with
    | (s, none) => (s, keys, none)
    | (s, some next) => walkParents (index + 1) rest next (keys ++ [next.identity]) s

/-- `open` of the root directory -/
def openRoot (tree : SocketTree) : Option Descriptor :=
  (tree.node []).map (fun node => ⟨[], node.identity⟩)

def openSocketParentLocked (path : SocketPath) (s : SocketStore) :
    SocketStore × List FileIdentity × Option Descriptor :=
  if fails .openRoot then (s, [], none)
  else match openRoot s.tree with
  | none => (s, [], none)
  | some root => walkParents fails alloc 0 path.parents root [] s

def openSocketParent (path : SocketPath) (s : SocketStore) :
    SocketStore × Option (Descriptor × List FileIdentity) :=
  match openSocketParentLocked fails alloc path s with
  | (s, keys, some parent) => (s, some (parent, keys))
  | (s, keys, none) => (s.releaseAll keys, none)

end Bind

structure UnixSocketGuard where
  parent : Descriptor
  name : Text
  identity : FileIdentity
  keys : List FileIdentity

namespace UnixSocketGuard

variable (guard : UnixSocketGuard)

def matchesMetadata (node : FileNode FileIdentity) : Bool :=
  node.kind == .socket && node.identity == guard.identity

/-- The socket is still there, and still the one that was bound. -/
def current (s : SocketStore) : Bool :=
  (s.tree.statAt guard.parent (.name guard.name)).any guard.matchesMetadata

def unlinkOwned (s : SocketStore) : SocketStore :=
  if guard.current s then s.unlink guard.parent (.name guard.name) false else s

/-- The guard is dropped, and its directory set with it. -/
def drop (s : SocketStore) : SocketStore := (guard.unlinkOwned s).releaseAll guard.keys

end UnixSocketGuard

namespace UnixSocketGuard

variable (fails : BindCall → Bool) (alloc : Allocator)

/-- `bind` below the parent directory, which is open and leased. -/
def bindBelow (parent : Descriptor) (name : Text) (keys : List FileIdentity) (s : SocketStore) :
    SocketStore × Option UnixSocketGuard :=
  if fails .inspectPath || (s.tree.statAt parent (.name name)).isSome then (s.releaseAll keys, none)
  else
    match attempt (fails .bindSocket)
        (s.tree.createAt parent (.name name) ⟨.socket, alloc.pick s.used⟩) with
    | .error _ => (s.releaseAll keys, none)
    | .ok tree =>
      let s := { s with tree }
      match if fails .inspectSocket then none else s.tree.statAt parent (.name name) with
      | none => (s.releaseAll keys, none)
      | some node =>
        let guard : UnixSocketGuard := ⟨parent, name, node.identity, keys⟩
        if fails .setSocketMode || fails .checkSocket || !guard.current s then (guard.drop s, none)
        else (s, some guard)

/-- `UnixSocketGuard::bind` -/
def bind (path : SocketPath) (s : SocketStore) : SocketStore × Option UnixSocketGuard :=
  if path.relative && fails .currentDir then (s, none)
  else if unixSocketPathBytes ≤ path.bytes then (s, none)
  else match path.name with
  | none => (s, none)
  | some name =>
    match openSocketParent fails alloc path s with
    | (s, none) => (s, none)
    | (s, some (parent, keys)) => bindBelow fails alloc parent name keys s

end UnixSocketGuard

end Baffle
