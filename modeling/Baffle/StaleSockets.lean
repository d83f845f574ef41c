import Baffle.Lib.FileTree

/-!
The cleanup of stale session sockets at startup (`remove_stale_session_sockets_at`
and `remove_stale_socket_at_with_probe` in `src/control/server.rs`). Nobody else
changes the tree during the call; every system call may fail.
-/

namespace Baffle

variable {N : Type} [LinearOrder N]

/-- What a regular file holds, or where a symbolic link points. -/
inductive FileContents (N : Type) where
  | nothing
  | data (bytes : List UInt8)
  | link (target : Location N)
deriving DecidableEq

/-- What `fstatat` tells of an entry besides its kind, and its contents. -/
structure EntryStat (N : Type) where
  device : Nat
  inode : Nat
  uid : Nat
  mode : Nat
  contents : FileContents N
deriving DecidableEq

abbrev SweepTree (N : Type) [LinearOrder N] := FileTree N (EntryStat N)

abbrev SweepDirectory (N : Type) := OpenDirectory N (EntryStat N)

inductive SocketProbeResult where
  | active
  | stale
deriving DecidableEq

/-- The system calls of the cleanup, in their order at one entry. -/
inductive SweepCall where
  | readNames
  | inspect
  | openNested
  | inspectOpened
  | inspectSocket
  | probe
  | recheck
  | unlink
deriving DecidableEq

/-- What `readdir` returns. -/
inductive ReadEntry (N : Type) where
  | dot
  | dotDot
  | name (name : N)

/-- The order in which directories are read, what the probes find and which calls fail. -/
structure SweepEnv (N : Type) where
  order : Location N → List (ReadEntry N) → List (ReadEntry N)
  order_perm : ∀ loc entries, (order loc entries).Perm entries
  probe : Location N → SocketProbeResult
  fails : SweepCall → Location N → Bool

/-- `context` is the message of `with_context`, with the path that it shows. -/
inductive SweepError (N : Type) where
  | context (message : String) (path : Location N)
  | bail (message : String)

abbrev Swept (N : Type) [LinearOrder N] (α : Type) := Except (SweepError N) α × SweepTree N

/-- The names in an open directory. -/
def FileTree.names {I : Type} [DecidableEq I] (t : FileTree N I) (d : OpenDirectory N I) : List N :=
  if t.holds d then
    t.entries.keys.filterMap (fun loc => match loc with
      | [] => none
      | name :: parent => if parent = d.location then some name else none)
  else []

variable (env : SweepEnv N) (expectedUid : Nat)

/-- The names come from C strings, so none of them contains a null byte. -/
def directoryEntryNames (t : SweepTree N) (directory : SweepDirectory N) : Option (List N) :=
  if env.fails .readNames directory.location then none
  else
    some ((env.order directory.location (.dot :: .dotDot :: (t.names directory).map .name)).filterMap
      (fun entry => match entry with
        | .dot => none
        | .dotDot => none
        | .name name => some name))

def removeStaleSocketAtWithProbe (parent : SweepDirectory N) (name : N) (t : SweepTree N) :
    Swept N Bool :=
  let path := name :: parent.location
  if env.fails .inspectSocket path then (.error (.context "could not inspect" path), t)
  else
    match t.statAt parent (.name name) with
    | none => (.ok false, t)
    | some metadata =>
      if metadata.kind ≠ .socket ∨ metadata.identity.uid ≠ expectedUid then (.ok false, t)
      else if env.fails .probe path then
        (.error (.context "could not check whether socket is active" path), t)
      else
        match env.probe path with
        | .active => (.ok false, t)
        | .stale =>
          if env.fails .recheck path then (.error (.context "could not recheck" path), t)
          else
            match t.statAt parent (.name name) with
            | none => (.ok false, t)
            | some current =>
              if current.kind ≠ .socket ∨ current.identity.uid ≠ expectedUid
                  ∨ current.identity.device ≠ metadata.identity.device
                  ∨ current.identity.inode ≠ metadata.identity.inode then
                (.error (.bail "socket path changed during stale socket cleanup"), t)
              else if env.fails .unlink path then
                (.error (.context "could not remove stale socket" path), t)
              else
                match t.unlinkAt parent (.name name) false with
                | .error .notFound => (.ok false, t)
                | .error _ => (.error (.context "could not remove stale socket" path), t)
                | .ok t => (.ok true, t)

/-- One turn of the loop. `descend` is the call for a nested directory, if there is
a descriptor left for it. -/
def sweepEntry (descend : Option (SweepDirectory N → SweepTree N → Swept N Unit))
    (directory : SweepDirectory N) (name : N) (t : SweepTree N) : Swept N Unit :=
  let path := name :: directory.location
  if env.fails .inspect path then (.error (.context "could not inspect" path), t)
  else
    match t.statAt directory (.name name) with
    | none => (.ok (), t)
    | some metadata =>
      match metadata.kind with
      | .directory =>
        match if env.fails .openNested path then none else descend with
        | none => (.error (.context "could not open nested session socket directory" path), t)
        | some descend =>
          -- The entry is gone, or no directory any more.
          match t.openAt directory (.name name) with
          | .error _ => (.ok (), t)
          | .ok child =>
            if env.fails .inspectOpened path then (.error (.context "could not inspect" path), t)
            else if child.identity.device ≠ metadata.identity.device
                ∨ child.identity.inode ≠ metadata.identity.inode then (.ok (), t)
            else descend child t
      | .socket =>
        match removeStaleSocketAtWithProbe env expectedUid directory name t with
        | (.error error, t) => (.error error, t)
        | (.ok _, t) => (.ok (), t)
      | .other => (.ok (), t)

def sweepNames (descend : Option (SweepDirectory N → SweepTree N → Swept N Unit))
    (directory : SweepDirectory N) : List N → SweepTree N → Swept N Unit
  | [], t => (.ok (), t)
  | name :: names, t =>
    match sweepEntry env expectedUid descend directory name t with
    | (.error error, t) => (.error error, t)
    | (.ok (), t) => sweepNames descend directory names t

def sweepDirectory (descend : Option (SweepDirectory N → SweepTree N → Swept N Unit))
    (directory : SweepDirectory N) (t : SweepTree N) : Swept N Unit :=
  match directoryEntryNames env t directory with
  | none =>
    (.error (.context "could not read session socket directory" directory.location), t)
  | some names => sweepNames env expectedUid descend directory names t

/-- The call with so many descriptors for nested directories. -/
def removeStaleSessionSocketsAt : Nat → SweepDirectory N → SweepTree N → Swept N Unit
  | 0 => sweepDirectory env expectedUid none
  | descriptors + 1 =>
    sweepDirectory env expectedUid (some (removeStaleSessionSocketsAt descriptors))

end Baffle
