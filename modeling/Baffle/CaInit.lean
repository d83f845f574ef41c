import Baffle.Lib.FileTree
import Baffle.Lib.Transition

/-!
Initialization of the certificate authority (`src/ca.rs`): any number of
`initialize` runs on one configuration, in any number of processes. Each
file-system call is one step. A run that fails first takes its links back and
then its temporary files.
-/

namespace Baffle

/-- The two configured files. They are no names of temporary files. -/
inductive CaTarget where
  | certificate
  | privateKey
deriving DecidableEq

/-- A temporary file is named after its process and a sequence number. -/
structure TemporaryFile (D : Type) where
  directory : D
  process : Nat
  sequence : Nat
deriving DecidableEq

/-- The paths that a run works on; `D` are the directories. -/
inductive CaPath (D : Type) where
  | target (target : CaTarget)
  | temporary (file : TemporaryFile D)
deriving DecidableEq

abbrev RunId := Nat

/-- A directory entry, with the run that made it; `none` is anybody else. -/
structure CaEntry where
  identity : FileIdentity
  creator : Option RunId
deriving DecidableEq

structure LinkedTarget where
  target : CaTarget
  identity : FileIdentity
deriving DecidableEq

/-- Where a run is: the file-system call that it makes next. -/
inductive InitStage (D : Type) where
  /-- `metadata` and `canonicalize` of both parents; `calls` are left after this one -/
  | parents (calls : Nat)
  | inspect (target : CaTarget) (conflicts : List CaTarget)
  | generate
  /-- the `create_new` of `write_temporary_file` -/
  | create (target : CaTarget) (attempts : Nat)
  /-- `set_permissions`, `write_all` and `sync_all` -/
  | write (target : CaTarget) (temporary : TemporaryFile D) (calls : Nat)
  /-- `ManagedCa::load`, which only reads -/
  | loadStaged
  /-- `install_without_overwrite` -/
  | identify (target : CaTarget)
  | link (target : CaTarget) (identity : FileIdentity)
  | loadInstalled
  /-- `remove_paths` after a success -/
  | cleanUp (paths : List (TemporaryFile D))
  /-- `remove_linked_targets`: the identity check of the first, then its removal -/
  | rollBack (linked : List LinkedTarget)
  | unlink (target : CaTarget) (linked : List LinkedTarget)
  /-- `remove_paths` after a failure -/
  | discard (paths : List (TemporaryFile D))
  | returned (ok : Bool)
deriving DecidableEq

/-- What follows the temporary file of a target. -/
def InitStage.afterWrite {D : Type} : CaTarget → InitStage D
  | .privateKey => .create .certificate 0
  | .certificate => .loadStaged

/-- What follows the link of a target: the key is installed first. -/
def InitStage.afterLink {D : Type} : CaTarget → InitStage D
  | .privateKey => .identify .certificate
  | .certificate => .loadInstalled

/-- One call of `initialize` with its local variables. -/
structure InitRun (D : Type) where
  process : Nat
  stage : InitStage D
  temporary : CaTarget → Option (TemporaryFile D)
  temporaryPaths : List (TemporaryFile D)
  linkedTargets : List LinkedTarget

structure InitState (D : Type) where
  entries : CaPath D → Option CaEntry
  /-- `TEMP_FILE_SEQUENCE` of every process -/
  sequences : Nat → Nat
  runs : RunId → InitRun D

/-- What the file system answers: whether a call that may fail succeeds, and the
identity that a new file gets. A number may be used again. -/
structure CallAnswer where
  ok : Bool
  identity : FileIdentity

inductive InitAction (D : Type) where
  | advance (run : RunId) (answer : CallAnswer)
  /-- somebody else makes a file -/
  | foreign (path : CaPath D) (identity : FileIdentity)

/-- The attempts of `write_temporary_file`. -/
def maxTemporaryAttempts : Nat := 128

variable {D : Type} [DecidableEq D]

namespace InitState

def setRun (s : InitState D) (r : RunId) (run : InitRun D) : InitState D :=
  { s with runs := Function.update s.runs r run }

def goto (s : InitState D) (r : RunId) (stage : InitStage D) : InitState D :=
  s.setRun r { s.runs r with stage }

/-- `initialize_pair` returns an error. -/
def fail (s : InitState D) (r : RunId) : InitState D :=
  s.goto r (.rollBack (s.runs r).linkedTargets.reverse)

def put (s : InitState D) (path : CaPath D) (entry : CaEntry) : InitState D :=
  { s with entries := Function.update s.entries path (some entry) }

/-- `remove_file`; a file that is not there is no error. -/
def remove (s : InitState D) (path : CaPath D) : InitState D :=
  { s with entries := Function.update s.entries path none }

def nextSequence (s : InitState D) (process : Nat) : InitState D :=
  { s with sequences := Function.update s.sequences process (s.sequences process + 1) }

/-- `symlink_metadata` of a target: one that is there is a conflict. -/
def inspect (s : InitState D) (r : RunId) (target : CaTarget) (conflicts : List CaTarget) :
    InitState D :=
  let conflicts := if (s.entries (.target target)).isSome then conflicts ++ [target] else conflicts
  match target with
  | .certificate => s.goto r (.inspect .privateKey conflicts)
  | .privateKey => s.goto r (if conflicts.isEmpty then .generate else .returned false)

/-- One attempt to create a temporary file beside its target. -/
def create (s : InitState D) (r : RunId) (parent : CaTarget → D) (target : CaTarget)
    (attempts : Nat) (identity : FileIdentity) : InitState D :=
  let run := s.runs r
  let file : TemporaryFile D := ⟨parent target, run.process, s.sequences run.process⟩
  let s := s.nextSequence run.process
  if (s.entries (.temporary file)).isSome then
    if attempts + 1 < maxTemporaryAttempts then s.goto r (.create target (attempts + 1))
    else s.fail r
  else
    (s.put (.temporary file) ⟨identity, some r⟩).setRun r { run with
      stage := .write target file 2
      temporaryPaths := run.temporaryPaths ++ [file] }

def write (s : InitState D) (r : RunId) (target : CaTarget) (file : TemporaryFile D) :
    Nat → InitState D
  | calls + 1 => s.goto r (.write target file calls)
  | 0 =>
    s.setRun r { s.runs r with
      temporary := Function.update (s.runs r).temporary target (some file)
      stage := .afterWrite target }

/-- What the temporary file of a target is at the moment. -/
def staged (s : InitState D) (r : RunId) (target : CaTarget) : Option CaEntry :=
  ((s.runs r).temporary target).bind (fun file => s.entries (.temporary file))

/-- `hard_link`, which overwrites nothing. -/
def link (s : InitState D) (r : RunId) (target : CaTarget) (identity : FileIdentity) :
    InitState D :=
  let run := s.runs r
  match s.staged r target, s.entries (.target target) with
  | some entry, none =>
    (s.put (.target target) ⟨entry.identity, some r⟩).setRun r { run with
      linkedTargets := run.linkedTargets ++ [⟨target, identity⟩]
      stage := .afterLink target }
  | _, _ => s.fail r

/-- The next call of a run. -/
def advance (s : InitState D) (parent : CaTarget → D) (r : RunId) (answer : CallAnswer) :
    Option (InitState D) :=
  match (s.runs r).stage with
  | .parents calls =>
    if !answer.ok then s.goto r (.returned false)
    else match calls with
      | calls + 1 => s.goto r (.parents calls)
      | 0 => s.goto r (.inspect .certificate [])
  | .inspect target conflicts =>
    if !answer.ok then s.goto r (.returned false) else s.inspect r target conflicts
  | .generate => if !answer.ok then s.fail r else s.goto r (.create .privateKey 0)
  | .create target attempts =>
    if !answer.ok then (s.nextSequence (s.runs r).process).fail r
    else s.create r parent target attempts answer.identity
  | .write target file calls => if !answer.ok then s.fail r else s.write r target file calls
  | .loadStaged => if !answer.ok then s.fail r else s.goto r (.identify .privateKey)
  | .identify target =>
    match s.staged r target with
    | some entry => if !answer.ok then s.fail r else s.goto r (.link target entry.identity)
    | none => s.fail r
  | .link target identity => if !answer.ok then s.fail r else s.link r target identity
  | .loadInstalled =>
    if !answer.ok then s.fail r else s.goto r (.cleanUp (s.runs r).temporaryPaths)
  | .cleanUp [] => s.goto r (.returned true)
  | .cleanUp (file :: rest) => (s.remove (.temporary file)).goto r (.cleanUp rest)
  | .rollBack [] => s.goto r (.discard (s.runs r).temporaryPaths)
  | .rollBack (linked :: rest) =>
    if (s.entries (.target linked.target)).any (fun entry => entry.identity == linked.identity) then
      s.goto r (.unlink linked.target rest)
    else s.goto r (.rollBack rest)
  | .unlink target rest => (s.remove (.target target)).goto r (.rollBack rest)
  | .discard [] => s.goto r (.returned false)
  | .discard (file :: rest) => (s.remove (.temporary file)).goto r (.discard rest)
  | .returned _ => none

def step (parent : CaTarget → D) (action : InitAction D) (s : InitState D) :
    Option (InitState D) :=
  match action with
  | .advance r answer => s.advance parent r answer
  | .foreign path identity =>
    if (s.entries path).isSome then none else some (s.put path ⟨identity, none⟩)

/-- No run has begun. The directories hold whatever they hold. -/
def start (files : CaPath D → Option FileIdentity) (process : RunId → Nat) : InitState D :=
  { entries := fun path => (files path).map (fun identity => ⟨identity, none⟩)
    sequences := fun _ => 0
    runs := fun r =>
      { process := process r
        stage := .parents 3
        temporary := fun _ => none
        temporaryPaths := []
        linkedTargets := [] } }

end InitState

end Baffle
