import Baffle.FileConfig
import Baffle.Lib.Transition

/-!
`read_session` call by call. A state of the run has the calls of `compose_file`
that have not returned, the innermost first, and the files read so far.
-/

namespace Baffle

/-- Why `read_snapshot` fails. -/
inductive SnapshotFailure where
  | notFound
  | unavailable
  | pathComponent
  | sizeLimit
  | notUtf8
  | emptyPath

def invalidFile (name : Text) (detail : String) : SessionConfigFileError :=
  invalidConfig s!"session configuration `{String.ofList name}` {detail}"

def SnapshotFailure.error (name : Text) : SnapshotFailure → SessionConfigFileError
  | .notFound => ⟨.notFound, s!"session configuration `{String.ofList name}` was not found"⟩
  | .unavailable =>
    ⟨.unavailable, s!"session configuration `{String.ofList name}` could not be read safely"⟩
  | .pathComponent => invalidFile name "contains an invalid path component"
  | .sizeLimit => invalidFile name "exceeds the 256 KiB size limit"
  | .notUtf8 => invalidFile name "must contain UTF-8 text"
  | .emptyPath => invalidFile name "has an empty path"

/-- The store of a configuration directory. -/
def SessionConfigStore.ofFiles (files : Text → Except SnapshotFailure Snapshot) :
    SessionConfigStore where
  readSnapshot name := (files name).mapError (SnapshotFailure.error name)

/-- A call of `compose_file_contents` with the imports that it has not followed. -/
structure ComposeFrame where
  name : Text
  isRoot : Bool
  document : SessionDocument
  imports : List Text

inductive ComposeControl where
  /-- `compose_file` is called -/
  | enter (name : Text) (isRoot : Bool)
  /-- the innermost call goes on with its imports -/
  | next
  | ended (result : Except SessionConfigFileError Composition)

structure ComposeRun where
  frames : List ComposeFrame
  control : ComposeControl
  composition : Composition
  reads : List Text

/-- `compose_file_contents` up to its imports -/
def readImports (store : SessionConfigStore) (name : Text) (isRoot : Bool) :
    Except SessionConfigFileError (SessionDocument × List Text) := do
  let document ← readDocument store name
  refuse (!isRoot && (document.persistent.present || document.socketName.present)) (invalidConfig
    s!"imported session configuration `{String.ofList name}` cannot set `persistent` or `socket_name`; set lifecycle and identity fields in the root file")
  let imports ← importList name document.imports
  pure (document, imports)

/-- `compose_file_contents` after its imports -/
def mergeFile (x : Crates) (frame : ComposeFrame) (c : Composition) :
    Except SessionConfigFileError Composition := do
  let policy ← readPolicy x frame.name frame.document
  c.merge frame.name frame.isRoot frame.document.unmatched.present policy

namespace ComposeRun

def start (name : Text) : ComposeRun := ⟨[], .enter name true, {}, []⟩

def fail (error : SessionConfigFileError) (s : ComposeRun) : ComposeRun :=
  { s with control := .ended (.error error) }

/-- The file is pushed and read. -/
def push (store : SessionConfigStore) (name : Text) (isRoot : Bool) (s : ComposeRun) : ComposeRun :=
  let s := { s with
    composition := { s.composition with stack := s.composition.stack ++ [name] }
    reads := s.reads ++ [name] }
  match readImports store name isRoot with
  | .error error => s.fail error
  | .ok (document, imports) =>
    { s with frames := ⟨name, isRoot, document, imports⟩ :: s.frames, control := .next }

/-- The checks of `compose_file` -/
def enter (store : SessionConfigStore) (name : Text) (isRoot : Bool) (s : ComposeRun) : ComposeRun :=
  let c := s.composition
  if name ∈ c.stack then s.fail (cycleError name)
  else if name ∈ c.loaded then { s with control := .next }
  else if maxSessionImportDepth ≤ c.stack.length then s.fail depthError
  else if maxSessionImportFiles ≤ c.stack.length + c.loaded.card then s.fail fileCountError
  else s.push store name isRoot

/-- The innermost call has followed its imports and returns. -/
def pop (x : Crates) (frame : ComposeFrame) (frames : List ComposeFrame) (s : ComposeRun) :
    ComposeRun :=
  match mergeFile x frame s.composition with
  | .error error => s.fail error
  | .ok c => { s with
      frames
      composition := { c with
        stack := c.stack.dropLast
        loaded := insert frame.name c.loaded } }

def next (x : Crates) (s : ComposeRun) : ComposeRun :=
  match s.frames with
  | [] => { s with control := .ended (.ok s.composition) }
  | frame :: frames =>
    match frame.imports with
    | [] => s.pop x frame frames
    | imported :: rest =>
      match resolveImportName frame.name imported with
      | .error error => s.fail error
      | .ok name => { s with
          frames := { frame with imports := rest } :: frames
          control := .enter name false }

def step (x : Crates) (store : SessionConfigStore) (_ : Unit) (s : ComposeRun) :
    Option ComposeRun :=
  match s.control with
  | .enter name isRoot => some (s.enter store name isRoot)
  | .next => some (s.next x)
  | .ended _ => none

end ComposeRun

end Baffle
