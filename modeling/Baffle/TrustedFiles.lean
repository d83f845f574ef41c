import Baffle.Lib.FileTree
import Baffle.Lib.OwnedFiles
import Baffle.ReadSession
import Baffle.Secrets

/-!
How the configuration directory is opened and its files are read
(`src/control/file_config.rs`). Other processes may run between two system
calls, so each call sees a state of the file system of its own.
-/

namespace Baffle

def maxSessionConfigBytes : Nat := 256 * 1024

abbrev ConfigFiles (I : Type) := OwnedFiles Nat Text I Bytes

abbrev ConfigInode := Inode Nat Bytes

/-- The state of the file system at each system call. -/
abbrev Clock (I : Type) := Nat → ConfigFiles I

def Clock.after {I : Type} (clock : Clock I) (n : Nat) : Clock I := fun k => clock (n + k)

/-- What an owner and a mode allow this process. -/
structure Rights where
  search : Nat → BitVec 32 → Bool
  read : Nat → BitVec 32 → Bool

/-- An error and what it wraps, without the texts of the operating system. -/
abbrev ErrorChain := List String

/-- `std::path::Component` -/
inductive Component where
  | rootDir
  | curDir
  | parentDir
  | normal (name : Text)
deriving DecidableEq

/-- What lies between two separators. -/
def innerComponent (part : Text) : Option Component :=
  if part = [] ∨ part = ['.'] then none
  else if part = ['.', '.'] then some .parentDir
  else some (.normal part)

/-- `Path::components` -/
def components (path : Text) : List Component :=
  let parts := path.splitOn '/'
  let inner := parts.filterMap innerComponent
  if path.head? = some '/' then .rootDir :: inner
  else if parts.head? = some ['.'] then .curDir :: inner
  else inner

/-- `normalize_system_path`, where `conventional` says whether `/var/run` is a link to `/run`. -/
def normalizeSystemPath (conventional : Bool) : List Component → List Component
  | .rootDir :: .normal var :: .normal run :: suffix =>
    if conventional && decide (var = ['v', 'a', 'r'] ∧ run = ['r', 'u', 'n']) then
      .rootDir :: .normal run :: suffix
    else .rootDir :: .normal var :: .normal run :: suffix
  | path => path

def invalidConfigDir : String :=
  "daemon.session_config_dir must be an absolute directory path without dot components"

/-- `validate_session_config_dir` -/
def validateSessionConfigDir (path : Text) : Except String Unit :=
  refuse (decide (path.head? ≠ some '/') || path.isEmpty || path.contains '\x00'
      || (path.splitOn '/').any (fun part => decide (part = ['.'] ∨ part = ['.', '.']))
      || (components path).any (fun
        | .rootDir | .normal _ => false
        | _ => true)
      || decide ((components path).length < 2))
    invalidConfigDir

def normalNames : List Component → Option (List Text)
  | [] => some []
  | .rootDir :: rest => normalNames rest
  | .normal name :: rest => (normalNames rest).map (name :: ·)
  | _ :: _ => none

section

variable {I : Type} (rights : Rights) (trustedUid : Nat)

/-- The search for an entry of an open directory. -/
def lookup (fs : ConfigFiles I) (parent : I) (name : Text) : Except FileError I :=
  if name = [] then throw .notFound
  else
    match fs.inodes parent with
    | none => throw .other
    | some node =>
      if !rights.search node.owner node.mode then throw .other
      else
        match fs.entries parent name with
        | none => throw .notFound
        | some i => pure i

/-- `openat` with `O_PATH`, `O_DIRECTORY` and `O_NOFOLLOW` -/
def openatDirectory (fs : ConfigFiles I) (parent : I) (name : Text) : Except FileError I := do
  let i ← lookup rights fs parent name
  match fs.inodes i with
  | none => throw .other
  | some node => if node.isDir then pure i else throw .other

/-- `openat` with `O_RDONLY`, `O_NOFOLLOW` and `O_NONBLOCK`: links and sockets cannot be opened.
Other special files can, but are refused right after, and with the same error. -/
def openatFile (fs : ConfigFiles I) (parent : I) (name : Text) : Except FileError I := do
  let i ← lookup rights fs parent name
  match fs.inodes i with
  | none => throw .other
  | some node =>
    match node.kind with
    | .other => throw .other
    | _ => if rights.read node.owner node.mode then pure i else throw .other

def content (fs : ConfigFiles I) (file : I) : Bytes :=
  match fs.inodes file with
  | some ⟨_, _, .regular bytes⟩ => bytes
  | _ => []

/-- `read_to_end` up to a limit. The `k`-th read returns at most `sizes k + 1` bytes. -/
def readToEnd (limit : Nat) (file : I) : Nat → (Nat → Nat) → Clock I → Bytes → Bytes
  | 0, _, _, bytes => bytes
  | fuel + 1, sizes, clock, bytes =>
    let piece := ((content (clock 0) file).drop bytes.length).take
      (min (limit - bytes.length) (sizes 0 + 1))
    if piece = [] then bytes
    else readToEnd limit file fuel (fun k => sizes (k + 1)) (clock.after 1) (bytes ++ piece)

def trustedOwner (owner : Nat) : Bool := owner == trustedUid || owner == 0

def validateConfigDirectoryMetadata (metadata : ConfigInode) (allowStickyParent : Bool) :
    Except String Unit := do
  refuse (!metadata.isDir || !trustedOwner trustedUid metadata.owner)
    "unsafe session configuration directory"
  let stickyParent := allowStickyParent && metadata.mode &&& 0o1000 != 0
  refuse (metadata.mode &&& 0o022 != 0 && !stickyParent) "writable session configuration directory"
  let executable :=
    if metadata.owner = trustedUid then metadata.mode &&& 0o100 != 0
    else metadata.mode &&& 0o111 != 0
  refuse (!executable) "untraversable session configuration directory"

/-- The loop of `open_trusted_directory_tree` -/
def walkTrusted : Clock I → I → List Text → Except ErrorChain I
  | _, directory, [] => pure directory
  | clock, directory, component :: rest => do
    refuse (component.contains '\x00') ["session configuration directory path is invalid"]
    let directory ← (openatDirectory rights (clock 0) directory component).mapError (fun _ =>
      ["could not securely open session configuration directory"])
    match (clock 1).inodes directory with
    | none => throw ["could not inspect session configuration directory"]
    | some metadata =>
      (validateConfigDirectoryMetadata trustedUid metadata (!rest.isEmpty)).mapError (fun error =>
        ["session configuration directory has unsafe ownership or permissions", error])
      walkTrusted (clock.after 2) directory rest

def openTrustedDirectoryTree (clock : Clock I) (path : List Component) : Except ErrorChain I := do
  refuse (decide (path.head? ≠ some .rootDir)) ["session configuration directory must be absolute"]
  match normalNames path with
  | none => throw ["session configuration directory path is invalid"]
  | some names => do
    refuse names.isEmpty ["session configuration directory must not be the filesystem root"]
    walkTrusted rights trustedUid (clock.after 1) (clock 0).root names

/-- `SessionConfigStore::open` -/
def openConfigDirectory (clock : Clock I) (conventional : Bool) (path : Text) :
    Except ErrorChain I :=
  openTrustedDirectoryTree rights trustedUid clock
    (normalizeSystemPath conventional (components path))

def classifyConfigFileIo : FileError → SnapshotFailure
  | .notFound => .notFound
  | _ => .unavailable

/-- `read_snapshot` once the file is open -/
def readOpenFile (clock : Clock I) (sizes : Nat → Nat) (file : I) :
    Except SnapshotFailure Text :=
  match (clock 0).inodes file with
  | none => throw .unavailable
  | some metadata =>
    match metadata.kind with
    | .regular bytes => do
      refuse (!trustedOwner trustedUid metadata.owner || metadata.mode &&& 0o7022 != 0
        || metadata.mode &&& 0o444 == 0) .unavailable
      refuse (decide (maxSessionConfigBytes < bytes.length)) .sizeLimit
      let limit := maxSessionConfigBytes + 1
      let bytes := readToEnd limit file (limit + 1) sizes (clock.after 1) []
      refuse (decide (maxSessionConfigBytes < bytes.length)) .sizeLimit
      match fromUtf8 bytes with
      | none => throw .notUtf8
      | some text => pure text
    | _ => throw .unavailable

/-- The loop of `read_snapshot` -/
def readComponents (sizes : Nat → Nat) : Clock I → I → List Text → Except SnapshotFailure Text
  | _, _, [] => throw .emptyPath
  | clock, directory, [component] => do
    refuse (component.contains '\x00') .pathComponent
    let file ← (openatFile rights (clock 0) directory component).mapError classifyConfigFileIo
    readOpenFile trustedUid (clock.after 1) sizes file
  | clock, directory, component :: next :: rest => do
    refuse (component.contains '\x00') .pathComponent
    let directory ← (openatDirectory rights (clock 0) directory component).mapError
      classifyConfigFileIo
    match (clock 1).inodes directory with
    | none => throw .unavailable
    | some metadata =>
      (validateConfigDirectoryMetadata trustedUid metadata false).mapError (fun _ => .unavailable)
      readComponents sizes (clock.after 2) directory (next :: rest)

def readSnapshot (clock : Clock I) (sizes : Nat → Nat) (directory : I) (name : Text) :
    Except SnapshotFailure Text :=
  readComponents rights trustedUid sizes clock directory (name.splitOn '/')

/-- The store of an open directory, when each file is read from a moment of its own
on. The TOML parser is a parameter. -/
def SessionConfigStore.ofDirectory (toml : Text → Snapshot) (clock : Clock I) (directory : I)
    (moments : Text → Nat) (sizes : Text → Nat → Nat) : SessionConfigStore :=
  .ofFiles (fun name =>
    let text :=
      Baffle.readSnapshot rights trustedUid (clock.after (moments name)) (sizes name) directory name
    text.map toml)

end

end Baffle
