import Baffle.Document

/-!
Daemon-managed session files and their imports (`src/control/file_config.rs`).
The directory walk of `read_snapshot` and the TOML parser are the environment:
a store says what they make of each name.
-/

namespace Baffle

def maxSessionImportDepth : Nat := 32
def maxSessionImportFiles : Nat := 128

inductive SessionConfigFileErrorKind where
  | notFound
  | unavailable
  | invalid
deriving DecidableEq

structure SessionConfigFileError where
  kind : SessionConfigFileErrorKind
  detail : String
deriving DecidableEq

namespace SessionConfigFileError

def createCode (error : SessionConfigFileError) : String :=
  match error.kind with
  | .notFound => "config_file_not_found"
  | .unavailable => "config_file_unavailable"
  | .invalid => "config_file_invalid"

def reloadReason (error : SessionConfigFileError) : String :=
  match error.kind with
  | .notFound => "configuration_not_found"
  | .unavailable => "configuration_unavailable"
  | .invalid => "configuration_invalid"

end SessionConfigFileError

def invalidConfig (detail : String) : SessionConfigFileError := ⟨.invalid, detail⟩

/-- A top-level key of a parsed TOML table. -/
inductive TomlEntry (α : Type) where
  | absent
  | illTyped
  | value (a : α)
deriving DecidableEq

namespace TomlEntry

variable {α : Type}

/-- `Table::contains_key` -/
def present : TomlEntry α → Bool
  | absent => false
  | _ => true

/-- Decode an optional field; `none` when the value has another type. -/
def decode : TomlEntry α → Option (Option α)
  | absent => some none
  | illTyped => none
  | value a => some (some a)

end TomlEntry

/-- A session file as a TOML table. An import entry is `none` when it is not a
string; any value of `rules` decodes, as named rules or as something else. -/
structure SessionDocument where
  version : TomlEntry Int
  persistent : TomlEntry Bool
  socketName : TomlEntry Text
  unmatched : TomlEntry Text
  rules : Option RawRules
  credentials : TomlEntry RawCredentials
  imports : TomlEntry (List (Option Text))
  unsupportedFields : List Text
deriving DecidableEq

/-- Decode the table without its `imports` key. -/
def SessionDocument.decode (document : SessionDocument) : Option RawSessionConfig := do
  let version ← document.version.decode
  let persistent ← document.persistent.decode
  let socketName ← document.socketName.decode
  let unmatched ← document.unmatched.decode
  let credentials ← document.credentials.decode
  pure { version, persistent := persistent.getD false, socketName, unmatched,
         rules := document.rules, credentials,
         unsupportedFields := document.unsupportedFields }

inductive Snapshot where
  | invalidToml
  | nonTable
  | table (document : SessionDocument)

structure SessionConfigStore where
  readSnapshot : Text → Except SessionConfigFileError Snapshot

structure RootSettings where
  persistent : Bool
  socketName : Option Text
deriving DecidableEq

/-- The accumulator of one composition. -/
structure Composition where
  stack : List Text := []
  loaded : Finset Text := ∅
  hosts : Finset Text := ∅
  rules : List HostRule := []
  importedUnmatched : Option UnmatchedHostPolicy := none
  rootUnmatched : Option UnmatchedHostPolicy := none
  importedCredentialDefault : Option CredentialMode := none
  rootCredentialDefault : Option CredentialMode := none
  credentialModes : SortedMap Text CredentialMode := ∅
  root : Option RootSettings := none

def invalidImport (importingName : Text) : SessionConfigFileError :=
  invalidConfig s!"`imports` in `{String.ofList importingName}` must contain relative TOML file paths within the session configuration directory"

/-- Walk the components of an import from the directory of its importer. -/
def walkComponents (components : List Text) : List Text → Option (List Text)
  | [] => some components
  | component :: rest =>
    if component = [] then none
    else if component = ['.'] then walkComponents components rest
    else if component = ['.', '.'] then
      if components = [] then none else walkComponents components.dropLast rest
    else walkComponents (components ++ [component]) rest

def importDirectory (importingName : Text) : List Text :=
  match Text.rsplitOnce '/' importingName with
  | some (parent, _) => parent.splitOn '/'
  | none => []

def resolveImportName (importingName imported : Text) : Except SessionConfigFileError Text := do
  refuse (imported.isEmpty
      || maxSessionConfigNameBytes < imported.len
      || imported.head? == some '/'
      || imported.any (fun c => c == '\\' || c == ':')
      || imported.any Text.isControl)
    (invalidImport importingName)
  match walkComponents (importDirectory importingName) (imported.splitOn '/') with
  | none => throw (invalidImport importingName)
  | some components =>
    let name := List.intercalate ['/'] components
    (validateSessionConfigName name).mapError (fun _ => invalidImport importingName)
    pure name

namespace Composition

def addUnmatched (name : Text) (isRoot explicit : Bool) (value : UnmatchedHostPolicy)
    (c : Composition) : Except SessionConfigFileError Composition := do
  if !explicit then pure c
  else
    let current := if isRoot then c.rootUnmatched else c.importedUnmatched
    refuse (current.any (· != value)) (invalidConfig
      s!"conflicting `unmatched` settings in the import graph at `{String.ofList name}`; imported values must agree")
    pure (if isRoot then { c with rootUnmatched := some value }
      else { c with importedUnmatched := some value })

def addCredentialDefault (name : Text) (isRoot : Bool) (mode : Option CredentialMode)
    (c : Composition) : Except SessionConfigFileError Composition := do
  match mode with
  | none => pure c
  | some mode =>
    let current := if isRoot then c.rootCredentialDefault else c.importedCredentialDefault
    refuse (current.any (· != mode)) (invalidConfig
      s!"conflicting credential default modes in the import graph at `{String.ofList name}`; imported values must agree")
    pure (if isRoot then { c with rootCredentialDefault := some mode }
      else { c with importedCredentialDefault := some mode })

def addCredentialModes : List (Text × CredentialMode) → Composition →
    Except SessionConfigFileError Composition
  | [], c => pure c
  | (secret, mode) :: rest, c => do
    refuse ((c.credentialModes.get secret).any (· != mode)) (invalidConfig
      s!"conflicting mode for credential `{String.ofList secret}` in the import graph")
    addCredentialModes rest { c with credentialModes := c.credentialModes.insert secret mode }

def addRules : List HostRule → Composition → Except SessionConfigFileError Composition
  | [], c => pure c
  | rule :: rest, c => do
    refuse (decide (rule.host ∈ c.hosts)) (invalidConfig
      s!"host rule `{String.ofList rule.host}` is defined more than once in the import graph; define it in one file only")
    addRules rest { c with hosts := insert rule.host c.hosts, rules := c.rules ++ [rule] }

def unmatchedName : UnmatchedHostPolicy → String
  | .deny => "deny"
  | .tunnel => "tunnel"

def credentialModeName : CredentialMode → String
  | .inject => "inject"
  | .substitute => "substitute"
  | .disabled => "disabled"

/-- The last part of the root file: imported settings must agree with the root's effective ones. -/
def finishRoot (policy : SessionConfig) (c : Composition) :
    Except SessionConfigFileError Composition := do
  let rootUnmatched := c.rootUnmatched.getD .deny
  refuse (c.importedUnmatched.any (· != rootUnmatched)) (invalidConfig
    s!"imported `unmatched` settings conflict with the root file's effective value `{unmatchedName rootUnmatched}`; set the same value in the root file")
  let rootMode := c.rootCredentialDefault.getD .inject
  refuse (c.importedCredentialDefault.any (· != rootMode)) (invalidConfig
    s!"imported credential default modes conflict with the root file's effective value `{credentialModeName rootMode}`; set the same value in the root file")
  pure { c with root := some ⟨policy.persistent, policy.socketName⟩ }

/-- Add one validated file to the accumulator. -/
def merge (name : Text) (isRoot explicitUnmatched : Bool) (policy : SessionConfig)
    (c : Composition) : Except SessionConfigFileError Composition := do
  let c ← c.addUnmatched name isRoot explicitUnmatched policy.unmatched
  let c ← c.addCredentialDefault name isRoot policy.defaultCredentialMode
  let c ← c.addCredentialModes policy.credentialModes.entries
  let c ← c.addRules policy.rules
  if isRoot then c.finishRoot policy else pure c

end Composition

def cycleError (name : Text) : SessionConfigFileError :=
  invalidConfig s!"session configuration import cycle includes `{String.ofList name}`"

def depthError : SessionConfigFileError :=
  invalidConfig "session configuration import depth exceeds 32 files"

def fileCountError : SessionConfigFileError :=
  invalidConfig "session configuration imports exceed 128 unique files"

def readDocument (store : SessionConfigStore) (name : Text) :
    Except SessionConfigFileError SessionDocument := do
  match ← store.readSnapshot name with
  | .invalidToml => throw (invalidConfig
      s!"session configuration `{String.ofList name}` has invalid TOML syntax or values")
  | .nonTable => throw (invalidConfig
      s!"session configuration `{String.ofList name}` must contain a TOML table")
  | .table document => pure document

def importStrings (name : Text) : List (Option Text) → Except SessionConfigFileError (List Text)
  | [] => pure []
  | none :: _ => throw (invalidConfig
      s!"`imports` in `{String.ofList name}` must contain only relative path strings")
  | some imported :: rest => (imported :: ·) <$> importStrings name rest

def importList (name : Text) : TomlEntry (List (Option Text)) →
    Except SessionConfigFileError (List Text)
  | .absent => pure []
  | .illTyped => throw (invalidConfig
      s!"`imports` in `{String.ofList name}` must be an array of relative path strings")
  | .value imports => importStrings name imports

def readPolicy (x : Crates) (name : Text) (document : SessionDocument) :
    Except SessionConfigFileError SessionConfig :=
  (SessionConfig.fromToml x document.decode).mapError (fun error =>
    invalidConfig s!"session configuration `{String.ofList name}`: {error}")

def composeImports (composeImport : Text → Composition → Except SessionConfigFileError Composition)
    (name : Text) : List Text → Composition → Except SessionConfigFileError Composition
  | [], c => pure c
  | imported :: rest, c => do
    let importedName ← resolveImportName name imported
    let c ← composeImport importedName c
    composeImports composeImport name rest c

def composeFileContents (x : Crates) (store : SessionConfigStore)
    (composeImport : Text → Composition → Except SessionConfigFileError Composition)
    (name : Text) (isRoot : Bool) (c : Composition) :
    Except SessionConfigFileError Composition := do
  let document ← readDocument store name
  refuse (!isRoot && (document.persistent.present || document.socketName.present)) (invalidConfig
    s!"imported session configuration `{String.ofList name}` cannot set `persistent` or `socket_name`; set lifecycle and identity fields in the root file")
  let imports ← importList name document.imports
  let c ← composeImports composeImport name imports c
  let policy ← readPolicy x name document
  c.merge name isRoot document.unmatched.present policy

/-- `compose_file` with the recursive call for an imported file as an argument. -/
def composeFileWith (x : Crates) (store : SessionConfigStore)
    (composeImport : Text → Composition → Except SessionConfigFileError Composition)
    (name : Text) (isRoot : Bool) (c : Composition) :
    Except SessionConfigFileError Composition := do
  refuse (c.stack.contains name) (cycleError name)
  if name ∈ c.loaded then pure c
  else
    refuse (maxSessionImportDepth ≤ c.stack.length) depthError
    refuse (maxSessionImportFiles ≤ c.stack.length + c.loaded.card) fileCountError
    let c ← composeFileContents x store composeImport name isRoot
      { c with stack := c.stack ++ [name] }
    pure { c with stack := c.stack.dropLast, loaded := insert name c.loaded }

/-- The recursion is on the room left on the stack, so that the last level
stops at the depth test before it would call itself. -/
def composeFile (x : Crates) (store : SessionConfigStore) :
    (room : Nat) → Text → Bool → Composition → Except SessionConfigFileError Composition
  | 0 => composeFileWith x store (fun _ _ => throw depthError)
  | room + 1 => composeFileWith x store (fun name c => composeFile x store room name false c)

def readSession (x : Crates) (store : SessionConfigStore) (name : Text) :
    Except SessionConfigFileError SessionConfig := do
  let c ← composeFile x store maxSessionImportDepth name true {}
  match c.root with
  | none => throw (invalidConfig "the root session configuration was not loaded")
  | some root => pure {
      persistent := root.persistent
      socketName := root.socketName
      unmatched := c.rootUnmatched.getD .deny
      defaultCredentialMode := c.rootCredentialDefault
      credentialModes := c.credentialModes
      rules := c.rules }

end Baffle
