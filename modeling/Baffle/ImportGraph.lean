import Baffle.FileConfig
import Baffle.Lib.Postorder

/-!
What the composition of a session file with its imports is meant to be, in
terms of the import graph of a store. Nothing here follows the order in which
the daemon reads files.
-/

namespace Baffle

/-- One file read and validated on its own, with its imports resolved. -/
structure LoadedFile where
  document : SessionDocument
  imports : List Text
  policy : SessionConfig

def resolveImports (name : Text) : List Text → Except SessionConfigFileError (List Text)
  | [] => pure []
  | imported :: rest => do
    let importedName ← resolveImportName name imported
    let names ← resolveImports name rest
    pure (importedName :: names)

def loadFile (x : Crates) (store : SessionConfigStore) (name : Text) :
    Except SessionConfigFileError LoadedFile := do
  let document ← readDocument store name
  let entries ← importList name document.imports
  let imports ← resolveImports name entries
  let policy ← readPolicy x name document
  pure { document, imports, policy }

/-- `a` is a readable file with an import entry that resolves to `b`. -/
def Imports (store : SessionConfigStore) (a b : Text) : Prop :=
  ∃ document entries entry, readDocument store a = .ok document ∧
    importList a document.imports = .ok entries ∧ entry ∈ entries ∧
    resolveImportName a entry = .ok b

/-- The value of `unmatched` that a file sets. -/
def LoadedFile.explicitUnmatched (file : LoadedFile) : Option UnmatchedHostPolicy :=
  if file.document.unmatched.present then some file.policy.unmatched else none

/-- The value of `unmatched` that a file stands for. -/
def LoadedFile.effectiveUnmatched (file : LoadedFile) : UnmatchedHostPolicy :=
  if file.document.unmatched.present then file.policy.unmatched else .deny

def LoadedFile.effectiveDefault (file : LoadedFile) : CredentialMode :=
  file.policy.defaultCredentialMode.getD .inject

def importsOf (x : Crates) (store : SessionConfigStore) (name : Text) : List Text :=
  match loadFile x store name with
  | .ok file => file.imports
  | .error _ => []

def rulesOf (x : Crates) (store : SessionConfigStore) (name : Text) : List HostRule :=
  match loadFile x store name with
  | .ok file => file.policy.rules
  | .error _ => []

section Composable

variable (x : Crates) (store : SessionConfigStore) (root : Text)

def Reaches (name : Text) : Prop := Relation.ReflTransGen (Imports store) root name

/-- `name` is reached and reads as `file`. -/
def Part (name : Text) (file : LoadedFile) : Prop :=
  Reaches store root name ∧ loadFile x store name = .ok file

/-- The import graph below `root` can be composed. -/
structure Composable : Prop where
  valid : ∀ name, Reaches store root name → ∃ file, loadFile x store name = .ok file
  acyclic : ∀ name, Reaches store root name → ¬Relation.TransGen (Imports store) name name
  lifecycle : ∀ name file, Relation.TransGen (Imports store) root name →
    loadFile x store name = .ok file →
    file.document.persistent.present = false ∧ file.document.socketName.present = false
  hosts : ∀ a b fa fb, Part x store root a fa → Part x store root b fb → a ≠ b →
    ∀ ra ∈ fa.policy.rules, ∀ rb ∈ fb.policy.rules, ra.host ≠ rb.host
  unmatched : ∀ top name file, loadFile x store root = .ok top → Part x store root name file →
    file.document.unmatched.present = true → file.policy.unmatched = top.effectiveUnmatched
  credentialDefault : ∀ top name file mode, loadFile x store root = .ok top →
    Part x store root name file → file.policy.defaultCredentialMode = some mode →
    mode = top.effectiveDefault
  credentialModes : ∀ a b fa fb secret ma mb, Part x store root a fa → Part x store root b fb →
    fa.policy.credentialModes.get secret = some ma →
    fb.policy.credentialModes.get secret = some mb → ma = mb

/-- The composed session: the rules of the reached files in depth-first
post-order, the overrides of all of them, and the root's own settings. -/
structure Composes (c : SessionConfig) : Prop where
  rules : ∃ order, Visits (importsOf x store) [] [root] order ∧ order.Nodup ∧
    (∀ name, name ∈ order ↔ Reaches store root name) ∧
    c.rules = order.flatMap (rulesOf x store)
  settings : ∃ top, loadFile x store root = .ok top ∧
    c.persistent = top.policy.persistent ∧ c.socketName = top.policy.socketName ∧
    c.unmatched = top.effectiveUnmatched ∧
    c.defaultCredentialMode = top.policy.defaultCredentialMode
  credentialModes : ∀ secret mode, c.credentialModes.get secret = some mode ↔
    ∃ name file, Part x store root name file ∧
      file.policy.credentialModes.get secret = some mode

end Composable

end Baffle
