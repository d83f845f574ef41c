import Baffle.Http

/-!
Resolution of the secrets of a session (`src/secrets.rs`). What the file system
answers during one resolution is a parameter.
-/

namespace Baffle

def maxSecretBytes : Nat := 64 * 1024

/-- The parts of file metadata that are checked. -/
structure FileStatus where
  isDir : Bool
  isFile : Bool
  uid : Nat
  len : Nat
  mode : BitVec 32
  dev : Nat
  ino : Nat
deriving DecidableEq

/-- The secrets directory as the system calls report it. -/
structure SecretFiles where
  directory : Option FileStatus
  /-- `symlink_metadata` of a file of the directory -/
  linked : Text → Option FileStatus
  /-- `File::open` and the metadata of the opened file -/
  opened : Text → Option FileStatus
  contents : Text → Option Bytes

inductive SecretStoreError where
  | notEntitled
  | unavailable
deriving DecidableEq

structure SecretStore where
  trustedOperatorUid : Nat
  allowed : Finset Text
  files : SecretFiles

def requireStatus : Option FileStatus → Except SecretStoreError FileStatus
  | some status => pure status
  | none => throw .unavailable

def validatePrivateDirectory (directory : Option FileStatus) (trustedUid : Nat) :
    Except SecretStoreError Unit := do
  let status ← requireStatus directory
  refuse (!status.isDir || status.uid != trustedUid || status.mode &&& 0o077 != 0
      || status.mode &&& 0o500 != 0o500 || status.mode &&& 0o7000 != 0)
    .unavailable

def validateSecretFile (status : FileStatus) (trustedUid : Nat) : Except SecretStoreError Unit :=
  refuse (!status.isFile || status.uid != trustedUid || maxSecretBytes < status.len
      || status.mode &&& 0o077 != 0 || status.mode &&& 0o400 == 0 || status.mode &&& 0o111 != 0
      || status.mode &&& 0o7000 != 0)
    .unavailable

/-- Drop one final line ending, and nothing else. -/
def stripLineEnding (bytes : Bytes) : Bytes :=
  if [13, 10].isSuffixOf bytes then bytes.take (bytes.length - 2)
  else if [10].isSuffixOf bytes then bytes.take (bytes.length - 1)
  else bytes

/-- `String::from_utf8` -/
def fromUtf8 (bytes : Bytes) : Option Text :=
  (String.fromUTF8? (ByteArray.mk bytes.toArray)).map String.toList

def isAsciiControl (byte : UInt8) : Bool := byte < 32 || byte == 127

def secretText (bytes : Bytes) : Except SecretStoreError Text :=
  match fromUtf8 (stripLineEnding bytes) with
  | none => throw .unavailable
  | some value =>
    if value.isEmpty || (utf8 value).any isAsciiControl then throw .unavailable else pure value

def readSecret (store : SecretStore) (name : Text) : Except SecretStoreError Text := do
  let linked ← requireStatus (store.files.linked name)
  validateSecretFile linked store.trustedOperatorUid
  let opened ← requireStatus (store.files.opened name)
  validateSecretFile opened store.trustedOperatorUid
  refuse (opened.dev != linked.dev || opened.ino != linked.ino) .unavailable
  match store.files.contents name with
  | none => throw .unavailable
  | some contents =>
    let bytes := contents.take (maxSecretBytes + 1)
    refuse (maxSecretBytes < bytes.length) .unavailable
    secretText bytes

/-- The identifiers that a session needs values for, without repetition. -/
def requestedSecrets (session : SessionConfig) : List Text :=
  ((session.rules.flatMap HostRule.inject).map HeaderInjection.secret).filter
    (fun secret => session.effectiveCredentialMode secret != .disabled) |>.dedup

def readSecrets (store : SecretStore) : List Text → Except SecretStoreError ResolvedSecrets
  | [] => pure ∅
  | name :: rest => do
    let value ← readSecret store name
    let resolved ← readSecrets store rest
    pure (resolved.insert name value)

namespace SecretStore

/-- Entitlements are checked before any file is opened. -/
def resolve (store : SecretStore) (session : SessionConfig) :
    Except SecretStoreError ResolvedSecrets := do
  let requested := requestedSecrets session
  refuse (requested.any (fun name => decide (name ∉ store.allowed))) .notEntitled
  if requested.isEmpty then pure ∅
  else
    validatePrivateDirectory store.files.directory store.trustedOperatorUid
    readSecrets store requested

end SecretStore

/-- `ResolvedSecrets::has_same_values` -/
def hasSameValues (a b : ResolvedSecrets) : Bool :=
  a.size == b.size && a.entries.all (fun entry => b.get entry.1 == some entry.2)

end Baffle
