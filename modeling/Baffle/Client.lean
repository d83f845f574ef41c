import Baffle.Server

/-!
The `create` request of the client (`crates/baffle-client/src/lib.rs`): the
types that it writes, and the document that the server reads for them.
-/

namespace Baffle

def protocolVersion : Nat := 2

structure NamedHostRule where
  mode : RuleMode
  ports : List UInt16
  paths : List Text
  inject : List HeaderInjection
deriving DecidableEq

structure CredentialModeOverrideWire where
  mode : CredentialMode
deriving DecidableEq

structure CredentialConfigWire where
  defaultMode : Option CredentialMode
  overrides : SortedMap Text CredentialModeOverrideWire
deriving DecidableEq

structure SessionConfigWire where
  version : Int
  persistent : Bool
  socketName : Option Text
  unmatched : UnmatchedHostPolicy
  credentials : Option CredentialConfigWire
  rules : SortedMap Text NamedHostRule
deriving DecidableEq

structure CreateRequest where
  version : Nat
  operation : String
  session : SessionConfigWire
deriving DecidableEq

/-- `ClientError`, as far as building a request can fail. -/
inductive ClientError where
  | protocol (message : String)
deriving DecidableEq

def namedHostRule (rule : HostRule) : NamedHostRule :=
  { mode := rule.mode, ports := rule.ports, paths := rule.paths, inject := rule.inject }

def insertRules (rules : SortedMap Text NamedHostRule) :
    List HostRule → Except ClientError (SortedMap Text NamedHostRule)
  | [] => pure rules
  | rule :: rest => do
    refuse (rules.contains rule.host)
      (.protocol "session configuration contains duplicate host rules")
    insertRules (rules.insert rule.host (namedHostRule rule)) rest

def credentialConfigWire (config : SessionConfig) : Option CredentialConfigWire :=
  if config.defaultCredentialMode.isSome || config.credentialModes.size != 0 then
    some {
      defaultMode := config.defaultCredentialMode
      overrides := config.credentialModes.mapValues CredentialModeOverrideWire.mk }
  else none

def sessionConfigWire (config : SessionConfig) (rules : SortedMap Text NamedHostRule) :
    SessionConfigWire :=
  { version := sessionConfigVersion
    persistent := config.persistent
    socketName := config.socketName
    unmatched := config.unmatched
    credentials := credentialConfigWire config
    rules }

def CreateRequest.new (config : SessionConfig) : Except ClientError CreateRequest := do
  let rules ← insertRules ∅ config.rules
  pure {
    version := protocolVersion
    operation := "create"
    session := sessionConfigWire config rules }

/-- An array that is skipped when it is empty. -/
def unlessEmpty {α : Type} (items : List α) : Option (List α) :=
  if items.isEmpty then none else some items

def HeaderInjection.written (injection : HeaderInjection) : RawHeaderInjection :=
  { header := injection.header, secret := injection.secret, format := injection.format,
    username := injection.username }

def NamedHostRule.written (rule : NamedHostRule) : RawNamedRule :=
  { mode := some rule.mode
    ports := rule.ports
    paths := unlessEmpty rule.paths
    inject := (unlessEmpty rule.inject).map (List.map HeaderInjection.written) }

def UnmatchedHostPolicy.text : UnmatchedHostPolicy → Text
  | .deny => "deny".toList
  | .tunnel => "tunnel".toList

/-- An absent table of overrides is read as an empty one, so it does not matter
that an empty one is skipped. -/
def CredentialConfigWire.written (credentials : CredentialConfigWire) : RawCredentials :=
  { defaultMode := credentials.defaultMode
    overrides := credentials.overrides.mapValues CredentialModeOverrideWire.mode }

def SessionConfigWire.written (session : SessionConfigWire) : RawSessionConfig :=
  { version := some session.version
    persistent := session.persistent
    socketName := session.socketName
    unmatched := if session.unmatched = .deny then none else some session.unmatched.text
    rules := some (.named (session.rules.mapValues NamedHostRule.written))
    credentials := session.credentials.map CredentialConfigWire.written
    unsupportedFields := [] }

/-- What the server's parser makes of the text that the client's serializer writes. -/
def CreateRequest.written (request : CreateRequest) : RawControlRequest :=
  .create (some request.session.written)

def validateProtocolVersion (version : Nat) : Except String Unit :=
  refuse (version != protocolVersion) "unsupported control protocol version; expected version = 2"

/-- `ControlRequest::from_toml` on that text: the version of the envelope first. -/
def CreateRequest.read (x : Crates) (request : CreateRequest) : Except String ControlRequest := do
  validateProtocolVersion request.version
  ControlRequest.fromToml x request.written

end Baffle
