import Baffle.Document

/-!
The authorization policy compiled for one session (`src/policy.rs`) and the
fake credentials it carries (`src/credentials.rs`).
-/

namespace Baffle

structure CredentialSeed where
  bytes : Vector UInt8 32
deriving DecidableEq

/-- The seed as `create` returns it. -/
def CredentialSeed.asBase64url (x : Crates) (seed : CredentialSeed) : Text :=
  x.base64UrlEncode seed.bytes.toList

def utf8 (s : Text) : Bytes := s.flatMap String.utf8EncodeChar

def domainSeparator : Bytes := utf8 "baffle:credential-substitution:v1".toList ++ [0]

/-- The recognizable fake value of one secret identifier. -/
def deriveFakeCredential (x : Crates) (seed : CredentialSeed) (identifier : Text) : Text :=
  let digest := x.hmacSha256 seed.bytes.toList (domainSeparator ++ utf8 identifier)
  "baffle_v1_".toList ++ x.base64UrlEncode digest

inductive AuthorizationError where
  | invalidAuthority
  | denied
deriving DecidableEq

structure Destination where
  host : Text
  port : UInt16
deriving DecidableEq

structure RequestFacts where
  method : Text
  scheme : Option Text
  uriAuthority : Option Text
  path : Text
  hostHeaders : List Text

structure CompiledCredential where
  injection : HeaderInjection
  mode : CredentialMode
  fakeValue : Option Text
deriving DecidableEq

structure CompiledRule where
  mode : RuleMode
  ports : Finset UInt16
  paths : List Text
  credentials : List CompiledCredential
deriving DecidableEq

structure SessionPolicy where
  rules : SortedMap Text CompiledRule
  unmatched : UnmatchedHostPolicy
deriving DecidableEq

def compileCredential (x : Crates) (session : SessionConfig) (seed : CredentialSeed)
    (injection : HeaderInjection) : CompiledCredential :=
  let mode := session.effectiveCredentialMode injection.secret
  { injection, mode
    fakeValue :=
      if mode = .substitute then some (deriveFakeCredential x seed injection.secret) else none }

def compileRule (x : Crates) (session : SessionConfig) (seed : CredentialSeed) (rule : HostRule) :
    CompiledRule :=
  { mode := rule.mode
    ports := rule.ports.toFinset
    paths := rule.paths
    credentials := rule.inject.map (compileCredential x session seed) }

namespace SessionPolicy

/-- Collecting the rules into a hash map: a later rule for a host replaces an earlier one. -/
def compile (x : Crates) (session : SessionConfig) (seed : CredentialSeed) : SessionPolicy :=
  { rules := session.rules.foldl
      (fun rules rule => rules.insert rule.host (compileRule x session seed rule)) ∅
    unmatched := session.unmatched }

end SessionPolicy

/-- Host and port of an authority. The text is split at its first colon, so a
second one ends up in the port. -/
def splitAuthority (authority : Text) (defaultPort : Option UInt16) :
    Except AuthorizationError (Text × UInt16) :=
  match Text.splitOnce ':' authority with
  | some (host, port) =>
    match Text.parseU16 port with
    | some port => pure (host, port)
    | none => throw .invalidAuthority
  | none =>
    match defaultPort with
    | some port => pure (authority, port)
    | none => throw .invalidAuthority

def parseAuthorityText (x : Crates) (authority : Text) (defaultPort : Option UInt16) :
    Except AuthorizationError Destination := do
  refuse (authority.isEmpty || !authority.isAscii || authority.any (fun c => c == '@' || c == '%'))
    .invalidAuthority
  let (host, port) ← splitAuthority authority defaultPort
  refuse (port == 0) .invalidAuthority
  let host ← (normalizeDnsName x host).mapError (fun _ => .invalidAuthority)
  pure { host, port }

def validateHostHeaderText (x : Crates) (hostHeaders : List Text) (destination : Destination) :
    Except AuthorizationError Unit := do
  refuse (1 < hostHeaders.length) .invalidAuthority
  match hostHeaders.head? with
  | none => pure ()
  | some host =>
    let parsed ← parseAuthorityText x host (some 443)
    refuse (parsed != destination) .invalidAuthority

def matchesPathPattern (pattern path : Text) : Bool :=
  match Text.stripSuffix ['*', '*'] pattern with
  | some stem => stem.isPrefixOf path
  | none => pattern == path

def canonicalAuthorizedPath (rule : CompiledRule) (path : Text) :
    Except AuthorizationError (Option Text) := do
  if rule.paths.isEmpty then pure none
  else
    let canonical ← (canonicalizeRequestPath path).mapError (fun _ => .denied)
    refuse (!rule.paths.any (fun pattern => matchesPathPattern pattern canonical)) .denied
    pure (some canonical)

namespace SessionPolicy

/-- Authorize a CONNECT target. An authority without a port means 443. -/
def authorizeConnectAuthority (x : Crates) (policy : SessionPolicy) (authority : Text)
    (hostHeaders : List Text) : Except AuthorizationError (RuleMode × Destination) := do
  let destination ← parseAuthorityText x authority (some 443)
  validateHostHeaderText x hostHeaders destination
  match policy.rules.get destination.host with
  | some rule =>
    if destination.port ∈ rule.ports then pure (rule.mode, destination) else throw .denied
  | none =>
    if policy.unmatched = .tunnel ∧ destination.port = 443 then pure (.tunnel, destination)
    else throw .denied

/-- The CONNECT authority and the TLS server name must identify one intercept rule. -/
def permitsTlsInterceptionAuthority (x : Crates) (policy : SessionPolicy) (authority : Text)
    (serverName : Option Text) : Bool :=
  match policy.authorizeConnectAuthority x authority [] with
  | .error _ => false
  | .ok (mode, destination) =>
    match serverName.bind (fun name => (normalizeDnsName x name).toOption) with
    | none => false
    | some serverName => mode == .intercept && serverName == destination.host

/-- The destination that the single `Host` value of a request names, if there is one. -/
def hostDestination (x : Crates) : List Text → Except AuthorizationError (Option Destination)
  | [] => pure none
  | [host] => some <$> parseAuthorityText x host (some 443)
  | _ => throw .invalidAuthority

/-- Decide about one decrypted request: the credentials of its rule and the
path to forward, when the rule restricts paths. -/
def authorizeInterceptedRequest (x : Crates) (policy : SessionPolicy) (facts : RequestFacts)
    (connectAuthority : Text) :
    Except AuthorizationError (List CompiledCredential × Option Text) := do
  refuse (facts.method.eqIgnoreAsciiCase "CONNECT".toList
      || facts.scheme.any (fun scheme => !scheme.eqIgnoreAsciiCase "https".toList))
    .invalidAuthority
  let connect ← parseAuthorityText x connectAuthority (some 443)
  let uriDestination ← transpose (fun a => parseAuthorityText x a (some 443)) facts.uriAuthority
  let hostDestination ← hostDestination x facts.hostHeaders
  refuse (uriDestination.any (· != connect) || hostDestination.any (· != connect)
      || (uriDestination.isNone && hostDestination.isNone))
    .invalidAuthority
  match (policy.rules.get connect.host).filter
      (fun rule => decide (connect.port ∈ rule.ports)) with
  | none => throw .denied
  | some rule =>
    let path ← canonicalAuthorizedPath rule facts.path
    pure (rule.credentials, path)

end SessionPolicy

end Baffle
