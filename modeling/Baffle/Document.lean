import Baffle.Crates
import Baffle.SessionConfig
import Baffle.Lib.IpAddr
import Baffle.Lib.Result

/-!
Parsing and validation of a session policy document
(`crates/baffle-client/src/policy.rs`). The TOML parser and its field decoding
are outside the repository: a document enters here as the raw record that they
produce.
-/

namespace Baffle

def sessionConfigVersion : Int := 2
def maxSessionConfigNameBytes : Nat := 1024
def maxSessionConfigComponentBytes : Nat := 255

/-- The check applied to the name of a session file. -/
def validateSessionConfigName (name : Text) : Except String Unit :=
  refuse (name.isEmpty
      || maxSessionConfigNameBytes < name.len
      || !(".toml".toList).isSuffixOf name
      || name.any (fun c => c == '\\' || c == ':')
      || name.any Text.isControl
      || (name.splitOn '/').any (fun component =>
        component.isEmpty || component == ['.'] || component == ['.', '.']
          || maxSessionConfigComponentBytes < Text.len component))
    "session configuration name is invalid"

def isDnsLabel (label : Text) : Bool :=
  !(label.isEmpty || 63 < label.len
    || label.head? == some '-' || label.getLast? == some '-'
    || !label.all (fun c => c.isAlphanum || c == '-'))

def exactDomain : Option UrlHost → Except String Text
  | some (.domain domain) => pure domain
  | some _ => throw "must be an exact DNS hostname, not an IP address or wildcard"
  | none => throw "must be a valid exact DNS hostname"

/-- Normalize an exact ASCII host name: lowercase it and drop one final dot.
Addresses, wildcards, bad labels and names over 253 bytes are rejected. -/
def normalizeDnsName (x : Crates) (input : Text) : Except String Text := do
  refuse (input.isEmpty || input.contains '*') "must be an exact DNS hostname"
  let input := input.toAsciiLowercase
  let host := (Text.stripSuffix ['.'] input).getD input
  refuse (host.isEmpty || 253 < host.len || IpAddr.accepts host || !host.isAscii)
    "must be an exact DNS hostname, not an IP address or wildcard"
  refuse (!(host.splitOn '.').all isDnsLabel) "contains an invalid DNS label"
  exactDomain (x.hostParse host)

def hexValue (c : Char) : Option Nat :=
  if '0' ≤ c ∧ c ≤ '9' then some (c.toNat - '0'.toNat)
  else if 'a' ≤ c ∧ c ≤ 'f' then some (c.toNat - 'a'.toNat + 10)
  else if 'A' ≤ c ∧ c ≤ 'F' then some (c.toNat - 'A'.toNat + 10)
  else none

def isUnreserved (c : Char) : Bool :=
  c.isAlphanum || c == '-' || c == '.' || c == '_' || c == '~'

def isPathCharacter (c : Char) : Bool :=
  c.isAlphanum || "/-._~!$&'()+,;=:@".toList.contains c

/-- The loop of `canonicalize_path`: unreserved escapes are decoded, the other
escapes get uppercase digits. A non-ASCII character is several bytes in the
source, none of which is a path character or a hex digit. -/
def canonicalizeOctets : Text → Except String Text
  | [] => pure []
  | '%' :: h :: l :: rest =>
    match hexValue h, hexValue l with
    | some high, some low =>
      let decoded := Char.ofNat (high * 16 + low)
      if decoded == '/' || decoded == '\\' || decoded == '%' then
        throw "contains an encoded path separator or ambiguous double encoding"
      else if isUnreserved decoded then (decoded :: ·) <$> canonicalizeOctets rest
      else (['%', h.toUpper, l.toUpper] ++ ·) <$> canonicalizeOctets rest
    | _, _ => throw "contains malformed percent encoding"
  | '%' :: _ => throw "contains malformed percent encoding"
  | c :: rest =>
    if !isPathCharacter c then throw "contains a character that is not valid in a URL path"
    else (c :: ·) <$> canonicalizeOctets rest

def notAbsolutePath (path : Text) : Bool :=
  path.head? != some '/' || path.any (fun c => c == '?' || c == '#' || c == '\\')

def canonicalizePath (path : Text) : Except String Text := do
  refuse (notAbsolutePath path) "must be an absolute URL path without query, fragment, or backslash"
  let canonical ← canonicalizeOctets path
  refuse (Text.containsText ['/', '/'] canonical) "contains an ambiguous repeated path separator"
  refuse ((canonical.splitOn '/').any (fun segment => segment == ['.'] || segment == ['.', '.']))
    "contains an unsafe dot segment"
  pure canonical

def canonicalizeRequestPath (path : Text) : Except String Text :=
  canonicalizePath (if path.isEmpty then ['/'] else path)

def validatePath (input : Text) : Except String Text := do
  refuse (notAbsolutePath input)
    "must be an absolute URL path without query, fragment, or backslash"
  let (path, recursive) := match Text.stripSuffix "/**".toList input with
    | some stem => (stem ++ ['/'], true)
    | none => (input, false)
  refuse (path.contains '*') "may use ** only as the final recursive path segment"
  let canonical ← canonicalizePath path
  pure (if recursive then canonical ++ ['*', '*'] else canonical)

def pathPatternParts (pattern : Text) : Text × Bool :=
  match Text.stripSuffix ['*', '*'] pattern with
  | some path => (path, true)
  | none => (pattern, false)

def pathsOverlap (left right : Text) : Bool :=
  let (leftPath, leftRecursive) := pathPatternParts left
  let (rightPath, rightRecursive) := pathPatternParts right
  match leftRecursive, rightRecursive with
  | false, false => leftPath == rightPath
  | true, false => leftPath.isPrefixOf rightPath
  | false, true => rightPath.isPrefixOf leftPath
  | true, true => rightPath.isPrefixOf leftPath || leftPath.isPrefixOf rightPath

def prohibitedHeaders : List Text :=
  ["connection", "content-length", "forwarded", "host", "http2-settings", "keep-alive",
    "proxy-authenticate", "proxy-authorization", "proxy-connection", "te", "trailer",
    "transfer-encoding", "upgrade", "x-forwarded-for", "x-forwarded-host", "x-forwarded-port",
    "x-forwarded-proto", "x-original-host", "x-original-url", "x-real-ip",
    "x-rewrite-url"].map String.toList

def isTokenCharacter (c : Char) : Bool :=
  c.isAlphanum || "!#$%&'*+-.^_`|~".toList.contains c

def validateHeader (input : Text) : Except String Text := do
  refuse (input.isEmpty || !input.all isTokenCharacter) "must be a valid HTTP header name"
  refuse (prohibitedHeaders.contains input.toAsciiLowercase)
    "is a hop-by-hop or routing-critical header"
  pure input

def validateSecretId (input : Text) : Except String Unit :=
  refuse (input.isEmpty || 64 < input.len
      || !input.all (fun c => c.isAlphanum || c == '.' || c == '_' || c == '-')
      || !input.head?.any Char.isAlphanum
      || input.getLast?.any (fun c => c == '.' || c == '-' || c == '_')
      || Text.containsText ['.', '.'] input)
    "must be a valid symbolic secret identifier"

def validateBasicUsername (input : Text) : Except String Unit :=
  refuse (input.isEmpty || input.contains ':' || !input.all (fun c => ' ' ≤ c && c ≤ '~'))
    "must be printable ASCII and must not contain a colon"

structure RawHeaderInjection where
  header : Text
  secret : Text
  format : InjectionFormat
  username : Option Text
deriving DecidableEq

structure RawNamedRule where
  mode : Option RuleMode
  ports : List UInt16
  paths : Option (List Text)
  inject : Option (List RawHeaderInjection)
deriving DecidableEq

/-- `default_ports`, used by the decoder when a rule has no `ports`. -/
def defaultPorts : List UInt16 := [443]

def validatePorts (context : String) (uniquePorts : List UInt16) :
    List UInt16 → Except String Unit
  | [] => pure ()
  | port :: ports => do
    refuse (port == 0) s!"{context}.ports entries must be between 1 and 65535"
    refuse (uniquePorts.contains port) s!"{context}.ports contains a duplicate"
    validatePorts context (port :: uniquePorts) ports

def validatePaths (context : String) (index : Nat) (paths : List Text) :
    List Text → Except String (List Text)
  | [] => pure paths
  | rawPath :: rest => do
    let path ← (validatePath rawPath).mapError
      (fun message => s!"{context}.paths[{index}] {message}")
    refuse (paths.any (fun existing => pathsOverlap existing path))
      s!"{context}.paths contains duplicate or overlapping patterns"
    validatePaths context (index + 1) (paths ++ [path]) rest

def validateUsername (context : String) : InjectionFormat → Option Text → Except String Unit
  | .basicPassword, some username =>
    (validateBasicUsername username).mapError (fun message => s!"{context}.username {message}")
  | .basicPassword, none => throw s!"{context}.username is required for basic_password"
  | _, some _ => throw s!"{context}.username is only valid for basic_password"
  | _, none => pure ()

def validateInjections (context : String) (index : Nat) (headers : List Text) :
    List HeaderInjection → Except String (List HeaderInjection)
  | [] => pure []
  | injection :: rest => do
    let injectionContext := s!"{context}.inject[{index}]"
    let header ← (validateHeader injection.header).mapError
      (fun message => s!"{injectionContext}.header {message}")
    refuse (headers.contains header.toAsciiLowercase)
      s!"{injectionContext}.header duplicates another injected header"
    (validateSecretId injection.secret).mapError
      (fun message => s!"{injectionContext}.secret {message}")
    validateUsername injectionContext injection.format injection.username
    let rest ← validateInjections context (index + 1) (header.toAsciiLowercase :: headers) rest
    pure ({ injection with header } :: rest)

def validateRule (rule : HostRule) (context : String) (hasInterceptFeatures : Bool) :
    Except String HostRule := do
  refuse (rule.ports.isEmpty) s!"{context}.ports must not be empty"
  validatePorts context [] rule.ports
  refuse (rule.mode == .tunnel && hasInterceptFeatures)
    s!"{context} tunnel rules cannot use paths or inject headers"
  let paths ← validatePaths context 0 [] rule.paths
  let inject ← validateInjections context 0 [] rule.inject
  pure { rule with paths, inject }

def validateNamedRules (x : Crates) (index : Nat) (hosts : List Text) :
    List (Text × RawNamedRule) → Except String (List HostRule)
  | [] => pure []
  | (rawHost, raw) :: rest => do
    let context := s!"rules[{index}]"
    let host ← (normalizeDnsName x rawHost).mapError (fun message => s!"{context}.host {message}")
    refuse (hosts.contains host)
      s!"{context}.host duplicates another rule; use one rule per exact host"
    let hasInterceptFeatures := raw.paths.isSome || raw.inject.isSome
    let mode := raw.mode.getD (if hasInterceptFeatures then .intercept else .tunnel)
    let inject := (raw.inject.getD []).map (fun raw =>
      ({ header := raw.header, secret := raw.secret, format := raw.format,
         username := raw.username } : HeaderInjection))
    let rule ← validateRule
      { host, mode, ports := raw.ports, paths := raw.paths.getD [], inject }
      context hasInterceptFeatures
    let rules ← validateNamedRules x (index + 1) (host :: hosts) rest
    pure (rule :: rules)

structure RawCredentials where
  defaultMode : Option CredentialMode
  overrides : SortedMap Text CredentialMode
deriving DecidableEq

inductive RawRules where
  | named (rules : SortedMap Text RawNamedRule)
  | other
deriving DecidableEq

structure RawSessionConfig where
  version : Option Int
  persistent : Bool
  socketName : Option Text
  unmatched : Option Text
  rules : Option RawRules
  credentials : Option RawCredentials
  unsupportedFields : List Text
deriving DecidableEq

def invalidSessionFile : String :=
  "invalid version 2 session configuration field or value (values omitted)"

def validateSocketName (input : Text) : Except String Text := do
  refuse (input.isEmpty || input.head? == some '/'
      || input.any (fun c => c == '\\' || c.toNat == 0))
    "socket_name must be a relative Unix socket path"
  refuse ((input.splitOn '/').any (fun component =>
      component.isEmpty || component == ['.'] || component == ['.', '.']))
    "socket_name must not contain empty, dot, or parent components"
  refuse (107 < input.len) "socket_name is too long"
  pure input

/-- The keys of a decoded map are distinct, so the source's duplicate test on
the map it builds never fires: what remains is one check per identifier. -/
def validateOverrides (modes : SortedMap Text CredentialMode) :
    List (Text × CredentialMode) → Except String (SortedMap Text CredentialMode)
  | [] => pure modes
  | (name, mode) :: rest => do
    (validateSecretId name).mapError
      (fun _ => "credentials contains an invalid secret identifier")
    refuse (modes.contains name) "credentials contains a duplicate secret identifier"
    validateOverrides (modes.insert name mode) rest

def validateCredentials : Option RawCredentials →
    Except String (Option CredentialMode × SortedMap Text CredentialMode)
  | none => pure (none, ∅)
  | some raw => do
    let modes ← validateOverrides ∅ raw.overrides.entries
    pure (raw.defaultMode, modes)

def validateUnmatched (raw : Option Text) : Except String UnmatchedHostPolicy :=
  let text := raw.getD "deny".toList
  if text = "deny".toList then pure .deny
  else if text = "tunnel".toList then pure .tunnel
  else throw "unmatched must be \"deny\" or \"tunnel\""

def validateVersion : Option Int → Except String Unit
  | some version =>
    if version = sessionConfigVersion then pure ()
    else throw "unsupported session configuration version; expected version = 2"
  | none => throw "session configuration must declare version = 2"

def namedRules : Option RawRules → Except String (SortedMap Text RawNamedRule)
  | some (.named rules) => pure rules
  | some .other => throw invalidSessionFile
  | none => pure ∅

def validateSessionDocument (x : Crates) (raw : RawSessionConfig) :
    Except String SessionConfig := do
  validateVersion raw.version
  refuse (!raw.unsupportedFields.isEmpty) invalidSessionFile
  let unmatched ← validateUnmatched raw.unmatched
  let rawRules ← namedRules raw.rules
  let rules ← validateNamedRules x 0 [] rawRules.entries
  let socketName ← transpose validateSocketName raw.socketName
  let (defaultCredentialMode, credentialModes) ← validateCredentials raw.credentials
  pure { persistent := raw.persistent, socketName, unmatched, defaultCredentialMode,
         credentialModes, rules }

/-- `SessionConfig::from_toml` on the outcome of the TOML parser, `none` when it
rejects the text. -/
def SessionConfig.fromToml (x : Crates) : Option RawSessionConfig → Except String SessionConfig
  | none => throw "invalid session configuration TOML syntax or value (values omitted)"
  | some raw => validateSessionDocument x raw

end Baffle
