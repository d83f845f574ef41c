import Baffle.Policy

/-!
Decrypted requests: policy and managed credentials
(`src/proxy_runtime/rama/http.rs`). A request is represented by the parts that
the program reads or writes.
-/

namespace Baffle

/-- Header fields in order, under normalized names. -/
structure HeaderMap where
  entries : List (Text × Bytes)
deriving DecidableEq

namespace HeaderMap

def getAll (headers : HeaderMap) (name : Text) : List Bytes :=
  (headers.entries.filter (fun e => e.1 = name)).map Prod.snd

def containsKey (headers : HeaderMap) (name : Text) : Bool := !(headers.getAll name).isEmpty

def remove (headers : HeaderMap) (name : Text) : HeaderMap :=
  ⟨headers.entries.filter (fun e => e.1 ≠ name)⟩

/-- Inserting drops every earlier value of the name. -/
def insert (headers : HeaderMap) (name : Text) (value : Bytes) : HeaderMap :=
  ⟨(headers.remove name).entries ++ [(name, value)]⟩

end HeaderMap

structure Request where
  method : Text
  uri : Uri
  headers : HeaderMap
deriving DecidableEq

def hostHeader : Text := "host".toList
def upgradeHeader : Text := "upgrade".toList
def connectionHeader : Text := "connection".toList

/-- Resolved secret values of one session (`src/secrets.rs`). -/
abbrev ResolvedSecrets := SortedMap Text Text

def formatInjectedSecret (x : Crates) (injection : HeaderInjection) (secret : Text) :
    Except Unit Text :=
  match injection.format with
  | .raw => pure secret
  | .bearer => pure ("Bearer ".toList ++ secret)
  | .basicPassword =>
    match injection.username with
    | none => throw ()
    | some username =>
      pure ("Basic ".toList ++ x.base64Encode (utf8 (username ++ ':' :: secret)))

/-- The value of a header that occurs exactly once, as text. -/
def singleHeaderText (x : Crates) (request : Request) (name : Text) : Option Text :=
  match request.headers.getAll name with
  | [value] => x.headerText value
  | _ => none

/-- The replacement for a header value that carries the session fake. -/
def substituteHeaderSecret (x : Crates) (request : Request) (injection : HeaderInjection)
    (fake real : Text) : Option Text := do
  let name ← x.headerName injection.header
  let value ← singleHeaderText x request name
  match injection.format with
  | .raw => if value = fake then some real else none
  | .bearer =>
    let (scheme, secret) ← Text.splitOnce ' ' value
    if Text.eqIgnoreAsciiCase scheme "Bearer".toList ∧ secret = fake then
      some (scheme ++ ' ' :: real)
    else none
  | .basicPassword =>
    let (scheme, encoded) ← Text.splitOnce ' ' value
    if !Text.eqIgnoreAsciiCase scheme "Basic".toList then none
    else
      let username ← injection.username
      let decoded ← x.base64Decode encoded
      let (user, password) ← Text.splitOnce 58 decoded
      if user ≠ utf8 username ∨ password ≠ utf8 fake then none
      else some (scheme ++ ' ' :: x.base64Encode (user ++ 58 :: utf8 real))

/-- `Option::ok_or(())` -/
def orFail {α : Type} : Option α → Except Unit α
  | some a => pure a
  | none => throw ()

/-- The new text of the header of a credential, if it gets one. -/
def credentialText (x : Crates) (request : Request) (credential : CompiledCredential)
    (secret : Text) : Except Unit (Option Text) :=
  match credential.mode with
  | .inject => some <$> formatInjectedSecret x credential.injection secret
  | .substitute => pure (credential.fakeValue.bind (fun fake =>
      substituteHeaderSecret x request credential.injection fake secret))
  | .disabled => pure none

/-- The header write that one credential asks for, if any. -/
def credentialValue (x : Crates) (request : Request) (secrets : ResolvedSecrets)
    (credential : CompiledCredential) : Except Unit (Option (Text × Bytes)) := do
  if credential.mode = .disabled then pure none
  else
    let name ← orFail (x.headerName credential.injection.header)
    let secret ← orFail (secrets.get credential.injection.secret)
    let text ← credentialText x request credential secret
    let value ← transpose (fun text => orFail (x.headerValue text)) text
    pure (value.map (fun value => (name, value)))

def credentialValues (x : Crates) (request : Request) (secrets : ResolvedSecrets) :
    List CompiledCredential → Except Unit (List (Text × Bytes))
  | [] => pure []
  | credential :: rest => do
    let value ← credentialValue x request secrets credential
    let values ← credentialValues x request secrets rest
    pure (value.toList ++ values)

def writeHeader (headers : HeaderMap) (entry : Text × Bytes) : HeaderMap :=
  (headers.remove entry.1).insert entry.1 entry.2

/-- All values are computed from the untouched request before the first write. -/
def applyHeaderCredentials (x : Crates) (request : Request)
    (credentials : List CompiledCredential) (secrets : ResolvedSecrets) :
    Except Unit Unit × Request :=
  match credentialValues x request secrets credentials with
  | .error e => (.error e, request)
  | .ok values => (.ok (), { request with headers := values.foldl writeHeader request.headers })

inductive ServeResult where
  | denied (status : Nat)
  | forwarded (request : Request)
deriving DecidableEq

def deniedResponse : AuthorizationError → ServeResult
  | .invalidAuthority => .denied 400
  | .denied => .denied 403

def requestHasUnsupportedUpgrade (x : Crates) (request : Request) : Bool :=
  request.headers.containsKey upgradeHeader
    || ((request.headers.getAll connectionHeader).filterMap x.headerText).any (fun value =>
      (value.splitOn ',').any (fun token =>
        (Text.trim token).eqIgnoreAsciiCase "upgrade".toList))

def requestFacts (request : Request) (hostHeaders : List Text) : RequestFacts :=
  { method := request.method
    scheme := request.uri.scheme
    uriAuthority := request.uri.authority
    path := request.uri.path.getD ['/']
    hostHeaders }

/-- Every value as text, or nothing when one of them is not text. -/
def headerTexts (x : Crates) : List Bytes → Option (List Text)
  | [] => some []
  | value :: rest => do
    let value ← x.headerText value
    let rest ← headerTexts x rest
    pure (value :: rest)

/-- The canonical path of a request becomes the path of its URI. -/
def replacePath (x : Crates) (request : Request) : Option Text → Request
  | none => request
  | some path => { request with uri := x.setPath request.uri path }

/-- `RamaPolicyService::serve` up to the call of the inner service. -/
def serve (x : Crates) (policy : SessionPolicy) (secrets : ResolvedSecrets)
    (connectAuthority : Text) (request : Request) : ServeResult :=
  match headerTexts x (request.headers.getAll hostHeader) with
  | none => deniedResponse .invalidAuthority
  | some hostHeaders =>
    match policy.authorizeInterceptedRequest x (requestFacts request hostHeaders)
        connectAuthority with
    | .error error => deniedResponse error
    | .ok (credentials, canonicalPath) =>
      let request := replacePath x request canonicalPath
      if credentials.any (fun credential => credential.mode != .disabled)
          && requestHasUnsupportedUpgrade x request then
        deniedResponse .denied
      else
        match applyHeaderCredentials x request credentials secrets with
        | (.error _, _) => deniedResponse .denied
        | (.ok _, request) => .forwarded request

end Baffle
