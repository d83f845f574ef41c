import Baffle.Framing
import Baffle.Lib.Json

/-!
The responses of the control protocol: the JSON that the server makes of them
(`src/control/server.rs`) and what the methods of `Client` make of that JSON
(`crates/baffle-client/src/lib.rs`).
-/

namespace Baffle

def errorValueWithMessage (code message : String) : Json :=
  .object [
    ("version", .number protocolVersion),
    ("ok", .bool false),
    ("error", .object [("code", .string code.toList), ("message", .string message.toList)])]

def errorValue (error : ControlError) : Json := errorValueWithMessage error.1 error.2

def success (result : Json) : Json :=
  .object [("version", .number protocolVersion), ("ok", .bool true), ("result", result)]

def SessionLifecycle.json : SessionLifecycle → Json
  | .running => .string "running".toList
  | .stopping => .string "stopping".toList

def SessionInfo.json (info : SessionInfo) : Json :=
  .object [
    ("id", .string info.id),
    ("socket", .string info.socket),
    ("persistent", .bool info.persistent),
    ("state", info.state.json),
    ("generation", .number info.generation),
    ("draining_generations", .number info.drainingGenerations)]

def ReloadStatus.json : ReloadStatus → Json
  | .reloaded => .string "reloaded".toList
  | .unchanged => .string "unchanged".toList
  | .failed => .string "failed".toList

/-- A member that is skipped when there is no value. -/
def skipNone (key : String) (value : Option String) : List (String × Json) :=
  match value with
  | none => []
  | some value => [(key, .string value.toList)]

def SessionReloadResult.json (result : SessionReloadResult) : Json :=
  .object ([
    ("id", .string result.id),
    ("status", result.status.json),
    ("socket", .string result.socket)]
    ++ skipNone "reason" result.reason ++ skipNone "detail" result.detail)

/-- What is passed to `write_value`, with the certificate of the daemon. -/
def Response.value (caCertificatePem : Text) : Response → Json
  | .error e => errorValue e
  | .created id socket persistent credentialSeedBase64url =>
    success (.object [
      ("id", .string id),
      ("socket", .string socket),
      ("persistent", .bool persistent),
      ("ca_certificate_pem", .string caCertificatePem),
      ("credential_seed_base64url", .string credentialSeedBase64url)])
  | .stopped => success (.object [("stopped", .bool true)])
  | .reloaded r => success r.json
  | .results rs => success (.object [("results", .array (rs.map SessionReloadResult.json))])
  | .sessions infos => success (.object [("sessions", .array (infos.map SessionInfo.json))])

def asString (j : Json) : Option String := j.asText.map String.ofList

def readRemoteError (j : Json) : Option (String × String) := do
  let code ← j.field "code" asString
  let message ← j.field "message" asString
  pure (code, message)

def asU16 (j : Json) : Option Nat := j.asNat.bind (fun n => if n < 2 ^ 16 then some n else none)

/-- The envelope of a response; the result is kept as a value. -/
def readEnvelope (j : Json) : Option (Envelope Json) := do
  let version ← j.field "version" asU16
  let ok ← j.field "ok" Json.asBool
  let result ← j.optional "result" some
  let error ← j.optional "error" readRemoteError
  pure { version, ok, result, error }

structure CreateResult where
  id : Text
  socket : Text
  persistent : Bool
  caCertificatePem : Option Text
  credentialSeedBase64url : Option Text

def readCreateResult (j : Json) : Option CreateResult := do
  let id ← j.field "id" Json.asText
  let socket ← j.field "socket" Json.asText
  let persistent ← j.field "persistent" Json.asBool
  let caCertificatePem ← j.optional "ca_certificate_pem" Json.asText
  let credentialSeedBase64url ← j.optional "credential_seed_base64url" Json.asText
  pure { id, socket, persistent, caCertificatePem, credentialSeedBase64url }

def readLifecycle (j : Json) : Option SessionLifecycle :=
  match asString j with
  | some "running" => some .running
  | some "stopping" => some .stopping
  | _ => none

def readSessionInfo (j : Json) : Option SessionInfo := do
  let id ← j.field "id" Json.asText
  let socket ← j.field "socket" Json.asText
  let persistent ← j.field "persistent" Json.asBool
  let state ← j.field "state" readLifecycle
  let generation ← j.defaulted "generation" 0 Json.asNat
  let drainingGenerations ← j.defaulted "draining_generations" 0 Json.asNat
  pure { id, socket, persistent, state, generation, drainingGenerations }

def readReloadStatus (j : Json) : Option ReloadStatus :=
  match asString j with
  | some "reloaded" => some .reloaded
  | some "unchanged" => some .unchanged
  | some "failed" => some .failed
  | _ => none

def readReloadResult (j : Json) : Option SessionReloadResult := do
  let id ← j.field "id" Json.asText
  let status ← j.field "status" readReloadStatus
  let socket ← j.field "socket" Json.asText
  let reason ← j.optional "reason" asString
  let detail ← j.optional "detail" asString
  pure { id, status, socket, reason, detail }

/-- `success_result` -/
def successResult {α : Type} (result : Option α) : Except ExchangeError α :=
  match result with
  | none => throw (.protocol "result does not match the operation response")
  | some a => pure a

/-- The handle of a session; `lease` says whether it keeps the control connection. -/
structure ClientSession where
  id : Text
  socketPath : Text
  persistent : Bool
  caCertificatePem : Option Text
  credentialSeedBase64url : Option Text
  lease : Bool
deriving DecidableEq

def ClientSession.ofResult (created : CreateResult) : ClientSession where
  id := created.id
  socketPath := created.socket
  persistent := created.persistent
  caCertificatePem := created.caCertificatePem
  credentialSeedBase64url := created.credentialSeedBase64url
  lease := !created.persistent

/-- A method of the client that sends a request. -/
inductive ClientCall where
  | create (request : CreateRequest)
  | createFromFile (name : Text) (requireEphemeral : Bool)
  | stop (sessionId : Text)
  | reload (sessionId : Text)
  | reloadAll
  | list

/-- What a method returns. A session that has to be ephemeral and is not is stopped
before the call fails. -/
inductive ClientReply where
  | session (session : ClientSession)
  | unwanted (id : Text)
  | stopped
  | reloaded (result : SessionReloadResult)
  | results (results : List SessionReloadResult)
  | sessions (sessions : List SessionInfo)
deriving DecidableEq

/-- The session whose control connection is kept. -/
def ClientReply.lease : ClientReply → Option SessionId
  | .session opened => if opened.lease then some opened.id else none
  | _ => none

namespace ClientCall

/-- What the server parses the request to. `require_ephemeral` is skipped when it is
false, and absent it is read as false. -/
def written : ClientCall → RawControlRequest
  | create request => request.written
  | createFromFile name requireEphemeral => .createFromFile name requireEphemeral
  | stop sessionId => .stop sessionId
  | reload sessionId => .reload sessionId
  | reloadAll => .reloadAll
  | list => .list

/-- What the method makes of the result of a successful response. -/
def receive (call : ClientCall) (value : Json) : Except ExchangeError ClientReply := do
  match call with
  | create _ =>
    let created ← successResult (readCreateResult value)
    pure (.session (.ofResult created))
  | createFromFile _ requireEphemeral =>
    let created ← successResult (readCreateResult value)
    if requireEphemeral && created.persistent then pure (.unwanted created.id)
    else pure (.session (.ofResult created))
  | stop _ =>
    let stopped ← successResult (value.field "stopped" Json.asBool)
    refuse (!stopped) (.protocol "daemon did not confirm that the session stopped")
    pure .stopped
  | reload _ =>
    let result ← successResult (readReloadResult value)
    pure (.reloaded result)
  | reloadAll =>
    let results ← successResult (value.field "results" (Json.asList readReloadResult))
    pure (.results results)
  | list =>
    let sessions ← successResult (value.field "sessions" (Json.asList readSessionInfo))
    pure (.sessions sessions)

end ClientCall

end Baffle
