import Baffle.Client
import Baffle.Lib.BigEndian
import Baffle.Lib.Streams

/-!
The frames of the control protocol: `read_request_frame` and `write_value` of the
server (`src/control/server.rs`) and `exchange` of the client
(`crates/baffle-client/src/lib.rs`).
-/

namespace Baffle
open Streams

variable {σ T V : Type} [Source σ UInt8]

def maxRequestBytes : Nat := 256 * 1024
def maxResponseBytes : Nat := 4 * 1024 * 1024

/-- A response, as the client reads it. -/
structure Envelope (V : Type) where
  version : Nat
  ok : Bool
  result : Option V
  error : Option (String × String)

/-- The serialisers: TOML for requests, JSON values of type `V` for responses. No JSON
text is empty. -/
structure ControlCodec (T V : Type) where
  toToml : T → Option Bytes
  toVec : V → Option Bytes
  fromSlice : Bytes → Option (Envelope V)
  toVec_ne : ∀ value bytes, toVec value = some bytes → bytes ≠ []

/-- `u32::try_from`. -/
def asU32 (n : Nat) : Option Nat := if n < 2 ^ 32 then some n else none

def errFrameTooLarge : ControlError := ("frame_too_large", "request exceeds the maximum frame size")
def errTruncatedFrame : ControlError := ("truncated_frame", "request frame is incomplete")
def errReadTimeout : ControlError := ("read_timeout", "request read timed out")

def readExactTimed (length : Nat) (stream : σ) : Except ControlError Bytes × σ :=
  match readExact length stream with
  | (.error .silent, stream) => (.error errReadTimeout, stream)
  | (.error _, stream) => (.error errTruncatedFrame, stream)
  | (.ok bytes, stream) => (.ok bytes, stream)

def readRequestFrame (stream : σ) : Except ControlError (Option Bytes) × σ :=
  match Source.read 1 stream with
  | (.error .silent, stream) => (.error errReadTimeout, stream)
  | (.error _, stream) => (.error errTruncatedFrame, stream)
  | (.ok [], stream) => (.ok none, stream)
  | (.ok (first :: more), stream) =>
    match readExactTimed 3 stream with
    | (.error error, stream) => (.error error, stream)
    | (.ok others, stream) =>
      let frameLength := BigEndian.ofBytes (first :: more ++ others)
      if frameLength > maxRequestBytes then (.error errFrameTooLarge, stream)
      else if frameLength = 0 then (.error errInvalidRequest, stream)
      else
        match readExactTimed frameLength stream with
        | (.error error, stream) => (.error error, stream)
        | (.ok body, stream) => (.ok (some body), stream)

inductive WriteError where
  | serialize
  | invalidData (message : String)
  | transport
deriving DecidableEq

/-- Flushing a Unix stream does nothing. -/
def writeValue (x : ControlCodec T V) (value : V) (sink : Sink UInt8) :
    Except WriteError Unit × Sink UInt8 :=
  match x.toVec value with
  | none => (.error .serialize, sink)
  | some bytes =>
    match asU32 bytes.length with
    | none => (.error (.invalidData "response frame is too large"), sink)
    | some length =>
      match sink.writeAll (BigEndian.toBytes 4 length) with
      | (false, sink) => (.error .transport, sink)
      | (true, sink) =>
        match sink.writeAll bytes with
        | (false, sink) => (.error .transport, sink)
        | (true, sink) => (.ok (), sink)

/-- `ClientError`, as far as an exchange can fail. -/
inductive ExchangeError where
  | authorization (message : String)
  | invalidPolicy (message : String)
  | capacityLimit (message : String)
  | protocolMismatch (message : String)
  | provisioning (message : String)
  | sessionNotFound (message : String)
  | sessionConfigNotFound (message : String)
  | sessionConfigUnavailable (message : String)
  | sessionConfigInvalid (message : String)
  | operationNotAllowed (message : String)
  | transport
  | serialization
  | protocol (message : String)
  | server (code message : String)
deriving DecidableEq

def mapRemoteError (code message : String) : ExchangeError :=
  if code = "unauthorized" ∨ code = "secret_unavailable" then .authorization message
  else if code = "invalid_request" then .invalidPolicy message
  else if code = "unsupported_version" then .protocolMismatch message
  else if code = "busy" ∨ code = "session_limit" then .capacityLimit message
  else if code = "session_not_found" then .sessionNotFound message
  else if code = "config_file_not_found" then .sessionConfigNotFound message
  else if code = "config_file_unavailable" then .sessionConfigUnavailable message
  else if code = "config_file_invalid" then .sessionConfigInvalid message
  else if code = "ephemeral_required" then .invalidPolicy message
  else if code = "operation_not_allowed" then .operationNotAllowed message
  else if code = "internal_error" ∨ code = "shutting_down" then .provisioning message
  else .server code message

/-- The first half of `exchange`. -/
def writeRequest (x : ControlCodec T V) (request : T) (sink : Sink UInt8) :
    Except ExchangeError Unit × Sink UInt8 :=
  match x.toToml request with
  | none => (.error .serialization, sink)
  | some body =>
    if body.isEmpty ∨ body.length > maxRequestBytes then
      (.error (.protocol "request exceeds the supported frame size"), sink)
    else
      match asU32 body.length with
      | none => (.error (.protocol "request exceeds the supported frame size"), sink)
      | some length =>
        match sink.writeAll (BigEndian.toBytes 4 length) with
        | (false, sink) => (.error .transport, sink)
        | (true, sink) =>
          match sink.writeAll body with
          | (false, sink) => (.error .transport, sink)
          | (true, sink) => (.ok (), sink)

/-- The bytes of the response. There is no timeout: `none` is a call that waits for ever. -/
def readResponse (stream : σ) : Option (Except ExchangeError Bytes) × σ :=
  match readExact 4 stream with
  | (.error .silent, stream) => (none, stream)
  | (.error _, stream) => (some (.error .transport), stream)
  | (.ok header, stream) =>
    let responseLength := BigEndian.ofBytes header
    if responseLength = 0 ∨ responseLength > maxResponseBytes then
      (some (.error (.protocol "response frame has an unsupported size")), stream)
    else
      match readExact responseLength stream with
      | (.error .silent, stream) => (none, stream)
      | (.error _, stream) => (some (.error .transport), stream)
      | (.ok body, stream) => (some (.ok body), stream)

/-- What `exchange` makes of the bytes of the response. -/
def openResponse (x : ControlCodec T V) (responseBody : Bytes) : Except ExchangeError V :=
  match x.fromSlice responseBody with
  | none => .error (.protocol "response is not valid JSON")
  | some envelope =>
    if envelope.version ≠ protocolVersion then
      .error (.protocolMismatch ("client supports version " ++ toString protocolVersion
        ++ ", daemon returned version " ++ toString envelope.version))
    else if envelope.ok then
      match envelope.result with
      | none => .error (.protocol "successful response has no result")
      | some result => .ok result
    else
      match envelope.error with
      | none => .error (.protocol "failed response has no error")
      | some (code, message) => .error (mapRemoteError code message)

def exchange (x : ControlCodec T V) (request : T) (sink : Sink UInt8) (stream : σ) :
    Option (Except ExchangeError V) × Sink UInt8 × σ :=
  match writeRequest x request sink with
  | (.error error, sink) => (some (.error error), sink, stream)
  | (.ok (), sink) =>
    match readResponse stream with
    | (none, stream) => (none, sink, stream)
    | (some (.error error), stream) => (some (.error error), sink, stream)
    | (some (.ok responseBody), stream) => (some (openResponse x responseBody), sink, stream)

end Baffle
