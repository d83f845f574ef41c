import Baffle.ConnectRequest
import Baffle.Lib.Relay

/-!
The task of one client connection (`handle_client` and `handle_tunnel` in
`src/proxy_runtime/rama/connect.rs`, `intercept_client` in
`src/proxy_runtime/rama/tls.rs`), step by step: the label of a step is what the
operation returns that the task waits for.
-/

namespace Baffle
open Streams Search Relays

/-- `Run` and `Build`; the texts of the operating system and of libraries are left out. -/
inductive ProxyRuntimeError where
  | run (message : Option String)
  | build
deriving DecidableEq

/-- How the task ends. -/
abbrev ClientResult := Except ProxyRuntimeError Unit

def ConnectError.run : ConnectError → ProxyRuntimeError
  | .invalidData message | .unexpectedEof message => .run (some message)
  | .read | .stalled => .run none

/-- The responses to the CONNECT request. -/
def statusLine (status : Nat) : Bytes :=
  utf8 (match status with
    | 200 => "HTTP/1.1 200 Connection Established\r\n\r\n"
    | 403 => "HTTP/1.1 403 Forbidden\r\nConnection: close\r\n\r\n"
    | 408 => "HTTP/1.1 408 Request Timeout\r\nConnection: close\r\n\r\n"
    | 502 => "HTTP/1.1 502 Bad Gateway\r\nConnection: close\r\n\r\n"
    | 504 => "HTTP/1.1 504 Gateway Timeout\r\nConnection: close\r\n\r\n"
    | _ => "HTTP/1.1 400 Bad Request\r\nConnection: close\r\n\r\n").toList

def copyBufferBytes : Nat := 8 * 1024

/-- What the task waits for: more of the headers, the rest of a response to be
written, an upstream connection, the end of the tunnel, or one of the parts of an
interception. -/
inductive ClientStage where
  | heading (bytes : Bytes)
  | rejecting (rest : Bytes) (result : ClientResult)
  | dialing (destination : Destination)
  | establishing (rest : Bytes)
  | relaying
  | promising (rest : Bytes) (authority : Text) (destination : Destination)
  | peeking (authority : Text) (destination : Destination)
  | connecting (authority : Text) (destination : Destination)
  | securing (authority : Text)
  | serving (authority : Text)
  | finished (result : ClientResult)

/-- The task, the bytes of both of its sockets (the client is on the left), the server
name of the ClientHello, every destination that it dialled, every decrypted request
with its answer, and what it added to the counters of the daemon. -/
structure ClientTask where
  stage : ClientStage
  relay : Relay UInt8
  serverName : Option Text
  dialled : List Destination
  served : List (Request × ServeResult)
  deniedRequests : Nat
  upstreamFailures : Nat
  interceptionErrors : Nat

inductive ClientEvent where
  | read (chunk : Bytes)
  | ended
  | readFailed
  | timeout
  | wrote (n : Nat)
  | writeFailed
  | connected
  | refused
  | copied (direction : Direction) (e : CopyEvent UInt8)
  | peeked (hello : Option (Option Text))
  | peekFailed
  | buildFailed
  | handshakeFailed
  | secured
  | request (request : Request)
  | served (ok : Bool)

namespace ClientTask

def goto (t : ClientTask) (stage : ClientStage) : ClientTask := { t with stage }

def reject (t : ClientTask) (status : Nat) (result : ClientResult) : ClientTask :=
  t.goto (.rejecting (statusLine status) result)

def dial (t : ClientTask) (destination : Destination) (stage : ClientStage) : ClientTask :=
  { t with stage, dialled := t.dialled ++ [destination] }

def deny (t : ClientTask) : ClientTask := { t with deniedRequests := t.deniedRequests + 1 }

def failUpstream (t : ClientTask) : ClientTask :=
  { t with upstreamFailures := t.upstreamFailures + 1 }

def failInterception (t : ClientTask) : ClientTask :=
  { t with interceptionErrors := t.interceptionErrors + 1 }

/-- The task of a connection that was just accepted. -/
def start : ClientTask where
  stage := .heading []
  relay := .start .fresh .fresh
  serverName := none
  dialled := []
  served := []
  deniedRequests := 0
  upstreamFailures := 0
  interceptionErrors := 0

/-- The next turn of the loop of `read_connect_request`. -/
def awaitHeaders (bytes : Bytes) (t : ClientTask) : ClientTask :=
  if remainingBytes bytes = 0 then t.reject 400 (.error headersTooLarge.run)
  else t.goto (.heading bytes)

/-- What follows from a CONNECT request that was read. -/
def grant (x : Crates) (policy : SessionPolicy) (parsed : ParsedConnect) (t : ClientTask) :
    ClientTask :=
  match handleClient x policy parsed with
  | .reject status => (t.reject status (.ok ())).deny
  | .tunnel destination => t.dial destination (.dialing destination)
  | .intercept authority destination =>
    t.goto (.promising (statusLine 200) authority destination)

/-- `BufferedConnectIo::new` with the bytes that follow the headers. -/
def keepAhead (readAhead : Bytes) (t : ClientTask) : ClientTask :=
  { t with relay := { t.relay with left := { t.relay.left with ahead := readAhead } } }

/-- The client sends nothing more. -/
def hangUp (t : ClientTask) : ClientTask :=
  { t with relay := { t.relay with left := { t.relay.left with ended := true } } }

def take (chunk : Bytes) (t : ClientTask) : ClientTask :=
  { t with relay := { t.relay with
      left := { t.relay.left with taken := t.relay.left.taken ++ chunk } } }

/-- The headers, with what was just read. -/
def look (x : Crates) (policy : SessionPolicy) (bytes : Bytes) (t : ClientTask) : ClientTask :=
  match lookForEnd bytes with
  | .again bytes => t.awaitHeaders bytes
  | .failed error => t.reject 400 (.error error.run)
  | .found bytes headerEnd =>
    match parseConnect (bytes.take headerEnd) with
    | .error error => t.reject 400 (.error error.run)
    | .ok parsed => (t.keepAhead (bytes.drop headerEnd)).grant x policy parsed

/-- A write of a part of a response, and where the task goes with the rest. -/
def write (n : Nat) (rest : Bytes) (next : Bytes → ClientStage) (t : ClientTask) :
    Option ClientTask :=
  (t.relay.left.accept n rest).map (fun r =>
    { t with stage := next r.1, relay := { t.relay with left := r.2 } })

/-- The result of `copy_bidirectional`, as soon as there is one. -/
def relayed (relay : Relay UInt8) : ClientStage :=
  if relay.broken then .finished (.error (.run none))
  else if relay.complete then .finished (.ok ())
  else .relaying

/-- The check of the ClientHello in `intercept_client`. -/
def inspect (x : Crates) (policy : SessionPolicy) (authority : Text) (destination : Destination)
    (t : ClientTask) : Option (Option Text) → ClientTask
  | none => (t.goto (.finished (.error (.run
      (some "interception-required CONNECT did not contain a TLS ClientHello"))))).failInterception
  | some serverName =>
    let t := { t with serverName }
    if policy.permitsTlsInterceptionAuthority x authority serverName then
      t.dial destination (.connecting authority destination)
    else (t.goto (.finished (.error (.run
      (some "TLS SNI does not match the authorized CONNECT authority"))))).deny

/-- A denial that is counted. One for a Host value that is no text is not. -/
def countedDenial (x : Crates) (p : Request × ServeResult) : Bool :=
  match headerTexts x (p.1.headers.getAll hostHeader), p.2 with
  | some _, .denied _ => true
  | _, _ => false

/-- `RamaPolicyService::serve`. -/
def answer (x : Crates) (policy : SessionPolicy) (secrets : ResolvedSecrets) (authority : Text)
    (request : Request) (t : ClientTask) : ClientTask :=
  let p := (request, serve x policy secrets authority request)
  let t := { t with served := t.served ++ [p] }
  if countedDenial x p then t.deny else t

def step (x : Crates) (policy : SessionPolicy) (secrets : ResolvedSecrets) (e : ClientEvent)
    (t : ClientTask) : Option ClientTask :=
  match t.stage, e with
  | .heading bytes, .read chunk =>
    if chunk ≠ [] ∧ chunk.length ≤ min (remainingBytes bytes) readBufferBytes then
      some ((t.take chunk).look x policy (bytes ++ chunk))
    else none
  | .heading _, .ended => some (t.hangUp.reject 400 (.error
      (ConnectError.unexpectedEof "early EOF while reading CONNECT headers").run))
  | .heading _, .readFailed => some (t.reject 400 (.error (.run none)))
  | .heading _, .timeout => some (t.reject 408 (.ok ()))
  | .rejecting rest result, .wrote n =>
    t.write n rest (fun rest => if rest = [] then .finished result else .rejecting rest result)
  | .rejecting _ result, .writeFailed => some (t.goto (.finished result))
  | .dialing _, .connected => some (t.goto (.establishing (statusLine 200)))
  | .dialing _, .refused => some (t.reject 502 (.error (.run none))).failUpstream
  | .dialing _, .timeout => some (t.reject 504 (.ok ())).failUpstream
  | .establishing rest, .wrote n =>
    t.write n rest (fun rest => if rest = [] then .relaying else .establishing rest)
  | .establishing _, .writeFailed => some (t.goto (.finished (.error (.run none))))
  | .relaying, .copied direction e =>
    (t.relay.step copyBufferBytes (direction, e)).map (fun relay =>
      { t with stage := relayed relay, relay })
  | .promising rest authority destination, .wrote n =>
    t.write n rest (fun rest =>
      if rest = [] then .peeking authority destination else .promising rest authority destination)
  | .promising _ _ _, .writeFailed => some (t.goto (.finished (.error (.run none))))
  | .peeking authority destination, .peeked hello =>
    some (t.inspect x policy authority destination hello)
  | .peeking _ _, .peekFailed => some (t.goto (.finished (.error (.run none)))).failInterception
  | .connecting authority _, .connected => some (t.goto (.securing authority))
  | .connecting _ _, .refused => some (t.goto (.finished (.error (.run none)))).failUpstream
  | .connecting _ _, .timeout => some (t.goto (.finished (.ok ()))).failUpstream
  | .securing _, .buildFailed => some (t.goto (.finished (.error .build)))
  | .securing _, .handshakeFailed => some (t.goto (.finished (.error (.run none)))).failInterception
  | .securing authority, .secured => some (t.goto (.serving authority))
  | .serving authority, .request request => some (t.answer x policy secrets authority request)
  | .serving _, .served ok => some (t.goto (.finished (if ok then .ok () else .error (.run none))))
  | _, _ => none

end ClientTask

end Baffle
