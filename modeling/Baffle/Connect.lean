import Baffle.Http

/-!
One client connection: the CONNECT request (`handle_client` in
`src/proxy_runtime/rama/connect.rs`), the TLS ClientHello (`intercept_client` in
`src/proxy_runtime/rama/tls.rs`) and then the decrypted requests, one after
the other.
-/

namespace Baffle

structure ParsedConnect where
  authority : Text
  host : Option Text
  hasBody : Bool

inductive ClientAction where
  | reject (status : Nat)
  | tunnel (destination : Destination)
  | intercept (authority : Text) (destination : Destination)
deriving DecidableEq

/-- What `handle_client` does with a CONNECT request that it could read. -/
def handleClient (x : Crates) (policy : SessionPolicy) (parsed : ParsedConnect) : ClientAction :=
  match policy.authorizeConnectAuthority x parsed.authority parsed.host.toList with
  | .error _ => .reject 403
  | .ok (mode, destination) =>
    if parsed.hasBody then .reject 400
    else if mode = .tunnel then .tunnel destination
    else .intercept parsed.authority destination

/-- An intercepted connection, after its CONNECT request was admitted. -/
structure Intercepted where
  policy : SessionPolicy
  secrets : ResolvedSecrets
  authority : Text
  destination : Destination

/-- The check of the ClientHello; `none` is a hello without a server name. -/
def Intercepted.tlsPasses (x : Crates) (c : Intercepted) (serverName : Option Text) : Bool :=
  c.policy.permitsTlsInterceptionAuthority x c.authority serverName

/-- The answers to the requests of one connection, in order. The service keeps
no state between them, and nothing is decrypted unless the ClientHello passed. -/
def Intercepted.run (x : Crates) (c : Intercepted) (serverName : Option Text)
    (requests : List Request) : List ServeResult :=
  if c.tlsPasses x serverName then requests.map (serve x c.policy c.secrets c.authority) else []

end Baffle
