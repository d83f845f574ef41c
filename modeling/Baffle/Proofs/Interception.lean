import Baffle.Connect
import Baffle.Proofs.Admission
import Baffle.Proofs.Escapes

namespace Baffle.Proofs

variable {x : Crates} {c : SessionConfig} {seed : CredentialSeed}

/-- A request names the destination of its connection, in every place where it
names one, and over a supported method and scheme. -/
structure Bound (x : Crates) (d : Destination) (facts : RequestFacts) : Prop where
  method : facts.method.eqIgnoreAsciiCase "CONNECT".toList = false
  scheme : ∀ scheme, facts.scheme = some scheme →
    scheme.eqIgnoreAsciiCase "https".toList = true
  single : facts.hostHeaders.length ≤ 1
  uri : ∀ a, facts.uriAuthority = some a → parseAuthorityText x a (some 443) = .ok d
  host : ∀ h ∈ facts.hostHeaders, parseAuthorityText x h (some 443) = .ok d
  present : facts.uriAuthority.isSome = true ∨ facts.hostHeaders ≠ []

/-- The path of a request as a rule allows it to be forwarded. -/
def PathAllowed (paths : List Text) (path : Text) (canonical : Option Text) : Prop :=
  (paths = [] ∧ canonical = none) ∨
    (paths ≠ [] ∧ ∃ p, canonical = some p ∧ canonicalizeRequestPath path = .ok p ∧
      ∃ pattern ∈ paths, matchesPathPattern pattern p = true)

theorem canonical_path_ok {rule : CompiledRule} {path : Text} {canonical : Option Text} :
    canonicalAuthorizedPath rule path = .ok canonical ↔ PathAllowed rule.paths path canonical := by
  unfold canonicalAuthorizedPath PathAllowed
  split
  · rename_i he
    rw [List.isEmpty_iff] at he
    rw [pure_ok, eq_comm]
    simp [he]
  · rename_i he
    rw [List.isEmpty_iff] at he
    simp only [bind_ok, map_error_ok, refuse_ok, pure_ok, Bool.not_eq_false', List.any_eq_true]
    constructor
    · rintro ⟨p, hp, -, hm, rfl⟩
      exact Or.inr ⟨he, p, rfl, hp, hm⟩
    · rintro (⟨hn, -⟩ | ⟨-, p, rfl, hp, hm⟩)
      · exact absurd hn he
      · exact ⟨p, hp, (), hm, rfl⟩

theorem canonical_path_error {rule : CompiledRule} {path : Text} {e : AuthorizationError}
    (h : canonicalAuthorizedPath rule path = .error e) : e = .denied := by
  unfold canonicalAuthorizedPath at h
  split at h
  · cases h
  · cases hp : canonicalizeRequestPath path with
    | error m =>
      simp only [hp, Except.mapError, error_bind, Except.error.injEq] at h
      exact h.symm
    | ok p =>
      simp only [hp, Except.mapError, ok_bind, refuse] at h
      split at h
      · exact (Except.error.inj h).symm
      · cases h

theorem host_destination_ok {hosts : List Text} {o : Option Destination} :
    SessionPolicy.hostDestination x hosts = .ok o ↔
      (hosts = [] ∧ o = none) ∨
        ∃ h d, hosts = [h] ∧ parseAuthorityText x h (some 443) = .ok d ∧ o = some d := by
  rcases hosts with _ | ⟨h, _ | ⟨h', hosts⟩⟩
  · rw [SessionPolicy.hostDestination, pure_ok, eq_comm]
    simp
  · simp only [SessionPolicy.hostDestination, map_ok]
    simp [eq_comm (a := o)]
  · simp [SessionPolicy.hostDestination]

/-- Everything that `authorizeInterceptedRequest` does before it looks up a rule. -/
def bindRequest (x : Crates) (facts : RequestFacts) (authority : Text) :
    Except AuthorizationError Destination := do
  refuse (facts.method.eqIgnoreAsciiCase "CONNECT".toList
      || facts.scheme.any (fun scheme => !scheme.eqIgnoreAsciiCase "https".toList))
    .invalidAuthority
  let connect ← parseAuthorityText x authority (some 443)
  let uriDestination ← transpose (fun a => parseAuthorityText x a (some 443)) facts.uriAuthority
  let hostDestination ← SessionPolicy.hostDestination x facts.hostHeaders
  refuse (uriDestination.any (· != connect) || hostDestination.any (· != connect)
      || (uriDestination.isNone && hostDestination.isNone))
    .invalidAuthority
  pure connect

theorem bound_options {facts : RequestFacts} {d : Destination} {uri host : Option Destination}
    (huri : (facts.uriAuthority = none ∧ uri = none) ∨
      ∃ a b, facts.uriAuthority = some a ∧ parseAuthorityText x a (some 443) = .ok b ∧ uri = some b)
    (hhost : (facts.hostHeaders = [] ∧ host = none) ∨
      ∃ h b, facts.hostHeaders = [h] ∧ parseAuthorityText x h (some 443) = .ok b ∧ host = some b) :
    (uri.any (· != d) = false ∧ host.any (· != d) = false ∧
        (uri.isNone && host.isNone) = false) ↔
      facts.hostHeaders.length ≤ 1 ∧
      (∀ a, facts.uriAuthority = some a → parseAuthorityText x a (some 443) = .ok d) ∧
      (∀ h ∈ facts.hostHeaders, parseAuthorityText x h (some 443) = .ok d) ∧
      (facts.uriAuthority.isSome = true ∨ facts.hostHeaders ≠ []) := by
  rcases huri with ⟨hu, rfl⟩ | ⟨a, b, hu, hb, rfl⟩
  · rcases hhost with ⟨hh, rfl⟩ | ⟨h, e, hh, he, rfl⟩
    · simp [hu, hh]
    · simp [hu, hh, he]
  · rcases hhost with ⟨hh, rfl⟩ | ⟨h, e, hh, he, rfl⟩
    · simp [hu, hh, hb]
    · simp [hu, hh, hb, he]

theorem bind_request_ok {facts : RequestFacts} {authority : Text} {d : Destination} :
    bindRequest x facts authority = .ok d ↔
      parseAuthorityText x authority (some 443) = .ok d ∧ Bound x d facts := by
  simp only [bindRequest, bind_ok, refuse_ok, transpose_ok, host_destination_ok, pure_ok,
    Bool.or_eq_false_iff]
  have hscheme : facts.scheme.any (fun s => !s.eqIgnoreAsciiCase "https".toList) = false ↔
      ∀ s, facts.scheme = some s → s.eqIgnoreAsciiCase "https".toList = true := by
    cases facts.scheme <;> simp
  constructor
  · rintro ⟨-, ⟨hm, hs⟩, connect, hp, uri, huri, host, hhost, -, ⟨⟨hu, hh⟩, hpres⟩, rfl⟩
    obtain ⟨hl, hu, hh, hpres⟩ := (bound_options huri hhost).mp ⟨hu, hh, hpres⟩
    exact ⟨hp, hm, hscheme.mp hs, hl, hu, hh, hpres⟩
  · rintro ⟨hp, hb⟩
    have huri : (facts.uriAuthority = none ∧ facts.uriAuthority.map (fun _ => d) = none) ∨
        ∃ a b, facts.uriAuthority = some a ∧ parseAuthorityText x a (some 443) = .ok b ∧
          facts.uriAuthority.map (fun _ => d) = some b := by
      cases he : facts.uriAuthority with
      | none => exact Or.inl ⟨rfl, rfl⟩
      | some a => exact Or.inr ⟨a, d, rfl, hb.uri a he, rfl⟩
    have hhost : (facts.hostHeaders = [] ∧ facts.hostHeaders.head?.map (fun _ => d) = none) ∨
        ∃ h b, facts.hostHeaders = [h] ∧ parseAuthorityText x h (some 443) = .ok b ∧
          facts.hostHeaders.head?.map (fun _ => d) = some b := by
      rcases he : facts.hostHeaders with _ | ⟨h, _ | ⟨h', hosts⟩⟩
      · exact Or.inl ⟨rfl, rfl⟩
      · exact Or.inr ⟨h, d, rfl, hb.host h (by simp [he]), rfl⟩
      · have := hb.single
        simp [he] at this
    obtain ⟨hu, hh, hpres⟩ := (bound_options huri hhost).mpr ⟨hb.single, hb.uri, hb.host, hb.present⟩
    exact ⟨(), ⟨hb.method, hscheme.mpr hb.scheme⟩, d, hp, _, huri, _, hhost, (),
      ⟨⟨hu, hh⟩, hpres⟩, rfl⟩

theorem parse_authority_error {authority : Text} {port : Option UInt16} {e : AuthorizationError}
    (h : parseAuthorityText x authority port = .error e) : e = .invalidAuthority := by
  simp only [parseAuthorityText, bind_error, refuse_error] at h
  rcases h with ⟨-, rfl⟩ | ⟨-, -, h | ⟨⟨host, port⟩, -, ⟨-, rfl⟩ | ⟨-, -, h | ⟨n, -, h⟩⟩⟩⟩
  · rfl
  · unfold splitAuthority at h
    split at h
    · split at h
      · cases h
      · exact (Except.error.inj h).symm
    · split at h
      · cases h
      · exact (Except.error.inj h).symm
  · rfl
  · cases hn : normalizeDnsName x host with
    | error m =>
      rw [hn] at h
      exact (Except.error.inj h).symm
    | ok n =>
      rw [hn] at h
      cases h
  · cases h

theorem bind_request_error {facts : RequestFacts} {authority : Text} {e : AuthorizationError}
    (h : bindRequest x facts authority = .error e) : e = .invalidAuthority := by
  simp only [bindRequest, bind_error, refuse_error, transpose_error] at h
  rcases h with ⟨-, rfl⟩ | ⟨_, -, h | ⟨_, -, ⟨a, -, h⟩ | ⟨_, -, h | ⟨_, -, ⟨-, rfl⟩ | ⟨_, -, h⟩⟩⟩⟩⟩
  · rfl
  · exact parse_authority_error h
  · exact parse_authority_error h
  · rcases hosts : facts.hostHeaders with _ | ⟨h', _ | ⟨h'', hosts'⟩⟩
    · simp [hosts, SessionPolicy.hostDestination, pure, Except.pure] at h
    · cases hp : parseAuthorityText x h' (some 443) with
      | error e' =>
        simp only [hosts, SessionPolicy.hostDestination, hp] at h
        rw [← Except.error.inj h]
        exact parse_authority_error hp
      | ok d =>
        simp only [hosts, SessionPolicy.hostDestination, hp] at h
        cases h
    · rw [hosts] at h
      exact (Except.error.inj h).symm
  · rfl
  · cases h

section Request

variable {policy : SessionPolicy} {authority : Text} {d : Destination} {rule : CompiledRule}
  {facts : RequestFacts}

/-- For a destination with an intercept rule, all that is left after the
binding checks is the path check of that rule. -/
theorem intercepted_eq (hp : parseAuthorityText x authority (some 443) = .ok d)
    (hr : policy.rules.get d.host = some rule) (hport : d.port ∈ rule.ports) :
    policy.authorizeInterceptedRequest x facts authority =
      bindRequest x facts authority >>= fun _ =>
        canonicalAuthorizedPath rule facts.path >>= fun path => pure (rule.credentials, path) := by
  simp only [SessionPolicy.authorizeInterceptedRequest, bindRequest, bind_assoc, pure_bind, hp,
    ok_bind, hr, Option.filter_some, hport, decide_true, ↓reduceIte]

theorem intercepted_ok (hp : parseAuthorityText x authority (some 443) = .ok d)
    (hr : policy.rules.get d.host = some rule) (hport : d.port ∈ rule.ports)
    {credentials : List CompiledCredential} {canonical : Option Text} :
    policy.authorizeInterceptedRequest x facts authority = .ok (credentials, canonical) ↔
      Bound x d facts ∧ PathAllowed rule.paths facts.path canonical ∧
        credentials = rule.credentials := by
  simp only [intercepted_eq hp hr hport, bind_ok, bind_request_ok, canonical_path_ok, pure_ok,
    Prod.mk.injEq]
  constructor
  · rintro ⟨d', ⟨hp', hb⟩, path, hpath, rfl, rfl⟩
    obtain rfl : d = d' := Except.ok.inj (hp.symm.trans hp')
    exact ⟨hb, hpath, rfl⟩
  · rintro ⟨hb, hpath, rfl⟩
    exact ⟨d, ⟨hp, hb⟩, canonical, hpath, rfl, rfl⟩

theorem intercepted_denied (hp : parseAuthorityText x authority (some 443) = .ok d)
    (hr : policy.rules.get d.host = some rule) (hport : d.port ∈ rule.ports) :
    policy.authorizeInterceptedRequest x facts authority = .error .denied ↔
      Bound x d facts ∧ ∀ canonical, ¬PathAllowed rule.paths facts.path canonical := by
  simp only [intercepted_eq hp hr hport, bind_error]
  constructor
  · rintro (h | ⟨d', hb, h | ⟨p, -, h⟩⟩)
    · cases bind_request_error h
    · obtain ⟨hp', hb⟩ := bind_request_ok.mp hb
      obtain rfl : d = d' := Except.ok.inj (hp.symm.trans hp')
      refine ⟨hb, ?_⟩
      intro canonical ha
      rw [canonical_path_ok.mpr ha] at h
      cases h
    · cases h
  · rintro ⟨hb, hn⟩
    refine Or.inr ⟨d, bind_request_ok.mpr ⟨hp, hb⟩, Or.inl ?_⟩
    cases hc : canonicalAuthorizedPath rule facts.path with
    | ok canonical => exact absurd (canonical_path_ok.mp hc) (hn canonical)
    | error e => rw [canonical_path_error hc]

end Request

/-- What is known about a connection that `handleClient` hands to interception. -/
theorem intercept_admitted (hc : Accepted x c) {parsed : ParsedConnect} {authority : Text}
    {d : Destination}
    (h : handleClient x (SessionPolicy.compile x c seed) parsed = .intercept authority d) :
    parseAuthorityText x authority (some 443) = .ok d ∧
      ∃ rule ∈ c.rules, rule.host = d.host ∧ d.port ∈ rule.ports ∧ rule.mode = .intercept := by
  unfold handleClient at h
  split at h
  · cases h
  · rename_i mode d' ha
    split at h
    · cases h
    · split at h
      · cases h
      · rename_i hm
        simp only [ClientAction.intercept.injEq] at h
        obtain ⟨rfl, rfl⟩ := h
        obtain ⟨hp, -, -, hadmits⟩ := (authorize_ok (accepted_rules hc)).mp ha
        refine ⟨hp, ?_⟩
        rcases hadmits with ⟨rule, hr, he, hport, rfl⟩ | ⟨-, -, -, rfl⟩
        · refine ⟨rule, hr, he, hport, ?_⟩
          cases hmode : rule.mode with
          | tunnel => exact absurd hmode hm
          | intercept => rfl
        · exact absurd rfl hm

theorem tls_passes_iff (hv : ValidRules x c.rules) {secrets : ResolvedSecrets} {authority : Text}
    {d : Destination} {rule : HostRule} (hp : parseAuthorityText x authority (some 443) = .ok d)
    (hr : rule ∈ c.rules) (he : rule.host = d.host) (hport : d.port ∈ rule.ports)
    (hm : rule.mode = .intercept) (serverName : Option Text) :
    Intercepted.tlsPasses x ⟨SessionPolicy.compile x c seed, secrets, authority, d⟩ serverName = true ↔
      ∃ name, serverName = some name ∧ normalizeDnsName x name = .ok d.host := by
  have ha : (SessionPolicy.compile x c seed).authorizeConnectAuthority x authority []
      = .ok (.intercept, d) :=
    (authorize_ok hv).mpr ⟨hp, by simp, by simp, Or.inl ⟨rule, hr, he, hport, hm.symm⟩⟩
  simp only [Intercepted.tlsPasses, SessionPolicy.permitsTlsInterceptionAuthority, ha]
  cases serverName with
  | none => simp
  | some name =>
    cases hn : normalizeDnsName x name with
    | error m => simp [Except.toOption, hn]
    | ok host => simp [Except.toOption, hn]

theorem serve_forwarded {policy : SessionPolicy} {secrets : ResolvedSecrets} {authority : Text}
    {request out : Request} (h : serve x policy secrets authority request = .forwarded out) :
    ∃ hosts credentials canonical,
      headerTexts x (request.headers.getAll hostHeader) = some hosts ∧
      policy.authorizeInterceptedRequest x (requestFacts request hosts) authority
        = .ok (credentials, canonical) ∧
      out.uri = (replacePath x request canonical).uri := by
  unfold serve at h
  split at h
  · cases h
  · rename_i hosts hh
    split at h
    · rename_i e _
      cases e <;> cases h
    · rename_i credentials canonical ha
      dsimp only at h
      split at h
      · cases h
      · refine ⟨hosts, credentials, canonical, hh, ha, ?_⟩
        unfold applyHeaderCredentials at h
        cases hv : credentialValues x (replacePath x request canonical) secrets credentials with
        | error e => simp [hv, deniedResponse] at h
        | ok values =>
          simp only [hv, ServeResult.forwarded.injEq] at h
          rw [← h]

/-- The URI of a forwarded request: where the rule has paths, the path of the request was
canonicalized, matched, and set. -/
inductive UriForwarded (x : Crates) (paths : List Text) (request out : Request) : Prop where
  | kept (hn : paths = []) (hu : out.uri = request.uri)
  | canonical (hn : paths ≠ []) (p : Text)
      (hc : canonicalizeRequestPath (request.uri.path.getD ['/']) = .ok p)
      (hm : ∃ pattern ∈ paths, matchesPathPattern pattern p = true)
      (hu : out.uri = x.setPath request.uri p)

/-- A forwarded request answers a bound request whose path its rule allows. -/
structure Forwards (x : Crates) (d : Destination) (rule : HostRule) (request out : Request) :
    Prop where
  bound : ∃ hosts, headerTexts x (request.headers.getAll hostHeader) = some hosts ∧
    Bound x d (requestFacts request hosts)
  uri : UriForwarded x rule.paths request out

theorem run_forwards (conn : Intercepted) {d : Destination} {rule : HostRule}
    (hp : parseAuthorityText x conn.authority (some 443) = .ok d)
    (hr : conn.policy.rules.get d.host = some (compileRule x c seed rule))
    (hport : d.port ∈ rule.ports) {serverName : Option Text} {requests : List Request} {i : Nat}
    {out : Request} (h : (conn.run x serverName requests)[i]? = some (.forwarded out)) :
    conn.tlsPasses x serverName = true ∧
      ∃ request, requests[i]? = some request ∧ Forwards x d rule request out := by
  unfold Intercepted.run at h
  split at h
  · rename_i htls
    rw [List.getElem?_map, Option.map_eq_some_iff] at h
    obtain ⟨request, hi, hs⟩ := h
    obtain ⟨hosts, credentials, canonical, hh, ha, hout⟩ := serve_forwarded hs
    obtain ⟨hb, hpath, -⟩ := (intercepted_ok hp hr (List.mem_toFinset.mpr hport)).mp ha
    refine ⟨htls, request, hi, ⟨hosts, hh, hb⟩, ?_⟩
    rcases hpath with ⟨hn, rfl⟩ | ⟨hn, p, rfl, hc, hm⟩
    · exact .kept hn hout
    · exact .canonical hn p hc hm hout
  · simp at h

/-- Where the rule has paths, the path that is forwarded is the canonical one. -/
def PathForwarded (paths : List Text) (request out : Request) : Prop :=
  paths ≠ [] → ∃ p, canonicalizeRequestPath (request.uri.path.getD ['/']) = .ok p ∧
    out.uri.path = some p

/-- Setting the canonical path keeps it exactly if it has no escape left. -/
theorem path_forwarded_iff (hset : x.SetPathLaw) {paths : List Text} {request out : Request}
    (h : UriForwarded x paths request out) : PathForwarded paths request out ↔
      paths = [] ∨ UnreservedEscapes (request.uri.path.getD ['/']) := by
  cases h with
  | kept hn hu => exact iff_of_true (fun hne => absurd hn hne) (Or.inl hn)
  | canonical hn p hc hm hu =>
    have hpath : out.uri.path = some (escapePercent p) := by
      rw [hu, hset request.uri p (fun ch hch => request_uri hc hch)]
    rw [← request_percent hc, ← escape_percent, PathForwarded, hpath, hc]
    constructor
    · intro hf
      obtain ⟨p', hp', he⟩ := hf hn
      cases hp'
      exact Or.inr (Option.some.inj he)
    · rintro (he | he) -
      · exact absurd he hn
      · exact ⟨p, rfl, congrArg some he⟩

/-- Interception admits only fully bound requests, on every request of a connection, and
the authority of an admitted CONNECT reads the same everywhere. The path that is forwarded
is the one that was authorized exactly if no escape is left in it. -/
theorem interception_binds (x : Crates) (hset : x.SetPathLaw) (c : SessionConfig)
    (hc : Accepted x c) (seed : CredentialSeed) (secrets : ResolvedSecrets)
    (parsed : ParsedConnect) (a : Text) (d : Destination)
    (h : handleClient x (SessionPolicy.compile x c seed) parsed = .intercept a d) :
    ∃ rule ∈ c.rules, rule.host = d.host ∧ d.port ∈ rule.ports ∧ rule.mode = .intercept ∧
      (SessionPolicy.compile x c seed).authorizeConnectAuthority x a [] = .ok (.intercept, d) ∧
      (∀ serverName,
        Intercepted.tlsPasses x ⟨SessionPolicy.compile x c seed, secrets, a, d⟩ serverName = true ↔
          ∃ name, serverName = some name ∧ normalizeDnsName x name = .ok d.host) ∧
      (∀ serverName requests (i : Nat) out,
        (Intercepted.run x ⟨SessionPolicy.compile x c seed, secrets, a, d⟩ serverName
          requests)[i]? = some (ServeResult.forwarded out) →
        (∃ name, serverName = some name ∧ normalizeDnsName x name = .ok d.host) ∧
          ∃ request, requests[i]? = some request ∧ Forwards x d rule request out ∧
            (PathForwarded rule.paths request out ↔
              rule.paths = [] ∨ UnreservedEscapes (request.uri.path.getD ['/']))) ∧
      ∀ facts,
        (∀ credentials canonical,
          (SessionPolicy.compile x c seed).authorizeInterceptedRequest x facts a
              = .ok (credentials, canonical) ↔
            Bound x d facts ∧ PathAllowed rule.paths facts.path canonical ∧
              credentials = (compileRule x c seed rule).credentials) ∧
        ((SessionPolicy.compile x c seed).authorizeInterceptedRequest x facts a = .error .denied ↔
          Bound x d facts ∧ ∀ canonical, ¬PathAllowed rule.paths facts.path canonical) := by
  have hv := accepted_rules hc
  obtain ⟨hp, rule, hr, he, hport, hm⟩ := intercept_admitted hc h
  have hget : (SessionPolicy.compile x c seed).rules.get rule.host
      = some (compileRule x c seed rule) := compile_get_rule hv hr
  rw [he] at hget
  have hport' : d.port ∈ (compileRule x c seed rule).ports := List.mem_toFinset.mpr hport
  have htls : ∀ serverName, Intercepted.tlsPasses x
      ⟨SessionPolicy.compile x c seed, secrets, a, d⟩ serverName = true ↔
        ∃ name, serverName = some name ∧ normalizeDnsName x name = .ok d.host :=
    tls_passes_iff hv hp hr he hport hm
  refine ⟨rule, hr, he, hport, hm, ?_, htls, ?_, ?_⟩
  · exact (authorize_ok hv).mpr ⟨hp, by simp, by simp, Or.inl ⟨rule, hr, he, hport, hm.symm⟩⟩
  · intro serverName requests i out hrun
    obtain ⟨hpass, request, hi, hforwards⟩ := run_forwards
      ⟨SessionPolicy.compile x c seed, secrets, a, d⟩ hp hget hport hrun
    exact ⟨(htls serverName).mp hpass, request, hi, hforwards,
      path_forwarded_iff hset hforwards.uri⟩
  · intro facts
    exact ⟨fun _ _ => intercepted_ok hp hget hport', intercepted_denied hp hget hport'⟩

/-- The intercepted connection of a client to the host of the sample session. -/
def sampleIntercepted : Intercepted where
  policy := SessionPolicy.compile sampleCrates sampleSession zeroSeed
  secrets := SortedMap.insert ∅ "token".toList "s3cret".toList
  authority := "api.example.com".toList
  destination := ⟨"api.example.com".toList, 443⟩

def sampleGet (path : String) : Request where
  method := "GET".toList
  uri := ⟨none, none, some path.toList, none⟩
  headers := ⟨[(hostHeader, utf8 "api.example.com".toList)]⟩

/-- The request that is forwarded for a path, if one is. -/
def sampleForwarded (path : String) : Option Request :=
  match Intercepted.run sampleCrates sampleIntercepted (some "API.example.com".toList)
    [sampleGet path] with
  | [.forwarded out] => some out
  | _ => none

theorem sample_set_path : sampleCrates.SetPathLaw := fun _ _ _ => rfl

/-- The escape of an asterisk is authorized as it is and forwarded as another path. -/
theorem forwarded_escaped_twice :
    handleClient sampleCrates (SessionPolicy.compile sampleCrates sampleSession zeroSeed)
        ⟨"api.example.com".toList, none, false⟩ =
      .intercept "api.example.com".toList ⟨"api.example.com".toList, 443⟩ ∧
    canonicalizeRequestPath "/v1/%7ex%2a".toList = .ok "/v1/~x%2A".toList ∧
    ∃ out, sampleForwarded "/v1/%7ex%2a" = some out ∧
      out.uri.path = some "/v1/~x%252A".toList ∧
      ¬PathForwarded sampleRule.paths (sampleGet "/v1/%7ex%2a") out := by
  have hcanonical : canonicalizeRequestPath "/v1/%7ex%2a".toList = .ok "/v1/~x%2A".toList := by
    decide +kernel
  refine ⟨by decide +kernel, hcanonical, ?_⟩
  have hsome : (sampleForwarded "/v1/%7ex%2a").map (fun out => out.uri.path) =
      some (some "/v1/~x%252A".toList) := by decide +kernel
  obtain ⟨out, hout, hpath⟩ := Option.map_eq_some_iff.mp hsome
  refine ⟨out, hout, hpath, fun hf => ?_⟩
  obtain ⟨p, hp, he⟩ := hf (by decide)
  have hp' : canonicalizeRequestPath "/v1/%7ex%2a".toList = .ok p := hp
  rw [hcanonical] at hp'
  cases hp'
  rw [hpath] at he
  exact absurd he (by decide)

theorem sample_forwarded {path : String} {out : Request} (h : sampleForwarded path = some out) :
    (Intercepted.run sampleCrates sampleIntercepted (some "API.example.com".toList)
      [sampleGet path])[0]? = some (.forwarded out) := by
  unfold sampleForwarded at h
  split at h
  · rename_i heq
    rw [heq, ← Option.some.inj h]
    rfl
  · cases h

/-- Both requests of the sample connection are forwarded; the path of the first is the one
that was authorized, that of the second is not. -/
theorem interception_binds_sample :
    (∃ out, sampleForwarded "/v1/%7ex" = some out ∧ out.uri.path = some "/v1/~x".toList ∧
      Forwards sampleCrates ⟨"api.example.com".toList, 443⟩ sampleRule (sampleGet "/v1/%7ex") out ∧
      PathForwarded sampleRule.paths (sampleGet "/v1/%7ex") out) ∧
    ∃ out, sampleForwarded "/v1/%7ex%2a" = some out ∧
      Forwards sampleCrates ⟨"api.example.com".toList, 443⟩ sampleRule (sampleGet "/v1/%7ex%2a") out ∧
      ¬PathForwarded sampleRule.paths (sampleGet "/v1/%7ex%2a") out := by
  obtain ⟨rule, hr, -, -, -, -, -, hrun, -⟩ := interception_binds sampleCrates sample_set_path
    sampleSession sample_accepted zeroSeed (SortedMap.insert ∅ "token".toList "s3cret".toList)
    ⟨"api.example.com".toList, none, false⟩ "api.example.com".toList
    ⟨"api.example.com".toList, 443⟩ (by decide +kernel)
  obtain rfl : rule = sampleRule := List.mem_singleton.mp hr
  have hboth : ∀ {path : String} {out : Request}, sampleForwarded path = some out →
      Forwards sampleCrates ⟨"api.example.com".toList, 443⟩ sampleRule (sampleGet path) out ∧
        (PathForwarded sampleRule.paths (sampleGet path) out ↔ UnreservedEscapes path.toList) := by
    intro path out hout
    obtain ⟨-, request, hrequest, hforwards, hexact⟩ := hrun _ _ 0 out (sample_forwarded hout)
    cases hrequest
    exact ⟨hforwards, hexact.trans (or_iff_right (by decide))⟩
  constructor
  · have hsome : (sampleForwarded "/v1/%7ex").map (fun out => out.uri.path) =
        some (some "/v1/~x".toList) := by decide +kernel
    obtain ⟨out, hout, hpath⟩ := Option.map_eq_some_iff.mp hsome
    obtain ⟨hforwards, hexact⟩ := hboth hout
    have hc : canonicalizeRequestPath "/v1/%7ex".toList = .ok "/v1/~x".toList := by decide +kernel
    exact ⟨out, hout, hpath, hforwards, hexact.mpr ((request_percent hc).mp (by decide))⟩
  · have hsome : (sampleForwarded "/v1/%7ex%2a").isSome = true := by decide +kernel
    obtain ⟨out, hout⟩ := Option.isSome_iff_exists.mp hsome
    obtain ⟨hforwards, hexact⟩ := hboth hout
    have hc : canonicalizeRequestPath "/v1/%7ex%2a".toList = .ok "/v1/~x%2A".toList := by
      decide +kernel
    refine ⟨out, hout, hforwards, fun hf => ?_⟩
    exact absurd ((request_percent hc).mpr (hexact.mp hf)) (by decide)

end Baffle.Proofs
