import Baffle.Lib.Base64
import Baffle.Policy
import Baffle.Proofs.HostNames
import Baffle.Proofs.Composition

namespace Baffle.Proofs

variable {x : Crates} {c : SessionConfig} {seed : CredentialSeed}

/-- The configurations that the daemon hands to `SessionPolicy.compile`. -/
def Accepted (x : Crates) (c : SessionConfig) : Prop :=
  (∃ raw, SessionConfig.fromToml x raw = .ok c) ∨ ∃ store name, readSession x store name = .ok c

theorem accepted_rules (h : Accepted x c) : ValidRules x c.rules := by
  rcases h with ⟨raw, h⟩ | ⟨store, name, h⟩
  · exact from_toml_rules h
  · exact read_session_rules h

/-- A compiled session finds the rule of a host, and only its own. -/
theorem compile_get (hv : ValidRules x c.rules) (host : Text) (rule : CompiledRule) :
    (SessionPolicy.compile x c seed).rules.get host = some rule ↔
      ∃ r ∈ c.rules, r.host = host ∧ compileRule x c seed r = rule := by
  unfold SessionPolicy.compile
  rw [SortedMap.get_foldl_insert HostRule.host (compileRule x c seed) hv.hosts (by simp)]
  simp

theorem compile_get_rule (hv : ValidRules x c.rules) {rule : HostRule} (hr : rule ∈ c.rules) :
    (SessionPolicy.compile x c seed).rules.get rule.host = some (compileRule x c seed rule) :=
  (compile_get hv _ _).mpr ⟨rule, hr, rfl, rfl⟩

theorem compile_get_none (hv : ValidRules x c.rules) (host : Text) :
    (SessionPolicy.compile x c seed).rules.get host = none ↔ ∀ r ∈ c.rules, r.host ≠ host := by
  constructor
  · rintro hn r hr rfl
    rw [compile_get_rule hv hr] at hn
    cases hn
  · intro hn
    cases hg : (SessionPolicy.compile x c seed).rules.get host with
    | none => rfl
    | some rule =>
      obtain ⟨r, hr, he, -⟩ := (compile_get hv _ _).mp hg
      exact absurd he (hn r hr)

theorem validate_host_ok {hosts : List Text} {d : Destination} {u : Unit} :
    validateHostHeaderText x hosts d = .ok u ↔
      hosts.length ≤ 1 ∧ ∀ h ∈ hosts, parseAuthorityText x h (some 443) = .ok d := by
  rcases hosts with _ | ⟨h, _ | ⟨h', hosts⟩⟩
  · simp [validateHostHeaderText]
  · simp only [validateHostHeaderText, bind_ok, refuse_ok, List.head?_cons, List.length_singleton,
      List.mem_singleton, forall_eq, bne_eq_false_iff_eq]
    simp
  · simp [validateHostHeaderText]

/-- The destination of an authority that is a spelling of a host, with or without a port. -/
theorem parse_spelling (law : x.HostParseLaw) {raw host s authority : Text} {d : Destination}
    (hr : normalizeDnsName x raw = .ok host) (hs : Spells s host)
    (ha : authority = s ∨ ∃ port, authority = s ++ ':' :: port)
    (h : parseAuthorityText x authority (some 443) = .ok d) : d.host = host := by
  have hc := spelling_no_colon law hr hs
  have hn := normalize_spelling law hr hs
  simp only [parseAuthorityText, bind_ok, refuse_ok, map_error_ok, pure_ok] at h
  obtain ⟨-, -, ⟨host', port⟩, hsplit, -, -, h', hh, rfl⟩ := h
  have he : host' = s := by
    rcases ha with rfl | ⟨p, rfl⟩
    · simp only [splitAuthority, Text.split_once_none.mpr hc, pure_ok, Prod.mk.injEq] at hsplit
      exact hsplit.1.symm
    · simp only [splitAuthority, Text.split_once_append p hc] at hsplit
      cases hp : Text.parseU16 p with
      | none => simp [hp] at hsplit
      | some n =>
        simp only [hp, pure_ok, Prod.mk.injEq] at hsplit
        exact hsplit.1.symm
  rw [he, hn] at hh
  exact (Except.ok.inj hh).symm

/-- What a configuration says about a destination. -/
def Admits (c : SessionConfig) (mode : RuleMode) (d : Destination) : Prop :=
  (∃ rule ∈ c.rules, rule.host = d.host ∧ d.port ∈ rule.ports ∧ mode = rule.mode) ∨
    ((∀ rule ∈ c.rules, rule.host ≠ d.host) ∧ c.unmatched = .tunnel ∧ d.port = 443 ∧
      mode = .tunnel)

theorem authorize_ok (hv : ValidRules x c.rules) {authority : Text} {hosts : List Text}
    {mode : RuleMode} {d : Destination} :
    (SessionPolicy.compile x c seed).authorizeConnectAuthority x authority hosts = .ok (mode, d) ↔
      parseAuthorityText x authority (some 443) = .ok d ∧ hosts.length ≤ 1 ∧
      (∀ h ∈ hosts, parseAuthorityText x h (some 443) = .ok d) ∧ Admits c mode d := by
  simp only [SessionPolicy.authorizeConnectAuthority, bind_ok, validate_host_ok]
  constructor
  · rintro ⟨d', hp, -, ⟨hl, hh⟩, hd⟩
    cases hg : (SessionPolicy.compile x c seed).rules.get d'.host with
    | some rule =>
      obtain ⟨r, hr, he, rfl⟩ := (compile_get hv _ _).mp hg
      simp only [hg] at hd
      split at hd
      · rename_i hport
        simp only [pure_ok, Prod.mk.injEq] at hd
        obtain ⟨rfl, rfl⟩ := hd
        exact ⟨hp, hl, hh, Or.inl ⟨r, hr, he, List.mem_toFinset.mp hport, rfl⟩⟩
      · simp at hd
    | none =>
      simp only [hg] at hd
      split at hd
      · rename_i hu
        simp only [pure_ok, Prod.mk.injEq] at hd
        obtain ⟨rfl, rfl⟩ := hd
        exact ⟨hp, hl, hh, Or.inr ⟨(compile_get_none hv _).mp hg, hu.1, hu.2, rfl⟩⟩
      · simp at hd
  · rintro ⟨hp, hl, hh, ha⟩
    refine ⟨d, hp, (), ⟨hl, hh⟩, ?_⟩
    rcases ha with ⟨r, hr, he, hport, rfl⟩ | ⟨hnone, hu, hport, rfl⟩
    · rw [← he, compile_get_rule hv hr]
      have : d.port ∈ (compileRule x c seed r).ports := List.mem_toFinset.mpr hport
      simp only [this, ↓reduceIte]
      rfl
    · rw [(compile_get_none hv _).mpr hnone]
      have hu' : (SessionPolicy.compile x c seed).unmatched = .tunnel := hu
      simp only [hu', hport, and_self, ↓reduceIte]
      rfl

/-- CONNECT admission is decided by the configuration alone, and no spelling of
a host with a rule gets past that rule. -/
theorem connect_admission (x : Crates) (law : x.HostParseLaw) (c : SessionConfig)
    (hc : Accepted x c) (seed : CredentialSeed) :
    (∀ authority hosts mode d,
      (SessionPolicy.compile x c seed).authorizeConnectAuthority x authority hosts = .ok (mode, d) ↔
        parseAuthorityText x authority (some 443) = .ok d ∧ hosts.length ≤ 1 ∧
        (∀ h ∈ hosts, parseAuthorityText x h (some 443) = .ok d) ∧ Admits c mode d) ∧
    ∀ rule ∈ c.rules, ∀ s, Spells s rule.host →
      ∀ authority, (authority = s ∨ ∃ port, authority = s ++ ':' :: port) →
      (∀ d, parseAuthorityText x authority (some 443) = .ok d → d.host = rule.host) ∧
      ∀ hosts mode d,
        (SessionPolicy.compile x c seed).authorizeConnectAuthority x authority hosts
          = .ok (mode, d) →
        d.port ∈ rule.ports ∧ mode = rule.mode ∧
        (mode = .tunnel → rule.paths = [] ∧ rule.inject = []) := by
  have hv := accepted_rules hc
  refine ⟨fun authority hosts mode d => authorize_ok hv, ?_⟩
  intro rule hr s hs authority ha
  obtain ⟨raw, hraw⟩ := (hv.each rule hr).host
  have hhost : ∀ d, parseAuthorityText x authority (some 443) = .ok d → d.host = rule.host :=
    fun d hp => parse_spelling law hraw hs ha hp
  refine ⟨hhost, ?_⟩
  intro hosts mode d hok
  obtain ⟨hp, -, -, hadmits⟩ := (authorize_ok hv).mp hok
  have hd := hhost d hp
  rcases hadmits with ⟨r, hrm, he, hport, rfl⟩ | ⟨hnone, -⟩
  · obtain rfl : r = rule := by
      exact List.inj_on_of_nodup_map hv.hosts hrm hr (he.trans hd)
    exact ⟨hport, rfl, (hv.each r hr).tunnel_plain⟩
  · exact absurd hd.symm (hnone rule hr)

/-- The crates on the inputs of the sample session: ASCII names and values, and
the digest of the one secret under the zero seed. -/
def sampleCrates : Crates where
  hostParse s := if isLdhName s then some (.domain s) else none
  hmacSha256 _ _ := [209, 227, 161, 41, 160, 234, 68, 138, 110, 60, 244, 122, 18, 217, 6, 181,
    115, 137, 97, 167, 49, 241, 234, 215, 193, 126, 86, 249, 220, 160, 236, 56]
  base64Encode := Base64.standard.encode
  base64Decode := Base64.standard.decode
  base64UrlEncode := Base64.urlSafe.encodeUnpadded
  headerName s := if !s.isEmpty && s.all isTokenCharacter then some s.toAsciiLowercase else none
  headerValue t := if t.all (fun c => ' ' ≤ c && c ≤ '~') then
    some (t.map (fun c => UInt8.ofNat c.toNat)) else none
  headerText b := if b.all (fun u => 32 ≤ u && u ≤ 126) then
    some (b.map (fun u => Char.ofNat u.toNat)) else none
  setPath uri path := { uri with path := some (escapePercent path) }

theorem sample_host_parse : sampleCrates.HostParseLaw := by
  intro s d hs h
  simp only [sampleCrates, hs, ↓reduceIte, Option.some.injEq, UrlHost.domain.injEq] at h
  exact h.symm

def sampleRule : HostRule where
  host := "api.example.com".toList
  mode := .intercept
  ports := [443, 8443]
  paths := ["/v1/**".toList]
  inject := [{ header := "Authorization".toList, secret := "token".toList, format := .bearer,
               username := none }]

def sampleSession : SessionConfig where
  persistent := false
  socketName := none
  unmatched := .tunnel
  defaultCredentialMode := some .substitute
  credentialModes := ∅
  rules := [sampleRule]

def sampleDocument : RawSessionConfig where
  version := some 2
  persistent := false
  socketName := none
  unmatched := some "tunnel".toList
  rules := some (.named (SortedMap.insert ∅ "API.Example.com.".toList
    { mode := none
      ports := [443, 8443]
      paths := some ["/v1/**".toList]
      inject := some [{ header := "Authorization".toList, secret := "token".toList,
                        format := .bearer, username := none }] }))
  credentials := some { defaultMode := some .substitute, overrides := ∅ }
  unsupportedFields := []

def zeroSeed : CredentialSeed := ⟨Vector.replicate 32 0⟩

theorem sample_accepted : Accepted sampleCrates sampleSession :=
  Or.inl ⟨some sampleDocument, by decide +kernel⟩

/-- The sample host is intercepted under another spelling, with a `Host` value that agrees. -/
theorem connect_admission_sample :
    (SessionPolicy.compile sampleCrates sampleSession zeroSeed).authorizeConnectAuthority
        sampleCrates "API.example.COM.:8443".toList ["api.example.com:8443".toList]
      = .ok (.intercept, ⟨"api.example.com".toList, 8443⟩) := by
  have h := connect_admission sampleCrates sample_host_parse sampleSession sample_accepted zeroSeed
  refine (h.1 _ _ _ _).mpr ⟨by decide +kernel, by decide, by decide +kernel, ?_⟩
  exact Or.inl ⟨sampleRule, by decide, by decide, by decide, rfl⟩

end Baffle.Proofs
