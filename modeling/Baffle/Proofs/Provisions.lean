import Baffle.Proofs.Constants
import Baffle.Proofs.Shutdown
import Baffle.Proofs.Unchanged
import Baffle.Proofs.WellFormed

namespace Baffle

/-- UTF-8 text without ASCII control characters. -/
def Text.printable (t : Text) : Bool := !(utf8 t).any isAsciiControl

/-- `HeaderName::try_from` accepts every token. -/
def Crates.HeaderTokenLaw (x : Crates) : Prop :=
  ∀ t : Text, t ≠ [] → t.all isTokenCharacter = true → ∃ name, x.headerName t = some name

/-- `HeaderValue::try_from` accepts every text without control characters. -/
def Crates.HeaderValueLaw (x : Crates) : Prop :=
  ∀ t : Text, t.printable = true → ∃ value, x.headerValue t = some value

/-- The alphabet of the standard engine is printable. -/
def Crates.Base64TextLaw (x : Crates) : Prop := ∀ b, (x.base64Encode b).printable = true

namespace Proofs

variable {x : Crates} {c : SessionConfig} {store : SecretStore} {secrets : ResolvedSecrets}

theorem printable_append {s t : Text} (hs : s.printable = true) (ht : t.printable = true) :
    Text.printable (s ++ t) = true := by
  simp only [Text.printable, Bool.not_eq_true'] at hs ht ⊢
  rw [utf8, List.flatMap_append, List.any_append]
  exact Bool.or_eq_false_iff.mpr ⟨hs, ht⟩

theorem printable_all {t : Text} (h : ∀ ch ∈ t, Text.printable [ch] = true) :
    t.printable = true := by
  induction t with
  | nil => rfl
  | cons ch t ih =>
    rw [List.forall_mem_cons] at h
    exact printable_append h.1 (ih h.2)

theorem alpha_code {ch : Char} (h : ch.isAlpha = true) : 65 ≤ ch.toNat ∧ ch.toNat ≤ 122 := by
  simp only [Char.isAlpha, Char.isUpper, Char.isLower, Bool.or_eq_true, Bool.and_eq_true,
    decide_eq_true_eq, ge_iff_le, UInt32.le_iff_toNat_le] at h
  have hcode : ch.toNat = ch.val.toNat := rfl
  have hupper : ('A'.val.toNat = 65) ∧ ('Z'.val.toNat = 90) := by decide
  have hlower : ('a'.val.toNat = 97) ∧ ('z'.val.toNat = 122) := by decide
  omega

theorem printable_code {ch : Char} (hlow : 32 ≤ ch.toNat) (hhigh : ch.toNat < 127) :
    Text.printable [ch] = true := by
  have hcode : ch.toNat = ch.val.toNat := rfl
  have hutf : utf8 [ch] = [UInt8.ofNat ch.toNat] := by
    rw [utf8, List.flatMap_cons, List.flatMap_nil, List.append_nil, String.utf8EncodeChar]
    exact if_pos (by omega)
  have hbyte : (UInt8.ofNat ch.toNat).toNat = ch.toNat := by
    rw [UInt8.toNat_ofNat']
    omega
  have h32 : (32 : UInt8).toNat = 32 := rfl
  have h127 : (127 : UInt8).toNat = 127 := rfl
  simp only [Text.printable, hutf, List.any_cons, List.any_nil, Bool.or_false, isAsciiControl,
    Bool.not_eq_true', Bool.or_eq_false_iff, decide_eq_false_iff_not, beq_eq_false_iff_ne]
  constructor
  · rw [UInt8.lt_iff_toNat_lt]
    omega
  · intro he
    have := congrArg UInt8.toNat he
    omega

theorem printable_letters {t : Text} (h : ∀ ch ∈ t, ch.isAlpha = true) : t.printable = true := by
  refine printable_all fun ch hch => ?_
  obtain ⟨hlow, hhigh⟩ := alpha_code (h ch hch)
  exact printable_code (by omega) (by omega)

/-- A scheme that is spelled like a word of letters is made of letters. -/
theorem printable_scheme {scheme word : Text} (h : scheme.eqIgnoreAsciiCase word = true)
    (hw : ∀ ch ∈ word, ch.isAlpha = true) : scheme.printable = true := by
  refine printable_letters fun ch hc => ?_
  have hlower : scheme.toAsciiLowercase = word.toAsciiLowercase := beq_iff_eq.mp h
  have hmem : ch.toLower ∈ word.toAsciiLowercase := by
    rw [← hlower]
    exact List.mem_map_of_mem hc
  obtain ⟨ch', hc', he⟩ := List.mem_map.mp hmem
  rw [← Char.isAlpha_toLower_eq_isAlpha, ← he, Char.isAlpha_toLower_eq_isAlpha]
  exact hw ch' hc'

theorem read_secret_ok {name value : Text} (h : readSecret store name = .ok value) :
    value ≠ [] ∧ value.printable = true := by
  have htext : ∀ bytes, secretText bytes = .ok value → value ≠ [] ∧ value.printable = true := by
    intro bytes ht
    unfold secretText at ht
    split at ht
    · cases ht
    · split at ht
      · cases ht
      · rename_i hgood
        rw [pure_ok] at ht
        subst ht
        rw [Bool.not_eq_true, Bool.or_eq_false_iff, List.isEmpty_eq_false_iff] at hgood
        exact ⟨hgood.1, by rw [Text.printable, hgood.2]; rfl⟩
  simp only [readSecret, bind_ok, refuse_ok] at h
  obtain ⟨linked, -, -, -, opened, -, -, -, -, -, h⟩ := h
  split at h
  · cases h
  · simp only [bind_ok, refuse_ok] at h
    obtain ⟨-, -, ht⟩ := h
    exact htext _ ht

/-- What a resolution returns for the names that it was asked for. -/
structure Values (names : List Text) (secrets : ResolvedSecrets) : Prop where
  present : ∀ name ∈ names, ∃ value, secrets.get name = some value
  only : ∀ name value, secrets.get name = some value → name ∈ names
  good : ∀ name value, secrets.get name = some value → value ≠ [] ∧ value.printable = true

theorem values_empty : Values [] ∅ where
  present _ hm := absurd hm List.not_mem_nil
  only name value h := by
    rw [SortedMap.get_empty] at h
    cases h
  good name value h := by
    rw [SortedMap.get_empty] at h
    cases h

theorem read_secrets_ok {names : List Text} (h : readSecrets store names = .ok secrets) :
    Values names secrets := by
  induction names generalizing secrets with
  | nil =>
    rw [readSecrets, pure_ok] at h
    subst h
    exact values_empty
  | cons first rest ih =>
    simp only [readSecrets, bind_ok, pure_ok] at h
    obtain ⟨value, hv, resolved, hr, rfl⟩ := h
    have hrest := ih hr
    have hcases : ∀ name v, (resolved.insert first value).get name = some v →
        name = first ∧ v = value ∨ resolved.get name = some v := by
      intro name v hget
      rw [SortedMap.get_insert] at hget
      split at hget
      · rename_i hname
        exact Or.inl ⟨hname, (Option.some.inj hget).symm⟩
      · exact Or.inr hget
    refine ⟨fun name hm => ?_, fun name v hget => ?_, fun name v hget => ?_⟩
    · rw [SortedMap.get_insert]
      split
      · exact ⟨value, rfl⟩
      · rename_i hne
        exact hrest.present name ((List.mem_cons.mp hm).resolve_left hne)
    · rcases hcases name v hget with ⟨rfl, -⟩ | hold
      · exact List.mem_cons_self
      · exact List.mem_cons_of_mem _ (hrest.only name v hold)
    · rcases hcases name v hget with ⟨-, rfl⟩ | hold
      · exact read_secret_ok hv
      · exact hrest.good name v hold

theorem resolve_ok (h : store.resolve c = .ok secrets) :
    Values (requestedSecrets c) secrets ∧ ∀ name ∈ requestedSecrets c, name ∈ store.allowed := by
  simp only [SecretStore.resolve, bind_ok, refuse_ok, exists_const] at h
  obtain ⟨hallowed, h⟩ := h
  have hentitled : ∀ name ∈ requestedSecrets c, name ∈ store.allowed := by
    intro name hm
    have hname := List.any_eq_false.mp hallowed name hm
    simpa using hname
  split at h
  · rename_i hempty
    rw [pure_ok] at h
    subst h
    rw [List.isEmpty_iff.mp hempty]
    exact ⟨values_empty, fun _ hm => absurd hm List.not_mem_nil⟩
  · simp only [bind_ok] at h
    obtain ⟨-, -, hr⟩ := h
    exact ⟨read_secrets_ok hr, hentitled⟩

theorem mem_requested {name : Text} : name ∈ requestedSecrets c ↔
    ∃ rule ∈ c.rules, ∃ injection ∈ rule.inject, injection.secret = name ∧
      c.effectiveCredentialMode name ≠ .disabled := by
  simp only [requestedSecrets, List.mem_dedup, List.mem_filter, List.mem_map, List.mem_flatMap,
    bne_iff_ne]
  constructor
  · rintro ⟨⟨injection, ⟨rule, hr, hi⟩, rfl⟩, hmode⟩
    exact ⟨rule, hr, injection, hi, rfl, hmode⟩
  · rintro ⟨rule, hr, injection, hi, rfl, hmode⟩
    exact ⟨⟨injection, ⟨rule, hr, hi⟩, rfl⟩, hmode⟩

theorem bearer_letters : ∀ ch ∈ "Bearer".toList, ch.isAlpha = true :=
  List.all_eq_true.mp (by decide)

theorem basic_letters : ∀ ch ∈ "Basic".toList, ch.isAlpha = true :=
  List.all_eq_true.mp (by decide)

theorem space_printable : Text.printable [' '] = true := by decide

theorem printable_scheme_value {scheme value : Text} (hs : scheme.printable = true)
    (hv : value.printable = true) : Text.printable (scheme ++ ' ' :: value) = true :=
  printable_append hs (printable_append (s := [' ']) space_printable hv)

theorem format_printable (codec : x.Base64TextLaw) {injection : HeaderInjection} {secret : Text}
    (hi : ValidInjection injection) (hs : secret.printable = true) :
    ∃ text, formatInjectedSecret x injection secret = .ok text ∧ text.printable = true := by
  have hword : ∀ {word value : Text}, (∀ ch ∈ word, ch.isAlpha = true) → value.printable = true →
      Text.printable (word ++ ' ' :: value) = true :=
    fun hw hv => printable_scheme_value (printable_letters hw) hv
  unfold formatInjectedSecret
  cases hf : injection.format with
  | raw => exact ⟨secret, rfl, hs⟩
  | bearer => exact ⟨_, rfl, hword bearer_letters hs⟩
  | basicPassword =>
    rcases hi.username with ⟨-, name, hn, -⟩ | ⟨hne, -⟩
    · rw [hn]
      exact ⟨_, rfl, hword basic_letters (codec _)⟩
    · exact absurd hf hne

theorem substitute_printable (codec : x.Base64TextLaw) {request : Request}
    {injection : HeaderInjection} {fake real text : Text} (hs : real.printable = true)
    (h : substituteHeaderSecret x request injection fake real = some text) :
    text.printable = true := by
  simp only [substituteHeaderSecret, Option.bind_eq_bind, Option.bind_eq_some_iff] at h
  obtain ⟨name, -, value, -, h⟩ := h
  cases hf : injection.format with
  | raw =>
    simp only [hf] at h
    split at h
    · rw [← Option.some.inj h]
      exact hs
    · cases h
  | bearer =>
    simp only [hf, Option.bind_eq_some_iff] at h
    obtain ⟨⟨scheme, secret⟩, -, h⟩ := h
    dsimp only at h
    split at h
    · rename_i hc
      rw [← Option.some.inj h]
      exact printable_scheme_value (printable_scheme hc.1 bearer_letters) hs
    · cases h
  | basicPassword =>
    simp only [hf, Option.bind_eq_some_iff] at h
    obtain ⟨⟨scheme, encoded⟩, -, h⟩ := h
    dsimp only at h
    split at h
    · cases h
    · rename_i hscheme
      rw [Bool.not_eq_true, Bool.not_eq_false'] at hscheme
      simp only [Option.bind_eq_some_iff] at h
      obtain ⟨username, -, decoded, -, ⟨user, password⟩, -, h⟩ := h
      dsimp only at h
      split at h
      · cases h
      · rw [← Option.some.inj h]
        exact printable_scheme_value (printable_scheme hscheme basic_letters) (codec _)

theorem credential_value_total (tokens : x.HeaderTokenLaw) (values : x.HeaderValueLaw)
    (codec : x.Base64TextLaw) {credential : CompiledCredential}
    (hi : ValidInjection credential.injection)
    (hs : credential.mode ≠ .disabled →
      ∃ value, secrets.get credential.injection.secret = some value ∧ value.printable = true)
    (request : Request) : ∃ o, credentialValue x request secrets credential = .ok o := by
  unfold credentialValue
  split
  · exact ⟨none, rfl⟩
  · rename_i hmode
    obtain ⟨-, hne, htoken, -⟩ := validate_header_ok.mp hi.header
    obtain ⟨name, hname⟩ := tokens _ hne htoken
    obtain ⟨secret, hget, hgood⟩ := hs hmode
    have htext : ∃ text, credentialText x request credential secret = .ok text ∧
        ∀ t, text = some t → t.printable = true := by
      unfold credentialText
      cases hm : credential.mode with
      | inject =>
        obtain ⟨text, hf, hp⟩ := format_printable codec hi hgood
        refine ⟨some text, by rw [hf]; rfl, fun t ht => ?_⟩
        rw [← Option.some.inj ht]
        exact hp
      | substitute =>
        refine ⟨_, rfl, fun t ht => ?_⟩
        obtain ⟨fake, -, hsub⟩ := Option.bind_eq_some_iff.mp ht
        exact substitute_printable codec hgood hsub
      | disabled => exact absurd hm hmode
    obtain ⟨text, ht, hp⟩ := htext
    simp only [bind_ok, or_fail_ok, pure_ok]
    cases text with
    | none => exact ⟨_, name, hname, secret, hget, none, ht, none, rfl, rfl⟩
    | some text =>
      obtain ⟨value, hv⟩ := values text (hp text rfl)
      refine ⟨_, name, hname, secret, hget, some text, ht, some value, ?_, rfl⟩
      exact transpose_ok.mpr (Or.inr ⟨text, value, rfl, or_fail_ok.mpr hv, rfl⟩)

theorem authorized_rule {policy : SessionPolicy} {facts : RequestFacts} {authority : Text}
    {credentials : List CompiledCredential} {path : Option Text}
    (h : policy.authorizeInterceptedRequest x facts authority = .ok (credentials, path)) :
    ∃ host rule, policy.rules.get host = some rule ∧ credentials = rule.credentials := by
  simp only [SessionPolicy.authorizeInterceptedRequest, bind_ok] at h
  obtain ⟨-, -, connect, -, -, -, -, -, -, -, h⟩ := h
  split at h
  · cases h
  · rename_i rule hrule
    simp only [bind_ok, pure_ok, Prod.mk.injEq] at h
    obtain ⟨-, -, rfl, -⟩ := h
    exact ⟨connect.host, rule, (Option.filter_eq_some_iff.mp hrule).1, rfl⟩

section Generations

variable {P : Type} {m : SessionManager P} {config : SessionConfig} {seed : CredentialSeed}
  {server : ControlServer P} {s s' : ServerState P}

/-- A policy and the secrets that it was installed with. -/
structure Provided (m : SessionManager P) (pair : PolicyPair) : Prop where
  compiled : ∃ config seed, Checked m.crates config ∧
    pair.policy = SessionPolicy.compile m.crates config seed
  complete : ∀ host rule credential, pair.policy.rules.get host = some rule →
    credential ∈ rule.credentials → credential.mode ≠ .disabled →
      ∃ value, pair.secrets.get credential.injection.secret = some value
  referenced : ∀ name value, pair.secrets.get name = some value →
    ∃ host rule credential, pair.policy.rules.get host = some rule ∧
      credential ∈ rule.credentials ∧ credential.mode ≠ .disabled ∧
      credential.injection.secret = name
  entitled : ∀ name value, pair.secrets.get name = some value → name ∈ m.allowedSecrets
  values : ∀ name value, pair.secrets.get name = some value →
    value ≠ [] ∧ value.printable = true

/-- No request that the policy authorizes fails for its credentials. -/
def NeverFails (x : Crates) (pair : PolicyPair) : Prop :=
  ∀ facts authority credentials path, pair.policy.authorizeInterceptedRequest x facts authority =
    .ok (credentials, path) → ∀ request, ∃ out,
      applyHeaderCredentials x request credentials pair.secrets = (.ok (), out)

theorem Checked.injections (h : Checked x c) :
    ∀ rule ∈ c.rules, ∀ injection ∈ rule.inject, ValidInjection injection := by
  obtain ⟨read, persistent, ha, rfl⟩ := h
  intro rule hr injection hi
  obtain ⟨entry, he⟩ := accepted_named ha rule hr
  rw [he.result] at hi
  exact he.parts.injections injection hi

/-- A credential of the compiled policy is one of the configuration, and the
other way round. -/
theorem compiled_iff (seed : CredentialSeed) (hc : Checked x config) {credential : CompiledCredential} :
    (∃ host rule, (SessionPolicy.compile x config seed).rules.get host = some rule ∧
      credential ∈ rule.credentials) ↔
    ∃ rule ∈ config.rules, ∃ injection ∈ rule.inject,
      credential = compileCredential x config seed injection := by
  constructor
  · rintro ⟨host, rule, hget, hm⟩
    exact compiled_credential hget hm
  · rintro ⟨rule, hr, injection, hi, rfl⟩
    exact ⟨rule.host, _, compile_get_rule hc.rules hr, List.mem_map_of_mem hi⟩

theorem provided_compiled (hc : Checked m.crates config) {files : SecretFiles}
    (hr : (m.secretStore files).resolve config = .ok secrets) :
    Provided m ⟨SessionPolicy.compile m.crates config seed, secrets⟩ := by
  obtain ⟨hvalues, hallowed⟩ := resolve_ok hr
  refine ⟨⟨config, seed, hc, rfl⟩, ?_, ?_, ?_, hvalues.good⟩
  · intro host rule credential hget hm hmode
    obtain ⟨source, hs, injection, hi, rfl⟩ := compiled_credential hget hm
    exact hvalues.present _ (mem_requested.mpr ⟨source, hs, injection, hi, rfl, hmode⟩)
  · intro name value hget
    obtain ⟨source, hs, injection, hi, rfl, hmode⟩ := mem_requested.mp (hvalues.only name value hget)
    obtain ⟨host, rule, hrule, hm⟩ := (compiled_iff seed hc).mpr
      ⟨source, hs, injection, hi, rfl⟩
    exact ⟨host, rule, _, hrule, hm, hmode, rfl⟩
  · intro name value hget
    exact hallowed name (hvalues.only name value hget)

theorem Provided.never_fails {pair : PolicyPair} (h : Provided m pair)
    (tokens : m.crates.HeaderTokenLaw) (values : m.crates.HeaderValueLaw)
    (codec : m.crates.Base64TextLaw) : NeverFails m.crates pair := by
  intro facts authority credentials path hauth request
  obtain ⟨host, rule, hget, rfl⟩ := authorized_rule hauth
  have htotal : ∀ credential ∈ rule.credentials,
      ∃ o, credentialValue m.crates request pair.secrets credential = .ok o := by
    intro credential hm
    refine credential_value_total tokens values codec ?_ (fun hmode => ?_) request
    · obtain ⟨config, seed, hc, hpolicy⟩ := h.compiled
      rw [hpolicy] at hget
      obtain ⟨source, hs, injection, hi, rfl⟩ := compiled_credential hget hm
      exact hc.injections source hs injection hi
    · obtain ⟨value, hv⟩ := h.complete host rule credential hget hm hmode
      exact ⟨value, hv, (h.values _ value hv).2⟩
  obtain ⟨written, hw⟩ := credential_values_total htotal
  exact ⟨_, by rw [applyHeaderCredentials, hw]⟩

/-- Every `create` call brings a validated policy and its secrets. -/
def Supplied (m : SessionManager P) (a : Action P) (_ : State P) : Prop :=
  ∀ call, a = .create call → Provisioned m call

theorem handler_call_supplied {core : State P} {t : TaskId} {a : Action P}
    {handler handler' : Handler} (hc : HandlerCall m t handler a handler') : Supplied m a core := by
  rintro call rfl
  cases hc with
  | create call hp => exact hp
  | request request a ho => cases ho

theorem supplied_serves [DecidableEq P]
    (h : ReachBy server.sessions.step (Supplied server.sessions) State.init s.core)
    (hs : Serves server s s') :
    ReachBy server.sessions.step (Supplied server.sessions) State.init s'.core := by
  cases hs with
  | connected | handled | cancelled | rejected | joined | finished => exact h
  | called k handler slots a core hc hstep =>
    exact h.next (handler_call_supplied hc) hstep
  | interrupted k slots t core hp hw hstep => exact h.next (a := .abort t) nofun hstep
  | delivered core hp hstep => exact h.next (a := .deliver) nofun hstep
  | moved a core ha hstep =>
    refine h.next ?_ hstep
    rintro call rfl
    cases ha
  | closed core hp hstep => exact h.next (a := .rejectNewSessions) nofun hstep
  | cleaned core hp hall hstep => exact h.next (a := .shutdownAll) nofun hstep

theorem supplied_reach [DecidableEq P] (h : Reach server.step server.init s) :
    ReachBy server.sessions.step (Supplied server.sessions) State.init s.core := by
  induction h with
  | start => exact .start
  | next before ha hs ih => exact supplied_serves ih (step_serves hs)

/-- A configuration that was validated, with what its secrets were resolved to. -/
def Furnished (m : SessionManager P) (config : SessionConfig) (secrets : ResolvedSecrets) : Prop :=
  Checked m.crates config ∧ ∃ files, (m.secretStore files).resolve config = .ok secrets

theorem Provisioned.furnished {call : CreateCall} (h : Provisioned m call) :
    Furnished m call.session call.secrets := by
  refine ⟨⟨call.session, call.session.persistent, ?_, rfl⟩, h.resolved⟩
  cases h.validated with
  | inline raw hraw => exact Or.inl ⟨raw, hraw⟩
  | file store name hread => exact Or.inr ⟨store, name, hread⟩

theorem furnished_resolves : Resolves (Furnished m) m := by
  intro store files source read config secrets persistent hread hconfig hsecrets
  exact ⟨⟨read, persistent, Or.inr ⟨store, source, hread⟩, hconfig⟩, files, hsecrets⟩

theorem generation_provided [DecidableEq P] {core : State P}
    (h : ReachBy m.step (Supplied m) State.init core) {r : RuntimeRef} (hr : r < core.nextCell)
    {generation : ProxyGeneration} (hg : Generates (core.cells r) generation) :
    Provided m generation.pair := by
  have hreach := h.reach
  have hused : (core.cells r).runtimeId ∈ core.used := by
    by_contra hnot
    exact (recorded_reach hreach _).unused hnot r hr rfl
  obtain ⟨call, s0, s1, hid, hsupplied, h0, hcreate, hrun⟩ := creation_of h hused
  have hq := (hsupplied call rfl).furnished
  obtain ⟨-, hconstant, -⟩ := constant_reach hq furnished_resolves h0 hcreate hrun
  obtain ⟨config, ⟨hchecked, files, hres⟩, -, hpolicy⟩ :=
    generation_derived hreach hconstant ⟨hr, hid.symm⟩ hg
  have hpair : generation.pair =
      ⟨SessionPolicy.compile m.crates config call.credentialSeed, generation.pair.secrets⟩ := by
    rw [← hpolicy]
  rw [hpair]
  exact provided_compiled hchecked hres

/-- Policy and secrets of a generation agree in every run of the server, on
whatever way the generation was installed, and no request that it authorizes
fails for want of a secret. -/
theorem secrets_provided [DecidableEq P] (server : ControlServer P)
    (tokens : server.sessions.crates.HeaderTokenLaw)
    (values : server.sessions.crates.HeaderValueLaw)
    (codec : server.sessions.crates.Base64TextLaw) (s : ServerState P)
    (h : Reach server.step server.init s) (r : RuntimeRef) (hr : r < s.core.nextCell)
    (generation : ProxyGeneration) (hg : Generates (s.core.cells r) generation) :
    Provided server.sessions generation.pair ∧
      NeverFails server.sessions.crates generation.pair := by
  have hprovided := generation_provided (supplied_reach h) hr hg
  exact ⟨hprovided, hprovided.never_fails tokens values codec⟩

end Generations

theorem base64_standard_printable (b : Bytes) :
    Text.printable (Base64.standard.encode b) = true := by
  have hdigits : ∀ ch ∈ Base64.standard.digits, Text.printable [ch] = true :=
    List.all_eq_true.mp (by decide +kernel)
  refine printable_all fun ch hch => ?_
  rcases Base64.encode_mem hch with hd | rfl
  · exact hdigits ch hd
  · decide

/-- Header values as they are: any text but control characters, tabs excepted. -/
def provisionCrates : Crates :=
  { sampleCrates with
    headerValue := fun t =>
      if (utf8 t).any (fun b => isAsciiControl b && b != 9) then none else some (utf8 t) }

theorem provision_tokens : provisionCrates.HeaderTokenLaw := by
  intro t hne htoken
  refine ⟨t.toAsciiLowercase, if_pos ?_⟩
  rw [htoken, Bool.and_true, Bool.not_eq_true', List.isEmpty_eq_false_iff]
  exact hne

theorem provision_values : provisionCrates.HeaderValueLaw := by
  intro t ht
  refine ⟨utf8 t, if_neg ?_⟩
  rw [Text.printable, Bool.not_eq_true', List.any_eq_false] at ht
  rw [Bool.not_eq_true, List.any_eq_false]
  intro b hb hctl
  exact ht b hb (Bool.and_eq_true_iff.mp hctl).1

def provisionServer : ControlServer Text :=
  { sampleServer with
    sessions := { sampleManager with
      crates := provisionCrates
      allowedSecrets := {"token".toList} } }

def privateDirectory : FileStatus := ⟨true, false, 0, 4096, 0o700, 1, 2⟩

def secretFile : FileStatus := ⟨false, true, 0, 7, 0o600, 1, 3⟩

/-- Every secret file holds one line. -/
def provisionEnvironment : Environment Text :=
  { sampleEnvironment with
    secretFiles := ⟨some privateDirectory, fun _ => some secretFile, fun _ => some secretFile,
      fun _ => some (utf8 "s3cret\n".toList)⟩ }

def provisionCreation : List (ServerAction Text) :=
  [.connect, .request 0 (.create (some sampleDocument)) ⟨sampleCall.id, zeroSeed⟩
      provisionEnvironment] ++ List.replicate 3 (.advance 0 provisionEnvironment)

/-- A session whose requests get the value of the file. -/
theorem secrets_provided_sample :
    ∃ s, Reach provisionServer.step provisionServer.init s ∧ s.core.nextCell = 1 ∧
      (s.core.cells 0).current.pair.secrets.get "token".toList = some "s3cret".toList ∧
      Provided provisionServer.sessions (s.core.cells 0).current.pair ∧
      NeverFails provisionCrates (s.core.cells 0).current.pair := by
  have hrun : (runSteps provisionServer.step provisionCreation provisionServer.init).any (fun s =>
      s.core.nextCell == 1 &&
        (s.core.cells 0).current.pair.secrets.get "token".toList == some "s3cret".toList) = true := by
    decide +kernel
  obtain ⟨s, hs, htest⟩ := run_any hrun
  simp only [Bool.and_eq_true, beq_iff_eq] at htest
  have hreach : Reach provisionServer.step provisionServer.init s := reach_run .start hs
  have hcell : 0 < s.core.nextCell := by
    rw [htest.1]
    exact Nat.zero_lt_one
  exact ⟨s, hreach, htest.1, htest.2, secrets_provided provisionServer provision_tokens
    provision_values base64_standard_printable s hreach 0 hcell _ (Or.inl rfl)⟩

end Proofs

end Baffle
