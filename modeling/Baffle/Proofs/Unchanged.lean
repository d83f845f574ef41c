import Baffle.Proofs.Credentials
import Baffle.Proofs.Cutover
import Baffle.Proofs.Interception

namespace Baffle

/-- The letter case of a header name does not matter to the header name type. -/
def Crates.HeaderCaseLaw (x : Crates) : Prop :=
  ∀ a b : Text, a.eqIgnoreAsciiCase b = true → x.headerName a = x.headerName b

namespace Proofs

variable {x : Crates} {c c' : SessionConfig} {seed : CredentialSeed}

/-- The rules differ in the order of their parts and the letter case of header names only. -/
structure SameRule (a b : HostRule) : Prop where
  host : a.host = b.host
  mode : a.mode = b.mode
  ports : a.ports.Perm b.ports
  paths : a.paths.Perm b.paths
  inject : (a.inject.map canonicalInjection).Perm (b.inject.map canonicalInjection)

theorem canonical_injection {i j : HeaderInjection}
    (h : canonicalInjection i = canonicalInjection j) :
    i.header.toAsciiLowercase = j.header.toAsciiLowercase ∧ i.secret = j.secret ∧
      i.format = j.format ∧ i.username = j.username := by
  simpa only [canonicalInjection, HeaderInjection.mk.injEq] using h

theorem canonical_rule_same {a b : HostRule} (h : canonicalRule a = canonicalRule b) :
    SameRule a b := by
  have hhost : (canonicalRule a).host = (canonicalRule b).host := congrArg _ h
  have hmode : (canonicalRule a).mode = (canonicalRule b).mode := congrArg _ h
  have hports := congrArg HostRule.ports h
  have hpaths := congrArg HostRule.paths h
  have hinject := congrArg HostRule.inject h
  refine ⟨hhost, hmode, ?_, ?_, ?_⟩
  · have hp := (List.mergeSort_perm a.ports (fun a b => decide (a ≤ b))).symm
    rw [show a.ports.mergeSort _ = b.ports.mergeSort _ from hports] at hp
    exact hp.trans (List.mergeSort_perm _ _)
  · have hp := (List.mergeSort_perm a.paths (fun a b => decide (a ≤ b))).symm
    rw [show a.paths.mergeSort _ = b.paths.mergeSort _ from hpaths] at hp
    exact hp.trans (List.mergeSort_perm _ _)
  · have hp := (List.mergeSort_perm (a.inject.map canonicalInjection)
      (fun a b => decide (a.header ≤ b.header))).symm
    rw [show (a.inject.map canonicalInjection).mergeSort _ =
      (b.inject.map canonicalInjection).mergeSort _ from hinject] at hp
    exact hp.trans (List.mergeSort_perm _ _)

/-- Every rule of one list has its counterpart in the other. -/
theorem same_effective {a b : List HostRule} (h : sameEffectiveRules a b = true) :
    ∀ rule ∈ a, ∃ other ∈ b, SameRule rule other := by
  have heq : canonicalRules a = canonicalRules b := beq_iff_eq.mp h
  have hperm : (a.map canonicalRule).Perm (b.map canonicalRule) := by
    have hp := (List.mergeSort_perm (a.map canonicalRule) (fun a b => decide (a.host ≤ b.host))).symm
    rw [show (a.map canonicalRule).mergeSort _ = (b.map canonicalRule).mergeSort _ from heq] at hp
    exact hp.trans (List.mergeSort_perm _ _)
  intro rule hm
  have hmem := hperm.mem_iff.mp (List.mem_map.mpr ⟨rule, hm, rfl⟩)
  obtain ⟨other, ho, he⟩ := List.mem_map.mp hmem
  exact ⟨other, ho, canonical_rule_same he.symm⟩

theorem same_effective_symm {a b : List HostRule} (h : sameEffectiveRules a b = true) :
    sameEffectiveRules b a = true :=
  beq_iff_eq.mpr (beq_iff_eq.mp h).symm

/-- Equal values under equal names. -/
theorem has_same_values {a b : ResolvedSecrets} (h : hasSameValues a b = true) : a = b := by
  simp only [hasSameValues, Bool.and_eq_true, beq_iff_eq, List.all_eq_true] at h
  obtain ⟨hsize, hall⟩ := h
  have hget : ∀ k v, a.get k = some v → b.get k = some v :=
    fun k v hk => hall (k, v) (SortedMap.get_eq_some.mp hk)
  have hsub : a.keys ⊆ b.keys := by
    intro k hk
    obtain ⟨v, hv⟩ := SortedMap.mem_keys.mp hk
    exact SortedMap.mem_keys.mpr ⟨v, hget k v hv⟩
  have hlen : b.keys.length ≤ a.keys.length := by
    rw [SortedMap.keys, SortedMap.keys, List.length_map, List.length_map]
    exact hsize.ge
  have hkeys := (List.subperm_of_subset a.keys_nodup hsub).perm_of_length_le hlen
  apply SortedMap.ext_get
  intro k
  cases ha : a.get k with
  | some v => exact (hget k v ha).symm
  | none =>
    cases hb : b.get k with
    | none => rfl
    | some w =>
      have hk : k ∈ a.keys := hkeys.mem_iff.mpr (SortedMap.mem_keys.mpr ⟨w, hb⟩)
      obtain ⟨v, hv⟩ := SortedMap.mem_keys.mp hk
      rw [ha] at hv
      cases hv

/-- The credentials differ in the spelling of their header only. -/
def SameCredential (a b : CompiledCredential) : Prop :=
  canonicalInjection a.injection = canonicalInjection b.injection ∧ a.mode = b.mode ∧
    a.fakeValue = b.fakeValue

/-- The credentials are the same in some order. -/
def SameCredentials (a b : List CompiledCredential) : Prop :=
  ∃ order, List.Forall₂ SameCredential a order ∧ order.Perm b

structure SameCompiled (a b : CompiledRule) : Prop where
  mode : a.mode = b.mode
  ports : a.ports = b.ports
  paths : a.paths.Perm b.paths
  credentials : SameCredentials a.credentials b.credentials
  distinct : DistinctHeaders b.credentials

theorem compile_same {a b : HostRule} (hv : ValidRule x b) (h : SameRule a b)
    (hmode : ∀ secret, c.effectiveCredentialMode secret = c'.effectiveCredentialMode secret) :
    SameCompiled (compileRule x c seed a) (compileRule x c' seed b) := by
  refine ⟨h.mode, List.toFinset_eq_of_perm _ _ h.ports, h.paths, ?_, compiled_distinct hv⟩
  have hmap : List.Forall₂ (fun key injection => key = canonicalInjection injection)
      (b.inject.map canonicalInjection) b.inject := by
    rw [List.forall₂_map_left_iff]
    exact List.forall₂_same.mpr (fun _ _ => rfl)
  obtain ⟨order, horder, hperm⟩ := List.perm_comp_forall₂ h.inject hmap
  refine ⟨order.map (compileCredential x c' seed), ?_, hperm.map _⟩
  rw [List.forall₂_map_left_iff] at horder
  show List.Forall₂ SameCredential (a.inject.map _) _
  rw [List.forall₂_map_left_iff, List.forall₂_map_right_iff]
  apply horder.imp
  intro i j hij
  have hsecret : i.secret = j.secret := (canonical_injection hij).2.1
  refine ⟨hij, ?_, ?_⟩
  · show c.effectiveCredentialMode i.secret = c'.effectiveCredentialMode j.secret
    rw [hmode, hsecret]
  · simp only [compileCredential]
    rw [hmode, hsecret]

structure SamePolicy (a b : SessionPolicy) : Prop where
  unmatched : a.unmatched = b.unmatched
  rules : ∀ host, Option.Rel SameCompiled (a.rules.get host) (b.rules.get host)

theorem policy_same (hv : ValidRules x c.rules) (hv' : ValidRules x c'.rules)
    (hu : c.unmatched = c'.unmatched) (hr : sameEffectiveRules c.rules c'.rules = true)
    (hmode : ∀ secret, c.effectiveCredentialMode secret = c'.effectiveCredentialMode secret) :
    SamePolicy (SessionPolicy.compile x c seed) (SessionPolicy.compile x c' seed) where
  unmatched := hu
  rules := by
    intro host
    cases ha : (SessionPolicy.compile x c seed).rules.get host with
    | some compiled =>
      obtain ⟨rule, hm, hhost, rfl⟩ := (compile_get hv host compiled).mp ha
      obtain ⟨other, ho, hsame⟩ := same_effective hr rule hm
      have hb : (SessionPolicy.compile x c' seed).rules.get other.host =
          some (compileRule x c' seed other) := compile_get_rule hv' ho
      rw [← hsame.host, hhost] at hb
      rw [hb]
      exact .some (compile_same (hv'.each other ho) hsame hmode)
    | none =>
      cases hb : (SessionPolicy.compile x c' seed).rules.get host with
      | none => exact .none
      | some compiled =>
        obtain ⟨other, ho, hhost, -⟩ := (compile_get hv' host compiled).mp hb
        obtain ⟨rule, hm, hsame⟩ := same_effective (same_effective_symm hr) other ho
        exact absurd (hsame.host.symm.trans hhost) ((compile_get_none hv host).mp ha rule hm)

variable {a b : SessionPolicy}

theorem connect_same (h : SamePolicy a b) (authority : Text) (hosts : List Text) :
    a.authorizeConnectAuthority x authority hosts =
      b.authorizeConnectAuthority x authority hosts := by
  unfold SessionPolicy.authorizeConnectAuthority
  cases parseAuthorityText x authority (some 443) with
  | error e => rfl
  | ok destination =>
    simp only [ok_bind]
    cases validateHostHeaderText x hosts destination with
    | error e => rfl
    | ok u =>
      simp only [ok_bind]
      have hrel := h.rules destination.host
      cases ha : a.rules.get destination.host with
      | none =>
        cases hb : b.rules.get destination.host with
        | none => simp only [h.unmatched]
        | some rule =>
          rw [ha, hb] at hrel
          cases hrel
      | some rule =>
        cases hb : b.rules.get destination.host with
        | none =>
          rw [ha, hb] at hrel
          cases hrel
        | some rule' =>
          rw [ha, hb] at hrel
          cases hrel with
          | some hsame => simp only [hsame.mode, hsame.ports]

theorem permits_same (h : SamePolicy a b) (authority : Text) (serverName : Option Text) :
    a.permitsTlsInterceptionAuthority x authority serverName =
      b.permitsTlsInterceptionAuthority x authority serverName := by
  unfold SessionPolicy.permitsTlsInterceptionAuthority
  rw [connect_same h]

theorem canonical_path_same {rule rule' : CompiledRule} (h : SameCompiled rule rule')
    (path : Text) : canonicalAuthorizedPath rule path = canonicalAuthorizedPath rule' path := by
  have hempty : rule.paths.isEmpty = rule'.paths.isEmpty := h.paths.isEmpty_eq
  have hany : ∀ canonical, rule.paths.any (fun pattern => matchesPathPattern pattern canonical) =
      rule'.paths.any (fun pattern => matchesPathPattern pattern canonical) :=
    fun canonical => h.paths.any_eq
  simp only [canonicalAuthorizedPath, hempty, hany]

/-- The same decision about a decrypted request. -/
inductive SameDecision : Except AuthorizationError (List CompiledCredential × Option Text) →
    Except AuthorizationError (List CompiledCredential × Option Text) → Prop where
  | error (e : AuthorizationError) : SameDecision (.error e) (.error e)
  | ok {credentials credentials' : List CompiledCredential} (path : Option Text)
      (h : SameCredentials credentials credentials') (hd : DistinctHeaders credentials') :
      SameDecision (.ok (credentials, path)) (.ok (credentials', path))

theorem intercepted_bind (policy : SessionPolicy) (facts : RequestFacts) (authority : Text) :
    policy.authorizeInterceptedRequest x facts authority =
      bindRequest x facts authority >>= fun d =>
        match (policy.rules.get d.host).filter (fun rule => decide (d.port ∈ rule.ports)) with
        | none => throw .denied
        | some rule =>
          canonicalAuthorizedPath rule facts.path >>= fun path => pure (rule.credentials, path) := by
  simp only [bindRequest, bind_assoc, pure_bind]
  rfl

theorem intercepted_same (h : SamePolicy a b) (facts : RequestFacts) (authority : Text) :
    SameDecision (a.authorizeInterceptedRequest x facts authority)
      (b.authorizeInterceptedRequest x facts authority) := by
  rw [intercepted_bind, intercepted_bind]
  cases bindRequest x facts authority with
  | error e => exact .error e
  | ok d =>
    simp only [ok_bind]
    have hrel := h.rules d.host
    cases ha : a.rules.get d.host with
    | none =>
      rw [ha] at hrel
      cases hb : b.rules.get d.host with
      | none => exact .error .denied
      | some rule =>
        rw [hb] at hrel
        cases hrel
    | some rule =>
      rw [ha] at hrel
      cases hb : b.rules.get d.host with
      | none =>
        rw [hb] at hrel
        cases hrel
      | some rule' =>
        rw [hb] at hrel
        cases hrel with
        | some hsame =>
          by_cases hport : d.port ∈ rule.ports
          · have hport' : d.port ∈ rule'.ports := hsame.ports ▸ hport
            simp only [Option.filter_some, hport, hport', decide_true, ↓reduceIte]
            rw [canonical_path_same hsame]
            cases canonicalAuthorizedPath rule' facts.path with
            | error e => exact .error e
            | ok path => exact .ok path hsame.credentials hsame.distinct
          · have hport' : d.port ∉ rule'.ports := hsame.ports ▸ hport
            simp only [Option.filter_some, hport, hport', decide_false]
            exact .error .denied

theorem credential_value_same (hcase : x.HeaderCaseLaw) {request : Request}
    {secrets : ResolvedSecrets} {a b : CompiledCredential} (h : SameCredential a b) :
    credentialValue x request secrets a = credentialValue x request secrets b := by
  obtain ⟨hi, hmode, hfake⟩ := h
  obtain ⟨hheader, hsecret, hformat, huser⟩ := canonical_injection hi
  have hname : x.headerName a.injection.header = x.headerName b.injection.header :=
    hcase _ _ (beq_iff_eq.mpr hheader)
  have hinject : ∀ secret, formatInjectedSecret x a.injection secret =
      formatInjectedSecret x b.injection secret := by
    intro secret
    simp only [formatInjectedSecret, hformat, huser]
  have hsubstitute : ∀ fake real, substituteHeaderSecret x request a.injection fake real =
      substituteHeaderSecret x request b.injection fake real := by
    intro fake real
    simp only [substituteHeaderSecret, hname, hformat, huser]
  simp only [credentialValue, credentialText, hmode, hfake, hname, hsecret, hinject, hsubstitute]

theorem credential_values_same (hcase : x.HeaderCaseLaw) {request : Request}
    {secrets : ResolvedSecrets} {a b : List CompiledCredential}
    (h : List.Forall₂ SameCredential a b) :
    credentialValues x request secrets a = credentialValues x request secrets b := by
  induction h with
  | nil => rfl
  | cons hab _ ih => rw [credentialValues, credentialValues, credential_value_same hcase hab, ih]

theorem apply_same (law : x.HeaderNameLaw) (hcase : x.HeaderCaseLaw) {request : Request}
    {secrets : ResolvedSecrets} {a b : List CompiledCredential} (h : SameCredentials a b)
    (hd : DistinctHeaders b) :
    (applyHeaderCredentials x request a secrets).1 = (applyHeaderCredentials x request b secrets).1 ∧
      SameRequest (applyHeaderCredentials x request a secrets).2
        (applyHeaderCredentials x request b secrets).2 := by
  obtain ⟨order, hsame, hperm⟩ := h
  have hvalues : applyHeaderCredentials x request a secrets =
      applyHeaderCredentials x request order secrets := by
    unfold applyHeaderCredentials
    rw [credential_values_same hcase hsame]
  rw [hvalues]
  exact apply_perm law hd hperm

theorem active_same {a b : List CompiledCredential} (h : SameCredentials a b) :
    a.any (fun credential => credential.mode != .disabled) =
      b.any (fun credential => credential.mode != .disabled) := by
  obtain ⟨order, hsame, hperm⟩ := h
  rw [← hperm.any_eq]
  clear hperm
  induction hsame with
  | nil => rfl
  | cons hab _ ih => rw [List.any_cons, List.any_cons, hab.2.1, ih]

/-- The same answer to a decrypted request. -/
inductive SameAnswer : ServeResult → ServeResult → Prop where
  | denied (status : Nat) : SameAnswer (.denied status) (.denied status)
  | forwarded {request request' : Request} (h : SameRequest request request') :
      SameAnswer (.forwarded request) (.forwarded request')

/-- The same decision about a request, and the same outcome of filling in its credentials. -/
inductive SameOutcome (x : Crates) (request : Request) (secrets secrets' : ResolvedSecrets) :
    Except AuthorizationError (List CompiledCredential × Option Text) →
    Except AuthorizationError (List CompiledCredential × Option Text) → Prop where
  | refused (e : AuthorizationError) : SameOutcome x request secrets secrets' (.error e) (.error e)
  | decided {credentials credentials' : List CompiledCredential} (path : Option Text)
      (hresult : (applyHeaderCredentials x (replacePath x request path) credentials secrets).1 =
        (applyHeaderCredentials x (replacePath x request path) credentials' secrets').1)
      (hrequest : SameRequest (applyHeaderCredentials x (replacePath x request path) credentials secrets).2
        (applyHeaderCredentials x (replacePath x request path) credentials' secrets').2) :
      SameOutcome x request secrets secrets' (.ok (credentials, path)) (.ok (credentials', path))

/-- No client can tell one pair of policy and secrets from the other. -/
structure Indistinguishable (x : Crates) (a b : PolicyPair) : Prop where
  connect : ∀ authority hosts, a.policy.authorizeConnectAuthority x authority hosts =
    b.policy.authorizeConnectAuthority x authority hosts
  tls : ∀ authority serverName, a.policy.permitsTlsInterceptionAuthority x authority serverName =
    b.policy.permitsTlsInterceptionAuthority x authority serverName
  intercepted : ∀ facts authority request, SameOutcome x request a.secrets b.secrets
    (a.policy.authorizeInterceptedRequest x facts authority)
    (b.policy.authorizeInterceptedRequest x facts authority)
  served : ∀ authority request, SameAnswer (serve x a.policy a.secrets authority request)
    (serve x b.policy b.secrets authority request)

theorem SameDecision.outcome (law : x.HeaderNameLaw) (hcase : x.HeaderCaseLaw)
    {p q : Except AuthorizationError (List CompiledCredential × Option Text)}
    (h : SameDecision p q) (request : Request) (secrets : ResolvedSecrets) :
    SameOutcome x request secrets secrets p q := by
  cases h with
  | error e => exact .refused e
  | ok path h hd =>
    obtain ⟨hresult, hrequest⟩ := apply_same law hcase h hd
    exact .decided path hresult hrequest

theorem serve_same (law : x.HeaderNameLaw) (hcase : x.HeaderCaseLaw) (h : SamePolicy a b)
    (secrets : ResolvedSecrets) (authority : Text) (request : Request) :
    SameAnswer (serve x a secrets authority request) (serve x b secrets authority request) := by
  unfold serve
  cases headerTexts x (request.headers.getAll hostHeader) with
  | none => exact .denied 400
  | some hosts =>
    dsimp only
    have hdecision := intercepted_same (x := x) h (requestFacts request hosts) authority
    generalize a.authorizeInterceptedRequest x (requestFacts request hosts) authority = p
      at hdecision
    generalize b.authorizeInterceptedRequest x (requestFacts request hosts) authority = q
      at hdecision
    cases hdecision with
    | error e =>
      cases e with
      | invalidAuthority => exact .denied 400
      | denied => exact .denied 403
    | @ok credentials credentials' path h hd =>
      dsimp only
      rw [active_same h]
      split
      · exact .denied 403
      · have happly : ∀ r, _ ∧ SameRequest (applyHeaderCredentials x r credentials secrets).2
            (applyHeaderCredentials x r credentials' secrets).2 :=
          fun r => apply_same law hcase h hd
        obtain ⟨hresult, hrequest⟩ := happly (replacePath x request path)
        generalize applyHeaderCredentials x (replacePath x request path) credentials secrets = p
          at hresult hrequest
        generalize applyHeaderCredentials x (replacePath x request path) credentials' secrets = q
          at hresult hrequest
        obtain ⟨r, out⟩ := p
        obtain ⟨r', out'⟩ := q
        obtain rfl : r = r' := hresult
        cases r with
        | error e => exact .denied 403
        | ok u => exact .forwarded hrequest

theorem pair_same (law : x.HeaderNameLaw) (hcase : x.HeaderCaseLaw) (hv : ValidRules x c.rules)
    (hv' : ValidRules x c'.rules) {secrets secrets' : ResolvedSecrets}
    (hc : SessionManager.configurationUnchanged c' c = true)
    (hs : hasSameValues secrets secrets' = true) (seed : CredentialSeed) :
    Indistinguishable x ⟨SessionPolicy.compile x c seed, secrets⟩
      ⟨SessionPolicy.compile x c' seed, secrets'⟩ := by
  simp only [SessionManager.configurationUnchanged, Bool.and_eq_true, beq_iff_eq] at hc
  obtain ⟨⟨⟨hu, hr⟩, hdefault⟩, hmodes⟩ := hc
  have hmode : ∀ secret, c.effectiveCredentialMode secret = c'.effectiveCredentialMode secret := by
    intro secret
    simp only [SessionConfig.effectiveCredentialMode, hdefault, hmodes]
  have hpolicy : SamePolicy (SessionPolicy.compile x c seed) (SessionPolicy.compile x c' seed) :=
    policy_same hv hv' hu.symm (same_effective_symm hr) hmode
  obtain rfl := has_same_values hs
  exact ⟨connect_same hpolicy, permits_same hpolicy,
    fun facts authority request =>
      (intercepted_same hpolicy facts authority).outcome law hcase request secrets,
    serve_same law hcase hpolicy secrets⟩

/-- A configuration as a reload uses it: accepted, under the persistence of its session. -/
def Checked (x : Crates) (c : SessionConfig) : Prop :=
  ∃ read persistent, Accepted x read ∧ c = { read with persistent }

theorem Checked.rules (h : Checked x c) : ValidRules x c.rules := by
  obtain ⟨read, persistent, ha, rfl⟩ := h
  have hv : ValidRules x read.rules := accepted_rules ha
  exact hv

variable {P : Type} {m : SessionManager P} {t : TaskId} {s s' : State P} {id : SessionId}

theorem compare_unchanged [DecidableEq P] {source : ReloadSource} {target : ReloadTarget P}
    {session : ManagedSession P} (hs : s.sessions.get id = some session)
    (h : m.reloadCompare id source target s = .returning (.unchanged id target.socket)) :
    SessionManager.configurationUnchanged target.candidate session.configuration = true ∧
      hasSameValues source.secrets target.secrets = true := by
  unfold SessionManager.reloadCompare at h
  rw [hs] at h
  dsimp only at h
  split at h
  · rename_i hc
    exact ⟨hc.1, hc.2.2⟩
  · split at h <;> cases h

/-- The secrets that a reload compares are still those of its session, and its
candidate is one that was read. -/
def Comparing (x : Crates) (id : SessionId) (s : State P) : Pc P → Prop
  | .reload _ _ (.prepare source) =>
    ∀ session, s.sessions.get id = some session → source.secrets = session.secrets
  | .reload _ _ (.compare source target) =>
    (∀ session, s.sessions.get id = some session → source.secrets = session.secrets) ∧
      Checked x target.candidate
  | _ => True

theorem Frame.secrets (hf : Frame id s s') {secrets : ResolvedSecrets}
    (h : ∀ session, s.sessions.get id = some session → secrets = session.secrets)
    (session : ManagedSession P) (hs : s'.sessions.get id = some session) :
    secrets = session.secrets := by
  cases hold : s.sessions.get id with
  | none =>
    rw [hf.absent hold] at hs
    cases hs
  | some old =>
    rcases hf.kept old hold with ⟨new, hnew, hk⟩ | ⟨-, hnone⟩
    · rw [hs] at hnew
      cases hnew
      rw [h old hold, hk.secrets]
    · rw [hs] at hnone
      cases hnone

theorem Comparing.frame {pc : Pc P} (hf : Frame id s s') (h : Comparing x id s pc) :
    Comparing x id s' pc := by
  cases pc with
  | reload j batch stage =>
    cases stage with
    | prepare source => exact Frame.secrets hf h
    | compare source target => exact ⟨Frame.secrets hf h.1, h.2⟩
    | _ => trivial
  | _ => trivial

theorem Between.comparing {pc : Pc P} (h : Between pc) : Comparing x id s pc := by
  cases h <;> trivial

theorem comparing_reload {batch : Option Batch} {stage stage' : ReloadStage P}
    (h : Comparing m.crates id s (.reload id batch stage))
    (hm : ReloadMove m s id stage s' stage') (pc : Pc P) :
    Comparing m.crates id (s'.goto t pc) (.reload id batch stage') := by
  cases hm with
  | begun session hs hstate ha source hsource =>
    intro session' hs'
    have hget : (reaped s id session (SessionManager.unfinished s session).countDraining).sessions.get id
        = some (SessionManager.unfinished s session).countDraining := SortedMap.get_insert_self ..
    cases hget.symm.trans hs'
    rfl
  | prepared source target store files read hread hc hsecrets hsocket =>
    exact ⟨h, read, source.persistent, Or.inr ⟨store, source.source, hread⟩, hc⟩
  | _ => trivial

theorem comparing_upheld [DecidableEq P] (h : Reach m.step State.init s) (id : SessionId) :
    Upheld (fun _ _ => True) (fun id => Comparing m.crates id) id s := by
  refine session_rule (fun _ => trivial) (fun _ _ _ => trivial) ?_ ?_ ?_
    (fun _ _ _ _ _ _ => trivial) h id
  · intro id s s' t _ _ _ hf hc
    exact hc.frame hf
  · intro id s s' pc _ hen _ _ _
    cases hen <;> trivial
  · intro id s s' t pc hreach hh _ hc hm
    refine ⟨trivial, ?_⟩
    generalize s.tasks t = pc0 at hh hc hm
    cases hm with
    | reload j batch hmove =>
      obtain rfl := Pc.holds_reload hh
      exact comparing_reload hc hmove _
    | reloadReturned j batch result =>
      exact (after_reload_between batch result).comparing
    | _ => trivial

/-- A reload that reports no change leaves nothing to change: what the candidate
would have committed answers every client like the active pair, and in a running
system like the pair that the session has committed. -/
theorem unchanged_sound [DecidableEq P] (m : SessionManager P) (law : m.crates.HeaderNameLaw)
    (hcase : m.crates.HeaderCaseLaw) :
    (∀ id source (target : ReloadTarget P) s session, s.sessions.get id = some session →
      Checked m.crates session.configuration → Checked m.crates target.candidate →
      m.reloadCompare id source target s = .returning (.unchanged id target.socket) →
      ∀ seed, Indistinguishable m.crates (m.pair session.configuration seed source.secrets)
        (m.pair target.candidate seed target.secrets)) ∧
    ∀ s t id batch source target session runtime, Reach m.step State.init s →
      s.tasks t = .reload id batch (.compare source target) →
      s.sessions.get id = some session → session.runtime = some runtime →
      Checked m.crates session.configuration →
      m.reloadCompare id source target s = .returning (.unchanged id target.socket) →
      ∃ committed, (s.history id).getLast? = some committed ∧
        Indistinguishable m.crates committed
          (m.pair target.candidate runtime.credentialSeed target.secrets) := by
  have hsame : ∀ id source (target : ReloadTarget P) s session,
      s.sessions.get id = some session → Checked m.crates session.configuration →
      Checked m.crates target.candidate →
      m.reloadCompare id source target s = .returning (.unchanged id target.socket) →
      ∀ seed, Indistinguishable m.crates (m.pair session.configuration seed source.secrets)
        (m.pair target.candidate seed target.secrets) := by
    intro id source target s session hs hv hv' h seed
    obtain ⟨hc, hsecrets⟩ := compare_unchanged hs h
    exact pair_same law hcase hv.rules hv'.rules hc hsecrets seed
  refine ⟨hsame, ?_⟩
  intro s t id batch source target session runtime hreach hpc hs hruntime hv h
  have hholds : (s.tasks t).holds = some id := by
    rw [hpc]
    rfl
  have hcomparing := (comparing_upheld hreach id).2 t hholds
  rw [hpc] at hcomparing
  obtain ⟨hsecrets, hv'⟩ := hcomparing
  have hmarks : (s.tasks t).marks ≠ some id := by
    rw [hpc]
    rintro ⟨⟩
  refine ⟨_, (cutover_upheld hreach id).1.last (exclusive_reach hreach) hholds hmarks hs hruntime, ?_⟩
  rw [← hsecrets session hs]
  exact hsame id source target s session hs hv hv' h runtime.credentialSeed

theorem token_lower (ch : Char) : isTokenCharacter ch.toLower = isTokenCharacter ch := by
  by_cases hu : ch.isUpper = true
  · have ha : ch.isAlpha = true := by rw [Char.isAlpha, hu, Bool.true_or]
    have hl : ch.toLower.isAlpha = true := by rw [Char.isAlpha_toLower_eq_isAlpha, ha]
    simp only [isTokenCharacter, Char.isAlphanum, ha, hl, Bool.true_or]
  · rw [Char.toLower_eq_of_not_isUpper hu]

theorem sample_header_case : sampleCrates.HeaderCaseLaw := by
  intro a b h
  have hlower : a.map Char.toLower = b.map Char.toLower := beq_iff_eq.mp h
  have hall : ∀ s : Text, s.all isTokenCharacter = (s.map Char.toLower).all isTokenCharacter := by
    intro s
    rw [List.all_map]
    exact congrArg s.all (funext fun ch => (token_lower ch).symm)
  have hempty : ∀ s : Text, s.isEmpty = (s.map Char.toLower).isEmpty := by
    intro s
    rw [List.isEmpty_map]
  simp only [sampleCrates, Text.toAsciiLowercase]
  rw [hall a, hall b, hempty a, hempty b, hlower]

def respelledRule : HostRule :=
  { sampleRule with
    inject := [{ header := "authorization".toList, secret := "token".toList, format := .bearer,
                 username := none }] }

/-- The sample session with its header in lower case. -/
def respelledSession : SessionConfig := { sampleSession with rules := [respelledRule] }

theorem respelled_unchanged :
    SessionManager.configurationUnchanged respelledSession sampleSession = true := by
  have hinject : respelledRule.inject.map canonicalInjection =
      sampleRule.inject.map canonicalInjection := by decide
  have hrule : canonicalRule respelledRule = canonicalRule sampleRule := by
    simp only [canonicalRule, hinject]
    rfl
  have hrules : canonicalRules respelledSession.rules = canonicalRules sampleSession.rules := by
    simp only [canonicalRules, respelledSession, sampleSession, List.map_cons, List.map_nil, hrule]
  simp only [SessionManager.configurationUnchanged, sameEffectiveRules, hrules, beq_self_eq_true,
    Bool.and_true]
  decide

theorem respelled_accepted : Accepted sampleCrates respelledSession :=
  Or.inl ⟨some { sampleDocument with
    rules := some (.named (SortedMap.insert ∅ "api.example.com".toList
      { mode := none
        ports := [443, 8443]
        paths := some ["/v1/**".toList]
        inject := some [{ header := "authorization".toList, secret := "token".toList,
                          format := .bearer, username := none }] })) }, by decide +kernel⟩

/-- A reload to the other spelling changes nothing. -/
theorem unchanged_sound_sample :
    Indistinguishable sampleCrates (sampleManager.pair sampleSession zeroSeed ∅)
      (sampleManager.pair respelledSession zeroSeed ∅) := by
  let session : ManagedSession Text :=
    { info := ⟨sampleCall.id, "/run/a.sock".toList, false, .running, 1, 0⟩
      configuration := sampleSession
      secrets := ∅
      configSource := some "a.toml".toList
      runtime := none
      retiredRuntimes := []
      listenerGeneration := 1 }
  have hs : (State.init.setSession sampleCall.id session).sessions.get sampleCall.id = some session :=
    SortedMap.get_insert_self ..
  refine (unchanged_sound sampleManager sample_header_names sample_header_case).1 sampleCall.id
    ⟨"a.toml".toList, ∅, "/run/a.sock".toList, false⟩
    ⟨respelledSession, ∅, "/run/a.sock".toList, "/run/a.sock".toList⟩ _ session hs
    ⟨sampleSession, false, sample_accepted, rfl⟩ ⟨respelledSession, false, respelled_accepted, rfl⟩
    ?_ zeroSeed
  unfold SessionManager.reloadCompare
  rw [hs]
  exact if_pos ⟨respelled_unchanged, rfl, by decide⟩

end Proofs

end Baffle
