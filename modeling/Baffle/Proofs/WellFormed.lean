import Baffle.Proofs.Patterns

namespace Baffle.Proofs

variable {x : Crates} {c : SessionConfig} {p q : Text}

/-- A name that, joined to a directory, names an entry of it. -/
structure SecretId (id : Text) : Prop where
  nonempty : id ≠ []
  short : id.len ≤ 64
  slashless : '/' ∉ id
  single : Text.containsText ['.', '.'] id = false
  child : id ≠ ['.'] ∧ id ≠ ['.', '.']

/-- A field name that may be injected. -/
structure InjectedHeader (header : Text) : Prop where
  nonempty : header ≠ []
  token : ∀ ch ∈ header, isTokenCharacter ch = true
  permitted : ∀ name ∈ prohibitedHeaders, header.eqIgnoreAsciiCase name = false

structure WellFormedInjection (injection : HeaderInjection) : Prop where
  header : InjectedHeader injection.header
  secret : SecretId injection.secret
  username : injection.username.isSome = true ↔ injection.format = .basicPassword
  colonless : ∀ name, injection.username = some name → ':' ∉ name

structure WellFormedRule (x : Crates) (rule : HostRule) : Prop where
  host : normalizeDnsName x rule.host = .ok rule.host
  ports : rule.ports ≠ [] ∧ rule.ports.Nodup ∧ 0 ∉ rule.ports
  tunnel : rule.mode = .tunnel → rule.paths = [] ∧ rule.inject = []
  paths : ∀ p ∈ rule.paths, validatePath p = .ok p
  apart : rule.paths.Pairwise Apart
  injections : ∀ i ∈ rule.inject, WellFormedInjection i
  headers : rule.inject.Pairwise (fun i j => i.header.eqIgnoreAsciiCase j.header = false)

structure WellFormed (x : Crates) (c : SessionConfig) : Prop where
  hosts : (c.rules.map HostRule.host).Nodup
  rules : ∀ rule ∈ c.rules, WellFormedRule x rule
  overrides : ∀ id mode, c.credentialModes.get id = some mode → SecretId id
  socketName : ∀ name, c.socketName = some name →
    ∀ part ∈ name.splitOn '/', part ≠ [] ∧ part ≠ ['.'] ∧ part ≠ ['.', '.']

theorem secret_id {id : Text} {u : Unit} (h : validateSecretId id = .ok u) : SecretId id := by
  simp only [validateSecretId, refuse_ok, Bool.or_eq_false_iff, List.isEmpty_eq_false_iff,
    Bool.not_eq_false', List.all_eq_true, decide_eq_false_iff_not, not_lt] at h
  obtain ⟨⟨⟨⟨⟨hne, hlen⟩, hall⟩, hhead⟩, -⟩, hdots⟩ := h
  refine ⟨hne, hlen, fun hm => ?_, hdots, ?_, ?_⟩
  · have hslash := hall '/' hm
    revert hslash
    decide
  · rintro rfl
    revert hhead
    decide
  · rintro rfl
    revert hhead
    decide

theorem prohibited_lowercase : ∀ name ∈ prohibitedHeaders, name.toAsciiLowercase = name := by
  decide +kernel

theorem injected_header {header : Text} (h : validateHeader header = .ok header) :
    InjectedHeader header := by
  obtain ⟨-, hne, htoken, hp⟩ := validate_header_ok.mp h
  refine ⟨hne, List.all_eq_true.mp htoken, fun name hm => ?_⟩
  rw [Text.eqIgnoreAsciiCase, prohibited_lowercase name hm, beq_eq_false_iff_ne]
  rintro rfl
  exact hp hm

theorem ValidInjection.wellFormed {injection : HeaderInjection} (h : ValidInjection injection) :
    WellFormedInjection injection where
  header := injected_header h.header
  secret := secret_id h.secret
  username := by
    rcases h.username with ⟨hf, name, hn, -⟩ | ⟨hf, hn⟩
    · simp [hf, hn]
    · simp [hf, hn]
  colonless := by
    intro name hn
    rcases h.username with ⟨-, name', hn', hv⟩ | ⟨-, hn'⟩
    · rw [hn, Option.some.injEq] at hn'
      subst hn'
      simp only [validateBasicUsername, refuse_ok, Bool.or_eq_false_iff, List.contains_eq_mem,
        decide_eq_false_iff_not] at hv
      exact hv.1.2
    · rw [hn] at hn'
      cases hn'

/-- A name that the host parser keeps is its own normal form. -/
theorem normalize_again (law : x.HostParseLaw) {raw host : Text}
    (h : normalizeDnsName x raw = .ok host) : normalizeDnsName x host = .ok host :=
  normalize_spelling law h (Or.inl rfl)

theorem NamedRuleOk.wellFormed (law : x.HostParseLaw) {entry : Text × RawNamedRule}
    {rule : HostRule} (h : NamedRuleOk x entry rule) : WellFormedRule x rule where
  host := normalize_again law h.host
  ports := by
    rw [h.result]
    exact h.parts.ports
  tunnel := h.valid.tunnel_plain
  paths := by
    intro p hp
    obtain ⟨raw, -, hraw⟩ := forall₂_right h.paths hp
    exact validate_path_again hraw
  apart := h.apart
  injections := by
    rw [h.result]
    exact fun i hi => (h.parts.injections i hi).wellFormed
  headers := by
    apply (List.pairwise_map.mp h.valid.headers).imp
    intro i j hne
    exact beq_eq_false_iff_ne.mpr hne

/-- The rules of one document come from its named rules. -/
theorem document_named {raw : Option RawSessionConfig} (h : SessionConfig.fromToml x raw = .ok c) :
    ∀ rule ∈ c.rules, ∃ entry, NamedRuleOk x entry rule := by
  obtain ⟨document, -, hd⟩ := from_toml_ok.mp h
  obtain ⟨named, -, hr⟩ := hd.rules
  obtain ⟨hall, -, -⟩ := validate_named_rules_ok.mp hr
  intro rule hm
  obtain ⟨entry, -, he⟩ := forall₂_right hall hm
  exact ⟨entry, he⟩

/-- The settings of a document besides its rules. -/
structure ValidSettings (c : SessionConfig) : Prop where
  overrides : ∀ id mode, c.credentialModes.get id = some mode → SecretId id
  socketName : ∀ name, c.socketName = some name →
    ∀ part ∈ name.splitOn '/', part ≠ [] ∧ part ≠ ['.'] ∧ part ≠ ['.', '.']

theorem document_settings {raw : Option RawSessionConfig}
    (h : SessionConfig.fromToml x raw = .ok c) : ValidSettings c := by
  obtain ⟨document, -, hd⟩ := from_toml_ok.mp h
  refine ⟨fun id mode hget => ?_, fun name hname => ?_⟩
  · exact secret_id ((validate_credentials_ok.mp hd.credentials).2.2 id mode hget)
  · rcases transpose_ok.mp hd.socketName with ⟨-, hnone⟩ | ⟨input, result, -, hs, he⟩
    · rw [hname] at hnone
      cases hnone
    · obtain ⟨rfl, hparts⟩ := validate_socket_name_ok hs
      rw [hname, Option.some.injEq] at he
      rw [he]
      exact hparts

theorem loaded_document {store : SessionConfigStore} {name : Text} {file : LoadedFile}
    (h : loadFile x store name = .ok file) :
    ∃ raw, SessionConfig.fromToml x raw = .ok file.policy := by
  simp only [loadFile, bind_ok, pure_ok] at h
  obtain ⟨document, -, entries, -, imports, -, policy, hp, rfl⟩ := h
  exact ⟨document.decode, map_error_ok.mp hp⟩

/-- Composition adds no rule of its own. -/
theorem accepted_named (h : Accepted x c) : ∀ rule ∈ c.rules, ∃ entry, NamedRuleOk x entry rule := by
  rcases h with ⟨raw, h⟩ | ⟨store, root, h⟩
  · exact document_named h
  · intro rule hm
    obtain ⟨order, -, -, -, hrules⟩ := ((read_session_composes x store root).2 c h).rules
    rw [hrules, List.mem_flatMap] at hm
    obtain ⟨name, -, hm⟩ := hm
    cases hf : loadFile x store name with
    | error e =>
      rw [rulesOf, hf] at hm
      cases hm
    | ok file =>
      rw [rulesOf, hf] at hm
      obtain ⟨raw, hraw⟩ := loaded_document hf
      exact document_named hraw rule hm

theorem accepted_settings (h : Accepted x c) : ValidSettings c := by
  rcases h with ⟨raw, h⟩ | ⟨store, root, h⟩
  · exact document_settings h
  · have hc := (read_session_composes x store root).2 c h
    refine ⟨fun id mode hget => ?_, fun name hname => ?_⟩
    · obtain ⟨name, file, hp, hm⟩ := (hc.credentialModes id mode).mp hget
      obtain ⟨raw, hraw⟩ := loaded_document hp.2
      exact (document_settings hraw).overrides id mode hm
    · obtain ⟨top, hf, -, hsocket, -⟩ := hc.settings
      obtain ⟨raw, hraw⟩ := loaded_document hf
      exact (document_settings hraw).socketName name (hsocket.symm.trans hname)

/-- Every accepted configuration is well formed, whether it is one document or
composed of several files. -/
theorem accepted_well_formed (x : Crates) (law : x.HostParseLaw) (c : SessionConfig)
    (h : Accepted x c) : WellFormed x c where
  hosts := (accepted_rules h).hosts
  rules := by
    intro rule hm
    obtain ⟨entry, he⟩ := accepted_named h rule hm
    exact he.wellFormed law
  overrides := (accepted_settings h).overrides
  socketName := (accepted_settings h).socketName

theorem accepted_well_formed_sample : WellFormed sampleCrates sampleSession :=
  accepted_well_formed sampleCrates sample_host_parse sampleSession sample_accepted

end Baffle.Proofs
