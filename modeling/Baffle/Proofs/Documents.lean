import Baffle.FileConfig

namespace Baffle.Proofs

variable {context : String} {index : Nat}

theorem validate_ports_ok {seen ports : List UInt16} {u : Unit} :
    validatePorts context seen ports = .ok u ↔
      ports.Nodup ∧ ∀ port ∈ ports, port ≠ 0 ∧ port ∉ seen := by
  induction ports generalizing seen with
  | nil => simp [validatePorts]
  | cons port ports ih =>
    simp only [validatePorts, bind_ok, refuse_ok, ih, exists_const, List.contains_eq_mem,
      decide_eq_false_iff_not, beq_eq_false_iff_ne]
    rw [List.nodup_cons, List.forall_mem_cons]
    constructor
    · rintro ⟨hz, hs, hn, hrest⟩
      refine ⟨⟨fun hm => ?_, hn⟩, ⟨hz, hs⟩, fun p hp => ⟨(hrest p hp).1, fun hm => ?_⟩⟩
      · exact (hrest port hm).2 (by simp)
      · exact (hrest p hp).2 (List.mem_cons_of_mem _ hm)
    · rintro ⟨⟨hm, hn⟩, ⟨hz, hs⟩, hrest⟩
      refine ⟨hz, hs, hn, fun p hp => ⟨(hrest p hp).1, fun hmem => ?_⟩⟩
      rcases List.mem_cons.mp hmem with rfl | hmem
      · exact hm hp
      · exact (hrest p hp).2 hmem

/-- The second pattern is taken beside the first. -/
def Apart (p q : Text) : Prop := pathsOverlap p q = false

theorem validate_paths_ok {paths raw result : List Text} :
    validatePaths context index paths raw = .ok result ↔
      ∃ ps, List.Forall₂ (fun r p => validatePath r = .ok p) raw ps ∧ result = paths ++ ps ∧
        ps.Pairwise Apart ∧ ∀ q ∈ paths, ∀ p ∈ ps, Apart q p := by
  induction raw generalizing index paths with
  | nil =>
    simp only [validatePaths, pure_ok, List.forall₂_nil_left_iff, exists_eq_left]
    simp [eq_comm]
  | cons r raw ih =>
    simp only [validatePaths, bind_ok, map_error_ok, refuse_ok, exists_const, ih,
      List.any_eq_false, Bool.not_eq_true]
    constructor
    · rintro ⟨p, hp, hapart, ps, hps, rfl, hpair, hcross⟩
      refine ⟨p :: ps, .cons hp hps, by simp, ?_, ?_⟩
      · exact List.pairwise_cons.mpr ⟨fun q hq => hcross p (by simp) q hq, hpair⟩
      · intro q hq b hb
        rcases List.mem_cons.mp hb with rfl | hb
        · exact hapart q hq
        · exact hcross q (List.mem_append_left _ hq) b hb
    · rintro ⟨all, hall, rfl, hpair, hcross⟩
      cases hall with
      | cons hp hps =>
        rename_i p ps
        obtain ⟨hfirst, hrest⟩ := List.pairwise_cons.mp hpair
        refine ⟨p, hp, fun q hq => hcross q hq p (by simp), ps, hps, by simp, hrest, ?_⟩
        intro q hq b hb
        rcases List.mem_append.mp hq with hq | hq
        · exact hcross q hq b (List.mem_cons_of_mem _ hb)
        · rw [List.mem_singleton.mp hq]
          exact hfirst b hb

theorem validate_header_ok {header result : Text} : validateHeader header = .ok result ↔
    result = header ∧ header ≠ [] ∧ header.all isTokenCharacter = true ∧
      header.toAsciiLowercase ∉ prohibitedHeaders := by
  simp only [validateHeader, bind_ok, refuse_ok, pure_ok, exists_const, Bool.or_eq_false_iff,
    List.isEmpty_eq_false_iff, Bool.not_eq_false', List.contains_eq_mem, decide_eq_false_iff_not]
  constructor
  · rintro ⟨⟨hne, htoken⟩, hp, rfl⟩
    exact ⟨rfl, hne, htoken, hp⟩
  · rintro ⟨rfl, hne, htoken, hp⟩
    exact ⟨⟨hne, htoken⟩, hp, rfl⟩

theorem validate_username_ok {format : InjectionFormat} {username : Option Text} {u : Unit} :
    validateUsername context format username = .ok u ↔
      (format = .basicPassword ∧ ∃ name, username = some name ∧
        validateBasicUsername name = .ok ()) ∨
      (format ≠ .basicPassword ∧ username = none) := by
  cases username with
  | none => cases format <;> simp [validateUsername]
  | some name => cases format <;> simp [validateUsername]

/-- What is checked about an injection by itself. -/
structure ValidInjection (injection : HeaderInjection) : Prop where
  header : validateHeader injection.header = .ok injection.header
  secret : validateSecretId injection.secret = .ok ()
  username : (injection.format = .basicPassword ∧ ∃ name, injection.username = some name ∧
      validateBasicUsername name = .ok ()) ∨
    (injection.format ≠ .basicPassword ∧ injection.username = none)

def headerKey (injection : HeaderInjection) : Text := injection.header.toAsciiLowercase

theorem validate_injections_ok {seen : List Text} {raw result : List HeaderInjection} :
    validateInjections context index seen raw = .ok result ↔
      result = raw ∧ (∀ i ∈ raw, ValidInjection i) ∧ (raw.map headerKey).Nodup ∧
        ∀ i ∈ raw, headerKey i ∉ seen := by
  induction raw generalizing index seen result with
  | nil =>
    simp only [validateInjections, pure_ok]
    simp [eq_comm]
  | cons injection raw ih =>
    simp only [validateInjections, bind_ok, refuse_ok, map_error_ok, pure_ok, exists_const, ih,
      validate_username_ok, List.contains_eq_mem, decide_eq_false_iff_not]
    constructor
    · rintro ⟨header, hh, hseen, u, hsecret, huser, tail, ⟨rfl, hall, hn, hs⟩, rfl⟩
      obtain rfl := (validate_header_ok.mp hh).1
      refine ⟨rfl, ?_, ?_, ?_⟩
      · exact List.forall_mem_cons.mpr ⟨⟨hh, hsecret, huser⟩, hall⟩
      · rw [List.map_cons, List.nodup_cons]
        refine ⟨fun hm => ?_, hn⟩
        obtain ⟨i, hi, he⟩ := List.mem_map.mp hm
        have hnot := hs i hi
        rw [he] at hnot
        exact hnot (by simp [headerKey])
      · refine List.forall_mem_cons.mpr ⟨hseen, fun i hi hm => ?_⟩
        exact hs i hi (List.mem_cons_of_mem _ hm)
    · rintro ⟨rfl, hall, hn, hs⟩
      obtain ⟨hfirst, hrest⟩ := List.forall_mem_cons.mp hall
      obtain ⟨hnew, hn⟩ := List.nodup_cons.mp (List.map_cons ▸ hn)
      refine ⟨injection.header, hfirst.header, hs injection (by simp), (), hfirst.secret,
        hfirst.username, raw, ⟨rfl, hrest, hn, ?_⟩, rfl⟩
      intro i hi hm
      rcases List.mem_cons.mp hm with he | hm
      · exact hnew (List.mem_map.mpr ⟨i, hi, he⟩)
      · exact hs i (List.mem_cons_of_mem _ hi) hm

/-- What is checked about a rule besides its host and its path patterns. -/
structure ValidParts (rule : HostRule) (features : Bool) : Prop where
  ports : rule.ports ≠ [] ∧ rule.ports.Nodup ∧ 0 ∉ rule.ports
  plain : rule.mode = .tunnel → features = false
  injections : ∀ i ∈ rule.inject, ValidInjection i
  headers : (rule.inject.map headerKey).Nodup

theorem validate_rule_ok {rule result : HostRule} {features : Bool} :
    validateRule rule context features = .ok result ↔
      ValidParts rule features ∧ ∃ paths, result = { rule with paths } ∧ paths.Pairwise Apart ∧
        List.Forall₂ (fun r p => validatePath r = .ok p) rule.paths paths := by
  simp only [validateRule, bind_ok, refuse_ok, pure_ok, exists_const, validate_ports_ok,
    validate_paths_ok, validate_injections_ok]
  constructor
  · rintro ⟨hne, ⟨hn, hz⟩, htunnel, paths, ⟨ps, hps, rfl, hpair, -⟩, inject,
      ⟨rfl, hall, hkeys, -⟩, rfl⟩
    refine ⟨⟨⟨?_, hn, fun hm => (hz 0 hm).1 rfl⟩, ?_, hall, hkeys⟩, paths, rfl, hpair, hps⟩
    · simpa using hne
    · intro hm
      simpa [hm] using htunnel
  · rintro ⟨⟨⟨hne, hn, hz⟩, hplain, hall, hkeys⟩, paths, rfl, hpair, hps⟩
    refine ⟨by simpa using hne, ⟨hn, ?_⟩, ?_, paths, ⟨paths, hps, rfl, hpair, by simp⟩,
      rule.inject, ⟨rfl, hall, hkeys, by simp⟩, rfl⟩
    · intro port hm
      refine ⟨?_, List.not_mem_nil⟩
      rintro rfl
      exact hz hm
    · cases hmode : rule.mode with
      | tunnel => simpa using hplain hmode
      | intercept => rfl

/-- The rule that a named rule stands for before its path patterns are validated. -/
def namedRule (host : Text) (raw : RawNamedRule) : HostRule where
  host
  mode := raw.mode.getD (if raw.paths.isSome || raw.inject.isSome then .intercept else .tunnel)
  ports := raw.ports
  paths := raw.paths.getD []
  inject := (raw.inject.getD []).map (fun raw =>
    { header := raw.header, secret := raw.secret, format := raw.format, username := raw.username })

/-- A named rule is accepted as `rule`. -/
structure NamedRuleOk (x : Crates) (entry : Text × RawNamedRule) (rule : HostRule) : Prop where
  host : normalizeDnsName x entry.1 = .ok rule.host
  parts : ValidParts (namedRule rule.host entry.2)
    (entry.2.paths.isSome || entry.2.inject.isSome)
  result : rule = { namedRule rule.host entry.2 with paths := rule.paths }
  apart : rule.paths.Pairwise Apart
  paths : List.Forall₂ (fun r p => validatePath r = .ok p) (entry.2.paths.getD []) rule.paths

theorem validate_named_rules_ok {x : Crates} {seen : List Text}
    {raw : List (Text × RawNamedRule)} {rules : List HostRule} :
    validateNamedRules x index seen raw = .ok rules ↔
      List.Forall₂ (NamedRuleOk x) raw rules ∧ (rules.map HostRule.host).Nodup ∧
        ∀ rule ∈ rules, rule.host ∉ seen := by
  induction raw generalizing index seen rules with
  | nil =>
    simp only [validateNamedRules, pure_ok, List.forall₂_nil_left_iff]
    constructor
    · rintro rfl
      simp
    · rintro ⟨rfl, -⟩
      rfl
  | cons entry raw ih =>
    obtain ⟨rawHost, r⟩ := entry
    simp only [validateNamedRules, bind_ok, refuse_ok, map_error_ok, pure_ok, exists_const, ih,
      validate_rule_ok, List.contains_eq_mem, decide_eq_false_iff_not]
    constructor
    · rintro ⟨host, hh, hseen, rule, ⟨hparts, paths, rfl, hpair, hps⟩, tail,
        ⟨hrest, hn, hs⟩, rfl⟩
      refine ⟨.cons ⟨hh, hparts, rfl, hpair, hps⟩ hrest, ?_, ?_⟩
      · rw [List.map_cons, List.nodup_cons]
        refine ⟨fun hm => ?_, hn⟩
        obtain ⟨other, ho, he⟩ := List.mem_map.mp hm
        have hnot := hs other ho
        rw [he] at hnot
        exact hnot (by simp)
      · refine List.forall_mem_cons.mpr ⟨hseen, fun other ho hm => ?_⟩
        exact hs other ho (List.mem_cons_of_mem _ hm)
    · rintro ⟨hall, hn, hs⟩
      cases hall with
      | cons hfirst hrest =>
        rename_i rule tail
        obtain ⟨hnew, hn⟩ := List.nodup_cons.mp (List.map_cons ▸ hn)
        refine ⟨rule.host, hfirst.host, hs rule (by simp), rule,
          ⟨hfirst.parts, rule.paths, hfirst.result, hfirst.apart, hfirst.paths⟩, tail,
          ⟨hrest, hn, ?_⟩, rfl⟩
        intro other ho hm
        rcases List.mem_cons.mp hm with he | hm
        · exact hnew (List.mem_map.mpr ⟨other, ho, he⟩)
        · exact hs other (List.mem_cons_of_mem _ ho) hm

/-- What later stages rely on about one rule of an accepted configuration. -/
structure ValidRule (x : Crates) (rule : HostRule) : Prop where
  host : ∃ raw, normalizeDnsName x raw = .ok rule.host
  tunnel_plain : rule.mode = .tunnel → rule.paths = [] ∧ rule.inject = []
  headers : (rule.inject.map (fun i => i.header.toAsciiLowercase)).Nodup

structure ValidRules (x : Crates) (rules : List HostRule) : Prop where
  hosts : (rules.map HostRule.host).Nodup
  each : ∀ rule ∈ rules, ValidRule x rule

theorem NamedRuleOk.valid {x : Crates} {entry : Text × RawNamedRule} {rule : HostRule}
    (h : NamedRuleOk x entry rule) : ValidRule x rule where
  host := ⟨entry.1, h.host⟩
  tunnel_plain := by
    intro hm
    rw [h.result] at hm ⊢
    have hf := h.parts.plain hm
    simp only [Bool.or_eq_false_iff, Option.isSome_eq_false_iff, Option.isNone_iff_eq_none] at hf
    have hpaths := h.paths
    rw [hf.1, Option.getD_none, List.forall₂_nil_left_iff] at hpaths
    exact ⟨hpaths, by simp [namedRule, hf.2]⟩
  headers := by
    rw [h.result]
    exact h.parts.headers

theorem forall₂_right {α β : Type} {R : α → β → Prop} {as : List α} {bs : List β}
    (h : List.Forall₂ R as bs) {b : β} (hb : b ∈ bs) : ∃ a ∈ as, R a b := by
  induction h with
  | nil => cases hb
  | cons hr hrest ih =>
    rcases List.mem_cons.mp hb with rfl | hb
    · exact ⟨_, List.mem_cons_self, hr⟩
    · obtain ⟨a, ha, hab⟩ := ih hb
      exact ⟨a, List.mem_cons_of_mem _ ha, hab⟩

theorem validate_overrides_ok {modes result : SortedMap Text CredentialMode}
    {entries : List (Text × CredentialMode)} (hn : (entries.map Prod.fst).Nodup) :
    validateOverrides modes entries = .ok result ↔
      (∀ e ∈ entries, validateSecretId e.1 = .ok () ∧ modes.get e.1 = none) ∧
        ∀ id mode, result.get id = some mode ↔ modes.get id = some mode ∨ (id, mode) ∈ entries := by
  induction entries generalizing modes with
  | nil =>
    simp only [validateOverrides, pure_ok, List.not_mem_nil, false_implies, implies_true, or_false,
      true_and]
    constructor
    · rintro rfl
      exact fun _ _ => Iff.rfl
    · intro h
      apply SortedMap.ext_get
      intro id
      exact Option.ext (fun mode => (h id mode).symm)
  | cons e entries ih =>
    obtain ⟨name, mode⟩ := e
    obtain ⟨hnew, hn⟩ := List.nodup_cons.mp (List.map_cons ▸ hn)
    have hother : ∀ e ∈ entries, e.1 ≠ name := by
      rintro e he rfl
      exact hnew (List.mem_map.mpr ⟨e, he, rfl⟩)
    have hget : ∀ id m, (modes.insert name mode).get id = some m ∨ (id, m) ∈ entries ↔
        (id ≠ name ∧ modes.get id = some m) ∨ (id, m) ∈ (name, mode) :: entries := by
      intro id m
      by_cases hid : id = name
      · subst hid
        rw [SortedMap.get_insert_self]
        simp [eq_comm]
      · rw [SortedMap.get_insert_ne _ hid]
        simp [hid]
    simp only [validateOverrides, bind_ok, map_error_ok, refuse_ok, exists_const, ih hn,
      SortedMap.contains, Option.isSome_eq_false_iff, Option.isNone_iff_eq_none, hget]
    rw [List.forall_mem_cons]
    constructor
    · rintro ⟨u, hid, hnone, hall, hres⟩
      refine ⟨⟨⟨hid, hnone⟩, fun e he => ⟨(hall e he).1, ?_⟩⟩, fun id m => ?_⟩
      · have hnext := (hall e he).2
        rwa [SortedMap.get_insert_ne _ (hother e he)] at hnext
      · rw [hres]
        constructor
        · exact Or.imp_left And.right
        · rintro (h | h)
          · refine Or.inl ⟨?_, h⟩
            rintro rfl
            rw [hnone] at h
            cases h
          · exact Or.inr h
    · rintro ⟨⟨⟨hid, hnone⟩, hall⟩, hres⟩
      refine ⟨(), hid, hnone, fun e he => ⟨(hall e he).1, ?_⟩, fun id m => ?_⟩
      · rw [SortedMap.get_insert_ne _ (hother e he)]
        exact (hall e he).2
      · rw [hres]
        constructor
        · rintro (h | h)
          · refine Or.inl ⟨?_, h⟩
            rintro rfl
            rw [hnone] at h
            cases h
          · exact Or.inr h
        · exact Or.imp_left And.right

theorem validate_credentials_ok {raw : Option RawCredentials} {default : Option CredentialMode}
    {modes : SortedMap Text CredentialMode} :
    validateCredentials raw = .ok (default, modes) ↔
      default = raw.bind RawCredentials.defaultMode ∧
        modes = (raw.map RawCredentials.overrides).getD ∅ ∧
        ∀ id mode, modes.get id = some mode → validateSecretId id = .ok () := by
  cases raw with
  | none =>
    simp only [validateCredentials, pure_ok, Prod.mk.injEq, Option.bind_none, Option.map_none,
      Option.getD_none]
    constructor
    · rintro ⟨rfl, rfl⟩
      exact ⟨rfl, rfl, by simp⟩
    · rintro ⟨rfl, rfl, -⟩
      exact ⟨rfl, rfl⟩
  | some raw =>
    simp only [validateCredentials, bind_ok, pure_ok, Prod.mk.injEq, Option.bind_some,
      Option.map_some, Option.getD_some, validate_overrides_ok raw.overrides.keys_nodup,
      SortedMap.get_empty, reduceCtorEq, false_or, and_true, ← SortedMap.get_eq_some]
    constructor
    · rintro ⟨result, ⟨hall, hres⟩, rfl, rfl⟩
      have he : result = raw.overrides := by
        apply SortedMap.ext_get
        intro id
        exact Option.ext (fun mode => hres id mode)
      subst he
      refine ⟨rfl, rfl, fun id mode h => ?_⟩
      exact hall (id, mode) (SortedMap.get_eq_some.mp h)
    · rintro ⟨rfl, rfl, hall⟩
      refine ⟨raw.overrides, ⟨fun e he => ?_, fun _ _ => Iff.rfl⟩, rfl, rfl⟩
      exact hall e.1 e.2 (SortedMap.get_eq_some.mpr he)

theorem validate_socket_name_ok {name result : Text} (h : validateSocketName name = .ok result) :
    result = name ∧ ∀ part ∈ name.splitOn '/', part ≠ [] ∧ part ≠ ['.'] ∧ part ≠ ['.', '.'] := by
  simp only [validateSocketName, bind_ok, refuse_ok, pure_ok, exists_const, List.any_eq_false,
    Bool.or_eq_true, not_or, List.isEmpty_iff, beq_iff_eq] at h
  obtain ⟨-, hparts, -, rfl⟩ := h
  exact ⟨rfl, fun part hp => ⟨(hparts part hp).1.1, (hparts part hp).1.2, (hparts part hp).2⟩⟩

/-- The parts of an accepted document. -/
structure DocumentOk (x : Crates) (raw : RawSessionConfig) (c : SessionConfig) : Prop where
  version : raw.version = some sessionConfigVersion
  fields : raw.unsupportedFields = []
  unmatched : validateUnmatched raw.unmatched = .ok c.unmatched
  rules : ∃ named, namedRules raw.rules = .ok named ∧
    validateNamedRules x 0 [] named.entries = .ok c.rules
  socketName : transpose validateSocketName raw.socketName = .ok c.socketName
  credentials : validateCredentials raw.credentials =
    .ok (c.defaultCredentialMode, c.credentialModes)
  persistent : c.persistent = raw.persistent

theorem validate_version_ok {version : Option Int} {u : Unit} :
    validateVersion version = .ok u ↔ version = some sessionConfigVersion := by
  cases version with
  | none => simp [validateVersion]
  | some v =>
    rw [validateVersion, Option.some.injEq]
    split
    · rename_i hv
      simp [hv]
    · rename_i hv
      simp [hv]

theorem validate_document_ok {x : Crates} {raw : RawSessionConfig} {c : SessionConfig} :
    validateSessionDocument x raw = .ok c ↔ DocumentOk x raw c := by
  simp only [validateSessionDocument, bind_ok, refuse_ok, pure_ok, exists_const,
    validate_version_ok]
  constructor
  · rintro ⟨hv, hf, unmatched, hu, named, hn, rules, hr, socket, hs, ⟨mode, modes⟩, hc, rfl⟩
    exact ⟨hv, by simpa using hf, hu, ⟨named, hn, hr⟩, hs, hc, rfl⟩
  · rintro ⟨hv, hf, hu, ⟨named, hn, hr⟩, hs, hc, hp⟩
    refine ⟨hv, by simpa using hf, c.unmatched, hu, named, hn, c.rules, hr, c.socketName, hs,
      (c.defaultCredentialMode, c.credentialModes), hc, ?_⟩
    rw [← hp]

theorem from_toml_ok {x : Crates} {raw : Option RawSessionConfig} {c : SessionConfig} :
    SessionConfig.fromToml x raw = .ok c ↔ ∃ document, raw = some document ∧
      DocumentOk x document c := by
  cases raw with
  | none => simp [SessionConfig.fromToml]
  | some document => simp [SessionConfig.fromToml, validate_document_ok]

theorem from_toml_rules {x : Crates} {raw : Option RawSessionConfig} {c : SessionConfig}
    (h : SessionConfig.fromToml x raw = .ok c) : ValidRules x c.rules := by
  obtain ⟨document, -, hd⟩ := from_toml_ok.mp h
  obtain ⟨named, -, hr⟩ := hd.rules
  obtain ⟨hall, hn, -⟩ := validate_named_rules_ok.mp hr
  refine ⟨hn, fun rule hm => ?_⟩
  obtain ⟨entry, -, he⟩ := forall₂_right hall hm
  exact he.valid

end Baffle.Proofs
