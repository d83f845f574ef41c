import Baffle.Lib.Canonical
import Baffle.Client
import Baffle.Proofs.WellFormed

namespace Baffle.Proofs

variable {x : Crates} {c : SessionConfig}

theorem insert_rules_ok {rules : List HostRule} {acc : SortedMap Text NamedHostRule}
    (hn : (rules.map HostRule.host).Nodup) (hacc : ∀ rule ∈ rules, acc.get rule.host = none) :
    insertRules acc rules = .ok (rules.foldl
      (fun acc rule => acc.insert rule.host (namedHostRule rule)) acc) := by
  induction rules generalizing acc with
  | nil => rfl
  | cons rule rules ih =>
    obtain ⟨hnew, hn⟩ := List.nodup_cons.mp (List.map_cons ▸ hn)
    have hnone : acc.contains rule.host = false := by
      rw [SortedMap.contains, hacc rule (by simp)]
      rfl
    rw [insertRules, hnone, refuse_false_bind, List.foldl_cons]
    apply ih hn
    intro other ho
    rw [SortedMap.get_insert_ne]
    · exact hacc other (List.mem_cons_of_mem _ ho)
    · intro he
      exact hnew (List.mem_map.mpr ⟨other, ho, he⟩)

/-- The rules in the order of the wire. -/
def sortedByHost (rules : List HostRule) : List HostRule :=
  rules.mergeSort (fun a b => decide (a.host ≤ b.host))

theorem sorted_hosts {rules : List HostRule} (hn : (rules.map HostRule.host).Nodup) :
    (sortedByHost rules).Pairwise (fun a b => a.host < b.host) := by
  have hle : (sortedByHost rules).Pairwise (fun a b => a.host ≤ b.host) :=
    Canonical.sort_by_sorted HostRule.host rules
  have hne : (sortedByHost rules).Pairwise (fun a b => a.host ≠ b.host) := by
    apply List.pairwise_map.mp
    exact ((List.mergeSort_perm _ _).map _).nodup_iff.mpr hn
  apply (hle.and hne).imp
  intro a b hab
  exact lt_of_le_of_ne hab.1 hab.2

theorem insert_rules_entries {rules : List HostRule} (hn : (rules.map HostRule.host).Nodup) :
    ∃ wire, insertRules ∅ rules = .ok wire ∧
      wire.entries = (sortedByHost rules).map (fun rule => (rule.host, namedHostRule rule)) := by
  refine ⟨_, insert_rules_ok hn (fun _ _ => rfl), ?_⟩
  have hsorted : ((sortedByHost rules).map (fun rule => (rule.host, namedHostRule rule))).Pairwise
      (fun a b => a.1 < b.1) := List.pairwise_map.mpr (sorted_hosts hn)
  suffices h : rules.foldl (fun acc rule => acc.insert rule.host (namedHostRule rule)) ∅ =
      (⟨_, hsorted⟩ : SortedMap Text NamedHostRule) from congrArg SortedMap.entries h
  apply SortedMap.ext_get
  intro host
  ext named
  rw [SortedMap.get_foldl_insert HostRule.host namedHostRule hn (by simp), SortedMap.get_empty]
  simp only [SortedMap.get_eq_some, List.mem_map, Prod.mk.injEq, reduceCtorEq, false_or,
    sortedByHost, List.mem_mergeSort]

theorem injections_read (inject : List HeaderInjection) :
    (((unlessEmpty inject).map (List.map HeaderInjection.written)).getD []).map (fun raw =>
      ({ header := raw.header, secret := raw.secret, format := raw.format,
         username := raw.username } : HeaderInjection)) = inject := by
  cases inject with
  | nil => rfl
  | cons i inject =>
    simp only [unlessEmpty, List.isEmpty_cons, Bool.false_eq_true, ↓reduceIte, Option.map_some,
      Option.getD_some, List.map_map]
    exact List.map_id (i :: inject)

theorem paths_read (paths : List Text) : (unlessEmpty paths).getD [] = paths := by
  cases paths with
  | nil => rfl
  | cons p paths => rfl

/-- A rule of an accepted configuration is read as itself: its mode is written
out, so that nothing is inferred from the arrays that are left out. -/
theorem rule_read (law : x.HostParseLaw) {entry : Text × RawNamedRule} {rule : HostRule}
    (h : NamedRuleOk x entry rule) :
    NamedRuleOk x (rule.host, (namedHostRule rule).written) rule := by
  have hw := h.wellFormed law
  have hnamed : namedRule rule.host (namedHostRule rule).written = rule := by
    simp only [namedRule, NamedHostRule.written, namedHostRule, Option.getD_some, paths_read,
      injections_read]
  refine ⟨hw.host, ?_, ?_, h.apart, ?_⟩
  · rw [hnamed]
    refine ⟨hw.ports, fun hm => ?_, ?_, h.valid.headers⟩
    · obtain ⟨hpaths, hinject⟩ := h.valid.tunnel_plain hm
      simp only [NamedHostRule.written, namedHostRule, hpaths, hinject]
      rfl
    · rw [h.result]
      exact h.parts.injections
  · rw [hnamed]
  · show List.Forall₂ _ ((unlessEmpty rule.paths).getD []) rule.paths
    rw [paths_read]
    exact List.forall₂_same.mpr hw.paths

theorem unmatched_read (unmatched : UnmatchedHostPolicy) :
    validateUnmatched (if unmatched = .deny then none else some unmatched.text) = .ok unmatched := by
  cases unmatched <;> rfl

theorem overrides_read (modes : SortedMap Text CredentialMode) :
    (modes.mapValues CredentialModeOverrideWire.mk).mapValues CredentialModeOverrideWire.mode =
      modes := by
  apply SortedMap.ext_get
  intro k
  rw [SortedMap.get_map_values, SortedMap.get_map_values]
  cases modes.get k <;> rfl

theorem credentials_read {raw : Option RawCredentials}
    (h : validateCredentials raw = .ok (c.defaultCredentialMode, c.credentialModes)) :
    validateCredentials ((credentialConfigWire c).map CredentialConfigWire.written) =
      .ok (c.defaultCredentialMode, c.credentialModes) := by
  have hids := (validate_credentials_ok.mp h).2.2
  apply validate_credentials_ok.mpr
  unfold credentialConfigWire
  split
  · refine ⟨rfl, ?_, hids⟩
    exact (overrides_read c.credentialModes).symm
  · rename_i hnone
    simp only [Bool.or_eq_true, bne_iff_ne, ne_eq, not_or, Bool.not_eq_true,
      Option.isSome_eq_false_iff, Option.isNone_iff_eq_none, not_not] at hnone
    refine ⟨hnone.1, ?_, hids⟩
    apply SortedMap.ext
    exact List.eq_nil_of_length_eq_zero hnone.2

theorem socket_name_read {raw : Option Text}
    (h : transpose validateSocketName raw = .ok c.socketName) :
    transpose validateSocketName c.socketName = .ok c.socketName := by
  rcases transpose_ok.mp h with ⟨-, hnone⟩ | ⟨name, result, -, hname, hsome⟩
  · rw [hnone]
    rfl
  · obtain rfl := (validate_socket_name_ok hname).1
    rw [hsome, transpose, hname]
    rfl

/-- The rules of the request, in the order in which the server validates them. -/
theorem rules_read (law : x.HostParseLaw) {named : SortedMap Text RawNamedRule}
    (h : validateNamedRules x 0 [] named.entries = .ok c.rules) {wire : SortedMap Text NamedHostRule}
    (hwire : wire.entries = (sortedByHost c.rules).map (fun rule => (rule.host, namedHostRule rule))) :
    validateNamedRules x 0 [] (wire.mapValues NamedHostRule.written).entries =
      .ok (sortedByHost c.rules) := by
  obtain ⟨hall, hn, -⟩ := validate_named_rules_ok.mp h
  apply validate_named_rules_ok.mpr
  refine ⟨?_, ((List.mergeSort_perm _ _).map _).nodup_iff.mpr hn, by simp⟩
  show List.Forall₂ _ (wire.entries.map _) _
  rw [hwire, List.map_map, List.forall₂_map_left_iff]
  apply List.forall₂_same.mpr
  intro rule hm
  obtain ⟨entry, -, he⟩ := forall₂_right hall (List.mem_mergeSort.mp hm)
  exact rule_read law he

theorem document_read (law : x.HostParseLaw) {document : RawSessionConfig}
    (h : DocumentOk x document c) {wire : SortedMap Text NamedHostRule}
    (hwire : wire.entries = (sortedByHost c.rules).map (fun rule => (rule.host, namedHostRule rule))) :
    DocumentOk x (sessionConfigWire c wire).written { c with rules := sortedByHost c.rules } where
  version := rfl
  fields := rfl
  unmatched := unmatched_read c.unmatched
  rules := by
    obtain ⟨named, -, hr⟩ := h.rules
    exact ⟨_, rfl, rules_read law hr hwire⟩
  socketName := socket_name_read h.socketName
  credentials := credentials_read h.credentials
  persistent := rfl

/-- The `create` request of an accepted configuration denotes that configuration,
with its rules in the order of their hosts. -/
theorem create_request_denotes (x : Crates) (law : x.HostParseLaw) (raw : Option RawSessionConfig)
    (c : SessionConfig) (h : SessionConfig.fromToml x raw = .ok c) :
    ∃ request, CreateRequest.new c = .ok request ∧
      request.read x = .ok (.create { c with rules := sortedByHost c.rules }) := by
  obtain ⟨document, -, hd⟩ := from_toml_ok.mp h
  obtain ⟨wire, hinsert, hentries⟩ := insert_rules_entries (from_toml_rules h).hosts
  have hread := validate_document_ok.mpr (document_read law hd hentries)
  refine ⟨⟨protocolVersion, "create", sessionConfigWire c wire⟩, ?_, ?_⟩
  · rw [CreateRequest.new, hinsert]
    rfl
  · simp only [CreateRequest.read, validateProtocolVersion, CreateRequest.written,
      ControlRequest.fromToml, SessionConfig.fromToml, hread]
    rfl

/-- Two rules, the first of which is only an empty array. -/
def emptyArrays : RawSessionConfig where
  version := some 2
  persistent := true
  socketName := none
  unmatched := none
  rules := some (.named (SortedMap.insert (SortedMap.insert ∅ "b.example.com".toList
      { mode := none, ports := defaultPorts, paths := some [], inject := none })
    "A.example.com".toList { mode := none, ports := [8443], paths := none, inject := none }))
  credentials := none
  unsupportedFields := []

theorem create_request_denotes_empty :
    ∃ c request, SessionConfig.fromToml sampleCrates (some emptyArrays) = .ok c ∧
      CreateRequest.new c = .ok request ∧
      request.read sampleCrates = .ok (.create { c with rules := sortedByHost c.rules }) ∧
      c.rules.map HostRule.mode = [.tunnel, .intercept] := by
  have hok : (SessionConfig.fromToml sampleCrates (some emptyArrays)).toOption.any
      (fun c => c.rules.map HostRule.mode == [.tunnel, .intercept]) = true := by decide +kernel
  obtain ⟨c, hc, hmodes⟩ := Option.any_eq_true _ _ |>.mp hok
  rw [to_option_some] at hc
  obtain ⟨request, hnew, hread⟩ :=
    create_request_denotes sampleCrates sample_host_parse (some emptyArrays) c hc
  exact ⟨c, request, hc, hnew, hread, beq_iff_eq.mp hmodes⟩

end Baffle.Proofs
