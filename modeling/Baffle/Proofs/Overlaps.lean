import Baffle.Proofs.WellFormed

namespace Baffle.Proofs

variable {p q raw : Text} {context : String} {index : Nat}

/-- Some request path is matched by both patterns. -/
def SharesPath (p q : Text) : Prop :=
  ∃ request c, canonicalizeRequestPath request = .ok c ∧ matchesPathPattern p c = true ∧
    matchesPathPattern q c = true

/-- The two kinds of patterns. -/
inductive Pattern : Text → Prop where
  | exact (p : Text) (hstar : '*' ∉ p) (hc : canonicalizePath p = .ok p) : Pattern p
  | recursive (dir : Text) (hc : canonicalizePath (dir ++ ['/']) = .ok (dir ++ ['/'])) :
      Pattern (dir ++ ['/', '*', '*'])

theorem validated_pattern (h : validatePath raw = .ok p) : Pattern p := by
  rcases validate_path_ok.mp h with ⟨stem, dir, -, rfl, hc⟩ | hc
  · exact .recursive dir (canonicalize_again hc)
  · exact .exact p (canonical_no_star hc).2 (canonicalize_again hc)

theorem parts_recursive (dir : Text) :
    pathPatternParts (dir ++ ['/', '*', '*']) = (dir ++ ['/'], true) := by
  have hstem : Text.stripSuffix ['*', '*'] (dir ++ ['/', '*', '*']) = some (dir ++ ['/']) :=
    Text.strip_suffix_extended ['*', '*'] dir ['/']
  rw [pathPatternParts, hstem]

theorem parts_exact (hp : '*' ∉ p) : pathPatternParts p = (p, false) := by
  have hnone : Text.stripSuffix ['*', '*'] p = none :=
    Text.strip_suffix_absent (List.mem_cons_self ..) hp
  rw [pathPatternParts, hnone]

theorem overlap_symm (p q : Text) : pathsOverlap p q = pathsOverlap q p := by
  unfold pathsOverlap
  cases pathPatternParts p with
  | mk a recursive =>
    cases pathPatternParts q with
    | mk b recursive' =>
      cases recursive with
      | false =>
        cases recursive' with
        | false => exact BEq.comm
        | true => rfl
      | true =>
        cases recursive' with
        | false => rfl
        | true => exact Bool.or_comm _ _

theorem SharesPath.symm (h : SharesPath p q) : SharesPath q p := by
  obtain ⟨request, c, hc, hp, hq⟩ := h
  exact ⟨request, c, hc, hq, hp⟩

theorem Pattern.self (hp : Pattern p) : SharesPath p p := by
  cases hp with
  | exact _ hstar hc =>
    have hm := (matches_exact (c := p) hstar).mpr rfl
    exact ⟨p, p, request_canonical hc, hm, hm⟩
  | recursive dir hc =>
    have hm := (matches_recursive (c := dir ++ ['/'])).mpr List.prefix_rfl
    exact ⟨_, _, request_canonical hc, hm, hm⟩

theorem recursive_exact {dir : Text} (hstar : '*' ∉ q) (hc : canonicalizePath q = .ok q) :
    pathsOverlap (dir ++ ['/', '*', '*']) q = true ↔ SharesPath (dir ++ ['/', '*', '*']) q := by
  rw [pathsOverlap, parts_recursive, parts_exact hstar]
  simp only [List.isPrefixOf_iff_prefix]
  constructor
  · intro hprefix
    exact ⟨q, q, request_canonical hc, matches_recursive.mpr hprefix, (matches_exact hstar).mpr rfl⟩
  · rintro ⟨request, c, -, hdir, hq⟩
    rw [(matches_exact hstar).mp hq]
    exact matches_recursive.mp hdir

/-- Patterns overlap exactly when a request path is matched by both. -/
theorem overlap_shares (hp : Pattern p) (hq : Pattern q) :
    pathsOverlap p q = true ↔ SharesPath p q := by
  cases hp with
  | exact _ hp hcp =>
    cases hq with
    | exact _ hq hcq =>
      rw [pathsOverlap, parts_exact hp, parts_exact hq]
      simp only [beq_iff_eq]
      constructor
      · rintro rfl
        exact Pattern.self (.exact p hp hcp)
      · rintro ⟨request, c, -, hpc, hqc⟩
        exact ((matches_exact hp).mp hpc).trans ((matches_exact hq).mp hqc).symm
    | recursive dir hc =>
      rw [overlap_symm, recursive_exact hp hcp]
      exact ⟨SharesPath.symm, SharesPath.symm⟩
  | recursive dir hc =>
    cases hq with
    | exact _ hq hcq => exact recursive_exact hq hcq
    | recursive dir' hc' =>
      rw [pathsOverlap, parts_recursive, parts_recursive]
      simp only [Bool.or_eq_true, List.isPrefixOf_iff_prefix]
      constructor
      · -- the longer directory is matched by both
        rintro (h | h)
        · exact ⟨_, _, request_canonical hc, matches_recursive.mpr List.prefix_rfl,
            matches_recursive.mpr h⟩
        · exact ⟨_, _, request_canonical hc', matches_recursive.mpr h,
            matches_recursive.mpr List.prefix_rfl⟩
      · rintro ⟨request, c, -, h, h'⟩
        have hdir := matches_recursive.mp h
        have hdir' := matches_recursive.mp h'
        exact (List.prefix_or_prefix_of_prefix hdir hdir').symm

theorem validated_patterns {raws ps : List Text}
    (h : List.Forall₂ (fun r p => validatePath r = .ok p) raws ps) : ∀ p ∈ ps, Pattern p := by
  intro p hp
  obtain ⟨raw, -, hraw⟩ := forall₂_right h hp
  exact validated_pattern hraw

/-- The order of the patterns of a rule does not matter. -/
theorem validate_paths_perm {raws raws' ps : List Text} (hperm : raws.Perm raws')
    (h : validatePaths context index [] raws = .ok ps) :
    ∃ ps', validatePaths context index [] raws' = .ok ps' ∧ ps.Perm ps' := by
  obtain ⟨qs, hall, hres, hpair, -⟩ := validate_paths_ok.mp h
  rw [List.nil_append] at hres
  subst hres
  obtain ⟨ps', hall', hps⟩ := List.perm_comp_forall₂ hperm.symm hall
  refine ⟨ps', validate_paths_ok.mpr ⟨ps', hall', rfl, ?_, by simp⟩, hps.symm⟩
  apply hps.symm.pairwise hpair
  intro p q hpq
  rwa [Apart, overlap_symm]

/-- The error of overlapping patterns. -/
def overlapError (context : String) : String :=
  s!"{context}.paths contains duplicate or overlapping patterns"

/-- Errors that go on differently after the context differ. -/
theorem context_inj {a b : String} (h : context ++ a = context ++ b) : a = b := by
  have hl := congrArg String.toList h
  rw [String.toList_append, String.toList_append] at hl
  exact String.toList_inj.mp (List.append_cancel_left hl)

theorem map_error_error {ε ε' α : Type} {m : Except ε α} {f : ε → ε'} {e : ε'} :
    m.mapError f = .error e ↔ ∃ e', m = .error e' ∧ f e' = e := by
  cases m with
  | error e' => simp [Except.mapError]
  | ok a => simp [Except.mapError]

/-- A pattern of the list overlaps one before it, and all before it are valid. -/
def OverlapsBefore (before raws : List Text) : Prop :=
  ∃ pre raw post ps p q, raws = pre ++ raw :: post ∧
    List.Forall₂ (fun r p => validatePath r = .ok p) pre ps ∧ validatePath raw = .ok p ∧
    q ∈ before ++ ps ∧ pathsOverlap q p = true

theorem invalid_path_error (message : String) :
    s!"{context}.paths[{index}] {message}" ≠ overlapError context := by
  intro h
  have hl := congrArg String.toList h
  simp only [overlapError, String.toList_append, List.append_assoc] at hl
  have hrest := List.append_cancel_left hl
  revert hrest
  simp [toString]

theorem validate_paths_overlap {before raws : List Text} :
    validatePaths context index before raws = .error (overlapError context) ↔
      OverlapsBefore before raws := by
  induction raws generalizing index before with
  | nil =>
    constructor
    · intro h
      cases h
    · rintro ⟨pre, raw, post, ps, p, q, hraws, -⟩
      exact absurd hraws (by simp)
  | cons r raws ih =>
    simp only [validatePaths, bind_error, refuse_error, map_error_error, map_error_ok, refuse_ok,
      exists_const, ih]
    constructor
    · rintro (⟨e, -, he⟩ | ⟨p, hp, ⟨hany, -⟩ | ⟨-, pre, raw, post, ps, p', q, rfl, hps, hraw, hq, ho⟩⟩)
      · exact absurd he (invalid_path_error e)
      · obtain ⟨q, hq, ho⟩ := List.any_eq_true.mp hany
        exact ⟨[], r, raws, [], p, q, rfl, .nil, hp, by simpa using hq, ho⟩
      · exact ⟨r :: pre, raw, post, p :: ps, p', q, rfl, .cons hp hps, hraw, by simpa using hq, ho⟩
    · rintro ⟨pre, raw, post, ps, p, q, hraws, hps, hraw, hq, ho⟩
      cases pre with
      | nil =>
        rw [List.nil_append, List.cons.injEq] at hraws
        obtain ⟨rfl, rfl⟩ := hraws
        cases hps
        rw [List.append_nil] at hq
        exact Or.inr ⟨p, hraw, Or.inl ⟨List.any_eq_true.mpr ⟨q, hq, ho⟩, rfl⟩⟩
      | cons a pre =>
        rw [List.cons_append, List.cons.injEq] at hraws
        obtain ⟨rfl, rfl⟩ := hraws
        cases hps with
        | cons hfirst hrest =>
          rename_i first rest
          refine Or.inr ⟨first, hfirst, ?_⟩
          cases hany : before.any (fun existing => pathsOverlap existing first) with
          | true => exact Or.inl ⟨rfl, rfl⟩
          | false =>
            exact Or.inr ⟨rfl, pre, raw, post, rest, p, q, rfl, hrest, hraw, by simpa using hq, ho⟩

/-- An error about the injections of a rule. -/
def InjectError (context e : String) : Prop := ∃ rest, e = context ++ (".inject[" ++ rest)

theorem inject_error (context : String) (index : Nat) (rest : String) :
    InjectError context (s!"{context}.inject[{index}]" ++ rest) := by
  refine ⟨toString index ++ "]" ++ rest, ?_⟩
  simp [String.append_assoc, toString]

theorem validate_username_error {format : InjectionFormat} {username : Option Text} {e : String}
    (h : validateUsername context format username = .error e) : ∃ rest, e = context ++ rest := by
  cases username with
  | none =>
    cases format with
    | basicPassword => exact ⟨_, (Except.error.inj h).symm⟩
    | _ => cases h
  | some name =>
    cases format with
    | basicPassword =>
      obtain ⟨message, -, rfl⟩ := map_error_error.mp h
      exact ⟨".username " ++ message, String.append_assoc⟩
    | _ => exact ⟨_, (Except.error.inj h).symm⟩

theorem validate_injections_error {seen : List Text} {raw : List HeaderInjection} {e : String}
    (h : validateInjections context index seen raw = .error e) : InjectError context e := by
  induction raw generalizing index seen with
  | nil => cases h
  | cons injection raw ih =>
    simp only [validateInjections, bind_error, refuse_error, map_error_error] at h
    rcases h with ⟨message, -, rfl⟩ | ⟨header, -, ⟨-, rfl⟩ | ⟨-, -, ⟨message, -, rfl⟩ |
      ⟨-, -, husername | ⟨-, -, hrest | ⟨tail, -, hpure⟩⟩⟩⟩⟩
    · rw [String.append_assoc]
      exact inject_error context index (".header " ++ message)
    · exact inject_error context index _
    · rw [String.append_assoc]
      exact inject_error context index (".secret " ++ message)
    · obtain ⟨rest, rfl⟩ := validate_username_error husername
      exact inject_error context index rest
    · exact ih hrest
    · cases hpure

theorem validate_ports_error {seen ports : List UInt16} :
    validatePorts context seen ports ≠ .error (overlapError context) := by
  induction ports generalizing seen with
  | nil =>
    intro h
    cases h
  | cons port ports ih =>
    intro h
    simp only [validatePorts, bind_error, refuse_error] at h
    rcases h with ⟨-, he⟩ | ⟨-, -, ⟨-, he⟩ | ⟨-, -, hrest⟩⟩
    · exact absurd (context_inj he) (by decide)
    · exact absurd (context_inj he) (by decide)
    · exact ih hrest

theorem validate_rule_overlap {rule : HostRule} {features : Bool} :
    validateRule rule context features = .error (overlapError context) ↔
      (rule.ports ≠ [] ∧ rule.ports.Nodup ∧ 0 ∉ rule.ports ∧
        (rule.mode = .tunnel → features = false)) ∧ OverlapsBefore [] rule.paths := by
  have hz : (∀ port ∈ rule.ports, port ≠ 0 ∧ port ∉ ([] : List UInt16)) ↔ 0 ∉ rule.ports := by
    constructor
    · exact fun h hm => (h 0 hm).1 rfl
    · rintro h port hm
      refine ⟨?_, List.not_mem_nil⟩
      rintro rfl
      exact h hm
  have htunnel : (rule.mode == .tunnel && features) = false ↔
      (rule.mode = .tunnel → features = false) := by
    cases rule.mode with
    | tunnel => simp
    | intercept => simp
  simp only [validateRule, bind_error, refuse_error, refuse_ok, validate_ports_ok, exists_const,
    validate_paths_overlap, hz, htunnel, List.isEmpty_eq_false_iff]
  constructor
  · rintro (⟨-, he⟩ | ⟨hne, hports | ⟨⟨hn, h0⟩, ⟨-, he⟩ | ⟨ht, hover | ⟨paths, -, hinject | h⟩⟩⟩⟩)
    · exact absurd (context_inj he) (by decide)
    · exact absurd hports validate_ports_error
    · exact absurd (context_inj he) (by decide)
    · exact ⟨⟨hne, hn, h0, ht⟩, hover⟩
    · obtain ⟨rest, he⟩ := validate_injections_error hinject
      have hrest := congrArg String.toList (context_inj he)
      rw [String.toList_append] at hrest
      revert hrest
      simp [toString]
    · obtain ⟨inject, -, hpure⟩ := h
      cases hpure
  · rintro ⟨⟨hne, hn, h0, ht⟩, hover⟩
    exact Or.inr ⟨hne, Or.inr ⟨⟨hn, h0⟩, Or.inr ⟨ht, Or.inl hover⟩⟩⟩

/-- A pattern of the rule shares a request path with one before it. -/
def SharesBefore (raws : List Text) : Prop :=
  ∃ pre raw post ps p q, raws = pre ++ raw :: post ∧
    List.Forall₂ (fun r p => validatePath r = .ok p) pre ps ∧ validatePath raw = .ok p ∧
    q ∈ ps ∧ SharesPath q p

theorem overlaps_shares {raws : List Text} : OverlapsBefore [] raws ↔ SharesBefore raws := by
  constructor
  · rintro ⟨pre, raw, post, ps, p, q, hraws, hps, hraw, hq, ho⟩
    rw [List.nil_append] at hq
    refine ⟨pre, raw, post, ps, p, q, hraws, hps, hraw, hq, ?_⟩
    exact (overlap_shares (validated_patterns hps q hq) (validated_pattern hraw)).mp ho
  · rintro ⟨pre, raw, post, ps, p, q, hraws, hps, hraw, hq, hs⟩
    refine ⟨pre, raw, post, ps, p, q, hraws, hps, hraw, by simpa using hq, ?_⟩
    exact (overlap_shares (validated_patterns hps q hq) (validated_pattern hraw)).mpr hs

/-- Of patterns that are pairwise apart at most one matches a request path. -/
theorem matches_one {ps : List Text} {request c : Text} (hpair : ps.Pairwise Apart)
    (hpattern : ∀ p ∈ ps, Pattern p) (hc : canonicalizeRequestPath request = .ok c) :
    (ps.filter (fun p => matchesPathPattern p c)).length ≤ 1 := by
  induction ps with
  | nil => simp
  | cons p ps ih =>
    obtain ⟨hfirst, hrest⟩ := List.pairwise_cons.mp hpair
    obtain ⟨hp, hps⟩ := List.forall_mem_cons.mp hpattern
    cases hm : matchesPathPattern p c with
    | false =>
      rw [List.filter_cons_of_neg (by simp [hm])]
      exact ih hrest hps
    | true =>
      have hnone : ps.filter (fun p => matchesPathPattern p c) = [] := by
        rw [List.filter_eq_nil_iff]
        intro q hq hmq
        have hshare := (overlap_shares hp (hps q hq)).mpr ⟨request, c, hc, hm, hmq⟩
        have hapart := hfirst q hq
        rw [Apart, hshare] at hapart
        cases hapart
      rw [List.filter_cons_of_pos (by simp [hm]), hnone]
      simp

/-- Overlap detection is exact: two patterns overlap when a request path is
matched by both, in whatever order they are compared, a rule is rejected for
overlap when two of its patterns share a path, and in an accepted rule a path
matches one pattern at most. -/
theorem path_overlap_exact (x : Crates) :
    (∀ r s p q, validatePath r = .ok p → validatePath s = .ok q →
      (pathsOverlap p q = true ↔ SharesPath p q) ∧ pathsOverlap p q = pathsOverlap q p) ∧
    (∀ context index raws raws' ps, raws.Perm raws' →
      validatePaths context index [] raws = .ok ps →
      ∃ ps', validatePaths context index [] raws' = .ok ps' ∧ ps.Perm ps') ∧
    (∀ context rule features,
      validateRule rule context features = .error (overlapError context) ↔
        (rule.ports ≠ [] ∧ rule.ports.Nodup ∧ 0 ∉ rule.ports ∧
          (rule.mode = .tunnel → features = false)) ∧ SharesBefore rule.paths) ∧
    ∀ c, Accepted x c → ∀ rule ∈ c.rules, ∀ request canonical,
      canonicalizeRequestPath request = .ok canonical →
      (rule.paths.filter (fun p => matchesPathPattern p canonical)).length ≤ 1 := by
  refine ⟨fun r s p q hp hq => ⟨?_, overlap_symm p q⟩, ?_, ?_, ?_⟩
  · exact overlap_shares (validated_pattern hp) (validated_pattern hq)
  · exact fun context index raws raws' ps => validate_paths_perm
  · intro context rule features
    rw [validate_rule_overlap, overlaps_shares]
  · intro c hc rule hm request canonical hcanonical
    obtain ⟨entry, he⟩ := accepted_named hc rule hm
    exact matches_one he.apart (validated_patterns he.paths) hcanonical

end Baffle.Proofs
