import Baffle.Proofs.Admission
import Baffle.Proofs.Paths

namespace Baffle.Proofs

variable {s t c p q raw : Text}

/-- Text that goes on with no hexadecimal digit keeps the tokens before it. -/
theorem tokens_append {ch : Char} (hc : hexValue ch = none) (s rest : Text) :
    pathTokens (s ++ ch :: rest) = pathTokens s ++ pathTokens (ch :: rest) := by
  induction s using path_induction with
  | nil => rfl
  | escape h l tail high low hh hl ih =>
    rw [tokens_escape hh hl, List.cons_append, List.cons_append, List.cons_append,
      tokens_escape hh hl, ih, List.cons_append]
  | malformed tail ht he hd ih =>
    rw [ht, List.cons_append, List.cons_append, ← ih]
    have hf := percent_front (tail ++ ch :: rest)
    generalize hw : '%' :: (tail ++ ch :: rest) = whole at hf
    cases hf with
    | malformed _ ht' =>
      cases hw
      exact ht'
    | escape h l others high low hh hl =>
      exfalso
      cases tail with
      | nil =>
        simp only [List.nil_append, List.cons.injEq, true_and] at hw
        rw [hw.1, hh] at hc
        cases hc
      | cons a tail =>
        cases tail with
        | nil =>
          simp only [List.cons_append, List.nil_append, List.cons.injEq, true_and] at hw
          rw [hw.2.1, hl] at hc
          cases hc
        | cons b tail =>
          simp only [List.cons_append, List.cons.injEq, true_and] at hw
          rw [hw.1, hw.2.1, tokens_escape hh hl, List.cons.injEq] at ht
          exact absurd (escape_plain ht.1) (by decide)
  | plain a tail ha ih =>
    rw [tokens_plain ha, List.cons_append, tokens_plain ha, ih, List.cons_append]

theorem tokens_nil (h : pathTokens s = []) : s = [] := by
  cases s using path_cases with
  | nil => rfl
  | escape hi lo rest high low hh hl =>
    rw [tokens_escape hh hl] at h
    cases h
  | malformed rest ht =>
    rw [ht] at h
    cases h
  | plain ch rest hc =>
    rw [tokens_plain hc] at h
    cases h

/-- The characters that no escape stands for and no escape contains. -/
structure Delimiter (ch : Char) : Prop where
  digit : hexValue ch = none
  reserved : isUnreserved ch = false
  percent : ch ≠ '%'

theorem slash_delimiter : Delimiter '/' := ⟨by decide, by decide, by decide⟩

theorem star_delimiter : Delimiter '*' := ⟨by decide, by decide, by decide⟩

theorem Delimiter.tokens {ch : Char} (hd : Delimiter ch) (s : Text) :
    pathTokens (s ++ [ch]) = pathTokens s ++ [.plain ch] := by
  rw [tokens_append hd.digit, tokens_plain hd.percent, pathTokens]

/-- A delimiter at the end of the tokens is at the end of the text. -/
theorem Delimiter.ends {ch : Char} (hd : Delimiter ch) {ts : List PathToken}
    (h : pathTokens s = ts ++ [.plain ch]) : ∃ stem, s = stem ++ [ch] ∧ pathTokens stem = ts := by
  have hlast : ∃ stem, s = stem ++ [ch] := by
    induction s using path_induction generalizing ts with
    | nil =>
      rw [pathTokens] at h
      exact absurd h.symm (by simp)
    | escape hi lo rest high low hh hl ih =>
      rw [tokens_escape hh hl] at h
      cases ts with
      | nil =>
        rw [List.nil_append, List.cons.injEq] at h
        exact absurd (escape_plain h.1) (by rw [hd.reserved]; decide)
      | cons token ts =>
        rw [List.cons_append, List.cons.injEq] at h
        obtain ⟨stem, rfl⟩ := ih h.2
        exact ⟨'%' :: hi :: lo :: stem, rfl⟩
    | malformed rest ht he hdec ih =>
      rw [ht] at h
      cases ts with
      | nil =>
        rw [List.nil_append, List.cons.injEq, PathToken.plain.injEq] at h
        exact absurd h.1.symm hd.percent
      | cons token ts =>
        rw [List.cons_append, List.cons.injEq] at h
        obtain ⟨stem, rfl⟩ := ih h.2
        exact ⟨'%' :: stem, rfl⟩
    | plain a rest ha ih =>
      rw [tokens_plain ha] at h
      cases ts with
      | nil =>
        rw [List.nil_append, List.cons.injEq, PathToken.plain.injEq] at h
        rw [h.1, tokens_nil h.2]
        exact ⟨[], rfl⟩
      | cons token ts =>
        rw [List.cons_append, List.cons.injEq] at h
        obtain ⟨stem, rfl⟩ := ih h.2
        exact ⟨a :: stem, rfl⟩
  obtain ⟨stem, rfl⟩ := hlast
  rw [hd.tokens] at h
  exact ⟨stem, rfl, List.append_cancel_right h⟩

theorem Delimiter.same {ch : Char} (hd : Delimiter ch) {stem : Text}
    (h : pathTokens (stem ++ [ch]) = pathTokens t) :
    ∃ stem', t = stem' ++ [ch] ∧ pathTokens stem' = pathTokens stem := by
  rw [hd.tokens] at h
  exact hd.ends h.symm

theorem canonical_no_star (h : canonicalizePath s = .ok c) : '*' ∉ s ∧ '*' ∉ c := by
  have hnone : ∀ {u : Text}, (∀ token ∈ pathTokens u, token.allowed = true) → '*' ∉ u := by
    intro u hall hm
    have hc := mem_allowed hall hm
    revert hc
    decide
  have ht := canonicalize_tokens h
  obtain ⟨hall, -⟩ := canonicalize_path_ok.mp h
  exact ⟨hnone hall, hnone (by rw [ht]; exact hall)⟩

theorem canonical_absolute (h : canonicalizePath s = .ok c) : notAbsolutePath s = false := by
  unfold canonicalizePath at h
  simp only [bind_ok, refuse_ok, exists_const] at h
  exact h.1

/-- A canonical path ends with a slash when the text does. -/
theorem canonical_slash {stem : Text} (h : canonicalizePath (stem ++ ['/']) = .ok c) :
    ∃ dir, c = dir ++ ['/'] := by
  obtain ⟨-, rfl, -⟩ := canonicalize_path_ok.mp h
  rw [slash_delimiter.tokens, List.flatMap_append]
  exact ⟨_, rfl⟩

theorem not_absolute_append {stem rest : Text} (h : notAbsolutePath (stem ++ ['/']) = false)
    (hr : ∀ ch ∈ rest, ch = '*') : notAbsolutePath (stem ++ '/' :: rest) = false := by
  simp only [notAbsolutePath, Bool.or_eq_false_iff, List.any_append, List.any_cons,
    List.any_nil] at h ⊢
  refine ⟨?_, h.2.1, by decide, ?_⟩
  · cases stem with
    | nil => rfl
    | cons a stem => exact h.1
  · rw [List.any_eq_false]
    intro ch hm
    rw [hr ch hm]
    decide

/-- A pattern is a canonical path, or a canonical directory with the recursive marker. -/
theorem validate_path_ok : validatePath s = .ok p ↔
    (∃ stem dir, s = stem ++ ['/', '*', '*'] ∧ p = dir ++ ['/', '*', '*'] ∧
      canonicalizePath (stem ++ ['/']) = .ok (dir ++ ['/'])) ∨
    canonicalizePath s = .ok p := by
  have hmarker : "/**".toList = ['/', '*', '*'] := by decide
  unfold validatePath
  rw [hmarker]
  cases hs : Text.stripSuffix ['/', '*', '*'] s with
  | none =>
    simp only [bind_ok, refuse_ok, pure_ok, exists_const, List.contains_eq_mem,
      decide_eq_false_iff_not, Bool.false_eq_true, if_false]
    constructor
    · rintro ⟨-, -, canonical, hc, rfl⟩
      exact Or.inr hc
    · rintro (⟨stem, dir, rfl, -⟩ | hc)
      · exact absurd rfl (Text.strip_suffix_none hs stem)
      · exact ⟨canonical_absolute hc, (canonical_no_star hc).1, p, hc, rfl⟩
  | some stem =>
    have he := Text.strip_suffix_some hs
    simp only [bind_ok, refuse_ok, pure_ok, exists_const, List.contains_eq_mem,
      decide_eq_false_iff_not, if_true]
    constructor
    · rintro ⟨-, -, canonical, hc, rfl⟩
      obtain ⟨dir, rfl⟩ := canonical_slash hc
      exact Or.inl ⟨stem, dir, he, by simp, hc⟩
    · rintro (⟨stem', dir, he', rfl, hc⟩ | hc)
      · have hstem : stem' = stem := List.append_cancel_right (he'.symm.trans he)
        subst hstem
        refine ⟨?_, (canonical_no_star hc).1, _, hc, by simp⟩
        rw [he]
        exact not_absolute_append (canonical_absolute hc) (by simp)
      · have hstar := (canonical_no_star hc).1
        rw [he] at hstar
        exact absurd (by simp) hstar

/-- Validation does not change what it returned. -/
theorem validate_path_again (h : validatePath s = .ok p) : validatePath p = .ok p := by
  apply validate_path_ok.mpr
  rcases validate_path_ok.mp h with ⟨stem, dir, rfl, rfl, hc⟩ | hc
  · exact Or.inl ⟨dir, dir, rfl, rfl, canonicalize_again hc⟩
  · exact Or.inr (canonicalize_again hc)

theorem validate_path_same (ht : pathTokens s = pathTokens t) (h : validatePath s = .ok p) :
    validatePath t = .ok p := by
  apply validate_path_ok.mpr
  rcases validate_path_ok.mp h with ⟨stem, dir, rfl, rfl, hc⟩ | hc
  · left
    have hsplit : stem ++ ['/', '*', '*'] = stem ++ ['/'] ++ ['*'] ++ ['*'] := by simp
    rw [hsplit] at ht
    obtain ⟨u, rfl, hu⟩ := star_delimiter.same ht
    obtain ⟨v, rfl, hv⟩ := star_delimiter.same hu.symm
    obtain ⟨w, rfl, hw⟩ := slash_delimiter.same hv.symm
    refine ⟨w, dir, by simp, rfl, ?_⟩
    have hsame := canonicalize_same (hv.symm)
    rw [← to_option_some, ← hsame, to_option_some]
    exact hc
  · right
    have hsame := canonicalize_same ht
    rw [← to_option_some, ← hsame, to_option_some]
    exact hc

theorem request_same (ht : pathTokens s = pathTokens t) :
    (canonicalizeRequestPath s).toOption = (canonicalizeRequestPath t).toOption := by
  have hempty : s.isEmpty = t.isEmpty := by
    cases s with
    | nil => rw [tokens_nil ht.symm]
    | cons a s =>
      cases t with
      | nil => cases tokens_nil ht
      | cons b t => rfl
  unfold canonicalizeRequestPath
  rw [hempty]
  apply canonicalize_same
  split
  · rfl
  · exact ht

theorem matches_recursive {dir : Text} : matchesPathPattern (dir ++ ['/', '*', '*']) c = true ↔
    (dir ++ ['/']) <+: c := by
  have hstem : Text.stripSuffix ['*', '*'] (dir ++ ['/', '*', '*']) = some (dir ++ ['/']) :=
    Text.strip_suffix_extended ['*', '*'] dir ['/']
  rw [matchesPathPattern, hstem]
  exact List.isPrefixOf_iff_prefix

theorem matches_exact (hp : '*' ∉ p) : matchesPathPattern p c = true ↔ p = c := by
  have hnone : Text.stripSuffix ['*', '*'] p = none :=
    Text.strip_suffix_absent (List.mem_cons_self ..) hp
  rw [matchesPathPattern, hnone]
  exact beq_iff_eq

theorem request_path_ok (h : canonicalizeRequestPath s = .ok c) : ∃ t, canonicalizePath t = .ok c :=
  ⟨_, h⟩

/-- A canonical path as a request. -/
theorem request_canonical (h : canonicalizePath s = .ok c) : canonicalizeRequestPath c = .ok c := by
  obtain ⟨-, -, hsep⟩ := canonicalize_path_ok.mp h
  cases c with
  | nil => exact absurd hsep.rooted (by simp)
  | cons a c => exact canonicalize_again h

/-- Patterns match by segments: an exact pattern its own segments, a recursive one
every path that goes on below its directory. Spellings that stand for the same
tokens get the same verdict, and no canonical request contains an asterisk. -/
theorem path_patterns_match :
    (∀ s p r c, validatePath s = .ok p → canonicalizeRequestPath r = .ok c →
      ((∀ stem, s ≠ stem ++ ['/', '*', '*']) →
        (matchesPathPattern p c = true ↔ p.splitOn '/' = c.splitOn '/')) ∧
      (∀ stem, s = stem ++ ['/', '*', '*'] → ∃ dir, p = dir ++ ['/', '*', '*'] ∧
        canonicalizePath (stem ++ ['/']) = .ok (dir ++ ['/']) ∧
        (matchesPathPattern p c = true ↔
          dir.splitOn '/' <+: c.splitOn '/' ∧ dir.splitOn '/' ≠ c.splitOn '/'))) ∧
    (∀ s t, pathTokens s = pathTokens t →
      (validatePath s).toOption = (validatePath t).toOption) ∧
    (∀ r r', pathTokens r = pathTokens r' →
      (canonicalizeRequestPath r).toOption = (canonicalizeRequestPath r').toOption) ∧
    ∀ r c, canonicalizeRequestPath r = .ok c → '*' ∉ c := by
  refine ⟨fun s p r c hp hc => ⟨fun hs => ?_, ?_⟩, fun s t ht => ?_, fun r r' => request_same,
    fun r c hc => ?_⟩
  · rcases validate_path_ok.mp hp with ⟨stem, dir, rfl, -⟩ | hp
    · exact absurd rfl (hs stem)
    · rw [matches_exact (canonical_no_star hp).2, Split.split_inj]
  · rintro stem rfl
    rcases validate_path_ok.mp hp with ⟨stem', dir, he, rfl, hdir⟩ | hp
    · rw [List.append_cancel_right he]
      refine ⟨dir, rfl, hdir, ?_⟩
      rw [matches_recursive, Split.prefix_iff_split]
    · exact absurd (by simp) (canonical_no_star hp).1
  · apply Option.ext
    intro p
    rw [to_option_some, to_option_some]
    exact ⟨validate_path_same ht, validate_path_same ht.symm⟩
  · obtain ⟨u, hu⟩ := request_path_ok hc
    exact (canonical_no_star hu).2

end Baffle.Proofs
