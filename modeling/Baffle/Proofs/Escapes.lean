import Baffle.Proofs.Paths

namespace Baffle.Proofs

variable {s t c : Text} {ts : List PathToken}

/-- Every escape of the path is one of an unreserved character. -/
def UnreservedEscapes (path : Text) : Prop :=
  ∀ pre h l post high low, path = pre ++ '%' :: h :: l :: post → hexValue h = some high →
    hexValue l = some low → isUnreserved (Char.ofNat (high * 16 + low)) = true

theorem hex_no_percent {ch : Char} {v : Nat} (h : hexValue ch = some v) : ch ≠ '%' := by
  rintro rfl
  cases h

theorem unreserved_plain {ch : Char} (hc : ch ≠ '%') (rest : Text) :
    UnreservedEscapes (ch :: rest) ↔ UnreservedEscapes rest := by
  constructor
  · intro hu pre h l post high low hs
    exact hu (ch :: pre) h l post high low (by rw [hs, List.cons_append])
  · intro hu pre h l post high low hs
    cases pre with
    | nil =>
      cases hs
      exact absurd rfl hc
    | cons a pre =>
      cases hs
      exact hu pre h l post high low rfl

theorem unreserved_escape {hi lo : Char} {n m : Nat} (hh : hexValue hi = some n)
    (hl : hexValue lo = some m) (rest : Text) : UnreservedEscapes ('%' :: hi :: lo :: rest) ↔
      isUnreserved (Char.ofNat (n * 16 + m)) = true ∧ UnreservedEscapes rest := by
  have hdigits : UnreservedEscapes (hi :: lo :: rest) ↔ UnreservedEscapes rest :=
    (unreserved_plain (hex_no_percent hh) _).trans (unreserved_plain (hex_no_percent hl) rest)
  rw [← hdigits]
  constructor
  · intro hu
    refine ⟨hu [] hi lo rest n m rfl hh hl, fun pre h l post high low hs => ?_⟩
    exact hu ('%' :: pre) h l post high low (by rw [hs, List.cons_append])
  · rintro ⟨hr, hu⟩ pre h l post high low hs ha hb
    cases pre with
    | nil =>
      cases hs
      rw [hh] at ha
      rw [hl] at hb
      cases ha
      cases hb
      exact hr
    | cons a pre => exact hu pre h l post high low (List.cons.inj hs).2 ha hb

/-- The escapes that canonicalization keeps are those of reserved characters. -/
theorem unreserved_escapes (h : ∀ token ∈ pathTokens s, token.allowed = true) :
    UnreservedEscapes s ↔ ∀ octet, .escaped octet ∉ pathTokens s := by
  induction s using path_induction with
  | nil =>
    refine iff_of_true (fun pre hi lo post high low hs => ?_) (fun octet hm => by cases hm)
    cases pre <;> cases hs
  | escape hi lo rest high low hh hl ih =>
    rw [tokens_escape hh hl] at h ⊢
    rw [unreserved_escape hh hl, ih (fun token ht => h token (List.mem_cons_of_mem _ ht))]
    unfold escapeToken
    cases isUnreserved (Char.ofNat (high * 16 + low)) with
    | true => simp
    | false =>
      refine iff_of_false (fun hu => by cases hu.1) (fun hn => ?_)
      exact hn (high * 16 + low) (List.mem_cons_self ..)
  | malformed rest ht he hd ih =>
    rw [ht] at h
    exact absurd (h (.plain '%') (List.mem_cons_self ..)) (by decide)
  | plain ch rest hc ih =>
    rw [tokens_plain hc] at h ⊢
    rw [unreserved_plain hc, ih (fun token ht => h token (List.mem_cons_of_mem _ ht))]
    simp

theorem percent_spelled (h : ∀ token ∈ ts, Proper token) :
    '%' ∈ ts.flatMap PathToken.text ↔ ∃ octet, .escaped octet ∈ ts := by
  rw [List.mem_flatMap]
  constructor
  · rintro ⟨token, ht, hp⟩
    cases h token ht with
    | plain ch hc => exact absurd (List.mem_singleton.mp hp).symm (path_character_percent hc)
    | escaped octet hlt hr ha => exact ⟨octet, ht⟩
  · rintro ⟨octet, ht⟩
    exact ⟨_, ht, List.mem_cons_self ..⟩

/-- A canonical path has no percent sign when the path it was made of has no other escapes
than those of unreserved characters. -/
theorem canonical_percent (h : canonicalizePath s = .ok c) : '%' ∉ c ↔ UnreservedEscapes s := by
  obtain ⟨hall, rfl, -⟩ := canonicalize_path_ok.mp h
  rw [unreserved_escapes hall, percent_spelled (tokens_proper hall), not_exists]

theorem upper_hex_alphanum : ∀ v < 16, (upperHex v).isAlphanum = true := by decide

/-- A canonical path is made of characters that may stand in a URI. -/
theorem canonical_uri (h : canonicalizePath s = .ok c) {ch : Char} (hc : ch ∈ c) :
    ch = '%' ∨ isUriPathCharacter ch = true := by
  obtain ⟨hall, rfl, -⟩ := canonicalize_path_ok.mp h
  obtain ⟨token, ht, hch⟩ := List.mem_flatMap.mp hc
  cases tokens_proper hall token ht with
  | plain a ha =>
    right
    rw [PathToken.text, List.mem_singleton] at hch
    subst hch
    rw [isPathCharacter, Bool.or_eq_true] at ha
    rw [isUriPathCharacter, Bool.or_eq_true]
    refine ha.imp_right (fun hm => ?_)
    simp only [String.reduceToList, List.contains_eq_mem, List.mem_cons, List.not_mem_nil,
      or_false, decide_eq_true_eq] at hm ⊢
    tauto
  | escaped octet hlt hr ha =>
    simp only [PathToken.text, List.mem_cons, List.not_mem_nil, or_false] at hch
    rcases hch with rfl | rfl | rfl
    · exact Or.inl rfl
    · right
      rw [isUriPathCharacter, upper_hex_alphanum _ (by omega), Bool.true_or]
    · right
      rw [isUriPathCharacter, upper_hex_alphanum _ (by omega), Bool.true_or]

theorem request_percent (h : canonicalizeRequestPath s = .ok c) :
    '%' ∉ c ↔ UnreservedEscapes s := by
  unfold canonicalizeRequestPath at h
  split at h
  · rename_i he
    rw [canonical_percent h, unreserved_plain (by decide), List.isEmpty_iff.mp he]
  · exact canonical_percent h

theorem request_uri (h : canonicalizeRequestPath s = .ok c) {ch : Char} (hc : ch ∈ c) :
    ch = '%' ∨ isUriPathCharacter ch = true := canonical_uri h hc

theorem escape_length (p : Text) :
    p.length ≤ (escapePercent p).length ∧ ('%' ∈ p → p.length < (escapePercent p).length) := by
  induction p with
  | nil => exact ⟨Nat.le_refl _, fun h => by cases h⟩
  | cons ch p ih =>
    rw [escapePercent, List.flatMap_cons, ← escapePercent]
    split
    · simp only [List.length_append, List.length_cons, List.length_nil]
      omega
    · rename_i hc
      simp only [List.length_append, List.length_cons, List.length_nil, List.mem_cons]
      refine ⟨by omega, fun h => ?_⟩
      have hp := ih.2 (h.resolve_left (fun he => hc he.symm))
      omega

/-- Escaping percent signs changes a text that has one. -/
theorem escape_percent (p : Text) : escapePercent p = p ↔ '%' ∉ p := by
  constructor
  · intro he hm
    have hlt := (escape_length p).2 hm
    rw [he] at hlt
    exact absurd hlt (Nat.lt_irrefl _)
  · intro hn
    induction p with
    | nil => rfl
    | cons ch p ih =>
      rw [List.mem_cons, not_or] at hn
      rw [escapePercent, List.flatMap_cons, if_neg (Ne.symm hn.1), ← escapePercent, ih hn.2]
      rfl

end Baffle.Proofs
