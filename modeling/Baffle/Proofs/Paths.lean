import Baffle.Paths

namespace Baffle.Proofs

theorem hex_small {c : Char} {v : Nat} (h : hexValue c = some v) : c.toNat < 128 := by
  unfold hexValue at h
  have h9 : ('9' : Char).toNat = 57 := rfl
  have hf : ('f' : Char).toNat = 102 := rfl
  have hF : ('F' : Char).toNat = 70 := rfl
  split at h
  · rename_i hc
    have hle : c.toNat ≤ ('9' : Char).toNat := hc.2
    omega
  · split at h
    · rename_i hc
      have hle : c.toNat ≤ ('f' : Char).toNat := hc.2
      omega
    · split at h
      · rename_i hc
        have hle : c.toNat ≤ ('F' : Char).toNat := hc.2
        omega
      · cases h

theorem hex_table : ∀ n < 128, ∀ v < 16, hexValue (Char.ofNat n) = some v →
    (Char.ofNat n).toUpper = upperHex v := by decide +kernel

theorem hex_bound : ∀ n < 128, (hexValue (Char.ofNat n)).all (· < 16) = true := by decide +kernel

theorem hex_lt {c : Char} {v : Nat} (h : hexValue c = some v) : v < 16 := by
  have hb := hex_bound c.toNat (hex_small h)
  rw [Char.ofNat_toNat, h] at hb
  simpa using hb

/-- A hexadecimal digit is in uppercase the one digit of its value. -/
theorem hex_upper {c : Char} {v : Nat} (h : hexValue c = some v) : c.toUpper = upperHex v := by
  have ht := hex_table c.toNat (hex_small h) v (hex_lt h)
  rw [Char.ofNat_toNat] at ht
  exact ht h

theorem upper_hex_value : ∀ v < 16, hexValue (upperHex v) = some v := by decide

theorem upper_hex_plain : ∀ v < 16, upperHex v ≠ '/' ∧ upperHex v ≠ '.' := by decide

variable {s t c : Text} {ts : List PathToken}

theorem tokens_escape {h l : Char} {high low : Nat} (hh : hexValue h = some high)
    (hl : hexValue l = some low) (rest : Text) :
    pathTokens ('%' :: h :: l :: rest) = escapeToken (high * 16 + low) :: pathTokens rest := by
  simp [pathTokens, hh, hl]

/-- An escape stands for a character only when the character is unreserved. -/
theorem escape_plain {octet : Nat} {ch : Char} (h : escapeToken octet = .plain ch) :
    isUnreserved ch = true := by
  unfold escapeToken at h
  split at h
  · rename_i hr
    rwa [PathToken.plain.inj h] at hr
  · cases h

theorem tokens_plain {ch : Char} (hc : ch ≠ '%') (rest : Text) :
    pathTokens (ch :: rest) = .plain ch :: pathTokens rest := by
  cases rest with
  | nil => simp [pathTokens]
  | cons a rest =>
    cases rest with
    | nil => simp [pathTokens]
    | cons b rest => simp [pathTokens, hc]

/-- An escape at the front of a text, or a percent sign that begins none. -/
inductive Front : Text → Prop where
  | escape (h l : Char) (rest : Text) (high low : Nat) (hh : hexValue h = some high)
      (hl : hexValue l = some low) : Front ('%' :: h :: l :: rest)
  | malformed (rest : Text) (ht : pathTokens ('%' :: rest) = .plain '%' :: pathTokens rest)
      (he : canonicalizeOctets ('%' :: rest) = .error "contains malformed percent encoding")
      (hd : percentDecode ('%' :: rest) = utf8 ['%'] ++ percentDecode rest) : Front ('%' :: rest)

theorem percent_front (rest : Text) : Front ('%' :: rest) := by
  cases rest with
  | nil => exact .malformed [] rfl rfl rfl
  | cons h rest =>
    cases rest with
    | nil => exact .malformed [h] rfl rfl rfl
    | cons l rest =>
      cases hh : hexValue h with
      | none =>
        refine .malformed _ ?_ ?_ ?_
        · simp [pathTokens, hh]
        · simp [canonicalizeOctets, hh, throw, throwThe, MonadExceptOf.throw]
        · simp [percentDecode, hh]
      | some high =>
        cases hl : hexValue l with
        | none =>
          refine .malformed _ ?_ ?_ ?_
          · simp [pathTokens, hh, hl]
          · simp [canonicalizeOctets, hh, hl, throw, throwThe, MonadExceptOf.throw]
          · simp [percentDecode, hh, hl]
        | some low => exact .escape h l rest high low hh hl

/-- Texts are built from characters and escapes. -/
@[elab_as_elim] theorem path_induction {motive : Text → Prop} (nil : motive [])
    (escape : ∀ h l rest high low, hexValue h = some high → hexValue l = some low →
      motive rest → motive ('%' :: h :: l :: rest))
    (malformed : ∀ rest, pathTokens ('%' :: rest) = .plain '%' :: pathTokens rest →
      canonicalizeOctets ('%' :: rest) = .error "contains malformed percent encoding" →
      percentDecode ('%' :: rest) = utf8 ['%'] ++ percentDecode rest →
      motive rest → motive ('%' :: rest))
    (plain : ∀ ch rest, ch ≠ '%' → motive rest → motive (ch :: rest)) (s : Text) : motive s := by
  induction hn : s.length using Nat.strong_induction_on generalizing s with
  | _ n ih =>
    subst hn
    cases s with
    | nil => exact nil
    | cons ch rest =>
      by_cases hc : ch = '%'
      · subst hc
        have hf := percent_front rest
        generalize hr : '%' :: rest = whole at hf
        cases hf with
        | escape h l tail high low hh hl =>
          cases hr
          apply escape h l tail high low hh hl
          exact ih tail.length (by simp only [List.length_cons]; omega) tail rfl
        | malformed tail ht he hd =>
          cases hr
          apply malformed rest ht he hd
          exact ih rest.length (by simp) rest rfl
      · apply plain ch rest hc
        exact ih rest.length (by simp) rest rfl

/-- A text is empty, or begins with a character or an escape. -/
@[elab_as_elim] theorem path_cases {motive : Text → Prop} (nil : motive [])
    (escape : ∀ h l rest high low, hexValue h = some high → hexValue l = some low →
      motive ('%' :: h :: l :: rest))
    (malformed : ∀ rest, pathTokens ('%' :: rest) = .plain '%' :: pathTokens rest →
      motive ('%' :: rest))
    (plain : ∀ ch rest, ch ≠ '%' → motive (ch :: rest)) (s : Text) : motive s := by
  cases s with
  | nil => exact nil
  | cons ch rest =>
    by_cases hc : ch = '%'
    · subst hc
      have hf := percent_front rest
      generalize hr : '%' :: rest = whole at hf
      cases hf with
      | escape h l tail high low hh hl => exact escape h l tail high low hh hl
      | malformed tail ht he hd => exact malformed tail ht
    · exact plain ch rest hc

theorem octets_plain {ch : Char} (hc : ch ≠ '%') (rest : Text) :
    canonicalizeOctets (ch :: rest) =
      if !isPathCharacter ch then .error "contains a character that is not valid in a URL path"
      else (ch :: ·) <$> canonicalizeOctets rest := by
  cases rest with
  | nil =>
    simp only [canonicalizeOctets]
    rfl
  | cons a rest =>
    cases rest with
    | nil =>
      simp only [canonicalizeOctets]
      rfl
    | cons b rest =>
      rw [canonicalizeOctets]
      · rfl
      · exact fun _ _ _ h _ => hc h
      · exact fun h => hc h

theorem decode_plain {ch : Char} (hc : ch ≠ '%') (rest : Text) :
    percentDecode (ch :: rest) = utf8 [ch] ++ percentDecode rest := by
  cases rest with
  | nil => simp [percentDecode]
  | cons a rest =>
    cases rest with
    | nil => simp [percentDecode]
    | cons b rest => simp [percentDecode, hc]

/-- The octet of an escape. -/
theorem octet_lt {h l : Char} {high low : Nat} (hh : hexValue h = some high)
    (hl : hexValue l = some low) : high * 16 + low < 256 := by
  have h1 := hex_lt hh
  have h2 := hex_lt hl
  omega

theorem escape_allowed : ∀ octet < 256, (escapeToken octet).allowed =
    !(Char.ofNat octet == '/' || Char.ofNat octet == '\\' || Char.ofNat octet == '%') := by
  decide +kernel

theorem escape_text {h l : Char} {high low : Nat} (hh : hexValue h = some high)
    (hl : hexValue l = some low) : (escapeToken (high * 16 + low)).text =
      if isUnreserved (Char.ofNat (high * 16 + low)) then [Char.ofNat (high * 16 + low)]
      else ['%', h.toUpper, l.toUpper] := by
  have hlow := hex_lt hl
  have hdiv : (high * 16 + low) / 16 = high := by omega
  have hmod : (high * 16 + low) % 16 = low := by omega
  unfold escapeToken
  split
  · rfl
  · rw [PathToken.text, hdiv, hmod, hex_upper hh, hex_upper hl]

theorem octets_escape {h l : Char} {high low : Nat} (hh : hexValue h = some high)
    (hl : hexValue l = some low) (rest : Text) : canonicalizeOctets ('%' :: h :: l :: rest) =
      if (escapeToken (high * 16 + low)).allowed then
        ((escapeToken (high * 16 + low)).text ++ ·) <$> canonicalizeOctets rest
      else .error "contains an encoded path separator or ambiguous double encoding" := by
  rw [escape_allowed _ (octet_lt hh hl), escape_text hh hl]
  simp only [canonicalizeOctets, hh, hl]
  cases hsep : (Char.ofNat (high * 16 + low) == '/' || Char.ofNat (high * 16 + low) == '\\'
      || Char.ofNat (high * 16 + low) == '%') with
  | true => rfl
  | false =>
    cases isUnreserved (Char.ofNat (high * 16 + low)) with
    | true => rfl
    | false => rfl

/-- The canonical form of a text is the spelling of its tokens, when all of them are allowed. -/
def Canonicalizes (s : Text) : Prop :=
  ∀ c, canonicalizeOctets s = .ok c ↔
    (∀ token ∈ pathTokens s, token.allowed = true) ∧ c = (pathTokens s).flatMap PathToken.text

/-- One more token in front of a text. -/
theorem Canonicalizes.cons {token : PathToken} {rest : Text} {e : String}
    (ih : Canonicalizes rest) (ht : pathTokens s = token :: pathTokens rest)
    (ho : canonicalizeOctets s =
      if token.allowed then (token.text ++ ·) <$> canonicalizeOctets rest else .error e) :
    Canonicalizes s := by
  intro c
  rw [ho, ht, List.forall_mem_cons, List.flatMap_cons]
  cases token.allowed with
  | false => simp
  | true =>
    simp only [if_true, map_ok, true_and]
    constructor
    · rintro ⟨tail, htail, rfl⟩
      obtain ⟨hall, rfl⟩ := (ih tail).mp htail
      exact ⟨hall, rfl⟩
    · rintro ⟨hall, rfl⟩
      exact ⟨_, (ih _).mpr ⟨hall, rfl⟩, rfl⟩

theorem canonicalize_octets (s : Text) : Canonicalizes s := by
  induction s using path_induction with
  | nil =>
    intro c
    rw [canonicalizeOctets, pathTokens, pure_ok]
    constructor
    · rintro rfl
      exact ⟨by simp, rfl⟩
    · rintro ⟨-, rfl⟩
      rfl
  | escape h l rest high low hh hl ih =>
    exact ih.cons (tokens_escape hh hl rest) (octets_escape hh hl rest)
  | malformed rest ht he hd ih =>
    exact ih.cons ht he
  | plain ch rest hc ih =>
    apply ih.cons (tokens_plain hc rest)
    rw [octets_plain hc, PathToken.allowed]
    cases isPathCharacter ch with
    | true => rfl
    | false => rfl

/-- A token that its spelling stands for. -/
inductive Proper : PathToken → Prop where
  | plain (ch : Char) (h : isPathCharacter ch = true) : Proper (.plain ch)
  | escaped (octet : Nat) (hlt : octet < 256) (hr : isUnreserved (Char.ofNat octet) = false)
      (ha : (PathToken.escaped octet).allowed = true) : Proper (.escaped octet)

theorem path_character_percent {ch : Char} (h : isPathCharacter ch = true) : ch ≠ '%' := by
  rintro rfl
  revert h
  decide

theorem tokens_escaped {octet : Nat} (h : .escaped octet ∈ pathTokens s) :
    octet < 256 ∧ isUnreserved (Char.ofNat octet) = false := by
  induction s using path_induction with
  | nil => cases h
  | escape hi lo rest high low hh hl ih =>
    rw [tokens_escape hh hl] at h
    rcases List.mem_cons.mp h with he | h
    · unfold escapeToken at he
      split at he
      · cases he
      · rename_i hr
        cases he
        exact ⟨octet_lt hh hl, by simpa using hr⟩
    · exact ih h
  | malformed rest ht he hd ih =>
    rw [ht] at h
    exact ih ((List.mem_cons.mp h).resolve_left (by simp))
  | plain ch rest hc ih =>
    rw [tokens_plain hc] at h
    exact ih ((List.mem_cons.mp h).resolve_left (by simp))

theorem tokens_proper (h : ∀ token ∈ pathTokens s, token.allowed = true) :
    ∀ token ∈ pathTokens s, Proper token := by
  intro token ht
  have ha := h token ht
  cases token with
  | plain ch => exact .plain ch ha
  | escaped octet =>
    obtain ⟨hlt, hr⟩ := tokens_escaped ht
    exact .escaped octet hlt hr ha

/-- Reading the spelling of tokens gives the tokens back. -/
theorem tokens_text (h : ∀ token ∈ ts, Proper token) :
    pathTokens (ts.flatMap PathToken.text) = ts := by
  induction ts with
  | nil => rfl
  | cons token ts ih =>
    have hts := ih (fun other ho => h other (List.mem_cons_of_mem _ ho))
    rw [List.flatMap_cons]
    cases h token (by simp) with
    | plain ch hc =>
      rw [PathToken.text, List.singleton_append, tokens_plain (path_character_percent hc), hts]
    | escaped octet hlt hr ha =>
      have hhigh := upper_hex_value (octet / 16) (by omega)
      have hlow := upper_hex_value (octet % 16) (by omega)
      have hoctet : octet / 16 * 16 + octet % 16 = octet := by omega
      have htoken : escapeToken octet = .escaped octet := by simp [escapeToken, hr]
      simp only [PathToken.text, List.cons_append, List.nil_append]
      rw [tokens_escape hhigh hlow, hoctet, htoken, hts]

theorem utf8_ascii {ch : Char} (h : ch.toNat < 128) : utf8 [ch] = [UInt8.ofNat ch.toNat] := by
  have hle : ch.val.toNat ≤ 0x7f := Nat.le_of_lt_succ h
  simp only [utf8, List.flatMap_cons, List.flatMap_nil, List.append_nil, String.utf8EncodeChar,
    if_pos hle]
  rfl

theorem escape_octets : ∀ octet < 256,
    (escapeToken octet).octets = [UInt8.ofNat octet] := by decide +kernel

/-- The octets of a text are those of its tokens. -/
theorem decode_tokens (s : Text) : percentDecode s = (pathTokens s).flatMap PathToken.octets := by
  induction s using path_induction with
  | nil => rfl
  | escape h l rest high low hh hl ih =>
    rw [tokens_escape hh hl, List.flatMap_cons, escape_octets _ (octet_lt hh hl), ← ih]
    simp [percentDecode, hh, hl]
  | malformed rest ht he hd ih => rw [hd, ht, List.flatMap_cons, ← ih, PathToken.octets]
  | plain ch rest hc ih =>
    rw [decode_plain hc, tokens_plain hc, List.flatMap_cons, ← ih, PathToken.octets]

/-- What the checks after the loop ask for. -/
structure Separated (c : Text) : Prop where
  rooted : c.head? = some '/'
  single : Text.containsText ['/', '/'] c = false
  dotless : ∀ segment ∈ c.splitOn '/', segment ≠ ['.'] ∧ segment ≠ ['.', '.']

theorem head_text (s : Text) :
    s.head? = some '/' ↔ ((pathTokens s).flatMap PathToken.text).head? = some '/' := by
  cases s using path_cases with
  | nil => simp [pathTokens]
  | escape h l rest high low hh hl =>
    rw [tokens_escape hh hl, List.flatMap_cons, escape_text hh hl]
    split
    · rename_i hr
      have hne : Char.ofNat (high * 16 + low) ≠ '/' := by
        intro he
        rw [he] at hr
        revert hr
        decide
      simp [hne]
    · simp
  | malformed rest ht =>
    rw [ht]
    simp [PathToken.text]
  | plain ch rest hc =>
    rw [tokens_plain hc]
    simp [PathToken.text]

/-- An accepted text consists of path characters and escapes. -/
theorem mem_allowed (h : ∀ token ∈ pathTokens s, token.allowed = true) {ch : Char} (hc : ch ∈ s) :
    ch = '%' ∨ (hexValue ch).isSome = true ∨ isPathCharacter ch = true := by
  induction s using path_induction with
  | nil => cases hc
  | escape hi lo rest high low hh hl ih =>
    rw [tokens_escape hh hl] at h
    simp only [List.mem_cons] at hc
    rcases hc with rfl | rfl | rfl | hc
    · exact Or.inl rfl
    · exact Or.inr (Or.inl (by rw [hh]; rfl))
    · exact Or.inr (Or.inl (by rw [hl]; rfl))
    · exact ih (fun token ht => h token (List.mem_cons_of_mem _ ht)) hc
  | malformed rest ht he hd ih =>
    rw [ht] at h
    rcases List.mem_cons.mp hc with rfl | hc
    · exact Or.inl rfl
    · exact ih (fun token ht => h token (List.mem_cons_of_mem _ ht)) hc
  | plain a rest ha ih =>
    rw [tokens_plain ha] at h
    rcases List.mem_cons.mp hc with rfl | hc
    · exact Or.inr (Or.inr (h (.plain ch) (by simp)))
    · exact ih (fun token ht => h token (List.mem_cons_of_mem _ ht)) hc

theorem allowed_absolute (h : ∀ token ∈ pathTokens s, token.allowed = true) :
    notAbsolutePath s = false ↔ s.head? = some '/' := by
  have hany : s.any (fun c => c == '?' || c == '#' || c == '\\') = false := by
    rw [List.any_eq_false]
    intro ch hc hbad
    simp only [Bool.or_eq_true, beq_iff_eq] at hbad
    have hm := mem_allowed h hc
    rcases hbad with (rfl | rfl) | rfl
    all_goals
      revert hm
      decide
  rw [notAbsolutePath, hany, Bool.or_false]
  simp

/-- A text is accepted, and its canonical form chosen, on account of its tokens. -/
theorem canonicalize_path_ok : canonicalizePath s = .ok c ↔
    (∀ token ∈ pathTokens s, token.allowed = true) ∧
      c = (pathTokens s).flatMap PathToken.text ∧ Separated c := by
  have hdot : ∀ c : Text, (c.splitOn '/').any (fun segment => segment == ['.'] ||
      segment == ['.', '.']) = false ↔
      ∀ segment ∈ c.splitOn '/', segment ≠ ['.'] ∧ segment ≠ ['.', '.'] := by
    intro c
    simp [List.any_eq_false]
  unfold canonicalizePath
  simp only [bind_ok, refuse_ok, pure_ok, exists_const]
  constructor
  · rintro ⟨habs, canonical, hc, hsingle, hdots, rfl⟩
    obtain ⟨hall, rfl⟩ := (canonicalize_octets s canonical).mp hc
    refine ⟨hall, rfl, ?_, hsingle, (hdot _).mp hdots⟩
    exact (head_text s).mp ((allowed_absolute hall).mp habs)
  · rintro ⟨hall, rfl, hsep⟩
    refine ⟨?_, _, (canonicalize_octets s _).mpr ⟨hall, rfl⟩, hsep.single,
      (hdot _).mpr hsep.dotless, rfl⟩
    exact (allowed_absolute hall).mpr ((head_text s).mpr hsep.rooted)

theorem canonicalize_tokens (h : canonicalizePath s = .ok c) : pathTokens c = pathTokens s := by
  obtain ⟨hall, rfl, -⟩ := canonicalize_path_ok.mp h
  exact tokens_text (tokens_proper hall)

/-- Canonicalization is idempotent. -/
theorem canonicalize_again (h : canonicalizePath s = .ok c) : canonicalizePath c = .ok c := by
  have ht := canonicalize_tokens h
  obtain ⟨hall, hc, hsep⟩ := canonicalize_path_ok.mp h
  apply canonicalize_path_ok.mpr
  rw [ht]
  exact ⟨hall, hc, hsep⟩

theorem canonicalize_same (ht : pathTokens s = pathTokens t) :
    (canonicalizePath s).toOption = (canonicalizePath t).toOption := by
  apply Option.ext
  intro c
  rw [to_option_some, to_option_some, canonicalize_path_ok, canonicalize_path_ok, ht]

/-- Every percent sign of a spelling begins the uppercase escape of an octet that needs one. -/
theorem percent_text (h : ∀ token ∈ ts, Proper token) {pre post : Text}
    (hs : ts.flatMap PathToken.text = pre ++ '%' :: post) :
    ∃ octet rest, post = upperHex (octet / 16) :: upperHex (octet % 16) :: rest ∧
      Proper (.escaped octet) := by
  induction ts generalizing pre with
  | nil => simp at hs
  | cons token ts ih =>
    have hts := fun other ho => h other (List.mem_cons_of_mem token ho)
    rw [List.flatMap_cons] at hs
    cases h token (by simp) with
    | plain ch hc =>
      cases pre with
      | nil =>
        simp only [PathToken.text, List.singleton_append, List.nil_append, List.cons.injEq] at hs
        exact absurd hs.1 (path_character_percent hc)
      | cons a pre =>
        simp only [PathToken.text, List.cons_append, List.cons.injEq] at hs
        exact ih hts hs.2
    | escaped octet hlt hr ha =>
      have hdigit : ∀ v < 16, upperHex v ≠ '%' := by decide
      simp only [PathToken.text, List.cons_append, List.nil_append] at hs
      cases pre with
      | nil =>
        simp only [List.nil_append, List.cons.injEq, true_and] at hs
        exact ⟨octet, _, hs.symm, .escaped octet hlt hr ha⟩
      | cons a pre =>
        cases pre with
        | nil =>
          simp only [List.cons_append, List.nil_append, List.cons.injEq] at hs
          exact absurd hs.2.1 (hdigit _ (by omega))
        | cons b pre =>
          cases pre with
          | nil =>
            simp only [List.cons_append, List.nil_append, List.cons.injEq] at hs
            exact absurd hs.2.2.1 (hdigit _ (by omega))
          | cons d pre =>
            simp only [List.cons_append, List.cons.injEq] at hs
            exact ih hts hs.2.2.2

/-- What a canonical path looks like, before and after its escapes are decoded. -/
structure CanonicalPath (c : Text) : Prop where
  rooted : c.head? = some '/'
  single : Text.containsText ['/', '/'] c = false
  dotless : ∀ segment ∈ c.splitOn '/', segment ≠ ['.'] ∧ segment ≠ ['.', '.']
  escapes : ∀ pre post, c = pre ++ '%' :: post → ∃ octet rest,
    post = upperHex (octet / 16) :: upperHex (octet % 16) :: rest ∧ octet < 256 ∧
      isUnreserved (Char.ofNat octet) = false ∧ octet ≠ 47 ∧ octet ≠ 92 ∧ octet ≠ 37
  decoded : ∀ segment ∈ (percentDecode c).splitOn 47, segment ≠ [46] ∧ segment ≠ [46, 46]

theorem alphanum_ascii {ch : Char} (h : ch.isAlphanum = true) : ch.toNat < 128 := by
  simp only [Char.isAlphanum, Char.isAlpha, Char.isUpper, Char.isLower, Char.isDigit,
    Bool.or_eq_true, Bool.and_eq_true, decide_eq_true_eq, UInt32.le_iff_toNat_le, ge_iff_le] at h
  have hn : ch.toNat = ch.val.toNat := rfl
  have hZ : ('Z' : Char).val.toNat = 90 := rfl
  have hz : ('z' : Char).val.toNat = 122 := rfl
  have h9 : ('9' : Char).val.toNat = 57 := rfl
  omega

theorem path_ascii {ch : Char} (h : isPathCharacter ch = true) : ch.toNat < 128 := by
  rw [isPathCharacter, Bool.or_eq_true] at h
  rcases h with h | h
  · exact alphanum_ascii h
  · simp only [String.reduceToList, List.contains_eq_mem, List.mem_cons, List.not_mem_nil,
      or_false, decide_eq_true_eq] at h
    rcases h with rfl | rfl | rfl | rfl | rfl | rfl | rfl | rfl | rfl | rfl | rfl | rfl | rfl |
      rfl | rfl | rfl | rfl
    all_goals decide

/-- A proper token is one octet, and stands for a slash or a dot only as that character. -/
theorem octets_mark {token : PathToken} (h : Proper token) : ∃ byte, token.octets = [byte] ∧
    (byte = 47 ↔ token = .plain '/') ∧ (byte = 46 ↔ token = .plain '.') := by
  have hinj : ∀ {n m : Nat}, n < 256 → m < 256 → (UInt8.ofNat n = UInt8.ofNat m ↔ n = m) := by
    intro n m hn hm
    rw [← UInt8.toNat_inj, UInt8.toNat_ofNat', UInt8.toNat_ofNat', Nat.mod_eq_of_lt hn,
      Nat.mod_eq_of_lt hm]
  cases h with
  | plain ch hc =>
    have hlt := path_ascii hc
    have hmark : ∀ mark : Char, mark.toNat < 256 →
        (UInt8.ofNat ch.toNat = UInt8.ofNat mark.toNat ↔ PathToken.plain ch = .plain mark) := by
      intro mark hm
      rw [hinj (by omega) hm, PathToken.plain.injEq, Char.toNat_inj]
    exact ⟨_, utf8_ascii hlt, hmark '/' (by decide), hmark '.' (by decide)⟩
  | escaped octet hlt hr ha =>
    refine ⟨_, rfl, ?_, ?_⟩
    · refine ⟨fun he => ?_, fun he => by cases he⟩
      have h47 : octet = 47 := (hinj hlt (by decide)).mp he
      subst h47
      revert ha
      decide
    · refine ⟨fun he => ?_, fun he => by cases he⟩
      have h46 : octet = 46 := (hinj hlt (by decide)).mp he
      subst h46
      revert hr
      decide

/-- The segments of a text and of its octets are those of its tokens. -/
theorem split_text (h : ∀ token ∈ ts, Proper token) : (ts.flatMap PathToken.text).splitOn '/' =
    (ts.splitOn (.plain '/')).map (List.flatMap PathToken.text) := by
  apply Split.split_flat_map (by rfl)
  intro token ht hne hmem
  have hdigit := upper_hex_plain
  cases h token ht with
  | plain ch hc =>
    rw [PathToken.text, List.mem_singleton] at hmem
    exact hne (by rw [hmem])
  | escaped octet hlt hr ha =>
    simp only [PathToken.text, List.mem_cons, List.not_mem_nil, or_false] at hmem
    rcases hmem with hm | hm | hm
    · revert hm
      decide
    · exact (hdigit _ (by omega)).1 hm.symm
    · exact (hdigit _ (by omega)).1 hm.symm

theorem split_octets (h : ∀ token ∈ ts, Proper token) : (ts.flatMap PathToken.octets).splitOn 47 =
    (ts.splitOn (.plain '/')).map (List.flatMap PathToken.octets) := by
  apply Split.split_flat_map (by decide)
  intro token ht hne hmem
  obtain ⟨byte, hb, hslash, -⟩ := octets_mark (h token ht)
  rw [hb, List.mem_singleton] at hmem
  exact hne (hslash.mp hmem.symm)

/-- Only dots are decoded to dots. -/
theorem dots_octets (h : ∀ token ∈ ts, Proper token) {n : Nat}
    (hd : ts.flatMap PathToken.octets = List.replicate n 46) :
    ts.flatMap PathToken.text = List.replicate n '.' := by
  induction ts generalizing n with
  | nil =>
    cases n with
    | zero => rfl
    | succ n => cases hd
  | cons token ts ih =>
    obtain ⟨byte, hb, -, hdot⟩ := octets_mark (h token (by simp))
    rw [List.flatMap_cons, hb] at hd
    cases n with
    | zero => cases hd
    | succ n =>
      rw [List.replicate_succ, List.singleton_append, List.cons.injEq] at hd
      rw [List.flatMap_cons, hdot.mp hd.1,
        ih (fun other ho => h other (List.mem_cons_of_mem _ ho)) hd.2]
      rfl

theorem canonical_path (h : canonicalizePath s = .ok c) : CanonicalPath c := by
  obtain ⟨hall, rfl, hsep⟩ := canonicalize_path_ok.mp h
  have hproper := tokens_proper hall
  have hmem : ∀ segment ∈ (pathTokens s).splitOn (.plain '/'),
      ∀ token ∈ segment, Proper token :=
    fun _ hseg _ ht => hproper _ (Split.mem_of_split hseg ht)
  refine ⟨hsep.rooted, hsep.single, hsep.dotless, ?_, ?_⟩
  · intro pre post hs
    obtain ⟨octet, rest, hpost, hp⟩ := percent_text hproper hs
    cases hp with
    | escaped _ hlt hr ha =>
      simp only [PathToken.allowed, Bool.and_eq_true, bne_iff_ne] at ha
      exact ⟨octet, rest, hpost, hlt, hr, ha.1.1, ha.1.2, ha.2⟩
  · intro segment hseg
    rw [decode_tokens, tokens_text hproper, split_octets hproper] at hseg
    obtain ⟨part, hpart, rfl⟩ := List.mem_map.mp hseg
    have htext : part.flatMap PathToken.text ∈
        ((pathTokens s).flatMap PathToken.text).splitOn '/' := by
      rw [split_text hproper]
      exact List.mem_map.mpr ⟨part, hpart, rfl⟩
    obtain ⟨hone, htwo⟩ := hsep.dotless _ htext
    exact ⟨fun he => hone (dots_octets (n := 1) (hmem part hpart) he),
      fun he => htwo (dots_octets (n := 2) (hmem part hpart) he)⟩

theorem utf8_cons (ch : Char) (s : Text) : utf8 (ch :: s) = utf8 [ch] ++ utf8 s := by
  simp [utf8]

theorem byte_char_ascii {ch : Char} (h : ch.toNat < 128) : byteChar (UInt8.ofNat ch.toNat) = ch := by
  have hmod : ch.toNat % 2 ^ 8 = ch.toNat := Nat.mod_eq_of_lt (by omega)
  rw [byteChar, UInt8.toNat_ofNat', hmod, Char.ofNat_toNat]

/-- The first byte of a character outside ASCII is no ASCII byte, and not the last one. -/
theorem utf8_wide {ch : Char} (h : 128 ≤ ch.toNat) :
    ∃ byte next rest, utf8 [ch] = byte :: next :: rest ∧ 128 ≤ byte.toNat := by
  have hgt : ¬ch.val.toNat ≤ 0x7f := Nat.not_le.mpr h
  have hbyte : ∀ n m : Nat, n < 2 ^ 8 - 0xc0 → 0xc0 ≤ m → m < 0xf8 → n + m < 256 →
      128 ≤ (UInt8.ofNat (n + m)).toNat := by
    intro n m hn hm _ hlt
    rw [UInt8.toNat_ofNat', Nat.mod_eq_of_lt hlt]
    omega
  simp only [utf8, List.flatMap_cons, List.flatMap_nil, List.append_nil, String.utf8EncodeChar,
    if_neg hgt]
  split
  · exact ⟨_, _, _, rfl, hbyte _ _ (by omega) (by omega) (by omega) (by omega)⟩
  · split
    · exact ⟨_, _, _, rfl, hbyte _ _ (by omega) (by omega) (by omega) (by omega)⟩
    · exact ⟨_, _, _, rfl, hbyte _ _ (by omega) (by omega) (by omega) (by omega)⟩

theorem byte_char_wide {byte : UInt8} (h : 128 ≤ byte.toNat) :
    hexValue (byteChar byte) = none ∧ isPathCharacter (byteChar byte) = false := by
  have hn : (byteChar byte).toNat = byte.toNat := by
    have hv : byte.toNat.isValidChar := Or.inl (Nat.lt_trans byte.toNat_lt (by decide))
    rw [byteChar, Char.ofNat, dif_pos hv]
    exact Char.toNat_ofNatAux hv
  constructor
  · cases hv : hexValue (byteChar byte) with
    | none => rfl
    | some v =>
      have hlt := hex_small hv
      omega
  · cases hp : isPathCharacter (byteChar byte) with
    | false => rfl
    | true =>
      have hlt := path_ascii hp
      omega

/-- A first byte that is a hexadecimal digit is a whole character. -/
theorem utf8_digit {byte : UInt8} {bytes : Bytes} {v : Nat} (hs : utf8 s = byte :: bytes)
    (hv : hexValue (byteChar byte) = some v) :
    ∃ ch rest, s = ch :: rest ∧ hexValue ch = some v ∧ utf8 rest = bytes := by
  cases s with
  | nil => cases hs
  | cons ch rest =>
    rw [utf8_cons] at hs
    by_cases hc : ch.toNat < 128
    · rw [utf8_ascii hc, List.singleton_append, List.cons.injEq] at hs
      rw [← hs.1, byte_char_ascii hc] at hv
      exact ⟨ch, rest, rfl, hv, hs.2⟩
    · obtain ⟨first, next, others, hwide, hle⟩ := utf8_wide (Nat.le_of_not_lt hc)
      rw [hwide, List.cons_append, List.cons.injEq] at hs
      rw [← hs.1, (byte_char_wide hle).1] at hv
      cases hv

theorem loop_plain {before rest : Bytes} {byte : UInt8} (hb : byte ≠ 37) (canonical : Text) :
    canonicalizeLoop (before ++ byte :: rest) before.length canonical =
      if isPathCharacter (byteChar byte) then
        canonicalizeLoop (before ++ [byte] ++ rest) (before ++ [byte]).length
          (canonical ++ [byteChar byte])
      else some (.error "contains a character that is not valid in a URL path") := by
  have hlen : before.length < (before ++ byte :: rest).length := by simp
  have hget : (before ++ byte :: rest)[before.length]? = some byte := by simp
  have hlist : before ++ [byte] ++ rest = before ++ byte :: rest := by simp
  have hlast : (before ++ [byte]).length = before.length + 1 := by simp
  rw [canonicalizeLoop, if_pos hlen, hget, hlist, hlast]
  cases hp : isPathCharacter (byteChar byte) with
  | true => simp [hb, hp]
  | false =>
    simp only [beq_iff_eq, hb, hp, if_false]
    rfl

theorem loop_malformed {before rest : Bytes}
    (h : ∀ first second tail, rest = first :: second :: tail →
      hexValue (byteChar first) = none ∨ hexValue (byteChar second) = none) (canonical : Text) :
    canonicalizeLoop (before ++ 37 :: rest) before.length canonical =
      some (.error "contains malformed percent encoding") := by
  have hlen : before.length < (before ++ 37 :: rest).length := by simp
  have hget : (before ++ 37 :: rest)[before.length]? = some 37 := by simp
  rw [canonicalizeLoop, if_pos hlen, hget]
  simp only [beq_self_eq_true, if_true]
  cases rest with
  | nil => rw [if_pos (by simp)]; rfl
  | cons first rest =>
    cases rest with
    | nil => rw [if_pos (by simp)]; rfl
    | cons second tail =>
      have hone : (before ++ 37 :: first :: second :: tail)[before.length + 1]? = some first := by
        simp
      have htwo : (before ++ 37 :: first :: second :: tail)[before.length + 2]? = some second := by
        simp
      rw [if_neg (by simp), hone, htwo]
      rcases h first second tail rfl with hn | hn
      · simp only [hn]
        rfl
      · simp only [hn]
        cases hexValue (byteChar first) with
        | none => rfl
        | some v => rfl

theorem loop_escape {before rest : Bytes} {first second : UInt8} {high low : Nat}
    (hh : hexValue (byteChar first) = some high) (hl : hexValue (byteChar second) = some low)
    (canonical : Text) :
    canonicalizeLoop (before ++ 37 :: first :: second :: rest) before.length canonical =
      if (escapeToken (high * 16 + low)).allowed then
        canonicalizeLoop (before ++ [37, first, second] ++ rest)
          (before ++ [37, first, second]).length (canonical ++ (escapeToken (high * 16 + low)).text)
      else some (.error "contains an encoded path separator or ambiguous double encoding") := by
  have hlen : before.length < (before ++ 37 :: first :: second :: rest).length := by simp
  have hget : (before ++ 37 :: first :: second :: rest)[before.length]? = some 37 := by simp
  have hone : (before ++ 37 :: first :: second :: rest)[before.length + 1]? = some first := by simp
  have htwo : (before ++ 37 :: first :: second :: rest)[before.length + 2]? = some second := by
    simp
  have hlist : before ++ [37, first, second] ++ rest = before ++ 37 :: first :: second :: rest := by
    simp
  rw [canonicalizeLoop, if_pos hlen, hget, hlist, escape_allowed _ (octet_lt hh hl),
    escape_text hh hl]
  simp only [beq_self_eq_true, if_true]
  rw [if_neg (by simp), hone, htwo]
  simp only [hh, hl]
  cases hsep : (Char.ofNat (high * 16 + low) == '/' || Char.ofNat (high * 16 + low) == '\\'
      || Char.ofNat (high * 16 + low) == '%') with
  | true => rfl
  | false =>
    cases isUnreserved (Char.ofNat (high * 16 + low)) with
    | true => simp
    | false => simp

/-- The loop over bytes computes the recursion over characters, and reads no byte
past the end. -/
theorem canonicalize_loop (s : Text) (before : Bytes) (canonical : Text) :
    canonicalizeLoop (before ++ utf8 s) before.length canonical =
      some ((canonical ++ ·) <$> canonicalizeOctets s) := by
  have hpercent : utf8 ['%'] = [37] := by decide
  induction s using path_induction generalizing before canonical with
  | nil =>
    rw [canonicalizeLoop, if_neg (by simp [utf8])]
    simp [canonicalizeOctets]
  | escape h l rest high low hh hl ih =>
    have hbytes : utf8 ('%' :: h :: l :: rest) =
        37 :: UInt8.ofNat h.toNat :: UInt8.ofNat l.toNat :: utf8 rest := by
      rw [utf8_cons, utf8_cons h, utf8_cons l, hpercent, utf8_ascii (hex_small hh),
        utf8_ascii (hex_small hl)]
      rfl
    rw [hbytes, octets_escape hh hl,
      loop_escape (by rw [byte_char_ascii (hex_small hh)]; exact hh)
        (by rw [byte_char_ascii (hex_small hl)]; exact hl)]
    cases (escapeToken (high * 16 + low)).allowed with
    | false => rfl
    | true =>
      simp only [if_true]
      rw [ih]
      cases canonicalizeOctets rest with
      | error e => rfl
      | ok tail => simp
  | malformed rest ht he hd ih =>
    rw [utf8_cons, hpercent, List.singleton_append, he, loop_malformed]
    · rfl
    · intro first second tail htail
      by_contra hboth
      simp only [not_or, ← ne_eq, Option.ne_none_iff_exists'] at hboth
      obtain ⟨⟨high, hh⟩, ⟨low, hl⟩⟩ := hboth
      obtain ⟨h, rest', rfl, hh', hrest⟩ := utf8_digit htail hh
      obtain ⟨l, rest'', rfl, hl', -⟩ := utf8_digit hrest hl
      rw [tokens_escape hh' hl', List.cons.injEq] at ht
      exact absurd (escape_plain ht.1) (by decide)
  | plain ch rest hc ih =>
    rw [utf8_cons, octets_plain hc]
    by_cases hascii : ch.toNat < 128
    · have hb : UInt8.ofNat ch.toNat ≠ 37 := by
        intro hb
        have hch := byte_char_ascii hascii
        rw [hb] at hch
        exact hc (hch.symm.trans (by decide))
      rw [utf8_ascii hascii, List.singleton_append, loop_plain hb, byte_char_ascii hascii]
      cases isPathCharacter ch with
      | false => rfl
      | true =>
        simp only [if_true]
        rw [ih]
        cases canonicalizeOctets rest with
        | error e => rfl
        | ok tail => simp
    · obtain ⟨byte, next, others, hwide, hle⟩ := utf8_wide (Nat.le_of_not_lt hascii)
      have hb : byte ≠ 37 := by
        rintro rfl
        revert hle
        decide
      have hp : isPathCharacter ch = false := by
        cases hp : isPathCharacter ch with
        | false => rfl
        | true => exact absurd (path_ascii hp) hascii
      rw [hwide, List.cons_append, loop_plain hb, (byte_char_wide hle).2, hp]
      rfl

/-- Canonicalization yields a canonical form, decides by the tokens of a path alone,
and its loop stays inside the input. -/
theorem path_canonical_form :
    (∀ s c, canonicalizePath s = .ok c → canonicalizePath c = .ok c ∧
      pathTokens c = pathTokens s ∧ percentDecode c = percentDecode s ∧ CanonicalPath c) ∧
    (∀ s t, pathTokens s = pathTokens t →
      (canonicalizePath s).toOption = (canonicalizePath t).toOption) ∧
    ∀ s, canonicalizeLoop (utf8 s) 0 [] = some (canonicalizeOctets s) := by
  refine ⟨fun s c h => ?_, fun s t => canonicalize_same, fun s => ?_⟩
  · have ht := canonicalize_tokens h
    refine ⟨canonicalize_again h, ht, ?_, canonical_path h⟩
    rw [decode_tokens, decode_tokens, ht]
  · have hloop := canonicalize_loop s [] []
    rw [List.nil_append, List.length_nil] at hloop
    rw [hloop]
    cases canonicalizeOctets s with
    | error e => rfl
    | ok c => rfl

end Baffle.Proofs
