import Baffle.Proofs.Interception

namespace Baffle.Proofs

variable {x : Crates} {s t name digits host : Text} {d : Destination}

/-- One or more decimal digits that denote a port. -/
structure PortDigits (digits : Text) (port : UInt16) : Prop where
  nonempty : digits ≠ []
  decimal : ∀ ch ∈ digits, ch.isDigit = true
  value : Text.digitsValue digits = port.toNat
  positive : 1 ≤ port.toNat

/-- `name` or `name:digits`. -/
inductive Grammar (x : Crates) : Text → Destination → Prop where
  | named (name host : Text) (hascii : name.isAscii = true)
      (hn : normalizeDnsName x name = .ok host) : Grammar x name ⟨host, 443⟩
  | ported (name digits host : Text) (port : UInt16)
      (hascii : Text.isAscii (name ++ ':' :: digits) = true)
      (hn : normalizeDnsName x name = .ok host) (hd : PortDigits digits port) :
      Grammar x (name ++ ':' :: digits) ⟨host, port⟩

/-- `name:+digits`, which the integer parser of the standard library also takes. -/
inductive SignedPort (x : Crates) : Text → Destination → Prop where
  | signed (name digits host : Text) (port : UInt16)
      (hascii : Text.isAscii (name ++ ':' :: '+' :: digits) = true)
      (hn : normalizeDnsName x name = .ok host) (hd : PortDigits digits port) :
      SignedPort x (name ++ ':' :: '+' :: digits) ⟨host, port⟩

theorem digits_ok {port : UInt16} :
    (if digits.isEmpty || !digits.all Char.isDigit then none
      else if Text.digitsValue digits < 65536 then some (UInt16.ofNat (Text.digitsValue digits))
      else none) = some port ∧ port ≠ 0 ↔ PortDigits digits port := by
  have hlt : port.toNat < 65536 := port.toNat_lt
  have hpos : port ≠ 0 ↔ 1 ≤ port.toNat := by
    rw [Nat.one_le_iff_ne_zero, ne_eq, ne_eq, ← UInt16.toNat_inj]
    rfl
  rw [hpos]
  constructor
  · rintro ⟨h, hp⟩
    split at h
    · cases h
    · rename_i hd
      simp only [Bool.or_eq_true, List.isEmpty_iff, Bool.not_eq_true', not_or,
        Bool.not_eq_false, List.all_eq_true] at hd
      split at h
      · rename_i hv
        refine ⟨hd.1, hd.2, ?_, hp⟩
        rw [← Option.some.inj h, UInt16.toNat_ofNat', Nat.mod_eq_of_lt hv]
      · cases h
  · rintro ⟨hne, hall, hv, hp⟩
    refine ⟨?_, hp⟩
    rw [if_neg, hv, if_pos hlt, UInt16.ofNat_toNat]
    simp only [Bool.or_eq_true, List.isEmpty_iff, Bool.not_eq_true', not_or, Bool.not_eq_false,
      List.all_eq_true]
    exact ⟨hne, hall⟩

theorem parse_u16_ok {port : UInt16} : Text.parseU16 s = some port ∧ port ≠ 0 ↔
    PortDigits s port ∨ ∃ digits, s = '+' :: digits ∧ PortDigits digits port := by
  have hsign : ∀ {rest : Text}, ¬PortDigits ('+' :: rest) port := by
    intro rest h
    have hplus := h.decimal '+' (by simp)
    revert hplus
    decide
  unfold Text.parseU16
  split
  · rename_i rest
    rw [digits_ok]
    constructor
    · exact fun h => Or.inr ⟨rest, rfl, h⟩
    · rintro (h | ⟨digits, he, h⟩)
      · exact absurd h hsign
      · rwa [(List.cons.inj he).2]
  · rename_i hne
    rw [digits_ok]
    constructor
    · exact Or.inl
    · rintro (h | ⟨digits, he, -⟩)
      · exact h
      · exact absurd he (hne digits)

/-- Every character of a name that is accepted may stand in a DNS label, or is a dot. -/
theorem normalized_characters (h : normalizeDnsName x s = .ok host) {ch : Char} (hm : ch ∈ s) :
    ch.toLower = '.' ∨ ch.toLower.isAlphanum = true ∨ ch.toLower = '-' := by
  obtain ⟨-, -, hc, -⟩ := normalize_ok.mp h
  have hlower : ch.toLower ∈ s.toAsciiLowercase := List.mem_map.mpr ⟨ch, hm, rfl⟩
  have hstem : s.toAsciiLowercase = dnsStem s ∨ s.toAsciiLowercase = dnsStem s ++ ['.'] := by
    unfold dnsStem
    cases hs : Text.stripSuffix ['.'] s.toAsciiLowercase with
    | none => exact Or.inl rfl
    | some u => exact Or.inr (Text.strip_suffix_some hs)
  rcases hstem with hs | hs
  · rw [hs] at hlower
    exact hc.characters hlower
  · rw [hs] at hlower
    rcases List.mem_append.mp hlower with hlower | hlower
    · exact hc.characters hlower
    · exact Or.inl (List.mem_singleton.mp hlower)

theorem normalized_unmarked (h : normalizeDnsName x s = .ok host) :
    ':' ∉ s ∧ '@' ∉ s ∧ '%' ∉ s := by
  refine ⟨fun hm => ?_, fun hm => ?_, fun hm => ?_⟩
  all_goals
    have hc := normalized_characters h hm
    revert hc
    decide

theorem split_authority_ok {port : UInt16} :
    splitAuthority s (some 443) = .ok (name, port) ↔
      (':' ∉ s ∧ s = name ∧ port = 443) ∨
        ∃ digits, ':' ∉ name ∧ s = name ++ ':' :: digits ∧ Text.parseU16 digits = some port := by
  unfold splitAuthority
  cases hs : Text.splitOnce ':' s with
  | none =>
    have hn := Text.split_once_none.mp hs
    simp only [pure_ok, Prod.mk.injEq]
    constructor
    · rintro ⟨rfl, rfl⟩
      exact Or.inl ⟨hn, rfl, rfl⟩
    · rintro (⟨-, rfl, rfl⟩ | ⟨digits, -, rfl, -⟩)
      · exact ⟨rfl, rfl⟩
      · exact absurd (by simp) hn
  | some parts =>
    obtain ⟨before, after⟩ := parts
    obtain ⟨rfl, hn⟩ := Text.split_once_some hs
    constructor
    · intro h
      cases hp : Text.parseU16 after with
      | none => simp [hp] at h
      | some p =>
        simp only [hp, pure_ok, Prod.mk.injEq] at h
        obtain ⟨rfl, rfl⟩ := h
        exact Or.inr ⟨after, hn, rfl, hp⟩
    · rintro (⟨hcolon, -⟩ | ⟨digits, hn', he, hp⟩)
      · exact absurd (by simp) hcolon
      · rw [he, Text.split_once_append digits hn'] at hs
        simp only [Option.some.injEq, Prod.mk.injEq] at hs
        obtain ⟨rfl, rfl⟩ := hs
        simp [hp]

/-- What `parseAuthorityText` checks, its character list left out: a name that
normalizes contains none of them. -/
theorem parse_authority_ok : parseAuthorityText x s (some 443) = .ok d ↔
    s.isAscii = true ∧ ∃ name, normalizeDnsName x name = .ok d.host ∧
      ((s = name ∧ d.port = 443) ∨
        ∃ port, s = name ++ ':' :: port ∧ Text.parseU16 port = some d.port ∧ d.port ≠ 0) := by
  obtain ⟨host, port⟩ := d
  simp only [parseAuthorityText, bind_ok, refuse_ok, map_error_ok, pure_ok, exists_const,
    Bool.or_eq_false_iff, List.isEmpty_eq_false_iff, Bool.not_eq_false', List.any_eq_false,
    Bool.or_eq_true, beq_iff_eq, not_or, beq_eq_false_iff_ne, Prod.exists, split_authority_ok]
  constructor
  · rintro ⟨⟨⟨-, hascii⟩, -⟩, name, p, hsplit, hp, host', hn, he⟩
    cases he
    refine ⟨hascii, name, hn, ?_⟩
    rcases hsplit with ⟨-, rfl, rfl⟩ | ⟨digits, -, rfl, hdigits⟩
    · exact Or.inl ⟨rfl, rfl⟩
    · exact Or.inr ⟨digits, rfl, hdigits, hp⟩
  · rintro ⟨hascii, name, hn, hform⟩
    obtain ⟨hcolon, hat, hpercent⟩ := normalized_unmarked hn
    have hne := (normalize_ok.mp hn).1
    rcases hform with ⟨rfl, rfl⟩ | ⟨digits, rfl, hdigits, hp⟩
    · refine ⟨⟨⟨hne, hascii⟩, fun ch hm => ⟨?_, ?_⟩⟩, s, 443, Or.inl ⟨hcolon, rfl, rfl⟩,
        by decide, host, hn, rfl⟩
      · rintro rfl
        exact hat hm
      · rintro rfl
        exact hpercent hm
    · have hdec : PortDigits digits port ∨ ∃ rest, digits = '+' :: rest ∧ PortDigits rest port :=
        parse_u16_ok.mp ⟨hdigits, hp⟩
      refine ⟨⟨⟨by simp, hascii⟩, fun ch hm => ?_⟩, name, port,
        Or.inr ⟨digits, hcolon, rfl, hdigits⟩, hp, host, hn, rfl⟩
      have hch : ch ∈ name ∨ ch = ':' ∨ ch = '+' ∨ ch.isDigit = true := by
        rcases List.mem_append.mp hm with hm | hm
        · exact Or.inl hm
        · rcases List.mem_cons.mp hm with hm | hm
          · exact Or.inr (Or.inl hm)
          · rcases hdec with hd | ⟨rest, rfl, hd⟩
            · exact Or.inr (Or.inr (Or.inr (hd.decimal ch hm)))
            · rcases List.mem_cons.mp hm with hm | hm
              · exact Or.inr (Or.inr (Or.inl hm))
              · exact Or.inr (Or.inr (Or.inr (hd.decimal ch hm)))
      constructor
      · rintro rfl
        rcases hch with h | h
        · exact hat h
        · revert h
          decide
      · rintro rfl
        rcases hch with h | h
        · exact hpercent h
        · revert h
          decide

theorem parse_authority_grammar :
    parseAuthorityText x s (some 443) = .ok d ↔ Grammar x s d ∨ SignedPort x s d := by
  rw [parse_authority_ok]
  obtain ⟨host, port⟩ := d
  constructor
  · rintro ⟨hascii, name, hn, ⟨rfl, rfl⟩ | ⟨digits, rfl, hport⟩⟩
    · exact Or.inl (.named s host hascii hn)
    · rcases parse_u16_ok.mp hport with hd | ⟨digits, rfl, hd⟩
      · exact Or.inl (.ported name digits host port hascii hn hd)
      · exact Or.inr (.signed name digits host port hascii hn hd)
  · rintro (h | h)
    · cases h with
      | named _ _ hascii hn => exact ⟨hascii, s, hn, Or.inl ⟨rfl, rfl⟩⟩
      | ported name digits _ _ hascii hn hd =>
        exact ⟨hascii, name, hn, Or.inr ⟨digits, rfl, parse_u16_ok.mpr (Or.inl hd)⟩⟩
    · cases h with
      | signed name digits _ _ hascii hn hd =>
        exact ⟨hascii, name, hn, Or.inr ⟨_, rfl, parse_u16_ok.mpr (Or.inr ⟨digits, rfl, hd⟩)⟩⟩

/-- No text is of both forms. -/
theorem signed_not_grammar {d' : Destination} (h : SignedPort x s d) : ¬Grammar x s d' := by
  intro hg
  obtain ⟨name, digits, hs, hcolon⟩ : ∃ name digits, s = name ++ ':' :: '+' :: digits ∧ ':' ∉ name := by
    cases h with
    | signed name digits host port hascii hn hd =>
      exact ⟨name, digits, rfl, (normalized_unmarked hn).1⟩
  cases hg with
  | named _ host hascii hn =>
    rw [hs] at hn
    exact (normalized_unmarked hn).1 (by simp)
  | ported name' digits' host port hascii hn hd =>
    have hsplit := Text.split_once_append digits' (normalized_unmarked hn).1
    rw [hs, Text.split_once_append _ hcolon, Option.some.injEq, Prod.mk.injEq] at hsplit
    have hplus := hd.decimal '+' (by rw [← hsplit.2]; simp)
    revert hplus
    decide

/-- The parser accepts `s` just when the grammar does, and rejects it otherwise. -/
def ParsesGrammar (x : Crates) (s : Text) : Prop :=
  (∀ d, parseAuthorityText x s (some 443) = .ok d ↔ Grammar x s d) ∧
    ∀ e, parseAuthorityText x s (some 443) = .error e → e = .invalidAuthority

/-- The parser keeps to the grammar on every text but those with a signed port. -/
theorem authority_grammar (x : Crates) (s : Text) :
    ParsesGrammar x s ↔ ∀ d, ¬SignedPort x s d := by
  constructor
  · intro h d hsigned
    have hok := parse_authority_grammar.mpr (Or.inr hsigned)
    exact signed_not_grammar hsigned ((h.1 d).mp hok)
  · intro h
    refine ⟨fun d => ?_, fun e => parse_authority_error⟩
    rw [parse_authority_grammar]
    exact ⟨fun hd => hd.resolve_right (h d), Or.inl⟩

theorem authority_grammar_signed : ¬ParsesGrammar sampleCrates "example.com:+443".toList := by
  intro h
  have hok : parseAuthorityText sampleCrates "example.com:+443".toList (some 443) =
      .ok ⟨"example.com".toList, 443⟩ := by decide +kernel
  have hg := (h.1 _).mp hok
  have hsigned : SignedPort sampleCrates "example.com:+443".toList ⟨"example.com".toList, 443⟩ := by
    have hs : "example.com:+443".toList = "example.com".toList ++ ':' :: '+' :: "443".toList := by
      decide +kernel
    rw [hs]
    exact .signed _ _ _ _ (by decide) (by decide +kernel)
      ⟨by decide, List.all_eq_true.mp (by decide), by decide +kernel, by decide⟩
  exact signed_not_grammar hsigned hg

end Baffle.Proofs
