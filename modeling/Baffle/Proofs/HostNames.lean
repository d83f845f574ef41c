import Baffle.Document

namespace Baffle.Proofs

/-- The name that `normalizeDnsName` hands to the host parser. -/
def dnsStem (s : Text) : Text :=
  (Text.stripSuffix ['.'] s.toAsciiLowercase).getD s.toAsciiLowercase

/-- Everything that is checked about a stem before it is parsed. -/
structure DnsStem (host : Text) : Prop where
  nonempty : host ≠ []
  short : host.len ≤ 253
  not_ip : IpAddr.accepts host = false
  ascii : host.isAscii = true
  labels : ∀ label ∈ host.splitOn '.', isDnsLabel label = true

theorem exact_domain_ok {o : Option UrlHost} {h : Text} :
    exactDomain o = .ok h ↔ o = some (.domain h) := by
  rcases o with _ | (_ | _ | _)
  all_goals simp [exactDomain]

theorem normalize_ok {x : Crates} {s h : Text} :
    normalizeDnsName x s = .ok h ↔
      s ≠ [] ∧ '*' ∉ s ∧ DnsStem (dnsStem s) ∧ x.hostParse (dnsStem s) = some (.domain h) := by
  unfold normalizeDnsName
  simp only [bind_ok, refuse_ok, exact_domain_ok, exists_const]
  simp only [Bool.or_eq_false_iff, List.isEmpty_eq_false_iff, List.contains_eq_mem,
    decide_eq_false_iff_not, not_lt, Bool.not_eq_false', List.all_eq_true, dnsStem]
  constructor
  · rintro ⟨⟨hs, hstar⟩, ⟨⟨⟨hne, hlen⟩, hip⟩, hascii⟩, hlabels, hd⟩
    exact ⟨hs, hstar, ⟨hne, hlen, hip, hascii, hlabels⟩, hd⟩
  · rintro ⟨hs, hstar, hc, hd⟩
    exact ⟨⟨hs, hstar⟩, ⟨⟨⟨hc.nonempty, hc.short⟩, hc.not_ip⟩, hc.ascii⟩, hc.labels, hd⟩

/-- Every character is the separator or lies in one of the pieces. -/
theorem mem_split {sep c : Char} {s : Text} (h : c ∈ s) (hc : c ≠ sep) :
    ∃ piece ∈ s.splitOn sep, c ∈ piece := by
  induction s with
  | nil => cases h
  | cons d s ih =>
    rw [List.splitOn_cons_eq_if_modifyHead]
    obtain ⟨p, ps, hps⟩ := List.exists_cons_of_ne_nil (List.splitOn_ne_nil sep s)
    rcases List.mem_cons.mp h with rfl | h
    · simp [hc, hps]
    · obtain ⟨piece, hp, hm⟩ := ih h
      split
      · exact ⟨piece, List.mem_cons_of_mem _ hp, hm⟩
      · rw [hps] at hp ⊢
        rcases List.mem_cons.mp hp with rfl | hp
        · exact ⟨d :: piece, by simp, List.mem_cons_of_mem _ hm⟩
        · exact ⟨piece, by simp [hp], hm⟩

theorem split_append_sep (sep : Char) (s : Text) :
    (s ++ [sep]).splitOn sep = s.splitOn sep ++ [[]] := by
  rw [List.splitOn_append_cons_self]
  simp

/-- A checked stem has no final dot: its last label would be empty. -/
theorem DnsStem.no_final_dot {host : Text} (h : DnsStem host) (s : Text) : host ≠ s ++ ['.'] := by
  rintro rfl
  have := h.labels [] (by rw [split_append_sep]; simp)
  simp [isDnsLabel] at this

theorem DnsStem.characters {host : Text} (h : DnsStem host) {c : Char} (hc : c ∈ host) :
    c = '.' ∨ c.isAlphanum = true ∨ c = '-' := by
  by_cases hd : c = '.'
  · exact Or.inl hd
  · obtain ⟨label, hl, hm⟩ := mem_split hc hd
    have := h.labels label hl
    simp only [isDnsLabel, Bool.not_eq_true', Bool.or_eq_false_iff, Bool.not_eq_false',
      List.all_eq_true] at this
    exact Or.inr (by simpa using this.2 c hm)

theorem lowercase_mem {s : Text} {c : Char} (h : c ∈ s.toAsciiLowercase) : c.isUpper = false := by
  obtain ⟨d, -, rfl⟩ := List.mem_map.mp h
  exact Char.isUpper_toLower_eq_false d

theorem dns_stem_mem {s : Text} {c : Char} (h : c ∈ dnsStem s) : c ∈ s.toAsciiLowercase := by
  unfold dnsStem at h
  cases hs : Text.stripSuffix ['.'] s.toAsciiLowercase with
  | none => simpa [hs] using h
  | some t =>
    rw [Text.strip_suffix_some hs]
    exact List.mem_append_left _ (by simpa [hs] using h)

theorem dns_stem_ldh {s : Text} (h : DnsStem (dnsStem s)) : isLdhName (dnsStem s) = true := by
  unfold isLdhName
  apply List.all_eq_true.mpr
  intro c hc
  have hu := lowercase_mem (dns_stem_mem hc)
  rcases h.characters hc with rfl | ha | rfl
  · decide
  · simp only [Char.isAlphanum, Char.isAlpha, hu, Bool.false_or] at ha
    rw [ha]
    rfl
  · decide

/-- The result of normalization is the stem itself. -/
theorem normalize_stem {x : Crates} (law : x.HostParseLaw) {s h : Text}
    (hs : normalizeDnsName x s = .ok h) : dnsStem s = h := by
  obtain ⟨-, -, hc, hd⟩ := normalize_ok.mp hs
  exact (law _ _ (dns_stem_ldh hc) hd).symm

/-- `s` is `h` up to letter case and one final dot. -/
def Spells (s h : Text) : Prop :=
  s.toAsciiLowercase = h.toAsciiLowercase ∨ s.toAsciiLowercase = h.toAsciiLowercase ++ ['.']

theorem dns_stem_lowercase {s : Text} : (dnsStem s).toAsciiLowercase = dnsStem s := by
  unfold dnsStem
  cases hs : Text.stripSuffix ['.'] s.toAsciiLowercase with
  | none => simp
  | some t =>
    have he := congrArg Text.toAsciiLowercase (Text.strip_suffix_some hs)
    rw [Text.to_ascii_lowercase_idem, Text.strip_suffix_some hs, Text.to_ascii_lowercase_append]
      at he
    exact ((List.append_inj_left' he rfl).symm)

theorem spells_stem {s h : Text} (hc : DnsStem h) (hl : h.toAsciiLowercase = h)
    (hs : Spells s h) : dnsStem s = h := by
  unfold dnsStem
  rcases hs with hs | hs
  · rw [hs, hl]
    cases ht : Text.stripSuffix ['.'] h with
    | none => rfl
    | some t => exact absurd (Text.strip_suffix_some ht) (hc.no_final_dot t)
  · rw [hs, hl, Text.strip_suffix_append]
    rfl

theorem Spells.characters {s h : Text} (hc : DnsStem h) (hl : h.toAsciiLowercase = h)
    (hs : Spells s h) {c : Char} (hm : c ∈ s) :
    c.toLower = '.' ∨ c.toLower.isAlphanum = true ∨ c.toLower = '-' := by
  have hm : c.toLower ∈ s.toAsciiLowercase := List.mem_map.mpr ⟨c, hm, rfl⟩
  rcases hs with hs | hs
  · rw [hs, hl] at hm
    exact hc.characters hm
  · rw [hs, hl] at hm
    rcases List.mem_append.mp hm with hm | hm
    · exact hc.characters hm
    · exact Or.inl (List.mem_singleton.mp hm)

/-- A normalized name is a checked lowercase stem that the host parser keeps. -/
theorem normalized_stem {x : Crates} (law : x.HostParseLaw) {raw h : Text}
    (hr : normalizeDnsName x raw = .ok h) :
    DnsStem h ∧ h.toAsciiLowercase = h ∧ x.hostParse h = some (.domain h) := by
  obtain ⟨-, -, hc, hd⟩ := normalize_ok.mp hr
  have hstem := normalize_stem law hr
  rw [hstem] at hc hd
  exact ⟨hc, hstem ▸ dns_stem_lowercase, hd⟩

/-- Every spelling of a normalized name normalizes to it. -/
theorem normalize_spelling {x : Crates} (law : x.HostParseLaw) {raw h s : Text}
    (hr : normalizeDnsName x raw = .ok h) (hs : Spells s h) : normalizeDnsName x s = .ok h := by
  obtain ⟨hc, hl, hd⟩ := normalized_stem law hr
  have hss := spells_stem hc hl hs
  refine normalize_ok.mpr ⟨?_, ?_, hss ▸ hc, hss ▸ hd⟩
  · rintro rfl
    exact hc.nonempty (by simpa [dnsStem, Text.stripSuffix, Text.toAsciiLowercase] using hss.symm)
  · intro hstar
    rcases hs.characters hc hl hstar with h | h | h <;> revert h <;> decide

theorem spelling_no_colon {x : Crates} (law : x.HostParseLaw) {raw h s : Text}
    (hr : normalizeDnsName x raw = .ok h) (hs : Spells s h) : ':' ∉ s := by
  obtain ⟨hc, hl, -⟩ := normalized_stem law hr
  intro hm
  rcases hs.characters hc hl hm with h | h | h <;> revert h <;> decide

end Baffle.Proofs
