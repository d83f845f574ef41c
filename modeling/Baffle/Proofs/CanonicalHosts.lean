import Baffle.Proofs.Admission
import Baffle.Proofs.HostNames
import Baffle.Lib.Split

namespace Baffle.Proofs

variable {x : Crates} {s t h k : Text}

/-- A name that is its own normal form. -/
structure CanonicalHost (x : Crates) (h : Text) : Prop where
  labels : ∀ label ∈ h.splitOn '.', 1 ≤ Text.len label ∧ Text.len label ≤ 63 ∧
    label.head? ≠ some '-' ∧ label.getLast? ≠ some '-' ∧
    ∀ c ∈ label, c.isLower = true ∨ c.isDigit = true ∨ c = '-'
  short : h.len ≤ 253
  no_final_dot : ∀ s, h ≠ s ++ ['.']
  no_address : ∀ address,
    x.hostParse h ≠ some (.ipv4 address) ∧ x.hostParse h ≠ some (.ipv6 address)

/-- Two strings are the same up to letter case and one final dot. -/
def SameHost (s t : Text) : Prop := Spells s t ∨ Spells t s

/-- The string without one final dot. -/
def withoutFinalDot (s : Text) : Text := (Text.stripSuffix ['.'] s).getD s

/-- There is an empty label, not counting the root behind a final dot. -/
def HasEmptyLabel (s : Text) : Prop := [] ∈ (withoutFinalDot s).splitOn '.'

theorem text_len_pos (h : s ≠ []) : 1 ≤ s.len := by
  obtain ⟨c, rest, rfl⟩ := List.exists_cons_of_ne_nil h
  have hc := Char.utf8Size_pos c
  simp only [Text.len, List.map_cons, List.sum_cons]
  omega

theorem canonical_label {label : Text} (h : isDnsLabel label = true) :
    1 ≤ label.len ∧ label.len ≤ 63 ∧ label.head? ≠ some '-' ∧ label.getLast? ≠ some '-' := by
  simp only [isDnsLabel, Bool.not_eq_true', Bool.or_eq_false_iff, List.isEmpty_eq_false_iff,
    decide_eq_false_iff_not, not_lt, beq_eq_false_iff_ne] at h
  obtain ⟨⟨⟨⟨hne, hlen⟩, hhead⟩, hlast⟩, -⟩ := h
  exact ⟨text_len_pos hne, hlen, hhead, hlast⟩

theorem normalized_canonical (law : x.HostParseLaw) (hs : normalizeDnsName x s = .ok h) :
    CanonicalHost x h := by
  obtain ⟨hc, hl, hd⟩ := normalized_stem law hs
  refine ⟨fun label hm => ?_, hc.short, hc.no_final_dot, fun address => ?_⟩
  · obtain ⟨hpos, hlen, hhead, hlast⟩ := canonical_label (hc.labels label hm)
    refine ⟨hpos, hlen, hhead, hlast, fun c hcl => ?_⟩
    have hmem : c ∈ h := Split.mem_of_split hm hcl
    have hupper : c.isUpper = false := by
      rw [← hl] at hmem
      exact lowercase_mem hmem
    have hchar := hc.labels label hm
    simp only [isDnsLabel, Bool.not_eq_true', Bool.or_eq_false_iff, Bool.not_eq_false',
      List.all_eq_true] at hchar
    have halnum := hchar.2 c hcl
    simp only [Char.isAlphanum, Char.isAlpha, hupper, Bool.false_or, Bool.or_eq_true,
      beq_iff_eq, or_assoc] at halnum
    exact halnum
  · rw [hd]
    exact ⟨(fun he => by cases he), fun he => by cases he⟩

theorem stem_spells (law : x.HostParseLaw) (hs : normalizeDnsName x s = .ok h) : Spells s h := by
  obtain ⟨-, hl, -⟩ := normalized_stem law hs
  have hstem := normalize_stem law hs
  unfold dnsStem at hstem
  cases hdot : Text.stripSuffix ['.'] s.toAsciiLowercase with
  | none =>
    rw [hdot, Option.getD_none] at hstem
    exact Or.inl (hstem.trans hl.symm)
  | some u =>
    rw [hdot, Option.getD_some] at hstem
    refine Or.inr ?_
    rw [Text.strip_suffix_some hdot, hstem, hl]

theorem same_host_of_eq (law : x.HostParseLaw) (hs : normalizeDnsName x s = .ok h)
    (ht : normalizeDnsName x t = .ok h) : SameHost s t := by
  rcases stem_spells law hs with hs | hs
  · rcases stem_spells law ht with ht | ht
    · exact Or.inl (Or.inl (hs.trans ht.symm))
    · exact Or.inr (Or.inr (by rw [ht, hs]))
  · rcases stem_spells law ht with ht | ht
    · exact Or.inl (Or.inr (by rw [hs, ht]))
    · exact Or.inl (Or.inl (hs.trans ht.symm))

/-- A final dot more does not change the stem. -/
theorem stem_of_spelling (hstem : DnsStem (dnsStem s)) (hs : Spells s t) :
    dnsStem s = dnsStem t := by
  rcases hs with hs | hs
  · unfold dnsStem
    rw [hs]
  · have hst : dnsStem s = t.toAsciiLowercase := by
      unfold dnsStem
      rw [hs, Text.strip_suffix_append]
      rfl
    rw [hst] at hstem ⊢
    unfold dnsStem
    cases hdot : Text.stripSuffix ['.'] t.toAsciiLowercase with
    | none => rfl
    | some u => exact absurd (Text.strip_suffix_some hdot) (hstem.no_final_dot u)

theorem same_host_eq (law : x.HostParseLaw) (hs : normalizeDnsName x s = .ok h)
    (ht : normalizeDnsName x t = .ok k) (hst : SameHost s t) : h = k := by
  obtain ⟨-, -, hcs, -⟩ := normalize_ok.mp hs
  obtain ⟨-, -, hct, -⟩ := normalize_ok.mp ht
  rw [← normalize_stem law hs, ← normalize_stem law ht]
  rcases hst with hst | hts
  · exact stem_of_spelling hcs hst
  · exact (stem_of_spelling hct hts).symm

theorem lower_dot {c : Char} (hc : c ≠ '.') : c.toLower ≠ '.' := by
  intro hdot
  by_cases hu : c.isUpper = true
  · have halpha : c.toLower.isAlpha = true := by
      rw [Char.isAlpha_toLower_eq_isAlpha, Char.isAlpha, hu, Bool.true_or]
    rw [hdot] at halpha
    cases halpha
  · rw [Char.toLower_eq_of_not_isUpper hu] at hdot
    exact hc hdot

theorem lowercase_split (s : Text) :
    s.toAsciiLowercase.splitOn '.' = (s.splitOn '.').map Text.toAsciiLowercase := by
  have hmap : ∀ u : Text, u.toAsciiLowercase = u.flatMap (fun c => [c.toLower]) := by
    intro u
    rw [Text.toAsciiLowercase, List.map_eq_flatMap]
  have hsplit : (s.flatMap (fun c => [c.toLower])).splitOn '.' =
      (s.splitOn '.').map (List.flatMap (fun c => [c.toLower])) :=
    Split.split_flat_map rfl (fun c _ hc hm => lower_dot hc (List.mem_singleton.mp hm).symm)
  rw [hmap, hsplit]
  exact List.map_congr_left fun u _ => (hmap u).symm

theorem stem_without_dot (s : Text) : dnsStem s = (withoutFinalDot s).toAsciiLowercase := by
  unfold dnsStem withoutFinalDot
  cases hdot : Text.stripSuffix ['.'] s with
  | some u =>
    have hlower : Text.toAsciiLowercase ['.'] = ['.'] := rfl
    rw [Text.strip_suffix_some hdot, Text.to_ascii_lowercase_append, hlower,
      Text.strip_suffix_append]
    rfl
  | none =>
    rw [Option.getD_none]
    cases hlower : Text.stripSuffix ['.'] s.toAsciiLowercase with
    | none => rfl
    | some u =>
      have hlast := Text.strip_suffix_some hlower
      obtain ⟨a, b, rfl, -, hb⟩ := List.map_eq_append_iff.mp hlast
      obtain ⟨c, rfl, hc⟩ := List.map_eq_singleton_iff.mp hb
      have hcdot : c = '.' := by
        by_contra hne
        exact lower_dot hne hc
      rw [hcdot, Text.strip_suffix_append] at hdot
      cases hdot

theorem empty_label_rejected (hs : HasEmptyLabel s) : normalizeDnsName x s ≠ .ok h := by
  intro hok
  obtain ⟨-, -, hc, -⟩ := normalize_ok.mp hok
  have hempty : [] ∈ (dnsStem s).splitOn '.' := by
    rw [stem_without_dot, lowercase_split]
    exact List.mem_map.mpr ⟨[], hs, rfl⟩
  have hlabel := (canonical_label (hc.labels [] hempty)).1
  exact absurd hlabel (Nat.not_succ_le_zero 0)

theorem two_dots_empty (s : Text) : HasEmptyLabel (s ++ ['.', '.']) := by
  have hstrip : withoutFinalDot (s ++ ['.', '.']) = s ++ ['.'] := by
    have hsplit : s ++ ['.', '.'] = (s ++ ['.']) ++ ['.'] := by simp
    rw [withoutFinalDot, hsplit, Text.strip_suffix_append]
    rfl
  rw [HasEmptyLabel, hstrip, split_append_sep]
  exact List.mem_append_right _ (List.mem_singleton_self _)

/-- Normalization is a canonical form: every spelling of a result gives it again,
and two accepted strings agree exactly when they spell the same name. -/
theorem host_names_canonical (law : x.HostParseLaw) :
    (∀ s h, normalizeDnsName x s = .ok h → CanonicalHost x h ∧
      ∀ v, Spells v h → normalizeDnsName x v = .ok h) ∧
    (∀ s t h k, normalizeDnsName x s = .ok h → normalizeDnsName x t = .ok k →
      (h = k ↔ SameHost s t)) ∧
    (∀ s h, HasEmptyLabel s → normalizeDnsName x s ≠ .ok h) ∧
    ∀ s h, normalizeDnsName x (s ++ ['.', '.']) ≠ .ok h := by
  refine ⟨fun s h hs => ⟨normalized_canonical law hs, fun v => normalize_spelling law hs⟩,
    fun s t h k hs ht => ⟨fun he => ?_, same_host_eq law hs ht⟩,
    fun s h => empty_label_rejected, fun s h => empty_label_rejected (two_dots_empty s)⟩
  subst he
  exact same_host_of_eq law hs ht

theorem host_names_canonical_sample :
    normalizeDnsName sampleCrates "API.Example.com.".toList = .ok "api.example.com".toList ∧
      normalizeDnsName sampleCrates "api.EXAMPLE.com".toList = .ok "api.example.com".toList := by
  have hok : normalizeDnsName sampleCrates "API.Example.com.".toList =
      .ok "api.example.com".toList := by decide +kernel
  obtain ⟨hform, -, -, -⟩ := host_names_canonical sample_host_parse
  exact ⟨hok, (hform _ _ hok).2 _ (Or.inl (by decide))⟩

end Baffle.Proofs
