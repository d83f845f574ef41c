import Baffle.Lib.Canonical
import Baffle.Proofs.Unchanged

namespace Baffle.Proofs
open Canonical

variable {a b : HostRule} {l l' : List HostRule}

/-- The injections differ in the letter case of their header only. -/
structure Respelled (i j : HeaderInjection) : Prop where
  header : i.header.eqIgnoreAsciiCase j.header = true
  secret : i.secret = j.secret
  format : i.format = j.format
  username : i.username = j.username

/-- The rules list the same ports, paths and injections, in any order. -/
structure Rearranged (a b : HostRule) : Prop where
  host : a.host = b.host
  mode : a.mode = b.mode
  ports : a.ports.Perm b.ports
  paths : a.paths.Perm b.paths
  inject : UpTo Respelled a.inject b.inject

def lowerHeaders (rule : HostRule) : List Text :=
  rule.inject.map (fun injection => injection.header.toAsciiLowercase)

/-- One rule for a host, and one injection into a header of a rule. -/
structure DistinctRules (rules : List HostRule) : Prop where
  hosts : (rules.map HostRule.host).Nodup
  headers : ∀ rule ∈ rules, (lowerHeaders rule).Nodup

theorem ValidRules.distinct {x : Crates} {rules : List HostRule} (h : ValidRules x rules) :
    DistinctRules rules where
  hosts := h.hosts
  headers := fun rule hm => (h.each rule hm).headers

theorem respelled_iff {i j : HeaderInjection} :
    Respelled i j ↔ canonicalInjection i = canonicalInjection j := by
  constructor
  · intro h
    have hheader : i.header.toAsciiLowercase = j.header.toAsciiLowercase := beq_iff_eq.mp h.header
    simp only [canonicalInjection, HeaderInjection.mk.injEq]
    exact ⟨hheader, h.secret, h.format, h.username⟩
  · intro h
    obtain ⟨hheader, hsecret, hformat, husername⟩ := canonical_injection h
    exact ⟨beq_iff_eq.mpr hheader, hsecret, hformat, husername⟩

theorem canonical_rule (rule : HostRule) : canonicalRule rule =
    { rule with
      ports := sortBy UInt16.toNat rule.ports
      paths := sortBy id rule.paths
      inject := sortBy HeaderInjection.header (rule.inject.map canonicalInjection) } := rfl

theorem sort_ports {ports ports' : List UInt16} :
    sortBy UInt16.toNat ports = sortBy UInt16.toNat ports' ↔ ports.Perm ports' := by
  apply sort_by_eq
  intro a _ b _ h
  exact UInt16.toNat_inj.mp h

/-- The canonical form of a rule keeps all but the order, once its headers differ. -/
theorem rearranged_iff (hd : (lowerHeaders a).Nodup) :
    Rearranged a b ↔ canonicalRule a = canonicalRule b := by
  have hheaders : ((a.inject.map canonicalInjection).map HeaderInjection.header).Nodup := by
    rw [List.map_map]
    exact hd
  have hinject : UpTo Respelled a.inject b.inject ↔
      sortBy HeaderInjection.header (a.inject.map canonicalInjection) =
        sortBy HeaderInjection.header (b.inject.map canonicalInjection) := by
    rw [sort_by_eq_of_nodup hheaders]
    exact up_to_map canonicalInjection (fun _ _ _ _ => respelled_iff)
  simp only [canonical_rule, HostRule.mk.injEq]
  constructor
  · intro h
    exact ⟨h.host, h.mode, sort_ports.mpr h.ports, sort_eq.mpr h.paths, hinject.mp h.inject⟩
  · intro h
    obtain ⟨hhost, hmode, hports, hpaths, hinjected⟩ := h
    exact ⟨hhost, hmode, sort_ports.mp hports, sort_eq.mp hpaths, hinject.mpr hinjected⟩

theorem canonical_rules (rules : List HostRule) :
    canonicalRules rules = sortBy HostRule.host (rules.map canonicalRule) := rfl

theorem same_effective_iff (hd : DistinctRules l) :
    sameEffectiveRules l l' = true ↔ UpTo Rearranged l l' := by
  have hhosts : ((l.map canonicalRule).map HostRule.host).Nodup := by
    rw [List.map_map]
    exact hd.hosts
  calc sameEffectiveRules l l' = true
      ↔ canonicalRules l = canonicalRules l' := beq_iff_eq
    _ ↔ (l.map canonicalRule).Perm (l'.map canonicalRule) := by
        rw [canonical_rules, canonical_rules, sort_by_eq_of_nodup hhosts]
    _ ↔ UpTo Rearranged l l' :=
        (up_to_map canonicalRule (fun a ha _ _ => rearranged_iff (hd.headers a ha))).symm

theorem canonical_rules_perm (hd : DistinctRules l) (hp : l.Perm l') :
    canonicalRules l = canonicalRules l' := by
  have hhosts : ((l.map canonicalRule).map HostRule.host).Nodup := by
    rw [List.map_map]
    exact hd.hosts
  rw [canonical_rules, canonical_rules, sort_by_eq_of_nodup hhosts]
  exact hp.map canonicalRule

theorem same_effective_equivalence :
    Equivalence (fun l l' => sameEffectiveRules l l' = true) where
  refl := fun _ => beq_iff_eq.mpr rfl
  symm := same_effective_symm
  trans := fun h h' => beq_iff_eq.mpr ((beq_iff_eq.mp h).trans (beq_iff_eq.mp h'))

/-- Two rule lists compare as equal exactly when one is a rearrangement of the
other; the comparison is an equivalence, the order of the lists is nothing to it,
and the rules of an accepted session are distinct. -/
theorem rule_comparison_exact :
    (∀ l l', DistinctRules l → DistinctRules l' →
      (sameEffectiveRules l l' = true ↔ UpTo Rearranged l l')) ∧
    Equivalence (fun l l' => sameEffectiveRules l l' = true) ∧
    (∀ l l' k k', DistinctRules l → DistinctRules l' → l.Perm k → l'.Perm k' →
      sameEffectiveRules k k' = sameEffectiveRules l l') ∧
    ∀ x c, Accepted x c → DistinctRules c.rules := by
  refine ⟨fun l l' hd _ => same_effective_iff hd, same_effective_equivalence, ?_, ?_⟩
  · intro l l' k k' hd hd' hp hp'
    unfold sameEffectiveRules
    rw [canonical_rules_perm hd hp, canonical_rules_perm hd' hp']
  · intro x c ha
    exact (accepted_rules ha).distinct

end Baffle.Proofs
