import Baffle.ImportGraph
import Baffle.Proofs.Documents

open Baffle.Composition

namespace Baffle.Proofs

theorem any_ne {α : Type} [DecidableEq α] {o : Option α} {v : α} :
    o.any (· != v) = false ↔ ∀ w, o = some w → w = v := by
  cases o with
  | none => simp
  | some w => simp

/-- Record an explicit `unmatched` value of the root or of an imported file. -/
def setUnmatched (isRoot : Bool) (o : Option UnmatchedHostPolicy) (c : Composition) : Composition :=
  if isRoot then { c with rootUnmatched := o.or c.rootUnmatched }
  else { c with importedUnmatched := o.or c.importedUnmatched }

def setDefault (isRoot : Bool) (o : Option CredentialMode) (c : Composition) : Composition :=
  if isRoot then { c with rootCredentialDefault := o.or c.rootCredentialDefault }
  else { c with importedCredentialDefault := o.or c.importedCredentialDefault }

theorem add_unmatched_ok {name : Text} {isRoot explicit : Bool} {v : UnmatchedHostPolicy}
    {c c' : Composition} :
    c.addUnmatched name isRoot explicit v = .ok c' ↔
      (explicit = true →
        ∀ w, (if isRoot then c.rootUnmatched else c.importedUnmatched) = some w → w = v) ∧
      c' = setUnmatched isRoot (if explicit then some v else none) c := by
  cases explicit with
  | false =>
    simp only [addUnmatched, Bool.not_false, ↓reduceIte, pure_ok, Bool.false_eq_true,
      false_implies, true_and]
    rw [eq_comm]
    cases isRoot <;> rfl
  | true =>
    simp only [addUnmatched, Bool.not_true, Bool.false_eq_true, ↓reduceIte, bind_ok, refuse_ok,
      pure_ok, exists_const, any_ne, forall_const]
    rw [eq_comm (a := c')]
    rfl

theorem add_credential_default_ok {name : Text} {isRoot : Bool} {mode : Option CredentialMode}
    {c c' : Composition} :
    c.addCredentialDefault name isRoot mode = .ok c' ↔
      (∀ m, mode = some m →
        ∀ w, (if isRoot then c.rootCredentialDefault else c.importedCredentialDefault) = some w →
          w = m) ∧
      c' = setDefault isRoot mode c := by
  cases mode with
  | none =>
    simp only [addCredentialDefault, pure_ok, reduceCtorEq, false_implies, implies_true, true_and]
    rw [eq_comm]
    cases isRoot <;> rfl
  | some m =>
    simp only [addCredentialDefault, bind_ok, refuse_ok, pure_ok, exists_const, any_ne,
      Option.some.injEq, forall_eq']
    rw [eq_comm (a := c')]
    rfl

/-- Insert a list of entries, later ones last. -/
def insertAll (m : SortedMap Text CredentialMode) (es : List (Text × CredentialMode)) :
    SortedMap Text CredentialMode := es.foldl (fun m e => m.insert e.1 e.2) m

theorem get_insert_all {m : SortedMap Text CredentialMode} {es : List (Text × CredentialMode)}
    (hn : (es.map Prod.fst).Nodup) (hm : ∀ e ∈ es, ∀ w, m.get e.1 = some w → w = e.2)
    (k : Text) (v : CredentialMode) :
    (insertAll m es).get k = some v ↔ m.get k = some v ∨ (k, v) ∈ es := by
  unfold insertAll
  rw [SortedMap.get_foldl_insert Prod.fst Prod.snd hn hm]
  simp

theorem add_credential_modes_ok {es : List (Text × CredentialMode)} {c c' : Composition}
    (hn : (es.map Prod.fst).Nodup) :
    addCredentialModes es c = .ok c' ↔
      (∀ e ∈ es, ∀ w, c.credentialModes.get e.1 = some w → w = e.2) ∧
      c' = { c with credentialModes := insertAll c.credentialModes es } := by
  induction es generalizing c with
  | nil =>
    simp only [addCredentialModes, pure_ok]
    simp [insertAll, eq_comm]
  | cons e es ih =>
    obtain ⟨k, v⟩ := e
    simp only [List.map_cons, List.nodup_cons] at hn
    simp only [addCredentialModes, bind_ok, refuse_ok, any_ne, exists_const, ih hn.2]
    constructor
    · rintro ⟨hk, hes, rfl⟩
      refine ⟨?_, rfl⟩
      intro f hf w hw
      rcases List.mem_cons.mp hf with rfl | hf
      · exact hk w hw
      · have hne : f.1 ≠ k := fun h => hn.1 (List.mem_map.mpr ⟨f, hf, h⟩)
        exact hes f hf w (by rwa [SortedMap.get_insert_ne _ hne])
    · rintro ⟨hes, rfl⟩
      refine ⟨fun w hw => hes (k, v) (by simp) w hw, ?_, rfl⟩
      intro f hf w hw
      have hne : f.1 ≠ k := fun h => hn.1 (List.mem_map.mpr ⟨f, hf, h⟩)
      rw [SortedMap.get_insert_ne _ hne] at hw
      exact hes f (List.mem_cons_of_mem _ hf) w hw

theorem add_rules_ok {rules : List HostRule} {c c' : Composition} :
    addRules rules c = .ok c' ↔
      (rules.map HostRule.host).Nodup ∧ (∀ r ∈ rules, r.host ∉ c.hosts) ∧
      c' = { c with
        hosts := c.hosts ∪ (rules.map HostRule.host).toFinset
        rules := c.rules ++ rules } := by
  induction rules generalizing c with
  | nil =>
    simp only [addRules, pure_ok]
    simp [eq_comm]
  | cons r rules ih =>
    simp only [addRules, bind_ok, refuse_ok, decide_eq_false_iff_not, exists_const, ih,
      List.map_cons, List.nodup_cons, List.mem_cons, List.append_assoc, List.singleton_append,
      List.toFinset_cons, Finset.mem_insert, not_or, Finset.union_insert, Finset.insert_union]
    constructor
    · rintro ⟨hr, hn, hrest, rfl⟩
      refine ⟨⟨?_, hn⟩, ?_, rfl⟩
      · intro hm
        obtain ⟨q, hq, he⟩ := List.mem_map.mp hm
        exact (hrest q hq).1 he
      · rintro q (rfl | hq)
        · exact hr
        · exact (hrest q hq).2
    · rintro ⟨⟨hm, hn⟩, hrest, rfl⟩
      refine ⟨hrest r (Or.inl rfl), hn, ?_, rfl⟩
      intro q hq
      exact ⟨fun he => hm (List.mem_map.mpr ⟨q, hq, he⟩), hrest q (Or.inr hq)⟩

theorem finish_root_ok {policy : SessionConfig} {c c' : Composition} :
    finishRoot policy c = .ok c' ↔
      (∀ w, c.importedUnmatched = some w → w = c.rootUnmatched.getD .deny) ∧
      (∀ w, c.importedCredentialDefault = some w → w = c.rootCredentialDefault.getD .inject) ∧
      c' = { c with root := some ⟨policy.persistent, policy.socketName⟩ } := by
  simp only [finishRoot, bind_ok, refuse_ok, any_ne, exists_const, pure_ok]
  rw [eq_comm (a := c')]

/-- No setting of the file conflicts with the accumulator. -/
structure Mergeable (file : LoadedFile) (isRoot : Bool) (c : Composition) : Prop where
  unmatched : ∀ v w, file.explicitUnmatched = some v →
    (if isRoot then c.rootUnmatched else c.importedUnmatched) = some w → w = v
  credentialDefault : ∀ v w, file.policy.defaultCredentialMode = some v →
    (if isRoot then c.rootCredentialDefault else c.importedCredentialDefault) = some w → w = v
  credentialModes : ∀ secret v w, file.policy.credentialModes.get secret = some v →
    c.credentialModes.get secret = some w → w = v
  hosts : ∀ r ∈ file.policy.rules, r.host ∉ c.hosts

/-- The accumulator after one file, before the final checks of the root. -/
def merged (file : LoadedFile) (isRoot : Bool) (c : Composition) : Composition :=
  { setDefault isRoot file.policy.defaultCredentialMode
      (setUnmatched isRoot (file.explicitUnmatched) c) with
    credentialModes := insertAll c.credentialModes file.policy.credentialModes.entries
    hosts := c.hosts ∪ (file.policy.rules.map HostRule.host).toFinset
    rules := c.rules ++ file.policy.rules }

theorem modes_entries {m n : SortedMap Text CredentialMode} :
    (∀ e ∈ m.entries, ∀ w, n.get e.1 = some w → w = e.2) ↔
      ∀ secret v w, m.get secret = some v → n.get secret = some w → w = v := by
  constructor
  · intro h secret v w hv hw
    exact h (secret, v) (SortedMap.get_eq_some.mp hv) w hw
  · intro h e he w hw
    exact h e.1 e.2 w (SortedMap.get_eq_some.mpr he) hw

theorem merge_ok {name : Text} {isRoot : Bool} (file : LoadedFile) {c c' : Composition}
    (hv : (file.policy.rules.map HostRule.host).Nodup) :
    c.merge name isRoot file.document.unmatched.present file.policy = .ok c' ↔
      Mergeable file isRoot c ∧
      (if isRoot then finishRoot file.policy (merged file isRoot c) else pure (merged file isRoot c))
        = .ok c' := by
  have hk := file.policy.credentialModes.keys_nodup
  simp only [merge, bind_ok, add_unmatched_ok, add_credential_default_ok,
    add_credential_modes_ok hk, add_rules_ok, modes_entries]
  constructor
  · rintro ⟨c1, ⟨hu, rfl⟩, c2, ⟨hd, rfl⟩, c3, ⟨hm, rfl⟩, c4, ⟨-, hh, rfl⟩, h⟩
    refine ⟨⟨?_, ?_, ?_, ?_⟩, ?_⟩
    · intro v w he hw
      unfold LoadedFile.explicitUnmatched at he
      split at he
      · rename_i hp
        rw [← Option.some.inj he]
        exact hu hp w hw
      · cases he
    · intro v w he hw
      exact hd v he w (by cases isRoot <;> exact hw)
    · cases isRoot <;> exact hm
    · cases isRoot <;> exact hh
    · cases isRoot <;> exact h
  · rintro ⟨⟨hu, hd, hm, hh⟩, h⟩
    refine ⟨_, ⟨?_, rfl⟩, _, ⟨?_, rfl⟩, _, ⟨?_, rfl⟩, _, ⟨hv, ?_, rfl⟩, ?_⟩
    · intro hp w hw
      exact hu _ w (by simp [LoadedFile.explicitUnmatched, hp]) hw
    · intro m hm' w hw
      exact hd m w hm' (by cases isRoot <;> exact hw)
    · cases isRoot <;> exact hm
    · cases isRoot <;> exact hh
    · cases isRoot <;> exact h

end Baffle.Proofs
