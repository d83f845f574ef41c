import Mathlib

namespace Baffle

variable {κ α : Type} [LinearOrder κ]

/-- A finite map. The keys are strictly increasing. -/
@[ext] structure SortedMap (κ α : Type) [LinearOrder κ] where
  entries : List (κ × α)
  sorted : entries.Pairwise (fun a b => a.1 < b.1)

namespace SortedMap

instance [DecidableEq α] : DecidableEq (SortedMap κ α) := fun m n =>
  decidable_of_iff (m.entries = n.entries) SortedMap.ext_iff.symm

def find (k : κ) : List (κ × α) → Option α
  | [] => none
  | (k', v) :: es => if k = k' then some v else find k es

def put (k : κ) (v : α) : List (κ × α) → List (κ × α)
  | [] => [(k, v)]
  | (k', v') :: es =>
    if k < k' then (k, v) :: (k', v') :: es
    else if k = k' then (k, v) :: es
    else (k', v') :: put k v es

theorem mem_put {k : κ} {v : α} {es : List (κ × α)} {e : κ × α} (h : e ∈ put k v es) :
    e = (k, v) ∨ e ∈ es := by
  induction es with
  | nil => simpa [put] using h
  | cons f es ih =>
    unfold put at h
    split at h
    · simpa using h
    · split at h
      · rcases List.mem_cons.mp h with h | h
        · exact Or.inl h
        · exact Or.inr (List.mem_cons_of_mem _ h)
      · rcases List.mem_cons.mp h with h | h
        · exact Or.inr (h ▸ List.mem_cons_self)
        · exact (ih h).imp id (List.mem_cons_of_mem _)

theorem put_sorted (k : κ) (v : α) {es : List (κ × α)}
    (h : es.Pairwise (fun a b => a.1 < b.1)) :
    (put k v es).Pairwise (fun a b => a.1 < b.1) := by
  induction es with
  | nil => simp [put]
  | cons f es ih =>
    obtain ⟨hf, hes⟩ := List.pairwise_cons.mp h
    unfold put
    split
    · rename_i hk
      refine List.pairwise_cons.mpr ⟨?_, h⟩
      intro e he
      rcases List.mem_cons.mp he with rfl | he
      · exact hk
      · exact lt_trans hk (hf e he)
    · split
      · rename_i hk
        exact List.pairwise_cons.mpr ⟨by simpa [hk] using hf, hes⟩
      · rename_i hn hk
        refine List.pairwise_cons.mpr ⟨?_, ih hes⟩
        intro e he
        rcases mem_put he with rfl | he
        · exact lt_of_le_of_ne (not_lt.mp hn) (Ne.symm hk)
        · exact hf e he

def empty : SortedMap κ α := ⟨[], List.Pairwise.nil⟩

instance : EmptyCollection (SortedMap κ α) := ⟨empty⟩

def get (m : SortedMap κ α) (k : κ) : Option α := find k m.entries

def insert (m : SortedMap κ α) (k : κ) (v : α) : SortedMap κ α :=
  ⟨put k v m.entries, put_sorted k v m.sorted⟩

def erase (m : SortedMap κ α) (k : κ) : SortedMap κ α :=
  ⟨m.entries.filter (fun e => e.1 ≠ k), m.sorted.filter _⟩

def keys (m : SortedMap κ α) : List κ := m.entries.map Prod.fst

def values (m : SortedMap κ α) : List α := m.entries.map Prod.snd

def contains (m : SortedMap κ α) (k : κ) : Bool := (m.get k).isSome

def size (m : SortedMap κ α) : Nat := m.entries.length

/-- Replace every value, keeping the keys. -/
def mapValues {β : Type} (f : α → β) (m : SortedMap κ α) : SortedMap κ β :=
  ⟨m.entries.map (fun e => (e.1, f e.2)), List.pairwise_map.mpr m.sorted⟩

@[simp] theorem get_empty (k : κ) : (∅ : SortedMap κ α).get k = none := rfl

theorem find_put_self (k : κ) (v : α) (es : List (κ × α)) : find k (put k v es) = some v := by
  induction es with
  | nil => simp [put, find]
  | cons f es ih =>
    unfold put
    split
    · simp [find]
    · split
      · simp [find]
      · rename_i hk
        simp [find, hk, ih]

theorem find_put_ne {k k' : κ} (h : k' ≠ k) (v : α) (es : List (κ × α)) :
    find k' (put k v es) = find k' es := by
  induction es with
  | nil => simp [put, find, h]
  | cons f es ih =>
    unfold put
    split
    · simp [find, h]
    · split
      · rename_i hk
        simp [find, ← hk, h]
      · simp [find, ih]

@[simp] theorem get_insert_self (m : SortedMap κ α) (k : κ) (v : α) :
    (m.insert k v).get k = some v := find_put_self k v m.entries

@[simp] theorem get_insert_ne (m : SortedMap κ α) {k k' : κ} (h : k' ≠ k) (v : α) :
    (m.insert k v).get k' = m.get k' := find_put_ne h v m.entries

theorem get_insert (m : SortedMap κ α) (k k' : κ) (v : α) :
    (m.insert k v).get k' = if k' = k then some v else m.get k' := by
  by_cases h : k' = k
  · simp [h]
  · simp [h]

theorem find_filter (k k' : κ) (es : List (κ × α)) :
    find k' (es.filter (fun e => e.1 ≠ k)) = if k' = k then none else find k' es := by
  induction es with
  | nil => simp [find]
  | cons f es ih =>
    by_cases hf : f.1 = k
    · by_cases hk : k' = k
      · simp [hf, hk] at ih ⊢
        exact ih
      · simp [hf, hk, find] at ih ⊢
        exact ih
    · by_cases hk : k' = f.1
      · have : k' ≠ k := hk ▸ hf
        simp [hf, find, hk]
      · simp [hf, find, hk] at ih ⊢
        exact ih

theorem get_erase (m : SortedMap κ α) (k k' : κ) :
    (m.erase k).get k' = if k' = k then none else m.get k' := find_filter k k' m.entries

@[simp] theorem get_erase_self (m : SortedMap κ α) (k : κ) : (m.erase k).get k = none := by
  simp [get_erase]

@[simp] theorem get_erase_ne (m : SortedMap κ α) {k k' : κ} (h : k' ≠ k) :
    (m.erase k).get k' = m.get k' := by
  simp [get_erase, h]

theorem find_mem {k : κ} {v : α} {es : List (κ × α)} (h : find k es = some v) : (k, v) ∈ es := by
  induction es with
  | nil => cases h
  | cons f es ih =>
    unfold find at h
    split at h
    · rename_i hk
      cases h
      rw [hk]
      exact List.mem_cons_self
    · exact List.mem_cons_of_mem _ (ih h)

theorem mem_find {k : κ} {v : α} {es : List (κ × α)}
    (hs : es.Pairwise (fun a b => a.1 < b.1)) (h : (k, v) ∈ es) : find k es = some v := by
  induction es with
  | nil => cases h
  | cons f es ih =>
    obtain ⟨hf, hes⟩ := List.pairwise_cons.mp hs
    rcases List.mem_cons.mp h with rfl | h
    · simp [find]
    · have hne : k ≠ f.1 := ne_of_gt (hf _ h)
      simp [find, hne, ih hes h]

theorem get_eq_some {m : SortedMap κ α} {k : κ} {v : α} :
    m.get k = some v ↔ (k, v) ∈ m.entries := ⟨find_mem, mem_find m.sorted⟩

theorem mem_keys {m : SortedMap κ α} {k : κ} : k ∈ m.keys ↔ ∃ v, m.get k = some v := by
  simp [keys, get_eq_some]

theorem mem_values {m : SortedMap κ α} {v : α} : v ∈ m.values ↔ ∃ k, m.get k = some v := by
  simp [values, get_eq_some]

theorem keys_nodup (m : SortedMap κ α) : m.keys.Nodup :=
  List.pairwise_map.mpr (m.sorted.imp (fun h => ne_of_lt h))

theorem get_map_values {β : Type} (f : α → β) (m : SortedMap κ α) (k : κ) :
    (m.mapValues f).get k = (m.get k).map f := by
  show find k (m.entries.map (fun e => (e.1, f e.2))) = (find k m.entries).map f
  induction m.entries with
  | nil => rfl
  | cons e es ih =>
    by_cases hk : k = e.1
    · simp [find, hk]
    · simp [find, hk, ih]

/-- Whatever is found after inserting a list of items was there or is one of them. -/
theorem mem_foldl_insert {β : Type} (key : β → κ) (value : β → α) {items : List β}
    {m : SortedMap κ α} {k : κ} {v : α}
    (h : (items.foldl (fun m i => m.insert (key i) (value i)) m).get k = some v) :
    m.get k = some v ∨ ∃ i ∈ items, value i = v := by
  induction items generalizing m with
  | nil => exact Or.inl h
  | cons i items ih =>
    rcases ih h with h | ⟨j, hj, hv⟩
    · rw [get_insert] at h
      split at h
      · exact Or.inr ⟨i, by simp, Option.some.inj h⟩
      · exact Or.inl h
    · exact Or.inr ⟨j, by simp [hj], hv⟩

/-- Inserting a list of items under distinct keys, none of them with another value in the map. -/
theorem get_foldl_insert {β : Type} (key : β → κ) (value : β → α) {items : List β}
    {m : SortedMap κ α} (hn : (items.map key).Nodup)
    (hm : ∀ i ∈ items, ∀ w, m.get (key i) = some w → w = value i) (k : κ) (v : α) :
    (items.foldl (fun m i => m.insert (key i) (value i)) m).get k = some v ↔
      m.get k = some v ∨ ∃ i ∈ items, key i = k ∧ value i = v := by
  induction items generalizing m with
  | nil => simp
  | cons i items ih =>
    simp only [List.map_cons, List.nodup_cons] at hn
    have hrest : ∀ j ∈ items, ∀ w, (m.insert (key i) (value i)).get (key j) = some w →
        w = value j := by
      intro j hj w hw
      have hne : key j ≠ key i := fun h => hn.1 (List.mem_map.mpr ⟨j, hj, h⟩)
      rw [get_insert_ne _ hne] at hw
      exact hm j (List.mem_cons_of_mem _ hj) w hw
    rw [List.foldl_cons, ih hn.2 hrest, get_insert]
    by_cases hk : k = key i
    · subst hk
      simp only [↓reduceIte, Option.some.injEq, List.mem_cons, exists_eq_or_imp, true_and]
      constructor
      · exact Or.inr
      · rintro (h | h)
        · exact Or.inl (hm i (by simp) v h).symm
        · exact h
    · simp [hk, Ne.symm hk]

theorem size_eq_card (m : SortedMap κ α) : m.size = m.keys.toFinset.card := by
  rw [List.toFinset_card_of_nodup m.keys_nodup]
  simp [size, keys]

theorem size_insert_new {m : SortedMap κ α} {k : κ} (h : m.get k = none) (v : α) :
    (m.insert k v).size = m.size + 1 := by
  have he : (m.insert k v).keys.toFinset = Insert.insert k m.keys.toFinset := by
    ext k'
    by_cases hk : k' = k
    · simp [mem_keys, hk]
    · simp [mem_keys, hk]
  rw [size_eq_card, size_eq_card, he, Finset.card_insert_of_notMem]
  simp [mem_keys, h]

theorem size_insert_present {m : SortedMap κ α} {k : κ} {w : α} (h : m.get k = some w) (v : α) :
    (m.insert k v).size = m.size := by
  have he : (m.insert k v).keys.toFinset = m.keys.toFinset := by
    ext k'
    by_cases hk : k' = k
    · simp [mem_keys, hk, h]
    · simp [mem_keys, hk]
  rw [size_eq_card, size_eq_card, he]

theorem size_erase_le (m : SortedMap κ α) (k : κ) : (m.erase k).size ≤ m.size :=
  List.length_filter_le _ _

/-- Of a key that is present. -/
theorem size_erase {m : SortedMap κ α} {k : κ} {v : α} (h : m.get k = some v) :
    (m.erase k).size + 1 = m.size := by
  have hkeys : (m.erase k).keys.toFinset = m.keys.toFinset.erase k := by
    ext k'
    rw [List.mem_toFinset, Finset.mem_erase, List.mem_toFinset, mem_keys, mem_keys, get_erase]
    by_cases hk : k' = k
    · simp [hk]
    · simp [hk]
  have hmem : k ∈ m.keys.toFinset := List.mem_toFinset.mpr (mem_keys.mpr ⟨v, h⟩)
  rw [size_eq_card, size_eq_card, hkeys, Finset.card_erase_add_one hmem]

@[simp] theorem size_map_values {β : Type} (f : α → β) (m : SortedMap κ α) :
    (m.mapValues f).size = m.size := by
  simp [size, mapValues]

/-- The sum of a quantity over the values. -/
def total (f : α → Nat) (m : SortedMap κ α) : Nat := (m.values.map f).sum

theorem total_eq_sum (f : α → Nat) (m : SortedMap κ α) :
    m.total f = ∑ k ∈ m.keys.toFinset, (m.get k).elim 0 f := by
  rw [List.sum_toFinset _ m.keys_nodup, total, values, keys, List.map_map, List.map_map]
  refine congrArg List.sum (List.map_congr_left (fun e he => ?_))
  have hget : m.get e.1 = some e.2 := get_eq_some.mpr he
  simp [hget]

/-- The value at one key counts for itself. -/
theorem total_at {m : SortedMap κ α} {k : κ} {v : α} (h : m.get k = some v) (f : α → Nat) :
    m.total f = f v + ∑ j ∈ m.keys.toFinset.erase k, (m.get j).elim 0 f := by
  have hk : k ∈ m.keys.toFinset := List.mem_toFinset.mpr (mem_keys.mpr ⟨v, h⟩)
  rw [total_eq_sum, ← Finset.add_sum_erase _ _ hk, h]
  rfl

theorem total_erase {m : SortedMap κ α} {k : κ} {v : α} (h : m.get k = some v) (f : α → Nat) :
    (m.erase k).total f + f v = m.total f := by
  have hkeys : (m.erase k).keys.toFinset = m.keys.toFinset.erase k := by
    ext j
    by_cases hj : j = k
    · simp [mem_keys, hj]
    · simp [mem_keys, hj]
  rw [total_at h f, total_eq_sum, hkeys, Nat.add_comm]
  refine congrArg (f v + ·) (Finset.sum_congr rfl (fun j hj => ?_))
  rw [get_erase_ne _ (Finset.ne_of_mem_erase hj)]

theorem total_insert_present {m : SortedMap κ α} {k : κ} {v : α} (h : m.get k = some v)
    (f : α → Nat) (w : α) : (m.insert k w).total f + f v = m.total f + f w := by
  have hkeys : (m.insert k w).keys.toFinset.erase k = m.keys.toFinset.erase k := by
    ext j
    by_cases hj : j = k
    · simp [hj]
    · simp [mem_keys, hj]
  rw [total_at h f, total_at (get_insert_self m k w) f, hkeys]
  have hsum : ∑ j ∈ m.keys.toFinset.erase k, ((m.insert k w).get j).elim 0 f
      = ∑ j ∈ m.keys.toFinset.erase k, (m.get j).elim 0 f :=
    Finset.sum_congr rfl (fun j hj => by rw [get_insert_ne _ (Finset.ne_of_mem_erase hj)])
  rw [hsum]
  omega

theorem total_insert_new {m : SortedMap κ α} {k : κ} (h : m.get k = none) (f : α → Nat) (w : α) :
    (m.insert k w).total f = m.total f + f w := by
  have hkeys : (m.insert k w).keys.toFinset.erase k = m.keys.toFinset := by
    ext j
    by_cases hj : j = k
    · simp [mem_keys, hj, h]
    · simp [mem_keys, hj]
  rw [total_at (get_insert_self m k w) f, hkeys, total_eq_sum, Nat.add_comm]
  refine congrArg (· + f w) (Finset.sum_congr rfl (fun j hj => ?_))
  have hne : j ≠ k := by
    rintro rfl
    simp [mem_keys, h] at hj
  rw [get_insert_ne _ hne]

theorem total_map_values {β : Type} (f : β → Nat) (g : α → β) (m : SortedMap κ α) :
    (m.mapValues g).total f = m.total (f ∘ g) := by
  simp [total, values, mapValues, Function.comp_def]

theorem total_add (f g : α → Nat) (m : SortedMap κ α) :
    m.total (fun v => f v + g v) = m.total f + m.total g := by
  simp [total, List.sum_map_add]

theorem le_total {m : SortedMap κ α} {k : κ} {v : α} (h : m.get k = some v) (f : α → Nat) :
    f v ≤ m.total f := by
  rw [total_at h f]
  exact Nat.le_add_right _ _

theorem total_zero {m : SortedMap κ α} {f : α → Nat} (h : ∀ k v, m.get k = some v → f v = 0) :
    m.total f = 0 := by
  refine List.sum_eq_zero (fun n hn => ?_)
  obtain ⟨v, hv, rfl⟩ := List.mem_map.mp hn
  obtain ⟨k, hk⟩ := mem_values.mp hv
  exact h k v hk

/-- Maps with the same contents are equal. -/
theorem ext_get {m n : SortedMap κ α} (h : ∀ k, m.get k = n.get k) : m = n := by
  apply SortedMap.ext
  have hm : ∀ e, e ∈ m.entries ↔ e ∈ n.entries := by
    intro e
    rw [← get_eq_some (m := m), ← get_eq_some (m := n), h]
  have hp : m.entries.Perm n.entries := by
    apply (List.perm_ext_iff_of_nodup ?_ ?_).mpr hm
    · exact m.sorted.imp (fun h he => absurd h (by simp [he]))
    · exact n.sorted.imp (fun h he => absurd h (by simp [he]))
  exact hp.eq_of_pairwise (fun a b _ _ hab hba => absurd hab (lt_asymm hba)) m.sorted n.sorted

end SortedMap

end Baffle
