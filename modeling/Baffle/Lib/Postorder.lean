import Mathlib

namespace Baffle

variable {α : Type} {succ : α → List α}

/-- `Visits succ done todo done'`: visiting `todo` from left to right, each
vertex after its successors and only at its first occurrence, extends `done`
to `done'`. A vertex must not turn up among its own descendants. -/
inductive Visits (succ : α → List α) : List α → List α → List α → Prop where
  | nil (done : List α) : Visits succ done [] done
  | seen {done done' todo : List α} {v : α} (hv : v ∈ done) (rest : Visits succ done todo done') :
      Visits succ done (v :: todo) done'
  | fresh {done mid done' todo : List α} {v : α} (hv : v ∉ done)
      (below : Visits succ done (succ v) mid) (hm : v ∉ mid)
      (rest : Visits succ (mid ++ [v]) todo done') : Visits succ done (v :: todo) done'

/-- `b` is a successor of `a`. -/
def Edge (succ : α → List α) (a b : α) : Prop := b ∈ succ a

/-- Every vertex stands behind all of its successors. -/
def Topological (succ : α → List α) (order : List α) : Prop :=
  ∀ before v after, order = before ++ v :: after → ∀ w ∈ succ v, w ∈ before

namespace Visits

theorem extends_done {done todo done' : List α} (h : Visits succ done todo done') :
    done <+: done' := by
  induction h with
  | nil done => exact List.prefix_refl done
  | seen hv rest ih => exact ih
  | fresh hv below hm rest ihb ihr =>
    exact ihb.trans ((List.prefix_append _ _).trans ihr)

theorem single {done mid : List α} {v : α} (hv : v ∉ done) (below : Visits succ done (succ v) mid)
    (hm : v ∉ mid) : Visits succ done [v] (mid ++ [v]) := .fresh hv below hm (.nil _)

/-- Visiting one list and then another is visiting both. -/
theorem append {done mid done' todo todo' : List α} (h : Visits succ done todo mid)
    (h' : Visits succ mid todo' done') : Visits succ done (todo ++ todo') done' := by
  induction h with
  | nil done => exact h'
  | seen hv rest ih => exact .seen hv (ih h')
  | fresh hv below hm rest ihb ihr => exact .fresh hv below hm (ihr h')

theorem todo_done {done todo done' : List α} (h : Visits succ done todo done') :
    ∀ v ∈ todo, v ∈ done' := by
  induction h with
  | nil done => simp
  | seen hv rest ih =>
    intro w hw
    rcases List.mem_cons.mp hw with rfl | hw
    · exact rest.extends_done.subset hv
    · exact ih w hw
  | fresh hv below hm rest ihb ihr =>
    intro w hw
    rcases List.mem_cons.mp hw with rfl | hw
    · exact rest.extends_done.subset (by simp)
    · exact ihr w hw

theorem nodup {done todo done' : List α} (h : Visits succ done todo done') (hd : done.Nodup) :
    done'.Nodup := by
  induction h with
  | nil done => exact hd
  | seen hv rest ih => exact ih hd
  | fresh hv below hm rest ihb ihr =>
    exact ihr (List.nodup_append.mpr ⟨ihb hd, by simp, by
      intro a ha b hb
      rw [List.mem_singleton.mp hb]
      rintro rfl
      exact hm ha⟩)

theorem sound {done todo done' : List α} (h : Visits succ done todo done') :
    ∀ v ∈ done', v ∈ done ∨ ∃ u ∈ todo, Relation.ReflTransGen (Edge succ) u v := by
  induction h with
  | nil done => exact fun v hv => Or.inl hv
  | seen hv rest ih =>
    intro w hw
    exact (ih w hw).imp id (fun ⟨u, hu, hr⟩ => ⟨u, List.mem_cons_of_mem _ hu, hr⟩)
  | @fresh done mid done' todo v hv below hm rest ihb ihr =>
    intro w hw
    rcases ihr w hw with hw | ⟨u, hu, hr⟩
    · rcases List.mem_append.mp hw with hw | hw
      · rcases ihb w hw with hw | ⟨u, hu, hr⟩
        · exact Or.inl hw
        · exact Or.inr ⟨v, List.mem_cons_self, .head hu hr⟩
      · rw [List.mem_singleton.mp hw]
        exact Or.inr ⟨v, List.mem_cons_self, .refl⟩
    · exact Or.inr ⟨u, List.mem_cons_of_mem _ hu, hr⟩

theorem topological {done todo done' : List α} (h : Visits succ done todo done')
    (hd : Topological succ done) : Topological succ done' := by
  induction h with
  | nil done => exact hd
  | seen hv rest ih => exact ih hd
  | @fresh done mid done' todo v hv below hm rest ihb ihr =>
    apply ihr
    intro before w after he u hu
    rcases List.eq_nil_or_concat after with rfl | ⟨after', last, rfl⟩
    · obtain ⟨rfl, hw⟩ := List.append_inj' he rfl
      rw [← List.singleton_inj.mp hw] at hu
      exact below.todo_done u hu
    · rw [List.concat_eq_append, ← List.cons_append, ← List.append_assoc] at he
      obtain ⟨rfl, -⟩ := List.append_inj' he rfl
      exact ihb hd before w after' rfl u hu

end Visits

theorem topological_nil : Topological succ ([] : List α) := by
  intro before v after he
  simp at he

/-- Along an edge out of a topologically ordered list the position decreases. -/
theorem Topological.index_lt [DecidableEq α] {order : List α} (h : Topological succ order) {v w : α}
    (hv : v ∈ order) (hw : w ∈ succ v) : w ∈ order ∧ order.idxOf w < order.idxOf v := by
  obtain ⟨before, after, rfl, hn⟩ := List.eq_append_cons_of_mem hv
  have hb := h before v after rfl w hw
  refine ⟨List.mem_append_left _ hb, ?_⟩
  rw [List.idxOf_append_of_mem hb, List.idxOf_append_of_notMem hn]
  have := List.idxOf_lt_length_iff.mpr hb
  omega

theorem Topological.closed [DecidableEq α] {order : List α} (h : Topological succ order) {v w : α}
    (hv : v ∈ order) (hr : Relation.ReflTransGen (Edge succ) v w) : w ∈ order := by
  induction hr with
  | refl => exact hv
  | tail _ he ih => exact (h.index_lt ih he).1

/-- A vertex of a topologically ordered list is on no cycle. -/
theorem Topological.acyclic [DecidableEq α] {order : List α} (h : Topological succ order) {v : α}
    (hv : v ∈ order) : ¬Relation.TransGen (Edge succ) v v := by
  intro hc
  have hlt : ∀ w, Relation.TransGen (Edge succ) v w → order.idxOf w < order.idxOf v := by
    intro w hw
    induction hw with
    | single he => exact (h.index_lt hv he).2
    | tail hr he ih =>
      have := (h.index_lt (h.closed hv hr.to_reflTransGen) he).2
      omega
  exact absurd (hlt v hc) (Nat.lt_irrefl _)

end Baffle
