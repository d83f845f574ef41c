import Mathlib

namespace Baffle

variable {ε ε' α β : Type}

@[simp] theorem bind_ok {m : Except ε α} {f : α → Except ε β} {b : β} :
    (m >>= f) = .ok b ↔ ∃ a, m = .ok a ∧ f a = .ok b := by
  cases m with
  | error e => simp [bind, Except.bind]
  | ok a => simp [bind, Except.bind]

@[simp] theorem pure_ok {a b : α} : (pure a : Except ε α) = .ok b ↔ a = b := by
  simp [pure, Except.pure]

@[simp] theorem throw_not_ok {e : ε} {a : α} : (throw e : Except ε α) = .ok a ↔ False := by
  simp [throw, throwThe, MonadExceptOf.throw]

@[simp] theorem map_ok {m : Except ε α} {f : α → β} {b : β} :
    (f <$> m) = .ok b ↔ ∃ a, m = .ok a ∧ f a = b := by
  cases m with
  | error e => simp [Functor.map, Except.map]
  | ok a => simp [Functor.map, Except.map]

@[simp] theorem map_error_ok {m : Except ε α} {f : ε → ε'} {a : α} :
    m.mapError f = .ok a ↔ m = .ok a := by
  cases m with
  | error e => simp [Except.mapError]
  | ok b => simp [Except.mapError]

theorem to_option_some {m : Except ε α} {a : α} : m.toOption = some a ↔ m = .ok a := by
  cases m with
  | error e => simp [Except.toOption]
  | ok b => simp [Except.toOption]

/-- An early return with an error when the condition holds. -/
def refuse (c : Bool) (e : ε) : Except ε Unit := if c then .error e else .ok ()

@[simp] theorem refuse_ok {c : Bool} {e : ε} {u : Unit} : refuse c e = .ok u ↔ c = false := by
  cases c with
  | true => simp [refuse]
  | false => simp [refuse]

theorem ok_bind {a : α} {f : α → Except ε β} : ((Except.ok a : Except ε α) >>= f) = f a := rfl

theorem error_bind {e : ε} {f : α → Except ε β} :
    ((Except.error e : Except ε α) >>= f) = .error e := rfl

theorem refuse_false_bind {e : ε} {f : Unit → Except ε β} : (refuse false e >>= f) = f () := rfl

theorem bind_error {m : Except ε α} {f : α → Except ε β} {e : ε} :
    (m >>= f) = .error e ↔ m = .error e ∨ ∃ a, m = .ok a ∧ f a = .error e := by
  cases m with
  | error e' => simp [error_bind]
  | ok a => simp [ok_bind]

theorem refuse_error {c : Bool} {e e' : ε} : refuse c e = .error e' ↔ c = true ∧ e = e' := by
  cases c with
  | true => simp [refuse]
  | false => simp [refuse]

/-- `Option::transpose` after mapping a fallible function. -/
def transpose (f : α → Except ε β) : Option α → Except ε (Option β)
  | none => .ok none
  | some a => some <$> f a

@[simp] theorem transpose_ok {f : α → Except ε β} {o : Option α} {r : Option β} :
    transpose f o = .ok r ↔
      (o = none ∧ r = none) ∨ ∃ a b, o = some a ∧ f a = .ok b ∧ r = some b := by
  cases o with
  | none => simp [transpose, eq_comm]
  | some a =>
    rw [transpose, map_ok]
    simp only [reduceCtorEq, false_and, false_or, Option.some.injEq, exists_and_left,
      exists_eq_left', eq_comm]

theorem transpose_error {f : α → Except ε β} {o : Option α} {e : ε} :
    transpose f o = .error e ↔ ∃ a, o = some a ∧ f a = .error e := by
  cases o with
  | none => simp [transpose]
  | some a => cases h : f a <;> simp [transpose, h, Functor.map, Except.map]

end Baffle
