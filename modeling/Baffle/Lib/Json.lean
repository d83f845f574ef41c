import Baffle.Lib.Text

namespace Baffle

inductive Json where
  | null
  | bool (b : Bool)
  | number (n : Nat)
  | string (s : Text)
  | array (items : List Json)
  | object (members : List (String × Json))

namespace Json

variable {α : Type}

def get (key : String) : Json → Option Json
  | object members => members.lookup key
  | _ => none

def asBool : Json → Option Bool
  | bool b => some b
  | _ => none

def asNat : Json → Option Nat
  | number n => some n
  | _ => none

def asText : Json → Option Text
  | string s => some s
  | _ => none

def asList (item : Json → Option α) : Json → Option (List α)
  | array items => items.mapM item
  | _ => none

/-- A field that has to be there. -/
def field (key : String) (read : Json → Option α) (j : Json) : Option α := (j.get key).bind read

/-- A field of type `Option`. -/
def optional (key : String) (read : Json → Option α) (j : Json) : Option (Option α) :=
  match j.get key with
  | none | some null => some none
  | some value => (read value).map some

/-- A field with a default. -/
def defaulted (key : String) (default : α) (read : Json → Option α) (j : Json) : Option α :=
  match j.get key with
  | none => some default
  | some value => read value

/-- A way to write values that a reader reads back. -/
def Inverts (read : Json → Option α) (write : α → Json) : Prop := ∀ a, read (write a) = some a

theorem optional_member {key : String} {read : Json → Option α} {j value : Json} {a : α}
    (h : j.get key = some value) (hr : read value = some a) (hn : read null = none) :
    j.optional key read = some (some a) := by
  unfold optional
  rw [h]
  cases value with
  | null =>
    rw [hn] at hr
    cases hr
  | _ => exact congrArg (Option.map some) hr

theorem optional_missing {key : String} {read : Json → Option α} {j : Json}
    (h : j.get key = none) : j.optional key read = some none := by
  rw [optional, h]

theorem list_inverts {read : Json → Option α} {write : α → Json} (h : Inverts read write) :
    Inverts (asList read) (fun items => array (items.map write)) := by
  intro items
  show (items.map write).mapM read = some items
  induction items with
  | nil => rfl
  | cons a items ih => simp [List.map_cons, List.mapM_cons, h a, ih]

end Json

end Baffle
