import Mathlib

namespace Baffle

abbrev Text := List Char

namespace Text

/-- `str::len`: the number of UTF-8 bytes. -/
def len (s : Text) : Nat := (s.map Char.utf8Size).sum

def isAscii (s : Text) : Bool := s.all (fun c => c.toNat < 128)

def toAsciiLowercase (s : Text) : Text := s.map Char.toLower

def eqIgnoreAsciiCase (a b : Text) : Bool := a.toAsciiLowercase == b.toAsciiLowercase

/-- `str::strip_suffix`. -/
def stripSuffix (suffix s : Text) : Option Text :=
  if suffix.isSuffixOf s then some (s.take (s.length - suffix.length)) else none

/-- `str::split_once`, also on bytes: the parts around the first separator. -/
def splitOnce {α : Type} [DecidableEq α] (sep : α) : List α → Option (List α × List α)
  | [] => none
  | c :: s => if c = sep then some ([], s) else (splitOnce sep s).map (fun (a, b) => (c :: a, b))

/-- `str::rsplit_once`: the parts around the last separator. -/
def rsplitOnce (sep : Char) (s : Text) : Option (Text × Text) :=
  (splitOnce sep s.reverse).map (fun (after, before) => (before.reverse, after.reverse))

/-- `str::contains` for a string pattern. -/
def containsText (pattern s : Text) : Bool := s.tails.any (fun t => pattern.isPrefixOf t)

/-- `char::is_control`: the Unicode general category Cc. -/
def isControl (c : Char) : Bool := c.toNat < 0x20 || (0x7f ≤ c.toNat && c.toNat < 0xa0)

def digitsValue (s : Text) : Nat := s.foldl (fun n c => n * 10 + (c.toNat - '0'.toNat)) 0

/-- `str::parse::<u16>`. The standard parser also takes one leading plus sign. -/
def parseU16 (s : Text) : Option UInt16 :=
  let digits := match s with
    | '+' :: rest => rest
    | _ => s
  if digits.isEmpty || !digits.all Char.isDigit then none
  else if digitsValue digits < 65536 then some (UInt16.ofNat (digitsValue digits)) else none

/-- `str::trim`, restricted to the ASCII white space that header values can hold. -/
def trim (s : Text) : Text :=
  let blank := fun c : Char => c == ' ' || (9 ≤ c.toNat && c.toNat ≤ 13)
  ((s.dropWhile blank).reverse.dropWhile blank).reverse

theorem strip_suffix_append (suffix s : Text) : stripSuffix suffix (s ++ suffix) = some s := by
  have h : suffix.isSuffixOf (s ++ suffix) = true :=
    List.isSuffixOf_iff_suffix.mpr (List.suffix_append s suffix)
  simp [stripSuffix, h]

theorem strip_suffix_some {suffix s t : Text} (h : stripSuffix suffix s = some t) :
    s = t ++ suffix := by
  unfold stripSuffix at h
  split at h
  · rename_i hs
    obtain ⟨u, rfl⟩ := List.isSuffixOf_iff_suffix.mp hs
    simp only [List.length_append, Nat.add_sub_cancel_right, List.take_left, Option.some.injEq] at h
    rw [h]
  · cases h

theorem strip_suffix_extended (suffix s t : Text) :
    stripSuffix suffix (s ++ (t ++ suffix)) = some (s ++ t) := by
  rw [← List.append_assoc, strip_suffix_append]

theorem strip_suffix_absent {suffix s : Text} {c : Char} (hc : c ∈ suffix) (hs : c ∉ s) :
    stripSuffix suffix s = none := by
  cases h : stripSuffix suffix s with
  | none => rfl
  | some t =>
    rw [strip_suffix_some h] at hs
    exact absurd (List.mem_append_right t hc) hs

theorem strip_suffix_none {suffix s : Text} (h : stripSuffix suffix s = none) (t : Text) :
    s ≠ t ++ suffix := by
  rintro rfl
  rw [strip_suffix_append] at h
  cases h

section Split

variable {α : Type} [DecidableEq α]

theorem split_once_append {sep : α} {a : List α} (b : List α) (h : sep ∉ a) :
    splitOnce sep (a ++ sep :: b) = some (a, b) := by
  induction a with
  | nil => simp [splitOnce]
  | cons c a ih =>
    simp only [List.mem_cons, not_or] at h
    simp [splitOnce, Ne.symm h.1, ih h.2]

theorem split_once_some {sep : α} {s a b : List α} (h : splitOnce sep s = some (a, b)) :
    s = a ++ sep :: b ∧ sep ∉ a := by
  induction s generalizing a with
  | nil => cases h
  | cons c s ih =>
    unfold splitOnce at h
    split at h
    · rename_i hc
      simp only [Option.some.injEq, Prod.mk.injEq] at h
      obtain ⟨rfl, rfl⟩ := h
      simp [hc]
    · rename_i hc
      obtain ⟨⟨u, v⟩, hu, he⟩ := Option.map_eq_some_iff.mp h
      simp only [Prod.mk.injEq] at he
      obtain ⟨rfl, rfl⟩ := he
      obtain ⟨rfl, hn⟩ := ih hu
      exact ⟨rfl, by simp [Ne.symm hc, hn]⟩

theorem split_once_none {sep : α} {s : List α} : splitOnce sep s = none ↔ sep ∉ s := by
  induction s with
  | nil => simp [splitOnce]
  | cons c s ih =>
    by_cases hc : c = sep
    · simp [splitOnce, hc]
    · simp [splitOnce, hc, ih, Ne.symm hc]

end Split

@[simp] theorem to_ascii_lowercase_append (a b : Text) :
    (a ++ b).toAsciiLowercase = a.toAsciiLowercase ++ b.toAsciiLowercase := by
  simp [toAsciiLowercase]

@[simp] theorem to_ascii_lowercase_idem (s : Text) :
    s.toAsciiLowercase.toAsciiLowercase = s.toAsciiLowercase := by
  simp [toAsciiLowercase]

end Text

end Baffle
