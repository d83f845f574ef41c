import Mathlib

namespace Baffle

/-- Sixty-four digits, none of which is the padding. -/
structure Base64 where
  digits : List Char
  length : digits.length = 64
  nodup : digits.Nodup
  unpadded : '=' ∉ digits

namespace Base64

variable (x : Base64)

def digit (n : Nat) : Char := x.digits.getD n '='

/-- The number that a digit stands for; the padding stands for zero. -/
def value (c : Char) : Nat := x.digits.idxOf c % 64

/-- The padded encoding. -/
def encode : List UInt8 → List Char
  | [] => []
  | [a] => [x.digit (a.toNat / 4), x.digit (a.toNat % 4 * 16), '=', '=']
  | [a, b] => [x.digit (a.toNat / 4), x.digit (a.toNat % 4 * 16 + b.toNat / 16),
      x.digit (b.toNat % 16 * 4), '=']
  | a :: b :: c :: rest =>
    x.digit (a.toNat / 4) :: x.digit (a.toNat % 4 * 16 + b.toNat / 16) ::
      x.digit (b.toNat % 16 * 4 + c.toNat / 64) :: x.digit (c.toNat % 64) :: encode rest

def encodeUnpadded (bytes : List UInt8) : List Char := (x.encode bytes).filter (· != '=')

/-- The bytes of one group of four characters. -/
def group (p q r s : Char) : List UInt8 :=
  let a := UInt8.ofNat (x.value p * 4 + x.value q / 16)
  let b := UInt8.ofNat (x.value q % 16 * 16 + x.value r / 4)
  let c := UInt8.ofNat (x.value r % 4 * 64 + x.value s)
  if r = '=' then [a] else if s = '=' then [a, b] else [a, b, c]

def groups : List Char → List UInt8
  | p :: q :: r :: s :: rest => x.group p q r s ++ groups rest
  | _ => []

/-- Only the padded encoding of some bytes is decoded. -/
def decode (text : List Char) : Option (List UInt8) :=
  if x.encode (x.groups text) = text then some (x.groups text) else none

variable {x} {n : Nat} {c : Char} {bytes : List UInt8} {text : List Char}

theorem digit_mem (h : n < 64) : x.digit n ∈ x.digits := by
  rw [digit, List.getD_eq_getElem _ _ (x.length.symm ▸ h)]
  exact List.getElem_mem _

theorem digit_pad (h : n < 64) : x.digit n ≠ '=' := fun he => x.unpadded (he ▸ digit_mem h)

theorem value_digit (h : n < 64) : x.value (x.digit n) = n := by
  have hn : n < x.digits.length := x.length.symm ▸ h
  rw [value, digit, List.getD_eq_getElem _ _ hn, x.nodup.idxOf_getElem n hn, Nat.mod_eq_of_lt h]

/-- A byte is put together again from what was shifted out of it. -/
theorem byte_split {u : UInt8} (h : n = u.toNat) : UInt8.ofNat n = u := by
  rw [h, UInt8.ofNat_toNat]

theorem groups_encode : x.groups (x.encode bytes) = bytes := by
  induction bytes using encode.induct with
  | case1 => rfl
  | case2 a =>
    have ha := a.toNat_lt
    rw [encode, groups, group, if_pos rfl, value_digit (by omega), value_digit (by omega),
      byte_split (u := a) (by omega)]
    rfl
  | case3 a b =>
    have ha := a.toNat_lt
    have hb := b.toNat_lt
    rw [encode, groups, group, if_neg (digit_pad (by omega)), if_pos rfl,
      value_digit (by omega), value_digit (by omega), value_digit (by omega),
      byte_split (u := a) (by omega), byte_split (u := b) (by omega)]
    rfl
  | case4 a b c rest ih =>
    have ha := a.toNat_lt
    have hb := b.toNat_lt
    have hc := c.toNat_lt
    rw [encode, groups, ih, group, if_neg (digit_pad (by omega)), if_neg (digit_pad (by omega)),
      value_digit (by omega), value_digit (by omega), value_digit (by omega),
      value_digit (by omega), byte_split (u := a) (by omega), byte_split (u := b) (by omega),
      byte_split (u := c) (by omega)]
    rfl

theorem decode_encode : x.decode (x.encode bytes) = some bytes := by
  rw [decode, groups_encode, if_pos rfl]

theorem encode_decode (h : x.decode text = some bytes) : x.encode bytes = text := by
  simp only [decode, Option.ite_none_right_eq_some, Option.some.injEq] at h
  rw [← h.2]
  exact h.1

theorem digit_cases (n : Nat) : x.digit n ∈ x.digits ∨ x.digit n = '=' := by
  by_cases h : n < 64
  · exact Or.inl (digit_mem h)
  · exact Or.inr (List.getD_eq_default _ _ (x.length.symm ▸ Nat.not_lt.mp h))

theorem encode_mem (h : c ∈ x.encode bytes) : c ∈ x.digits ∨ c = '=' := by
  induction bytes using encode.induct with
  | case1 => cases h
  | case2 a =>
    simp only [encode, List.mem_cons, List.not_mem_nil, or_false] at h
    rcases h with rfl | rfl | rfl | rfl
    · exact digit_cases _
    · exact digit_cases _
    · exact Or.inr rfl
    · exact Or.inr rfl
  | case3 a b =>
    simp only [encode, List.mem_cons, List.not_mem_nil, or_false] at h
    rcases h with rfl | rfl | rfl | rfl
    · exact digit_cases _
    · exact digit_cases _
    · exact digit_cases _
    · exact Or.inr rfl
  | case4 a b c rest ih =>
    simp only [encode, List.mem_cons] at h
    rcases h with rfl | rfl | rfl | rfl | h
    · exact digit_cases _
    · exact digit_cases _
    · exact digit_cases _
    · exact digit_cases _
    · exact ih h

end Base64

/-- `base64::engine::general_purpose::STANDARD` -/
def Base64.standard : Base64 where
  digits := "ABCDEFGHIJKLMNOPQRSTUVWXYZabcdefghijklmnopqrstuvwxyz0123456789+/".toList
  length := by decide
  nodup := by decide +kernel
  unpadded := by decide

def Base64.urlSafe : Base64 where
  digits := "ABCDEFGHIJKLMNOPQRSTUVWXYZabcdefghijklmnopqrstuvwxyz0123456789-_".toList
  length := by decide
  nodup := by decide +kernel
  unpadded := by decide

end Baffle
