import Baffle.Lib.Text

namespace Baffle.IpAddr

def digit (radix : Nat) (c : Char) : Option Nat :=
  let value :=
    if c.isDigit then some (c.toNat - '0'.toNat)
    else if 'a' ≤ c ∧ c ≤ 'z' then some (c.toNat - 'a'.toNat + 10)
    else if 'A' ≤ c ∧ c ≤ 'Z' then some (c.toNat - 'A'.toNat + 10)
    else none
  value.filter (· < radix)

/-- `Parser::read_number`: at most `maxDigits` digits, below `limit`. -/
def readNumber (radix maxDigits limit : Nat) (allowZeroPrefix : Bool) (s : Text) : Option Text :=
  let digits := s.takeWhile (fun c => (digit radix c).isSome)
  let value := digits.foldl (fun n c => n * radix + (digit radix c).getD 0) 0
  if digits.isEmpty || maxDigits < digits.length then none
  else if !allowZeroPrefix && digits.head? == some '0' && 1 < digits.length then none
  else if value < limit then some (s.drop digits.length) else none

/-- `Parser::read_separator`: the separator stands before every item but the first. -/
def readSeparator (sep : Char) (index : Nat) (inner : Text → Option Text) (s : Text) : Option Text :=
  if index = 0 then inner s
  else match s with
    | c :: rest => if c = sep then inner rest else none
    | [] => none

def readOctet (index : Nat) : Text → Option Text :=
  readSeparator '.' index (readNumber 10 3 256 false)

def readIpv4Addr (s : Text) : Option Text :=
  (readOctet 0 s).bind (readOctet 1) |>.bind (readOctet 2) |>.bind (readOctet 3)

/-- Read up to `left` more groups after the first `i`. Returns the number of
groups, whether the last two came from an IPv4 tail, and the rest. -/
def readGroups (i : Nat) : (left : Nat) → Text → Nat × Bool × Text
  | 0, s => (i, false, s)
  | left + 1, s =>
    match (if 0 < left then readSeparator ':' i readIpv4Addr s else none) with
    | some rest => (i + 2, true, rest)
    | none =>
      match readSeparator ':' i (readNumber 16 4 65536 true) s with
      | some rest => readGroups (i + 1) left rest
      | none => (i, false, s)

def readIpv6Addr (s : Text) : Option Text :=
  let (headSize, headIpv4, rest) := readGroups 0 8 s
  if headSize = 8 then some rest
  else if headIpv4 then none
  else match rest with
    | ':' :: ':' :: rest => some (readGroups 0 (8 - (headSize + 1)) rest).2.2
    | _ => none

/-- Does `str::parse::<IpAddr>` accept the text? -/
def accepts (s : Text) : Bool :=
  match readIpv4Addr s with
  | some rest => rest.isEmpty
  | none =>
    match readIpv6Addr s with
    | some rest => rest.isEmpty
    | none => false

example : accepts "127.0.0.1".toList = true := by decide
example : accepts "::ffff:1.2.3.4".toList = true := by decide
example : accepts "127.1".toList = false := by decide
example : accepts "1.2.3.04".toList = false := by decide

end Baffle.IpAddr
