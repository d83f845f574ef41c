import Baffle.Lib.Split
import Baffle.Policy

/-!
URL paths: the loop of `canonicalize_path` over the bytes of its input
(`crates/baffle-client/src/policy.rs`), and the tokens that a path stands for.
-/

namespace Baffle

/-- `char::from` of a byte. -/
def byteChar (byte : UInt8) : Char := Char.ofNat byte.toNat

/-- The loop of `canonicalize_path`, `none` when it reads past the end of the input. -/
def canonicalizeLoop (bytes : Bytes) (index : Nat) (canonical : Text) :
    Option (Except String Text) :=
  if index < bytes.length then
    match bytes[index]? with
    | none => none
    | some byte =>
      if byte == 37 then
        if bytes.length ≤ index + 2 then some (throw "contains malformed percent encoding")
        else
          match bytes[index + 1]?, bytes[index + 2]? with
          | some first, some second =>
            match hexValue (byteChar first), hexValue (byteChar second) with
            | some high, some low =>
              let decoded := Char.ofNat (high * 16 + low)
              if decoded == '/' || decoded == '\\' || decoded == '%' then
                some (throw "contains an encoded path separator or ambiguous double encoding")
              else if isUnreserved decoded then
                canonicalizeLoop bytes (index + 3) (canonical ++ [decoded])
              else
                canonicalizeLoop bytes (index + 3)
                  (canonical ++ ['%', (byteChar first).toUpper, (byteChar second).toUpper])
            | _, _ => some (throw "contains malformed percent encoding")
          | _, _ => none
      else if !isPathCharacter (byteChar byte) then
        some (throw "contains a character that is not valid in a URL path")
      else canonicalizeLoop bytes (index + 1) (canonical ++ [byteChar byte])
  else some (pure canonical)
termination_by bytes.length - index

/-- A character, or the octet of an escape. -/
inductive PathToken where
  | plain (c : Char)
  | escaped (octet : Nat)
deriving DecidableEq

/-- An escape of an unreserved character stands for the character. -/
def escapeToken (octet : Nat) : PathToken :=
  if isUnreserved (Char.ofNat octet) then .plain (Char.ofNat octet) else .escaped octet

/-- The tokens of a path. A percent sign that begins no escape is a character. -/
def pathTokens : Text → List PathToken
  | [] => []
  | '%' :: h :: l :: rest =>
    match hexValue h, hexValue l with
    | some high, some low => escapeToken (high * 16 + low) :: pathTokens rest
    | _, _ => .plain '%' :: pathTokens (h :: l :: rest)
  | c :: rest => .plain c :: pathTokens rest

/-- `%HH` stands for its octet, every other character for itself. -/
def percentDecode : Text → Bytes
  | [] => []
  | '%' :: h :: l :: rest =>
    match hexValue h, hexValue l with
    | some high, some low => UInt8.ofNat (high * 16 + low) :: percentDecode rest
    | _, _ => utf8 ['%'] ++ percentDecode (h :: l :: rest)
  | c :: rest => utf8 [c] ++ percentDecode rest

def upperHex (n : Nat) : Char := if n < 10 then Char.ofNat (48 + n) else Char.ofNat (55 + n)

namespace PathToken

/-- The one spelling of a token in a canonical path. -/
def text : PathToken → Text
  | plain c => [c]
  | escaped octet => ['%', upperHex (octet / 16), upperHex (octet % 16)]

/-- The tokens that may stand in a path. -/
def allowed : PathToken → Bool
  | plain c => isPathCharacter c
  | escaped octet => octet != 47 && octet != 92 && octet != 37

def octets : PathToken → Bytes
  | plain c => utf8 [c]
  | escaped octet => [UInt8.ofNat octet]

end PathToken

end Baffle
