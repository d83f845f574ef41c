import Baffle.Lib.Text

/-!
The third-party crates the program calls. Their code is not part of the
repository, so each function is a field of one record that the whole model
takes as a parameter, and what the proofs need to know about a function is a
named law.
-/

namespace Baffle

/-- `url::Host`. The program never looks at the addresses. -/
inductive UrlHost where
  | domain (name : Text)
  | ipv4 (address : Nat)
  | ipv6 (address : Nat)
deriving DecidableEq

/-- `rama::http::Uri`, as its accessors show it. -/
structure Uri where
  scheme : Option Text
  authority : Option Text
  path : Option Text
  query : Option Text
deriving DecidableEq

abbrev Bytes := List UInt8

structure Crates where
  /-- `url::Host::parse` -/
  hostParse : Text → Option UrlHost
  /-- `ring::hmac` with `HMAC_SHA256`: key, message -/
  hmacSha256 : Bytes → Bytes → Bytes
  /-- `base64::engine::general_purpose::STANDARD` -/
  base64Encode : Bytes → Text
  base64Decode : Text → Option Bytes
  /-- `base64::engine::general_purpose::URL_SAFE_NO_PAD` -/
  base64UrlEncode : Bytes → Text
  /-- `HeaderName::try_from`, as the normalized name -/
  headerName : Text → Option Text
  /-- `HeaderValue::try_from` -/
  headerValue : Text → Option Bytes
  /-- `HeaderValue::to_str` -/
  headerText : Bytes → Option Text
  /-- `Uri::set_path` -/
  setPath : Uri → Text → Uri

/-- Characters of a lowercase letter-digit-hyphen name with dots. -/
def isLdhName (s : Text) : Bool := s.all (fun c => c.isLower || c.isDigit || c == '-' || c == '.')

/-- Characters that stand for themselves in the path of a URI. -/
def isUriPathCharacter (c : Char) : Bool :=
  c.isAlphanum || "/-._~!$&'()*+,;=:@".toList.contains c

/-- A text with every percent sign written as an escape. -/
def escapePercent (path : Text) : Text :=
  path.flatMap (fun c => if c = '%' then ['%', '2', '5'] else [c])

namespace Crates

variable (x : Crates)

/-- A lowercase letter-digit-hyphen name is parsed as itself, as an address, or not at all. -/
def HostParseLaw : Prop :=
  ∀ s d, isLdhName s = true → x.hostParse s = some (.domain d) → d = s

/-- Header names are compared without regard to letter case. -/
def HeaderNameLaw : Prop :=
  ∀ a b n m, x.headerName a = some n → x.headerName b = some m →
    (n = m ↔ a.eqIgnoreAsciiCase b = true)

/-- The standard engine encodes canonically: decoding accepts only what encoding produces. -/
def Base64Law : Prop :=
  (∀ b, x.base64Decode (x.base64Encode b) = some b) ∧
    ∀ t b, x.base64Decode t = some b → x.base64Encode b = t

/-- A path is set as a text of its own: the percent sign of an escape is encoded
once more, and the characters of a path stay. -/
def SetPathLaw : Prop :=
  ∀ uri path, (∀ c ∈ path, c = '%' ∨ isUriPathCharacter c = true) →
    x.setPath uri path = { uri with path := some (escapePercent path) }

end Crates

end Baffle
