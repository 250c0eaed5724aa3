import ConfigManager.Source.Boundary

/-!
# Text in the XML backend (xml_interface.cpp)

Strict UTF-8 decoding, the XML character classes, and the decimal text of
scalars. pugixml hands out NUL-terminated strings, which `cString` reads.
-/

set_option autoImplicit false

namespace ConfigManager.Source

/-- A buffer read as a NUL-terminated string. -/
def cString (text : Bytes) : Bytes := text.takeWhile fun c => c != 0

def isXmlWhitespace (text : Bytes) : Bool := text.all fun c => c == 32 || c == 9 || c == 10 || c == 13

/-! ## UTF-8 -/

/-- The loop over the continuation bytes. -/
def continuation : Bytes → UInt32 → Option UInt32
  | [], value => some value
  | cont :: rest, value =>
      if cont &&& 0xC0 ≠ 0x80 then none
      else continuation rest ((value <<< 6) ||| (cont &&& 0x3F).toUInt32)

/-- The length of the sequence a lead byte of 0x80 or more announces, with its payload. -/
def leadByte (lead : UInt8) : Option (Nat × UInt32) :=
  if lead &&& 0xE0 = 0xC0 then some (2, (lead &&& 0x1F).toUInt32)
  else if lead &&& 0xF0 = 0xE0 then some (3, (lead &&& 0x0F).toUInt32)
  else if lead &&& 0xF8 = 0xF0 then some (4, (lead &&& 0x07).toUInt32)
  else none

def kMinForLength (length : Nat) : UInt32 :=
  match length with
  | 2 => 0x80
  | 3 => 0x800
  | 4 => 0x10000
  | _ => 0

/-- The code point that starts at `text[i]`, with the position behind it. -/
def decodeUtf8 (text : Bytes) (i : Nat) : Option (UInt32 × Nat) :=
  let lead := text.getD i 0
  if lead < 0x80 then some (lead.toUInt32, i + 1)
  else match leadByte lead with
    | none => none
    | some (length, payload) =>
        if text.length < i + length then none
        else match continuation ((text.drop (i + 1)).take (length - 1)) payload with
          | none => none
          | some value =>
              if value < kMinForLength length then none
              else if 0xD800 ≤ value ∧ value ≤ 0xDFFF then none
              else if 0x10FFFF < value then none
              else some (value, i + length)

def isNameStartChar (c : UInt32) : Bool :=
  c == 0x5F || (0x41 ≤ c && c ≤ 0x5A) || (0x61 ≤ c && c ≤ 0x7A) ||
    (0xC0 ≤ c && c ≤ 0xD6) || (0xD8 ≤ c && c ≤ 0xF6) || (0xF8 ≤ c && c ≤ 0x2FF) ||
    (0x370 ≤ c && c ≤ 0x37D) || (0x37F ≤ c && c ≤ 0x1FFF) || (0x200C ≤ c && c ≤ 0x200D) ||
    (0x2070 ≤ c && c ≤ 0x218F) || (0x2C00 ≤ c && c ≤ 0x2FEF) || (0x3001 ≤ c && c ≤ 0xD7FF) ||
    (0xF900 ≤ c && c ≤ 0xFDCF) || (0xFDF0 ≤ c && c ≤ 0xFFFD) || (0x10000 ≤ c && c ≤ 0xEFFFF)

def isNameChar (c : UInt32) : Bool :=
  isNameStartChar c || c == 0x2D || c == 0x2E || (0x30 ≤ c && c ≤ 0x39) || c == 0xB7 ||
    (0x300 ≤ c && c ≤ 0x36F) || (0x203F ≤ c && c ≤ 0x2040)

/-- The loop of both predicates from position `i`. Every round advances, so as many rounds
as there are bytes left reach the end. -/
def scan (accepts : Bool → UInt32 → Bool) (text : Bytes) : Nat → Nat → Bool → Bool
  | 0, i, _ => decide (text.length ≤ i)
  | rounds + 1, i, first =>
      if i < text.length then
        match decodeUtf8 text i with
        | none => false
        | some (c, next) => accepts first c && scan accepts text rounds next false
      else true

def isValidElementName (name : Bytes) : Bool :=
  !name.isEmpty &&
    scan (fun first c => if first then isNameStartChar c else isNameChar c) name name.length 0 true

/-- The characters a text may hold: tab, newline and from U+0020 on all but U+FFFE and U+FFFF. -/
def isXmlChar (c : UInt32) : Bool :=
  !(c < 0x20 && c != 9 && c != 10) && !(c == 0xFFFE || c == 0xFFFF)

def isXmlRepresentable (text : Bytes) : Bool :=
  scan (fun _ c => isXmlChar c) text text.length 0 true

/-! ## Numbers -/

/-- `std::errc`, as far as `std::from_chars` reports it. -/
inductive Errc where
  | invalidArgument
  | resultOutOfRange
  deriving DecidableEq, Repr

/-- `std::from_chars` into an `int64_t`: the result and the text it did not read. -/
def fromCharsInt (text : Bytes) : Except Errc Int64 × Bytes :=
  let negative := text.head? = some 45
  let unsigned := if negative then text.drop 1 else text
  let digits := unsigned.takeWhile isDigit
  let after := unsigned.dropWhile isDigit
  let value : Int := if negative then -digitsValue digits else digitsValue digits
  if digits.isEmpty then (.error .invalidArgument, text)
  else if value < -2 ^ 63 ∨ 2 ^ 63 ≤ value then (.error .resultOutOfRange, after)
  else (.ok (Int64.ofInt value), after)

/-- `std::to_chars` and `std::from_chars` on doubles. -/
structure FloatText where
  toChars : Double → Bytes
  fromChars : Bytes → Except Errc Double × Bytes

end ConfigManager.Source
