import ConfigManager.Library.Utf8

/-!
# Characters of XML 1.0

The productions `Char`, `NameStartChar` and `NameChar`, as ranges of code points;
names without `:`, and text without the control characters other than tab and newline.
-/

set_option autoImplicit false

namespace ConfigManager.Reference
open Library

def InRanges (ranges : List (Nat × Nat)) (c : Nat) : Prop := ∃ r ∈ ranges, r.1 ≤ c ∧ c ≤ r.2

def nameStartRanges : List (Nat × Nat) :=
  [(0x41, 0x5A), (0x5F, 0x5F), (0x61, 0x7A), (0xC0, 0xD6), (0xD8, 0xF6), (0xF8, 0x2FF),
    (0x370, 0x37D), (0x37F, 0x1FFF), (0x200C, 0x200D), (0x2070, 0x218F), (0x2C00, 0x2FEF),
    (0x3001, 0xD7FF), (0xF900, 0xFDCF), (0xFDF0, 0xFFFD), (0x10000, 0xEFFFF)]

def nameRanges : List (Nat × Nat) :=
  nameStartRanges ++ [(0x2D, 0x2D), (0x2E, 0x2E), (0x30, 0x39), (0xB7, 0xB7), (0x300, 0x36F),
    (0x203F, 0x2040)]

/-- Tab, newline, and `Char` from U+0020 on. -/
def textRanges : List (Nat × Nat) :=
  [(0x9, 0x9), (0xA, 0xA), (0x20, 0xD7FF), (0xE000, 0xFFFD), (0x10000, 0x10FFFF)]

/-- The UTF-8 encoding of a sequence of code points. -/
def encodeText (cs : List Nat) : List UInt8 := cs.flatMap encodeUtf8

/-- A text of the characters a string may hold. -/
def IsXmlText (text : List UInt8) : Prop :=
  ∃ cs, (∀ c ∈ cs, InRanges textRanges c) ∧ text = encodeText cs

/-- A non-empty name without `:`. -/
def IsXmlName (name : List UInt8) : Prop :=
  ∃ c cs, InRanges nameStartRanges c ∧ (∀ c ∈ cs, InRanges nameRanges c) ∧
    name = encodeText (c :: cs)

end ConfigManager.Reference
