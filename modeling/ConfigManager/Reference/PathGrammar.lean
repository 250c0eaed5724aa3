import ConfigManager.Source.ConfigPath

/-!
# The documented path grammar

    path := segment ( "." segment )*
    segment := key index*
    key := one or more bytes other than "." "[" "]"
    index := "[" digit+ "]"

A derivation is a tree of these productions. Its text is what it derives, its
steps are the segments it stands for.
-/

set_option autoImplicit false

namespace ConfigManager.Reference
open Library Source

/-- What may stand for a key in a path. -/
def PlainKey (key : Bytes) : Prop :=
  key ≠ [] ∧ ∀ c ∈ key, c ≠ dot ∧ c ≠ openBracket ∧ c ≠ closeBracket

instance : DecidablePred PlainKey := fun key =>
  decidable_of_iff ((!key.isEmpty && !key.any isReserved) = true) (by
    unfold PlainKey
    rw [Bool.and_eq_true, Bool.not_eq_true', List.isEmpty_eq_false_iff, Bool.not_eq_true',
      List.any_eq_false]
    simp [isReserved, and_assoc])

@[ext] structure KeyText where
  text : Bytes
  nonempty : text ≠ []
  plain : ∀ c ∈ text, c ≠ dot ∧ c ≠ openBracket ∧ c ≠ closeBracket

@[ext] structure IndexDigits where
  text : Bytes
  nonempty : text ≠ []
  decimal : ∀ c ∈ text, isDigit c = true

structure SegmentTree where
  key : KeyText
  indices : List IndexDigits

structure PathTree where
  first : SegmentTree
  more : List SegmentTree

namespace IndexDigits

def value (d : IndexDigits) : Nat := digitsValue d.text

def bracketed (d : IndexDigits) : Bytes := openBracket :: (d.text ++ [closeBracket])

/-- `std::to_string` of an index. -/
def ofNat (n : Nat) : IndexDigits := ⟨natText n, natText_ne_nil n, natText_isDigit n⟩

@[simp] theorem ofNat_value (n : Nat) : (ofNat n).value = n := digitsValue_natText n

end IndexDigits

namespace SegmentTree

def text (s : SegmentTree) : Bytes := s.key.text ++ s.indices.flatMap IndexDigits.bracketed

def steps (s : SegmentTree) : List PathSegment :=
  .key s.key.text :: s.indices.map fun d => .index d.value

/-- Every index is a value of `std::size_t`. -/
def InRange (s : SegmentTree) : Prop := ∀ d ∈ s.indices, d.value < sizeLimit

end SegmentTree

namespace PathTree

def segments (t : PathTree) : List SegmentTree := t.first :: t.more

def text (t : PathTree) : Bytes := t.first.text ++ t.more.flatMap fun s => dot :: s.text

def steps (t : PathTree) : List PathSegment := t.segments.flatMap SegmentTree.steps

def InRange (t : PathTree) : Prop := ∀ s ∈ t.segments, s.InRange

end PathTree

/-- The rendering of a segment that follows another one. -/
def renderNext : PathSegment → Bytes
  | .key name => dot :: name
  | .index n => openBracket :: (natText n ++ [closeBracket])

/-- Keys joined with dots, indices in brackets. -/
def renderPath : List PathSegment → Bytes
  | .key name :: rest => name ++ rest.flatMap renderNext
  | rest => rest.flatMap renderNext

end ConfigManager.Reference
