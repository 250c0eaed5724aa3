import ConfigManager.Refinement.Utf8Decoding

/-!
# Text accepted by the XML backend

`decodeUtf8` and the two predicates built on it, against the definition of UTF-8 and
the character classes of XML 1.0.
-/

set_option autoImplicit false

namespace ConfigManager.Guarantees
open Library Source Reference Refinement

/-- Decoding at an offset inside a text answers `c` and the next offset exactly when `c` is
a scalar value and the bytes in between are its shortest encoding, of which there is one;
every byte it reads lies inside the text; and it undoes encoding. A text is representable
exactly when it encodes tabs, newlines and `Char` from U+0020 on, and an element name is
valid exactly when it encodes a non-empty `Name` without `:`. The scanning loops
terminate: rounds beyond the bytes still unread change nothing. -/
theorem utf8_exact :
    (∀ (text : Bytes) (i : Nat), i < text.length →
      (∀ c next, decodeUtf8 text i = some (c, next) ↔
        IsScalar c.toNat ∧ ∃ n, next = i + n ∧ i + n ≤ text.length ∧
          IsShortest c.toNat ((text.drop i).take n)) ∧
      decodeUtf8Checked text i = some (decodeUtf8 text i)) ∧
    (∀ c bytes bytes', IsShortest c bytes → IsShortest c bytes' → bytes = bytes') ∧
    (∀ (before after : Bytes) (c : UInt32), IsScalar c.toNat →
      decodeUtf8 (before ++ encodeUtf8 c.toNat ++ after) before.length =
        some (c, before.length + (encodeUtf8 c.toNat).length)) ∧
    (∀ text, isXmlRepresentable text = true ↔ IsXmlText text) ∧
    (∀ name, isValidElementName name = true ↔ IsXmlName name) ∧
    ∀ accepts (text : Bytes) rounds i first, text.length ≤ i + rounds →
      scan accepts text rounds i first = scan accepts text (text.length - i) i first := by
  refine ⟨?_, fun _ _ _ => IsShortest.unique, ?_, isXmlRepresentable_iff,
    isValidElementName_iff, ?_⟩
  · intro text i inside
    refine ⟨fun c next => ?_, decodeUtf8Checked_eq text i inside⟩
    constructor
    · intro decoded
      obtain ⟨scalar, moved, rest, shape⟩ := decodeUtf8_decoded text i next inside c decoded
      refine ⟨scalar, _, moved, ?_, ?_⟩
      · have lengths := congrArg List.length shape
        rw [List.length_drop, List.length_append] at lengths
        omega
      · rw [shape, List.take_left]
        exact (isShortest_iff _ scalar.small _).mpr rfl
    · rintro ⟨scalar, n, rfl, bound, shortest⟩
      rw [isShortest_iff _ scalar.small] at shortest
      have shape : text.drop i = encodeUtf8 c.toNat ++ (text.drop i).drop n := by
        rw [← shortest, List.take_append_drop]
      have length : n = (encodeUtf8 c.toNat).length := by
        rw [← shortest, List.length_take, List.length_drop]
        omega
      rw [length]
      exact decodeUtf8_encoded text i inside c scalar _ shape
  · intro before after c scalar
    have positive := encodeUtf8_length c.toNat
    apply decodeUtf8_encoded _ _ _ c scalar after
    · rw [List.append_assoc, List.drop_left]
    · simp only [List.length_append]
      omega
  · intro accepts text rounds i first enough
    exact scan_rounds accepts text rounds _ i first enough (by omega)

end ConfigManager.Guarantees
