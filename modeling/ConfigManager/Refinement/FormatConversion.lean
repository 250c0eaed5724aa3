import ConfigManager.Refinement.StoredConfigs
import ConfigManager.Refinement.Utf8Decoding

/-!
# What both formats can write

XML asks for more than JSON of names and texts, except that JSON keeps one name
of the root to itself. The link is UTF-8: what the XML predicates accept is a
sequence of encoded code points.
-/

set_option autoImplicit false

namespace ConfigManager.Refinement
open Library Source Reference

/-- The encoding of a `Char` is the encoding of its code point. -/
theorem encodeUtf8_char (c : Char) : encodeUtf8 c.toNat = String.utf8EncodeChar c := by
  have bound : c.val.toNat < 0x110000 := by
    rcases c.valid with low | ⟨_, high⟩ <;> omega
  simp only [encodeUtf8, String.utf8EncodeChar, Char.toNat]
  generalize c.val.toNat = n at bound
  by_cases one : n < 0x80
  · rw [if_pos one, if_pos (by omega)]
  by_cases two : n < 0x800
  · rw [if_neg one, if_pos two, if_neg (by omega), if_pos (by omega)]
    have lead : 0xC0 + n / 64 = n / 64 % 0x20 + 0xc0 := by omega
    rw [lead, Nat.add_comm 0x80]
  by_cases three : n < 0x10000
  · rw [if_neg one, if_neg two, if_pos three, if_neg (by omega), if_neg (by omega),
      if_pos (by omega)]
    have lead : 0xE0 + n / 4096 = n / 4096 % 0x10 + 0xe0 := by omega
    rw [lead, Nat.add_comm 0x80, Nat.add_comm 0x80]
  · rw [if_neg one, if_neg two, if_neg three, if_neg (by omega), if_neg (by omega),
      if_neg (by omega)]
    have lead : 0xF0 + n / 262144 = n / 262144 % 0x08 + 0xf0 := by omega
    rw [lead, Nat.add_comm 0x80, Nat.add_comm 0x80, Nat.add_comm 0x80]

/-- Encoded scalar values are UTF-8. -/
theorem encodeText_utf8 (cs : List Nat) (scalars : ∀ c ∈ cs, IsScalar c) :
    ValidUtf8 (encodeText cs) := by
  induction cs with
  | nil => exact ⟨[], rfl⟩
  | cons c cs ih =>
    obtain ⟨chars, rest⟩ := ih fun d inside => scalars d (List.mem_cons_of_mem c inside)
    have scalar := scalars c List.mem_cons_self
    have valid : c.isValidChar := by
      simp only [IsScalar] at scalar
      simp only [Nat.isValidChar]
      omega
    refine ⟨Char.ofNatAux c valid :: chars, ?_⟩
    have code : (Char.ofNatAux c valid).toNat = c := rfl
    rw [encodeText, List.flatMap_cons, List.flatMap_cons, ← encodeUtf8_char, code, ← rest]
    rfl

theorem inRanges_scalar (ranges : List (Nat × Nat))
    (plain : ∀ r ∈ ranges, r.2 < 0xD800 ∨ 0xDFFF < r.1 ∧ r.2 ≤ 0x10FFFF) (c : Nat)
    (inside : InRanges ranges c) : IsScalar c := by
  obtain ⟨r, member, low, high⟩ := inside
  have bounds := plain r member
  simp only [IsScalar]
  omega

theorem xmlText_utf8 (text : Bytes) (representable : isXmlRepresentable text = true) :
    ValidUtf8 text := by
  obtain ⟨cs, inside, rfl⟩ := (isXmlRepresentable_iff text).mp representable
  exact encodeText_utf8 cs fun c member => inRanges_scalar _ (by decide) c (inside c member)

theorem xmlName_utf8 (name : Bytes) (valid : isValidElementName name = true) : ValidUtf8 name := by
  obtain ⟨c, cs, first, later, rfl⟩ := (isValidElementName_iff name).mp valid
  refine encodeText_utf8 (c :: cs) fun d member => ?_
  rcases List.mem_cons.mp member with rfl | inside
  · exact inRanges_scalar nameStartRanges (by decide) d first
  · exact inRanges_scalar nameRanges (by decide) d (later d inside)

/-- A tree that XML can write, JSON can write too, but for the name of its carrier. -/
theorem xmlWritable_json (root : ConfigValue) (writable : XmlWritable root) :
    JsonWritable root ↔ kVersionKey ∉ root.keys := by
  obtain ⟨keys, leaves⟩ := writable
  have finite : ∀ s, XmlScalar s → FiniteScalar s := by
    intro s holds
    cases s <;> simp_all [XmlScalar, FiniteScalar]
  have utf8 : ∀ s, XmlScalar s → Utf8Scalar s := by
    intro s holds
    cases s <;> simp_all [XmlScalar, Utf8Scalar, xmlText_utf8]
  refine ⟨fun json => json.1, fun free => ⟨free, ?_, ?_, ?_⟩⟩
  · exact Tree.Every.mono (fun _ here l a shape => finite a (here l a shape)) leaves
  · exact Tree.Every.mono (fun _ here k inside => xmlName_utf8 k (here k inside)) keys
  · exact Tree.Every.mono (fun _ here l a shape => utf8 a (here l a shape)) leaves

end ConfigManager.Refinement
