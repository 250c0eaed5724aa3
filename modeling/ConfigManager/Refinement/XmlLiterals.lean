import ConfigManager.Reference.XmlMeaning
import ConfigManager.Refinement.XmlReading
import ConfigManager.Refinement.Utf8Decoding
import ConfigManager.Refinement.PathScanning

/-!
# Attributes and scalars of an XML element

What the source reads of an element's attributes is its kind, and a scalar element
is accepted exactly with a literal of its kind.
-/

set_option autoImplicit false

namespace ConfigManager.Refinement
open Library Source Reference

/-! ## Children -/

theorem isBlank_iff (text : Bytes) : isXmlWhitespace (cString text) = true ↔ IsBlank text := by
  unfold isXmlWhitespace IsBlank
  rw [List.all_eq_true]
  simp only [Bool.or_eq_true, beq_iff_eq, or_assoc]

theorem elements_element (name : Bytes) (attributes : List (Bytes × Bytes))
    (children rest : List XmlNode) :
    elements (.element name attributes children :: rest) =
      .element name attributes children :: elements rest := rfl

@[simp] theorem elements_pcdata (value : Bytes) (rest : List XmlNode) :
    elements (.pcdata value :: rest) = elements rest := rfl

@[simp] theorem elements_cdata (value : Bytes) (rest : List XmlNode) :
    elements (.cdata value :: rest) = elements rest := rfl

@[simp] theorem elements_other (rest : List XmlNode) :
    elements (.other :: rest) = elements rest := rfl

@[simp] theorem texts_element (name : Bytes) (attributes : List (Bytes × Bytes))
    (children rest : List XmlNode) :
    texts (.element name attributes children :: rest) = texts rest := rfl

@[simp] theorem texts_pcdata (value : Bytes) (rest : List XmlNode) :
    texts (.pcdata value :: rest) = value :: texts rest := rfl

@[simp] theorem texts_cdata (value : Bytes) (rest : List XmlNode) :
    texts (.cdata value :: rest) = value :: texts rest := rfl

@[simp] theorem texts_other (rest : List XmlNode) : texts (.other :: rest) = texts rest := rfl

/-- Only the two kinds of text node hold character data. -/
theorem characterData_cases {node : XmlNode} {text : Bytes}
    (data : characterData node = some text) : node = .pcdata text ∨ node = .cdata text := by
  cases node with
  | pcdata own =>
    cases data
    exact .inl rfl
  | cdata own =>
    cases data
    exact .inr rfl
  | _ => cases data

theorem elements_text {node : XmlNode} {text : Bytes} (data : characterData node = some text)
    (rest : List XmlNode) : elements (node :: rest) = elements rest := by
  rcases characterData_cases data with rfl | rfl
  · rfl
  · rfl

theorem mem_elements (nodes : List XmlNode) (node : XmlNode) :
    node ∈ elements nodes ↔ node ∈ nodes ∧ isElement node = true := List.mem_filter

theorem isElement_shape (node : XmlNode) (element : isElement node = true) :
    ∃ name attributes children, node = .element name attributes children := by
  cases node with
  | element name attributes children => exact ⟨_, _, _, rfl⟩
  | _ => cases element

theorem hasElementChildren_iff (children : List XmlNode) :
    hasElementChildren children = true ↔ elements children ≠ [] := by
  induction children with
  | nil => simp [hasElementChildren, elements]
  | cons node rest ih =>
    cases node with
    | element name attributes inner => simp [hasElementChildren, elements_element]
    | _ => simpa [hasElementChildren] using ih

/-- The text of an element is all its text nodes, provided it has no child elements. -/
theorem scalarText_ok (element : Bytes) (children : List XmlNode) (done text : Bytes) :
    scalarText element children done = .ok text ↔
      elements children = [] ∧ text = done ++ textOf cString children := by
  induction children generalizing done with
  | nil =>
    simp only [scalarText, Except.ok.injEq, elements, List.filter_nil, textOf, texts,
      List.filterMap_nil, List.flatMap_nil, List.append_nil, true_and]
    exact eq_comm
  | cons node rest ih =>
    cases node with
    | element name attributes inner => simp [scalarText, elements_element, fail]
    | other => simpa [scalarText, textOf] using ih done
    | pcdata value =>
      rw [scalarText, ih]
      simp [textOf, List.append_assoc]
    | cdata value =>
      rw [scalarText, ih]
      simp [textOf, List.append_assoc]

/-! ## Attributes -/

/-- The attributes of an element are accepted when there is at most a type. -/
theorem typeAttribute_ok (element : Bytes) (attributes : List (Bytes × Bytes))
    (type : Option Bytes) :
    typeAttribute element attributes none = .ok type ↔
      (attributes = [] ∧ type = none) ∨
        ∃ name value, attributes = [(name, value)] ∧ cString name = kTypeAttr ∧
          type = some (cString value) := by
  have later : ∀ (rest : List (Bytes × Bytes)) (seen : Bytes),
      typeAttribute element rest (some seen) = .ok type ↔ rest = [] ∧ type = some seen := by
    intro rest seen
    cases rest with
    | nil =>
      simp only [typeAttribute, Except.ok.injEq, true_and]
      exact eq_comm
    | cons a rest =>
      simp only [typeAttribute, Option.isSome_some, if_true, fail]
      split <;> simp
  cases attributes with
  | nil =>
    simp only [typeAttribute, Except.ok.injEq, true_and, List.nil_eq, reduceCtorEq, false_and,
      exists_false, or_false]
    exact eq_comm
  | cons a rest =>
    obtain ⟨name, value⟩ := a
    rw [typeAttribute]
    by_cases typed : cString name = kTypeAttr
    · rw [if_pos typed]
      simp only [Option.isSome_none, Bool.false_eq_true, if_false, later]
      constructor
      · intro both
        obtain ⟨rfl, rfl⟩ := both
        exact .inr ⟨name, value, rfl, typed, rfl⟩
      · intro either
        rcases either with ⟨empty, _⟩ | ⟨name', value', same, _, read⟩
        · cases empty
        · cases same
          exact ⟨rfl, read⟩
    · rw [if_neg typed]
      simp only [fail, reduceCtorEq, false_iff]
      intro either
      rcases either with ⟨empty, _⟩ | ⟨name', value', same, typed', _⟩
      · cases empty
      · cases same
        exact typed typed'

/-! ## Literals -/

theorem parseBoolText_iff (float : FloatText) (text element : Bytes) (value : ConfigValue) :
    parseBoolText text element = .ok value ↔
      ∃ s, value = ConfigValue.of s ∧ LiteralOf float .bool text s := by
  constructor
  · intro ok
    unfold parseBoolText at ok
    split at ok
    · next yes =>
      cases ok
      exact ⟨_, rfl, yes ▸ LiteralOf.bool true⟩
    · split at ok
      · next no =>
        cases ok
        exact ⟨_, rfl, no ▸ LiteralOf.bool false⟩
      · cases ok
  · intro literal
    obtain ⟨s, rfl, literal⟩ := literal
    cases literal with
    | bool value => cases value <;> rfl

theorem head_digits (digits : Bytes) (decimal : ∀ c ∈ digits, isDigit c = true) :
    digits.head? ≠ some 45 := by
  intro minus
  have digit := decimal 45 (List.mem_of_mem_head? minus)
  exact absurd digit (by decide)

/-- `from_chars` on a sign and digits. -/
theorem fromCharsInt_digits (negative : Bool) (digits : Bytes) (nonempty : digits ≠ [])
    (decimal : ∀ c ∈ digits, isDigit c = true) :
    fromCharsInt (if negative then 45 :: digits else digits) =
      if signedValue negative digits < -2 ^ 63 ∨ 2 ^ 63 ≤ signedValue negative digits then
        (.error .resultOutOfRange, [])
      else (.ok (Int64.ofInt (signedValue negative digits)), []) := by
  have all := List.takeWhile_eq_self_iff.mpr decimal
  have rest := List.dropWhile_eq_nil_iff.mpr decimal
  have some : digits.isEmpty = false := List.isEmpty_eq_false_iff.mpr nonempty
  unfold fromCharsInt
  cases negative with
  | true =>
    simp only [if_true, List.head?_cons, List.drop_succ_cons, List.drop_zero, all, rest, some,
      Bool.false_eq_true, if_false, signedValue]
  | false =>
    simp only [Bool.false_eq_true, if_false, head_digits digits decimal, all, rest, some,
      signedValue]

/-- What the digits that `from_chars` reads are when it reads the whole text. -/
theorem unread_nil (unsigned : Bytes) {α : Type} (below above : Except Errc α) (text : Bytes)
    (range : Prop) [Decidable range] (value : α)
    (ok : (if (unsigned.takeWhile isDigit).isEmpty then (.error .invalidArgument, text)
      else if range then (below, unsigned.dropWhile isDigit)
      else (above, unsigned.dropWhile isDigit)) = (Except.ok value, [])) :
    unsigned ≠ [] ∧ ∀ c ∈ unsigned, isDigit c = true := by
  split at ok
  · simp at ok
  · next some =>
    have rest : unsigned.dropWhile isDigit = [] := by
      split at ok
      · exact congrArg Prod.snd ok
      · exact congrArg Prod.snd ok
    have decimal := List.dropWhile_eq_nil_iff.mp rest
    rw [Bool.not_eq_true, List.isEmpty_eq_false_iff,
      List.takeWhile_eq_self_iff.mpr decimal] at some
    exact ⟨some, decimal⟩

/-- What `from_chars` reads whole is a sign and digits. -/
theorem fromCharsInt_whole (text : Bytes) (value : Int64)
    (ok : fromCharsInt text = (.ok value, [])) :
    ∃ (negative : Bool) (digits : Bytes), text = (if negative then 45 :: digits else digits) ∧
      digits ≠ [] ∧ ∀ c ∈ digits, isDigit c = true := by
  unfold fromCharsInt at ok
  by_cases minus : text.head? = some 45
  · simp only [minus, if_true] at ok
    obtain ⟨digits, rfl⟩ : ∃ digits, text = 45 :: digits := by
      cases text with
      | nil => cases minus
      | cons c rest =>
        cases minus
        exact ⟨rest, rfl⟩
    exact ⟨true, digits, rfl, unread_nil digits _ _ _ _ value ok⟩
  · simp only [minus, if_false] at ok
    exact ⟨false, text, rfl, unread_nil text _ _ _ _ value ok⟩

theorem parseIntText_iff (float : FloatText) (text element : Bytes) (value : ConfigValue) :
    parseIntText text element = .ok value ↔
      ∃ s, value = ConfigValue.of s ∧ LiteralOf float .int text s := by
  constructor
  · intro ok
    unfold parseIntText notDecimalError at ok
    split at ok
    · cases ok
    · cases ok
    · next number unread read =>
      split at ok
      · cases ok
      · next whole =>
        rw [Bool.not_eq_true', Bool.not_eq_false, List.isEmpty_iff] at whole
        subst whole
        cases ok
        obtain ⟨negative, digits, rfl, nonempty, decimal⟩ := fromCharsInt_whole text number read
        rw [fromCharsInt_digits negative digits nonempty decimal] at read
        split at read
        · simp at read
        · next range =>
          cases read
          rw [not_or, Int.not_lt, Int.not_le] at range
          exact ⟨_, rfl, .int negative digits nonempty decimal range.1 range.2⟩
  · intro literal
    obtain ⟨s, rfl, literal⟩ := literal
    cases literal with
    | int negative digits nonempty decimal low high =>
      unfold parseIntText
      rw [fromCharsInt_digits negative digits nonempty decimal, if_neg (by omega)]
      rfl

theorem parseDoubleText_iff (float : FloatText) (text element : Bytes) (value : ConfigValue) :
    parseDoubleText float text element = .ok value ↔
      ∃ s, value = ConfigValue.of s ∧ LiteralOf float .double text s := by
  constructor
  · intro ok
    unfold parseDoubleText notFloatError at ok
    split at ok
    · cases ok
    · next d unread read =>
      split at ok
      · cases ok
      · next accepted =>
        cases ok
        rw [Bool.or_eq_true, not_or, Bool.not_eq_true', Bool.not_eq_true', Bool.not_eq_false,
          Bool.not_eq_false, List.isEmpty_iff] at accepted
        obtain ⟨rfl, finite⟩ := accepted
        exact ⟨_, rfl, .double text d read finite⟩
  · intro literal
    obtain ⟨s, rfl, literal⟩ := literal
    cases literal with
    | double text d whole finite =>
      unfold parseDoubleText
      simp only [whole, List.isEmpty_nil, Bool.not_true, finite, Bool.or_self, Bool.false_eq_true,
        if_false]

theorem literalOf_null (float : FloatText) (text : Bytes) (s : Scalar) :
    LiteralOf float .null text s ↔ text = [] ∧ s = .monostate := by
  constructor
  · intro literal
    cases literal with
    | null => exact ⟨rfl, rfl⟩
  · intro both
    obtain ⟨rfl, rfl⟩ := both
    exact .null

/-! ## Scalar elements -/

theorem parseString_iff (float : FloatText) (element : Bytes) (children : List XmlNode)
    (value : ConfigValue) :
    parseString element children = .ok value ↔ elements children = [] ∧
      ∃ s, value = ConfigValue.of s ∧ LiteralOf float .string (textOf cString children) s := by
  unfold parseString
  constructor
  · intro ok
    split at ok
    · cases ok
    · next text read =>
      rw [scalarText_ok, List.nil_append] at read
      obtain ⟨flat, rfl⟩ := read
      split at ok
      · cases ok
      · next representable =>
        cases ok
        rw [Bool.not_eq_true', Bool.not_eq_false, isXmlRepresentable_iff] at representable
        exact ⟨flat, _, rfl, .string _ representable⟩
  · intro both
    obtain ⟨flat, s, rfl, literal⟩ := both
    have read := (scalarText_ok element children [] _).mpr ⟨flat, rfl⟩
    rw [read, List.nil_append]
    generalize textOf cString children = text at literal
    cases literal with
    | string text representable =>
      rw [← isXmlRepresentable_iff] at representable
      simp only [representable, Bool.not_true, Bool.false_eq_true, if_false]

/-- A typed scalar is read by its type. -/
theorem parseScalar_iff (float : FloatText) (element type : Bytes) (children : List XmlNode)
    (noObject : type ≠ bytes "object") (noArray : type ≠ bytes "array") (value : ConfigValue) :
    parseScalar float element type children = .ok value ↔
      ∃ kind, typedKind type = some (.scalar kind) ∧ elements children = [] ∧
        ∃ s, value = ConfigValue.of s ∧ LiteralOf float kind (textOf cString children) s := by
  unfold parseScalar typedKind
  rw [if_neg noObject, if_neg noArray]
  cases read : scalarText element children [] with
  | error e =>
    have some : elements children ≠ [] := by
      intro flat
      rw [(scalarText_ok element children [] _).mpr ⟨flat, rfl⟩] at read
      cases read
    simp only [some, false_and, and_false, exists_false, iff_false]
    split <;> simp [fail]
  | ok text =>
    obtain ⟨flat, rfl⟩ := (scalarText_ok element children [] text).mp read
    rw [List.nil_append]
    simp only [flat, true_and]
    by_cases null : type = bytes "null"
    · subst null
      rw [if_pos (by decide), if_pos rfl, if_pos rfl]
      simp only [Option.some.injEq, ElementKind.scalar.injEq, exists_eq_left', literalOf_null]
      cases textOf cString children with
      | nil => simp [eq_comm]
      | cons c rest => simp [fail]
    rw [if_neg null, if_neg null]
    by_cases bool : type = bytes "bool"
    · subst bool
      rw [if_pos (by decide), if_pos rfl, if_pos rfl, parseBoolText_iff float]
      simp only [Option.some.injEq, ElementKind.scalar.injEq, exists_eq_left']
    rw [if_neg bool, if_neg bool]
    by_cases int : type = bytes "int"
    · subst int
      rw [if_pos (by decide), if_pos rfl, if_pos rfl, parseIntText_iff float]
      simp only [Option.some.injEq, ElementKind.scalar.injEq, exists_eq_left']
    rw [if_neg int, if_neg int]
    by_cases double : type = bytes "double"
    · subst double
      rw [if_pos (by decide), if_pos rfl, parseDoubleText_iff]
      simp only [Option.some.injEq, ElementKind.scalar.injEq, exists_eq_left']
    rw [if_neg double, if_neg (by simp [null, bool, int, double])]
    simp [fail]

end ConfigManager.Refinement
