import ConfigManager.Refinement.XmlConversion

/-!
# The conversion of a whole document

The children of the document, the attributes of its root and the budget of its
nodes: `convert` succeeds exactly on the documents that denote a versioned
configuration within the limits.
-/

set_option autoImplicit false

namespace ConfigManager.Refinement
open Library Source Reference

/-! ## The children of the document -/

theorem checkDocument_ok (nodes : List XmlNode) (seen : Bool) :
    XmlInterface.checkDocument nodes seen = .ok () ↔
      Spaced nodes ∧ (elements nodes).length + (if seen then 1 else 0) ≤ 1 := by
  induction nodes generalizing seen with
  | nil =>
    simp only [XmlInterface.checkDocument, Spaced, texts, elements, List.filterMap_nil,
      List.filter_nil, List.not_mem_nil, false_imp_iff, implies_true, List.length_nil, true_and,
      true_iff]
    split <;> omega
  | cons node rest ih =>
    have text : ∀ own, characterData node = some own →
        (isXmlWhitespace (cString own) = true ∧ XmlInterface.checkDocument rest seen = .ok () ↔
          Spaced (node :: rest) ∧
            (elements (node :: rest)).length + (if seen then 1 else 0) ≤ 1) := by
      intro own data
      rw [isBlank_iff, ih, spaced_cons_text own node data, elements_text data, and_assoc]
    cases node with
    | other => exact ih seen
    | pcdata own =>
      rw [← text own rfl, XmlInterface.checkDocument]
      cases isXmlWhitespace (cString own) <;> simp [fail]
    | cdata own =>
      rw [← text own rfl, XmlInterface.checkDocument]
      cases isXmlWhitespace (cString own) <;> simp [fail]
    | element name attributes children =>
      have spaced : Spaced (.element name attributes children :: rest) ↔ Spaced rest := Iff.rfl
      rw [XmlInterface.checkDocument, spaced, elements_element, List.length_cons]
      cases seen with
      | true => simp [fail]
      | false =>
        simp only [Bool.false_eq_true, if_false, Nat.add_zero]
        rw [ih]
        simp

theorem documentElement_of_elements (nodes : List XmlNode) (name : Bytes)
    (attributes : List (Bytes × Bytes)) (children : List XmlNode) (rest : List XmlNode)
    (first : elements nodes = .element name attributes children :: rest) :
    XmlInterface.documentElement nodes = (name, attributes, children) := by
  induction nodes with
  | nil => cases first
  | cons node nodes ih =>
    cases node with
    | element name' attributes' children' =>
      rw [elements_element] at first
      cases first
      rfl
    | _ => exact ih first

theorem documentElement_of_none (nodes : List XmlNode) (none : elements nodes = []) :
    XmlInterface.documentElement nodes = ([], [], []) := by
  induction nodes with
  | nil => rfl
  | cons node nodes ih =>
    cases node with
    | element name attributes children => cases none
    | _ => exact ih none

/-! ## The attributes of the root -/

/-- A version is its decimal digits. -/
theorem parseVersionCarrier_ok (text : Bytes) (version : VersionId) :
    parseVersionCarrier text = .ok version ↔
      text ≠ [] ∧ (∀ c ∈ text, isDigit c = true) ∧ digitsValue text = version.val := by
  unfold parseVersionCarrier
  by_cases empty : text = []
  · simp [empty, fail]
  have some : text.isEmpty = false := List.isEmpty_eq_false_iff.mpr empty
  rw [some, if_neg (by simp)]
  by_cases decimal : text.all isDigit = true
  · rw [decimal, if_neg (by simp)]
    rw [List.all_eq_true] at decimal
    by_cases fits : digitsValue text < 2 ^ 32
    · rw [dif_pos fits]
      simp only [Except.ok.injEq, Fin.ext_iff, ne_eq, empty, not_false_eq_true, true_and]
      exact ⟨fun same => ⟨decimal, same⟩, fun both => both.2⟩
    · rw [dif_neg fits]
      simp only [fail, reduceCtorEq, false_iff]
      rintro ⟨_, _, same⟩
      exact fits (same ▸ version.isLt)
  · rw [Bool.not_eq_true] at decimal
    rw [decimal, Bool.not_false, if_pos rfl]
    simp only [fail, reduceCtorEq, false_iff]
    rintro ⟨_, all, _⟩
    rw [List.all_eq_true.mpr all] at decimal
    cases decimal

/-- The versions still to come, after this one. -/
def CarrierRead (version : Option VersionId) (values : List Bytes) (result : Option VersionId) :
    Prop :=
  (values = [] ∧ result = version) ∨
    (version = none ∧ ∃ text carrier, values = [text] ∧
      parseVersionCarrier (cString text) = .ok carrier ∧ result = some carrier)

def TypeRead (seen : Bool) (values : List Bytes) : Prop :=
  values = [] ∨ (seen = false ∧ ∃ text, values = [text] ∧ cString text = bytes "object")

theorem attributeValues_cons (name value : Bytes) (rest : List (Bytes × Bytes)) (key : Bytes) :
    attributeValues ((name, value) :: rest) key =
      if cString name = key then value :: attributeValues rest key
      else attributeValues rest key := by
  unfold attributeValues
  rw [List.filter_cons]
  by_cases same : cString name = key <;> simp [same]

theorem versionAttr_ne_typeAttr : kVersionAttr ≠ kTypeAttr := by decide

theorem rootAttributes_ok (attributes : List (Bytes × Bytes)) (version : Option VersionId)
    (seen : Bool) (result : Option VersionId) :
    XmlInterface.rootAttributes attributes version seen = .ok result ↔
      (∀ a ∈ attributes, cString a.1 = kVersionAttr ∨ cString a.1 = kTypeAttr) ∧
        CarrierRead version (attributeValues attributes kVersionAttr) result ∧
        TypeRead seen (attributeValues attributes kTypeAttr) := by
  induction attributes generalizing version seen with
  | nil =>
    simp only [XmlInterface.rootAttributes, Except.ok.injEq, List.not_mem_nil, false_imp_iff,
      implies_true, attributeValues, List.filter_nil, List.map_nil, CarrierRead, TypeRead, true_and,
      and_true, List.nil_eq, reduceCtorEq, false_and, exists_false, and_false, or_false]
    exact eq_comm
  | cons a rest ih =>
    obtain ⟨name, value⟩ := a
    rw [XmlInterface.rootAttributes, List.forall_mem_cons, attributeValues_cons,
      attributeValues_cons]
    by_cases carrier : cString name = kVersionAttr
    · have noType : cString name ≠ kTypeAttr := carrier ▸ versionAttr_ne_typeAttr
      rw [if_pos carrier, if_pos carrier, if_neg noType]
      cases version with
      | some version =>
        simp [fail, CarrierRead]
      | none =>
        simp only [Option.isSome_none, Bool.false_eq_true, if_false]
        cases read : parseVersionCarrier (cString value) with
        | error e => simp [CarrierRead, read]
        | ok version =>
          simp only [ih]
          simp [CarrierRead, read, carrier]
    · rw [if_neg carrier, if_neg carrier]
      by_cases typed : cString name = kTypeAttr
      · rw [if_pos typed, if_pos typed]
        cases seen with
        | true => simp [fail, TypeRead]
        | false =>
          by_cases object : cString value = bytes "object"
          · simp only [Bool.false_eq_true, if_false, object, ne_eq, not_true_eq_false, ih]
            simp [TypeRead, object, typed]
          · simp [fail, TypeRead, object]
      · rw [if_neg typed, if_neg typed]
        simp [fail, carrier, typed]

theorem rootAttributes_version (attributes : List (Bytes × Bytes)) (version : VersionId) :
    XmlInterface.rootAttributes attributes none false = .ok (some version) ↔
      RootAttributes cString attributes version := by
  rw [rootAttributes_ok]
  constructor
  · rintro ⟨known, carrier, type⟩
    refine ⟨known, ?_, ?_⟩
    · rcases carrier with ⟨_, absent⟩ | ⟨_, text, carrier, only, read, same⟩
      · cases absent
      · cases same
        exact ⟨text, only, (parseVersionCarrier_ok _ _).mp read⟩
    · rcases type with none | ⟨_, one⟩
      · exact .inl none
      · exact .inr one
  · rintro ⟨known, ⟨text, only, digits⟩, type⟩
    refine ⟨known, .inr ⟨rfl, text, version, only, (parseVersionCarrier_ok _ _).mpr digits, rfl⟩, ?_⟩
    rcases type with none | one
    · exact .inl none
    · exact .inr ⟨rfl, one⟩

/-! ## The document -/

/-- The conversion of the root, counted before its members. -/
theorem root_denotes (float : FloatText) (limits : LoadLimits) (element : Bytes)
    (children : List XmlNode) (root : ConfigValue) :
    (∃ budget budget', NodeBudget.consume { maxNodes := limits.maxNodes } = (.ok (), budget) ∧
        parseObjectMembers float element 0 children budget ConfigValue.object =
          (.ok root, budget')) ↔
      (∃ ms, root = Tree.object () ms ∧ MembersShape children ms ∧
        List.Forall₂ (ElementDenotes float cString) (elements children) (ms.map Prod.snd)) ∧
      root.height ≤ kMaxTreeDepth ∧ root.size ≤ limits.maxNodes := by
  have object := fun budget' => object_converted float element 0 children
    (fun node _ => element_converted float node) { maxNodes := limits.maxNodes } (Nat.zero_le _)
    root budget'
  constructor
  · rintro ⟨budget, budget', consumed, parsed⟩
    obtain ⟨full, rfl⟩ := consume_ok _ _ consumed
    obtain ⟨denoted, shallow, within, _⟩ := (object budget').mp ⟨Nat.zero_le _, full, parsed⟩
    rw [Nat.zero_add] at shallow within
    exact ⟨denoted, shallow, within⟩
  · rintro ⟨denoted, shallow, within⟩
    obtain ⟨_, full, parsed⟩ := (object _).mpr
      ⟨denoted, (Nat.zero_add _).symm ▸ shallow, (Nat.zero_add _).symm ▸ within, rfl⟩
    refine ⟨_, _, ?_, parsed⟩
    unfold NodeBudget.consume
    rw [if_neg full]

/-- `convert` succeeds with exactly what the document denotes. -/
theorem convert_iff (float : FloatText) (limits : LoadLimits) (nodes : List XmlNode)
    (version : VersionId) (root : ConfigValue) :
    (∃ c, XmlInterface.convert float limits nodes = .ok c ∧ c.version = version ∧
        contents c.model = root) ↔
      DocumentDenotes float cString limits.maxNodes nodes version root := by
  constructor
  · rintro ⟨c, converted, rfl, rfl⟩
    unfold XmlInterface.convert at converted
    split at converted
    · cases converted
    next checked =>
    obtain ⟨spaced, single⟩ := (checkDocument_ok nodes false).mp checked
    simp only [Bool.false_eq_true, if_false, Nat.add_zero] at single
    match shape : elements nodes with
    | [] =>
      rw [documentElement_of_none nodes shape] at converted
      cases converted
    | first :: second :: rest =>
      rw [shape] at single
      simp at single
    | [first] =>
      obtain ⟨name, attributes, children, rfl⟩ :=
        isElement_shape first ((mem_elements nodes first).mp (by simp [shape])).2
      simp only [documentElement_of_elements nodes name attributes children [] shape] at converted
      split at converted
      · cases converted
      next named =>
      split at converted
      · cases converted
      · cases converted
      next carrier attributesRead =>
      split at converted
      · cases converted
      next budget consumed =>
      split at converted
      · cases converted
      next root budget' parsed =>
      obtain ⟨admissible, _, _⟩ :=
        root_converted float limits _ _ budget budget' root consumed parsed
      obtain ⟨m, made, same⟩ := fromValue_ok root admissible
      rw [made] at converted
      cases converted
      rw [same]
      obtain ⟨⟨ms, object, members, values⟩, shallow, within⟩ :=
        (root_denotes float limits _ children root).mp ⟨budget, budget', consumed, parsed⟩
      exact ⟨spaced, ⟨name, attributes, children, ms, shape, not_not.mp named,
        (rootAttributes_version _ _).mp attributesRead, object, members, values⟩, shallow, within⟩
  · intro denotes
    obtain ⟨name, attributes, children, ms, shape, named, attributesRead, object, members, values⟩ :=
      denotes.element
    obtain ⟨budget, budget', consumed, parsed⟩ :=
      (root_denotes float limits (cString name) children root).mpr
        ⟨⟨ms, object, members, values⟩, denotes.shallow, denotes.budget⟩
    obtain ⟨admissible, _, _⟩ :=
      root_converted float limits _ _ budget budget' root consumed parsed
    obtain ⟨m, made, same⟩ := fromValue_ok root admissible
    have checked : XmlInterface.checkDocument nodes false = .ok () := by
      rw [checkDocument_ok, shape]
      exact ⟨denotes.spaced, by simp⟩
    refine ⟨⟨version, m⟩, ?_, rfl, same⟩
    unfold XmlInterface.convert
    rw [checked]
    simp only [documentElement_of_elements nodes name attributes children [] shape, named, ne_eq,
      not_true_eq_false, if_false, (rootAttributes_version _ _).mpr attributesRead, consumed]
    rw [named] at parsed
    simp only [parsed, made]

end ConfigManager.Refinement
