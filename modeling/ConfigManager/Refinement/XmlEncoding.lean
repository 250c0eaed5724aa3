import Mathlib.Data.List.GetD
import Mathlib.Data.List.TakeWhile
import ConfigManager.Reference.XmlDocument
import ConfigManager.Refinement.Walks

/-!
# The document that the XML backend writes

`appendValueElement` on a represented node appends `elementOf` of the plain tree
below it, if all names are XML names and all scalars can be written.
-/

set_option autoImplicit false

namespace ConfigManager.Refinement
open Library Source Reference

/-! ## Accepted text holds no NUL -/

theorem cString_eq (text : Bytes) (plain : 0 ∉ text) : cString text = text := by
  unfold cString
  rw [List.takeWhile_eq_self_iff]
  intro c inside
  have other : c ≠ 0 := fun same => plain (same ▸ inside)
  simpa using other

theorem continuation_nonzero (conts : Bytes) (value result : UInt32)
    (decoded : continuation conts value = some result) : 0 ∉ conts := by
  induction conts generalizing value with
  | nil => simp
  | cons cont rest ih =>
    rw [continuation] at decoded
    split at decoded
    · cases decoded
    · next high =>
      rw [ne_eq, not_not] at high
      rw [List.mem_cons, not_or]
      refine ⟨?_, ih _ decoded⟩
      rintro rfl
      exact absurd high (by decide)

theorem leadByte_length (lead : UInt8) (length : Nat) (payload : UInt32)
    (announced : leadByte lead = some (length, payload)) : 2 ≤ length := by
  unfold leadByte at announced
  split at announced
  · cases announced; omega
  · split at announced
    · cases announced; omega
    · split at announced
      · cases announced; omega
      · cases announced

/-- Decoding advances, and passes a NUL only as the character NUL. -/
theorem decodeUtf8_passes (text : Bytes) (i next : Nat) (c : UInt32) (inside : i < text.length)
    (decoded : decodeUtf8 text i = some (c, next)) :
    i < next ∧ ∀ k, i ≤ k → k < next → text[k]? = some 0 → c = 0 := by
  have first : text[i]? = some (text.getD i 0) := by
    rw [List.getElem?_eq_getElem inside, List.getD_eq_getElem text 0 inside]
  unfold decodeUtf8 at decoded
  simp only at decoded
  split at decoded
  · simp only [Option.some.injEq, Prod.mk.injEq] at decoded
    obtain ⟨rfl, rfl⟩ := decoded
    refine ⟨Nat.lt_succ_self i, fun k low high nul => ?_⟩
    have here : k = i := by omega
    rw [here, first, Option.some.injEq] at nul
    rw [nul]
    rfl
  · next high =>
    split at decoded
    · cases decoded
    · next length payload announced =>
      have long := leadByte_length _ _ _ announced
      split at decoded
      · cases decoded
      · next whole =>
        split at decoded
        · cases decoded
        · next value continued =>
          have nonzero := continuation_nonzero _ _ _ continued
          split at decoded
          · cases decoded
          · split at decoded
            · cases decoded
            · split at decoded
              · cases decoded
              · simp only [Option.some.injEq, Prod.mk.injEq] at decoded
                obtain ⟨rfl, rfl⟩ := decoded
                refine ⟨by omega, fun k low below nul => ?_⟩
                rcases Nat.eq_or_lt_of_le low with rfl | later
                · rw [first, Option.some.injEq] at nul
                  rw [nul] at high
                  exact absurd high (by decide)
                · refine absurd (List.mem_of_getElem? (i := k - (i + 1)) ?_) nonzero
                  rw [List.getElem?_take_of_lt (by omega), List.getElem?_drop,
                    Nat.add_sub_cancel' later]
                  exact nul

theorem scan_nonzero (accepts : Bool → UInt32 → Bool) (refuses : ∀ first, accepts first 0 = false)
    (text : Bytes) (rounds i : Nat) (first : Bool) (enough : text.length ≤ i + rounds)
    (passed : scan accepts text rounds i first = true) :
    ∀ k, i ≤ k → text[k]? ≠ some 0 := by
  induction rounds generalizing i first with
  | zero =>
    intro k low nul
    have here := (List.getElem?_eq_some_iff.mp nul).1
    omega
  | succ rounds ih =>
    intro k low nul
    have here := (List.getElem?_eq_some_iff.mp nul).1
    rw [scan, if_pos (by omega)] at passed
    cases decoded : decodeUtf8 text i with
    | none => simp [decoded] at passed
    | some read =>
      obtain ⟨c, next⟩ := read
      simp only [decoded, Bool.and_eq_true] at passed
      obtain ⟨accepted, rest⟩ := passed
      obtain ⟨advances, nonzero⟩ := decodeUtf8_passes text i next c (by omega) decoded
      by_cases below : k < next
      · rw [nonzero k low below nul, refuses] at accepted
        cases accepted
      · exact ih next false (by omega) rest k (Nat.le_of_not_lt below) nul

theorem scan_plain (accepts : Bool → UInt32 → Bool) (refuses : ∀ first, accepts first 0 = false)
    (text : Bytes) (first : Bool) (passed : scan accepts text text.length 0 first = true) :
    0 ∉ text := by
  intro inside
  obtain ⟨k, here⟩ := List.mem_iff_getElem?.mp inside
  exact scan_nonzero accepts refuses text text.length 0 first (by omega) passed k (Nat.zero_le k) here

theorem cString_name (name : Bytes) (valid : isValidElementName name = true) :
    cString name = name := by
  unfold isValidElementName at valid
  rw [Bool.and_eq_true] at valid
  exact cString_eq name (scan_plain _ (by decide) name true valid.2)

theorem cString_text (text : Bytes) (representable : isXmlRepresentable text = true) :
    cString text = text :=
  cString_eq text (scan_plain _ (by decide) text true representable)

theorem natText_plain (n : Nat) : 0 ∉ natText n := fun inside =>
  absurd (natText_isDigit n 0 inside) (by decide)

theorem intText_plain (value : Int64) : 0 ∉ intText value := by
  unfold intText
  split
  · rw [List.mem_cons, not_or]
    exact ⟨by decide, natText_plain _⟩
  · exact natText_plain _

/-! ## What can be written -/

def XmlKey (key : Bytes) : Prop := isValidElementName key = true

def XmlScalar : Scalar → Prop
  | .double value => value.isFinite = true
  | .string value => isXmlRepresentable value = true
  | _ => True

/-- All names are XML names and all scalars can be written. -/
def XmlWritable (x : ConfigValue) : Prop := Tree.EveryKey XmlKey x ∧ Tree.EveryLeaf XmlScalar x

theorem xmlWritable_leaf (s : Scalar) :
    XmlWritable (Tree.leaf () s) ↔ XmlScalar s := by
  simp [XmlWritable]

theorem xmlWritable_object (ms : List (Bytes × ConfigValue)) :
    XmlWritable (Tree.object () ms) ↔ ∀ m ∈ ms, XmlKey m.1 ∧ XmlWritable m.2 := by
  simp only [XmlWritable, Tree.everyKey_object, Tree.everyLeaf_object]
  constructor
  · rintro ⟨keys, leaves⟩ m inside
    exact ⟨(keys m inside).1, (keys m inside).2, leaves m inside⟩
  · intro all
    exact ⟨fun m inside => ⟨(all m inside).1, (all m inside).2.1⟩,
      fun m inside => (all m inside).2.2⟩

theorem xmlWritable_array (es : List ConfigValue) :
    XmlWritable (Tree.array () es) ↔ ∀ e ∈ es, XmlWritable e := by
  simp only [XmlWritable, Tree.everyKey_array, Tree.everyLeaf_array]
  constructor
  · rintro ⟨keys, leaves⟩ e inside
    exact ⟨keys e inside, leaves e inside⟩
  · intro all
    exact ⟨fun e inside => (all e inside).1, fun e inside => (all e inside).2⟩

/-! ## The element of a value -/

def scalarAttributes : Scalar → List (Bytes × Bytes)
  | .monostate => [(kTypeAttr, bytes "null")]
  | .bool _ => [(kTypeAttr, bytes "bool")]
  | .int _ => [(kTypeAttr, bytes "int")]
  | .double _ => [(kTypeAttr, bytes "double")]
  | .string _ => []

def scalarChildren (float : FloatText) : Scalar → List XmlNode
  | .monostate => []
  | .bool value => [.pcdata (if value then bytes "true" else bytes "false")]
  | .int value => [.pcdata (intText value)]
  | .double value => [.pcdata (float.toChars value)]
  | .string value => if value.isEmpty then [] else [.pcdata value]

mutual
/-- An object with members has no type attribute. -/
def elementOf (float : FloatText) (name : Bytes) : ConfigValue → XmlNode
  | Tree.leaf _ s => .element name (scalarAttributes s) (scalarChildren float s)
  | Tree.object _ ms =>
      .element name (if ms.isEmpty then [(kTypeAttr, bytes "object")] else [])
        (memberElements float ms)
  | Tree.array _ es => .element name [(kTypeAttr, bytes "array")] (itemElements float es)
def memberElements (float : FloatText) : List (Bytes × ConfigValue) → List XmlNode
  | [] => []
  | (key, value) :: ms => elementOf float key value :: memberElements float ms
def itemElements (float : FloatText) : List ConfigValue → List XmlNode
  | [] => []
  | value :: es => elementOf float kItemName value :: itemElements float es
end

/-- No text of a finite double holds a NUL. -/
def PrintableFloats (float : FloatText) : Prop := ∀ d, d.isFinite = true → 0 ∉ float.toChars d

theorem appendScalar_spec (float : FloatText) (printable : PrintableFloats float) (tag name : Bytes)
    (s : Scalar) :
    SavesAs (appendScalar float (.element tag [] []) name s) (XmlScalar s)
      (.element tag (scalarAttributes s) (scalarChildren float s)) := by
  cases s with
  | monostate => exact .of_ok rfl
  | bool value =>
    refine .of_ok ?_
    cases value <;> rfl
  | int value =>
    refine .of_ok ?_
    simp only [appendScalar, setElementText, setTypeAttribute, XmlNode.appendChild,
      XmlNode.appendAttribute, cString_eq _ (intText_plain value), List.nil_append,
      scalarAttributes, scalarChildren]
  | double value =>
    simp only [appendScalar, Bool.not_eq_true']
    constructor
    · intro finite
      have plain := cString_eq _ (printable value finite)
      rw [if_neg (by simpa [XmlScalar] using finite)]
      simp only [setElementText, setTypeAttribute, XmlNode.appendChild, XmlNode.appendAttribute,
        plain, List.nil_append, scalarAttributes, scalarChildren]
    · intro infinite
      rw [if_pos (by simpa [XmlScalar] using infinite)]
      exact ⟨_, rfl, rfl⟩
  | string value =>
    simp only [appendScalar, Bool.not_eq_true']
    constructor
    · intro representable
      rw [if_neg (by simpa [XmlScalar] using representable)]
      cases empty : value.isEmpty with
      | true => simp [scalarAttributes, scalarChildren, empty]
      | false =>
        simp only [if_true, setElementText, XmlNode.appendChild, cString_text value representable,
          List.nil_append, scalarAttributes, scalarChildren, empty, Bool.false_eq_true, if_false]
    · intro other
      rw [if_pos (by simpa [XmlScalar] using other)]
      exact ⟨_, rfl, rfl⟩

/-! ## The walk -/

/-- What the recursive call is promised to do for a child. -/
def AppendsAs (float : FloatText) (append : XmlNode → Bytes → ConfigNode → Result XmlNode)
    (a : NodeArena) (t : SlotTree) : Prop :=
  ∀ parent name, SavesAs (append parent name (ConfigNode.issue a t.label))
    (XmlKey name ∧ XmlWritable t.forget) (parent.appendChild (elementOf float name t.forget))

theorem appendMembers_spec {a : NodeArena} (float : FloatText)
    (append : XmlNode → Bytes → ConfigNode → Result XmlNode) (ms : List (Bytes × SlotTree))
    (each : ∀ m ∈ ms, AppendsAs float append a m.2) (tag : Bytes)
    (attributes : List (Bytes × Bytes)) (done : List XmlNode) :
    SavesAs
      (appendMembers append (ms.map fun m => (m.1, ConfigNode.issue a m.2.label))
        (.element tag attributes done))
      (∀ m ∈ ms, XmlKey m.1 ∧ XmlWritable m.2.forget)
      (.element tag attributes
        (done ++ memberElements float (ms.map fun m => (m.1, m.2.forget)))) := by
  induction ms generalizing done with
  | nil =>
    refine (SavesAs.of_ok ?_).congr (by simp)
    simp [appendMembers, memberElements]
  | cons m rest ih =>
    have first := each m (by simp) (.element tag attributes done) m.1
    rw [List.forall_mem_cons]
    refine first.next ?_ fun appended => ?_
    · intro e failed
      simp only [List.map_cons, appendMembers, failed]
    · have tail := ih (fun m' inside => each m' (by simp [inside]))
        (done ++ [elementOf float m.1 m.2.forget])
      rw [List.append_assoc, List.singleton_append] at tail
      simp only [List.map_cons, appendMembers, appended, XmlNode.appendChild, memberElements]
      exact tail

theorem kItemName_valid : XmlKey kItemName := by
  unfold XmlKey
  decide

theorem appendItems_spec {a : NodeArena} (float : FloatText)
    (append : XmlNode → Bytes → ConfigNode → Result XmlNode) (node : ConfigNode)
    (es : List SlotTree) (each : ∀ e ∈ es, AppendsAs float append a e) (i : Nat)
    (reads : ∀ j e, es[j]? = some e → node.at a (i + j) = .ok (ConfigNode.issue a e.label))
    (tag : Bytes) (attributes : List (Bytes × Bytes)) (done : List XmlNode) :
    SavesAs
      (appendItems append a node (List.range' i es.length) (.element tag attributes done))
      (∀ e ∈ es, XmlWritable e.forget)
      (.element tag attributes (done ++ itemElements float (es.map Tree.forget))) := by
  induction es generalizing i done with
  | nil =>
    refine (SavesAs.of_ok ?_).congr (by simp)
    simp [appendItems, itemElements]
  | cons e rest ih =>
    have here : node.at a i = .ok (ConfigNode.issue a e.label) := reads 0 e rfl
    have first := (each e (by simp) (.element tag attributes done) kItemName).congr
      (and_iff_right kItemName_valid)
    rw [List.length_cons, List.range'_succ, List.forall_mem_cons]
    refine first.next ?_ fun appended => ?_
    · intro e failed
      simp only [appendItems, here, failed]
    · have tail := ih (fun e' inside => each e' (by simp [inside])) (i + 1)
        (fun j e' later => by
          rw [Nat.add_assoc, Nat.add_comm 1 j]
          exact reads (j + 1) e' (by simpa using later))
        (done ++ [elementOf float kItemName e.forget])
      rw [List.append_assoc, List.singleton_append] at tail
      simp only [List.map_cons, appendItems, here, appended, XmlNode.appendChild, itemElements]
      exact tail

/-- The content of the element for a represented node. -/
theorem fillElement_spec {a : NodeArena} (float : FloatText) (printable : PrintableFloats float)
    (append : XmlNode → Bytes → ConfigNode → Result XmlNode) (t : SlotTree)
    (parent : Option NodeId) (rep : Rep a parent t)
    (each : ∀ c ∈ t.children, AppendsAs float append a c) (tag name : Bytes) :
    SavesAs (fillElement float a append (.element tag [] []) name (ConfigNode.issue a t.label))
      (XmlWritable t.forget) (elementOf float tag t.forget) := by
  cases t with
  | leaf l s =>
    have type : (ConfigNode.issue a l).type a = s.type := type_issue rep
    have read := scalarOf_leaf (bytes "XML") l s rep
    have scalar := (appendScalar_spec float printable tag name s).congr (xmlWritable_leaf s).symm
    change SavesAs (fillElement float a append _ name (ConfigNode.issue a l)) _ _
    cases s <;> simp only [fillElement, type, Scalar.type, read] <;> exact scalar
  | object l ms =>
    have type : (ConfigNode.issue a l).type a = .object := type_issue rep
    have size := size_object l ms rep
    have read := members_object l ms rep
    simp only [Tree.children, List.forall_mem_map] at each
    change SavesAs (fillElement float a append _ name (ConfigNode.issue a l)) _ _
    simp only [fillElement, type, size, read, Tree.forget_object, xmlWritable_object,
      List.forall_mem_map]
    cases ms with
    | nil => exact (SavesAs.of_ok rfl).congr (by simp)
    | cons m rest => exact appendMembers_spec float append (m :: rest) each tag [] []
  | array l es =>
    have type : (ConfigNode.issue a l).type a = .array := type_issue rep
    have size := size_array l es rep
    have whole := appendItems_spec float append (ConfigNode.issue a l) es each 0
      (fun j e here => by rw [Nat.zero_add]; exact at_element l es rep j e here) tag
      [(kTypeAttr, bytes "array")] []
    change SavesAs (fillElement float a append _ name (ConfigNode.issue a l)) _ _
    simp only [fillElement, type, size, List.range_eq_range', Tree.forget_array, xmlWritable_array,
      List.forall_mem_map]
    exact whole

/-- The walk over a represented node, with as many slots as it has levels. -/
theorem appendValueElement_spec {a : NodeArena} (float : FloatText) (printable : PrintableFloats float)
    (t : SlotTree) (parent : Option NodeId) (rep : Rep a parent t) (slots : Nat)
    (enough : t.height < slots) : AppendsAs float (appendValueElement float a slots) a t := by
  induction t using Tree.children_induction generalizing parent slots with
  | node t ih =>
    intro element name
    cases slots with
    | zero => exact absurd enough (Nat.not_lt_zero _)
    | succ slots =>
      have below : ∀ c ∈ t.children, AppendsAs float (appendValueElement float a slots) a c :=
        fun c member => ih c member _ (rep.children c member) slots
          (lt_of_lt_of_le (Tree.height_child_lt t c member) (Nat.le_of_lt_succ enough))
      have filled := fillElement_spec float printable _ t parent rep below (cString name) name
      rw [appendValueElement]
      by_cases valid : isValidElementName name = true
      · rw [valid, if_neg (by simp)]
        rw [cString_name name valid] at filled ⊢
        refine (SavesAs.next filled ?_ fun made => ?_).congr
          ((and_iff_left trivial).trans (and_iff_right (show XmlKey name from valid)).symm)
        · intro e failed
          simp only [failed]
        · refine .of_ok ?_
          simp only [made]
      · rw [Bool.not_eq_true] at valid
        rw [valid, Bool.not_false, if_pos rfl]
        exact ⟨fun writable => absurd writable.1 (by simp [XmlKey, valid]), fun _ => ⟨_, rfl, rfl⟩⟩

/-! ## The document -/

def rootOf (float : FloatText) (version : VersionId) (ms : List (Bytes × ConfigValue)) : XmlNode :=
  .element kRootName [(kVersionAttr, versionText version)] (memberElements float ms)

/-- The document is built exactly when the whole tree can be written. -/
theorem xmlDocument_spec (float : FloatText) (printable : PrintableFloats float) (config : VersionedConfig)
    (reached : Reachable config.model) :
    ∃ ms, contents config.model = Tree.object () ms ∧
      SavesAs (XmlInterface.document float config) (XmlWritable (contents config.model))
        [rootOf float config.version ms] := by
  obtain ⟨ns, listed, plain, below⟩ := root_members reached
  refine ⟨_, plain, ?_⟩
  have each : ∀ n ∈ ns, AppendsAs float
      (appendValueElement float config.model.arena config.model.arena.nodes.length)
      config.model.arena n.2 := by
    intro n member
    obtain ⟨⟨parent, rep⟩, height⟩ := below n member
    exact appendValueElement_spec float printable n.2 parent rep _ height
  have writable : (∀ n ∈ ns, XmlKey n.1 ∧ XmlWritable n.2.forget) ↔
      XmlWritable (contents config.model) := by
    rw [plain, xmlWritable_object, List.forall_mem_map]
  have whole := appendMembers_spec float _ ns each kRootName
    [(kVersionAttr, versionText config.version)] []
  unfold XmlInterface.document
  rw [listed]
  refine (SavesAs.next whole ?_ fun made => ?_).congr ((and_iff_left trivial).trans writable)
  · intro e failed
    simp only [XmlNode.appendAttribute, List.nil_append, failed]
  · refine .of_ok ?_
    simp only [XmlNode.appendAttribute, List.nil_append, made, rootOf]

/-! ## Texts of doubles that hold a NUL -/

/-- The texts of doubles as far as pugixml sees them. -/
def trimmedFloats (float : FloatText) : FloatText :=
  { float with toChars := fun d => cString (float.toChars d) }

theorem cString_printable (text : Bytes) : 0 ∉ cString text := fun inside => by
  have passed := List.mem_takeWhile_imp inside
  simp at passed

theorem cString_cString (text : Bytes) : cString (cString text) = cString text :=
  cString_eq _ (cString_printable text)

theorem trimmedFloats_printable (float : FloatText) : PrintableFloats (trimmedFloats float) :=
  fun d _ => cString_printable (float.toChars d)

theorem appendScalar_trimmed (float : FloatText) (element : XmlNode) (name : Bytes) (s : Scalar) :
    appendScalar (trimmedFloats float) element name s = appendScalar float element name s := by
  cases s with
  | double value => simp only [appendScalar, setElementText, trimmedFloats, cString_cString]
  | monostate => rfl
  | bool value => rfl
  | int value => rfl
  | string value => rfl

theorem appendValueElement_trimmed (float : FloatText) (arena : NodeArena) (slots : Nat) :
    appendValueElement (trimmedFloats float) arena slots = appendValueElement float arena slots := by
  induction slots with
  | zero => rfl
  | succ slots ih =>
    funext parent name node
    simp only [appendValueElement, fillElement, ih, appendScalar_trimmed]

/-- Whatever the texts of doubles are, a tree that can be written is turned into a document. -/
theorem xmlDocument_ok (float : FloatText) (config : VersionedConfig)
    (reached : Reachable config.model) (writable : XmlWritable (contents config.model)) :
    ∃ doc, XmlInterface.document float config = .ok doc := by
  have same : XmlInterface.document (trimmedFloats float) config =
      XmlInterface.document float config := by
    simp only [XmlInterface.document, appendValueElement_trimmed]
  obtain ⟨ms, _, saves⟩ := xmlDocument_spec (trimmedFloats float) (trimmedFloats_printable float)
    config reached
  exact ⟨_, same ▸ saves.saved writable⟩

end ConfigManager.Refinement
