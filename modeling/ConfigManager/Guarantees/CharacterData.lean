import ConfigManager.Refinement.StoredConfigs
import ConfigManager.Refinement.XmlDocuments

/-!
# Character data that pugixml hands out in part

A character reference to U+0000 puts a NUL into the data of a text node or an
attribute, and the backend reads the data up to that NUL. Without one it reads all
of it and lets no other control character through.
-/

set_option autoImplicit false

namespace ConfigManager.Guarantees
open Library Source Reference Refinement

/-! ## Literals are text -/

theorem isXmlText_printable (text : Bytes) (printable : ∀ c ∈ text, 32 ≤ c.toNat ∧ c.toNat < 127) :
    IsXmlText text := by
  refine ⟨text.map UInt8.toNat, ?_, ?_⟩
  · intro c inside
    obtain ⟨b, member, rfl⟩ := List.mem_map.mp inside
    have range := printable b member
    refine ⟨(0x20, 0xD7FF), by simp [textRanges], range.1, ?_⟩
    simp only
    omega
  · induction text with
    | nil => rfl
    | cons b rest ih =>
      rw [List.forall_mem_cons] at printable
      have ascii : encodeUtf8 b.toNat = [b] := by
        rw [encodeUtf8, if_pos (by omega), UInt8.ofNat_toNat]
      rw [encodeText, List.map_cons, List.flatMap_cons, ascii, List.singleton_append]
      exact congrArg (b :: ·) (ih printable.2)

theorem isXmlText_plain (text : Bytes) (ok : IsXmlText text) : 0 ∉ text :=
  scan_plain _ (by decide) text true ((isXmlRepresentable_iff text).mpr ok)

theorem isDigit_printable (c : UInt8) (digit : isDigit c = true) :
    32 ≤ c.toNat ∧ c.toNat < 127 := by
  have range := (isDigit_iff c).mp digit
  omega

/-- Whatever is a literal holds no control character but tab and newline. -/
theorem literal_isXmlText (float : FloatText) (ascii : AsciiFloats float) (kind : ScalarKind)
    (text : Bytes) (s : Scalar) (literal : LiteralOf float kind text s) : IsXmlText text := by
  cases literal with
  | string _ representable => exact representable
  | null => exact isXmlText_printable [] (by simp)
  | bool value => cases value <;> exact (isXmlRepresentable_iff _).mp rfl
  | double _ value whole finite => exact isXmlText_printable text (ascii text value whole)
  | int negative digits nonempty decimal low high =>
    have printable : ∀ c ∈ digits, 32 ≤ c.toNat ∧ c.toNat < 127 := fun c inside =>
      isDigit_printable c (decimal c inside)
    cases negative with
    | false => exact isXmlText_printable digits printable
    | true => exact isXmlText_printable _ (List.forall_mem_cons.mpr ⟨by decide, printable⟩)

/-! ## Data without U+0000 is read whole -/

theorem textOf_whole (children : List XmlNode) (plain : 0 ∉ textOf id children) :
    textOf cString children = textOf id children := by
  unfold textOf at plain ⊢
  generalize texts children = all at plain ⊢
  induction all with
  | nil => rfl
  | cons text rest ih =>
    rw [List.flatMap_cons, List.mem_append, not_or] at plain
    rw [List.flatMap_cons, List.flatMap_cons, ih plain.2, cString_eq text plain.1]
    rfl

theorem denotes_whole (float : FloatText) (node : XmlNode)
    (plain : ∀ data, ScalarData data node → 0 ∉ data) (value : ConfigValue)
    (denotes : ElementDenotes float cString node value) : ElementDenotes float id node value := by
  induction node using xmlNode_induction generalizing value with
  | pcdata text => cases denotes
  | cdata text => cases denotes
  | other => cases denotes
  | element name attributes children ih =>
    have lower : ∀ child ∈ elements children, ∀ value,
        ElementDenotes float cString child value → ElementDenotes float id child value := by
      intro child inside
      exact ih child (List.mem_of_mem_filter inside)
        fun data deeper => plain data (.inner name attributes children child inside deeper)
    have values : ∀ vs, List.Forall₂ (ElementDenotes float cString) (elements children) vs →
        List.Forall₂ (ElementDenotes float id) (elements children) vs := by
      intro vs both
      have paired := (List.forall₂_and_left _ _).mpr ⟨lower, both⟩
      exact paired.imp fun child value here => here.1 value here.2
    cases denotes with
    | scalar _ _ _ kind typed flat s literal =>
      have whole := textOf_whole children (plain _ (.here name attributes children kind typed rfl))
      exact .scalar name attributes children kind typed flat s (whole ▸ literal)
    | object _ _ _ typed ms shape members =>
      exact .object name attributes children typed ms shape (values _ members)
    | array _ _ _ typed es shape items =>
      exact .array name attributes children typed es shape (values _ items)

theorem forall₂_left {α β : Type} {R : α → β → Prop} {l : List α} {l' : List β}
    (all : List.Forall₂ R l l') (a : α) (inside : a ∈ l) : ∃ b, R a b := by
  induction all with
  | nil => cases inside
  | cons here rest ih =>
    rcases List.mem_cons.mp inside with rfl | later
    · exact ⟨_, here⟩
    · exact ih later

/-- The data that an element denotes all of is text. -/
theorem denoted_isXmlText (float : FloatText) (ascii : AsciiFloats float) (node : XmlNode)
    (value : ConfigValue) (denotes : ElementDenotes float id node value) (data : Bytes)
    (scalar : ScalarData data node) : IsXmlText data := by
  induction node using xmlNode_induction generalizing value with
  | pcdata text => cases denotes
  | cdata text => cases denotes
  | other => cases denotes
  | element name attributes children ih =>
    have lower : ∀ vs, List.Forall₂ (ElementDenotes float id) (elements children) vs →
        ∀ child ∈ elements children, ScalarData data child → IsXmlText data := by
      intro vs all child inside deeper
      obtain ⟨value, here⟩ := forall₂_left all child inside
      exact ih child (List.mem_of_mem_filter inside) value here deeper
    cases scalar with
    | here _ _ _ kind typed whole =>
      subst whole
      cases denotes with
      | scalar _ _ _ kind' typed' flat s literal =>
        exact literal_isXmlText float ascii kind' _ s literal
      | object _ _ _ typed' => cases typed.symm.trans typed'
      | array _ _ _ typed' => cases typed.symm.trans typed'
    | inner _ _ _ child inside deeper =>
      cases denotes with
      | scalar _ _ _ kind typed flat =>
        rw [flat] at inside
        cases inside
      | object _ _ _ typed ms shape members => exact lower _ members child inside deeper
      | array _ _ _ typed es shape items => exact lower _ items child inside deeper

/-! ## Whole documents -/

theorem document_whole (float : FloatText) (maxNodes : Nat) (nodes : List XmlNode)
    (version : VersionId) (root : ConfigValue) (plain : ∀ data, DocumentData nodes data → 0 ∉ data)
    (denotes : DocumentDenotes float cString maxNodes nodes version root) :
    DocumentDenotes float id maxNodes nodes version root := by
  obtain ⟨name, attributes, children, ms, only, named, marked, object, shape, values⟩ :=
    denotes.element
  obtain ⟨text, single, carrier⟩ := marked.carrier
  have whole : cString text = text :=
    cString_eq text (plain text ⟨name, attributes, children, only, .inl (by simp [single])⟩)
  rw [whole] at carrier
  have members : List.Forall₂ (ElementDenotes float id) (elements children) (ms.map Prod.snd) := by
    have below : ∀ child ∈ elements children, ∀ data, ScalarData data child → 0 ∉ data := by
      intro child inside data scalar
      exact plain data ⟨name, attributes, children, only, .inr ⟨child, inside, scalar⟩⟩
    have paired := (List.forall₂_and_left _ _).mpr ⟨below, values⟩
    exact paired.imp fun child value here => denotes_whole float child here.1 value here.2
  exact ⟨denotes.spaced, ⟨name, attributes, children, ms, only, named,
    ⟨marked.known, ⟨text, single, carrier⟩, marked.type⟩, object, shape, members⟩,
    denotes.shallow, denotes.budget⟩

/-- A document that denotes something with its data read whole holds nothing but text. -/
theorem document_isXmlText (float : FloatText) (ascii : AsciiFloats float) (maxNodes : Nat)
    (nodes : List XmlNode) (version : VersionId) (root : ConfigValue)
    (denotes : DocumentDenotes float id maxNodes nodes version root) (data : Bytes)
    (held : DocumentData nodes data) : IsXmlText data := by
  obtain ⟨name, attributes, children, ms, only, -, marked, -, -, values⟩ := denotes.element
  obtain ⟨name', attributes', children', only', held⟩ := held
  cases only.symm.trans only'
  rcases held with carried | ⟨child, inside, scalar⟩
  · obtain ⟨text, single, -, digits, -⟩ := marked.carrier
    rw [single, List.mem_singleton] at carried
    subst carried
    exact isXmlText_printable data fun c member => isDigit_printable c (digits c member)
  · obtain ⟨value, here⟩ := forall₂_left values child inside
    exact denoted_isXmlText float ascii child value here data scalar

/-- What a load answers is denoted by all the character data, and data that is not text is
refused, exactly when the document is too long, when it denotes nothing even up to the first NUL
of its data, or when no data of it holds a NUL. -/
theorem character_data_whole (pugi : PugiXml) (float : FloatText) (ascii : AsciiFloats float)
    (backend : XmlInterface) (input : InputStream) (text : Bytes) (nodes : List XmlNode)
    (delivers : input.Delivers text) (parsed : pugi.parse text = .ok nodes) :
    ((∀ c, (XmlInterface.load pugi float backend input).1 = .ok c →
        DocumentDenotes float id backend.limits.maxNodes nodes c.version (contents c.model)) ∧
      ∀ data, DocumentData nodes data → ¬ IsXmlText data →
        ∃ e, (XmlInterface.load pugi float backend input).1 = .error e) ↔
    backend.limits.maxInputBytes < text.length ∨
      (¬ ∃ version root,
        DocumentDenotes float cString backend.limits.maxNodes nodes version root) ∨
      ∀ data, DocumentData nodes data → 0 ∉ data := by
  rw [xml_load]
  by_cases long : backend.limits.maxInputBytes < text.length
  · obtain ⟨message, refused⟩ := loadWith_over (bytes "XML") (xmlDecode pugi float) backend.limits
      input text delivers long
    rw [refused]
    refine iff_of_true ⟨?_, fun _ _ _ => ⟨_, rfl⟩⟩ (.inl long)
    intro c loaded
    cases loaded
  have within : text.length ≤ backend.limits.maxInputBytes := Nat.le_of_not_lt long
  rw [loadWith_within _ _ _ _ _ delivers within, xmlDecode_parsed _ _ _ _ _ parsed]
  constructor
  · intro right
    by_cases denotes : ∃ version root,
        DocumentDenotes float cString backend.limits.maxNodes nodes version root
    · right; right
      intro data held
      obtain ⟨version, root, denotes⟩ := denotes
      obtain ⟨c, converted, -⟩ := (convert_iff float backend.limits nodes version root).mpr denotes
      by_contra zero
      obtain ⟨e, failed⟩ := right.2 data held fun ok => isXmlText_plain data ok zero
      cases converted.symm.trans failed
    · exact .inr (.inl denotes)
  · intro condition
    have denoted : ∀ c, XmlInterface.convert float backend.limits nodes = .ok c →
        DocumentDenotes float cString backend.limits.maxNodes nodes c.version
          (contents c.model) := by
      intro c converted
      exact (convert_iff float backend.limits nodes _ _).mp ⟨c, converted, rfl, rfl⟩
    have whole : ∀ c, XmlInterface.convert float backend.limits nodes = .ok c →
        DocumentDenotes float id backend.limits.maxNodes nodes c.version (contents c.model) := by
      intro c converted
      rcases condition with exceeds | refused | plain
      · exact absurd exceeds long
      · exact absurd ⟨_, _, denoted c converted⟩ refused
      · exact document_whole float _ nodes _ _ plain (denoted c converted)
    refine ⟨whole, ?_⟩
    intro data held bad
    cases converted : XmlInterface.convert float backend.limits nodes with
    | error e => exact ⟨e, rfl⟩
    | ok c =>
      have ok := document_isXmlText float ascii _ nodes _ _ (whole c converted) data held
      exact absurd ok bad

/-! ## A reference to U+0000 -/

def zeroText (reference : Bytes) : Bytes :=
  bytes "<config version=\"1\"><s>a" ++ reference ++ bytes "b</s></config>"

def zeroNodes (data : Bytes) : List XmlNode :=
  [.element kRootName [(kVersionAttr, bytes "1")] [.element (bytes "s") [] [.pcdata data]]]

/-- pugixml on the document without a reference and on the one with a reference to U+0000. -/
def zeroPugi : PugiXml where
  write _ := zeroText []
  parse text :=
    if text = zeroText [] then .ok (zeroNodes (bytes "ab"))
    else if text = zeroText (bytes "&#0;") then .ok (zeroNodes [97, 0, 98])
    else .error (bytes "no document")

theorem noFloats_ascii : AsciiFloats noFloats := by
  intro text value read
  cases read

theorem zeroNodes_data (data : Bytes) : DocumentData (zeroNodes data) data :=
  ⟨_, _, _, rfl, .inr ⟨_, List.mem_singleton_self _, .here _ _ _ .string rfl
    (List.append_nil data).symm⟩⟩

/-- `a&#0;b` loads as `a`. -/
theorem null_reference_truncates :
    zeroPugi.parse (zeroText (bytes "&#0;")) = .ok (zeroNodes [97, 0, 98]) ∧
      DocumentData (zeroNodes [97, 0, 98]) [97, 0, 98] ∧ ¬ IsXmlText [97, 0, 98] ∧
      ∃ c, (XmlInterface.load zeroPugi noFloats {} ⟨some [zeroText (bytes "&#0;")], false⟩).1 =
          .ok c ∧
        contents c.model = Tree.object () [(bytes "s", ConfigValue.of (.string (bytes "a")))] :=
  ⟨rfl, zeroNodes_data _, fun ok => isXmlText_plain _ ok (by decide), _, rfl, rfl⟩

theorem zeroNodes_plain (data : Bytes) (held : DocumentData (zeroNodes (bytes "ab")) data) :
    0 ∉ data := by
  obtain ⟨name, attributes, children, only, held⟩ := held
  cases only
  rcases held with carried | ⟨child, inside, scalar⟩
  · cases List.mem_singleton.mp carried
    decide
  · cases List.mem_singleton.mp inside
    cases scalar with
    | here _ _ _ kind typed whole =>
      subst whole
      decide
    | inner _ _ _ child inside => cases inside

/-- Without the reference all of the data is loaded, and nothing else is refused. -/
theorem plain_data_whole :
    (∀ c, (XmlInterface.load zeroPugi noFloats {} ⟨some [zeroText []], false⟩).1 = .ok c →
        DocumentDenotes noFloats id 100000 (zeroNodes (bytes "ab")) c.version
          (contents c.model)) ∧
      ∀ data, DocumentData (zeroNodes (bytes "ab")) data → ¬ IsXmlText data →
        ∃ e, (XmlInterface.load zeroPugi noFloats {} ⟨some [zeroText []], false⟩).1 =
          .error e :=
  (character_data_whole zeroPugi noFloats noFloats_ascii {}
    ⟨some [zeroText []], false⟩ (zeroText []) (zeroNodes (bytes "ab"))
    ⟨_, rfl, by simp, by decide⟩ rfl).mpr (.inr (.inr zeroNodes_plain))

end ConfigManager.Guarantees
