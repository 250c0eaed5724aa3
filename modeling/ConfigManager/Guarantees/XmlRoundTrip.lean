import ConfigManager.Refinement.StoredConfigs

/-!
# XML decode undoes encode

For a config over a reachable model, what makes `save` succeed, and that `load`
reads the written document back as the same version and the same tree, whatever
whitespace the document gained. pugixml is assumed to read back the document
that is saved, and the conversions of doubles to be exact.
-/

set_option autoImplicit false

namespace ConfigManager.Guarantees
open Library Source Reference Refinement

/-- `save` succeeds exactly when all names are XML names, all strings are XML text and all
doubles are finite, and then `load` returns the same version and tree. -/
theorem xml_round_trip (pugi : PugiXml) (float : FloatText) (floats : ExactFloats float)
    (c : VersionedConfig) (reached : Reachable c.model)
    (rereads : ∀ doc, XmlInterface.document float c = .ok doc → Rereads pugi doc)
    (out : OutputStream) (working : out.Working) :
    ((XmlInterface.save pugi float c out).1 = .ok () ↔
        Tree.EveryKey XmlKey (contents c.model) ∧ Tree.EveryLeaf XmlScalar (contents c.model)) ∧
      ∀ out', XmlInterface.save pugi float c out = (.ok (), out') →
        ∃ text, out'.written = out.written ++ text ∧
          ∀ (backend : XmlInterface) (input : InputStream), input.Delivers text →
            text.length ≤ backend.limits.maxInputBytes →
            (contents c.model).size ≤ backend.limits.maxNodes →
            ∃ c', (XmlInterface.load pugi float backend input).1 = .ok c' ∧
              c'.version = c.version ∧ contents c'.model = contents c.model := by
  have stores := xml_stores pugi float floats c reached rereads out working
  refine ⟨stores.succeeds, fun out' saved => ?_⟩
  obtain ⟨text, written, loads⟩ := stores.text out' saved
  refine ⟨text, written, fun backend input delivers within nodes => ?_⟩
  rw [xml_load, loadWith_within _ _ _ _ text delivers within]
  exact loads backend.limits nodes

/-- A negative integer, a string of blanks and an array with one double. -/
def plainModel : ConfigModel :=
  (((ConfigModel.empty.set (bytes "n") (ConfigValue.of (.int (-42)))).2.set (bytes "s")
    (ConfigValue.of (.string (bytes "  ")))).2.set (bytes "a")
      (ConfigValue.array.push (ConfigValue.of (.double ⟨0x4004000000000000⟩)))).2

/-- The double 2.5 has its own text here, any other the digits of its bits. -/
def plainFloats : FloatText where
  toChars d := if d.bits = 0x4004000000000000 then bytes "2.5" else natText d.bits.toNat
  fromChars text :=
    (.ok ⟨if text = bytes "2.5" then 0x4004000000000000 else UInt64.ofNat (digitsValue text)⟩, [])

theorem plainFloats_exact : ExactFloats plainFloats := by
  constructor
  · intro d _
    simp only [plainFloats]
    by_cases half : d.bits = 0x4004000000000000
    · rw [if_pos half, if_pos rfl, ← half]
    · have digits : natText d.bits.toNat ≠ bytes "2.5" := fun same =>
        absurd (natText_isDigit d.bits.toNat 46 (same ▸ by decide)) (by decide)
      rw [if_neg half, if_neg digits, digitsValue_natText, UInt64.ofNat_toNat]
  · intro d _
    simp only [plainFloats]
    split
    · decide
    · exact natText_plain _

def plainChildren : List XmlNode :=
  [.element (bytes "n") [(kTypeAttr, bytes "int")] [.pcdata (bytes "-42")],
    .element (bytes "s") [] [.pcdata (bytes "  ")],
    .element (bytes "a") [(kTypeAttr, bytes "array")]
      [.element kItemName [(kTypeAttr, bytes "double")] [.pcdata (bytes "2.5")]]]

def plainText : Bytes :=
  bytes "<?xml version=\"1.0\"?>\n<config version=\"3\">\n" ++
    bytes "  <n type=\"int\">-42</n>\n  <s>  </s>\n  <a type=\"array\">\n" ++
    bytes "    <item type=\"double\">2.5</item>\n  </a>\n</config>\n"

/-- pugixml on the document of `plainModel` at version 3. -/
def plainPugi : PugiXml where
  write _ := plainText
  parse _ := .ok [.pcdata (bytes "\n"), .element kRootName [(kVersionAttr, bytes "3")]
    [.pcdata (bytes "\n  "),
      .element (bytes "n") [(kTypeAttr, bytes "int")] [.pcdata (bytes "-42")],
      .pcdata (bytes "\n  "), .element (bytes "s") [] [.pcdata (bytes "  ")],
      .pcdata (bytes "\n  "),
      .element (bytes "a") [(kTypeAttr, bytes "array")]
        [.pcdata (bytes "\n    "),
          .element kItemName [(kTypeAttr, bytes "double")] [.pcdata (bytes "2.5")],
          .pcdata (bytes "\n  ")],
      .pcdata (bytes "\n")]]

theorem plainPugi_rereads :
    Rereads plainPugi [.element kRootName [(kVersionAttr, bytes "3")] plainChildren] := by
  refine ⟨_, rfl, .space _ (by decide) _ _ (.node _ _ (.nested _ _ _ _ rfl ?_) _ _ .done)⟩
  refine .space _ (by decide) _ _ (.node _ _ (.flat _ _ _ rfl) _ _ ?_)
  refine .space _ (by decide) _ _ (.node _ _ (.flat _ _ _ rfl) _ _ ?_)
  refine .space _ (by decide) _ _ (.node _ _ (.nested _ _ _ _ rfl ?_) _ _ ?_)
  · exact .space _ (by decide) _ _ .done
  · exact .space _ (by decide) _ _ (.node _ _ (.flat _ _ _ rfl) _ _ (.space _ (by decide) _ _ .done))

theorem plainModel_round_trips :
    ∃ c', (XmlInterface.load plainPugi plainFloats {} ⟨some [plainText], false⟩).1 = .ok c' ∧
      c'.version = 3 ∧ contents c'.model = contents plainModel := by
  have known : XmlInterface.document plainFloats ⟨3, plainModel⟩ =
      .ok [.element kRootName [(kVersionAttr, bytes "3")] plainChildren] := rfl
  have rereads : ∀ doc, XmlInterface.document plainFloats ⟨3, plainModel⟩ = .ok doc →
      Rereads plainPugi doc := by
    intro doc built
    rw [known, Except.ok.injEq] at built
    rw [← built]
    exact plainPugi_rereads
  have saved : XmlInterface.save plainPugi plainFloats ⟨3, plainModel⟩ {} =
      (.ok (), { written := plainText }) := by
    unfold XmlInterface.save
    rw [known]
    simp [OutputStream.write, plainPugi]
  obtain ⟨text, written, loads⟩ := (xml_round_trip plainPugi plainFloats plainFloats_exact
    ⟨3, plainModel⟩
    (.set _ _ ⟨_, by decide⟩ (.set _ _ ⟨_, by decide⟩ (.set _ _ ⟨_, by decide⟩ .empty)))
    rereads {} ⟨rfl, rfl⟩).2 _ saved
  rw [List.nil_append] at written
  subst written
  exact loads {} ⟨some [plainText], false⟩ ⟨_, rfl, by simp, by decide +kernel⟩
    (by decide +kernel) (by decide)

end ConfigManager.Guarantees
