import ConfigManager.Guarantees.XmlRoundTrip

/-!
# What was loaded can be saved

A backend accepts only what it can write. A loaded config is therefore always
saved, and the saved text is read back within the same limits, up to one: the
input limit bounds the text itself, which the layout of `save` can make longer
than the input was.
-/

set_option autoImplicit false

namespace ConfigManager.Guarantees
open Library Source Reference Refinement

/-- What `load` answers for a text that loads as a config whose nodes the limits allow. -/
theorem loadWith_stored (format : Bytes) (decode : LoadLimits → Bytes → Result VersionedConfig)
    (limits : LoadLimits) (c : VersionedConfig) (text : Bytes) (loads : LoadsAs decode text c)
    (nodes : (contents c.model).size ≤ limits.maxNodes) (saved : InputStream)
    (delivers : saved.Delivers text) :
    (text.length ≤ limits.maxInputBytes →
        ∃ c', loadWith format decode limits saved = .ok c' ∧ c'.version = c.version ∧
          contents c'.model = contents c.model) ∧
      (limits.maxInputBytes < text.length →
        ∃ message, loadWith format decode limits saved = fail .parseError message) := by
  constructor
  · intro within
    rw [loadWith_within format decode limits saved text delivers within]
    exact loads limits nodes
  · intro exceeds
    exact loadWith_over format decode limits saved text delivers exceeds

/-- A loaded config is saved, and the saved text loads as the same config under the same limits
exactly when it is within the input limit. -/
theorem load_save_load (json : NlohmannJson) (pugi : PugiXml) (float : FloatText)
    (texts : ParsesTexts json) (floats : ExactFloats float) (limits : LoadLimits)
    (input : InputStream) (c : VersionedConfig) (out : OutputStream) (working : out.Working) :
    ((JsonInterface.load json ⟨limits⟩ input).1 = .ok c →
      (∀ doc, JsonInterface.document c = .ok doc → Dumps json doc) →
      ∃ text, JsonInterface.save json c out =
          (.ok (), { out with written := out.written ++ text }) ∧
        ∀ saved : InputStream, saved.Delivers text →
          (text.length ≤ limits.maxInputBytes →
            ∃ c', (JsonInterface.load json ⟨limits⟩ saved).1 = .ok c' ∧ c'.version = c.version ∧
              contents c'.model = contents c.model) ∧
          (limits.maxInputBytes < text.length →
            ∃ message, (JsonInterface.load json ⟨limits⟩ saved).1 = fail .parseError message)) ∧
    ((XmlInterface.load pugi float ⟨limits⟩ input).1 = .ok c →
      (∀ doc, XmlInterface.document float c = .ok doc → Rereads pugi doc) →
      ∃ text, XmlInterface.save pugi float c out =
          (.ok (), { out with written := out.written ++ text }) ∧
        ∀ saved : InputStream, saved.Delivers text →
          (text.length ≤ limits.maxInputBytes →
            ∃ c', (XmlInterface.load pugi float ⟨limits⟩ saved).1 = .ok c' ∧
              c'.version = c.version ∧ contents c'.model = contents c.model) ∧
          (limits.maxInputBytes < text.length →
            ∃ message, (XmlInterface.load pugi float ⟨limits⟩ saved).1 =
              fail .parseError message)) := by
  constructor
  · intro loaded dumps
    obtain ⟨reached, writable, nodes⟩ := json_accepted json texts ⟨limits⟩ input c loaded
    obtain ⟨text, stored, loads⟩ := (json_stores json c reached dumps out working).stored writable
    refine ⟨text, stored, fun saved delivers => ?_⟩
    rw [json_load]
    exact loadWith_stored _ _ limits c text loads nodes saved delivers
  · intro loaded rereads
    obtain ⟨reached, writable, nodes⟩ := xml_accepted pugi float ⟨limits⟩ input c loaded
    obtain ⟨text, stored, loads⟩ :=
      (xml_stores pugi float floats c reached rereads out working).stored writable
    refine ⟨text, stored, fun saved delivers => ?_⟩
    rw [xml_load]
    exact loadWith_stored _ _ limits c text loads nodes saved delivers

/-- Whatever a backend loads meets all that `save` asks of a config, so that only the stream can
fail it. Once the document is parsed, the model adopts it. -/
theorem loaded_configs_save (json : NlohmannJson) (pugi : PugiXml) (float : FloatText)
    (texts : ParsesTexts json) :
    (∀ (backend : XmlInterface) (input : InputStream) (c : VersionedConfig),
      (XmlInterface.load pugi float backend input).1 = .ok c →
      XmlWritable (contents c.model) ∧ ∀ out : OutputStream,
        (XmlInterface.save pugi float c out).1 = .ok () ∨
          (XmlInterface.save pugi float c out).1 =
            fail .serializationError (bytes "failed to write XML document to stream")) ∧
    (∀ (backend : JsonInterface) (input : InputStream) (c : VersionedConfig),
      (JsonInterface.load json backend input).1 = .ok c →
      (∀ doc, JsonInterface.document c = .ok doc → Dumps json doc) →
      JsonWritable (contents c.model) ∧ ∀ out : OutputStream,
        (JsonInterface.save json c out).1 = .ok () ∨
          (JsonInterface.save json c out).1 =
            fail .serializationError (bytes "failed to write JSON document to stream")) ∧
    (∀ (limits : LoadLimits) (element : Bytes) (nodes : List XmlNode) (budget budget' : NodeBudget)
        (root : ConfigValue),
      NodeBudget.consume { maxNodes := limits.maxNodes } = (.ok (), budget) →
      parseObjectMembers float element 0 nodes budget ConfigValue.object = (.ok root, budget') →
      ∃ m, ConfigModel.fromValue root = .ok m) ∧
    (∀ (limits : LoadLimits) (text : Bytes) (builder : ValueBuilder),
      ValueBuilder.saxParse { limits := limits } (json.events text) = (true, builder) →
      builder.version.isSome = true → ∃ m, ConfigModel.fromValue builder.takeRoot = .ok m) := by
  refine ⟨fun backend input c loaded => ?_, fun backend input c loaded dumps => ?_, ?_, ?_⟩
  · obtain ⟨reached, writable, _⟩ := xml_accepted pugi float backend input c loaded
    obtain ⟨doc, built⟩ := xmlDocument_ok float c reached writable
    refine ⟨writable, fun out => ?_⟩
    unfold XmlInterface.save
    simp only [built]
    by_cases failed : (out.write (pugi.write doc)).failed = true
    · exact .inr (by rw [if_pos failed])
    · exact .inl (by rw [if_neg failed])
  · obtain ⟨reached, writable, _⟩ := json_accepted json texts backend input c loaded
    obtain ⟨doc, text, built, dumped⟩ := json_dumps json c reached dumps writable
    refine ⟨writable, fun out => ?_⟩
    unfold JsonInterface.save
    simp only [built, dumped]
    by_cases failed : ((out.write text).write [10]).failed = true
    · exact .inr (by rw [if_pos failed])
    · exact .inl (by rw [if_neg failed])
  · intro limits element nodes budget budget' root consumed parsed
    obtain ⟨admissible, _⟩ :=
      root_converted float limits element nodes budget budget' root consumed parsed
    obtain ⟨m, made, _⟩ := fromValue_ok root admissible
    exact ⟨m, made⟩
  · exact takeRoot_adopted json texts

/-! ## The compact document of version 1 -/

def compactText : Bytes := bytes "\x7b\"__version\":1\x7d"

def indentedText : Bytes := bytes "\x7b\n  \"__version\": 1\n\x7d"

/-- nlohmann/json on either layout of this document. -/
def compactJson : NlohmannJson where
  dump _ := .ok indentedText
  events _ := [.startObject, .key kVersionKey, .numberUnsigned 1, .endObject]

/-- A limit that just lets the compact text in. -/
def tightLimits : LoadLimits := { maxInputBytes := 15 }

/-- The model that adopts an empty root. -/
def compactModel : ConfigModel :=
  { ConfigModel.empty with
    arena := assignContents ConfigModel.empty.arena ConfigModel.empty.rootId (Tree.object () []) }

theorem compactJson_dumps : ∀ doc, JsonInterface.document ⟨1, compactModel⟩ = .ok doc →
    Dumps compactJson doc := by
  intro doc built
  have known : JsonInterface.document ⟨1, compactModel⟩ = .ok (documentOf 1 []) := rfl
  rw [known, Except.ok.injEq] at built
  subst built
  refine ⟨⟨fun _ => ?_, fun _ => ⟨_, rfl⟩⟩, fun _ text dumped => ?_⟩
  · rw [documentOf_utf8]
    simp
  · exact ⟨fun _ => bytes "0.0", fun _ _ => rfl, rfl⟩

/-- The compact text is within the limit, the text saved for it is not. -/
theorem tight_limit_refuses_saved :
    ∃ c, (JsonInterface.load compactJson ⟨tightLimits⟩ ⟨some [compactText], false⟩).1 = .ok c ∧
      (∀ doc, JsonInterface.document c = .ok doc → Dumps compactJson doc) ∧
      JsonInterface.save compactJson c {} = (.ok (), { written := indentedText ++ [10] }) ∧
      (JsonInterface.load compactJson ⟨tightLimits⟩ ⟨some [indentedText ++ [10]], false⟩).1 =
        fail .parseError (bytes "JSON document exceeds input limit (15 bytes)") :=
  ⟨⟨1, compactModel⟩, rfl, compactJson_dumps, rfl, rfl⟩

/-! ## The document of `plainModel`, loaded -/

def plainMembers : List (Bytes × ConfigValue) :=
  [(bytes "n", ConfigValue.of (.int (-42))), (bytes "s", ConfigValue.of (.string (bytes "  "))),
    (bytes "a", Tree.array () [ConfigValue.of (.double ⟨0x4004000000000000⟩)])]

/-- The model that adopts these members. -/
def adoptedModel : ConfigModel :=
  { ConfigModel.empty with
    arena := assignContents ConfigModel.empty.arena ConfigModel.empty.rootId
      (Tree.object () plainMembers) }

def plainCompact : Bytes := bytes "\x7b\"__version\":3,\"n\":-42,\"s\":\"  \",\"a\":[2.5]\x7d"

def plainIndented : Bytes :=
  bytes "\x7b\n  \"__version\": 3,\n  \"n\": -42,\n  \"s\": \"  \",\n  \"a\": [\n    2.5\n  ]\n\x7d"

/-- nlohmann/json on either layout of this document. -/
def plainJson : NlohmannJson where
  dump _ := .ok plainIndented
  events _ := [.startObject, .key kVersionKey, .numberUnsigned 3, .key (bytes "n"),
    .numberInteger (-42), .key (bytes "s"), .string (bytes "  "), .key (bytes "a"), .startArray,
    .numberFloat ⟨0x4004000000000000⟩ (bytes "2.5"), .endArray, .endObject]

def plainSax : SaxDocument :=
  Tree.object () [(kVersionKey, Tree.leaf () (.numberUnsigned 3)),
    (bytes "n", Tree.leaf () (.numberInteger (-42))), (bytes "s", Tree.leaf () (.string (bytes "  "))),
    (bytes "a", Tree.array () [Tree.leaf () (.numberFloat ⟨0x4004000000000000⟩ (bytes "2.5"))])]

theorem plainSax_lexed : Lexed plainSax := by
  rw [Lexed, plainSax, Tree.everyPart_object]
  simp only [List.forall_mem_cons, Tree.everyPart_leaf, Tree.everyPart_array, List.not_mem_nil,
    false_imp_iff, implies_true, and_true]
  exact ⟨⟨validUtf8_versionKey, trivial⟩, ⟨⟨['n'], rfl⟩, trivial⟩, ⟨⟨['s'], rfl⟩, ⟨[' ', ' '], rfl⟩⟩,
    ⟨['a'], rfl⟩, rfl⟩

theorem plainJson_parses : ParsesTexts plainJson := fun _ => .inl ⟨plainSax, rfl, plainSax_lexed⟩

theorem plainMembers_utf8 : Tree.EveryKey ValidUtf8 (Tree.object () plainMembers : ConfigValue) ∧
    Tree.EveryLeaf Utf8Scalar (Tree.object () plainMembers : ConfigValue) := by
  simp only [plainMembers, Tree.everyKey_object, Tree.everyLeaf_object, ConfigValue.of,
    List.forall_mem_cons, Tree.everyKey_leaf, Tree.everyLeaf_leaf, Tree.everyKey_array,
    Tree.everyLeaf_array, List.not_mem_nil, false_imp_iff, implies_true, and_true]
  exact ⟨⟨⟨['n'], rfl⟩, ⟨['s'], rfl⟩, ['a'], rfl⟩, trivial, ⟨[' ', ' '], rfl⟩, trivial⟩

/-- What nlohmann/json has for the members, whatever model holds them. -/
theorem plainJson_dumps (m : ConfigModel)
    (known : JsonInterface.document ⟨3, m⟩ = .ok (documentOf 3 plainMembers)) :
    ∀ doc, JsonInterface.document ⟨3, m⟩ = .ok doc → Dumps plainJson doc := by
  intro doc built
  rw [known, Except.ok.injEq] at built
  subst built
  refine ⟨⟨fun _ => ?_, fun _ => ⟨_, rfl⟩⟩, fun _ text dumped => ?_⟩
  · rw [documentOf_utf8]
    exact plainMembers_utf8
  · exact ⟨fun _ => bytes "2.5", fun _ _ => rfl, rfl⟩

theorem plainPugi_rereads_of (m : ConfigModel)
    (known : XmlInterface.document plainFloats ⟨3, m⟩ =
      .ok [.element kRootName [(kVersionAttr, bytes "3")] plainChildren]) :
    ∀ doc, XmlInterface.document plainFloats ⟨3, m⟩ = .ok doc → Rereads plainPugi doc := by
  intro doc built
  rw [known, Except.ok.injEq] at built
  rw [← built]
  exact plainPugi_rereads

theorem plainText_loads :
    (XmlInterface.load plainPugi plainFloats {} ⟨some [plainText], false⟩).1 = .ok ⟨3, adoptedModel⟩ := by
  rw [xml_load, loadWith_within _ _ _ _ plainText ⟨_, rfl, by simp, by decide +kernel⟩
    (by decide +kernel)]
  rfl

theorem plain_document_saves :
    ((XmlInterface.save plainPugi plainFloats ⟨3, adoptedModel⟩ {}).1 = .ok () ∨
        (XmlInterface.save plainPugi plainFloats ⟨3, adoptedModel⟩ {}).1 =
          fail .serializationError (bytes "failed to write XML document to stream")) ∧
      JsonWritable (contents adoptedModel) := by
  obtain ⟨xml, json, _⟩ := loaded_configs_save plainJson plainPugi plainFloats plainJson_parses
  exact ⟨(xml {} ⟨some [plainText], false⟩ ⟨3, adoptedModel⟩ plainText_loads).2 {},
    (json {} ⟨some [plainCompact], false⟩ ⟨3, adoptedModel⟩ rfl (plainJson_dumps _ rfl)).1⟩

theorem plain_document_stable :
    (∃ c', (JsonInterface.load plainJson {} ⟨some [plainIndented ++ [10]], false⟩).1 = .ok c' ∧
        c'.version = 3 ∧ contents c'.model = contents adoptedModel) ∧
      ∃ c', (XmlInterface.load plainPugi plainFloats {} ⟨some [plainText], false⟩).1 = .ok c' ∧
        c'.version = 3 ∧ contents c'.model = contents adoptedModel := by
  have json := (load_save_load plainJson plainPugi plainFloats plainJson_parses plainFloats_exact {}
    ⟨some [plainCompact], false⟩ ⟨3, adoptedModel⟩ {} ⟨rfl, rfl⟩).1
  have xml := (load_save_load plainJson plainPugi plainFloats plainJson_parses plainFloats_exact {}
    ⟨some [plainText], false⟩ ⟨3, adoptedModel⟩ {} ⟨rfl, rfl⟩).2
  obtain ⟨text, written, loads⟩ := json rfl (plainJson_dumps _ rfl)
  obtain ⟨text', written', loads'⟩ := xml plainText_loads (plainPugi_rereads_of _ rfl)
  have saved : plainIndented ++ [10] = text := congrArg (fun answer => answer.2.written) written
  have saved' : plainText = text' := congrArg (fun answer => answer.2.written) written'
  subst saved saved'
  exact ⟨(loads ⟨some [plainIndented ++ [10]], false⟩ ⟨_, rfl, by simp, by decide +kernel⟩).1
      (by decide +kernel),
    (loads' ⟨some [plainText], false⟩ ⟨_, rfl, by simp, by decide +kernel⟩).1 (by decide +kernel)⟩

end ConfigManager.Guarantees
