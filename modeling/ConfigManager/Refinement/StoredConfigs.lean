import ConfigManager.Refinement.JsonReading
import ConfigManager.Refinement.XmlReading

/-!
# What a backend loads and what it stores

For either backend: which configs it accepts, when it stores one, and what it
loads from the stored text. The limits are those of loading alone.
-/

set_option autoImplicit false

namespace ConfigManager.Refinement
open Library Source Reference

/-- What both backends do with a stream: read it within the limit, then decode it. -/
def loadWith (format : Bytes) (decode : LoadLimits → Bytes → Result VersionedConfig)
    (limits : LoadLimits) (input : InputStream) : Result VersionedConfig :=
  match (readBounded format input limits.maxInputBytes).1 with
  | .error e => .error e
  | .ok text => decode limits text

theorem loadWith_within (format : Bytes) (decode : LoadLimits → Bytes → Result VersionedConfig)
    (limits : LoadLimits) (input : InputStream) (text : Bytes) (delivers : input.Delivers text)
    (within : text.length ≤ limits.maxInputBytes) :
    loadWith format decode limits input = decode limits text := by
  rw [loadWith, readBounded_ok format input _ text delivers within]

theorem loadWith_over (format : Bytes) (decode : LoadLimits → Bytes → Result VersionedConfig)
    (limits : LoadLimits) (input : InputStream) (text : Bytes) (delivers : input.Delivers text)
    (exceeds : limits.maxInputBytes < text.length) :
    ∃ message, loadWith format decode limits input = fail .parseError message := by
  obtain ⟨message, refused⟩ := readBounded_over format input _ text delivers exceeds
  exact ⟨message, by rw [loadWith, refused]; rfl⟩

theorem loadWith_ok (format : Bytes) (decode : LoadLimits → Bytes → Result VersionedConfig)
    (limits : LoadLimits) (input : InputStream) (c : VersionedConfig)
    (loaded : loadWith format decode limits input = .ok c) : ∃ text, decode limits text = .ok c := by
  cases read : (readBounded format input limits.maxInputBytes).1 with
  | error e => simp [loadWith, read] at loaded
  | ok text => exact ⟨text, by simpa only [loadWith, read] using loaded⟩

/-- The text loads as this version and this tree, as long as the tree has no more nodes than
the limits allow. -/
def LoadsAs (decode : LoadLimits → Bytes → Result VersionedConfig) (text : Bytes)
    (c : VersionedConfig) : Prop :=
  ∀ limits : LoadLimits, (contents c.model).size ≤ limits.maxNodes →
    ∃ c', decode limits text = .ok c' ∧ c'.version = c.version ∧ contents c'.model = contents c.model

/-- A config is stored exactly when its tree can be written, as a text that loads as the config. -/
structure Stores (decode : LoadLimits → Bytes → Result VersionedConfig) (c : VersionedConfig)
    (writable : Prop) (out : OutputStream) (saved : Result Unit × OutputStream) : Prop where
  stored : writable → ∃ text,
    saved = (.ok (), { out with written := out.written ++ text }) ∧ LoadsAs decode text c
  refused : ¬ writable → ∃ e, saved.1 = .error e

section
variable {decode : LoadLimits → Bytes → Result VersionedConfig} {c : VersionedConfig}
  {writable : Prop} {out : OutputStream} {saved : Result Unit × OutputStream}

theorem Stores.succeeds (stores : Stores decode c writable out saved) :
    saved.1 = .ok () ↔ writable := by
  by_cases holds : writable
  · obtain ⟨text, same, _⟩ := stores.stored holds
    simp only [same, holds]
  · obtain ⟨e, failed⟩ := stores.refused holds
    simp only [failed, holds, reduceCtorEq]

theorem Stores.text (stores : Stores decode c writable out saved) (out' : OutputStream)
    (success : saved = (.ok (), out')) :
    ∃ text, out'.written = out.written ++ text ∧ LoadsAs decode text c := by
  obtain ⟨text, same, loads⟩ := stores.stored (stores.succeeds.mp (by rw [success]))
  rw [same, Prod.mk.injEq] at success
  obtain ⟨_, rfl⟩ := success
  exact ⟨text, rfl, loads⟩

end

/-! ## JSON -/

/-- The tree that `save` can write. -/
def JsonWritable (root : ConfigValue) : Prop :=
  kVersionKey ∉ root.keys ∧ Tree.EveryLeaf FiniteScalar root ∧ Tree.EveryKey ValidUtf8 root ∧
    Tree.EveryLeaf Utf8Scalar root

theorem jsonWritable_of_dumpable (root : ConfigValue) (free : kVersionKey ∉ root.keys)
    (dumpable : Dumpable root) : JsonWritable root := by
  obtain ⟨keys, leaves⟩ := dumpable
  rw [Tree.everyLeaf_and] at leaves
  exact ⟨free, leaves.1, keys, leaves.2⟩

/-- Outside its carrier a document is text exactly where the tree is. -/
theorem documentOf_utf8 (version : VersionId) (ms : List (Bytes × ConfigValue)) :
    Tree.EveryKey ValidUtf8 (documentOf version ms) ∧
        Tree.EveryLeaf Utf8Primitive (documentOf version ms) ↔
      Tree.EveryKey ValidUtf8 (Tree.object () ms : ConfigValue) ∧
        Tree.EveryLeaf Utf8Scalar (Tree.object () ms : ConfigValue) := by
  have leaf : ∀ s, Utf8Primitive (primitiveOf s) ↔ Utf8Scalar s := by
    intro s
    cases s <;> rfl
  have number : Utf8Primitive (.numberUnsigned (UInt64.ofNat version.val)) := trivial
  simp only [documentOf, carrier, Tree.everyKey_object, Tree.everyLeaf_object,
    List.forall_mem_cons, List.forall_mem_map, Tree.everyKey_leaf, Tree.everyLeaf_leaf, jsonOf,
    Tree.everyKey_mapLeaves, Tree.everyLeaf_mapLeaves, validUtf8_versionKey, number, leaf,
    true_and]

theorem documentOf_finite (version : VersionId) (ms : List (Bytes × ConfigValue)) :
    Tree.EveryLeaf FinitePrimitive (documentOf version ms) ↔
      Tree.EveryLeaf FiniteScalar (Tree.object () ms : ConfigValue) := by
  have leaf : ∀ s, FinitePrimitive (primitiveOf s) ↔ FiniteScalar s := by
    intro s
    cases s <;> rfl
  have number : FinitePrimitive (.numberUnsigned (UInt64.ofNat version.val)) := trivial
  simp only [documentOf, carrier, Tree.everyLeaf_object, List.forall_mem_cons,
    List.forall_mem_map, Tree.everyLeaf_leaf, jsonOf, Tree.everyLeaf_mapLeaves, number, leaf,
    true_and]

theorem json_load (json : NlohmannJson) (backend : JsonInterface) (input : InputStream) :
    (JsonInterface.load json backend input).1 =
      loadWith (bytes "JSON") (JsonInterface.decode json) backend.limits input := by
  unfold JsonInterface.load loadWith
  cases readBounded (bytes "JSON") input backend.limits.maxInputBytes with
  | mk answer input' => cases answer <;> rfl

/-- Whatever is loaded is a reachable model that can be written, within the node limit. -/
theorem json_accepted (json : NlohmannJson) (texts : ParsesTexts json) (backend : JsonInterface)
    (input : InputStream) (c : VersionedConfig)
    (loaded : (JsonInterface.load json backend input).1 = .ok c) :
    Reachable c.model ∧ JsonWritable (contents c.model) ∧
      (contents c.model).size ≤ backend.limits.maxNodes := by
  rw [json_load] at loaded
  obtain ⟨text, decoded⟩ := loadWith_ok _ _ _ _ c loaded
  obtain ⟨reached, doc, _, lexed, read⟩ := decode_ok json texts backend.limits text c decoded
  have guaranteed := readDocument_ok _ doc c.version (contents c.model) read
  exact ⟨reached, jsonWritable_of_dumpable _ guaranteed.free (guaranteed.dumpable lexed),
    guaranteed.budget⟩

/-- A tree that can be written has a text. -/
theorem json_dumps (json : NlohmannJson) (c : VersionedConfig) (reached : Reachable c.model)
    (dumps : ∀ doc, JsonInterface.document c = .ok doc → Dumps json doc)
    (writable : JsonWritable (contents c.model)) :
    ∃ doc text, JsonInterface.document c = .ok doc ∧ json.dump doc = .ok text := by
  obtain ⟨ms, shape, saves⟩ := document_spec c reached
  obtain ⟨free, finite, utf8⟩ := writable
  have built := saves.saved ⟨free, finite⟩
  rw [shape] at utf8
  obtain ⟨text, dumped⟩ := (dumps _ built).strict.mpr ((documentOf_utf8 c.version ms).mpr utf8)
  exact ⟨_, text, built, dumped⟩

/-- Only a tree that can be written has a text, and the text loads as the config. -/
theorem json_dumped (json : NlohmannJson) (c : VersionedConfig) (reached : Reachable c.model)
    (dumps : ∀ doc, JsonInterface.document c = .ok doc → Dumps json doc) (doc : OrderedJson)
    (built : JsonInterface.document c = .ok doc) (text : Bytes) (dumped : json.dump doc = .ok text) :
    JsonWritable (contents c.model) ∧
      LoadsAs (JsonInterface.decode json) (text ++ [10]) c := by
  obtain ⟨ms, shape, saves⟩ := document_spec c reached
  obtain ⟨encodable, rfl⟩ := saves.of_saved built
  have documented := dumps _ built
  have utf8 := (documentOf_utf8 c.version ms).mp (documented.strict.mp ⟨text, dumped⟩)
  refine ⟨⟨encodable.1, encodable.2, shape ▸ utf8⟩, fun limits nodes => ?_⟩
  obtain ⟨t, r⟩ := reachable_represents reached
  have admissible := r.admissible
  rw [← contents_eq r, shape] at admissible
  obtain ⟨free, finite⟩ := encodable
  rw [shape] at free finite nodes
  obtain ⟨literal, marked, parsed⟩ :=
    documented.parsed ((documentOf_finite c.version ms).mpr finite) text dumped
  rw [shape]
  exact decode_document json limits (text ++ [10]) literal marked c.version ms parsed admissible
    finite free nodes

theorem json_stores (json : NlohmannJson) (c : VersionedConfig) (reached : Reachable c.model)
    (dumps : ∀ doc, JsonInterface.document c = .ok doc → Dumps json doc) (out : OutputStream)
    (working : out.Working) :
    Stores (JsonInterface.decode json) c (JsonWritable (contents c.model)) out
      (JsonInterface.save json c out) := by
  constructor
  · intro writable
    obtain ⟨doc, text, built, dumped⟩ := json_dumps json c reached dumps writable
    obtain ⟨_, loads⟩ := json_dumped json c reached dumps doc built text dumped
    obtain ⟨first, still⟩ := out.write_working text working
    obtain ⟨second, sound⟩ := (out.write text).write_working [10] still
    refine ⟨text ++ [10], ?_, loads⟩
    unfold JsonInterface.save
    simp only [built, dumped, sound.sound, Bool.false_eq_true, if_false]
    rw [second, first, List.append_assoc]
  · intro not
    unfold JsonInterface.save
    cases built : JsonInterface.document c with
    | error e => exact ⟨e, rfl⟩
    | ok doc =>
      cases dumped : json.dump doc with
      | error what => exact ⟨_, by simp only [dumped]; rfl⟩
      | ok text => exact absurd (json_dumped json c reached dumps doc built text dumped).1 not

/-! ## XML -/

/-- What `load` does with the text it has read. -/
def xmlDecode (pugi : PugiXml) (float : FloatText) (limits : LoadLimits) (text : Bytes) :
    Result VersionedConfig :=
  match pugi.parse text with
  | .error description => fail .parseError (bytes "XML parse failed: " ++ description)
  | .ok nodes => XmlInterface.convert float limits nodes

theorem xmlDecode_parsed (pugi : PugiXml) (float : FloatText) (limits : LoadLimits) (text : Bytes)
    (nodes : List XmlNode) (parsed : pugi.parse text = .ok nodes) :
    xmlDecode pugi float limits text = XmlInterface.convert float limits nodes := by
  rw [xmlDecode, parsed]

theorem xml_load (pugi : PugiXml) (float : FloatText) (backend : XmlInterface)
    (input : InputStream) :
    (XmlInterface.load pugi float backend input).1 =
      loadWith (bytes "XML") (xmlDecode pugi float) backend.limits input := by
  unfold XmlInterface.load loadWith xmlDecode
  cases readBounded (bytes "XML") input backend.limits.maxInputBytes with
  | mk answer input' =>
    cases answer with
    | error e => rfl
    | ok text =>
      simp only
      cases pugi.parse text <;> rfl

theorem xml_accepted (pugi : PugiXml) (float : FloatText) (backend : XmlInterface)
    (input : InputStream) (c : VersionedConfig)
    (loaded : (XmlInterface.load pugi float backend input).1 = .ok c) :
    Reachable c.model ∧ XmlWritable (contents c.model) ∧
      (contents c.model).size ≤ backend.limits.maxNodes := by
  rw [xml_load] at loaded
  obtain ⟨text, decoded⟩ := loadWith_ok _ _ _ _ c loaded
  unfold xmlDecode at decoded
  split at decoded
  · cases decoded
  · next nodes _ =>
    obtain ⟨writable, small, reached⟩ := convert_ok float backend.limits nodes c decoded
    exact ⟨reached, writable, small⟩

theorem xml_stores (pugi : PugiXml) (float : FloatText) (floats : ExactFloats float)
    (c : VersionedConfig) (reached : Reachable c.model)
    (rereads : ∀ doc, XmlInterface.document float c = .ok doc → Rereads pugi doc)
    (out : OutputStream) (working : out.Working) :
    Stores (xmlDecode pugi float) c (XmlWritable (contents c.model)) out
      (XmlInterface.save pugi float c out) := by
  obtain ⟨ms, shape, saves⟩ := xmlDocument_spec float floats.printable c reached
  constructor
  · intro writable
    have built := saves.saved writable
    obtain ⟨nodes, parsed, spaced⟩ := rereads _ built
    obtain ⟨written, sound⟩ := out.write_working (pugi.write [rootOf float c.version ms]) working
    refine ⟨pugi.write [rootOf float c.version ms], ?_, fun limits count => ?_⟩
    · unfold XmlInterface.save
      simp only [built, sound.sound, Bool.false_eq_true, if_false]
      rw [written]
    · obtain ⟨t, r⟩ := reachable_represents reached
      have admissible := r.admissible
      rw [← contents_eq r, shape] at admissible
      rw [shape] at writable count ⊢
      unfold xmlDecode
      simp only [parsed]
      exact convert_document float floats limits c.version ms nodes spaced admissible writable count
  · intro not
    obtain ⟨e, refused, _⟩ := saves.refused not
    unfold XmlInterface.save
    exact ⟨e, by rw [refused]⟩

end ConfigManager.Refinement
