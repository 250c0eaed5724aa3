import ConfigManager.Guarantees.CheckpointRestore
import ConfigManager.Guarantees.LoadSave
import ConfigManager.Guarantees.Synchronization
import ConfigManager.Programs.ApplicationLaunch

/-!
# Starting again

What a start saved is settled: the next start loads it, finds it in sync, runs
the default factory and nothing else, and writes the same bytes. A file is
written from the version and the tree alone, whatever the slots of the model.
-/

set_option autoImplicit false

namespace ConfigManager.Guarantees
open Library Source Reference Refinement Programs Application

variable {σ : Type}

/-- The config has the supported version, and nothing of the defaults is missing. -/
structure Settled (runtime : ConfigRuntime σ) (supported : VersionId) (defaults : BuiltValue)
    (c : VersionedConfig) : Prop where
  known : runtime.catalog.contains supported = true
  current : c.version = supported
  reached : Reachable c.model
  whole : Tree.merge (contents c.model) defaults.1 = contents c.model
  adopted : ∃ d, ConfigModel.fromValue defaults.1 = .ok d

/-- Every call of the version's factory returns these defaults. -/
def AlwaysReturns (runtime : ConfigRuntime σ) (supported : VersionId) (defaults : BuiltValue) :
    Prop :=
  ∀ entry ∈ runtime.catalog.entries, entry.version = supported →
    ∀ state, (entry.defaultFactory.run state).1 = .returned defaults

theorem createDefault_unregistered (catalog : VersionCatalog σ) (version : VersionId)
    (unknown : catalog.contains version = false) (world : World σ) :
    (catalog.createDefault version world).1 = VersionCatalog.notRegisteredError version := by
  unfold VersionCatalog.contains at unknown
  unfold VersionCatalog.createDefault
  cases found : VersionCatalog.findEntry catalog.entries version with
  | nil => rfl
  | cons entry rest =>
    rw [found] at unknown
    simp only [beq_eq_false_iff_ne, ne_eq] at unknown
    simp only [ne_eq, unknown, not_false_eq_true, if_true]

section
variable {catalog : VersionCatalog σ} {registry : MigrationRegistry σ} {runtime : ConfigRuntime σ}
  (created : ConfigRuntime.create catalog registry = .ok runtime) {supported : VersionId}
  {defaults : BuiltValue} (stable : AlwaysReturns runtime supported defaults)
include stable

theorem createDefault_settled (c : VersionedConfig) (world world' : World σ)
    (ran : runtime.createDefault supported world = (.ok c, world')) :
    Settled runtime supported defaults c := by
  rw [ConfigRuntime.createDefault] at ran
  cases made : runtime.catalog.createDefault supported world with
  | mk answer after =>
    rw [made] at ran
    cases answer with
    | error e => cases ran
    | ok m =>
      cases ran
      have known : runtime.catalog.contains supported = true := by
        by_contra unknown
        rw [Bool.not_eq_true] at unknown
        have refused := createDefault_unregistered runtime.catalog supported unknown world
        rw [made] at refused
        cases refused
      obtain ⟨entry, member, version, outcome, ran, _, ended⟩ :=
        createDefault_cases runtime.catalog supported known world _ _ made
      have same := stable entry member version world.callbacks
      rw [ran] at same
      simp only at same
      subst same
      rcases ended with ⟨threw, _⟩ | ⟨root, back, adopted⟩
      · exact threw.elim
      · cases back
        obtain ⟨t, r, plain⟩ := fromValue_holds defaults m adopted.symm
        refine ⟨known, rfl, .fromValue defaults m adopted.symm, ?_, m, adopted.symm⟩
        rw [contents_eq r, plain]
        exact Tree.merge_self _ defaults.2

include created

theorem synchronize_settled (c c' : VersionedConfig) (held : Reachable c.model)
    (world world' : World σ)
    (ran : runtime.synchronize c supported world = (.ok .inSync, c', world')) :
    Settled runtime supported defaults c' := by
  have how := synchronize_cases catalog registry runtime created c held supported world
  rw [ran] at how
  simp only at how
  cases how with
  | inSync _ known _ _ _ m state _ entry member version root made d adopted merged distinct reached
      current =>
    have same := stable entry member version state
    rw [made] at same
    cases same
    refine ⟨known, current, reached, ?_, d, adopted⟩
    rw [merged]
    exact Tree.merge_merge _ _ distinct

/-- A settled config is in sync as it is, and only the factory runs. -/
theorem Settled.synchronize (c : VersionedConfig) (settled : Settled runtime supported defaults c)
    (world : World σ) :
    ∃ world', runtime.synchronize c supported world = (.ok .inSync, c, world') ∧
      world'.events = world.events ++ [.factory supported (.returned defaults)] := by
  have none : upgradeSteps runtime c.version supported = [] := by
    rw [settled.current]
    exact upgradeSteps_self runtime supported settled.known
  have how := synchronize_cases catalog registry runtime created c settled.reached supported world
  generalize runtime.synchronize c supported world = ended at how ⊢
  obtain ⟨answer, c', world'⟩ := ended
  simp only at how
  cases how with
  | unregistered e code unknown => simp [settled.known] at unknown
  | downgrade _ above => simp [settled.current] at above
  | unknownVersion e code _ below => simp [settled.current] at below
  | migrationFailed e code _ below => simp [settled.current] at below
  | defaultsFailed e _ _ _ _ state entry member version outcome made _ cause =>
    have same := stable entry member version state
    rw [made] at same
    cases same
    rcases cause with ⟨threw, _⟩ | ⟨root, back, refused⟩
    · exact threw.elim
    · cases back
      obtain ⟨d, adopted⟩ := settled.adopted
      rw [adopted] at refused
      cases refused
  | inSync _ _ _ _ _ m state applied entry member version root made _ _ merged _ _ _ tail events
      commit =>
    have same := stable entry member version state
    rw [made] at same
    cases same
    rw [none] at applied events
    cases applied
    rcases commit with ⟨rfl, rfl, _⟩ | ⟨_, changed⟩
    · exact ⟨_, rfl, by simpa using events⟩
    · rcases changed with below | other
      · simp [settled.current] at below
      · exact absurd (merged.trans settled.whole) other

end

theorem Settled.alike {runtime : ConfigRuntime σ} {supported : VersionId} {defaults : BuiltValue}
    {c c' : VersionedConfig} (settled : Settled runtime supported defaults c)
    (reached : Reachable c'.model) (version : c'.version = c.version)
    (same : contents c'.model = contents c.model) : Settled runtime supported defaults c' :=
  ⟨settled.known, version.trans settled.current, reached, by rw [same, settled.whole], settled.adopted⟩

/-! ## Two starts -/

section
variable {catalog : VersionCatalog σ} {registry : MigrationRegistry σ} {runtime : ConfigRuntime σ}
  (created : ConfigRuntime.create catalog registry = .ok runtime) {supported : VersionId}
  {defaults : BuiltValue} (stable : AlwaysReturns runtime supported defaults) {load : Loads}
  (reaches : ∀ input c, (load input).1 = .ok c → Reachable c.model)
include created stable reaches

/-- What a start saves is settled. -/
theorem prepare_settled (file : Option Bytes) (world world' : World σ) (c : VersionedConfig)
    (ran : prepare load runtime supported file world = (.ok (some c), world')) :
    Settled runtime supported defaults c := by
  unfold prepare at ran
  cases file with
  | none =>
    simp only at ran
    cases made : runtime.createDefault supported world with
    | mk answer after =>
      rw [made] at ran
      cases answer with
      | error e => cases ran
      | ok config =>
        cases ran
        exact createDefault_settled stable c world _ made
  | some text =>
    simp only at ran
    cases loaded : loadFile load (some text) with
    | error e =>
      rw [loaded] at ran
      cases ran
    | ok config =>
      have reached := reaches _ config loaded
      rw [loaded] at ran
      simp only at ran
      cases synchronized : runtime.synchronize config supported world with
      | mk answer rest =>
        obtain ⟨config', after⟩ := rest
        rw [synchronized] at ran
        rcases answer with e | (_ | _ | _)
        · cases ran
        · cases ran
          exact synchronize_settled created stable config c reached world _ synchronized
        · -- A synchronization never answers that an upgrade is required.
          have how := synchronize_cases catalog registry runtime created config reached supported world
          rw [synchronized] at how
          cases how
        · cases ran

/-- The next start on a file that loads as what was saved, and that this config saves as. -/
theorem launch_again (save : Saves) (c again : VersionedConfig)
    (settled : Settled runtime supported defaults c) (text : Bytes)
    (loaded : (load (fileStream text)).1 = .ok again) (version : again.version = c.version)
    (same : contents again.model = contents c.model)
    (resaved : saveFile save again = (.ok (), text)) (later : World σ) :
    ∃ later', launch load save runtime supported (some text) later = (.ok (), some text, later') ∧
      later'.events = later.events ++ [.factory supported (.returned defaults)] := by
  obtain ⟨later', synchronized, events⟩ := Settled.synchronize created stable again
    (settled.alike (reaches _ again loaded) version same) later
  refine ⟨later', ?_, events⟩
  have opened : loadFile load (some text) = .ok again := loaded
  simp only [launch, prepare, opened, synchronized, resaved]

end

/-! ## Both backends write from the version and the tree -/

theorem json_alike (json : NlohmannJson) (c c' : VersionedConfig) (reached : Reachable c.model)
    (reached' : Reachable c'.model) (version : c'.version = c.version)
    (same : contents c'.model = contents c.model) (text : Bytes)
    (saved : saveFile (JsonInterface.save json) c = (.ok (), text)) :
    saveFile (JsonInterface.save json) c' = (.ok (), text) := by
  obtain ⟨ms, plain, saves⟩ := document_spec c reached
  obtain ⟨ms', plain', saves'⟩ := document_spec c' reached'
  rw [plain', plain, Tree.object.injEq] at same
  obtain ⟨-, rfl⟩ := same
  rw [plain] at saves
  rw [plain', version] at saves'
  rw [saveFile, JsonInterface.save] at saved ⊢
  by_cases writable : kVersionKey ∉ (Tree.object () ms' : ConfigValue).keys ∧
      Tree.EveryLeaf FiniteScalar (Tree.object () ms' : ConfigValue)
  · rw [saves.saved writable] at saved
    rw [saves'.saved writable]
    exact saved
  · obtain ⟨e, refused, _⟩ := saves.refused writable
    rw [refused] at saved
    cases saved

theorem xml_alike (pugi : PugiXml) (float : FloatText) (floats : ExactFloats float)
    (c c' : VersionedConfig) (reached : Reachable c.model) (reached' : Reachable c'.model)
    (version : c'.version = c.version) (same : contents c'.model = contents c.model) (text : Bytes)
    (saved : saveFile (XmlInterface.save pugi float) c = (.ok (), text)) :
    saveFile (XmlInterface.save pugi float) c' = (.ok (), text) := by
  obtain ⟨ms, plain, saves⟩ := xmlDocument_spec float floats.printable c reached
  obtain ⟨ms', plain', saves'⟩ := xmlDocument_spec float floats.printable c' reached'
  rw [plain', plain, Tree.object.injEq] at same
  obtain ⟨-, rfl⟩ := same
  rw [plain] at saves
  rw [plain', version] at saves'
  rw [saveFile, XmlInterface.save] at saved ⊢
  by_cases writable : XmlWritable (Tree.object () ms' : ConfigValue)
  · rw [saves.saved writable] at saved
    rw [saves'.saved writable]
    exact saved
  · obtain ⟨e, refused, _⟩ := saves.refused writable
    rw [refused] at saved
    cases saved

/-- For every start over JSON or XML that ends with a config and saves it, on a file or without one,
and within the backend's limits: every later start loads the saved file, calls the default factory
and no migration, and leaves the file byte for byte. -/
theorem relaunch_settles (json : NlohmannJson) (texts : ParsesTexts json) (pugi : PugiXml)
    (float : FloatText) (floats : ExactFloats float) (limits : LoadLimits)
    (catalog : VersionCatalog σ) (registry : MigrationRegistry σ) (runtime : ConfigRuntime σ)
    (created : ConfigRuntime.create catalog registry = .ok runtime) (supported : VersionId)
    (defaults : BuiltValue) (stable : AlwaysReturns runtime supported defaults)
    (file : Option Bytes) (world world' : World σ) (c : VersionedConfig)
    (nodes : (contents c.model).size ≤ limits.maxNodes) (text : Bytes)
    (within : text.length ≤ limits.maxInputBytes) :
    (prepare (JsonInterface.load json ⟨limits⟩) runtime supported file world =
        (.ok (some c), world') →
      (∀ doc, JsonInterface.document c = .ok doc → Dumps json doc) →
      saveFile (JsonInterface.save json) c = (.ok (), text) →
      ∀ later, ∃ later', launch (JsonInterface.load json ⟨limits⟩) (JsonInterface.save json) runtime
          supported (some text) later = (.ok (), some text, later') ∧
        later'.events = later.events ++ [.factory supported (.returned defaults)]) ∧
    (prepare (XmlInterface.load pugi float ⟨limits⟩) runtime supported file world =
        (.ok (some c), world') →
      (∀ doc, XmlInterface.document float c = .ok doc → Rereads pugi doc) →
      saveFile (XmlInterface.save pugi float) c = (.ok (), text) →
      ∀ later, ∃ later', launch (XmlInterface.load pugi float ⟨limits⟩)
          (XmlInterface.save pugi float) runtime supported (some text) later =
            (.ok (), some text, later') ∧
        later'.events = later.events ++ [.factory supported (.returned defaults)]) := by
  constructor
  · intro prepared dumps saved later
    have reaches : ∀ input c, (JsonInterface.load json ⟨limits⟩ input).1 = .ok c →
        Reachable c.model := fun input c loaded => (json_accepted json texts _ input c loaded).1
    have settled := prepare_settled created stable reaches file world world' c prepared
    have stores := json_stores json c settled.reached dumps {} ⟨rfl, rfl⟩
    obtain ⟨again, loaded, version, alike⟩ := saveFile_loads _ stores text saved limits nodes
    rw [← loadWith_within (bytes "JSON") (JsonInterface.decode json) limits (fileStream text) text
      (fileStream_delivers text) within, ← json_load json ⟨limits⟩] at loaded
    exact launch_again created stable reaches _ c again settled text loaded version alike
      (json_alike json c again settled.reached (reaches _ again loaded) version alike text saved) later
  · intro prepared rereads saved later
    have reaches : ∀ input c, (XmlInterface.load pugi float ⟨limits⟩ input).1 = .ok c →
        Reachable c.model := fun input c loaded => (xml_accepted pugi float _ input c loaded).1
    have settled := prepare_settled created stable reaches file world world' c prepared
    have stores := xml_stores pugi float floats c settled.reached rereads {} ⟨rfl, rfl⟩
    obtain ⟨again, loaded, version, alike⟩ := saveFile_loads _ stores text saved limits nodes
    rw [← loadWith_within (bytes "XML") (xmlDecode pugi float) limits (fileStream text) text
      (fileStream_delivers text) within, ← xml_load pugi float ⟨limits⟩] at loaded
    exact launch_again created stable reaches _ c again settled text loaded version alike
      (xml_alike pugi float floats c again settled.reached (reaches _ again loaded) version alike text
        saved) later

/-! ## A file that lacks a setting -/

/-- The user's file before the array came in. -/
def sparseCompact : Bytes := bytes "\x7b\"__version\":3,\"n\":-42,\"s\":\"  \"\x7d"

def sparseXml : Bytes := bytes "<config version=\"3\"><n type=\"int\">-42</n><s>  </s></config>"

def sparseJson : NlohmannJson where
  dump := plainJson.dump
  events text := if text = sparseCompact then [.startObject, .key kVersionKey, .numberUnsigned 3,
      .key (bytes "n"), .numberInteger (-42), .key (bytes "s"), .string (bytes "  "), .endObject]
    else plainJson.events text

def sparsePugi : PugiXml where
  write := plainPugi.write
  parse text := if text = sparseXml then .ok [.element kRootName [(kVersionAttr, bytes "3")]
      [.element (bytes "n") [(kTypeAttr, bytes "int")] [.pcdata (bytes "-42")],
        .element (bytes "s") [] [.pcdata (bytes "  ")]]]
    else plainPugi.parse text

/-- The defaults of version 3: another number, and the array. -/
def arrayDefaults : BuiltValue :=
  ⟨(ConfigValue.object.set (bytes "n") (ConfigValue.of (.int 7))).set (bytes "a")
    (ConfigValue.array.push (ConfigValue.of (.double ⟨0x4004000000000000⟩))), by decide⟩

def arrayVersion : ConfigRuntime Unit :=
  ⟨⟨[⟨3, ⟨fun state => (.returned arrayDefaults, state)⟩⟩], List.pairwise_singleton _ _⟩, ⟨[]⟩⟩

/-- The config that a start ends up with, known by what is computed from it. -/
theorem prepared_known {α : Type} {load : Loads} {runtime : ConfigRuntime σ} {supported : VersionId}
    {file : Option Bytes} {world : World σ} (f : VersionedConfig → α) (x : α)
    (computed : (prepare load runtime supported file world).1.map (Option.map f) = .ok (some x)) :
    ∃ c world', prepare load runtime supported file world = (.ok (some c), world') ∧ f c = x := by
  cases ran : prepare load runtime supported file world with
  | mk answer world' =>
    rw [ran] at computed
    cases answer with
    | error e => cases computed
    | ok ended =>
      cases ended with
      | none => cases computed
      | some c => exact ⟨c, world', rfl, Option.some.inj (Except.ok.inj computed)⟩

theorem sparseJson_parses : ParsesTexts sparseJson := by
  intro text
  by_cases sparse : text = sparseCompact
  · refine .inl ⟨Tree.object () [(kVersionKey, Tree.leaf () (.numberUnsigned 3)),
      (bytes "n", Tree.leaf () (.numberInteger (-42))),
      (bytes "s", Tree.leaf () (.string (bytes "  ")))], if_pos sparse, ?_⟩
    rw [Lexed, Tree.everyPart_object]
    simp only [List.forall_mem_cons, Tree.everyPart_leaf, List.not_mem_nil, false_imp_iff,
      implies_true, and_true]
    exact ⟨⟨validUtf8_versionKey, trivial⟩, ⟨⟨['n'], rfl⟩, trivial⟩, ⟨['s'], rfl⟩, [' ', ' '], rfl⟩
  · exact .inl ⟨plainSax, if_neg sparse, plainSax_lexed⟩

theorem sparseJson_dumps (doc : OrderedJson) (dumps : Dumps plainJson doc) : Dumps sparseJson doc := by
  refine ⟨dumps.strict, fun finite text dumped => ?_⟩
  have saved : text = plainIndented := (Except.ok.inj dumped).symm
  have other : text ++ [10] ≠ sparseCompact := by
    rw [saved]
    decide +kernel
  have same : sparseJson.events (text ++ [10]) = plainJson.events (text ++ [10]) := if_neg other
  rw [same]
  exact dumps.parsed finite text dumped

theorem sparsePugi_parse (text : Bytes) (other : text ≠ sparseXml) :
    sparsePugi.parse text = plainPugi.parse text := if_neg other

theorem sparsePugi_rereads (doc : List XmlNode) (rereads : Rereads plainPugi doc) :
    Rereads sparsePugi doc := by
  obtain ⟨nodes, parsed, respaced⟩ := rereads
  have other : plainPugi.write doc ≠ sparseXml := by
    change plainText ≠ sparseXml
    decide +kernel
  exact ⟨nodes, (sparsePugi_parse _ other).trans parsed, respaced⟩

/-- Whatever slots a model holds the members in, both backends have the plain documents of it. -/
theorem plain_documents (c : VersionedConfig) (reached : Reachable c.model) (version : c.version = 3)
    (holds : contents c.model = Tree.object () plainMembers) :
    JsonInterface.document c = .ok (documentOf 3 plainMembers) ∧
      XmlInterface.document plainFloats c =
        .ok [.element kRootName [(kVersionAttr, bytes "3")] plainChildren] := by
  have adopted : contents adoptedModel = Tree.object () plainMembers := by decide +kernel
  obtain ⟨ms, shape, saves⟩ := document_spec c reached
  obtain ⟨ms', shape', saves'⟩ := xmlDocument_spec plainFloats plainFloats_exact.printable c reached
  obtain ⟨_, ⟨free, finite, _⟩, _⟩ := json_accepted plainJson plainJson_parses {}
    ⟨some [plainCompact], false⟩ ⟨3, adoptedModel⟩ rfl
  obtain ⟨_, writable, _⟩ := xml_accepted plainPugi plainFloats {} _ _ plainText_loads
  have known := saves.saved (by rw [holds, ← adopted]; exact ⟨free, finite⟩)
  have known' := saves'.saved (by rw [holds, ← adopted]; exact writable)
  rw [holds, Tree.object.injEq] at shape shape'
  rw [version, ← shape.2] at known
  rw [version, ← shape'.2] at known'
  exact ⟨known, known'⟩

theorem arrayVersion_created :
    ConfigRuntime.create arrayVersion.catalog arrayVersion.registry = .ok arrayVersion := rfl

theorem arrayVersion_stable : AlwaysReturns arrayVersion 3 arrayDefaults := by
  intro entry member _ state
  obtain rfl := List.mem_singleton.mp member
  rfl

/-- The first start fills in the array and saves it; the second start, over either backend, leaves
the file and runs the factory only. -/
theorem sparse_relaunched :
    (∃ later', launch (JsonInterface.load sparseJson {}) (JsonInterface.save sparseJson)
        arrayVersion 3 (some (plainIndented ++ [10])) ⟨(), []⟩ =
          (.ok (), some (plainIndented ++ [10]), later') ∧
        later'.events = [.factory 3 (.returned arrayDefaults)]) ∧
      ∃ later', launch (XmlInterface.load sparsePugi plainFloats {})
        (XmlInterface.save sparsePugi plainFloats) arrayVersion 3 (some plainText) ⟨(), []⟩ =
          (.ok (), some plainText, later') ∧
        later'.events = [.factory 3 (.returned arrayDefaults)] := by
  have settles := fun file world' c nodes text within => relaunch_settles sparseJson
    sparseJson_parses sparsePugi plainFloats plainFloats_exact {} arrayVersion.catalog
    arrayVersion.registry arrayVersion arrayVersion_created 3 _ arrayVersion_stable file ⟨(), []⟩
    world' c nodes text within
  constructor
  · obtain ⟨c, world', prepared, holds⟩ := prepared_known (fun c => contents c.model)
      (Tree.object () plainMembers) (show (prepare (JsonInterface.load sparseJson {}) arrayVersion 3
        (some sparseCompact) ⟨(), []⟩).1.map _ = _ by decide +kernel)
    have settled := prepare_settled arrayVersion_created arrayVersion_stable (fun input c loaded =>
      (json_accepted sparseJson sparseJson_parses {} input c loaded).1) _ _ world' c prepared
    obtain ⟨known, _⟩ := plain_documents c settled.reached settled.current holds
    have nodes : (contents c.model).size ≤ ({} : LoadLimits).maxNodes := by
      rw [holds]
      decide
    have saved : saveFile (JsonInterface.save sparseJson) c = (.ok (), plainIndented ++ [10]) := by
      rw [saveFile, JsonInterface.save, known]
      rfl
    refine (settles _ world' c nodes _ (by decide +kernel)).1 prepared (fun doc built => ?_) saved
      ⟨(), []⟩
    rw [known, Except.ok.injEq] at built
    exact built ▸ sparseJson_dumps _ (plainJson_dumps adoptedModel rfl _ rfl)
  · obtain ⟨c, world', prepared, holds⟩ := prepared_known (fun c => contents c.model)
      (Tree.object () plainMembers) (show (prepare (XmlInterface.load sparsePugi plainFloats {})
        arrayVersion 3 (some sparseXml) ⟨(), []⟩).1.map _ = _ by decide +kernel)
    have settled := prepare_settled arrayVersion_created arrayVersion_stable (fun input c loaded =>
      (xml_accepted sparsePugi plainFloats {} input c loaded).1) _ _ world' c prepared
    obtain ⟨_, known⟩ := plain_documents c settled.reached settled.current holds
    have nodes : (contents c.model).size ≤ ({} : LoadLimits).maxNodes := by
      rw [holds]
      decide
    have saved : saveFile (XmlInterface.save sparsePugi plainFloats) c = (.ok (), plainText) := by
      rw [saveFile, XmlInterface.save, known]
      rfl
    refine (settles _ world' c nodes _ (by decide +kernel)).2 prepared (fun doc built => ?_) saved
      ⟨(), []⟩
    rw [known, Except.ok.injEq] at built
    exact built ▸ sparsePugi_rereads _ plainPugi_rereads

end ConfigManager.Guarantees
