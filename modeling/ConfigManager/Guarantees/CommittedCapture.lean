import ConfigManager.Guarantees.CheckpointAtomicity
import ConfigManager.Guarantees.JsonRoundTrip
import ConfigManager.Programs.ApplicationLaunch
import ConfigManager.Refinement.UnfailingCalls

/-!
# Capturing what was committed

`cpCapture` reads within `max_file_bytes`, `cpCommit` writes what the backend
saves. Between them the size of the saved text alone decides.
-/

set_option autoImplicit false

namespace ConfigManager.Guarantees
open Library Source Reference Refinement Programs Application

variable {σ : Type}

/-- What was saved loads again as the same version and the same tree, in whatever slots, and
whatever the backend went through meanwhile. -/
def Stable (backend : Backend σ) (config : VersionedConfig) : Prop :=
  ∀ state text state', saveBytes backend config state = (.ok text, state') →
    ∀ later, ∃ again, (loadBytes backend text later).1 = .ok again ∧
      again.version = config.version ∧ contents again.model = contents config.model

/-! ## The JSON and XML backends -/

/-- A backend without a state of its own, over string streams. -/
def interfaceBackend (load : Loads) (save : Saves) : Backend Unit where
  load text state := (.returned (load (fileStream text)).1, state)
  save config state :=
    let (answer, out) := save config {}
    (.returned answer, out, state)

section
variable {load : Loads} {save : Saves}

theorem saveBytes_interface (config : VersionedConfig) (text : Bytes) (state state' : Unit)
    (saved : saveBytes (interfaceBackend load save) config state = (.ok text, state')) :
    saveFile save config = (.ok (), text) := by
  simp only [saveBytes, interfaceBackend] at saved
  rw [saveFile]
  cases ended : save config {} with
  | mk answer out =>
    rw [ended] at saved
    cases answer with
    | error e => cases saved
    | ok done =>
      simp only at saved
      split at saved
      · cases saved
      · cases saved
        rfl

theorem interfaceBackend_stable (format : Bytes)
    {decode : LoadLimits → Bytes → Result VersionedConfig} {config : VersionedConfig}
    {writable : Prop} (stores : Stores decode config writable {} (save config {}))
    (limits : LoadLimits) (loads : ∀ input, (load input).1 = loadWith format decode limits input)
    (nodes : (contents config.model).size ≤ limits.maxNodes)
    (within : ∀ text, saveFile save config = (.ok (), text) →
      text.length ≤ limits.maxInputBytes) : Stable (interfaceBackend load save) config := by
  intro state text state' saved later
  have written := saveBytes_interface config text state state' saved
  obtain ⟨again, loaded, same⟩ :=
    loadWith_saved format save stores limits nodes text (within text written) written
  exact ⟨again, (loads _).trans loaded, same⟩

end

/-- Whatever calls built or edited a model, and whichever of the two formats it is saved in: what is
saved of it within the limits loads again. -/
theorem formats_stable (config : VersionedConfig) (reached : Reachable config.model)
    (limits : LoadLimits) (nodes : (contents config.model).size ≤ limits.maxNodes) :
    (∀ json : NlohmannJson, (∀ doc, JsonInterface.document config = .ok doc → Dumps json doc) →
      (∀ text, saveFile (JsonInterface.save json) config = (.ok (), text) →
        text.length ≤ limits.maxInputBytes) →
      Stable (interfaceBackend (JsonInterface.load json ⟨limits⟩) (JsonInterface.save json))
        config) ∧
    ∀ (pugi : PugiXml) (float : FloatText), ExactFloats float →
      (∀ doc, XmlInterface.document float config = .ok doc → Rereads pugi doc) →
      (∀ text, saveFile (XmlInterface.save pugi float) config = (.ok (), text) →
        text.length ≤ limits.maxInputBytes) →
      Stable (interfaceBackend (XmlInterface.load pugi float ⟨limits⟩)
        (XmlInterface.save pugi float)) config := by
  constructor
  · intro json dumps within
    have stores := json_stores json config reached dumps {} ⟨rfl, rfl⟩
    exact interfaceBackend_stable (bytes "JSON") stores limits (json_load json ⟨limits⟩) nodes within
  · intro pugi float floats rereads within
    have stores := xml_stores pugi float floats config reached rereads {} ⟨rfl, rfl⟩
    exact interfaceBackend_stable (bytes "XML") stores limits (xml_load pugi float ⟨limits⟩) nodes
      within

/-! ## The capture -/

/-- Nothing on the disk stands against a capture of the text: no call fails, nothing is refused
inspection, and the checkpoint's own name and the temporary ones are free. -/
structure Undisturbed (store : CheckpointStore) (version : VersionId) (text : Bytes) (d : Disk) :
    Prop where
  calm : Calm (text.length + 105) d
  inspected : ∀ path, d.inspection path = none
  regular : ∀ node, d.file (store.destination version) = some node → ∃ r, node.regular = .ok r
  plain : store.destination version ∉ d.directories
  left : NamesLeft (store.destination version) d

theorem readFileBytes_holds (message : Errno → Bytes) (path : FsPath) (maxBytes : Nat) (d : Disk)
    (text : Bytes) (held : FileHolds d path text) :
    readFileBytes (diskSystem message) path maxBytes d =
      if maxBytes < text.length then sizeLimitError path maxBytes else .ok text := by
  obtain ⟨time, found⟩ := held
  have opened : (diskSystem message).openFile path d = some ⟨text, true⟩ := by
    change Disk.openFile path d = _
    rw [Disk.openFile, found]
    rfl
  rw [readFileBytes, opened]
  simp only [readLoop_eq path maxBytes true text [] (Nat.zero_le _), List.nil_append,
    Bool.not_true, Bool.false_eq_true, if_false]

theorem status_found (d : Disk) (path : FsPath) (inspected : d.inspection path = none)
    (regular : ∀ node, d.file path = some node → ∃ r, node.regular = .ok r) :
    ∃ found, d.status path = .ok found := by
  rw [Disk.status, inspected]
  cases there : d.file path with
  | none => exact ⟨_, rfl⟩
  | some node =>
    obtain ⟨r, reported⟩ := regular node there
    simp only [reported]
    exact ⟨true, rfl⟩

theorem holds_regular (d : Disk) (path : FsPath) (text : Bytes) (held : FileHolds d path text) :
    ∀ node, d.file path = some node → ∃ r, node.regular = .ok r := by
  obtain ⟨time, found⟩ := held
  intro node there
  rw [found] at there
  cases there
  exact ⟨true, rfl⟩

/-- Within the limit an undisturbed capture puts the canonical bytes in place. -/
theorem cpCapture_undisturbed (message : Errno → Bytes) (store : CheckpointStore)
    (config loaded : VersionedConfig) (backend : Backend σ) (state state' : σ) (d : Disk)
    (text : Bytes) (held : FileHolds d store.options.canonicalPath text)
    (within : text.length ≤ store.options.maxFileBytes)
    (loads : loadBytes backend text state = (.ok loaded, state'))
    (version : loaded.version = config.version)
    (free : Undisturbed store config.version text d) :
    ∃ d', cpCapture (diskSystem message) store config backend state d =
      (some (.ok ()), state', d') := by
  have read := readFileBytes_holds message _ store.options.maxFileBytes d text held
  rw [if_neg (Nat.not_lt.mpr within)] at read
  have captured : captureBytes (diskSystem message) store config backend state d =
      (.ok text, state') := by
    rw [captureBytes, read]
    simp only [loads, version, ne_eq, not_true_eq_false, if_false]
  obtain ⟨middle, created, calm, same, placed⟩ := createDirectories_calm message
    store.options.checkpointDirectory (0 + text.length + 104) d (free.calm.shorten (by omega))
  have left : NamesLeft (store.destination config.version) middle := by
    obtain ⟨names, few, covers⟩ := free.left
    refine ⟨names, few, fun path temporary taken => covers path temporary ?_⟩
    rcases taken with there | inside
    · rw [same.file path not_false] at there
      exact .inl there
    · rw [placed, List.mem_cons] at inside
      obtain ⟨ticks, sequence, rfl⟩ := temporary
      exact .inr (inside.resolve_left (temporary_ne_directory _ _ ticks sequence))
  have plain : store.destination config.version ∉ middle.directories := by
    rw [placed, List.mem_cons, not_or]
    exact ⟨child_ne _ _ (checkpointFilename_ne_nil _ _), free.plain⟩
  have inspected : ∀ path, middle.inspection path = none := by
    rw [same.inspection]
    exact free.inspected
  obtain ⟨found, status⟩ := status_found middle _ (inspected (store.destination config.version))
    (by rw [same.file _ not_false]; exact free.regular)
  obtain ⟨present, status'⟩ := status_found middle _ (inspected store.options.canonicalPath)
    (by rw [same.file _ not_false]; exact holds_regular d _ text held)
  obtain ⟨b, sourced⟩ : ∃ b, middle.status (if found = true then
      store.destination config.version else store.options.canonicalPath) = .ok b := by
    cases found
    · exact ⟨present, status'⟩
    · exact ⟨true, status⟩
  obtain ⟨d', ran, _⟩ := writeAndReplace_calm message _ 0 text _ middle b sourced left plain calm
  have exists_ : (diskSystem message).fileExists (store.destination config.version) middle =
      .ok found := status
  refine ⟨d', ?_⟩
  rw [cpCapture, captured]
  simp only [created, exists_, ran]

/-- A capture after a commit by the same backend, on a disk where only the process wrote, succeeds
when the saved text is within the size limit, and otherwise is refused and changes nothing. -/
theorem committed_captured (message : Errno → Bytes) (store : CheckpointStore)
    (config : VersionedConfig) (backend : Backend σ) (stable : Stable backend config)
    (state state' : σ) (d d' : Disk)
    (committed : cpCommit (diskSystem message) store config backend state d =
      (some (.ok ()), state', d')) :
    ∃ text, saveBytes backend config state = (.ok text, state') ∧
      FileHolds d' store.options.canonicalPath text ∧
      ∀ later d₁, d₁.files = d'.files →
        (text.length ≤ store.options.maxFileBytes → Undisturbed store config.version text d₁ →
          ∃ later' d₂, cpCapture (diskSystem message) store config backend later d₁ =
            (some (.ok ()), later', d₂) ∧ FileHolds d₂ (store.destination config.version) text) ∧
        (store.options.maxFileBytes < text.length →
          cpCapture (diskSystem message) store config backend later d₁ =
            (some (sizeLimitError store.options.canonicalPath store.options.maxFileBytes),
              later, d₁)) := by
  rcases cpCommit_spec message store config backend state state' d d' _ committed with
    ⟨_, ⟨text, saved, held⟩, _⟩ | ⟨unsuccessful, _⟩
  · refine ⟨text, saved, held, fun later d₁ unwritten => ?_⟩
    have held₁ : FileHolds d₁ store.options.canonicalPath text := by
      obtain ⟨time, found⟩ := held
      refine ⟨time, ?_⟩
      rw [Disk.file, unwritten]
      exact found
    constructor
    · intro within free
      cases accepted : loadBytes backend text later with
      | mk result later' =>
        obtain ⟨again, loads, version, _⟩ := stable state text state' saved later
        rw [accepted] at loads
        cases loads
        obtain ⟨d₂, captured⟩ := cpCapture_undisturbed message store config again backend later
          later' d₁ text held₁ within accepted version free
        refine ⟨later', d₂, captured, ?_⟩
        rcases cpCapture_spec message store config backend later later' d₁ d₂ _ captured with
          ⟨_, ⟨text', read, complete⟩, _⟩ | ⟨unsuccessful, _⟩
        · obtain ⟨_, ⟨node, found, rfl⟩, _⟩ :=
            captureBytes_read message store config backend later later' d₁ text' read
          obtain ⟨time, found'⟩ := held₁
          rw [found] at found'
          cases found'
          exact complete
        · exact absurd rfl unsuccessful
    · intro large
      have read := readFileBytes_holds message _ store.options.maxFileBytes d₁ text held₁
      rw [if_pos large] at read
      have refused : captureBytes (diskSystem message) store config backend later d₁ =
          (sizeLimitError store.options.canonicalPath store.options.maxFileBytes, later) := by
        rw [captureBytes, read]
        rfl
      rw [cpCapture, refused]
      rfl
  · exact absurd rfl unsuccessful

/-! ## The small application again -/

/-- After a commit only the canonical file is there, so a system that fails no call is enough. -/
theorem commit_undisturbed (config : VersionedConfig) (backend : Backend Unit) (d d' : Disk)
    (committed : cpCommit (diskSystem natText) appStore config backend () d =
      (some (.ok ()), (), d'))
    (before : d.files = appDisk.files) (inspected : ∀ path, d.inspection path = none)
    (directories : d'.directories = [⟨true, [bytes "w"]⟩]) (version : VersionId) (text : Bytes)
    (schedule : List Answer) (calm : Calm (text.length + 105) { d' with schedule := schedule }) :
    Undisturbed appStore version text { d' with schedule := schedule } := by
  have touches : Touches (· = appStore.options.canonicalPath) d
      { d' with schedule := schedule } := by
    rcases cpCommit_spec natText appStore config backend () _ d d' _ committed with
      ⟨_, _, touches⟩ | ⟨unsuccessful, _⟩
    · exact touches.trans (.scheduled _ _ _)
    · exact absurd rfl unsuccessful
  -- Three names down is neither the canonical file nor a directory.
  have away : ∀ path : FsPath, path.elements.length = 3 →
      ¬ Taken { d' with schedule := schedule } path := by
    rintro path three (there | inside)
    · have other : path ≠ appStore.options.canonicalPath := by
        rintro rfl
        cases three
      have none : d.file path = none := by
        rw [Disk.file, before]
        exact AList.lookup_eq_none.mpr fun inside =>
          other (by simpa [appDisk, AList.mem_keys] using inside)
      rw [touches.file path other, none] at there
      cases there
    · rw [directories, List.mem_singleton] at inside
      rw [inside] at three
      cases three
  refine ⟨calm, fun path => ?_, fun node found => ?_, ?_, [], by decide,
    fun path temporary taken => ?_⟩
  · rw [touches.inspection]
    exact inspected path
  · exact absurd (.inl (by rw [found]; rfl)) (away _ rfl)
  · exact fun inside => away _ rfl (.inr inside)
  · obtain ⟨ticks, sequence, rfl⟩ := temporary
    exact absurd taken (away _ rfl)

/-- `sampleModel` by way of other members: the slots of what was replaced are free. -/
def editedModel : ConfigModel :=
  ((((ConfigModel.empty.set (bytes "old.a") (ConfigValue.of (.int 1))).2.set (bytes "n")
    (ConfigValue.of (.int (-42)))).2.remove (bytes "old")).2.set (bytes "s")
      (ConfigValue.of (.string (bytes "two")))).2

def jsonBackend : Backend Unit :=
  interfaceBackend (JsonInterface.load sampleJson {}) (JsonInterface.save sampleJson)

theorem editedModel_stable : Stable jsonBackend ⟨3, editedModel⟩ := by
  have reached : Reachable editedModel := .set _ _ ⟨_, by decide⟩ (.remove _ _
    (.set _ _ ⟨_, by decide⟩ (.set _ _ ⟨_, by decide⟩ .empty)))
  refine (formats_stable ⟨3, editedModel⟩ reached {} (by decide)).1 sampleJson
    (sampleJson_dumps _ rfl) fun text saved => ?_
  cases saved
  decide

/-- The disk as shipped, with a system that goes on for longer. -/
def longDisk : Disk :=
  { appDisk with schedule := List.replicate 40 { count := 3, ticks := 7, time := 9 } }

theorem editedModel_commits :
    (cpCommit (diskSystem natText) appStore ⟨3, editedModel⟩ jsonBackend () longDisk).1 =
      some (.ok ()) := by decide +kernel

/-- The disk after that commit, with a system that fails no call. -/
def editedDisk : Disk :=
  { (cpCommit (diskSystem natText) appStore ⟨3, editedModel⟩ jsonBackend () longDisk).2.2 with
    schedule := List.replicate 160 { count := 3, ticks := 8, time := 12 } }

/-- The bytes committed of an edited model are captured. -/
theorem editedDisk_captured :
    ∃ state d, cpCapture (diskSystem natText) appStore ⟨3, editedModel⟩ jsonBackend () editedDisk =
        (some (.ok ()), state, d) ∧ FileHolds d (appStore.destination 3) (sampleText ++ [10]) := by
  have committed : cpCommit (diskSystem natText) appStore ⟨3, editedModel⟩ jsonBackend () longDisk =
      (some (.ok ()), (),
        (cpCommit (diskSystem natText) appStore ⟨3, editedModel⟩ jsonBackend () longDisk).2.2) := by
    rw [← editedModel_commits]
  obtain ⟨text, saved, _, again⟩ := committed_captured natText appStore ⟨3, editedModel⟩ jsonBackend
    editedModel_stable () () longDisk _ committed
  cases saved
  refine (again () editedDisk rfl).1 (by decide) ?_
  refine commit_undisturbed ⟨3, editedModel⟩ jsonBackend longDisk _ committed rfl (fun _ => rfl)
    (by decide +kernel) 3 (sampleText ++ [10]) _ ⟨by decide +kernel, fun answer inside => ?_⟩
  rw [List.eq_of_mem_replicate inside]
  exact ⟨rfl, by decide⟩

/-- What `numberBackend` saves of a config without members loads as an empty model. -/
theorem numberBackend_stable : Stable numberBackend ⟨1, ConfigModel.empty⟩ := by
  intro state text state' saved later
  have written : saveBytes numberBackend ⟨1, ConfigModel.empty⟩ state = (.ok (bytes "1\n"), state) :=
    rfl
  rw [written] at saved
  cases saved
  exact ⟨⟨1, ConfigModel.empty⟩, rfl, rfl, rfl⟩

theorem empty_commits :
    (cpCommit (diskSystem natText) appStore ⟨1, ConfigModel.empty⟩ numberBackend () appDisk).1 =
      some (.ok ()) := by decide +kernel

/-- The disk after a commit, with a system that fails no call. -/
def committedDisk : Disk :=
  { (cpCommit (diskSystem natText) appStore ⟨1, ConfigModel.empty⟩ numberBackend () appDisk).2.2 with
    schedule := List.replicate 120 { count := 3, ticks := 8, time := 12 } }

theorem committedDisk_undisturbed : Undisturbed appStore 1 (bytes "1\n") committedDisk := by
  refine commit_undisturbed ⟨1, ConfigModel.empty⟩ numberBackend appDisk _
    (by rw [← empty_commits]) rfl (fun _ => rfl) (by decide +kernel) 1 _ _
    ⟨by decide, fun answer inside => ?_⟩
  rw [List.eq_of_mem_replicate inside]
  exact ⟨rfl, by decide⟩

/-- With a limit of one byte the same commit succeeds, and nothing but the limit stands against
the capture. -/
theorem tight_limit_blocks_capture :
    let store : CheckpointStore := ⟨{ appStore.options with maxFileBytes := 1 }⟩
    let config : VersionedConfig := ⟨1, ConfigModel.empty⟩
    let committed := cpCommit (diskSystem natText) store config numberBackend () appDisk
    Stable numberBackend config ∧ committed.1 = some (.ok ()) ∧
      committedDisk.files = committed.2.2.files ∧
      Undisturbed store 1 (bytes "1\n") committedDisk ∧
      (cpCapture (diskSystem natText) store config numberBackend () committedDisk).1 ≠
        some (.ok ()) := by
  obtain ⟨calm, inspected, regular, plain, left⟩ := committedDisk_undisturbed
  exact ⟨numberBackend_stable, by decide +kernel, rfl, ⟨calm, inspected, regular, plain, left⟩,
    by decide +kernel⟩

end ConfigManager.Guarantees
