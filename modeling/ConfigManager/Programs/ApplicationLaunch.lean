import ConfigManager.Refinement.StoredConfigs
import ConfigManager.Source.ConfigRuntime

/-!
# The start of an application (examples/03_relaygate_lifecycle.cpp, 04_sensorbridge_xml.cpp)

Both programs start alike and differ in the backend: without a file they save
the defaults, a file from the future they leave alone, and any other file they
load, synchronize and save. The file is a parameter, `none` while there is none.
-/

set_option autoImplicit false

namespace ConfigManager.Programs
open Source Refinement

variable {σ : Type}

abbrev Loads := InputStream → Result VersionedConfig × InputStream

abbrev Saves := VersionedConfig → OutputStream → Result Unit × OutputStream

namespace Application

/-- `std::ifstream` on a file with this text. -/
def fileStream (text : Bytes) : InputStream := { buffer := some (if text.isEmpty then [] else [text]) }

def loadFile (load : Loads) (file : Option Bytes) : Result VersionedConfig :=
  match file with
  | none => fail .parseError (bytes "cannot open the file for reading")
  | some text => (load (fileStream text)).1

/-- `std::ofstream` has emptied the file before `save` writes to it. -/
def saveFile (save : Saves) (config : VersionedConfig) : Result Unit × Bytes :=
  let (answer, out) := save config {}
  (answer, out.written)

/-- The config that the start ends up with, or `none` when it refuses to downgrade. -/
def prepare (load : Loads) (runtime : ConfigRuntime σ) (supported : VersionId) (file : Option Bytes)
    (world : World σ) : Result (Option VersionedConfig) × World σ :=
  match file with
  | none =>
      match runtime.createDefault supported world with
      | (.error e, world) => (.error e, world)
      | (.ok config, world) => (.ok (some config), world)
  | some text =>
      match loadFile load (some text) with
      | .error e => (.error e, world)
      | .ok config =>
          match runtime.synchronize config supported world with
          | (.error e, _, world) => (.error e, world)
          | (.ok .downgradeRequired, _, world) => (.ok none, world)
          | (.ok _, config, world) => (.ok (some config), world)

/-- One start, with what the file holds after it. -/
def launch (load : Loads) (save : Saves) (runtime : ConfigRuntime σ) (supported : VersionId)
    (file : Option Bytes) (world : World σ) : Result Unit × Option Bytes × World σ :=
  match prepare load runtime supported file world with
  | (.error e, world) => (.error e, file, world)
  | (.ok none, world) => (.ok (), file, world)
  | (.ok (some config), world) =>
      let (answer, written) := saveFile save config
      (answer, some written, world)

/-! ## The file of a start -/

theorem fileStream_delivers (text : Bytes) : (fileStream text).Delivers text := by
  unfold fileStream InputStream.Delivers
  by_cases empty : text = []
  · subst empty
    exact ⟨[], rfl, rfl, by simp⟩
  · refine ⟨[text], by simp [empty], by simp, by simpa using empty⟩

/-- What was saved to a file is the text that loads again. -/
theorem saveFile_loads {decode : LoadLimits → Bytes → Result VersionedConfig} {c : VersionedConfig}
    {writable : Prop} (save : Saves) (stores : Stores decode c writable {} (save c {})) (text : Bytes)
    (saved : saveFile save c = (.ok (), text)) : LoadsAs decode text c := by
  rw [saveFile] at saved
  generalize save c {} = ended at stores saved
  obtain ⟨answer, out⟩ := ended
  cases saved
  obtain ⟨text, written, loads⟩ := stores.text out rfl
  rw [written]
  exact loads

theorem saveFile_succeeds {decode : LoadLimits → Bytes → Result VersionedConfig}
    {c : VersionedConfig} {writable : Prop} (save : Saves)
    (stores : Stores decode c writable {} (save c {})) :
    (saveFile save c).1 = .ok () ↔ writable := stores.succeeds

/-- A saved text within the limits loads as the version and the tree that were saved. -/
theorem loadWith_saved (format : Bytes) {decode : LoadLimits → Bytes → Result VersionedConfig}
    {c : VersionedConfig} {writable : Prop} (save : Saves)
    (stores : Stores decode c writable {} (save c {})) (limits : LoadLimits)
    (nodes : (contents c.model).size ≤ limits.maxNodes) (text : Bytes)
    (within : text.length ≤ limits.maxInputBytes) (saved : saveFile save c = (.ok (), text)) :
    ∃ c', loadWith format decode limits (fileStream text) = .ok c' ∧ c'.version = c.version ∧
      contents c'.model = contents c.model := by
  obtain ⟨c', loaded, version, same⟩ := saveFile_loads save stores text saved limits nodes
  refine ⟨c', ?_, version, same⟩
  rw [loadWith_within format decode limits (fileStream text) text (fileStream_delivers text) within]
  exact loaded

end Application

end ConfigManager.Programs
