import ConfigManager.Guarantees.CheckpointRestore
import ConfigManager.Guarantees.CommittedCapture
import ConfigManager.Guarantees.FirmwareUpgrade

/-!
# Older firmware restores

A rollback replaces the canonical file by the restored config or leaves it, and
leaves the checkpoints. After an upgrade, firmware between the two versions gets
from it what it would have made of the old file directly.
-/

set_option autoImplicit false

namespace ConfigManager.Guarantees
open Library Source Reference Refinement Programs

variable {σ : Type}

/-- What is saved of the config loads again with its version and contents. -/
def LoadsBack (backend : Backend σ) (config : VersionedConfig) : Prop :=
  ∀ state text state', saveBytes backend config state = (.ok text, state') →
    ∃ again, again.version = config.version ∧ contents again.model = contents config.model ∧
      ∀ later, (loadBytes backend text later).1 = .ok again

/-- How a rollback ends. -/
inductive RollbackStage (message : Errno → Bytes) (store : CheckpointStore) (backend : Backend σ)
    (runtime : ConfigRuntime σ) (supported : VersionId) (accepts : PreparedRestore → Bool) (d : Disk)
    (answer : Halt VersionedConfig) (d' : Disk) : Prop where
  | refused (unsuccessful : ∀ c, answer ≠ some (.ok c))
      (canonical : d'.file store.options.canonicalPath = d.file store.options.canonicalPath)
  | restored (search : RestoreSearch) (restore : PreparedRestore) (world world' : World σ)
      (prepared : cpPrepareRestore (diskSystem message) store backend runtime supported d world =
        (.ok search, world')) (found : search.candidate = some restore)
      (accepted : accepts restore = true) (saved : Bytes) (state state' : σ)
      (serialized : saveBytes backend restore.config state = (.ok saved, state'))
      (canonical : FileHolds d' store.options.canonicalPath saved)
      (success : ∀ c, answer = some (.ok c) → c.version = supported ∧
        CanonicalHolds store backend d' saved c)

theorem rollback_stages (message : Errno → Bytes) (store : CheckpointStore)
    (outside : Outside store) (backend : Backend σ) (only : BytesOnly backend)
    (runtime : ConfigRuntime σ) (supported : VersionId) (accepts : PreparedRestore → Bool)
    (world world' : World σ) (d d' : Disk) (answer : Halt VersionedConfig)
    (ran : rollBackFirmware (diskSystem message) store backend runtime supported accepts d world =
      (answer, d', world')) :
    (∀ path, IsCheckpoint store path → d'.file path = d.file path) ∧
      RollbackStage message store backend runtime supported accepts d answer d' := by
  have unchanged : (∀ c, answer ≠ some (.ok c)) → d' = d →
      (∀ path, IsCheckpoint store path → d'.file path = d.file path) ∧
        RollbackStage message store backend runtime supported accepts d answer d' := by
    rintro unsuccessful rfl
    exact ⟨fun _ _ => rfl, .refused unsuccessful rfl⟩
  rw [rollBackFirmware] at ran
  split at ran
  · cases ran
    exact unchanged (by simp) rfl
  next config state opened =>
  split at ran
  · cases ran
    exact unchanged (by simp [orDie, Except.mapError]) rfl
  next downgrade _ world₁ synchronizing =>
  split at ran
  · cases ran
    exact unchanged (by simp) rfl
  split at ran
  · cases ran
    exact unchanged (by simp [orDie, Except.mapError]) rfl
  · cases ran
    exact unchanged (by simp) rfl
  next restore rejected world₂ preparing =>
  split at ran
  · cases ran
    exact unchanged (by simp) rfl
  next accepted =>
  rw [Bool.not_eq_true, Bool.not_eq_false'] at accepted
  cases committing : cpCommit (diskSystem message) store restore.config backend world₂.callbacks d with
  | mk committed rest =>
  obtain ⟨state₃, d₃⟩ := rest
  rw [committing] at ran
  have unfinished : committed ≠ some (.ok ()) → (∀ c, answer ≠ some (.ok c)) → d' = d₃ →
      (∀ path, IsCheckpoint store path → d'.file path = d.file path) ∧
        RollbackStage message store backend runtime supported accepts d answer d' := by
    rintro unsuccessful unanswered rfl
    obtain ⟨same, spared⟩ := commit_unsuccessful message store restore.config backend _ _ d d' _
      unsuccessful committing
    exact ⟨spared, .refused unanswered same⟩
  rcases committed with _ | (e | ⟨⟩)
  · cases ran
    exact unfinished (by simp) (by simp) rfl
  · cases ran
    exact unfinished (by simp) (by simp [orDie, Except.mapError]) rfl
  simp only at ran
  rcases cpCommit_spec message store restore.config backend _ _ d d₃ _ committing with
    ⟨_, made, touches⟩ | ⟨unsuccessful, _⟩
  swap
  · exact absurd rfl unsuccessful
  obtain ⟨saved, serialized, complete⟩ := made
  have spared : ∀ path, IsCheckpoint store path → d₃.file path = d.file path :=
    fun path checkpoint => touches.file path (canonical_apart store outside path checkpoint)
  split at ran
  · cases ran
    exact ⟨spared, .restored _ restore world₁ world₂ preparing rfl accepted saved _ _ serialized
      complete (by simp)⟩
  next again state₄ reopened =>
  split at ran
  · cases ran
    exact ⟨spared, .restored _ restore world₁ world₂ preparing rfl accepted saved _ _ serialized
      complete (by simp)⟩
  next current =>
  cases ran
  refine ⟨spared, .restored _ restore world₁ world₂ preparing rfl accepted saved _ _ serialized
    complete fun c success => ?_⟩
  obtain rfl : again = c := by simpa using success
  obtain ⟨text, held⟩ := loadFile_holds message store backend only _ _ _ again reopened
  obtain ⟨node, found, same⟩ := held.present
  obtain ⟨time, there⟩ := complete
  rw [there] at found
  cases found
  obtain rfl : saved = text := same
  exact ⟨not_not.mp current, held⟩

/-! ## The search finds the way back -/

/-- A file that the process wrote opens, and loads as what its bytes load as. -/
theorem loadFile_ok (message : Errno → Bytes) (store : CheckpointStore) (backend : Backend σ)
    (d : Disk) (text : Bytes) (config : VersionedConfig)
    (there : FileHolds d store.options.canonicalPath text)
    (loads : ∀ state, (loadBytes backend text state).1 = .ok config) (state : σ) :
    ∃ state', loadFile (diskSystem message) store.options.canonicalPath backend d state =
      (.ok config, state') := by
  obtain ⟨time, found⟩ := there
  have opened : (diskSystem message).openFile store.options.canonicalPath d = some ⟨text, true⟩ := by
    change Disk.openFile _ d = _
    rw [Disk.openFile, found]
    rfl
  have answered := loads state
  rw [loadBytes] at answered
  rw [loadFile, opened]
  simp only [Bool.not_true, Bool.false_eq_true, if_false]
  cases loaded : backend.load text state with
  | mk outcome after =>
    rw [loaded] at answered
    cases outcome with
    | returned answer =>
      simp only at answered
      subst answered
      exact ⟨after, rfl⟩
    | threw what => simp [fail] at answered
    | threwOther => simp [fail] at answered

/-- The checkpoint directory is there and can be enumerated. -/
structure Enumerated (message : Errno → Bytes) (store : CheckpointStore) (d : Disk)
    (paths : List FsPath) : Prop where
  there : (diskSystem message).fileExists store.options.checkpointDirectory d = .ok true
  listed : checkpointFiles (diskSystem message) store d = .ok paths

section
variable (message : Errno → Bytes) (store : CheckpointStore) (backend : Backend σ)
  (only : BytesOnly backend) {d : Disk} {paths : List FsPath}
  (enumerated : Enumerated message store d paths) {text : Bytes} {config : VersionedConfig}
  (kept : FileHolds d (store.destination config.version) text)
  (loads : ∀ state, (loadBytes backend text state).1 = .ok config)
  (within : text.length ≤ store.options.maxFileBytes) {supported : VersionId}
  (fits : config.version ≤ supported)
include only enumerated kept loads within fits

/-- The way back is usable. -/
theorem wayBack_usable (state : σ) :
    ∃ time, (⟨store.destination config.version, config.version, time, config⟩ : LoadedCandidate) ∈
      usable (diskSystem message) supported
        (examine (diskSystem message) store backend d paths state).1 := by
  obtain ⟨time, found⟩ := kept
  obtain ⟨entry, recognised⟩ := destination_checkpoint store config.version
  have among : store.destination config.version ∈ paths := by
    rw [mem_checkpointFiles _ store d paths enumerated.listed, disk_entries]
    exact ⟨enumerated.there, ⟨entry, _, found, rfl⟩, recognised⟩
  have read : readFileBytes (diskSystem message) (store.destination config.version)
      store.options.maxFileBytes d = .ok text := by
    rw [readFileBytes_holds message _ _ d text ⟨time, found⟩, if_neg (by omega)]
  have dated : (diskSystem message).lastWriteTime (store.destination config.version) d = .ok time := by
    change Disk.lastWriteTime _ d = _
    rw [Disk.lastWriteTime, found]
  refine ⟨time, (mem_passed _ _ _).mpr ⟨(store.destination config.version, .ok (config, .ok time)),
    ?_, (candidateOf_ok _ _ _ _).mpr ⟨config, time, rfl, fits, rfl⟩⟩⟩
  rw [only.examine _ store d paths state state]
  refine List.mem_map.mpr ⟨_, among, ?_⟩
  have answered := loads state
  rw [examineFile, read]
  simp only
  cases loaded : loadBytes backend text state with
  | mk result after =>
    rw [loaded] at answered
    simp only at answered
    subst answered
    rw [dated]

/-- When every other checkpoint is of an older version or a newer one than the firmware's, the
search begins with the way back. -/
theorem wayBack_first
    (alone : ∀ path, IsCheckpoint store path → path ≠ store.destination config.version →
      ∀ node, d.file path = some node → ∀ other state,
        (loadBytes backend node.bytes state).1 = .ok other →
          other.version < config.version ∨ supported < other.version) (state : σ) :
    ∃ time rest, sortBy LoadedCandidate.before (usable (diskSystem message) supported
        (examine (diskSystem message) store backend d paths state).1) =
      ⟨store.destination config.version, config.version, time, config⟩ :: rest := by
  obtain ⟨time, inside⟩ := wayBack_usable message store backend only enumerated kept loads within
    fits state
  obtain ⟨once, entries⟩ := checkpointFiles_entries (disk_iterates message _ d) paths
    enumerated.listed
  set files := (examine (diskSystem message) store backend d paths state).1 with examined
  have names : files.map Prod.fst = paths := examine_paths _ store backend d paths state
  have apart : ((usable (diskSystem message) supported files).map LoadedCandidate.path).Nodup :=
    (passed_names (candidateOf (diskSystem message) supported) Prod.fst LoadedCandidate.path files
      (candidate_named _ _ _)).nodup (by rwa [names])
  have later : ∀ c ∈ usable (diskSystem message) supported files,
      c ≠ ⟨store.destination config.version, config.version, time, config⟩ →
        c.sourceVersion < config.version := by
    intro c member different
    have elsewhere : c.path ≠ store.destination config.version := fun same =>
      different (List.inj_on_of_nodup_map apart member inside same)
    obtain ⟨file, listed, judged⟩ := (mem_passed _ _ _).mp member
    obtain ⟨loaded, modified, outcome, bound, rfl⟩ := (candidateOf_ok _ _ file c).mp judged
    obtain ⟨path, _⟩ := file
    simp only at outcome
    subst outcome
    obtain ⟨_, content, before, after, readable, answered⟩ :=
      examine_loaded _ store backend d paths state path loaded _ listed
    have among : path ∈ paths := by
      rw [← names]
      exact List.mem_map_of_mem listed
    have checkpoint : IsCheckpoint store path :=
      ⟨entries path among, ((mem_checkpointFiles _ store d paths enumerated.listed path).mp among).2.2⟩
    obtain ⟨opened, _⟩ := readable
    change Disk.openFile path d = _ at opened
    rw [Disk.openFile] at opened
    split at opened
    · cases opened
    next node found =>
    split at opened
    · simp only [Option.some.injEq, FileSource.mk.injEq] at opened
      obtain ⟨rfl, _⟩ := opened
      rcases alone path checkpoint elsewhere node found loaded before (by rw [answered]) with
        below | above
      · exact below
      · exact absurd bound (not_le.mpr above)
    · cases opened
  cases order : sortBy LoadedCandidate.before (usable (diskSystem message) supported files) with
  | nil =>
    have sorted := (mem_sortBy LoadedCandidate.before _ _).mpr inside
    rw [order] at sorted
    cases sorted
  | cons first rest =>
    refine ⟨time, rest, ?_⟩
    congr 1
    by_contra different
    have member : first ∈ usable (diskSystem message) supported files := by
      rw [← mem_sortBy LoadedCandidate.before, order]
      exact List.mem_cons_self
    have least := candidate_ranks.head_least _ first rest order _ inside
    rw [← candidate_ranks.not_before, LoadedCandidate.before] at least
    have below := later first member different
    rw [if_pos (ne_of_gt below)] at least
    simp only [decide_eq_false_iff_not, gt_iff_lt, not_lt] at least
    exact absurd below (not_lt.mpr least)

end

/-! ## From the upgrade to the restored file -/

/-- Nothing on the disk stands against a commit of the text. -/
structure ReadyToCommit (store : CheckpointStore) (text : Bytes) (d : Disk) : Prop where
  calm : Calm (text.length + 105) d
  inspected : ∀ path, d.inspection path = none
  plain : store.options.canonicalPath ∉
    parentOrCurrent store.options.canonicalPath :: d.directories
  left : NamesLeft store.options.canonicalPath d

theorem cpCommit_ready (message : Errno → Bytes) (store : CheckpointStore)
    (config : VersionedConfig) (backend : Backend σ) (state state' : σ) (d : Disk)
    (before text : Bytes) (there : FileHolds d store.options.canonicalPath before)
    (saved : saveBytes backend config state = (.ok text, state'))
    (ready : ReadyToCommit store text d) :
    ∃ d', cpCommit (diskSystem message) store config backend state d =
      (some (.ok ()), state', d') := by
  obtain ⟨middle, created, calm, same, placed⟩ := createDirectories_calm message
    (parentOrCurrent store.options.canonicalPath) (0 + text.length + 104) d
    (ready.calm.shorten (by omega))
  have left : NamesLeft store.options.canonicalPath middle := by
    obtain ⟨names, few, covers⟩ := ready.left
    refine ⟨names, few, fun path temporary taken => covers path temporary ?_⟩
    rcases taken with file | inside
    · rw [same.file path not_false] at file
      exact .inl file
    · rw [placed, List.mem_cons] at inside
      obtain ⟨ticks, sequence, rfl⟩ := temporary
      refine .inr (inside.resolve_left ?_)
      obtain ⟨name, named, beside⟩ := temporary_name store.options.canonicalPath ticks sequence
      rw [beside]
      exact child_ne _ name named
  have plain : store.options.canonicalPath ∉ middle.directories := by
    rw [placed]
    exact ready.plain
  obtain ⟨found, status⟩ := status_found middle store.options.canonicalPath
    (by rw [same.inspection]; exact ready.inspected _)
    (by rw [same.file _ not_false]; exact holds_regular d _ before there)
  obtain ⟨d', ran, _⟩ := writeAndReplace_calm message _ 0 text _ middle found status left plain calm
  refine ⟨d', ?_⟩
  rw [cpCommit, saved]
  simp only [created, ran]

/-- Firmware that supports less than the file refuses it and leaves it. -/
theorem synchronize_newer (runtime : ConfigRuntime σ) (config : VersionedConfig)
    (supported : VersionId) (registered : runtime.supportsVersion supported = true)
    (newer : supported < config.version) (world : World σ) :
    runtime.synchronize config supported world = (.ok .downgradeRequired, config, world) := by
  have known : runtime.catalog.contains supported = true := registered
  have status := (inspect_downgrade_iff config supported).mpr newer
  rw [ConfigRuntime.synchronize, known]
  simp only [Bool.not_true, Bool.false_eq_true, if_false, status, if_true]

/-- A migration that changes nothing. -/
def keepModel : MigrationFn Unit where
  run m _ _ state := (.returned (.ok ()), m, state)
  closed _ _ _ _ reached := reached

theorem object_built : ConfigValue.KeysDistinct ConfigValue.object :=
  (ConfigValue.keysDistinct_object []).mpr ⟨List.nodup_nil, fun _ inside => (List.not_mem_nil inside).elim⟩

def noDefaults : DefaultFactory Unit where
  run state := (.returned ⟨ConfigValue.object, object_built⟩, state)

/-- Versions 1 and 2 without defaults. -/
def emptyVersions : ConfigRuntime Unit :=
  ⟨⟨[⟨1, noDefaults⟩, ⟨2, noDefaults⟩], by decide⟩, ⟨[⟨1, 2, keepModel⟩]⟩⟩

/-- What `numberBackend` saves of a config without members loads again. -/
theorem numberBackend_loadsBack (config : VersionedConfig)
    (bare : contents config.model = ConfigValue.object) : LoadsBack numberBackend config := by
  intro state text state' saved
  have written : text = versionText config.version ++ [10] := by
    simp only [saveBytes, numberBackend, Bool.false_eq_true, if_false, Prod.mk.injEq,
      Except.ok.injEq] at saved
    exact saved.1.symm
  have digits : (versionText config.version ++ [10]).takeWhile isDigit =
      versionText config.version := by
    rw [versionText, List.takeWhile_append_of_pos fun c inside => natText_isDigit _ c inside]
    simp [isDigit]
  have value : digitsValue (versionText config.version) = config.version.val := digitsValue_natText _
  have fits : versionText config.version ≠ [] ∧ digitsValue (versionText config.version) < 2 ^ 32 :=
    ⟨natText_ne_nil _, value ▸ config.version.isLt⟩
  refine ⟨⟨config.version, ConfigModel.empty⟩, rfl, ?_, fun later => ?_⟩
  · exact bare.symm
  · have loaded : numberBackend.load text later =
        (.returned (.ok ⟨config.version, ConfigModel.empty⟩), later) := by
      simp only [numberBackend, written, digits]
      rw [dif_pos fits]
      simp only [value, Fin.eta]
    rw [loadBytes_returned _ _ _ _ _ loaded]

/-- The disk after the small application has upgraded to version 2, restarted. -/
def upgradedDisk : Disk :=
  { (upgradeFirmware (diskSystem natText) appStore numberBackend emptyVersions 2 appDisk
      ⟨(), []⟩).2.1 with
    inspection _ := none
    schedule := List.replicate 120 { count := 3, ticks := 8, time := 12 } }

theorem upgradedDisk_ready : ReadyToCommit appStore (bytes "1\n") upgradedDisk where
  calm := by
    refine ⟨by decide +kernel, fun answer inside => ?_⟩
    rw [List.eq_of_mem_replicate inside]
    exact ⟨rfl, by decide⟩
  inspected _ := rfl
  plain := by decide +kernel
  left := by
    refine ⟨[], by decide, fun path temporary taken => ?_⟩
    obtain ⟨ticks, sequence, rfl⟩ := temporary
    have names : upgradedDisk.files.keys =
        [appStore.options.canonicalPath, appStore.destination 1] := by decide +kernel
    have directories : upgradedDisk.directories =
        [⟨true, [bytes "w"]⟩, appStore.options.checkpointDirectory] := by decide +kernel
    rcases taken with there | inside
    · have key : temporaryCandidate appStore.options.canonicalPath ticks sequence ∈
          upgradedDisk.files.keys := AList.mem_keys.mpr (AList.lookup_isSome.mp there)
      rw [names, List.mem_cons, List.mem_singleton] at key
      rcases key with same | same
      · exact absurd same (temporary_ne _ _ _)
      · have lengths := congrArg (fun path => path.elements.length) same
        cases lengths
    · rw [directories, List.mem_cons, List.mem_singleton] at inside
      rcases inside with same | same
      · have lengths := congrArg (fun path => path.elements.length) same
        cases lengths
      · have shorter := congrArg (fun path => path.filename.length) same
        simp only [temporaryCandidate, filename_child, List.length_append] at shorter
        have five : (bytes ".tmp.").length = 5 := rfl
        have seven : appStore.options.canonicalPath.filename.length = 7 := rfl
        have eleven : appStore.options.checkpointDirectory.filename.length = 11 := rfl
        have dot : (bytes ".").length = 1 := rfl
        omega

end ConfigManager.Guarantees
