import ConfigManager.Refinement.CheckpointNames
import ConfigManager.Refinement.CheckpointReading
import ConfigManager.Refinement.TemporaryFiles

/-!
# Captures and commits are atomic

For every disk and every schedule, which says for each call whether it fails, how
much a write takes and where the process stops: the canonical file and every
checkpoint hold their old content or the complete new one.
-/

set_option autoImplicit false

namespace ConfigManager.Guarantees
open Library Source Reference Refinement

variable {σ : Type}

/-- The canonical file is not in the checkpoint directory, nor in the directory that the
parent of a checkpoint names. -/
def Outside (store : CheckpointStore) : Prop :=
  ∀ name, store.options.canonicalPath ≠ store.options.checkpointDirectory.child name ∧
    store.options.canonicalPath ≠
      (parentOrCurrent (store.options.checkpointDirectory.child [])).child name

theorem checkpoint_not_temporary (store : CheckpointStore) (path destination : FsPath)
    (checkpoint : IsCheckpoint store path) : ¬ IsTemporary destination path := by
  rintro ⟨ticks, sequence, rfl⟩
  rw [IsCheckpoint, temporary_not_checkpoint] at checkpoint
  cases checkpoint.2

/-- What a capture verified are the bytes of the canonical file. -/
theorem captureBytes_read (message : Errno → Bytes) (store : CheckpointStore)
    (config : VersionedConfig) (backend : Backend σ) (state state' : σ) (d : Disk) (text : Bytes)
    (captured : captureBytes (diskSystem message) store config backend state d =
      (.ok text, state')) :
    text.length ≤ store.options.maxFileBytes ∧
      (∃ node, d.file store.options.canonicalPath = some node ∧ node.bytes = text) ∧
      ∃ loaded, loadBytes backend text state = (.ok loaded, state') ∧
        loaded.version = config.version := by
  unfold captureBytes at captured
  cases read : readFileBytes (diskSystem message) store.options.canonicalPath
    store.options.maxFileBytes d with
  | error e => simp [read] at captured
  | ok content =>
    rw [read] at captured
    simp only at captured
    split at captured
    · cases captured
    · next loaded state'' accepted =>
      split at captured
      · simp [fail] at captured
      · next agrees =>
        cases captured
        obtain ⟨opened, within⟩ := (readFileBytes_ok _ _ _ d text).mp read
        refine ⟨within, ?_, loaded, accepted, not_not.mp agrees⟩
        change Disk.openFile _ d = _ at opened
        unfold Disk.openFile at opened
        split at opened
        · cases opened
        · next node found =>
          split at opened
          · simp only [Option.some.injEq, FileSource.mk.injEq] at opened
            exact ⟨node, found, opened.1⟩
          · cases opened

theorem capture_and_commit_atomic (message : Errno → Bytes) (store : CheckpointStore)
    (outside : Outside store) (config : VersionedConfig) (backend : Backend σ) (state state' : σ)
    (d d' : Disk) (answer : Option (Result Unit)) :
    (cpCapture (diskSystem message) store config backend state d = (answer, state', d') →
      d'.file store.options.canonicalPath = d.file store.options.canonicalPath ∧
      (∀ path, IsCheckpoint store path → d'.file path = d.file path ∨
        (path = store.destination config.version ∧
          ∃ node, d.file store.options.canonicalPath = some node ∧ FileHolds d' path node.bytes)) ∧
      ((∃ e, answer = some (.error e)) →
        ∀ path, IsCheckpoint store path → d'.file path = d.file path) ∧
      (answer = some (.ok ()) →
        ∃ node, d.file store.options.canonicalPath = some node ∧
          FileHolds d' (store.destination config.version) node.bytes)) ∧
    (cpCommit (diskSystem message) store config backend state d = (answer, state', d') →
      (d'.file store.options.canonicalPath = d.file store.options.canonicalPath ∨
        ∃ text, saveBytes backend config state = (.ok text, state') ∧
          FileHolds d' store.options.canonicalPath text) ∧
      (∀ path, IsCheckpoint store path → d'.file path = d.file path) ∧
      ((∃ e, answer = some (.error e)) →
        d'.file store.options.canonicalPath = d.file store.options.canonicalPath) ∧
      (answer = some (.ok ()) →
        ∃ text, saveBytes backend config state = (.ok text, state') ∧
          FileHolds d' store.options.canonicalPath text)) := by
  constructor
  · intro ran
    have distinct : store.options.canonicalPath ≠ store.destination config.version :=
      (outside _).1
    have apart : ¬ NewTemporary (store.destination config.version) d
        store.options.canonicalPath := by
      rintro ⟨⟨ticks, sequence, same⟩, _⟩
      obtain ⟨name, beside⟩ := temporary_beside store.options.checkpointDirectory
        (checkpointFilename config.version store.options.canonicalPath.extension) ticks sequence
      exact (outside name).2 (same.trans beside)
    rcases cpCapture_spec message store config backend state state' d d' answer ran with
      ⟨rfl, ⟨text, captured, held⟩, touches, _⟩ | ⟨unsuccessful, touches⟩
    · obtain ⟨_, ⟨node, found, rfl⟩, _⟩ :=
        captureBytes_read message store config backend state state' d text captured
      refine ⟨touches.file _ distinct, fun path _ => ?_, by simp, fun _ => ⟨node, found, held⟩⟩
      by_cases here : path = store.destination config.version
      · exact .inr ⟨here, node, found, here ▸ held⟩
      · exact .inl (touches.file path here)
    · have kept : ∀ path, IsCheckpoint store path → d'.file path = d.file path :=
        fun path checkpoint => touches.file path fun new =>
          checkpoint_not_temporary store path _ checkpoint new.1
      exact ⟨touches.file _ apart, fun path checkpoint => .inl (kept path checkpoint),
        fun _ => kept, fun success => absurd success unsuccessful⟩
  · intro ran
    rcases cpCommit_spec message store config backend state state' d d' answer ran with
      ⟨rfl, ⟨text, saved, held⟩, touches⟩ | ⟨unsuccessful, touches⟩
    · refine ⟨.inr ⟨text, saved, held⟩, fun path checkpoint => touches.file path fun same => ?_,
        by simp, fun _ => ⟨text, saved, held⟩⟩
      exact (outside path.filename).1 (same.symm.trans checkpoint.1)
    · have kept : d'.file store.options.canonicalPath = d.file store.options.canonicalPath :=
        touches.file _ fun ⟨⟨ticks, sequence, same⟩, _⟩ => temporary_ne _ ticks sequence same.symm
      exact ⟨.inl kept, fun path checkpoint => touches.file path fun new =>
        checkpoint_not_temporary store path _ checkpoint new.1, fun _ => kept,
        fun success => absurd success unsuccessful⟩

/-! ## A small application -/

/-- A document is its version, followed by anything. -/
def numberBackend : Backend Unit where
  load text state :=
    let digits := text.takeWhile isDigit
    if fits : digits ≠ [] ∧ digitsValue digits < 2 ^ 32 then
      (.returned (.ok ⟨⟨digitsValue digits, fits.2⟩, ConfigModel.empty⟩), state)
    else (.returned (fail .parseError (bytes "not a number")), state)
  save config state :=
    (.returned (.ok ()), { written := versionText config.version ++ [10] }, state)

def appStore : CheckpointStore where
  options := {
    canonicalPath := ⟨true, [bytes "w", bytes "app.cfg"]⟩
    checkpointDirectory := ⟨true, [bytes "w", bytes "checkpoints"]⟩ }

theorem appStore_outside : Outside appStore := by
  refine fun name => ⟨fun same => ?_, fun same => ?_⟩
  · have lengths := congrArg (fun path => path.elements.length) same
    have three : (appStore.options.checkpointDirectory.child name).elements.length = 3 := rfl
    rw [three] at lengths
    cases lengths
  · have lengths := congrArg (fun path => path.elements.length) same
    have three : ((parentOrCurrent (appStore.options.checkpointDirectory.child [])).child
        name).elements.length = 3 := rfl
    rw [three] at lengths
    cases lengths

/-- A system that fails no call, writes three bytes at a time and stops after 20 calls. -/
def appDisk : Disk where
  files := AList.singleton appStore.options.canonicalPath
    { bytes := bytes "1 # as shipped", modified := .ok 5 }
  directories := []
  inspection _ := none
  enumeration _ := none
  schedule := List.replicate 20 { count := 3, ticks := 7, time := 9 }
  sequence := 0

theorem appDisk_captured :
    ∃ node, appDisk.file appStore.options.canonicalPath = some node ∧
      FileHolds (cpCapture (diskSystem natText) appStore ⟨1, ConfigModel.empty⟩ numberBackend ()
        appDisk).2.2 (appStore.destination 1) node.bytes :=
  ((capture_and_commit_atomic natText appStore appStore_outside ⟨1, ConfigModel.empty⟩
    numberBackend () _ appDisk _ _).1 rfl).2.2.2 (by decide +kernel)

end ConfigManager.Guarantees
