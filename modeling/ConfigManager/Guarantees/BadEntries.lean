import ConfigManager.Guarantees.CheckpointRestore
import ConfigManager.Refinement.AdditionalEntry

/-!
# One bad entry in the checkpoint directory

A file that cannot be read, loaded or dated is rejected and changes nothing
else. An entry that does not tell its type ends the enumeration instead, and
with it every restore and every prune.
-/

set_option autoImplicit false

namespace ConfigManager.Guarantees
open Library Source Reference Refinement

variable {σ : Type}

/-- The entry fails at one of the stages, and loading it leaves the backend as it was. -/
structure FailsAlone (store : CheckpointStore) (backend : Backend σ) (node : FileNode) : Prop where
  fails : (∃ e, node.regular = .error e) ∨ node.opens = false ∨ node.sound = false ∨
    store.options.maxFileBytes < node.bytes.length ∨
    (∀ state, ∃ e, (loadBytes backend node.bytes state).1 = .error e) ∨ ∃ e, node.modified = .error e
  alone : ∀ state, (loadBytes backend node.bytes state).2 = state

/-- Both searches fail, or both succeed with the same candidate. -/
def RestoresAlike (extra : FsPath) : Result RestoreSearch → Result RestoreSearch → Prop
  | .ok search, .ok search' =>
      search'.candidate = search.candidate ∧ RejectsMore extra search.rejected search'.rejected
  | .error _, .error _ => True
  | _, _ => False

/-- Restoring and pruning do on `d'` what they do on `d`, and the extra entry stays. -/
def Isolated (message : Errno → Bytes) (store : CheckpointStore) (backend : Backend σ) (state : σ)
    (extra : FsPath) (node : FileNode) (d d' : Disk) : Prop :=
  (∀ (runtime : ConfigRuntime σ) (supported : VersionId) (events : List Event),
    RestoresAlike extra
      (cpPrepareRestore (diskSystem message) store backend runtime supported d ⟨state, events⟩).1
      (cpPrepareRestore (diskSystem message) store backend runtime supported d' ⟨state, events⟩).1) ∧
  ReportsAlike extra (cpPrune (diskSystem message) store backend state d).1
    (cpPrune (diskSystem message) store backend state d').1 ∧
  Follows extra node (cpPrune (diskSystem message) store backend state d).2.2
    (cpPrune (diskSystem message) store backend state d').2.2

/-- An entry that tells its type is refused by itself. -/
theorem FailsAlone.refused {store : CheckpointStore} {backend : Backend σ} {node : FileNode}
    (fails : FailsAlone store backend node) (message : Errno → Bytes) (regular : Bool)
    (typed : node.regular = .ok regular) (extra : FsPath) (d : Disk)
    (here : d.file extra = some node) : RefusedAlone message store backend extra d := by
  have opened : (diskSystem message).openFile extra d =
      if node.opens then some ⟨node.bytes, node.sound⟩ else none := by
    change Disk.openFile extra d = _
    rw [Disk.openFile, here]
  have dated : (diskSystem message).lastWriteTime extra d = node.modified := by
    change Disk.lastWriteTime extra d = _
    rw [Disk.lastWriteTime, here]
  cases read : readFileBytes (diskSystem message) extra store.options.maxFileBytes d with
  | error e =>
    have examined : ∀ state, examineFile (diskSystem message) store backend d extra state =
        ((extra, .error e), state) := fun state => by rw [examineFile, read]
    exact ⟨fun supported state => ⟨e, by rw [examined]; rfl⟩, fun state => ⟨e, by rw [examined]; rfl⟩,
      fun state => by rw [examined]⟩
  | ok text =>
    obtain ⟨whole, within⟩ := (readFileBytes_ok _ _ _ d text).mp read
    rw [opened] at whole
    split at whole
    · next opens =>
      simp only [Option.some.injEq, FileSource.mk.injEq] at whole
      obtain ⟨rfl, sound⟩ := whole
      have examined : ∀ state, ∃ outcome, examineFile (diskSystem message) store backend d extra
          state = ((extra, outcome), state) ∧
            ((∃ e, outcome = .error e) ∨ ∃ loaded e, outcome = .ok (loaded, .error e)) := by
        intro state
        have unchanged := fails.alone state
        rw [examineFile, read]
        cases answered : loadBytes backend node.bytes state with
        | mk result after =>
          rw [answered] at unchanged
          simp only at unchanged
          subst unchanged
          cases result with
          | error e => exact ⟨.error e, by simp only [answered], .inl ⟨e, rfl⟩⟩
          | ok loaded =>
            refine ⟨.ok (loaded, node.modified), by simp only [answered, dated], .inr ⟨loaded, ?_⟩⟩
            -- It opened, was read and loaded, so its time is what fails.
            rcases fails.fails with ⟨e, untyped⟩ | closed | broken | large | refused | ⟨e, undated⟩
            · rw [typed] at untyped
              cases untyped
            · rw [opens] at closed
              cases closed
            · rw [sound] at broken
              cases broken
            · omega
            · obtain ⟨e, failed⟩ := refused after
              rw [answered] at failed
              cases failed
            · exact ⟨e, by rw [undated]⟩
      refine ⟨fun supported state => ?_, fun state => ?_, fun state => ?_⟩
      · obtain ⟨outcome, ran, ⟨e, rfl⟩ | ⟨loaded, e, rfl⟩⟩ := examined state
        · exact ⟨e, by rw [ran]; rfl⟩
        · rw [ran]
          simp only [candidateOf]
          split
          · exact ⟨_, rfl⟩
          · exact ⟨_, rfl⟩
      · obtain ⟨outcome, ran, ⟨e, rfl⟩ | ⟨loaded, e, rfl⟩⟩ := examined state
        · exact ⟨e, by rw [ran]; rfl⟩
        · exact ⟨_, by rw [ran]; rfl⟩
      · obtain ⟨outcome, ran, _⟩ := examined state
        rw [ran]
    · cases whole

/-- Over the same candidates a search finds the same. -/
theorem searches_alike (runtime : ConfigRuntime σ) (supported : VersionId)
    (candidates : List LoadedCandidate) (extra : FsPath) (less more : List CheckpointRejection)
    (rejects : RejectsMore extra less more) (world : World σ) :
    RestoresAlike extra (.ok (tryCandidates runtime supported candidates less world).1)
      (.ok (tryCandidates runtime supported candidates more world).1) := by
  rw [tryCandidates_rejected runtime supported candidates less,
    tryCandidates_rejected runtime supported candidates more]
  exact ⟨rfl, rejects.append _⟩

section
variable {message : Errno → Bytes} {store : CheckpointStore} {backend : Backend σ}
  {extra : FsPath} {node : FileNode} {d d' : Disk} (beside : Beside extra node d d')
include beside

/-- When both directories cannot be enumerated, or are not there, nothing happens on either. -/
theorem isolated_unlisted (state : σ)
    (unlisted : (checkpointFiles (diskSystem message) store d = .ok [] ∧
        checkpointFiles (diskSystem message) store d' = .ok []) ∨
      ((∃ e, checkpointFiles (diskSystem message) store d = .error e) ∧
        ∃ e, checkpointFiles (diskSystem message) store d' = .error e)) :
    Isolated message store backend state extra node d d' := by
  rcases unlisted with ⟨listed, listed'⟩ | ⟨⟨e, failed⟩, e', failed'⟩
  · constructor
    · intro runtime supported events
      cases registered : runtime.supportsVersion supported with
      | false =>
        rw [cpPrepareRestore, cpPrepareRestore, registered]
        trivial
      | true =>
        rw [cpPrepareRestore_eq _ store backend runtime supported d _ registered _ listed,
          cpPrepareRestore_eq _ store backend runtime supported d' _ registered _ listed']
        exact ⟨rfl, .inl rfl⟩
    · rw [cpPrune_nothing _ store backend state d listed,
        cpPrune_nothing _ store backend state d' listed']
      exact ⟨⟨rfl, .inl rfl⟩, beside.follows⟩
  · constructor
    · intro runtime supported events
      rw [cpPrepareRestore, cpPrepareRestore, failed, failed']
      cases runtime.supportsVersion supported <;> trivial
    · rw [cpPrune, cpPrune, failed, failed']
      exact ⟨trivial, beside.follows⟩

/-- A refused file changes neither what is found nor what is removed. -/
theorem isolated_listed (alone : RefusedAlone message store backend extra d') (state : σ)
    (first last added : List FsPath) (more : added = [] ∨ added = [extra])
    (listed : checkpointFiles (diskSystem message) store d = .ok (first ++ last))
    (listed' : checkpointFiles (diskSystem message) store d' = .ok (first ++ added ++ last)) :
    Isolated message store backend state extra node d d' := by
  have others : ∀ path ∈ first ++ last, path ≠ extra := by
    rintro path inside rfl
    obtain ⟨_, listing, _⟩ := (mem_checkpointFiles _ store d _ listed path).mp inside
    obtain ⟨_, _, here, _⟩ := (disk_entries message _ d path _).mp listing
    rw [beside.absent] at here
    cases here
  obtain ⟨same, judged⟩ := beside.examined alone first last added more others state
  constructor
  · intro runtime supported events
    cases registered : runtime.supportsVersion supported with
    | false =>
      rw [cpPrepareRestore, cpPrepareRestore, registered]
      trivial
    | true =>
      obtain ⟨candidates, rejects⟩ := judged (candidateOf (diskSystem message) supported)
        (alone.candidate supported)
      rw [cpPrepareRestore_eq _ store backend runtime supported d _ registered _ listed,
        cpPrepareRestore_eq _ store backend runtime supported d' _ registered _ listed', searchOf,
        searchOf, usable, usable, candidates, same]
      exact searches_alike runtime supported _ extra _ _ rejects _
  · obtain ⟨verified, rejects⟩ := judged (verifiedOf (diskSystem message)) alone.verified
    rw [cpPrune_eq _ store backend state d _ listed, cpPrune_eq _ store backend state d' _ listed']
    simp only [verifiedFiles, verified]
    refine removeFiles_follows message extra node _ ?others _ _ ?alike d d' beside.follows
    case alike => exact ⟨rfl, rejects⟩
    -- What is removed was examined, which the extra entry was not.
    exact fun path removed => others path
      (removals_listed _ store backend d (first ++ last) state _ path removed)

/-- Neither directory is enumerated when the one without the entry is not. -/
theorem not_enumerable_unlisted (entry : Disk.IsEntry store.options.checkpointDirectory extra)
    (apart : store.options.checkpointDirectory ≠ extra)
    (never : ¬ Enumerable (diskSystem message) store.options.checkpointDirectory d) :
    (checkpointFiles (diskSystem message) store d = .ok [] ∧
        checkpointFiles (diskSystem message) store d' = .ok []) ∨
      ((∃ e, checkpointFiles (diskSystem message) store d = .error e) ∧
        ∃ e, checkpointFiles (diskSystem message) store d' = .error e) := by
  have listed := checkpointFiles_ok (diskSystem message) store d
  have listed' := checkpointFiles_ok (diskSystem message) store d'
  rw [beside.status message _ apart, beside.enumerable entry apart message] at listed'
  simp only [never, and_false, false_and, or_false] at listed listed'
  by_cases missing :
      (diskSystem message).fileExists store.options.checkpointDirectory d = .ok false
  · exact .inl ⟨(listed []).mpr ⟨missing, rfl⟩, (listed' []).mpr ⟨missing, rfl⟩⟩
  · refine .inr ⟨?_, ?_⟩
    · cases found : checkpointFiles (diskSystem message) store d with
      | error e => exact ⟨e, rfl⟩
      | ok paths => exact absurd ((listed paths).mp found).1 missing
    · cases found : checkpointFiles (diskSystem message) store d' with
      | error e => exact ⟨e, rfl⟩
      | ok paths => exact absurd ((listed' paths).mp found).1 missing

end

/-- An entry that fails alone is isolated exactly when it tells its type, unless the directory
could not be enumerated without it either. -/
theorem bad_entry_isolated_iff (message : Errno → Bytes) (store : CheckpointStore)
    (backend : Backend σ) (state : σ) (name : Bytes) (named : name ≠ []) (node : FileNode)
    (d d' : Disk)
    (beside : Beside (store.options.checkpointDirectory.child name) node d d')
    (fails : FailsAlone store backend node) :
    Isolated message store backend state (store.options.checkpointDirectory.child name) node d d' ↔
      (∃ regular, node.regular = .ok regular) ∨
        ¬ Enumerable (diskSystem message) store.options.checkpointDirectory d := by
  have entry : Disk.IsEntry store.options.checkpointDirectory
      (store.options.checkpointDirectory.child name) := by
    rw [Disk.IsEntry, filename_child]
  have apart := (child_ne store.options.checkpointDirectory name named).symm
  constructor
  · rintro ⟨restores, _⟩
    by_contra neither
    rw [not_or, not_not] at neither
    obtain ⟨untyped, enumerable⟩ := neither
    have listed := (checkpointFiles_ok (diskSystem message) store d _).mpr (.inr ⟨enumerable, rfl⟩)
    have alike := restores singleVersion 1 []
    rw [cpPrepareRestore_eq _ store backend singleVersion 1 d _ rfl _ listed] at alike
    cases listed' : checkpointFiles (diskSystem message) store d' with
    | error e =>
      rw [cpPrepareRestore, listed'] at alike
      exact alike
    | ok paths' =>
      rcases (checkpointFiles_ok _ store d' paths').mp listed' with ⟨missing, _⟩ | ⟨more, _⟩
      · rw [beside.status message _ apart, enumerable.1] at missing
        cases missing
      · exact untyped ((beside.enumerable entry apart message).mp more).1
  · intro told
    by_cases enumerable : Enumerable (diskSystem message) store.options.checkpointDirectory d
    · obtain ⟨regular, typed⟩ := told.resolve_right (not_not.mpr enumerable)
      rcases beside.files entry apart message store rfl regular typed with
        failed | ⟨first, last, added, listed, listed', more⟩
      · exact isolated_unlisted beside state (.inr failed)
      · exact isolated_listed beside
          (fails.refused message regular typed _ d' beside.file_extra) state first last added more
          listed listed'
    · exact isolated_unlisted beside state (not_enumerable_unlisted beside entry apart enumerable)

/-! ## An unreadable checkpoint -/

/-- A newer checkpoint whose file cannot be opened. -/
def lockedNode : FileNode := { bytes := bytes "on", modified := .ok 6, opens := false }

/-- The two checkpoints with the unreadable one beside them. -/
def lockedDisk : Disk :=
  let d := tiedDisk 1 2 (bytes "on") (bytes "off")
  { d with files := d.files.insert (checkpointOf 3) lockedNode }

theorem unreadable_isolated :
    isCheckpointFilename (checkpointOf 3) appStore.options.canonicalPath.extension = true ∧
      Isolated natText appStore switchBackend () (checkpointOf 3) lockedNode
        (tiedDisk 1 2 (bytes "on") (bytes "off")) lockedDisk :=
  ⟨by decide +kernel, (bad_entry_isolated_iff natText appStore switchBackend () _ (by decide +kernel)
    lockedNode _ _ ⟨⟨[], _, rfl, rfl⟩, rfl⟩ ⟨.inr (.inl rfl), fun _ => rfl⟩).mpr (.inl ⟨true, rfl⟩)⟩

/-! ## A dangling link -/

def linkPath : FsPath := appStore.options.checkpointDirectory.child (bytes "latest")

/-- Its target is not there. -/
def danglingLink : FileNode where
  bytes := []
  modified := .error ENOENT
  regular := .error ENOENT
  opens := false

/-- The two checkpoints with a link beside them. -/
def linkedDisk (node : FileNode) : Disk :=
  let d := tiedDisk 1 2 (bytes "on") (bytes "off")
  { d with files := d.files.insert linkPath node }

theorem linkedDisk_beside (node : FileNode) :
    Beside linkPath node (tiedDisk 1 2 (bytes "on") (bytes "off")) (linkedDisk node) :=
  ⟨⟨[], _, rfl, rfl⟩, rfl⟩

def removedPaths : Option (Result PruneReport) → Option (List FsPath)
  | some (.ok report) => some report.removed
  | _ => none

theorem removedPaths_alike {extra : FsPath} {answer answer' : Option (Result PruneReport)}
    (alike : ReportsAlike extra answer answer') : removedPaths answer' = removedPaths answer := by
  rcases answer with _ | (e | report)
  · rcases answer' with _ | (e' | report')
    · rfl
    · exact alike.elim
    · exact alike.elim
  · rcases answer' with _ | (e' | report')
    · exact alike.elim
    · rfl
    · exact alike.elim
  · rcases answer' with _ | (e' | report')
    · exact alike.elim
    · exact alike.elim
    · exact congrArg some alike.1

/-- Without the link the restore finds a checkpoint and the prune removes the other; with it
neither does anything. -/
theorem dangling_link_blocks :
    let plain := tiedDisk 1 2 (bytes "on") (bytes "off")
    let linked := linkedDisk danglingLink
    let os := diskSystem natText
    FailsAlone appStore (switchBackend : Backend Unit) danglingLink ∧
      Beside linkPath danglingLink plain linked ∧
      (restoredPath (cpPrepareRestore os appStore switchBackend singleVersion 1 plain ⟨(), []⟩) =
          some (checkpointOf 1) ∧
        restoredPath (cpPrepareRestore os appStore switchBackend singleVersion 1 linked ⟨(), []⟩) =
          none) ∧
      (removedPaths (cpPrune os appStore switchBackend () plain).1 = some [checkpointOf 2] ∧
        removedPaths (cpPrune os appStore switchBackend () linked).1 = none) ∧
      ¬ Isolated natText appStore switchBackend () linkPath danglingLink plain linked := by
  intro plain linked os
  have pruned : removedPaths (cpPrune os appStore switchBackend () plain).1 =
      some [checkpointOf 2] := by decide +kernel
  have blocked : removedPaths (cpPrune os appStore switchBackend () linked).1 = none := by
    decide +kernel
  refine ⟨⟨.inl ⟨ENOENT, rfl⟩, fun _ => rfl⟩, linkedDisk_beside _,
    ⟨by decide +kernel, by decide +kernel⟩, ⟨pruned, blocked⟩, fun isolated => ?_⟩
  have same := removedPaths_alike isolated.2.1
  rw [blocked, pruned] at same
  cases same

end ConfigManager.Guarantees
