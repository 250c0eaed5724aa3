import ConfigManager.Guarantees.CheckpointLifecycle
import ConfigManager.Guarantees.DirectMigration
import ConfigManager.Guarantees.Synchronization
import ConfigManager.Programs.FirmwarePhases
import ConfigManager.Refinement.Synchronization

/-!
# An upgrade keeps a way back

The upgrade captures, synchronizes, commits and prunes. Wherever it stops, the
canonical file is complete, and when it is no longer the old one the old one is
the checkpoint of its version.
-/

set_option autoImplicit false

namespace ConfigManager.Guarantees
open Library Source Reference Refinement Programs

variable {σ : Type}

/-- Every checkpoint on the disk is older than any call still to come. -/
def ClockAhead (store : CheckpointStore) (d : Disk) : Prop :=
  ∀ path, IsCheckpoint store path → ∀ node time, d.file path = some node →
    node.modified = .ok time → ∀ answer ∈ d.schedule, time < answer.time

/-- How far an upgrade came. -/
inductive UpgradeStage (store : CheckpointStore) (backend : Backend σ) (runtime : ConfigRuntime σ)
    (supported : VersionId) (d : Disk) (answer : Halt VersionedConfig) (d' : Disk) : Prop where
  | refused (unsuccessful : ∀ c, answer ≠ some (.ok c))
      (canonical : d'.file store.options.canonicalPath = d.file store.options.canonicalPath)
      (checkpoints : ∀ path, IsCheckpoint store path → d'.file path = d.file path)
  | captured (unsuccessful : ∀ c, answer ≠ some (.ok c)) (text : Bytes) (config : VersionedConfig)
      (held : CanonicalHolds store backend d text config) (older : config.version < supported)
      (within : text.length ≤ store.options.maxFileBytes)
      (canonical : d'.file store.options.canonicalPath = d.file store.options.canonicalPath)
      (wayBack : FileHolds d' (store.destination config.version) text)
      (others : ∀ path, IsCheckpoint store path → path ≠ store.destination config.version →
        d'.file path = d.file path)
  | committed (text : Bytes) (config : VersionedConfig)
      (held : CanonicalHolds store backend d text config) (older : config.version < supported)
      (within : text.length ≤ store.options.maxFileBytes)
      (upgraded : VersionedConfig) (saved : Bytes) (world world' : World σ)
      (synchronized : runtime.synchronize config supported world = (.ok .inSync, upgraded, world'))
      (current : upgraded.version = supported)
      (state state' : σ) (serialized : saveBytes backend upgraded state = (.ok saved, state'))
      (canonical : FileHolds d' store.options.canonicalPath saved)
      (wayBack : FileHolds d' (store.destination config.version) text)
      (others : ∀ path, IsCheckpoint store path → path ≠ store.destination config.version →
        d'.file path = d.file path ∨ d'.file path = none)
      (success : ∀ c, answer = some (.ok c) → c = upgraded)

/-- From an older version, a synchronization that answers without an error is in sync, at the
supported version. -/
theorem synchronize_older (runtime : ConfigRuntime σ) (config config' : VersionedConfig)
    (supported : VersionId) (older : config.version < supported) (world world' : World σ)
    (status : SyncStatus)
    (ran : runtime.synchronize config supported world = (.ok status, config', world')) :
    status = .inSync ∧ config'.version = supported := by
  have upgrades := (inspect_upgrade_iff config supported).mpr older
  rw [ConfigRuntime.synchronize] at ran
  simp only [upgrades, reduceCtorEq, if_false, true_and] at ran
  split at ran
  · simp [fail] at ran
  split at ran
  · simp [fail] at ran
  rw [ConfigRuntime.upgrade, if_pos rfl] at ran
  cases migrated : MigrationEngine.migrate runtime.catalog runtime.registry
      ⟨config.version, config.model.clone⟩ supported world with
  | mk answer rest =>
    obtain ⟨working, world₁⟩ := rest
    rw [migrated] at ran
    cases answer with
    | error e => cases ran
    | ok done =>
      obtain ⟨_, _, _, _, steps⟩ := migrate_migrated _ _ _ working supported _ _ _ migrated
      simp only [Bool.true_or, if_true] at ran
      split at ran
      · cases ran
      · cases ran
        exact ⟨rfl, steps.lands⟩

/-- What the capture read is the file that was loaded. -/
theorem captured_loaded (message : Errno → Bytes) (store : CheckpointStore) (backend : Backend σ)
    (d : Disk) (text text' : Bytes) (config : VersionedConfig)
    (held : CanonicalHolds store backend d text config) (state state' : σ)
    (captured : captureBytes (diskSystem message) store config backend state d = (.ok text', state')) :
    text' = text ∧ text.length ≤ store.options.maxFileBytes := by
  obtain ⟨within, there, _⟩ :=
    captureBytes_read message store config backend state state' d text' captured
  obtain ⟨node, found, rfl⟩ := there
  obtain ⟨node', found', rfl⟩ := held.present
  rw [found] at found'
  cases found'
  exact ⟨rfl, within⟩

/-- The canonical file and its temporaries are no checkpoints. -/
theorem canonical_apart (store : CheckpointStore) (outside : Outside store) (path : FsPath)
    (checkpoint : IsCheckpoint store path) : path ≠ store.options.canonicalPath := by
  intro same
  exact (outside path.filename).1 (same.symm.trans checkpoint.1)

theorem destination_temporary (store : CheckpointStore) (outside : Outside store)
    (version : VersionId) : ¬ IsTemporary (store.destination version) store.options.canonicalPath := by
  intro temporary
  obtain ⟨ticks, sequence, same⟩ := temporary
  obtain ⟨name, beside⟩ := temporary_beside store.options.checkpointDirectory
    (checkpointFilename version store.options.canonicalPath.extension) ticks sequence
  exact (outside name).2 (same.trans beside)

/-- What a stopped or refused commit leaves is as it was. -/
theorem commit_unsuccessful (message : Errno → Bytes) (store : CheckpointStore)
    (config : VersionedConfig) (backend : Backend σ) (state state' : σ) (d d' : Disk)
    (answer : Option (Result Unit)) (unsuccessful : answer ≠ some (.ok ()))
    (ran : cpCommit (diskSystem message) store config backend state d = (answer, state', d')) :
    d'.file store.options.canonicalPath = d.file store.options.canonicalPath ∧
      ∀ path, IsCheckpoint store path → d'.file path = d.file path := by
  rcases cpCommit_spec message store config backend state state' d d' answer ran with
    ⟨success, _⟩ | ⟨_, touches⟩
  · exact absurd success unsuccessful
  · refine ⟨touches.file _ fun new => ?_, fun path checkpoint => touches.file path fun new => ?_⟩
    · obtain ⟨ticks, sequence, same⟩ := new.1
      exact temporary_ne _ ticks sequence same.symm
    · exact checkpoint_not_temporary store path _ checkpoint new.1

section
variable (message : Errno → Bytes) (store : CheckpointStore) (outside : Outside store)
  (backend : Backend σ) {d d₁ : Disk} {text : Bytes} {config : VersionedConfig}
  (held : CanonicalHolds store backend d text config)
include outside held

/-- After the capture: the upgrade was captured and stays so until the commit. -/
theorem captured_stage (state state₁ : σ)
    (capturing : cpCapture (diskSystem message) store config backend state d =
      (some (.ok ()), state₁, d₁)) :
    text.length ≤ store.options.maxFileBytes ∧
      d₁.file store.options.canonicalPath = d.file store.options.canonicalPath ∧
      FileHolds d₁ (store.destination config.version) text ∧
      ∀ path, IsCheckpoint store path → path ≠ store.destination config.version →
        d₁.file path = d.file path := by
  rcases cpCapture_spec message store config backend state state₁ d d₁ _ capturing with
    ⟨_, made, touches, _⟩ | ⟨unsuccessful, _⟩
  · obtain ⟨text', captured, complete⟩ := made
    obtain ⟨rfl, within⟩ :=
      captured_loaded message store backend d text text' config held state state₁ captured
    refine ⟨within, touches.file _ fun same => ?_, complete, fun path _ other => touches.file path other⟩
    exact canonical_apart store outside _ (destination_checkpoint store config.version) same.symm
  · exact absurd rfl unsuccessful

/-- The prune that follows the commit leaves the way back. -/
theorem pruned_stage (retains : 1 ≤ store.options.retention) (ahead : ClockAhead store d)
    (state state₁ : σ)
    (capturing : cpCapture (diskSystem message) store config backend state d =
      (some (.ok ()), state₁, d₁)) (upgraded : VersionedConfig) (state₂ state₃ : σ) (d₂ : Disk)
    (committing : cpCommit (diskSystem message) store upgraded backend state₂ d₁ =
      (some (.ok ()), state₃, d₂)) (state₄ : σ) (d₃ : Disk) (answer : Option (Result PruneReport))
    (pruning : cpPrune (diskSystem message) store backend state₃ d₂ = (answer, state₄, d₃)) :
    ∃ saved, saveBytes backend upgraded state₂ = (.ok saved, state₃) ∧
      FileHolds d₃ store.options.canonicalPath saved ∧
      FileHolds d₃ (store.destination config.version) text ∧
      ∀ path, IsCheckpoint store path → path ≠ store.destination config.version →
        d₃.file path = d.file path ∨ d₃.file path = none := by
  obtain ⟨_, _, wayBack, others⟩ := captured_stage message store outside backend held
    state state₁ capturing
  obtain ⟨text', captured, stamp, inside, dated⟩ :=
    cpCapture_stamped message store config backend state state₁ d d₁ capturing
  obtain ⟨rfl, _⟩ :=
    captured_loaded message store backend d text text' config held state state₁ captured
  rcases cpCommit_spec message store upgraded backend state₂ state₃ d₁ d₂ _ committing with
    ⟨_, made, touches⟩ | ⟨unsuccessful, _⟩
  · obtain ⟨saved, serialized, complete⟩ := made
    have spared : ∀ path, IsCheckpoint store path → d₂.file path = d₁.file path :=
      fun path checkpoint => touches.file path (canonical_apart store outside path checkpoint)
    have own := destination_checkpoint store config.version
    have found := (spared _ own).trans dated
    obtain ⟨kept, pruned, fewer⟩ := prune_spares_newest message store retains backend state₃ state₄
      d₂ d₃ answer pruning (store.destination config.version) _ found stamp.time rfl
      fun other checkpoint different older t there time => by
        rw [spared other checkpoint, others other checkpoint different] at there
        exact ahead other checkpoint older t there time stamp inside
    refine ⟨saved, serialized, ?_, ⟨stamp.time, kept.trans found⟩, fun path checkpoint different => ?_⟩
    · obtain ⟨time, there⟩ := complete
      refine ⟨time, (pruned.file _ fun checkpoint => ?_).trans there⟩
      exact canonical_apart store outside _ checkpoint rfl
    · rcases fewer path with same | gone
      · exact .inl (same.trans ((spared path checkpoint).trans (others path checkpoint different)))
      · exact .inr gone
  · exact absurd rfl unsuccessful

end

theorem upgrade_stages (message : Errno → Bytes) (store : CheckpointStore) (outside : Outside store)
    (retains : 1 ≤ store.options.retention) (backend : Backend σ) (only : BytesOnly backend)
    (runtime : ConfigRuntime σ) (supported : VersionId) (world world' : World σ) (d d' : Disk)
    (ahead : ClockAhead store d) (answer : Halt VersionedConfig)
    (ran : upgradeFirmware (diskSystem message) store backend runtime supported d world =
      (answer, d', world')) :
    UpgradeStage store backend runtime supported d answer d' := by
  rw [upgradeFirmware] at ran
  cases opened : loadFile (diskSystem message) store.options.canonicalPath backend d
      world.callbacks with
  | mk first state =>
    rw [opened] at ran
    cases first with
    | error printed =>
      cases ran
      exact .refused (by simp) rfl fun _ _ => rfl
    | ok config =>
      obtain ⟨text, held⟩ := loadFile_holds message store backend only d _ _ config opened
      simp only at ran
      split at ran
      · cases ran
        exact .refused (by simp) rfl fun _ _ => rfl
      next upgrades =>
      have older : config.version < supported :=
        (inspect_upgrade_iff config supported).mp (not_not.mp upgrades)
      cases capturing : cpCapture (diskSystem message) store config backend state d with
      | mk captured rest =>
      obtain ⟨state₁, d₁⟩ := rest
      rw [capturing] at ran
      have refused : captured ≠ some (.ok ()) →
          d₁.file store.options.canonicalPath = d.file store.options.canonicalPath ∧
            ∀ path, IsCheckpoint store path → d₁.file path = d.file path := by
        intro unsuccessful
        rcases cpCapture_spec message store config backend state state₁ d d₁ _ capturing with
          ⟨success, _⟩ | ⟨_, touches⟩
        · exact absurd success unsuccessful
        · refine ⟨touches.file _ fun new => ?_, fun path checkpoint => touches.file path fun new => ?_⟩
          · exact destination_temporary store outside config.version new.1
          · exact checkpoint_not_temporary store path _ checkpoint new.1
      rcases captured with _ | (e | ⟨⟩)
      · cases ran
        exact .refused (by simp) (refused (by simp)).1 (refused (by simp)).2
      · cases ran
        exact .refused (by simp [orDie, Except.mapError]) (refused (by simp)).1 (refused (by simp)).2
      obtain ⟨within, canonical, wayBack, others⟩ := captured_stage message store outside backend
        held state state₁ capturing
      simp only at ran
      split at ran
      · cases ran
        exact .captured (by simp [orDie, Except.mapError]) text config held older within canonical
          wayBack others
      next status upgraded world₂ synchronizing =>
      obtain ⟨rfl, current⟩ :=
        synchronize_older runtime config upgraded supported older _ _ status synchronizing
      cases committing : cpCommit (diskSystem message) store upgraded backend world₂.callbacks d₁ with
      | mk committed rest =>
      obtain ⟨state₃, d₂⟩ := rest
      rw [committing] at ran
      have unfinished : committed ≠ some (.ok ()) → (∀ c, answer ≠ some (.ok c)) → d' = d₂ →
          UpgradeStage store backend runtime supported d answer d' := by
        rintro unsuccessful unanswered rfl
        obtain ⟨same, spared⟩ := commit_unsuccessful message store upgraded backend _ _ d₁ d' _
          unsuccessful committing
        refine .captured unanswered text config held older within (same.trans canonical) ?_ ?_
        · obtain ⟨time, there⟩ := wayBack
          exact ⟨time, (spared _ (destination_checkpoint store config.version)).trans there⟩
        · exact fun path checkpoint different =>
            (spared path checkpoint).trans (others path checkpoint different)
      rcases committed with _ | (e | ⟨⟩)
      · cases ran
        exact unfinished (by simp) (by simp) rfl
      · cases ran
        exact unfinished (by simp) (by simp [orDie, Except.mapError]) rfl
      simp only at ran
      cases pruning : cpPrune (diskSystem message) store backend state₃ d₂ with
      | mk pruned rest =>
      obtain ⟨state₄, d₃⟩ := rest
      obtain ⟨saved, serialized, complete, kept, left⟩ := pruned_stage message store outside backend
        held retains ahead state state₁ capturing upgraded world₂.callbacks state₃
        d₂ committing state₄ d₃ pruned pruning
      rw [pruning] at ran
      rcases pruned with _ | (e | report) <;> cases ran
      · exact .committed text config held older within upgraded saved _ _ synchronizing current _ _
          serialized complete kept left (by simp)
      · exact .committed text config held older within upgraded saved _ _ synchronizing current _ _
          serialized complete kept left (by simp [orDie, Except.mapError])
      · exact .committed text config held older within upgraded saved _ _ synchronizing current _ _
          serialized complete kept left (by simp)

theorem appDisk_only (path : FsPath) (node : FileNode) (found : appDisk.file path = some node) :
    path = appStore.options.canonicalPath := by
  by_contra other
  have missing : appDisk.file path = none :=
    AList.lookup_eq_none.mpr fun inside => other (by simpa [appDisk, AList.mem_keys] using inside)
  rw [missing] at found
  cases found

theorem appDisk_ahead : ClockAhead appStore appDisk := by
  intro path checkpoint node time found
  exact absurd (appDisk_only path node found)
    (canonical_apart appStore appStore_outside path checkpoint)

end ConfigManager.Guarantees
