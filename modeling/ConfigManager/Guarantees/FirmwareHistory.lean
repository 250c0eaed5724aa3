import ConfigManager.Guarantees.FirmwareRestore

/-!
# A device over its life

Upgrades and rollbacks by firmware of any versions, saves by the application and
restarts, in any order and each stopped anywhere: the canonical file always
loads, and the version before the last upgrade can always be restored.
-/

set_option autoImplicit false

namespace ConfigManager.Guarantees
open Library Source Reference Refinement Programs

variable {σ : Type}

/-- Everything that happens to the file of a device, with the version it had before the last
upgrade that replaced it. -/
inductive DeviceRun (message : Errno → Bytes) (store : CheckpointStore) (backend : Backend σ) :
    Option VersionId → Disk → Prop where
  | shipped (d : Disk) (text : Bytes) (config : VersionedConfig)
      (held : CanonicalHolds store backend d text config) : DeviceRun message store backend none d
  | restarted (previous : Option VersionId) (d d' : Disk)
      (run : DeviceRun message store backend previous d)
      (same : ∀ path, path = store.options.canonicalPath ∨ IsCheckpoint store path →
        d'.file path = d.file path) : DeviceRun message store backend previous d'
  | upgraded (previous previous' : Option VersionId) (d d' : Disk)
      (run : DeviceRun message store backend previous d) (runtime : ConfigRuntime σ)
      (supported : VersionId) (world world' : World σ) (ahead : ClockAhead store d)
      (answer : Halt VersionedConfig)
      (ran : upgradeFirmware (diskSystem message) store backend runtime supported d world =
        (answer, d', world'))
      (loadsBack : ∀ text config upgraded before after, CanonicalHolds store backend d text config →
        runtime.synchronize config supported before = (.ok .inSync, upgraded, after) →
          LoadsBack backend upgraded)
      (moved : (d'.file store.options.canonicalPath = d.file store.options.canonicalPath ∧
          previous' = previous) ∨
        (d'.file store.options.canonicalPath ≠ d.file store.options.canonicalPath ∧
          ∃ text config, CanonicalHolds store backend d text config ∧
            previous' = some config.version)) : DeviceRun message store backend previous' d'
  | rolledBack (previous : Option VersionId) (d d' : Disk)
      (run : DeviceRun message store backend previous d) (runtime : ConfigRuntime σ)
      (supported : VersionId) (accepts : PreparedRestore → Bool) (world world' : World σ)
      (answer : Halt VersionedConfig)
      (ran : rollBackFirmware (diskSystem message) store backend runtime supported accepts d world =
        (answer, d', world'))
      (loadsBack : ∀ search restore before after,
        cpPrepareRestore (diskSystem message) store backend runtime supported d before =
          (.ok search, after) → search.candidate = some restore → accepts restore = true →
            LoadsBack backend restore.config) :
      DeviceRun message store backend previous d'
  | saved (previous : Option VersionId) (d d' : Disk)
      (run : DeviceRun message store backend previous d) (config : VersionedConfig)
      (loadsBack : LoadsBack backend config) (state state' : σ) (answer : Option (Result Unit))
      (ran : cpCommit (diskSystem message) store config backend state d = (answer, state', d')) :
      DeviceRun message store backend previous d'

/-- The canonical file loads, and the version before is a checkpoint that loads. -/
structure Recoverable (store : CheckpointStore) (backend : Backend σ)
    (previous : Option VersionId) (d : Disk) : Prop where
  canonical : ∃ text config, CanonicalHolds store backend d text config
  wayBack : ∀ version, previous = some version → ∃ text config,
    FileHolds d (store.destination version) text ∧ text.length ≤ store.options.maxFileBytes ∧
      config.version = version ∧ ∀ state, (loadBytes backend text state).1 = .ok config

/-- A file that was committed loads as what was committed. -/
theorem committed_holds (store : CheckpointStore) (backend : Backend σ) (d : Disk)
    (config : VersionedConfig) (loadsBack : LoadsBack backend config) (state state' : σ)
    (text : Bytes) (serialized : saveBytes backend config state = (.ok text, state'))
    (there : FileHolds d store.options.canonicalPath text) :
    ∃ again, again.version = config.version ∧ CanonicalHolds store backend d text again := by
  obtain ⟨again, version, _, loads⟩ := loadsBack state text state' serialized
  obtain ⟨time, found⟩ := there
  exact ⟨again, version, ⟨_, found, rfl⟩, loads⟩

section
variable {store : CheckpointStore} {backend : Backend σ} {previous : Option VersionId} {d d' : Disk}
  (recoverable : Recoverable store backend previous d)
include recoverable

/-- What leaves the checkpoints leaves the way back. -/
theorem Recoverable.spared (checkpoints : ∀ path, IsCheckpoint store path → d'.file path = d.file path)
    (canonical : ∃ text config, CanonicalHolds store backend d' text config) :
    Recoverable store backend previous d' := by
  refine ⟨canonical, fun version here => ?_⟩
  obtain ⟨text, config, ⟨time, found⟩, rest⟩ := recoverable.wayBack version here
  exact ⟨text, config, ⟨time, (checkpoints _ (destination_checkpoint store version)).trans found⟩, rest⟩

theorem Recoverable.unchanged
    (same : d'.file store.options.canonicalPath = d.file store.options.canonicalPath)
    (checkpoints : ∀ path, IsCheckpoint store path → d'.file path = d.file path) :
    Recoverable store backend previous d' := by
  refine recoverable.spared checkpoints ?_
  obtain ⟨text, config, ⟨node, found, content⟩, loads⟩ := recoverable.canonical
  exact ⟨text, config, ⟨node, same.trans found, content⟩, loads⟩

theorem Recoverable.upgraded (message : Errno → Bytes) (outside : Outside store)
    (retains : 1 ≤ store.options.retention) (only : BytesOnly backend)
    (previous' : Option VersionId) (runtime : ConfigRuntime σ) (supported : VersionId)
    (world world' : World σ) (ahead : ClockAhead store d) (answer : Halt VersionedConfig)
    (ran : upgradeFirmware (diskSystem message) store backend runtime supported d world =
      (answer, d', world'))
    (loadsBack : ∀ text config upgraded before after, CanonicalHolds store backend d text config →
      runtime.synchronize config supported before = (.ok .inSync, upgraded, after) →
        LoadsBack backend upgraded)
    (moved : (d'.file store.options.canonicalPath = d.file store.options.canonicalPath ∧
        previous' = previous) ∨
      (d'.file store.options.canonicalPath ≠ d.file store.options.canonicalPath ∧
        ∃ text config, CanonicalHolds store backend d text config ∧
          previous' = some config.version)) : Recoverable store backend previous' d' := by
  cases upgrade_stages message store outside retains backend only runtime supported world world' d d'
    ahead answer ran with
  | refused unsuccessful canonical checkpoints =>
    obtain ⟨_, rfl⟩ := moved.resolve_right fun changed => changed.1 canonical
    exact recoverable.unchanged canonical checkpoints
  | captured unsuccessful text config held older within canonical kept others =>
    obtain ⟨_, rfl⟩ := moved.resolve_right fun changed => changed.1 canonical
    obtain ⟨node, found, content⟩ := held.present
    refine ⟨⟨text, config, ⟨node, canonical.trans found, content⟩, held.loads⟩, fun version here => ?_⟩
    by_cases own : version = config.version
    · subst own
      exact ⟨text, config, kept, within, rfl, held.loads⟩
    · obtain ⟨text', config', ⟨time, there⟩, rest⟩ := recoverable.wayBack version here
      refine ⟨text', config', ⟨time, ?_⟩, rest⟩
      rw [others _ (destination_checkpoint store version) fun same =>
        own (destination_injective store version config.version same)]
      exact there
  | committed text config held older within upgraded saved before after synchronized reached state
      state' serialized canonical kept others success =>
    obtain ⟨again, version, holds⟩ := committed_holds store backend d' upgraded
      (loadsBack text config upgraded before after held synchronized) state state' saved serialized
      canonical
    -- The file moved, for it is of another version now.
    have changed : d'.file store.options.canonicalPath ≠ d.file store.options.canonicalPath := by
      intro same
      obtain ⟨node, found, content⟩ := holds.present
      have before : CanonicalHolds store backend d saved again :=
        ⟨⟨node, same.symm.trans found, content⟩, holds.loads⟩
      obtain ⟨_, rfl⟩ := before.unique held world.callbacks
      rw [version, reached] at older
      exact lt_irrefl _ older
    obtain ⟨_, _, config', held', rfl⟩ := moved.resolve_left fun same => changed same.1
    obtain ⟨_, rfl⟩ := held'.unique held world.callbacks
    refine ⟨⟨saved, again, holds⟩, fun version here => ?_⟩
    cases here
    exact ⟨text, config', kept, within, rfl, held.loads⟩

end

theorem run_recoverable (message : Errno → Bytes) (store : CheckpointStore)
    (outside : Outside store) (retains : 1 ≤ store.options.retention) (backend : Backend σ)
    (only : BytesOnly backend) (previous : Option VersionId) (d : Disk)
    (run : DeviceRun message store backend previous d) : Recoverable store backend previous d := by
  induction run with
  | shipped d text config held => exact ⟨⟨text, config, held⟩, by simp⟩
  | restarted previous d d' run same ih =>
    exact ih.unchanged (same _ (.inl rfl)) fun path checkpoint => same path (.inr checkpoint)
  | upgraded previous previous' d d' run runtime supported world world' ahead answer ran loadsBack
      moved ih =>
    exact ih.upgraded message outside retains only previous' runtime supported world world' ahead
      answer ran loadsBack moved
  | rolledBack previous d d' run runtime supported accepts world world' answer ran loadsBack ih =>
    obtain ⟨spared, stage⟩ := rollback_stages message store outside backend only runtime supported
      accepts world world' d d' answer ran
    cases stage with
    | refused unsuccessful canonical => exact ih.unchanged canonical spared
    | restored search restore before after prepared found accepted saved state state' serialized
        canonical success =>
      obtain ⟨again, _, holds⟩ := committed_holds store backend d' restore.config
        (loadsBack search restore before after prepared found accepted) state state' saved serialized
        canonical
      exact ih.spared spared ⟨saved, again, holds⟩
  | saved previous d d' run config loadsBack state state' answer ran ih =>
    by_cases success : answer = some (.ok ())
    · subst success
      rcases cpCommit_spec message store config backend state state' d d' _ ran with
        ⟨_, made, touches⟩ | ⟨unsuccessful, _⟩
      · obtain ⟨text, serialized, there⟩ := made
        obtain ⟨again, _, holds⟩ := committed_holds store backend d' config loadsBack state state'
          text serialized there
        exact ih.spared (fun path checkpoint => touches.file path
          (canonical_apart store outside path checkpoint)) ⟨text, again, holds⟩
      · exact absurd rfl unsuccessful
    · obtain ⟨same, spared⟩ := commit_unsuccessful message store config backend state state' d d'
        answer success ran
      exact ih.unchanged same spared

/-- A search with a candidate that lands finds one of that version or a newer. -/
theorem search_finds (message : Errno → Bytes) (store : CheckpointStore) (backend : Backend σ)
    (runtime : ConfigRuntime σ) (stateless : Stateless runtime) (supported : VersionId)
    (registered : runtime.supportsVersion supported = true) (d : Disk) (paths : List FsPath)
    (listed : checkpointFiles (diskSystem message) store d = .ok paths) (world before after : World σ)
    (candidate : LoadedCandidate) (restored : VersionedConfig)
    (inside : candidate ∈ usable (diskSystem message) supported
      (examine (diskSystem message) store backend d paths world.callbacks).1)
    (lands : Lands runtime supported candidate before restored after) :
    ∃ search world' restore,
      cpPrepareRestore (diskSystem message) store backend runtime supported d world =
        (.ok search, world') ∧ search.candidate = some restore ∧
      candidate.sourceVersion ≤ restore.sourceVersion ∧ restore.config.version = supported := by
  have found := searchOf_first (diskSystem message) store backend stateless supported d paths world
    before
  set order := sortBy LoadedCandidate.before (usable (diskSystem message) supported
    (examine (diskSystem message) store backend d paths world.callbacks).1) with sorting
  have member : candidate ∈ order := (mem_sortBy _ _ _).mpr inside
  have answered := landing_of_lands runtime supported candidate before after restored lands
  obtain ⟨restore, first⟩ : ∃ restore, order.findSome? (landing runtime supported before) =
      some restore := by
    rw [← Option.isSome_iff_exists, List.findSome?_isSome_iff]
    exact ⟨candidate, member, by rw [answered]; rfl⟩
  obtain ⟨earlier, c, rest, split, landed, misses⟩ := List.findSome?_eq_some_iff.mp first
  refine ⟨_, _, restore, cpPrepareRestore_eq (diskSystem message) store backend runtime supported d
    world registered paths listed, found.trans first, ?_, ?_⟩
  · have ranked : candidateKey c ≤ candidateKey candidate := by
      have sorted := candidate_ranks.sorted (usable (diskSystem message) supported
        (examine (diskSystem message) store backend d paths world.callbacks).1)
      rw [← sorting, split, List.pairwise_append, List.pairwise_cons] at sorted
      rw [split, List.mem_append, List.mem_cons] at member
      rcases member with missed | same | later
      · rw [misses candidate missed] at answered
        cases answered
      · exact le_of_eq (congrArg candidateKey same.symm)
      · exact sorted.2.1.1 candidate later
    have source : restore.sourceVersion = c.sourceVersion := by
      rw [landing] at landed
      split at landed
      · split at landed
        · cases landed
          rfl
        · cases landed
      · cases landed
    rw [source]
    by_contra less
    rw [not_le] at less
    have after : candidate.before c = true := by
      rw [LoadedCandidate.before, if_pos (ne_of_gt less)]
      exact decide_eq_true less
    exact absurd ranked (not_le.mpr ((candidate_ranks candidate c).mp after))
  · rw [landing] at landed
    split at landed
    · split at landed
      · next current =>
        cases landed
        exact current
      · cases landed
    · cases landed

theorem emptyVersions_stateless : Stateless emptyVersions :=
  ⟨fun _ _ _ _ _ _ _ => ⟨rfl, rfl⟩, fun _ _ _ _ => rfl⟩

end ConfigManager.Guarantees
