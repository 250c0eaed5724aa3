import ConfigManager.Programs.FirmwareRollback
import ConfigManager.Refinement.CallInvariants
import ConfigManager.Refinement.CheckpointPruning

/-!
# The phases of the firmware program on a disk

What the load, the capture and the prune of an upgrade leave behind, whatever
the calls answer and wherever the process stops. Pruning spares the checkpoint
that was just captured because no other one is as new.
-/

set_option autoImplicit false

namespace ConfigManager.Programs
open Library Source Reference Refinement

variable {σ : Type}

/-! ## Loading -/

/-- The canonical file has these bytes, and they load as this config. -/
structure CanonicalHolds (store : CheckpointStore) (backend : Backend σ) (d : Disk) (text : Bytes)
    (config : VersionedConfig) : Prop where
  present : ∃ node, d.file store.options.canonicalPath = some node ∧ node.bytes = text
  loads : ∀ state, (loadBytes backend text state).1 = .ok config

theorem orDie_ok {α : Type} {result : Result α} (operation : Bytes) (value : α)
    (ended : orDie result operation = .ok value) : result = .ok value := by
  cases result with
  | error e => cases ended
  | ok other =>
    cases ended
    rfl

theorem finished_of_isSome {α : Type} (answer : Halt α)
    (fine : (answer.bind Except.toOption).isSome = true) : ∃ value, answer = some (.ok value) := by
  obtain ⟨value, found⟩ := Option.isSome_iff_exists.mp fine
  obtain ⟨ended, rfl, reported⟩ := Option.bind_eq_some_iff.mp found
  refine ⟨value, ?_⟩
  cases ended with
  | error e => cases reported
  | ok other =>
    cases reported
    rfl

theorem loadBytes_returned (backend : Backend σ) (text : Bytes) (state state' : σ)
    (answer : Result VersionedConfig)
    (loaded : backend.load text state = (.returned answer, state')) :
    loadBytes backend text state = (answer, state') := by
  rw [loadBytes, loaded]

theorem loadFile_holds (message : Errno → Bytes) (store : CheckpointStore) (backend : Backend σ)
    (only : BytesOnly backend) (d : Disk) (state state' : σ) (config : VersionedConfig)
    (ran : loadFile (diskSystem message) store.options.canonicalPath backend d state =
      (.ok config, state')) :
    ∃ text, CanonicalHolds store backend d text config := by
  rw [loadFile] at ran
  cases opened : (diskSystem message).openFile store.options.canonicalPath d with
  | none =>
    rw [opened] at ran
    cases ran
  | some source =>
    simp only [opened] at ran
    split at ran
    · cases ran
    · split at ran
      · next answer after loaded =>
        have answered := orDie_ok _ _ (Prod.mk.inj ran).1
        subst answered
        refine ⟨source.bytes, ?_, fun anywhere => ?_⟩
        · change Disk.openFile _ d = _ at opened
          rw [Disk.openFile] at opened
          split at opened
          · cases opened
          · next node found =>
            split at opened
            · cases opened
              exact ⟨node, found, rfl⟩
            · cases opened
        · rw [only.loadBytes source.bytes anywhere state,
            loadBytes_returned backend source.bytes state _ _ loaded]
      · cases ran

theorem CanonicalHolds.unique {store : CheckpointStore} {backend : Backend σ} {d : Disk}
    {text text' : Bytes} {config config' : VersionedConfig}
    (held : CanonicalHolds store backend d text config)
    (held' : CanonicalHolds store backend d text' config') (state : σ) :
    text = text' ∧ config = config' := by
  obtain ⟨node, found, rfl⟩ := held.present
  obtain ⟨node', found', rfl⟩ := held'.present
  rw [found] at found'
  cases found'
  have same := held.loads state
  rw [held'.loads state] at same
  cases same
  exact ⟨rfl, rfl⟩

/-! ## Pruning spares the newest -/

theorem newest_kept (retention : Nat) (retains : 1 ≤ retention) (verified : List VerifiedFile)
    (f : VerifiedFile) (inside : f ∈ verified)
    (newest : ∀ g ∈ verified, g ≠ f → f.2.before g.2 = true) : f ∈ keptFiles retention verified := by
  have leads : f ∈ leaders Prod.fst verifiedBefore verified := by
    refine (mem_leaders _ _ _ _).mpr ⟨inside, fun g other _ => ?_⟩
    rw [verified_ranks.not_before]
    by_cases same : g = f
    · rw [same]
    · exact le_of_lt ((verified_ranks f g).mp (newest g other same))
  have sorted := (mem_sortBy verifiedBefore _ f).mpr leads
  rw [keptFiles]
  cases order : sortBy verifiedBefore (leaders Prod.fst verifiedBefore verified) with
  | nil =>
    rw [order] at sorted
    cases sorted
  | cons first rest =>
    have first_inside : first ∈ leaders Prod.fst verifiedBefore verified := by
      rw [← mem_sortBy verifiedBefore, order]
      exact List.mem_cons_self
    have least := verified_ranks.head_least _ first rest order f leads
    have same : first = f := by
      by_contra other
      have later := (verified_ranks f first).mp
        (newest first ((mem_leaders _ _ _ _).mp first_inside).1 other)
      exact absurd later (not_lt.mpr least)
    obtain ⟨n, count⟩ : ∃ n, retention = n + 1 := ⟨retention - 1, by omega⟩
    rw [count, same, List.take_succ_cons]
    exact List.mem_cons_self

/-- A verified file is a checkpoint, with the time of its file. -/
theorem verifiedOn_dated (message : Errno → Bytes) (store : CheckpointStore) (backend : Backend σ)
    (state : σ) (d : Disk) (paths : List FsPath)
    (listed : checkpointFiles (diskSystem message) store d = .ok paths) (f : VerifiedFile)
    (inside : f ∈ verifiedOn message store backend state d paths) :
    IsCheckpoint store f.2.path ∧
      ∃ node, d.file f.2.path = some node ∧ node.modified = .ok f.2.modified := by
  obtain ⟨file, member, judged⟩ := (mem_passed _ _ _).mp inside
  obtain ⟨loaded, outcome, _, named⟩ := (verifiedOf_ok _ file f.1 f.2).mp judged
  obtain ⟨path, _⟩ := file
  simp only at outcome named
  subst outcome
  have among : path ∈ paths := by
    rw [← examine_paths (diskSystem message) store backend d paths state]
    exact List.mem_map_of_mem member
  rw [named]
  refine ⟨⟨?_, ?_⟩, ?_⟩
  · exact (checkpointFiles_entries (disk_iterates message _ d) paths listed).2 path among
  · exact ((mem_checkpointFiles _ store d paths listed path).mp among).2.2
  · obtain ⟨time, _⟩ := examine_loaded _ store backend d paths state path loaded _ member
    change _ = Disk.lastWriteTime path d at time
    rw [Disk.lastWriteTime] at time
    split at time
    · cases time
    · next node found => exact ⟨node, found, time.symm⟩

/-- A prune removes checkpoints only, and not the newest. -/
theorem prune_spares_newest (message : Errno → Bytes) (store : CheckpointStore)
    (retains : 1 ≤ store.options.retention) (backend : Backend σ) (state state' : σ) (d d' : Disk)
    (answer : Option (Result PruneReport))
    (ran : cpPrune (diskSystem message) store backend state d = (answer, state', d'))
    (path : FsPath) (node : FileNode) (found : d.file path = some node) (time : FileTime)
    (dated : node.modified = .ok time)
    (newest : ∀ other, IsCheckpoint store other → other ≠ path → ∀ older t,
      d.file other = some older → older.modified = .ok t → t < time) :
    d'.file path = d.file path ∧ Touches (IsCheckpoint store) d d' ∧
      ∀ other, d'.file other = d.file other ∨ d'.file other = none := by
  cases listed : checkpointFiles (diskSystem message) store d with
  | error e =>
    rw [cpPrune, listed] at ran
    cases ran
    exact ⟨rfl, .refl _ _, fun _ => .inl rfl⟩
  | ok paths =>
    obtain ⟨once, _, touches, fewer, _⟩ :=
      cpPrune_spec message store backend state state' d d' paths listed answer ran
    refine ⟨?_, touches.weaken ?_, fewer⟩
    · apply touches.file
      intro removed
      obtain ⟨f, among, dropped, here⟩ := removed
      subst here
      have own := (verifiedOn_dated message store backend state d paths listed f among).2
      obtain ⟨_, found', dated'⟩ := own
      rw [found] at found'
      cases found'
      rw [dated] at dated'
      cases dated'
      refine dropped (newest_kept _ retains _ f among fun g other different => ?_)
      obtain ⟨checkpoint, older, there, t⟩ :=
        verifiedOn_dated message store backend state d paths listed g other
      have apart : g.2.path ≠ f.2.path := fun same =>
        different (List.inj_on_of_nodup_map once other among same)
      have earlier := newest g.2.path checkpoint apart older g.2.modified there t
      rw [CheckpointFile.before, if_pos (ne_of_gt earlier)]
      exact decide_eq_true earlier
    · intro other removed
      obtain ⟨f, among, _, rfl⟩ := removed
      exact (verifiedOn_dated message store backend state d paths listed f among).1

end ConfigManager.Programs
