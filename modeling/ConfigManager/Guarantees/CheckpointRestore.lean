import ConfigManager.Guarantees.CheckpointAtomicity
import ConfigManager.Refinement.CheckpointSelection

/-!
# Restoring from the best checkpoint

What `cpPrepareRestore` answers on a directory that can be enumerated, for any
system, backend and runtime: which checkpoint it picks, and which it rejects.
-/

set_option autoImplicit false

namespace ConfigManager.Guarantees
open Library Source Reference Refinement

variable {φ σ : Type}

/-- The usable files among those examined, in the order of enumeration. -/
def usable (os : System φ) (supported : VersionId) (files : List Examined) :
    List LoadedCandidate := passed (candidateOf os supported) files

/-- The files that are not usable, with the reasons. -/
def unusable (os : System φ) (supported : VersionId) (files : List Examined) :
    List CheckpointRejection := rejections (candidateOf os supported) files

theorem candidate_named (os : System φ) (supported : VersionId) (files : List Examined) :
    ∀ file ∈ files, ∀ candidate, candidateOf os supported file = .ok candidate →
      candidate.path = file.1 := by
  intro file _ candidate judged
  obtain ⟨_, _, _, _, rfl⟩ := (candidateOf_ok os supported file candidate).mp judged
  rfl

/-- Every file is usable or not, once. -/
theorem usable_perm (os : System φ) (supported : VersionId) (files : List Examined) :
    ((unusable os supported files).map CheckpointRejection.path ++
      (usable os supported files).map LoadedCandidate.path).Perm (files.map Prod.fst) := by
  have parts := judged_perm (candidateOf os supported) Prod.fst LoadedCandidate.path files
    (candidate_named os supported files)
  simpa only [unusable, usable, rejections, List.map_map, Function.comp_def] using parts

/-- Usable files of one directory are ranked apart. -/
theorem usable_apart (os : System φ) (supported : VersionId) (files : List Examined)
    (directory : FsPath) (once : (files.map Prod.fst).Nodup)
    (entries : ∀ file ∈ files, Disk.IsEntry directory file.1) :
    KeyedApart candidateKey (usable os supported files) := by
  refine (passed_apart (candidateOf os supported) LoadedCandidate.path candidateKey files directory
    (candidate_named os supported files) (fun a b same => ?_) once entries).2
  simp only [candidateKey, fileKey, EmbeddingLike.apply_eq_iff_eq, Prod.mk.injEq] at same
  exact same.2.2

/-! ## Other names -/

/-- The directory at `s'` has the same files as at `s`, listed in any order, under the names that
`f` gives them. -/
structure Renamed (os : System φ) (s s' : φ) (f : FsPath → FsPath) (paths paths' : List FsPath) :
    Prop where
  names : paths'.Perm (paths.map f)
  contents : ∀ path ∈ paths, os.openFile (f path) s' = os.openFile path s
  times : ∀ path ∈ paths,
    (os.lastWriteTime (f path) s').toOption = (os.lastWriteTime path s).toOption

def renameCandidate (f : FsPath → FsPath) (candidate : LoadedCandidate) : LoadedCandidate :=
  { candidate with path := f candidate.path }

def renameRestore (f : FsPath → FsPath) (restore : PreparedRestore) : PreparedRestore :=
  { restore with checkpointPath := f restore.checkpointPath }

/-- A usable file stays usable under another name. -/
theorem candidate_renamed (os : System φ) (store : CheckpointStore) (backend : Backend σ)
    (supported : VersionId) (s s' : φ) (f : FsPath → FsPath) (path : FsPath) (state : σ)
    (content : os.openFile (f path) s' = os.openFile path s)
    (time : (os.lastWriteTime (f path) s').toOption = (os.lastWriteTime path s).toOption) :
    (candidateOf os supported (examineFile os store backend s' (f path) state).1).toOption =
      (candidateOf os supported (examineFile os store backend s path state).1).toOption.map
        (renameCandidate f) := by
  unfold examineFile
  cases read : readFileBytes os path store.options.maxFileBytes s with
  | error e =>
    cases read' : readFileBytes os (f path) store.options.maxFileBytes s' with
    | error e' => rfl
    | ok text =>
      -- What opens and reads under one name does under the other.
      rw [readFileBytes_ok, Readable, content] at read'
      rw [(readFileBytes_ok os path _ s text).mpr read'] at read
      cases read
  | ok text =>
    have read' := (readFileBytes_ok os path _ s text).mp read
    rw [Readable, ← content] at read'
    rw [(readFileBytes_ok os (f path) _ s' text).mpr read']
    simp only
    cases loadBytes backend text state with
    | mk result after =>
      cases result with
      | error e => rfl
      | ok loaded =>
        simp only [candidateOf]
        by_cases newer : loaded.version > supported
        · rw [if_pos newer, if_pos newer]
          rfl
        · rw [if_neg newer, if_neg newer]
          cases modified : os.lastWriteTime path s with
          | error e =>
            cases modified' : os.lastWriteTime (f path) s' with
            | error e' => rfl
            | ok t =>
              rw [modified, modified'] at time
              cases time
          | ok t =>
            cases modified' : os.lastWriteTime (f path) s' with
            | error e' =>
              rw [modified, modified'] at time
              cases time
            | ok t' =>
              rw [modified, modified'] at time
              cases time
              rfl

theorem usable_renamed (os : System φ) (store : CheckpointStore) (backend : Backend σ)
    (only : BytesOnly backend) (supported : VersionId) (s s' : φ) (f : FsPath → FsPath)
    (paths paths' : List FsPath) (renamed : Renamed os s s' f paths paths') (state state' : σ) :
    (usable os supported (examine os store backend s' paths' state').1).Perm
      ((usable os supported (examine os store backend s paths state).1).map (renameCandidate f)) := by
  rw [usable, usable, only.examine os store s' paths' state' state,
    only.examine os store s paths state state, passed_eq_filterMap, passed_eq_filterMap,
    List.filterMap_map, List.filterMap_map, List.map_filterMap]
  refine (renamed.names.filterMap _).trans ?_
  rw [List.filterMap_map]
  refine List.Perm.of_eq (List.filterMap_congr fun path inside => ?_)
  exact candidate_renamed os store backend supported s s' f path state
    (renamed.contents path inside) (renamed.times path inside)

/-- The landing of a renamed candidate is the renamed landing. -/
theorem landing_renamed (runtime : ConfigRuntime σ) (supported : VersionId) (world : World σ)
    (f : FsPath → FsPath) (candidate : LoadedCandidate) :
    landing runtime supported world (renameCandidate f candidate) =
      (landing runtime supported world candidate).map (renameRestore f) := by
  rw [landing, landing, renameCandidate]
  cases runtime.synchronize candidate.config supported world with
  | mk answer after =>
    obtain ⟨config, _⟩ := after
    rcases answer with e | (_ | _ | _)
    · rfl
    · by_cases version : config.version = supported
      · simp only [if_pos version]
        rfl
      · simp only [if_neg version]
        rfl
    · rfl
    · rfl

/-! ## The search -/

/-- The search over the files at `paths`. -/
def searchOf (os : System φ) (store : CheckpointStore) (backend : Backend σ)
    (runtime : ConfigRuntime σ) (supported : VersionId) (s : φ) (paths : List FsPath)
    (world : World σ) : RestoreSearch × World σ :=
  let examined := examine os store backend s paths world.callbacks
  tryCandidates runtime supported (sortBy LoadedCandidate.before (usable os supported examined.1))
    (unusable os supported examined.1) { world with callbacks := examined.2 }

theorem cpPrepareRestore_eq (os : System φ) (store : CheckpointStore) (backend : Backend σ)
    (runtime : ConfigRuntime σ) (supported : VersionId) (s : φ) (world : World σ)
    (registered : runtime.supportsVersion supported = true) (paths : List FsPath)
    (listed : checkpointFiles os store s = .ok paths) :
    cpPrepareRestore os store backend runtime supported s world =
      (.ok (searchOf os store backend runtime supported s paths world).1,
        (searchOf os store backend runtime supported s paths world).2) := by
  rw [cpPrepareRestore, registered, listed]
  simp only [Bool.not_true, Bool.false_eq_true, if_false, loadCandidates_eq, List.nil_append]
  rfl

/-- The search tries the usable files in their order. -/
theorem searchOf_spec (os : System φ) (store : CheckpointStore) (backend : Backend σ)
    (runtime : ConfigRuntime σ) (supported : VersionId) (s : φ) (paths : List FsPath)
    (world : World σ) :
    ∃ vain, (searchOf os store backend runtime supported s paths world).1.rejected =
        unusable os supported (examine os store backend s paths world.callbacks).1 ++ vain ∧
      Searched runtime supported
        (sortBy LoadedCandidate.before
          (usable os supported (examine os store backend s paths world.callbacks).1))
        { world with callbacks := (examine os store backend s paths world.callbacks).2 }
        (searchOf os store backend runtime supported s paths world).1.candidate vain
        (searchOf os store backend runtime supported s paths world).2 :=
  tryCandidates_spec runtime supported _ _ _ _ _ rfl

/-- Without state the result is that of the first candidate that lands. -/
theorem searchOf_first (os : System φ) (store : CheckpointStore) (backend : Backend σ)
    {runtime : ConfigRuntime σ} (stateless : Stateless runtime) (supported : VersionId) (s : φ)
    (paths : List FsPath) (world anywhere : World σ) :
    (searchOf os store backend runtime supported s paths world).1.candidate =
      (sortBy LoadedCandidate.before
        (usable os supported (examine os store backend s paths world.callbacks).1)).findSome?
          (landing runtime supported anywhere) := by
  obtain ⟨vain, _, searched⟩ := searchOf_spec os store backend runtime supported s paths world
  exact searched.first stateless anywhere

theorem search_renamed (os : System φ) (store : CheckpointStore) (backend : Backend σ)
    (only : BytesOnly backend) {runtime : ConfigRuntime σ} (stateless : Stateless runtime)
    (supported : VersionId) (s s' : φ) (f : FsPath → FsPath) (paths paths' : List FsPath)
    (renamed : Renamed os s s' f paths paths') (once : paths'.Nodup)
    (entries : ∀ path ∈ paths', Disk.IsEntry store.options.checkpointDirectory path)
    (world world₁ : World σ)
    (ties : ∀ a ∈ usable os supported (examine os store backend s paths world.callbacks).1,
      ∀ b ∈ usable os supported (examine os store backend s paths world.callbacks).1,
      a.sourceVersion = b.sourceVersion → a.modified = b.modified →
        textBefore (f a.path).string (f b.path).string = textBefore a.path.string b.path.string) :
    (searchOf os store backend runtime supported s' paths' world₁).1.candidate =
      (searchOf os store backend runtime supported s paths world).1.candidate.map
        (renameRestore f) := by
  have same := usable_renamed os store backend only supported s s' f paths paths' renamed
    world.callbacks world₁.callbacks
  have names : (examine os store backend s' paths' world₁.callbacks).1.map Prod.fst = paths' :=
    examine_paths os store backend s' paths' _
  have apart := usable_apart os supported (examine os store backend s' paths' world₁.callbacks).1
    store.options.checkpointDirectory (by rwa [names])
    fun file inside => entries _ (by rw [← names]; exact List.mem_map_of_mem inside)
  -- Renaming keeps every comparison that it could have changed.
  have keeps : ∀ a ∈ usable os supported (examine os store backend s paths world.callbacks).1,
      ∀ b ∈ usable os supported (examine os store backend s paths world.callbacks).1,
        (renameCandidate f a).before (renameCandidate f b) = a.before b := by
    intro a first b second
    change (if a.sourceVersion ≠ b.sourceVersion then decide (a.sourceVersion > b.sourceVersion)
      else if a.modified ≠ b.modified then decide (a.modified > b.modified)
      else textBefore (f a.path).string (f b.path).string) = a.before b
    rw [LoadedCandidate.before]
    by_cases version : a.sourceVersion = b.sourceVersion
    · by_cases time : a.modified = b.modified
      · simp only [if_neg (not_not.mpr version), if_neg (not_not.mpr time),
          ties a first b second version time]
      · simp only [if_pos time]
    · simp only [if_pos version]
  rw [searchOf_first os store backend stateless supported s' paths' world₁ world,
    searchOf_first os store backend stateless supported s paths world world,
    candidate_ranks.sort_congr _ _ same apart,
    sortBy_map LoadedCandidate.before LoadedCandidate.before (renameCandidate f) _ keeps,
    List.findSome?_map, List.map_findSome?]
  congr 1
  funext candidate
  exact landing_renamed runtime supported world f candidate

/-- Every file is rejected once at most, and all are when there is no candidate. -/
theorem searched_accounts (runtime : ConfigRuntime σ) (supported : VersionId)
    (order : List LoadedCandidate) (world world' : World σ) (found : Option PreparedRestore)
    (early vain : List CheckpointRejection) (paths : List FsPath) (once : paths.Nodup)
    (parts : (early.map CheckpointRejection.path ++ order.map LoadedCandidate.path).Perm paths)
    (searched : Searched runtime supported order world found vain world') :
    ((early ++ vain).map CheckpointRejection.path).Nodup ∧
      (found = none ↔ ∀ path ∈ paths, path ∈ (early ++ vain).map CheckpointRejection.path) := by
  have unique := parts.nodup_iff.mpr once
  rw [List.map_append]
  cases searched with
  | found tried rest candidate split rejected middle world' tries config lands =>
    rw [tries.paths]
    rw [split, List.map_append, List.map_cons, ← List.append_assoc] at unique parts
    obtain ⟨left, right, apart⟩ := List.nodup_append.mp unique
    refine ⟨left, by simp, fun all => ?_⟩
    have here := all candidate.path (parts.mem_iff.mp (by simp))
    exact absurd rfl (apart _ here candidate.path List.mem_cons_self)
  | exhausted rejected world' tries =>
    rw [tries.paths]
    exact ⟨unique, fun _ path inside => parts.mem_iff.mpr inside, fun _ => rfl⟩

/-- Restoring takes the first of the usable files, by version, time and name, that synchronizes,
and rejects the files that are not usable and those it tried before. Without state in the callbacks
the names matter to ties only, and the order of enumeration does not. -/
theorem prepareRestore_selects (os : System φ) (store : CheckpointStore) (backend : Backend σ)
    (runtime : ConfigRuntime σ) (supported : VersionId) (s : φ) (world : World σ)
    (registered : runtime.supportsVersion supported = true) (paths : List FsPath)
    (listed : checkpointFiles os store s = .ok paths)
    (iterates : Iterates os store.options.checkpointDirectory s) :
    let examined := examine os store backend s paths world.callbacks
    (∀ path, path ∈ paths ↔ os.fileExists store.options.checkpointDirectory s = .ok true ∧
      (path, .ok true) ∈ (os.list store.options.checkpointDirectory s).entries ∧
      isCheckpointFilename path store.options.canonicalPath.extension = true) ∧
    ∃ order vain search world',
      cpPrepareRestore os store backend runtime supported s world = (.ok search, world') ∧
      order.Perm (usable os supported examined.1) ∧
      order.Pairwise (fun a b => a.before b = true) ∧
      (∀ c ∈ order, c.sourceVersion = c.config.version ∧ c.sourceVersion ≤ supported) ∧
      Searched runtime supported order { world with callbacks := examined.2 } search.candidate vain
        world' ∧
      search.rejected = unusable os supported examined.1 ++ vain ∧
      (search.rejected.map CheckpointRejection.path).Nodup ∧
      (search.candidate = none ↔
        ∀ path ∈ paths, path ∈ search.rejected.map CheckpointRejection.path) ∧
      (Stateless runtime → BytesOnly backend → ∀ s' f paths' world₁ search' world₂,
        checkpointFiles os store s' = .ok paths' →
        Iterates os store.options.checkpointDirectory s' → Renamed os s s' f paths paths' →
        (∀ a ∈ order, ∀ b ∈ order, a.sourceVersion = b.sourceVersion → a.modified = b.modified →
          textBefore (f a.path).string (f b.path).string =
            textBefore a.path.string b.path.string) →
        cpPrepareRestore os store backend runtime supported s' world₁ = (.ok search', world₂) →
        search'.candidate = search.candidate.map (renameRestore f)) := by
  intro examined
  obtain ⟨once, entries⟩ := checkpointFiles_entries iterates paths listed
  have names : examined.1.map Prod.fst = paths := examine_paths os store backend s paths _
  have parts := usable_perm os supported examined.1
  rw [names] at parts
  have apart := usable_apart os supported examined.1 store.options.checkpointDirectory
    (by rwa [names]) fun file inside => entries _ (by rw [← names]; exact List.mem_map_of_mem inside)
  have distinct : (usable os supported examined.1).Nodup :=
    (List.nodup_append.mp (parts.nodup_iff.mpr once)).2.1.of_map _
  have sorted := sortBy_perm LoadedCandidate.before (usable os supported examined.1)
  obtain ⟨vain, rejected, searched⟩ := searchOf_spec os store backend runtime supported s paths world
  have parts' := ((sorted.map LoadedCandidate.path).append_left _).trans parts
  have accounts := searched_accounts runtime supported _ _ _ _
    (unusable os supported examined.1) vain paths once parts' searched
  refine ⟨mem_checkpointFiles os store s paths listed, _, vain, _, _, cpPrepareRestore_eq os store
    backend runtime supported s world registered paths listed, sorted, ?_, ?_, searched, rejected,
    ?_, ?_, ?_⟩
  · exact (candidate_ranks.sorted_strictly _ apart distinct).imp fun less =>
      (candidate_ranks _ _).mpr less
  · intro c inside
    obtain ⟨file, _, judged⟩ := (mem_passed _ _ _).mp (sorted.mem_iff.mp inside)
    obtain ⟨_, _, _, bound, rfl⟩ := (candidateOf_ok os supported file c).mp judged
    exact ⟨rfl, bound⟩
  · rw [rejected]
    exact accounts.1
  · rw [rejected]
    exact accounts.2
  · intro stateless only s' f paths' world₁ search' world₂ listed' iterates' renamed ties ran
    obtain ⟨once', entries'⟩ := checkpointFiles_entries iterates' paths' listed'
    rw [cpPrepareRestore_eq os store backend runtime supported s' world₁ registered paths' listed']
      at ran
    cases ran
    refine search_renamed os store backend only stateless supported s s' f paths paths' renamed once'
      entries' world world₁ fun a first b second => ?_
    exact ties a (sorted.mem_iff.mpr first) b (sorted.mem_iff.mpr second)

/-! ## Two checkpoints of one version -/

/-- One version, whose defaults are empty. -/
def singleVersion : ConfigRuntime σ :=
  ⟨⟨[⟨1, ⟨fun state => (.returned ⟨ConfigValue.object, by decide⟩, state)⟩⟩], by simp⟩, {}⟩

theorem singleVersion_stateless : Stateless (singleVersion : ConfigRuntime σ) := by
  refine ⟨by simp [singleVersion], fun entry member state state' => ?_⟩
  obtain rfl := List.mem_singleton.mp member
  rfl

/-- A document says whether there is a member. -/
def switchBackend : Backend σ where
  load text state :=
    (.returned (.ok ⟨1, if text = bytes "on"
      then (ConfigModel.empty.set (bytes "k") (ConfigValue.of (.bool true))).2
      else ConfigModel.empty⟩), state)
  save _ state := (.returned (.ok ()), {}, state)

/-- It loads one document and refuses every other. -/
def onceBackend : Backend Bool where
  load _ state :=
    if state then (.returned (fail .parseError (bytes "again")), true)
    else (.returned (.ok ⟨1, ConfigModel.empty⟩), true)
  save _ state := (.returned (.ok ()), {}, state)

def checkpointOf (version : VersionId) : FsPath := appStore.destination version

/-- Two checkpoints that were written at the same time. -/
def tiedDisk (a b : VersionId) (first second : Bytes) : Disk :=
  { appDisk with
    files := (AList.singleton (checkpointOf b) { bytes := second, modified := .ok 5 }).insert
      (checkpointOf a) { bytes := first, modified := .ok 5 }
    directories := [appStore.options.checkpointDirectory] }

def restoredPath (answer : Result RestoreSearch × World σ) : Option FsPath :=
  match answer.1 with
  | .ok ⟨some restored, _⟩ => some restored.checkpointPath
  | _ => none

def restoredMember (answer : Result RestoreSearch × World σ) : Option Bool :=
  match answer.1 with
  | .ok ⟨some restored, _⟩ => some (restored.config.model.contains (bytes "k"))
  | _ => none

theorem tiedDisk_selects :
    ∃ search world', cpPrepareRestore (diskSystem natText) appStore switchBackend singleVersion 1
        (tiedDisk 1 2 (bytes "on") (bytes "off")) ⟨(), []⟩ = (.ok search, world') ∧
      (search.rejected.map CheckpointRejection.path).Nodup := by
  obtain ⟨_, order, vain, search, world', ran, _, _, _, _, _, once, _⟩ :=
    prepareRestore_selects (diskSystem natText) appStore switchBackend singleVersion 1
      (tiedDisk 1 2 (bytes "on") (bytes "off")) ⟨(), []⟩ rfl [checkpointOf 1, checkpointOf 2]
      (by decide +kernel) (disk_iterates _ _ _)
  exact ⟨search, world', ran, once⟩

/-- The other one's name. -/
def swapNames (path : FsPath) : FsPath :=
  if path = checkpointOf 1 then checkpointOf 2 else checkpointOf 1

/-- When version and time tie, exchanging the digits of two names exchanges the documents; and a
backend that keeps state sees the order of enumeration. -/
theorem digits_decide_ties :
    let d := tiedDisk 1 2 (bytes "on") (bytes "off")
    let swapped := tiedDisk 1 2 (bytes "off") (bytes "on")
    let reordered := tiedDisk 2 1 (bytes "off") (bytes "on")
    let paths := [checkpointOf 1, checkpointOf 2]
    let os := diskSystem natText
    (Stateless (singleVersion : ConfigRuntime Unit) ∧ BytesOnly (switchBackend : Backend Unit) ∧
      checkpointFiles os appStore d = .ok paths ∧ checkpointFiles os appStore swapped = .ok paths ∧
      Renamed os d swapped swapNames paths paths ∧
      restoredMember (cpPrepareRestore os appStore switchBackend singleVersion 1 d ⟨(), []⟩) =
        some true ∧
      restoredMember (cpPrepareRestore os appStore switchBackend singleVersion 1 swapped ⟨(), []⟩) =
        some false) ∧
    (Stateless (singleVersion : ConfigRuntime Bool) ∧
      Renamed os d reordered id paths [checkpointOf 2, checkpointOf 1] ∧
      restoredPath (cpPrepareRestore os appStore onceBackend singleVersion 1 d ⟨false, []⟩) =
        some (checkpointOf 1) ∧
      restoredPath (cpPrepareRestore os appStore onceBackend singleVersion 1 reordered ⟨false, []⟩) =
        some (checkpointOf 2)) := by
  have both : ∀ {P : FsPath → Prop}, P (checkpointOf 1) → P (checkpointOf 2) →
      ∀ path ∈ [checkpointOf 1, checkpointOf 2], P path := by
    intro P one two path inside
    rcases List.mem_cons.mp inside with rfl | inside
    · exact one
    · obtain rfl := List.mem_singleton.mp inside
      exact two
  refine ⟨⟨singleVersion_stateless, fun _ _ _ => rfl, by decide +kernel, by decide +kernel,
    ⟨by decide +kernel, both rfl rfl, both rfl rfl⟩, by decide +kernel, by decide +kernel⟩,
    singleVersion_stateless, ⟨by decide +kernel, both rfl rfl, both rfl rfl⟩, by decide +kernel,
    by decide +kernel⟩

end ConfigManager.Guarantees
