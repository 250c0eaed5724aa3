import ConfigManager.Guarantees.CheckpointAtomicity
import ConfigManager.Refinement.CheckpointHistory

/-!
# The lifecycle of checkpoints

Captures and prunes of one store in any order, while everything outside the
checkpoint directory may change: what the directory holds is an invariant, and
after a prune it is exactly the most recently captured versions.
-/

set_option autoImplicit false

namespace ConfigManager.Guarantees
open Library Source Reference Refinement

variable {σ : Type}

/-- What others may do between the calls: anything outside the checkpoint directory. -/
structure LeavesDirectory (store : CheckpointStore) (d d' : Disk) : Prop where
  entries : ∀ path, Disk.IsEntry store.options.checkpointDirectory path → d'.file path = d.file path
  here : d'.file store.options.checkpointDirectory = d.file store.options.checkpointDirectory
  present : store.options.checkpointDirectory ∈ d.directories →
    store.options.checkpointDirectory ∈ d'.directories

/-- A run of captures and prunes, with the captures newest first. -/
inductive Lived (message : Errno → Bytes) (store : CheckpointStore) (backend : Backend σ) :
    List Capture → Disk → Prop where
  | start (d : Disk)
      (empty : ∀ path, Disk.IsEntry store.options.checkpointDirectory path → d.file path = none)
      (free : d.file store.options.checkpointDirectory = none) : Lived message store backend [] d
  | between (history : List Capture) (d d' : Disk) (lived : Lived message store backend history d)
      (leaves : LeavesDirectory store d d') : Lived message store backend history d'
  | captured (history : List Capture) (d d' : Disk) (lived : Lived message store backend history d)
      (config : VersionedConfig) (state state' : σ)
      (ran : cpCapture (diskSystem message) store config backend state d =
        (some (.ok ()), state', d'))
      (canonical node : FileNode) (found : d.file store.options.canonicalPath = some canonical)
      (made : d'.file (store.destination config.version) = some node) (time : FileTime)
      (dated : node.modified = .ok time) (later : ∀ older ∈ history, older.time < time) :
      Lived message store backend (⟨config.version, canonical.bytes, time⟩ :: history) d'
  | pruned (history : List Capture) (d d' : Disk) (lived : Lived message store backend history d)
      (state state' : σ) (answer : Option (Result PruneReport))
      (ran : cpPrune (diskSystem message) store backend state d = (answer, state', d')) :
      Lived message store backend history d'

/-- The checkpoints in the directory are those of the versions in `held`, each with its last
capture, and among them are the most recently captured versions. -/
structure Holding (store : CheckpointStore) (backend : Backend σ) (history : List Capture)
    (held : List VersionId) (d : Disk) : Prop where
  sub : held.Sublist (recentVersions history)
  front : (recentVersions history).take store.options.retention <+: held
  files : ∀ v ∈ held, ∀ c, latest history v = some c →
    d.file (store.destination v) = some { bytes := c.text, modified := .ok c.time }
  nothingElse : ∀ path, IsCheckpoint store path → d.file path ≠ none →
    ∃ v ∈ held, path = store.destination v
  directory : d.file store.options.checkpointDirectory = none
  present : held ≠ [] → store.options.checkpointDirectory ∈ d.directories
  loads : ∀ c ∈ history, c.text.length ≤ store.options.maxFileBytes ∧
    ∀ state, ∃ loaded, (loadBytes backend c.text state).1 = .ok loaded ∧ loaded.version = c.version
  descending : history.Pairwise fun newer older => older.time < newer.time

theorem destination_checkpoint (store : CheckpointStore) (version : VersionId) :
    IsCheckpoint store (store.destination version) := by
  refine ⟨?_, checkpoint_recognised _ _ _ (extension_shape _)⟩
  rw [Disk.IsEntry, CheckpointStore.destination, filename_child]

theorem destination_injective (store : CheckpointStore) (v w : VersionId)
    (same : store.destination v = store.destination w) : v = w :=
  checkpointFilename_injective v w _ (child_injective _ _ _ same)

/-- A checkpoint is not the directory itself. -/
theorem checkpoint_ne_directory (store : CheckpointStore) (path : FsPath)
    (checkpoint : IsCheckpoint store path) : path ≠ store.options.checkpointDirectory := by
  obtain ⟨entry, recognised⟩ := checkpoint
  rw [Disk.IsEntry] at entry
  rw [entry]
  apply child_ne
  intro empty
  have stem : path.stem = [] := by
    rw [FsPath.stem, empty]
    rfl
  rw [isCheckpointFilename, stem] at recognised
  split at recognised <;> cases recognised

/-! ## What a prune finds -/

/-- The verified file of a version. -/
def heldFile (store : CheckpointStore) (history : List Capture) (v : VersionId) : VerifiedFile :=
  (v, ⟨store.destination v, ((latest history v).map Capture.time).getD 0⟩)

section
variable {message : Errno → Bytes} {store : CheckpointStore} {backend : Backend σ}
  {history : List Capture} {held : List VersionId} {d : Disk}
  (holding : Holding store backend history held d)
include holding

theorem Holding.latest_held (v : VersionId) (inside : v ∈ held) :
    ∃ c ∈ history, latest history v = some c ∧ c.version = v := by
  obtain ⟨c, last⟩ := latest_exists history v (holding.sub.mem inside)
  obtain ⟨member, version⟩ := latest_mem history v c last
  exact ⟨c, member, last, version⟩

theorem Holding.verified (v : VersionId) (inside : v ∈ held) (state : σ) :
    verifiedOf (diskSystem message)
      (examineFile (diskSystem message) store backend d (store.destination v) state).1 =
        .ok (heldFile store history v) := by
  obtain ⟨c, member, last, version⟩ := holding.latest_held v inside
  have file := holding.files v inside c last
  obtain ⟨within, loads⟩ := holding.loads c member
  obtain ⟨loaded, answered, same⟩ := loads state
  have opened : (diskSystem message).openFile (store.destination v) d = some ⟨c.text, true⟩ := by
    change Disk.openFile _ d = _
    rw [Disk.openFile, file]
    rfl
  have read := (readFileBytes_ok (diskSystem message) (store.destination v)
    store.options.maxFileBytes d c.text).mpr ⟨opened, within⟩
  have time : (diskSystem message).lastWriteTime (store.destination v) d = .ok c.time := by
    change Disk.lastWriteTime _ d = _
    rw [Disk.lastWriteTime, file]
  cases ran : loadBytes backend c.text state with
  | mk result after =>
    rw [ran] at answered
    simp only at answered
    subst answered
    rw [examineFile, read]
    simp only [ran, time, verifiedOf, heldFile, last, Option.map_some, Option.getD_some, same, version]

theorem Holding.paths (paths : List FsPath)
    (listed : checkpointFiles (diskSystem message) store d = .ok paths) :
    paths.Perm (held.map store.destination) := by
  have distinct : held.Nodup := (recency_nodup _).sublist holding.sub
  have once := (checkpointFiles_entries (disk_iterates message _ d) paths listed).1
  refine (List.perm_ext_iff_of_nodup once (distinct.map fun v w same =>
    destination_injective store v w same)).mpr fun path => ?_
  rw [mem_checkpointFiles _ store d paths listed, disk_entries, List.mem_map]
  constructor
  · rintro ⟨_, ⟨entry, node, found, _⟩, recognised⟩
    obtain ⟨v, inside, rfl⟩ := holding.nothingElse path ⟨entry, recognised⟩ (by simp [found])
    exact ⟨v, inside, rfl⟩
  · rintro ⟨v, inside, rfl⟩
    obtain ⟨c, _, last, _⟩ := holding.latest_held v inside
    obtain ⟨entry, recognised⟩ := destination_checkpoint store v
    refine ⟨?_, ⟨entry, _, holding.files v inside c last, rfl⟩, recognised⟩
    rcases (checkpointFiles_ok _ store d paths).mp listed with ⟨missing, _⟩ | ⟨⟨there, _⟩, _⟩
    · have present := holding.present (List.ne_nil_of_mem inside)
      change d.status _ = _ at missing
      rw [Disk.status, holding.directory] at missing
      split at missing
      · cases missing
      · simp [present] at missing
    · exact there

/-- A prune ranks the held versions as they were captured. -/
theorem Holding.kept (only : BytesOnly backend) (state : σ) (paths : List FsPath)
    (listed : checkpointFiles (diskSystem message) store d = .ok paths) (retention : Nat) :
    (verifiedOn message store backend state d paths).Perm (held.map (heldFile store history)) ∧
      keptFiles retention (verifiedOn message store backend state d paths) =
        (held.take retention).map (heldFile store history) := by
  have distinct : held.Nodup := (recency_nodup _).sublist holding.sub
  have found : (verifiedOn message store backend state d paths).Perm
      (held.map (heldFile store history)) := by
    rw [verifiedOn, verifiedFiles, only.examine _ store d paths state state, passed_eq_filterMap,
      List.filterMap_map]
    refine ((holding.paths paths listed).filterMap _).trans (.of_eq ?_)
    rw [List.filterMap_map, ← List.filterMap_eq_map']
    apply List.filterMap_congr
    intro v inside
    simp only [Function.comp_apply, holding.verified v inside state]
    rfl
  refine ⟨found, ?_⟩
  have ascending : (held.map (heldFile store history)).Pairwise
      fun a b => verifiedKey a < verifiedKey b := by
    rw [List.pairwise_map]
    refine ((recentVersions_descending history holding.descending).sublist holding.sub).imp_of_mem ?_
    intro v w first second before
    obtain ⟨c, _, last, _⟩ := holding.latest_held v first
    obtain ⟨c', _, last', _⟩ := holding.latest_held w second
    have earlier := before c c' last last'
    refine (verified_ranks _ _).mp ?_
    simp only [verifiedBefore, heldFile, last, last', CheckpointFile.before, Option.map_some,
      Option.getD_some]
    rw [if_pos (ne_of_gt earlier)]
    simpa using earlier
  have apart := keyedApart_of_ascending verifiedKey _ ascending
  have alone : ((verifiedOn message store backend state d paths).map Prod.fst).Nodup := by
    rw [(found.map Prod.fst).nodup_iff, List.map_map]
    exact distinct.map fun v w same => same
  rw [keptFiles, verified_ranks.leaders_alone alone, List.map_take]
  congr 1
  rw [verified_ranks.sort_congr _ _ found fun a first b second =>
    apart a (found.mem_iff.mp first) b (found.mem_iff.mp second)]
  exact verified_ranks.sort_sorted _ ascending

end

/-! ## The steps of a run -/

/-- What passes at the front of a list is kept, and the rest is filtered. -/
theorem filter_behind {β : Type} (l : List β) (n : Nat) (p : β → Bool)
    (front : ∀ v ∈ l.take n, p v = true) : l.filter p = l.take n ++ (l.drop n).filter p := by
  nth_rewrite 1 [← List.take_append_drop n l]
  rw [List.filter_append, List.filter_eq_self.mpr front]

theorem holding_start (store : CheckpointStore) (backend : Backend σ) (d : Disk)
    (empty : ∀ path, Disk.IsEntry store.options.checkpointDirectory path → d.file path = none)
    (free : d.file store.options.checkpointDirectory = none) : Holding store backend [] [] d where
  sub := .slnil
  front := by simp [recentVersions, recency]
  files := by simp
  nothingElse path checkpoint there := absurd (empty path checkpoint.1) there
  directory := free
  present := by simp
  loads := by simp
  descending := .nil

section
variable {message : Errno → Bytes} {store : CheckpointStore} {backend : Backend σ}
  {history : List Capture} {held : List VersionId} {d d' : Disk}
  (holding : Holding store backend history held d)
include holding

theorem Holding.between (leaves : LeavesDirectory store d d') :
    Holding store backend history held d' where
  sub := holding.sub
  front := holding.front
  files v inside c last := by
    rw [leaves.entries _ (destination_checkpoint store v).1]
    exact holding.files v inside c last
  nothingElse path checkpoint there := by
    rw [leaves.entries path checkpoint.1] at there
    exact holding.nothingElse path checkpoint there
  directory := leaves.here.trans holding.directory
  present some := leaves.present (holding.present some)
  loads := holding.loads
  descending := holding.descending

/-- A capture touches its version. -/
theorem Holding.captured (only : BytesOnly backend) (config : VersionedConfig) (state state' : σ)
    (ran : cpCapture (diskSystem message) store config backend state d =
      (some (.ok ()), state', d'))
    (canonical node : FileNode) (found : d.file store.options.canonicalPath = some canonical)
    (made : d'.file (store.destination config.version) = some node) (time : FileTime)
    (dated : node.modified = .ok time) (later : ∀ older ∈ history, older.time < time) :
    Holding store backend (⟨config.version, canonical.bytes, time⟩ :: history)
      (touch config.version held) d' := by
  rcases cpCapture_spec message store config backend state state' d d' _ ran with
    ⟨_, ⟨text, captured, written, complete⟩, touches, present⟩ | ⟨unsuccessful, _⟩
  · obtain ⟨within, ⟨_, found', rfl⟩, loaded, accepted, agrees⟩ :=
      captureBytes_read message store config backend state state' d text captured
    rw [found] at found'
    cases found'
    rw [complete] at made
    cases made
    cases dated
    refine ⟨touch_sublist _ _ _ holding.sub, touch_front _ _ _ _ holding.front, ?_, ?_, ?_,
      fun _ => present, ?_, List.pairwise_cons.mpr ⟨later, holding.descending⟩⟩
    · intro v inside c last
      by_cases same : v = config.version
      · subst same
        rw [latest_self ⟨config.version, canonical.bytes, time⟩] at last
        cases last
        exact complete
      · rw [latest_other _ _ v same] at last
        rw [touches.file _ fun here => same (destination_injective store v config.version here)]
        exact holding.files v (((mem_touch _ _ _).mp inside).resolve_left same) c last
    · intro path checkpoint there
      by_cases here : path = store.destination config.version
      · exact ⟨config.version, by simp, here⟩
      · rw [touches.file path here] at there
        obtain ⟨v, inside, placed⟩ := holding.nothingElse path checkpoint there
        exact ⟨v, by simp [inside], placed⟩
    · rw [touches.file _ fun here => checkpoint_ne_directory store _
        (destination_checkpoint store config.version) here.symm]
      exact holding.directory
    · intro c inside
      rcases List.mem_cons.mp inside with rfl | older
      · refine ⟨within, fun anywhere => ⟨loaded, ?_, agrees⟩⟩
        rw [only.loadBytes canonical.bytes anywhere state, accepted]
      · exact holding.loads c older
  · exact absurd rfl unsuccessful

theorem Holding.present_file (v : VersionId) (inside : v ∈ held) :
    d.file (store.destination v) ≠ none := by
  obtain ⟨c, _, last, _⟩ := holding.latest_held v inside
  rw [holding.files v inside c last]
  simp

/-- A version is held once, so one behind the front is not in it. -/
theorem Holding.behind_front (n : Nat) (v : VersionId) (behind : v ∈ held.drop n) :
    heldFile store history v ∉ (held.take n).map (heldFile store history) := by
  have distinct : held.Nodup := (recency_nodup _).sublist holding.sub
  intro member
  obtain ⟨w, taken, named⟩ := List.mem_map.mp member
  obtain rfl : w = v := congrArg Prod.fst named
  exact List.disjoint_take_drop distinct (le_refl _) taken behind

/-- A prune may drop versions behind the front, and drops them all when it succeeds. -/
theorem Holding.pruned (only : BytesOnly backend) (state state' : σ)
    (answer : Option (Result PruneReport))
    (ran : cpPrune (diskSystem message) store backend state d = (answer, state', d')) :
    ∃ held', Holding store backend history held' d' ∧ ∀ report, answer = some (.ok report) →
      held' = held.take store.options.retention := by
  cases listed : checkpointFiles (diskSystem message) store d with
  | error e =>
    rw [cpPrune, listed] at ran
    cases ran
    exact ⟨held, holding, by simp⟩
  | ok paths =>
    obtain ⟨found, kept⟩ := holding.kept only state paths listed store.options.retention
    obtain ⟨_, _, touches, fewer, done⟩ :=
      cpPrune_spec message store backend state state' d d' paths listed answer ran
    rw [kept] at touches done
    have spared : ∀ v ∈ held.take store.options.retention,
        d'.file (store.destination v) = d.file (store.destination v) := by
      intro v inside
      apply touches.file
      rintro ⟨f, among, dropped, here⟩
      obtain ⟨w, _, rfl⟩ := List.mem_map.mp (found.mem_iff.mp among)
      obtain rfl := destination_injective store w v here
      exact dropped (List.mem_map_of_mem inside)
    have same : ∀ path, d'.file path ≠ none → d'.file path = d.file path :=
      fun path some => (fewer path).resolve_right some
    have split : held.filter (fun v => (d'.file (store.destination v)).isSome) =
        held.take store.options.retention ++ (held.drop store.options.retention).filter
          (fun v => (d'.file (store.destination v)).isSome) := by
      apply filter_behind
      intro v inside
      rw [spared v inside, Option.isSome_iff_ne_none]
      exact holding.present_file v (List.mem_of_mem_take inside)
    refine ⟨held.filter fun v => (d'.file (store.destination v)).isSome,
      ⟨List.filter_sublist.trans holding.sub, ?_, ?_, ?_, ?_, ?_, holding.loads,
        holding.descending⟩, fun report success => ?_⟩
    · rw [split, ← take_of_front _ _ _ holding.front holding.sub]
      exact List.prefix_append _ _
    · intro v inside c last
      obtain ⟨before, remains⟩ := List.mem_filter.mp inside
      rw [same _ (Option.isSome_iff_ne_none.mp remains)]
      exact holding.files v before c last
    · intro path checkpoint remains
      obtain ⟨v, inside, rfl⟩ := holding.nothingElse path checkpoint (same path remains ▸ remains)
      exact ⟨v, List.mem_filter.mpr ⟨inside, Option.isSome_iff_ne_none.mpr remains⟩, rfl⟩
    · rcases fewer store.options.checkpointDirectory with unchanged | gone
      · exact unchanged.trans holding.directory
      · exact gone
    · intro some
      refine touches.directories _ (holding.present fun none => some ?_)
      rw [none]
      rfl
    · obtain ⟨_, gone, _⟩ := done report success
      rw [split, List.filter_eq_nil_iff.mpr, List.append_nil]
      intro v behind
      have whole : v ∈ held := List.mem_of_mem_drop behind
      have dropped := holding.behind_front store.options.retention v behind
      have erased := gone _ (found.mem_iff.mpr (List.mem_map_of_mem whole)) dropped
      simp only [heldFile] at erased
      rw [erased]
      simp

end

theorem lived_holding (message : Errno → Bytes) (store : CheckpointStore) (backend : Backend σ)
    (only : BytesOnly backend) (history : List Capture) (d : Disk)
    (lived : Lived message store backend history d) :
    ∃ held, Holding store backend history held d := by
  induction lived with
  | start d empty free => exact ⟨[], holding_start store backend d empty free⟩
  | between history d d' lived leaves ih =>
    obtain ⟨held, holding⟩ := ih
    exact ⟨held, holding.between leaves⟩
  | captured history d d' lived config state state' ran canonical node found made time dated later
      ih =>
    obtain ⟨held, holding⟩ := ih
    exact ⟨_, holding.captured only config state state' ran canonical node found made time dated
      later⟩
  | pruned history d d' lived state state' answer ran ih =>
    obtain ⟨held, holding⟩ := ih
    obtain ⟨held', holding', _⟩ := holding.pruned only state state' answer ran
    exact ⟨held', holding'⟩

/-- After any run of captures and prunes, a prune leaves exactly the checkpoints of the most
recently captured versions, each with its last canonical bytes; and no capture changes the
checkpoint of another version. -/
theorem lifecycle (message : Errno → Bytes) (store : CheckpointStore)
    (retains : 1 ≤ store.options.retention) (backend : Backend σ) (only : BytesOnly backend)
    (history : List Capture) (d : Disk) (lived : Lived message store backend history d)
    (state state' : σ) (d' : Disk) :
    (∀ report, cpPrune (diskSystem message) store backend state d =
        (some (.ok report), state', d') →
      let recent := (recentVersions history).take store.options.retention
      recent.Nodup ∧
      recent.length = min store.options.retention (history.map Capture.version).dedup.length ∧
      (∀ path, IsCheckpoint store path ∧ d'.file path ≠ none ↔
        ∃ v ∈ recent, path = store.destination v) ∧
      (∀ v ∈ recent, ∃ c, latest history v = some c ∧ FileHolds d' (store.destination v) c.text ∧
        ∀ anywhere, ∃ loaded, (loadBytes backend c.text anywhere).1 = .ok loaded ∧
          loaded.version = v) ∧
      ∀ c older, history = c :: older → c.version ∈ recent) ∧
    ∀ config answer, cpCapture (diskSystem message) store config backend state d =
        (answer, state', d') →
      ∀ v, v ≠ config.version → d'.file (store.destination v) = d.file (store.destination v) := by
  constructor
  · intro report ran
    obtain ⟨held, holding⟩ := lived_holding message store backend only history d lived
    obtain ⟨held', holding', all⟩ := holding.pruned only state state' _ ran
    have kept : held' = (recentVersions history).take store.options.retention := by
      rw [all report rfl]
      exact take_of_front _ _ _ holding.front holding.sub
    subst kept
    refine ⟨(recency_nodup _).sublist (List.take_sublist _ _), ?_, fun path => ⟨?_, ?_⟩, ?_, ?_⟩
    · rw [List.length_take, recentVersions, (recency_perm _).length_eq]
    · rintro ⟨checkpoint, there⟩
      exact holding'.nothingElse path checkpoint there
    · rintro ⟨v, inside, rfl⟩
      obtain ⟨c, _, last, _⟩ := holding'.latest_held v inside
      refine ⟨destination_checkpoint store v, ?_⟩
      rw [holding'.files v inside c last]
      simp
    · intro v inside
      obtain ⟨c, member, last, rfl⟩ := holding'.latest_held v inside
      exact ⟨c, last, ⟨c.time, holding'.files _ inside c last⟩, (holding'.loads c member).2⟩
    · rintro c older rfl
      obtain ⟨n, count⟩ : ∃ n, store.options.retention = n + 1 := ⟨_, (Nat.sub_add_cancel retains).symm⟩
      rw [count, recentVersions, List.map_cons, recency, touch, List.take_succ_cons]
      exact List.mem_cons_self
  · intro config answer ran v other
    have apart : ¬ store.destination v = store.destination config.version :=
      fun same => other (destination_injective store v config.version same)
    rcases cpCapture_spec message store config backend state state' d d' answer ran with
      ⟨_, _, touches, _⟩ | ⟨_, touches⟩
    · exact touches.file _ apart
    · exact touches.file _ fun new =>
        checkpoint_not_temporary store _ _ (destination_checkpoint store v) new.1

/-! ## Three versions, one captured twice -/

/-- Another release is in place of the canonical file, and the system fails no call. -/
def shipped (text : Bytes) (time : FileTime) (d : Disk) : Disk :=
  { d with
    files := d.files.insert appStore.options.canonicalPath { bytes := text, modified := .ok time }
    schedule := List.replicate 40 { count := 3, ticks := 7, time := time } }

/-- The disk after the release was captured. -/
def captured (version : VersionId) (text : Bytes) (time : FileTime) (d : Disk) : Disk :=
  (cpCapture (diskSystem natText) appStore ⟨version, ConfigModel.empty⟩ numberBackend ()
    (shipped text time d)).2.2

theorem shipped_leavesDirectory (text : Bytes) (time : FileTime) (d : Disk) :
    LeavesDirectory appStore d (shipped text time d) := by
  refine ⟨fun path entry => AList.lookup_insert_ne ?_, AList.lookup_insert_ne (by decide), id⟩
  rintro rfl
  exact absurd entry (by decide)

theorem captured_lived (history : List Capture) (d : Disk)
    (lived : Lived natText appStore numberBackend history d) (version : VersionId) (text : Bytes)
    (time : FileTime)
    (success : (cpCapture (diskSystem natText) appStore ⟨version, ConfigModel.empty⟩ numberBackend ()
      (shipped text time d)).1 = some (.ok ()))
    (dated : ((captured version text time d).file (appStore.destination version)).bind
      (fun node => node.modified.toOption) = some time)
    (later : ∀ older ∈ history, older.time < time) :
    Lived natText appStore numberBackend (⟨version, text, time⟩ :: history)
      (captured version text time d) := by
  have before := Lived.between history d _ lived (shipped_leavesDirectory text time d)
  have found : (shipped text time d).file appStore.options.canonicalPath =
      some { bytes := text, modified := .ok time } := AList.lookup_insert _
  rcases cpCapture_spec natText appStore ⟨version, ConfigModel.empty⟩ numberBackend () _
    (shipped text time d) _ _ rfl with ⟨_, ⟨_, _, stamp, complete⟩, _⟩ | ⟨unsuccessful, _⟩
  · have same : stamp = time := by
      have made : (captured version text time d).file (appStore.destination version) = _ := complete
      rw [made] at dated
      exact Option.some.inj dated
    subst same
    exact .captured history _ _ before ⟨version, ConfigModel.empty⟩ () _ (Prod.ext success rfl) _ _
      found complete stamp rfl later
  · exact absurd success unsuccessful

/-- The first, the second, the first again and the third version are captured in turn. -/
def releasesDisk : Disk :=
  captured 3 (bytes "3 latest") 12 (captured 1 (bytes "1 again") 11
    (captured 2 (bytes "2 next") 10 (captured 1 (bytes "1 # as shipped") 9 appDisk)))

theorem releasesDisk_lived :
    Lived natText appStore numberBackend [⟨3, bytes "3 latest", 12⟩, ⟨1, bytes "1 again", 11⟩,
      ⟨2, bytes "2 next", 10⟩, ⟨1, bytes "1 # as shipped", 9⟩] releasesDisk := by
  have empty : Lived natText appStore numberBackend [] appDisk := by
    refine .start appDisk (fun path entry => AList.lookup_eq_none.mpr fun inside => ?_) rfl
    obtain rfl : path = appStore.options.canonicalPath := by
      simpa [appDisk, AList.mem_keys] using inside
    exact absurd entry (by decide)
  refine captured_lived _ _ ?_ _ _ _ (by decide +kernel) (by decide +kernel) (by simp)
  refine captured_lived _ _ ?_ _ _ _ (by decide +kernel) (by decide +kernel) (by simp)
  refine captured_lived _ _ ?_ _ _ _ (by decide +kernel) (by decide +kernel) (by simp)
  exact captured_lived _ _ empty _ _ _ (by decide +kernel) (by decide +kernel) (by simp)

/-- Retention 2 keeps the third version and the second capture of the first one. -/
theorem releasesDisk_pruned :
    let d := (cpPrune (diskSystem natText) appStore numberBackend () releasesDisk).2.2
    FileHolds d (appStore.destination 3) (bytes "3 latest") ∧
      FileHolds d (appStore.destination 1) (bytes "1 again") ∧
      d.file (appStore.destination 2) = none := by
  have fine : ((cpPrune (diskSystem natText) appStore numberBackend () releasesDisk).1.bind
    Except.toOption).isSome = true := by decide +kernel
  obtain ⟨report, found⟩ := Option.isSome_iff_exists.mp fine
  obtain ⟨answer, success, reported⟩ := Option.bind_eq_some_iff.mp found
  obtain rfl : answer = .ok report := by
    cases answer with
    | error e => cases reported
    | ok other =>
      cases reported
      rfl
  obtain ⟨_, _, files, held, _⟩ := (lifecycle natText appStore (by decide) numberBackend
    (fun _ _ _ => rfl) _ _ releasesDisk_lived () _ _).1 report (Prod.ext success rfl)
  obtain ⟨c, same, holds, _⟩ := held 3 (by decide)
  obtain ⟨c', same', holds', _⟩ := held 1 (by decide)
  cases same
  cases same'
  refine ⟨holds, holds', ?_⟩
  by_contra there
  obtain ⟨v, recent, named⟩ := (files _).mp ⟨destination_checkpoint appStore 2, there⟩
  rw [← destination_injective appStore 2 v named] at recent
  exact absurd recent (by decide)

end ConfigManager.Guarantees
