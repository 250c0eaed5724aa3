import ConfigManager.Guarantees.CheckpointAtomicity
import ConfigManager.Refinement.VolumeCalls

/-!
# The canonical file and the checkpoints

`cpCreate` compares two spellings. Where the spellings tell apart what the two
paths lead to when the store is created, no run of calls brings the canonical
file into the checkpoint directory, removes it by a prune or replaces it by a
capture.
-/

set_option autoImplicit false

namespace ConfigManager.Guarantees
open Library Source Reference Refinement

/-- The place of a checkpoint-shaped name in the directory, whatever is there. -/
def CheckpointAt (v : Volume) (options : CheckpointOptions) (place : Location) : Prop :=
  ∃ name, SlotAt v (options.checkpointDirectory.child name) place ∧
    isCheckpointFilename (options.checkpointDirectory.child name)
      options.canonicalPath.extension = true

/-- The spellings tell the directory of the canonical file from the checkpoint directory, and the
links that the two paths follow are not among the names that the component replaces or removes. -/
structure TellsApart (v : Volume) (options : CheckpointOptions) : Prop where
  parents : ∀ place, Settles v.links (wayOf v (parentOrCurrent options.canonicalPath)) place →
    Settles v.links (wayOf v options.checkpointDirectory) place →
    parentOrCurrent options.canonicalPath = options.checkpointDirectory
  files : ∀ place name, Settles v.links (wayOf v options.canonicalPath) (place ++ [name]) →
    Settles v.links (wayOf v options.checkpointDirectory) place →
    parentOrCurrent options.canonicalPath = options.checkpointDirectory
  checkpoints : ∀ link, Passes v.links (wayOf v options.canonicalPath) link ∨
    Passes v.links (wayOf v (parentOrCurrent options.canonicalPath)) link ∨
    Passes v.links (wayOf v options.checkpointDirectory) link → ¬ CheckpointAt v options link
  canonical : ∀ link, Passes v.links (wayOf v (parentOrCurrent options.canonicalPath)) link ∨
    Passes v.links (wayOf v options.checkpointDirectory) link →
    ¬ SlotAt v options.canonicalPath link

/-- The canonical file is there and lies directly in the checkpoint directory. -/
def LiesInside (v : Volume) (options : CheckpointOptions) : Prop :=
  ∃ place name, v.locate options.canonicalPath = .ok (place ++ [name]) ∧
    v.locate options.checkpointDirectory = .ok place

inductive StoreCall (message : Errno → Bytes) (store : CheckpointStore) : Volume → Volume → Prop
  | commit {σ : Type} (config : VersionedConfig) (backend : Backend σ) (state : σ) (v : Volume) :
      StoreCall message store v
        (cpCommit (volumeSystem message) store config backend state v).2.2
  | capture {σ : Type} (config : VersionedConfig) (backend : Backend σ) (state : σ) (v : Volume) :
      StoreCall message store v
        (cpCapture (volumeSystem message) store config backend state v).2.2
  | prune {σ : Type} (backend : Backend σ) (state : σ) (v : Volume) :
      StoreCall message store v (cpPrune (volumeSystem message) store backend state v).2.2

/-! ## One call -/

/-- What a capture or a prune may change. -/
def Replaceable (v : Volume) (options : CheckpointOptions) (place : Location) : Prop :=
  CheckpointAt v options place ∧ v.node place ≠ some .directory

section
variable (message : Errno → Bytes) (store : CheckpointStore) {v : Volume}

theorem commit_spares {σ : Type} (config : VersionedConfig) (backend : Backend σ) (state : σ)
    (clear : ∀ link,
      Passes v.links (wayOf v (parentOrCurrent store.options.canonicalPath)) link →
        ¬ SlotAt v store.options.canonicalPath link) :
    Spares (SlotAt v store.options.canonicalPath) v
      (cpCommit (volumeSystem message) store config backend state v).2.2 :=
  cpCommit_framed _ store config backend state
    (volume_framed message v store.options.canonicalPath _ clear fun _ slot _ => slot)
    (fun path _ spares => spares.createDirectories message path) (.refl _ v)

section
variable (clear : ∀ link, Passes v.links (wayOf v store.options.checkpointDirectory) link →
  ¬ CheckpointAt v store.options link)
include clear

theorem capture_spares {σ : Type} (config : VersionedConfig) (backend : Backend σ) (state : σ) :
    Spares (Replaceable v store.options) v
      (cpCapture (volumeSystem message) store config backend state v).2.2 := by
  refine cpCapture_framed _ store config backend state
    (volume_framed message v (store.destination config.version) _ (fun link passes here => ?_)
      fun place slot solid => ⟨⟨_, slot, ?_⟩, solid⟩)
    (fun path _ spares => spares.createDirectories message path) (.refl _ v)
  · rw [CheckpointStore.destination, wayOf_parent_child] at passes
    exact clear link passes here.1
  · exact checkpoint_recognised _ config.version _ (extension_shape _)

omit clear in
/-- A listed file is a checkpoint that is no directory. -/
theorem listed_checkpoint (paths : List FsPath)
    (listed : checkpointFiles (volumeSystem message) store v = .ok paths) (path : FsPath)
    (inside : path ∈ paths) :
    (∃ name, path = store.options.checkpointDirectory.child name) ∧ v.regular path = .ok true ∧
      isCheckpointFilename path store.options.canonicalPath.extension = true := by
  obtain ⟨_, entry, shaped⟩ := (mem_checkpointFiles _ store v paths listed path).mp inside
  change (path, Except.ok true) ∈ (v.list store.options.checkpointDirectory).entries at entry
  rw [Volume.list] at entry
  split at entry
  · cases entry
  · obtain ⟨_, _, named⟩ := List.mem_filterMap.mp entry
    obtain ⟨name, _, same⟩ := Option.map_eq_some_iff.mp named
    obtain ⟨rfl, regular⟩ := Prod.mk.inj same
    exact ⟨⟨name, rfl⟩, regular, shaped⟩

theorem prune_spares {σ : Type} (backend : Backend σ) (state : σ) :
    Spares (Replaceable v store.options) v
      (cpPrune (volumeSystem message) store backend state v).2.2 := by
  refine cpPrune_framed _ store backend state (fun paths listed path inside w spares => ?_)
    (.refl _ v)
  obtain ⟨⟨name, rfl⟩, regular, shaped⟩ := listed_checkpoint message store paths listed path inside
  refine spares.remove message _ fun w spares place slot => .inl ?_
  have slot' : SlotAt v (store.options.checkpointDirectory.child name) place := by
    refine (spares.slot fun link passes here => ?_).mp slot
    rw [wayOf_parent_child] at passes
    exact clear link passes here.1
  exact ⟨⟨name, slot', shaped⟩, slot'.not_directory regular⟩

end

end

/-! ## A run -/

/-- What the calls of a run may change. -/
def Changeable (v : Volume) (options : CheckpointOptions) (place : Location) : Prop :=
  CheckpointAt v options place ∨ SlotAt v options.canonicalPath place

section
variable {message : Errno → Bytes} {store : CheckpointStore} {v₀ v : Volume}
  (apart : TellsApart v₀ store.options) (spares : Spares (Changeable v₀ store.options) v₀ v)
include apart spares

theorem directory_same :
    SameOn v₀.links v.links (wayOf v₀ store.options.checkpointDirectory) :=
  spares.same _ fun link passes here => here.elim
    (apart.checkpoints link (.inr (.inr passes))) (apart.canonical link (.inr passes))

theorem parent_same :
    SameOn v₀.links v.links (wayOf v₀ (parentOrCurrent store.options.canonicalPath)) :=
  spares.same _ fun link passes here => here.elim
    (apart.checkpoints link (.inr (.inl passes))) (apart.canonical link (.inl passes))

theorem checkpointAt_iff (place : Location) :
    CheckpointAt v store.options place ↔ CheckpointAt v₀ store.options place := by
  refine exists_congr fun name => and_congr_left fun _ => spares.slot fun link passes here => ?_
  rw [wayOf_parent_child] at passes
  exact here.elim (apart.checkpoints link (.inr (.inr passes)))
    (apart.canonical link (.inr passes))

theorem canonicalAt_iff (place : Location) :
    SlotAt v store.options.canonicalPath place ↔ SlotAt v₀ store.options.canonicalPath place :=
  spares.slot fun link passes here => here.elim
    (apart.checkpoints link (.inr (.inl passes))) (apart.canonical link (.inl passes))

/-- The canonical path takes the way that it took, or its own link was replaced. -/
theorem canonical_way :
    SameOn v₀.links v.links (wayOf v₀ store.options.canonicalPath) ∨
      ∃ place, SlotAt v store.options.canonicalPath place ∧ v.links place = none := by
  by_cases same : ∀ link, Passes v₀.links (wayOf v₀ store.options.canonicalPath) link →
      v.links link = v₀.links link
  · refine .inl ⟨same, fun place plain => ?_⟩
    rcases spares.links place with same' | gone
    · exact same'.trans plain
    · exact gone
  · simp only [not_forall] at same
    obtain ⟨link, passes, other⟩ := same
    have here : SlotAt v₀ store.options.canonicalPath link := by
      by_contra untouched
      rcases spares.outside link fun here =>
        here.elim (apart.checkpoints link (.inl passes)) untouched with kept | ⟨empty, _⟩
      · exact other (by rw [Volume.links, kept]; rfl)
      · exact passes.1 (no_node_no_link empty)
    exact .inr ⟨link, (canonicalAt_iff apart spares link).mpr here,
      (spares.links link).resolve_left other⟩

/-- In every state of a run the canonical path settles outside the checkpoint directory. -/
theorem settles_outside (told : parentOrCurrent store.options.canonicalPath ≠
      store.options.checkpointDirectory) (place : Location) (name : Bytes)
    (canonical : Settles v.links (wayOf v store.options.canonicalPath) (place ++ [name])) :
    ¬ Settles v.links (wayOf v store.options.checkpointDirectory) place := by
  intro directory
  rw [spares.way] at directory
  have directory₀ := ((directory_same apart spares).settles place).mp directory
  rcases canonical_way apart spares with same | ⟨slot, here, plain⟩
  · rw [spares.way] at canonical
    exact told (apart.files place name ((same.settles _).mp canonical) directory₀)
  · -- It is no link now, so it lies where its parent leads.
    have settled := canonical.unique (here.settles plain)
    obtain ⟨_, parent, leads, rfl⟩ := here
    obtain ⟨rfl, _⟩ := List.append_inj' settled rfl
    rw [spares.way] at leads
    exact told (apart.parents place
      (((parent_same apart spares).settles place).mp leads) directory₀)

/-- No link on the canonical path is a checkpoint. -/
theorem canonical_clear (link : Location)
    (passes : Passes v.links (wayOf v store.options.canonicalPath) link) :
    ¬ CheckpointAt v store.options link := by
  rw [checkpointAt_iff apart spares]
  rcases canonical_way apart spares with same | ⟨slot, here, plain⟩
  · rw [spares.way] at passes
    exact apart.checkpoints link (.inl ((same.passes link).mp passes))
  · rw [wayOf_named v _ here.named] at passes
    rcases passes_append passes with early | ⟨parent, leads, late⟩
    · have before : Passes v.links (wayOf v (parentOrCurrent store.options.canonicalPath)) link :=
        early
      rw [spares.way] at before
      exact apart.checkpoints link
        (.inr (.inl (((parent_same apart spares).passes link).mp before)))
    · obtain ⟨_, directory, leads', rfl⟩ := here
      have settled : Settles v.links (wayOf v (parentOrCurrent store.options.canonicalPath)) parent :=
        leads
      rw [settled.unique leads'] at late
      exact absurd late (not_passes_down plain)

theorem directory_clear (link : Location)
    (passes : Passes v.links (wayOf v store.options.checkpointDirectory) link) :
    ¬ CheckpointAt v store.options link := by
  rw [spares.way] at passes
  rw [checkpointAt_iff apart spares]
  exact apart.checkpoints link
    (.inr (.inr (((directory_same apart spares).passes link).mp passes)))

/-- One call of a run. -/
theorem StoreCall.keeps {w : Volume} (call : StoreCall message store v w) :
    Spares (Changeable v₀ store.options) v₀ w := by
  have inside : ∀ place, Replaceable v store.options place → Changeable v₀ store.options place :=
    fun place here => .inl ((checkpointAt_iff apart spares place).mp here.1)
  cases call with
  | commit config backend state =>
    refine spares.trans ((commit_spares message store config backend state fun link passes here =>
      ?_).weaken fun place here => .inr ((canonicalAt_iff apart spares place).mp here))
    rw [spares.way] at passes
    exact apart.canonical link (.inl (((parent_same apart spares).passes link).mp passes))
      ((canonicalAt_iff apart spares link).mp here)
  | capture config backend state =>
    exact spares.trans ((capture_spares message store (directory_clear apart spares) config backend
      state).weaken inside)
  | prune backend state =>
    exact spares.trans ((prune_spares message store (directory_clear apart spares) backend
      state).weaken inside)

end

theorem run_spares {message : Errno → Bytes} {store : CheckpointStore} {v₀ v : Volume}
    (apart : TellsApart v₀ store.options)
    (run : Relation.ReflTransGen (StoreCall message store) v₀ v) :
    Spares (Changeable v₀ store.options) v₀ v := by
  induction run with
  | refl => exact .refl _ v₀
  | tail _ call spares => exact call.keeps apart spares

/-- The canonical file is where it was and as it was. -/
def CanonicalKept (options : CheckpointOptions) (v w : Volume) : Prop :=
  ∀ place, v.locate options.canonicalPath = .ok place →
    w.locate options.canonicalPath = .ok place ∧ w.node place = v.node place

theorem canonical_kept {store : CheckpointStore} {v₀ v w : Volume}
    (apart : TellsApart v₀ store.options)
    (spares : Spares (Changeable v₀ store.options) v₀ v)
    (told : parentOrCurrent store.options.canonicalPath ≠ store.options.checkpointDirectory)
    (call : Spares (Replaceable v store.options) v w) : CanonicalKept store.options v w := by
  intro place found
  refine call.locate (fun _ here => here.2) found (fun link passes here =>
    canonical_clear apart spares link passes here.1) ?_
  rintro ⟨⟨name, ⟨_, directory, leads, rfl⟩, _⟩, _⟩
  rw [wayOf_parent_child] at leads
  exact settles_outside apart spares told directory _ (locate_settles found).1 leads

theorem created_told {φ : Type} (os : System φ) (options : CheckpointOptions) (s : φ)
    (store : CheckpointStore) (created : cpCreate os options s = .ok store) :
    parentOrCurrent store.options.canonicalPath ≠ store.options.checkpointDirectory := by
  rw [cpCreate] at created
  cases validated : validateOptions os options s with
  | error e =>
    rw [validated] at created
    cases created
  | ok valid =>
    rw [validated] at created
    cases created
    unfold validateOptions at validated
    split at validated
    · cases validated
    · split at validated
      · cases validated
      · split at validated
        · cases validated
        · split at validated
          · cases validated
          · split at validated
            · cases validated
            · next told =>
              cases validated
              exact told

/-- In every state of every run the canonical file does not lie directly in the checkpoint
directory, and the next capture or prune leaves it as it is. -/
theorem canonical_stays_outside (message : Errno → Bytes) (options : CheckpointOptions)
    (v₀ v : Volume) (store : CheckpointStore)
    (created : cpCreate (volumeSystem message) options v₀ = .ok store)
    (apart : TellsApart v₀ store.options)
    (run : Relation.ReflTransGen (StoreCall message store) v₀ v) :
    ¬ LiesInside v store.options ∧
      (∀ {σ : Type} (backend : Backend σ) state, CanonicalKept store.options v
        (cpPrune (volumeSystem message) store backend state v).2.2) ∧
      ∀ {σ : Type} config (backend : Backend σ) state, CanonicalKept store.options v
        (cpCapture (volumeSystem message) store config backend state v).2.2 := by
  have spares := run_spares apart run
  have told := created_told _ options v₀ store created
  have clear := directory_clear apart spares
  refine ⟨?_, fun backend state => ?_, fun config backend state => ?_⟩
  · rintro ⟨place, name, canonical, directory⟩
    exact settles_outside apart spares told place name (locate_settles canonical).1
      (locate_settles directory).1
  · exact canonical_kept apart spares told (prune_spares message store clear backend state)
  · exact canonical_kept apart spares told (capture_spares message store clear config backend state)

/-! ## Resolved paths -/

section
variable {v : Volume} {options : CheckpointOptions}

theorem hopsOf_names {elements : List Bytes}
    (named : ∀ element ∈ elements, hopOf element = some (.down element)) :
    hopsOf elements = elements.map Hop.down := by
  induction elements with
  | nil => rfl
  | cons element rest ih =>
    rw [hopsOf_cons_some (named element List.mem_cons_self), List.map_cons,
      ih fun other inside => named other (List.mem_cons_of_mem _ inside)]

/-- An absolute path of names that follows no link settles where it says. -/
theorem settles_resolved (place : Location)
    (named : ∀ element ∈ place, hopOf element = some (.down element))
    (unlinked : ∀ link, ¬ Passes v.links (wayOf v ⟨true, place⟩) link) :
    Settles v.links (wayOf v ⟨true, place⟩) place := by
  have hops : wayOf v ⟨true, place⟩ = ([], place.map Hop.down) := by
    rw [wayOf, hopsOf_names named]
    rfl
  rw [hops] at unlinked ⊢
  exact settles_names [] place unlinked

/-- Of two such paths the spelling tells everything. -/
theorem resolved_tellsApart (canonical directory : Location) (name : Bytes)
    (canonicalPath : options.canonicalPath = ⟨true, canonical ++ [name]⟩)
    (checkpointDirectory : options.checkpointDirectory = ⟨true, directory⟩)
    (named : ∀ element ∈ directory ++ canonical ++ [name], hopOf element = some (.down element))
    (unlinked : ∀ link, ¬ Passes v.links (wayOf v options.canonicalPath) link ∧
      ¬ Passes v.links (wayOf v options.checkpointDirectory) link) : TellsApart v options := by
  have parent : parentOrCurrent options.canonicalPath = ⟨true, canonical⟩ := by
    rw [canonicalPath, parentOrCurrent, FsPath.parentPath, List.dropLast_concat]
    rfl
  have parts : wayOf v options.canonicalPath =
      ((wayOf v ⟨true, canonical⟩).1, (wayOf v ⟨true, canonical⟩).2 ++ hopsOf [name]) := by
    rw [canonicalPath, wayOf, hopsOf_append]
    rfl
  have free : ∀ link, ¬ Passes v.links (wayOf v ⟨true, canonical⟩) link := by
    intro link passes
    refine (unlinked link).1 ?_
    rw [parts]
    exact passes.append (hopsOf [name])
  have free' : ∀ link, ¬ Passes v.links (wayOf v ⟨true, directory⟩) link := fun link =>
    checkpointDirectory ▸ (unlinked link).2
  have lands := settles_resolved (canonical ++ [name])
    (fun element inside => named element (by rw [List.append_assoc]; exact List.mem_append_right _ inside))
    fun link => canonicalPath ▸ (unlinked link).1
  have leads := settles_resolved canonical (fun element inside =>
    named element (List.mem_append_left _ (List.mem_append_right _ inside))) free
  have holds := settles_resolved directory (fun element inside =>
    named element (List.mem_append_left _ (List.mem_append_left _ inside))) free'
  refine ⟨fun place settles settles' => ?_, fun place name' settles settles' => ?_,
    fun link passes => ?_, fun link passes => ?_⟩
  · rw [parent] at settles ⊢
    rw [checkpointDirectory] at settles' ⊢
    rw [settles.unique leads] at settles'
    rw [settles'.unique holds]
  · rw [canonicalPath] at settles
    rw [checkpointDirectory] at settles'
    obtain ⟨rfl, _⟩ := List.append_inj' (settles.unique lands) rfl
    rw [parent, checkpointDirectory, settles'.unique holds]
  · rw [parent] at passes
    rcases passes with passes | passes | passes
    · exact absurd passes (unlinked link).1
    · exact absurd passes (free link)
    · exact absurd passes (unlinked link).2
  · rw [parent] at passes
    rcases passes with passes | passes
    · exact absurd passes (free link)
    · exact absurd passes (unlinked link).2

end

/-! ## A working directory -/

/-- The directory `/w` with these nodes, where the process runs. -/
def workVolume (nodes : AList fun _ : Location => VolumeNode) : Volume where
  nodes := nodes.insert [bytes "w"] .directory
  current := [bytes "w"]
  inspection _ := none
  enumeration _ := none
  schedule := List.replicate 40 { count := 3, ticks := 7, time := 9 }
  sequence := 0

def shippedVolume : Volume :=
  workVolume ((∅ : AList fun _ : Location => VolumeNode).insert [bytes "w", bytes "app.cfg"]
    (.file { bytes := bytes "1 # as shipped", modified := .ok 5 }))

theorem shippedVolume_unlinked (place : Location) : shippedVolume.links place = none := by
  apply links_eq_none
  intro target linked
  rw [Volume.node] at linked
  split at linked
  · cases linked
  · by_cases work : place = [bytes "w"]
    · subst work
      cases (AList.lookup_insert _).symm.trans linked
    · rw [shippedVolume, workVolume, AList.lookup_insert_ne work] at linked
      by_cases file : place = [bytes "w", bytes "app.cfg"]
      · subst file
        cases (AList.lookup_insert _).symm.trans linked
      · rw [AList.lookup_insert_ne file, AList.lookup_empty] at linked
        cases linked

theorem shippedVolume_apart : TellsApart shippedVolume appStore.options :=
  resolved_tellsApart [bytes "w"] [bytes "w", bytes "checkpoints"] (bytes "app.cfg") rfl rfl
    (by decide) fun _ => ⟨fun passes => passes.1 (shippedVolume_unlinked _),
      fun passes => passes.1 (shippedVolume_unlinked _)⟩

theorem shippedVolume_kept :
    let os := volumeSystem natText
    let v := (cpCommit os appStore ⟨1, ConfigModel.empty⟩ numberBackend () shippedVolume).2.2
    ¬ LiesInside (cpCapture os appStore ⟨1, ConfigModel.empty⟩ numberBackend () v).2.2
      appStore.options :=
  (canonical_stays_outside natText appStore.options shippedVolume _ appStore rfl
    shippedVolume_apart (.tail (.single (.commit ⟨1, ConfigModel.empty⟩ numberBackend () _))
      (.capture ⟨1, ConfigModel.empty⟩ numberBackend () _))).1

/-- The checkpoint directory is not there yet and is given with a separator at the end. -/
def separatedOptions : CheckpointOptions where
  canonicalPath := ⟨false, [bytes "checkpoints", bytes "0000000001.cfg"]⟩
  checkpointDirectory := ⟨false, [bytes "checkpoints", []]⟩
  retention := 0

/-- One path is relative, and nothing on it is there yet. -/
def relativeOptions : CheckpointOptions where
  canonicalPath := ⟨false, [bytes "checkpoints", bytes "0000000001.cfg"]⟩
  checkpointDirectory := ⟨true, [bytes "w", bytes "checkpoints"]⟩
  retention := 0

/-- The options are accepted, the first commit puts the canonical file among the checkpoints, and
the next prune removes it. -/
def Missed (options : CheckpointOptions) : Prop :=
  let os := volumeSystem natText
  let v := workVolume ∅
  let w := (cpCommit os ⟨options⟩ ⟨1, ConfigModel.empty⟩ numberBackend () v).2.2
  cpCreate os options v = .ok ⟨options⟩ ∧ LiesInside w options ∧
    ¬ CanonicalKept options w (cpPrune os ⟨options⟩ numberBackend () w).2.2

theorem spellings_miss_the_directory : Missed separatedOptions ∧ Missed relativeOptions := by
  refine ⟨⟨rfl, ⟨[bytes "w", bytes "checkpoints"], bytes "0000000001.cfg", by decide +kernel,
    by decide +kernel⟩, fun kept => ?_⟩, ⟨rfl, ⟨[bytes "w", bytes "checkpoints"],
    bytes "0000000001.cfg", by decide +kernel, by decide +kernel⟩, fun kept => ?_⟩⟩
  · have gone := (kept [bytes "w", bytes "checkpoints", bytes "0000000001.cfg"]
      (by decide +kernel)).1
    revert gone
    decide +kernel
  · have gone := (kept [bytes "w", bytes "checkpoints", bytes "0000000001.cfg"]
      (by decide +kernel)).1
    revert gone
    decide +kernel

end ConfigManager.Guarantees
