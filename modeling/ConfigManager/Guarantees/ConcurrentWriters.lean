import ConfigManager.Guarantees.CheckpointLifecycle
import ConfigManager.Guarantees.FirmwareUpgrade
import ConfigManager.Refinement.WriterTurns

/-!
# Captures and commits that run at the same time

Any number of processes capture and commit on one disk, their calls interleaved in any
way and each of them stopped wherever it was. Which of two commits is the last one is
open, but every file of the store is whole at every moment: it is what was there at
first, or the complete text of one of the processes.
-/

set_option autoImplicit false

namespace ConfigManager.Guarantees
open Library Source Reference Refinement

variable {ι σ : Type}

/-- A text that the work puts in place. A capture read it at one of these moments. -/
def Intends (message : Errno → Bytes) (store : CheckpointStore) (backend : Backend σ)
    (moments : List Disk) (text : Bytes) : Work σ → Prop
  | .capture config state => ∃ moment ∈ moments, ∃ state',
      captureBytes (diskSystem message) store config backend state moment = (.ok text, state')
  | .commit config state => ∃ state', saveBytes backend config state = (.ok text, state')

section
variable (message : Errno → Bytes) (store : CheckpointStore) (backend : Backend σ)
  (works : ι → Work σ) (initial : Disk)

theorem Intends.later {moments later : List Disk} {text : Bytes} {work : Work σ}
    (intends : Intends message store backend moments text work)
    (more : ∀ moment ∈ moments, moment ∈ later) : Intends message store backend later text work := by
  cases work with
  | capture config state =>
    obtain ⟨moment, there, read⟩ := intends
    exact ⟨moment, more moment there, read⟩
  | commit config state => exact intends

theorem jobOf_intends (work : Work σ) (replay : Replay) (job : Job) (moments : List Disk)
    (started : replay.start ∈ moments)
    (made : jobOf message store backend replay work = .ok job) :
    job.destination = work.destination store ∧
      Intends message store backend moments job.text work := by
  cases work with
  | capture config state =>
    simp only [jobOf] at made
    cases captured : captureBytes (diskSystem message) store config backend state replay.start with
    | mk result state' =>
    rw [captured] at made
    cases result with
    | error e => cases made
    | ok text =>
      cases made
      exact ⟨rfl, replay.start, started, state', captured⟩
  | commit config state =>
    simp only [jobOf] at made
    cases saved : saveBytes backend config state with
    | mk result state' =>
    rw [saved] at made
    cases result with
    | error e => cases made
    | ok text =>
      cases made
      exact ⟨rfl, state', saved⟩

/-- Where the replies have led a process. -/
def stageOf (job : Job) (replay : Replay) : Stage :=
  job.stages.after (.making replay.sequence) replay.replies

/-- The temporary file of a process. -/
def Owns (i : ι) (process : Process) (path : FsPath) : Prop :=
  ∃ replay job, process = .running replay ∧ jobOf message store backend replay (works i) = .ok job ∧
    (stageOf job replay).temporary = some path

/-! ## The invariant -/

/-- What is known of a process that runs. -/
structure Underway (i : ι) (replay : Replay) (t : Timeline) : Prop where
  started : replay.start ∈ t.moments
  contains : ∀ job, jobOf message store backend replay (works i) = .ok job →
    Contains job (stageOf job replay) t.now
  owned : ∀ path, Owns message store backend works i (.running replay) path →
    IsTemporary ((works i).destination store) path ∧ initial.file path = none
  success : ∀ job, jobOf message store backend replay (works i) = .ok job →
    stageOf job replay = .finished (.ok ()) →
      ∃ moment ∈ t.moments, FileHolds moment job.destination job.text

def Known (i : ι) (process : Process) (t : Timeline) : Prop :=
  ∀ replay, process = .running replay →
    Underway message store backend works initial i replay t

/-- Every path is as at first, or what a process put there, or a new temporary file. -/
def Accounted (t : Timeline) : Prop :=
  ∀ path, t.now.file path = initial.file path ∨
    (∃ i text, path = (works i).destination store ∧ FileHolds t.now path text ∧
      Intends message store backend t.moments text (works i)) ∨
    (initial.file path = none ∧ ∃ i, IsTemporary ((works i).destination store) path)

/-- No file is the temporary file of two processes. -/
def NotShared (i : ι) (p : Process) (j : ι) (q : Process) : Prop :=
  ∀ path, Owns message store backend works i p path → ¬ Owns message store backend works j q path

/-! ## One turn -/

theorem jobOf_replies (work : Work σ) (replay : Replay) (replies : List Reply) :
    jobOf message store backend { replay with replies := replies } work =
      jobOf message store backend replay work := by
  cases work <;> rfl

theorem stageOf_reply (job : Job) (replay : Replay) (reply : Reply) :
    stageOf job { replay with replies := replay.replies ++ [reply] } =
      job.resume (stageOf job replay) reply :=
  job.stages.after_concat _ _ _

/-- A turn that serves a call: the process had a job, whose stage asked for the call. -/
structure Served (i : ι) (replay replay' : Replay) (t t' : Timeline) (job : Job) : Prop where
  made : jobOf message store backend replay (works i) = .ok job
  made' : jobOf message store backend replay' (works i) = .ok job
  started : replay'.start = replay.start
  moments : t'.moments = t'.now :: t.moments
  turned : Contains job (stageOf job replay) t.now →
    Turned job (stageOf job replay) (stageOf job replay') t.now t'.now

/-- What a turn is. -/
theorem turn_cases (i : ι) (p p' : Process) (t t' : Timeline)
    (turn : Turn message store backend works i p t p' t') :
    (t' = t ∧ ∃ replay, p' = .running replay ∧ replay.start = t.now ∧ replay.replies = []) ∨
    ∃ replay replay' job, p = .running replay ∧ p' = .running replay' ∧
      Served message store backend works i replay replay' t t' job := by
  cases turn with
  | start i t probe ticks sequence => exact .inl ⟨rfl, _, rfl, rfl, rfl⟩
  | call i t replay waiting request answer stopped asks =>
    refine .inr ⟨replay, { replay with
      replies := replay.replies ++ [(request.serve answer t.now).1] }, ?_⟩
    cases made : jobOf message store backend replay (works i) with
    | error e =>
      rw [work_refused message store backend (works i) replay e made] at stopped
      cases stopped
    | ok job =>
      have follows := work_follows message store backend (works i) replay job made
      rw [stopped] at follows
      obtain ⟨request', waits, wanted⟩ := follows
      have same : request' = request := by
        rw [recording] at waits
        simp only [asks, Option.some.injEq] at waits
        exact waits.symm
      subst same
      refine ⟨job, rfl, rfl, made, ?_, rfl, rfl, fun contains => ?_⟩
      · rw [jobOf_replies]
        exact made
      · rw [stageOf_reply]
        exact turned contains request' wanted answer

/-! ## What a turn keeps -/

theorem owns_iff (i : ι) (replay : Replay) (job : Job)
    (made : jobOf message store backend replay (works i) = .ok job) (path : FsPath) :
    Owns message store backend works i (.running replay) path ↔
      (stageOf job replay).temporary = some path := by
  constructor
  · intro owns
    obtain ⟨_, job', running, made', temporary⟩ := owns
    cases running
    rw [made] at made'
    cases made'
    exact temporary
  · intro temporary
    exact ⟨replay, job, rfl, made, temporary⟩

variable {message store backend works initial}

theorem Underway.later {i : ι} {replay : Replay} {t t' : Timeline}
    (underway : Underway message store backend works initial i replay t)
    (more : ∀ moment ∈ t.moments, moment ∈ t'.moments)
    (same : ∀ path, Owns message store backend works i (.running replay) path →
      t'.now.file path = t.now.file path) :
    Underway message store backend works initial i replay t' where
  started := more _ underway.started
  contains job made := (underway.contains job made).frame fun path owned =>
    same path ((owns_iff message store backend works i replay job made path).mpr owned)
  owned := underway.owned
  success job made finished := by
    obtain ⟨moment, there, held⟩ := underway.success job made finished
    exact ⟨moment, more moment there, held⟩

theorem started_making (replay : Replay) (job : Job) (fresh : replay.replies = []) :
    stageOf job replay = .making replay.sequence := by
  rw [stageOf, fresh]
  rfl

theorem started_owns (i : ι) (replay : Replay) (fresh : replay.replies = []) (path : FsPath) :
    ¬ Owns message store backend works i (.running replay) path := by
  intro owns
  obtain ⟨_, job, running, _, temporary⟩ := owns
  cases running
  rw [started_making _ job fresh] at temporary
  cases temporary

theorem started_known (i : ι) (replay : Replay) (t : Timeline) (start : replay.start = t.now)
    (fresh : replay.replies = []) :
    Known message store backend works initial i (.running replay) t := by
  intro _ running
  cases running
  refine ⟨start ▸ List.mem_cons_self, fun job _ => ?_,
    fun path owns => absurd owns (started_owns i replay fresh path), fun job _ finished => ?_⟩
  · rw [started_making replay job fresh]
    trivial
  · rw [started_making replay job fresh] at finished
    cases finished

section
variable (separate : ∀ i j, ¬ IsTemporary ((works i).destination store)
    ((works j).destination store))
  {i : ι} {replay replay' : Replay} {t t' : Timeline} {job : Job}
  (served : Served message store backend works i replay replay' t t' job)
  (underway : Underway message store backend works initial i replay t)
include served underway

theorem Served.effect : Effect job (stageOf job replay) (stageOf job replay') t.now t'.now :=
  (served.turned (underway.contains job served.made)).effect

omit underway in
theorem Served.more : ∀ moment ∈ t.moments, moment ∈ t'.moments := by
  intro moment there
  rw [served.moments]
  exact List.mem_cons_of_mem _ there

theorem Served.destination : job.destination = (works i).destination store ∧
    Intends message store backend t.moments job.text (works i) :=
  jobOf_intends message store backend (works i) replay job t.moments underway.started served.made

/-- What the process owns after its turn it owned before, or nobody had it. -/
theorem Served.owned (path : FsPath)
    (owns : Owns message store backend works i (.running replay') path) :
    Owns message store backend works i (.running replay) path ∨
      IsTemporary ((works i).destination store) path ∧ t.now.file path = none := by
  rw [owns_iff message store backend works i replay' job served.made'] at owns
  rw [owns_iff message store backend works i replay job served.made]
  rw [← (served.destination underway).1]
  exact (served.effect underway).temporary path owns

theorem Served.owned_new (accounted : Accounted message store backend works initial t) (path : FsPath)
    (owns : Owns message store backend works i (.running replay') path) :
    IsTemporary ((works i).destination store) path ∧ initial.file path = none := by
  rcases served.owned underway path owns with before | ⟨name, free⟩
  · exact underway.owned path before
  · refine ⟨name, ?_⟩
    rcases accounted path with same | ⟨_, text, _, held, _⟩ | ⟨new, _⟩
    · exact same.symm.trans free
    · obtain ⟨time, there⟩ := held
      rw [free] at there
      cases there
    · exact new

/-- A file that is no temporary file of the process and not its destination stays. -/
theorem Served.frame (path : FsPath)
    (before : ¬ Owns message store backend works i (.running replay) path)
    (after : ¬ Owns message store backend works i (.running replay') path)
    (other : path ≠ (works i).destination store) : t'.now.file path = t.now.file path := by
  rw [owns_iff message store backend works i replay job served.made] at before
  rw [owns_iff message store backend works i replay' job served.made'] at after
  rw [← (served.destination underway).1] at other
  exact (served.effect underway).frame path before after other

include separate in
theorem Served.accounted (accounted : Accounted message store backend works initial t) :
    Accounted message store backend works initial t' := by
  obtain ⟨named, intends⟩ := served.destination underway
  have more := served.more
  have stays : ∀ path, t'.now.file path = t.now.file path →
      (t'.now.file path = initial.file path ∨
        (∃ i text, path = (works i).destination store ∧ FileHolds t'.now path text ∧
          Intends message store backend t'.moments text (works i)) ∨
        (initial.file path = none ∧ ∃ i, IsTemporary ((works i).destination store) path)) := by
    intro path same
    rcases accounted path with first | ⟨j, text, rfl, held, meant⟩ | new
    · exact .inl (same.trans first)
    · refine .inr (.inl ⟨j, text, rfl, ?_, meant.later message store backend more⟩)
      rw [FileHolds, same]
      exact held
    · exact .inr (.inr new)
  intro path
  by_cases owned : Owns message store backend works i (.running replay) path
  · obtain ⟨name, new⟩ := underway.owned path owned
    exact .inr (.inr ⟨new, i, name⟩)
  by_cases owned' : Owns message store backend works i (.running replay') path
  · obtain ⟨name, new⟩ := served.owned_new underway accounted path owned'
    exact .inr (.inr ⟨new, i, name⟩)
  by_cases here : path = (works i).destination store
  · subst here
    rw [owns_iff message store backend works i replay job served.made, ← named] at owned
    have plain : ¬ IsTemporary job.destination job.destination := by
      rw [named]
      exact separate i i
    rcases (served.effect underway).destination owned plain with same | held
    · rw [named] at same
      exact stays _ same
    · rw [named] at held
      exact .inr (.inl ⟨i, job.text, rfl, held, intends.later message store backend more⟩)
  · exact stays path (served.frame underway path owned owned' here)

/-- The process itself goes on. -/
theorem Served.known (accounted : Accounted message store backend works initial t) :
    Underway message store backend works initial i replay' t' := by
  have turned := served.turned (underway.contains job served.made)
  refine ⟨?_, fun job' made => ?_, served.owned_new underway accounted, fun job' made finished => ?_⟩
  · rw [served.started]
    exact served.more _ underway.started
  · rw [served.made'] at made
    cases made
    exact turned.contains
  · rw [served.made'] at made
    cases made
    refine ⟨t'.now, ?_, turned.success finished⟩
    rw [served.moments]
    exact List.mem_cons_self

include separate in
/-- Another process loses nothing. -/
theorem Served.others (j : ι) (q : Process)
    (known : Known message store backend works initial j q t)
    (apart : NotShared message store backend works i (.running replay) j q) :
    Known message store backend works initial j q t' ∧
      NotShared message store backend works i (.running replay') j q := by
  have apart' : NotShared message store backend works i (.running replay') j q := by
    intro path mine theirs
    rcases served.owned underway path mine with before | ⟨_, free⟩
    · exact apart path before theirs
    · obtain ⟨replay₁, job₁, rfl, made₁, temporary⟩ := theirs
      obtain ⟨node, there⟩ := ((known replay₁ rfl).contains job₁ made₁).present path temporary
      rw [free] at there
      cases there
  refine ⟨?_, apart'⟩
  intro replay₁ running
  subst running
  refine (known replay₁ rfl).later (served.more) fun path theirs => ?_
  refine served.frame underway path (fun mine => apart path mine theirs)
    (fun mine => apart' path mine theirs) fun here => ?_
  exact separate j i (here ▸ ((known replay₁ rfl).owned path theirs).1)

end

/-! ## Every run -/

theorem finished_stays (job : Job) (answer : Result Unit) (replies : List Reply) :
    job.stages.after (.finished answer) replies = .finished answer := by
  induction replies with
  | nil => rfl
  | cons reply replies ih => exact ih

/-- No destination of a store is a temporary file of another one. -/
theorem destinations_separate (outside : Outside store) (work other : Work σ) :
    ¬ IsTemporary (work.destination store) (other.destination store) := by
  cases other with
  | capture config state =>
    exact checkpoint_not_temporary store _ _ (destination_checkpoint store config.version)
  | commit config state =>
    cases work with
    | capture config' state' => exact destination_temporary store outside config'.version
    | commit config' state' =>
      intro temporary
      obtain ⟨ticks, sequence, same⟩ := temporary
      exact temporary_ne _ ticks sequence same.symm

theorem writers_respect (outside : Outside store) :
    Respects (Turn message store backend works) (Accounted message store backend works initial)
      (Known message store backend works initial) (NotShared message store backend works) where
  symmetric i p j q apart path theirs mine := apart path mine theirs
  own i p t p' t' accounted known turn := by
    rcases turn_cases message store backend works i p p' t t' turn with
      ⟨rfl, replay, rfl, start, fresh⟩ | ⟨replay, replay', job, rfl, rfl, served⟩
    · exact ⟨accounted, started_known i replay _ start fresh⟩
    · have underway := known replay rfl
      refine ⟨served.accounted (fun i j => destinations_separate outside (works i) (works j))
        underway accounted, ?_⟩
      intro _ running
      cases running
      exact served.known underway accounted
  others i j p q t p' t' _ accounted known known' apart turn := by
    rcases turn_cases message store backend works i p p' t t' turn with
      ⟨rfl, replay, rfl, start, fresh⟩ | ⟨replay, replay', job, rfl, rfl, served⟩
    · refine ⟨known', fun path mine => ?_⟩
      exact absurd mine (started_owns i replay fresh path)
    · exact served.others (fun i j => destinations_separate outside (works i) (works j))
        (known replay rfl) j q known' apart

end

/-- In every run of captures and commits on one disk: the canonical file is as at first or
the text of a commit, a checkpoint is as at first or what a capture of its version read
from the canonical file at one moment, no other file that was there changes, and what
succeeded was in place at one moment. -/
theorem concurrent_writers_whole [DecidableEq ι] (message : Errno → Bytes) (store : CheckpointStore)
    (outside : Outside store) (backend : Backend σ) (works : ι → Work σ) (initial : Disk)
    (processes : ι → Process) (t : Timeline)
    (run : Interleaved (Turn message store backend works) (fun _ => .idle) ⟨initial, []⟩
      processes t) :
    (t.now.file store.options.canonicalPath = initial.file store.options.canonicalPath ∨
      ∃ i config state state' text, works i = .commit config state ∧
        saveBytes backend config state = (.ok text, state') ∧
        FileHolds t.now store.options.canonicalPath text) ∧
    (∀ path, IsCheckpoint store path → t.now.file path = initial.file path ∨
      ∃ i config state text, works i = .capture config state ∧
        path = store.destination config.version ∧ FileHolds t.now path text ∧
        ∃ moment ∈ t.moments,
          (∃ node, moment.file store.options.canonicalPath = some node ∧ node.bytes = text) ∧
          ∃ loaded, (loadBytes backend text state).1 = .ok loaded ∧
            loaded.version = config.version) ∧
    (∀ path, path ≠ store.options.canonicalPath → ¬ IsCheckpoint store path →
      t.now.file path = initial.file path ∨
        initial.file path = none ∧ ∃ i, IsTemporary ((works i).destination store) path) ∧
    ∀ i replay ended, processes i = .running replay →
      (works i).run (replaySystem message) store backend replay = (some (.ok ()), ended) →
        ∃ moment ∈ t.moments, ∃ text, FileHolds moment ((works i).destination store) text ∧
          Intends message store backend t.moments text (works i) := by
  have first : Accounted message store backend works initial ⟨initial, []⟩ := fun _ => .inl rfl
  obtain ⟨accounted, known, _⟩ := (writers_respect outside).reached first
    (fun _ _ running => by cases running) (fun _ _ _ _ owns => by
      obtain ⟨_, _, running, _⟩ := owns
      cases running) run
  have canonical_plain : ∀ i, ¬ IsTemporary ((works i).destination store)
      store.options.canonicalPath := by
    intro i
    cases works i with
    | capture config state => exact destination_temporary store outside config.version
    | commit config state =>
      intro temporary
      obtain ⟨ticks, sequence, same⟩ := temporary
      exact temporary_ne _ ticks sequence same.symm
  refine ⟨?_, fun path checkpoint => ?_, fun path notCanonical notCheckpoint => ?_,
    fun i replay ended running success => ?_⟩
  · rcases accounted store.options.canonicalPath with same | ⟨i, text, here, held, meant⟩ | ⟨_, i, name⟩
    · exact .inl same
    · cases work : works i with
      | capture config state =>
        rw [work] at here
        exact absurd here (outside _).1
      | commit config state =>
        rw [work] at meant
        obtain ⟨state', saved⟩ := meant
        exact .inr ⟨i, config, state, state', text, work, saved, held⟩
    · exact absurd name (canonical_plain i)
  · rcases accounted path with same | ⟨i, text, rfl, held, meant⟩ | ⟨_, i, name⟩
    · exact .inl same
    · cases work : works i with
      | capture config state =>
        rw [work] at meant held
        obtain ⟨moment, there, state', captured⟩ := meant
        obtain ⟨_, found, loaded, loads, version⟩ :=
          captureBytes_read message store config backend state state' moment text captured
        refine .inr ⟨i, config, state, text, work, rfl, held, moment, there, found, loaded, ?_,
          version⟩
        rw [loads]
      | commit config state =>
        rw [work] at checkpoint
        exact absurd rfl (canonical_apart store outside _ checkpoint)
    · exact absurd name (checkpoint_not_temporary store path _ checkpoint)
  · rcases accounted path with same | ⟨i, text, rfl, held, meant⟩ | ⟨new, i, name⟩
    · exact .inl same
    · cases work : works i with
      | capture config state =>
        rw [work] at notCheckpoint
        exact absurd (destination_checkpoint store config.version) notCheckpoint
      | commit config state =>
        rw [work] at notCanonical
        exact absurd rfl notCanonical
    · exact .inr ⟨new, i, name⟩
  · have underway := known i replay running
    cases made : jobOf message store backend replay (works i) with
    | error e =>
      rw [work_refused message store backend (works i) replay e made] at success
      cases success
    | ok job =>
      have follows := work_follows message store backend (works i) replay job made
      rw [success] at follows
      have finished : stageOf job replay = .finished (.ok ()) := follows.trans (finished_stays ..)
      obtain ⟨moment, there, held⟩ := underway.success job made finished
      obtain ⟨named, meant⟩ := jobOf_intends message store backend (works i) replay job t.moments
        underway.started made
      rw [named] at held
      exact ⟨moment, there, job.text, held, meant⟩

/-- A capture of the shipped version beside two commits of later ones. -/
def racingWorks : Fin 3 → Work Unit
  | 0 => .capture ⟨1, ConfigModel.empty⟩ ()
  | 1 => .commit ⟨2, ConfigModel.empty⟩ ()
  | 2 => .commit ⟨3, ConfigModel.empty⟩ ()

/-- The three take turns. -/
def racingSchedule : List (Fin 3 × Answer) :=
  (List.replicate 9 [0, 1, 2]).flatten.map fun i => (i, { count := 64, ticks := 7, time := 9 })

def racingRun : (Fin 3 → Process) × Timeline :=
  runSchedule natText appStore numberBackend racingWorks (fun _ => .idle) ⟨appDisk, []⟩ racingSchedule

theorem racingRun_whole :
    racingRun.2.now.file appStore.options.canonicalPath =
        appDisk.file appStore.options.canonicalPath ∨
      ∃ i config state state' text, racingWorks i = .commit config state ∧
        saveBytes numberBackend config state = (.ok text, state') ∧
        FileHolds racingRun.2.now appStore.options.canonicalPath text :=
  (concurrent_writers_whole natText appStore appStore_outside numberBackend racingWorks appDisk
    racingRun.1 racingRun.2 (runSchedule_interleaved natText appStore numberBackend racingWorks _ _
      racingSchedule _ _ .start)).1

/-- Both commits made the same temporary name at once, and the second one took another. -/
example : (racingRun.2.now.file appStore.options.canonicalPath).map FileNode.bytes =
      some (bytes "3\n") ∧
    (racingRun.2.now.file (appStore.destination 1)).map FileNode.bytes =
      some (bytes "1 # as shipped") := by
  decide +kernel

end ConfigManager.Guarantees
