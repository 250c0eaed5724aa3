import ConfigManager.Library.Interleaving
import ConfigManager.Reference.Disk
import ConfigManager.Source.CheckpointStore

/-!
# Processes that share a disk

Each process runs one capture or one commit of a store. What a process does next is
what its code does on the replies it has got so far, and its turn serves that one call
on the disk that all processes share. A process that is stopped takes no turn any more.
-/

set_option autoImplicit false

namespace ConfigManager.Reference
open Library Source

inductive Request where
  | createDirectories (path : FsPath)
  | stat (path : FsPath)
  | openExclusive (path : FsPath)
  | write (path : FsPath) (text : Bytes)
  | fchmod (path : FsPath)
  | close (path : FsPath)
  | rename (source destination : FsPath)
  | remove (path : FsPath)

/-- The value counts for `write` alone. -/
abbrev Reply := Except Errno Nat

namespace Request

def unvalued (result : Except Errno Unit × Disk) : Reply × Disk :=
  (result.1.map fun _ => 0, result.2)

def act (answer : Answer) (d : Disk) : Request → Reply × Disk
  | .createDirectories path => unvalued (Disk.creating path answer d)
  | .stat path => unvalued (Disk.inspecting path answer d)
  | .openExclusive path => unvalued (Disk.opening path answer d)
  | .write path text => Disk.writing path text answer d
  | .fchmod _ => unvalued (Disk.passing answer d)
  | .close _ => unvalued (Disk.passing answer d)
  | .rename source destination => unvalued (Disk.replacing source destination answer d)
  | .remove path => unvalued (Disk.removing path answer d)

/-- One call: the answer decides whether it fails. -/
def serve (request : Request) (answer : Answer) (d : Disk) : Reply × Disk :=
  match answer.error with
  | some e => (.error e, d)
  | none => request.act answer d

end Request

/-! ## A process on the replies it got -/

structure Replay where
  /-- The disk when the process started, from which it reads. -/
  start : Disk
  /-- What inspecting a path reports, whenever it happens. -/
  probe : FsPath → Except Errno Bool
  /-- The clock when the process makes its next temporary name. -/
  ticks : UInt64 → Int64
  sequence : UInt64
  replies : List Reply := []
  /-- The call for which there is no reply yet. -/
  request : Option Request := none

def Replay.call {α : Type} (request : Request) (read : Nat → α) : Call Replay α := fun s =>
  match s.replies with
  | [] => (none, { s with request := some request })
  | .error e :: rest => (some (.error e), { s with replies := rest })
  | .ok value :: rest => (some (.ok (read value)), { s with replies := rest })

def replaySystem (message : Errno → Bytes) : System Replay where
  message := message
  weaklyCanonical path _ := .ok path
  fileExists path s := s.probe path
  list directory s := s.start.list directory
  openFile path s := s.start.openFile path
  lastWriteTime path s := s.start.lastWriteTime path
  calls s := s.replies.length + 1
  steadyClock s := s.ticks s.sequence
  fetchSequence s := (s.sequence, { s with sequence := s.sequence + 1 })
  createDirectories path := Replay.call (.createDirectories path) fun _ => ()
  stat path := Replay.call (.stat path) fun _ => ()
  openExclusive path := Replay.call (.openExclusive path) fun _ => ()
  write path text := Replay.call (.write path text) id
  fchmod path := Replay.call (.fchmod path) fun _ => ()
  close path := Replay.call (.close path) fun _ => ()
  rename source destination := Replay.call (.rename source destination) fun _ => ()
  remove path := Replay.call (.remove path) fun _ => ()

/-! ## Processes -/

variable {φ σ : Type}

/-- What a process does, with the state of its backend. -/
inductive Work (σ : Type) where
  | capture (config : VersionedConfig) (state : σ)
  | commit (config : VersionedConfig) (state : σ)

namespace Work

def run (os : System φ) (store : CheckpointStore) (backend : Backend σ) (work : Work σ) (s : φ) :
    Option (Result Unit) × φ :=
  match work with
  | capture config state =>
      let (answer, _, s) := cpCapture os store config backend state s
      (answer, s)
  | commit config state =>
      let (answer, _, s) := cpCommit os store config backend state s
      (answer, s)

/-- The file that is replaced. -/
def destination (store : CheckpointStore) : Work σ → FsPath
  | capture config _ => store.destination config.version
  | commit _ _ => store.options.canonicalPath

end Work

inductive Process where
  | idle
  | running (replay : Replay)

/-- The disk, with the disks before it, the latest first. -/
structure Timeline where
  now : Disk
  past : List Disk := []

def Timeline.moments (t : Timeline) : List Disk := t.now :: t.past

/-- The turns of a process: it starts, or its next call is served. -/
inductive Turn {ι : Type} (message : Errno → Bytes) (store : CheckpointStore) (backend : Backend σ)
    (works : ι → Work σ) : Moves ι Process Timeline where
  | start (i : ι) (t : Timeline) (probe : FsPath → Except Errno Bool) (ticks : UInt64 → Int64)
      (sequence : UInt64) :
      Turn message store backend works i .idle t
        (.running { start := t.now, probe := probe, ticks := ticks, sequence := sequence }) t
  | call (i : ι) (t : Timeline) (replay waiting : Replay) (request : Request) (answer : Answer)
      (stopped : (works i).run (replaySystem message) store backend replay = (none, waiting))
      (asks : waiting.request = some request) :
      Turn message store backend works i (.running replay) t
        (.running { replay with
          replies := replay.replies ++ [(request.serve answer t.now).1] })
        ⟨(request.serve answer t.now).2, t.now :: t.past⟩

/-! ## Running a schedule -/

section
variable {ι : Type} [DecidableEq ι] (message : Errno → Bytes) (store : CheckpointStore)
  (backend : Backend σ) (works : ι → Work σ)

/-- The turn of a process with this answer of the disk. One that has ended stays as it is. -/
def proceed (work : Work σ) (answer : Answer) (p : Process) (t : Timeline) : Process × Timeline :=
  match p with
  | .idle =>
      (.running {
        start := t.now
        probe := t.now.status
        ticks := fun _ => answer.ticks
        sequence := t.now.sequence }, t)
  | .running replay =>
      match work.run (replaySystem message) store backend replay with
      | (some _, _) => (.running replay, t)
      | (none, waiting) =>
          match waiting.request with
          | none => (.running replay, t)
          | some request =>
              (.running { replay with
                replies := replay.replies ++ [(request.serve answer t.now).1] },
                ⟨(request.serve answer t.now).2, t.now :: t.past⟩)

/-- The turns that a schedule gives, one after the other. -/
def runSchedule (reached : ι → Process) (t : Timeline) : List (ι × Answer) → (ι → Process) × Timeline
  | [] => (reached, t)
  | (i, answer) :: schedule =>
      let (p, t) := proceed message store backend (works i) answer (reached i) t
      runSchedule (Function.update reached i p) t schedule

omit [DecidableEq ι] in
theorem proceed_turn (i : ι) (answer : Answer) (p : Process) (t : Timeline) :
    proceed message store backend (works i) answer p t = (p, t) ∨
      Turn message store backend works i p t
        (proceed message store backend (works i) answer p t).1
        (proceed message store backend (works i) answer p t).2 := by
  cases p with
  | idle => exact .inr (.start i t ..)
  | running replay =>
    cases ran : (works i).run (replaySystem message) store backend replay with
    | mk result waiting =>
    simp only [proceed, ran]
    cases result with
    | some answer => exact .inl rfl
    | none =>
      simp only
      cases asks : waiting.request with
      | none => exact .inl rfl
      | some request => exact .inr (.call i t replay waiting request answer ran asks)

theorem runSchedule_interleaved (processes : ι → Process) (shared : Timeline)
    (schedule : List (ι × Answer)) (reached : ι → Process) (t : Timeline)
    (before : Interleaved (Turn message store backend works) processes shared reached t) :
    Interleaved (Turn message store backend works) processes shared
      (runSchedule message store backend works reached t schedule).1
      (runSchedule message store backend works reached t schedule).2 := by
  induction schedule generalizing reached t with
  | nil => exact before
  | cons entry schedule ih =>
    obtain ⟨i, answer⟩ := entry
    have step : Interleaved (Turn message store backend works) processes shared
        (Function.update reached i (proceed message store backend (works i) answer (reached i) t).1)
        (proceed message store backend (works i) answer (reached i) t).2 := by
      rcases proceed_turn message store backend works i answer (reached i) t with same | turn
      · rw [same, Function.update_eq_self]
        exact before
      · exact .turn reached t i _ _ before turn
    exact ih _ _ step

end

end ConfigManager.Reference
