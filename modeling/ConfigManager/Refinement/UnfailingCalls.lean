import ConfigManager.Refinement.CheckpointNames
import ConfigManager.Refinement.CheckpointReading
import ConfigManager.Refinement.TemporaryFiles

/-!
# Calls that do not fail

On a schedule without errors on which every write makes progress, a long enough
run of `writeAndReplace` reaches its end, however small the writes are, unless
all the names that it tries are taken.
-/

set_option autoImplicit false

namespace ConfigManager.Refinement
open Library Source Reference

/-- The next `n` calls are answered, none with an error, and a write takes something. -/
structure Calm (n : Nat) (d : Disk) : Prop where
  long : n ≤ d.schedule.length
  fine : ∀ answer ∈ d.schedule, answer.error = none ∧ 0 < answer.count

/-- The run goes on from a calm disk with the same directories. -/
structure Onward (n : Nat) (d d' : Disk) : Prop where
  calm : Calm n d'
  directories : d'.directories = d.directories

theorem Calm.shorten {n m : Nat} {d : Disk} (calm : Calm n d) (less : m ≤ n) : Calm m d :=
  ⟨less.trans calm.long, calm.fine⟩

theorem Onward.trans {n m : Nat} {d d' d'' : Disk} (first : Onward n d d') (last : Onward m d' d'') :
    Onward m d d'' := ⟨last.calm, last.directories.trans first.directories⟩

/-- Neither the schedule nor the directories change. -/
def KeepsRest {α : Type} (act : Answer → Disk → Except Errno α × Disk) : Prop :=
  ∀ answer d, (act answer d).2.schedule = d.schedule ∧ (act answer d).2.directories = d.directories

/-- A calm call does what its action does. -/
theorem Calm.call {α : Type} {act : Answer → Disk → Except Errno α × Disk} (keeps : KeepsRest act)
    {n : Nat} {d : Disk} (calm : Calm (n + 1) d) :
    ∃ answer rest result d', 0 < answer.count ∧
      act answer { d with schedule := rest } = (result, d') ∧
      Disk.call act d = (some result, d') ∧ Onward n d d' := by
  obtain ⟨long, fine⟩ := calm
  cases scheduled : d.schedule with
  | nil =>
    rw [scheduled] at long
    simp at long
  | cons answer rest =>
    rw [scheduled] at long fine
    obtain ⟨faultless, progress⟩ := fine answer List.mem_cons_self
    obtain ⟨same, placed⟩ := keeps answer { d with schedule := rest }
    refine ⟨answer, rest, _, _, progress, rfl, ?_, ⟨?_, ?_⟩, placed⟩
    · simp only [Disk.call, scheduled, faultless]
    · rw [same]
      simpa using long
    · rw [same]
      exact fun a inside => fine a (List.mem_cons_of_mem _ inside)

theorem inspecting_keeps (path : FsPath) : KeepsRest (Disk.inspecting path) := by
  intro answer d
  unfold Disk.inspecting
  split <;> exact ⟨rfl, rfl⟩

theorem opening_keeps (path : FsPath) : KeepsRest (Disk.opening path) := by
  intro answer d
  unfold Disk.opening
  split <;> exact ⟨rfl, rfl⟩

theorem writing_keeps (path : FsPath) (text : Bytes) : KeepsRest (Disk.writing path text) := by
  intro answer d
  unfold Disk.writing
  split <;> exact ⟨rfl, rfl⟩

theorem replacing_keeps (source destination : FsPath) :
    KeepsRest (Disk.replacing source destination) := by
  intro answer d
  unfold Disk.replacing
  split
  · exact ⟨rfl, rfl⟩
  · split <;> exact ⟨rfl, rfl⟩

theorem passing_keeps : KeepsRest Disk.passing := fun _ _ => ⟨rfl, rfl⟩

theorem writeLoop_calm (message : Errno → Bytes) (path : FsPath) (n calls : Nat)
    (done text : Bytes) (d : Disk) (held : FileHolds d path done) (enough : text.length ≤ calls)
    (calm : Calm (n + text.length) d) :
    ∃ d', writeLoop (diskSystem message) path calls text d = (some none, d') ∧ Onward n d d' := by
  induction calls generalizing done text d with
  | zero =>
    obtain rfl : text = [] := List.eq_nil_of_length_eq_zero (by omega)
    exact ⟨d, rfl, calm, rfl⟩
  | succ calls ih =>
    cases text with
    | nil => exact ⟨d, rfl, calm, rfl⟩
    | cons c rest =>
      obtain ⟨answer, later, result, middle, progress, acts, called, onward⟩ :=
        Calm.call (writing_keeps path (c :: rest)) calm
      obtain ⟨_, rfl, grown⟩ := writing_spec path done (c :: rest) answer
        { d with schedule := later } middle held result acts
      have positive : min answer.count (c :: rest).length ≠ 0 := by
        rw [List.length_cons]
        omega
      -- What is left needs no more calls than it has bytes.
      have fewer : ((c :: rest).drop (min answer.count (c :: rest).length)).length ≤ rest.length := by
        rw [List.length_drop, List.length_cons]
        omega
      have calm' : Calm (n + ((c :: rest).drop (min answer.count (c :: rest).length)).length)
          middle :=
        onward.calm.shorten (Nat.add_le_add_left fewer n)
      rw [List.length_cons] at enough
      obtain ⟨d', ran, onward'⟩ := ih _ _ middle grown (by omega) calm'
      refine ⟨d', ?_, onward.trans onward'⟩
      have made : (diskSystem message).write path (c :: rest) d = _ := called
      rw [writeLoop, made]
      simp only [if_neg positive]
      exact ran

theorem fillTemporary_calm (message : Errno → Bytes) (path : FsPath) (n : Nat) (text : Bytes)
    (d : Disk) (held : FileHolds d path []) (calm : Calm (n + 2 + text.length) d) :
    ∃ d', fillTemporary (diskSystem message) path text d = (some (.ok path), d') ∧
      Onward n d d' := by
  have enough : text.length ≤ (diskSystem message).calls d :=
    le_trans (Nat.le_add_left _ _) calm.long
  obtain ⟨d₁, written, onward₁⟩ :=
    writeLoop_calm message path (n + 2) _ [] text d held enough calm
  obtain ⟨_, _, _, d₂, _, passed, chmodded, onward₂⟩ := Calm.call passing_keeps onward₁.calm
  cases passed
  obtain ⟨_, _, _, d₃, _, passed, closed, onward₃⟩ := Calm.call passing_keeps onward₂.calm
  cases passed
  refine ⟨_, ?_, (onward₁.trans onward₂).trans onward₃⟩
  have chmodded : (diskSystem message).fchmod path d₁ = _ := chmodded
  have closed : (diskSystem message).close path _ = _ := closed
  rw [fillTemporary, written]
  simp only [unlessFailed, chmodded, closeAfter, closed]

/-! ## Finding a name -/

/-- Exclusive creation fails on such a path. -/
def Taken (d : Disk) (path : FsPath) : Prop := (d.file path).isSome ∨ path ∈ d.directories

/-- Fewer than a hundred names of a temporary file are taken. -/
def NamesLeft (destination : FsPath) (d : Disk) : Prop :=
  ∃ names : List FsPath, names.length < kTemporaryAttempts ∧
    ∀ path, IsTemporary destination path → Taken d path → path ∈ names

/-- The sequence numbers of the next attempts differ. -/
theorem sequence_ahead (sequence : UInt64) (i : Nat) (bound : i + 1 < 2 ^ 64) :
    sequence + 1 + UInt64.ofNat i ≠ sequence := by
  intro same
  have values := congrArg UInt64.toNat same
  simp only [UInt64.toNat_add, UInt64.toNat_one, UInt64.toNat_ofNat'] at values
  have small := sequence.toNat_lt
  omega

/-- Of more attempts than names are taken, one succeeds. -/
theorem createTemporary_calm (message : Errno → Bytes) (destination : FsPath) (n : Nat)
    (text : Bytes) (attempts : Nat) (few : attempts < 2 ^ 64) (names : List FsPath)
    (short : names.length < attempts) (d : Disk)
    (covers : ∀ ticks, ∀ i < attempts,
      Taken d (temporaryCandidate destination ticks (d.sequence + UInt64.ofNat i)) →
        temporaryCandidate destination ticks (d.sequence + UInt64.ofNat i) ∈ names)
    (calm : Calm (n + 2 + text.length + attempts) d) :
    ∃ temporary d', createTemporary (diskSystem message) destination text attempts d =
      (some (.ok temporary), d') ∧ Onward n d d' := by
  induction attempts generalizing names d with
  | zero => cases short
  | succ attempts ih =>
    have fetched : (diskSystem message).fetchSequence d =
        (d.sequence, { d with sequence := d.sequence + 1 }) := rfl
    rw [createTemporary, fetched]
    simp only
    generalize (diskSystem message).steadyClock _ = ticks
    have here : Taken d (temporaryCandidate destination ticks d.sequence) →
        temporaryCandidate destination ticks d.sequence ∈ names := by
      simpa using covers ticks 0 (Nat.succ_pos _)
    have apart : ∀ ticks' i, i < attempts →
        temporaryCandidate destination ticks' (d.sequence + 1 + UInt64.ofNat i) ≠
          temporaryCandidate destination ticks d.sequence := by
      intro ticks' i bound same
      exact sequence_ahead d.sequence i (by omega) (temporary_sequence destination _ _ _ _ same)
    generalize temporaryCandidate destination ticks d.sequence = candidate at here apart ⊢
    have calm' : Calm (n + 2 + text.length + attempts + 1)
        { d with sequence := d.sequence + 1 } := ⟨calm.long, calm.fine⟩
    obtain ⟨answer, rest, result, middle, _, acts, called, onward⟩ :=
      Calm.call (opening_keeps candidate) calm'
    have opened : (diskSystem message).openExclusive candidate _ = _ := called
    rw [opened]
    rw [Disk.opening] at acts
    split at acts
    · next taken =>
      cases acts
      have known : candidate ∈ names := here taken
      have fewer : (names.erase candidate).length < attempts := by
        rw [List.length_erase_of_mem known]
        have positive := List.length_pos_of_mem known
        omega
      obtain ⟨temporary, d', ran, onward'⟩ := ih (by omega) (names.erase candidate) fewer
        { d with sequence := d.sequence + 1, schedule := rest } (fun ticks' i bound again => by
          have shifted : d.sequence + 1 + UInt64.ofNat i = d.sequence + UInt64.ofNat (i + 1) := by
            rw [UInt64.ofNat_add, UInt64.add_assoc, UInt64.add_comm 1]
            rfl
          refine (List.mem_erase_of_ne (apart ticks' i bound)).mpr ?_
          have later := covers ticks' (i + 1) (by omega)
          rw [← shifted] at later
          exact later again)
        onward.calm
      exact ⟨temporary, d', ran, onward'.calm, onward'.directories⟩
    · cases acts
      obtain ⟨d', ran, onward'⟩ := fillTemporary_calm message candidate n text _
        ⟨answer.time, Disk.file_put_self _ candidate _⟩ (onward.calm.shorten (by omega))
      exact ⟨candidate, d', ran, onward'.calm, onward'.directories⟩

/-! ## The whole replacement -/

theorem writeTemporary_calm (message : Errno → Bytes) (destination : FsPath) (n : Nat)
    (text : Bytes) (permissionSource : FsPath) (d : Disk) (found : Bool)
    (inspected : d.status permissionSource = .ok found) (left : NamesLeft destination d)
    (calm : Calm (n + text.length + 103) d) :
    ∃ temporary d', writeTemporary (diskSystem message) destination text permissionSource d =
      (some (.ok temporary), d') ∧ Onward n d d' := by
  obtain ⟨answer, rest, result, middle, _, acts, called, onward⟩ :=
    Calm.call (n := n + text.length + 102) (inspecting_keeps permissionSource) calm
  have same : Untouched d middle := by
    have step := inspecting_untouched permissionSource answer { d with schedule := rest }
    rw [acts] at step
    exact (Touches.scheduled _ d rest).trans step
  obtain ⟨names, few, covers⟩ := left
  obtain ⟨temporary, d', ran, onward'⟩ := createTemporary_calm message destination n text
    kTemporaryAttempts (by decide) names few middle
    (fun ticks i _ taken => covers _ ⟨ticks, _, rfl⟩ (taken.imp
      (fun there => by rwa [same.file _ not_false] at there)
      fun there => by rwa [onward.directories] at there))
    (onward.calm.shorten (by unfold kTemporaryAttempts; omega))
  refine ⟨temporary, d', ?_, onward.trans onward'⟩
  have stated : (diskSystem message).stat permissionSource d = (some result, middle) := called
  rw [writeTemporary, stated]
  have status : Disk.status { d with schedule := rest } permissionSource = .ok found := inspected
  cases found <;> simp only [Disk.inspecting, status] at acts <;> cases acts
  · simpa using ran
  · exact ran

/-- Nothing keeps the text from its destination. -/
theorem writeAndReplace_calm (message : Errno → Bytes) (destination : FsPath) (n : Nat)
    (text : Bytes) (permissionSource : FsPath) (d : Disk) (found : Bool)
    (inspected : d.status permissionSource = .ok found) (left : NamesLeft destination d)
    (plain : destination ∉ d.directories) (calm : Calm (n + text.length + 104) d) :
    ∃ d', writeAndReplace (diskSystem message) destination text permissionSource d =
      (some (.ok ()), d') ∧ Calm n d' := by
  obtain ⟨temporary, middle, written, onward⟩ := writeTemporary_calm message destination (n + 1)
    text permissionSource d found inspected left (calm.shorten (by omega))
  obtain ⟨_, _, held⟩ := (writeTemporary_spec message destination text permissionSource d middle
    _ written).created temporary rfl
  obtain ⟨answer, rest, result, d', _, acts, called, onward'⟩ :=
    Calm.call (replacing_keeps temporary destination) onward.calm
  obtain ⟨time, there⟩ := held
  have there : Disk.file { middle with schedule := rest } temporary = _ := there
  have free : destination ∉ middle.directories := by rwa [onward.directories]
  simp only [Disk.replacing, there, if_neg free] at acts
  cases acts
  refine ⟨_, ?_, onward'.calm⟩
  have renamed : (diskSystem message).rename temporary destination middle = _ := called
  rw [writeAndReplace, written]
  simp only [replaceFile, renamed]

theorem createDirectories_calm (message : Errno → Bytes) (path : FsPath) (n : Nat) (d : Disk)
    (calm : Calm (n + 1) d) :
    ∃ d', (diskSystem message).createDirectories path d = (some (.ok ()), d') ∧ Calm n d' ∧
      Untouched d d' ∧ d'.directories = path :: d.directories := by
  obtain ⟨long, fine⟩ := calm
  cases scheduled : d.schedule with
  | nil =>
    rw [scheduled] at long
    simp at long
  | cons answer rest =>
    rw [scheduled] at long fine
    refine ⟨(Disk.creating path answer { d with schedule := rest }).2, ?_,
      ⟨?_, fun a inside => fine a (List.mem_cons_of_mem _ inside)⟩, ?_, rfl⟩
    · change Disk.call (Disk.creating path) d = _
      simp only [Disk.call, scheduled, (fine answer List.mem_cons_self).1]
      rfl
    · simpa [Disk.creating] using long
    · exact (Touches.scheduled _ d rest).trans (creating_untouched path answer _)

end ConfigManager.Refinement
