import ConfigManager.Library.Resumption
import ConfigManager.Reference.SharedDisk
import ConfigManager.Refinement.TemporaryFiles

/-!
# The stages of a capture or a commit

The code between two calls is a stage, which knows the temporary file that the process
made and what is left to write. On whatever replies, the code of `cpCapture` and
`cpCommit` goes through these stages.
-/

set_option autoImplicit false

namespace ConfigManager.Refinement
open Library Source Reference

/-- What is fixed before the first call of a process. -/
structure Job where
  message : Errno → Bytes
  directory : FsPath
  /-- The error of a directory that cannot be created. -/
  refused : Errno → Error
  /-- The permission source, once the directory is there. -/
  permission : Except Error FsPath
  destination : FsPath
  text : Bytes
  ticks : UInt64 → Int64

inductive Stage where
  | making (sequence : UInt64)
  | inspecting (permission : FsPath) (sequence : UInt64)
  /-- With the attempts that are left after this one. -/
  | creating (attempts : Nat) (sequence : UInt64)
  | writing (temporary : FsPath) (rest : Bytes)
  | settingMode (temporary : FsPath)
  | closing (temporary : FsPath) (failed : Option Errno)
  | clearing (temporary : FsPath) (e : Errno)
  | placing (temporary : FsPath)
  | withdrawing (temporary : FsPath) (e : Error)
  | finished (answer : Result Unit)

namespace Job

def candidate (job : Job) (sequence : UInt64) : FsPath :=
  temporaryCandidate job.destination (job.ticks (sequence + 1)) sequence

/-- The stage with these attempts left. -/
def attempt (job : Job) : Nat → UInt64 → Stage
  | 0, _ =>
      .finished (fail .storageError (bytes "cannot allocate a unique temporary file beside '" ++
        job.destination.string ++ bytes "'"))
  | attempts + 1, sequence => .creating attempts sequence

/-- The stage with this text left to write. -/
def fill (temporary : FsPath) : Bytes → Stage
  | [] => .settingMode temporary
  | c :: rest => .writing temporary (c :: rest)

/-- The stage after the temporary file was closed. -/
def closed (temporary : FsPath) : Option Errno → Stage
  | none => .placing temporary
  | some e => .clearing temporary e

def request (job : Job) : Stage → Option Request
  | .making _ => some (.createDirectories job.directory)
  | .inspecting permission _ => some (.stat permission)
  | .creating _ sequence => some (.openExclusive (job.candidate sequence))
  | .writing temporary rest => some (.write temporary rest)
  | .settingMode temporary => some (.fchmod temporary)
  | .closing temporary _ => some (.close temporary)
  | .clearing temporary _ => some (.remove temporary)
  | .placing temporary => some (.rename temporary job.destination)
  | .withdrawing temporary _ => some (.remove temporary)
  | .finished _ => none

def resume (job : Job) : Stage → Reply → Stage
  | .making _, .error e => .finished (.error (job.refused e))
  | .making sequence, .ok _ =>
      match job.permission with
      | .error e => .finished (.error e)
      | .ok permission => .inspecting permission sequence
  | .inspecting permission sequence, .error e =>
      if e ≠ ENOENT then
        .finished (fail .storageError (bytes "cannot inspect permissions of '" ++
          permission.string ++ bytes "': " ++ job.message e))
      else job.attempt kTemporaryAttempts sequence
  | .inspecting _ sequence, .ok _ => job.attempt kTemporaryAttempts sequence
  | .creating attempts sequence, .error e =>
      if e = EEXIST then job.attempt attempts (sequence + 1)
      else
        .finished (fail .storageError (bytes "cannot create temporary file '" ++
          (job.candidate sequence).string ++ bytes "': " ++ job.message e))
  | .creating _ sequence, .ok _ => fill (job.candidate sequence) job.text
  | .writing temporary rest, .error e =>
      if e = EINTR then .writing temporary rest else .closing temporary (some e)
  | .writing temporary rest, .ok written =>
      if written = 0 then .closing temporary (some EIO) else fill temporary (rest.drop written)
  | .settingMode temporary, .error e => .closing temporary (some e)
  | .settingMode temporary, .ok _ => .closing temporary none
  | .closing temporary failed, .error e => closed temporary (some (failed.getD e))
  | .closing temporary failed, .ok _ => closed temporary failed
  | .clearing temporary e, _ =>
      .finished (fail .storageError (bytes "failed to write temporary file '" ++
        temporary.string ++ bytes "': " ++ job.message e))
  | .placing temporary, .error e =>
      .withdrawing temporary ⟨.storageError, bytes "cannot atomically replace '" ++
        job.destination.string ++ bytes "': " ++ job.message e⟩
  | .placing _, .ok _ => .finished (.ok ())
  | .withdrawing _ e, _ => .finished (.error e)
  | .finished answer, _ => .finished answer

def stages (job : Job) : Stages Stage Request Reply := ⟨job.request, job.resume⟩

end Job

def recording : Recording Replay Request Reply := ⟨Replay.replies, Replay.request⟩

/-! ## One call -/

/-- The replay before and after it read replies. -/
structure SameProcess (s s' : Replay) : Prop where
  probe : s'.probe = s.probe
  ticks : s'.ticks = s.ticks
  sequence : s'.sequence = s.sequence

theorem call_same {α : Type} (request : Request) (read : Nat → α) (s s' : Replay)
    (answer : Option (Except Errno α)) (ran : Replay.call request read s = (answer, s')) :
    SameProcess s s' := by
  unfold Replay.call at ran
  split at ran <;> cases ran <;> exact ⟨rfl, rfl, rfl⟩

theorem call_follows {α : Type} (job : Job) (stage : Stage) (request : Request) (read : Nat → α)
    (s : Replay) (asks : job.request stage = some request) (next : Except Errno α → Replay → Stage)
    (failing : ∀ e s', next (.error e) s' = job.resume stage (.error e))
    (answering : ∀ value s', next (.ok (read value)) s' = job.resume stage (.ok value)) :
    job.stages.Follows recording stage s (Replay.call request read s) next := by
  unfold Replay.call
  cases replies : s.replies with
  | nil =>
    refine ⟨request, rfl, ?_⟩
    simp only [recording, replies, Stages.after_nil]
    exact asks
  | cons reply rest =>
    cases reply with
    | error e =>
      simp only [Stages.Follows, recording, replies, Stages.after_cons, failing]
      rfl
    | ok value =>
      simp only [Stages.Follows, recording, replies, Stages.after_cons, answering]
      rfl

/-! ## The code, piece by piece -/

section
variable (job : Job) (temporary : FsPath)

/-- Where the write loop leads. -/
def written (temporary : FsPath) : Option Errno → Stage
  | none => .settingMode temporary
  | some e => .closing temporary (some e)

theorem writeLoop_follows (calls : Nat) (rest : Bytes) (s : Replay)
    (enough : s.replies.length < calls) :
    job.stages.Follows recording (Job.fill temporary rest) s
      (writeLoop (replaySystem job.message) temporary calls rest s) fun failed _ =>
        written temporary failed := by
  induction calls generalizing rest s with
  | zero => omega
  | succ calls ih =>
    cases rest with
    | nil => exact .answered none _ rfl
    | cons c rest =>
      have called := call_follows job (Job.fill temporary (c :: rest))
        (.write temporary (c :: rest)) id s rfl
        (fun reply _ => job.resume (.writing temporary (c :: rest)) reply) (fun _ _ => rfl)
        fun _ _ => rfl
      have shorter : ∀ reply s', Replay.call (.write temporary (c :: rest)) id s =
          (some reply, s') → s'.replies.length < calls := by
        intro reply s' ran
        unfold Replay.call at ran
        split at ran
        · cases ran
        next there =>
          cases ran
          rw [there, List.length_cons] at enough
          simp only
          omega
        next there =>
          cases ran
          rw [there, List.length_cons] at enough
          simp only
          omega
      cases ran : Replay.call (.write temporary (c :: rest)) id s with
      | mk answer s₁ =>
        rw [ran] at called
        rw [writeLoop]
        simp only [replaySystem, ran]
        rcases answer with _ | e | count
        · exact called.stopped
        · refine called.onward ?_
          simp only [Job.resume]
          by_cases interrupted : e = EINTR
          · rw [if_pos interrupted, if_pos interrupted]
            exact ih (c :: rest) s₁ (shorter _ _ ran)
          · rw [if_neg interrupted, if_neg interrupted]
            exact .answered _ _ rfl
        · refine called.onward ?_
          simp only [Job.resume]
          by_cases nothing : count = 0
          · rw [if_pos nothing, if_pos nothing]
            exact .answered _ _ rfl
          · rw [if_neg nothing, if_neg nothing]
            exact ih ((c :: rest).drop count) s₁ (shorter _ _ ran)

theorem fchmod_follows (failed : Option Errno) (s : Replay) :
    job.stages.Follows recording (written temporary failed) s
      (unlessFailed failed ((replaySystem job.message).fchmod temporary) s) fun failed _ =>
        .closing temporary failed := by
  cases failed with
  | some e => exact .answered (some e) _ rfl
  | none =>
    have called := call_follows job (.settingMode temporary) (.fchmod temporary) (fun _ => ()) s rfl
      (fun reply _ => match reply with
        | .error e => .closing temporary (some e)
        | .ok () => .closing temporary none) (fun _ _ => rfl) fun _ _ => rfl
    cases ran : Replay.call (.fchmod temporary) (fun _ => ()) s with
    | mk answer s₁ =>
      rw [ran] at called
      simp only [unlessFailed, replaySystem, ran]
      rcases answer with _ | e | ⟨⟩
      · exact called.stopped
      · exact called.onward (.answered _ _ rfl)
      · exact called.onward (.answered _ _ rfl)

theorem closeAfter_follows (failed : Option Errno) (s : Replay) :
    job.stages.Follows recording (.closing temporary failed) s
      (closeAfter (replaySystem job.message) temporary failed s) fun failed _ =>
        Job.closed temporary failed := by
  have called := call_follows job (.closing temporary failed) (.close temporary) (fun _ => ()) s rfl
    (fun reply _ => match reply with
      | .error e => Job.closed temporary (some (failed.getD e))
      | .ok () => Job.closed temporary failed) (fun _ _ => rfl) fun _ _ => rfl
  cases ran : Replay.call (.close temporary) (fun _ => ()) s with
  | mk answer s₁ =>
    rw [ran] at called
    simp only [closeAfter, replaySystem, ran]
    rcases answer with _ | e | ⟨⟩
    · exact called.stopped
    · exact called.onward (.answered _ _ rfl)
    · exact called.onward (.answered _ _ rfl)

theorem removeTemporary_follows (stage stage' : Stage) (s : Replay)
    (asks : job.request stage = some (.remove temporary))
    (either : ∀ reply, job.resume stage reply = stage') :
    job.stages.Follows recording stage s
      (removeTemporary (replaySystem job.message) temporary s) fun _ _ => stage' := by
  have called := call_follows job stage (.remove temporary) (fun _ => ()) s asks
    (fun _ _ => stage') (fun _ _ => (either _).symm) fun _ _ => (either _).symm
  cases ran : Replay.call (.remove temporary) (fun _ => ()) s with
  | mk answer s₁ =>
    rw [ran] at called
    simp only [removeTemporary, replaySystem, ran]
    cases answer with
    | none => exact called.stopped
    | some reply => exact called.onward (.answered _ _ rfl)

/-- The stage after `writeTemporary`. -/
def prepared : Result FsPath → Stage
  | .ok temporary => .placing temporary
  | .error e => .finished (.error e)

theorem fillTemporary_follows (s : Replay) :
    job.stages.Follows recording (Job.fill temporary job.text) s
      (fillTemporary (replaySystem job.message) temporary job.text s) fun result _ =>
        prepared result := by
  have first := writeLoop_follows job temporary ((replaySystem job.message).calls s) job.text s
    (by simp [replaySystem])
  unfold fillTemporary
  cases ran : writeLoop (replaySystem job.message) temporary ((replaySystem job.message).calls s)
    job.text s with
  | mk answer s₁ =>
  rw [ran] at first
  cases answer with
  | none => exact first.stopped
  | some failed =>
  refine first.onward ?_
  have second := fchmod_follows job temporary failed s₁
  simp only
  cases ran₁ : unlessFailed failed ((replaySystem job.message).fchmod temporary) s₁ with
  | mk answer s₂ =>
  rw [ran₁] at second
  cases answer with
  | none => exact second.stopped
  | some failed =>
  refine second.onward ?_
  have third := closeAfter_follows job temporary failed s₂
  simp only
  cases ran₂ : closeAfter (replaySystem job.message) temporary failed s₂ with
  | mk answer s₃ =>
  rw [ran₂] at third
  cases answer with
  | none => exact third.stopped
  | some failed =>
  refine third.onward ?_
  cases failed with
  | none => exact .answered _ _ rfl
  | some e =>
  have last := removeTemporary_follows job temporary (.clearing temporary e)
    (job.resume (.clearing temporary e) (.ok 0)) s₃ rfl fun _ => rfl
  simp only
  cases ran₃ : removeTemporary (replaySystem job.message) temporary s₃ with
  | mk answer s₄ =>
  rw [ran₃] at last
  cases answer with
  | none => exact last.stopped
  | some _ => exact last.onward (.answered _ _ rfl)

end

section
variable (job : Job)

theorem createTemporary_follows (attempts : Nat) (s : Replay) (clock : s.ticks = job.ticks) :
    job.stages.Follows recording (job.attempt attempts s.sequence) s
      (createTemporary (replaySystem job.message) job.destination job.text attempts s)
      fun result _ => prepared result := by
  induction attempts generalizing s with
  | zero => exact .answered _ _ rfl
  | succ attempts ih =>
    have name : temporaryCandidate job.destination (s.ticks (s.sequence + 1)) s.sequence =
        job.candidate s.sequence := by
      rw [clock]
      rfl
    have called := call_follows job (.creating attempts s.sequence)
      (.openExclusive (job.candidate s.sequence)) (fun _ => ())
      { s with sequence := s.sequence + 1 } rfl
      (fun reply s' => match reply with
        | .error e => job.resume (.creating attempts s.sequence) (.error e)
        | .ok () => Job.fill (job.candidate s.sequence) job.text) (fun _ _ => rfl) fun _ _ => rfl
    unfold createTemporary
    simp only [replaySystem, name]
    cases ran : Replay.call (.openExclusive (job.candidate s.sequence)) (fun _ => ())
      { s with sequence := s.sequence + 1 } with
    | mk answer s₁ =>
    have same := call_same _ _ _ _ _ ran
    rw [ran] at called
    -- The sequence number was taken before the call, which leaves the replies as they are.
    change job.stages.Follows recording (.creating attempts s.sequence)
      { s with sequence := s.sequence + 1 } _ _
    rcases answer with _ | e | ⟨⟩
    · exact called.stopped
    · refine called.onward ?_
      simp only [Job.resume]
      by_cases taken : e = EEXIST
      · rw [if_pos taken, if_pos taken]
        have again := ih s₁ (same.ticks.trans clock)
        rw [same.sequence] at again
        exact again
      · rw [if_neg taken, if_neg taken]
        exact .answered _ _ rfl
    · exact called.onward (fillTemporary_follows job (job.candidate s.sequence) s₁)

theorem writeTemporary_follows (permission : FsPath) (s : Replay) (clock : s.ticks = job.ticks) :
    job.stages.Follows recording (.inspecting permission s.sequence) s
      (writeTemporary (replaySystem job.message) job.destination job.text permission s)
      fun result _ => prepared result := by
  have called := call_follows job (.inspecting permission s.sequence) (.stat permission)
    (fun _ => ()) s rfl
    (fun reply _ => match reply with
      | .error e => job.resume (.inspecting permission s.sequence) (.error e)
      | .ok () => job.attempt kTemporaryAttempts s.sequence) (fun _ _ => rfl) fun _ _ => rfl
  unfold writeTemporary
  simp only [replaySystem]
  cases ran : Replay.call (.stat permission) (fun _ => ()) s with
  | mk answer s₁ =>
  have same := call_same _ _ _ _ _ ran
  have created := createTemporary_follows job kTemporaryAttempts s₁ (same.ticks.trans clock)
  rw [same.sequence] at created
  rw [ran] at called
  rcases answer with _ | e | ⟨⟩
  · exact called.stopped
  · refine called.onward ?_
    simp only [Job.resume]
    by_cases other : e ≠ ENOENT
    · rw [if_pos other, if_pos other]
      exact .answered _ _ rfl
    · rw [if_neg other, if_neg other]
      exact created
  · exact called.onward created

theorem writeAndReplace_follows (permission : FsPath) (s : Replay) (clock : s.ticks = job.ticks) :
    job.stages.Follows recording (.inspecting permission s.sequence) s
      (writeAndReplace (replaySystem job.message) job.destination job.text permission s)
      fun answer _ => .finished answer := by
  have first := writeTemporary_follows job permission s clock
  unfold writeAndReplace
  cases ran : writeTemporary (replaySystem job.message) job.destination job.text permission s with
  | mk answer s₁ =>
  rw [ran] at first
  rcases answer with _ | e | temporary
  · exact first.stopped
  · exact first.onward (.answered _ _ rfl)
  refine first.onward ?_
  have second := call_follows job (.placing temporary) (.rename temporary job.destination)
    (fun _ => ()) s₁ rfl
    (fun reply _ => match reply with
      | .error e => job.resume (.placing temporary) (.error e)
      | .ok () => .finished (.ok ())) (fun _ _ => rfl) fun _ _ => rfl
  simp only [replaceFile, replaySystem]
  cases ran₁ : Replay.call (.rename temporary job.destination) (fun _ => ()) s₁ with
  | mk answer s₂ =>
  rw [ran₁] at second
  rcases answer with _ | e | ⟨⟩
  · exact second.stopped
  · refine second.onward ?_
    have third := removeTemporary_follows job temporary
      (job.resume (.placing temporary) (.error e))
      (job.resume (job.resume (.placing temporary) (.error e)) (.ok 0)) s₂ rfl fun _ => rfl
    simp only [fail]
    cases ran₂ : removeTemporary (replaySystem job.message) temporary s₂ with
    | mk answer s₃ =>
    rw [ran₂] at third
    simp only [replaySystem] at ran₂
    simp only [ran₂]
    cases answer with
    | none => exact third.stopped
    | some _ => exact third.onward (.answered _ _ rfl)
  · exact second.onward (.answered _ _ rfl)

end

/-! ## A capture or a commit -/

section
variable {σ : Type} (message : Errno → Bytes) (store : CheckpointStore) (backend : Backend σ)

/-- A capture of this text. -/
def captureJob (config : VersionedConfig) (s : Replay) (text : Bytes) : Job where
  message := message
  directory := store.options.checkpointDirectory
  refused e := ⟨.storageError, storageErrorMessage (replaySystem message)
    (bytes "cannot create checkpoint directory") store.options.checkpointDirectory e⟩
  permission :=
    match s.probe (store.destination config.version) with
    | .error e => .error ⟨.storageError, storageErrorMessage (replaySystem message)
        (bytes "cannot inspect checkpoint") (store.destination config.version) e⟩
    | .ok destinationExists =>
        .ok (if destinationExists then store.destination config.version
          else store.options.canonicalPath)
  destination := store.destination config.version
  text := text
  ticks := s.ticks

/-- A commit of this text. -/
def commitJob (s : Replay) (text : Bytes) : Job where
  message := message
  directory := parentOrCurrent store.options.canonicalPath
  refused e := ⟨.storageError, storageErrorMessage (replaySystem message)
    (bytes "cannot create canonical directory") (parentOrCurrent store.options.canonicalPath) e⟩
  permission := .ok store.options.canonicalPath
  destination := store.options.canonicalPath
  text := text
  ticks := s.ticks

/-- What a process has settled before its first call, or the error that it ends with. -/
def jobOf (s : Replay) : Work σ → Except Error Job
  | .capture config state =>
      (captureBytes (diskSystem message) store config backend state s.start).1.map
        (captureJob message store config s)
  | .commit config state => (saveBytes backend config state).1.map (commitJob message store s)

theorem captureBytes_replay (config : VersionedConfig) (state : σ) (s : Replay) :
    captureBytes (replaySystem message) store config backend state s =
      captureBytes (diskSystem message) store config backend state s.start := rfl

theorem work_refused (work : Work σ) (s : Replay) (e : Error)
    (refused : jobOf message store backend s work = .error e) :
    work.run (replaySystem message) store backend s = (some (.error e), s) := by
  cases work with
  | capture config state =>
    simp only [jobOf] at refused
    simp only [Work.run, cpCapture, captureBytes_replay]
    generalize captureBytes (diskSystem message) store config backend state s.start = captured
      at refused
    obtain ⟨result, state'⟩ := captured
    cases result with
    | error e' =>
      cases refused
      rfl
    | ok text => cases refused
  | commit config state =>
    simp only [jobOf] at refused
    simp only [Work.run, cpCommit]
    generalize saveBytes backend config state = saved at refused
    obtain ⟨result, state'⟩ := saved
    cases result with
    | error e' =>
      cases refused
      rfl
    | ok text => cases refused

/-- The first call of a job. -/
theorem making_follows (job : Job) (s : Replay) :
    job.stages.Follows recording (.making s.sequence) s
      (Replay.call (.createDirectories job.directory) (fun _ => ()) s) fun reply _ =>
        match reply with
        | .error e => .finished (.error (job.refused e))
        | .ok () => job.resume (.making s.sequence) (.ok 0) :=
  call_follows job (.making s.sequence) (.createDirectories job.directory) (fun _ => ()) s rfl _
    (fun _ _ => rfl) fun _ _ => rfl

theorem work_follows (work : Work σ) (s : Replay) (job : Job)
    (made : jobOf message store backend s work = .ok job) :
    job.stages.Follows recording (.making s.sequence) s
      (work.run (replaySystem message) store backend s) fun answer _ => .finished answer := by
  have first := making_follows job s
  cases ran : Replay.call (.createDirectories job.directory) (fun _ => ()) s with
  | mk answer s₁ =>
  have same := call_same _ _ _ _ _ ran
  rw [ran] at first
  cases work with
  | capture config state =>
    simp only [jobOf] at made
    simp only [Work.run, cpCapture, captureBytes_replay]
    generalize captureBytes (diskSystem message) store config backend state s.start = captured
      at made
    obtain ⟨result, state'⟩ := captured
    cases result with
    | error e => cases made
    | ok text =>
    cases made
    change Replay.call (.createDirectories store.options.checkpointDirectory) _ s = _ at ran
    have last := writeAndReplace_follows (captureJob message store config s text)
    simp only [replaySystem, ran]
    rcases answer with _ | e | ⟨⟩
    · exact first.stopped
    · exact first.onward (.answered _ _ rfl)
    refine first.onward ?_
    cases probed : s.probe (store.destination config.version) with
    | error e =>
      have stage : (captureJob message store config s text).resume (.making s.sequence) (.ok 0) =
          .finished (.error ⟨.storageError, storageErrorMessage (replaySystem message)
            (bytes "cannot inspect checkpoint") (store.destination config.version) e⟩) := by
        simp only [Job.resume, captureJob, probed]
      simp only [same.probe, probed, stage]
      exact .answered _ _ rfl
    | ok destinationExists =>
      have stage : (captureJob message store config s text).resume (.making s.sequence) (.ok 0) =
          .inspecting (if destinationExists then store.destination config.version
            else store.options.canonicalPath) s.sequence := by
        simp only [Job.resume, captureJob, probed]
      have settled := last (if destinationExists then store.destination config.version
        else store.options.canonicalPath) s₁ same.ticks
      rw [same.sequence] at settled
      simp only [same.probe, probed, stage]
      exact settled
  | commit config state =>
    simp only [jobOf] at made
    simp only [Work.run, cpCommit]
    generalize saveBytes backend config state = saved at made
    obtain ⟨result, state'⟩ := saved
    cases result with
    | error e => cases made
    | ok text =>
    cases made
    change Replay.call (.createDirectories (parentOrCurrent store.options.canonicalPath)) _ s = _
      at ran
    have last := writeAndReplace_follows (commitJob message store s text) store.options.canonicalPath
      s₁ same.ticks
    simp only [replaySystem, ran]
    rcases answer with _ | e | ⟨⟩
    · exact first.stopped
    · exact first.onward (.answered _ _ rfl)
    · refine first.onward ?_
      rw [same.sequence] at last
      exact last

end

end ConfigManager.Refinement
