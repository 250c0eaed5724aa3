import ConfigManager.Refinement.WriterStages

/-!
# What one turn of a writer does to the disk

A turn serves the call of a stage. It leaves the files as they are, makes, fills or
removes the temporary file of the stage, or puts it in the place of the destination.
-/

set_option autoImplicit false

namespace ConfigManager.Refinement
open Library Source Reference

/-- The temporary file of a stage. -/
def Stage.temporary : Stage → Option FsPath
  | .writing path _ | .settingMode path | .closing path _ | .clearing path _ | .placing path
  | .withdrawing path _ => some path
  | .making _ | .inspecting _ _ | .creating _ _ | .finished _ => none

/-- What the temporary file of a stage holds. -/
def Contains (job : Job) (stage : Stage) (d : Disk) : Prop :=
  match stage with
  | .writing path rest => ∃ done, done ++ rest = job.text ∧ FileHolds d path done
  | .settingMode path | .closing path none | .placing path => FileHolds d path job.text
  | .closing path (some _) | .clearing path _ | .withdrawing path _ =>
      ∃ node, d.file path = some node
  | .making _ | .inspecting _ _ | .creating _ _ | .finished _ => True

/-- What a turn at `stage` that leads to `stage'` did. -/
inductive Effect (job : Job) (stage stage' : Stage) (d d' : Disk) : Prop where
  | quiet (files : ∀ path, d'.file path = d.file path)
      (kept : stage'.temporary = stage.temporary ∨ stage'.temporary = none)
  | created (path : FsPath) (name : IsTemporary job.destination path)
      (free : d.file path = none) (owned : stage'.temporary = some path)
      (others : ∀ other, other ≠ path → d'.file other = d.file other)
  | changed (path : FsPath) (owned : stage.temporary = some path)
      (kept : stage'.temporary = some path ∨ stage'.temporary = none)
      (others : ∀ other, other ≠ path → d'.file other = d.file other)
  | published (path : FsPath) (owned : stage.temporary = some path)
      (released : stage'.temporary = none) (held : FileHolds d' job.destination job.text)
      (others : ∀ other, other ≠ path → other ≠ job.destination →
        d'.file other = d.file other)

theorem Effect.frame {job : Job} {stage stage' : Stage} {d d' : Disk}
    (effect : Effect job stage stage' d d') (path : FsPath) (before : stage.temporary ≠ some path)
    (after : stage'.temporary ≠ some path) (other : path ≠ job.destination) :
    d'.file path = d.file path := by
  cases effect with
  | quiet files kept => exact files path
  | created created name free owned others =>
    exact others path fun same => after (same ▸ owned)
  | changed changed owned kept others => exact others path fun same => before (same ▸ owned)
  | published placed owned released held others =>
    exact others path (fun same => before (same ▸ owned)) other

/-- A temporary file is one the process had, or a new one. -/
theorem Effect.temporary {job : Job} {stage stage' : Stage} {d d' : Disk}
    (effect : Effect job stage stage' d d') (path : FsPath) (owned' : stage'.temporary = some path) :
    stage.temporary = some path ∨ IsTemporary job.destination path ∧ d.file path = none := by
  cases effect with
  | quiet files kept =>
    rcases kept with same | gone
    · exact .inl (same ▸ owned')
    · rw [gone] at owned'
      cases owned'
  | created created name free owned others =>
    rw [owned] at owned'
    cases owned'
    exact .inr ⟨name, free⟩
  | changed changed owned kept others =>
    rcases kept with same | gone
    · rw [same] at owned'
      exact .inl (owned.trans owned')
    · rw [gone] at owned'
      cases owned'
  | published placed owned released held others =>
    rw [released] at owned'
    cases owned'

theorem Effect.destination {job : Job} {stage stage' : Stage} {d d' : Disk}
    (effect : Effect job stage stage' d d') (before : stage.temporary ≠ some job.destination)
    (plain : ¬ IsTemporary job.destination job.destination) :
    d'.file job.destination = d.file job.destination ∨
      FileHolds d' job.destination job.text := by
  cases effect with
  | quiet files kept => exact .inl (files _)
  | created created name free owned others =>
    exact .inl (others _ fun same => plain (same ▸ name))
  | changed changed owned kept others => exact .inl (others _ fun same => before (same ▸ owned))
  | published placed owned released held others => exact .inr held

theorem Contains.present {job : Job} {stage : Stage} {d : Disk} (contains : Contains job stage d)
    (path : FsPath) (owned : stage.temporary = some path) : ∃ node, d.file path = some node := by
  have whole : ∀ text, FileHolds d path text → ∃ node, d.file path = some node := by
    intro text held
    obtain ⟨time, there⟩ := held
    exact ⟨_, there⟩
  cases stage with
  | writing _ rest =>
    cases owned
    obtain ⟨done, _, held⟩ := contains
    exact whole done held
  | settingMode _ | placing _ =>
    cases owned
    exact whole _ contains
  | closing _ failed =>
    cases owned
    cases failed with
    | none => exact whole _ contains
    | some e => exact contains
  | clearing _ _ | withdrawing _ _ =>
    cases owned
    exact contains
  | making _ | inspecting _ _ | creating _ _ | finished _ => cases owned

/-- What a stage relies on is about its temporary file alone. -/
theorem Contains.frame {job : Job} {stage : Stage} {d d' : Disk} (contains : Contains job stage d)
    (same : ∀ path, stage.temporary = some path → d'.file path = d.file path) :
    Contains job stage d' := by
  cases stage with
  | writing path rest =>
    obtain ⟨done, whole, held⟩ := contains
    refine ⟨done, whole, ?_⟩
    rw [FileHolds, same path rfl]
    exact held
  | settingMode path | placing path =>
    rw [Contains, FileHolds, same path rfl]
    exact contains
  | closing path failed =>
    cases failed with
    | none =>
      rw [Contains, FileHolds, same path rfl]
      exact contains
    | some e =>
      rw [Contains, same path rfl]
      exact contains
  | clearing path _ | withdrawing path _ =>
    rw [Contains, same path rfl]
    exact contains
  | making _ | inspecting _ _ | creating _ _ | finished _ => trivial

/-! ## The turns -/

/-- A turn at `stage` that leads to `stage'`. -/
structure Turned (job : Job) (stage stage' : Stage) (d d' : Disk) : Prop where
  effect : Effect job stage stage' d d'
  contains : Contains job stage' d'
  success : stage' = .finished (.ok ()) → FileHolds d' job.destination job.text

variable {job : Job} {stage : Stage} {d d' : Disk}

theorem Turned.quiet {stage' : Stage} (files : ∀ path, d'.file path = d.file path)
    (kept : stage'.temporary = stage.temporary ∨ stage'.temporary = none)
    (contains : Contains job stage' d) (unfinished : stage' ≠ .finished (.ok ())) :
    Turned job stage stage' d d' where
  effect := .quiet files kept
  contains := contains.frame fun path _ => files path
  success same := absurd same unfinished

theorem attempt_temporary (job : Job) (attempts : Nat) (sequence : UInt64) (d : Disk) :
    (job.attempt attempts sequence).temporary = none ∧ Contains job (job.attempt attempts sequence) d ∧
      job.attempt attempts sequence ≠ .finished (.ok ()) := by
  cases attempts with
  | zero => exact ⟨rfl, trivial, fun same => by cases same⟩
  | succ attempts => exact ⟨rfl, trivial, fun same => by cases same⟩

/-- A call that is refused changes no file. -/
theorem refused_turned (contains : Contains job stage d) (request : Request)
    (asks : job.request stage = some request) (e : Errno)
    (files : ∀ path, d'.file path = d.file path) :
    Turned job stage (job.resume stage (.error e)) d d' := by
  have there := contains.present
  cases stage with
  | making sequence => exact .quiet files (.inr rfl) trivial fun same => by cases same
  | inspecting permission sequence =>
    obtain ⟨none_, fine, unfinished⟩ := attempt_temporary job kTemporaryAttempts sequence d
    rw [Job.resume]
    split
    · exact .quiet files (.inr rfl) trivial fun same => by cases same
    · exact .quiet files (.inr none_) fine unfinished
  | creating attempts sequence =>
    obtain ⟨none_, fine, unfinished⟩ := attempt_temporary job attempts (sequence + 1) d
    rw [Job.resume]
    split
    · exact .quiet files (.inr none_) fine unfinished
    · exact .quiet files (.inr rfl) trivial fun same => by cases same
  | writing path rest =>
    rw [Job.resume]
    split
    · exact .quiet files (.inl rfl) contains fun same => by cases same
    · exact .quiet files (.inl rfl) (there path rfl) fun same => by cases same
  | settingMode path => exact .quiet files (.inl rfl) (there path rfl) fun same => by cases same
  | closing path failed => exact .quiet files (.inl rfl) (there path rfl) fun same => by cases same
  | clearing path e' => exact .quiet files (.inr rfl) trivial fun same => by cases same
  | placing path => exact .quiet files (.inl rfl) (there path rfl) fun same => by cases same
  | withdrawing path e' => exact .quiet files (.inr rfl) trivial fun same => by cases same
  | finished answer => cases asks

theorem fill_turned (path : FsPath) (done rest : Bytes) (whole : done ++ rest = job.text)
    (held : FileHolds d' path done) :
    (Job.fill path rest).temporary = some path ∧ Contains job (Job.fill path rest) d' ∧
      Job.fill path rest ≠ .finished (.ok ()) := by
  cases rest with
  | nil =>
    rw [List.append_nil] at whole
    subst whole
    exact ⟨rfl, held, fun same => by cases same⟩
  | cons c rest => exact ⟨rfl, ⟨done, whole, held⟩, fun same => by cases same⟩

theorem opened_turned (attempts : Nat) (sequence : UInt64) (answer : Answer) :
    Turned job (.creating attempts sequence)
      (job.resume (.creating attempts sequence)
        (Request.unvalued (Disk.opening (job.candidate sequence) answer d)).1) d
      (Request.unvalued (Disk.opening (job.candidate sequence) answer d)).2 := by
  have nothing : Contains job (.creating attempts sequence) d := trivial
  unfold Disk.opening
  split
  · exact refused_turned nothing _ rfl EEXIST fun _ => rfl
  next free =>
    have missing : d.file (job.candidate sequence) = none := by
      cases found : d.file (job.candidate sequence) with
      | none => rfl
      | some node => exact absurd (.inl (by rw [found]; rfl)) free
    obtain ⟨owned, fine, unfinished⟩ := fill_turned (job.candidate sequence) []
      job.text rfl ⟨answer.time, Disk.file_put_self d _ { bytes := [], modified := .ok answer.time }⟩
    exact ⟨.created _ ⟨_, _, rfl⟩ missing owned fun other different =>
      Disk.file_put_ne d _ other _ different, fine, fun same => absurd same unfinished⟩

theorem wrote_turned (path : FsPath) (rest : Bytes) (contains : Contains job (.writing path rest) d)
    (answer : Answer) :
    Turned job (.writing path rest)
      (job.resume (.writing path rest) (Disk.writing path rest answer d).1) d
      (Disk.writing path rest answer d).2 := by
  obtain ⟨done, whole, held⟩ := contains
  cases acts : Disk.writing path rest answer d with
  | mk result d₁ =>
  obtain ⟨touches, rfl, grown⟩ := writing_spec path done rest answer d d₁ held result acts
  have others : ∀ other, other ≠ path → d₁.file other = d.file other := fun other different =>
    touches.file other different
  simp only [Job.resume]
  split
  · obtain ⟨time, there⟩ := grown
    exact ⟨.changed path rfl (.inl rfl) others, ⟨_, there⟩, fun same => by cases same⟩
  · have complete : (done ++ rest.take (min answer.count rest.length)) ++
        rest.drop (min answer.count rest.length) = job.text := by
      rw [List.append_assoc, List.take_append_drop]
      exact whole
    obtain ⟨owned, fine, unfinished⟩ := fill_turned path _ _ complete grown
    exact ⟨.changed path rfl (.inl owned) others, fine, fun same => absurd same unfinished⟩

theorem placed_turned (path : FsPath) (contains : Contains job (.placing path) d)
    (answer : Answer) :
    Turned job (.placing path)
      (job.resume (.placing path)
        (Request.unvalued (Disk.replacing path job.destination answer d)).1) d
      (Request.unvalued (Disk.replacing path job.destination answer d)).2 := by
  have held := contains
  obtain ⟨time, there⟩ := held
  unfold Disk.replacing
  rw [there]
  simp only
  split
  · exact refused_turned contains _ rfl Disk.EISDIR fun _ => rfl
  · have held : FileHolds ((d.erase path).put job.destination
        { bytes := job.text, modified := .ok time }) job.destination job.text :=
      ⟨time, Disk.file_put_self ..⟩
    refine ⟨.published path rfl rfl held fun other notPath notDestination => ?_, trivial,
      fun _ => held⟩
    exact (Disk.file_put_ne _ _ other _ notDestination).trans (Disk.file_erase_ne d path other notPath)

theorem removed_turned (path : FsPath) (owned : stage.temporary = some path) (answer : Answer)
    (e : Error) (ends : ∀ reply, job.resume stage reply = .finished (.error e)) :
    Turned job stage
      (job.resume stage (Request.unvalued (Disk.removing path answer d)).1) d
      (Request.unvalued (Disk.removing path answer d)).2 := by
  rw [ends]
  exact ⟨.changed path owned (.inr rfl) fun other different => Disk.file_erase_ne d path other different,
    trivial, fun same => by cases same⟩

/-- Whatever a turn is answered, it does what its stage is there for. -/
theorem turned (contains : Contains job stage d) (request : Request)
    (asks : job.request stage = some request) (answer : Answer) :
    Turned job stage (job.resume stage (request.serve answer d).1) d (request.serve answer d).2 := by
  unfold Request.serve
  cases failing : answer.error with
  | some e => exact refused_turned contains request asks e fun _ => rfl
  | none =>
  cases stage with
  | making sequence =>
    cases asks
    simp only [Request.act, Request.unvalued, Disk.creating, Except.map, Job.resume]
    split
    · exact .quiet (fun _ => rfl) (.inr rfl) trivial fun same => by cases same
    · exact .quiet (fun _ => rfl) (.inr rfl) trivial fun same => by cases same
  | inspecting permission sequence =>
    cases asks
    obtain ⟨none_, fine, unfinished⟩ := attempt_temporary job kTemporaryAttempts sequence d
    simp only [Request.act, Disk.inspecting]
    split
    · exact refused_turned contains _ rfl _ fun _ => rfl
    · exact refused_turned contains _ rfl _ fun _ => rfl
    · exact .quiet (fun _ => rfl) (.inr none_) fine unfinished
  | creating attempts sequence =>
    cases asks
    exact opened_turned attempts sequence answer
  | writing path rest =>
    cases asks
    exact wrote_turned path rest contains answer
  | settingMode path =>
    cases asks
    exact .quiet (fun _ => rfl) (.inl rfl) contains fun same => by cases same
  | closing path failed =>
    cases asks
    cases failed with
    | none => exact .quiet (fun _ => rfl) (.inl rfl) contains fun same => by cases same
    | some e => exact .quiet (fun _ => rfl) (.inl rfl) contains fun same => by cases same
  | clearing path e =>
    cases asks
    exact removed_turned path rfl answer _ fun _ => rfl
  | placing path =>
    cases asks
    exact placed_turned path contains answer
  | withdrawing path e =>
    cases asks
    exact removed_turned path rfl answer e fun _ => rfl
  | finished answer => cases asks

end ConfigManager.Refinement
