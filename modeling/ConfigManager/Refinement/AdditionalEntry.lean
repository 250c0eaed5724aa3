import ConfigManager.Refinement.CheckpointPruning

/-!
# A directory with one more entry

Two disks that differ in one entry of a directory, at any position of its
enumeration: what enumerating, examining, searching and removing make of the
one, they make of the other.
-/

set_option autoImplicit false

namespace ConfigManager.Refinement
open Library Source Reference

variable {φ σ : Type}

/-- `d'` has one more file than `d`. -/
structure Beside (extra : FsPath) (node : FileNode) (d d' : Disk) : Prop where
  position : ∃ before after, d.files.entries = before ++ after ∧
    d'.files.entries = before ++ ⟨extra, node⟩ :: after
  rest : d' = { d with files := d'.files }

section
variable {extra : FsPath} {node : FileNode} {d d' : Disk} (beside : Beside extra node d d')
include beside

theorem Beside.file_extra : d'.file extra = some node := by
  obtain ⟨before, after, _, more⟩ := beside.position
  exact AList.mem_lookup_iff.mpr (by rw [more]; simp)

theorem Beside.file_other (path : FsPath) (other : path ≠ extra) : d'.file path = d.file path := by
  obtain ⟨before, after, less, more⟩ := beside.position
  apply Option.ext
  intro n
  rw [← Option.mem_def, ← Option.mem_def, Disk.file, Disk.file, AList.mem_lookup_iff,
    AList.mem_lookup_iff, less, more]
  simp [other]

theorem Beside.absent : d.file extra = none := by
  obtain ⟨before, after, less, more⟩ := beside.position
  apply AList.lookup_eq_none.mpr
  intro inside
  have keys := d'.files.nodupKeys
  rw [List.NodupKeys, more, List.keys, List.map_append, List.map_cons,
    List.nodup_middle, List.nodup_cons] at keys
  rw [AList.mem_keys, AList.keys, less, List.keys, List.map_append] at inside
  exact keys.1 inside

theorem Beside.status (message : Errno → Bytes) (path : FsPath) (other : path ≠ extra) :
    (diskSystem message).fileExists path d' = (diskSystem message).fileExists path d := by
  change d'.status path = d.status path
  rw [Disk.status, Disk.status, beside.file_other path other, beside.rest]

/-- The extra entry is enumerated between two parts of the others. -/
theorem Beside.listing (message : Errno → Bytes) (directory : FsPath)
    (entry : Disk.IsEntry directory extra) :
    ∃ before after, ((diskSystem message).list directory d).entries = before ++ after ∧
      ((diskSystem message).list directory d').entries =
        before ++ (extra, node.regular) :: after ∧
      ((diskSystem message).list directory d').failure =
        ((diskSystem message).list directory d).failure := by
  obtain ⟨before, after, less, more⟩ := beside.position
  refine ⟨(before.filter fun e => Disk.IsEntry directory e.1).map fun e => (e.1, e.2.regular),
    (after.filter fun e => Disk.IsEntry directory e.1).map fun e => (e.1, e.2.regular), ?_, ?_, ?_⟩
  · change (d.files.entries.filter fun e => Disk.IsEntry directory e.1).map
      (fun e => (e.1, e.2.regular)) = _
    rw [less, List.filter_append, List.map_append]
  · change (d'.files.entries.filter fun e => Disk.IsEntry directory e.1).map
      (fun e => (e.1, e.2.regular)) = _
    rw [more, List.filter_append, List.map_append, List.filter_cons_of_pos (by simpa using entry),
      List.map_cons]
  · change d'.enumeration directory = d.enumeration directory
    rw [beside.rest]

/-- Every other file reads, loads and dates the same. -/
theorem Beside.examineFile_same (message : Errno → Bytes) (store : CheckpointStore)
    (backend : Backend σ) (path : FsPath) (other : path ≠ extra) (state : σ) :
    examineFile (diskSystem message) store backend d' path state =
      examineFile (diskSystem message) store backend d path state := by
  have same := beside.file_other path other
  have opened : (diskSystem message).openFile path d' = (diskSystem message).openFile path d := by
    change Disk.openFile path d' = Disk.openFile path d
    rw [Disk.openFile, Disk.openFile, same]
  have dated : (diskSystem message).lastWriteTime path d' =
      (diskSystem message).lastWriteTime path d := by
    change Disk.lastWriteTime path d' = Disk.lastWriteTime path d
    rw [Disk.lastWriteTime, Disk.lastWriteTime, same]
  rw [examineFile, examineFile, readFileBytes, readFileBytes, opened, dated]

theorem Beside.examine_same (message : Errno → Bytes) (store : CheckpointStore)
    (backend : Backend σ) (paths : List FsPath) (others : ∀ path ∈ paths, path ≠ extra) (state : σ) :
    examine (diskSystem message) store backend d' paths state =
      examine (diskSystem message) store backend d paths state := by
  induction paths generalizing state with
  | nil => rfl
  | cons path rest ih =>
    rw [examine_cons, examine_cons,
      beside.examineFile_same message store backend path (others path List.mem_cons_self) state,
      ih (fun p inside => others p (List.mem_cons_of_mem _ inside))]

end

/-! ## Enumerating -/

section
variable {extra : FsPath} {node : FileNode} {d d' : Disk} (beside : Beside extra node d d')
  {directory : FsPath} (entry : Disk.IsEntry directory extra) (apart : directory ≠ extra)
include beside entry apart

theorem Beside.enumerable (message : Errno → Bytes) :
    Enumerable (diskSystem message) directory d' ↔
      (∃ regular, node.regular = .ok regular) ∧ Enumerable (diskSystem message) directory d := by
  obtain ⟨before, after, less, more, failure⟩ := beside.listing message directory entry
  rw [Enumerable, Enumerable, beside.status message directory apart, less, more, failure]
  simp only [List.forall_mem_append, List.forall_mem_cons]
  tauto

/-- An entry that tells its type is passed over or becomes one more file. -/
theorem Beside.files (message : Errno → Bytes) (store : CheckpointStore)
    (here : store.options.checkpointDirectory = directory) (regular : Bool)
    (typed : node.regular = .ok regular) :
    ((∃ e, checkpointFiles (diskSystem message) store d = .error e) ∧
        ∃ e, checkpointFiles (diskSystem message) store d' = .error e) ∨
      ∃ first last added, checkpointFiles (diskSystem message) store d = .ok (first ++ last) ∧
        checkpointFiles (diskSystem message) store d' = .ok (first ++ added ++ last) ∧
        (added = [] ∨ added = [extra]) := by
  subst here
  have listed := checkpointFiles_ok (diskSystem message) store d
  have listed' := checkpointFiles_ok (diskSystem message) store d'
  rw [beside.status message _ apart, beside.enumerable entry apart message] at listed'
  simp only [typed, Except.ok.injEq, exists_eq', true_and] at listed'
  obtain ⟨before, after, less, more, _⟩ :=
    beside.listing message store.options.checkpointDirectory entry
  cases found : checkpointFiles (diskSystem message) store d with
  | ok paths =>
    rcases (listed paths).mp found with ⟨missing, rfl⟩ | ⟨enumerable, rfl⟩
    · exact .inr ⟨[], [], [], rfl, (listed' _).mpr (.inl ⟨missing, rfl⟩), .inl rfl⟩
    · refine .inr ⟨shaped store.options.canonicalPath.extension before,
        shaped store.options.canonicalPath.extension after,
        shaped store.options.canonicalPath.extension [(extra, node.regular)], ?_,
        (listed' _).mpr (.inr ⟨enumerable, ?_⟩), ?_⟩
      · rw [less, shaped_append]
      · rw [more, ← shaped_append, ← shaped_append, List.append_assoc]
        rfl
      · rw [shaped, List.filter_cons]
        split
        · exact .inr rfl
        · exact .inl rfl
  | error e =>
    cases found' : checkpointFiles (diskSystem message) store d' with
    | error e' => exact .inl ⟨⟨e, rfl⟩, e', rfl⟩
    | ok paths' =>
      rcases (listed' paths').mp found' with ⟨missing, _⟩ | ⟨enumerable, _⟩
      · rw [(listed []).mpr (.inl ⟨missing, rfl⟩)] at found
        cases found
      · rw [(listed _).mpr (.inr ⟨enumerable, rfl⟩)] at found
        cases found

end

/-! ## Examining -/

/-- The file is refused by both loops, and its load leaves the backend as it was. -/
structure RefusedAlone (message : Errno → Bytes) (store : CheckpointStore) (backend : Backend σ)
    (extra : FsPath) (d : Disk) : Prop where
  candidate : ∀ supported state, ∃ e, candidateOf (diskSystem message) supported
    (examineFile (diskSystem message) store backend d extra state).1 = .error e
  verified : ∀ state, ∃ e, verifiedOf (diskSystem message)
    (examineFile (diskSystem message) store backend d extra state).1 = .error e
  state : ∀ state, (examineFile (diskSystem message) store backend d extra state).2 = state

/-- The lists of two searches or prunes that differ in a rejection of the extra entry. -/
def RejectsMore (extra : FsPath) (less more : List CheckpointRejection) : Prop :=
  less = more ∨ ∃ before after e, less = before ++ after ∧ more = before ++ ⟨extra, e⟩ :: after

theorem RejectsMore.append {extra : FsPath} {less more : List CheckpointRejection}
    (rejects : RejectsMore extra less more) (later : List CheckpointRejection) :
    RejectsMore extra (less ++ later) (more ++ later) := by
  rcases rejects with rfl | ⟨before, after, e, rfl, rfl⟩
  · exact .inl rfl
  · exact .inr ⟨before, after ++ later, e, by simp, by simp⟩

section
variable {extra : FsPath} {node : FileNode} {d d' : Disk} (beside : Beside extra node d d')
  {message : Errno → Bytes} {store : CheckpointStore} {backend : Backend σ}
  (alone : RefusedAlone message store backend extra d')
include beside alone

/-- Examining the extra entry too adds a refusal to any judgement that refuses it. -/
theorem Beside.examined (first last added : List FsPath) (more : added = [] ∨ added = [extra])
    (others : ∀ path ∈ first ++ last, path ≠ extra) (state : σ) :
    (examine (diskSystem message) store backend d' (first ++ added ++ last) state).2 =
        (examine (diskSystem message) store backend d (first ++ last) state).2 ∧
      ∀ {β : Type} (judge : Examined → Except Error β),
        (∀ state, ∃ e, judge (examineFile (diskSystem message) store backend d' extra state).1 =
          .error e) →
        passed judge (examine (diskSystem message) store backend d' (first ++ added ++ last) state).1 =
            passed judge (examine (diskSystem message) store backend d (first ++ last) state).1 ∧
          RejectsMore extra
            (rejections judge (examine (diskSystem message) store backend d (first ++ last) state).1)
            (rejections judge
              (examine (diskSystem message) store backend d' (first ++ added ++ last) state).1) := by
  have early : ∀ path ∈ first, path ≠ extra := fun path inside =>
    others path (List.mem_append_left _ inside)
  have late : ∀ path ∈ last, path ≠ extra := fun path inside =>
    others path (List.mem_append_right _ inside)
  rcases more with rfl | rfl
  · rw [List.append_nil, beside.examine_same message store backend (first ++ last) others state]
    exact ⟨rfl, fun judge _ => ⟨rfl, .inl rfl⟩⟩
  · rw [List.append_assoc, List.singleton_append, examine_append, examine_append, examine_cons,
      beside.examine_same message store backend first early, alone.state,
      beside.examine_same message store backend last late]
    generalize examine (diskSystem message) store backend d first state = ran
    obtain ⟨files, middle⟩ := ran
    generalize examine (diskSystem message) store backend d last middle = ran'
    obtain ⟨files', state'⟩ := ran'
    refine ⟨rfl, fun judge refuses => ?_⟩
    obtain ⟨e, refused⟩ := refuses middle
    simp only [passed_append, passed_cons_error refused]
    refine ⟨trivial, .inr ⟨rejections judge files, rejections judge files', e, ?_, ?_⟩⟩
    · simp only [rejections, refused_append, List.map_append]
    · simp only [rejections, refused_append, refused_cons_error refused, List.map_append,
        List.map_cons, examineFile_path]

end

/-! ## Searching and removing -/

/-- What was rejected before the search does not matter to it. -/
theorem tryCandidates_rejected (runtime : ConfigRuntime σ) (supported : VersionId)
    (candidates : List LoadedCandidate) (rejected : List CheckpointRejection) (world : World σ) :
    tryCandidates runtime supported candidates rejected world =
      (⟨(tryCandidates runtime supported candidates [] world).1.candidate,
          rejected ++ (tryCandidates runtime supported candidates [] world).1.rejected⟩,
        (tryCandidates runtime supported candidates [] world).2) := by
  induction candidates generalizing rejected world with
  | nil => simp [tryCandidates]
  | cons candidate rest ih =>
    rw [tryCandidates, tryCandidates]
    cases runtime.synchronize candidate.config supported world with
    | mk answer after =>
      obtain ⟨config, middle⟩ := after
      cases answer with
      | error e =>
        simp only
        rw [ih, ih ([] ++ _)]
        simp
      | ok status =>
        simp only
        split
        · rw [ih, ih ([] ++ _)]
          simp
        · simp

/-- The disks differ in the extra file only. -/
structure Follows (extra : FsPath) (node : FileNode) (d d' : Disk) : Prop where
  others : ∀ path, path ≠ extra → d'.file path = d.file path
  here : d'.file extra = some node
  schedule : d'.schedule = d.schedule

theorem Beside.follows {extra : FsPath} {node : FileNode} {d d' : Disk}
    (beside : Beside extra node d d') : Follows extra node d d' :=
  ⟨beside.file_other, beside.file_extra, by rw [beside.rest]⟩

/-- Both prunes stop, fail or succeed, and then agree on what was removed. -/
def ReportsAlike (extra : FsPath) : Option (Result PruneReport) → Option (Result PruneReport) → Prop
  | some (.ok report), some (.ok report') =>
      report'.removed = report.removed ∧ RejectsMore extra report.rejected report'.rejected
  | some (.error _), some (.error _) => True
  | none, none => True
  | _, _ => False

/-- A call that removes another file is answered alike. -/
theorem Follows.remove {extra : FsPath} {node : FileNode} {d d' : Disk}
    (follows : Follows extra node d d') (message : Errno → Bytes) (path : FsPath)
    (other : path ≠ extra) :
    ∃ result after after', (diskSystem message).remove path d = (result, after) ∧
      (diskSystem message).remove path d' = (result, after') ∧ Follows extra node after after' := by
  change ∃ result after after', Disk.call (Disk.removing path) d = (result, after) ∧
    Disk.call (Disk.removing path) d' = (result, after') ∧ Follows extra node after after'
  unfold Disk.call
  rw [follows.schedule]
  cases d.schedule with
  | nil => exact ⟨none, d, d', rfl, rfl, follows⟩
  | cons answer rest =>
    cases failing : answer.error with
    | some e =>
      simp only [failing]
      exact ⟨_, _, _, rfl, rfl, follows.others, follows.here, rfl⟩
    | none =>
      simp only [failing]
      refine ⟨_, _, _, rfl, rfl, fun p apart => ?_, ?_, rfl⟩
      · by_cases here : p = path
        · subst here
          exact (Disk.file_erase_self _ p).trans (Disk.file_erase_self _ p).symm
        · exact (Disk.file_erase_ne _ path p here).trans
            ((follows.others p apart).trans (Disk.file_erase_ne _ path p here).symm)
      · exact (Disk.file_erase_ne _ path extra (Ne.symm other)).trans follows.here

/-- Removing other files goes the same way on both. -/
theorem removeFiles_follows (message : Errno → Bytes) (extra : FsPath) (node : FileNode)
    (paths : List FsPath) (others : ∀ path ∈ paths, path ≠ extra) (report report' : PruneReport)
    (alike : ReportsAlike extra (some (.ok report)) (some (.ok report'))) (d d' : Disk)
    (follows : Follows extra node d d') :
    ReportsAlike extra (removeFiles (diskSystem message) paths report d).1
        (removeFiles (diskSystem message) paths report' d').1 ∧
      Follows extra node (removeFiles (diskSystem message) paths report d).2
        (removeFiles (diskSystem message) paths report' d').2 := by
  induction paths generalizing report report' d d' with
  | nil => exact ⟨alike, follows⟩
  | cons path rest ih =>
    obtain ⟨result, after, after', ran, ran', follows'⟩ :=
      follows.remove message path (others path List.mem_cons_self)
    rw [removeFiles, removeFiles, ran, ran']
    rcases result with _ | (e | ⟨⟩)
    · exact ⟨trivial, follows'⟩
    · exact ⟨trivial, follows'⟩
    · exact ih (fun p inside => others p (List.mem_cons_of_mem _ inside))
        { report with removed := report.removed ++ [path] }
        { report' with removed := report'.removed ++ [path] }
        ⟨congrArg (· ++ [path]) alike.1, alike.2⟩ after after' follows'

end ConfigManager.Refinement
