import ConfigManager.Reference.Disk
import ConfigManager.Source.CheckpointStore

/-!
# Writing beside a destination

What `writeTemporary` and `replaceFile` do to a disk, whatever the schedule: until
the rename nothing but new temporary files appears, and the rename puts the
complete text at the destination and leaves no temporary file behind.
-/

set_option autoImplicit false

namespace ConfigManager.Refinement
open Library Source Reference

/-! ## What a step may touch -/

/-- Only files at the allowed paths differ, and nothing else that the disk reports is lost. -/
structure Touches (allowed : FsPath → Prop) (d d' : Disk) : Prop where
  file : ∀ path, ¬ allowed path → d'.file path = d.file path
  inspection : d'.inspection = d.inspection
  enumeration : d'.enumeration = d.enumeration
  directories : ∀ path ∈ d.directories, path ∈ d'.directories

section
variable {allowed : FsPath → Prop} {d d' d'' : Disk}

theorem Touches.refl (allowed : FsPath → Prop) (d : Disk) : Touches allowed d d :=
  ⟨fun _ _ => rfl, rfl, rfl, fun _ inside => inside⟩

theorem Touches.trans (first : Touches allowed d d') (second : Touches allowed d' d'') :
    Touches allowed d d'' :=
  ⟨fun path not => (second.file path not).trans (first.file path not),
    second.inspection.trans first.inspection, second.enumeration.trans first.enumeration,
    fun path inside => second.directories path (first.directories path inside)⟩

theorem Touches.weaken {wider : FsPath → Prop} (touches : Touches allowed d d')
    (less : ∀ path, allowed path → wider path) : Touches wider d d' :=
  ⟨fun path not => touches.file path (mt (less path) not), touches.inspection,
    touches.enumeration, touches.directories⟩

theorem Touches.scheduled (allowed : FsPath → Prop) (d : Disk) (schedule : List Answer) :
    Touches allowed d { d with schedule := schedule } :=
  ⟨fun _ _ => rfl, rfl, rfl, fun _ inside => inside⟩

theorem Touches.put (d : Disk) (path : FsPath) (node : FileNode) (allowed : FsPath → Prop)
    (here : allowed path) : Touches allowed d (d.put path node) :=
  ⟨fun other not => Disk.file_put_ne d path other node fun same => not (same ▸ here), rfl, rfl,
    fun _ inside => inside⟩

theorem Touches.erase (d : Disk) (path : FsPath) (allowed : FsPath → Prop) (here : allowed path) :
    Touches allowed d (d.erase path) :=
  ⟨fun other not => Disk.file_erase_ne d path other fun same => not (same ▸ here), rfl, rfl,
    fun _ inside => inside⟩

end

/-! ## One call -/

/-- A call that is answered takes the first answer of the schedule. -/
inductive Called {α : Type} (act : Answer → Disk → Except Errno α × Disk) (d : Disk) :
    Option (Except Errno α) → Disk → Prop where
  | stopped (ended : d.schedule = []) : Called act d none d
  | failed (answer : Answer) (rest : List Answer) (e : Errno)
      (scheduled : d.schedule = answer :: rest) (failing : answer.error = some e) :
      Called act d (some (.error e)) { d with schedule := rest }
  | acted (answer : Answer) (rest : List Answer) (result : Except Errno α) (d' : Disk)
      (scheduled : d.schedule = answer :: rest) (fine : answer.error = none)
      (acts : act answer { d with schedule := rest } = (result, d')) : Called act d (some result) d'

theorem call_called {α : Type} (act : Answer → Disk → Except Errno α × Disk) (d d' : Disk)
    (result : Option (Except Errno α)) (ran : Disk.call act d = (result, d')) :
    Called act d result d' := by
  unfold Disk.call at ran
  cases scheduled : d.schedule with
  | nil =>
    simp only [scheduled, Prod.mk.injEq] at ran
    obtain ⟨rfl, rfl⟩ := ran
    exact .stopped scheduled
  | cons answer rest =>
    cases failing : answer.error with
    | some e =>
      simp only [scheduled, failing, Prod.mk.injEq] at ran
      obtain ⟨rfl, rfl⟩ := ran
      exact .failed answer rest e scheduled failing
    | none =>
      simp only [scheduled, failing, Prod.mk.injEq] at ran
      obtain ⟨rfl, rfl⟩ := ran
      exact .acted answer rest _ _ scheduled failing rfl

/-- A call touches what its action touches. -/
theorem Called.touches {α : Type} {act : Answer → Disk → Except Errno α × Disk} {d d' : Disk}
    {result : Option (Except Errno α)} (called : Called act d result d') (allowed : FsPath → Prop)
    (acts : ∀ answer d, Touches allowed d (act answer d).2) : Touches allowed d d' := by
  cases called with
  | stopped ended => exact .refl allowed d
  | failed answer rest e scheduled failing => exact .scheduled allowed d rest
  | acted answer rest result d' scheduled fine acted =>
    have step := acts answer { d with schedule := rest }
    rw [acted] at step
    exact (Touches.scheduled allowed d rest).trans step

/-- No file differs. -/
abbrev Untouched (d d' : Disk) : Prop := Touches (fun _ => False) d d'

theorem Untouched.touches {d d' : Disk} (same : Untouched d d') (allowed : FsPath → Prop) :
    Touches allowed d d' := same.weaken fun _ => False.elim

theorem creating_untouched (path : FsPath) (answer : Answer) (d : Disk) :
    Untouched d (Disk.creating path answer d).2 :=
  ⟨fun _ _ => rfl, rfl, rfl, fun _ inside => List.mem_cons_of_mem _ inside⟩

theorem inspecting_untouched (path : FsPath) (answer : Answer) (d : Disk) :
    Untouched d (Disk.inspecting path answer d).2 := by
  unfold Disk.inspecting
  split <;> exact .refl _ d

theorem passing_untouched (answer : Answer) (d : Disk) :
    Untouched d (Disk.passing answer d).2 := .refl _ d

theorem removing_touches (path : FsPath) (answer : Answer) (d : Disk) :
    Touches (· = path) d (Disk.removing path answer d).2 := .erase d path _ rfl

/-! ## Filling the temporary file -/

/-- A regular file with this content, written by the process. -/
def FileHolds (d : Disk) (path : FsPath) (text : Bytes) : Prop :=
  ∃ time, d.file path = some { bytes := text, modified := .ok time }

theorem FileHolds.of_untouched {d d' : Disk} {path : FsPath} {text : Bytes} (held : FileHolds d path text)
    (same : Untouched d d') : FileHolds d' path text := by
  obtain ⟨time, found⟩ := held
  exact ⟨time, (same.file path not_false).trans found⟩

/-- A write appends what it took of the text. -/
theorem writing_spec (path : FsPath) (done text : Bytes) (answer : Answer) (d d' : Disk)
    (held : FileHolds d path done) (result : Except Errno Nat)
    (acts : Disk.writing path text answer d = (result, d')) :
    Touches (· = path) d d' ∧ result = .ok (min answer.count text.length) ∧
      FileHolds d' path (done ++ text.take (min answer.count text.length)) := by
  obtain ⟨time, found⟩ := held
  simp only [Disk.writing, found, Prod.mk.injEq] at acts
  obtain ⟨rfl, rfl⟩ := acts
  refine ⟨.put d path _ _ rfl, rfl, answer.time, ?_⟩
  rw [Disk.file_put_self, ← List.take_take, List.take_length]

/-- Whatever the loop is answered, it writes to its file only, and without an error the whole
text. -/
theorem writeLoop_spec (message : Errno → Bytes) (path : FsPath) (calls : Nat) (done text : Bytes)
    (d d' : Disk) (held : FileHolds d path done) (answer : Option (Option Errno))
    (ran : writeLoop (diskSystem message) path calls text d = (answer, d')) :
    Touches (· = path) d d' ∧ (answer = some none → FileHolds d' path (done ++ text)) := by
  induction calls generalizing done text d with
  | zero =>
    cases text with
    | nil =>
      cases ran
      exact ⟨.refl _ _, fun _ => by simpa using held⟩
    | cons c rest =>
      cases ran
      exact ⟨.refl _ _, by simp⟩
  | succ calls ih =>
    cases text with
    | nil =>
      cases ran
      exact ⟨.refl _ _, fun _ => by simpa using held⟩
    | cons c rest =>
      rw [writeLoop] at ran
      cases made : (diskSystem message).write path (c :: rest) d with
      | mk result middle =>
        rw [made] at ran
        cases call_called (Disk.writing path (c :: rest)) d middle result made with
        | stopped ended =>
          cases ran
          exact ⟨.refl _ _, by simp⟩
        | failed answer' later e scheduled failing =>
          simp only at ran
          split at ran
          · -- An interrupted write took nothing.
            obtain ⟨touches, whole⟩ := ih done (c :: rest) { d with schedule := later } held ran
            exact ⟨(Touches.scheduled _ d later).trans touches, whole⟩
          · cases ran
            exact ⟨.scheduled _ d later, by simp⟩
        | acted answer' later result _ scheduled fine acts =>
          obtain ⟨step, rfl, grown⟩ :=
            writing_spec path done (c :: rest) answer' { d with schedule := later } middle held _ acts
          have touched : Touches (· = path) d middle := (Touches.scheduled _ d later).trans step
          simp only at ran
          split at ran
          · cases ran
            exact ⟨touched, by simp⟩
          · obtain ⟨touches, whole⟩ := ih _ _ middle grown ran
            refine ⟨touched.trans touches, fun success => ?_⟩
            have complete := whole success
            rwa [List.append_assoc, List.take_append_drop] at complete

theorem fchmod_spec (message : Errno → Bytes) (path : FsPath) (failed : Option Errno) (d d' : Disk)
    (answer : Option (Option Errno))
    (ran : unlessFailed failed ((diskSystem message).fchmod path) d = (answer, d')) :
    Untouched d d' ∧ (answer = some none → failed = none) := by
  cases failed with
  | some e =>
    cases ran
    exact ⟨.refl _ _, by simp⟩
  | none =>
    refine ⟨?_, fun _ => rfl⟩
    rw [unlessFailed] at ran
    cases made : (diskSystem message).fchmod path d with
    | mk result middle =>
      have same : Untouched d middle :=
        (call_called Disk.passing d middle result made).touches _ passing_untouched
      rw [made] at ran
      rcases result with _ | (e | ⟨⟩) <;> cases ran <;> exact same

theorem closeAfter_spec (message : Errno → Bytes) (path : FsPath) (failed : Option Errno)
    (d d' : Disk) (answer : Option (Option Errno))
    (ran : closeAfter (diskSystem message) path failed d = (answer, d')) :
    Untouched d d' ∧ (answer = some none → failed = none) := by
  rw [closeAfter] at ran
  cases made : (diskSystem message).close path d with
  | mk result middle =>
    have same : Untouched d middle :=
      (call_called Disk.passing d middle result made).touches _ passing_untouched
    rw [made] at ran
    rcases result with _ | (e | ⟨⟩) <;> cases ran
    · exact ⟨same, by simp⟩
    · exact ⟨same, by simp⟩
    · exact ⟨same, by simp⟩

theorem removeTemporary_spec (message : Errno → Bytes) (path : FsPath) (d d' : Disk)
    (answer : Option Unit) (ran : removeTemporary (diskSystem message) path d = (answer, d')) :
    Touches (· = path) d d' := by
  rw [removeTemporary] at ran
  cases made : (diskSystem message).remove path d with
  | mk result middle =>
    have touches : Touches (· = path) d middle :=
      (call_called (Disk.removing path) d middle result made).touches _ (removing_touches path)
    rw [made] at ran
    rcases result with _ | r <;> cases ran <;> exact touches

/-- The new file is the only one that changes, and holds the whole text when it is answered. -/
theorem fillTemporary_spec (message : Errno → Bytes) (path : FsPath) (text : Bytes) (d d' : Disk)
    (held : FileHolds d path []) (answer : Option (Result FsPath))
    (ran : fillTemporary (diskSystem message) path text d = (answer, d')) :
    Touches (· = path) d d' ∧
      ∀ temporary, answer = some (.ok temporary) → temporary = path ∧ FileHolds d' path text := by
  rw [fillTemporary] at ran
  cases written : writeLoop (diskSystem message) path ((diskSystem message).calls d) text d with
  | mk first d₁ =>
    obtain ⟨touched, whole⟩ := writeLoop_spec message path _ [] text d d₁ held first written
    rw [written] at ran
    rcases first with _ | failed
    · cases ran
      exact ⟨touched, by simp⟩
    simp only at ran
    cases chmodded : unlessFailed failed ((diskSystem message).fchmod path) d₁ with
    | mk second d₂ =>
      obtain ⟨same, unfailed⟩ := fchmod_spec message path failed d₁ d₂ second chmodded
      have touched₂ := touched.trans (same.touches _)
      rw [chmodded] at ran
      rcases second with _ | failed₂
      · cases ran
        exact ⟨touched₂, by simp⟩
      simp only at ran
      cases closed : closeAfter (diskSystem message) path failed₂ d₂ with
      | mk third d₃ =>
        obtain ⟨same₃, unfailed₃⟩ := closeAfter_spec message path failed₂ d₂ d₃ third closed
        have touched₃ := touched₂.trans (same₃.touches _)
        rw [closed] at ran
        rcases third with _ | (_ | e)
        · cases ran
          exact ⟨touched₃, by simp⟩
        · cases ran
          have fine := unfailed₃ rfl
          subst fine
          have fine := unfailed rfl
          subst fine
          have complete := ((whole rfl).of_untouched same).of_untouched same₃
          rw [List.nil_append] at complete
          refine ⟨touched₃, fun temporary success => ?_⟩
          simp only [Option.some.injEq, Except.ok.injEq] at success
          exact ⟨success.symm, complete⟩
        · simp only at ran
          cases removed : removeTemporary (diskSystem message) path d₃ with
          | mk last d₄ =>
            have touched₄ := touched₃.trans (removeTemporary_spec message path d₃ d₄ last removed)
            rw [removed] at ran
            rcases last with _ | ⟨⟩ <;> cases ran <;> exact ⟨touched₄, by simp [fail]⟩

/-! ## Creating it and putting it in place -/

/-- A name that `temporaryCandidate` makes for this destination. -/
def IsTemporary (destination path : FsPath) : Prop :=
  ∃ ticks sequence, path = temporaryCandidate destination ticks sequence

/-- Such a name that was not taken before. -/
def NewTemporary (destination : FsPath) (d : Disk) (path : FsPath) : Prop :=
  IsTemporary destination path ∧ d.file path = none

theorem NewTemporary.of_untouched {destination path : FsPath} {d d' : Disk}
    (same : Untouched d d') (new : NewTemporary destination d' path) :
    NewTemporary destination d path :=
  ⟨new.1, (same.file path not_false).symm.trans new.2⟩

/-- Nothing changes but new temporary files, of which an answered one is the only one and holds
the whole text. -/
structure Creates (destination : FsPath) (text : Bytes) (d d' : Disk)
    (answer : Option (Result FsPath)) : Prop where
  touches : Touches (NewTemporary destination d) d d'
  created : ∀ temporary, answer = some (.ok temporary) → NewTemporary destination d temporary ∧
    Touches (· = temporary) d d' ∧ FileHolds d' temporary text

section
variable {destination : FsPath} {text : Bytes} {d middle d' : Disk}
  {answer : Option (Result FsPath)}

theorem Creates.of_untouched (same : Untouched d middle)
    (creates : Creates destination text middle d' answer) : Creates destination text d d' answer := by
  constructor
  · exact (same.touches _).trans (creates.touches.weaken fun _ new => new.of_untouched same)
  · intro temporary success
    obtain ⟨new, touches, held⟩ := creates.created temporary success
    exact ⟨new.of_untouched same, (same.touches _).trans touches, held⟩

theorem Creates.nothing (same : Untouched d d') (unanswered : ∀ t, answer ≠ some (.ok t)) :
    Creates destination text d d' answer :=
  ⟨same.touches _, fun temporary success => absurd success (unanswered temporary)⟩

end

theorem createTemporary_spec (message : Errno → Bytes) (destination : FsPath) (text : Bytes)
    (attempts : Nat) (d d' : Disk) (answer : Option (Result FsPath))
    (ran : createTemporary (diskSystem message) destination text attempts d = (answer, d')) :
    Creates destination text d d' answer := by
  induction attempts generalizing d with
  | zero =>
    cases ran
    exact .nothing (.refl _ _) (by simp [fail])
  | succ attempts ih =>
    -- The counter is no file.
    have counted : Untouched d { d with sequence := d.sequence + 1 } :=
      ⟨fun _ _ => rfl, rfl, rfl, fun _ inside => inside⟩
    have fetched : (diskSystem message).fetchSequence d =
        (d.sequence, { d with sequence := d.sequence + 1 }) := rfl
    rw [createTemporary, fetched] at ran
    simp only at ran
    generalize named : temporaryCandidate destination _ d.sequence = candidate at ran
    have temporary : IsTemporary destination candidate := ⟨_, _, named.symm⟩
    apply Creates.of_untouched counted
    generalize { d with sequence := d.sequence + 1 } = start at ran
    cases made : (diskSystem message).openExclusive candidate start with
    | mk result middle =>
      rw [made] at ran
      cases call_called (Disk.opening candidate) start middle result made with
      | stopped ended =>
        cases ran
        exact .nothing (.refl _ _) (by simp)
      | failed answer' later e scheduled failing =>
        refine Creates.of_untouched (.scheduled _ _ later) ?_
        simp only at ran
        split at ran
        · exact ih _ ran
        · cases ran
          exact .nothing (.refl _ _) (by simp [fail])
      | acted answer' later result _ scheduled fine acts =>
        refine Creates.of_untouched (.scheduled _ _ later) ?_
        rw [Disk.opening] at acts
        split at acts
        · cases acts
          simp only [if_true] at ran
          exact ih _ ran
        · next free =>
          cases acts
          have absent : Disk.file { start with schedule := later } candidate = none := by
            rw [not_or, Bool.not_eq_true, Option.isSome_eq_false_iff, Option.isNone_iff_eq_none] at free
            exact free.1
          obtain ⟨touches, created⟩ := fillTemporary_spec message candidate text _ d'
            ⟨answer'.time, Disk.file_put_self _ candidate _⟩ answer ran
          have touched := (Touches.put { start with schedule := later } candidate
            { bytes := [], modified := .ok answer'.time } (· = candidate) rfl).trans touches
          refine ⟨touched.weaken fun path same => ?_, fun t success => ?_⟩
          · subst same
            exact ⟨temporary, absent⟩
          · obtain ⟨rfl, held⟩ := created t success
            exact ⟨⟨temporary, absent⟩, touched, held⟩

theorem writeTemporary_spec (message : Errno → Bytes) (destination : FsPath) (text : Bytes)
    (permissionSource : FsPath) (d d' : Disk) (answer : Option (Result FsPath))
    (ran : writeTemporary (diskSystem message) destination text permissionSource d = (answer, d')) :
    Creates destination text d d' answer := by
  rw [writeTemporary] at ran
  cases made : (diskSystem message).stat permissionSource d with
  | mk result middle =>
    have same : Untouched d middle :=
      (call_called (Disk.inspecting permissionSource) d middle result made).touches _
        (inspecting_untouched permissionSource)
    rw [made] at ran
    apply Creates.of_untouched same
    rcases result with _ | (e | ⟨⟩)
    · cases ran
      exact .nothing (.refl _ _) (by simp)
    · simp only at ran
      split at ran
      · cases ran
        exact .nothing (.refl _ _) (by simp [fail])
      · exact createTemporary_spec message destination text _ middle d' answer ran
    · exact createTemporary_spec message destination text _ middle d' answer ran

/-- The rename moves the file in one step, or nothing happens. -/
theorem replaceFile_spec (message : Errno → Bytes) (temporary destination : FsPath) (text : Bytes)
    (d d' : Disk) (held : FileHolds d temporary text) (answer : Option (Result Unit))
    (ran : replaceFile (diskSystem message) temporary destination d = (answer, d')) :
    (answer = some (.ok ()) ∧ FileHolds d' destination text ∧
        Touches (fun path => path = temporary ∨ path = destination) d d' ∧
        (temporary ≠ destination → d'.file temporary = none)) ∨
      (answer ≠ some (.ok ()) ∧ Untouched d d') := by
  rw [replaceFile] at ran
  cases made : (diskSystem message).rename temporary destination d with
  | mk result middle =>
    rw [made] at ran
    cases call_called (Disk.replacing temporary destination) d middle result made with
    | stopped ended =>
      cases ran
      exact .inr ⟨by simp, .refl _ _⟩
    | failed answer' later e scheduled failing =>
      cases ran
      exact .inr ⟨by simp [fail], .scheduled _ _ later⟩
    | acted answer' later result _ scheduled fine acts =>
      obtain ⟨time, found⟩ := held
      have here : Disk.file { d with schedule := later } temporary =
          some { bytes := text, modified := .ok time } := found
      simp only [Disk.replacing, here] at acts
      split at acts
      · cases acts
        cases ran
        exact .inr ⟨by simp [fail], .scheduled _ _ later⟩
      · cases acts
        cases ran
        refine .inl ⟨rfl, ⟨time, Disk.file_put_self _ _ _⟩, ?_, fun different => ?_⟩
        · exact ((Touches.scheduled _ d later).trans (.erase _ temporary _ (.inl rfl))).trans
            (.put _ destination _ _ (.inr rfl))
        · rw [Disk.file_put_ne _ _ _ _ different, Disk.file_erase_self]

/-- Either the destination is replaced by the whole text and nothing else changes, or nothing
changes but new temporary files. -/
theorem writeAndReplace_spec (message : Errno → Bytes) (destination : FsPath) (text : Bytes)
    (permissionSource : FsPath) (d d' : Disk) (answer : Option (Result Unit))
    (ran : writeAndReplace (diskSystem message) destination text permissionSource d =
      (answer, d')) :
    (answer = some (.ok ()) ∧ Touches (· = destination) d d' ∧ FileHolds d' destination text) ∨
      (answer ≠ some (.ok ()) ∧ Touches (NewTemporary destination d) d d') := by
  rw [writeAndReplace] at ran
  cases written : writeTemporary (diskSystem message) destination text permissionSource d with
  | mk first middle =>
    have creates := writeTemporary_spec message destination text permissionSource d middle first written
    rw [written] at ran
    rcases first with _ | (e | temporary)
    · cases ran
      exact .inr ⟨by simp, creates.touches⟩
    · cases ran
      exact .inr ⟨by simp, creates.touches⟩
    · obtain ⟨new, touches, held⟩ := creates.created temporary rfl
      simp only at ran
      cases replaced : replaceFile (diskSystem message) temporary destination middle with
      | mk second later =>
        rw [replaced] at ran
        rcases replaceFile_spec message temporary destination text middle later held second replaced
          with ⟨rfl, complete, moved, gone⟩ | ⟨unsuccessful, same⟩
        · cases ran
          refine .inl ⟨rfl, ⟨fun path other => ?_, ?_, ?_, ?_⟩, complete⟩
          · by_cases here : path = temporary
            · subst here
              rw [gone other, new.2]
            · rw [moved.file path (by simp [here, other]), touches.file path here]
          · exact moved.inspection.trans touches.inspection
          · exact moved.enumeration.trans touches.enumeration
          · exact fun path inside => moved.directories path (touches.directories path inside)
        · have touched := creates.touches.trans (same.touches _)
          rcases second with _ | (e | ⟨⟩)
          · cases ran
            exact .inr ⟨by simp, touched⟩
          · simp only at ran
            cases removed : removeTemporary (diskSystem message) temporary later with
            | mk third last =>
              have erased : Touches (NewTemporary destination d) later last :=
                (removeTemporary_spec message temporary later last third removed).weaken
                  fun path same => same ▸ new
              rw [removed] at ran
              rcases third with _ | ⟨⟩ <;> cases ran <;> exact .inr ⟨by simp, touched.trans erased⟩
          · exact absurd rfl unsuccessful

/-! ## The two writers -/

variable {σ : Type}

theorem createDirectories_spec (message : Errno → Bytes) (path : FsPath) (d d' : Disk)
    (answer : Option (Except Errno Unit))
    (ran : (diskSystem message).createDirectories path d = (answer, d')) :
    Untouched d d' ∧ (answer = some (.ok ()) → path ∈ d'.directories) := by
  have called := call_called (Disk.creating path) d d' answer ran
  refine ⟨called.touches _ (creating_untouched path), fun success => ?_⟩
  cases called with
  | stopped ended => cases success
  | failed answer' rest e scheduled failing => cases success
  | acted answer' rest result _ scheduled fine acts =>
    cases acts
    exact List.mem_cons_self

/-- A capture replaces the checkpoint of the version by the canonical bytes it verified, and
nothing else, or leaves nothing but new temporary files beside it. -/
theorem cpCapture_spec (message : Errno → Bytes) (store : CheckpointStore)
    (config : VersionedConfig) (backend : Backend σ) (state state' : σ) (d d' : Disk)
    (answer : Option (Result Unit))
    (ran : cpCapture (diskSystem message) store config backend state d = (answer, state', d')) :
    (answer = some (.ok ()) ∧
        (∃ text, captureBytes (diskSystem message) store config backend state d =
          (.ok text, state') ∧ FileHolds d' (store.destination config.version) text) ∧
        Touches (· = store.destination config.version) d d' ∧
        store.options.checkpointDirectory ∈ d'.directories) ∨
      (answer ≠ some (.ok ()) ∧
        Touches (NewTemporary (store.destination config.version) d) d d') := by
  rw [cpCapture] at ran
  cases captured : captureBytes (diskSystem message) store config backend state d with
  | mk result first =>
    rw [captured] at ran
    rcases result with e | text
    · cases ran
      exact .inr ⟨by simp, .refl _ _⟩
    simp only at ran
    cases made : (diskSystem message).createDirectories store.options.checkpointDirectory d with
    | mk created middle =>
      obtain ⟨same, present⟩ := createDirectories_spec message _ d middle created made
      rw [made] at ran
      rcases created with _ | (e | ⟨⟩)
      · cases ran
        exact .inr ⟨by simp, same.touches _⟩
      · cases ran
        exact .inr ⟨by simp [fail], same.touches _⟩
      · simp only at ran
        split at ran
        · cases ran
          exact .inr ⟨by simp [fail], same.touches _⟩
        · next exists_ _ =>
          generalize (if exists_ = true then store.destination config.version
            else store.options.canonicalPath) = permissionSource at ran
          cases replaced : writeAndReplace (diskSystem message) (store.destination config.version)
            text permissionSource middle with
          | mk last d'' =>
            rw [replaced] at ran
            cases ran
            rcases writeAndReplace_spec message _ text permissionSource middle d'' last replaced with
              ⟨success, touches, held⟩ | ⟨unsuccessful, touches⟩
            · exact .inl ⟨success, ⟨text, rfl, held⟩, (same.touches _).trans touches,
                touches.directories _ (present rfl)⟩
            · exact .inr ⟨unsuccessful, (same.touches _).trans
                (touches.weaken fun _ new => new.of_untouched same)⟩

/-- A commit replaces the canonical file by the serialized config, and nothing else, or leaves
nothing but new temporary files beside it. -/
theorem cpCommit_spec (message : Errno → Bytes) (store : CheckpointStore)
    (config : VersionedConfig) (backend : Backend σ) (state state' : σ) (d d' : Disk)
    (answer : Option (Result Unit))
    (ran : cpCommit (diskSystem message) store config backend state d = (answer, state', d')) :
    (answer = some (.ok ()) ∧
        (∃ text, saveBytes backend config state = (.ok text, state') ∧
          FileHolds d' store.options.canonicalPath text) ∧
        Touches (· = store.options.canonicalPath) d d') ∨
      (answer ≠ some (.ok ()) ∧ Touches (NewTemporary store.options.canonicalPath d) d d') := by
  rw [cpCommit] at ran
  cases saved : saveBytes backend config state with
  | mk result first =>
    rw [saved] at ran
    rcases result with e | text
    · cases ran
      exact .inr ⟨by simp, .refl _ _⟩
    simp only at ran
    cases made : (diskSystem message).createDirectories
      (parentOrCurrent store.options.canonicalPath) d with
    | mk created middle =>
      obtain ⟨same, _⟩ := createDirectories_spec message _ d middle created made
      rw [made] at ran
      rcases created with _ | (e | ⟨⟩)
      · cases ran
        exact .inr ⟨by simp, same.touches _⟩
      · cases ran
        exact .inr ⟨by simp [fail], same.touches _⟩
      · simp only at ran
        cases replaced : writeAndReplace (diskSystem message) store.options.canonicalPath text
          store.options.canonicalPath middle with
        | mk last d'' =>
          rw [replaced] at ran
          cases ran
          rcases writeAndReplace_spec message _ text _ middle d'' last replaced with
            ⟨success, touches, held⟩ | ⟨unsuccessful, touches⟩
          · exact .inl ⟨success, ⟨text, rfl, held⟩, (same.touches _).trans touches⟩
          · exact .inr ⟨unsuccessful, (same.touches _).trans
              (touches.weaken fun _ new => new.of_untouched same)⟩

end ConfigManager.Refinement
