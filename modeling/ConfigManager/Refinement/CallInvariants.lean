import ConfigManager.Refinement.TemporaryFiles

/-!
# What every call keeps

A property of the system's state that each call keeps, whatever it answers, is
kept while a temporary file is made. On the disk this gives the times of the
files that the process writes: they are those of its own calls.
-/

set_option autoImplicit false

namespace ConfigManager.Refinement
open Library Source Reference

variable {φ : Type}

/-- Every call before the rename keeps the property. -/
structure KeptByCalls (os : System φ) (P : φ → Prop) : Prop where
  fetchSequence : ∀ s, P s → P (os.fetchSequence s).2
  createDirectories : ∀ path s, P s → P (os.createDirectories path s).2
  stat : ∀ path s, P s → P (os.stat path s).2
  openExclusive : ∀ path s, P s → P (os.openExclusive path s).2
  write : ∀ path text s, P s → P (os.write path text s).2
  fchmod : ∀ path s, P s → P (os.fchmod path s).2
  close : ∀ path s, P s → P (os.close path s).2
  remove : ∀ path s, P s → P (os.remove path s).2

section
variable {os : System φ} {P : φ → Prop} (kept : KeptByCalls os P)
include kept

theorem KeptByCalls.writeLoop (candidate : FsPath) (calls : Nat) (text : Bytes) (s : φ)
    (held : P s) : P (writeLoop os candidate calls text s).2 := by
  induction calls generalizing text s with
  | zero => cases text <;> exact held
  | succ calls ih =>
    cases text with
    | nil => exact held
    | cons c rest =>
      have next := kept.write candidate (c :: rest) s held
      rw [Source.writeLoop]
      cases made : os.write candidate (c :: rest) s with
      | mk result middle =>
        rw [made] at next
        rcases result with _ | (e | written)
        · exact next
        · simp only
          split
          · exact ih _ middle next
          · exact next
        · simp only
          split
          · exact next
          · exact ih _ middle next

theorem KeptByCalls.fillTemporary (candidate : FsPath) (text : Bytes) (s : φ) (held : P s) :
    P (fillTemporary os candidate text s).2 := by
  rw [Source.fillTemporary]
  have written := kept.writeLoop candidate (os.calls s) text s held
  generalize Source.writeLoop os candidate (os.calls s) text s = answer at written ⊢
  obtain ⟨_ | failed, s₁⟩ := answer
  · exact written
  simp only
  have chmodded : P (unlessFailed failed (os.fchmod candidate) s₁).2 := by
    cases failed with
    | some e => exact written
    | none =>
      have next := kept.fchmod candidate s₁ written
      rw [unlessFailed]
      generalize os.fchmod candidate s₁ = answer at next ⊢
      obtain ⟨_ | (e | ⟨⟩), s₂⟩ := answer <;> exact next
  generalize unlessFailed failed (os.fchmod candidate) s₁ = answer at chmodded ⊢
  obtain ⟨_ | failed₂, s₂⟩ := answer
  · exact chmodded
  simp only
  have closed : P (closeAfter os candidate failed₂ s₂).2 := by
    have next := kept.close candidate s₂ chmodded
    rw [closeAfter]
    generalize os.close candidate s₂ = answer at next ⊢
    obtain ⟨_ | (e | ⟨⟩), s₃⟩ := answer <;> exact next
  generalize closeAfter os candidate failed₂ s₂ = answer at closed ⊢
  obtain ⟨_ | (_ | e), s₃⟩ := answer
  · exact closed
  · exact closed
  · simp only
    have removed := kept.remove candidate s₃ closed
    rw [removeTemporary]
    generalize os.remove candidate s₃ = answer at removed ⊢
    obtain ⟨_ | result, s₄⟩ := answer <;> exact removed

theorem KeptByCalls.createTemporary (destination : FsPath) (text : Bytes) (attempts : Nat) (s : φ)
    (held : P s) : P (createTemporary os destination text attempts s).2 := by
  induction attempts generalizing s with
  | zero => exact held
  | succ attempts ih =>
    have fetched := kept.fetchSequence s held
    rw [Source.createTemporary]
    generalize os.fetchSequence s = counted at fetched ⊢
    obtain ⟨sequence, s₁⟩ := counted
    simp only
    generalize temporaryCandidate destination (os.steadyClock s₁) sequence = candidate
    have opened := kept.openExclusive candidate s₁ fetched
    generalize os.openExclusive candidate s₁ = answer at opened ⊢
    obtain ⟨_ | (e | ⟨⟩), s₂⟩ := answer
    · exact opened
    · simp only
      split
      · exact ih s₂ opened
      · exact opened
    · exact kept.fillTemporary candidate text s₂ opened

theorem KeptByCalls.writeTemporary (destination : FsPath) (text : Bytes) (permissionSource : FsPath)
    (s : φ) (held : P s) : P (writeTemporary os destination text permissionSource s).2 := by
  have inspected := kept.stat permissionSource s held
  rw [Source.writeTemporary]
  generalize os.stat permissionSource s = answer at inspected ⊢
  obtain ⟨_ | (e | ⟨⟩), s₁⟩ := answer
  · exact inspected
  · simp only
    split
    · exact inspected
    · exact kept.createTemporary destination text _ s₁ inspected
  · exact kept.createTemporary destination text _ s₁ inspected

end

/-! ## The times of written files -/

/-- Every file that is not as it was on `d` has the time of one of the calls that `d` still has
before it. -/
structure Stamped (d d' : Disk) : Prop where
  remaining : ∀ answer ∈ d'.schedule, answer ∈ d.schedule
  files : ∀ path node, d'.file path = some node → d.file path = some node ∨
    ∃ answer ∈ d.schedule, node.modified = .ok answer.time

theorem Stamped.refl (d : Disk) : Stamped d d := ⟨fun _ inside => inside, fun _ _ found => .inl found⟩

theorem Stamped.scheduled {d d' : Disk} (stamped : Stamped d d') (schedule : List Answer)
    (less : ∀ answer ∈ schedule, answer ∈ d'.schedule) :
    Stamped d { d' with schedule := schedule } :=
  ⟨fun answer inside => stamped.remaining answer (less answer inside), stamped.files⟩

theorem Stamped.put {d d' : Disk} (stamped : Stamped d d') (path : FsPath) (node : FileNode)
    (dated : ∃ answer ∈ d.schedule, node.modified = .ok answer.time) :
    Stamped d (d'.put path node) := by
  refine ⟨stamped.remaining, fun other found there => ?_⟩
  by_cases same : other = path
  · subst same
    rw [Disk.file_put_self, Option.some.injEq] at there
    exact .inr (there ▸ dated)
  · rw [Disk.file_put_ne _ _ _ _ same] at there
    exact stamped.files other found there

theorem Stamped.erase {d d' : Disk} (stamped : Stamped d d') (path : FsPath) :
    Stamped d (d'.erase path) := by
  refine ⟨stamped.remaining, fun other found there => ?_⟩
  by_cases same : other = path
  · subst same
    rw [Disk.file_erase_self] at there
    cases there
  · rw [Disk.file_erase_ne _ _ _ same] at there
    exact stamped.files other found there

/-- A call that acts takes its answer from those left. -/
theorem Stamped.call {α : Type} {act : Answer → Disk → Except Errno α × Disk} {d d' : Disk}
    (stamped : Stamped d d')
    (acts : ∀ answer ∈ d.schedule, ∀ d', Stamped d d' → Stamped d (act answer d').2) :
    Stamped d (Disk.call act d').2 := by
  cases ran : Disk.call act d' with
  | mk result final =>
    cases call_called act d' final result ran with
    | stopped ended => exact stamped
    | failed answer rest e scheduled failing =>
      exact stamped.scheduled rest fun other inside => by simp [scheduled, inside]
    | acted answer rest result _ scheduled fine acted =>
      have left : Stamped d { d' with schedule := rest } :=
        stamped.scheduled rest fun other inside => by simp [scheduled, inside]
      have step := acts answer (stamped.remaining answer (by simp [scheduled])) _ left
      rwa [acted] at step

theorem stamped_kept (message : Errno → Bytes) (d : Disk) :
    KeptByCalls (diskSystem message) (Stamped d) where
  fetchSequence s held := ⟨held.remaining, held.files⟩
  createDirectories path s held := held.call fun _ _ _ held' => ⟨held'.remaining, held'.files⟩
  stat path s held := held.call fun answer _ d' held' => by
    unfold Disk.inspecting
    split <;> exact held'
  openExclusive path s held := held.call fun answer inside d' held' => by
    unfold Disk.opening
    split
    · exact held'
    · exact held'.put path _ ⟨answer, inside, rfl⟩
  write path text s held := held.call fun answer inside d' held' => by
    unfold Disk.writing
    split
    · exact held'
    · exact held'.put path _ ⟨answer, inside, rfl⟩
  fchmod path s held := held.call fun _ _ _ held' => held'
  close path s held := held.call fun _ _ _ held' => held'
  remove path s held := held.call fun _ _ _ held' => held'.erase path

/-- A file that was put in place has the time of one of the calls. -/
theorem writeAndReplace_stamped (message : Errno → Bytes) (destination : FsPath) (text : Bytes)
    (permissionSource : FsPath) (d d' : Disk)
    (ran : writeAndReplace (diskSystem message) destination text permissionSource d =
      (some (.ok ()), d')) :
    ∃ answer ∈ d.schedule,
      d'.file destination = some { bytes := text, modified := .ok answer.time } := by
  rw [writeAndReplace] at ran
  cases made : writeTemporary (diskSystem message) destination text permissionSource d with
  | mk first middle =>
    have creates := writeTemporary_spec message destination text permissionSource d middle first made
    have stamped := (stamped_kept message d).writeTemporary destination text permissionSource d
      (.refl d)
    rw [made] at ran stamped
    rcases first with _ | (e | temporary)
    · cases ran
    · cases ran
    obtain ⟨new, _, time, held⟩ := creates.created temporary rfl
    obtain ⟨answer, inside, dated⟩ : ∃ answer ∈ d.schedule, Except.ok time =
        (Except.ok answer.time : Except Errno FileTime) := by
      refine (stamped.files temporary _ held).resolve_left fun before => ?_
      rw [new.2] at before
      cases before
    cases dated
    refine ⟨answer, inside, ?_⟩
    simp only at ran
    cases replaced : replaceFile (diskSystem message) temporary destination middle with
    | mk second last =>
      rw [replaced] at ran
      rw [replaceFile] at replaced
      cases renamed : (diskSystem message).rename temporary destination middle with
      | mk result after =>
        rw [renamed] at replaced
        rcases result with _ | (e | ⟨⟩)
        · cases replaced
          cases ran
        · cases replaced
          simp only [fail] at ran
          split at ran <;> cases ran
        · cases replaced
          cases ran
          cases call_called (Disk.replacing temporary destination) middle _ _ renamed with
          | acted answer' rest _ _ scheduled fine acts =>
            have there : Disk.file { middle with schedule := rest } temporary =
                some { bytes := text, modified := .ok answer.time } := held
            rw [Disk.replacing, there] at acts
            simp only at acts
            split at acts
            · cases acts
            · cases acts
              exact Disk.file_put_self _ destination _

/-- A capture that succeeds dates its checkpoint by one of the calls. -/
theorem cpCapture_stamped {σ : Type} (message : Errno → Bytes) (store : CheckpointStore)
    (config : VersionedConfig) (backend : Backend σ) (state state' : σ) (d d' : Disk)
    (ran : cpCapture (diskSystem message) store config backend state d =
      (some (.ok ()), state', d')) :
    ∃ text, captureBytes (diskSystem message) store config backend state d = (.ok text, state') ∧
      ∃ answer ∈ d.schedule, d'.file (store.destination config.version) =
        some { bytes := text, modified := .ok answer.time } := by
  rw [cpCapture] at ran
  rcases captured : captureBytes (diskSystem message) store config backend state d with
    ⟨e | text, state₁⟩
  · rw [captured] at ran
    cases ran
  rw [captured] at ran
  have left := (stamped_kept message d).createDirectories store.options.checkpointDirectory d
    (.refl d)
  cases created : (diskSystem message).createDirectories store.options.checkpointDirectory d with
  | mk result middle =>
    rw [created] at left
    simp only [created] at ran
    rcases result with _ | (e | ⟨⟩)
    · cases ran
    · cases ran
    · simp only at ran
      split at ran
      · cases ran
      · next present _ =>
        cases replaced : writeAndReplace (diskSystem message) (store.destination config.version)
            text (if present = true then store.destination config.version
              else store.options.canonicalPath) middle with
        | mk answer last =>
          rw [replaced] at ran
          cases ran
          obtain ⟨answer, inside, held⟩ := writeAndReplace_stamped message _ text _ middle last replaced
          exact ⟨text, rfl, answer, left.remaining answer inside, held⟩

end ConfigManager.Refinement
