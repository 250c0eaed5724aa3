import ConfigManager.Refinement.CheckpointPruning

/-!
# What a write keeps on any system

A property of the system's state that every call keeps holds however a run of
`writeAndReplace` ends, also when the process stops in it. While the temporary
file is there a property of its own may take its place.
-/

set_option autoImplicit false

namespace ConfigManager.Refinement
open Source

variable {φ σ : Type}

/-- `outside` holds before and after a run, `staged` while the temporary file of that name is
there. -/
structure Framed (os : System φ) (destination : FsPath) (outside : φ → Prop)
    (staged : FsPath → φ → Prop) : Prop where
  fetch : ∀ s, outside s → outside (os.fetchSequence s).2
  stat : ∀ path s, outside s → outside (os.stat path s).2
  refused : ∀ path s, outside s → (os.openExclusive path s).1 ≠ some (.ok ()) →
    outside (os.openExclusive path s).2
  opened : ∀ ticks sequence s, outside s →
    (os.openExclusive (temporaryCandidate destination ticks sequence) s).1 = some (.ok ()) →
    staged (temporaryCandidate destination ticks sequence)
      (os.openExclusive (temporaryCandidate destination ticks sequence) s).2
  write : ∀ candidate text s, staged candidate s → staged candidate (os.write candidate text s).2
  fchmod : ∀ candidate s, staged candidate s → staged candidate (os.fchmod candidate s).2
  close : ∀ candidate s, staged candidate s → staged candidate (os.close candidate s).2
  rename : ∀ candidate s, staged candidate s →
    staged candidate (os.rename candidate destination s).2
  remove : ∀ candidate s, staged candidate s → staged candidate (os.remove candidate s).2
  done : ∀ candidate s, staged candidate s → outside s

section
variable {os : System φ} {destination : FsPath} {outside : φ → Prop} {staged : FsPath → φ → Prop}
  (framed : Framed os destination outside staged) {candidate : FsPath}
include framed

theorem Framed.removeTemporary {s : φ} (holds : staged candidate s) :
    staged candidate (removeTemporary os candidate s).2 := by
  have kept := framed.remove candidate s holds
  unfold Source.removeTemporary
  cases made : os.remove candidate s with
  | mk result s' =>
    rw [made] at kept
    cases result <;> exact kept

theorem Framed.writeLoop (calls : Nat) (text : Bytes) {s : φ} (holds : staged candidate s) :
    staged candidate (writeLoop os candidate calls text s).2 := by
  induction calls generalizing text s with
  | zero => cases text <;> exact holds
  | succ calls ih =>
    cases text with
    | nil => exact holds
    | cons c rest =>
      have kept := framed.write candidate (c :: rest) s holds
      rw [Source.writeLoop]
      cases made : os.write candidate (c :: rest) s with
      | mk result s' =>
        rw [made] at kept
        rcases result with _ | (e | written)
        · exact kept
        · simp only
          split
          · exact ih _ kept
          · exact kept
        · simp only
          split
          · exact kept
          · exact ih _ kept

theorem Framed.fchmod_unlessFailed (failed : Option Errno) {s : φ} (holds : staged candidate s) :
    staged candidate (unlessFailed failed (os.fchmod candidate) s).2 := by
  cases failed with
  | some e => exact holds
  | none =>
    have kept := framed.fchmod candidate s holds
    rw [unlessFailed]
    cases made : os.fchmod candidate s with
    | mk result s' =>
      rw [made] at kept
      rcases result with _ | (e | ⟨⟩) <;> exact kept

theorem Framed.closeAfter (failed : Option Errno) {s : φ} (holds : staged candidate s) :
    staged candidate (closeAfter os candidate failed s).2 := by
  have kept := framed.close candidate s holds
  rw [Source.closeAfter]
  cases made : os.close candidate s with
  | mk result s' =>
    rw [made] at kept
    rcases result with _ | (e | ⟨⟩) <;> exact kept

/-- What holds after writing a temporary file, which is there when there is an answer. -/
def Written (outside : φ → Prop) (staged : FsPath → φ → Prop) :
    Option (Result FsPath) × φ → Prop
  | (some (.ok temporary), s) => staged temporary s
  | (_, s) => outside s

theorem Framed.fillTemporary (text : Bytes) {s : φ} (holds : staged candidate s) :
    Written outside staged (fillTemporary os candidate text s) := by
  have wrote := framed.writeLoop (os.calls s) text holds
  rw [Source.fillTemporary]
  cases written : Source.writeLoop os candidate (os.calls s) text s with
  | mk result s₁ =>
    rw [written] at wrote
    rcases result with _ | failed
    · exact framed.done _ _ wrote
    have changed := framed.fchmod_unlessFailed failed wrote
    simp only
    cases moded : unlessFailed failed (os.fchmod candidate) s₁ with
    | mk result s₂ =>
      rw [moded] at changed
      rcases result with _ | failed'
      · exact framed.done _ _ changed
      have closed := framed.closeAfter failed' changed
      simp only
      cases ended : Source.closeAfter os candidate failed' s₂ with
      | mk result s₃ =>
        rw [ended] at closed
        rcases result with _ | (_ | e)
        · exact framed.done _ _ closed
        · exact closed
        · have removed := framed.removeTemporary closed
          simp only
          cases gone : Source.removeTemporary os candidate s₃ with
          | mk result s₄ =>
            rw [gone] at removed
            cases result <;> exact framed.done _ _ removed

theorem Framed.createTemporary (text : Bytes) (attempts : Nat) {s : φ} (holds : outside s) :
    Written outside staged (createTemporary os destination text attempts s) := by
  induction attempts generalizing s with
  | zero => exact holds
  | succ attempts ih =>
    have fetched := framed.fetch s holds
    rw [Source.createTemporary]
    cases next : os.fetchSequence s with
    | mk sequence s₁ =>
      rw [next] at fetched
      have refused := framed.refused
        (temporaryCandidate destination (os.steadyClock s₁) sequence) s₁ fetched
      have opened := framed.opened (os.steadyClock s₁) sequence s₁ fetched
      simp only
      cases made :
          os.openExclusive (temporaryCandidate destination (os.steadyClock s₁) sequence) s₁ with
      | mk result s₂ =>
        rw [made] at refused opened
        rcases result with _ | (e | ⟨⟩)
        · exact refused (by simp)
        · simp only
          split
          · exact ih (refused (by simp))
          · exact refused (by simp)
        · exact framed.fillTemporary text (opened rfl)

theorem Framed.writeTemporary (text : Bytes) (permissionSource : FsPath) {s : φ}
    (holds : outside s) :
    Written outside staged (writeTemporary os destination text permissionSource s) := by
  have inspected := framed.stat permissionSource s holds
  rw [Source.writeTemporary]
  cases made : os.stat permissionSource s with
  | mk result s' =>
    rw [made] at inspected
    rcases result with _ | (e | ⟨⟩)
    · exact inspected
    · simp only
      split
      · exact inspected
      · exact framed.createTemporary text kTemporaryAttempts inspected
    · exact framed.createTemporary text kTemporaryAttempts inspected

/-- However writing and replacing ends, what every call keeps holds. -/
theorem Framed.writeAndReplace (text : Bytes) (permissionSource : FsPath) {s : φ}
    (holds : outside s) :
    outside (writeAndReplace os destination text permissionSource s).2 := by
  have written := framed.writeTemporary text permissionSource holds
  rw [Source.writeAndReplace]
  cases wrote : Source.writeTemporary os destination text permissionSource s with
  | mk result s₁ =>
    rw [wrote] at written
    rcases result with _ | (e | temporary)
    · exact written
    · exact written
    · have renamed := framed.rename temporary s₁ written
      simp only [replaceFile]
      cases made : os.rename temporary destination s₁ with
      | mk result s₂ =>
        rw [made] at renamed
        rcases result with _ | (e | ⟨⟩)
        · exact framed.done _ _ renamed
        · have removed := framed.removeTemporary renamed
          simp only [fail]
          cases gone : Source.removeTemporary os temporary s₂ with
          | mk result s₃ =>
            rw [gone] at removed
            cases result <;> exact framed.done _ _ removed
        · exact framed.done _ _ renamed

end

/-- A commit keeps what making directories and writing keep. -/
theorem cpCommit_framed (os : System φ) (store : CheckpointStore) (config : VersionedConfig)
    (backend : Backend σ) (state : σ) {outside : φ → Prop} {staged : FsPath → φ → Prop}
    (framed : Framed os store.options.canonicalPath outside staged)
    (creates : ∀ path s, outside s → outside (os.createDirectories path s).2) {s : φ}
    (holds : outside s) : outside (cpCommit os store config backend state s).2.2 := by
  rw [cpCommit]
  rcases saveBytes backend config state with ⟨e | text, state'⟩
  · exact holds
  · have made := creates (parentOrCurrent store.options.canonicalPath) s holds
    simp only
    cases created : os.createDirectories (parentOrCurrent store.options.canonicalPath) s with
    | mk result s' =>
      rw [created] at made
      rcases result with _ | (e | ⟨⟩)
      · exact made
      · exact made
      · exact framed.writeAndReplace text store.options.canonicalPath made

/-- So does a capture, with the checkpoint that it writes. -/
theorem cpCapture_framed (os : System φ) (store : CheckpointStore) (config : VersionedConfig)
    (backend : Backend σ) (state : σ) {outside : φ → Prop} {staged : FsPath → φ → Prop}
    (framed : Framed os (store.destination config.version) outside staged)
    (creates : ∀ path s, outside s → outside (os.createDirectories path s).2) {s : φ}
    (holds : outside s) : outside (cpCapture os store config backend state s).2.2 := by
  rw [cpCapture]
  rcases captureBytes os store config backend state s with ⟨e | text, state'⟩
  · exact holds
  · have made := creates store.options.checkpointDirectory s holds
    simp only
    cases created : os.createDirectories store.options.checkpointDirectory s with
    | mk result s' =>
      rw [created] at made
      rcases result with _ | (e | ⟨⟩)
      · exact made
      · exact made
      · simp only
        cases os.fileExists (store.destination config.version) s' with
        | error e => exact made
        | ok present =>
          simp only
          exact framed.writeAndReplace text _ made

/-- What the removal of each path keeps, removing all keeps. -/
theorem removeFiles_framed (os : System φ) (paths : List FsPath) (report : PruneReport)
    {outside : φ → Prop}
    (removes : ∀ path ∈ paths, ∀ s, outside s → outside (os.remove path s).2) {s : φ}
    (holds : outside s) : outside (removeFiles os paths report s).2 := by
  induction paths generalizing report s with
  | nil => exact holds
  | cons path rest ih =>
    have kept := removes path List.mem_cons_self s holds
    rw [removeFiles]
    cases made : os.remove path s with
    | mk result s' =>
      rw [made] at kept
      rcases result with _ | (e | ⟨⟩)
      · exact kept
      · exact kept
      · exact ih _ (fun p inside => removes p (List.mem_cons_of_mem _ inside)) kept

/-- A prune keeps what the removal of the files that it lists keeps. -/
theorem cpPrune_framed (os : System φ) (store : CheckpointStore) (backend : Backend σ) (state : σ)
    {outside : φ → Prop} {s : φ}
    (removes : ∀ paths, checkpointFiles os store s = .ok paths →
      ∀ path ∈ paths, ∀ s', outside s' → outside (os.remove path s').2)
    (holds : outside s) : outside (cpPrune os store backend state s).2.2 := by
  cases listed : checkpointFiles os store s with
  | error e =>
    rw [cpPrune, listed]
    exact holds
  | ok paths =>
    rw [cpPrune_eq os store backend state s paths listed]
    exact removeFiles_framed os _ _
      (fun path removed => removes paths listed path (removals_listed os store backend s paths state
        _ path removed)) holds

end ConfigManager.Refinement
