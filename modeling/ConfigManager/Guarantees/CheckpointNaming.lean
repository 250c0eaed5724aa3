import ConfigManager.Refinement.CheckpointNames

/-!
# The names of checkpoints

A checkpoint is found again by its name alone, so the name has to say the version,
to be recognised, and to differ from what a write leaves unfinished.
-/

set_option autoImplicit false

namespace ConfigManager.Guarantees
open Source Refinement

/-! ## Which recognised names are those of versions -/

/-- A recognised name is that of a version unless its number has more than 32 bits. -/
theorem recognised_version_iff (path : FsPath) (extension : Bytes) (shape : IsExtension extension)
    (recognised : isCheckpointFilename path extension = true) :
    (∃ version, path.filename = checkpointFilename version extension) ↔
      digitsValue path.stem < 2 ^ 32 := by
  obtain ⟨digits, named, long, decimal⟩ := (isCheckpointFilename_iff path extension shape).mp recognised
  have some : digits ≠ [] := by
    rintro rfl
    cases long
  have stem : path.stem = digits := by
    rw [FsPath.stem, named, splitExtension_digits digits extension shape some decimal]
  rw [stem, named]
  constructor
  · rintro ⟨version, same⟩
    rw [List.append_cancel_right same, digitsValue_paddedVersion]
    exact version.isLt
  · intro small
    obtain ⟨long', decimal'⟩ := paddedVersion_digits ⟨digitsValue digits, small⟩
    refine ⟨⟨digitsValue digits, small⟩, congrArg (· ++ extension) ?_⟩
    apply digitsValue_injective _ _ (long.trans long'.symm) decimal decimal'
    rw [digitsValue_paddedVersion]

/-! ## Names that are apart -/

/-- For the extension of any canonical file: a file that is named after a version is recognised,
different versions give different names, and no temporary file is recognised. -/
theorem checkpoint_names :
    (∀ extension, IsExtension extension ↔ ∃ canonical : FsPath, canonical.extension = extension) ∧
    (∀ (path : FsPath) version extension, IsExtension extension →
      path.filename = checkpointFilename version extension →
      isCheckpointFilename path extension = true) ∧
    (∀ version version' extension,
      checkpointFilename version extension = checkpointFilename version' extension →
      version = version') ∧
    ∀ destination ticks sequence extension,
      isCheckpointFilename (temporaryCandidate destination ticks sequence) extension = false :=
  ⟨isExtension_iff, checkpointFilename_recognised, checkpointFilename_injective,
    temporary_not_checkpoint⟩

end ConfigManager.Guarantees
