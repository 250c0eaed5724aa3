import Mathlib.Data.List.TakeWhile
import ConfigManager.Source.CheckpointStore

/-!
# Names of checkpoints and of temporary files

How a filename splits at its last dot, that a checkpoint's name says its version
and is recognised, and that a temporary name is not.
-/

set_option autoImplicit false

namespace ConfigManager.Refinement
open Source

/-! ## Paths in a directory -/

@[simp] theorem filename_child (directory : FsPath) (name : Bytes) :
    (directory.child name).filename = name := by
  simp [FsPath.filename, FsPath.child]

theorem child_injective (directory : FsPath) (name name' : Bytes)
    (same : directory.child name = directory.child name') : name = name' := by
  rw [← filename_child directory name, same, filename_child]

/-- An entry of a directory is not the directory. -/
theorem child_ne (directory : FsPath) (name : Bytes) (named : name ≠ []) :
    directory.child name ≠ directory := by
  intro same
  have elements := congrArg FsPath.elements same
  simp only [FsPath.child] at elements
  split at elements
  · next separated =>
    rw [← elements, List.getLast?_concat] at separated
    exact named (Option.some.inj separated)
  · have lengths := congrArg List.length elements
    simp at lengths

/-- The parent of an entry does not depend on its name. -/
theorem parentOrCurrent_child (directory : FsPath) (name name' : Bytes) :
    parentOrCurrent (directory.child name) = parentOrCurrent (directory.child name') := by
  simp [parentOrCurrent, FsPath.parentPath, FsPath.child]

/-! ## Extensions -/

/-- A name splits before its last dot. -/
theorem splitExtension_append (stem extension : Bytes) (plain : dot ∉ extension)
    (named : stem ≠ []) (proper : stem ≠ bytes ".") :
    FsPath.splitExtension (stem ++ dot :: extension) = (stem, dot :: extension) := by
  have reversed : (stem ++ dot :: extension).reverse =
      extension.reverse ++ dot :: stem.reverse := by simp
  have before : ∀ c ∈ extension.reverse, (c != dot) = true := by
    intro c inside
    simp only [bne_iff_ne, ne_eq]
    rintro rfl
    exact plain (List.mem_reverse.mp inside)
  have rest : (extension.reverse ++ dot :: stem.reverse).dropWhile (· != dot) =
      dot :: stem.reverse := by
    rw [List.dropWhile_append_of_pos before]
    simp
  have passed : (extension.reverse ++ dot :: stem.reverse).takeWhile (· != dot) =
      extension.reverse := by
    rw [List.takeWhile_append_of_pos before]
    simp
  have long : ¬ (stem ++ dot :: extension = bytes "." ∨ stem ++ dot :: extension = bytes "..") := by
    have one : bytes "." = [dot] := rfl
    have two : bytes ".." = [dot, dot] := rfl
    rw [one] at proper
    rw [one, two]
    obtain ⟨c, tail, rfl⟩ := List.exists_cons_of_ne_nil named
    cases tail with
    | nil => simpa using fun same _ => proper (by rw [same])
    | cons c' tail => simp
  rw [FsPath.splitExtension, if_neg long, reversed, rest, passed]
  obtain ⟨c, tail, shape⟩ := List.exists_cons_of_ne_nil (mt List.reverse_eq_nil_iff.mp named)
  simp only [shape, List.reverse_reverse]
  rw [← shape, List.reverse_reverse]

/-- A name without a dot is all stem. -/
theorem splitExtension_plain (name : Bytes) (plain : dot ∉ name) :
    FsPath.splitExtension name = (name, []) := by
  have none : name.reverse.dropWhile (· != dot) = [] := by
    rw [List.dropWhile_eq_nil_iff]
    intro c inside
    simp only [bne_iff_ne, ne_eq]
    rintro rfl
    exact plain (List.mem_reverse.mp inside)
  rw [FsPath.splitExtension, none]
  split <;> rfl

/-- What an extension looks like. -/
def IsExtension (extension : Bytes) : Prop :=
  extension = [] ∨ ∃ rest, extension = dot :: rest ∧ dot ∉ rest

theorem extension_shape (path : FsPath) : IsExtension path.extension := by
  unfold FsPath.extension FsPath.splitExtension
  split
  · exact .inl rfl
  · split
    · refine .inr ⟨_, rfl, fun inside => ?_⟩
      rw [List.mem_reverse] at inside
      have passed := List.mem_takeWhile_imp inside
      simp at passed
    · exact .inl rfl

/-- Every such text is the extension of a path. -/
theorem isExtension_iff (extension : Bytes) :
    IsExtension extension ↔ ∃ path : FsPath, path.extension = extension := by
  constructor
  · rintro (rfl | ⟨rest, rfl, plain⟩)
    · exact ⟨⟨false, []⟩, rfl⟩
    · refine ⟨⟨false, [bytes "config" ++ dot :: rest]⟩, ?_⟩
      have split := splitExtension_append (bytes "config") rest plain (by decide) (by decide)
      exact congrArg Prod.snd split
  · rintro ⟨path, rfl⟩
    exact extension_shape path

/-- The two parts of a name make up the name. -/
theorem splitExtension_rejoin (name : Bytes) :
    (FsPath.splitExtension name).1 ++ (FsPath.splitExtension name).2 = name := by
  unfold FsPath.splitExtension
  split
  · exact List.append_nil name
  · split
    · next before c stem found =>
      -- The dropping stops at a dot.
      have stop : before = dot := by
        have head := List.head?_dropWhile_not (· != dot) name.reverse
        rw [found] at head
        simpa using head
      have whole := List.takeWhile_append_dropWhile (p := (· != dot)) (l := name.reverse)
      rw [found, stop] at whole
      have turned := congrArg List.reverse whole
      rw [List.reverse_reverse, List.reverse_append, List.reverse_cons, List.append_assoc] at turned
      exact turned
    · exact List.append_nil name

/-! ## Names of checkpoints -/

theorem dot_not_digit : isDigit dot = false := by decide

theorem digits_plain (text : Bytes) (digits : ∀ c ∈ text, isDigit c = true) : dot ∉ text :=
  fun inside => absurd (digits dot inside) (by rw [dot_not_digit]; simp)

theorem versionText_length (version : VersionId) : (versionText version).length ≤ 10 := by
  rw [versionText, natText]
  split
  · simp
  · rw [List.length_map, List.length_reverse, Nat.digits_length_le_iff (by omega)]
    exact lt_trans version.isLt (by omega)

theorem paddedVersion_digits (version : VersionId) :
    (paddedVersion version).length = 10 ∧ ∀ c ∈ paddedVersion version, isDigit c = true := by
  have short := versionText_length version
  constructor
  · simp only [paddedVersion, List.length_append, List.length_replicate]
    omega
  · intro c inside
    rcases List.mem_append.mp inside with zero | digit
    · rw [List.eq_of_mem_replicate zero]
      rfl
    · exact natText_isDigit _ c digit

theorem checkpointFilename_ne_nil (version : VersionId) (extension : Bytes) :
    checkpointFilename version extension ≠ [] := by
  intro empty
  have long := (paddedVersion_digits version).1
  rw [checkpointFilename, List.append_eq_nil_iff] at empty
  rw [empty.1] at long
  cases long

theorem digitsValue_padded (zeros : Nat) (text : Bytes) :
    digitsValue (List.replicate zeros 48 ++ text) = digitsValue text := by
  induction zeros with
  | zero => rfl
  | succ zeros ih =>
    rw [List.replicate_succ, List.cons_append, ← ih]
    rfl

theorem digitsValue_paddedVersion (version : VersionId) :
    digitsValue (paddedVersion version) = version.val := by
  rw [paddedVersion, digitsValue_padded, versionText, digitsValue_natText]

theorem paddedVersion_injective (version version' : VersionId)
    (same : paddedVersion version = paddedVersion version') : version = version' := by
  have values := congrArg digitsValue same
  rw [digitsValue_paddedVersion, digitsValue_paddedVersion] at values
  exact Fin.ext values

theorem digitsValue_snoc (digits : Bytes) (c : UInt8) :
    digitsValue (digits ++ [c]) = digitsValue digits * 10 + (c.toNat - 48) := by
  rw [digitsValue, digitsValue, List.foldl_append]
  rfl

/-- Digits of one length are told apart by their value. -/
theorem digitsValue_injective (digits digits' : Bytes) (long : digits.length = digits'.length)
    (decimal : ∀ c ∈ digits, isDigit c = true) (decimal' : ∀ c ∈ digits', isDigit c = true)
    (same : digitsValue digits = digitsValue digits') : digits = digits' := by
  induction digits using List.reverseRecOn generalizing digits' with
  | nil => exact (List.length_eq_zero_iff.mp long.symm).symm
  | append_singleton digits c ih =>
    cases digits' using List.reverseRecOn with
    | nil => simp at long
    | append_singleton digits' c' =>
      rw [List.forall_mem_append, List.forall_mem_singleton] at decimal decimal'
      rw [digitsValue_snoc, digitsValue_snoc] at same
      rw [List.length_append, List.length_append] at long
      have range := (isDigit_iff c).mp decimal.2
      have range' := (isDigit_iff c').mp decimal'.2
      have last : c.toNat = c'.toNat := by omega
      have front := ih digits' (Nat.add_right_cancel long) decimal.1 decimal'.1 (by omega)
      rw [front, UInt8.toNat_inj.mp last]

theorem checkpointFilename_injective (version version' : VersionId) (extension : Bytes)
    (same : checkpointFilename version extension = checkpointFilename version' extension) :
    version = version' :=
  paddedVersion_injective version version' (List.append_cancel_right same)

/-- Digits with an extension behind them split there. -/
theorem splitExtension_digits (digits extension : Bytes) (shape : IsExtension extension)
    (some : digits ≠ []) (decimal : ∀ c ∈ digits, isDigit c = true) :
    FsPath.splitExtension (digits ++ extension) = (digits, extension) := by
  have plain := digits_plain digits decimal
  rcases shape with rfl | ⟨rest, rfl, single⟩
  · rw [List.append_nil]
    exact splitExtension_plain digits plain
  · refine splitExtension_append digits rest single some ?_
    rintro rfl
    exact plain (by decide)

/-- Exactly the names of ten digits before the extension are those of checkpoints. -/
theorem isCheckpointFilename_iff (path : FsPath) (extension : Bytes)
    (shape : IsExtension extension) :
    isCheckpointFilename path extension = true ↔
      ∃ digits, path.filename = digits ++ extension ∧ digits.length = 10 ∧
        ∀ c ∈ digits, isDigit c = true := by
  unfold isCheckpointFilename
  constructor
  · intro recognised
    split at recognised
    · cases recognised
    · next same =>
      rw [ne_eq, not_not] at same
      simp only [Bool.and_eq_true, beq_iff_eq, List.all_eq_true] at recognised
      refine ⟨path.stem, ?_, recognised⟩
      rw [← same]
      exact (splitExtension_rejoin path.filename).symm
  · rintro ⟨digits, named, long, decimal⟩
    have some : digits ≠ [] := by
      rintro rfl
      cases long
    have split := splitExtension_digits digits extension shape some decimal
    rw [FsPath.extension, FsPath.stem, named, split]
    simp only [ne_eq, not_true_eq_false, if_false, long, beq_self_eq_true, Bool.true_and,
      List.all_eq_true]
    exact decimal

/-- Every name that the component gives a checkpoint is recognised. -/
theorem checkpointFilename_recognised (path : FsPath) (version : VersionId) (extension : Bytes)
    (shape : IsExtension extension) (named : path.filename = checkpointFilename version extension) :
    isCheckpointFilename path extension = true :=
  (isCheckpointFilename_iff path extension shape).mpr
    ⟨paddedVersion version, named, paddedVersion_digits version⟩

theorem checkpoint_recognised (directory : FsPath) (version : VersionId) (extension : Bytes)
    (shape : IsExtension extension) :
    isCheckpointFilename (directory.child (checkpointFilename version extension)) extension =
      true :=
  checkpointFilename_recognised _ version extension shape (filename_child directory _)

/-! ## Temporary names -/

/-- A temporary name splits before its sequence number. -/
theorem splitExtension_temporary (destination : FsPath) (ticks : Int64) (sequence : UInt64) :
    FsPath.splitExtension (temporaryCandidate destination ticks sequence).filename =
      (destination.filename ++ bytes ".tmp." ++ intText ticks, dot :: natText sequence.toNat) := by
  have plain : dot ∉ natText sequence.toNat := digits_plain _ (natText_isDigit _)
  have shape : destination.filename ++ bytes ".tmp." ++ intText ticks ++ bytes "." ++
      natText sequence.toNat = (destination.filename ++ bytes ".tmp." ++ intText ticks) ++
        dot :: natText sequence.toNat := by
    rw [List.append_assoc _ (bytes ".")]
    rfl
  have long : 5 ≤ (destination.filename ++ bytes ".tmp." ++ intText ticks).length := by
    have five : (bytes ".tmp.").length = 5 := rfl
    simp only [List.length_append, five]
    omega
  rw [temporaryCandidate, filename_child, shape]
  refine splitExtension_append _ _ plain (fun empty => ?_) fun same => ?_
  · rw [empty] at long
    simp at long
  · have one : (bytes ".").length = 1 := rfl
    rw [same, one] at long
    omega

/-- The stem of a temporary name holds a dot, so the name is no checkpoint's. -/
theorem temporary_not_checkpoint (destination : FsPath) (ticks : Int64) (sequence : UInt64)
    (extension : Bytes) :
    isCheckpointFilename (temporaryCandidate destination ticks sequence) extension = false := by
  rw [isCheckpointFilename, FsPath.stem, splitExtension_temporary]
  split
  · rfl
  · rw [Bool.and_eq_false_iff, List.all_eq_false]
    refine .inr ⟨dot, ?_, by decide⟩
    have inside : dot ∈ bytes ".tmp." := by decide
    simp [inside]

/-- Names with different sequence numbers differ. -/
theorem temporary_sequence (destination : FsPath) (ticks ticks' : Int64)
    (sequence sequence' : UInt64)
    (same : temporaryCandidate destination ticks sequence =
      temporaryCandidate destination ticks' sequence') : sequence = sequence' := by
  have parts := splitExtension_temporary destination ticks sequence
  rw [same, splitExtension_temporary, Prod.mk.injEq, List.cons.injEq] at parts
  have values := congrArg digitsValue parts.2.2
  rw [digitsValue_natText, digitsValue_natText] at values
  exact (UInt64.toNat_inj.mp values).symm

theorem temporary_ne (destination : FsPath) (ticks : Int64) (sequence : UInt64) :
    temporaryCandidate destination ticks sequence ≠ destination := by
  intro same
  have names := congrArg (fun path => path.filename.length) same
  have five : (bytes ".tmp.").length = 5 := rfl
  simp only [temporaryCandidate, filename_child, List.length_append, five] at names
  omega

theorem temporary_name (destination : FsPath) (ticks : Int64) (sequence : UInt64) :
    ∃ name, name ≠ [] ∧
      temporaryCandidate destination ticks sequence = (parentOrCurrent destination).child name := by
  refine ⟨_, fun empty => ?_, rfl⟩
  have five : (bytes ".tmp.").length = 5 := rfl
  have lengths := congrArg List.length empty
  simp only [List.length_append, five, List.length_nil] at lengths
  omega

/-- Nor is it the checkpoint's directory. -/
theorem temporary_ne_directory (directory : FsPath) (name : Bytes) (ticks : Int64)
    (sequence : UInt64) :
    temporaryCandidate (directory.child name) ticks sequence ≠ directory := by
  obtain ⟨name', named, beside⟩ := temporary_name (directory.child name) ticks sequence
  rw [beside]
  intro same
  by_cases separated : directory.elements.getLast? = some []
  · have last := filename_child (parentOrCurrent (directory.child name)) name'
    rw [same, FsPath.filename, separated] at last
    exact named last.symm
  · have parent : (directory.child name).parentPath = directory := by
      rw [FsPath.parentPath, FsPath.child, if_neg separated, List.dropLast_concat]
    rw [parentOrCurrent, parent] at same
    split at same
    · next empty =>
      rw [← same] at empty
      simp [FsPath.isEmpty, FsPath.child] at empty
    · exact child_ne directory name' named same

/-- A temporary file of a checkpoint is in the checkpoint's directory. -/
theorem temporary_beside (directory : FsPath) (name : Bytes) (ticks : Int64) (sequence : UInt64) :
    ∃ name', temporaryCandidate (directory.child name) ticks sequence =
      (parentOrCurrent (directory.child [])).child name' :=
  ⟨_, by rw [temporaryCandidate, parentOrCurrent_child directory name []]⟩

end ConfigManager.Refinement
