import Mathlib.Data.Prod.Lex
import Mathlib.Data.List.Lex
import ConfigManager.Library.Ranking
import ConfigManager.Reference.Disk
import ConfigManager.Refinement.CheckpointReading
import ConfigManager.Refinement.StatelessCallbacks

/-!
# Selecting a checkpoint

The orders of restore and prune as keys, and what the loop over the sorted
candidates does: it goes on while candidates do not synchronize and ends with the
first that does.
-/

set_option autoImplicit false

namespace ConfigManager.Refinement
open Library Source Reference

/-! ## The orders -/

/-- Names in the order of their bytes. -/
def pathKey (path : FsPath) : List Nat := path.string.map UInt8.toNat

/-- Later first, then by name. -/
def fileKey (file : CheckpointFile) : FileTimeᵒᵈ ×ₗ List Nat :=
  toLex (OrderDual.toDual file.modified, pathKey file.path)

/-- Higher versions first, then as for files. -/
def candidateKey (candidate : LoadedCandidate) : VersionIdᵒᵈ ×ₗ FileTimeᵒᵈ ×ₗ List Nat :=
  toLex (OrderDual.toDual candidate.sourceVersion,
    fileKey ⟨candidate.path, candidate.modified⟩)

theorem file_ranks : Ranks CheckpointFile.before fileKey := by
  intro a b
  rw [fileKey, fileKey, Prod.Lex.toLex_lt_toLex, CheckpointFile.before]
  by_cases same : a.modified = b.modified
  · simp [same, textBefore, pathKey]
  · simp [same]

theorem candidate_ranks : Ranks LoadedCandidate.before candidateKey := by
  intro a b
  rw [candidateKey, candidateKey, Prod.Lex.toLex_lt_toLex, ← file_ranks, LoadedCandidate.before]
  by_cases same : a.sourceVersion = b.sourceVersion
  · simp [same, CheckpointFile.before]
  · simp [same]

/-! ## Names of entries -/

/-- All but the last part of a joined text depends on the other parts only. -/
theorem intercalate_last (separator : Bytes) (parts : List Bytes) :
    ∃ front, ∀ last, List.intercalate separator (parts ++ [last]) = front ++ last := by
  induction parts with
  | nil => exact ⟨[], fun last => by simp [List.intercalate]⟩
  | cons part rest ih =>
    obtain ⟨front, joined⟩ := ih
    refine ⟨part ++ separator ++ front, fun last => ?_⟩
    have more : rest ++ [last] ≠ [] := by simp
    rw [List.cons_append, List.intercalate_cons_of_ne_nil more, joined, List.append_assoc,
      List.append_assoc, List.append_assoc]

/-- Entries of one directory with the same text are the same. -/
theorem entry_string_injective (directory path path' : FsPath)
    (entry : Disk.IsEntry directory path) (entry' : Disk.IsEntry directory path')
    (same : path.string = path'.string) : path = path' := by
  rw [Disk.IsEntry] at entry entry'
  rw [entry, entry'] at same ⊢
  obtain ⟨front, joined⟩ := intercalate_last [slash] (if directory.elements.getLast? = some []
    then directory.elements.dropLast else directory.elements)
  simp only [FsPath.string, FsPath.child, joined] at same
  rw [List.append_cancel_left (List.append_cancel_left same)]

theorem pathKey_injective (directory path path' : FsPath)
    (entry : Disk.IsEntry directory path) (entry' : Disk.IsEntry directory path')
    (same : pathKey path = pathKey path') : path = path' :=
  entry_string_injective directory path path' entry entry'
    (List.map_injective_iff.mpr (fun _ _ => UInt8.toNat_inj.mp) same)

/-- What passed of the entries of one directory, under a key that tells the paths. -/
theorem passed_apart {β κ : Type} (judge : Examined → Except Error β) (path : β → FsPath)
    (key : β → κ) (files : List Examined) (directory : FsPath)
    (named : ∀ file ∈ files, ∀ b, judge file = .ok b → path b = file.1)
    (tells : ∀ a b, key a = key b → pathKey (path a) = pathKey (path b))
    (once : (files.map Prod.fst).Nodup) (entries : ∀ file ∈ files, Disk.IsEntry directory file.1) :
    ((passed judge files).map path).Nodup ∧ KeyedApart key (passed judge files) := by
  have names := (passed_names judge Prod.fst path files named).nodup once
  have placed : ∀ b ∈ passed judge files, Disk.IsEntry directory (path b) := by
    intro b inside
    obtain ⟨file, member, judged⟩ := (mem_passed _ _ _).mp inside
    rw [named file member b judged]
    exact entries file member
  refine ⟨names, fun a first b second same => ?_⟩
  exact List.inj_on_of_nodup_map names first second
    (pathKey_injective directory _ _ (placed a first) (placed b second) (tells a b same))

/-! ## Trying the candidates -/

variable {φ σ : Type}

/-- The candidate synchronizes to the supported version. -/
def Lands (runtime : ConfigRuntime σ) (supported : VersionId) (candidate : LoadedCandidate)
    (world : World σ) (config : VersionedConfig) (world' : World σ) : Prop :=
  runtime.synchronize candidate.config supported world = (.ok .inSync, config, world') ∧
    config.version = supported

/-- Every one of the candidates was tried once, in this order, and none landed. -/
inductive Tried (runtime : ConfigRuntime σ) (supported : VersionId) :
    List LoadedCandidate → World σ → List CheckpointRejection → World σ → Prop where
  | none (world : World σ) : Tried runtime supported [] world [] world
  | missed (candidate : LoadedCandidate) (rest : List LoadedCandidate) (e : Error)
      (rejected : List CheckpointRejection) (world world' : World σ)
      (missed : ∀ config, ¬ Lands runtime supported candidate world config
        (runtime.synchronize candidate.config supported world).2.2)
      (later : Tried runtime supported rest
        (runtime.synchronize candidate.config supported world).2.2 rejected world') :
      Tried runtime supported (candidate :: rest) world (⟨candidate.path, e⟩ :: rejected) world'

/-- How the search ends. -/
inductive Searched (runtime : ConfigRuntime σ) (supported : VersionId)
    (candidates : List LoadedCandidate) (world : World σ) :
    Option PreparedRestore → List CheckpointRejection → World σ → Prop where
  | found (tried rest : List LoadedCandidate) (candidate : LoadedCandidate)
      (split : candidates = tried ++ candidate :: rest) (rejected : List CheckpointRejection)
      (middle world' : World σ) (vain : Tried runtime supported tried world rejected middle)
      (config : VersionedConfig) (lands : Lands runtime supported candidate middle config world') :
      Searched runtime supported candidates world
        (some ⟨candidate.path, candidate.sourceVersion, config⟩) rejected world'
  | exhausted (rejected : List CheckpointRejection) (world' : World σ)
      (vain : Tried runtime supported candidates world rejected world') :
      Searched runtime supported candidates world none rejected world'

/-- A candidate that did not land is rejected, and the search goes on behind it. -/
theorem Searched.behind {runtime : ConfigRuntime σ} {supported : VersionId}
    {candidate : LoadedCandidate} {rest : List LoadedCandidate} {world world' : World σ}
    {found : Option PreparedRestore} {rejected : List CheckpointRejection}
    (missed : ∀ config, ¬ Lands runtime supported candidate world config
      (runtime.synchronize candidate.config supported world).2.2)
    (later : Searched runtime supported rest
      (runtime.synchronize candidate.config supported world).2.2 found rejected world')
    (e : Error) :
    Searched runtime supported (candidate :: rest) world found (⟨candidate.path, e⟩ :: rejected)
      world' := by
  cases later with
  | found tried rest candidate' split rejected middle world' vain config lands =>
    exact .found (candidate :: tried) rest candidate' (by rw [split]; rfl) _ middle world'
      (.missed candidate tried e rejected world middle missed vain) config lands
  | exhausted rejected world' vain =>
    exact .exhausted _ world' (.missed candidate rest e rejected world world' missed vain)

theorem tryCandidates_spec (runtime : ConfigRuntime σ) (supported : VersionId)
    (candidates : List LoadedCandidate) (rejected : List CheckpointRejection)
    (world world' : World σ) (search : RestoreSearch)
    (ran : tryCandidates runtime supported candidates rejected world = (search, world')) :
    ∃ vain, search.rejected = rejected ++ vain ∧
      Searched runtime supported candidates world search.candidate vain world' := by
  induction candidates generalizing rejected world with
  | nil =>
    cases ran
    exact ⟨[], (List.append_nil _).symm, .exhausted [] _ (.none _)⟩
  | cons candidate rest ih =>
    rw [tryCandidates] at ran
    cases synchronized : runtime.synchronize candidate.config supported world with
    | mk answer after =>
      obtain ⟨config, middle⟩ := after
      rw [synchronized] at ran
      have behind : ∀ e, tryCandidates runtime supported rest (rejected ++ [⟨candidate.path, e⟩])
          middle = (search, world') → (∀ config', ¬ Lands runtime supported candidate world config'
            middle) → ∃ vain, search.rejected = rejected ++ vain ∧
              Searched runtime supported (candidate :: rest) world search.candidate vain world' := by
        intro e ran missed
        obtain ⟨vain, accounted, later⟩ := ih _ middle ran
        refine ⟨⟨candidate.path, e⟩ :: vain, by simpa using accounted, .behind ?_ ?_ e⟩
        · rw [synchronized]
          exact missed
        · rw [synchronized]
          exact later
      cases answer with
      | error e =>
        apply behind e ran
        rintro config' ⟨answered, _⟩
        rw [synchronized] at answered
        cases answered
      | ok status =>
        simp only at ran
        split at ran
        · next apart =>
          apply behind _ ran
          rintro config' ⟨answered, version⟩
          rw [synchronized] at answered
          cases answered
          exact apart.elim (fun not => not rfl) fun not => not version
        · next agrees =>
          rw [not_or, not_not, not_not] at agrees
          obtain ⟨rfl, version⟩ := agrees
          cases ran
          exact ⟨[], (List.append_nil _).symm, .found [] rest candidate rfl [] world _
            (.none world) config ⟨synchronized, version⟩⟩

theorem Tried.paths {runtime : ConfigRuntime σ} {supported : VersionId}
    {candidates : List LoadedCandidate} {world world' : World σ}
    {rejected : List CheckpointRejection}
    (tried : Tried runtime supported candidates world rejected world') :
    rejected.map CheckpointRejection.path = candidates.map LoadedCandidate.path := by
  induction tried with
  | none world => rfl
  | missed candidate rest e rejected world world' missed later ih =>
    rw [List.map_cons, List.map_cons, ih]

/-! ## Without state -/

/-- What restoring from the candidate gives. -/
def landing (runtime : ConfigRuntime σ) (supported : VersionId) (world : World σ)
    (candidate : LoadedCandidate) : Option PreparedRestore :=
  match runtime.synchronize candidate.config supported world with
  | (.ok .inSync, config, _) =>
      if config.version = supported then some ⟨candidate.path, candidate.sourceVersion, config⟩
      else none
  | _ => none

theorem landing_of_lands (runtime : ConfigRuntime σ) (supported : VersionId)
    (candidate : LoadedCandidate) (world world' : World σ) (config : VersionedConfig)
    (lands : Lands runtime supported candidate world config world') :
    landing runtime supported world candidate =
      some ⟨candidate.path, candidate.sourceVersion, config⟩ := by
  obtain ⟨synchronized, version⟩ := lands
  rw [landing, synchronized]
  exact if_pos version

theorem landing_of_missed (runtime : ConfigRuntime σ) (supported : VersionId)
    (candidate : LoadedCandidate) (world : World σ)
    (missed : ∀ config, ¬ Lands runtime supported candidate world config
      (runtime.synchronize candidate.config supported world).2.2) :
    landing runtime supported world candidate = none := by
  rw [landing]
  split
  · next config after synchronized =>
    refine if_neg fun version => missed config ⟨?_, version⟩
    rw [synchronized]
  · rfl

theorem landing_stateless {runtime : ConfigRuntime σ} (stateless : Stateless runtime)
    (supported : VersionId) (world world' : World σ) :
    landing runtime supported world = landing runtime supported world' := by
  funext candidate
  have same := synchronize_stateless stateless candidate.config supported world world'
  rw [landing, landing]
  cases ran : runtime.synchronize candidate.config supported world with
  | mk answer after =>
    cases ran' : runtime.synchronize candidate.config supported world' with
    | mk answer' after' =>
      obtain ⟨config, _⟩ := after
      obtain ⟨config', _⟩ := after'
      rw [ran, ran'] at same
      obtain ⟨rfl, rfl⟩ := same
      rcases answer with e | (_ | _ | _) <;> rfl

/-- The search answers with the first candidate that lands, in whatever world. -/
theorem Searched.first {runtime : ConfigRuntime σ} (stateless : Stateless runtime)
    {supported : VersionId} {candidates : List LoadedCandidate} {world world' : World σ}
    {found : Option PreparedRestore} {rejected : List CheckpointRejection}
    (searched : Searched runtime supported candidates world found rejected world')
    (anywhere : World σ) :
    found = candidates.findSome? (landing runtime supported anywhere) := by
  have misses : ∀ {tried : List LoadedCandidate} {first last : World σ}
      {rejected : List CheckpointRejection}, Tried runtime supported tried first rejected last →
        ∀ c ∈ tried, landing runtime supported anywhere c = none := by
    intro tried first last rejected vain
    induction vain with
    | none world => simp
    | missed candidate rest e rejected world world' missed later ih =>
      intro c inside
      rcases List.mem_cons.mp inside with rfl | behind
      · rw [landing_stateless stateless supported anywhere world]
        exact landing_of_missed runtime supported c world missed
      · exact ih c behind
  cases searched with
  | found tried rest candidate split rejected middle world' vain config lands =>
    have lands' := landing_of_lands runtime supported candidate middle _ config lands
    rw [landing_stateless stateless supported middle anywhere] at lands'
    rw [split, List.findSome?_append, List.findSome?_eq_none_iff.mpr (misses vain),
      List.findSome?_cons, lands']
    rfl
  | exhausted rejected world' vain =>
    exact (List.findSome?_eq_none_iff.mpr (misses vain)).symm

end ConfigManager.Refinement
