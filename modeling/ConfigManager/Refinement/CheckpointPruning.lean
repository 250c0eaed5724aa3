import ConfigManager.Refinement.CheckpointSelection
import ConfigManager.Refinement.TemporaryFiles

/-!
# Ranking and removing checkpoints

The map of `cpPrune` groups the verified files by version, its loops keep the
leader of each version and of these the first ones, and every other verified
file is removed.
-/

set_option autoImplicit false

namespace ConfigManager.Refinement
open Library Source Reference

/-- A verified file with the version it holds. -/
abbrev VerifiedFile := VersionId × CheckpointFile

/-! ## The map of versions -/

/-- The map holds the files under their versions. -/
structure Grouped (groups : List (VersionId × List CheckpointFile)) (files : List VerifiedFile) :
    Prop where
  ascending : (groups.map Prod.fst).Pairwise (· < ·)
  members : ∀ g ∈ groups, ∀ file, file ∈ g.2 ↔ (g.1, file) ∈ files
  covered : ∀ f ∈ files, f.1 ∈ groups.map Prod.fst
  whole : (groups.flatMap Prod.snd).Perm (files.map Prod.snd)

section
variable (version : VersionId) (file : CheckpointFile)

theorem pushVersion_keys (groups : List (VersionId × List CheckpointFile)) (v : VersionId) :
    v ∈ (pushVersion version file groups).map Prod.fst ↔
      v = version ∨ v ∈ groups.map Prod.fst := by
  induction groups with
  | nil => simp [pushVersion]
  | cons g rest ih =>
    obtain ⟨first, files⟩ := g
    rw [pushVersion]
    by_cases same : first = version
    · simp [same]
    · rw [if_neg same]
      by_cases below : version < first
      · simp [if_pos below]
      · rw [if_neg below, List.map_cons, List.mem_cons, ih, List.map_cons, List.mem_cons]
        exact or_left_comm

theorem pushVersion_ascending (groups : List (VersionId × List CheckpointFile))
    (ascending : (groups.map Prod.fst).Pairwise (· < ·)) :
    ((pushVersion version file groups).map Prod.fst).Pairwise (· < ·) := by
  induction groups with
  | nil => simp [pushVersion]
  | cons g rest ih =>
    obtain ⟨first, files⟩ := g
    rw [List.map_cons, List.pairwise_cons] at ascending
    rw [pushVersion]
    by_cases same : first = version
    · rw [if_pos same, List.map_cons, List.pairwise_cons]
      exact ascending
    · rw [if_neg same]
      by_cases below : version < first
      · rw [if_pos below, List.map_cons, List.map_cons, List.pairwise_cons, List.pairwise_cons]
        refine ⟨fun v inside => ?_, ascending⟩
        rcases List.mem_cons.mp inside with rfl | later
        · exact below
        · exact lt_trans below (ascending.1 v later)
      · rw [if_neg below, List.map_cons, List.pairwise_cons]
        refine ⟨fun v inside => ?_, ih ascending.2⟩
        rcases (pushVersion_keys version file rest v).mp inside with rfl | later
        · exact lt_of_le_of_ne (not_lt.mp below) same
        · exact ascending.1 v later

theorem pushVersion_whole (groups : List (VersionId × List CheckpointFile)) :
    ((pushVersion version file groups).flatMap Prod.snd).Perm
      (file :: groups.flatMap Prod.snd) := by
  induction groups with
  | nil => exact List.Perm.refl _
  | cons g rest ih =>
    obtain ⟨first, files⟩ := g
    rw [pushVersion]
    by_cases same : first = version
    · rw [if_pos same, List.flatMap_cons, List.flatMap_cons, List.append_assoc]
      exact List.perm_middle
    · rw [if_neg same]
      by_cases below : version < first
      · rw [if_pos below]
        exact List.Perm.refl _
      · rw [if_neg below, List.flatMap_cons, List.flatMap_cons]
        exact (ih.append_left files).trans List.perm_middle

/-- A group of the new map is an old one, or the version's with the file added. -/
theorem mem_pushVersion (groups : List (VersionId × List CheckpointFile))
    (ascending : (groups.map Prod.fst).Pairwise (· < ·)) (g : VersionId × List CheckpointFile)
    (inside : g ∈ pushVersion version file groups) :
    (g.1 ≠ version ∧ g ∈ groups) ∨
      (∃ files, (version, files) ∈ groups ∧ g = (version, files ++ [file])) ∨
      (version ∉ groups.map Prod.fst ∧ g = (version, [file])) := by
  induction groups with
  | nil => exact .inr (.inr ⟨by simp, by simpa [pushVersion] using inside⟩)
  | cons first rest ih =>
    obtain ⟨v, files⟩ := first
    rw [List.map_cons, List.pairwise_cons] at ascending
    obtain ⟨least, ascending⟩ := ascending
    rw [pushVersion] at inside
    by_cases same : v = version
    · subst same
      rw [if_pos rfl] at inside
      rcases List.mem_cons.mp inside with rfl | later
      · exact .inr (.inl ⟨files, List.mem_cons_self, rfl⟩)
      · refine .inl ⟨fun back => ?_, List.mem_cons_of_mem _ later⟩
        exact lt_irrefl v (by simpa [back] using least g.1 (List.mem_map_of_mem later))
    · rw [if_neg same] at inside
      by_cases below : version < v
      · rw [if_pos below] at inside
        have above : ∀ w ∈ ((v, files) :: rest).map Prod.fst, version < w := by
          intro w member
          rcases List.mem_cons.mp member with rfl | later
          · exact below
          · exact lt_trans below (least w later)
        rcases List.mem_cons.mp inside with rfl | old
        · exact .inr (.inr ⟨fun member => lt_irrefl _ (above _ member), rfl⟩)
        · exact .inl ⟨fun back => lt_irrefl _ (back ▸ above g.1 (List.mem_map_of_mem old)), old⟩
      · rw [if_neg below] at inside
        rcases List.mem_cons.mp inside with rfl | later
        · exact .inl ⟨same, List.mem_cons_self⟩
        · rcases ih ascending later with ⟨other, old⟩ | ⟨found, old, rfl⟩ | ⟨new, rfl⟩
          · exact .inl ⟨other, List.mem_cons_of_mem _ old⟩
          · exact .inr (.inl ⟨found, List.mem_cons_of_mem _ old, rfl⟩)
          · refine .inr (.inr ⟨?_, rfl⟩)
            rw [List.map_cons, List.mem_cons, not_or]
            exact ⟨Ne.symm same, new⟩

end

theorem Grouped.push {groups : List (VersionId × List CheckpointFile)} {files : List VerifiedFile}
    (grouped : Grouped groups files) (version : VersionId) (file : CheckpointFile) :
    Grouped (pushVersion version file groups) (files ++ [(version, file)]) := by
  refine ⟨pushVersion_ascending version file groups grouped.ascending, ?_, ?_, ?_⟩
  · intro g inside c
    rw [List.mem_append, List.mem_singleton]
    rcases mem_pushVersion version file groups grouped.ascending g inside with ⟨other, old⟩ |
      ⟨found, old, rfl⟩ | ⟨new, rfl⟩
    · rw [grouped.members g old c, Prod.mk.injEq]
      simp [other]
    · have before := grouped.members _ old c
      simp only at before
      simp [before]
    · have none : (version, c) ∉ files := fun before => new (grouped.covered _ before)
      simp [none]
  · intro f inside
    rw [pushVersion_keys]
    rcases List.mem_append.mp inside with old | new
    · exact .inr (grouped.covered f old)
    · rw [List.mem_singleton.mp new]
      exact .inl rfl
  · rw [List.map_append, List.map_singleton]
    exact (pushVersion_whole version file groups).trans
      ((grouped.whole.cons file).trans (List.perm_append_singleton file _).symm)

theorem Grouped.pushAll {groups : List (VersionId × List CheckpointFile)} {files : List VerifiedFile}
    (grouped : Grouped groups files) (more : List VerifiedFile) :
    Grouped (pushVersions groups more) (files ++ more) := by
  induction more generalizing groups files with
  | nil =>
    rw [List.append_nil]
    exact grouped
  | cons f rest ih =>
    rw [pushVersions, List.append_cons]
    exact ih (grouped.push f.1 f.2)

theorem pushVersions_grouped (files : List VerifiedFile) :
    Grouped (pushVersions [] files) files :=
  have empty : Grouped [] [] := ⟨.nil, by simp, by simp, .nil⟩
  empty.pushAll files

/-! ## Ranking the versions -/

/-- The comparison of files with their versions. -/
def verifiedBefore (a b : VerifiedFile) : Bool := a.2.before b.2

def verifiedKey (file : VerifiedFile) : FileTimeᵒᵈ ×ₗ List Nat := fileKey file.2

theorem verified_ranks : Ranks verifiedBefore verifiedKey := fun a b => file_ranks a.2 b.2

/-- What the loop over the versions retains, and the paths of what it does not. -/
theorem rankVersions_eq (groups : List (VersionId × List CheckpointFile))
    (retained : List CheckpointFile) (removals : List FsPath) :
    rankVersions groups retained removals =
      (retained ++ groups.filterMap fun g => (sortBy CheckpointFile.before g.2).head?,
        removals ++ groups.flatMap fun g =>
          (sortBy CheckpointFile.before g.2).tail.map CheckpointFile.path) := by
  induction groups generalizing retained removals with
  | nil => simp [rankVersions]
  | cons g rest ih =>
    obtain ⟨v, files⟩ := g
    rw [rankVersions]
    cases sorted : sortBy CheckpointFile.before files with
    | nil => simp [ih, sorted]
    | cons newest others => simp [ih, sorted]

/-- Retained and removed files together are all. -/
theorem rankVersions_perm (groups : List (VersionId × List CheckpointFile)) :
    ((rankVersions groups [] []).2 ++
      (rankVersions groups [] []).1.map CheckpointFile.path).Perm
        ((groups.flatMap Prod.snd).map CheckpointFile.path) := by
  rw [rankVersions_eq, List.nil_append, List.nil_append]
  induction groups with
  | nil => exact .nil
  | cons g rest ih =>
    have same := (sortBy_perm CheckpointFile.before g.2).map CheckpointFile.path
    rw [List.flatMap_cons, List.flatMap_cons, List.map_append]
    refine List.Perm.trans ?_ (same.append_right _)
    simp only at ih ⊢
    cases sorted : sortBy CheckpointFile.before g.2 with
    | nil =>
      simp only [List.filterMap_cons, sorted, List.head?_nil, List.tail_nil, List.map_nil,
        List.nil_append]
      exact ih
    | cons newest others =>
      simp only [List.filterMap_cons, sorted, List.head?_cons, List.tail_cons, List.map_cons,
        List.append_assoc, List.cons_append]
      refine ((List.perm_middle.append_left _).trans List.perm_middle).trans (.cons _ ?_)
      exact ih.append_left _

section
variable {groups : List (VersionId × List CheckpointFile)} {files : List VerifiedFile}

/-- The newest file of a group leads its version. -/
theorem Grouped.head_leads (grouped : Grouped groups files) (g : VersionId × List CheckpointFile)
    (inside : g ∈ groups) (newest : CheckpointFile) (others : List CheckpointFile)
    (sorted : sortBy CheckpointFile.before g.2 = newest :: others) :
    (g.1, newest) ∈ leaders Prod.fst verifiedBefore files := by
  have member : newest ∈ g.2 := by
    rw [← mem_sortBy CheckpointFile.before, sorted]
    exact List.mem_cons_self
  refine (mem_leaders _ _ _ _).mpr ⟨(grouped.members g inside newest).mp member, fun b other same => ?_⟩
  have grouped' : b.2 ∈ g.2 := (grouped.members g inside b.2).mpr (by rw [← same]; exact other)
  exact (file_ranks.not_before newest b.2).mpr
    (file_ranks.head_least g.2 newest others sorted b.2 grouped')

theorem Grouped.retained (grouped : Grouped groups files) (apart : KeyedApart verifiedKey files)
    (once : (files.map fun f => f.2.path).Nodup) :
    (rankVersions groups [] []).1.Perm
      ((leaders Prod.fst verifiedBefore files).map Prod.snd) := by
  have all := rankVersions_perm groups
  have paths : ((groups.flatMap Prod.snd).map CheckpointFile.path).Perm
      (files.map fun f => f.2.path) := by
    have mapped := grouped.whole.map CheckpointFile.path
    rwa [List.map_map] at mapped
  have unique : ((rankVersions groups [] []).1.map CheckpointFile.path).Nodup :=
    (List.nodup_append.mp ((all.trans paths).nodup_iff.mpr once)).2.1
  have unique' : ((leaders Prod.fst verifiedBefore files).map Prod.snd).Nodup := by
    have sublist : ((leaders Prod.fst verifiedBefore files).map fun f => f.2.path).Nodup :=
      once.sublist (List.filter_sublist.map _)
    exact List.Nodup.of_map CheckpointFile.path (by rwa [List.map_map])
  refine (List.perm_ext_iff_of_nodup unique.of_map unique').mpr fun file => ?_
  rw [rankVersions_eq, List.nil_append, List.mem_filterMap, List.mem_map]
  constructor
  · rintro ⟨g, inside, first⟩
    obtain ⟨others, sorted⟩ := List.head?_eq_some_iff.mp first
    exact ⟨(g.1, file), grouped.head_leads g inside file others sorted, rfl⟩
  · rintro ⟨⟨v, _⟩, leads, rfl⟩
    have known := ((mem_leaders _ _ _ _).mp leads).1
    obtain ⟨g, inside, rfl⟩ := List.mem_map.mp (grouped.covered _ known)
    refine ⟨g, inside, ?_⟩
    have member := (grouped.members g inside _).mpr known
    cases sorted : sortBy CheckpointFile.before g.2 with
    | nil =>
      rw [← mem_sortBy CheckpointFile.before, sorted] at member
      cases member
    | cons newest others =>
      have leads' := grouped.head_leads g inside newest others sorted
      have same := verified_ranks.leader_unique apart _ _ leads' leads rfl
      rw [List.head?_cons, (Prod.mk.inj same).2]

/-- The files that a prune keeps: the newest of each version, of these the newest. -/
def keptFiles (retention : Nat) (files : List VerifiedFile) : List VerifiedFile :=
  (sortBy verifiedBefore (leaders Prod.fst verifiedBefore files)).take retention

/-- The paths that `cpPrune` passes to `remove`. -/
def removalsOf (retention : Nat) (groups : List (VersionId × List CheckpointFile)) :
    List FsPath :=
  (rankVersions groups [] []).2 ++ ((sortBy CheckpointFile.before
    (rankVersions groups [] []).1).drop retention).map CheckpointFile.path

/-- Only files of the map are removed. -/
theorem Grouped.removals_among (grouped : Grouped groups files) (retention : Nat) (path : FsPath)
    (removed : path ∈ removalsOf retention groups) : ∃ f ∈ files, f.2.path = path := by
  have all := (rankVersions_perm groups).trans (grouped.whole.map CheckpointFile.path)
  have inside : path ∈ (rankVersions groups [] []).2 ++
      (rankVersions groups [] []).1.map CheckpointFile.path := by
    rcases List.mem_append.mp removed with other | dropped
    · exact List.mem_append_left _ other
    · obtain ⟨file, behind, rfl⟩ := List.mem_map.mp dropped
      exact List.mem_append_right _
        (List.mem_map_of_mem ((mem_sortBy _ _ _).mp (List.mem_of_mem_drop behind)))
  have known := all.mem_iff.mp inside
  rw [List.map_map] at known
  exact List.mem_map.mp known

/-- Kept and removed files together are all. -/
theorem Grouped.removals_perm (grouped : Grouped groups files)
    (apart : KeyedApart verifiedKey files) (once : (files.map fun f => f.2.path).Nodup)
    (retention : Nat) :
    (removalsOf retention groups ++ (keptFiles retention files).map fun f => f.2.path).Perm
      (files.map fun f => f.2.path) := by
  have retained := grouped.retained apart once
  have apart' : KeyedApart fileKey (rankVersions groups [] []).1 := by
    intro a first b second same
    obtain ⟨f, leads, rfl⟩ := List.mem_map.mp (retained.mem_iff.mp first)
    obtain ⟨f', leads', rfl⟩ := List.mem_map.mp (retained.mem_iff.mp second)
    rw [mem_leaders] at leads leads'
    rw [apart f leads.1 f' leads'.1 same]
  have sorted : sortBy CheckpointFile.before (rankVersions groups [] []).1 =
      (sortBy verifiedBefore (leaders Prod.fst verifiedBefore files)).map Prod.snd := by
    rw [file_ranks.sort_congr _ _ retained apart']
    exact sortBy_map verifiedBefore CheckpointFile.before Prod.snd _ fun _ _ _ _ => rfl
  have kept : (keptFiles retention files).map (fun f => f.2.path) =
      ((sortBy CheckpointFile.before (rankVersions groups [] []).1).take retention).map
        CheckpointFile.path := by
    rw [keptFiles, sorted, ← List.map_take, List.map_map]
    rfl
  have whole : ((groups.flatMap Prod.snd).map CheckpointFile.path).Perm
      (files.map fun f => f.2.path) := by
    have mapped := grouped.whole.map CheckpointFile.path
    rwa [List.map_map] at mapped
  rw [removalsOf, kept, List.append_assoc]
  refine (List.Perm.append_left _ ?_).trans ((rankVersions_perm groups).trans whole)
  -- What is dropped and what is taken of the sorted files are all of them.
  apply List.perm_append_comm.trans
  rw [← List.map_append, List.take_append_drop]
  exact (sortBy_perm _ _).map _

end

/-! ## Removing -/

/-- The loop removes the paths one by one, and stops at the first that fails. -/
theorem removeFiles_spec (message : Errno → Bytes) (paths : List FsPath) (report : PruneReport)
    (d d' : Disk) (answer : Option (Result PruneReport))
    (ran : removeFiles (diskSystem message) paths report d = (answer, d')) :
    Touches (· ∈ paths) d d' ∧ (∀ path, d'.file path = d.file path ∨ d'.file path = none) ∧
      ∀ final, answer = some (.ok final) → final.removed = report.removed ++ paths ∧
        final.rejected = report.rejected ∧ ∀ path ∈ paths, d'.file path = none := by
  induction paths generalizing report d with
  | nil =>
    cases ran
    refine ⟨.refl _ _, fun path => .inl rfl, fun final success => ?_⟩
    cases success
    simp
  | cons path rest ih =>
    rw [removeFiles] at ran
    cases made : (diskSystem message).remove path d with
    | mk result middle =>
      rw [made] at ran
      have touched : Touches (· ∈ path :: rest) d middle :=
        ((call_called (Disk.removing path) d middle result made).touches _
          (removing_touches path)).weaken fun p same => same ▸ List.mem_cons_self
      have erased : ∀ p, middle.file p = d.file p ∨ middle.file p = none := by
        intro p
        cases call_called (Disk.removing path) d middle result made with
        | stopped ended => exact .inl rfl
        | failed answer' others e scheduled failing => exact .inl rfl
        | acted answer' others result' _ scheduled fine acts =>
          cases acts
          by_cases here : p = path
          · subst here
            exact .inr (Disk.file_erase_self _ p)
          · exact .inl (Disk.file_erase_ne _ path p here)
      rcases result with _ | (e | ⟨⟩)
      · cases ran
        exact ⟨touched, erased, by simp⟩
      · cases ran
        exact ⟨touched, erased, by simp [fail]⟩
      · obtain ⟨touches, fewer, done⟩ := ih _ middle ran
        refine ⟨touched.trans (touches.weaken fun p inside => List.mem_cons_of_mem _ inside),
          fun p => ?_, fun final success => ?_⟩
        · rcases fewer p with same | gone
          · rw [same]
            exact erased p
          · exact .inr gone
        obtain ⟨removed, rejected, gone⟩ := done final success
        refine ⟨by rw [removed]; simp, rejected, fun p inside => ?_⟩
        by_cases later : p ∈ rest
        · exact gone p later
        · obtain rfl := (List.mem_cons.mp inside).resolve_right later
          rw [touches.file p later]
          cases call_called (Disk.removing p) d middle _ made with
          | acted answer' others result' _ scheduled fine acts =>
            cases acts
            exact Disk.file_erase_self _ p

/-! ## The whole prune -/

variable {φ σ : Type}

/-- The verified files, in the order of enumeration. -/
def verifiedFiles (os : System φ) (files : List Examined) : List VerifiedFile :=
  passed (verifiedOf os) files

theorem cpPrune_eq (os : System φ) (store : CheckpointStore) (backend : Backend σ) (state : σ)
    (s : φ) (paths : List FsPath) (listed : checkpointFiles os store s = .ok paths) :
    cpPrune os store backend state s =
      let examined := examine os store backend s paths state
      let removed := removeFiles os
        (removalsOf store.options.retention (pushVersions [] (verifiedFiles os examined.1)))
        { rejected := rejections (verifiedOf os) examined.1 } s
      (removed.1, examined.2, removed.2) := by
  rw [cpPrune, listed]
  simp only [groupVersions_eq, List.nil_append]
  rfl

theorem cpPrune_nothing (os : System φ) (store : CheckpointStore) (backend : Backend σ) (state : σ)
    (s : φ) (listed : checkpointFiles os store s = .ok []) :
    cpPrune os store backend state s = (some (.ok {}), state, s) := by
  rw [cpPrune, listed]
  simp only [groupVersions, rankVersions, List.nil_append]
  rw [List.perm_nil.mp (sortBy_perm CheckpointFile.before []), List.drop_nil]
  rfl

theorem verified_named (os : System φ) (files : List Examined) :
    ∀ file ∈ files, ∀ verified, verifiedOf os file = .ok verified → verified.2.path = file.1 := by
  rintro file _ ⟨version, checkpoint⟩ judged
  obtain ⟨_, _, _, named⟩ := (verifiedOf_ok os file version checkpoint).mp judged
  exact named

/-- A prune removes files that it examined. -/
theorem removals_listed (os : System φ) (store : CheckpointStore) (backend : Backend σ) (s : φ)
    (paths : List FsPath) (state : σ) (retention : Nat) (path : FsPath)
    (removed : path ∈ removalsOf retention
      (pushVersions [] (verifiedFiles os (examine os store backend s paths state).1))) :
    path ∈ paths := by
  obtain ⟨f, inside, rfl⟩ := (pushVersions_grouped _).removals_among _ path removed
  obtain ⟨file, member, ok⟩ := (mem_passed _ _ _).mp inside
  rw [verified_named os _ file member f ok, ← examine_paths os store backend s paths state]
  exact List.mem_map_of_mem member

/-- Verified files of one directory have different names and are ranked apart. -/
theorem verified_apart (os : System φ) (files : List Examined) (directory : FsPath)
    (once : (files.map Prod.fst).Nodup) (entries : ∀ file ∈ files, Disk.IsEntry directory file.1) :
    ((verifiedFiles os files).map fun f => f.2.path).Nodup ∧
      KeyedApart verifiedKey (verifiedFiles os files) := by
  refine passed_apart (verifiedOf os) (fun f => f.2.path) verifiedKey files directory
    (verified_named os files) (fun a b same => ?_) once entries
  simp only [verifiedKey, fileKey, EmbeddingLike.apply_eq_iff_eq, Prod.mk.injEq] at same
  exact same.2

/-- The verified files of a directory whose checkpoint files are at `paths`. -/
def verifiedOn (message : Errno → Bytes) (store : CheckpointStore) (backend : Backend σ)
    (state : σ) (d : Disk) (paths : List FsPath) : List VerifiedFile :=
  verifiedFiles (diskSystem message) (examine (diskSystem message) store backend d paths state).1

theorem verifiedOn_present (message : Errno → Bytes) (store : CheckpointStore)
    (backend : Backend σ) (state : σ) (d : Disk) (paths : List FsPath) (f : VerifiedFile)
    (inside : f ∈ verifiedOn message store backend state d paths) : d.file f.2.path ≠ none := by
  obtain ⟨file, member, judged⟩ := (mem_passed _ _ _).mp inside
  obtain ⟨loaded, outcome, _, named⟩ := (verifiedOf_ok _ file f.1 f.2).mp judged
  obtain ⟨path, _⟩ := file
  simp only at outcome named
  subst outcome
  obtain ⟨time, _⟩ := examine_loaded _ store backend d paths state path loaded _ member
  intro missing
  have read : (diskSystem message).lastWriteTime path d = .error ENOENT := by
    change Disk.lastWriteTime path d = _
    rw [Disk.lastWriteTime, ← named, missing]
  rw [read] at time
  cases time

/-- However a prune ends, only verified files that it does not keep may be gone; when it succeeds
they all are. -/
theorem cpPrune_spec (message : Errno → Bytes) (store : CheckpointStore) (backend : Backend σ)
    (state state' : σ) (d d' : Disk) (paths : List FsPath)
    (listed : checkpointFiles (diskSystem message) store d = .ok paths)
    (answer : Option (Result PruneReport))
    (ran : cpPrune (diskSystem message) store backend state d = (answer, state', d')) :
    let verified := verifiedOn message store backend state d paths
    let keep := keptFiles store.options.retention verified
    (verified.map fun f => f.2.path).Nodup ∧ KeyedApart verifiedKey verified ∧
      Touches (fun path => ∃ f ∈ verified, f ∉ keep ∧ f.2.path = path) d d' ∧
      (∀ path, d'.file path = d.file path ∨ d'.file path = none) ∧
      ∀ report, answer = some (.ok report) →
        (report.removed ++ keep.map fun f => f.2.path).Perm (verified.map fun f => f.2.path) ∧
        (∀ f ∈ verified, f ∉ keep → d'.file f.2.path = none) ∧
        report.rejected = rejections (verifiedOf (diskSystem message))
          (examine (diskSystem message) store backend d paths state).1 := by
  intro verified keep
  obtain ⟨unique, entries⟩ := checkpointFiles_entries (disk_iterates message _ d) paths listed
  have names := examine_paths (diskSystem message) store backend d paths state
  obtain ⟨once, apart⟩ := verified_apart (diskSystem message)
    (examine (diskSystem message) store backend d paths state).1 store.options.checkpointDirectory
    (by rwa [names]) fun file inside => entries _ (by rw [← names]; exact List.mem_map_of_mem inside)
  have parts := (pushVersions_grouped verified).removals_perm apart once store.options.retention
  have separate := List.nodup_append.mp (parts.nodup_iff.mpr once)
  rw [cpPrune_eq _ _ _ _ _ paths listed] at ran
  cases ran
  obtain ⟨touches, fewer, done⟩ := removeFiles_spec message _ _ d _ _ rfl
  refine ⟨once, apart, touches.weaken fun path removed => ?_, fewer, fun report success => ?_⟩
  · obtain ⟨f, inside, rfl⟩ := List.mem_map.mp (parts.mem_iff.mp (List.mem_append_left _ removed))
    exact ⟨f, inside, fun kept => separate.2.2 _ removed _ (List.mem_map_of_mem kept) rfl, rfl⟩
  · obtain ⟨removed, rejected, gone⟩ := done report success
    rw [removed, List.nil_append]
    refine ⟨parts, fun f inside dropped => gone _ ?_, rejected⟩
    have listed' := parts.mem_iff.mpr (List.mem_map_of_mem inside)
    refine (List.mem_append.mp listed').resolve_right fun member => ?_
    obtain ⟨g, kept, same⟩ := List.mem_map.mp member
    have among : g ∈ verified :=
      ((mem_leaders _ _ _ _).mp ((mem_sortBy _ _ _).mp (List.mem_of_mem_take kept))).1
    exact dropped (List.inj_on_of_nodup_map once among inside same ▸ kept)

end ConfigManager.Refinement
