import ConfigManager.Guarantees.CheckpointAtomicity
import ConfigManager.Refinement.CheckpointPruning

/-!
# Pruning keeps the right files

For every disk, backend and retention, and whatever becomes of the calls: which
verified files `cpPrune` keeps, which it removes, and that it leaves everything
else alone.
-/

set_option autoImplicit false

namespace ConfigManager.Guarantees
open Library Source Reference Refinement

variable {σ : Type}

/-- `keep` is the newest verified file of each version, of these the newest `retention`. -/
structure Keeps (retention : Nat) (verified keep : List VerifiedFile) : Prop where
  among : ∀ f ∈ keep, f ∈ verified
  distinct : (keep.map Prod.fst).Nodup
  count : keep.length = min retention (verified.map Prod.fst).dedup.length
  newest : ∀ f ∈ keep, ∀ g ∈ verified, g.1 = f.1 → g = f ∨ f.2.before g.2 = true
  ranked : ∀ f ∈ keep, ∀ g ∈ leaders Prod.fst verifiedBefore verified, g ∉ keep →
    f.2.before g.2 = true

theorem keptFiles_keeps (retention : Nat) (verified : List VerifiedFile)
    (apart : KeyedApart verifiedKey verified) (once : verified.Nodup) :
    Keeps retention verified (keptFiles retention verified) := by
  have ascending : (sortBy verifiedBefore (leaders Prod.fst verifiedBefore verified)).Pairwise
      fun a b => verifiedKey a < verifiedKey b := by
    refine verified_ranks.sorted_strictly _ (fun a first b second => ?_)
      (leaders_nodup _ _ _ once)
    exact apart a ((mem_leaders _ _ _ _).mp first).1 b ((mem_leaders _ _ _ _).mp second).1
  have groups : ((leaders Prod.fst verifiedBefore verified).map Prod.fst).Perm
      (verified.map Prod.fst).dedup := verified_ranks.leaders_groups apart once
  have leads : ∀ f ∈ keptFiles retention verified, f ∈ leaders Prod.fst verifiedBefore verified :=
    fun f inside => (mem_sortBy _ _ _).mp (List.mem_of_mem_take inside)
  refine ⟨fun f inside => ((mem_leaders _ _ _ _).mp (leads f inside)).1, ?_, ?_, ?_, ?_⟩
  · have all := ((sortBy_perm verifiedBefore _).map Prod.fst).nodup_iff.mpr
      (groups.nodup_iff.mpr (List.nodup_dedup _))
    exact all.sublist ((List.take_sublist _ _).map _)
  · rw [keptFiles, List.length_take, (sortBy_perm verifiedBefore _).length_eq, ← groups.length_eq,
      List.length_map]
  · intro f inside g other same
    have least := ((mem_leaders _ _ _ _).mp (leads f inside)).2 g other same
    rcases lt_or_eq_of_le ((verified_ranks.not_before f g).mp least) with before | tie
    · exact .inr ((verified_ranks f g).mpr before)
    · exact .inl (apart f ((mem_leaders _ _ _ _).mp (leads f inside)).1 g other tie).symm
  · intro f inside g leader dropped
    have whole : g ∈ sortBy verifiedBefore (leaders Prod.fst verifiedBefore verified) :=
      (mem_sortBy _ _ _).mpr leader
    rw [← List.take_append_drop retention (sortBy verifiedBefore _)] at whole ascending
    exact (verified_ranks f g).mpr ((List.pairwise_append.mp ascending).2.2 f inside g
      ((List.mem_append.mp whole).resolve_left dropped))

/-- The files examined are the regular entries with the name of a checkpoint. A prune leaves every
file that is not verified or that it keeps, however it ends; when it succeeds the other verified
files are gone and are the ones it reports. -/
theorem prune_keeps (message : Errno → Bytes) (store : CheckpointStore) (backend : Backend σ)
    (state state' : σ) (d d' : Disk) (paths : List FsPath)
    (listed : checkpointFiles (diskSystem message) store d = .ok paths)
    (answer : Option (Result PruneReport))
    (ran : cpPrune (diskSystem message) store backend state d = (answer, state', d')) :
    let verified := verifiedOn message store backend state d paths
    (∀ path, path ∈ paths ↔
      (diskSystem message).fileExists store.options.checkpointDirectory d = .ok true ∧
      (path, .ok true) ∈ ((diskSystem message).list store.options.checkpointDirectory d).entries ∧
      isCheckpointFilename path store.options.canonicalPath.extension = true) ∧
    ∃ keep, Keeps store.options.retention verified keep ∧
      (∀ path, (∀ f ∈ verified, f.2.path = path → f ∈ keep) → d'.file path = d.file path) ∧
      ∀ report, answer = some (.ok report) →
        (report.removed ++ keep.map fun f => f.2.path).Perm (verified.map fun f => f.2.path) ∧
        (∀ f ∈ verified, d'.file f.2.path ≠ none ↔ f ∈ keep) ∧
        report.rejected = rejections (verifiedOf (diskSystem message))
          (examine (diskSystem message) store backend d paths state).1 := by
  intro verified
  obtain ⟨once, apart, touches, _, done⟩ :=
    cpPrune_spec message store backend state state' d d' paths listed answer ran
  have keeps := keptFiles_keeps store.options.retention verified apart once.of_map
  refine ⟨mem_checkpointFiles _ store d paths listed, keptFiles store.options.retention verified,
    keeps, fun path spared => ?_, fun report success => ?_⟩
  · apply touches.file path
    rintro ⟨f, inside, dropped, here⟩
    exact dropped (spared f inside here)
  · obtain ⟨removed, gone, rejected⟩ := done report success
    refine ⟨removed, fun f inside => ?_, rejected⟩
    by_cases keep : f ∈ keptFiles store.options.retention verified
    · have spared : d'.file f.2.path = d.file f.2.path := by
        apply touches.file
        rintro ⟨g, other, dropped, here⟩
        exact dropped (List.inj_on_of_nodup_map once other inside here ▸ keep)
      rw [spared]
      simp only [keep, iff_true]
      exact verifiedOn_present message store backend state d paths f inside
    · simp only [keep, iff_false, ne_eq, not_not]
      exact gone f inside keep

/-- Three checkpoints, of which two hold version 2. -/
def crowdedDisk : Disk :=
  { appDisk with
    files := ((AList.singleton (appStore.destination 1) { bytes := bytes "1", modified := .ok 4 }).insert
      (appStore.destination 2) { bytes := bytes "2", modified := .ok 5 }).insert
        (appStore.destination 3) { bytes := bytes "2 again", modified := .ok 6 }
    directories := [appStore.options.checkpointDirectory] }

/-- Of version 2 the newer file stays, and with it version 1; the older file is removed. -/
theorem crowdedDisk_pruned :
    ∃ report d', cpPrune (diskSystem natText) appStore numberBackend () crowdedDisk =
        (some (.ok report), (), d') ∧
      report.removed = [appStore.destination 2] ∧ d'.file (appStore.destination 2) = none ∧
      d'.file (appStore.destination 3) = crowdedDisk.file (appStore.destination 3) ∧
      d'.file (appStore.destination 1) = crowdedDisk.file (appStore.destination 1) := by
  have ran : (cpPrune (diskSystem natText) appStore numberBackend () crowdedDisk).1.map
      (Except.map PruneReport.removed) = some (.ok [appStore.destination 2]) := by decide +kernel
  have paths : (verifiedOn natText appStore numberBackend () crowdedDisk
      [appStore.destination 3, appStore.destination 2, appStore.destination 1]).map
        (fun f => f.2.path) =
      [appStore.destination 3, appStore.destination 2, appStore.destination 1] := by decide +kernel
  have apart : [appStore.destination 3, appStore.destination 2, appStore.destination 1].Nodup := by
    decide +kernel
  obtain ⟨answer, success, ended⟩ := Option.map_eq_some_iff.mp ran
  cases answer with
  | error e => cases ended
  | ok report =>
    obtain ⟨_, keep, keeps, spared, done⟩ := prune_keeps natText appStore numberBackend () _
      crowdedDisk _ [appStore.destination 3, appStore.destination 2, appStore.destination 1]
      (by decide +kernel) _ rfl
    obtain ⟨removed, gone, _⟩ := done report success
    have taken : report.removed = [appStore.destination 2] := Except.ok.inj ended
    rw [taken, paths] at removed
    -- The two files that were not removed are kept, and the paths tell the files apart.
    have kept : ∀ path ∈ [appStore.destination 3, appStore.destination 1],
        (cpPrune (diskSystem natText) appStore numberBackend () crowdedDisk).2.2.file path =
          crowdedDisk.file path := by
      intro path among
      have other : path ∉ [appStore.destination 2] := by
        revert path
        decide +kernel
      have listed : path ∈ [appStore.destination 2] ++ keep.map fun f => f.2.path := by
        rw [removed.mem_iff]
        revert path
        decide +kernel
      obtain ⟨g, inside, same⟩ := List.mem_map.mp ((List.mem_append.mp listed).resolve_left other)
      refine spared path fun f member here => ?_
      have equal := List.inj_on_of_nodup_map (paths ▸ apart) member (keeps.among g inside)
        (here.trans same.symm)
      exact equal ▸ inside
    have old : appStore.destination 2 ∈ (verifiedOn natText appStore numberBackend () crowdedDisk
        [appStore.destination 3, appStore.destination 2, appStore.destination 1]).map
          (fun f => f.2.path) := by
      rw [paths]
      decide +kernel
    obtain ⟨f, member, here⟩ := List.mem_map.mp old
    have dropped : f ∉ keep := by
      intro inside
      have twice := removed.nodup_iff.mpr apart
      exact (List.nodup_cons.mp twice).1 (here ▸ List.mem_map_of_mem inside)
    have absent := not_not.mp (mt (gone f member).mp dropped)
    rw [here] at absent
    exact ⟨report, _, Prod.ext success rfl, taken, absent, kept _ (by decide +kernel),
      kept _ (by decide +kernel)⟩

end ConfigManager.Guarantees
