import ConfigManager.Library.Recency
import ConfigManager.Refinement.CheckpointNames
import ConfigManager.Refinement.CheckpointPruning

/-!
# A directory of captures

What the checkpoint directory holds after captures: a file for each of some
versions, among them the most recently captured ones. This is stated against the
history of the captures, and pruning such a directory keeps its front.
-/

set_option autoImplicit false

namespace ConfigManager.Refinement
open Library Source Reference

variable {σ : Type}

/-! ## Histories -/

/-- A capture that succeeded: the canonical bytes it verified and the time of its file. -/
structure Capture where
  version : VersionId
  text : Bytes
  time : FileTime

/-- The last capture of a version, the history being newest first. -/
def latest : List Capture → VersionId → Option Capture
  | [], _ => none
  | c :: older, v => if c.version = v then some c else latest older v

/-- The captured versions, the most recently captured one first. -/
def recentVersions (history : List Capture) : List VersionId :=
  recency (history.map Capture.version)

@[simp] theorem latest_self (c : Capture) (older : List Capture) :
    latest (c :: older) c.version = some c := if_pos rfl

theorem latest_other (c : Capture) (older : List Capture) (v : VersionId)
    (other : v ≠ c.version) : latest (c :: older) v = latest older v := if_neg (Ne.symm other)

theorem latest_mem (history : List Capture) (v : VersionId) (c : Capture)
    (last : latest history v = some c) : c ∈ history ∧ c.version = v := by
  induction history with
  | nil => cases last
  | cons first older ih =>
    by_cases same : first.version = v
    · rw [latest, if_pos same] at last
      cases last
      exact ⟨List.mem_cons_self, same⟩
    · rw [latest, if_neg same] at last
      exact ⟨List.mem_cons_of_mem _ (ih last).1, (ih last).2⟩

theorem latest_exists (history : List Capture) (v : VersionId)
    (captured : v ∈ recentVersions history) : ∃ c, latest history v = some c := by
  rw [recentVersions, mem_recency] at captured
  induction history with
  | nil => cases captured
  | cons first older ih =>
    by_cases same : first.version = v
    · exact ⟨first, if_pos same⟩
    · rw [latest, if_neg same]
      rw [List.map_cons, List.mem_cons] at captured
      exact ih (captured.resolve_left (Ne.symm same))

/-- The times of the last captures descend with the versions. -/
theorem recentVersions_descending (history : List Capture)
    (descending : history.Pairwise fun newer older => older.time < newer.time) :
    (recentVersions history).Pairwise fun v w => ∀ c c', latest history v = some c →
      latest history w = some c' → c'.time < c.time := by
  induction history with
  | nil => exact .nil
  | cons first older ih =>
    rw [List.pairwise_cons] at descending
    have distinct := touch_nodup first.version _ (recency_nodup (older.map Capture.version))
    rw [touch, List.nodup_cons] at distinct
    have others : ∀ v ∈ (recentVersions older).erase first.version,
        latest (first :: older) v = latest older v :=
      fun v inside => latest_other first older v fun same => distinct.1 (same ▸ inside)
    refine List.pairwise_cons.mpr ⟨fun w inside c c' lastV lastW => ?_, ?_⟩
    · rw [latest_self] at lastV
      cases lastV
      rw [others w inside] at lastW
      exact descending.1 c' (latest_mem older w c' lastW).1
    · have rest := (ih descending.2).sublist (List.erase_sublist (a := first.version))
      refine rest.imp_of_mem fun firstIn secondIn before c c' lastV lastW => ?_
      rw [others _ firstIn] at lastV
      rw [others _ secondIn] at lastW
      exact before c c' lastV lastW

end ConfigManager.Refinement
