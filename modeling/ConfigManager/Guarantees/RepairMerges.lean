import ConfigManager.Refinement.Repair

/-!
# Repair merges the defaults and cannot fail

`fillMissing` on a reachable model leaves exactly the recursive merge of the
defaults into it and reports whether that changed anything. Once the factory
has produced defaults, `repair` has no error branch left to take.
-/

set_option autoImplicit false

namespace ConfigManager.Guarantees
open Library Source Reference Refinement

/-- Defaults that were created are a reachable model. -/
theorem createDefault_reachable {σ : Type} (catalog : VersionCatalog σ) (version : VersionId)
    (world world' : World σ) (d : ConfigModel)
    (made : catalog.createDefault version world = (.ok d, world')) : Reachable d := by
  unfold VersionCatalog.createDefault at made
  cases found : VersionCatalog.findEntry catalog.entries version with
  | nil => simp [found, VersionCatalog.notRegisteredError, fail] at made
  | cons entry rest =>
    simp only [found] at made
    split at made
    · simp [VersionCatalog.notRegisteredError, fail] at made
    · cases outcome : (entry.defaultFactory.run world.callbacks).1 with
      | threw what => simp [outcome, fail] at made
      | threwOther => simp [outcome, fail] at made
      | returned root =>
        simp only [outcome, Prod.mk.injEq] at made
        exact .fromValue root d made.1

/-- A successful `fillMissing` from the roots is the merge, and its flag tells whether the
tree changed. -/
theorem fillMissing_merges (m d m' : ConfigModel) (added : Bool) (reached : Reachable m)
    (defaults : Reachable d)
    (success : fillMissing d d.arena.nodes.length m d.root [] = (.ok added, m')) :
    contents m' = Tree.merge (contents m) (contents d) ∧
      (added = true ↔ contents m' ≠ contents m) := by
  obtain ⟨tm, rm⟩ := reachable_represents reached
  obtain ⟨td, rd⟩ := reachable_represents defaults
  obtain ⟨added', m'', tm', called, rm', merged, _, flag⟩ := fillMissing_spec m d tm td rm rd
  rw [called, Prod.mk.injEq, Except.ok.injEq] at success
  obtain ⟨rfl, rfl⟩ := success
  rw [contents_eq rm', contents_eq rm, contents_eq rd]
  exact ⟨merged, flag⟩

/-- The user has the port as a number, and a flag at the root. -/
def userModel : ConfigModel :=
  ((ConfigModel.empty.set (bytes "server.port") (ConfigValue.of (.int 8080))).2.set (bytes "debug")
    (ConfigValue.of (.bool true))).2

theorem userModel_reachable : Reachable userModel :=
  .set _ _ ⟨_, by decide⟩ (.set _ _ ⟨_, by decide⟩ .empty)

/-- The defaults share the section, have the port as a text, and more beside and below it. -/
def sharedDefaults : BuiltValue :=
  ⟨(ConfigValue.object.set (bytes "server") ((ConfigValue.object.set (bytes "port")
    (ConfigValue.of (.string (bytes "80")))).set (bytes "timeout") (ConfigValue.of (.int 30)))).set
      (bytes "name") (ConfigValue.of (.string (bytes "app"))), by decide⟩

/-- The section keeps the user's port and gains the timeout; the root gains the name. -/
theorem shared_section_merges :
    ∃ d m', ConfigModel.fromValue sharedDefaults.1 = .ok d ∧
      fillMissing d d.arena.nodes.length userModel d.root [] = (.ok true, m') ∧
      contents m' = Tree.object () [
        (bytes "server", Tree.object () [(bytes "port", ConfigValue.of (.int 8080)),
          (bytes "timeout", ConfigValue.of (.int 30))]),
        (bytes "debug", ConfigValue.of (.bool true)),
        (bytes "name", ConfigValue.of (.string (bytes "app")))] ∧
      contents m' ≠ contents userModel := by
  obtain ⟨d, made⟩ : ∃ d, ConfigModel.fromValue sharedDefaults.1 = .ok d := ⟨_, rfl⟩
  have fills : (ConfigModel.fromValue sharedDefaults.1).map (fun d =>
      ((fillMissing d d.arena.nodes.length userModel d.root []).1,
        Tree.merge (contents userModel) (contents d))) = .ok (.ok true, Tree.object () [
          (bytes "server", Tree.object () [(bytes "port", ConfigValue.of (.int 8080)),
            (bytes "timeout", ConfigValue.of (.int 30))]),
          (bytes "debug", ConfigValue.of (.bool true)),
          (bytes "name", ConfigValue.of (.string (bytes "app")))]) := by
    decide +kernel
  rw [made, Except.map, Except.ok.injEq, Prod.mk.injEq] at fills
  obtain ⟨merged, flag⟩ := fillMissing_merges userModel d _ true userModel_reachable
    (.fromValue sharedDefaults d made) (Prod.ext fills.1 rfl)
  exact ⟨d, _, made, Prod.ext fills.1 rfl, merged.trans fills.2, flag.mp rfl⟩

/-- Once the defaults exist, `repair` returns a value for every reachable model. -/
theorem repair_total {σ : Type} (runtime : ConfigRuntime σ) (m d : ConfigModel)
    (version : VersionId) (world world' : World σ) (reached : Reachable m)
    (made : runtime.catalog.createDefault version world = (.ok d, world')) :
    ∃ added m', runtime.repair m version world = (.ok added, m', world') := by
  obtain ⟨tm, rm⟩ := reachable_represents reached
  obtain ⟨td, rd⟩ := reachable_represents
    (createDefault_reachable runtime.catalog version world world' d made)
  obtain ⟨added, m', _, called, _⟩ := fillMissing_spec m d tm td rm rd
  refine ⟨added, m', ?_⟩
  unfold ConfigRuntime.repair
  rw [made]
  simp only [called]

/-- A runtime with one version and these defaults. -/
def sharedVersion : ConfigRuntime Unit :=
  ⟨⟨[⟨1, ⟨fun state => (.returned sharedDefaults, state)⟩⟩], List.pairwise_singleton _ _⟩, ⟨[]⟩⟩

theorem shared_section_repairs :
    ∃ added m', sharedVersion.repair userModel 1 ⟨(), []⟩ =
      (.ok added, m', ⟨(), [.factory 1 (.returned sharedDefaults)]⟩) :=
  repair_total sharedVersion userModel _ 1 ⟨(), []⟩ _ userModel_reachable rfl

end ConfigManager.Guarantees
