import ConfigManager.Source.ConfigRuntime

/-!
# Callbacks that depend on their model only

What such callbacks answer and leave in the model does not depend on the state
they share, so neither does the outcome of a synchronization.
-/

set_option autoImplicit false

namespace ConfigManager.Refinement
open Source

variable {σ : Type}

structure Stateless (runtime : ConfigRuntime σ) : Prop where
  migrations : ∀ edge ∈ runtime.registry.edges, ∀ model source target state state',
    (edge.apply.run model source target state).1 = (edge.apply.run model source target state').1 ∧
      (edge.apply.run model source target state).2.1 =
        (edge.apply.run model source target state').2.1
  factories : ∀ entry ∈ runtime.catalog.entries, ∀ state state',
    (entry.defaultFactory.run state).1 = (entry.defaultFactory.run state').1

theorem findMigration_mem (registry : MigrationRegistry σ) (source target : VersionId)
    (edge : MigrationEdge σ) (found : registry.findMigration source target = .ok edge) :
    edge ∈ registry.edges := by
  unfold MigrationRegistry.findMigration at found
  split at found
  · cases found
  · next edge' first =>
    cases found
    exact List.mem_of_find?_eq_some first

section
variable {runtime : ConfigRuntime σ} (stateless : Stateless runtime)
include stateless

theorem walk_stateless (target current : VersionId) (config : VersionedConfig)
    (world world' : World σ) :
    (MigrationEngine.walk runtime.catalog runtime.registry target current config world).1 =
        (MigrationEngine.walk runtime.catalog runtime.registry target current config world').1 ∧
      (MigrationEngine.walk runtime.catalog runtime.registry target current config world).2.1 =
        (MigrationEngine.walk runtime.catalog runtime.registry target current config world').2.1 := by
  induction distance : target.val - current.val using Nat.strong_induction_on
    generalizing current config world world' with
  | h n ih =>
    rw [MigrationEngine.walk.eq_def _ _ _ _ _ world, MigrationEngine.walk.eq_def _ _ _ _ _ world']
    by_cases below : current < target
    · rw [if_pos below, if_pos below]
      split
      · exact ⟨rfl, rfl⟩
      · next next found =>
        cases joined : runtime.registry.findMigration current next with
        | error e => exact ⟨rfl, rfl⟩
        | ok edge =>
          have same := stateless.migrations edge (findMigration_mem _ _ _ edge joined) config.model
            current next world.callbacks world'.callbacks
          cases called : edge.apply.run config.model current next world.callbacks with
          | mk outcome after =>
            cases called' : edge.apply.run config.model current next world'.callbacks with
            | mk outcome' after' =>
              obtain ⟨model, callbacks⟩ := after
              obtain ⟨model', callbacks'⟩ := after'
              rw [called, called'] at same
              obtain ⟨rfl, rfl⟩ := same
              simp only [called, called']
              rcases outcome with (e | ⟨⟩) | what | _
              · exact ⟨rfl, rfl⟩
              · have above := runtime.catalog.nextVersion_above current next found
                have nearer : target.val - next.val < n := by
                  have up : current.val < next.val := above
                  have there : current.val < target.val := below
                  omega
                exact ih _ nearer next _ _ _ rfl
              · exact ⟨rfl, rfl⟩
              · exact ⟨rfl, rfl⟩
    · rw [if_neg below, if_neg below]
      exact ⟨rfl, rfl⟩

theorem createDefault_stateless (version : VersionId) (world world' : World σ) :
    (runtime.catalog.createDefault version world).1 =
      (runtime.catalog.createDefault version world').1 := by
  obtain ⟨before, split, _⟩ := VersionCatalog.findEntry_split runtime.catalog.entries version
  unfold VersionCatalog.createDefault
  cases found : VersionCatalog.findEntry runtime.catalog.entries version with
  | nil => rfl
  | cons entry rest =>
    have member : entry ∈ runtime.catalog.entries := by
      rw [split, found]
      simp
    have same := stateless.factories entry member world.callbacks world'.callbacks
    cases called : entry.defaultFactory.run world.callbacks with
    | mk outcome callbacks =>
      cases called' : entry.defaultFactory.run world'.callbacks with
      | mk outcome' callbacks' =>
        rw [called, called'] at same
        simp only at same
        subst same
        simp only [called, called']
        by_cases registered : entry.version = version
        · simp only [registered, ne_eq, not_true_eq_false, if_false]
          cases outcome <;> rfl
        · simp only [registered, ne_eq, not_false_eq_true, if_true]

theorem upgrade_stateless (working : VersionedConfig) (supported : VersionId)
    (status : SyncStatus) (world world' : World σ) :
    (runtime.upgrade working supported status world).1 =
        (runtime.upgrade working supported status world').1 ∧
      (runtime.upgrade working supported status world).2.1 =
        (runtime.upgrade working supported status world').2.1 := by
  unfold ConfigRuntime.upgrade
  by_cases needed : status = .upgradeRequired
  · rw [if_pos needed, if_pos needed]
    unfold MigrationEngine.migrate
    cases known : runtime.catalog.contains supported with
    | false => exact ⟨rfl, rfl⟩
    | true =>
      by_cases above : working.version > supported
      · simp [above, fail]
      · simp only [Bool.not_true, Bool.false_eq_true, if_false, above]
        have same := walk_stateless stateless supported working.version working world world'
        cases walked : MigrationEngine.walk runtime.catalog runtime.registry supported
          working.version working world with
        | mk answer after =>
          cases walked' : MigrationEngine.walk runtime.catalog runtime.registry supported
            working.version working world' with
          | mk answer' after' =>
            obtain ⟨config, _⟩ := after
            obtain ⟨config', _⟩ := after'
            rw [walked, walked'] at same
            obtain ⟨rfl, rfl⟩ := same
            rcases answer with e | ⟨⟩ <;> exact ⟨rfl, rfl⟩
  · rw [if_neg needed, if_neg needed]
    exact ⟨rfl, rfl⟩

theorem repair_stateless (model : ConfigModel) (version : VersionId) (world world' : World σ) :
    (runtime.repair model version world).1 = (runtime.repair model version world').1 ∧
      (runtime.repair model version world).2.1 = (runtime.repair model version world').2.1 := by
  unfold ConfigRuntime.repair
  have same := createDefault_stateless stateless version world world'
  cases created : runtime.catalog.createDefault version world with
  | mk answer after =>
    cases created' : runtime.catalog.createDefault version world' with
    | mk answer' after' =>
      rw [created, created'] at same
      simp only at same
      subst same
      cases answer <;> exact ⟨rfl, rfl⟩

/-- The answer and the config that a synchronization leaves are functions of the config. -/
theorem synchronize_stateless (cfg : VersionedConfig) (supported : VersionId)
    (world world' : World σ) :
    (runtime.synchronize cfg supported world).1 = (runtime.synchronize cfg supported world').1 ∧
      (runtime.synchronize cfg supported world).2.1 =
        (runtime.synchronize cfg supported world').2.1 := by
  unfold ConfigRuntime.synchronize
  cases known : runtime.catalog.contains supported with
  | false => exact ⟨rfl, rfl⟩
  | true =>
    simp only [Bool.not_true, Bool.false_eq_true, if_false]
    generalize (ConfigRuntime.inspect cfg supported).status = status
    by_cases down : status = .downgradeRequired
    · rw [if_pos down, if_pos down]
      exact ⟨rfl, rfl⟩
    rw [if_neg down, if_neg down]
    by_cases lost : status = .upgradeRequired ∧ runtime.catalog.contains cfg.version = false
    · rw [if_pos lost, if_pos lost]
      exact ⟨rfl, rfl⟩
    rw [if_neg lost, if_neg lost]
    have upgraded := upgrade_stateless stateless ⟨cfg.version, cfg.model.clone⟩ supported status
      world world'
    cases ran : runtime.upgrade ⟨cfg.version, cfg.model.clone⟩ supported status world with
    | mk answer after =>
      cases ran' : runtime.upgrade ⟨cfg.version, cfg.model.clone⟩ supported status world' with
      | mk answer' after' =>
        obtain ⟨working, middle⟩ := after
        obtain ⟨working', middle'⟩ := after'
        rw [ran, ran'] at upgraded
        obtain ⟨rfl, rfl⟩ := upgraded
        rcases answer with e | migrated
        · exact ⟨rfl, rfl⟩
        simp only
        have repaired := repair_stateless stateless working.model supported middle middle'
        cases filled : runtime.repair working.model supported middle with
        | mk answer last =>
          cases filled' : runtime.repair working.model supported middle' with
          | mk answer' last' =>
            obtain ⟨model, world₁⟩ := last
            obtain ⟨model', world₂⟩ := last'
            rw [filled, filled'] at repaired
            obtain ⟨rfl, rfl⟩ := repaired
            rcases answer with e | added
            · exact ⟨rfl, rfl⟩
            · by_cases changed : (migrated || added) = true
              · simp only [changed, if_true, and_self]
              · simp only [changed, Bool.false_eq_true, if_false, and_self]

end

end ConfigManager.Refinement
