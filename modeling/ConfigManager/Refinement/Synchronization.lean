import ConfigManager.Refinement.Registrations
import ConfigManager.Refinement.Repair

/-!
# What one synchronization does

`Synchronized` lists the ways a call of `synchronize` can end, with everything a
statement may ask about each. It is derived once, from the walk, from
`createDefault` and from the specification of `fillMissing`.
-/

set_option autoImplicit false

namespace ConfigManager.Refinement
open Library Source Reference

variable {σ : Type}

/-! ## A validated registry -/

/-- In a runtime that was created, every step of the catalog has its migration. -/
theorem created_finds (catalog : VersionCatalog σ) (registry : MigrationRegistry σ)
    (runtime : ConfigRuntime σ) (created : ConfigRuntime.create catalog registry = .ok runtime) :
    ∀ step ∈ consecutive runtime.catalog.versions, ∀ e,
      runtime.registry.findMigration step.1 step.2 ≠ .error e := by
  rcases create_cases catalog registry with
    ⟨made, _, edges⟩ | ⟨e, failed, _⟩ | ⟨e, failed, _⟩
  · rw [made, Except.ok.injEq] at created
    subst created
    intro step inside e failed
    have joined := (any_joins_iff registry.edges step.1 step.2).mpr ((edges step).mpr inside)
    unfold MigrationRegistry.findMigration at failed
    cases found : registry.edges.find? (MigrationEdge.joins step.1 step.2) with
    | some edge => simp [found] at failed
    | none =>
      rw [List.find?_eq_none] at found
      obtain ⟨edge, member, joins⟩ := List.any_eq_true.mp joined
      exact found edge member joins
  · rw [failed] at created
    cases created
  · rw [failed] at created
    cases created

/-! ## Creating the defaults -/

/-- A call of a factory that threw. -/
def FactoryThrew : CallOutcome BuiltValue → Prop
  | .returned _ => False
  | _ => True

/-- For a registered version the factory runs once, and what it did decides the result. -/
theorem createDefault_cases (catalog : VersionCatalog σ) (version : VersionId)
    (registered : catalog.contains version = true) (world world' : World σ)
    (answer : Result ConfigModel) (ran : catalog.createDefault version world = (answer, world')) :
    ∃ entry ∈ catalog.entries, entry.version = version ∧ ∃ outcome,
      entry.defaultFactory.run world.callbacks = (outcome, world'.callbacks) ∧
      world'.events = world.events ++ [.factory version outcome] ∧
      ((FactoryThrew outcome ∧ ∃ message, answer = fail .migrationFailed message) ∨
        ∃ root, outcome = .returned root ∧ answer = ConfigModel.fromValue root.1) := by
  obtain ⟨before, entry, rest, split, rfl⟩ := (contains_iff catalog version).mp registered
  have found := findEntry_of_split catalog before rest entry split
  have member : entry ∈ catalog.entries := by
    rw [split]
    simp
  unfold VersionCatalog.createDefault at ran
  rw [found] at ran
  simp only [ne_eq, not_true_eq_false, if_false] at ran
  cases called : entry.defaultFactory.run world.callbacks with
  | mk outcome state =>
    simp only [called] at ran
    refine ⟨entry, member, rfl, outcome, ?_⟩
    cases outcome with
    | threw what =>
      simp only [Prod.mk.injEq] at ran
      obtain ⟨rfl, rfl⟩ := ran
      exact ⟨called, rfl, .inl ⟨trivial, _, rfl⟩⟩
    | threwOther =>
      simp only [Prod.mk.injEq] at ran
      obtain ⟨rfl, rfl⟩ := ran
      exact ⟨called, rfl, .inl ⟨trivial, _, rfl⟩⟩
    | returned root =>
      simp only [Prod.mk.injEq] at ran
      obtain ⟨rfl, rfl⟩ := ran
      exact ⟨called, rfl, .inr ⟨root, rfl, rfl⟩⟩

/-- Defaults that were created hold the factory's tree. -/
theorem fromValue_holds (value : BuiltValue) (d : ConfigModel)
    (success : ConfigModel.fromValue value.1 = .ok d) :
    ∃ td, Represents d td ∧ td.forget = value.1 := by
  have spec := fromValue_spec value.1 value.2
  cases accepted : Reference.fromValue value.1 with
  | error code =>
    rw [accepted] at spec
    simp [success] at spec
  | ok new =>
    rw [accepted] at spec
    obtain ⟨m, td, made, represents, plain⟩ := spec
    rw [success, Except.ok.injEq] at made
    subst made
    exact ⟨td, represents, plain.trans (fromValue_admissible value new accepted).1⟩

/-- A value is refused for its root or for its keys and depth. -/
theorem fromValue_refused (value : BuiltValue) (e : Error)
    (failed : ConfigModel.fromValue value.1 = .error e) :
    (e.code = .invalidType ∧ value.1.type ≠ .object) ∨
      (e.code = .invalidPath ∧ value.1.type = .object ∧ ¬ Fits 0 value.1) := by
  have spec := fromValue_spec value.1 value.2
  unfold Reference.fromValue at spec
  by_cases isObject : value.1.type = .object
  · simp only [isObject, ne_eq, not_true_eq_false, if_false] at spec
    by_cases fits : Fits 0 value.1
    · rw [if_pos fits] at spec
      obtain ⟨m, _, made, _⟩ := spec
      rw [failed] at made
      cases made
    · rw [if_neg fits] at spec
      simp only [failed, outcome, Except.error.injEq] at spec
      exact .inr ⟨spec, isObject, fits⟩
  · simp only [ne_eq, isObject, not_false_eq_true, if_true, failed, outcome,
      Except.error.injEq] at spec
    exact .inl ⟨spec, isObject⟩

/-! ## The ways a synchronization ends -/

/-- The steps from the config's version to the supported one. -/
def upgradeSteps (runtime : ConfigRuntime σ) (version supported : VersionId) :
    List (VersionId × VersionId) :=
  span version supported runtime.catalog.versions

/-- A config at the supported version has no step to take. -/
theorem upgradeSteps_self (runtime : ConfigRuntime σ) (version : VersionId)
    (known : runtime.catalog.contains version = true) : upgradeSteps runtime version version = [] :=
  span_self _ runtime.catalog.ascending version ((contains_iff_mem _ _).mp known)

/-- The outcome, the config and the world that a call of `synchronize` leaves. -/
inductive Synchronized (runtime : ConfigRuntime σ) (cfg : VersionedConfig) (supported : VersionId)
    (world : World σ) : Result SyncStatus → VersionedConfig → World σ → Prop where
  | unregistered (e : Error) (code : e.code = .invalidVersion)
      (unknown : runtime.catalog.contains supported = false) :
      Synchronized runtime cfg supported world (.error e) cfg world
  | downgrade (known : runtime.catalog.contains supported = true) (above : cfg.version > supported) :
      Synchronized runtime cfg supported world (.ok .downgradeRequired) cfg world
  | unknownVersion (e : Error) (code : e.code = .invalidVersion)
      (known : runtime.catalog.contains supported = true) (below : cfg.version < supported)
      (unknown : runtime.catalog.contains cfg.version = false) :
      Synchronized runtime cfg supported world (.error e) cfg world
  | migrationFailed (e : Error) (code : e.code = .migrationFailed)
      (known : runtime.catalog.contains supported = true) (below : cfg.version < supported)
      (start : runtime.catalog.contains cfg.version = true) (world' : World σ)
      (done rest : List (VersionId × VersionId)) (source target : VersionId)
      (steps : upgradeSteps runtime cfg.version supported = done ++ (source, target) :: rest)
      (outcome : CallOutcome (Result Unit)) (failed : CallFailed outcome)
      (events : world'.events = world.events ++ done.map ranEvent ++
        [.migration source target outcome]) :
      Synchronized runtime cfg supported world (.error e) cfg world'
  | defaultsFailed (e : Error) (known : runtime.catalog.contains supported = true)
      (bound : cfg.version ≤ supported) (start : runtime.catalog.contains cfg.version = true)
      (world' : World σ) (state : σ) (entry : CatalogEntry σ)
      (member : entry ∈ runtime.catalog.entries) (version : entry.version = supported)
      (outcome : CallOutcome BuiltValue)
      (made : entry.defaultFactory.run state = (outcome, world'.callbacks))
      (events : world'.events = world.events ++
        (upgradeSteps runtime cfg.version supported).map ranEvent ++ [.factory supported outcome])
      (cause : (FactoryThrew outcome ∧ e.code = .migrationFailed) ∨
        ∃ root, outcome = .returned root ∧ ConfigModel.fromValue root.1 = .error e) :
      Synchronized runtime cfg supported world (.error e) cfg world'
  | inSync (cfg' : VersionedConfig) (known : runtime.catalog.contains supported = true)
      (bound : cfg.version ≤ supported) (start : runtime.catalog.contains cfg.version = true)
      (world' : World σ) (m : ConfigModel) (state : σ)
      (applied : Applied runtime.registry (upgradeSteps runtime cfg.version supported)
        (cfg.model, world.callbacks) (m, state))
      (entry : CatalogEntry σ) (member : entry ∈ runtime.catalog.entries)
      (version : entry.version = supported) (root : BuiltValue)
      (made : entry.defaultFactory.run state = (.returned root, world'.callbacks))
      (d : ConfigModel) (adopted : ConfigModel.fromValue root.1 = .ok d)
      (merged : contents cfg'.model = Tree.merge (contents m) root.1)
      (distinct : root.1.KeysDistinct) (reached : Reachable cfg'.model)
      (current : cfg'.version = supported) (tail : List Event)
      (events : world'.events = world.events ++
        (upgradeSteps runtime cfg.version supported).map ranEvent ++
          .factory supported (.returned root) :: tail)
      (commit : (tail = [] ∧ cfg' = cfg ∧ m = cfg.model) ∨
        (tail = [.commit] ∧ (cfg.version < supported ∨ contents cfg'.model ≠ contents cfg.model))) :
      Synchronized runtime cfg supported world (.ok .inSync) cfg' world'

/-- What the migration phase leaves, when both versions are registered. -/
theorem upgrade_cases (catalog : VersionCatalog σ) (registry : MigrationRegistry σ)
    (runtime : ConfigRuntime σ) (created : ConfigRuntime.create catalog registry = .ok runtime)
    (working : VersionedConfig) (supported : VersionId) (world : World σ)
    (reached : Reachable working.model) (known : runtime.catalog.contains supported = true)
    (bound : working.version ≤ supported)
    (start : runtime.catalog.contains working.version = true) :
    (∃ config' world', ConfigRuntime.upgrade runtime working supported
          (ConfigRuntime.inspect working supported).status world =
            (.ok (decide (working.version < supported)), config', world') ∧
        Applied runtime.registry (upgradeSteps runtime working.version supported)
          (working.model, world.callbacks) (config'.model, world'.callbacks) ∧
        config'.version = supported ∧ (working.version = supported → config' = working) ∧
        Reachable config'.model ∧ world'.events = world.events ++
          (upgradeSteps runtime working.version supported).map ranEvent) ∨
      ∃ e config' world' done rest source target outcome,
        ConfigRuntime.upgrade runtime working supported
          (ConfigRuntime.inspect working supported).status world = (.error e, config', world') ∧
        e.code = .migrationFailed ∧ working.version < supported ∧
        upgradeSteps runtime working.version supported = done ++ (source, target) :: rest ∧
        CallFailed outcome ∧ world'.events = world.events ++ done.map ranEvent ++
          [.migration source target outcome] := by
  have ascending : runtime.catalog.versions.Pairwise (· < ·) := runtime.catalog.ascending
  rcases lt_or_eq_of_le bound with below | same
  · have status : (ConfigRuntime.inspect working supported).status = .upgradeRequired := by
      simp [ConfigRuntime.inspect, below]
    have migrated : MigrationEngine.migrate runtime.catalog runtime.registry working supported world =
        runSteps runtime.registry (upgradeSteps runtime working.version supported) working world :=
      migrate_eq_runSteps runtime.catalog runtime.registry working supported world start known bound
    unfold ConfigRuntime.upgrade
    rw [status, if_pos rfl, migrated]
    cases ran : runSteps runtime.registry (upgradeSteps runtime working.version supported) working
        world with
    | mk answer after =>
      obtain ⟨config', world'⟩ := after
      have kept := runSteps_reachable runtime.registry
        (upgradeSteps runtime working.version supported) working world reached
      rw [ran] at kept
      rcases runSteps_spec _ _ _ _ _ _ _ ran with ⟨rfl, applied, version, events⟩ |
        ⟨done, source, target, rest', e, _, _, _, steps, rfl, _, stop, _, events⟩
      · refine .inl ⟨config', world', by simp [below], applied, ?_,
          fun same => absurd same (ne_of_lt below), kept, events⟩
        rw [version]
        exact span_end _ ascending supported ((contains_iff_mem _ _).mp known) working.version
          ((contains_iff_mem _ _).mp start) bound
      · cases stop with
        | missing _ missing =>
          -- Validation left no step without its migration.
          have inside : (source, target) ∈ consecutive runtime.catalog.versions := by
            apply span_subset _ working.version supported ascending
            rw [← upgradeSteps, steps]
            simp
          exact absurd missing (created_finds catalog registry runtime created _ inside e)
        | failed _ outcome _ _ _ _ _ _ failed code =>
          exact .inr ⟨e, config', world', done, rest', source, target, outcome, rfl, code, below,
            steps, failed, events⟩
  · have status : (ConfigRuntime.inspect working supported).status = .inSync := by
      simp [ConfigRuntime.inspect, same]
    have none : upgradeSteps runtime working.version supported = [] := by
      rw [same]
      exact upgradeSteps_self runtime supported known
    have skipped : ConfigRuntime.upgrade runtime working supported .inSync world =
        (.ok false, working, world) := by
      simp [ConfigRuntime.upgrade]
    refine .inl ⟨working, world, ?_, ?_, same, fun _ => rfl, reached, ?_⟩
    · rw [status, skipped, same]
      simp
    · rw [none]
      exact .none _
    · rw [none]
      simp

theorem inspect_downgrade_iff (cfg : VersionedConfig) (supported : VersionId) :
    (ConfigRuntime.inspect cfg supported).status = .downgradeRequired ↔ supported < cfg.version := by
  simp only [ConfigRuntime.inspect]
  split
  · next below => simp [not_lt_of_gt below]
  · split <;> simp_all

theorem inspect_upgrade_iff (cfg : VersionedConfig) (supported : VersionId) :
    (ConfigRuntime.inspect cfg supported).status = .upgradeRequired ↔ cfg.version < supported := by
  simp only [ConfigRuntime.inspect]
  split
  · next below => simp [below]
  · next notBelow => split <;> simp [notBelow]

/-- The repair phase: the defaults cannot be made, or what they hold is merged in. -/
theorem repair_cases (runtime : ConfigRuntime σ) (supported : VersionId)
    (known : runtime.catalog.contains supported = true) (model : ConfigModel)
    (kept : Reachable model) (world : World σ) :
    ∃ entry ∈ runtime.catalog.entries, entry.version = supported ∧
      ((∃ e world' outcome, runtime.repair model supported world = (.error e, model, world') ∧
          entry.defaultFactory.run world.callbacks = (outcome, world'.callbacks) ∧
          world'.events = world.events ++ [.factory supported outcome] ∧
          ((FactoryThrew outcome ∧ e.code = .migrationFailed) ∨
            ∃ root, outcome = .returned root ∧ ConfigModel.fromValue root.1 = .error e)) ∨
        ∃ added model' world' root d,
          runtime.repair model supported world = (.ok added, model', world') ∧
          entry.defaultFactory.run world.callbacks = (.returned root, world'.callbacks) ∧
          world'.events = world.events ++ [.factory supported (.returned root)] ∧
          ConfigModel.fromValue root.1 = .ok d ∧ Reachable model' ∧
          contents model' = Tree.merge (contents model) root.1 ∧
          (added = true ↔ contents model' ≠ contents model)) := by
  unfold ConfigRuntime.repair
  cases created : runtime.catalog.createDefault supported world with
  | mk answer world' =>
    obtain ⟨entry, member, version, outcome, ran, events, cause⟩ :=
      createDefault_cases runtime.catalog supported known world world' answer created
    refine ⟨entry, member, version, ?_⟩
    rcases cause with ⟨threw, message, rfl⟩ | ⟨root, rfl, rfl⟩
    · exact .inl ⟨_, world', outcome, rfl, ran, events, .inl ⟨threw, rfl⟩⟩
    · cases adopted : ConfigModel.fromValue root.1 with
      | error e => exact .inl ⟨e, world', _, rfl, ran, events, .inr ⟨root, rfl, adopted⟩⟩
      | ok d =>
        right
        obtain ⟨td, rd, plain⟩ := fromValue_holds root d adopted
        obtain ⟨tm, rm⟩ := reachable_represents kept
        obtain ⟨added, m', tm', called, rm', merged, kept', flag⟩ :=
          fillMissing_spec model d tm td rm rd
        have filled : contents m' = Tree.merge (contents model) root.1 := by
          rw [contents_eq rm', contents_eq rm, merged, plain]
        have flag' : added = true ↔ contents m' ≠ contents model := by
          rw [contents_eq rm', contents_eq rm]
          exact flag
        refine ⟨added, m', world', root, d, ?_, ran, events, adopted, kept' kept, filled, flag'⟩
        simp only [called]

/-- Every call of `synchronize` on a created runtime ends in one of the listed ways. -/
theorem synchronize_cases (catalog : VersionCatalog σ) (registry : MigrationRegistry σ)
    (runtime : ConfigRuntime σ) (created : ConfigRuntime.create catalog registry = .ok runtime)
    (cfg : VersionedConfig) (held : Reachable cfg.model) (supported : VersionId) (world : World σ) :
    Synchronized runtime cfg supported world (runtime.synchronize cfg supported world).1
      (runtime.synchronize cfg supported world).2.1
      (runtime.synchronize cfg supported world).2.2 := by
  unfold ConfigRuntime.synchronize
  cases known : runtime.catalog.contains supported with
  | false => exact .unregistered _ rfl known
  | true =>
    simp only [Bool.not_true, Bool.false_eq_true, if_false, inspect_downgrade_iff,
      inspect_upgrade_iff]
    by_cases above : supported < cfg.version
    · rw [if_pos above]
      exact .downgrade known above
    · rw [if_neg above]
      have bound : cfg.version ≤ supported := not_lt.mp above
      by_cases unknown : cfg.version < supported ∧ runtime.catalog.contains cfg.version = false
      · rw [if_pos unknown]
        exact .unknownVersion _ rfl known unknown.1 unknown.2
      · rw [if_neg unknown]
        have start : runtime.catalog.contains cfg.version = true := by
          by_contra missing
          rw [Bool.not_eq_true] at missing
          rcases lt_or_eq_of_le bound with below | same
          · exact unknown ⟨below, missing⟩
          · rw [same, known] at missing
            cases missing
        have copied : (⟨cfg.version, cfg.model.clone⟩ : VersionedConfig) = cfg := rfl
        rw [copied]
        rcases upgrade_cases catalog registry runtime created cfg supported world held known bound
            start with ⟨config', world', upgraded, applied, version, idle, kept, events⟩ |
          ⟨e, config', world', done, rest, source, target, outcome, upgraded, code, below, steps,
            failed, events⟩
        · rw [upgraded]
          simp only []
          obtain ⟨entry, member, versionE, phase⟩ :=
            repair_cases runtime supported known config'.model kept world'
          rcases phase with ⟨e, world₂, outcome, repaired, ran, events₂, cause⟩ |
            ⟨added, m', world₂, root, d, repaired, ran, events₂, adopted, kept', filled, flag⟩
          · rw [repaired]
            rw [events] at events₂
            exact .defaultsFailed e known bound start world₂ _ entry member versionE outcome ran
              events₂ cause
          · rw [repaired]
            rw [events] at events₂
            simp only []
            by_cases committed : (decide (cfg.version < supported) || added) = true
            · rw [if_pos committed]
              refine .inSync { config' with model := m' } known bound start
                { world₂ with events := world₂.events ++ [.commit] } config'.model _ applied entry
                member versionE root ran d adopted filled root.2 kept' version [.commit] ?_
                (.inr ⟨rfl, ?_⟩)
              · rw [events₂]
                simp
              · rcases lt_or_eq_of_le bound with below | same
                · exact .inl below
                · refine .inr ?_
                  rw [same, decide_eq_false (lt_irrefl _), Bool.false_or, flag,
                    idle same] at committed
                  exact committed
            · rw [if_neg committed]
              rw [Bool.or_eq_true, not_or, decide_eq_true_eq, flag, not_not] at committed
              have same := le_antisymm bound (not_lt.mp committed.1)
              have untouched := idle same
              subst untouched
              refine .inSync config' known bound start world₂ config'.model _ applied entry
                member versionE root ran d adopted ?_ root.2 kept version [] events₂
                (.inl ⟨rfl, rfl, rfl⟩)
              rw [← filled, committed.2]
        · rw [upgraded]
          exact .migrationFailed e code known below start world' done rest source target steps outcome
            failed events

end ConfigManager.Refinement
