import ConfigManager.Library.Consecutive
import ConfigManager.Source.ConfigRuntime

/-!
# The walk runs the steps of a span

`runSteps` runs the migrations of a given list of steps, one after the other.
The engine's loop is `runSteps` on the span of the catalog from the config's
version to the target, for any registry. What a run of steps can do is said
once, in `runSteps_spec`.
-/

set_option autoImplicit false

namespace ConfigManager.Refinement
open Library Source

variable {σ : Type}

/-! ## The catalog as an ascending list -/

/-- A lookup at an entry's own version finds that entry. -/
theorem findEntry_of_split (catalog : VersionCatalog σ) (before rest : List (CatalogEntry σ))
    (entry : CatalogEntry σ) (split : catalog.entries = before ++ entry :: rest) :
    VersionCatalog.findEntry catalog.entries entry.version = entry :: rest := by
  have ascending := catalog.ascending
  rw [split, List.map_append, List.pairwise_append] at ascending
  have early : ∀ e ∈ before, decide (e.version < entry.version) = true := by
    intro e inside
    simpa using ascending.2.2 _ (List.mem_map_of_mem inside) entry.version (by simp)
  rw [VersionCatalog.findEntry, split, List.dropWhile_append_of_pos early]
  simp

theorem contains_iff (catalog : VersionCatalog σ) (v : VersionId) :
    catalog.contains v = true ↔
      ∃ before entry rest, catalog.entries = before ++ entry :: rest ∧ entry.version = v := by
  constructor
  · intro present
    obtain ⟨before, split, _⟩ := VersionCatalog.findEntry_split catalog.entries v
    unfold VersionCatalog.contains at present
    cases found : VersionCatalog.findEntry catalog.entries v with
    | nil => simp [found] at present
    | cons entry rest =>
      simp only [found, beq_iff_eq] at present
      exact ⟨before, entry, rest, by rw [split, found], present⟩
  · rintro ⟨before, entry, rest, split, rfl⟩
    unfold VersionCatalog.contains
    rw [findEntry_of_split catalog before rest entry split]
    simp

theorem nextVersion_of_split (catalog : VersionCatalog σ) (before rest : List (CatalogEntry σ))
    (first second : CatalogEntry σ)
    (split : catalog.entries = before ++ first :: second :: rest) :
    catalog.nextVersion first.version = .ok second.version := by
  unfold VersionCatalog.nextVersion
  rw [findEntry_of_split catalog before (second :: rest) first split]
  simp

theorem contains_iff_mem (catalog : VersionCatalog σ) (v : VersionId) :
    catalog.contains v = true ↔ v ∈ catalog.versions := by
  rw [contains_iff]
  constructor
  · rintro ⟨before, entry, rest, split, rfl⟩
    rw [VersionCatalog.versions, split]
    simp
  · intro inside
    obtain ⟨entry, member, same⟩ := List.mem_map.mp inside
    obtain ⟨before, rest, split⟩ := List.append_of_mem member
    exact ⟨before, entry, rest, split, same⟩

theorem nextVersion_iff (catalog : VersionCatalog σ) (v w : VersionId) :
    catalog.nextVersion v = .ok w ↔ (v, w) ∈ consecutive catalog.versions := by
  rw [mem_consecutive]
  constructor
  · intro found
    obtain ⟨before, split, _⟩ := VersionCatalog.findEntry_split catalog.entries v
    unfold VersionCatalog.nextVersion at found
    split at found
    · cases found
    · next entry rest located =>
      by_cases same : entry.version = v
      · cases rest with
        | nil => simp [same, fail] at found
        | cons next rest =>
          simp only [same, ne_eq, not_true_eq_false, if_false, Except.ok.injEq] at found
          refine ⟨before.map CatalogEntry.version, rest.map CatalogEntry.version, ?_⟩
          rw [VersionCatalog.versions, split, located, ← same, ← found]
          simp
      · simp [same, VersionCatalog.notRegisteredError, fail] at found
  · rintro ⟨before, rest, split⟩
    obtain ⟨early, late, entries, _, shape⟩ := List.map_eq_append_iff.mp split
    obtain ⟨first, later, rfl, rfl, shape⟩ := List.map_eq_cons_iff.mp shape
    obtain ⟨second, later, rfl, rfl, _⟩ := List.map_eq_cons_iff.mp shape
    exact nextVersion_of_split catalog early later first second entries

/-! ## Running steps -/

/-- The migrations of the steps, in order, until one fails. -/
def runSteps (registry : MigrationRegistry σ) :
    List (VersionId × VersionId) → VersionedConfig → World σ →
      Result Unit × VersionedConfig × World σ
  | [], config, world => (.ok (), config, world)
  | (source, target) :: steps, config, world =>
      match registry.findMigration source target with
      | .error e => (.error e, config, world)
      | .ok edge =>
          let (outcome, model, callbacks) :=
            edge.apply.run config.model source target world.callbacks
          let config := { config with model := model }
          let world : World σ := ⟨callbacks, world.events ++ [.migration source target outcome]⟩
          match outcome with
          | .threw what =>
              (fail .migrationFailed (bytes "migration " ++ MigrationEngine.stepName source target ++
                bytes " threw: " ++ what), config, world)
          | .threwOther =>
              (fail .migrationFailed (bytes "migration " ++ MigrationEngine.stepName source target ++
                bytes " threw a non-standard exception"), config, world)
          | .returned (.error e) =>
              (fail .migrationFailed (bytes "migration " ++ MigrationEngine.stepName source target ++
                bytes " failed: " ++ errorCodeName e.code ++ bytes ": " ++ e.message),
                config, world)
          | .returned (.ok ()) =>
              runSteps registry steps { config with version := target } world

/-- The engine's loop is a run of the catalog's steps up to the target. -/
theorem walk_eq_runSteps (catalog : VersionCatalog σ) (registry : MigrationRegistry σ)
    (target : VersionId) (registered : target ∈ catalog.versions) (version : VersionId)
    (inside : version ∈ catalog.versions) (bound : version ≤ target) (config : VersionedConfig)
    (world : World σ) :
    MigrationEngine.walk catalog registry target version config world =
      runSteps registry (span version target catalog.versions) config world := by
  have ascending : catalog.versions.Pairwise (· < ·) := catalog.ascending
  revert config world
  refine descending_induction catalog.versions ascending target registered ?_ ?_ version inside bound
  · intro config world
    rw [MigrationEngine.walk, if_neg (lt_irrefl _), span_self _ ascending target registered]
    rfl
  · intro version next step bound later config world
    have below := lt_of_lt_of_le (consecutive_lt _ ascending version next step) bound
    have follows := (nextVersion_iff catalog version next).mpr step
    rw [MigrationEngine.walk, if_pos below, span_step _ ascending version next target step bound,
      runSteps]
    split
    · next e failed =>
      rw [follows] at failed
      cases failed
    · next found success =>
      rw [follows, Except.ok.injEq] at success
      subst success
      cases registry.findMigration version next with
      | error e => rfl
      | ok edge =>
        cases called : edge.apply.run config.model version next world.callbacks with
        | mk outcome after =>
          simp only [called]
          cases outcome with
          | threw what => rfl
          | threwOther => rfl
          | returned result =>
            cases result with
            | error e => rfl
            | ok u => exact later _ _

/-- Between registered versions `migrate` runs the steps of the span. -/
theorem migrate_eq_runSteps (catalog : VersionCatalog σ) (registry : MigrationRegistry σ)
    (config : VersionedConfig) (target : VersionId) (world : World σ)
    (start : catalog.contains config.version = true) (known : catalog.contains target = true)
    (bound : config.version ≤ target) :
    MigrationEngine.migrate catalog registry config target world =
      runSteps registry (span config.version target catalog.versions) config world := by
  have walked := walk_eq_runSteps catalog registry target ((contains_iff_mem _ _).mp known)
    config.version ((contains_iff_mem _ _).mp start) bound config world
  rw [MigrationEngine.migrate, known, Bool.not_true, if_neg (by simp), if_neg (not_lt.mpr bound),
    walked]

/-! ## What a run of steps does -/

/-- The migrations of the steps were applied, each once and in order, each successfully. -/
inductive Applied (registry : MigrationRegistry σ) :
    List (VersionId × VersionId) → ConfigModel × σ → ConfigModel × σ → Prop where
  | none (start : ConfigModel × σ) : Applied registry [] start start
  | step (source target : VersionId) (steps : List (VersionId × VersionId))
      (edge : MigrationEdge σ) (m m' : ConfigModel) (state state' : σ) (last : ConfigModel × σ)
      (found : registry.findMigration source target = .ok edge)
      (ran : edge.apply.run m source target state = (.returned (.ok ()), m', state'))
      (later : Applied registry steps (m', state') last) :
      Applied registry ((source, target) :: steps) (m, state) last

/-- The record of a migration that succeeded. -/
def ranEvent (step : VersionId × VersionId) : Event :=
  .migration step.1 step.2 (.returned (.ok ()))

/-- A call that threw or returned an error. -/
def CallFailed : CallOutcome (Result Unit) → Prop
  | .returned (.ok ()) => False
  | _ => True

/-- How a run of steps ended with an error after the steps before were applied: the edge of the
next step is missing, or its callback ran and failed. The lists hold the call and its record. -/
inductive Stopped (registry : MigrationRegistry σ) (source target : VersionId) (e : Error) :
    ConfigModel × σ → List (VersionId × VersionId) → List Event → ConfigModel × σ → Prop where
  | missing (at_ : ConfigModel × σ) (absent : registry.findMigration source target = .error e) :
      Stopped registry source target e at_ [] [] at_
  | failed (edge : MigrationEdge σ) (outcome : CallOutcome (Result Unit)) (m m' : ConfigModel)
      (state state' : σ) (found : registry.findMigration source target = .ok edge)
      (ran : edge.apply.run m source target state = (outcome, m', state'))
      (callFailed : CallFailed outcome) (code : e.code = .migrationFailed) :
      Stopped registry source target e (m, state) [(source, target)]
        [.migration source target outcome] (m', state')

/-- The run applied the steps in front of one that stopped it. -/
def Interrupted (registry : MigrationRegistry σ) (steps : List (VersionId × VersionId))
    (config config' : VersionedConfig) (world world' : World σ) (answer : Result Unit) : Prop :=
  ∃ done source target rest e middle called events,
    steps = done ++ (source, target) :: rest ∧ answer = .error e ∧
    Applied registry done (config.model, world.callbacks) middle ∧
    Stopped registry source target e middle called events (config'.model, world'.callbacks) ∧
    config'.version = done.foldl (fun _ step => step.2) config.version ∧
    world'.events = world.events ++ done.map ranEvent ++ events

section
variable {registry : MigrationRegistry σ} {source target : VersionId}
  {steps : List (VersionId × VersionId)} {config config' : VersionedConfig} {world world' : World σ}
  {answer : Result Unit} {edge : MigrationEdge σ} {model : ConfigModel} {callbacks : σ}
  (found : registry.findMigration source target = .ok edge)
include found

/-- A failing callback ends the run with one event. -/
theorem Interrupted.failing {outcome : CallOutcome (Result Unit)} (message : Bytes)
    (called : edge.apply.run config.model source target world.callbacks =
      (outcome, model, callbacks))
    (failed : CallFailed outcome)
    (ends : (fail .migrationFailed message, { config with model := model },
      (⟨callbacks, world.events ++ [.migration source target outcome]⟩ : World σ)) =
        (answer, config', world')) :
    Interrupted registry ((source, target) :: steps) config config' world world' answer := by
  simp only [fail, Prod.mk.injEq] at ends
  obtain ⟨rfl, rfl, rfl⟩ := ends
  exact ⟨[], source, target, steps, _, _, _, _, rfl, rfl, .none _,
    .failed edge outcome _ _ _ _ found called failed rfl, rfl, by simp⟩

/-- A step that succeeds comes before what interrupts the run later. -/
theorem Interrupted.after
    (called : edge.apply.run config.model source target world.callbacks =
      (.returned (.ok ()), model, callbacks))
    (later : Interrupted registry steps ⟨target, model⟩ config'
      ⟨callbacks, world.events ++ [.migration source target (.returned (.ok ()))]⟩ world' answer) :
    Interrupted registry ((source, target) :: steps) config config' world world' answer := by
  obtain ⟨done, source', target', rest, e, middle, call, more, shape, failed, applied, stop, version,
    events⟩ := later
  refine ⟨(source, target) :: done, source', target', rest, e, middle, call, more,
    by rw [shape, List.cons_append], failed,
    .step source target done edge _ _ _ _ _ found called applied, stop, version, ?_⟩
  rw [events, List.map_cons]
  simp [ranEvent]

end

/-- A run of steps either applied them all, or stopped at one. -/
theorem runSteps_spec (registry : MigrationRegistry σ) (steps : List (VersionId × VersionId))
    (config config' : VersionedConfig) (world world' : World σ) (answer : Result Unit)
    (ran : runSteps registry steps config world = (answer, config', world')) :
    (answer = .ok () ∧
        Applied registry steps (config.model, world.callbacks) (config'.model, world'.callbacks) ∧
        config'.version = steps.foldl (fun _ step => step.2) config.version ∧
        world'.events = world.events ++ steps.map ranEvent) ∨
      Interrupted registry steps config config' world world' answer := by
  induction steps generalizing config world with
  | nil =>
    simp only [runSteps, Prod.mk.injEq] at ran
    obtain ⟨rfl, rfl, rfl⟩ := ran
    exact .inl ⟨rfl, .none _, rfl, by simp⟩
  | cons step steps ih =>
    obtain ⟨source, target⟩ := step
    rw [runSteps] at ran
    cases found : registry.findMigration source target with
    | error e =>
      simp only [found, Prod.mk.injEq] at ran
      obtain ⟨rfl, rfl, rfl⟩ := ran
      exact .inr ⟨[], source, target, steps, e, _, [], [], rfl, rfl, .none _, .missing _ found, rfl,
        by simp⟩
    | ok edge =>
      simp only [found] at ran
      cases called : edge.apply.run config.model source target world.callbacks with
      | mk outcome rest =>
        obtain ⟨model, callbacks⟩ := rest
        simp only [called] at ran
        cases outcome with
        | threw what => exact .inr (.failing found _ called trivial ran)
        | threwOther => exact .inr (.failing found _ called trivial ran)
        | returned result =>
          cases result with
          | error e => exact .inr (.failing found _ called trivial ran)
          | ok u =>
            rcases ih _ _ ran with ⟨success, applied, version, events⟩ | later
            · refine .inl ⟨success, .step source target steps edge _ _ _ _ _ found called applied, version,
                ?_⟩
              rw [events, List.map_cons, List.append_assoc]
              rfl
            · exact .inr (.after found called later)

/-- A run of steps in two parts is one run after the other. -/
theorem runSteps_append (registry : MigrationRegistry σ) (first last : List (VersionId × VersionId))
    (config : VersionedConfig) (world : World σ) :
    runSteps registry (first ++ last) config world =
      match runSteps registry first config world with
      | (.ok (), config, world) => runSteps registry last config world
      | stopped => stopped := by
  induction first generalizing config world with
  | nil => rfl
  | cons step first ih =>
    obtain ⟨source, target⟩ := step
    rw [List.cons_append, runSteps, runSteps]
    cases registry.findMigration source target with
    | error e => rfl
    | ok edge =>
      cases called : edge.apply.run config.model source target world.callbacks with
      | mk outcome rest =>
        simp only [called]
        cases outcome with
        | threw what => rfl
        | threwOther => rfl
        | returned result =>
          cases result with
          | error e => rfl
          | ok u => exact ih _ _

theorem runSteps_reachable (registry : MigrationRegistry σ) (steps : List (VersionId × VersionId))
    (config : VersionedConfig) (world : World σ) (reached : Reachable config.model) :
    Reachable (runSteps registry steps config world).2.1.model := by
  induction steps generalizing config world with
  | nil => exact reached
  | cons step steps ih =>
    obtain ⟨source, target⟩ := step
    rw [runSteps]
    cases registry.findMigration source target with
    | error e => exact reached
    | ok edge =>
      have closed := edge.apply.closed config.model source target world.callbacks reached
      simp only []
      split
      · exact closed
      · exact closed
      · exact closed
      · exact ih _ _ closed

end ConfigManager.Refinement
