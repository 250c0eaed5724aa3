import ConfigManager.Guarantees.Synchronization

/-!
# Direct migration

`MigrationEngine::migrate` for any catalog, any registry, validated or not, and
arbitrary callbacks: which callbacks run, where the config ends up, when it is
left alone, and that a migration can be interrupted at any registered version.
The loop is total because the catalog is ascending.
-/

set_option autoImplicit false

namespace ConfigManager.Guarantees
open Library Source Reference Refinement

variable {σ : Type}

/-- The target is not registered, or below the config, or the config's own version is not
registered and would have to be left. -/
def NoMigration (catalog : VersionCatalog σ) (version target : VersionId) : Prop :=
  catalog.contains target = false ∨ target < version ∨
    (version < target ∧ catalog.contains version = false)

theorem nextVersion_unregistered (catalog : VersionCatalog σ) (v : VersionId)
    (unknown : catalog.contains v = false) :
    catalog.nextVersion v = VersionCatalog.notRegisteredError v := by
  unfold VersionCatalog.contains at unknown
  unfold VersionCatalog.nextVersion
  cases found : VersionCatalog.findEntry catalog.entries v with
  | nil => rfl
  | cons entry rest =>
    simp only [found, beq_eq_false_iff_ne] at unknown
    simp only [if_pos unknown]

/-- A walk from a version that is not registered does nothing. -/
theorem walk_unregistered (catalog : VersionCatalog σ) (registry : MigrationRegistry σ)
    (target version : VersionId) (config : VersionedConfig) (world : World σ)
    (below : version < target) (unknown : catalog.contains version = false) :
    MigrationEngine.walk catalog registry target version config world =
      (VersionCatalog.notRegisteredError version, config, world) := by
  have next : catalog.nextVersion version = VersionCatalog.notRegisteredError version :=
    nextVersion_unregistered catalog version unknown
  rw [MigrationEngine.walk, if_pos below]
  split
  · next e failed =>
    rw [next] at failed
    cases failed
    rfl
  · next found success =>
    rw [next] at success
    cases success

theorem migrate_refused (catalog : VersionCatalog σ) (registry : MigrationRegistry σ)
    (config : VersionedConfig) (target : VersionId) (world : World σ)
    (refused : NoMigration catalog config.version target) :
    ∃ e, MigrationEngine.migrate catalog registry config target world =
      (.error e, config, world) := by
  unfold MigrationEngine.migrate
  by_cases known : catalog.contains target = true
  · rw [known, Bool.not_true, if_neg (by simp)]
    by_cases above : config.version > target
    · rw [if_pos above]
      exact ⟨_, rfl⟩
    · rw [if_neg above]
      rcases refused with unknown | below | ⟨below, unknown⟩
      · simp [known] at unknown
      · exact absurd below above
      · exact ⟨_, walk_unregistered catalog registry target _ config world below unknown⟩
  · rw [Bool.not_eq_true] at known
    rw [known, Bool.not_false, if_pos rfl]
    exact ⟨_, rfl⟩

/-- Otherwise the steps of the span between two registered versions are run. -/
theorem migrate_steps (catalog : VersionCatalog σ) (registry : MigrationRegistry σ)
    (config : VersionedConfig) (target : VersionId) (world : World σ)
    (accepted : ¬ NoMigration catalog config.version target) :
    config.version ∈ catalog.versions ∧ target ∈ catalog.versions ∧ config.version ≤ target ∧
      MigrationEngine.migrate catalog registry config target world =
        runSteps registry (span config.version target catalog.versions) config world := by
  have known : catalog.contains target = true := by
    by_contra unknown
    exact accepted (.inl (Bool.not_eq_true _ ▸ unknown))
  have bound : config.version ≤ target := not_lt.mp fun below => accepted (.inr (.inl below))
  have start : catalog.contains config.version = true := by
    rcases lt_or_eq_of_le bound with below | same
    · by_contra unknown
      exact accepted (.inr (.inr ⟨below, Bool.not_eq_true _ ▸ unknown⟩))
    · rw [same]
      exact known
  exact ⟨(contains_iff_mem _ _).mp start, (contains_iff_mem _ _).mp known, bound,
    migrate_eq_runSteps catalog registry config target world start known bound⟩

theorem findMigration_edge (registry : MigrationRegistry σ) (source target : VersionId)
    (edge : MigrationEdge σ) (found : registry.findMigration source target = .ok edge) :
    edge ∈ registry.edges ∧ edge.source = source ∧ edge.target = target := by
  unfold MigrationRegistry.findMigration at found
  cases search : registry.edges.find? (MigrationEdge.joins source target) with
  | none => simp [search, MigrationRegistry.missingError, fail] at found
  | some first =>
    simp only [search, Except.ok.injEq] at found
    subst found
    have joins := List.find?_some search
    simp only [MigrationEdge.joins, Bool.and_eq_true, beq_iff_eq] at joins
    exact ⟨List.mem_of_find?_eq_some search, joins.1, joins.2⟩

/-- The step has an edge of its own in the registry, which is the one that is found. -/
def HasEdge (registry : MigrationRegistry σ) (step : VersionId × VersionId) : Prop :=
  ∃ edge ∈ registry.edges, edge.source = step.1 ∧ edge.target = step.2 ∧
    registry.findMigration step.1 step.2 = .ok edge

theorem applied_edges (registry : MigrationRegistry σ) (steps : List (VersionId × VersionId))
    (first last : ConfigModel × σ) (applied : Applied registry steps first last) :
    ∀ step ∈ steps, HasEdge registry step := by
  induction applied with
  | none start => simp
  | step source target steps edge m m' state state' last found ran later ih =>
    obtain ⟨member, same, same'⟩ := findMigration_edge registry source target edge found
    exact List.forall_mem_cons.mpr ⟨⟨edge, member, same, same', found⟩, ih⟩

/-- How a migration ended after the steps that succeeded, with the call that failed, if any. -/
inductive Ending (registry : MigrationRegistry σ) (target : VersionId) : Result Unit →
    VersionId → ConfigModel × σ → List (VersionId × VersionId) → List Event →
      ConfigModel × σ → Prop where
  | arrived (here : ConfigModel × σ) : Ending registry target (.ok ()) target here [] [] here
  | refused (e : Error) (version : VersionId) (here : ConfigModel × σ) :
      Ending registry target (.error e) version here [] [] here
  | failed (e : Error) (version source next : VersionId) (edge : MigrationEdge σ)
      (outcome : CallOutcome (Result Unit)) (m m' : ConfigModel) (state state' : σ)
      (found : registry.findMigration source next = .ok edge)
      (ran : edge.apply.run m source next state = (outcome, m', state'))
      (callFailed : CallFailed outcome) (code : e.code = .migrationFailed) :
      Ending registry target (.error e) version (m, state) [(source, next)]
        [.migration source next outcome] (m', state')

theorem ending_edges (registry : MigrationRegistry σ) (target version : VersionId)
    (answer : Result Unit) (first last : ConfigModel × σ) (called : List (VersionId × VersionId))
    (events : List Event) (ending : Ending registry target answer version first called events last) :
    ∀ step ∈ called, HasEdge registry step := by
  cases ending with
  | arrived here => simp
  | refused e version here => simp
  | failed e version source next edge outcome m m' state state' found ran callFailed code =>
    obtain ⟨member, same, same'⟩ := findMigration_edge registry source next edge found
    exact List.forall_mem_singleton.mpr ⟨edge, member, same, same', found⟩

/-- The callbacks that ran: those of `done`, each successfully and on what the one before left,
then at most one that failed. -/
structure Migrated (catalog : VersionCatalog σ) (registry : MigrationRegistry σ)
    (target : VersionId) (config config' : VersionedConfig) (world world' : World σ)
    (answer : Result Unit) (done called : List (VersionId × VersionId)) (events : List Event)
    (middle : ConfigModel × σ) : Prop where
  climbs : Climbs config.version (done ++ called)
  once : (done ++ called).Nodup
  adjacent : ∀ step ∈ done ++ called, step ∈ consecutive catalog.versions
  edges : ∀ step ∈ done ++ called, HasEdge registry step
  applied : Applied registry done (config.model, world.callbacks) middle
  landed : config'.version = done.foldl (fun _ step => step.2) config.version
  recorded : world'.events = world.events ++ done.map ranEvent ++ events
  ending : Ending registry target answer config'.version middle called events
    (config'.model, world'.callbacks)

theorem Migrated.lands {catalog : VersionCatalog σ} {registry : MigrationRegistry σ}
    {target : VersionId} {config config' : VersionedConfig} {world world' : World σ}
    {done called : List (VersionId × VersionId)} {events : List Event} {middle : ConfigModel × σ}
    (migrated : Migrated catalog registry target config config' world world' (.ok ()) done called
      events middle) : config'.version = target := by
  generalize version : config'.version = v
  have ending := migrated.ending
  rw [version] at ending
  cases ending with
  | arrived => rfl

theorem migrate_migrated (catalog : VersionCatalog σ) (registry : MigrationRegistry σ)
    (config config' : VersionedConfig) (target : VersionId) (world world' : World σ)
    (answer : Result Unit)
    (ran : MigrationEngine.migrate catalog registry config target world =
      (answer, config', world')) :
    ∃ done called events middle, Migrated catalog registry target config config' world world'
      answer done called events middle := by
  by_cases refused : NoMigration catalog config.version target
  · obtain ⟨e, failed⟩ := migrate_refused catalog registry config target world refused
    rw [failed, Prod.mk.injEq, Prod.mk.injEq] at ran
    obtain ⟨rfl, rfl, rfl⟩ := ran
    exact ⟨[], [], [], _, .done _, by simp, by simp, by simp, .none _, rfl, by simp,
      .refused e _ _⟩
  · obtain ⟨start, inside, bound, steps⟩ :=
      migrate_steps catalog registry config target world refused
    have ascending : catalog.versions.Pairwise (· < ·) := catalog.ascending
    have climbs : Climbs config.version (span config.version target catalog.versions) :=
      span_climbs _ ascending target inside config.version start bound
    have adjacent := span_subset catalog.versions config.version target ascending
    rw [ran] at steps
    rcases runSteps_spec registry _ config config' world world' answer steps.symm with
      ⟨rfl, applied, landed, recorded⟩ |
        ⟨done, source, next, later, e, middle, called, events, whole, rfl, applied, stop, landed,
          recorded⟩
    · have last : config'.version = target := by
        rw [landed]
        exact span_end _ ascending target inside config.version start bound
      refine ⟨span config.version target catalog.versions, [], [], (config'.model, world'.callbacks), ?_⟩
      refine { climbs := by rwa [List.append_nil], once := by simpa using climbs.nodup,
               adjacent := by simpa using adjacent, edges := ?_, applied := applied,
               landed := landed, recorded := by simpa using recorded, ending := ?_ }
      · rw [List.append_nil]
        exact applied_edges registry _ _ _ applied
      · rw [last]
        exact .arrived _
    · rw [whole] at climbs adjacent
      have ending : Ending registry target (.error e) config'.version middle called events
          (config'.model, world'.callbacks) ∧ (called = [] ∨ called = [(source, next)]) := by
        cases stop with
        | missing _ missing => exact ⟨.refused e _ _, .inl rfl⟩
        | failed edge outcome m m' state state' found ran callFailed code =>
          exact ⟨.failed e _ source next edge outcome _ _ _ _ found ran callFailed code, .inr rfl⟩
      obtain ⟨ending, call⟩ := ending
      -- What was called is the beginning of the span.
      obtain ⟨tail, begins⟩ : ∃ tail, done ++ (source, next) :: later = done ++ called ++ tail := by
        rcases call with rfl | rfl
        · exact ⟨(source, next) :: later, by simp⟩
        · exact ⟨later, by simp⟩
      rw [begins] at climbs adjacent
      have climbed := climbs.of_append _ tail
      refine ⟨done, called, events, middle, climbed, climbed.nodup,
        fun step inside => adjacent step (List.mem_append_left _ inside), ?_, applied, landed,
        recorded, ending⟩
      intro step inside
      rcases List.mem_append.mp inside with early | last
      · exact applied_edges registry _ _ _ applied step early
      · exact ending_edges registry _ _ _ _ _ _ _ ending step last

/-- A migration can stop at any registered version on its way and go on from there. -/
theorem migrate_through (catalog : VersionCatalog σ) (registry : MigrationRegistry σ)
    (config : VersionedConfig) (target stop : VersionId) (world : World σ)
    (low : config.version ≤ stop) (high : stop ≤ target)
    (known : catalog.contains stop = true) (registered : catalog.contains target = true) :
    MigrationEngine.migrate catalog registry config target world =
      match MigrationEngine.migrate catalog registry config stop world with
      | (.ok (), config, world) => MigrationEngine.migrate catalog registry config target world
      | stopped => stopped := by
  by_cases refused : NoMigration catalog config.version stop
  · rcases refused with unknown | above | ⟨below, unknown⟩
    · simp [known] at unknown
    · exact absurd low (not_le_of_gt above)
    · -- Neither migration gets away from a version that is not registered.
      have below' : config.version < target := lt_of_lt_of_le below high
      rw [MigrationEngine.migrate, registered, Bool.not_true, if_neg (by simp),
        if_neg (not_lt.mpr (le_of_lt below')),
        walk_unregistered catalog registry target _ config world below' unknown]
      rw [MigrationEngine.migrate, known, Bool.not_true, if_neg (by simp),
        if_neg (not_lt.mpr low), walk_unregistered catalog registry stop _ config world below unknown]
      rfl
  · obtain ⟨start, inside, _, first⟩ := migrate_steps catalog registry config stop world refused
    have ascending : catalog.versions.Pairwise (· < ·) := catalog.ascending
    have accepted : ¬ NoMigration catalog config.version target := by
      rintro (unknown | above | ⟨_, unknown⟩)
      · simp [registered] at unknown
      · exact absurd (le_trans low high) (not_le_of_gt above)
      · have present := (contains_iff_mem catalog config.version).mpr start
        simp [present] at unknown
    obtain ⟨_, _, _, whole⟩ := migrate_steps catalog registry config target world accepted
    have steps : span config.version target catalog.versions =
        span config.version stop catalog.versions ++ span stop target catalog.versions :=
      span_append _ ascending stop target inside high config.version start low
    rw [whole, steps, runSteps_append, first]
    cases ran : runSteps registry (span config.version stop catalog.versions) config world with
    | mk answer later =>
      obtain ⟨config', world'⟩ := later
      cases answer with
      | error e => rfl
      | ok u =>
        have version : config'.version = stop := by
          rcases runSteps_spec registry _ config config' world world' _ ran with
            ⟨_, _, landed, _⟩ | ⟨_, _, _, _, _, _, _, _, _, failed, _⟩
          · rw [landed]
            exact span_end _ ascending stop inside config.version start low
          · cases failed
        have onward : ¬ NoMigration catalog config'.version target := by
          rw [version]
          rintro (unknown | above | ⟨_, unknown⟩)
          · simp [registered] at unknown
          · exact absurd high (not_le_of_gt above)
          · simp [known] at unknown
        obtain ⟨_, _, _, last⟩ := migrate_steps catalog registry config' target world' onward
        simp only
        rw [last, version]

/-- Every direct migration calls the migrations of neighbouring versions upwards from the config's
own, at most one of which fails, and leaves the config at the target of the last that succeeded;
it leaves the config alone where there is nothing to migrate, and can be cut in two at any
registered version. -/
theorem migrate_lands (catalog : VersionCatalog σ) (registry : MigrationRegistry σ)
    (config config' : VersionedConfig) (target : VersionId) (world world' : World σ)
    (answer : Result Unit)
    (ran : MigrationEngine.migrate catalog registry config target world =
      (answer, config', world')) :
    (∃ done called events middle, Migrated catalog registry target config config' world world'
      answer done called events middle) ∧
    (answer = .ok () → config'.version = target) ∧
    (NoMigration catalog config.version target →
      (∃ e, answer = .error e) ∧ config' = config ∧ world' = world) ∧
    ∀ stop, config.version ≤ stop → stop ≤ target → catalog.contains stop = true →
      catalog.contains target = true →
      MigrationEngine.migrate catalog registry config target world =
        match MigrationEngine.migrate catalog registry config stop world with
        | (.ok (), config, world) => MigrationEngine.migrate catalog registry config target world
        | stopped => stopped := by
  obtain ⟨done, called, events, middle, migrated⟩ :=
    migrate_migrated catalog registry config config' target world world' answer ran
  refine ⟨⟨done, called, events, middle, migrated⟩, ?_, ?_, ?_⟩
  · rintro rfl
    exact migrated.lands
  · intro refused
    obtain ⟨e, failed⟩ := migrate_refused catalog registry config target world refused
    rw [failed, Prod.mk.injEq, Prod.mk.injEq] at ran
    obtain ⟨rfl, rfl, rfl⟩ := ran
    exact ⟨⟨e, rfl⟩, rfl, rfl⟩
  · intro stop low high known registered
    exact migrate_through catalog registry config target stop world low high known registered

/-- From version 1 to version 2 over the one migration between them. -/
theorem twoVersions_migrate :
    (MigrationEngine.migrate twoVersions.catalog twoVersions.registry ⟨1, ConfigModel.empty⟩ 2
      ⟨(), []⟩).2.1.version = 2 :=
  (migrate_lands twoVersions.catalog twoVersions.registry ⟨1, ConfigModel.empty⟩ _ 2 ⟨(), []⟩ _ _
    rfl).2.1 (by decide +kernel)

end ConfigManager.Guarantees
