import ConfigManager.Refinement.MigrationWalk

/-!
# Registering versions and migrations

A setup is a catalog and a registry that are filled by calls in any order. The
lookups of the catalog are statements about the list of its versions, and what
`ConfigRuntime::create` answers is a function of the accepted versions and edges.
-/

set_option autoImplicit false

namespace ConfigManager.Refinement
open Library Source

variable {σ : Type}

/-! ## Lookups as statements about the list of versions -/

theorem latestVersion_iff (catalog : VersionCatalog σ) (v : VersionId) :
    catalog.latestVersion = .ok v ↔ catalog.versions.getLast? = some v := by
  unfold VersionCatalog.latestVersion VersionCatalog.versions
  rw [List.getLast?_map]
  cases catalog.entries.getLast? with
  | none => simp [fail]
  | some entry => simp

/-! ## One call -/

/-- What a call of `registerVersion` can do. -/
theorem registerVersion_cases (catalog : VersionCatalog σ) (artifact : VersionArtifact σ) :
    (∃ e, catalog.registerVersion artifact = (.error e, catalog) ∧
      (artifact.defaultFactory = none ∨ artifact.version ∈ catalog.versions)) ∨
    ∃ after, catalog.registerVersion artifact = (.ok (), after) ∧
      artifact.defaultFactory.isSome = true ∧ artifact.version ∉ catalog.versions ∧
      after.versions.Perm (artifact.version :: catalog.versions) := by
  have known := contains_iff_mem catalog artifact.version
  unfold VersionCatalog.registerVersion
  split
  · next empty => exact .inl ⟨_, rfl, .inl empty⟩
  · next factory given =>
    split
    · next present =>
      refine .inl ⟨_, rfl, .inr (known.mp ?_)⟩
      obtain ⟨entry, head, same⟩ := present
      unfold VersionCatalog.contains
      cases found : VersionCatalog.findEntry catalog.entries artifact.version with
      | nil => simp [found] at head
      | cons first rest =>
        simp only [found, List.head?_cons, Option.mem_def, Option.some.injEq] at head
        simp [head, same]
    · next absent =>
      refine .inr ⟨_, rfl, by rw [given, Option.isSome_some], ?_, ?_⟩
      · intro inside
        have located := known.mpr inside
        unfold VersionCatalog.contains at located
        split at located
        · cases located
        · next entry rest found =>
          exact absent ⟨entry, by simp [found], by simpa using located⟩
      · have split : catalog.entries =
            (catalog.entries.takeWhile fun entry => decide (entry.version < artifact.version)) ++
              VersionCatalog.findEntry catalog.entries artifact.version :=
          List.takeWhile_append_dropWhile.symm
        have moved : (catalog.entries.takeWhile
              (fun entry => decide (entry.version < artifact.version)) ++
            (⟨artifact.version, factory⟩ : CatalogEntry σ) ::
              VersionCatalog.findEntry catalog.entries artifact.version).Perm
            (⟨artifact.version, factory⟩ :: catalog.entries) := by
          conv => rhs; rw [split]
          exact List.perm_middle
        exact moved.map CatalogEntry.version

/-- The two versions an edge joins. -/
def edgePair (edge : MigrationEdge σ) : VersionId × VersionId := (edge.source, edge.target)

theorem any_joins_iff (edges : List (MigrationEdge σ)) (source target : VersionId) :
    edges.any (MigrationEdge.joins source target) = true ↔
      (source, target) ∈ edges.map edgePair := by
  simp [MigrationEdge.joins, edgePair]

theorem registerMigration_cases (registry : MigrationRegistry σ) (source target : VersionId)
    (fn : Option (MigrationFn σ)) :
    (∃ e, registry.registerMigration source target fn = (.error e, registry) ∧
      (fn = none ∨ (source, target) ∈ registry.edges.map edgePair)) ∨
    ∃ after, registry.registerMigration source target fn = (.ok (), after) ∧
      fn.isSome = true ∧ (source, target) ∉ registry.edges.map edgePair ∧
      after.edges.map edgePair = registry.edges.map edgePair ++ [(source, target)] := by
  have known := any_joins_iff registry.edges source target
  unfold MigrationRegistry.registerMigration
  cases fn with
  | none => exact .inl ⟨_, rfl, .inl rfl⟩
  | some fn =>
    by_cases present : registry.edges.any (MigrationEdge.joins source target) = true
    · simp only [if_pos present]
      exact .inl ⟨_, rfl, .inr (known.mp present)⟩
    · simp only [if_neg present]
      refine .inr ⟨_, rfl, rfl, fun inside => present (known.mpr inside), ?_⟩
      rw [List.map_append]
      rfl

/-! ## Validation -/

/-- The first loop stops at an edge that joins no neighbours, if there is one. -/
theorem validateEdges_cases (catalog : VersionCatalog σ) (edges : List (MigrationEdge σ)) :
    (MigrationRegistry.validateEdges catalog edges = .ok () ∧
      ∀ pair ∈ edges.map edgePair, pair ∈ consecutive catalog.versions) ∨
    ∃ e, MigrationRegistry.validateEdges catalog edges = .error e ∧ e.code = .invalidVersion ∧
      ∃ pair ∈ edges.map edgePair, pair ∉ consecutive catalog.versions := by
  induction edges with
  | nil => exact .inl ⟨rfl, by simp⟩
  | cons edge rest ih =>
    have adjacent := nextVersion_iff catalog edge.source edge.target
    by_cases joined : edgePair edge ∈ consecutive catalog.versions
    · have next := adjacent.mpr joined
      obtain ⟨before, later, split⟩ := (mem_consecutive _ _).mp joined
      have lower : catalog.contains edge.source = true :=
        (contains_iff_mem _ _).mpr (by rw [split]; simp [edgePair])
      have upper : catalog.contains edge.target = true :=
        (contains_iff_mem _ _).mpr (by rw [split]; simp [edgePair])
      have passed : MigrationRegistry.validateEdges catalog (edge :: rest) =
          MigrationRegistry.validateEdges catalog rest := by
        simp [MigrationRegistry.validateEdges, lower, upper, next]
      rw [passed]
      rcases ih with ⟨valid, all⟩ | ⟨e, failed, code, pair, inside, apart⟩
      · exact .inl ⟨valid, by simpa [joined] using all⟩
      · exact .inr ⟨e, failed, code, pair, by simp [inside], apart⟩
    · refine .inr ?_
      have witness : ∃ pair ∈ (edge :: rest).map edgePair, pair ∉ consecutive catalog.versions :=
        ⟨edgePair edge, by simp, joined⟩
      rw [MigrationRegistry.validateEdges]
      split
      · exact ⟨_, rfl, rfl, witness⟩
      · split
        · exact ⟨_, rfl, rfl, witness⟩
        · next found next =>
          by_cases same : found = edge.target
          · exact absurd (adjacent.mp (same ▸ next)) joined
          · simp only [ne_eq, same, not_false_eq_true, if_true]
            exact ⟨_, rfl, rfl, witness⟩

/-- The second loop stops at neighbours without an edge, if there are any. -/
theorem validateChain_cases (edges : List (MigrationEdge σ)) (versions : List VersionId) :
    (MigrationRegistry.validateChain edges versions = .ok () ∧
      ∀ pair ∈ consecutive versions, pair ∈ edges.map edgePair) ∨
    ∃ e, MigrationRegistry.validateChain edges versions = .error e ∧ e.code = .missingMigration ∧
      ∃ pair ∈ consecutive versions, pair ∉ edges.map edgePair := by
  induction versions with
  | nil => exact .inl ⟨rfl, by simp [consecutive]⟩
  | cons a rest ih =>
    cases rest with
    | nil => exact .inl ⟨rfl, by simp⟩
    | cons b rest =>
      rw [MigrationRegistry.validateChain, consecutive_cons_cons]
      have known := any_joins_iff edges a b
      by_cases joined : edges.any (MigrationEdge.joins a b) = true
      · rw [if_pos joined]
        rcases ih with ⟨valid, all⟩ | ⟨e, failed, code, pair, inside, apart⟩
        · exact .inl ⟨valid, List.forall_mem_cons.mpr ⟨known.mp joined, all⟩⟩
        · exact .inr ⟨e, failed, code, pair, List.mem_cons_of_mem _ inside, apart⟩
      · rw [if_neg joined]
        exact .inr ⟨_, rfl, rfl, (a, b), List.mem_cons_self, fun inside => joined (known.mpr inside)⟩

/-- What `create` can answer, as statements about the versions and the edges. -/
theorem create_cases (catalog : VersionCatalog σ) (registry : MigrationRegistry σ) :
    (ConfigRuntime.create catalog registry = .ok ⟨catalog, registry⟩ ∧ catalog.versions ≠ [] ∧
      ∀ pair, pair ∈ registry.edges.map edgePair ↔ pair ∈ consecutive catalog.versions) ∨
    (∃ e, ConfigRuntime.create catalog registry = .error e ∧ e.code = .invalidVersion ∧
      (catalog.versions = [] ∨
        ∃ pair ∈ registry.edges.map edgePair, pair ∉ consecutive catalog.versions)) ∨
    ∃ e, ConfigRuntime.create catalog registry = .error e ∧ e.code = .missingMigration ∧
      catalog.versions ≠ [] ∧
      (∀ pair ∈ registry.edges.map edgePair, pair ∈ consecutive catalog.versions) ∧
      ∃ pair ∈ consecutive catalog.versions, pair ∉ registry.edges.map edgePair := by
  unfold ConfigRuntime.create MigrationRegistry.validate
  by_cases empty : catalog.versions = []
  · exact .inr (.inl ⟨_, by rw [empty]; rfl, rfl, .inl empty⟩)
  · have occupied : catalog.versions.isEmpty = false := by simpa using empty
    rw [occupied, if_neg Bool.false_ne_true]
    rcases validateEdges_cases catalog registry.edges with
      ⟨valid, adjacent⟩ | ⟨e, failed, code, bad⟩
    · rcases validateChain_cases registry.edges catalog.versions with
        ⟨chained, complete⟩ | ⟨e, failed, code, gap⟩
      · refine .inl ⟨?_, empty, fun pair => ⟨adjacent pair, complete pair⟩⟩
        simp only [valid, chained]
      · simp only [valid, failed]
        exact .inr (.inr ⟨e, rfl, code, empty, adjacent, gap⟩)
    · simp only [failed]
      exact .inr (.inl ⟨e, rfl, code, .inr bad⟩)

end ConfigManager.Refinement
