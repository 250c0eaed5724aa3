import ConfigManager.Refinement.Restructuring
import ConfigManager.Source.ConfigRuntime

/-!
# Migrations that move keys (examples/02 to 05)

The programs register their versions and migrations one after the other and stop at
the first error. Their migrations share one function, `moveKey` of the third and the
fourth program and `moveValue` of the fifth; the second program spells it out.
-/

set_option autoImplicit false

namespace ConfigManager.Programs
open Library Source Refinement

variable {σ : Type}

/-! ## Moving keys -/

/-- `if (auto done = ...; !done) return done;` before the rest. -/
def andThen (ran : Result Unit × ConfigModel) (rest : ConfigModel → Result Unit × ConfigModel) :
    Result Unit × ConfigModel :=
  match ran with
  | (.error e, model) => (.error e, model)
  | (.ok (), model) => rest model

/-- `from` and `to` of the source. -/
def moveKey (model : ConfigModel) (source target : Bytes) : Result Unit × ConfigModel :=
  match model.getValue source with
  | .error e => (.error e, model)
  | .ok value => andThen (model.set target value) fun model => model.remove source

/-- One move after the other. -/
def moveKeys (model : ConfigModel) : List (Bytes × Bytes) → Result Unit × ConfigModel
  | [] => (.ok (), model)
  | (source, target) :: moves =>
      andThen (moveKey model source target) fun model => moveKeys model moves

theorem andThen_ok (ran : Result Unit × ConfigModel)
    (rest : ConfigModel → Result Unit × ConfigModel) (success : ran.1 = .ok ()) :
    andThen ran rest = rest ran.2 := by
  obtain ⟨answer, m⟩ := ran
  cases success
  rfl

theorem andThen_error (ran : Result Unit × ConfigModel)
    (rest : ConfigModel → Result Unit × ConfigModel) (e : Error) (failed : ran.1 = .error e) :
    (andThen ran rest).1 = .error e := by
  obtain ⟨answer, m⟩ := ran
  cases failed
  rfl

theorem andThen_iff (ran : Result Unit × ConfigModel)
    (rest : ConfigModel → Result Unit × ConfigModel) :
    (andThen ran rest).1 = .ok () ↔ ran.1 = .ok () ∧ (rest ran.2).1 = .ok () := by
  obtain ⟨answer, m⟩ := ran
  cases answer with
  | error e =>
    refine ⟨fun impossible => (by cases impossible), fun both => ?_⟩
    cases both.1
  | ok done => exact ⟨fun later => ⟨rfl, later⟩, fun both => both.2⟩

theorem andThen_reachable (ran : Result Unit × ConfigModel)
    (rest : ConfigModel → Result Unit × ConfigModel) (reached : Reachable ran.2)
    (later : ∀ m, Reachable m → Reachable (rest m).2) : Reachable (andThen ran rest).2 := by
  obtain ⟨answer, m⟩ := ran
  cases answer with
  | error e => exact reached
  | ok done => exact later m reached

theorem moveKey_reachable (m : ConfigModel) (reached : Reachable m) (source target : Bytes) :
    Reachable (moveKey m source target).2 := by
  unfold moveKey
  cases read : m.getValue source with
  | error e => exact reached
  | ok v =>
    have distinct := getValue_distinct m reached source v read
    exact andThen_reachable _ _ (.set m target ⟨v, distinct⟩ reached)
      fun m' reached' => .remove m' source reached'

theorem moveKeys_reachable (moves : List (Bytes × Bytes)) (m : ConfigModel) (reached : Reachable m) :
    Reachable (moveKeys m moves).2 := by
  induction moves generalizing m with
  | nil => exact reached
  | cons move moves ih =>
    exact andThen_reachable _ _ (moveKey_reachable m reached move.1 move.2) ih

/-- A migration that works on the model of its context and keeps no state. -/
def migrationFn (body : ConfigModel → Result Unit × ConfigModel)
    (closed : ∀ m, Reachable m → Reachable (body m).2) : MigrationFn σ where
  run m _ _ state := (.returned (body m).1, (body m).2, state)
  closed m _ _ _ reached := closed m reached

/-! ## Setting up a runtime -/

def defaultFactory (defaults : BuiltValue) : DefaultFactory σ :=
  ⟨fun state => (.returned defaults, state)⟩

theorem noEntries_ascending :
    (([] : List (CatalogEntry σ)).map CatalogEntry.version).Pairwise (· < ·) := List.Pairwise.nil

theorem twoEntries_ascending (first second : DefaultFactory σ) :
    ([⟨1, first⟩, ⟨2, second⟩].map (CatalogEntry.version (σ := σ))).Pairwise (· < ·) := by
  simp only [List.map]
  decide

theorem threeEntries_ascending (first second third : DefaultFactory σ) :
    ([⟨1, first⟩, ⟨2, second⟩, ⟨3, third⟩].map (CatalogEntry.version (σ := σ))).Pairwise
      (· < ·) := by
  simp only [List.map]
  decide

def registerVersions (catalog : VersionCatalog σ) :
    List (VersionArtifact σ) → Result (VersionCatalog σ)
  | [] => .ok catalog
  | artifact :: artifacts =>
      match catalog.registerVersion artifact with
      | (.error e, _) => .error e
      | (.ok (), catalog) => registerVersions catalog artifacts

def registerMigrations (registry : MigrationRegistry σ) :
    List (MigrationEdge σ) → Result (MigrationRegistry σ)
  | [] => .ok registry
  | edge :: edges =>
      match registry.registerMigration edge.source edge.target (some edge.apply) with
      | (.error e, _) => .error e
      | (.ok (), registry) => registerMigrations registry edges

/-- The registrations in order, then `create`. -/
def makeRuntime (artifacts : List (VersionArtifact σ)) (edges : List (MigrationEdge σ)) :
    Result (ConfigRuntime σ) :=
  match registerVersions ⟨[], noEntries_ascending⟩ artifacts with
  | .error e => .error e
  | .ok catalog =>
      match registerMigrations {} edges with
      | .error e => .error e
      | .ok registry => ConfigRuntime.create catalog registry

end ConfigManager.Programs
