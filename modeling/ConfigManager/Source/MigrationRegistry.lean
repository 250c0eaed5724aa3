import ConfigManager.Source.VersionCatalog

/-!
# Migration edges (migration_registry.hpp/.cpp)

A migration works on the model through its interface, so it takes reachable
models to reachable models; it may change the model and still fail.
-/

set_option autoImplicit false

namespace ConfigManager.Source
open Library

/-- The callable receives the context: the working model and the two versions. -/
structure MigrationFn (σ : Type) where
  run : ConfigModel → VersionId → VersionId → σ → CallOutcome (Result Unit) × ConfigModel × σ
  closed : ∀ m source target state, Reachable m → Reachable (run m source target state).2.1

/-- The source's `from` and `to`. -/
structure MigrationEdge (σ : Type) where
  source : VersionId
  target : VersionId
  apply : MigrationFn σ

def MigrationEdge.joins {σ : Type} (source target : VersionId) (edge : MigrationEdge σ) : Bool :=
  edge.source == source && edge.target == target

structure MigrationRegistry (σ : Type) where
  edges : List (MigrationEdge σ) := []

namespace MigrationRegistry

variable {σ : Type}

def edgeName (source target : VersionId) : Bytes :=
  versionText source ++ bytes "->" ++ versionText target

def registerMigration (registry : MigrationRegistry σ) (source target : VersionId)
    (fn : Option (MigrationFn σ)) : Result Unit × MigrationRegistry σ :=
  match fn with
  | none =>
      (fail .migrationFailed (bytes "migration " ++ edgeName source target ++
        bytes " is an empty callable"), registry)
  | some fn =>
      if registry.edges.any (MigrationEdge.joins source target) then
        (fail .invalidVersion (bytes "migration " ++ edgeName source target ++
          bytes " is already registered"), registry)
      else (.ok (), ⟨registry.edges ++ [⟨source, target, fn⟩]⟩)

def missingError {α : Type} (source target : VersionId) : Result α :=
  fail .missingMigration (bytes "no migration registered for " ++ edgeName source target)

def findMigration (registry : MigrationRegistry σ) (source target : VersionId) :
    Result (MigrationEdge σ) :=
  match registry.edges.find? (MigrationEdge.joins source target) with
  | none => missingError source target
  | some edge => .ok edge

/-- The first loop of `validate`: both endpoints are registered and adjacent. -/
def validateEdges (catalog : VersionCatalog σ) : List (MigrationEdge σ) → Result Unit
  | [] => .ok ()
  | edge :: rest =>
      if !catalog.contains edge.source || !catalog.contains edge.target then
        fail .invalidVersion (bytes "migration " ++ edgeName edge.source edge.target ++
          bytes " references a version not in the catalog")
      else match catalog.nextVersion edge.source with
        | .error _ =>
            fail .invalidVersion (bytes "migration " ++ edgeName edge.source edge.target ++
              bytes " is not adjacent in catalog order")
        | .ok next =>
            if next ≠ edge.target then
              fail .invalidVersion (bytes "migration " ++ edgeName edge.source edge.target ++
                bytes " is not adjacent in catalog order")
            else validateEdges catalog rest

/-- The second loop of `validate`: consecutive versions are joined. -/
def validateChain (edges : List (MigrationEdge σ)) : List VersionId → Result Unit
  | source :: target :: rest =>
      if edges.any (MigrationEdge.joins source target) then validateChain edges (target :: rest)
      else missingError source target
  | _ => .ok ()

def validate (registry : MigrationRegistry σ) (catalog : VersionCatalog σ) : Result Unit :=
  match validateEdges catalog registry.edges with
  | .error e => .error e
  | .ok () => validateChain registry.edges catalog.versions

end MigrationRegistry

end ConfigManager.Source
