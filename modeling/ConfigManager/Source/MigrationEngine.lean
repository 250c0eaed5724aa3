import ConfigManager.Source.MigrationRegistry

/-!
# The migration walk (migration_engine.hpp/.cpp)

The loop moves to the next registered version, which is above the current one,
so the distance to the target decreases. A step that fails leaves the model as
the callback left it.
-/

set_option autoImplicit false

namespace ConfigManager.Source
open Library

structure VersionedConfig where
  version : VersionId
  model : ConfigModel

def errorCodeName : ErrorCode → Bytes
  | .invalidPath => bytes "InvalidPath"
  | .nodeNotFound => bytes "NodeNotFound"
  | .invalidType => bytes "InvalidType"
  | .parseError => bytes "ParseError"
  | .serializationError => bytes "SerializationError"
  | .migrationFailed => bytes "MigrationFailed"
  | .missingMigration => bytes "MissingMigration"
  | .invalidVersion => bytes "InvalidVersion"
  | .storageError => bytes "StorageError"

namespace VersionCatalog

variable {σ : Type}

/-- What a successful `nextVersion` says about the entries. -/
theorem nextVersion_split (catalog : VersionCatalog σ) (v next : VersionId)
    (success : catalog.nextVersion v = .ok next) :
    ∃ before first second rest, catalog.entries = before ++ first :: second :: rest ∧
      first.version = v ∧ second.version = next := by
  obtain ⟨before, split, _⟩ := findEntry_split catalog.entries v
  unfold nextVersion at success
  cases found : findEntry catalog.entries v with
  | nil => simp [found, notRegisteredError, fail] at success
  | cons first rest =>
    simp only [found] at success
    split at success
    · simp [notRegisteredError, fail] at success
    · next same =>
      cases rest with
      | nil => simp [fail] at success
      | cons second rest =>
        simp only [Except.ok.injEq] at success
        rw [ne_eq, not_not] at same
        exact ⟨before, first, second, rest, by rw [split, found], same, success⟩

theorem nextVersion_above (catalog : VersionCatalog σ) (v next : VersionId)
    (success : catalog.nextVersion v = .ok next) : v < next := by
  obtain ⟨before, first, second, rest, split, rfl, rfl⟩ := catalog.nextVersion_split v next success
  have ascending := catalog.ascending
  rw [split, List.map_append, List.pairwise_append] at ascending
  have tail := ascending.2.1
  rw [List.map_cons, List.pairwise_cons] at tail
  exact tail.1 _ (by simp)

end VersionCatalog

namespace MigrationEngine

variable {σ : Type}

def stepName (source target : VersionId) : Bytes :=
  versionText source ++ bytes "->" ++ versionText target

/-- The loop of `migrate`, which keeps `current` equal to the version of the config. -/
def walk (catalog : VersionCatalog σ) (registry : MigrationRegistry σ) (target : VersionId)
    (current : VersionId) (config : VersionedConfig) (world : World σ) :
    Result Unit × VersionedConfig × World σ :=
  if current < target then
    match _found : catalog.nextVersion current with
    | .error e => (.error e, config, world)
    | .ok next =>
        match registry.findMigration current next with
        | .error e => (.error e, config, world)
        | .ok edge =>
            let (outcome, model, callbacks) :=
              edge.apply.run config.model current next world.callbacks
            let config := { config with model := model }
            let world : World σ := ⟨callbacks, world.events ++ [.migration current next outcome]⟩
            match outcome with
            | .threw what =>
                (fail .migrationFailed (bytes "migration " ++ stepName current next ++
                  bytes " threw: " ++ what), config, world)
            | .threwOther =>
                (fail .migrationFailed (bytes "migration " ++ stepName current next ++
                  bytes " threw a non-standard exception"), config, world)
            | .returned (.error e) =>
                (fail .migrationFailed (bytes "migration " ++ stepName current next ++
                  bytes " failed: " ++ errorCodeName e.code ++ bytes ": " ++ e.message),
                  config, world)
            | .returned (.ok ()) =>
                walk catalog registry target next { config with version := next } world
  else (.ok (), config, world)
termination_by target.val - current.val
decreasing_by
  have above := catalog.nextVersion_above current next _found
  have below : current.val < target.val := by assumption
  have up : current.val < next.val := above
  omega

def migrate (catalog : VersionCatalog σ) (registry : MigrationRegistry σ) (config : VersionedConfig)
    (target : VersionId) (world : World σ) : Result Unit × VersionedConfig × World σ :=
  if !catalog.contains target then
    (fail .invalidVersion (bytes "migration target version " ++ versionText target ++
      bytes " is not registered"), config, world)
  else if config.version > target then
    (fail .invalidVersion (bytes "cannot migrate backward from version " ++
      versionText config.version ++ bytes " to " ++ versionText target), config, world)
  else walk catalog registry target config.version config world

end MigrationEngine

end ConfigManager.Source
