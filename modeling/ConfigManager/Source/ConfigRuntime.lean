import ConfigManager.Source.MigrationEngine

/-!
# The runtime (config_runtime.hpp/.cpp)

`fillMissing` reads the defaults through handles and writes the model through
paths. `synchronize` works on a copy and assigns it to the caller's config at
the end, if anything changed; the assignment is recorded as `commit`.
-/

set_option autoImplicit false

namespace ConfigManager.Source
open Library

/-- The loop of `fillMissing` over the keys still to visit; `descend` is the recursive call. -/
def fillKeys (descend : ConfigModel → ConfigNode → Bytes → Result Bool × ConfigModel)
    (defaults : ConfigModel) (defaultsNode : ConfigNode) (path : Bytes) :
    List Bytes → Bool → ConfigModel → Result Bool × ConfigModel
  | [], added, model => (.ok added, model)
  | key :: keys, added, model =>
      let childPath := if path.isEmpty then key else path ++ bytes "." ++ key
      match defaultsNode.child defaults.arena key with
      | .error e => (.error e, model)
      | .ok defaultsChild =>
          if !model.contains childPath then
            match defaults.getValue childPath with
            | .error e => (.error e, model)
            | .ok subtree =>
                match model.set childPath subtree with
                | (.error e, model) => (.error e, model)
                | (.ok (), model) => fillKeys descend defaults defaultsNode path keys true model
          else if defaultsChild.type defaults.arena = .object then
            match model.nodeAt childPath with
            | .error e => (.error e, model)
            | .ok modelChild =>
                if modelChild.type model.arena = .object then
                  match descend model defaultsChild childPath with
                  | (.error e, model) => (.error e, model)
                  | (.ok childAdded, model) =>
                      fillKeys descend defaults defaultsNode path keys (added || childAdded) model
                else fillKeys descend defaults defaultsNode path keys added model
          else fillKeys descend defaults defaultsNode path keys added model

def fillMissing (defaults : ConfigModel) :
    Nat → ConfigModel → ConfigNode → Bytes → Result Bool × ConfigModel
  | 0, model, _, _ => (fail .invalidPath (bytes "defaults deeper than their slots"), model)
  | slots + 1, model, defaultsNode, path =>
      match defaultsNode.keys defaults.arena with
      | .error e => (.error e, model)
      | .ok keys =>
          fillKeys (fillMissing defaults slots) defaults defaultsNode path keys false model

inductive SyncStatus where
  | inSync
  | upgradeRequired
  | downgradeRequired
  deriving DecidableEq, Repr

structure SyncState where
  currentVersion : VersionId
  targetVersion : VersionId
  status : SyncStatus
  deriving DecidableEq, Repr

structure ConfigRuntime (σ : Type) where
  catalog : VersionCatalog σ
  registry : MigrationRegistry σ

namespace ConfigRuntime

variable {σ : Type}

def create (catalog : VersionCatalog σ) (registry : MigrationRegistry σ) :
    Result (ConfigRuntime σ) :=
  if catalog.versions.isEmpty then
    fail .invalidVersion (bytes "catalog has no registered versions")
  else match registry.validate catalog with
    | .error e => .error e
    | .ok () => .ok ⟨catalog, registry⟩

def inspect (cfg : VersionedConfig) (supported : VersionId) : SyncState :=
  ⟨cfg.version, supported,
    if cfg.version < supported then .upgradeRequired
    else if cfg.version > supported then .downgradeRequired
    else .inSync⟩

def supportsVersion (runtime : ConfigRuntime σ) (version : VersionId) : Bool :=
  runtime.catalog.contains version

def createDefault (runtime : ConfigRuntime σ) (version : VersionId) (world : World σ) :
    Result VersionedConfig × World σ :=
  match runtime.catalog.createDefault version world with
  | (.error e, world) => (.error e, world)
  | (.ok model, world) => (.ok ⟨version, model⟩, world)

def repair (runtime : ConfigRuntime σ) (model : ConfigModel) (targetVersion : VersionId)
    (world : World σ) : Result Bool × ConfigModel × World σ :=
  match runtime.catalog.createDefault targetVersion world with
  | (.error e, world) => (.error e, model, world)
  | (.ok defaults, world) =>
      let (answer, model) :=
        fillMissing defaults defaults.arena.nodes.length model defaults.root []
      (answer, model, world)

/-- The migration phase: nothing to do when the versions agree. -/
def upgrade (runtime : ConfigRuntime σ) (working : VersionedConfig) (supported : VersionId)
    (status : SyncStatus) (world : World σ) : Result Bool × VersionedConfig × World σ :=
  if status = .upgradeRequired then
    match MigrationEngine.migrate runtime.catalog runtime.registry working supported world with
    | (.error e, working, world) => (.error e, working, world)
    | (.ok (), working, world) => (.ok true, working, world)
  else (.ok false, working, world)

def synchronize (runtime : ConfigRuntime σ) (cfg : VersionedConfig) (supported : VersionId)
    (world : World σ) : Result SyncStatus × VersionedConfig × World σ :=
  if !runtime.catalog.contains supported then
    (fail .invalidVersion (bytes "supported version " ++ versionText supported ++
      bytes " is not registered"), cfg, world)
  else
    let state := inspect cfg supported
    if state.status = .downgradeRequired then (.ok .downgradeRequired, cfg, world)
    else if state.status = .upgradeRequired ∧ runtime.catalog.contains cfg.version = false then
      (fail .invalidVersion (bytes "persisted version " ++ versionText cfg.version ++
        bytes " is not registered"), cfg, world)
    else
      match upgrade runtime ⟨cfg.version, cfg.model.clone⟩ supported state.status world with
      | (.error e, _, world) => (.error e, cfg, world)
      | (.ok migrated, working, world) =>
          match repair runtime working.model supported world with
          | (.error e, _, world) => (.error e, cfg, world)
          | (.ok repaired, model, world) =>
              if migrated || repaired then
                (.ok .inSync, { working with model := model },
                  { world with events := world.events ++ [.commit] })
              else (.ok .inSync, cfg, world)

/-- `synchronize` towards the latest version. -/
def synchronizeLatest (runtime : ConfigRuntime σ) (cfg : VersionedConfig) (world : World σ) :
    Result SyncStatus × VersionedConfig × World σ :=
  match runtime.catalog.latestVersion with
  | .error e => (.error e, cfg, world)
  | .ok latest => synchronize runtime cfg latest world

end ConfigRuntime

end ConfigManager.Source
