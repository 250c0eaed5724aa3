import ConfigManager.Programs.KeyMoves

/-!
# Three programs whose migrations move keys (examples/02, 04 and 05)

Their default factories, migrations and runtimes. In the second program `main` holds
the version and the migration that the others keep in constants.
-/

set_option autoImplicit false

namespace ConfigManager.Programs
open Library Source

variable {σ : Type}

/-! ## examples/02_versioning_and_migration.cpp -/

namespace Versioning

/-- `timeout` still lies at the root. -/
def v1Defaults : BuiltValue :=
  ⟨(ConfigValue.object.set (bytes "app_name") (ConfigValue.of (.string (bytes "demo")))).set
    (bytes "timeout") (ConfigValue.of (.int 30)), by decide⟩

/-- `timeout` has gone into `network`, which the user's files do not have yet. -/
def v2Defaults : BuiltValue :=
  let network := (ConfigValue.object.set (bytes "timeout") (ConfigValue.of (.int 30))).set
    (bytes "retries") (ConfigValue.of (.int 3))
  ⟨(ConfigValue.object.set (bytes "app_name") (ConfigValue.of (.string (bytes "demo")))).set
    (bytes "network") network, by decide⟩

/-- Get, set and remove, as `moveKeys` does them for one key. -/
def migrateV1ToV2 (model : ConfigModel) : Result Unit × ConfigModel :=
  moveKeys model [(bytes "timeout", bytes "network.timeout")]

theorem migrateV1ToV2_reachable (m : ConfigModel) (reached : Reachable m) :
    Reachable (migrateV1ToV2 m).2 := moveKeys_reachable _ m reached

def runtime : Result (ConfigRuntime σ) :=
  makeRuntime
    [⟨1, some (defaultFactory v1Defaults)⟩, ⟨2, some (defaultFactory v2Defaults)⟩]
    [⟨1, 2, migrationFn migrateV1ToV2 migrateV1ToV2_reachable⟩]

end Versioning

/-! ## examples/04_sensorbridge_xml.cpp -/

namespace Sensorbridge

/-- One sensor, in an array: what a repair never looks into. -/
def defaultSensors : BuiltValue :=
  let sensor := ((ConfigValue.object.set (bytes "id")
    (ConfigValue.of (.string (bytes "internal")))).set
    (bytes "enabled") (ConfigValue.of (.bool true))).set
    -- 1.0
    (bytes "scale") (ConfigValue.of (.double ⟨0x3FF0000000000000⟩))
  ⟨ConfigValue.array.push sensor, by decide⟩

def v1Defaults : BuiltValue :=
  ⟨((((ConfigValue.object.set (bytes "device_name")
    (ConfigValue.of (.string (bytes "sensorbridge")))).set
    (bytes "poll_interval_ms") (ConfigValue.of (.int 1000))).set
    (bytes "notes") (ConfigValue.of (.string []))).set
    (bytes "last_error") (ConfigValue.of .monostate)).set
    (bytes "sensors") defaultSensors.1, by decide⟩

def v2Defaults : BuiltValue :=
  let device := ConfigValue.object.set (bytes "name")
    (ConfigValue.of (.string (bytes "sensorbridge")))
  let polling := (ConfigValue.object.set (bytes "interval_ms") (ConfigValue.of (.int 1000))).set
    (bytes "jitter_pct") (ConfigValue.of (.int 5))
  ⟨((((ConfigValue.object.set (bytes "device") device).set
    (bytes "polling") polling).set
    (bytes "notes") (ConfigValue.of (.string []))).set
    (bytes "last_error") (ConfigValue.of .monostate)).set
    (bytes "sensors") defaultSensors.1, by decide⟩

/-- Neither `notes`, `last_error` nor the sensors move. -/
def migrateV1ToV2 (model : ConfigModel) : Result Unit × ConfigModel :=
  moveKeys model [(bytes "device_name", bytes "device.name"),
    (bytes "poll_interval_ms", bytes "polling.interval_ms")]

theorem migrateV1ToV2_reachable (m : ConfigModel) (reached : Reachable m) :
    Reachable (migrateV1ToV2 m).2 := moveKeys_reachable _ m reached

def runtime : Result (ConfigRuntime σ) :=
  makeRuntime
    [⟨1, some (defaultFactory v1Defaults)⟩, ⟨2, some (defaultFactory v2Defaults)⟩]
    [⟨1, 2, migrationFn migrateV1ToV2 migrateV1ToV2_reachable⟩]

end Sensorbridge

/-! ## examples/05_firmware_rollback.cpp -/

namespace Firmware

def v1Defaults : BuiltValue :=
  ⟨(ConfigValue.object.set (bytes "device_name") (ConfigValue.of (.string (bytes "sensor")))).set
    (bytes "sample_period_ms") (ConfigValue.of (.int 1000)), by decide⟩

def v2Defaults : BuiltValue :=
  let device := ConfigValue.object.set (bytes "name") (ConfigValue.of (.string (bytes "sensor")))
  let sampling := ConfigValue.object.set (bytes "period_ms") (ConfigValue.of (.int 1000))
  ⟨(ConfigValue.object.set (bytes "device") device).set (bytes "sampling") sampling, by decide⟩

/-- The second version's defaults and one section more. -/
def v3Defaults : BuiltValue :=
  let upload := ConfigValue.object.set (bytes "batch_size") (ConfigValue.of (.int 50))
  ⟨v2Defaults.1.set (bytes "upload") upload, by decide⟩

def migrateV1ToV2 (model : ConfigModel) : Result Unit × ConfigModel :=
  moveKeys model [(bytes "device_name", bytes "device.name"),
    (bytes "sample_period_ms", bytes "sampling.period_ms")]

theorem migrateV1ToV2_reachable (m : ConfigModel) (reached : Reachable m) :
    Reachable (migrateV1ToV2 m).2 := moveKeys_reachable _ m reached

/-- The new section has defaults only, which the repair fills in. -/
def migrateV2ToV3 (model : ConfigModel) : Result Unit × ConfigModel := (.ok (), model)

theorem migrateV2ToV3_reachable (m : ConfigModel) (reached : Reachable m) :
    Reachable (migrateV2ToV3 m).2 := reached

/-- The firmware that is rolled back to. -/
def makeV2Runtime : Result (ConfigRuntime σ) :=
  makeRuntime
    [⟨1, some (defaultFactory v1Defaults)⟩, ⟨2, some (defaultFactory v2Defaults)⟩]
    [⟨1, 2, migrationFn migrateV1ToV2 migrateV1ToV2_reachable⟩]

/-- The firmware that upgrades, with the older one's registrations and its own. -/
def makeV3Runtime : Result (ConfigRuntime σ) :=
  makeRuntime
    [⟨1, some (defaultFactory v1Defaults)⟩, ⟨2, some (defaultFactory v2Defaults)⟩,
      ⟨3, some (defaultFactory v3Defaults)⟩]
    [⟨1, 2, migrationFn migrateV1ToV2 migrateV1ToV2_reachable⟩,
      ⟨2, 3, migrationFn migrateV2ToV3 migrateV2ToV3_reachable⟩]

end Firmware

end ConfigManager.Programs
