import ConfigManager.Programs.KeyMoves
import ConfigManager.Source.ScalarConversion

/-!
# The gateway program (examples/03_relaygate_lifecycle.cpp)

Its three schemas and the two migrations between them. What `main` does with them at a
start is in `ApplicationLaunch`.
-/

set_option autoImplicit false

namespace ConfigManager.Programs.Relaygate
open Library Source Refinement

variable {σ : Type}

/-! ## Default factories -/

/-- `ConfigValue::of` on an int literal. -/
def number (value : Int64) : ConfigValue := ConfigValue.of (.int value)

/-- `ConfigValue::of` on a string. -/
def text (literal : String) : ConfigValue := ConfigValue.of (.string (bytes literal))

def v1Defaults : BuiltValue :=
  ⟨(((((ConfigValue.object.set (bytes "server_host") (text "127.0.0.1")).set
    (bytes "server_port") (number 8080)).set
    (bytes "log_file") (text "/var/log/relaygate.log")).set
    (bytes "verbose") (ConfigValue.of (.bool false))).set
    (bytes "max_connections") (number 100)), by decide⟩

def v2Defaults : BuiltValue :=
  let server := ((ConfigValue.object.set (bytes "host") (text "127.0.0.1")).set
    (bytes "port") (number 8080)).set (bytes "max_connections") (number 100)
  let logging := (ConfigValue.object.set (bytes "file") (text "/var/log/relaygate.log")).set
    (bytes "level") (text "info")
  ⟨(ConfigValue.object.set (bytes "server") server).set (bytes "logging") logging, by decide⟩

def v3Defaults : BuiltValue :=
  let listener := (ConfigValue.object.set (bytes "host") (text "127.0.0.1")).set
    (bytes "port") (number 8080)
  let tls := (ConfigValue.object.set (bytes "enabled") (ConfigValue.of (.bool false))).set
    (bytes "cert_file") (text "")
  let server := (ConfigValue.object.set (bytes "listeners") (ConfigValue.array.push listener)).set
    (bytes "tls") tls
  let limits := (ConfigValue.object.set (bytes "max_connections") (number 100)).set
    (bytes "request_timeout_ms") (number 30000)
  let logging := (ConfigValue.object.set (bytes "file") (text "/var/log/relaygate.log")).set
    (bytes "level") (text "info")
  ⟨((ConfigValue.object.set (bytes "server") server).set (bytes "limits") limits).set
    (bytes "logging") logging, by decide⟩

/-! ## Migrations -/

/-- The second half of `migrateV1ToV2`: the flag "verbose" becomes the text "logging.level". -/
def replaceVerbose (model : ConfigModel) : Result Unit × ConfigModel :=
  match model.getBool (bytes "verbose") with
  | .error e => (.error e, model)
  | .ok verbose =>
      andThen (model.set (bytes "logging.level") (text (if verbose then "debug" else "info")))
        fun model => model.remove (bytes "verbose")

def migrateV1ToV2 (model : ConfigModel) : Result Unit × ConfigModel :=
  andThen (moveKeys model [(bytes "server_host", bytes "server.host"),
    (bytes "server_port", bytes "server.port"),
    (bytes "max_connections", bytes "server.max_connections"),
    (bytes "log_file", bytes "logging.file")]) replaceVerbose

def migrateV2ToV3 (model : ConfigModel) : Result Unit × ConfigModel :=
  match model.getValue (bytes "server.host") with
  | .error e => (.error e, model)
  | .ok host =>
      match model.getValue (bytes "server.port") with
      | .error e => (.error e, model)
      | .ok port =>
          let listener := (ConfigValue.object.set (bytes "host") host).set (bytes "port") port
          andThen (model.set (bytes "server.listeners") (ConfigValue.array.push listener)) fun model =>
          andThen (model.remove (bytes "server.host")) fun model =>
          andThen (model.remove (bytes "server.port")) fun model =>
            moveKey model (bytes "server.max_connections") (bytes "limits.max_connections")

theorem replaceVerbose_reachable (m : ConfigModel) (reached : Reachable m) :
    Reachable (replaceVerbose m).2 := by
  unfold replaceVerbose
  cases m.getBool (bytes "verbose") with
  | error e => exact reached
  | ok verbose =>
    exact andThen_reachable _ _ (.set m _ ⟨_, ConfigValue.keysDistinct_of _⟩ reached)
      fun m' reached' => .remove m' _ reached'

theorem migrateV1ToV2_reachable (m : ConfigModel) (reached : Reachable m) :
    Reachable (migrateV1ToV2 m).2 :=
  andThen_reachable _ _ (moveKeys_reachable _ m reached) replaceVerbose_reachable

theorem migrateV2ToV3_reachable (m : ConfigModel) (reached : Reachable m) :
    Reachable (migrateV2ToV3 m).2 := by
  unfold migrateV2ToV3
  cases readHost : m.getValue (bytes "server.host") with
  | error e => exact reached
  | ok host =>
    cases readPort : m.getValue (bytes "server.port") with
    | error e => exact reached
    | ok port =>
      have built : (ConfigValue.array.push ((ConfigValue.object.set (bytes "host") host).set
          (bytes "port") port)).KeysDistinct := by
        refine ConfigValue.push_keysDistinct _ _ (by decide) ?_
        refine ConfigValue.set_keysDistinct _ port _ ?_ (getValue_distinct m reached _ port readPort)
        exact ConfigValue.set_keysDistinct _ host _ (by decide)
          (getValue_distinct m reached _ host readHost)
      refine andThen_reachable _ _ (.set m _ ⟨_, built⟩ reached) fun m₁ reached₁ => ?_
      refine andThen_reachable _ _ (.remove m₁ _ reached₁) fun m₂ reached₂ => ?_
      refine andThen_reachable _ _ (.remove m₂ _ reached₂) fun m₃ reached₃ => ?_
      exact moveKey_reachable m₃ reached₃ _ _

/-! ## The runtime -/

def kLatest : VersionId := 3

def artifacts : List (VersionArtifact σ) :=
  [⟨1, some (defaultFactory v1Defaults)⟩, ⟨2, some (defaultFactory v2Defaults)⟩,
    ⟨3, some (defaultFactory v3Defaults)⟩]

def edges : List (MigrationEdge σ) :=
  [⟨1, 2, migrationFn migrateV1ToV2 migrateV1ToV2_reachable⟩,
    ⟨2, 3, migrationFn migrateV2ToV3 migrateV2ToV3_reachable⟩]

/-- The runtime that `main` assembles. -/
def runtime : ConfigRuntime σ :=
  ⟨⟨[⟨1, defaultFactory v1Defaults⟩, ⟨2, defaultFactory v2Defaults⟩,
    ⟨3, defaultFactory v3Defaults⟩], threeEntries_ascending _ _ _⟩, ⟨edges⟩⟩

theorem runtime_made : makeRuntime (σ := σ) artifacts edges = .ok runtime := by
  rfl

end ConfigManager.Programs.Relaygate
