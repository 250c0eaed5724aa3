import ConfigManager.Refinement.ModelRuns
import ConfigManager.Source.CheckpointStore

/-!
# The firmware program (examples/05_firmware_rollback.cpp)

The two halves of `main` after its input is prepared: new firmware captures,
synchronizes and commits; older firmware refuses the newer file, prepares a
restore and commits that. The firmware is a parameter: its runtime, its version,
and what the application checks of a restored config.
-/

set_option autoImplicit false

namespace ConfigManager.Programs
open Library Source Refinement

variable {φ σ : Type}

/-- How a part of the program ends: `none` when the process stops in a call, an error when it
exits after printing the text. -/
abbrev Halt (α : Type) := Option (Except Bytes α)

/-- Both `orDie` functions. -/
def orDie {α : Type} (result : Result α) (operation : Bytes) : Except Bytes α :=
  result.mapError fun error => operation ++ bytes ": " ++ error.message ++ bytes "\n"

/-- How a stream prints a path: between quotes, which a backslash protects inside. -/
def quoted (path : FsPath) : Bytes :=
  bytes "\"" ++ (path.string.flatMap fun c => if c = 34 ∨ c = 92 then [92, c] else [c]) ++
    bytes "\""

/-- A backend that throws ends the program, and a stream that breaks is an error of `load`. -/
def loadFile (os : System φ) (path : FsPath) (backend : Backend σ) (s : φ) (state : σ) :
    Except Bytes VersionedConfig × σ :=
  match os.openFile path s with
  | none => (.error (bytes "cannot open " ++ quoted path ++ bytes "\n"), state)
  | some source =>
      if !source.sound then (.error (bytes "load " ++ path.string), state)
      else match backend.load source.bytes state with
        | (.returned answer, state) => (orDie answer (bytes "load " ++ path.string), state)
        | (_, state) => (.error [], state)

/-- Upgrading: capture the file as it is, then replace it once. -/
def upgradeFirmware (os : System φ) (store : CheckpointStore) (backend : Backend σ)
    (runtime : ConfigRuntime σ) (supported : VersionId) (s : φ) (world : World σ) :
    Halt VersionedConfig × φ × World σ :=
  match loadFile os store.options.canonicalPath backend s world.callbacks with
  | (.error text, state) => (some (.error text), s, { world with callbacks := state })
  | (.ok config, state) =>
      if (ConfigRuntime.inspect config supported).status ≠ .upgradeRequired then
        (some (.error (bytes "expected the shipped v1 config to require an upgrade\n")), s,
          { world with callbacks := state })
      else match cpCapture os store config backend state s with
        | (none, state, s) => (none, s, { world with callbacks := state })
        | (some (.error e), state, s) =>
            (some (orDie (.error e) (bytes "cpCapture(v1)")), s, { world with callbacks := state })
        | (some (.ok ()), state, s) =>
            match runtime.synchronize config supported { world with callbacks := state } with
            | (.error e, _, world) =>
                (some (orDie (.error e) (bytes "synchronize to v3")), s, world)
            | (.ok _, config, world) =>
                match cpCommit os store config backend world.callbacks s with
                | (none, state, s) => (none, s, { world with callbacks := state })
                | (some (.error e), state, s) =>
                    (some (orDie (.error e) (bytes "cpCommit(v3)")), s,
                      { world with callbacks := state })
                | (some (.ok ()), state, s) =>
                    match cpPrune os store backend state s with
                    | (none, state, s) => (none, s, { world with callbacks := state })
                    | (some (.error e), state, s) =>
                        (some (orDie (.error e) (bytes "cpPrune")), s,
                          { world with callbacks := state })
                    | (some (.ok _), state, s) =>
                        (some (.ok config), s, { world with callbacks := state })

/-- The second half: `accepts` is what the application checks of the restored config. -/
def rollBackFirmware (os : System φ) (store : CheckpointStore) (backend : Backend σ)
    (runtime : ConfigRuntime σ) (supported : VersionId) (accepts : PreparedRestore → Bool) (s : φ)
    (world : World σ) : Halt VersionedConfig × φ × World σ :=
  match loadFile os store.options.canonicalPath backend s world.callbacks with
  | (.error text, state) => (some (.error text), s, { world with callbacks := state })
  | (.ok config, state) =>
      match runtime.synchronize config supported { world with callbacks := state } with
      | (.error e, _, world) =>
          (some (orDie (.error e) (bytes "inspect v3 from v2 firmware")), s, world)
      | (.ok downgrade, _, world) =>
          if downgrade ≠ .downgradeRequired then
            (some (.error (bytes "expected DowngradeRequired\n")), s, world)
          else match cpPrepareRestore os store backend runtime supported s world with
            | (.error e, world) =>
                (some (orDie (.error e) (bytes "cpPrepareRestore(v2)")), s, world)
            | (.ok ⟨none, _⟩, world) =>
                (some (.error (bytes "no compatible checkpoint found\n")), s, world)
            | (.ok ⟨some restore, _⟩, world) =>
                if !accepts restore then
                  (some (.error
                    (bytes "restored configuration did not preserve the expected state\n")), s,
                    world)
                else match cpCommit os store restore.config backend world.callbacks s with
                  | (none, state, s) => (none, s, { world with callbacks := state })
                  | (some (.error e), state, s) =>
                      (some (orDie (.error e) (bytes "cpCommit(restored v2)")), s,
                        { world with callbacks := state })
                  | (some (.ok ()), state, s) =>
                      match loadFile os store.options.canonicalPath backend s state with
                      | (.error text, state) =>
                          (some (.error text), s, { world with callbacks := state })
                      | (.ok config, state) =>
                          if config.version ≠ supported then
                            (some (.error (bytes
                              "expected the canonical config to be v2 after rollback\n")), s,
                              { world with callbacks := state })
                          else (some (.ok config), s, { world with callbacks := state })

end ConfigManager.Programs
