import ConfigManager.Library.TreeMerge
import ConfigManager.Programs.MovedKeys
import ConfigManager.Programs.MovingPrograms

/-!
# Upgrades that move the user's settings

The programs whose migrations move keys lose no setting: what the user had under a flat
key is in its section afterwards, what no migration knows stays, and only what is missing
comes from the defaults.
-/

set_option autoImplicit false

namespace ConfigManager.Guarantees
open Library Source Reference Refinement Programs

variable {σ : Type}

/-- How a config with these members comes up to the supported version. -/
structure Upgrade (supported : VersionId) (settings : List (Tree.Setting Bytes))
    (defaults : BuiltValue) (cfg : VersionedConfig) (ms : List (Bytes × ConfigValue))
    (answer : Result SyncStatus) (after : VersionedConfig) : Prop where
  succeeds : answer = .ok .inSync ↔ ∀ s ∈ settings, Movable ms s
  version : answer = .ok .inSync → after.version = supported
  holds : answer = .ok .inSync → contents after.model =
    Tree.merge (Tree.object () (regroup settings ms)) defaults.1
  /-- What a moved member held is at its new place, and the member is gone. -/
  moved : answer = .ok .inSync → ∀ s ∈ settings, ∀ v, lookupKey s.key ms = some v →
    (v.type ≠ .object → after.model.getValue (moveOf s).2 = .ok v) ∧
      (s.key ∉ defaults.1.keys → after.model.contains s.key = false)
  /-- What no migration names stays. -/
  kept : answer = .ok .inSync → ∀ path segments v, ConfigPath.parse path = .ok segments →
    (∀ s ∈ settings, Tree.Apart segments [.key s.key] ∧
      Tree.Apart segments [.key s.group, .key s.name]) →
    cfg.model.getValue path = .ok v → v.type ≠ .object → after.model.getValue path = .ok v
  fails : answer ≠ .ok .inSync → ∃ e, answer = .error e ∧ e.code = .migrationFailed ∧ after = cfg

/-- Every config of the first version comes up so. -/
def Upgrades (runtime : ConfigRuntime σ) (first supported : VersionId)
    (settings : List (Tree.Setting Bytes)) (defaults : BuiltValue) : Prop :=
  ∀ (cfg : VersionedConfig) (ms : List (Bytes × ConfigValue)) (world : World σ),
    Reachable cfg.model → cfg.version = first → contents cfg.model = Tree.object () ms →
      Upgrade supported settings defaults cfg ms (runtime.synchronize cfg supported world).1
        (runtime.synchronize cfg supported world).2.1

theorem merge_keeps (m d v : ConfigValue) (p : List PathSegment) (other : v.type ≠ .object)
    (found : Tree.locate p m = .ok v) : Tree.locate p (Tree.merge m d) = .ok v := by
  obtain ⟨y, here, same | ⟨e, same⟩⟩ := Tree.locate_merge_present p m d v found
  · rw [here, same]
  · rw [here, same, Tree.merge_of_not_objects]
    intro both
    obtain ⟨⟨l, ms, rfl⟩, _⟩ := both
    exact other rfl

/-- What the user had, other than an object, reads the same once defaults filled in the rest. -/
theorem getValue_merged (m : ConfigModel) (reached : Reachable m) (user defaults : ConfigValue)
    (merged : contents m = Tree.merge user defaults) (path : Bytes) (segments : List PathSegment)
    (v : ConfigValue) (parsed : ConfigPath.parse path = .ok segments) (other : v.type ≠ .object)
    (found : Tree.locate segments user = .ok v) : m.getValue path = .ok v := by
  refine (getValue_contents m reached path segments parsed v).mpr ?_
  rw [merged]
  exact merge_keeps _ _ v segments other found

/-- A member that neither the user nor the defaults have is not in their merge. -/
theorem merge_lacks (ms : List (Bytes × ConfigValue)) (defaults : BuiltValue)
    (isObject : defaults.1.type = .object) (key : Bytes) (gone : lookupKey key ms = none)
    (unknown : key ∉ defaults.1.keys) :
    Tree.locate [.key key] (Tree.merge (Tree.object () ms) defaults.1) = .error .absent := by
  obtain ⟨ds, shape⟩ := ConfigValue.object_of_type defaults.1 isObject
  have absent : lookupKey key ds = none := by
    rw [shape] at unknown
    exact (lookup_none_iff key ds).mpr unknown
  rw [shape, Tree.locate, Tree.descend_merge, gone, absent]

theorem contains_lacks (m : ConfigModel) (reached : Reachable m) (key : Bytes)
    (plain : Addressable key) (f : Fault)
    (gone : Tree.locate [.key key] (contents m) = .error f) : m.contains key = false := by
  obtain ⟨t, r⟩ := reachable_represents reached
  rw [contents_eq r] at gone
  rw [contains_spec m t r, Reference.contains, Reference.getValue, parse_key key plain, outcome_ok]
  simp only [gone]
  rfl

theorem upgrades_of_moves (runtime : ConfigRuntime σ) (first supported : VersionId)
    (below : first < supported) (known : runtime.catalog.contains supported = true)
    (start : runtime.catalog.contains first = true)
    (moves : VersionId × VersionId → List (Tree.Setting Bytes))
    (each : ∀ step ∈ upgradeSteps runtime first supported, ∃ edge,
      runtime.registry.findMigration step.1 step.2 = .ok edge ∧ MovesSettings edge (moves step))
    (ends : (upgradeSteps runtime first supported).foldl (fun _ step => step.2) first = supported)
    (separate : Separate ((upgradeSteps runtime first supported).flatMap moves))
    (defaults : BuiltValue)
    (stable : ∀ entry ∈ runtime.catalog.entries, entry.version = supported →
      ∀ state, (entry.defaultFactory.run state).1 = .returned defaults)
    (adopted : ∃ d, ConfigModel.fromValue defaults.1 = .ok d) :
    Upgrades runtime first supported ((upgradeSteps runtime first supported).flatMap moves)
      defaults := by
  intro cfg ms world held version holds
  subst version
  generalize gathered : (upgradeSteps runtime cfg.version supported).flatMap moves = settings at *
  obtain ⟨goes, after⟩ := moveKeys_gathers settings separate cfg.model held ms holds
  obtain ⟨success, failure⟩ := synchronize_performs runtime cfg held supported known start below
    (fun step m => moveKeys m ((moves step).map moveOf)) _ rfl each ends defaults stable adopted world
  rw [inOrder_moves, gathered] at success failure
  cases moved : (moveKeys cfg.model (settings.map moveOf)).1 with
  | ok done =>
    obtain ⟨final, world', synchronized, current, reached, merged⟩ := success moved
    rw [after moved] at merged
    have movable := goes.mp moved
    have isObject : defaults.1.type = .object := by
      obtain ⟨d, made⟩ := adopted
      by_contra other
      simp [ConfigModel.fromValue, other, fail] at made
    refine ⟨?_, ?_, ?_, ?_, ?_, ?_⟩ <;> rw [synchronized]
    · exact ⟨fun _ => movable, fun _ => rfl⟩
    · exact fun _ => current
    · exact fun _ => merged
    · intro _ s inside v found
      have plain := separate.plain s inside
      constructor
      · intro other
        exact getValue_merged final.model reached _ _ merged _ _ v
          (parse_setting s.group s.name plain.group plain.name) other
          (regroup_moved settings ms separate movable s inside v found)
      · intro unknown
        have gone := merge_lacks (regroup settings ms) defaults isObject s.key
          (regroup_gone settings ms s.key (List.mem_map_of_mem inside)) unknown
        rw [← merged] at gone
        exact contains_lacks final.model reached s.key plain.key _ gone
    · intro _ path segments v parsed apart read other
      have found := (getValue_contents cfg.model held path segments parsed v).mp read
      rw [holds] at found
      exact getValue_merged final.model reached _ _ merged path segments v parsed other
        (regroup_kept settings ms separate movable segments v (parse_readOk path segments parsed).2
          apart found)
    · exact fun impossible => absurd rfl impossible
  | error e =>
    obtain ⟨e', world', synchronized, code⟩ := failure ⟨e, moved⟩
    refine ⟨?_, ?_, ?_, ?_, ?_, ?_⟩ <;> rw [synchronized]
    · refine ⟨fun impossible => (by cases impossible), fun all => ?_⟩
      have done := goes.mpr all
      rw [moved] at done
      cases done
    · exact fun impossible => (by cases impossible)
    · exact fun impossible => (by cases impossible)
    · exact fun impossible => (by cases impossible)
    · exact fun impossible => (by cases impossible)
    · exact fun _ => ⟨e', rfl, code, rfl⟩

/-! ## The programs -/

def timeoutMoved : List (Tree.Setting Bytes) :=
  [⟨bytes "timeout", bytes "network", bytes "timeout"⟩]

def bridgeMoved : List (Tree.Setting Bytes) :=
  [⟨bytes "device_name", bytes "device", bytes "name"⟩,
    ⟨bytes "poll_interval_ms", bytes "polling", bytes "interval_ms"⟩]

def sensorMoved : List (Tree.Setting Bytes) :=
  [⟨bytes "device_name", bytes "device", bytes "name"⟩,
    ⟨bytes "sample_period_ms", bytes "sampling", bytes "period_ms"⟩]

theorem timeoutMoved_separate : Separate timeoutMoved :=
  ⟨by decide, by decide, by decide, by decide⟩

theorem bridgeMoved_separate : Separate bridgeMoved :=
  ⟨by decide, by decide, by decide, by decide⟩

theorem sensorMoved_separate : Separate sensorMoved :=
  ⟨by decide, by decide, by decide, by decide⟩

/-- What the programs with two versions set up. -/
def twoVersionRuntime (first second : BuiltValue) (fn : MigrationFn σ) : ConfigRuntime σ :=
  ⟨⟨[⟨1, defaultFactory first⟩, ⟨2, defaultFactory second⟩], twoEntries_ascending _ _⟩,
    ⟨[⟨1, 2, fn⟩]⟩⟩

theorem twoVersion_upgrades (first second : BuiltValue) (body : ConfigModel → Result Unit × ConfigModel)
    (closed : ∀ m, Reachable m → Reachable (body m).2) (settings : List (Tree.Setting Bytes))
    (moves : ∀ m, body m = moveKeys m (settings.map moveOf)) (separate : Separate settings)
    (adopted : ∃ d, ConfigModel.fromValue second.1 = .ok d) :
    Upgrades (twoVersionRuntime (σ := σ) first second (migrationFn body closed)) 1 2 settings second := by
  have steps : upgradeSteps (twoVersionRuntime (σ := σ) first second (migrationFn body closed)) 1 2 =
      [(1, 2)] := rfl
  have all := upgrades_of_moves (twoVersionRuntime (σ := σ) first second (migrationFn body closed)) 1 2
    (by decide) rfl rfl (fun _ => settings)
  rw [steps, List.flatMap_singleton] at all
  refine all ?_ rfl separate second ?_ adopted
  · intro step inside
    obtain rfl := List.mem_singleton.mp inside
    refine ⟨⟨1, 2, migrationFn body closed⟩, rfl, fun m source target state => ?_⟩
    beta_reduce
    rw [← moves]
    rfl
  · intro entry inside version state
    rcases List.mem_cons.mp inside with rfl | inside
    · cases version
    · obtain rfl := List.mem_singleton.mp inside
      rfl

/-- The third version's factory returns its defaults. -/
theorem threeEntries_stable (first second third : BuiltValue) :
    ∀ entry ∈ [(⟨1, defaultFactory first⟩ : CatalogEntry σ), ⟨2, defaultFactory second⟩,
      ⟨3, defaultFactory third⟩], entry.version = 3 →
        ∀ state, (entry.defaultFactory.run state).1 = .returned third := by
  intro entry inside version state
  rcases List.mem_cons.mp inside with rfl | inside
  · cases version
  · rcases List.mem_cons.mp inside with rfl | inside
    · cases version
    · obtain rfl := List.mem_singleton.mp inside
      rfl

/-- The newer firmware, whose second migration does nothing. -/
def sensorRuntime : ConfigRuntime σ :=
  ⟨⟨[⟨1, defaultFactory Firmware.v1Defaults⟩, ⟨2, defaultFactory Firmware.v2Defaults⟩,
    ⟨3, defaultFactory Firmware.v3Defaults⟩], threeEntries_ascending _ _ _⟩,
    ⟨[⟨1, 2, migrationFn Firmware.migrateV1ToV2 Firmware.migrateV1ToV2_reachable⟩,
      ⟨2, 3, migrationFn Firmware.migrateV2ToV3 Firmware.migrateV2ToV3_reachable⟩]⟩⟩

theorem sensorRuntime_upgrades :
    Upgrades (sensorRuntime (σ := σ)) 1 3 sensorMoved Firmware.v3Defaults := by
  have steps : upgradeSteps (sensorRuntime (σ := σ)) 1 3 = [(1, 2), (2, 3)] := rfl
  have all := upgrades_of_moves (sensorRuntime (σ := σ)) 1 3 (by decide) rfl rfl
    fun step => if step = (1, 2) then sensorMoved else []
  rw [steps] at all
  refine all ?_ rfl sensorMoved_separate Firmware.v3Defaults ?_ ⟨_, rfl⟩
  · intro step inside
    rcases List.mem_cons.mp inside with rfl | inside
    · exact ⟨_, rfl, fun _ _ _ _ => rfl⟩
    · obtain rfl := List.mem_singleton.mp inside
      exact ⟨_, rfl, fun _ _ _ _ => rfl⟩
  · exact threeEntries_stable Firmware.v1Defaults Firmware.v2Defaults Firmware.v3Defaults

/-- Every config of the first version comes up exactly when each member to move is there, not too
deep and welcome in its section. Then it is at its new place, what no migration names stays, and
only what is missing is a default; otherwise the config is left as it was. -/
theorem moving_programs_upgrade :
    (∃ runtime : ConfigRuntime σ, Versioning.runtime = .ok runtime ∧
      Upgrades runtime 1 2 timeoutMoved Versioning.v2Defaults) ∧
    (∃ runtime : ConfigRuntime σ, Sensorbridge.runtime = .ok runtime ∧
      Upgrades runtime 1 2 bridgeMoved Sensorbridge.v2Defaults) ∧
    (∃ runtime : ConfigRuntime σ, Firmware.makeV2Runtime = .ok runtime ∧
      Upgrades runtime 1 2 sensorMoved Firmware.v2Defaults) ∧
    ∃ runtime : ConfigRuntime σ, Firmware.makeV3Runtime = .ok runtime ∧
      Upgrades runtime 1 3 sensorMoved Firmware.v3Defaults := by
  refine ⟨⟨_, rfl, twoVersion_upgrades Versioning.v1Defaults Versioning.v2Defaults _ _ timeoutMoved
      (fun _ => rfl) timeoutMoved_separate ⟨_, rfl⟩⟩,
    ⟨_, rfl, twoVersion_upgrades Sensorbridge.v1Defaults Sensorbridge.v2Defaults _ _ bridgeMoved
      (fun _ => rfl) bridgeMoved_separate ⟨_, rfl⟩⟩,
    ⟨_, rfl, twoVersion_upgrades Firmware.v1Defaults Firmware.v2Defaults _ _ sensorMoved
      (fun _ => rfl) sensorMoved_separate ⟨_, rfl⟩⟩,
    ⟨sensorRuntime, rfl, sensorRuntime_upgrades⟩⟩

/-- A user's own settings under the flat keys of all four programs, and one that none knows. -/
def ownMembers : List (Bytes × ConfigValue) :=
  [(bytes "timeout", ConfigValue.of (.int 5)),
    (bytes "device_name", ConfigValue.of (.string (bytes "roof"))),
    (bytes "poll_interval_ms", ConfigValue.of (.int 250)),
    (bytes "sample_period_ms", ConfigValue.of (.int 20)),
    (bytes "site", ConfigValue.of (.string (bytes "north")))]

def ownModel : ConfigModel :=
  ownMembers.foldl (fun m member => (m.set member.1 member.2).2) ConfigModel.empty

theorem ownModel_reachable : Reachable ownModel :=
  .set _ _ ⟨_, by decide⟩ (.set _ _ ⟨_, by decide⟩ (.set _ _ ⟨_, by decide⟩
    (.set _ _ ⟨_, by decide⟩ (.set _ _ ⟨_, by decide⟩ .empty))))

/-- No member of the user's is an object, so each goes into a section of its own making. -/
theorem ownMembers_movable (s : Tree.Setting Bytes)
    (inside : s ∈ timeoutMoved ++ bridgeMoved ++ sensorMoved) : Movable ownMembers s := by
  simp only [timeoutMoved, bridgeMoved, sensorMoved, List.cons_append, List.nil_append,
    List.mem_cons, List.not_mem_nil, or_false] at inside
  rcases inside with rfl | rfl | rfl | rfl | rfl <;>
    exact ⟨_, rfl, by decide, fun content impossible => (by cases impossible)⟩

/-- The user's config comes up, with what was moved and what no program knows. -/
structure Brought (supported : VersionId) (settings : List (Tree.Setting Bytes))
    (answer : Result SyncStatus) (after : VersionedConfig) : Prop where
  inSync : answer = .ok .inSync
  current : after.version = supported
  moved : ∀ s ∈ settings, ∃ v, lookupKey s.key ownMembers = some v ∧
    after.model.getValue (moveOf s).2 = .ok v
  kept : after.model.getValue (bytes "site") = .ok (ConfigValue.of (.string (bytes "north")))

theorem Upgrades.brought {runtime : ConfigRuntime Unit} {supported : VersionId}
    {settings : List (Tree.Setting Bytes)} {defaults : BuiltValue}
    (upgrades : Upgrades runtime 1 supported settings defaults)
    (known : settings ⊆ timeoutMoved ++ bridgeMoved ++ sensorMoved) :
    Brought supported settings (runtime.synchronize ⟨1, ownModel⟩ supported ⟨(), []⟩).1
      (runtime.synchronize ⟨1, ownModel⟩ supported ⟨(), []⟩).2.1 := by
  have upgrade := upgrades ⟨1, ownModel⟩ ownMembers ⟨(), []⟩ ownModel_reachable rfl
    (by decide +kernel)
  have movable := fun s inside => ownMembers_movable s (known inside)
  have inSync := upgrade.succeeds.mpr movable
  refine ⟨inSync, upgrade.version inSync, fun s inside => ?_, ?_⟩
  · obtain ⟨v, found, _⟩ := movable s inside
    have scalar : ∀ member ∈ ownMembers, member.2.type ≠ .object := by decide
    exact ⟨v, found, (upgrade.moved inSync s inside v found).1 (scalar _ (lookup_mem _ _ v found))⟩
  · refine upgrade.kept inSync (bytes "site") [.key (bytes "site")] _ (by decide +kernel)
      (fun s inside => ?_) (by decide +kernel) (by decide)
    have other : ∀ s ∈ timeoutMoved ++ bridgeMoved ++ sensorMoved,
        s.key ≠ bytes "site" ∧ s.group ≠ bytes "site" := by decide
    obtain ⟨key, group⟩ := other s (known inside)
    simp [Tree.Apart, key, group, Ne.symm key, Ne.symm group]

/-- One config of a user, under each of the four programs. -/
theorem ownModel_brought :
    (∃ runtime : ConfigRuntime Unit, Versioning.runtime = .ok runtime ∧
      Brought 2 timeoutMoved (runtime.synchronize ⟨1, ownModel⟩ 2 ⟨(), []⟩).1
        (runtime.synchronize ⟨1, ownModel⟩ 2 ⟨(), []⟩).2.1) ∧
    (∃ runtime : ConfigRuntime Unit, Sensorbridge.runtime = .ok runtime ∧
      Brought 2 bridgeMoved (runtime.synchronize ⟨1, ownModel⟩ 2 ⟨(), []⟩).1
        (runtime.synchronize ⟨1, ownModel⟩ 2 ⟨(), []⟩).2.1) ∧
    (∃ runtime : ConfigRuntime Unit, Firmware.makeV2Runtime = .ok runtime ∧
      Brought 2 sensorMoved (runtime.synchronize ⟨1, ownModel⟩ 2 ⟨(), []⟩).1
        (runtime.synchronize ⟨1, ownModel⟩ 2 ⟨(), []⟩).2.1) ∧
    ∃ runtime : ConfigRuntime Unit, Firmware.makeV3Runtime = .ok runtime ∧
      Brought 3 sensorMoved (runtime.synchronize ⟨1, ownModel⟩ 3 ⟨(), []⟩).1
        (runtime.synchronize ⟨1, ownModel⟩ 3 ⟨(), []⟩).2.1 := by
  obtain ⟨⟨first, made, upgrades⟩, ⟨second, made₂, upgrades₂⟩, ⟨third, made₃, upgrades₃⟩,
    ⟨fourth, made₄, upgrades₄⟩⟩ := moving_programs_upgrade (σ := Unit)
  exact ⟨⟨first, made, upgrades.brought (by simp)⟩, ⟨second, made₂, upgrades₂.brought (by simp)⟩,
    ⟨third, made₃, upgrades₃.brought (by simp)⟩, ⟨fourth, made₄, upgrades₄.brought (by simp)⟩⟩

end ConfigManager.Guarantees
