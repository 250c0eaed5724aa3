import ConfigManager.Refinement.Synchronization

/-!
# synchronize is transactional, complete and idempotent

For every runtime that `create` returned, every config over a reachable model
and arbitrary callbacks: what is returned, what is written back, which
callbacks ran, and that a second call finds nothing left to do.
-/

set_option autoImplicit false

namespace ConfigManager.Guarantees
open Library Source Reference Refinement

variable {σ : Type}

/-- A callback that threw or returned an error. -/
def Event.failed : Event → Prop
  | .migration _ _ outcome => CallFailed outcome
  | .factory _ outcome => FactoryThrew outcome
  | .commit => False

theorem oneMember_distinct :
    (ConfigValue.object.set (bytes "k") (ConfigValue.of (.bool true))).KeysDistinct := by decide

def oneMember : BuiltValue :=
  ⟨ConfigValue.object.set (bytes "k") (ConfigValue.of (.bool true)), oneMember_distinct⟩

/-- A migration that adds one member. -/
def addMember : MigrationFn Unit where
  run m _ _ state := (.returned (m.set (bytes "m") (ConfigValue.of (.bool false))).1,
    (m.set (bytes "m") (ConfigValue.of (.bool false))).2, state)
  closed m _ _ _ reached := .set m _ ⟨ConfigValue.of (.bool false), by decide⟩ reached

/-- Versions 1 and 2, joined by `addMember`, with the same default tree. -/
def twoVersions : ConfigRuntime Unit :=
  ⟨⟨[⟨1, ⟨fun state => (.returned oneMember, state)⟩⟩,
      ⟨2, ⟨fun state => (.returned oneMember, state)⟩⟩], by decide⟩,
    ⟨[⟨1, 2, addMember⟩]⟩⟩

/-- `DowngradeRequired` exactly for a registered, older supported version; an error or a
downgrade leaves the config as it was; `InSync` means the supported version and the defaults
merged into what the migrations of the consecutive versions made of the original model. -/
theorem synchronize_transactional (catalog : VersionCatalog σ) (registry : MigrationRegistry σ)
    (runtime : ConfigRuntime σ) (created : ConfigRuntime.create catalog registry = .ok runtime)
    (cfg cfg' : VersionedConfig) (held : Reachable cfg.model) (supported : VersionId)
    (world world' : World σ) (answer : Result SyncStatus)
    (ran : runtime.synchronize cfg supported world = (answer, cfg', world')) :
    (answer = .ok .downgradeRequired ↔
        runtime.catalog.contains supported = true ∧ cfg.version > supported) ∧
      ((∃ e, answer = .error e) ∨ answer = .ok .downgradeRequired → cfg' = cfg) ∧
      (answer = .ok .inSync → cfg'.version = supported ∧
        ∃ m state entry root tail,
          Applied runtime.registry (upgradeSteps runtime cfg.version supported)
            (cfg.model, world.callbacks) (m, state) ∧
          entry ∈ runtime.catalog.entries ∧ entry.version = supported ∧
          entry.defaultFactory.run state = (.returned root, world'.callbacks) ∧
          contents cfg'.model = Tree.merge (contents m) root.1 ∧
          world'.events = world.events ++
            (upgradeSteps runtime cfg.version supported).map ranEvent ++
              .factory supported (.returned root) :: tail ∧
          (tail = [] ∨ tail = [.commit])) := by
  have cases_ := synchronize_cases catalog registry runtime created cfg held supported world
  rw [ran] at cases_
  simp only at cases_
  cases cases_ with
  | unregistered e code unknown =>
    exact ⟨by simp [unknown], fun _ => rfl, by simp⟩
  | downgrade known above => exact ⟨by simp [known, above], fun _ => rfl, by simp⟩
  | unknownVersion e code known below unknown =>
    exact ⟨by simp [known, le_of_lt below], fun _ => rfl, by simp⟩
  | migrationFailed e code known below =>
    exact ⟨by simp [known, le_of_lt below], fun _ => rfl, by simp⟩
  | defaultsFailed e known bound => exact ⟨by simp [known, bound], fun _ => rfl, by simp⟩
  | inSync _ known bound _ _ m state applied entry member version root made _ _ merged _ _ current
      tail events commit =>
    refine ⟨by simp [known, bound], by simp, fun _ => ⟨current, m, state, entry, root, tail, applied,
      member, version, made, merged, events, ?_⟩⟩
    rcases commit with ⟨none, _⟩ | ⟨one, _⟩
    · exact .inl none
    · exact .inr one

/-- An upgrade over one migration ends at the supported version. -/
theorem twoVersions_upgrade :
    (twoVersions.synchronize ⟨1, ConfigModel.empty⟩ 2 ⟨(), []⟩).2.1.version = 2 :=
  ((synchronize_transactional twoVersions.catalog twoVersions.registry twoVersions rfl
    ⟨1, ConfigModel.empty⟩ _ .empty 2 ⟨(), []⟩ _ _ rfl).2.2 (by decide +kernel)).1

/-- Missing edges are never reported, unregistered versions are exactly what `InvalidVersion`
reports, before any callback, and every other failure is a callback's or the default tree's. -/
theorem synchronize_failures (catalog : VersionCatalog σ) (registry : MigrationRegistry σ)
    (runtime : ConfigRuntime σ) (created : ConfigRuntime.create catalog registry = .ok runtime)
    (cfg cfg' : VersionedConfig) (held : Reachable cfg.model) (supported : VersionId)
    (world world' : World σ) (answer : Result SyncStatus)
    (ran : runtime.synchronize cfg supported world = (answer, cfg', world')) :
    (∀ e, answer = .error e → e.code ≠ .missingMigration) ∧
      ((∃ e, answer = .error e ∧ e.code = .invalidVersion) ↔
        runtime.catalog.contains supported = false ∨
          (cfg.version < supported ∧ runtime.catalog.contains cfg.version = false)) ∧
      ((∃ e, answer = .error e ∧ e.code = .invalidVersion) → world' = world) ∧
      ∀ e, answer = .error e → e.code ≠ .invalidVersion →
        (e.code = .migrationFailed ∧ ∃ before event, world'.events = before ++ [event] ∧
          Event.failed event) ∨
        ∃ before root, world'.events = before ++ [.factory supported (.returned root)] ∧
          ((e.code = .invalidType ∧ root.1.type ≠ .object) ∨
            (e.code = .invalidPath ∧ root.1.type = .object ∧ ¬ Fits 0 root.1)) := by
  have cases_ := synchronize_cases catalog registry runtime created cfg held supported world
  rw [ran] at cases_
  simp only at cases_
  cases cases_ with
  | unregistered e code unknown => simp [unknown, code]
  | downgrade known above => simp [known, le_of_lt above]
  | unknownVersion e code known below unknown => simp [code, below, unknown]
  | migrationFailed e code known below start _ done rest source target steps outcome failed events =>
    refine ⟨by simp [code], by simp [code, known, start], by simp [code], ?_⟩
    intro e' same _
    cases same
    exact .inl ⟨code, _, _, events, failed⟩
  | defaultsFailed e known bound start _ _ _ _ _ outcome _ events cause =>
    rcases cause with ⟨threw, code⟩ | ⟨root, rfl, refused⟩
    · refine ⟨by simp [code], by simp [code, known, start], by simp [code], ?_⟩
      intro e' same _
      cases same
      exact .inl ⟨code, _, _, events, threw⟩
    · have refused := fromValue_refused root e refused
      have others : e.code ≠ .missingMigration ∧ e.code ≠ .invalidVersion := by
        rcases refused with ⟨code, _⟩ | ⟨code, _⟩ <;> simp [code]
      refine ⟨by simpa using others.1, by simp [others.2, known, start], by simp [others.2], ?_⟩
      intro e' same _
      cases same
      exact .inr ⟨_, root, events, refused⟩
  | inSync _ known bound start => simp [known, start]

/-- From an unregistered version nothing runs. -/
theorem twoVersions_unregistered :
    (twoVersions.synchronize ⟨0, ConfigModel.empty⟩ 2 ⟨(), []⟩).2.2 = ⟨(), []⟩ :=
  (synchronize_failures twoVersions.catalog twoVersions.registry twoVersions rfl
    ⟨0, ConfigModel.empty⟩ _ .empty 2 ⟨(), []⟩ _ _ rfl).2.2.1 ⟨_, rfl, rfl⟩

/-- After `InSync`, with a factory that returns the same tree on every call, a second call with
callbacks in any state runs the factory and nothing else, and leaves the config alone. -/
theorem synchronize_idempotent (catalog : VersionCatalog σ) (registry : MigrationRegistry σ)
    (runtime : ConfigRuntime σ) (created : ConfigRuntime.create catalog registry = .ok runtime)
    (cfg cfg' : VersionedConfig) (held : Reachable cfg.model) (supported : VersionId)
    (defaults : BuiltValue)
    (stable : ∀ entry ∈ runtime.catalog.entries, entry.version = supported →
      ∀ state, (entry.defaultFactory.run state).1 = .returned defaults)
    (world world' : World σ)
    (first : runtime.synchronize cfg supported world = (.ok .inSync, cfg', world'))
    (later : World σ) :
    (runtime.synchronize cfg' supported later).1 = .ok .inSync ∧
      (runtime.synchronize cfg' supported later).2.1 = cfg' ∧
      (runtime.synchronize cfg' supported later).2.2.events =
        later.events ++ [.factory supported (.returned defaults)] ∧
      ∀ h : ConfigNode, h.valid cfg'.model.arena = true →
        h.valid (runtime.synchronize cfg' supported later).2.1.model.arena = true := by
  have firstCase := synchronize_cases catalog registry runtime created cfg held supported world
  rw [first] at firstCase
  simp only at firstCase
  cases firstCase with
  | inSync _ known _ _ _ m state _ entry member version root made d adopted merged distinct reached
      current =>
    have same := stable entry member version state
    rw [made] at same
    cases same
    -- Nothing is left to merge, so the second call cannot change the tree.
    have settled : Tree.merge (contents cfg'.model) defaults.1 = contents cfg'.model := by
      rw [merged]
      exact Tree.merge_merge _ _ distinct
    have none : upgradeSteps runtime cfg'.version supported = [] := by
      rw [current]
      exact upgradeSteps_self runtime supported known
    have second := synchronize_cases catalog registry runtime created cfg' reached supported later
    generalize runtime.synchronize cfg' supported later = ended at second ⊢
    obtain ⟨answer, cfg'', later'⟩ := ended
    simp only at second ⊢
    cases second with
    | unregistered e code unknown => simp [known] at unknown
    | downgrade _ above => simp [current] at above
    | unknownVersion e code _ below => simp [current] at below
    | migrationFailed e code _ below => simp [current] at below
    | defaultsFailed e _ _ _ _ state' entry' member' version' outcome made' _ cause =>
      have same := stable entry' member' version' state'
      rw [made'] at same
      cases same
      rcases cause with ⟨threw, _⟩ | ⟨root', back, refused⟩
      · exact threw.elim
      · cases back
        rw [adopted] at refused
        cases refused
    | inSync _ _ _ _ _ m' state' applied entry' member' version' root' made' _ _ merged' _ _ _ tail
        events commit =>
      have same := stable entry' member' version' state'
      rw [made'] at same
      cases same
      rw [none] at applied events
      cases applied
      rcases commit with ⟨rfl, rfl, _⟩ | ⟨_, changed⟩
      · exact ⟨rfl, rfl, by simpa using events, fun h valid => valid⟩
      · rcases changed with below | other
        · simp [current] at below
        · exact absurd (merged'.trans settled) other

/-- The second of two synchronizations only creates the defaults. -/
theorem twoVersions_settled :
    (twoVersions.synchronize (twoVersions.synchronize ⟨1, ConfigModel.empty⟩ 2 ⟨(), []⟩).2.1 2
      ⟨(), []⟩).2.2.events = [.factory 2 (.returned oneMember)] :=
  (synchronize_idempotent twoVersions.catalog twoVersions.registry twoVersions rfl
    ⟨1, ConfigModel.empty⟩ _ .empty 2 oneMember
    (by
      intro entry member _ state
      simp only [twoVersions, List.mem_cons, List.not_mem_nil, or_false] at member
      rcases member with rfl | rfl <;> rfl)
    ⟨(), []⟩ _ (Prod.ext (by decide +kernel) rfl) ⟨(), []⟩).2.2.1

end ConfigManager.Guarantees
