import ConfigManager.Guarantees.RepairMerges
import ConfigManager.Library.TreeMerge
import ConfigManager.Refinement.Synchronization

/-!
# A repair, path by path

What a user set is read as before: a repair changes no scalar and no array, and
appends to objects. A default is read exactly at the paths where the config
lacks a member, and a synchronization adds nothing else to what the migrations
leave.
-/

set_option autoImplicit false

namespace ConfigManager.Guarantees
open Library Source Reference Refinement

variable {σ : Type}

/-- How the repaired model reads, at every path. -/
structure FilledIn (m d m' : ConfigModel) : Prop where
  kept : ∀ path v, m.getValue path = .ok v → v.type ≠ .object → m'.getValue path = .ok v
  objects : ∀ path v, m.getValue path = .ok v → v.type = .object →
    ∃ v', m'.getValue path = .ok v' ∧ v'.type = .object ∧ v.keys <+: v'.keys
  defaults : ∀ path, m.contains path = false → ∀ w, m'.getValue path = .ok w ↔
    d.getValue path = .ok w ∧
      ∃ segments, ConfigPath.parse path = .ok segments ∧ Tree.LacksKey segments (contents m)

theorem merge_of_type (x e : ConfigValue) (other : x.type ≠ .object) : Tree.merge x e = x := by
  apply Tree.merge_of_not_objects
  rintro ⟨⟨l, ms, rfl⟩, _⟩
  exact other rfl

theorem merge_keys (x e : ConfigValue) (object : x.type = .object) :
    ConfigValue.type (Tree.merge x e) = .object ∧ x.keys <+: (Tree.merge x e).keys := by
  obtain ⟨ms, rfl⟩ := ConfigValue.object_of_type x object
  cases e with
  | leaf l a => exact ⟨rfl, List.prefix_refl _⟩
  | array l es => exact ⟨rfl, List.prefix_refl _⟩
  | object l ds =>
    refine ⟨rfl, ?_⟩
    simp only [Tree.merge, Tree.keys, List.map_append, Tree.mergeMembers_keys]
    exact List.prefix_append _ _

/-- The merge of the contents, read by paths. -/
theorem merged_filledIn (m d m' : ConfigModel) (reached : Reachable m) (reached' : Reachable m')
    (defaults : Reachable d) (merged : contents m' = Tree.merge (contents m) (contents d)) :
    FilledIn m d m' := by
  obtain ⟨t, r⟩ := reachable_represents reached
  obtain ⟨t', r'⟩ := reachable_represents reached'
  obtain ⟨td, rd⟩ := reachable_represents defaults
  rw [contents_eq r', contents_eq r, contents_eq rd] at merged
  have parsed : ∀ (n : ConfigModel) path v, n.getValue path = .ok v →
      ∃ segments, ConfigPath.parse path = .ok segments := by
    intro n path v found
    cases split : ConfigPath.parse path with
    | ok segments => exact ⟨segments, rfl⟩
    | error e => simp [ConfigModel.getValue, split] at found
  refine ⟨fun path v found other => ?_, fun path v found object => ?_, fun path lacking w => ?_⟩
  · obtain ⟨segments, split⟩ := parsed m path v found
    obtain ⟨y, here, how⟩ := Tree.locate_merge_present segments t.forget td.forget v
      ((getValue_iff m t r path segments split v).mp found)
    rw [getValue_iff m' t' r' path segments split, merged, here]
    rcases how with rfl | ⟨e, rfl⟩
    · rfl
    · rw [merge_of_type v e other]
  · obtain ⟨segments, split⟩ := parsed m path v found
    obtain ⟨y, here, how⟩ := Tree.locate_merge_present segments t.forget td.forget v
      ((getValue_iff m t r path segments split v).mp found)
    refine ⟨y, by rw [getValue_iff m' t' r' path segments split, merged, here], ?_⟩
    rcases how with rfl | ⟨e, rfl⟩
    · exact ⟨object, List.prefix_refl _⟩
    · exact merge_keys v e object
  · cases split : ConfigPath.parse path with
    | error e =>
      have unread : ∀ n : ConfigModel, n.getValue path ≠ .ok w := by
        intro n found
        obtain ⟨segments, ok⟩ := parsed n path w found
        rw [split] at ok
        cases ok
      exact ⟨fun found => absurd found (unread m'), fun both => absurd both.1 (unread d)⟩
    | ok segments =>
      have gone : ∃ f, Tree.locate segments t.forget = .error f := by
        cases located : Tree.locate segments t.forget with
        | error f => exact ⟨f, rfl⟩
        | ok x =>
          have found := (getValue_iff m t r path segments split x).mpr located
          rw [contains_spec m t r path, Reference.contains, ← getValue_spec m t r path, found]
            at lacking
          cases lacking
      obtain ⟨f, gone⟩ := gone
      rw [getValue_iff m' t' r' path segments split, getValue_iff d td rd path segments split, merged,
        Tree.locate_merge_absent segments _ _ f gone w, contents_eq r]
      constructor
      · rintro ⟨found, lacks⟩
        exact ⟨found, segments, rfl, lacks⟩
      · rintro ⟨found, segments', same, lacks⟩
        cases same
        exact ⟨found, lacks⟩

theorem Applied.reachable {registry : MigrationRegistry σ} {steps : List (VersionId × VersionId)}
    {first last : ConfigModel × σ} (applied : Applied registry steps first last)
    (reached : Reachable first.1) : Reachable last.1 := by
  induction applied with
  | none start => exact reached
  | step source target steps edge m m' state state' last found ran later ih =>
    have kept := edge.apply.closed m source target state reached
    rw [ran] at kept
    exact ih kept

/-- When a synchronization ends in sync, the migrations that were due have left a model, the config
itself where none was due, and the default factory a defaults model. At every path the config reads
as that model does, except that the defaults are read where it lacks a member. -/
theorem synchronize_by_path (catalog : VersionCatalog σ) (registry : MigrationRegistry σ)
    (runtime : ConfigRuntime σ) (created : ConfigRuntime.create catalog registry = .ok runtime)
    (cfg cfg' : VersionedConfig) (held : Reachable cfg.model) (supported : VersionId)
    (world world' : World σ)
    (ran : runtime.synchronize cfg supported world = (.ok .inSync, cfg', world')) :
    ∃ m state d, ∃ root : BuiltValue,
      Applied runtime.registry (upgradeSteps runtime cfg.version supported)
        (cfg.model, world.callbacks) (m, state) ∧
      (cfg.version = supported → m = cfg.model) ∧
      (∃ entry ∈ runtime.catalog.entries, entry.version = supported ∧
        entry.defaultFactory.run state = (.returned root, world'.callbacks)) ∧
      ConfigModel.fromValue root.1 = .ok d ∧ FilledIn m d cfg'.model := by
  have how := synchronize_cases catalog registry runtime created cfg held supported world
  rw [ran] at how
  simp only at how
  cases how with
  | inSync _ known bound start _ m state applied entry member version root made d adopted merged
      distinct reached current tail events commit =>
    have reached' := Applied.reachable applied held
    obtain ⟨td, rd, plain⟩ := fromValue_holds root d adopted
    refine ⟨m, state, d, root, applied, fun same => ?_, ⟨entry, member, version, made⟩, adopted,
      merged_filledIn m d cfg'.model reached' reached (.fromValue root d adopted) ?_⟩
    · rw [same, upgradeSteps_self runtime supported known] at applied
      cases applied
      rfl
    · rw [merged, contents_eq rd, plain]

/-- In the section that user and defaults share, the user's port stays although the default has
another type, and the timeout is the default. -/
theorem shared_section_by_path :
    ∃ cfg' world', sharedVersion.synchronize ⟨1, userModel⟩ 1 ⟨(), []⟩ = (.ok .inSync, cfg', world') ∧
      cfg'.model.getValue (bytes "server.port") = .ok (ConfigValue.of (.int 8080)) ∧
      cfg'.model.getValue (bytes "server.timeout") = .ok (ConfigValue.of (.int 30)) := by
  have ran : sharedVersion.synchronize ⟨1, userModel⟩ 1 ⟨(), []⟩ =
      (.ok .inSync, (sharedVersion.synchronize ⟨1, userModel⟩ 1 ⟨(), []⟩).2) :=
    Prod.ext (by decide +kernel) rfl
  obtain ⟨m, state, d, root, _, same, ⟨entry, member, _, made⟩, adopted, filled⟩ :=
    synchronize_by_path sharedVersion.catalog sharedVersion.registry sharedVersion rfl ⟨1, userModel⟩
      _ userModel_reachable 1 ⟨(), []⟩ _ ran
  obtain rfl := same rfl
  obtain rfl := List.mem_singleton.mp member
  obtain rfl : sharedDefaults = root := by
    have returned := congrArg Prod.fst made
    cases returned
    rfl
  have held : contents userModel = Tree.object () [
      (bytes "server", Tree.object () [(bytes "port", ConfigValue.of (.int 8080))]),
      (bytes "debug", ConfigValue.of (.bool true))] := by
    decide +kernel
  have lacks : Tree.LacksKey [.key (bytes "server"), .key (bytes "timeout")] (contents userModel) := by
    rw [held]
    exact ⟨[bytes "server"], bytes "timeout", [], (), _, rfl, rfl, rfl⟩
  refine ⟨_, _, ran, filled.kept _ _ (by decide +kernel) (by decide), ?_⟩
  refine (filled.defaults (bytes "server.timeout") (by decide +kernel) _).mpr ⟨?_, _, rfl, lacks⟩
  have value : (ConfigModel.fromValue sharedDefaults.1).map (fun d =>
      d.getValue (bytes "server.timeout")) = .ok (.ok (ConfigValue.of (.int 30))) := by
    decide +kernel
  rw [adopted] at value
  exact Except.ok.inj value

end ConfigManager.Guarantees
