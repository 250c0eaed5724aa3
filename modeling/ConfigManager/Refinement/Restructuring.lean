import ConfigManager.Library.TreeSections
import ConfigManager.Refinement.PathScanning
import ConfigManager.Refinement.Synchronization

/-!
# Settings in their sections

What `getValue`, `set` and `remove` do to the contents of a model, for any path, for a member
of the root and for a setting of a section. Members that move to sections one after the other
leave the tree `regroup` describes.
-/

set_option autoImplicit false

namespace ConfigManager.Refinement
open Library Source Reference

/-! ## The operations on the contents -/

section
variable (m : ConfigModel) (reached : Reachable m) (path : Bytes) (segments : List PathSegment)
  (parsed : ConfigPath.parse path = .ok segments)
include reached

theorem reachable_admissible : Admissible (contents m) := by
  obtain ⟨t, r⟩ := reachable_represents reached
  rw [contents_eq r]
  exact r.admissible

theorem members_distinct (ms : List (Bytes × ConfigValue)) (holds : contents m = Tree.object () ms) :
    (ms.map Prod.fst).Nodup := by
  have built := (reachable_admissible m reached).keysDistinct
  rw [holds, ConfigValue.keysDistinct_object] at built
  exact built.1

include parsed

theorem getValue_contents (v : ConfigValue) :
    m.getValue path = .ok v ↔ Tree.locate segments (contents m) = .ok v := by
  obtain ⟨t, r⟩ := reachable_represents reached
  rw [contents_eq r]
  exact getValue_iff m t r path segments parsed v

theorem set_contents (value : BuiltValue) (t' : ConfigValue) (fits : Fits segments.length value.1)
    (written : Tree.upsert sameType segments value.1 (contents m) = .ok t') :
    (m.set path value.1).1 = .ok () ∧ contents (m.set path value.1).2 = t' := by
  obtain ⟨t, r⟩ := reachable_represents reached
  rw [contents_eq r] at written
  have spec := set_spec m t r path value.1 value.2
  rw [Reference.set, parsed, outcome_ok] at spec
  simp only [if_pos fits, written, coded_ok] at spec
  obtain ⟨success, t'', r', plain, _⟩ := spec
  exact ⟨success, (contents_eq r').trans plain⟩

theorem set_unfit (value : BuiltValue) (unfit : ¬ Fits segments.length value.1) :
    ∃ e, (m.set path value.1).1 = .error e := by
  obtain ⟨t, r⟩ := reachable_represents reached
  have spec := set_spec m t r path value.1 value.2
  rw [Reference.set, parsed, outcome_ok] at spec
  simp only [if_neg unfit] at spec
  cases answer : (m.set path value.1).1 with
  | error e => exact ⟨e, rfl⟩
  | ok done =>
    rw [answer] at spec
    cases spec.1

theorem set_stopped (value : BuiltValue) (f : Fault)
    (stopped : Tree.upsert sameType segments value.1 (contents m) = .error f) :
    ∃ e, (m.set path value.1).1 = .error e := by
  obtain ⟨t, r⟩ := reachable_represents reached
  rw [contents_eq r] at stopped
  cases answer : (m.set path value.1).1 with
  | error e => exact ⟨e, rfl⟩
  | ok done =>
    obtain ⟨t', _, written⟩ := (set_written m t r path segments parsed value.1 value.2).1 answer
    rw [stopped] at written
    cases written

theorem remove_contents (t' : ConfigValue) (cut : Tree.remove segments (contents m) = .ok t') :
    (m.remove path).1 = .ok () ∧ contents (m.remove path).2 = t' := by
  obtain ⟨t, r⟩ := reachable_represents reached
  rw [contents_eq r] at cut
  have spec := remove_spec m t r path
  rw [Reference.remove, parsed, outcome_ok] at spec
  simp only [cut, coded_ok] at spec
  obtain ⟨success, t'', r', plain, _⟩ := spec
  exact ⟨success, (contents_eq r').trans plain⟩

end

/-- What is read from a model has distinct keys. -/
theorem getValue_distinct (m : ConfigModel) (reached : Reachable m) (path : Bytes) (v : ConfigValue)
    (read : m.getValue path = .ok v) : v.KeysDistinct := by
  obtain ⟨t, r⟩ := reachable_represents reached
  cases parsed : ConfigPath.parse path with
  | error e => simp [ConfigModel.getValue, parsed] at read
  | ok segments =>
    have found := (getValue_iff m t r path segments parsed v).mp read
    exact Tree.Every.locate r.admissible.keysDistinct segments found

/-- A part of an admissible tree fits at a depth that its height allows. -/
theorem fits_part (t v : ConfigValue) (ok : Admissible t) (p : List PathSegment)
    (found : Tree.locate p t = .ok v) (depth : Nat) :
    Fits depth v ↔ depth + v.height ≤ kMaxTreeDepth := by
  have keyed := Tree.Every.locate ok.keys p found
  exact ⟨fun fits => fits.2, fun shallow => ⟨keyed.mono fun _ here => here.2, shallow⟩⟩

/-! ## One setting -/

structure Plain (s : Tree.Setting Bytes) : Prop where
  key : Addressable s.key
  group : Addressable s.group
  name : Addressable s.name

instance (s : Tree.Setting Bytes) : Decidable (Plain s) :=
  decidable_of_iff (Addressable s.key ∧ Addressable s.group ∧ Addressable s.name)
    ⟨fun all => ⟨all.1, all.2.1, all.2.2⟩, fun plain => ⟨plain.key, plain.group, plain.name⟩⟩

theorem parse_key (name : Bytes) (plain : Addressable name) :
    ConfigPath.parse name = .ok [.key name] := by
  have parsed := parse_renderPath name [] (by simpa using plain) (by simp)
  simpa [renderPath] using parsed

theorem parse_setting (group name : Bytes) (plain : Addressable group) (plain' : Addressable name) :
    ConfigPath.parse (group ++ bytes "." ++ name) = .ok [.key group, .key name] := by
  have parsed := parse_renderPath group [.key name] (by
    intro key inside
    rcases List.mem_cons.mp inside with same | inside
    · cases same
      exact plain
    · cases List.mem_singleton.mp inside
      exact plain') (by simp)
  have text : renderPath [.key group, .key name] = group ++ bytes "." ++ name := by
    rw [List.append_assoc]
    simp only [renderPath, List.flatMap_cons, List.flatMap_nil, List.append_nil]
    rfl
  rwa [text] at parsed

/-- The flat keys and the places they move to are distinct, and no flat key is a section. -/
structure Separate (settings : List (Tree.Setting Bytes)) : Prop where
  plain : ∀ s ∈ settings, Plain s
  keys : (settings.map Tree.Setting.key).Nodup
  places : (settings.map fun s => (s.group, s.name)).Nodup
  apart : ∀ s ∈ settings, ∀ s' ∈ settings, s.key ≠ s'.group

/-- The member is there, it is not too deep for a setting, and the section accepts it. -/
def Movable (ms : List (Bytes × ConfigValue)) (s : Tree.Setting Bytes) : Prop :=
  ∃ v, lookupKey s.key ms = some v ∧ 2 + v.height ≤ kMaxTreeDepth ∧
    Tree.Welcomes sameType s.group s.name v ms

section
variable (m : ConfigModel) (reached : Reachable m) (ms : List (Bytes × ConfigValue))
  (holds : contents m = Tree.object () ms)
include reached holds

theorem member_read (key : Bytes) (plain : Addressable key) (v : ConfigValue) :
    m.getValue key = .ok v ↔ lookupKey key ms = some v := by
  rw [getValue_contents m reached key _ (parse_key key plain), holds, Tree.locate, Tree.descend]
  cases lookupKey key ms with
  | none => simp
  | some w => simp [Tree.locate]

/-- A setting that fits and is welcome is assigned. -/
theorem set_assigns (group name : Bytes) (plain : Addressable group) (plain' : Addressable name)
    (v : BuiltValue) (fits : Fits 2 v.1) (welcome : Tree.Welcomes sameType group name v.1 ms) :
    (m.set (group ++ bytes "." ++ name) v.1).1 = .ok () ∧
      contents (m.set (group ++ bytes "." ++ name) v.1).2 =
        Tree.object () (Tree.assign group name v.1 ms) := by
  have written := Tree.upsert_assign sameType group name v.1 ms welcome
  rw [← holds] at written
  exact set_contents m reached _ _ (parse_setting group name plain plain') v _ fits written

theorem set_refuses (group name : Bytes) (plain : Addressable group) (plain' : Addressable name)
    (v : BuiltValue) (refused : ¬ (Fits 2 v.1 ∧ Tree.Welcomes sameType group name v.1 ms)) :
    ∃ e, (m.set (group ++ bytes "." ++ name) v.1).1 = .error e := by
  have parsed := parse_setting group name plain plain'
  by_cases fits : Fits 2 v.1
  · obtain ⟨f, stopped⟩ := Tree.upsert_refused sameType group name v.1 ms
      fun welcome => refused ⟨fits, welcome⟩
    rw [← holds] at stopped
    exact set_stopped m reached _ _ parsed v f stopped
  · exact set_unfit m reached _ _ parsed v fits

theorem set_setting_iff (group name : Bytes) (plain : Addressable group) (plain' : Addressable name)
    (v : BuiltValue) : (m.set (group ++ bytes "." ++ name) v.1).1 = .ok () ↔
      Fits 2 v.1 ∧ Tree.Welcomes sameType group name v.1 ms := by
  by_cases fine : Fits 2 v.1 ∧ Tree.Welcomes sameType group name v.1 ms
  · have assigned := set_assigns m reached ms holds group name plain plain' v fine.1 fine.2
    exact ⟨fun _ => fine, fun _ => assigned.1⟩
  · obtain ⟨e, refused⟩ := set_refuses m reached ms holds group name plain plain' v fine
    refine ⟨fun success => ?_, fun accepted => absurd accepted fine⟩
    rw [refused] at success
    cases success

theorem setting_read (group name : Bytes) (plain : Addressable group) (plain' : Addressable name)
    (v : ConfigValue) : m.getValue (group ++ bytes "." ++ name) = .ok v ↔
      Tree.locate [.key group, .key name] (Tree.object () ms) = .ok v := by
  rw [← holds]
  exact getValue_contents m reached _ _ (parse_setting group name plain plain') v

/-- A setting that is there can be removed. -/
theorem remove_withdraws (group name : Bytes) (plain : Addressable group) (plain' : Addressable name)
    (v : ConfigValue) (found : Tree.locate [.key group, .key name] (Tree.object () ms) = .ok v) :
    (m.remove (group ++ bytes "." ++ name)).1 = .ok () ∧
      contents (m.remove (group ++ bytes "." ++ name)).2 =
        Tree.object () (Tree.withdraw group name ms) := by
  have cut := Tree.remove_setting group name () ms v found
  rw [← holds] at cut
  exact remove_contents m reached _ _ (parse_setting group name plain plain') _ cut

theorem remove_erases (key : Bytes) (plain : Addressable key) (v : ConfigValue)
    (found : lookupKey key ms = some v) :
    (m.remove key).1 = .ok () ∧ contents (m.remove key).2 = Tree.object () (eraseKey key ms) := by
  have cut := Tree.remove_member key () ms v found
  rw [← holds] at cut
  exact remove_contents m reached key _ (parse_key key plain) _ cut

end

/-! ## Many settings -/

/-- A move leaves another member as movable as it was. -/
theorem movable_after (ms : List (Bytes × ConfigValue)) (s s' : Tree.Setting Bytes) (v : ConfigValue)
    (welcome : Tree.Welcomes sameType s.group s.name v ms) (keys : s'.key ≠ s.key)
    (places : (s'.group, s'.name) ≠ (s.group, s.name)) (apart : s'.key ≠ s.group)
    (apart' : s'.group ≠ s.key) :
    Movable (eraseKey s.key (Tree.assign s.group s.name v ms)) s' ↔ Movable ms s' := by
  unfold Movable
  simp only [lookup_eraseKey_ne s.key s'.key _ keys,
    Tree.lookup_assign_ne s.group s.name s'.key v ms apart,
    Tree.welcomes_eraseKey sameType s'.group s'.name s.key _ _ apart',
    Tree.welcomes_assign sameType s.group s.name s'.group s'.name v _ ms welcome places]

/-- The members once the settings moved to their sections. -/
def regroup (settings : List (Tree.Setting Bytes)) (ms : List (Bytes × ConfigValue)) :
    List (Bytes × ConfigValue) :=
  (Tree.gather ms settings ms).filter fun e => e.1 ∉ settings.map Tree.Setting.key

/-! ## Reading the regrouped members -/

section
variable (settings : List (Tree.Setting Bytes)) (ms : List (Bytes × ConfigValue))

theorem regroup_lookup (key : Bytes) (other : key ∉ settings.map Tree.Setting.key) :
    lookupKey key (regroup settings ms) = lookupKey key (Tree.gather ms settings ms) :=
  lookup_filter_keys (fun k => decide (k ∉ settings.map Tree.Setting.key)) key _ (decide_eq_true other)

theorem regroup_gone (key : Bytes) (moved : key ∈ settings.map Tree.Setting.key) :
    lookupKey key (regroup settings ms) = none := by
  rw [lookup_none_iff]
  intro member
  obtain ⟨e, inside, same⟩ := List.mem_map.mp member
  have left := (List.mem_filter.mp inside).2
  rw [decide_eq_true_eq, same] at left
  exact left moved

theorem regroup_locate (key : Bytes) (rest : List PathSegment) (v : ConfigValue)
    (other : key ∉ settings.map Tree.Setting.key) :
    Tree.locate (.key key :: rest) (Tree.object () (regroup settings ms)) = .ok v ↔
      Tree.locate (.key key :: rest) (Tree.object () (Tree.gather ms settings ms)) = .ok v := by
  simp only [Tree.locate, Tree.descend, regroup_lookup settings ms key other]

variable (separate : Separate settings) (movable : ∀ s ∈ settings, Movable ms s)
include movable

theorem movable_welcome : Tree.WelcomesAll sameType ms settings ms := by
  intro s inside v found
  obtain ⟨w, held, _, welcome⟩ := movable s inside
  rw [found, Option.some.injEq] at held
  rw [held]
  exact welcome

include separate

theorem regroup_moved (s : Tree.Setting Bytes) (inside : s ∈ settings) (v : ConfigValue)
    (found : lookupKey s.key ms = some v) :
    Tree.locate [.key s.group, .key s.name] (Tree.object () (regroup settings ms)) = .ok v := by
  refine (regroup_locate settings ms s.group _ v fun member => ?_).mpr ?_
  · obtain ⟨s', inside', same⟩ := List.mem_map.mp member
    exact separate.apart s' inside' s inside same
  · exact Tree.locate_gather sameType ms settings ms separate.places
      (movable_welcome settings ms movable) s inside v found

theorem regroup_kept (p : List PathSegment) (v : ConfigValue) (nonempty : p ≠ [])
    (apart : ∀ s ∈ settings, Tree.Apart p [.key s.key] ∧ Tree.Apart p [.key s.group, .key s.name])
    (found : Tree.locate p (Tree.object () ms) = .ok v) :
    Tree.locate p (Tree.object () (regroup settings ms)) = .ok v := by
  have gathered := Tree.locate_gather_apart sameType ms settings ms separate.places
    (movable_welcome settings ms movable) p v (fun s inside => (apart s inside).2) found
  cases p with
  | nil => exact absurd rfl nonempty
  | cons step rest =>
    cases step with
    | index i => simp [Tree.locate, Tree.descend] at found
    | key key =>
      refine (regroup_locate settings ms key rest v fun member => ?_).mpr gathered
      obtain ⟨s, inside, same⟩ := List.mem_map.mp member
      refine (apart s inside).1.2 ?_
      rw [same, List.cons_prefix_cons]
      exact ⟨rfl, List.nil_prefix⟩

/-- A section accepts another setting as it did before. -/
theorem regroup_welcomes (group name : Bytes) (value : ConfigValue)
    (other : group ∉ settings.map Tree.Setting.key)
    (fresh : ∀ s ∈ settings, (group, name) ≠ (s.group, s.name)) :
    Tree.Welcomes sameType group name value (regroup settings ms) ↔
      Tree.Welcomes sameType group name value ms := by
  rw [← Tree.welcomes_gather sameType ms settings ms separate.places
    (movable_welcome settings ms movable) group name value fresh]
  unfold Tree.Welcomes
  rw [regroup_lookup settings ms group other]

end

/-! ## Upgrades -/

variable {σ : Type}

/-- An upgrade between registered versions is the run of its steps, then the merge of the defaults. -/
theorem synchronize_upgrade (runtime : ConfigRuntime σ) (cfg : VersionedConfig)
    (held : Reachable cfg.model) (supported : VersionId)
    (known : runtime.catalog.contains supported = true)
    (start : runtime.catalog.contains cfg.version = true) (below : cfg.version < supported)
    (defaults : BuiltValue)
    (stable : ∀ entry ∈ runtime.catalog.entries, entry.version = supported →
      ∀ state, (entry.defaultFactory.run state).1 = .returned defaults)
    (adopted : ∃ d, ConfigModel.fromValue defaults.1 = .ok d) (world world' : World σ)
    (answer : Result Unit) (config : VersionedConfig)
    (ran : runSteps runtime.registry (upgradeSteps runtime cfg.version supported) cfg world =
      (answer, config, world')) :
    (answer = .ok () → ∃ done after, runtime.synchronize cfg supported world =
        (.ok .inSync, done, after) ∧ done.version = config.version ∧ Reachable done.model ∧
        contents done.model = Tree.merge (contents config.model) defaults.1) ∧
      ∀ e, answer = .error e → runtime.synchronize cfg supported world = (.error e, cfg, world') := by
  have migrated : MigrationEngine.migrate runtime.catalog runtime.registry cfg supported world =
      (answer, config, world') := by
    rw [migrate_eq_runSteps runtime.catalog runtime.registry cfg supported world start known
      (le_of_lt below)]
    exact ran
  have copied : (⟨cfg.version, cfg.model.clone⟩ : VersionedConfig) = cfg := rfl
  have status : (ConfigRuntime.inspect cfg supported).status = .upgradeRequired :=
    (inspect_upgrade_iff cfg supported).mpr below
  have reached : Reachable config.model := by
    have kept := runSteps_reachable runtime.registry (upgradeSteps runtime cfg.version supported) cfg
      world held
    rwa [ran] at kept
  unfold ConfigRuntime.synchronize
  simp only [known, start, status, copied, ConfigRuntime.upgrade, migrated, Bool.not_true,
    Bool.false_eq_true, if_false, if_true, reduceCtorEq, and_false]
  constructor
  · rintro rfl
    obtain ⟨entry, member, version, phase⟩ :=
      repair_cases runtime supported known config.model reached world'
    have same := stable entry member version world'.callbacks
    rcases phase with ⟨e, after, outcome, repaired, made, _, cause⟩ |
      ⟨added, m', after, root, d, repaired, made, _, _, reached', merged, _⟩
    · rw [made] at same
      simp only at same
      subst same
      obtain ⟨d, adopted⟩ := adopted
      rcases cause with ⟨threw, _⟩ | ⟨root, back, refused⟩
      · exact threw.elim
      · cases back
        rw [adopted] at refused
        cases refused
    · rw [made] at same
      cases same
      simp only [repaired, Bool.true_or, if_true]
      exact ⟨_, _, rfl, rfl, reached', merged⟩
  · rintro e rfl
    rfl

end ConfigManager.Refinement
