import ConfigManager.Programs.KeyMoves

/-!
# What moving keys does

On the contents of a model, `moveKey` from a member of the root to a setting of a section
is one `assign` and one `eraseKey`. It goes through exactly when the member is there, not
too deep for its new place and welcome in it, and so does a list of moves. An upgrade whose
migrations make moves makes them in order.
-/

set_option autoImplicit false

namespace ConfigManager.Programs
open Library Source Reference Refinement

/-! ## One move -/

/-- The two paths of the call that moves the member into its section. -/
def moveOf (s : Tree.Setting Bytes) : Bytes × Bytes := (s.key, s.group ++ bytes "." ++ s.name)

section
variable (m : ConfigModel) (reached : Reachable m) (ms : List (Bytes × ConfigValue))
  (holds : contents m = Tree.object () ms)
include reached holds
variable (s : Tree.Setting Bytes) (plain : Plain s)
include plain

/-- A member that can be moved is a setting of its section afterwards, and nothing else. -/
theorem moveKey_moves (apart : s.key ≠ s.group) (v : ConfigValue)
    (found : lookupKey s.key ms = some v) (shallow : 2 + v.height ≤ kMaxTreeDepth)
    (welcome : Tree.Welcomes sameType s.group s.name v ms) :
    (moveKey m (moveOf s).1 (moveOf s).2).1 = .ok () ∧
      contents (moveKey m (moveOf s).1 (moveOf s).2).2 =
        Tree.object () (eraseKey s.key (Tree.assign s.group s.name v ms)) := by
  have read := (member_read m reached ms holds s.key plain.key v).mpr found
  have here := (getValue_contents m reached s.key _ (parse_key s.key plain.key) v).mp read
  have fits := (fits_part _ v (reachable_admissible m reached) _ here 2).mpr shallow
  have distinct := getValue_distinct m reached s.key v read
  obtain ⟨success, after⟩ :=
    set_assigns m reached ms holds s.group s.name plain.group plain.name ⟨v, distinct⟩ fits welcome
  have still : lookupKey s.key (Tree.assign s.group s.name v ms) = some v := by
    rw [Tree.lookup_assign_ne s.group s.name s.key v ms apart, found]
  have removed := remove_erases _ (.set m _ ⟨v, distinct⟩ reached) _ after s.key plain.key v still
  have ran : moveKey m (moveOf s).1 (moveOf s).2 =
      (m.set (s.group ++ bytes "." ++ s.name) v).2.remove s.key := by
    simp only [moveKey, moveOf, read]
    exact andThen_ok _ _ success
  rw [ran]
  exact removed

theorem moveKey_stops (stuck : ¬ Movable ms s) :
    ∃ e, (moveKey m (moveOf s).1 (moveOf s).2).1 = .error e := by
  cases read : m.getValue s.key with
  | error e => exact ⟨e, by simp only [moveKey, moveOf, read]⟩
  | ok v =>
    have found := (member_read m reached ms holds s.key plain.key v).mp read
    have here := (getValue_contents m reached s.key _ (parse_key s.key plain.key) v).mp read
    have refused : ¬ (Fits 2 v ∧ Tree.Welcomes sameType s.group s.name v ms) := by
      rw [fits_part _ v (reachable_admissible m reached) _ here 2]
      exact fun both => stuck ⟨v, found, both.1, both.2⟩
    obtain ⟨e, answered⟩ := set_refuses m reached ms holds s.group s.name plain.group plain.name
      ⟨v, getValue_distinct m reached s.key v read⟩ refused
    refine ⟨e, ?_⟩
    simp only [moveKey, moveOf, read]
    exact andThen_error _ _ e answered

end

/-! ## From one section to another -/

/-- Moving a setting to another place goes through exactly when it is there and welcome. -/
theorem moveKey_between (m : ConfigModel) (reached : Reachable m) (ms : List (Bytes × ConfigValue))
    (holds : contents m = Tree.object () ms) (group name group' name' : Bytes)
    (plain : Addressable group ∧ Addressable name) (plain' : Addressable group' ∧ Addressable name')
    (different : (group, name) ≠ (group', name')) :
    ((moveKey m (group ++ bytes "." ++ name) (group' ++ bytes "." ++ name')).1 = .ok () ↔
      ∃ v, Tree.locate [.key group, .key name] (Tree.object () ms) = .ok v ∧
        Tree.Welcomes sameType group' name' v ms) ∧
    ∀ v, Tree.locate [.key group, .key name] (Tree.object () ms) = .ok v →
      Tree.Welcomes sameType group' name' v ms →
        contents (moveKey m (group ++ bytes "." ++ name) (group' ++ bytes "." ++ name')).2 =
          Tree.object () (Tree.withdraw group name (Tree.assign group' name' v ms)) := by
  have read := setting_read m reached ms holds group name plain.1 plain.2
  have moves : ∀ v, Tree.locate [.key group, .key name] (Tree.object () ms) = .ok v →
      Tree.Welcomes sameType group' name' v ms →
        (moveKey m (group ++ bytes "." ++ name) (group' ++ bytes "." ++ name')).1 = .ok () ∧
        contents (moveKey m (group ++ bytes "." ++ name) (group' ++ bytes "." ++ name')).2 =
          Tree.object () (Tree.withdraw group name (Tree.assign group' name' v ms)) := by
    intro v found welcome
    have answered := (read v).mpr found
    have distinct := getValue_distinct m reached _ v answered
    have admissible := reachable_admissible m reached
    rw [← holds] at found
    have shallow := Tree.height_locate_le _ _ _ found
    have fits : Fits 2 v := by
      rw [fits_part _ v admissible _ found]
      have bound := admissible.shallow
      simp only [List.length_cons, List.length_nil] at shallow
      omega
    rw [holds] at found
    obtain ⟨success, after⟩ :=
      set_assigns m reached ms holds group' name' plain'.1 plain'.2 ⟨v, distinct⟩ fits welcome
    have still := Tree.locate_assign_apart sameType group' name' v v ms welcome _
      (Tree.settings_apart group' name' group name different) found
    have removed := remove_withdraws _ (.set m _ ⟨v, distinct⟩ reached) _ after group name plain.1
      plain.2 v still
    have ran : moveKey m (group ++ bytes "." ++ name) (group' ++ bytes "." ++ name') =
        (m.set (group' ++ bytes "." ++ name') v).2.remove (group ++ bytes "." ++ name) := by
      simp only [moveKey, answered]
      exact andThen_ok _ _ success
    rw [ran]
    exact removed
  refine ⟨⟨fun success => ?_, fun both => ?_⟩, fun v found welcome => (moves v found welcome).2⟩
  · cases answered : m.getValue (group ++ bytes "." ++ name) with
    | error e =>
      rw [moveKey, answered] at success
      cases success
    | ok v =>
      rw [moveKey, answered] at success
      have accepted := ((andThen_iff _ _).mp success).1
      have distinct := getValue_distinct m reached _ v answered
      have welcome := (set_setting_iff m reached ms holds group' name' plain'.1 plain'.2
        ⟨v, distinct⟩).mp accepted
      exact ⟨v, (read v).mp answered, welcome.2⟩
  · obtain ⟨v, found, welcome⟩ := both
    exact (moves v found welcome).1

/-! ## Many moves -/

/-- A list of moves goes through exactly when each member can be moved; then the members moved are
gone and their sections hold them. -/
theorem moveKeys_gathers (settings : List (Tree.Setting Bytes)) (separate : Separate settings)
    (m : ConfigModel) (reached : Reachable m) (ms : List (Bytes × ConfigValue))
    (holds : contents m = Tree.object () ms) :
    ((moveKeys m (settings.map moveOf)).1 = .ok () ↔ ∀ s ∈ settings, Movable ms s) ∧
      ((moveKeys m (settings.map moveOf)).1 = .ok () →
        contents (moveKeys m (settings.map moveOf)).2 =
          Tree.object () (regroup settings ms)) := by
  induction settings generalizing m ms with
  | nil =>
    refine ⟨by simp [moveKeys], fun _ => ?_⟩
    simpa [moveKeys, regroup, Tree.gather] using holds
  | cons s settings ih =>
    have plain := separate.plain s List.mem_cons_self
    have apart := separate.apart s List.mem_cons_self
    have keys := List.nodup_cons.mp separate.keys
    have places := separate.places
    rw [List.map_cons, List.nodup_cons] at places
    have fresh : ∀ s' ∈ settings, s'.key ≠ s.key := fun s' inside same =>
      keys.1 (same ▸ List.mem_map_of_mem inside)
    have elsewhere : ∀ s' ∈ settings, (s'.group, s'.name) ≠ (s.group, s.name) := fun s' inside same =>
      places.1 (same ▸ List.mem_map_of_mem (f := fun s => (s.group, s.name)) inside)
    have outside : ∀ s' ∈ settings, s'.key ≠ s.group := fun s' inside =>
      separate.apart s' (List.mem_cons_of_mem s inside) s List.mem_cons_self
    have later : Separate settings :=
      ⟨fun s' inside => separate.plain s' (List.mem_cons_of_mem s inside), keys.2, places.2,
        fun s' inside s'' inside' => separate.apart s' (List.mem_cons_of_mem s inside) s''
          (List.mem_cons_of_mem s inside')⟩
    rw [List.map_cons, moveKeys]
    by_cases movable : Movable ms s
    · obtain ⟨v, found, shallow, welcome⟩ := movable
      obtain ⟨success, after⟩ := moveKey_moves m reached ms holds s plain (apart s List.mem_cons_self) v
        found shallow welcome
      obtain ⟨goes, ends⟩ := ih later _ (moveKey_reachable m reached _ _) _ after
      have same : ∀ s' ∈ settings, (Movable (eraseKey s.key (Tree.assign s.group s.name v ms)) s' ↔
          Movable ms s') := fun s' inside =>
        movable_after ms s s' v welcome (fresh s' inside) (elsewhere s' inside) (outside s' inside)
          (apart s' (List.mem_cons_of_mem s inside)).symm
      rw [andThen_ok _ _ success]
      constructor
      · rw [goes, List.forall_mem_cons]
        constructor
        · exact fun all => ⟨⟨v, found, shallow, welcome⟩,
            fun s' inside => (same s' inside).mp (all s' inside)⟩
        · exact fun both s' inside => (same s' inside).mpr (both.2 s' inside)
      · intro done
        have distinct := members_distinct m reached ms holds
        have taken := Tree.gather_congr ms (eraseKey s.key (Tree.assign s.group s.name v ms)) settings
          (eraseKey s.key (Tree.assign s.group s.name v ms)) fun s' inside => by
            rw [lookup_eraseKey_ne s.key s'.key _ (fresh s' inside),
              Tree.lookup_assign_ne s.group s.name s'.key v ms (outside s' inside)]
        have erased := Tree.gather_eraseKey ms settings (Tree.assign s.group s.name v ms) s.key
          fun s' inside => apart s' (List.mem_cons_of_mem s inside)
        have kept := Tree.gather_nodup ms settings _ (Tree.assign_nodup s.group s.name v ms distinct)
        rw [ends done, regroup, taken, erased, eraseKey_filter s.key _ kept, List.filter_filter, regroup,
          Tree.gather, found]
        congr 1
        apply List.filter_congr
        intro e _
        rw [Bool.eq_iff_iff, Bool.and_eq_true, decide_eq_true_eq, decide_eq_true_eq,
          decide_eq_true_eq, List.map_cons, List.mem_cons, not_or, and_comm]
    · obtain ⟨e, stopped⟩ := moveKey_stops m reached ms holds s plain movable
      rw [andThen_error _ _ e stopped]
      refine ⟨⟨fun impossible => (by cases impossible), fun all => ?_⟩, fun impossible => ?_⟩
      · exact absurd (all s List.mem_cons_self) movable
      · cases impossible

/-! ## Upgrades -/

variable {σ : Type}

/-- The edge's migration runs this body, returns what it answers and does not touch its state. -/
def Performs (edge : MigrationEdge σ) (body : ConfigModel → Result Unit × ConfigModel) : Prop :=
  ∀ m source target state,
    edge.apply.run m source target state = (.returned (body m).1, (body m).2, state)

/-- The bodies in their order, up to the first that fails. -/
def inOrder (model : ConfigModel) :
    List (ConfigModel → Result Unit × ConfigModel) → Result Unit × ConfigModel
  | [] => (.ok (), model)
  | body :: rest => andThen (body model) fun model => inOrder model rest

/-- A run of steps performs their bodies in order; where one fails the run is a failed migration. -/
theorem runSteps_performs (registry : MigrationRegistry σ)
    (bodies : VersionId × VersionId → ConfigModel → Result Unit × ConfigModel)
    (steps : List (VersionId × VersionId))
    (each : ∀ step ∈ steps, ∃ edge, registry.findMigration step.1 step.2 = .ok edge ∧
      Performs edge (bodies step))
    (config : VersionedConfig) (world : World σ) :
    ((inOrder config.model (steps.map bodies)).1 = .ok () →
      (runSteps registry steps config world).1 = .ok () ∧
        (runSteps registry steps config world).2.1 =
          ⟨steps.foldl (fun _ step => step.2) config.version,
            (inOrder config.model (steps.map bodies)).2⟩) ∧
    ((∃ e, (inOrder config.model (steps.map bodies)).1 = .error e) →
      ∃ e, (runSteps registry steps config world).1 = .error e ∧ e.code = .migrationFailed) := by
  induction steps generalizing config world with
  | nil =>
    refine ⟨fun _ => ⟨rfl, rfl⟩, fun failed => ?_⟩
    obtain ⟨e, impossible⟩ := failed
    cases impossible
  | cons step steps ih =>
    obtain ⟨source, target⟩ := step
    obtain ⟨⟨edge, found, runs⟩, later⟩ := List.forall_mem_cons.mp each
    rw [List.map_cons, inOrder, runSteps, found]
    simp only [runs config.model source target world.callbacks]
    cases performed : bodies (source, target) config.model with
    | mk answer m =>
      cases answer with
      | error e =>
        refine ⟨fun impossible => (by cases impossible), fun _ => ⟨_, rfl, rfl⟩⟩
      | ok done => exact ih later ⟨target, m⟩ _

/-- An upgrade whose steps perform bodies performs them in order, then the defaults fill in what is
missing; where a body fails the config stays as it was. -/
theorem synchronize_performs (runtime : ConfigRuntime σ) (cfg : VersionedConfig)
    (held : Reachable cfg.model) (supported : VersionId)
    (known : runtime.catalog.contains supported = true)
    (start : runtime.catalog.contains cfg.version = true) (below : cfg.version < supported)
    (bodies : VersionId × VersionId → ConfigModel → Result Unit × ConfigModel)
    (steps : List (VersionId × VersionId)) (walk : upgradeSteps runtime cfg.version supported = steps)
    (each : ∀ step ∈ steps, ∃ edge, runtime.registry.findMigration step.1 step.2 = .ok edge ∧
      Performs edge (bodies step))
    (ends : steps.foldl (fun _ step => step.2) cfg.version = supported) (defaults : BuiltValue)
    (stable : ∀ entry ∈ runtime.catalog.entries, entry.version = supported →
      ∀ state, (entry.defaultFactory.run state).1 = .returned defaults)
    (adopted : ∃ d, ConfigModel.fromValue defaults.1 = .ok d) (world : World σ) :
    ((inOrder cfg.model (steps.map bodies)).1 = .ok () → ∃ done world',
      runtime.synchronize cfg supported world = (.ok .inSync, done, world') ∧
        done.version = supported ∧ Reachable done.model ∧ contents done.model =
          Tree.merge (contents (inOrder cfg.model (steps.map bodies)).2) defaults.1) ∧
    ((∃ e, (inOrder cfg.model (steps.map bodies)).1 = .error e) → ∃ e world',
      runtime.synchronize cfg supported world = (.error e, cfg, world') ∧
        e.code = .migrationFailed) := by
  obtain ⟨runs, stops⟩ := runSteps_performs runtime.registry bodies steps each cfg world
  cases ran : runSteps runtime.registry steps cfg world with
  | mk answer rest =>
    obtain ⟨config, world'⟩ := rest
    obtain ⟨success, failure⟩ := synchronize_upgrade runtime cfg held supported known start below
      defaults stable adopted world world' answer config (by rw [walk]; exact ran)
    rw [ran] at runs stops
    constructor
    · intro performed
      obtain ⟨answered, left⟩ := runs performed
      obtain ⟨done, world'', synchronized, current, reached, merged⟩ := success answered
      simp only at left
      rw [left] at current merged
      exact ⟨done, world'', synchronized, current.trans ends, reached, merged⟩
    · intro failed
      obtain ⟨e, answered, code⟩ := stops failed
      exact ⟨e, world', failure e answered, code⟩

/-- The edge's migration makes these moves. -/
def MovesSettings (edge : MigrationEdge σ) (settings : List (Tree.Setting Bytes)) : Prop :=
  Performs edge fun m => moveKeys m (settings.map moveOf)

theorem moveKeys_append (moves moves' : List (Bytes × Bytes)) (m : ConfigModel) :
    moveKeys m (moves ++ moves') = andThen (moveKeys m moves) fun m => moveKeys m moves' := by
  induction moves generalizing m with
  | nil => rfl
  | cons move moves ih =>
    rw [List.cons_append, moveKeys, moveKeys]
    cases moved : moveKey m move.1 move.2 with
    | mk answer m' =>
      cases answer with
      | error e => rfl
      | ok done => exact ih m'

/-- Lists of moves in their order are one list. -/
theorem inOrder_moves {α : Type} (moves : α → List (Tree.Setting Bytes)) (steps : List α)
    (m : ConfigModel) :
    inOrder m (steps.map fun step m => moveKeys m ((moves step).map moveOf)) =
      moveKeys m ((steps.flatMap moves).map moveOf) := by
  induction steps generalizing m with
  | nil => rfl
  | cons step steps ih =>
    rw [List.map_cons, inOrder, List.flatMap_cons, List.map_append, moveKeys_append]
    congr 1
    funext m'
    exact ih m'

end ConfigManager.Programs
