import ConfigManager.Guarantees.MovedUpgrades
import ConfigManager.Guarantees.RelaygateMigrations

/-!
# The gateway's upgrade from its first to its third version

Its two migrations move, rename and nest what the user set, and make a text of a flag. The
upgrade goes through exactly for the configs `Upgradable` describes; it loses nothing that
the user set, and a config it cannot bring up stays as it was.
-/

set_option autoImplicit false

namespace ConfigManager.Guarantees
open Library Source Reference Refinement Programs

variable {σ : Type}

/-- What a config of the first version must hold. -/
structure Upgradable (ms : List (Bytes × ConfigValue)) (verbose : Bool)
    (host port connections : ConfigValue) : Prop where
  flat : Flat ms verbose
  hostAt : lookupKey (bytes "server_host") ms = some host
  portAt : lookupKey (bytes "server_port") ms = some port
  connectionsAt : lookupKey (bytes "max_connections") ms = some connections
  /-- They end up in an object in an array, two levels below their section. -/
  hostShallow : 4 + host.height ≤ kMaxTreeDepth
  portShallow : 4 + port.height ≤ kMaxTreeDepth
  listeners : Tree.Welcomes sameType (bytes "server") (bytes "listeners") (listenersOf host port) ms
  limits : Tree.Welcomes sameType (bytes "limits") (bytes "max_connections") connections ms

/-- The members after both migrations. -/
def upgraded (verbose : Bool) (host port connections : ConfigValue)
    (ms : List (Bytes × ConfigValue)) : List (Bytes × ConfigValue) :=
  limited connections (listening host port (leveled verbose (regroup flatMoved ms)))

/-! ## The first migration's result, read -/

theorem leveled_lookup (verbose : Bool) (ms : List (Bytes × ConfigValue)) (key : Bytes)
    (other : key ≠ bytes "verbose" ∧ key ≠ bytes "logging") :
    lookupKey key (leveled verbose ms) = lookupKey key ms := by
  rw [leveled, lookup_eraseKey_ne _ key _ other.1, Tree.lookup_assign_ne _ _ key _ ms other.2]

theorem leveled_locate (verbose : Bool) (ms : List (Bytes × ConfigValue)) (key : Bytes)
    (rest : List PathSegment) (other : key ≠ bytes "verbose" ∧ key ≠ bytes "logging") :
    Tree.locate (.key key :: rest) (Tree.object () (leveled verbose ms)) =
      Tree.locate (.key key :: rest) (Tree.object () ms) := by
  simp only [Tree.locate, Tree.descend, leveled_lookup verbose ms key other]

section
variable {ms : List (Bytes × ConfigValue)} {verbose : Bool} (flat : Flat ms verbose)
include flat

/-- A moved member is the setting of its section, and that only. -/
theorem flat_setting (s : Tree.Setting Bytes) (inside : s ∈ flatMoved) (v : ConfigValue) :
    Tree.locate [.key s.group, .key s.name] (Tree.object () (regroup flatMoved ms)) = .ok v ↔
      lookupKey s.key ms = some v := by
  have moved := regroup_moved flatMoved ms flatMoved_separate flat.movable s inside
  refine ⟨fun found => ?_, moved v⟩
  obtain ⟨w, held, _⟩ := flat.movable s inside
  have here := moved w held
  rw [found, Except.ok.injEq] at here
  rw [held, here]

/-- Its sections accept what they accepted before. -/
theorem leveled_welcomes (group name : Bytes) (value : ConfigValue)
    (other : group ≠ bytes "verbose" ∧ group ≠ bytes "logging")
    (unmoved : group ∉ flatMoved.map Tree.Setting.key)
    (fresh : ∀ s ∈ flatMoved, (group, name) ≠ (s.group, s.name)) :
    Tree.Welcomes sameType group name value (leveled verbose (regroup flatMoved ms)) ↔
      Tree.Welcomes sameType group name value ms := by
  rw [← regroup_welcomes flatMoved ms flatMoved_separate flat.movable group name value unmoved fresh]
  unfold Tree.Welcomes
  rw [leveled_lookup verbose _ group other]

/-- What the second migration needs is there exactly when the first version had it. -/
theorem sectioned_iff (host port connections : ConfigValue) :
    Sectioned (leveled verbose (regroup flatMoved ms)) host port connections ↔
      Upgradable ms verbose host port connections := by
  have server := fun name : Bytes => leveled_locate verbose (regroup flatMoved ms) (bytes "server")
    [.key name] (by decide)
  have hostAt := flat_setting flat ⟨bytes "server_host", bytes "server", bytes "host"⟩
    (by simp [flatMoved]) host
  have portAt := flat_setting flat ⟨bytes "server_port", bytes "server", bytes "port"⟩
    (by simp [flatMoved]) port
  have connectionsAt := flat_setting flat
    ⟨bytes "max_connections", bytes "server", bytes "max_connections"⟩
    (by simp [flatMoved]) connections
  have listeners := leveled_welcomes flat (bytes "server") (bytes "listeners") (listenersOf host port)
    (by decide) (by decide) (by decide)
  have limits := leveled_welcomes flat (bytes "limits") (bytes "max_connections") connections
    (by decide) (by decide) (by decide)
  constructor
  · intro ready
    exact ⟨flat, hostAt.mp ((server _).symm.trans ready.hostAt),
      portAt.mp ((server _).symm.trans ready.portAt),
      connectionsAt.mp ((server _).symm.trans ready.connectionsAt), ready.hostShallow,
      ready.portShallow, listeners.mp ready.listeners, limits.mp ready.limits⟩
  · intro ready
    exact ⟨(server _).trans (hostAt.mpr ready.hostAt), (server _).trans (portAt.mpr ready.portAt),
      (server _).trans (connectionsAt.mpr ready.connectionsAt), ready.hostShallow, ready.portShallow,
      listeners.mpr ready.listeners, limits.mpr ready.limits⟩

end

/-- Both migrations go through exactly on what is upgradable. -/
theorem migrations_spec (m : ConfigModel) (reached : Reachable m) (ms : List (Bytes × ConfigValue))
    (holds : contents m = Tree.object () ms) :
    ((inOrder m [Relaygate.migrateV1ToV2, Relaygate.migrateV2ToV3]).1 = .ok () ↔
      ∃ verbose host port connections, Upgradable ms verbose host port connections) ∧
    ∀ verbose host port connections, Upgradable ms verbose host port connections →
      contents (inOrder m [Relaygate.migrateV1ToV2, Relaygate.migrateV2ToV3]).2 =
        Tree.object () (upgraded verbose host port connections ms) := by
  obtain ⟨first, after⟩ := migrateV1ToV2_spec m reached ms holds
  have reached₁ := Relaygate.migrateV1ToV2_reachable m reached
  have order : inOrder m [Relaygate.migrateV1ToV2, Relaygate.migrateV2ToV3] =
      andThen (Relaygate.migrateV1ToV2 m) fun m => andThen (Relaygate.migrateV2ToV3 m)
        fun m => (.ok (), m) := rfl
  rw [order, andThen_iff, andThen_iff, first]
  constructor
  · constructor
    · intro both
      obtain ⟨⟨verbose, flat⟩, second, _⟩ := both
      obtain ⟨host, port, connections, ready⟩ :=
        (migrateV2ToV3_spec _ reached₁ _ (after verbose flat)).1.mp second
      exact ⟨verbose, host, port, connections, (sectioned_iff flat host port connections).mp ready⟩
    · intro upgradable
      obtain ⟨verbose, host, port, connections, ready⟩ := upgradable
      have second := (migrateV2ToV3_spec _ reached₁ _ (after verbose ready.flat)).1.mpr
        ⟨host, port, connections, (sectioned_iff ready.flat host port connections).mpr ready⟩
      exact ⟨⟨verbose, ready.flat⟩, second, rfl⟩
  · intro verbose host port connections ready
    have sectioned := (sectioned_iff ready.flat host port connections).mpr ready
    obtain ⟨second, ends⟩ := migrateV2ToV3_spec _ reached₁ _ (after verbose ready.flat)
    have success := second.mpr ⟨host, port, connections, sectioned⟩
    rw [andThen_ok _ _ (first.mpr ⟨verbose, ready.flat⟩), andThen_ok _ _ success]
    exact ends host port connections sectioned

/-! ## What is left of the user's members -/

/-- The places that the migrations read or write. -/
def touched : List (List PathSegment) :=
  (flatMoved.map fun s => [.key s.key]) ++ (flatMoved.map fun s => [.key s.group, .key s.name]) ++
    [[.key (bytes "verbose")], [.key (bytes "logging"), .key (bytes "level")],
      [.key (bytes "server"), .key (bytes "listeners")],
      [.key (bytes "limits"), .key (bytes "max_connections")]]

theorem leveled_kept (verbose : Bool) (ms : List (Bytes × ConfigValue))
    (welcome : Tree.Welcomes sameType (bytes "logging") (bytes "level") (levelOf verbose).1 ms)
    (p : List PathSegment) (v : ConfigValue)
    (apart : Tree.Apart p [.key (bytes "verbose")] ∧
      Tree.Apart p [.key (bytes "logging"), .key (bytes "level")])
    (found : Tree.locate p (Tree.object () ms) = .ok v) :
    Tree.locate p (Tree.object () (leveled verbose ms)) = .ok v := by
  have assigned := Tree.locate_assign_apart sameType _ _ _ v ms welcome p apart.2 found
  cases p with
  | nil => exact absurd List.nil_prefix apart.1.1
  | cons step rest =>
    cases step with
    | index i => simp [Tree.locate, Tree.descend] at found
    | key key =>
      have other : key ≠ bytes "verbose" := by
        rintro rfl
        exact apart.1.2 ⟨rest, rfl⟩
      simp only [leveled, Tree.locate, Tree.descend, lookup_eraseKey_ne _ key _ other]
      simpa only [Tree.locate, Tree.descend] using assigned

theorem limited_kept (ms : List (Bytes × ConfigValue)) (connections : ConfigValue)
    (connectionsAt : Tree.locate [.key (bytes "server"), .key (bytes "max_connections")]
      (Tree.object () ms) = .ok connections)
    (welcome : Tree.Welcomes sameType (bytes "limits") (bytes "max_connections") connections ms)
    (p : List PathSegment) (v : ConfigValue)
    (apart : Tree.Apart p [.key (bytes "server"), .key (bytes "max_connections")] ∧
      Tree.Apart p [.key (bytes "limits"), .key (bytes "max_connections")])
    (found : Tree.locate p (Tree.object () ms) = .ok v) :
    Tree.locate p (Tree.object () (limited connections ms)) = .ok v := by
  have still := Tree.locate_assign_apart sameType _ _ connections connections ms welcome _
    (Tree.settings_apart _ _ _ _ (by decide)) connectionsAt
  have assigned := Tree.locate_assign_apart sameType _ _ _ v ms welcome p apart.2 found
  exact Tree.locate_withdraw_apart _ _ () _ connections v still p apart.1 assigned

section
variable {ms : List (Bytes × ConfigValue)} {verbose : Bool} {host port connections : ConfigValue}
  (ready : Upgradable ms verbose host port connections)
include ready

/-- Once the address is a listener, the limit is where it was and can move. -/
theorem limit_left :
    Tree.locate [.key (bytes "server"), .key (bytes "max_connections")]
      (Tree.object () (listening host port (leveled verbose (regroup flatMoved ms)))) =
        .ok connections ∧
    Tree.Welcomes sameType (bytes "limits") (bytes "max_connections") connections
      (listening host port (leveled verbose (regroup flatMoved ms))) := by
  have sectioned := (sectioned_iff ready.flat host port connections).mpr ready
  constructor
  · refine listening_kept sectioned.hostAt sectioned.portAt sectioned.listeners _ connections
      (fun name known => Tree.settings_apart _ _ _ _ ?_) sectioned.connectionsAt
    revert name
    decide
  · unfold Tree.Welcomes
    rw [listening_lookup _ _ _ (bytes "limits") (by decide)]
    exact sectioned.limits

/-- What the first migration leaves and the second does not touch is there afterwards. -/
theorem second_kept (p : List PathSegment) (v : ConfigValue)
    (apart : ∀ name ∈ [bytes "listeners", bytes "host", bytes "port", bytes "max_connections"],
      Tree.Apart p [.key (bytes "server"), .key name])
    (apart' : Tree.Apart p [.key (bytes "limits"), .key (bytes "max_connections")])
    (found : Tree.locate p (Tree.object () (leveled verbose (regroup flatMoved ms))) = .ok v) :
    Tree.locate p (Tree.object () (upgraded verbose host port connections ms)) = .ok v := by
  have sectioned := (sectioned_iff ready.flat host port connections).mpr ready
  obtain ⟨connectionsAt, limits⟩ := limit_left ready
  refine limited_kept _ connections connectionsAt limits p v ⟨apart _ (by decide), apart'⟩ ?_
  refine listening_kept sectioned.hostAt sectioned.portAt sectioned.listeners p v
    (fun name known => apart name ?_) found
  revert name
  decide

theorem level_welcome : Tree.Welcomes sameType (bytes "logging") (bytes "level") (levelOf verbose).1
    (regroup flatMoved ms) :=
  (regroup_welcomes flatMoved ms flatMoved_separate ready.flat.movable (bytes "logging")
    (bytes "level") (levelOf verbose).1 (by decide) (by decide)).mpr ready.flat.level

/-- What no migration touches stays. -/
theorem upgraded_kept (p : List PathSegment) (v : ConfigValue)
    (apart : ∀ q ∈ touched, Tree.Apart p q) (found : Tree.locate p (Tree.object () ms) = .ok v) :
    Tree.locate p (Tree.object () (upgraded verbose host port connections ms)) = .ok v := by
  have flag : Tree.Apart p [.key (bytes "verbose")] := apart _ (by simp [touched])
  have nonempty : p ≠ [] := by
    rintro rfl
    exact flag.1 List.nil_prefix
  have regrouped := regroup_kept flatMoved ms flatMoved_separate ready.flat.movable p v nonempty
    (fun s inside => ⟨apart _ ?_, apart _ ?_⟩) found
  · have leveled := leveled_kept verbose _ (level_welcome ready) p v
      ⟨flag, apart _ (by simp [touched])⟩ regrouped
    refine second_kept ready p v (fun name known => apart _ ?_) (apart _ (by simp [touched])) leveled
    simp only [List.mem_cons, List.not_mem_nil, or_false] at known
    rcases known with rfl | rfl | rfl | rfl <;> simp [touched, flatMoved]
  · exact List.mem_append_left _ (List.mem_append_left _ (List.mem_map_of_mem inside))
  · exact List.mem_append_left _ (List.mem_append_right _ (List.mem_map_of_mem inside))

/-- The address is the only listener. -/
theorem upgraded_listeners :
    Tree.locate [.key (bytes "server"), .key (bytes "listeners")]
      (Tree.object () (upgraded verbose host port connections ms)) = .ok (listenersOf host port) := by
  have sectioned := (sectioned_iff ready.flat host port connections).mpr ready
  obtain ⟨hosts, ports⟩ := address_left sectioned.hostAt sectioned.portAt sectioned.listeners
  have set := Tree.locate_assign sameType (bytes "server") (bytes "listeners") _ _ sectioned.listeners
  have withdrawn := Tree.locate_withdraw_apart _ _ () _ host _ hosts _
    (Tree.settings_apart _ _ _ _ (by decide)) set
  have listening := Tree.locate_withdraw_apart _ _ () _ port _ ports _
    (Tree.settings_apart _ _ _ _ (by decide)) withdrawn
  obtain ⟨connectionsAt, limits⟩ := limit_left ready
  exact limited_kept _ connections connectionsAt limits _ _
    ⟨Tree.settings_apart _ _ _ _ (by decide), Tree.settings_apart _ _ _ _ (by decide)⟩ listening

theorem upgraded_connections :
    Tree.locate [.key (bytes "limits"), .key (bytes "max_connections")]
      (Tree.object () (upgraded verbose host port connections ms)) = .ok connections := by
  obtain ⟨connectionsAt, limits⟩ := limit_left ready
  have set := Tree.locate_assign sameType (bytes "limits") (bytes "max_connections") _ _ limits
  have still := Tree.locate_assign_apart sameType _ _ connections connections _ limits _
    (Tree.settings_apart _ _ _ _ (by decide)) connectionsAt
  exact Tree.locate_withdraw_apart _ _ () _ connections _ still _
    (Tree.settings_apart _ _ _ _ (by decide)) set

/-- A setting of the section "logging" that the first migration leaves. -/
theorem logging_kept (name : Bytes) (v : ConfigValue)
    (found : Tree.locate [.key (bytes "logging"), .key name]
      (Tree.object () (leveled verbose (regroup flatMoved ms))) = .ok v) :
    Tree.locate [.key (bytes "logging"), .key name]
      (Tree.object () (upgraded verbose host port connections ms)) = .ok v := by
  exact second_kept ready _ v (fun _ _ => Tree.heads_apart _ _ _ _ (by decide))
    (Tree.heads_apart _ _ _ _ (by decide)) found

theorem upgraded_level :
    Tree.locate [.key (bytes "logging"), .key (bytes "level")]
      (Tree.object () (upgraded verbose host port connections ms)) = .ok (levelOf verbose).1 := by
  have set := Tree.locate_assign sameType (bytes "logging") (bytes "level") _ _ (level_welcome ready)
  refine logging_kept ready (bytes "level") _ ?_
  simpa only [leveled, Tree.locate, Tree.descend,
    lookup_eraseKey_ne (bytes "verbose") (bytes "logging") _ (by decide)] using set

theorem upgraded_file (v : ConfigValue) (had : lookupKey (bytes "log_file") ms = some v) :
    Tree.locate [.key (bytes "logging"), .key (bytes "file")]
      (Tree.object () (upgraded verbose host port connections ms)) = .ok v := by
  have moved := (flat_setting ready.flat ⟨bytes "log_file", bytes "logging", bytes "file"⟩
    (by simp [flatMoved]) v).mpr had
  refine logging_kept ready (bytes "file") v ?_
  exact leveled_kept verbose _ (level_welcome ready) _ v
    ⟨Tree.heads_apart _ _ _ _ (by decide), Tree.settings_apart _ _ _ _ (by decide)⟩ moved

end

/-- The flat keys and the flag are gone. -/
theorem upgraded_gone (ms : List (Bytes × ConfigValue)) (verbose : Bool)
    (host port connections : ConfigValue) (distinct : (ms.map Prod.fst).Nodup) (key : Bytes)
    (old : key ∈ bytes "verbose" :: flatMoved.map Tree.Setting.key) :
    lookupKey key (upgraded verbose host port connections ms) = none := by
  have other : key ≠ bytes "server" ∧ key ≠ bytes "limits" ∧ key ≠ bytes "logging" := by
    revert key
    decide
  rw [upgraded, limited, Tree.lookup_withdraw_ne _ _ key _ other.1,
    Tree.lookup_assign_ne _ _ key _ _ other.2.1, listening_lookup _ _ _ key other.1]
  by_cases flag : key = bytes "verbose"
  · subst flag
    refine lookup_eraseKey_self _ _ (Tree.assign_nodup _ _ _ _ ?_)
    exact (Tree.gather_nodup ms flatMoved ms distinct).sublist (List.filter_sublist.map _)
  · rw [leveled, lookup_eraseKey_ne _ key _ flag, Tree.lookup_assign_ne _ _ key _ _ other.2.2]
    exact regroup_gone flatMoved ms key ((List.mem_cons.mp old).resolve_left flag)

/-! ## The upgrade -/

/-- Where the user's settings are after the upgrade. -/
structure GatewayUpgraded (cfg : VersionedConfig) (ms : List (Bytes × ConfigValue)) (verbose : Bool)
    (host port connections : ConfigValue) (after : VersionedConfig) : Prop where
  version : after.version = Relaygate.kLatest
  holds : contents after.model =
    Tree.merge (Tree.object () (upgraded verbose host port connections ms)) Relaygate.v3Defaults.1
  listeners : after.model.getValue (bytes "server.listeners") = .ok (listenersOf host port)
  level : after.model.getValue (bytes "logging.level") =
    .ok (Relaygate.text (if verbose then "debug" else "info"))
  file : ∀ v, lookupKey (bytes "log_file") ms = some v → v.type ≠ .object →
    after.model.getValue (bytes "logging.file") = .ok v
  limit : connections.type ≠ .object →
    after.model.getValue (bytes "limits.max_connections") = .ok connections
  gone : ∀ key ∈ bytes "verbose" :: flatMoved.map Tree.Setting.key, after.model.contains key = false
  /-- What no migration touches stays. -/
  kept : ∀ path segments v, ConfigPath.parse path = .ok segments →
    (∀ q ∈ touched, Tree.Apart segments q) → cfg.model.getValue path = .ok v → v.type ≠ .object →
      after.model.getValue path = .ok v

theorem gatewayUpgraded_of_merge (cfg : VersionedConfig) (held : Reachable cfg.model)
    (ms : List (Bytes × ConfigValue)) (holds : contents cfg.model = Tree.object () ms)
    (verbose : Bool) (host port connections : ConfigValue)
    (ready : Upgradable ms verbose host port connections) (after : VersionedConfig)
    (current : after.version = Relaygate.kLatest) (reached : Reachable after.model)
    (merged : contents after.model = Tree.merge
      (Tree.object () (upgraded verbose host port connections ms)) Relaygate.v3Defaults.1) :
    GatewayUpgraded cfg ms verbose host port connections after := by
  have read := getValue_merged after.model reached _ _ merged
  refine ⟨current, merged, ?_, ?_, ?_, ?_, ?_, ?_⟩
  · exact read _ _ _ (parse_setting (bytes "server") (bytes "listeners") (by decide) (by decide))
      (fun impossible => (by cases impossible)) (upgraded_listeners ready)
  · exact read _ _ _ (parse_setting (bytes "logging") (bytes "level") (by decide) (by decide))
      (fun impossible => (by cases impossible)) (upgraded_level ready)
  · intro v had other
    exact read _ _ v (parse_setting (bytes "logging") (bytes "file") (by decide) (by decide)) other
      (upgraded_file ready v had)
  · intro other
    exact read _ _ _ (parse_setting (bytes "limits") (bytes "max_connections") (by decide) (by decide))
      other (upgraded_connections ready)
  · intro key old
    have distinct := members_distinct cfg.model held ms holds
    have unknown : Addressable key ∧ key ∉ Relaygate.v3Defaults.1.keys := by
      revert key
      decide
    have gone := merge_lacks _ Relaygate.v3Defaults rfl key
      (upgraded_gone ms verbose host port connections distinct key old) unknown.2
    rw [← merged] at gone
    exact contains_lacks after.model reached key unknown.1 _ gone
  · intro path segments v parsed apart found other
    have located := (getValue_contents cfg.model held path segments parsed v).mp found
    rw [holds] at located
    exact read path segments v parsed other (upgraded_kept ready segments v apart located)

/-- What the first version's defaults hold can be brought up. -/
theorem v1Defaults_upgradable : ∃ ms, Relaygate.v1Defaults.1 = Tree.object () ms ∧
    Upgradable ms false (Relaygate.text "127.0.0.1") (Relaygate.number 8080)
      (Relaygate.number 100) := by
  have movable : ∀ s ∈ flatMoved, Movable [(bytes "server_host", Relaygate.text "127.0.0.1"),
      (bytes "server_port", Relaygate.number 8080),
      (bytes "log_file", Relaygate.text "/var/log/relaygate.log"),
      (bytes "verbose", ConfigValue.of (.bool false)),
      (bytes "max_connections", Relaygate.number 100)] s := by
    simp only [flatMoved, List.forall_mem_cons]
    refine ⟨?_, ?_, ?_, ?_, fun s impossible => (by cases impossible)⟩ <;>
      exact ⟨_, rfl, by decide, fun content impossible => (by cases impossible)⟩
  refine ⟨_, rfl, ⟨movable, rfl, ?_⟩, rfl, rfl, rfl, by decide, by decide, ?_, ?_⟩ <;>
    exact fun content impossible => (by cases impossible)

/-- A config of the first version comes up to the third exactly when it is `Upgradable`. Then its
settings are where the third version has them; otherwise the migration failed and the config is
left as it was. -/
theorem gateway_upgrade (cfg : VersionedConfig) (ms : List (Bytes × ConfigValue)) (world : World σ)
    (held : Reachable cfg.model) (first : cfg.version = 1)
    (holds : contents cfg.model = Tree.object () ms) :
    ((Relaygate.runtime.synchronize cfg Relaygate.kLatest world).1 = .ok .inSync ↔
      ∃ verbose host port connections, Upgradable ms verbose host port connections) ∧
    (∀ verbose host port connections, Upgradable ms verbose host port connections →
      GatewayUpgraded cfg ms verbose host port connections
        (Relaygate.runtime.synchronize cfg Relaygate.kLatest world).2.1) ∧
    ((Relaygate.runtime.synchronize cfg Relaygate.kLatest world).1 ≠ .ok .inSync → ∃ e,
      (Relaygate.runtime.synchronize cfg Relaygate.kLatest world).1 = .error e ∧
        e.code = .migrationFailed ∧
          (Relaygate.runtime.synchronize cfg Relaygate.kLatest world).2.1 = cfg) := by
  have start : (Relaygate.runtime (σ := σ)).catalog.contains cfg.version = true := by
    rw [first]
    rfl
  have steps : upgradeSteps (Relaygate.runtime (σ := σ)) cfg.version Relaygate.kLatest =
      [(1, 2), (2, 3)] := by
    rw [first]
    rfl
  have each : ∀ step ∈ [((1 : VersionId), (2 : VersionId)), (2, 3)], ∃ edge,
      (Relaygate.runtime (σ := σ)).registry.findMigration step.1 step.2 = .ok edge ∧ Performs edge
        (if step = (1, 2) then Relaygate.migrateV1ToV2 else Relaygate.migrateV2ToV3) := by
    intro step inside
    rcases List.mem_cons.mp inside with rfl | inside
    · exact ⟨_, rfl, fun _ _ _ _ => rfl⟩
    · obtain rfl := List.mem_singleton.mp inside
      exact ⟨_, rfl, fun _ _ _ _ => rfl⟩
  obtain ⟨goes, ends⟩ := migrations_spec cfg.model held ms holds
  obtain ⟨success, failure⟩ := synchronize_performs Relaygate.runtime cfg held Relaygate.kLatest rfl
    start (by rw [first]; decide)
    (fun step => if step = (1, 2) then Relaygate.migrateV1ToV2 else Relaygate.migrateV2ToV3)
    [(1, 2), (2, 3)] steps each rfl Relaygate.v3Defaults
    (threeEntries_stable Relaygate.v1Defaults Relaygate.v2Defaults Relaygate.v3Defaults) ⟨_, rfl⟩ world
  cases performed : (inOrder cfg.model [Relaygate.migrateV1ToV2, Relaygate.migrateV2ToV3]).1 with
  | ok done =>
    obtain ⟨final, world', synchronized, current, reached, merged⟩ := success performed
    have upgradable := goes.mp performed
    rw [synchronized]
    refine ⟨⟨fun _ => upgradable, fun _ => rfl⟩, ?_, fun impossible => absurd rfl impossible⟩
    intro verbose host port connections ready
    refine gatewayUpgraded_of_merge cfg held ms holds verbose host port connections ready final
      current reached ?_
    rw [← ends verbose host port connections ready]
    exact merged
  | error e =>
    obtain ⟨e', world', synchronized, code⟩ := failure ⟨e, performed⟩
    have never : ¬ ∃ verbose host port connections,
        Upgradable ms verbose host port connections := by
      intro upgradable
      have done := goes.mpr upgradable
      rw [performed] at done
      cases done
    rw [synchronized]
    refine ⟨⟨fun impossible => (by cases impossible), fun upgradable => absurd upgradable never⟩, ?_,
      fun _ => ⟨e', rfl, code, rfl⟩⟩
    intro verbose host port connections ready
    exact absurd ⟨verbose, host, port, connections, ready⟩ never

theorem gateway_upgrade_defaults : ∃ m, ConfigModel.fromValue Relaygate.v1Defaults.1 = .ok m ∧
    ((Relaygate.runtime (σ := Unit)).synchronize ⟨1, m⟩ 3 ⟨(), []⟩).1 = .ok .inSync := by
  obtain ⟨ms, shape, ready⟩ := v1Defaults_upgradable
  obtain ⟨m, made⟩ : ∃ m, ConfigModel.fromValue Relaygate.v1Defaults.1 = .ok m := ⟨_, rfl⟩
  obtain ⟨td, represents, plain⟩ := fromValue_holds Relaygate.v1Defaults m made
  have holds : contents m = Tree.object () ms := (contents_eq represents).trans (plain.trans shape)
  have upgrade := gateway_upgrade ⟨1, m⟩ ms ⟨(), []⟩ (.fromValue Relaygate.v1Defaults m made) rfl holds
  exact ⟨m, made, upgrade.1.mpr ⟨_, _, _, _, ready⟩⟩

end ConfigManager.Guarantees
