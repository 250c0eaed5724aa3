import ConfigManager.Guarantees.ModelRefinement
import ConfigManager.Programs.MovedKeys
import ConfigManager.Programs.Relaygate

/-!
# The gateway's migrations

What each of them does to the members of the root, and when it goes through.
-/

set_option autoImplicit false

namespace ConfigManager.Guarantees
open Library Source Reference Refinement Programs

/-! ## From flat keys to sections -/

def flatMoved : List (Tree.Setting Bytes) :=
  [⟨bytes "server_host", bytes "server", bytes "host"⟩,
    ⟨bytes "server_port", bytes "server", bytes "port"⟩,
    ⟨bytes "max_connections", bytes "server", bytes "max_connections"⟩,
    ⟨bytes "log_file", bytes "logging", bytes "file"⟩]

theorem flatMoved_separate : Separate flatMoved :=
  ⟨by decide, by decide, by decide, by decide⟩

/-- The logging level that stands for the flag. -/
def levelOf (verbose : Bool) : BuiltValue :=
  ⟨Relaygate.text (if verbose then "debug" else "info"), ConfigValue.keysDistinct_of _⟩

/-- The members once the flag became a level. -/
def leveled (verbose : Bool) (ms : List (Bytes × ConfigValue)) : List (Bytes × ConfigValue) :=
  eraseKey (bytes "verbose") (Tree.assign (bytes "logging") (bytes "level") (levelOf verbose).1 ms)

/-- A member of the root reads as a Bool exactly when it is one. -/
theorem bool_read (m : ConfigModel) (reached : Reachable m) (ms : List (Bytes × ConfigValue))
    (holds : contents m = Tree.object () ms) (key : Bytes) (plain : Addressable key) (b : Bool) :
    m.getBool key = .ok b ↔ lookupKey key ms = some (ConfigValue.of (.bool b)) := by
  obtain ⟨t, r⟩ := reachable_represents reached
  rw [contents_eq r] at holds
  have lookup := (represents_reads m t r).lookups key
  rw [Reference.getValue, parse_key key plain, outcome_ok, holds] at lookup
  cases found : lookupKey key ms with
  | none =>
    simp only [Tree.locate, Tree.descend, found, coded_error] at lookup
    constructor
    · intro read
      cases node : m.nodeAt key with
      | error e => simp [ConfigModel.getBool, node] at read
      | ok h =>
        rw [node] at lookup
        cases lookup
    · intro impossible
      cases impossible
  | some x =>
    simp only [Tree.locate, Tree.descend, found, coded_ok] at lookup
    obtain ⟨h, node, navigates⟩ := lookup
    obtain ⟨_, same, shows⟩ := navigates []
    cases same
    have scalar := shows.scalar
    rw [Option.some.injEq]
    cases value : h.scalarValue m.arena with
    | error e =>
      rw [value] at scalar
      constructor
      · intro read
        simp [ConfigModel.getBool, node, ConfigNode.asBool, value] at read
      · rintro rfl
        cases scalar
    | ok read =>
      rw [value, outcome_ok] at scalar
      have answer : m.getBool key = convertBool read := by
        simp only [ConfigModel.getBool, node, ConfigNode.asBool, value]
      rw [answer]
      cases x with
      | object l es => cases scalar
      | array l es => cases scalar
      | leaf l stored =>
        rw [scalarAnswer, Except.ok.injEq] at scalar
        subst scalar
        cases read <;> simp [convertBool, fail, ConfigValue.of]

/-- The flag becomes a level exactly when it is a Bool and the level is welcome. -/
theorem replaceVerbose_spec (m : ConfigModel) (reached : Reachable m)
    (ms : List (Bytes × ConfigValue)) (holds : contents m = Tree.object () ms) (b : Bool) :
    m.getBool (bytes "verbose") = .ok b →
      ((Relaygate.replaceVerbose m).1 = .ok () ↔
        Tree.Welcomes sameType (bytes "logging") (bytes "level") (levelOf b).1 ms) ∧
      ((Relaygate.replaceVerbose m).1 = .ok () →
        contents (Relaygate.replaceVerbose m).2 = Tree.object () (leveled b ms)) := by
  intro read
  have found := (bool_read m reached ms holds (bytes "verbose") (by decide) b).mp read
  have fits : Fits 2 (levelOf b).1 := by cases b <;> decide
  have set := set_setting_iff m reached ms holds (bytes "logging") (bytes "level") (by decide)
    (by decide) (levelOf b)
  have path : bytes "logging" ++ bytes "." ++ bytes "level" = bytes "logging.level" := by decide
  have ran : Relaygate.replaceVerbose m = andThen (m.set (bytes "logging.level") (levelOf b).1)
      fun model => model.remove (bytes "verbose") := by
    simp only [Relaygate.replaceVerbose, read, levelOf]
  by_cases welcome : Tree.Welcomes sameType (bytes "logging") (bytes "level") (levelOf b).1 ms
  · obtain ⟨success, after⟩ := set_assigns m reached ms holds (bytes "logging") (bytes "level")
      (by decide) (by decide) (levelOf b) fits welcome
    rw [path] at success after
    have still : lookupKey (bytes "verbose") (Tree.assign (bytes "logging") (bytes "level")
        (levelOf b).1 ms) = some (ConfigValue.of (.bool b)) := by
      rw [Tree.lookup_assign_ne _ _ _ _ ms (by decide), found]
    obtain ⟨removed, erased⟩ := remove_erases _ (.set m _ (levelOf b) reached) _ after
      (bytes "verbose") (by decide) _ still
    rw [ran, andThen_ok _ _ success]
    exact ⟨⟨fun _ => welcome, fun _ => removed⟩, fun _ => erased⟩
  · rw [path] at set
    rw [ran, andThen_iff, set]
    exact ⟨⟨fun both => both.1.2, fun yes => absurd yes welcome⟩,
      fun both => absurd both.1.2 welcome⟩

/-- What the members hold for the first migration. -/
structure Flat (ms : List (Bytes × ConfigValue)) (verbose : Bool) : Prop where
  movable : ∀ s ∈ flatMoved, Movable ms s
  flag : lookupKey (bytes "verbose") ms = some (ConfigValue.of (.bool verbose))
  level : Tree.Welcomes sameType (bytes "logging") (bytes "level") (levelOf verbose).1 ms

/-- The first migration goes through exactly when its members can move and the flag becomes a level. -/
theorem migrateV1ToV2_spec (m : ConfigModel) (reached : Reachable m) (ms : List (Bytes × ConfigValue))
    (holds : contents m = Tree.object () ms) :
    ((Relaygate.migrateV1ToV2 m).1 = .ok () ↔ ∃ b, Flat ms b) ∧
    ∀ b, Flat ms b → contents (Relaygate.migrateV1ToV2 m).2 =
      Tree.object () (leveled b (regroup flatMoved ms)) := by
  obtain ⟨goes, after⟩ := moveKeys_gathers flatMoved flatMoved_separate m reached ms holds
  have reached₁ := moveKeys_reachable (flatMoved.map moveOf) m reached
  have migrates : Relaygate.migrateV1ToV2 m =
      andThen (moveKeys m (flatMoved.map moveOf)) Relaygate.replaceVerbose := rfl
  rw [migrates, andThen_iff, goes]
  have step : (∀ s ∈ flatMoved, Movable ms s) → ∀ b,
      ((moveKeys m (flatMoved.map moveOf)).2.getBool (bytes "verbose") = .ok b ↔
        lookupKey (bytes "verbose") ms = some (ConfigValue.of (.bool b))) ∧
      (Tree.Welcomes sameType (bytes "logging") (bytes "level") (levelOf b).1 (regroup flatMoved ms) ↔
        Tree.Welcomes sameType (bytes "logging") (bytes "level") (levelOf b).1 ms) := by
    intro movable b
    have flag := bool_read _ reached₁ _ (after (goes.mpr movable)) (bytes "verbose") (by decide) b
    rw [regroup_lookup flatMoved ms (bytes "verbose") (by decide),
      Tree.lookup_gather ms flatMoved ms (bytes "verbose") (by decide)] at flag
    exact ⟨flag, regroup_welcomes flatMoved ms flatMoved_separate movable _ _ _ (by decide) (by decide)⟩
  constructor
  · constructor
    · intro both
      obtain ⟨movable, replaced⟩ := both
      cases read : (moveKeys m (flatMoved.map moveOf)).2.getBool (bytes "verbose") with
      | error e => simp [Relaygate.replaceVerbose, read] at replaced
      | ok b =>
        obtain ⟨flag, welcomes⟩ := step movable b
        have spec := replaceVerbose_spec _ reached₁ _ (after (goes.mpr movable)) b read
        exact ⟨b, movable, flag.mp read, welcomes.mp (spec.1.mp replaced)⟩
    · intro flat
      obtain ⟨b, flat⟩ := flat
      obtain ⟨flag, welcomes⟩ := step flat.movable b
      have spec := replaceVerbose_spec _ reached₁ _ (after (goes.mpr flat.movable)) b (flag.mpr flat.flag)
      exact ⟨flat.movable, spec.1.mpr (welcomes.mpr flat.level)⟩
  · intro b flat
    obtain ⟨flag, welcomes⟩ := step flat.movable b
    have moved := goes.mpr flat.movable
    have spec := replaceVerbose_spec _ reached₁ _ (after moved) b (flag.mpr flat.flag)
    rw [andThen_ok _ _ moved]
    exact spec.2 (spec.1.mpr (welcomes.mpr flat.level))

/-! ## From one address to listeners -/

/-- The only listener, in its array. -/
def listenersOf (host port : ConfigValue) : ConfigValue :=
  ConfigValue.array.push ((ConfigValue.object.set (bytes "host") host).set (bytes "port") port)

theorem listenersOf_eq (host port : ConfigValue) :
    listenersOf host port =
      Tree.array () [Tree.object () [(bytes "host", host), (bytes "port", port)]] := by
  rfl

theorem listenersOf_distinct (host port : ConfigValue) (built : host.KeysDistinct)
    (built' : port.KeysDistinct) : (listenersOf host port).KeysDistinct :=
  ConfigValue.push_keysDistinct _ _ (by decide) (ConfigValue.set_keysDistinct _ port _
    (ConfigValue.set_keysDistinct _ host _ (by decide) built) built')

/-- The listeners fit in the section when host and port do below them. -/
theorem listenersOf_fits (host port : ConfigValue) :
    Fits 2 (listenersOf host port) ↔ Fits 4 host ∧ Fits 4 port := by
  have keys : ∀ key ∈ [bytes "host", bytes "port"], Addressable key := by decide
  have listener : Tree.Every (fun s => ∀ key ∈ s.keys, Addressable key)
      (Tree.object () [(bytes "host", host), (bytes "port", port)]) ↔
        Tree.Every (fun s => ∀ key ∈ s.keys, Addressable key) host ∧
          Tree.Every (fun s => ∀ key ∈ s.keys, Addressable key) port := by
    rw [Tree.every_iff]
    constructor
    · exact fun both => ⟨both.2 host (by simp [Tree.children]), both.2 port (by simp [Tree.children])⟩
    · intro both
      refine ⟨keys, fun c inside => ?_⟩
      rcases List.mem_cons.mp inside with rfl | inside
      · exact both.1
      · obtain rfl := List.mem_singleton.mp inside
        exact both.2
  have named : Tree.Every (fun s => ∀ key ∈ s.keys, Addressable key) (listenersOf host port) ↔
      Tree.Every (fun s => ∀ key ∈ s.keys, Addressable key) host ∧
        Tree.Every (fun s => ∀ key ∈ s.keys, Addressable key) port := by
    rw [listenersOf_eq, Tree.every_iff, ← listener]
    constructor
    · exact fun both => both.2 _ List.mem_cons_self
    · intro all
      refine ⟨fun key impossible => (by cases impossible), fun c inside => ?_⟩
      obtain rfl := List.mem_singleton.mp inside
      exact all
  have depth : 2 + (listenersOf host port).height ≤ kMaxTreeDepth ↔
      4 + host.height ≤ kMaxTreeDepth ∧ 4 + port.height ≤ kMaxTreeDepth := by
    simp only [listenersOf_eq, Library.Tree.height, Library.Tree.heightElements,
      Library.Tree.heightMembers]
    omega
  unfold Fits
  rw [named, depth]
  exact ⟨fun all => ⟨⟨all.1.1, all.2.1⟩, all.1.2, all.2.2⟩,
    fun all => ⟨⟨all.1.1, all.2.1⟩, all.1.2, all.2.2⟩⟩

/-- What the members hold for the second migration. -/
structure Sectioned (ms : List (Bytes × ConfigValue)) (host port connections : ConfigValue) : Prop where
  hostAt : Tree.locate [.key (bytes "server"), .key (bytes "host")] (Tree.object () ms) = .ok host
  portAt : Tree.locate [.key (bytes "server"), .key (bytes "port")] (Tree.object () ms) = .ok port
  connectionsAt : Tree.locate [.key (bytes "server"), .key (bytes "max_connections")]
    (Tree.object () ms) = .ok connections
  hostShallow : 4 + host.height ≤ kMaxTreeDepth
  portShallow : 4 + port.height ≤ kMaxTreeDepth
  listeners : Tree.Welcomes sameType (bytes "server") (bytes "listeners") (listenersOf host port) ms
  limits : Tree.Welcomes sameType (bytes "limits") (bytes "max_connections") connections ms

/-- The members once the address became a listener. -/
def listening (host port : ConfigValue) (ms : List (Bytes × ConfigValue)) : List (Bytes × ConfigValue) :=
  Tree.withdraw (bytes "server") (bytes "port") (Tree.withdraw (bytes "server") (bytes "host")
    (Tree.assign (bytes "server") (bytes "listeners") (listenersOf host port) ms))

/-- The members once the limit moved, too. -/
def limited (connections : ConfigValue) (ms : List (Bytes × ConfigValue)) :
    List (Bytes × ConfigValue) :=
  Tree.withdraw (bytes "server") (bytes "max_connections")
    (Tree.assign (bytes "limits") (bytes "max_connections") connections ms)

/-- Once the listeners are set, host and port can be removed. -/
theorem listening_reached (m : ConfigModel) (reached : Reachable m) (ms : List (Bytes × ConfigValue))
    (holds : contents m = Tree.object () ms) (host port : ConfigValue)
    (hosts : m.getValue (bytes "server.host") = .ok host)
    (ports : m.getValue (bytes "server.port") = .ok port)
    (fits : Fits 2 (listenersOf host port))
    (welcome : Tree.Welcomes sameType (bytes "server") (bytes "listeners") (listenersOf host port) ms) :
    ∃ m', Reachable m' ∧ contents m' = Tree.object () (listening host port ms) ∧
      Relaygate.migrateV2ToV3 m =
        moveKey m' (bytes "server.max_connections") (bytes "limits.max_connections") := by
  have distinct := listenersOf_distinct host port (getValue_distinct m reached _ host hosts)
    (getValue_distinct m reached _ port ports)
  have hosts' := (setting_read m reached ms holds (bytes "server") (bytes "host") (by decide)
    (by decide) host).mp hosts
  have ports' := (setting_read m reached ms holds (bytes "server") (bytes "port") (by decide)
    (by decide) port).mp ports
  obtain ⟨success, after⟩ := set_assigns m reached ms holds (bytes "server") (bytes "listeners")
    (by decide) (by decide) ⟨_, distinct⟩ fits welcome
  have reached₁ : Reachable (m.set (bytes "server" ++ bytes "." ++ bytes "listeners")
      (listenersOf host port)).2 := .set m _ ⟨_, distinct⟩ reached
  have hosts₁ := Tree.locate_assign_apart sameType _ _ _ host ms welcome _
    (Tree.settings_apart _ _ _ _ (by decide)) hosts'
  have ports₁ := Tree.locate_assign_apart sameType _ _ _ port ms welcome _
    (Tree.settings_apart _ _ _ _ (by decide)) ports'
  obtain ⟨success₂, after₂⟩ := remove_withdraws _ reached₁ _ after (bytes "server") (bytes "host")
    (by decide) (by decide) host hosts₁
  have ports₂ := Tree.locate_withdraw_apart _ _ () _ host port hosts₁ _
    (Tree.settings_apart _ _ _ _ (by decide)) ports₁
  obtain ⟨success₃, after₃⟩ := remove_withdraws _ (.remove _ _ reached₁) _ after₂ (bytes "server")
    (bytes "port") (by decide) (by decide) port ports₂
  refine ⟨_, .remove _ _ (.remove _ _ reached₁), after₃, ?_⟩
  unfold Relaygate.migrateV2ToV3
  simp only [hosts, ports]
  exact (andThen_ok _ _ success).trans ((andThen_ok _ _ success₂).trans (andThen_ok _ _ success₃))

theorem listening_lookup (host port : ConfigValue) (ms : List (Bytes × ConfigValue)) (key : Bytes)
    (other : key ≠ bytes "server") : lookupKey key (listening host port ms) = lookupKey key ms := by
  rw [listening, Tree.lookup_withdraw_ne _ _ key _ other, Tree.lookup_withdraw_ne _ _ key _ other,
    Tree.lookup_assign_ne _ _ key _ ms other]

section
variable {host port : ConfigValue} {ms : List (Bytes × ConfigValue)}
  (hostAt : Tree.locate [.key (bytes "server"), .key (bytes "host")] (Tree.object () ms) = .ok host)
  (portAt : Tree.locate [.key (bytes "server"), .key (bytes "port")] (Tree.object () ms) = .ok port)
  (welcome : Tree.Welcomes sameType (bytes "server") (bytes "listeners") (listenersOf host port) ms)
include hostAt portAt welcome

/-- Host and port are still there when the listeners are set, and port when host is removed. -/
theorem address_left :
    Tree.locate [.key (bytes "server"), .key (bytes "host")] (Tree.object () (Tree.assign
      (bytes "server") (bytes "listeners") (listenersOf host port) ms)) = .ok host ∧
    Tree.locate [.key (bytes "server"), .key (bytes "port")] (Tree.object () (Tree.withdraw
      (bytes "server") (bytes "host") (Tree.assign (bytes "server") (bytes "listeners")
        (listenersOf host port) ms))) = .ok port := by
  have hosts := Tree.locate_assign_apart sameType _ _ _ host ms welcome _
    (Tree.settings_apart _ _ _ _ (by decide)) hostAt
  have ports := Tree.locate_assign_apart sameType _ _ _ port ms welcome _
    (Tree.settings_apart _ _ _ _ (by decide)) portAt
  exact ⟨hosts, Tree.locate_withdraw_apart _ _ () _ host port hosts _
    (Tree.settings_apart _ _ _ _ (by decide)) ports⟩

theorem listening_kept (p : List PathSegment) (v : ConfigValue)
    (apart : ∀ name ∈ [bytes "listeners", bytes "host", bytes "port"],
      Tree.Apart p [.key (bytes "server"), .key name])
    (found : Tree.locate p (Tree.object () ms) = .ok v) :
    Tree.locate p (Tree.object () (listening host port ms)) = .ok v := by
  obtain ⟨hosts, ports⟩ := address_left hostAt portAt welcome
  have assigned := Tree.locate_assign_apart sameType _ _ _ v ms welcome p
    (apart _ (by decide)) found
  have withdrawn := Tree.locate_withdraw_apart _ _ () _ host v hosts p (apart _ (by decide)) assigned
  exact Tree.locate_withdraw_apart _ _ () _ port v ports p (apart _ (by decide)) withdrawn

theorem listening_other (group name : Bytes) (v : ConfigValue)
    (different : ∀ known ∈ [bytes "listeners", bytes "host", bytes "port"],
      (group, name) ≠ (bytes "server", known))
    (found : Tree.locate [.key group, .key name] (Tree.object () (listening host port ms)) = .ok v) :
    Tree.locate [.key group, .key name] (Tree.object () ms) = .ok v := by
  obtain ⟨hosts, ports⟩ := address_left hostAt portAt welcome
  have before := Tree.locate_withdraw_other _ _ group name () _ port v ports (different _ (by decide))
    found
  have before' := Tree.locate_withdraw_other _ _ group name () _ host v hosts (different _ (by decide))
    before
  exact Tree.locate_assign_other _ _ group name _ v ms (different _ (by decide)) before'

end

/-- The second migration goes through exactly when its three settings are there, host and port are not
too deep for a listener, and the new places accept them. -/
theorem migrateV2ToV3_spec (m : ConfigModel) (reached : Reachable m) (ms : List (Bytes × ConfigValue))
    (holds : contents m = Tree.object () ms) :
    ((Relaygate.migrateV2ToV3 m).1 = .ok () ↔
      ∃ host port connections, Sectioned ms host port connections) ∧
    ∀ host port connections, Sectioned ms host port connections →
      contents (Relaygate.migrateV2ToV3 m).2 =
        Tree.object () (limited connections (listening host port ms)) := by
  have readHost := setting_read m reached ms holds (bytes "server") (bytes "host") (by decide) (by decide)
  have readPort := setting_read m reached ms holds (bytes "server") (bytes "port") (by decide) (by decide)
  have limits : ∀ host port connections,
      Tree.Welcomes sameType (bytes "limits") (bytes "max_connections") connections
        (listening host port ms) ↔
      Tree.Welcomes sameType (bytes "limits") (bytes "max_connections") connections ms := by
    intro host port connections
    unfold Tree.Welcomes
    rw [listening_lookup host port ms (bytes "limits") (by decide)]
  have between := fun m' (reached' : Reachable m') host port
      (holds' : contents m' = Tree.object () (listening host port ms)) =>
    moveKey_between m' reached' _ holds' (bytes "server") (bytes "max_connections") (bytes "limits")
      (bytes "max_connections") (by decide) (by decide) (by decide)
  have goes : ∀ host port connections, Sectioned ms host port connections →
      (Relaygate.migrateV2ToV3 m).1 = .ok () ∧ contents (Relaygate.migrateV2ToV3 m).2 =
        Tree.object () (limited connections (listening host port ms)) := by
    intro host port connections ready
    have hosts := (readHost host).mpr ready.hostAt
    have ports := (readPort port).mpr ready.portAt
    have admissible := reachable_admissible m reached
    have fits : Fits 2 (listenersOf host port) := by
      rw [listenersOf_fits]
      have hostAt := ready.hostAt
      have portAt := ready.portAt
      rw [← holds] at hostAt portAt
      exact ⟨(fits_part _ host admissible _ hostAt 4).mpr ready.hostShallow,
        (fits_part _ port admissible _ portAt 4).mpr ready.portShallow⟩
    obtain ⟨m', reached', holds', same⟩ :=
      listening_reached m reached ms holds host port hosts ports fits ready.listeners
    obtain ⟨moves, after⟩ := between m' reached' host port holds'
    have found := listening_kept ready.hostAt ready.portAt ready.listeners
      [.key (bytes "server"), .key (bytes "max_connections")] connections
      (fun name known => Tree.settings_apart _ _ _ _ (by
        revert name
        decide)) ready.connectionsAt
    have welcome := (limits host port connections).mpr ready.limits
    rw [same]
    exact ⟨moves.mpr ⟨connections, found, welcome⟩, after connections found welcome⟩
  refine ⟨⟨fun success => ?_, fun ready => ?_⟩, fun host port connections ready =>
    (goes host port connections ready).2⟩
  · cases hosts : m.getValue (bytes "server.host") with
    | error e => simp [Relaygate.migrateV2ToV3, hosts] at success
    | ok host =>
      cases ports : m.getValue (bytes "server.port") with
      | error e => simp [Relaygate.migrateV2ToV3, hosts, ports] at success
      | ok port =>
        have hostAt := (readHost host).mp hosts
        have portAt := (readPort port).mp ports
        have distinct := listenersOf_distinct host port (getValue_distinct m reached _ host hosts)
          (getValue_distinct m reached _ port ports)
        have accepted : (m.set (bytes "server.listeners") (listenersOf host port)).1 = .ok () := by
          unfold Relaygate.migrateV2ToV3 at success
          simp only [hosts, ports] at success
          exact ((andThen_iff _ _).mp success).1
        obtain ⟨fits, welcome⟩ := (set_setting_iff m reached ms holds (bytes "server")
          (bytes "listeners") (by decide) (by decide) ⟨_, distinct⟩).mp accepted
        obtain ⟨m', reached', holds', same⟩ :=
          listening_reached m reached ms holds host port hosts ports fits welcome
        rw [same] at success
        obtain ⟨connections, found, roomy⟩ := (between m' reached' host port holds').1.mp success
        have before := listening_other hostAt portAt welcome (bytes "server") (bytes "max_connections")
          connections (by decide) found
        obtain ⟨hostFits, portFits⟩ := (listenersOf_fits host port).mp fits
        exact ⟨host, port, connections, hostAt, portAt, before, hostFits.2, portFits.2, welcome,
          (limits host port connections).mp roomy⟩
  · obtain ⟨host, port, connections, ready⟩ := ready
    exact (goes host port connections ready).1

end ConfigManager.Guarantees
