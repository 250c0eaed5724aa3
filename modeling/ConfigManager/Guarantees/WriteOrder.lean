import ConfigManager.Library.LeafMap
import ConfigManager.Refinement.ModelRuns

/-!
# A config as a map from positions to scalars

`set` and `remove` are an override and a removal in this map. Writes to paths
apart from one another leave the same map in whatever order they are made, and
each is read back whole.
-/

set_option autoImplicit false

namespace ConfigManager.Guarantees
open Library Source Reference Refinement

/-- The scalar at a position. -/
def leaves (m : ConfigModel) (position : List PathSegment) : Option Scalar :=
  Tree.leafAt (contents m) position

theorem leafAt_iff (t : ConfigValue) (p : List PathSegment) (scalar : Scalar) :
    Tree.leafAt t p = some scalar ↔ Tree.locate p t = .ok (ConfigValue.of scalar) := by
  unfold Tree.leafAt
  cases Tree.locate p t with
  | error f => simp
  | ok x => cases x <;> simp [ConfigValue.of]

theorem set_leaves (m : ConfigModel) (reached : Reachable m) (path : Bytes)
    (segments : List PathSegment) (parsed : ConfigPath.parse path = .ok segments) (value : BuiltValue)
    (success : (m.set path value.1).1 = .ok ()) (r : List PathSegment) :
    leaves (m.set path value.1).2 r =
      if segments <+: r then Tree.leafAt value.1 (r.drop segments.length) else leaves m r := by
  obtain ⟨t, rep⟩ := reachable_represents reached
  obtain ⟨t', rep', written⟩ := (set_written m t rep path segments parsed value.1 value.2).1 success
  rw [leaves, leaves, contents_eq rep', contents_eq rep]
  exact Tree.leafAt_upsert sameType segments value.1 t.forget t'.forget written r

theorem remove_leaves (m : ConfigModel) (reached : Reachable m) (path : Bytes)
    (segments : List PathSegment) (parsed : ConfigPath.parse path = .ok segments)
    (success : (m.remove path).1 = .ok ()) (r : List PathSegment) :
    leaves (m.remove path).2 r = (Tree.beforeRemove segments r).bind (leaves m) := by
  obtain ⟨t, rep⟩ := reachable_represents reached
  have spec := remove_spec m t rep path
  cases removed : Reference.remove path t.forget with
  | error code =>
    rw [removed] at spec
    rw [success] at spec
    cases spec.1
  | ok new =>
    rw [removed] at spec
    obtain ⟨_, t', rep', rfl, _⟩ := spec
    rw [Reference.remove, parsed, outcome_ok] at removed
    have cut : Tree.remove segments t.forget = .ok t'.forget := by
      cases left : Tree.remove segments t.forget with
      | error f => simp [left] at removed
      | ok x => simpa [left] using removed
    have before : leaves m = Tree.leafAt t.forget := by
      funext p
      rw [leaves, contents_eq rep]
    rw [leaves, contents_eq rep', before]
    exact Tree.leafAt_remove segments t.forget t'.forget rep.admissible.keysDistinct cut r

theorem failed_unchanged (m : ConfigModel) (reached : Reachable m) (path : Bytes) (value : BuiltValue) :
    (∀ e, (m.set path value.1).1 = .error e → (m.set path value.1).2 = m) ∧
      ∀ e, (m.remove path).1 = .error e → (m.remove path).2 = m := by
  obtain ⟨t, rep⟩ := reachable_represents reached
  constructor
  · intro e failed
    have spec := set_spec m t rep path value.1 value.2
    cases wrote : Reference.set path value.1 t.forget with
    | error code =>
      rw [wrote] at spec
      exact spec.2
    | ok new =>
      rw [wrote, failed] at spec
      cases spec.1
  · intro e failed
    have spec := remove_spec m t rep path
    cases cut : Reference.remove path t.forget with
    | error code =>
      rw [cut] at spec
      exact spec.2
    | ok new =>
      rw [cut, failed] at spec
      cases spec.1

theorem parse_of_ok (m : ConfigModel) (path : Bytes) (value : BuiltValue)
    (success : (m.set path value.1).1 = .ok ()) : ∃ segments, ConfigPath.parse path = .ok segments := by
  cases parsed : ConfigPath.parse path with
  | ok segments => exact ⟨segments, rfl⟩
  | error e => simp [ConfigModel.set, parsed] at success

/-- On every reachable model, a scalar is read at a path exactly when the map has it there. A write
that succeeds overrides the map below its path, a removal that succeeds takes what was below its path
out and moves down what stood behind; one that fails leaves the model, whatever the path. -/
theorem model_is_leaf_map (m : ConfigModel) (reached : Reachable m) (path : Bytes)
    (value : BuiltValue) :
    (∀ segments, ConfigPath.parse path = .ok segments →
      (∀ scalar, m.getValue path = .ok (ConfigValue.of scalar) ↔ leaves m segments = some scalar) ∧
      ((m.set path value.1).1 = .ok () → leaves (m.set path value.1).2 = fun r =>
        if segments <+: r then Tree.leafAt value.1 (r.drop segments.length) else leaves m r) ∧
      ((m.remove path).1 = .ok () → leaves (m.remove path).2 = fun r =>
        (Tree.beforeRemove segments r).bind (leaves m))) ∧
    (∀ e, (m.set path value.1).1 = .error e → (m.set path value.1).2 = m) ∧
    ∀ e, (m.remove path).1 = .error e → (m.remove path).2 = m := by
  refine ⟨fun segments parsed => ⟨fun scalar => ?_, fun answer => ?_, fun answer => ?_⟩,
    failed_unchanged m reached path value⟩
  · obtain ⟨t, rep⟩ := reachable_represents reached
    rw [getValue_iff m t rep path segments parsed, leaves, contents_eq rep, leafAt_iff]
  · exact funext (set_leaves m reached path segments parsed value answer)
  · exact funext (remove_leaves m reached path segments parsed answer)

/-- A whole object set to a fresh path, read at one of its members. -/
theorem member_is_leaf :
    leaves (ConfigModel.empty.set (bytes "a") (ConfigValue.object.set (bytes "b")
      (ConfigValue.of (.bool true)))).2 [.key (bytes "a"), .key (bytes "b")] = some (.bool true) := by
  obtain ⟨parsed, _⟩ := model_is_leaf_map ConfigModel.empty .empty (bytes "a")
    ⟨ConfigValue.object.set (bytes "b") (ConfigValue.of (.bool true)), by decide⟩
  rw [(parsed [.key (bytes "a")] rfl).2.1 rfl]
  decide +kernel

/-! ## Many writes -/

/-- One `set` after the other, up to the first that fails. -/
def setAll (m : ConfigModel) : List (Bytes × BuiltValue) → Result Unit × ConfigModel
  | [] => (.ok (), m)
  | (path, value) :: rest =>
      match m.set path value.1 with
      | (.error e, m) => (.error e, m)
      | (.ok (), m) => setAll m rest

theorem setAll_cons (m m' : ConfigModel) (path : Bytes) (value : BuiltValue)
    (rest : List (Bytes × BuiltValue)) (ran : setAll m ((path, value) :: rest) = (.ok (), m')) :
    (m.set path value.1).1 = .ok () ∧ setAll (m.set path value.1).2 rest = (.ok (), m') := by
  rw [setAll] at ran
  cases wrote : m.set path value.1 with
  | mk answer n =>
    rw [wrote] at ran
    cases answer with
    | error e => cases ran
    | ok done => exact ⟨rfl, ran⟩

/-- No path of the writes lies at or below that of another one. -/
def ApartWrites (writes : List (Bytes × BuiltValue)) : Prop :=
  writes.Pairwise fun w w' => ∀ p q, ConfigPath.parse w.1 = .ok p → ConfigPath.parse w'.1 = .ok q →
    Tree.Apart p q

/-- After writes that are apart, the map has each value, and what it had elsewhere. -/
theorem setAll_leaves (writes : List (Bytes × BuiltValue)) (apart : ApartWrites writes)
    (m m' : ConfigModel) (reached : Reachable m) (ran : setAll m writes = (.ok (), m')) :
    Reachable m' ∧
    (∀ w ∈ writes, ∃ p, ConfigPath.parse w.1 = .ok p ∧
      ∀ r, leaves m' (p ++ r) = Tree.leafAt w.2.1 r) ∧
    ∀ r, (∀ w ∈ writes, ∀ p, ConfigPath.parse w.1 = .ok p → ¬ p <+: r) → leaves m' r = leaves m r := by
  induction writes generalizing m with
  | nil =>
    cases ran
    exact ⟨reached, by simp, fun r _ => rfl⟩
  | cons w rest ih =>
    obtain ⟨path, value⟩ := w
    obtain ⟨success, later⟩ := setAll_cons m m' path value rest ran
    obtain ⟨segments, parsed⟩ := parse_of_ok m path value success
    obtain ⟨first, others⟩ := List.pairwise_cons.mp apart
    have written := set_leaves m reached path segments parsed value success
    obtain ⟨reached', each, elsewhere⟩ := ih others _ (.set m path value reached) later
    refine ⟨reached', fun w inside => ?_, fun r outside => ?_⟩
    · rcases List.mem_cons.mp inside with rfl | inside
      · refine ⟨segments, parsed, fun r => ?_⟩
        rw [elsewhere, written, if_pos (List.prefix_append _ _), List.drop_left]
        intro w' member q parsed' below
        -- Two prefixes of one position are comparable.
        obtain ⟨no, no'⟩ := first w' member segments q parsed parsed'
        rcases List.prefix_or_prefix_of_prefix (List.prefix_append segments r) below with yes | yes
        · exact no yes
        · exact no' yes
      · exact each w inside
    · rw [elsewhere r fun w inside => outside w (List.mem_cons_of_mem _ inside), written,
        if_neg (outside _ List.mem_cons_self segments parsed)]

/-- A value apart from all the writes stays as it is. -/
theorem setAll_keeps (writes : List (Bytes × BuiltValue)) (m m' : ConfigModel)
    (reached : Reachable m) (ran : setAll m writes = (.ok (), m')) (path : Bytes)
    (segments : List PathSegment) (parsed : ConfigPath.parse path = .ok segments)
    (apart : ∀ w ∈ writes, ∀ q, ConfigPath.parse w.1 = .ok q → Tree.Apart segments q) (v : ConfigValue)
    (read : m.getValue path = .ok v) : m'.getValue path = .ok v := by
  induction writes generalizing m with
  | nil =>
    cases ran
    exact read
  | cons w rest ih =>
    obtain ⟨other, value⟩ := w
    obtain ⟨success, later⟩ := setAll_cons m m' other value rest ran
    obtain ⟨q, parsed'⟩ := parse_of_ok m other value success
    obtain ⟨t, rep⟩ := reachable_represents reached
    obtain ⟨t', rep', written⟩ := (set_written m t rep other q parsed' value.1 value.2).1 success
    refine ih _ (.set m other value reached) later
      (fun w inside => apart w (List.mem_cons_of_mem _ inside)) ?_
    rw [getValue_iff _ t' rep' path segments parsed]
    exact Tree.locate_upsert_apart sameType segments q value.1 _ _ v written
      (apart _ List.mem_cons_self q parsed') ((getValue_iff m t rep path segments parsed v).mp read)

/-- Each of the writes that are apart is read back whole. -/
theorem setAll_reads (writes : List (Bytes × BuiltValue)) (apart : ApartWrites writes)
    (m m' : ConfigModel) (reached : Reachable m) (ran : setAll m writes = (.ok (), m')) :
    ∀ w ∈ writes, m'.getValue w.1 = .ok w.2.1 := by
  induction writes generalizing m with
  | nil => exact fun _ impossible => by cases impossible
  | cons w rest ih =>
    obtain ⟨path, value⟩ := w
    obtain ⟨success, later⟩ := setAll_cons m m' path value rest ran
    obtain ⟨segments, parsed⟩ := parse_of_ok m path value success
    obtain ⟨first, others⟩ := List.pairwise_cons.mp apart
    have after : Reachable (m.set path value.1).2 := .set m path value reached
    intro w inside
    rcases List.mem_cons.mp inside with rfl | inside
    · obtain ⟨t, rep⟩ := reachable_represents reached
      obtain ⟨t', rep', written⟩ :=
        (set_written m t rep path segments parsed value.1 value.2).1 success
      refine setAll_keeps rest _ m' after later path segments parsed
        (fun w member q parsed' => first w member segments q parsed parsed') value.1 ?_
      rw [getValue_iff _ t' rep' path segments parsed]
      exact Tree.locate_upsert sameType segments value.1 _ _ written
    · exact ih others _ after later w inside

/-- The order of writes to paths that are apart does not matter: two runs of the same writes that
both succeed leave the same map, in which each value is found whole at its path. -/
theorem apart_writes_commute (m m₁ m₂ : ConfigModel) (reached : Reachable m)
    (writes writes' : List (Bytes × BuiltValue)) (same : writes.Perm writes')
    (apart : ApartWrites writes) (first : setAll m writes = (.ok (), m₁))
    (second : setAll m writes' = (.ok (), m₂)) :
    leaves m₁ = leaves m₂ ∧
      ∀ w ∈ writes, m₁.getValue w.1 = .ok w.2.1 ∧ m₂.getValue w.1 = .ok w.2.1 := by
  have apart' : ApartWrites writes' :=
    (same.pairwise_iff fun all p q parsed parsed' => (all q p parsed' parsed).symm).mp apart
  obtain ⟨_, each, elsewhere⟩ := setAll_leaves writes apart m m₁ reached first
  obtain ⟨_, each', elsewhere'⟩ := setAll_leaves writes' apart' m m₂ reached second
  refine ⟨funext fun r => ?_, fun w inside => ⟨setAll_reads writes apart m m₁ reached first w inside,
    setAll_reads writes' apart' m m₂ reached second w (same.mem_iff.mp inside)⟩⟩
  by_cases below : ∃ w ∈ writes, ∃ p, ConfigPath.parse w.1 = .ok p ∧ p <+: r
  · obtain ⟨w, inside, p, parsed, rest, rfl⟩ := below
    obtain ⟨p₁, parsed₁, value⟩ := each w inside
    obtain ⟨p₂, parsed₂, value'⟩ := each' w (same.mem_iff.mp inside)
    rw [parsed] at parsed₁ parsed₂
    cases parsed₁
    cases parsed₂
    rw [value, value']
  · rw [elsewhere r fun w inside p parsed prefix_ => below ⟨w, inside, p, parsed, prefix_⟩,
      elsewhere' r fun w inside p parsed prefix_ =>
        below ⟨w, same.mem_iff.mpr inside, p, parsed, prefix_⟩]

/-- A member of a fresh object and one beside it, in either order. -/
theorem two_members_commute :
    let one : BuiltValue := ⟨ConfigValue.of (.bool true), ConfigValue.keysDistinct_of _⟩
    let writes := [(bytes "a.b", one), (bytes "c", one)]
    leaves (setAll ConfigModel.empty writes).2 = leaves (setAll ConfigModel.empty writes.reverse).2 := by
  intro one writes
  have apart : ApartWrites writes := by
    refine List.pairwise_cons.mpr ⟨fun w inside p q parsed parsed' => ?_, List.pairwise_singleton _ _⟩
    obtain rfl := List.mem_singleton.mp inside
    cases parsed.symm.trans (show ConfigPath.parse (bytes "a.b") =
      .ok [.key (bytes "a"), .key (bytes "b")] from rfl)
    cases parsed'.symm.trans (show ConfigPath.parse (bytes "c") = .ok [.key (bytes "c")] from rfl)
    constructor <;> decide
  exact (apart_writes_commute ConfigModel.empty _ _ .empty writes writes.reverse
    (List.reverse_perm writes).symm apart (Prod.ext (by decide +kernel) rfl)
    (Prod.ext (by decide +kernel) rfl)).1

end ConfigManager.Guarantees
