import ConfigManager.Refinement.ModelOperations

/-!
# One specification per operation, and reachable models

`set_spec`, `remove_spec` and `fromValue_spec` state the refinement with the
reference operation on the right. `Reachable` closes the default model under
the operations, and every reachable model represents a tree.
-/

set_option autoImplicit false

namespace ConfigManager.Refinement
open Library Source Reference

/-- `m'` is the model that the operation leaves, with the tree it should hold and the
positions it should move nodes to. -/
def Steps (m m' : ConfigModel) (t : SlotTree) (new : ConfigValue)
    (after : List PathSegment → Option (List PathSegment)) : Prop :=
  ∃ t', Represents m' t' ∧ t'.forget = new ∧ Moves m.arena m'.arena t t' after

/-- The plan of a write fails as the reference write does, or applying it leaves the tree of the
reference write. -/
def PlanServes (m : ConfigModel) (t : SlotTree) (segments : List PathSegment) (value : ConfigValue)
    (after : List PathSegment → Option (List PathSegment)) (expected : Except Fault ConfigValue) :
    Prop :=
  match expected with
  | .error f => ∃ e : Error, e.code = faultCode f ∧
      planWrite m.arena segments value.type m.rootId 0 segments = .error e
  | .ok new => ∃ plan t', planWrite m.arena segments value.type m.rootId 0 segments = .ok plan ∧
      Rewrite m.arena (applyWrite m.arena plan segments value) none t t' ∧ t'.forget = new ∧
      Moves m.arena (applyWrite m.arena plan segments value) t t' after

/-- A path that leads to a node: the contents are replaced where the types agree. -/
theorem plan_existing (m : ConfigModel) (t x : SlotTree) (r : Represents m t)
    (segments : List PathSegment) (nonempty : segments ≠ [])
    (found : Tree.locate segments t = .ok x) (value : ConfigValue) :
    PlanServes m t segments value (Tree.afterReplace segments)
      (Tree.upsert sameType segments value t.forget) := by
  have plain : Tree.locate segments t.forget = .ok x.forget := by
    rw [Tree.locate_forget, found]
    rfl
  have plan := planWrite_existing m.arena segments value.type none t x r.rep 0 segments nonempty
    found
  rw [r.label] at plan
  have written := Tree.upsert_existing sameType segments value t.forget x.forget plain
  by_cases same : sameType x.forget value = true
  · rw [if_neg (by simpa [sameType] using same)] at plan
    rw [if_pos same] at written
    obtain ⟨t', edit, forgotten, moves⟩ := set_existing m t x r segments found value same
    have applied : applyWrite m.arena ⟨x.label, segments.length⟩ segments value =
        assignContents m.arena x.label value := if_pos rfl
    rw [← applied] at edit moves
    rw [written]
    exact ⟨_, t', plan, edit, forgotten, moves⟩
  · rw [if_pos (by simpa [sameType] using same)] at plan
    rw [if_neg same] at written
    rw [written]
    exact ⟨_, rfl, plan⟩

theorem planFails (m : ConfigModel) (segments : List PathSegment) (value : ConfigValue)
    (code : ErrorCode) (failure : outcome (planWrite m.arena segments value.type m.rootId 0 segments) =
      .error code) :
    ∃ e : Error, e.code = code ∧
      planWrite m.arena segments value.type m.rootId 0 segments = .error e := by
  cases plan : planWrite m.arena segments value.type m.rootId 0 segments with
  | ok p => simp [plan] at failure
  | error e => exact ⟨e, by simpa [plan, outcome] using failure, rfl⟩

/-- A path that ends below an existing node with room: a chain is created and linked there. -/
theorem plan_creating (m : ConfigModel) (t x : SlotTree) (r : Represents m t)
    (q rest : List PathSegment) (s : PathSegment) (anchor : Tree.locate q t = .ok x)
    (space : Tree.canAppend s x = true) (value : ConfigValue)
    (planned : planWrite m.arena (q ++ s :: rest) value.type m.rootId 0 (q ++ s :: rest) =
      checkCreatable (q ++ s :: rest) q.length x.label) :
    PlanServes m t (q ++ s :: rest) value some
      ((Tree.create rest value).map fun c => Tree.replace q (Tree.addChild s c x.forget) t.forget) := by
  have dropped : (q ++ s :: rest).drop (q.length + 1) = rest := by simp
  obtain ⟨good, bad⟩ := checkCreatable_spec (q ++ s :: rest) rest q.length x.label dropped
  by_cases fresh : Tree.Creatable rest
  · obtain ⟨whole, made⟩ := (Tree.create_ok_iff rest value).mpr fresh
    obtain ⟨t', edit, forgotten, moves⟩ := set_creating m t x r q rest s anchor space value whole
      made
    have here : (q ++ s :: rest)[q.length]? = some s := by simp
    have shorter : q.length ≠ (q ++ s :: rest).length := by simp
    have applied : applyWrite m.arena ⟨x.label, q.length⟩ (q ++ s :: rest) value =
        attachChain m.arena x.label s rest value := by
      unfold applyWrite attachChain
      rw [if_neg shorter]
      simp only [dropped, here]
      cases s <;> rfl
    rw [← applied] at edit moves
    rw [made]
    exact ⟨_, t', planned.trans (good fresh), edit, forgotten, moves⟩
  · have refused : Tree.create rest value = .error .absent := by
      cases made : Tree.create rest value with
      | ok c => exact absurd ((Tree.create_ok_iff rest value).mp ⟨c, made⟩) fresh
      | error f => rw [Tree.create_error rest value f made]
    rw [refused]
    exact planFails m _ value _ (by rw [planned]; exact bad fresh)

/-- A path that gets stuck, by where and why it does. -/
theorem plan_stuck (m : ConfigModel) (t : SlotTree) (r : Represents m t)
    (segments : List PathSegment) (f : Fault) (found : Tree.locate segments t = .error f)
    (value : ConfigValue) :
    PlanServes m t segments value some (Tree.upsert sameType segments value t.forget) := by
  obtain ⟨q, s, rest, x, rfl, anchor, stuck⟩ := Tree.locate_stuck segments t f found
  obtain ⟨up, rep⟩ := r.rep.locate q anchor
  have plainAnchor : Tree.locate q t.forget = .ok x.forget := by
    rw [Tree.locate_forget, anchor]
    rfl
  have plainStuck : Tree.descend s x.forget = .error f := by
    rw [Tree.descend_forget, stuck]
    rfl
  have walked := planWrite_prefix m.arena (q ++ s :: rest) value.type none t x r.rep 0 q s rest
    anchor
  rw [r.label, Nat.zero_add] at walked
  obtain ⟨mismatch, noRoom, room⟩ := planWrite_stuck m.arena (q ++ s :: rest) value.type up x rep
    q.length s rest f stuck
  rw [← walked] at mismatch noRoom room
  cases f with
  | mismatch =>
    rw [Tree.upsert_mismatch sameType q rest s value t.forget x.forget plainAnchor plainStuck]
    exact planFails m _ value _ (mismatch rfl)
  | absent =>
    have written := Tree.upsert_creating sameType q rest s value t.forget x.forget plainAnchor
      plainStuck
    rw [Tree.canAppend_forget] at written
    rw [written]
    cases space : Tree.canAppend s x with
    | false => exact planFails m _ value _ (noRoom rfl space)
    | true => exact plan_creating m t x r q rest s anchor space value (room rfl space)

theorem set_spec (m : ConfigModel) (t : SlotTree) (r : Represents m t) (path : Bytes)
    (value : ConfigValue) (distinct : value.KeysDistinct) :
    match Reference.set path value t.forget with
    | .error code => outcome (m.set path value).1 = .error code ∧ (m.set path value).2 = m
    | .ok new => (m.set path value).1 = .ok () ∧
        Steps m (m.set path value).2 t new (afterSet (m.contains path) path) := by
  unfold ConfigModel.set Reference.set
  cases parsed : ConfigPath.parse path with
  | error e => exact ⟨rfl, rfl⟩
  | ok segments =>
    obtain ⟨names, nonempty⟩ := parse_readOk path segments parsed
    simp only [outcome_ok]
    have validated := validateTree_spec value segments.length
    by_cases fits : Fits segments.length value
    · rw [if_pos fits, (validateTree_ok_iff value segments.length).mpr fits]
      simp only
      have planned : PlanServes m t segments value (afterSet (m.contains path) path)
          (Tree.upsert sameType segments value t.forget) := by
        cases found : Tree.locate segments t with
        | ok x =>
          have present := (r.contains_iff path segments parsed).mpr ⟨x, found⟩
          have tracked : afterSet (m.contains path) path = Tree.afterReplace segments := by
            funext p
            simp only [afterSet, parsed, present, if_true]
          rw [tracked]
          exact plan_existing m t x r segments nonempty found value
        | error f =>
          have absent : m.contains path = false := by
            rw [Bool.eq_false_iff, ne_eq, r.contains_iff path segments parsed, found]
            simp
          have tracked : afterSet (m.contains path) path = some := by
            funext p
            simp [afterSet, parsed, absent]
          rw [tracked]
          exact plan_stuck m t r segments f found value
      cases written : Tree.upsert sameType segments value t.forget with
      | error f =>
        rw [written] at planned
        obtain ⟨e, code, plan⟩ := planned
        rw [plan]
        exact ⟨congrArg Except.error code, rfl⟩
      | ok new =>
        rw [written] at planned
        obtain ⟨plan, t', planned, edit, forgotten, moves⟩ := planned
        rw [planned]
        refine ⟨rfl, t', r.rewrite _ edit ?_, forgotten, moves⟩
        rw [forgotten]
        exact upsert_admissible segments value t.forget new names fits distinct r.admissible written
    · rw [if_neg fits] at validated ⊢
      cases checked : validateTree value segments.length with
      | ok u => simp [checked] at validated
      | error e =>
        rw [checked] at validated
        exact ⟨validated, rfl⟩

theorem remove_spec (m : ConfigModel) (t : SlotTree) (r : Represents m t) (path : Bytes) :
    match Reference.remove path t.forget with
    | .error code => outcome (m.remove path).1 = .error code ∧ (m.remove path).2 = m
    | .ok new => (m.remove path).1 = .ok () ∧
        Steps m (m.remove path).2 t new (afterRemove path) := by
  unfold ConfigModel.remove Reference.remove
  cases parsed : ConfigPath.parse path with
  | error e => exact ⟨rfl, rfl⟩
  | ok segments =>
    obtain ⟨_, nonempty⟩ := parse_readOk path segments parsed
    simp only [outcome_ok]
    obtain ⟨q, s, shape⟩ : ∃ q s, segments = q ++ [s] :=
      ⟨segments.dropLast, segments.getLast nonempty, (List.dropLast_append_getLast nonempty).symm⟩
    cases found : Tree.locate segments t with
    | error f =>
      have unresolved := r.resolve_error segments f found
      have failing : Tree.remove segments t.forget = .error f := by
        have plain : Tree.locate segments t.forget = .error f := by
          rw [Tree.locate_forget, found]
          rfl
        rw [shape] at plain ⊢
        exact Tree.remove_unresolved q s t.forget f plain
      rw [failing]
      cases answer : m.resolve segments with
      | ok id => simp [answer] at unresolved
      | error e =>
        have code : e.code = faultCode f := by simpa [answer, outcome] using unresolved
        exact ⟨congrArg Except.error code, rfl⟩
    | ok c =>
      have located := found
      rw [shape] at located
      obtain ⟨x, anchor, last⟩ := Tree.locate_append_success q [s] t c located
      obtain ⟨d, down, rest⟩ := Tree.locate_cons_success s [] x c last
      cases rest
      obtain ⟨up, rep⟩ := r.rep.locate q anchor
      have parent := (rep.children c (Tree.descend_mem s x c down)).up
      have plainAnchor : Tree.locate q t.forget = .ok x.forget := by
        rw [Tree.locate_forget, anchor]
        rfl
      have plainDown : Tree.descend s x.forget = .ok c.forget := by
        rw [Tree.descend_forget, down]
        rfl
      obtain ⟨edit, moves⟩ := remove_existing m t x c r q s anchor down
      have dropped : Tree.remove segments t.forget =
          .ok (Tree.replace q (Tree.dropChild s x.forget) t.forget) := by
        rw [shape]
        exact Tree.remove_resolved q s t.forget x.forget c.forget plainAnchor plainDown
      have lastSegment : segments.getLast? = some s := by
        rw [shape]
        simp
      rw [r.resolve_ok segments found, dropped]
      simp only [parent, lastSegment, coded_ok, true_and]
      refine ⟨Tree.replace q (Tree.dropChild s x) t, r.rewrite _ edit ?_,
        by rw [Tree.replace_forget, Tree.dropChild_forget], ?_⟩
      · rw [Tree.replace_forget, Tree.dropChild_forget]
        exact drop_admissible q s t.forget x.forget c.forget plainAnchor plainDown r.admissible
      · have tracked : afterRemove path = Tree.afterRemove (q ++ [s]) := by
          funext p
          simp only [afterRemove, parsed, shape]
        rw [tracked]
        exact moves

/-! ## Successful operations on the tree -/

/-- What a model answers for a value is what its tree answers. -/
theorem getValue_iff (m : ConfigModel) (t : SlotTree) (r : Represents m t) (path : Bytes)
    (segments : List PathSegment) (parsed : ConfigPath.parse path = .ok segments) (v : ConfigValue) :
    m.getValue path = .ok v ↔ Tree.locate segments t.forget = .ok v := by
  have spec := getValue_spec m t r path
  rw [Reference.getValue, parsed, outcome_ok] at spec
  simp only at spec
  cases answer : m.getValue path with
  | ok w =>
    rw [answer, outcome_ok] at spec
    cases found : Tree.locate segments t.forget with
    | ok x =>
      rw [found, coded_ok] at spec
      rw [Except.ok.injEq, Except.ok.injEq]
      rw [Except.ok.injEq] at spec
      rw [spec]
    | error f => simp [found] at spec
  | error e =>
    rw [answer] at spec
    cases found : Tree.locate segments t.forget with
    | ok x => simp [found, outcome] at spec
    | error f => simp

/-- What `set` does to the tree, when it succeeds. -/
theorem set_written (m : ConfigModel) (t : SlotTree) (r : Represents m t) (path : Bytes)
    (segments : List PathSegment) (parsed : ConfigPath.parse path = .ok segments)
    (value : ConfigValue) (distinct : value.KeysDistinct) :
    ((m.set path value).1 = .ok () →
      ∃ t', Represents (m.set path value).2 t' ∧
        Tree.upsert sameType segments value t.forget = .ok t'.forget) ∧
    (∀ e, (m.set path value).1 = .error e → (m.set path value).2 = m) := by
  have spec := set_spec m t r path value distinct
  cases written : Reference.set path value t.forget with
  | error code =>
    rw [written] at spec
    refine ⟨fun success => ?_, fun _ _ => spec.2⟩
    rw [success] at spec
    cases spec.1
  | ok new =>
    rw [written] at spec
    obtain ⟨success, t', r', plain, _⟩ := spec
    refine ⟨fun _ => ⟨t', r', ?_⟩, fun e failed => ?_⟩
    · unfold Reference.set at written
      rw [parsed] at written
      simp only [outcome_ok] at written
      split at written
      · cases upserted : Tree.upsert sameType segments value t.forget with
        | error f => simp [upserted] at written
        | ok t'' =>
          rw [upserted, coded_ok, Except.ok.injEq] at written
          rw [plain, written]
      · cases written
    · rw [success] at failed
      cases failed

/-- What `remove` does to the tree, when the path ends in a key that is there. -/
theorem remove_key (m : ConfigModel) (t : SlotTree) (r : Represents m t) (path : Bytes)
    (parent : List PathSegment) (name : Bytes)
    (parsed : ConfigPath.parse path = .ok (parent ++ [.key name])) (v : ConfigValue)
    (found : Tree.locate (parent ++ [.key name]) t.forget = .ok v) :
    (m.remove path).1 = .ok () ∧ ∃ t' x, Represents (m.remove path).2 t' ∧
      Tree.locate parent t.forget = .ok x ∧ Tree.descend (.key name) x = .ok v ∧
      t'.forget = Tree.replace parent (Tree.dropChild (.key name) x) t.forget := by
  obtain ⟨x, anchor, below⟩ := Tree.locate_append_success parent [.key name] t.forget v found
  obtain ⟨c, step, here⟩ := Tree.locate_cons_success (.key name) [] x v below
  cases here
  have removed : Reference.remove path t.forget =
      .ok (Tree.replace parent (Tree.dropChild (.key name) x) t.forget) := by
    rw [Reference.remove, parsed, outcome_ok]
    simp only [Tree.remove_resolved parent (.key name) t.forget x v anchor step]
    rfl
  have spec := remove_spec m t r path
  rw [removed] at spec
  obtain ⟨success, t', r', plain, _⟩ := spec
  exact ⟨success, t', x, r', anchor, step, plain⟩

/-! ## Reachable models -/

theorem consistent_empty : Consistent {} := by
  refine ⟨⟨[], .nil, fun i => ?_⟩, fun i _ => ⟨rfl, rfl, rfl⟩, fun i => ?_⟩
  · simp
  · rfl

theorem empty_represents : ∃ t, Represents ConfigModel.empty t ∧ t.forget = ConfigValue.object := by
  have built := allocate_built_object {} consistent_empty
  have dead : ∀ i, liveCount {} i = 0 := fun i => rfl
  refine ⟨_, ⟨built.label, built.rep, fun i => ?_, built.allocated.consistent, ?_⟩, built.forget⟩
  · have counted := built.allocated.live i
    rw [dead] at counted
    change _ = liveCount (NodeArena.allocate {} .object).2 i
    omega
  · rw [built.forget]
    exact admissible_empty

theorem fromValue_spec (value : ConfigValue) (distinct : value.KeysDistinct) :
    match Reference.fromValue value with
    | .error code => outcome (ConfigModel.fromValue value) = .error code
    | .ok new => ∃ m t, ConfigModel.fromValue value = .ok m ∧ Represents m t ∧ t.forget = new := by
  unfold ConfigModel.fromValue Reference.fromValue
  by_cases isObject : value.type = .object
  · simp only [isObject, ne_eq, not_true_eq_false, if_false]
    have validated := validateTree_spec value 0
    by_cases fits : Fits 0 value
    · rw [if_pos fits, (validateTree_ok_iff value 0).mpr fits]
      obtain ⟨t, r, plain⟩ := empty_represents
      have same : sameType t.forget value = true := by
        rw [plain, sameType, isObject]
        rfl
      obtain ⟨t', edit, forgotten, _⟩ := set_existing ConfigModel.empty t t r [] rfl value same
      rw [r.label] at edit
      refine ⟨_, t', rfl, r.rewrite _ edit ?_, forgotten⟩
      rw [forgotten]
      exact (fromValue_admissible ⟨value, distinct⟩ value (by
        simp only [Reference.fromValue, isObject, ne_eq, not_true_eq_false, if_false,
          if_pos fits])).2
    · rw [if_neg fits] at validated ⊢
      cases checked : validateTree value 0 with
      | ok u => simp [checked] at validated
      | error e =>
        have code : e.code = .invalidPath := by simpa [checked, outcome] using validated
        exact congrArg Except.error code
  · simp only [ne_eq, isObject, not_false_eq_true, if_true]
    rfl

/-- A value of an admissible tree is accepted and read back as it is. -/
theorem fromValue_ok (value : ConfigValue) (admissible : Admissible value) :
    ∃ m, ConfigModel.fromValue value = .ok m ∧ contents m = value := by
  have spec := fromValue_spec value admissible.keysDistinct
  have accepted : Reference.fromValue value = .ok value := by
    unfold Reference.fromValue
    rw [if_neg (by simp [admissible.root]), if_pos (admissible.fits)]
  rw [accepted] at spec
  obtain ⟨m, t, made, represents, plain⟩ := spec
  exact ⟨m, made, (contents_eq represents).trans plain⟩

theorem fromValue_represents (value : BuiltValue) (m : ConfigModel)
    (success : ConfigModel.fromValue value.1 = .ok m) : ∃ t, Represents m t := by
  have spec := fromValue_spec value.1 value.2
  cases accepted : Reference.fromValue value.1 with
  | error code =>
    rw [accepted] at spec
    simp [success] at spec
  | ok new =>
    rw [accepted] at spec
    obtain ⟨m', t, made, r, _⟩ := spec
    rw [made, Except.ok.injEq] at success
    exact ⟨t, success ▸ r⟩

theorem set_represents (m : ConfigModel) (t : SlotTree) (r : Represents m t) (path : Bytes)
    (value : BuiltValue) : ∃ t', Represents (m.set path value.1).2 t' := by
  have spec := set_spec m t r path value.1 value.2
  cases written : Reference.set path value.1 t.forget with
  | error code =>
    rw [written] at spec
    rw [spec.2]
    exact ⟨t, r⟩
  | ok new =>
    rw [written] at spec
    obtain ⟨_, t', r', _⟩ := spec
    exact ⟨t', r'⟩

theorem remove_represents (m : ConfigModel) (t : SlotTree) (r : Represents m t) (path : Bytes) :
    ∃ t', Represents (m.remove path).2 t' := by
  have spec := remove_spec m t r path
  cases removed : Reference.remove path t.forget with
  | error code =>
    rw [removed] at spec
    rw [spec.2]
    exact ⟨t, r⟩
  | ok new =>
    rw [removed] at spec
    obtain ⟨_, t', r', _⟩ := spec
    exact ⟨t', r'⟩

theorem reachable_represents {m : ConfigModel} (reached : Reachable m) : ∃ t, Represents m t := by
  induction reached with
  | empty =>
    obtain ⟨t, r, _⟩ := empty_represents
    exact ⟨t, r⟩
  | fromValue value m success => exact fromValue_represents value m success
  | set m path value _ ih =>
    obtain ⟨t, r⟩ := ih
    exact set_represents m t r path value
  | remove m path _ ih =>
    obtain ⟨t, r⟩ := ih
    exact remove_represents m t r path
  | clone m _ ih =>
    obtain ⟨t, r⟩ := ih
    exact ⟨t, r⟩

end ConfigManager.Refinement
