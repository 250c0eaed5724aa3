import ConfigManager.Refinement.StoredConfigs
import ConfigManager.Refinement.Synchronization

/-!
# What a document can make the JSON loader hold

At any point of any sequence of callbacks, the containers that the handler holds
have no more children than it counted, and the count is within the node limit;
they are nested no deeper than a model may be. A refusal is always told.

One thing the handler does trust: a key or an end comes inside an open container.
Without one, the source reads the back of an empty vector, which is undefined;
here such a callback does nothing, and a parser never makes it.
-/

set_option autoImplicit false

namespace ConfigManager.Guarantees
open Library Source Reference Refinement

/-! ## The builder adds one child -/

theorem sum_updateKey {κ β : Type} [DecidableEq κ] (measure : β → Nat) (key : κ) (child : β)
    (ms : List (κ × β)) :
    ((updateKey key child ms).map fun m => measure m.2).sum ≤
      (ms.map fun m => measure m.2).sum + measure child := by
  induction ms with
  | nil => exact Nat.zero_le _
  | cons m ms ih =>
    obtain ⟨k, old⟩ := m
    by_cases same : key = k
    · simp only [updateKey, if_pos same, List.map_cons, List.sum_cons]
      omega
    · simp only [updateKey, if_neg same, List.map_cons, List.sum_cons]
      omega

/-- Both builder functions at most add the child. -/
structure Grows (value child grown : ConfigValue) : Prop where
  size : grown.size ≤ value.size + child.size
  children : ∀ c ∈ grown.children, c ∈ value.children ∨ c = child

theorem set_grows (value child : ConfigValue) (key : Bytes) : Grows value child (value.set key child) := by
  cases value with
  | leaf l a => exact ⟨Nat.le_add_right _ _, fun _ inside => .inl inside⟩
  | array l es => exact ⟨Nat.le_add_right _ _, fun _ inside => .inl inside⟩
  | object l ms =>
    simp only [ConfigValue.set]
    by_cases present : (lookupKey key ms).isSome = true
    · rw [if_pos present]
      refine ⟨?_, fun c inside => ?_⟩
      · rw [Tree.size_object, Tree.size_object]
        have sum := sum_updateKey Tree.size key child ms
        omega
      · simp only [Tree.children, List.mem_map] at inside ⊢
        obtain ⟨m, inside, rfl⟩ := inside
        exact (mem_updateKey key child ms m inside).imp (fun before => ⟨m, before, rfl⟩) id
    · rw [if_neg present]
      refine ⟨?_, fun c inside => ?_⟩
      · rw [Tree.size_object, Tree.size_object]
        simp only [List.map_append, List.sum_append, List.map_cons, List.map_nil, List.sum_singleton]
        omega
      · simpa [Tree.children, or_comm, eq_comm] using inside

theorem push_grows (value child : ConfigValue) : Grows value child (value.push child) := by
  cases value with
  | leaf l a => exact ⟨Nat.le_add_right _ _, fun _ inside => .inl inside⟩
  | object l ms => exact ⟨Nat.le_add_right _ _, fun _ inside => .inl inside⟩
  | array l es =>
    refine ⟨?_, fun c inside => ?_⟩
    · simp only [ConfigValue.push, Tree.size_array, List.map_append, List.sum_append, List.map_cons,
        List.map_nil, List.sum_singleton]
      omega
    · simpa [ConfigValue.push, Tree.children] using inside

theorem hold_grows (top : Frame) (child : ConfigValue) :
    Grows top.container child (top.hold child).container := by
  unfold Frame.hold
  split
  · exact set_grows _ child _
  · exact push_grows _ child

theorem hold_distinct (top : Frame) (child : ConfigValue) (distinct : top.container.KeysDistinct)
    (distinct' : child.KeysDistinct) : (top.hold child).container.KeysDistinct := by
  unfold Frame.hold
  split
  · exact ConfigValue.set_keysDistinct _ child _ distinct distinct'
  · exact ConfigValue.push_keysDistinct _ child distinct distinct'

/-! ## The invariant of the handler -/

/-- The children that the open containers hold, with all below them. -/
def held (stack : List Frame) : Nat := (stack.map fun frame => frame.container.size - 1).sum

def rootSize (b : ValueBuilder) : Nat := (b.root.map Tree.size).getD 0

/-- Every open container leaves room for the containers around it. -/
inductive Nested : List Frame → Prop where
  | none : Nested []
  | inside (top : Frame) (outer : List Frame) (rest : Nested outer)
      (shallow : top.container.height + outer.length ≤ kMaxTreeDepth)
      (distinct : top.container.KeysDistinct) : Nested (top :: outer)

structure Bounded (b : ValueBuilder) : Prop where
  nodes : b.nodes ≤ b.limits.maxNodes
  counted : held b.stack + rootSize b ≤ b.nodes
  nested : Nested b.stack
  root : ∀ root, b.root = some root → root.height ≤ kMaxTreeDepth ∧ root.KeysDistinct

theorem Nested.frames {stack : List Frame} (nested : Nested stack) :
    stack.length ≤ kMaxTreeDepth + 1 := by
  cases nested with
  | none => exact Nat.zero_le _
  | inside top outer rest shallow distinct =>
    rw [List.length_cons]
    omega

theorem Nested.frame {stack : List Frame} (nested : Nested stack) (frame : Frame)
    (inside : frame ∈ stack) :
    frame.container.height ≤ kMaxTreeDepth ∧ frame.container.KeysDistinct := by
  induction nested with
  | none => cases inside
  | inside top outer rest shallow distinct ih =>
    rcases List.mem_cons.mp inside with rfl | inside
    · exact ⟨by omega, distinct⟩
    · exact ih inside

/-- What a callback leaves. -/
structure Handled (b : ValueBuilder) (ended : Bool × ValueBuilder) : Prop where
  bounded : Bounded ended.2
  limits : ended.2.limits = b.limits
  told : ended.1 = false →
    ∃ e, ended.2.error = some e ∧ (e.code = .parseError ∨ e.code = .invalidVersion)

theorem Handled.after {b b' : ValueBuilder} {ended : Bool × ValueBuilder} (handled : Handled b' ended)
    (limits : b'.limits = b.limits) : Handled b ended :=
  ⟨handled.bounded, handled.limits.trans limits, handled.told⟩

section
variable {b : ValueBuilder} (bounded : Bounded b)
include bounded

theorem Bounded.keeps (answer : Bool) (b' : ValueBuilder) (nodes : b'.nodes = b.nodes)
    (limits : b'.limits = b.limits) (stack : b'.stack = b.stack) (root : b'.root = b.root)
    (told : answer = true) : Handled b (answer, b') := by
  refine ⟨⟨?_, ?_, ?_, ?_⟩, limits, fun refused => ?_⟩
  · rw [nodes, limits]
    exact bounded.nodes
  · rw [nodes, stack, rootSize, root]
    exact bounded.counted
  · rw [stack]
    exact bounded.nested
  · rw [root]
    exact bounded.root
  · rw [told] at refused
    cases refused

theorem setError_handled (code : ErrorCode) (message : Bytes)
    (known : code = .parseError ∨ code = .invalidVersion) : Handled b (b.setError code message) :=
  ⟨⟨bounded.nodes, bounded.counted, bounded.nested, bounded.root⟩, rfl, fun _ => ⟨_, rfl, known⟩⟩

/-- A node is counted, or the limit is reached. -/
theorem consumeNode_cases :
    (b.nodes < b.limits.maxNodes ∧ b.consumeNode = (true, { b with nodes := b.nodes + 1 })) ∨
      ∃ b', b.consumeNode = (false, b') ∧ Handled b (false, b') := by
  unfold ValueBuilder.consumeNode
  by_cases full : b.nodes = b.limits.maxNodes
  · rw [if_pos full]
    exact .inr ⟨_, rfl, setError_handled bounded _ _ (.inl rfl)⟩
  · rw [if_neg full]
    exact .inl ⟨lt_of_le_of_ne bounded.nodes full, rfl⟩

/-- A value that takes part of the count with it, and goes into the container that is open. -/
theorem attach_handled (value : ConfigValue)
    (counted : held b.stack + rootSize b + (value.size - 1) ≤ b.nodes)
    (shallow : value.height + b.stack.length ≤ kMaxTreeDepth ∨ value.height = 0)
    (distinct : value.KeysDistinct) : Handled b (b.attach value) := by
  unfold ValueBuilder.attach
  by_cases deep : kMaxTreeDepth < b.stack.length
  · rw [if_pos deep]
    exact setError_handled bounded _ _ (.inl rfl)
  rw [if_neg deep]
  rcases consumeNode_cases bounded with ⟨room, consumed⟩ | ⟨b', consumed, handled⟩
  · rw [consumed]
    simp only
    have size := Tree.size_pos value
    cases frames : b.stack with
    | nil =>
      have before := bounded.counted
      have nested := bounded.nested
      rw [frames] at before nested
      exact ⟨⟨room, before.trans (Nat.le_succ _), nested, bounded.root⟩, rfl,
        fun refused => by cases refused⟩
    | cons top outer =>
      have nested := bounded.nested
      rw [frames] at nested counted deep shallow
      cases nested with
      | inside _ _ rest within keys =>
        have grows := hold_grows top value
        have least := Tree.size_pos top.container
        rw [List.length_cons] at shallow deep
        refine ⟨⟨room, ?_, .inside _ _ rest ?_ (hold_distinct top value keys distinct), bounded.root⟩,
          rfl, fun refused => by cases refused⟩
        · have grown := grows.size
          simp only [held, rootSize, List.map_cons, List.sum_cons] at counted ⊢
          omega
        · -- The value is one deeper than the container it goes into.
          have bound : (top.hold value).container.height ≤ kMaxTreeDepth - outer.length := by
            rw [Tree.height_le_iff]
            intro c inside
            rcases grows.children c inside with before | rfl
            · have lower := Tree.height_child_lt _ c before
              omega
            · omega
          omega
  · rw [consumed]
    exact handled

theorem onScalar_handled (scalar : Scalar) : Handled b (b.onScalar (ConfigValue.of scalar)) := by
  unfold ValueBuilder.onScalar
  by_cases outside : b.stack.isEmpty = true
  · rw [if_pos outside]
    exact setError_handled bounded _ _ (.inl rfl)
  rw [if_neg outside]
  have cleared : Bounded { b with nextIsCarrier := false } :=
    ⟨bounded.nodes, bounded.counted, bounded.nested, bounded.root⟩
  simp only [ValueBuilder.consumeCarrierFlag]
  cases b.nextIsCarrier with
  | true => exact (setError_handled cleared _ _ (.inr rfl)).after rfl
  | false =>
    exact (attach_handled cleared (ConfigValue.of scalar) bounded.counted (.inr rfl)
      (ConfigValue.keysDistinct_of scalar)).after rfl

theorem numberUnsigned_handled (value : UInt64) : Handled b (b.numberUnsigned value) := by
  unfold ValueBuilder.numberUnsigned
  by_cases outside : b.stack.isEmpty = true
  · rw [if_pos outside]
    exact setError_handled bounded _ _ (.inl rfl)
  rw [if_neg outside]
  have cleared : Bounded { b with nextIsCarrier := false } :=
    ⟨bounded.nodes, bounded.counted, bounded.nested, bounded.root⟩
  simp only [ValueBuilder.consumeCarrierFlag]
  cases b.nextIsCarrier with
  | true =>
    simp only
    split
    · exact (setError_handled cleared _ _ (.inr rfl)).after rfl
    · exact bounded.keeps true _ rfl rfl rfl rfl rfl
  | false =>
    simp only
    split
    · exact (setError_handled cleared _ _ (.inl rfl)).after rfl
    · exact (attach_handled cleared (ConfigValue.of _) bounded.counted (.inr rfl)
        (ConfigValue.keysDistinct_of _)).after rfl

theorem numberInteger_handled (value : Int64) : Handled b (b.numberInteger value) := by
  unfold ValueBuilder.numberInteger
  by_cases outside : b.stack.isEmpty = true
  · rw [if_pos outside]
    exact setError_handled bounded _ _ (.inl rfl)
  rw [if_neg outside]
  have cleared : Bounded { b with nextIsCarrier := false } :=
    ⟨bounded.nodes, bounded.counted, bounded.nested, bounded.root⟩
  simp only [ValueBuilder.consumeCarrierFlag]
  cases b.nextIsCarrier with
  | true => exact (setError_handled cleared _ _ (.inr rfl)).after rfl
  | false =>
    exact (attach_handled cleared (ConfigValue.of _) bounded.counted (.inr rfl)
      (ConfigValue.keysDistinct_of _)).after rfl

theorem numberFloat_handled (value : Double) (literal : Bytes) :
    Handled b (b.numberFloat value literal) := by
  unfold ValueBuilder.numberFloat
  by_cases outside : b.stack.isEmpty = true
  · rw [if_pos outside]
    exact setError_handled bounded _ _ (.inl rfl)
  rw [if_neg outside]
  have cleared : Bounded { b with nextIsCarrier := false } :=
    ⟨bounded.nodes, bounded.counted, bounded.nested, bounded.root⟩
  simp only [ValueBuilder.consumeCarrierFlag]
  cases b.nextIsCarrier with
  | true => exact (setError_handled cleared _ _ (.inr rfl)).after rfl
  | false =>
    simp only
    split
    · exact (setError_handled cleared _ _ (.inl rfl)).after rfl
    · exact (attach_handled cleared (ConfigValue.of _) bounded.counted (.inr rfl)
        (ConfigValue.keysDistinct_of _)).after rfl

/-- An opened container holds nothing yet. -/
theorem opened_handled (container : ConfigValue) (size : container.size = 1)
    (shallow : container.height = 0) (distinct : container.KeysDistinct) (name : Bytes) :
    Handled b (match b.consumeCarrierFlag with
      | (true, b) => b.carrierError name
      | (false, b) =>
          match b.checkContainerDepth with
          | (false, b) => (false, b)
          | (true, b) => (true, { b with stack := ⟨container, []⟩ :: b.stack })) := by
  have cleared : Bounded { b with nextIsCarrier := false } :=
    ⟨bounded.nodes, bounded.counted, bounded.nested, bounded.root⟩
  simp only [ValueBuilder.consumeCarrierFlag]
  cases b.nextIsCarrier with
  | true => exact (setError_handled cleared _ _ (.inr rfl)).after rfl
  | false =>
    simp only [ValueBuilder.checkContainerDepth]
    by_cases deep : kMaxTreeDepth < b.stack.length
    · rw [if_pos deep]
      exact (setError_handled cleared _ _ (.inl rfl)).after rfl
    · rw [if_neg deep]
      have counted := bounded.counted
      refine ⟨⟨bounded.nodes, ?_, .inside _ _ bounded.nested ?_ distinct, bounded.root⟩, rfl,
        fun refused => by cases refused⟩
      · simp only [held, rootSize, List.map_cons, List.sum_cons, size] at counted ⊢
        omega
      · simp only [shallow]
        omega

theorem key_handled (name : Bytes) : Handled b (b.key name) := by
  unfold ValueBuilder.key
  by_cases plain : (!isPathAddressable name) = true
  · rw [if_pos plain]
    exact setError_handled bounded _ _ (.inl rfl)
  rw [if_neg plain]
  cases frames : b.stack with
  | nil => exact bounded.keeps true b rfl rfl rfl rfl rfl
  | cons top outer =>
    simp only
    split
    · split
      · exact setError_handled bounded _ _ (.inl rfl)
      · exact bounded.keeps true _ rfl rfl frames.symm rfl rfl
    · split
      · exact setError_handled bounded _ _ (.inl rfl)
      · have counted := bounded.counted
        have nested := bounded.nested
        rw [frames] at counted nested
        cases nested with
        | inside _ _ rest shallow distinct =>
          exact ⟨⟨bounded.nodes, counted, .inside _ _ rest shallow distinct, bounded.root⟩, rfl,
            fun refused => by cases refused⟩

/-- A closed container takes its children out of the frames, and into the one around it. -/
theorem popFrame_handled : Handled b b.popFrame := by
  unfold ValueBuilder.popFrame
  cases frames : b.stack with
  | nil => exact bounded.keeps true b rfl rfl rfl rfl rfl
  | cons top outer =>
    have counted := bounded.counted
    have nested := bounded.nested
    rw [frames] at counted nested
    cases nested with
    | inside _ _ rest shallow distinct =>
      simp only [held, List.map_cons, List.sum_cons] at counted
      have popped : Bounded { b with stack := outer } :=
        ⟨bounded.nodes, by simp only [held, rootSize] at counted ⊢; omega, rest, bounded.root⟩
      simp only
      by_cases last : outer.isEmpty = true
      · rw [if_pos last]
        rcases consumeNode_cases popped with ⟨room, consumed⟩ | ⟨b', consumed, handled⟩
        · rw [consumed]
          obtain rfl := List.isEmpty_iff.mp last
          have size := Tree.size_pos top.container
          refine ⟨⟨room, ?_, rest, fun root same => ?_⟩, rfl, fun refused => by cases refused⟩
          · simp only [held, rootSize, List.map_nil, List.sum_nil, Option.map_some,
              Option.getD_some] at counted ⊢
            omega
          · cases same
            exact ⟨by omega, distinct⟩
        · rw [consumed]
          exact handled.after rfl
      · rw [if_neg last]
        refine (attach_handled popped top.container ?_ (.inl shallow) distinct).after rfl
        simp only [held, rootSize] at counted ⊢
        omega

/-- One lemma for all callbacks. -/
theorem handle_handled (event : SaxEvent) : Handled b (b.handle event) := by
  have object : ConfigValue.KeysDistinct ConfigValue.object :=
    (ConfigValue.keysDistinct_object []).mpr ⟨List.nodup_nil, by simp⟩
  have array : ConfigValue.KeysDistinct ConfigValue.array :=
    (ConfigValue.keysDistinct_array []).mpr (by simp)
  cases event with
  | null => exact onScalar_handled bounded _
  | boolean value => exact onScalar_handled bounded _
  | numberInteger value => exact numberInteger_handled bounded value
  | numberUnsigned value => exact numberUnsigned_handled bounded value
  | numberFloat value literal => exact numberFloat_handled bounded value literal
  | string value => exact onScalar_handled bounded _
  | binary => exact bounded.keeps true b rfl rfl rfl rfl rfl
  | startObject => exact opened_handled bounded _ rfl rfl object _
  | key value => exact key_handled bounded value
  | endObject => exact popFrame_handled bounded
  | startArray =>
    simp only [ValueBuilder.handle, ValueBuilder.startArray]
    split
    · exact setError_handled bounded _ _ (.inl rfl)
    · exact opened_handled bounded _ rfl rfl array _
  | endArray => exact popFrame_handled bounded
  | parseError what => exact setError_handled bounded _ _ (.inl rfl)

theorem saxParse_handled (events : List SaxEvent) : Handled b (b.saxParse events) := by
  induction events generalizing b with
  | nil => exact bounded.keeps true b rfl rfl rfl rfl rfl
  | cons event rest ih =>
    have first := handle_handled bounded event
    rw [ValueBuilder.saxParse]
    generalize b.handle event = ended at first
    obtain ⟨answer, b'⟩ := ended
    cases answer with
    | false => exact first
    | true => exact (ih first.bounded).after first.limits

end

theorem initial_bounded (limits : LoadLimits) : Bounded { limits := limits } :=
  ⟨Nat.zero_le _, Nat.le_refl 0, .none, fun _ impossible => by cases impossible⟩

/-- Whatever callbacks the parser makes, with its keys and ends inside an open container: what the
handler holds stays within the node limit and the depth of a model, and a refusal has its error.
Whatever text the parser makes them for, decoding fails as a parse error or an invalid version, or
gives a model within the limit. -/
theorem loader_bounded (limits : LoadLimits) :
    (∀ events answer b, ValueBuilder.saxParse { limits := limits } events = (answer, b) →
      b.nodes ≤ limits.maxNodes ∧ held b.stack + rootSize b ≤ b.nodes ∧
      b.stack.length ≤ kMaxTreeDepth + 1 ∧
      (∀ value, value ∈ b.stack.map Frame.container ∨ b.root = some value →
        value.height ≤ kMaxTreeDepth ∧ value.KeysDistinct) ∧
      (answer = false →
        ∃ e, b.error = some e ∧ (e.code = .parseError ∨ e.code = .invalidVersion))) ∧
    ∀ json text,
      (∃ e, JsonInterface.decode json limits text = .error e ∧
        (e.code = .parseError ∨ e.code = .invalidVersion)) ∨
      ∃ c, JsonInterface.decode json limits text = .ok c ∧ Reachable c.model ∧
        (contents c.model).size ≤ limits.maxNodes := by
  have states : ∀ events, Handled { limits := limits }
      (ValueBuilder.saxParse { limits := limits } events) := fun events =>
    saxParse_handled (initial_bounded limits) events
  refine ⟨fun events answer b ended => ?_, fun json text => ?_⟩
  · have handled := states events
    rw [ended] at handled
    have bounded : Bounded b := handled.bounded
    have same : b.limits = limits := handled.limits
    have nodes := bounded.nodes
    rw [same] at nodes
    refine ⟨nodes, bounded.counted, bounded.nested.frames, fun value among => ?_, handled.told⟩
    rcases among with inside | root
    · obtain ⟨frame, member, rfl⟩ := List.mem_map.mp inside
      exact bounded.nested.frame frame member
    · exact bounded.root value root
  · have handled := states (json.events text)
    unfold JsonInterface.decode
    generalize ValueBuilder.saxParse { limits := limits } (json.events text) = ended at handled
    obtain ⟨answer, b⟩ := ended
    cases answer with
    | false =>
      obtain ⟨e, told, code⟩ := handled.told rfl
      change b.error = some e at told
      exact .inl ⟨e, by simp [ValueBuilder.takeError, told], code⟩
    | true =>
      simp only [Bool.not_true, Bool.false_eq_true, if_false]
      cases b.version with
      | none => exact .inl ⟨_, rfl, .inr rfl⟩
      | some version =>
        simp only
        cases adopted : ConfigModel.fromValue b.takeRoot with
        | error e => exact .inl ⟨_, rfl, .inl rfl⟩
        | ok model =>
          have bounded : Bounded b := handled.bounded
          have same : b.limits = limits := handled.limits
          cases rooted : b.root with
          | none =>
            rw [ValueBuilder.takeRoot, rooted] at adopted
            cases adopted
          | some root =>
            rw [ValueBuilder.takeRoot, rooted, Option.getD_some] at adopted
            have distinct := (bounded.root root rooted).2
            obtain ⟨t, r, plain⟩ := fromValue_holds ⟨root, distinct⟩ model adopted
            refine .inr ⟨_, rfl, .fromValue ⟨root, distinct⟩ model adopted, ?_⟩
            have counted := bounded.counted
            have nodes := bounded.nodes
            rw [rootSize, rooted, Option.map_some, Option.getD_some] at counted
            rw [same] at nodes
            rw [contents_eq r, plain]
            change root.size ≤ limits.maxNodes
            omega

end ConfigManager.Guarantees
