import ConfigManager.Refinement.ValueBuilding

/-!
# The builder of configuration values

Every value that can be built is an ordered tree with distinct keys, and every such
tree can be built. The index gives the answers of a search through the members, and a
call that runs out of memory leaves its value as it was.
-/

set_option autoImplicit false

namespace ConfigManager.Guarantees
open Library Source Refinement
open Throwing (Ensures)

theorem built_coherent {value : StoredValue} (built : StoredValue.Built value) :
    CoherentBelow value := by
  have plain : ∀ value : StoredValue, Coherent value → value.object = [] → value.array = [] →
      CoherentBelow value := by
    intro value coherent members elements
    refine .node value coherent ?_ ?_
    · rw [members]
      exact fun m inside => absurd inside List.not_mem_nil
    · rw [elements]
      exact fun e inside => absurd inside List.not_mem_nil
  induction built with
  | null => exact plain _ ⟨Indexes.nil, fun _ _ => rfl, fun _ => rfl, fun _ => rfl⟩ rfl rfl
  | of scalar typed =>
    exact plain _ ⟨Indexes.nil, fun _ _ => rfl, fun _ => rfl, fun _ => rfl⟩ rfl rfl
  | object =>
    exact plain _ ⟨Indexes.nil, fun other => absurd rfl other, fun _ => rfl, fun _ => rfl⟩ rfl rfl
  | array =>
    exact plain _ ⟨Indexes.nil, fun _ other => absurd rfl other, fun _ => rfl, fun _ => rfl⟩ rfl rfl
  | set value child key granted isObject before childBefore sound childSound =>
    exact (set_makes value child granted sound childSound key isObject).coherent value granted sound
  | push value child granted isArray before childBefore sound childSound =>
    exact (push_makes value child granted sound childSound isArray).coherent value granted sound

/-- The tree operation, or nothing because an allocation failed. -/
def MakesTree (call : Throwing Building Unit) (value : StoredValue) (granted : Nat → Bool)
    (plain : ConfigValue) : Prop :=
  Ensures call { value := value, granted := granted }
    (fun _ after => after.value.contents = plain)
    (fun after => after.value = value ∧ ∃ i < after.performed, granted i = false)

structure FollowsTree (value : StoredValue) : Prop where
  distinct : value.contents.KeysDistinct
  type : value.type = value.contents.type
  contains : ∀ key, value.contains key = value.contents.contains key
  set : ∀ (key : Bytes) (child : StoredValue) (granted : Nat → Bool), value.type = .object →
    StoredValue.Built child →
    MakesTree (StoredValue.set key child) value granted (value.contents.set key child.contents)
  push : ∀ (child : StoredValue) (granted : Nat → Bool), value.type = .array →
    StoredValue.Built child →
    MakesTree (StoredValue.push child) value granted (value.contents.push child.contents)

/-- After any calls of the builder, with any failed allocations among them, the indexed operations
are those of the ordered tree. -/
theorem builder_follows_tree (value : StoredValue) (built : StoredValue.Built value) :
    FollowsTree value where
  distinct := (built_coherent built).distinct
  type := (contents_type value (built_coherent built).here).symm
  contains key := (contents_contains value (built_coherent built).here key).symm
  set key child granted isObject childBuilt :=
    (set_makes value child granted (built_coherent built) (built_coherent childBuilt) key
      isObject).imp (fun _ _ made => made.2.2) fun _ failed => failed
  push child granted isArray childBuilt :=
    (push_makes value child granted (built_coherent built) (built_coherent childBuilt)
      isArray).imp (fun _ _ made => made.2.2) fun _ failed => failed

/-- An object with one member, built around a call of `set` that found no memory. -/
def soleMember : StoredValue :=
  (StoredValue.set (bytes "a") (StoredValue.of (.bool true)) {
    value := (StoredValue.set (bytes "b") (StoredValue.of (.bool false)) {
      value := StoredValue.emptyObject
      granted := fun i => i == 0 }).state.value
    granted := fun _ => true }).state.value

theorem soleMember_follows_tree :
    soleMember.contains (bytes "a") = true ∧ soleMember.contains (bytes "b") = false ∧
      FollowsTree soleMember :=
  ⟨by decide, by decide, builder_follows_tree soleMember
    (.set _ _ (bytes "a") (fun _ => true) rfl
      (.set _ _ (bytes "b") (fun i => i == 0) rfl .object (.of (.bool false) (by decide)))
      (.of (.bool true) (by decide)))⟩

/-! ## What can be built -/

/-- A call on a built value, with memory for all of it. -/
theorem makes_all {value : StoredValue} {call : Throwing Building Unit} {type : NodeType}
    {plain : ConfigValue} (makes : Makes call value (fun _ => true) type plain) :
    (call { value := value, granted := fun _ => true }).state.value.type = type ∧
      (call { value := value, granted := fun _ => true }).state.value.contents = plain :=
  Ensures.either (fun after => after.value.type = type ∧ after.value.contents = plain) makes
    (fun _ _ made => ⟨made.1, made.2.2⟩) fun _ failed => by
      obtain ⟨_, _, _, refused⟩ := failed
      cases refused

/-- The members are set one after the other. -/
theorem members_built (ms : List (Bytes × ConfigValue))
    (each : ∀ m ∈ ms, ∃ child, StoredValue.Built child ∧ child.contents = m.2)
    (done : List (Bytes × ConfigValue)) (distinct : ((done ++ ms).map Prod.fst).Nodup)
    (value : StoredValue) (built : StoredValue.Built value) (isObject : value.type = .object)
    (holds : value.contents = Tree.object () done) :
    ∃ last, StoredValue.Built last ∧ last.contents = Tree.object () (done ++ ms) := by
  induction ms generalizing done value with
  | nil => exact ⟨value, built, by rw [holds, List.append_nil]⟩
  | cons m ms ih =>
    obtain ⟨key, plain⟩ := m
    obtain ⟨child, childBuilt, same⟩ := each (key, plain) List.mem_cons_self
    have makes := makes_all (set_makes value child (fun _ => true) (built_coherent built)
      (built_coherent childBuilt) key isObject)
    have fresh : key ∉ done.map Prod.fst := by
      intro earlier
      rw [List.map_append, List.nodup_append] at distinct
      exact distinct.2.2 key earlier key List.mem_cons_self rfl
    have written : value.contents.set key child.contents = Tree.object () (done ++ [(key, plain)]) := by
      rw [holds, same, ConfigValue.set_of_absent done key plain fresh]
    have next := ih (fun m inside => each m (List.mem_cons_of_mem _ inside)) (done ++ [(key, plain)])
      (by rw [List.append_assoc]; exact distinct) _
      (.set value child key (fun _ => true) isObject built childBuilt) makes.1
      (makes.2.trans written)
    rw [List.append_assoc] at next
    exact next

theorem elements_built (es : List ConfigValue)
    (each : ∀ e ∈ es, ∃ child, StoredValue.Built child ∧ child.contents = e)
    (done : List ConfigValue) (value : StoredValue) (built : StoredValue.Built value)
    (isArray : value.type = .array) (holds : value.contents = Tree.array () done) :
    ∃ last, StoredValue.Built last ∧ last.contents = Tree.array () (done ++ es) := by
  induction es generalizing done value with
  | nil => exact ⟨value, built, by rw [holds, List.append_nil]⟩
  | cons plain es ih =>
    obtain ⟨child, childBuilt, same⟩ := each plain List.mem_cons_self
    have makes := makes_all (push_makes value child (fun _ => true) (built_coherent built)
      (built_coherent childBuilt) isArray)
    have written : value.contents.push child.contents = Tree.array () (done ++ [plain]) := by
      rw [holds, same]
      rfl
    have next := ih (fun e inside => each e (List.mem_cons_of_mem _ inside)) (done ++ [plain]) _
      (.push value child (fun _ => true) isArray built childBuilt) makes.1 (makes.2.trans written)
    rw [List.append_assoc] at next
    exact next

/-- The builder makes exactly the trees whose keys are distinct. -/
theorem builder_exact (value : ConfigValue) :
    value.KeysDistinct ↔ ∃ stored, StoredValue.Built stored ∧ stored.contents = value := by
  constructor
  · intro distinct
    induction value using Tree.children_induction with
    | node value ih =>
    cases value with
    | leaf label scalar =>
      by_cases typed : scalar = .monostate
      · exact ⟨{}, .null, by rw [typed]; rfl⟩
      · exact ⟨_, .of scalar typed, by cases scalar <;> rfl⟩
    | object label ms =>
      rw [ConfigValue.keysDistinct_object] at distinct
      refine members_built ms (fun m inside => ?_) [] distinct.1 _ .object rfl rfl
      exact ih m.2 (List.mem_map_of_mem inside) (distinct.2 m inside)
    | array label es =>
      rw [ConfigValue.keysDistinct_array] at distinct
      refine elements_built es (fun e inside => ?_) [] _ .array rfl rfl
      exact ih e inside (distinct e inside)
  · intro made
    obtain ⟨stored, built, rfl⟩ := made
    exact (built_coherent built).distinct

end ConfigManager.Guarantees
