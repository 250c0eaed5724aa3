import ConfigManager.Library.PositionIndex
import ConfigManager.Source.ValueBuilding

/-!
# Values as the class stores them

In every value that can be built the index agrees with the members, so that `set`,
`contains` and `push` do on the stored value what they do on the ordered tree it holds.
-/

set_option autoImplicit false

namespace ConfigManager.Refinement
open Library Source
open Throwing (Ensures bind_returned)

/-- The index agrees with the members, and only what the type announces is used. -/
structure Coherent (value : StoredValue) : Prop where
  indexed : Indexes value.objectIndex value.object
  typed : value.type ≠ .object → value.type ≠ .array → value.scalar.type = value.type
  members : value.type ≠ .object → value.object = []
  elements : value.type ≠ .array → value.array = []

/-- A value that is coherent with all values in it. -/
inductive CoherentBelow : StoredValue → Prop where
  | node (value : StoredValue) (coherent : Coherent value)
      (members : ∀ m ∈ value.object, CoherentBelow m.2)
      (elements : ∀ e ∈ value.array, CoherentBelow e) : CoherentBelow value

theorem CoherentBelow.here {value : StoredValue} (sound : CoherentBelow value) : Coherent value := by
  cases sound with
  | node _ coherent _ _ => exact coherent

/-! ## Contents -/

theorem memberContents_eq (object : List (Bytes × StoredValue)) :
    StoredValue.memberContents object = object.map fun m => (m.1, m.2.contents) := by
  induction object with
  | nil => rfl
  | cons m object ih =>
    obtain ⟨key, value⟩ := m
    rw [StoredValue.memberContents, ih, List.map_cons]

theorem elementContents_eq (array : List StoredValue) :
    StoredValue.elementContents array = array.map StoredValue.contents := by
  induction array with
  | nil => rfl
  | cons value array ih => rw [StoredValue.elementContents, ih, List.map_cons]

section
variable (value : StoredValue)

theorem contents_object (isObject : value.type = .object) :
    value.contents = Tree.object () (value.object.map fun m => (m.1, m.2.contents)) := by
  obtain ⟨type, scalar, object, index, array⟩ := value
  cases isObject
  rw [StoredValue.contents, memberContents_eq]

theorem contents_array (isArray : value.type = .array) :
    value.contents = Tree.array () (value.array.map StoredValue.contents) := by
  obtain ⟨type, scalar, object, index, array⟩ := value
  cases isArray
  rw [StoredValue.contents, elementContents_eq]

theorem contents_scalar (notObject : value.type ≠ .object) (notArray : value.type ≠ .array) :
    value.contents = Tree.leaf () value.scalar := by
  obtain ⟨type, scalar, object, index, array⟩ := value
  cases type with
  | object => exact absurd rfl notObject
  | array => exact absurd rfl notArray
  | null | bool | int | double | string => rw [StoredValue.contents]

theorem contents_type (coherent : Coherent value) : value.contents.type = value.type := by
  by_cases isObject : value.type = .object
  · rw [contents_object value isObject, isObject]
    rfl
  · by_cases isArray : value.type = .array
    · rw [contents_array value isArray, isArray]
      rfl
    · rw [contents_scalar value isObject isArray]
      exact coherent.typed isObject isArray

/-- `contains` asks the index, and the index knows the members. -/
theorem contents_contains (coherent : Coherent value) (key : Bytes) :
    value.contents.contains key = value.contains key := by
  unfold StoredValue.contains
  rw [coherent.indexed.isSome key]
  by_cases isObject : value.type = .object
  · rw [contents_object value isObject, ConfigValue.contains, lookup_map, Option.isSome_map]
  · rw [coherent.members isObject]
    by_cases isArray : value.type = .array
    · rw [contents_array value isArray]
      rfl
    · rw [contents_scalar value isObject isArray]
      rfl

end

/-- The index refuses a second member of one name, so the tree has none. -/
theorem CoherentBelow.distinct {value : StoredValue} (sound : CoherentBelow value) :
    value.contents.KeysDistinct := by
  induction sound with
  | node value coherent members elements inMembers inElements =>
    by_cases isObject : value.type = .object
    · rw [contents_object value isObject, ConfigValue.keysDistinct_object]
      refine ⟨?_, fun m inside => ?_⟩
      · rw [List.map_map]
        exact coherent.indexed.distinct
      · obtain ⟨stored, listed, rfl⟩ := List.mem_map.mp inside
        exact inMembers stored listed
    · by_cases isArray : value.type = .array
      · rw [contents_array value isArray, ConfigValue.keysDistinct_array]
        intro e inside
        obtain ⟨stored, listed, rfl⟩ := List.mem_map.mp inside
        exact inElements stored listed
      · rw [contents_scalar value isObject isArray]
        exact ConfigValue.keysDistinct_of value.scalar

/-! ## The operations -/

/-- A request changes nothing but the count, and throws only when it was not granted. -/
theorem allocation_ensures (building : Building) :
    Ensures StoredValue.request building
      (fun _ after => after.value = building.value ∧ after.granted = building.granted)
      (fun after => after.value = building.value ∧
        ∃ i < after.performed, building.granted i = false) := by
  unfold Ensures StoredValue.request
  cases found : building.granted building.performed with
  | true => exact ⟨rfl, rfl⟩
  | false => exact ⟨rfl, building.performed, Nat.lt_succ_self _, found⟩

/-- Undoing the entry of a key that was new. -/
theorem eraseIndex_emplaceIndex (value : StoredValue) (key : Bytes)
    (fresh : value.objectIndex key = none) :
    StoredValue.eraseIndex key (StoredValue.emplaceIndex key value) = value := by
  cases value with
  | mk type scalar object index array =>
    unfold StoredValue.eraseIndex StoredValue.emplaceIndex
    rw [update_forget key fresh object.length]

theorem onValue_ensures (f : StoredValue → StoredValue) (building : Building)
    (throws : Building → Prop) :
    Ensures (StoredValue.onValue f) building
      (fun _ after => after = { building with value := f building.value }) throws :=
  Ensures.update _ rfl

section
variable (value child : StoredValue) (sound : CoherentBelow value) (childSound : CoherentBelow child)
include sound childSound

theorem replace_sound (key : Bytes) (isObject : value.type = .object) :
    CoherentBelow { value with object := updateKey key child value.object } := by
  cases sound with
  | node _ coherent members elements =>
    refine .node _ ⟨coherent.indexed.of_keys (updateKey_keys key child value.object),
      coherent.typed, fun other => absurd isObject other, coherent.elements⟩ (fun m inside => ?_)
      elements
    rcases mem_updateKey key child value.object m inside with earlier | written
    · exact members m earlier
    · rw [written]
      exact childSound

/-- Between the index entry and the push the value is not coherent; with both done it is. -/
theorem append_sound (key : Bytes) (isObject : value.type = .object)
    (fresh : value.objectIndex key = none) :
    CoherentBelow { StoredValue.emplaceIndex key value with
      object := value.object ++ [(key, child)] } := by
  cases sound with
  | node _ coherent members elements =>
    refine .node _ ⟨coherent.indexed.append key fresh child, coherent.typed,
      fun other => absurd isObject other, coherent.elements⟩ (fun m inside => ?_) elements
    rcases List.mem_append.mp inside with earlier | last
    · exact members m earlier
    · rw [List.mem_singleton.mp last]
      exact childSound

theorem push_sound (isArray : value.type = .array) :
    CoherentBelow { value with array := value.array ++ [child] } := by
  cases sound with
  | node _ coherent members elements =>
    refine .node _ ⟨coherent.indexed, coherent.typed, coherent.members,
      fun other => absurd isArray other⟩ members (fun e inside => ?_)
    rcases List.mem_append.mp inside with earlier | last
    · exact elements e earlier
    · rw [List.mem_singleton.mp last]
      exact childSound

end

/-- What a builder call does to a value: the tree operation, or nothing because an allocation
failed. -/
def Makes (call : Throwing Building Unit) (value : StoredValue) (granted : Nat → Bool)
    (type : NodeType) (plain : ConfigValue) : Prop :=
  Ensures call { value := value, granted := granted }
    (fun _ after => after.value.type = type ∧ CoherentBelow after.value ∧
      after.value.contents = plain)
    (fun after => after.value = value ∧ ∃ i < after.performed, granted i = false)

theorem contents_set (value child : StoredValue) (key : Bytes) (isObject : value.type = .object)
    (object : List (Bytes × StoredValue)) (index : Bytes → Option Nat)
    (written : object = if (lookupKey key value.object).isSome then updateKey key child value.object
      else value.object ++ [(key, child)]) :
    { value with object := object, objectIndex := index }.contents =
      value.contents.set key child.contents := by
  rw [contents_object value isObject,
    contents_object { value with object := object, objectIndex := index } isObject, written,
    ConfigValue.set, lookup_map, Option.isSome_map]
  by_cases present : (lookupKey key value.object).isSome = true
  · rw [if_pos present, if_pos present, updateKey_map]
  · rw [if_neg present, if_neg present, List.map_append]
    rfl

variable (value child : StoredValue) (granted : Nat → Bool) (sound : CoherentBelow value)
  (childSound : CoherentBelow child)
include sound childSound

/-- One case for a key that is there and one for a new key, whose index entry is undone on a throw. -/
theorem set_makes (key : Bytes) (isObject : value.type = .object) :
    Makes (StoredValue.set key child) value granted .object
      (value.contents.set key child.contents) := by
  have indexed := sound.here.indexed
  have started : Ensures Throwing.read ({ value := value, granted := granted } : Building)
      (fun read after => read = { value := value, granted := granted } ∧ after = read)
      (fun after => after.value = value ∧ ∃ i < after.performed, granted i = false) :=
    Ensures.read ⟨rfl, rfl⟩
  unfold Makes StoredValue.set
  apply Ensures.bind started
  intro _ _ same
  obtain ⟨rfl, rfl⟩ := same
  cases known : value.objectIndex key with
  | some i =>
    have present : (lookupKey key value.object).isSome = true := by
      rw [← indexed.isSome key, known]
      rfl
    apply Ensures.update
    simp only [indexed.replace key i known child]
    exact ⟨isObject, replace_sound value child sound childSound key isObject,
      contents_set value child key isObject _ _ (by rw [if_pos present])⟩
  | none =>
    have absent : ¬ (lookupKey key value.object).isSome = true := by
      rw [← indexed.isSome key, known]
      exact Bool.false_ne_true
    apply Ensures.bind (allocation_ensures _)
    intro _ after same
    apply Ensures.bind (onValue_ensures (StoredValue.emplaceIndex key) after _)
    intro _ indexed' added
    apply Ensures.guarding
    apply Ensures.bind ((allocation_ensures indexed').imp (fun _ _ done => done) ?_)
    · intro _ last same'
      apply Ensures.update
      simp only [same'.1, added, same.1]
      exact ⟨isObject, append_sound value child sound childSound key isObject known,
        contents_set value child key isObject _ _ (by rw [if_neg absent]; rfl)⟩
    · intro last failed
      rw [added] at failed
      obtain ⟨kept, i, below, refused⟩ := failed
      refine ⟨?_, i, below, by rw [← same.2]; exact refused⟩
      simp only [kept, same.1]
      exact eraseIndex_emplaceIndex value key known

theorem push_makes (isArray : value.type = .array) :
    Makes (StoredValue.push child) value granted .array (value.contents.push child.contents) := by
  unfold Makes StoredValue.push
  apply Ensures.bind (allocation_ensures _)
  intro _ after same
  apply Ensures.update
  simp only [same.1]
  refine ⟨isArray, push_sound value child sound childSound isArray, ?_⟩
  rw [contents_array value isArray,
    contents_array { value with array := value.array ++ [child] } isArray, List.map_append]
  rfl

omit childSound in
/-- A call that throws keeps the value coherent as well. -/
theorem Makes.coherent {call : Throwing Building Unit} {type : NodeType}
    {plain : ConfigValue} (makes : Makes call value granted type plain) :
    CoherentBelow (call { value := value, granted := granted }).state.value :=
  Ensures.either (fun after => CoherentBelow after.value) makes (fun _ _ made => made.2.1)
    fun after failed => by
      rw [failed.1]
      exact sound

end ConfigManager.Refinement
