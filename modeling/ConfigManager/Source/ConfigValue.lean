import ConfigManager.Library.TreeEdits
import ConfigManager.Source.Result

/-!
# Configuration values (config_value.hpp, config_value.cpp)

A `ConfigValue` holds a scalar, an insertion-ordered list of members or a list
of elements, and its type follows from which one it holds: it is an ordered
tree whose leaves are `Scalar`s. The builder functions keep the keys of an
object distinct, which `BuiltValue` carries along.
-/

set_option autoImplicit false

namespace ConfigManager.Source
open Library

inductive NodeType where
  | null
  | bool
  | int
  | double
  | string
  | object
  | array
  deriving DecidableEq, Repr

/-- An IEEE 754 binary64, by its bit pattern: sign, 11 exponent bits, 52 fraction bits. -/
structure Double where
  bits : UInt64
  deriving DecidableEq, Repr

def Double.exponentBits (d : Double) : UInt64 := (d.bits >>> 52) &&& 0x7FF

/-- `std::isfinite`: neither an infinity nor a NaN. -/
def Double.isFinite (d : Double) : Bool := d.exponentBits != 0x7FF

/-- The alternatives of `std::variant<std::monostate, bool, int64_t, double, std::string>`. -/
inductive Scalar where
  | monostate
  | bool (value : Bool)
  | int (value : Int64)
  | double (value : Double)
  | string (value : Bytes)
  deriving DecidableEq

def Scalar.type : Scalar → NodeType
  | .monostate => .null
  | .bool _ => .bool
  | .int _ => .int
  | .double _ => .double
  | .string _ => .string

abbrev ConfigValue := Tree Unit Bytes Scalar

namespace ConfigValue

def object : ConfigValue := Tree.object () []

def array : ConfigValue := Tree.array () []

def of (scalar : Scalar) : ConfigValue := Tree.leaf () scalar

def type : ConfigValue → NodeType
  | Tree.leaf _ scalar => scalar.type
  | Tree.object _ _ => .object
  | Tree.array _ _ => .array

theorem object_of_type (value : ConfigValue) (isObject : value.type = .object) :
    ∃ ms, value = Tree.object () ms := by
  cases value with
  | leaf l s => cases s <;> simp [type, Scalar.type] at isObject
  | array l es => simp [type] at isObject
  | object l ms => exact ⟨ms, rfl⟩

def contains (value : ConfigValue) (key : Bytes) : Bool :=
  match value with
  | Tree.object _ ms => (lookupKey key ms).isSome
  | _ => false

/-- Object builder: an existing key keeps its position, a new one is appended.
The source asserts that the value is an Object. -/
def set (value : ConfigValue) (key : Bytes) (child : ConfigValue) : ConfigValue :=
  match value with
  | Tree.object _ ms =>
      if (lookupKey key ms).isSome then Tree.object () (updateKey key child ms)
      else Tree.object () (ms ++ [(key, child)])
  | other => other

/-- Array builder. The source asserts that the value is an Array. -/
def push (value : ConfigValue) (child : ConfigValue) : ConfigValue :=
  match value with
  | Tree.array _ es => Tree.array () (es ++ [child])
  | other => other

/-- Keys of every object are pairwise distinct. -/
def KeysDistinct (value : ConfigValue) : Prop := Tree.Every (fun s => s.keys.Nodup) value

instance (value : ConfigValue) : Decidable value.KeysDistinct := by
  unfold KeysDistinct
  infer_instance

theorem keysDistinct_object (ms : List (Bytes × ConfigValue)) :
    KeysDistinct (Tree.object () ms) ↔
      (ms.map Prod.fst).Nodup ∧ ∀ m ∈ ms, KeysDistinct m.2 := by
  unfold KeysDistinct
  rw [Tree.every_iff]
  simp only [Tree.keys, Tree.children, List.forall_mem_map]

theorem keysDistinct_array (es : List ConfigValue) :
    KeysDistinct (Tree.array () es) ↔ ∀ e ∈ es, KeysDistinct e := by
  unfold KeysDistinct
  rw [Tree.every_iff]
  simp [Tree.keys, Tree.children]

theorem keysDistinct_of (scalar : Scalar) : KeysDistinct (of scalar) :=
  .node _ (by simp [of, Tree.keys]) (by simp [of, Tree.children])

/-- The object builder keeps keys distinct. -/
theorem set_keysDistinct (value child : ConfigValue) (key : Bytes) (built : value.KeysDistinct)
    (built' : child.KeysDistinct) : (value.set key child).KeysDistinct := by
  cases value with
  | leaf l a => exact built
  | array l es => exact built
  | object l ms =>
    rw [keysDistinct_object] at built
    simp only [set]
    split
    · refine (keysDistinct_object _).mpr ⟨by rw [updateKey_keys]; exact built.1, ?_⟩
      intro m inside
      rename_i present
      obtain ⟨old, found⟩ := Option.isSome_iff_exists.mp present
      obtain ⟨j, _, _, updated⟩ := lookup_position key ms old found
      rw [updated] at inside
      rcases List.mem_or_eq_of_mem_set inside with earlier | rfl
      · exact built.2 m earlier
      · exact built'
    · rename_i absent
      rw [Option.not_isSome_iff_eq_none, lookup_none_iff] at absent
      refine (keysDistinct_object _).mpr ⟨?_, ?_⟩
      · rw [List.map_append, List.nodup_append]
        refine ⟨built.1, by simp, ?_⟩
        rintro k inside _ last rfl
        simp only [List.map_cons, List.map_nil, List.mem_singleton] at last
        exact absent (last ▸ inside)
      · intro m inside
        rcases List.mem_append.mp inside with earlier | last
        · exact built.2 m earlier
        · rw [List.mem_singleton.mp last]
          exact built'

/-- The array builder keeps keys distinct. -/
theorem push_keysDistinct (value child : ConfigValue) (built : value.KeysDistinct)
    (built' : child.KeysDistinct) : (value.push child).KeysDistinct := by
  cases value with
  | leaf l a => exact built
  | object l ms => exact built
  | array l es =>
    rw [keysDistinct_array] at built
    refine (keysDistinct_array _).mpr fun e inside => ?_
    rcases List.mem_append.mp inside with earlier | last
    · exact built e earlier
    · rw [List.mem_singleton.mp last]
      exact built'

/-- Setting a key the object does not hold yet appends it. -/
theorem set_of_absent (ms : List (Bytes × ConfigValue)) (key : Bytes) (child : ConfigValue)
    (absent : key ∉ ms.map Prod.fst) :
    set (Tree.object () ms) key child = Tree.object () (ms ++ [(key, child)]) := by
  simp only [set, (lookup_none_iff key ms).mpr absent, Option.isSome_none, Bool.false_eq_true,
    if_false]

end ConfigValue

/-- A value as the builder functions leave it. -/
abbrev BuiltValue := { value : ConfigValue // value.KeysDistinct }

end ConfigManager.Source
