import Mathlib.Logic.Function.Basic
import ConfigManager.Library.Throwing
import ConfigManager.Source.ConfigValue

/-!
# The members of `ConfigValue` (config_value.hpp, config_value.cpp)

The class stores its type, its scalar, its members and its elements beside each other,
and an index from keys to positions that spares `set` and `contains` the search. `set`
keeps the index in step with the members also when an allocation fails.
-/

set_option autoImplicit false

namespace ConfigManager.Source
open Library

structure StoredValue where
  type : NodeType := .null
  scalar : Scalar := .monostate
  object : List (Bytes × StoredValue) := []
  objectIndex : Bytes → Option Nat := fun _ => none
  array : List StoredValue := []

/-- A value under a call that may allocate. -/
structure Building where
  value : StoredValue
  /-- Whether each operation that allocates finds the memory, by the order in which they run. -/
  granted : Nat → Bool
  performed : Nat := 0

namespace StoredValue

/-- `ConfigValue::object()`. -/
def emptyObject : StoredValue := { type := .object }

/-- `ConfigValue::array()`. -/
def emptyArray : StoredValue := { type := .array }

/-- What `of` makes of a scalar it accepts. -/
def of (scalar : Scalar) : StoredValue := { type := scalar.type, scalar := scalar }

def contains (value : StoredValue) (key : Bytes) : Bool := (value.objectIndex key).isSome

def onValue (f : StoredValue → StoredValue) : Throwing Building Unit :=
  Throwing.update fun building => { building with value := f building.value }

def request : Throwing Building Unit := fun building =>
  if building.granted building.performed then
    .returned () { building with performed := building.performed + 1 }
  else .thrown { building with performed := building.performed + 1 }

/-- `object_index_.emplace(key, object_.size())` for a new key. -/
def emplaceIndex (key : Bytes) (value : StoredValue) : StoredValue :=
  { value with objectIndex := Function.update value.objectIndex key (some value.object.length) }

/-- `object_index_.erase`. -/
def eraseIndex (key : Bytes) (value : StoredValue) : StoredValue :=
  { value with objectIndex := Function.update value.objectIndex key none }

/-- The source asserts that the value is an Object. -/
def set (key : Bytes) (child : StoredValue) : Throwing Building Unit := do
  let building ← Throwing.read
  match building.value.objectIndex key with
  | some i =>
      onValue fun value =>
        { value with object := value.object.modify i fun member => (member.1, child) }
  | none =>
      request
      onValue (emplaceIndex key)
      -- The `catch` around `emplace_back`.
      Throwing.guarding (fun building => { building with value := eraseIndex key building.value }) do
        request
        onValue fun value => { value with object := value.object ++ [(key, child)] }

/-- The source asserts that the value is an Array. -/
def push (child : StoredValue) : Throwing Building Unit := do
  request
  onValue fun value => { value with array := value.array ++ [child] }

/-- The values that the interface of the class can produce. A call that throws leaves its value to
the caller as well. -/
inductive Built : StoredValue → Prop where
  | null : Built {}
  | of (scalar : Scalar) (typed : scalar ≠ .monostate) : Built (of scalar)
  | object : Built emptyObject
  | array : Built emptyArray
  | set (value child : StoredValue) (key : Bytes) (granted : Nat → Bool)
      (isObject : value.type = .object) (before : Built value) (childBefore : Built child) :
      Built (set key child { value := value, granted := granted }).state.value
  | push (value child : StoredValue) (granted : Nat → Bool) (isArray : value.type = .array)
      (before : Built value) (childBefore : Built child) :
      Built (push child { value := value, granted := granted }).state.value

/-! ## What a value holds -/

mutual
/-- A reader looks at the type and then at the scalar, the members or the elements. -/
def contents : StoredValue → ConfigValue
  | ⟨type, scalar, object, _, array⟩ =>
      match type with
      | .object => Tree.object () (memberContents object)
      | .array => Tree.array () (elementContents array)
      | .null | .bool | .int | .double | .string => Tree.leaf () scalar
def memberContents : List (Bytes × StoredValue) → List (Bytes × ConfigValue)
  | [] => []
  | (key, value) :: object => (key, value.contents) :: memberContents object
def elementContents : List StoredValue → List ConfigValue
  | [] => []
  | value :: array => value.contents :: elementContents array
end

end StoredValue

end ConfigManager.Source
