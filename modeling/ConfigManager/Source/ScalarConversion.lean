import Mathlib.Data.Rat.Floor
import ConfigManager.Source.ConfigModel

/-!
# Integer and Bool reads, integer writes (config_node.hpp, config_value.hpp, config_model.hpp)

`fitsInt` and `convertScalar` for an integral target type and for `bool`, `ofPreconditionViolation`
and the scalar `set`. A value of an integral type is an integer in its range. A finite
double denotes a rational number; casting a double to an integer type is undefined,
here `none`, when the truncated value is outside that type's range.
-/

set_option autoImplicit false

namespace ConfigManager.Source
open Library

/-- A non-bool integral type. The widest one is `std::intmax_t`, with 64 bits. -/
structure IntegralType where
  isSigned : Bool
  width : Nat
  positive : 0 < width
  atMost : width ≤ 64

namespace IntegralType

/-- `std::numeric_limits<T>::min()`. -/
def min (T : IntegralType) : Int := if T.isSigned then -2 ^ (T.width - 1) else 0

/-- `std::numeric_limits<T>::max()`. -/
def max (T : IntegralType) : Int :=
  if T.isSigned then 2 ^ (T.width - 1) - 1 else 2 ^ T.width - 1

/-- `static_cast<T>` of an integer: modulo `2 ^ width`. -/
def cast (T : IntegralType) (x : Int) : Int :=
  if T.isSigned then Int.bmod x (2 ^ T.width) else x % 2 ^ T.width

theorem sixtyFour : 0 < 64 := by decide

def int64 : IntegralType := ⟨true, 64, sixtyFour, Nat.le_refl 64⟩

def uint64 : IntegralType := ⟨false, 64, sixtyFour, Nat.le_refl 64⟩

end IntegralType

/-! ## Doubles as numbers -/

namespace Double

def negative (d : Double) : Bool := decide (2 ^ 63 ≤ d.bits.toNat)

def fraction (d : Double) : Nat := d.bits.toNat % 2 ^ 52

def isNaN (d : Double) : Bool := !d.isFinite && d.fraction != 0

/-- The least positive double is one over this, times two. -/
def scale : Nat := 2 ^ 1075

/-- The magnitude of a finite double, in units of one over `scale`. -/
def units (d : Double) : Nat :=
  if d.exponentBits = 0 then d.fraction * 2
  else (2 ^ 52 + d.fraction) * 2 ^ d.exponentBits.toNat

/-- The number a finite double denotes. -/
def value (d : Double) : Rat :=
  if d.negative then -(d.units / scale : Rat) else d.units / scale

/-- `d >= bound`, for a bound that is a double. -/
def atLeast (d : Double) (bound : Rat) : Bool :=
  if d.isFinite then decide (bound ≤ d.value) else !d.isNaN && !d.negative

/-- `d < bound`, for a bound that is a double. -/
def below (d : Double) (bound : Rat) : Bool :=
  if d.isFinite then decide (d.value < bound) else !d.isNaN && d.negative

/-- `d == other`. -/
def equals (d other : Double) : Bool :=
  if d.isFinite && other.isFinite then decide (d.value = other.value)
  else d == other && !d.isNaN

def pack (isNegative : Bool) (exponent fraction : Nat) : Double :=
  ⟨UInt64.ofNat ((if isNegative then 2 ^ 63 else 0) + exponent * 2 ^ 52 + fraction)⟩

/-- `static_cast<double>` of an integer: to the nearest double, ties to the even one. A
fraction rounded up to `2 ^ 52` carries into the exponent. -/
def ofInt (n : Int) : Double :=
  let magnitude := n.natAbs
  if magnitude = 0 then pack false 0 0
  else
    let exponent := Nat.log2 magnitude
    if exponent ≤ 52 then
      pack (decide (n < 0)) (1023 + exponent) (magnitude * 2 ^ (52 - exponent) - 2 ^ 52)
    else
      let kept := magnitude / 2 ^ (exponent - 52)
      let rest := magnitude % 2 ^ (exponent - 52)
      let half := 2 ^ (exponent - 53)
      let rounded := if half < rest ∨ (rest = half ∧ kept % 2 = 1) then kept + 1 else kept
      pack (decide (n < 0)) (1023 + exponent) (rounded - 2 ^ 52)

example : (ofInt (2 ^ 53 + 1)).value = 2 ^ 53 := by decide +kernel

/-- Towards zero. -/
def truncate (x : Rat) : Int := if 0 ≤ x then ⌊x⌋ else ⌈x⌉

/-- `static_cast<T>` of a double. -/
def castTo (T : IntegralType) (d : Double) : Option Int :=
  if d.isFinite && decide (T.min ≤ truncate d.value) && decide (truncate d.value ≤ T.max) then
    some (truncate d.value)
  else none

end Double

/-! ## Reading -/

def fitsInt (T : IntegralType) (value : Int) : Bool :=
  if T.isSigned then
    decide (IntegralType.int64.cast T.min ≤ value) && decide (value ≤ IntegralType.int64.cast T.max)
  else
    decide (0 ≤ value) && decide (IntegralType.uint64.cast value ≤ T.max)

def notExactError : Result Int :=
  fail .invalidType
    (bytes "Double value is not an exactly representable integer in the requested type")

/-- The conversion of a double through the wide type `W`, whose range is `[lo, hi)`, with
the check against the range of the target; `none` when an undefined cast is executed. -/
def convertDouble (T W : IntegralType) (lo hi : Rat) (inTarget : Int → Bool) (value : Double) :
    Option (Result Int) :=
  if value.atLeast lo && value.below hi then
    match value.castTo W with
    | none => none
    | some integral =>
        if (Double.ofInt integral).equals value && inTarget integral then
          some (.ok (T.cast integral))
        else some notExactError
  else some notExactError

/-- `convertScalar<T>`. Unsigned targets admit exact doubles up to 2^64. -/
def convertScalar (T : IntegralType) : Scalar → Option (Result Int)
  | .int value =>
      if fitsInt T value.toInt then some (.ok (T.cast value.toInt))
      else
        some (fail .invalidType (bytes "Int value is not representable in the requested type"))
  | .double value =>
      if T.isSigned then convertDouble T .int64 (-2 ^ 63) (2 ^ 63) (fitsInt T) value
      else
        convertDouble T .uint64 0 (2 ^ 64)
          (fun integral => decide (integral ≤ IntegralType.uint64.cast T.max)) value
  | _ => some (fail .invalidType (bytes "scalar does not hold a number"))

/-- `ConfigNode::as<T>`. -/
def ConfigNode.asInt (T : IntegralType) (arena : NodeArena) (h : ConfigNode) :
    Option (Result Int) :=
  match h.scalarValue arena with
  | .error e => some (.error e)
  | .ok scalar => convertScalar T scalar

/-- `convertScalar<bool>`. -/
def convertBool : Scalar → Result Bool
  | .bool value => .ok value
  | _ => fail .invalidType (bytes "scalar does not hold a Bool")

/-- `ConfigNode::as<bool>`. -/
def ConfigNode.asBool (arena : NodeArena) (h : ConfigNode) : Result Bool :=
  match h.scalarValue arena with
  | .error e => .error e
  | .ok scalar => convertBool scalar

/-! ## Writing -/

/-- `ConfigValue::ofPreconditionViolation` on a value of the type `S`. -/
def ofPreconditionViolation (S : IntegralType) (scalar : Int) : Option Bytes :=
  if !S.isSigned ∧ IntegralType.uint64.cast scalar >
      IntegralType.uint64.cast IntegralType.int64.max then
    some (bytes "unsigned integer value is not representable as Int (std::int64_t)")
  else none

/-- `ConfigValue::of` on a value of an integral type, once the precondition holds. -/
def ofIntegral (scalar : Int) : ConfigValue :=
  ConfigValue.of (.int (Int64.ofInt (IntegralType.int64.cast scalar)))

namespace ConfigModel

/-- `get<T>`. -/
def getInt (T : IntegralType) (m : ConfigModel) (path : Bytes) : Option (Result Int) :=
  match m.nodeAt path with
  | .error e => some (.error e)
  | .ok node => node.asInt T m.arena

/-- `get<bool>`. -/
def getBool (m : ConfigModel) (path : Bytes) : Result Bool :=
  match m.nodeAt path with
  | .error e => .error e
  | .ok node => node.asBool m.arena

/-- `set<S>`. -/
def setInt (S : IntegralType) (m : ConfigModel) (path : Bytes) (value : Int) :
    Result Unit × ConfigModel :=
  match ofPreconditionViolation S value with
  | some violation => (fail .invalidType violation, m)
  | none => m.set path (ofIntegral value)

end ConfigModel

end ConfigManager.Source
