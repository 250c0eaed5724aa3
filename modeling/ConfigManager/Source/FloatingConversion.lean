import ConfigManager.Library.FloatFormat
import ConfigManager.Source.ScalarConversion

/-!
# Floating-point reads and writes (config_node.hpp, config_value.hpp)

The floating-point branch of `convertScalar` and `of`, for any format as the
target. `none` is an undefined cast: of a finite number out of the range of the
target. `long double` only widens what is compared in it, so that the comparison
is one of numbers; a NaN keeps no payload.
-/

set_option autoImplicit false

namespace ConfigManager.Source
open Library

/-- `double`. -/
def binary64 : FloatFormat := ⟨53, -1074, 1024, by decide, by decide⟩

/-- `float`. -/
def binary32 : FloatFormat := ⟨24, -149, 128, by decide, by decide⟩

namespace Double

def magnitude (d : Double) : Rat := d.units / scale

theorem units_shift (d : Double) : ∃ significand shift, d.units = significand * 2 ^ shift ∧
    significand < 2 ^ 53 ∧ 0 < shift ∧ (d.isFinite = true → shift < 0x7FF) := by
  have small : d.fraction < 2 ^ 52 := Nat.mod_lt _ (by decide)
  unfold units
  split
  next => exact ⟨d.fraction, 1, by rw [pow_one], by omega, by decide, fun _ => by decide⟩
  next normal =>
    refine ⟨2 ^ 52 + d.fraction, d.exponentBits.toNat, rfl, by omega, ?_, fun finite => ?_⟩
    · exact Nat.pos_of_ne_zero fun zero => normal (UInt64.toNat_inj.mp zero)
    · have bits : d.exponentBits.toNat ≤ 0x7FF := by
        have mask : (0x7FF : UInt64).toNat = 2 ^ 11 - 1 := rfl
        rw [exponentBits, UInt64.toNat_and, mask, Nat.and_two_pow_sub_one_eq_mod]
        omega
      have other : d.exponentBits.toNat ≠ 0x7FF := fun same => by
        rw [isFinite, bne_iff_ne] at finite
        exact finite (UInt64.toNat_inj.mp same)
      omega

theorem magnitude_holds (d : Double) (finite : d.isFinite = true) : binary64.Holds d.magnitude := by
  obtain ⟨s, shift, units, small, positive, bounded⟩ := d.units_shift
  have bounded := bounded finite
  have unit : (scale : Rat) = 2 ^ (1075 : Int) := by
    rw [scale, Nat.cast_pow, Nat.cast_ofNat, ← zpow_natCast]
    rfl
  have value : d.magnitude = s * 2 ^ ((shift : Int) - 1075) := by
    rw [magnitude, units, unit, zpow_sub₀ (by norm_num), zpow_natCast, Nat.cast_mul, Nat.cast_pow,
      Nat.cast_ofNat, mul_div_assoc]
  refine ⟨?_, s, (shift : Int) - 1075, small, ?_, value⟩
  · have significand : (s : Rat) < 2 ^ (53 : Int) := by exact_mod_cast small
    have power := FloatFormat.power_pos ((shift : Int) - 1075)
    calc d.magnitude = s * 2 ^ ((shift : Int) - 1075) := value
      _ < 2 ^ (53 : Int) * 2 ^ ((shift : Int) - 1075) := mul_lt_mul_of_pos_right significand power
      _ = 2 ^ (53 + ((shift : Int) - 1075)) := (zpow_add₀ (by norm_num) _ _).symm
      _ ≤ 2 ^ binary64.top := zpow_le_zpow_right₀ (by norm_num) (by change _ ≤ (1024 : Int); omega)
  · change (-1074 : Int) ≤ _
    omega

/-- What the bit pattern stands for. -/
def number (d : Double) : FloatNumber binary64 :=
  if finite : d.isFinite = true then .finite d.negative d.magnitude (d.magnitude_holds finite)
  else if d.isNaN then .nan
  else .infinite d.negative

/-- The bit pattern of a number; of the NaNs, the quiet one. -/
def ofNumber : FloatNumber binary64 → Double
  | .nan => ⟨0x7FF8000000000000⟩
  | .infinite negative => pack negative 0x7FF 0
  | .finite negative magnitude _ =>
      let units := ⌊magnitude * 2 ^ 1074⌋₊
      if units < 2 ^ 52 then pack negative 0 units
      else pack negative (Nat.log2 units - 51) (units / 2 ^ (Nat.log2 units - 52) - 2 ^ 52)

example : ofNumber (number ⟨0x3FE0000000000001⟩) = ⟨0x3FE0000000000001⟩ := by decide +kernel

end Double

/-- `static_cast<T>` of a floating-point number, for an integral type. -/
def castIntegral {F : FloatFormat} (T : IntegralType) : FloatNumber F → Option Int
  | .finite negative magnitude _ =>
      let whole := Double.truncate (signed negative magnitude)
      if T.min ≤ whole ∧ whole ≤ T.max then some whole else none
  | _ => none

/-- The floating-point branch of `convertScalar<T>`, where `F` is the format of `T`. -/
def convertFloating (F : FloatFormat) : Scalar → Option (Result (FloatNumber F))
  | .double value =>
      if same : binary64 = F then some (.ok (same ▸ value.number))
      else if value.isNaN then (value.number.cast F).map .ok
      else if value.isFinite && (decide (value.value < -F.largest) || decide (F.largest < value.value))
      then some (fail .invalidType (bytes "Double value is outside the requested type's range"))
      else
        match value.number.cast F with
        | none => none
        | some narrowed =>
            match narrowed.cast binary64 with
            | none => none
            | some widened =>
                if widened.equals value.number then some (.ok narrowed)
                else some (fail .invalidType
                  (bytes "Double value is not exactly representable in the requested type"))
  | .int value =>
      match FloatNumber.round F (decide (value.toInt < 0)) value.toInt.natAbs with
      | none => none
      | some converted =>
          if converted.atLeast (-2 ^ 63) && converted.below (2 ^ 63) then
            match castIntegral .int64 converted with
            | none => none
            | some integral =>
                if integral = value.toInt then some (.ok converted)
                else some (fail .invalidType
                  (bytes "Int value is not exactly representable in the requested type"))
          else some (fail .invalidType
            (bytes "Int value is not exactly representable in the requested type"))
  | _ => some (fail .invalidType (bytes "scalar does not hold a number"))

/-- `ConfigNode::as<T>`. -/
def ConfigNode.asFloating (F : FloatFormat) (arena : NodeArena) (h : ConfigNode) :
    Option (Result (FloatNumber F)) :=
  match h.scalarValue arena with
  | .error e => some (.error e)
  | .ok scalar => convertFloating F scalar

/-- `ConfigValue::of` on a `float` or a `double`. -/
def ofFloating {F : FloatFormat} (scalar : FloatNumber F) : Option ConfigValue :=
  (scalar.cast binary64).map fun value => ConfigValue.of (.double (Double.ofNumber value))

namespace ConfigModel

/-- `get<T>`. -/
def getFloating (F : FloatFormat) (m : ConfigModel) (path : Bytes) :
    Option (Result (FloatNumber F)) :=
  match m.nodeAt path with
  | .error e => some (.error e)
  | .ok node => node.asFloating F m.arena

/-- `set<S>`, whose precondition every floating-point value meets. -/
def setFloating {F : FloatFormat} (m : ConfigModel) (path : Bytes) (value : FloatNumber F) :
    Option (Result Unit × ConfigModel) :=
  (ofFloating value).map (m.set path)

end ConfigModel

end ConfigManager.Source
