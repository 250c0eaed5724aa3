import ConfigManager.Refinement.IntegerConversions
import ConfigManager.Source.FloatingConversion

/-!
# Floating-point reads are exact

Every number of `double` has a bit pattern. A finite double in the range of the
target is rounded there to a number that `double` has, and equals it only when
the target has the double's number. An integer in the range of `std::int64_t` is
rounded to a whole number, so that the cast back loses nothing either.
-/

set_option autoImplicit false

namespace ConfigManager.Refinement
open Library Source

/-! ## Bit patterns -/

theorem value_signed (d : Double) : d.value = signed d.negative d.magnitude := rfl

theorem number_finite (d : Double) (finite : d.isFinite = true) :
    d.number = .finite d.negative d.magnitude (d.magnitude_holds finite) := dif_pos finite

theorem number_nan (d : Double) (nan : d.isNaN = true) : d.number = .nan := by
  have infinite : d.isFinite ≠ true := by
    intro finite
    simp [Double.isNaN, finite] at nan
  rw [Double.number, dif_neg infinite, if_pos nan]

theorem number_infinite (d : Double) (infinite : d.isFinite = false) (number : d.isNaN ≠ true) :
    d.number = .infinite d.negative := by
  rw [Double.number, dif_neg (by simp [infinite]), if_neg number]

/-- A packed subnormal double. -/
theorem pack_subnormal (isNegative : Bool) (fraction : Nat) (small : fraction < 2 ^ 52) :
    (Double.pack isNegative 0 fraction).isFinite = true ∧
      (Double.pack isNegative 0 fraction).units = fraction * 2 ∧
      (Double.pack isNegative 0 fraction).negative = isNegative := by
  have bits : (Double.pack isNegative 0 fraction).bits.toNat =
      (if isNegative then 2 ^ 63 else 0) + fraction := by
    rw [Double.pack, UInt64.toNat_ofNat', Nat.zero_mul, Nat.add_zero]
    apply Nat.mod_eq_of_lt
    split <;> omega
  have field : (Double.pack isNegative 0 fraction).exponentBits.toNat = 0 := by
    rw [exponentBits_toNat, bits]
    split <;> omega
  have zero : (Double.pack isNegative 0 fraction).exponentBits = 0 := UInt64.toNat_inj.mp field
  have part : (Double.pack isNegative 0 fraction).fraction = fraction := by
    rw [Double.fraction, bits]
    split <;> omega
  refine ⟨?_, ?_, ?_⟩
  · rw [isFinite_iff, field]
    decide
  · rw [Double.units, if_pos zero, part]
  · rw [Double.negative, bits]
    cases isNegative <;> simp
    omega

/-- A finite number is a whole number of the least ones, and fills the significand it needs. -/
theorem least_units (x : Rat) (holds : binary64.Holds x) : ∃ n : Nat, x * 2 ^ 1074 = n ∧
    n < 2 ^ 2098 ∧ (n < 2 ^ 52 ∨ 2 ^ (Nat.log2 n - 52) ∣ n) := by
  obtain ⟨bounded, s, e, small, low, rfl⟩ := holds
  change s < 2 ^ 53 at small
  change (-1074 : Int) ≤ e at low
  change (s : Rat) * 2 ^ e < 2 ^ (1024 : Int) at bounded
  obtain ⟨k, exponent⟩ := Int.eq_ofNat_of_zero_le (show 0 ≤ e + 1074 by omega)
  have units : (s : Rat) * 2 ^ e * 2 ^ 1074 = (s * 2 ^ k : Nat) := by
    have powers : (2 : Rat) ^ e * 2 ^ 1074 = 2 ^ k := by
      rw [← zpow_natCast 2 1074, ← zpow_add₀ (by norm_num), ← zpow_natCast 2 k]
      exact congrArg _ exponent
    rw [mul_assoc, powers, Nat.cast_mul, Nat.cast_pow, Nat.cast_ofNat]
  refine ⟨s * 2 ^ k, units, ?_, ?_⟩
  · have scaled : (s : Rat) * 2 ^ e * 2 ^ 1074 < 2 ^ (1024 : Int) * 2 ^ 1074 :=
      mul_lt_mul_of_pos_right bounded (pow_pos (by norm_num) _)
    rw [units, ← zpow_natCast 2 1074, ← zpow_add₀ (by norm_num)] at scaled
    have total : (2 : Rat) ^ ((1024 : Int) + (1074 : Nat)) = (2 ^ 2098 : Nat) := by
      rw [Nat.cast_pow, Nat.cast_ofNat, ← zpow_natCast]
      rfl
    rw [total] at scaled
    exact_mod_cast scaled
  · by_cases zero : s * 2 ^ k = 0
    · exact .inl (by omega)
    have least := Nat.log2_self_le zero
    have most : Nat.log2 (s * 2 ^ k) < 53 + k := by
      rw [Nat.log2_lt zero, Nat.pow_add]
      exact Nat.mul_lt_mul_of_pos_right small (Nat.two_pow_pos k)
    exact .inr (Nat.dvd_mul_left_of_dvd (Nat.pow_dvd_pow 2 (by omega)) s)

/-- Every number of `double` has a bit pattern. -/
theorem number_ofNumber (x : FloatNumber binary64) : (Double.ofNumber x).number = x := by
  cases x with
  | nan => rfl
  | infinite negative => cases negative <;> rfl
  | finite negative x holds =>
    obtain ⟨n, units, bounded, shape⟩ := least_units x holds
    -- It is enough that the pattern has twice as many units.
    have enough : ∀ d : Double, d.isFinite = true ∧ d.units = n * 2 ∧ d.negative = negative →
        d.number = .finite negative x holds := by
      intro d packed
      obtain ⟨finite, twice, sign⟩ := packed
      have scale : (Double.scale : Rat) = 2 ^ 1074 * 2 := by
        rw [Double.scale, Nat.cast_pow, Nat.cast_ofNat, ← pow_succ]
      have same : d.magnitude = x := by
        rw [Double.magnitude, twice, scale, Nat.cast_mul, ← units, Nat.cast_ofNat,
          mul_assoc, mul_div_assoc, div_self (by positivity), mul_one]
      rw [number_finite d finite]
      simp only [sign, same]
    rw [Double.ofNumber, units, Nat.floor_natCast]
    by_cases small : n < 2 ^ 52
    · rw [if_pos small]
      exact enough _ (pack_subnormal negative n small)
    · rw [if_neg small]
      have nonzero : n ≠ 0 := by omega
      have low := Nat.log2_self_le nonzero
      have high := Nat.lt_log2_self (n := n)
      have few : Nat.log2 n < 2098 := by simpa only [Nat.log2_lt nonzero] using bounded
      have many : 52 ≤ Nat.log2 n := (Nat.le_log2 nonzero).mpr (by omega)
      have divides := shape.resolve_left small
      generalize Nat.log2 n = k at *
      obtain ⟨q, rfl⟩ := divides
      have positive := Nat.two_pow_pos (k - 52)
      have split : 2 ^ k = 2 ^ (k - 52) * 2 ^ 52 := by
        rw [← Nat.pow_add, Nat.sub_add_cancel many]
      have split' : 2 ^ (k + 1) = 2 ^ (k - 52) * 2 ^ 53 := by
        rw [← Nat.pow_add]
        congr 1
        omega
      rw [split] at low
      rw [split'] at high
      have least := Nat.le_of_mul_le_mul_left low positive
      have most := Nat.lt_of_mul_lt_mul_left high
      rw [Nat.mul_div_cancel_left q positive]
      obtain ⟨finite, packed, sign⟩ :=
        pack_normal negative (k - 51) (q - 2 ^ 52) (by omega) (by omega) (by omega)
      refine enough _ ⟨finite, ?_, sign⟩
      rw [packed, Nat.add_sub_cancel' least, show k - 51 = k - 52 + 1 by omega, Nat.pow_succ]
      ring

/-! ## Reading a double -/

/-- The types that C++ has nest: each is within `double` or `double` is within it. -/
def Nests (F : FloatFormat) : Prop := F.Within binary64 ∨ binary64.Within F

/-- The number that a double is rounded to is one that `double` has. -/
theorem narrowed_holds (F : FloatFormat) (nests : Nests F) (x : Rat) (holds : binary64.Holds x)
    (bounded : x ≤ F.largest) : binary64.Holds (F.nearest x) := by
  rcases nests with within | within
  · exact within.holds _ (FloatFormat.nearest_holds x holds.nonneg bounded)
  · rw [FloatFormat.nearest_of_holds (within.holds x holds)]
    exact holds

theorem outside_iff (negative : Bool) (x bound : Rat) (nonneg : 0 ≤ x) (bounds : 0 ≤ bound) :
    signed negative x < -bound ∨ bound < signed negative x ↔ bound < x := by
  cases negative
  · change x < -bound ∨ bound < x ↔ bound < x
    exact or_iff_right (by linarith)
  · change -x < -bound ∨ bound < -x ↔ bound < x
    rw [neg_lt_neg_iff]
    exact or_iff_left (by linarith)

theorem signed_inj (negative : Bool) (x y : Rat) : signed negative x = signed negative y ↔ x = y := by
  cases negative
  · exact Iff.rfl
  · exact neg_inj

/-- A double is read exactly as the number that it is, and no cast is undefined. -/
theorem convertFloating_double (F : FloatFormat) (nests : Nests F) (d : Double) :
    (∃ answer, convertFloating F (.double d) = some answer) ∧
      ∀ v, convertFloating F (.double d) = some (.ok v) ↔ v.Same d.number := by
  by_cases same : binary64 = F
  · subst same
    refine ⟨⟨_, by rw [convertFloating, dif_pos rfl]⟩, fun v => ?_⟩
    rw [convertFloating, dif_pos rfl, Option.some.injEq, Except.ok.injEq, FloatNumber.same_iff_eq]
    exact eq_comm
  by_cases nan : d.isNaN = true
  · refine ⟨⟨.ok .nan, by rw [convertFloating, dif_neg same, if_pos nan, number_nan d nan]; rfl⟩,
      fun v => ?_⟩
    rw [convertFloating, dif_neg same, if_pos nan, number_nan d nan]
    simp only [FloatNumber.cast, Option.map_some, Option.some.injEq, Except.ok.injEq]
    cases v <;> simp [FloatNumber.Same]
  cases finite : d.isFinite with
  | false =>
    have answers : convertFloating F (.double d) = some (.ok (.infinite d.negative)) := by
      rw [convertFloating, dif_neg same, if_neg nan, number_infinite d finite nan]
      simp [finite, FloatNumber.cast, FloatNumber.equals]
    refine ⟨⟨_, answers⟩, fun v => ?_⟩
    rw [answers, number_infinite d finite nan, Option.some.injEq, Except.ok.injEq]
    cases v <;> simp [FloatNumber.Same, eq_comm]
  | true =>
    have holds := d.magnitude_holds finite
    have outside : (d.isFinite && (decide (d.value < -F.largest) || decide (F.largest < d.value))) =
        decide (F.largest < d.magnitude) := by
      rw [finite, Bool.true_and, value_signed, ← Bool.decide_or]
      exact decide_eq_decide.mpr (outside_iff _ _ _ holds.nonneg F.largest_nonneg)
    have tested : convertFloating F (.double d) =
        if F.largest < d.magnitude then
          some (fail .invalidType (bytes "Double value is outside the requested type's range"))
        else if F.nearest d.magnitude = d.magnitude then
          (FloatNumber.round F d.negative d.magnitude).map .ok
        else some (fail .invalidType
          (bytes "Double value is not exactly representable in the requested type")) := by
      rw [convertFloating, dif_neg same, if_neg nan, outside, number_finite d finite]
      simp only [decide_eq_true_eq]
      by_cases large : F.largest < d.magnitude
      · rw [if_pos large, if_pos large]
      · rw [if_neg large, if_neg large]
        have within : 0 ≤ d.magnitude ∧ d.magnitude ≤ F.largest := ⟨holds.nonneg, not_lt.mp large⟩
        simp only [FloatNumber.cast, FloatNumber.round, dif_pos within]
        rw [← FloatNumber.round,
          FloatNumber.round_holds _ _ (narrowed_holds F nests _ holds within.2)]
        simp only [FloatNumber.equals, signed_inj, decide_eq_true_eq, Option.map_some]
    constructor
    · rw [tested]
      by_cases large : F.largest < d.magnitude
      · exact ⟨_, if_pos large⟩
      · rw [if_neg large, FloatNumber.round, dif_pos ⟨holds.nonneg, not_lt.mp large⟩]
        split <;> exact ⟨_, rfl⟩
    · intro v
      rw [tested, number_finite d finite]
      constructor
      · intro read
        by_cases large : F.largest < d.magnitude
        · rw [if_pos large] at read
          cases read
        · rw [if_neg large] at read
          by_cases exact_ : F.nearest d.magnitude = d.magnitude
          · rw [if_pos exact_, FloatNumber.round, dif_pos ⟨holds.nonneg, not_lt.mp large⟩] at read
            cases read
            exact ⟨rfl, exact_⟩
          · rw [if_neg exact_] at read
            cases read
      · intro alike
        cases v with
        | nan => exact alike.elim
        | infinite negative => exact alike.elim
        | finite negative magnitude inside =>
          obtain ⟨rfl, rfl⟩ := alike
          rw [if_neg (not_lt.mpr inside.le_largest), if_pos (FloatFormat.nearest_of_holds inside),
            FloatNumber.round_holds _ _ inside]
          rfl

/-! ## Reading an integer -/

theorem signed_natAbs (n : Int) : signed (decide (n < 0)) (n.natAbs : Rat) = n := by
  by_cases below : n < 0
  · rw [decide_eq_true below]
    change -((n.natAbs : Nat) : Rat) = n
    have same : ((n.natAbs : Nat) : Int) = -n := by omega
    rw [← Int.cast_natCast, same, Int.cast_neg, neg_neg]
  · rw [decide_eq_false below]
    change ((n.natAbs : Nat) : Rat) = n
    have same : ((n.natAbs : Nat) : Int) = n := by omega
    rw [← Int.cast_natCast, same]

/-- An integer is read exactly as the number that it is, and no cast is undefined. -/
theorem convertFloating_int (F : FloatFormat) (wide : 64 ≤ F.top) (n : Int64) :
    (∃ answer, convertFloating F (.int n) = some answer) ∧
      ∀ v, convertFloating F (.int n) = some (.ok v) ↔
        ∃ holds, v = .finite (decide (n.toInt < 0)) n.toInt.natAbs holds := by
  have low := n.le_toInt
  have high := n.toInt_lt
  generalize same : n.toInt = i at low high
  have bounded : (i.natAbs : Rat) ≤ F.largest := by
    have few : i.natAbs ≤ 2 ^ 63 := by omega
    have reach := F.power_le_largest 63 (by omega)
    refine le_trans ?_ reach
    exact_mod_cast few
  have nonneg : (0 : Rat) ≤ i.natAbs := Nat.cast_nonneg _
  -- The number is rounded to a whole one, which the cast back keeps where it is in range.
  obtain ⟨n', whole⟩ := F.nearest_natCast i.natAbs
  obtain ⟨j, signedWhole⟩ : ∃ j : Int, signed (decide (i < 0)) (F.nearest i.natAbs) = j := by
    rw [whole]
    cases decide (i < 0)
    · exact ⟨n', by simp [signed]⟩
    · exact ⟨-n', by simp [signed]⟩
  have tested : convertFloating F (.int n) =
      if j = i then (FloatNumber.round F (decide (i < 0)) i.natAbs).map .ok
      else some (fail .invalidType
        (bytes "Int value is not exactly representable in the requested type")) := by
    rw [convertFloating, same]
    simp only [FloatNumber.round, dif_pos (And.intro nonneg bounded), FloatNumber.atLeast,
      FloatNumber.below, castIntegral, signedWhole, truncate_int, Bool.and_eq_true, decide_eq_true_eq,
      Option.map_some]
    by_cases range : (-2 ^ 63 : Rat) ≤ j ∧ (j : Rat) < 2 ^ 63
    · rw [if_pos range]
      have below : j < 2 ^ 63 := by exact_mod_cast range.2
      have above : -2 ^ 63 ≤ j := by exact_mod_cast range.1
      have limits : IntegralType.int64.min ≤ j ∧ j ≤ IntegralType.int64.max :=
        ⟨above, by change j ≤ 2 ^ 63 - 1; omega⟩
      rw [if_pos limits]
    · rw [if_neg range, if_neg]
      rintro rfl
      exact range ⟨by exact_mod_cast low, by exact_mod_cast high⟩
  have exact_ : j = i ↔ F.nearest i.natAbs = i.natAbs := by
    rw [← signed_inj (decide (i < 0)), signedWhole, signed_natAbs]
    exact_mod_cast Iff.rfl
  constructor
  · rw [tested, FloatNumber.round, dif_pos ⟨nonneg, bounded⟩]
    split <;> exact ⟨_, rfl⟩
  · intro v
    rw [tested]
    constructor
    · intro read
      by_cases kept : j = i
      · rw [if_pos kept, FloatNumber.round, dif_pos ⟨nonneg, bounded⟩] at read
        cases read
        have holds := F.nearest_holds i.natAbs nonneg bounded
        have unrounded := exact_.mp kept
        rw [unrounded] at holds
        exact ⟨holds, by simp only [unrounded]⟩
      · rw [if_neg kept] at read
        cases read
    · rintro ⟨holds, rfl⟩
      rw [if_pos (exact_.mpr (FloatFormat.nearest_of_holds holds)), FloatNumber.round_holds _ _ holds]
      rfl

theorem convertFloating_defined (F : FloatFormat) (wide : 64 ≤ F.top) (nests : Nests F)
    (scalar : Scalar) : ∃ answer, convertFloating F scalar = some answer := by
  cases scalar with
  | double d => exact (convertFloating_double F nests d).1
  | int n => exact (convertFloating_int F wide n).1
  | monostate | bool | string => exact ⟨_, rfl⟩

end ConfigManager.Refinement
