import Mathlib.Tactic.Linarith
import Mathlib.Tactic.Positivity
import ConfigManager.Source.ScalarConversion

/-!
# Integer reads are exact

A finite double is a whole number of units. One that denotes an integer is either
small, or its trailing bits are zero, so that converting the integer back gives the
same number; and a double from 2^53 on always denotes an integer. The checks of
`convertScalar` therefore accept exactly the integers in the range of the target.
-/

set_option autoImplicit false

namespace ConfigManager.Refinement
open Library Source

/-! ## Ranges -/

theorem power_le (w n : Nat) (le : w ≤ n) : (2 : Int) ^ w ≤ 2 ^ n :=
  pow_le_pow_right₀ (by decide) le

/-- Where the range of an integral type lies. -/
theorem range_bounds (T : IntegralType) :
    (T.isSigned = true → -2 ^ 63 ≤ T.min ∧ T.min ≤ 0 ∧ 0 ≤ T.max ∧ T.max < 2 ^ 63) ∧
    (T.isSigned = false → T.min = 0 ∧ 0 ≤ T.max ∧ T.max < 2 ^ 64) := by
  have width := T.atMost
  have half := power_le (T.width - 1) 63 (by omega)
  have whole := power_le T.width 64 width
  have positive : (0 : Int) < 2 ^ (T.width - 1) := by positivity
  have positive' : (0 : Int) < 2 ^ T.width := by positivity
  constructor
  · intro isSigned
    simp only [IntegralType.min, IntegralType.max, isSigned, if_true]
    omega
  · intro isSigned
    simp only [IntegralType.min, IntegralType.max, isSigned, Bool.false_eq_true, if_false,
      true_and]
    omega

theorem cast_inRange (T : IntegralType) (x : Int) (low : T.min ≤ x) (high : x ≤ T.max) :
    T.cast x = x := by
  have positive := T.positive
  have split : (2 : Nat) ^ T.width = 2 ^ (T.width - 1) * 2 := by
    rw [← pow_succ, Nat.sub_add_cancel positive]
  unfold IntegralType.cast
  cases isSigned : T.isSigned with
  | true =>
    simp only [IntegralType.min, IntegralType.max, isSigned, if_true] at low high ⊢
    have cast : ((2 ^ (T.width - 1) : Nat) : Int) = 2 ^ (T.width - 1) := by push_cast; rfl
    apply Int.bmod_eq_of_le <;> rw [split] <;> push_cast <;> omega
  | false =>
    simp only [IntegralType.min, IntegralType.max, isSigned, Bool.false_eq_true, if_false]
      at low high ⊢
    exact Int.emod_eq_of_lt low (by omega)

theorem int64_cast (x : Int) (low : -2 ^ 63 ≤ x) (high : x < 2 ^ 63) :
    IntegralType.int64.cast x = x :=
  cast_inRange .int64 x low (by change x ≤ 2 ^ 63 - 1; omega)

theorem uint64_cast (x : Int) (low : 0 ≤ x) (high : x < 2 ^ 64) :
    IntegralType.uint64.cast x = x :=
  cast_inRange .uint64 x low (by change x ≤ 2 ^ 64 - 1; omega)

theorem fitsInt_iff (T : IntegralType) (value : Int) (low : -2 ^ 63 ≤ value) (high : value < 2 ^ 63) :
    fitsInt T value = true ↔ T.min ≤ value ∧ value ≤ T.max := by
  obtain ⟨ofSigned, ofUnsigned⟩ := range_bounds T
  unfold fitsInt
  cases isSigned : T.isSigned with
  | true =>
    have bounds := ofSigned isSigned
    rw [if_pos rfl, int64_cast T.min (by omega) (by omega), int64_cast T.max (by omega) (by omega)]
    simp
  | false =>
    have bounds := ofUnsigned isSigned
    rw [if_neg Bool.false_ne_true, bounds.1]
    simp only [Bool.and_eq_true, decide_eq_true_eq]
    by_cases sign : 0 ≤ value
    · rw [uint64_cast value sign (by omega)]
    · simp [sign]

/-! ## Doubles as whole numbers of units -/

/-- The number of units with its sign. -/
def signedUnits (d : Double) : Int := if d.negative then -d.units else d.units

theorem scale_pos : 0 < Double.scale := by
  unfold Double.scale
  positivity

theorem value_eq (d : Double) : d.value = signedUnits d / Double.scale := by
  unfold Double.value signedUnits
  split
  · push_cast
    ring
  · push_cast
    rfl

/-- A double denotes an integer when its units are so many scales. -/
theorem value_int_iff (d : Double) (n : Int) : d.value = n ↔ signedUnits d = n * Double.scale := by
  have nonzero : (Double.scale : Rat) ≠ 0 := by
    exact_mod_cast Nat.ne_of_gt scale_pos
  rw [value_eq, div_eq_iff nonzero]
  exact_mod_cast Iff.rfl

theorem signedUnits_natAbs (d : Double) : (signedUnits d).natAbs = d.units := by
  unfold signedUnits
  split <;> simp

theorem exponentBits_toNat (d : Double) :
    d.exponentBits.toNat = d.bits.toNat / 2 ^ 52 % 2 ^ 11 := by
  have mask : (0x7FF : UInt64).toNat = 2 ^ 11 - 1 := rfl
  have amount : (52 : UInt64).toNat = 52 := rfl
  rw [Double.exponentBits, UInt64.toNat_and, UInt64.toNat_shiftRight, mask,
    Nat.and_two_pow_sub_one_eq_mod, amount, Nat.shiftRight_eq_div_pow]

theorem isFinite_iff (d : Double) : d.isFinite = true ↔ d.exponentBits.toNat ≠ 0x7FF := by
  have value : (0x7FF : UInt64).toNat = 0x7FF := rfl
  rw [Double.isFinite, bne_iff_ne, ne_eq, ← UInt64.toNat_inj, value]

/-- The units are a significand below 2^53, shifted. -/
theorem units_factor (d : Double) : ∃ significand shift, d.units = significand * 2 ^ shift ∧
    significand < 2 ^ 53 := by
  have small : d.fraction < 2 ^ 52 := Nat.mod_lt _ (by decide)
  unfold Double.units
  split
  · exact ⟨d.fraction * 2, 0, by rw [pow_zero, mul_one], by omega⟩
  · exact ⟨2 ^ 52 + d.fraction, _, rfl, by omega⟩

/-- A packed normal double. -/
theorem pack_normal (isNegative : Bool) (exponent fraction : Nat) (normal : 0 < exponent)
    (finite : exponent < 0x7FF) (small : fraction < 2 ^ 52) :
    (Double.pack isNegative exponent fraction).isFinite = true ∧
      (Double.pack isNegative exponent fraction).units = (2 ^ 52 + fraction) * 2 ^ exponent ∧
      (Double.pack isNegative exponent fraction).negative = isNegative := by
  have bits : (Double.pack isNegative exponent fraction).bits.toNat =
      (if isNegative then 2 ^ 63 else 0) + exponent * 2 ^ 52 + fraction := by
    rw [Double.pack, UInt64.toNat_ofNat']
    apply Nat.mod_eq_of_lt
    split <;> omega
  have field : (Double.pack isNegative exponent fraction).exponentBits.toNat = exponent := by
    rw [exponentBits_toNat, bits]
    split <;> omega
  refine ⟨?_, ?_, ?_⟩
  · rw [isFinite_iff, field]
    omega
  · have nonzero : (Double.pack isNegative exponent fraction).exponentBits ≠ 0 := by
      intro zero
      rw [zero] at field
      change 0 = exponent at field
      omega
    have part : (Double.pack isNegative exponent fraction).fraction = fraction := by
      rw [Double.fraction, bits]
      split <;> omega
    rw [Double.units, if_neg nonzero, part, field]
  · rw [Double.negative, bits]
    cases isNegative <;> simp <;> omega

/-! ## Converting an integer to a double -/

theorem scale_split (k : Nat) (small : k ≤ 52) :
    2 ^ (52 - k) * 2 ^ (1023 + k) = Double.scale := by
  unfold Double.scale
  rw [← pow_add]
  congr 1
  omega

theorem scale_split' (k : Nat) (large : 52 ≤ k) :
    2 ^ (1023 + k) = 2 ^ (k - 52) * Double.scale := by
  unfold Double.scale
  rw [← pow_add]
  congr 1
  omega

theorem value_of_units (d : Double) (n : Int) (sign : d.negative = decide (n < 0))
    (units : d.units = n.natAbs * Double.scale) : d.value = n := by
  rw [value_int_iff, signedUnits, sign, units]
  by_cases below : n < 0
  · rw [if_pos (decide_eq_true below)]
    push_cast
    rw [abs_of_neg below, neg_mul, neg_neg]
  · rw [if_neg (by simpa using below)]
    push_cast
    rw [abs_of_nonneg (by omega)]

/-- An integer that is small, or whose trailing bits beyond the significand are zero,
is converted exactly. -/
theorem ofInt_of_shape (n : Int) (bound : n.natAbs < 2 ^ 65)
    (shape : n.natAbs < 2 ^ 53 ∨ 2 ^ (Nat.log2 n.natAbs - 52) ∣ n.natAbs) :
    (Double.ofInt n).isFinite = true ∧ (Double.ofInt n).value = n := by
  unfold Double.ofInt
  by_cases zero : n.natAbs = 0
  · rw [Int.natAbs_eq_zero] at zero
    subst zero
    refine ⟨rfl, (value_int_iff _ 0).mpr ?_⟩
    rw [zero_mul]
    rfl
  · simp only [if_neg zero]
    have low := Nat.log2_self_le zero
    have high := Nat.lt_log2_self (n := n.natAbs)
    have few : Nat.log2 n.natAbs < 65 := (Nat.log2_lt zero).mpr bound
    generalize n.natAbs.log2 = k at *
    by_cases short : k ≤ 52
    · rw [if_pos short]
      have room : 2 ^ k * 2 ^ (52 - k) = 2 ^ 52 := by
        rw [← pow_add, Nat.add_sub_cancel' short]
      have least : 2 ^ 52 ≤ n.natAbs * 2 ^ (52 - k) := by
        rw [← room]
        exact Nat.mul_le_mul_right _ low
      have most : n.natAbs * 2 ^ (52 - k) < 2 ^ 53 := by
        have scaled := Nat.mul_lt_mul_of_pos_right high (Nat.pow_pos (n := 52 - k) Nat.two_pos)
        rw [pow_succ, mul_comm (2 ^ k), mul_assoc, room] at scaled
        omega
      obtain ⟨finite, units, sign⟩ := pack_normal (decide (n < 0)) (1023 + k)
        (n.natAbs * 2 ^ (52 - k) - 2 ^ 52) (by omega) (by omega) (by omega)
      refine ⟨finite, value_of_units _ n sign ?_⟩
      rw [units, Nat.add_sub_cancel' least, mul_assoc, scale_split k short]
    · rw [if_neg short]
      have divides : 2 ^ (k - 52) ∣ n.natAbs := by
        rcases shape with small | divides
        · have above := Nat.pow_le_pow_right Nat.two_pos (show 53 ≤ k by omega)
          omega
        · exact divides
      have half : 0 < 2 ^ (k - 53) := Nat.pow_pos Nat.two_pos
      have exact_ : ¬(2 ^ (k - 53) < n.natAbs % 2 ^ (k - 52) ∨
          (n.natAbs % 2 ^ (k - 52) = 2 ^ (k - 53) ∧ n.natAbs / 2 ^ (k - 52) % 2 = 1)) := by
        rw [Nat.mod_eq_zero_of_dvd divides]
        omega
      rw [if_neg exact_]
      have split : n.natAbs / 2 ^ (k - 52) * 2 ^ (k - 52) = n.natAbs := Nat.div_mul_cancel divides
      have room : 2 ^ 52 * 2 ^ (k - 52) = 2 ^ k := by
        rw [← pow_add, Nat.add_sub_cancel' (by omega)]
      have least : 2 ^ 52 ≤ n.natAbs / 2 ^ (k - 52) := by
        rw [Nat.le_div_iff_mul_le (Nat.pow_pos Nat.two_pos), room]
        exact low
      have most : n.natAbs / 2 ^ (k - 52) < 2 ^ 53 := by
        rw [Nat.div_lt_iff_lt_mul (Nat.pow_pos Nat.two_pos), pow_succ, mul_assoc, mul_comm 2,
          ← mul_assoc, room, ← pow_succ]
        exact high
      obtain ⟨finite, units, sign⟩ := pack_normal (decide (n < 0)) (1023 + k)
        (n.natAbs / 2 ^ (k - 52) - 2 ^ 52) (by omega) (by omega) (by omega)
      refine ⟨finite, value_of_units _ n sign ?_⟩
      rw [units, Nat.add_sub_cancel' least, scale_split' k (by omega), ← mul_assoc, split]

/-- The magnitude of an integer that a double denotes has one of these shapes. -/
theorem shape_of_value (d : Double) (n : Int) (same : d.value = n) :
    n.natAbs < 2 ^ 53 ∨ 2 ^ (Nat.log2 n.natAbs - 52) ∣ n.natAbs := by
  obtain ⟨significand, shift, factor, small⟩ := units_factor d
  have units : n.natAbs * Double.scale = significand * 2 ^ shift := by
    have whole := congrArg Int.natAbs ((value_int_iff d n).mp same)
    rw [signedUnits_natAbs, Int.natAbs_mul, Int.natAbs_natCast] at whole
    rw [← whole, factor]
  by_cases far : 1075 ≤ shift
  · right
    have split : 2 ^ shift = 2 ^ (shift - 1075) * Double.scale := by
      unfold Double.scale
      rw [← pow_add, Nat.sub_add_cancel far]
    rw [split, ← mul_assoc] at units
    have magnitude := Nat.eq_of_mul_eq_mul_right scale_pos units
    by_cases zero : n.natAbs = 0
    · rw [zero]
      exact Nat.dvd_zero _
    · have below : n.natAbs < 2 ^ (53 + (shift - 1075)) := by
        rw [magnitude, pow_add]
        exact Nat.mul_lt_mul_of_pos_right small (Nat.pow_pos Nat.two_pos)
      have length := (Nat.log2_lt zero).mpr below
      have covered : 2 ^ (Nat.log2 n.natAbs - 52) ∣ 2 ^ (shift - 1075) :=
        Nat.pow_dvd_pow 2 (by omega)
      rw [magnitude] at covered ⊢
      exact covered.trans (Nat.dvd_mul_left _ _)
  · left
    have split : Double.scale = 2 ^ (1075 - shift) * 2 ^ shift := by
      unfold Double.scale
      rw [← pow_add, Nat.sub_add_cancel (by omega)]
    rw [split, ← mul_assoc] at units
    have magnitude := Nat.eq_of_mul_eq_mul_right (Nat.pow_pos Nat.two_pos) units
    have least : n.natAbs ≤ n.natAbs * 2 ^ (1075 - shift) :=
      Nat.le_mul_of_pos_right _ (Nat.pow_pos Nat.two_pos)
    omega

/-- From 2^53 on every double denotes an integer. -/
theorem value_integral (d : Double) (n : Int) (large : 2 ^ 53 ≤ n.natAbs)
    (beyond : n.natAbs * Double.scale ≤ d.units) : ∃ whole : Int, d.value = whole := by
  obtain ⟨significand, shift, factor, small⟩ := units_factor d
  have far : 1075 ≤ shift := by
    by_contra near
    have split : Double.scale = 2 ^ (1075 - shift) * 2 ^ shift := by
      unfold Double.scale
      rw [← pow_add, Nat.sub_add_cancel (by omega)]
    rw [factor, split, ← mul_assoc] at beyond
    have least := Nat.le_of_mul_le_mul_right beyond (Nat.pow_pos Nat.two_pos)
    have grown : n.natAbs ≤ n.natAbs * 2 ^ (1075 - shift) :=
      Nat.le_mul_of_pos_right _ (Nat.pow_pos Nat.two_pos)
    omega
  have split : 2 ^ shift = 2 ^ (shift - 1075) * Double.scale := by
    unfold Double.scale
    rw [← pow_add, Nat.sub_add_cancel far]
  rw [split, ← mul_assoc] at factor
  refine ⟨if d.negative then -(significand * 2 ^ (shift - 1075) : Nat)
    else (significand * 2 ^ (shift - 1075) : Nat), (value_int_iff d _).mpr ?_⟩
  rw [signedUnits, factor]
  split
  · push_cast
    ring
  · push_cast
    rfl

/-! ## Truncation -/

theorem truncate_int (n : Int) : Double.truncate n = n := by
  unfold Double.truncate
  split
  · exact Int.floor_intCast n
  · exact Int.ceil_intCast n

theorem truncate_range (x : Rat) (lo hi : Int) (low : lo ≤ x) (high : x < hi) (signs : lo ≤ 0 ∧ 0 < hi) :
    lo ≤ Double.truncate x ∧ Double.truncate x < hi := by
  unfold Double.truncate
  split
  · next sign =>
    exact ⟨signs.1.trans (Int.floor_nonneg.mpr sign), Int.floor_lt.mpr high⟩
  · next sign =>
    have below : ⌈x⌉ ≤ 0 := Int.ceil_le.mpr (by push_cast; linarith)
    refine ⟨?_, lt_of_le_of_lt below signs.2⟩
    exact_mod_cast low.trans (Int.le_ceil x)

/-- Truncating does not increase the magnitude. -/
theorem truncate_le (d : Double) :
    (Double.truncate d.value).natAbs * Double.scale ≤ d.units := by
  have positive : (0 : Rat) < Double.scale := by exact_mod_cast scale_pos
  have magnitude : ((Double.truncate d.value).natAbs : Rat) ≤ |d.value| := by
    rw [Nat.cast_natAbs, Int.cast_abs]
    unfold Double.truncate
    split
    · next sign =>
      have low : (0 : Rat) ≤ (⌊d.value⌋ : Int) := by exact_mod_cast Int.floor_nonneg.mpr sign
      rw [abs_of_nonneg low, abs_of_nonneg sign]
      exact Int.floor_le d.value
    · next sign =>
      have high : ((⌈d.value⌉ : Int) : Rat) ≤ 0 := by
        exact_mod_cast Int.ceil_le.mpr (by push_cast; linarith)
      rw [abs_of_nonpos high, abs_of_nonpos (by linarith)]
      exact neg_le_neg (Int.le_ceil d.value)
  have units : |d.value| * Double.scale = d.units := by
    rw [value_eq, abs_div, abs_of_pos positive, div_mul_cancel₀ _ (ne_of_gt positive),
      ← signedUnits_natAbs, Nat.cast_natAbs, Int.cast_abs]
  have scaled := mul_le_mul_of_nonneg_right magnitude (le_of_lt positive)
  rw [units] at scaled
  exact_mod_cast scaled

/-! ## The checks of convertScalar -/

theorem equals_iff (d other : Double) (finite : other.isFinite = true) :
    d.equals other = true ↔ d.isFinite = true ∧ d.value = other.value := by
  unfold Double.equals
  by_cases finite' : d.isFinite = true
  · simp [finite, finite']
  · rw [if_neg (by simp [finite']), Bool.and_eq_true, beq_iff_eq]
    constructor
    · rintro ⟨rfl, _⟩
      exact absurd finite finite'
    · rintro ⟨impossible, _⟩
      exact absurd impossible finite'

/-- The truncated value converts back to the same number exactly when nothing was cut off. -/
theorem survives_iff (d : Double) (finite : d.isFinite = true)
    (bound : (Double.truncate d.value).natAbs < 2 ^ 65) :
    (Double.ofInt (Double.truncate d.value)).equals d = true ↔
      d.value = Double.truncate d.value := by
  rw [equals_iff _ d finite]
  constructor
  · rintro ⟨_, same⟩
    by_cases small : (Double.truncate d.value).natAbs < 2 ^ 53
    · rw [← same, (ofInt_of_shape _ bound (.inl small)).2, truncate_int]
    · obtain ⟨whole, integral⟩ := value_integral d _ (Nat.le_of_not_lt small) (truncate_le d)
      rw [integral, truncate_int]
  · intro whole
    obtain ⟨finite', value⟩ := ofInt_of_shape _ bound (shape_of_value d _ whole)
    exact ⟨finite', value.trans whole.symm⟩

theorem comparisons (d : Double) (finite : d.isFinite = true) (lo hi : Rat) :
    (d.atLeast lo && d.below hi) = true ↔ lo ≤ d.value ∧ d.value < hi := by
  simp [Double.atLeast, Double.below, finite]

/-- Neither an infinity nor a NaN lies in a half-open range. -/
theorem comparisons_infinite (d : Double) (infinite : d.isFinite = false) (lo hi : Rat) :
    (d.atLeast lo && d.below hi) = false := by
  simp only [Double.atLeast, Double.below, infinite, Bool.false_eq_true, if_false]
  cases d.isNaN <;> cases d.negative <;> rfl

theorem castTo_inRange (T : IntegralType) (d : Double) (finite : d.isFinite = true)
    (low : T.min ≤ Double.truncate d.value) (high : Double.truncate d.value ≤ T.max) :
    d.castTo T = some (Double.truncate d.value) := by
  simp [Double.castTo, finite, low, high]

/-- Where the conversion goes through a wide type whose range covers the target's. -/
structure Covers (T W : IntegralType) (lo hi : Int) (inTarget : Int → Bool) : Prop where
  signs : lo ≤ 0 ∧ 0 < hi
  wide : ∀ x, lo ≤ x → x < hi → W.min ≤ x ∧ x ≤ W.max ∧ x.natAbs < 2 ^ 65
  target : ∀ x, T.min ≤ x → x ≤ T.max → lo ≤ x ∧ x < hi
  check : ∀ x, lo ≤ x → x < hi → (inTarget x = true ↔ T.min ≤ x ∧ x ≤ T.max)

/-- What the conversion answers: an integer of the target when the double denotes it. -/
theorem convertDouble_spec (T W : IntegralType) (lo hi : Int) (inTarget : Int → Bool)
    (covers : Covers T W lo hi inTarget) (d : Double) :
    (∃ answer, convertDouble T W lo hi inTarget d = some answer) ∧
    (d.isFinite = true → ∀ n, convertDouble T W lo hi inTarget d = some (.ok n) ↔
      d.value = n ∧ T.min ≤ n ∧ n ≤ T.max) := by
  unfold convertDouble
  cases finite : d.isFinite with
  | false =>
    rw [comparisons_infinite d finite]
    exact ⟨⟨_, rfl⟩, fun impossible => absurd impossible Bool.false_ne_true⟩
  | true =>
    by_cases inside : (lo : Rat) ≤ d.value ∧ d.value < hi
    · obtain ⟨low, high⟩ := truncate_range d.value lo hi inside.1 inside.2 covers.signs
      obtain ⟨wideLow, wideHigh, bound⟩ := covers.wide _ low high
      rw [if_pos ((comparisons d finite lo hi).mpr inside), castTo_inRange W d finite wideLow wideHigh]
      have survives := survives_iff d finite bound
      have check := covers.check _ low high
      simp only
      by_cases taken : ((Double.ofInt (Double.truncate d.value)).equals d &&
          inTarget (Double.truncate d.value)) = true
      · rw [if_pos taken]
        rw [Bool.and_eq_true, survives, check] at taken
        obtain ⟨whole, least, most⟩ := taken
        refine ⟨⟨_, rfl⟩, fun _ n => ?_⟩
        rw [Option.some.injEq, Except.ok.injEq, cast_inRange T _ least most]
        constructor
        · rintro rfl
          exact ⟨whole, least, most⟩
        · rintro ⟨same, _⟩
          rw [same, truncate_int]
      · rw [if_neg taken]
        refine ⟨⟨_, rfl⟩, fun _ n => ?_⟩
        simp only [notExactError, fail, Option.some.injEq, reduceCtorEq, false_iff]
        rintro ⟨same, least, most⟩
        have whole : Double.truncate d.value = n := by rw [same, truncate_int]
        apply taken
        rw [Bool.and_eq_true, survives, check, whole]
        exact ⟨same, least, most⟩
    · rw [if_neg (fun compared => inside ((comparisons d finite lo hi).mp compared))]
      refine ⟨⟨_, rfl⟩, fun _ n => ?_⟩
      simp only [notExactError, fail, Option.some.injEq, reduceCtorEq, false_iff]
      rintro ⟨same, least, most⟩
      obtain ⟨low, high⟩ := covers.target n least most
      apply inside
      rw [same]
      exact ⟨by exact_mod_cast low, by exact_mod_cast high⟩

theorem covers_signed (T : IntegralType) (isSigned : T.isSigned = true) :
    Covers T .int64 (-2 ^ 63) (2 ^ 63) (fitsInt T) := by
  have bounds := (range_bounds T).1 isSigned
  refine ⟨by decide, fun x low high => ?_, fun x low high => by omega,
    fun x low high => fitsInt_iff T x low high⟩
  change -2 ^ 63 ≤ x ∧ x ≤ 2 ^ 63 - 1 ∧ _
  omega

theorem covers_unsigned (T : IntegralType) (isUnsigned : T.isSigned = false) :
    Covers T .uint64 0 (2 ^ 64) fun x => decide (x ≤ IntegralType.uint64.cast T.max) := by
  have bounds := (range_bounds T).2 isUnsigned
  refine ⟨by decide, fun x low high => ?_, fun x low high => by omega, fun x low high => ?_⟩
  · change 0 ≤ x ∧ x ≤ 2 ^ 64 - 1 ∧ _
    omega
  · rw [uint64_cast T.max bounds.2.1 bounds.2.2, bounds.1, decide_eq_true_eq]
    exact ⟨fun most => ⟨low, most⟩, fun both => both.2⟩

/-- The conversion of a stored double, for either kind of target. -/
theorem convertScalar_double (T : IntegralType) (d : Double) :
    (∃ answer, convertScalar T (.double d) = some answer) ∧
    (d.isFinite = true → ∀ n, convertScalar T (.double d) = some (.ok n) ↔
      d.value = n ∧ T.min ≤ n ∧ n ≤ T.max) := by
  cases isSigned : T.isSigned with
  | true =>
    have spec := convertDouble_spec T _ _ _ _ (covers_signed T isSigned) d
    simp only [Int.cast_neg, Int.cast_pow, Int.cast_ofNat] at spec
    rw [convertScalar, if_pos isSigned]
    exact spec
  | false =>
    have spec := convertDouble_spec T _ _ _ _ (covers_unsigned T isSigned) d
    simp only [Int.cast_zero, Int.cast_pow, Int.cast_ofNat] at spec
    rw [convertScalar, isSigned, if_neg Bool.false_ne_true]
    exact spec

theorem convertScalar_int (T : IntegralType) (value : Int64) :
    (T.min ≤ value.toInt ∧ value.toInt ≤ T.max →
      convertScalar T (.int value) = some (.ok value.toInt)) ∧
    (¬(T.min ≤ value.toInt ∧ value.toInt ≤ T.max) →
      convertScalar T (.int value) = some (fail .invalidType
        (bytes "Int value is not representable in the requested type"))) := by
  have fits := fitsInt_iff T value.toInt value.le_toInt value.toInt_lt
  rw [← fits]
  constructor
  · intro inRange
    obtain ⟨least, most⟩ := fits.mp inRange
    rw [convertScalar, if_pos inRange, cast_inRange T _ least most]
  · intro outside
    rw [convertScalar, if_neg outside]

/-- No undefined cast is executed. -/
theorem convertScalar_defined (T : IntegralType) (scalar : Scalar) :
    ∃ answer, convertScalar T scalar = some answer := by
  cases scalar with
  | double d => exact (convertScalar_double T d).1
  | int v =>
    rw [convertScalar]
    split
    · exact ⟨_, rfl⟩
    · exact ⟨_, rfl⟩
  | monostate => exact ⟨_, rfl⟩
  | bool b => exact ⟨_, rfl⟩
  | string text => exact ⟨_, rfl⟩

end ConfigManager.Refinement
