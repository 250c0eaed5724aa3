import Mathlib.Data.Int.Log
import Mathlib.Data.Rat.Floor
import Mathlib.Tactic.FieldSimp
import Mathlib.Tactic.Linarith
import Mathlib.Tactic.Positivity
import Mathlib.Tactic.Ring

/-!
# Binary floating-point formats

A format has a precision, a last place below which it does not go, and a bound
on its magnitudes. Rounding is to the nearest multiple of a last place, ties to
the even one. It keeps what the format holds, and stays within the format up to
the largest magnitude.
-/

set_option autoImplicit false

namespace ConfigManager.Library

structure FloatFormat where
  precision : Nat
  /-- The exponent of the last place of the smallest magnitudes. -/
  least : Int
  /-- Magnitudes are below two to this power. -/
  top : Int
  digits : 0 < precision
  room : least + precision ≤ top
  deriving DecidableEq

/-- To the nearest whole number, ties to the even one. -/
def roundEven (q : Rat) : Nat :=
  if q - ⌊q⌋₊ < 1 / 2 ∨ q - ⌊q⌋₊ = 1 / 2 ∧ ⌊q⌋₊ % 2 = 0 then ⌊q⌋₊ else ⌊q⌋₊ + 1

theorem roundEven_natCast (n : Nat) : roundEven n = n := by
  rw [roundEven, Nat.floor_natCast, sub_self, if_pos (.inl (by norm_num))]

theorem roundEven_le (q : Rat) (n : Nat) (le : q ≤ n) : roundEven q ≤ n := by
  have floor : ⌊q⌋₊ ≤ n := Nat.floor_le_of_le le
  unfold roundEven
  by_cases same : ⌊q⌋₊ = n
  · have small : q - ⌊q⌋₊ < 1 / 2 := by
      rw [same]
      linarith
    rw [if_pos (.inl small)]
    exact floor
  · split <;> omega

namespace FloatFormat

variable (F G : FloatFormat)

/-- The format has this magnitude. -/
def Holds (x : Rat) : Prop :=
  x < 2 ^ F.top ∧ ∃ (s : Nat) (e : Int), s < 2 ^ F.precision ∧ F.least ≤ e ∧ x = s * 2 ^ e

def largest : Rat := (2 ^ F.precision - 1) * 2 ^ (F.top - F.precision)

/-- The exponent of the last place to which a magnitude is rounded. -/
def place (x : Rat) : Int := max F.least (Int.log 2 x + 1 - F.precision)

def nearest (x : Rat) : Rat := roundEven (x / 2 ^ F.place x) * 2 ^ F.place x

/-- Every magnitude of `F` is one of `G`. -/
structure Within : Prop where
  precision : F.precision ≤ G.precision
  least : G.least ≤ F.least
  top : F.top ≤ G.top

variable {F G}

theorem power_pos (e : Int) : (0 : Rat) < 2 ^ e := zpow_pos (by norm_num) e

/-- The largest significand. -/
theorem cast_pred (p : Nat) : ((2 ^ p - 1 : Nat) : Rat) = 2 ^ p - 1 := by
  rw [Nat.cast_sub Nat.one_le_two_pow, Nat.cast_pow, Nat.cast_ofNat, Nat.cast_one]

theorem Holds.nonneg {x : Rat} (holds : F.Holds x) : 0 ≤ x := by
  obtain ⟨_, s, e, _, _, rfl⟩ := holds
  exact mul_nonneg (Nat.cast_nonneg s) (power_pos e).le

theorem Within.holds (within : F.Within G) (x : Rat) (holds : F.Holds x) : G.Holds x := by
  obtain ⟨bounded, s, e, small, low, rfl⟩ := holds
  refine ⟨bounded.trans_le (zpow_le_zpow_right₀ (by norm_num) within.top), s, e, ?_,
    within.least.trans low, rfl⟩
  exact small.trans_le (Nat.pow_le_pow_right (by decide) within.precision)

/-- A whole multiple of a larger power is one of a smaller power. -/
theorem power_split (e e' : Int) (le : e ≤ e') : (2 : Rat) ^ e' = (2 ^ (e' - e).toNat : Nat) * 2 ^ e := by
  have exponent : e' = ((e' - e).toNat : Int) + e := by omega
  push_cast
  rw [← zpow_natCast, ← zpow_add₀ (by norm_num), ← exponent]

/-- What the format holds is a whole number of its last places. -/
theorem Holds.whole {x : Rat} (holds : F.Holds x) : ∃ n : Nat, x = n * 2 ^ F.place x := by
  by_cases zero : x = 0
  · exact ⟨0, by simp [zero]⟩
  have positive : 0 < x := lt_of_le_of_ne holds.nonneg (Ne.symm zero)
  obtain ⟨_, s, e, small, low, same⟩ := holds
  have reaches : F.place x ≤ e := by
    have bound : x < 2 ^ ((F.precision : Int) + e) := by
      rw [same, zpow_add₀ (by norm_num), zpow_natCast]
      have small' : (s : Rat) < 2 ^ F.precision := by exact_mod_cast small
      exact mul_lt_mul_of_pos_right small' (power_pos e)
    have log := (Int.lt_zpow_iff_log_lt (b := 2) (by decide) positive).mp (by exact_mod_cast bound)
    unfold place
    omega
  refine ⟨s * 2 ^ (e - F.place x).toNat, ?_⟩
  push_cast
  rw [mul_assoc]
  have split := power_split _ _ reaches
  push_cast at split
  rw [← split]
  exact same

/-- What the format holds is rounded to itself. -/
theorem nearest_of_holds {x : Rat} (holds : F.Holds x) : F.nearest x = x := by
  obtain ⟨n, whole⟩ := holds.whole
  have places : x / 2 ^ F.place x = n := by
    rw [div_eq_iff (power_pos _).ne']
    exact whole
  rw [nearest, places, roundEven_natCast]
  exact whole.symm

theorem below_places (x : Rat) : x < 2 ^ F.precision * 2 ^ F.place x := by
  have log : x < 2 ^ (Int.log 2 x + 1) := by
    exact_mod_cast Int.lt_zpow_succ_log_self (b := 2) (by decide) x
  refine log.trans_le ?_
  rw [← zpow_natCast, ← zpow_add₀ (by norm_num)]
  apply zpow_le_zpow_right₀ (by norm_num)
  unfold place
  omega

theorem largest_nonneg : 0 ≤ F.largest := by
  have one : (1 : Rat) ≤ 2 ^ F.precision := one_le_pow₀ (by norm_num)
  exact mul_nonneg (by linarith) (power_pos _).le

theorem largest_lt : F.largest < 2 ^ F.top := by
  have split : (2 : Rat) ^ F.top = 2 ^ F.precision * 2 ^ (F.top - F.precision) := by
    rw [← zpow_natCast, ← zpow_add₀ (by norm_num)]
    congr 1
    omega
  rw [largest, split]
  exact mul_lt_mul_of_pos_right (by linarith) (power_pos _)

/-- The last place of an unbounded magnitude within the bound. -/
theorem place_le (x : Rat) (positive : 0 < x) (bounded : x ≤ F.largest) :
    F.place x ≤ F.top - F.precision := by
  have log := (Int.lt_zpow_iff_log_lt (b := 2) (by decide) positive).mp
    (by exact_mod_cast bounded.trans_lt F.largest_lt)
  have room := F.room
  unfold place
  omega

theorem nearest_holds (x : Rat) (nonneg : 0 ≤ x) (bounded : x ≤ F.largest) : F.Holds (F.nearest x) := by
  by_cases zero : x = 0
  · refine ⟨?_, 0, F.least, by positivity, le_refl _, ?_⟩ <;>
      simp only [zero, nearest, zero_div, show roundEven 0 = 0 from roundEven_natCast 0, Nat.cast_zero,
        zero_mul]
    exact power_pos _
  have positive : 0 < x := lt_of_le_of_ne nonneg (Ne.symm zero)
  have low : F.least ≤ F.place x := le_max_left _ _
  have high := place_le x positive bounded
  have pos := power_pos (F.place x)
  have room : roundEven (x / 2 ^ F.place x) ≤ 2 ^ F.precision := by
    apply roundEven_le
    rw [div_le_iff₀ pos]
    exact_mod_cast (below_places x).le
  have top : F.nearest x < 2 ^ F.top := by
    by_cases last : F.place x = F.top - F.precision
    · -- At the last of the places the bound itself is a whole number of them.
      have fewer : roundEven (x / 2 ^ F.place x) ≤ 2 ^ F.precision - 1 := by
        apply roundEven_le
        rw [div_le_iff₀ pos, cast_pred, last]
        exact bounded
      have most : (roundEven (x / 2 ^ F.place x) : Rat) ≤ 2 ^ F.precision - 1 := by
        rw [← cast_pred]
        exact_mod_cast fewer
      refine lt_of_le_of_lt ?_ F.largest_lt
      rw [nearest, largest, ← last]
      exact mul_le_mul_of_nonneg_right most pos.le
    · have split : (2 : Rat) ^ F.precision * 2 ^ F.place x < 2 ^ F.top := by
        rw [← zpow_natCast, ← zpow_add₀ (by norm_num)]
        exact zpow_lt_zpow_right₀ (by norm_num) (by omega)
      refine lt_of_le_of_lt ?_ split
      exact mul_le_mul_of_nonneg_right (by exact_mod_cast room) pos.le
  refine ⟨top, ?_⟩
  by_cases full : roundEven (x / 2 ^ F.place x) = 2 ^ F.precision
  · -- A carry out of the significand is a power of two.
    obtain ⟨p, digits⟩ := Nat.exists_eq_succ_of_ne_zero (Nat.pos_iff_ne_zero.mp F.digits)
    refine ⟨2 ^ p, F.place x + 1, ?_, by omega, ?_⟩
    · rw [digits]
      exact Nat.pow_lt_pow_right (by decide) (Nat.lt_succ_self p)
    · rw [nearest, full, digits, pow_succ, zpow_add_one₀ (by norm_num)]
      push_cast
      ring
  · exact ⟨_, F.place x, by omega, low, rfl⟩

theorem Holds.le_largest {x : Rat} (holds : F.Holds x) : x ≤ F.largest := by
  by_contra above
  rw [not_le] at above
  have whole : ∃ n : Nat, x = n * 2 ^ (F.top - F.precision) := by
    obtain ⟨bounded, s, e, small, low, same⟩ := holds
    by_cases reaches : F.top - F.precision ≤ e
    · refine ⟨s * 2 ^ (e - (F.top - F.precision)).toNat, ?_⟩
      have split := power_split _ _ reaches
      push_cast at split ⊢
      rw [mul_assoc, ← split]
      exact same
    · -- At a smaller place the significand keeps the magnitude below the largest one.
      exfalso
      have step : (2 : Rat) ^ e ≤ 2 ^ (F.top - F.precision) :=
        zpow_le_zpow_right₀ (by norm_num) (by omega)
      have most : (s : Rat) ≤ 2 ^ F.precision - 1 := by
        rw [← cast_pred]
        exact_mod_cast Nat.le_sub_one_of_lt small
      have within : x ≤ F.largest := by
        rw [same, largest]
        exact mul_le_mul most step (power_pos e).le (le_trans (Nat.cast_nonneg s) most)
      linarith
  obtain ⟨n, whole⟩ := whole
  have pos := power_pos (F.top - F.precision)
  have bounded : (n : Rat) < 2 ^ F.precision := by
    have top := holds.1
    have split : (2 : Rat) ^ F.top = 2 ^ F.precision * 2 ^ (F.top - F.precision) := by
      rw [← zpow_natCast, ← zpow_add₀ (by norm_num)]
      congr 1
      omega
    rw [whole, split] at top
    exact lt_of_mul_lt_mul_right top pos.le
  have many : (2 : Rat) ^ F.precision - 1 < n := by
    rw [whole, largest] at above
    exact lt_of_mul_lt_mul_right above pos.le
  have bounded' : n < 2 ^ F.precision := by exact_mod_cast bounded
  have many' : 2 ^ F.precision < n + 1 := by
    have : (2 : Rat) ^ F.precision < n + 1 := by linarith
    exact_mod_cast this
  omega

/-- A whole number is rounded to a whole number. -/
theorem nearest_natCast (n : Nat) : ∃ n' : Nat, F.nearest n = n' := by
  by_cases reaches : 0 ≤ F.place n
  · obtain ⟨k, same⟩ := Int.eq_ofNat_of_zero_le reaches
    refine ⟨roundEven (n / 2 ^ F.place n) * 2 ^ k, ?_⟩
    rw [nearest]
    push_cast
    rw [← zpow_natCast, ← same]
  · -- Below the unit a whole number is a whole number of places.
    refine ⟨n, ?_⟩
    obtain ⟨k, same⟩ := Int.eq_ofNat_of_zero_le (show 0 ≤ -F.place n by omega)
    have place : F.place n = -(k : Int) := by omega
    have whole : (n : Rat) / 2 ^ F.place n = (n * 2 ^ k : Nat) := by
      rw [place, zpow_neg, zpow_natCast, div_inv_eq_mul]
      push_cast
      rfl
    rw [nearest, whole, roundEven_natCast, place, zpow_neg, zpow_natCast]
    push_cast
    field_simp

/-- From the bound on, the powers of two below it are in range. -/
theorem power_le_largest (k : Nat) (below : (k : Int) < F.top) : (2 : Rat) ^ k ≤ F.largest := by
  have digits := F.digits
  have half : (2 : Rat) ^ (F.top - 1) ≤ F.largest := by
    have split : (2 : Rat) ^ (F.top - 1) = 2 ^ (F.precision - 1) * 2 ^ (F.top - F.precision) := by
      rw [← zpow_natCast, ← zpow_add₀ (by norm_num)]
      congr 1
      omega
    have least : (2 : Rat) ^ (F.precision - 1) ≤ 2 ^ F.precision - 1 := by
      obtain ⟨p, digits⟩ := Nat.exists_eq_succ_of_ne_zero (Nat.pos_iff_ne_zero.mp digits)
      rw [digits, Nat.succ_sub_one, pow_succ]
      have one : (1 : Rat) ≤ 2 ^ p := one_le_pow₀ (by norm_num)
      linarith
    rw [split, largest]
    exact mul_le_mul_of_nonneg_right least (power_pos _).le
  refine le_trans ?_ half
  rw [← zpow_natCast]
  exact zpow_le_zpow_right₀ (by norm_num) (by omega)

end FloatFormat

/-! ## Numbers of a format -/

/-- A number of the format, an infinity, or a NaN, of which the payload is not told. -/
inductive FloatNumber (F : FloatFormat) where
  | nan
  | infinite (negative : Bool)
  | finite (negative : Bool) (magnitude : Rat) (holds : F.Holds magnitude)

def signed (negative : Bool) (magnitude : Rat) : Rat := if negative then -magnitude else magnitude

namespace FloatNumber

variable {F G : FloatFormat}

/-- The conversion of a finite number, `none` where it is out of the range of the format. -/
def round (F : FloatFormat) (negative : Bool) (magnitude : Rat) : Option (FloatNumber F) :=
  if within : 0 ≤ magnitude ∧ magnitude ≤ F.largest then
    some (finite negative (F.nearest magnitude)
      (FloatFormat.nearest_holds magnitude within.1 within.2))
  else none

/-- The conversion of a number to another format. -/
def cast (G : FloatFormat) : FloatNumber F → Option (FloatNumber G)
  | nan => some nan
  | infinite negative => some (infinite negative)
  | finite negative magnitude _ => round G negative magnitude

/-- `==`: zeros are equal, a NaN equals nothing. -/
def equals : FloatNumber F → FloatNumber F → Bool
  | infinite negative, infinite negative' => negative == negative'
  | finite negative magnitude _, finite negative' magnitude' _ =>
      decide (signed negative magnitude = signed negative' magnitude')
  | _, _ => false

/-- `>=`, for a bound that is a number of the format. -/
def atLeast (x : FloatNumber F) (bound : Rat) : Bool :=
  match x with
  | nan => false
  | infinite negative => !negative
  | finite negative magnitude _ => decide (bound ≤ signed negative magnitude)

/-- `<`, for a bound that is a number of the format. -/
def below (x : FloatNumber F) (bound : Rat) : Bool :=
  match x with
  | nan => false
  | infinite negative => negative
  | finite negative magnitude _ => decide (signed negative magnitude < bound)

/-- The same number, sign of zero included, in two formats. -/
def Same : FloatNumber F → FloatNumber G → Prop
  | nan, nan => True
  | infinite negative, infinite negative' => negative = negative'
  | finite negative magnitude _, finite negative' magnitude' _ =>
      negative = negative' ∧ magnitude = magnitude'
  | _, _ => False

theorem round_holds (negative : Bool) (magnitude : Rat) (holds : F.Holds magnitude) :
    round F negative magnitude = some (finite negative magnitude holds) := by
  rw [round, dif_pos ⟨holds.nonneg, holds.le_largest⟩]
  simp only [FloatFormat.nearest_of_holds holds]

theorem same_refl (x : FloatNumber F) : x.Same x := by
  cases x <;> simp [Same]

theorem same_iff_eq (x y : FloatNumber F) : x.Same y ↔ x = y := by
  cases x <;> cases y <;> simp [Same]

theorem Same.trans {F G H : FloatFormat} {x : FloatNumber F} {y : FloatNumber G} {z : FloatNumber H}
    (first : x.Same y) (second : y.Same z) : x.Same z := by
  cases x <;> cases y <;> cases z <;> simp_all [Same]

theorem Same.symm {x : FloatNumber F} {y : FloatNumber G} (same : x.Same y) : y.Same x := by
  cases x <;> cases y <;> simp_all [Same]

/-- A number is converted to the same number where there is one. -/
theorem cast_of_same (x : FloatNumber F) (y : FloatNumber G) (same : y.Same x) : x.cast G = some y := by
  cases x <;> cases y <;> simp only [Same] at same
  case nan.nan => rfl
  case infinite.infinite =>
    subst same
    rfl
  case finite.finite negative magnitude _ negative' magnitude' holds =>
    obtain ⟨rfl, rfl⟩ := same
    exact round_holds _ _ holds

/-- Infinities and NaNs are in every format; the others only where the format holds them. -/
theorem same_exists (x : FloatNumber F) :
    (∃ y : FloatNumber G, y.Same x) ↔
      ∀ negative magnitude holds, x = finite negative magnitude holds → G.Holds magnitude := by
  cases x with
  | nan => exact ⟨fun _ _ _ _ impossible => (nomatch impossible), fun _ => ⟨nan, trivial⟩⟩
  | infinite negative =>
    exact ⟨fun _ _ _ _ impossible => (nomatch impossible), fun _ => ⟨infinite negative, rfl⟩⟩
  | finite negative magnitude holds =>
    constructor
    · intro exists_ _ _ _ same
      obtain ⟨y, alike⟩ := exists_
      cases same
      cases y with
      | nan => exact alike.elim
      | infinite other => exact alike.elim
      | finite other magnitude' holds' => exact alike.2 ▸ holds'
    · intro all
      exact ⟨finite negative magnitude (all _ _ _ rfl), rfl, rfl⟩

theorem widened (within : F.Within G) (x : FloatNumber F) :
    ∃ y : FloatNumber G, x.cast G = some y ∧ y.Same x := by
  obtain ⟨y, same⟩ := (same_exists (G := G) x).mpr fun _ magnitude holds _ => within.holds magnitude holds
  exact ⟨y, cast_of_same x y same, same⟩

end FloatNumber

end ConfigManager.Library
