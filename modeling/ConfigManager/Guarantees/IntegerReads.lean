import ConfigManager.Guarantees.ModelRefinement
import ConfigManager.Refinement.IntegerConversions

/-!
# Integers are read exactly or refused

`convertScalar` for every integral target type, and what is read back from a path
that an integer was written to.
-/

set_option autoImplicit false

namespace ConfigManager.Guarantees
open Library Source Reference Refinement

/-- A path that leads nowhere yet but can be created: it parses, is not too deep, and from
some node on, which has room for the next step, only fresh containers are needed. -/
def FreshPath (m : ConfigModel) (path : Bytes) : Prop :=
  ∃ existing next later x, ConfigPath.parse path = .ok (existing ++ next :: later) ∧
    (existing ++ next :: later).length ≤ kMaxTreeDepth ∧
    Tree.locate existing (contents m) = .ok x ∧ Tree.canAppend next x = true ∧
    Tree.Creatable later

/-- The precondition of the scalar `set` is the range of the stored integers. -/
theorem violation_iff (S : IntegralType) (v : Int) (low : S.min ≤ v) (high : v ≤ S.max) :
    (∃ message, ofPreconditionViolation S v = some message) ↔ 2 ^ 63 - 1 < v := by
  obtain ⟨ofSigned, ofUnsigned⟩ := range_bounds S
  have top : IntegralType.int64.max = 2 ^ 63 - 1 := rfl
  unfold ofPreconditionViolation
  cases isSigned : S.isSigned with
  | true =>
    have bounds := ofSigned isSigned
    simp only [Bool.not_true, Bool.false_eq_true, false_and, if_false, reduceCtorEq, exists_false,
      false_iff]
    omega
  | false =>
    have bounds := ofUnsigned isSigned
    rw [top, uint64_cast v (by omega) (by omega), uint64_cast (2 ^ 63 - 1) (by decide) (by decide)]
    simp only [Bool.not_false, true_and]
    by_cases large : v > 2 ^ 63 - 1
    · rw [if_pos large]
      exact ⟨fun _ => large, fun _ => ⟨_, rfl⟩⟩
    · rw [if_neg large]
      constructor
      · rintro ⟨message, impossible⟩
        cases impossible
      · exact fun above => absurd above large

theorem leaf_fits (depth : Nat) (scalar : Scalar) (shallow : depth ≤ kMaxTreeDepth) :
    Fits depth (ConfigValue.of scalar) := by
  refine ⟨(Tree.every_iff _ _).mpr ⟨by simp [ConfigValue.of, Tree.keys], ?_⟩, shallow⟩
  simp [ConfigValue.of, Tree.children]

/-- A scalar written to a fresh path is found there. -/
theorem scalar_written (m : ConfigModel) (reached : Reachable m) (path : Bytes)
    (fresh : FreshPath m path) (scalar : Scalar) :
    (m.set path (ConfigValue.of scalar)).1 = .ok () ∧
      ∃ h, (m.set path (ConfigValue.of scalar)).2.nodeAt path = .ok h ∧
        outcome (h.scalarValue (m.set path (ConfigValue.of scalar)).2.arena) = .ok scalar := by
  obtain ⟨existing, next, later, x, parsed, shallow, found, room, creatable⟩ := fresh
  obtain ⟨t, r⟩ := reachable_represents reached
  rw [contents_eq r] at found
  have distinct := ConfigValue.keysDistinct_of scalar
  have success : (m.set path (ConfigValue.of scalar)).1 = .ok () := by
    have spec := set_spec m t r path (ConfigValue.of scalar) distinct
    obtain ⟨new, written⟩ := (set_ok_iff path (ConfigValue.of scalar) t.forget).mpr
      ⟨_, parsed, leaf_fits _ scalar shallow,
        .inr ⟨existing, next, later, x, rfl, found, room, creatable⟩⟩
    rw [written] at spec
    exact spec.1
  obtain ⟨t', r', upserted⟩ := (set_written m t r path _ parsed _ distinct).1 success
  have here := Tree.locate_upsert sameType _ _ _ _ upserted
  have read : Reference.getValue path t'.forget = .ok (ConfigValue.of scalar) := by
    rw [Reference.getValue, parsed, outcome_ok]
    simp only [here, coded_ok]
  have lookup := (represents_reads _ t' r').lookups path
  rw [read] at lookup
  obtain ⟨h, node, navigates⟩ := lookup
  have self := navigates []
  obtain ⟨reached, same, shows⟩ := self
  cases same
  exact ⟨success, h, node, shows.scalar⟩

theorem convertScalar_int_iff (T : IntegralType) (value : Int64) (n : Int) :
    convertScalar T (.int value) = some (.ok n) ↔ value.toInt = n ∧ T.min ≤ n ∧ n ≤ T.max := by
  obtain ⟨inside, outside⟩ := convertScalar_int T value
  by_cases inRange : T.min ≤ value.toInt ∧ value.toInt ≤ T.max
  · rw [inside inRange, Option.some.injEq, Except.ok.injEq]
    constructor
    · intro same
      rw [← same]
      exact ⟨rfl, inRange⟩
    · exact fun both => both.1
  · rw [outside inRange]
    constructor
    · intro impossible
      cases impossible
    · intro both
      rw [← both.1] at both
      exact absurd both.2 inRange

theorem min_ge (S : IntegralType) : -2 ^ 63 ≤ S.min := by
  obtain ⟨ofSigned, ofUnsigned⟩ := range_bounds S
  cases isSigned : S.isSigned with
  | true => have bounds := ofSigned isSigned; omega
  | false => have bounds := ofUnsigned isSigned; omega

/-- An integer that is stored is read back with the value it was written with. -/
theorem stored_reads (m : ConfigModel) (reached : Reachable m) (path : Bytes)
    (fresh : FreshPath m path) (v : Int) (low : -2 ^ 63 ≤ v) (high : v ≤ 2 ^ 63 - 1) :
    (m.set path (ofIntegral v)).1 = .ok () ∧ ∃ value : Int64, value.toInt = v ∧
      ∀ T : IntegralType, (m.set path (ofIntegral v)).2.getInt T path =
        convertScalar T (.int value) := by
  obtain ⟨success, h, node, scalar⟩ := scalar_written m reached path fresh
    (.int (Int64.ofInt (IntegralType.int64.cast v)))
  refine ⟨success, Int64.ofInt (IntegralType.int64.cast v), ?_, fun T => ?_⟩
  · rw [int64_cast v low (by omega)]
    exact Int64.toInt_ofInt_of_le low (by omega)
  · unfold ConfigModel.getInt ofIntegral
    rw [node]
    simp only [ConfigNode.asInt]
    cases value : h.scalarValue _ with
    | error e => simp [value, outcome] at scalar
    | ok read =>
      rw [value, outcome_ok, Except.ok.injEq] at scalar
      rw [scalar]

/-- Reading an integral type never executes a cast outside its defined range; it succeeds
exactly on the integers in the type's range, stored as an Int or as a finite Double, and
returns them; and an integer written to a fresh path is refused exactly above `2 ^ 63 - 1`,
and otherwise read back as itself where it fits and refused with `InvalidType` where not. -/
theorem integer_reads_exact :
    (∀ T scalar, convertScalar T scalar ≠ none) ∧
    (∀ (T : IntegralType) (value : Int64) (n : Int), convertScalar T (.int value) = some (.ok n) ↔
      value.toInt = n ∧ T.min ≤ n ∧ n ≤ T.max) ∧
    (∀ (T : IntegralType) (d : Double) (n : Int), d.isFinite = true →
      (convertScalar T (.double d) = some (.ok n) ↔ d.value = n ∧ T.min ≤ n ∧ n ≤ T.max)) ∧
    ∀ m path, Reachable m → FreshPath m path → ∀ (S : IntegralType) (v : Int), S.min ≤ v → v ≤ S.max →
      ((∃ e, (m.setInt S path v).1 = .error e) ↔ 2 ^ 63 - 1 < v) ∧
      (v ≤ 2 ^ 63 - 1 → ∀ T : IntegralType,
        (T.min ≤ v ∧ v ≤ T.max → (m.setInt S path v).2.getInt T path = some (.ok v)) ∧
        (¬(T.min ≤ v ∧ v ≤ T.max) →
          ∃ message, (m.setInt S path v).2.getInt T path = some (fail .invalidType message))) := by
  refine ⟨fun T scalar undefined => ?_, convertScalar_int_iff,
    fun T d n finite => (convertScalar_double T d).2 finite n, ?_⟩
  · obtain ⟨answer, defined⟩ := convertScalar_defined T scalar
    rw [undefined] at defined
    cases defined
  · intro m path reached fresh S v low high
    have violation := violation_iff S v low high
    have lowest := (min_ge S).trans low
    unfold ConfigModel.setInt
    cases checked : ofPreconditionViolation S v with
    | some message =>
      have large := violation.mp ⟨message, checked⟩
      exact ⟨⟨fun _ => large, fun _ => ⟨_, rfl⟩⟩, fun small => by omega⟩
    | none =>
      have small : v ≤ 2 ^ 63 - 1 := by
        by_contra large
        obtain ⟨message, some_⟩ := violation.mpr (by omega)
        rw [checked] at some_
        cases some_
      obtain ⟨success, value, stored, read⟩ := stored_reads m reached path fresh v lowest small
      refine ⟨⟨?_, fun large => by omega⟩, fun _ T => ?_⟩
      · intro failed
        obtain ⟨e, failed⟩ := failed
        change (m.set path (ofIntegral v)).1 = _ at failed
        rw [success] at failed
        cases failed
      · obtain ⟨inside, outside⟩ := convertScalar_int T value
        rw [stored] at inside outside
        rw [read T]
        exact ⟨inside, fun none => ⟨_, outside none⟩⟩

end ConfigManager.Guarantees
