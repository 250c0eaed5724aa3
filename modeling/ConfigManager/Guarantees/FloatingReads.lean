import ConfigManager.Guarantees.IntegerReads
import ConfigManager.Refinement.FloatingConversions

/-!
# Floating-point reads

A read in a floating-point type gives the number that is stored, sign and all,
or refuses. So a value comes back from any type that has it.
-/

set_option autoImplicit false

namespace ConfigManager.Guarantees
open Library Source Reference Refinement

/-- A floating-point value that is set on a fresh path is found there as a double. -/
theorem floating_written (m : ConfigModel) (reached : Reachable m) (path : Bytes)
    (fresh : FreshPath m path) (S : FloatFormat) (within : S.Within binary64) (x : FloatNumber S) :
    ∃ m' value, m.setFloating path x = some (.ok (), m') ∧ value.number.Same x ∧
      ∀ F : FloatFormat, m'.getFloating F path = convertFloating F (.double value) := by
  obtain ⟨wide, converts, same⟩ := FloatNumber.widened within x
  obtain ⟨success, h, node, scalar⟩ :=
    scalar_written m reached path fresh (.double (Double.ofNumber wide))
  refine ⟨(m.set path (ConfigValue.of (.double (Double.ofNumber wide)))).2, Double.ofNumber wide, ?_,
    by rwa [number_ofNumber], fun F => ?_⟩
  · rw [ConfigModel.setFloating, ofFloating, converts, Option.map_some, Option.map_some]
    exact congrArg some (Prod.ext success rfl)
  · unfold ConfigModel.getFloating
    rw [node]
    simp only [ConfigNode.asFloating]
    cases value : h.scalarValue _ with
    | error e => simp [value, outcome] at scalar
    | ok read =>
      rw [value, outcome_ok, Except.ok.injEq] at scalar
      rw [scalar]

/-- In a type as wide as `float`, and nested with `double`, no read executes an undefined cast. A
double and an integer are read as the number that they are, and refused exactly where the type does
not have it; what is set on a fresh path from a type within `double` is read so as well. -/
theorem floating_reads_exact (F : FloatFormat) (wide : 64 ≤ F.top) (nests : Nests F) :
    (∀ scalar, convertFloating F scalar ≠ none) ∧
    (∀ d, (∀ v, convertFloating F (.double d) = some (.ok v) ↔ v.Same d.number) ∧
      ((∃ v, convertFloating F (.double d) = some (.ok v)) ↔
        (d.isFinite = true → F.Holds d.magnitude))) ∧
    (∀ n : Int64, (∀ v, convertFloating F (.int n) = some (.ok v) ↔
        ∃ holds, v = .finite (decide (n.toInt < 0)) n.toInt.natAbs holds) ∧
      ((∃ v, convertFloating F (.int n) = some (.ok v)) ↔ F.Holds n.toInt.natAbs)) ∧
    ∀ m path, Reachable m → FreshPath m path → ∀ S : FloatFormat, S.Within binary64 →
      ∀ x : FloatNumber S, ∃ m', m.setFloating path x = some (.ok (), m') ∧
        m'.getFloating F path ≠ none ∧
        ∀ v, m'.getFloating F path = some (.ok v) ↔ v.Same x := by
  have defined : ∀ scalar, convertFloating F scalar ≠ none := by
    intro scalar undefined
    obtain ⟨answer, answers⟩ := convertFloating_defined F wide nests scalar
    rw [undefined] at answers
    cases answers
  refine ⟨defined, fun d => ?_, fun n => ?_, ?_⟩
  · have reads := (convertFloating_double F nests d).2
    refine ⟨reads, ?_⟩
    rw [exists_congr reads, FloatNumber.same_exists]
    constructor
    · intro all finite
      exact all _ _ _ (number_finite d finite)
    · intro holds negative magnitude inside number
      by_cases finite : d.isFinite = true
      · rw [number_finite d finite, FloatNumber.finite.injEq] at number
        obtain ⟨_, rfl⟩ := number
        exact holds finite
      · by_cases nan : d.isNaN = true
        · rw [number_nan d nan] at number
          cases number
        · rw [number_infinite d (by simpa using finite) nan] at number
          cases number
  · have reads := (convertFloating_int F wide n).2
    refine ⟨reads, ?_⟩
    rw [exists_congr reads]
    constructor
    · intro read
      obtain ⟨_, holds, _⟩ := read
      exact holds
    · intro holds
      exact ⟨_, holds, rfl⟩
  · intro m path reached fresh S within x
    obtain ⟨m', value, written, stored, read⟩ := floating_written m reached path fresh S within x
    refine ⟨m', written, ?_, fun v => ?_⟩
    · rw [read F]
      exact defined _
    · rw [read F, (convertFloating_double F nests value).2 v]
      exact ⟨fun same => same.trans stored, fun same => same.trans stored.symm⟩

theorem half_holds : binary32.Holds (1 / 2) :=
  ⟨by decide +kernel, 1, -1, by decide, by decide, by decide +kernel⟩

/-- A `float` of one half comes back as it was set; one above 2 to the 24 is not a `float`. -/
theorem float_reads :
    (∃ m', ConfigModel.empty.setFloating (bytes "a") (.finite false (1 / 2) half_holds) =
        some (.ok (), m') ∧
      m'.getFloating binary32 (bytes "a") = some (.ok (.finite false (1 / 2) half_holds))) ∧
      ¬ ∃ v, convertFloating binary32 (.int (Int64.ofInt (2 ^ 24 + 1))) = some (.ok v) := by
  obtain ⟨_, _, ints, sets⟩ := floating_reads_exact binary32 (by decide)
    (.inl ⟨by decide, by decide, by decide⟩)
  constructor
  · obtain ⟨m', written, _, reads⟩ := sets ConfigModel.empty (bytes "a") .empty
      ⟨[], .key (bytes "a"), [], _, rfl, by decide, rfl, by decide, by simp [Tree.Creatable]⟩ binary32
      ⟨by decide, by decide, by decide⟩ (.finite false (1 / 2) half_holds)
    exact ⟨m', written, (reads _).mpr (FloatNumber.same_refl _)⟩
  · rw [(ints _).2]
    intro above
    have rounded := FloatFormat.nearest_of_holds above
    revert rounded
    decide +kernel

end ConfigManager.Guarantees
