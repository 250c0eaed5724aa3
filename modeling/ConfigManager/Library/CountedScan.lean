import Mathlib.Data.List.Basic

/-!
# The first offence in a list read from the front

A list is read element by element while some of its elements are counted. Whether
an element offends may depend on how many were counted before it. The scan stops
at the first offence; `FirstOffence` says the same without a loop.
-/

set_option autoImplicit false

namespace ConfigManager.Library

universe u

section Scan
variable {α : Type u} (offends : Nat → α → Prop) [∀ n a, Decidable (offends n a)]
variable (counts : α → Bool)

/-- The count after the list, or the element that offends. -/
def countedScan : List α → Nat → Except α Nat
  | [], n => .ok n
  | a :: rest, n =>
      if offends n a then .error a else countedScan rest (n + (if counts a then 1 else 0))

/-- Something offends here, and nothing before it. -/
def FirstOffence (l : List α) (n : Nat) (a : α) : Prop :=
  ∃ before after, l = before ++ a :: after ∧ offends (n + before.countP counts) a ∧
    ∀ b c d, before = b ++ c :: d → ¬ offends (n + b.countP counts) c

/-- No element offends at its place. -/
def Inoffensive (l : List α) (n : Nat) : Prop :=
  ∀ b c d, l = b ++ c :: d → ¬ offends (n + b.countP counts) c

theorem countedScan_cons_ok (a : α) (rest : List α) (n : Nat) (fine : ¬ offends n a) :
    countedScan offends counts (a :: rest) n =
      countedScan offends counts rest (n + (if counts a then 1 else 0)) := by
  rw [countedScan, if_neg fine]

theorem countedScan_append (l l' : List α) (n : Nat) :
    countedScan offends counts (l ++ l') n =
      match countedScan offends counts l n with
      | .error a => .error a
      | .ok m => countedScan offends counts l' m := by
  induction l generalizing n with
  | nil => rfl
  | cons a rest ih =>
    rw [List.cons_append, countedScan, countedScan]
    by_cases bad : offends n a
    · rw [if_pos bad, if_pos bad]
    · rw [if_neg bad, if_neg bad]
      exact ih _

omit [∀ n a, Decidable (offends n a)] in
/-- The places of a list are its head and the places of its tail. -/
theorem inoffensive_cons (a : α) (rest : List α) (n : Nat) :
    Inoffensive offends counts (a :: rest) n ↔
      ¬ offends n a ∧ Inoffensive offends counts rest (n + (if counts a then 1 else 0)) := by
  constructor
  · intro fine
    constructor
    · exact fine [] a rest rfl
    · intro b c d same
      have later := fine (a :: b) c d (by rw [same, List.cons_append])
      rw [List.countP_cons, Nat.add_comm (b.countP counts), ← Nat.add_assoc] at later
      exact later
  · intro fine b c d same
    cases b with
    | nil =>
      cases same
      exact fine.1
    | cons head b =>
      cases same
      rw [List.countP_cons, Nat.add_comm (b.countP counts), ← Nat.add_assoc]
      exact fine.2 b c d rfl

omit [∀ n a, Decidable (offends n a)] in
theorem inoffensive_nil (n : Nat) : Inoffensive offends counts [] n := by
  intro b c d same
  simp at same

omit [∀ n a, Decidable (offends n a)] in
theorem inoffensive_append (l l' : List α) (n : Nat) :
    Inoffensive offends counts (l ++ l') n ↔
      Inoffensive offends counts l n ∧ Inoffensive offends counts l' (n + l.countP counts) := by
  induction l generalizing n with
  | nil => simp [inoffensive_nil]
  | cons a rest ih =>
    rw [List.cons_append, inoffensive_cons, inoffensive_cons, ih, List.countP_cons,
      Nat.add_comm (rest.countP counts), ← Nat.add_assoc, and_assoc]

omit [∀ n a, Decidable (offends n a)] in
theorem inoffensive_of_forall (l : List α) (n : Nat) (fine : ∀ a ∈ l, ∀ m, ¬ offends m a) :
    Inoffensive offends counts l n := by
  intro b c d same
  exact fine c (by simp [same]) _

theorem countedScan_ok_iff (l : List α) (n m : Nat) :
    countedScan offends counts l n = .ok m ↔
      Inoffensive offends counts l n ∧ m = n + l.countP counts := by
  induction l generalizing n with
  | nil =>
    simp only [countedScan, Except.ok.injEq, inoffensive_nil, List.countP_nil, Nat.add_zero,
      true_and]
    exact eq_comm
  | cons a rest ih =>
    rw [countedScan, inoffensive_cons, List.countP_cons]
    by_cases bad : offends n a
    · simp [bad]
    · rw [if_neg bad, ih, Nat.add_comm (rest.countP counts), ← Nat.add_assoc]
      simp only [bad, not_false_eq_true, true_and]

/-- The scan stops at the first offence. -/
theorem countedScan_error_iff (l : List α) (n : Nat) (a : α) :
    countedScan offends counts l n = .error a ↔ FirstOffence offends counts l n a := by
  induction l generalizing n with
  | nil =>
    simp only [countedScan, reduceCtorEq, false_iff]
    intro first
    obtain ⟨before, after, same, _⟩ := first
    simp at same
  | cons head rest ih =>
    rw [countedScan]
    by_cases bad : offends n head
    · rw [if_pos bad]
      constructor
      · intro same
        cases same
        exact ⟨[], rest, rfl, bad, fun b c d nothing => by simp at nothing⟩
      · intro first
        obtain ⟨before, after, same, _, quiet⟩ := first
        cases before with
        | nil =>
          cases same
          rfl
        | cons c before =>
          cases same
          exact absurd bad (quiet [] head before rfl)
    · rw [if_neg bad, ih]
      constructor
      · intro first
        obtain ⟨before, after, rfl, offence, quiet⟩ := first
        refine ⟨head :: before, after, rfl, ?_, ?_⟩
        · rw [List.countP_cons, Nat.add_comm (before.countP counts), ← Nat.add_assoc]
          exact offence
        · exact (inoffensive_cons offends counts head before n).mpr ⟨bad, quiet⟩
      · intro first
        obtain ⟨before, after, same, offence, quiet⟩ := first
        cases before with
        | nil =>
          cases same
          exact absurd offence bad
        | cons c before =>
          cases same
          refine ⟨before, after, rfl, ?_, ?_⟩
          · rw [List.countP_cons, Nat.add_comm (before.countP counts), ← Nat.add_assoc] at offence
            exact offence
          · exact ((inoffensive_cons offends counts head before n).mp quiet).2

end Scan
end ConfigManager.Library
