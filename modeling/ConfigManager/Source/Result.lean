import Mathlib.Data.Nat.Digits.Lemmas

/-!
# Byte strings, decimal text and results

`std::string` is a list of bytes. `natText` is `std::to_string` on an unsigned
value and `digitsValue` what `std::from_chars` reads from decimal digits.
`Result` is `tl::expected` over the library's `Error` (result.hpp).
-/

set_option autoImplicit false

namespace ConfigManager.Source

abbrev Bytes := List UInt8

/-- A `std::uint32_t` is a `Fin (2 ^ 32)`. -/
instance uint32_values : NeZero (2 ^ 32) := ⟨by decide⟩

instance bytes_lawful : LawfulBEq Bytes := inferInstance

/-- The bytes of a source literal. -/
def bytes (literal : String) : Bytes := literal.toUTF8.data.toList

def isDigit (c : UInt8) : Bool := 48 ≤ c && c ≤ 57

def digitByte (digit : Nat) : UInt8 := UInt8.ofNat (48 + digit)

def natText (n : Nat) : Bytes :=
  if n = 0 then [48] else (Nat.digits 10 n).reverse.map digitByte

/-- `std::to_string` on an `int64_t`. -/
def intText (value : Int64) : Bytes :=
  if value.toInt < 0 then 45 :: natText value.toInt.natAbs else natText value.toInt.natAbs

def digitsValue (digits : Bytes) : Nat :=
  digits.foldl (fun value c => value * 10 + (c.toNat - 48)) 0

theorem digitByte_toNat (digit : Nat) (small : digit < 10) :
    (digitByte digit).toNat - 48 = digit := by
  have bound : 48 + digit < 2 ^ 8 := by omega
  simp only [digitByte, UInt8.toNat_ofNat', Nat.mod_eq_of_lt bound]
  omega

theorem isDigit_iff (c : UInt8) : isDigit c = true ↔ 48 ≤ c.toNat ∧ c.toNat ≤ 57 := by
  simp only [isDigit, Bool.and_eq_true, decide_eq_true_eq, UInt8.le_iff_toNat_le]
  exact Iff.rfl

theorem digitByte_isDigit (digit : Nat) (small : digit < 10) : isDigit (digitByte digit) = true := by
  have bound : 48 + digit < 2 ^ 8 := by omega
  rw [isDigit_iff, digitByte, UInt8.toNat_ofNat', Nat.mod_eq_of_lt bound]
  omega

theorem digitsValue_reverse (digits : List Nat) (small : ∀ d ∈ digits, d < 10) :
    digitsValue (digits.reverse.map digitByte) = Nat.ofDigits 10 digits := by
  induction digits with
  | nil => rfl
  | cons d rest ih =>
    have tail := ih fun d inside => small d (by simp [inside])
    simp only [digitsValue] at tail ⊢
    rw [List.reverse_cons, List.map_append, List.foldl_append, tail, Nat.ofDigits_cons]
    simp only [List.map_cons, List.map_nil, List.foldl_cons, List.foldl_nil,
      digitByte_toNat d (small d (by simp))]
    omega

/-- Reading a rendered number gives the number back. -/
@[simp] theorem digitsValue_natText (n : Nat) : digitsValue (natText n) = n := by
  unfold natText
  split
  · next zero => rw [zero]; rfl
  · rw [digitsValue_reverse _ fun d inside => Nat.digits_lt_base (by omega) inside,
      Nat.ofDigits_digits]

theorem natText_isDigit (n : Nat) : ∀ c ∈ natText n, isDigit c = true := by
  intro c inside
  unfold natText at inside
  split at inside
  · rw [List.mem_singleton] at inside
    rw [inside]
    rfl
  · obtain ⟨d, member, rfl⟩ := List.mem_map.mp inside
    exact digitByte_isDigit d (Nat.digits_lt_base (by omega) (List.mem_reverse.mp member))

theorem natText_ne_nil (n : Nat) : natText n ≠ [] := by
  unfold natText
  split
  · exact List.cons_ne_nil _ _
  · next nonzero =>
    intro empty
    have none := List.map_eq_nil_iff.mp empty
    exact nonzero (Nat.digits_eq_nil_iff_eq_zero.mp (List.reverse_eq_nil_iff.mp none))

inductive ErrorCode where
  | invalidPath
  | nodeNotFound
  | invalidType
  | parseError
  | serializationError
  | migrationFailed
  | missingMigration
  | invalidVersion
  | storageError
  deriving DecidableEq, Repr

structure Error where
  code : ErrorCode
  message : Bytes
  deriving DecidableEq, Repr

abbrev Result (α : Type) := Except Error α

def fail {α : Type} (code : ErrorCode) (message : Bytes) : Result α := .error ⟨code, message⟩

/-- What a caller that ignores the message can tell from a result. -/
def outcome {α : Type} : Result α → Except ErrorCode α
  | .ok value => .ok value
  | .error e => .error e.code

@[simp] theorem outcome_ok {α : Type} (value : α) : outcome (.ok value : Result α) = .ok value := rfl

@[simp] theorem outcome_fail {α : Type} (code : ErrorCode) (message : Bytes) :
    outcome (fail code message : Result α) = .error code := rfl

end ConfigManager.Source
