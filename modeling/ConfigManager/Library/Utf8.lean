import Mathlib.Data.List.Induction
import Mathlib.Tactic.IntervalCases
import Mathlib.Tactic.Ring

/-!
# UTF-8

A form is a lead byte with up to three tails. The lead announces how many tails
follow and carries the first bits of the value, each tail carries six more. A
value below 0x200000 has one form of each sufficient length, and the shortest
one is its encoding.
-/

set_option autoImplicit false

namespace ConfigManager.Library

/-- A Unicode scalar value: a code point that is no surrogate. -/
def IsScalar (c : Nat) : Prop := c < 0xD800 ∨ (0xDFFF < c ∧ c ≤ 0x10FFFF)

def IsTail (b : UInt8) : Prop := 0x80 ≤ b.toNat ∧ b.toNat < 0xC0

/-- The least lead byte that announces so many tails. -/
def leadBase : Nat → Nat
  | 0 => 0
  | 1 => 0xC0
  | 2 => 0xE0
  | _ => 0xF0

/-- How many lead bytes announce so many tails. -/
def leadSpan : Nat → Nat
  | 0 => 0x80
  | 1 => 0x20
  | 2 => 0x10
  | _ => 0x08

/-- The value of the bits read so far, followed by six bits of every tail. -/
def tailValue (v : Nat) (tails : List UInt8) : Nat :=
  tails.foldl (fun value b => value * 64 + (b.toNat - 0x80)) v

/-- The bytes carry the value, in as many bytes as they like. -/
structure Utf8Form (c : Nat) (lead : UInt8) (tails : List UInt8) : Prop where
  count : tails.length ≤ 3
  tailed : ∀ b ∈ tails, IsTail b
  low : leadBase tails.length ≤ lead.toNat
  high : lead.toNat < leadBase tails.length + leadSpan tails.length
  value : tailValue (lead.toNat - leadBase tails.length) tails = c

/-- The bytes are the shortest form of the value. -/
def IsShortest (c : Nat) (bytes : List UInt8) : Prop :=
  ∃ lead tails, bytes = lead :: tails ∧ Utf8Form c lead tails ∧
    ∀ lead' tails', Utf8Form c lead' tails' → tails.length ≤ tails'.length

def encodeUtf8 (c : Nat) : List UInt8 :=
  if c < 0x80 then [UInt8.ofNat c]
  else if c < 0x800 then [UInt8.ofNat (0xC0 + c / 64), UInt8.ofNat (0x80 + c % 64)]
  else if c < 0x10000 then
    [UInt8.ofNat (0xE0 + c / 4096), UInt8.ofNat (0x80 + c / 64 % 64), UInt8.ofNat (0x80 + c % 64)]
  else
    [UInt8.ofNat (0xF0 + c / 262144), UInt8.ofNat (0x80 + c / 4096 % 64),
      UInt8.ofNat (0x80 + c / 64 % 64), UInt8.ofNat (0x80 + c % 64)]

/-! ## The values of the forms of one length -/

/-- The values that fit so many tails lie below this. -/
def formLimit (tails : Nat) : Nat := leadSpan tails * 64 ^ tails

theorem tailValue_cons (v : Nat) (b : UInt8) (tails : List UInt8) :
    tailValue v (b :: tails) = tailValue (v * 64 + (b.toNat - 0x80)) tails := by
  rw [tailValue, List.foldl_cons, tailValue]

theorem tailValue_append (v : Nat) (tails : List UInt8) (b : UInt8) :
    tailValue v (tails ++ [b]) = tailValue v tails * 64 + (b.toNat - 0x80) := by
  simp [tailValue]

theorem tailValue_lt (v limit : Nat) (tails : List UInt8) (below : v < limit)
    (all : ∀ b ∈ tails, IsTail b) : tailValue v tails < limit * 64 ^ tails.length := by
  induction tails generalizing v limit with
  | nil => simpa [tailValue] using below
  | cons b tails ih =>
    have bound : v * 64 + (b.toNat - 0x80) < limit * 64 := by
      have tail := (all b (by simp)).2
      omega
    have later := ih _ _ bound fun b inside => all b (List.mem_cons_of_mem _ inside)
    rw [tailValue_cons, List.length_cons, pow_succ, mul_comm (64 ^ tails.length), ← mul_assoc]
    exact later

theorem Utf8Form.lt_limit {c : Nat} {lead : UInt8} {tails : List UInt8}
    (form : Utf8Form c lead tails) : c < formLimit tails.length := by
  have payload : lead.toNat - leadBase tails.length < leadSpan tails.length := by
    have low := form.low
    have high := form.high
    omega
  rw [← form.value]
  exact tailValue_lt _ _ _ payload form.tailed

/-- Equally many tails with the same value are the same, and so is what precedes them. -/
theorem tailValue_inj (v v' : Nat) (tails tails' : List UInt8)
    (all : ∀ b ∈ tails, IsTail b) (all' : ∀ b ∈ tails', IsTail b)
    (length : tails.length = tails'.length) (same : tailValue v tails = tailValue v' tails') :
    v = v' ∧ tails = tails' := by
  induction tails using List.reverseRecOn generalizing tails' with
  | nil =>
    have none : tails' = [] := List.length_eq_zero_iff.mp length.symm
    subst none
    exact ⟨same, rfl⟩
  | append_singleton tails b ih =>
    rcases List.eq_nil_or_concat tails' with rfl | ⟨tails', b', rfl⟩
    · simp at length
    · rw [List.concat_eq_append] at all' length same ⊢
      rw [tailValue_append, tailValue_append] at same
      have tail := all b (by simp)
      have tail' := all' b' (by simp)
      unfold IsTail at tail tail'
      have heads : tailValue v tails = tailValue v' tails' := by omega
      have lasts : b.toNat = b'.toNat := by omega
      obtain ⟨first, more⟩ := ih tails' (fun b inside => all b (by simp [inside]))
        (fun b inside => all' b (by simp [inside])) (by simpa using length) heads
      exact ⟨first, by rw [more, UInt8.toNat_inj.mp lasts]⟩

theorem Utf8Form.unique {c : Nat} {lead lead' : UInt8} {tails tails' : List UInt8}
    (form : Utf8Form c lead tails) (form' : Utf8Form c lead' tails')
    (length : tails.length = tails'.length) : lead = lead' ∧ tails = tails' := by
  have values := form.value.trans form'.value.symm
  obtain ⟨payload, same⟩ := tailValue_inj _ _ _ _ form.tailed form'.tailed length values
  have low := form.low
  have low' := form'.low
  rw [length] at payload low
  exact ⟨UInt8.toNat_inj.mp (by omega), same⟩

/-! ## The encoding is the shortest form -/

theorem tail_isTail (n : Nat) : IsTail (UInt8.ofNat (0x80 + n % 64)) := by
  unfold IsTail
  rw [UInt8.toNat_ofNat']
  omega

theorem encode_form (c : Nat) (small : c < 0x200000) :
    ∃ lead tails, encodeUtf8 c = lead :: tails ∧ Utf8Form c lead tails ∧
      ∀ fewer, fewer < tails.length → formLimit fewer ≤ c := by
  unfold encodeUtf8
  split
  · next one =>
    refine ⟨_, [], rfl, ⟨by simp, by simp, ?_, ?_, ?_⟩, by simp⟩ <;>
      simp only [leadBase, leadSpan, tailValue, List.length_nil, List.foldl_nil,
        UInt8.toNat_ofNat'] <;> omega
  · split
    · refine ⟨_, _, rfl, ⟨by simp, ?_, ?_, ?_, ?_⟩, ?_⟩
      · rw [List.forall_mem_singleton]
        exact tail_isTail c
      · simp only [leadBase, List.length_cons, List.length_nil, UInt8.toNat_ofNat']
        omega
      · simp only [leadBase, leadSpan, List.length_cons, List.length_nil, UInt8.toNat_ofNat']
        omega
      · simp only [leadBase, tailValue, List.length_cons, List.length_nil, List.foldl_cons,
          List.foldl_nil, UInt8.toNat_ofNat']
        omega
      · intro fewer shorter
        simp only [List.length_cons, List.length_nil] at shorter
        interval_cases fewer
        simp only [formLimit, leadSpan]
        omega
    · split
      · refine ⟨_, _, rfl, ⟨by simp, ?_, ?_, ?_, ?_⟩, ?_⟩
        · rw [List.forall_mem_cons, List.forall_mem_singleton]
          exact ⟨tail_isTail (c / 64), tail_isTail c⟩
        · simp only [leadBase, List.length_cons, List.length_nil, UInt8.toNat_ofNat']
          omega
        · simp only [leadBase, leadSpan, List.length_cons, List.length_nil, UInt8.toNat_ofNat']
          omega
        · simp only [leadBase, tailValue, List.length_cons, List.length_nil, List.foldl_cons,
            List.foldl_nil, UInt8.toNat_ofNat']
          omega
        · intro fewer shorter
          simp only [List.length_cons, List.length_nil] at shorter
          interval_cases fewer <;> simp only [formLimit, leadSpan] <;> omega
      · refine ⟨_, _, rfl, ⟨by simp, ?_, ?_, ?_, ?_⟩, ?_⟩
        · rw [List.forall_mem_cons, List.forall_mem_cons, List.forall_mem_singleton]
          exact ⟨tail_isTail (c / 4096), tail_isTail (c / 64), tail_isTail c⟩
        · simp only [leadBase, List.length_cons, List.length_nil, UInt8.toNat_ofNat']
          omega
        · simp only [leadBase, leadSpan, List.length_cons, List.length_nil, UInt8.toNat_ofNat']
          omega
        · simp only [leadBase, tailValue, List.length_cons, List.length_nil, List.foldl_cons,
            List.foldl_nil, UInt8.toNat_ofNat']
          omega
        · intro fewer shorter
          simp only [List.length_cons, List.length_nil] at shorter
          interval_cases fewer <;> simp only [formLimit, leadSpan] <;> omega

/-- A form with no more tails than the value needs is the encoding. -/
theorem Utf8Form.encode_eq {c : Nat} {lead : UInt8} {tails : List UInt8}
    (form : Utf8Form c lead tails) (small : c < 0x200000)
    (fewest : ∀ fewer, fewer < tails.length → formLimit fewer ≤ c) :
    encodeUtf8 c = lead :: tails := by
  obtain ⟨lead', tails', encoded, form', fewest'⟩ := encode_form c small
  have length : tails'.length = tails.length := by
    apply Nat.le_antisymm
    · by_contra shorter
      exact absurd form.lt_limit (Nat.not_lt.mpr (fewest' _ (Nat.lt_of_not_le shorter)))
    · by_contra shorter
      exact absurd form'.lt_limit (Nat.not_lt.mpr (fewest _ (Nat.lt_of_not_le shorter)))
  obtain ⟨leads, same⟩ := form'.unique form length
  rw [encoded, leads, same]

/-- The shortest form of a value is its encoding. -/
theorem isShortest_iff (c : Nat) (small : c < 0x200000) (bytes : List UInt8) :
    IsShortest c bytes ↔ bytes = encodeUtf8 c := by
  obtain ⟨lead, tails, encoded, form, fewest⟩ := encode_form c small
  have shortest : ∀ lead' tails', Utf8Form c lead' tails' → tails.length ≤ tails'.length := by
    intro lead' tails' form'
    by_contra shorter
    exact absurd form'.lt_limit (Nat.not_lt.mpr (fewest _ (Nat.lt_of_not_le shorter)))
  rw [encoded]
  constructor
  · rintro ⟨lead', tails', rfl, form', least⟩
    have length : tails'.length = tails.length :=
      Nat.le_antisymm (least _ _ form) (shortest _ _ form')
    obtain ⟨leads, same⟩ := form'.unique form length
    rw [leads, same]
  · rintro rfl
    exact ⟨lead, tails, rfl, form, shortest⟩

theorem IsShortest.unique {c : Nat} {bytes bytes' : List UInt8} (shortest : IsShortest c bytes)
    (shortest' : IsShortest c bytes') : bytes = bytes' := by
  obtain ⟨lead, tails, rfl, form, least⟩ := shortest
  obtain ⟨lead', tails', rfl, form', least'⟩ := shortest'
  obtain ⟨leads, same⟩ :=
    form.unique form' (Nat.le_antisymm (least _ _ form') (least' _ _ form))
  rw [leads, same]

/-- What an encoding consumes: one to four bytes. -/
theorem encodeUtf8_length (c : Nat) : 0 < (encodeUtf8 c).length := by
  unfold encodeUtf8
  split
  · simp
  · split
    · simp
    · split <;> simp

theorem IsScalar.small {c : Nat} (scalar : IsScalar c) : c < 0x200000 := by
  unfold IsScalar at scalar
  omega

end ConfigManager.Library
