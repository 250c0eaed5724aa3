import Mathlib.Data.List.GetD
import ConfigManager.Reference.XmlCharacters
import ConfigManager.Source.XmlText

/-!
# Decoding is the inverse of encoding

`decodeUtf8` works with masks and minimum values. Read as numbers, its lead byte and
its continuation bytes are a form of the decoded value, its minimum value says that the
form is the shortest one, and the remaining checks say that the value is a scalar.
-/

set_option autoImplicit false

namespace ConfigManager.Refinement
open Library Source Reference

/-! ## Masks as ranges -/

theorem byte_all (P : UInt8 → Prop) (all : ∀ n : Fin 256, P (UInt8.ofNat n.val)) (b : UInt8) : P b := by
  have same : UInt8.ofNat b.toNat = b := UInt8.ofNat_toNat
  rw [← same]
  exact all ⟨b.toNat, b.toNat_lt⟩

theorem leadByte_eq (lead : UInt8) :
    leadByte lead =
      if 0xC0 ≤ lead.toNat ∧ lead.toNat < 0xE0 then some (2, UInt32.ofNat (lead.toNat - 0xC0))
      else if 0xE0 ≤ lead.toNat ∧ lead.toNat < 0xF0 then some (3, UInt32.ofNat (lead.toNat - 0xE0))
      else if 0xF0 ≤ lead.toNat ∧ lead.toNat < 0xF8 then some (4, UInt32.ofNat (lead.toNat - 0xF0))
      else none := by
  revert lead
  apply byte_all
  decide +kernel

theorem isTail_iff (b : UInt8) : b &&& 0xC0 = 0x80 ↔ IsTail b := by
  unfold IsTail
  revert b
  apply byte_all
  decide +kernel

theorem tail_bits (b : UInt8) (tail : IsTail b) : (b &&& 0x3F).toNat = b.toNat - 0x80 := by
  unfold IsTail at tail
  revert b
  apply byte_all
  decide +kernel

/-- A lead byte announces so many tails exactly when it lies in their range. -/
theorem leadByte_iff (lead : UInt8) (tails : Nat) (some_ : 1 ≤ tails) (few : tails ≤ 3)
    (payload : UInt32) :
    leadByte lead = some (tails + 1, payload) ↔
      leadBase tails ≤ lead.toNat ∧ lead.toNat < leadBase tails + leadSpan tails ∧
        payload.toNat = lead.toNat - leadBase tails := by
  have payloads : ∀ base, UInt32.ofNat (lead.toNat - base) = payload ↔
      payload.toNat = lead.toNat - base := by
    intro base
    have bound := lead.toNat_lt
    rw [eq_comm, ← UInt32.toNat_inj, UInt32.toNat_ofNat', Nat.mod_eq_of_lt (by omega)]
  rw [leadByte_eq]
  interval_cases tails <;> simp only [leadBase, leadSpan] <;> grind

theorem leadByte_tails (lead : UInt8) (length : Nat) (payload : UInt32)
    (announced : leadByte lead = some (length, payload)) :
    ∃ tails, 1 ≤ tails ∧ tails ≤ 3 ∧ length = tails + 1 := by
  unfold leadByte at announced
  refine ⟨length - 1, ?_⟩
  split at announced
  · cases announced; decide
  · split at announced
    · cases announced; decide
    · split at announced
      · cases announced; decide
      · cases announced

/-! ## Continuation bytes -/

theorem shift_or (value : UInt32) (bits : UInt8) (room : value.toNat < 2 ^ 26)
    (small : bits.toNat < 64) :
    ((value <<< 6) ||| bits.toUInt32).toNat = value.toNat * 64 + bits.toNat := by
  have shifted : value.toNat <<< 6 < 2 ^ 32 := by
    rw [Nat.shiftLeft_eq]
    omega
  rw [UInt32.toNat_or, UInt32.toNat_shiftLeft, UInt8.toNat_toUInt32]
  change value.toNat <<< 6 % 2 ^ 32 ||| bits.toNat = _
  rw [Nat.mod_eq_of_lt shifted, ← Nat.shiftLeft_add_eq_or_of_lt small, Nat.shiftLeft_eq]

theorem continuation_iff (conts : Bytes) (value result : UInt32) (limit : Nat)
    (below : value.toNat < limit) (room : limit * 64 ^ conts.length ≤ 2 ^ 32) :
    continuation conts value = some result ↔
      (∀ b ∈ conts, IsTail b) ∧ result.toNat = tailValue value.toNat conts := by
  induction conts generalizing value limit with
  | nil =>
    simp only [continuation, Option.some.injEq, List.not_mem_nil, false_implies, implies_true,
      true_and, tailValue, List.foldl_nil]
    rw [eq_comm, ← UInt32.toNat_inj]
  | cons b conts ih =>
    rw [continuation, List.forall_mem_cons, tailValue_cons]
    by_cases tail : IsTail b
    · have bits := tail_bits b tail
      have low : (b &&& 0x3F).toNat < 64 := by
        rw [bits]
        unfold IsTail at tail
        omega
      rw [List.length_cons, pow_succ, mul_comm (64 ^ conts.length), ← mul_assoc] at room
      have whole : limit * 64 ≤ 2 ^ 32 :=
        le_trans (Nat.le_mul_of_pos_right _ (Nat.pow_pos (by omega))) room
      have next : ((value <<< 6) ||| (b &&& 0x3F).toUInt32).toNat =
          value.toNat * 64 + (b.toNat - 0x80) := by
        rw [shift_or value _ (by omega) low, bits]
      rw [if_neg (not_not.mpr ((isTail_iff b).mpr tail)),
        ih _ (limit * 64) (by rw [next]; unfold IsTail at tail; omega) room, next]
      simp only [tail, true_and]
    · rw [if_pos fun masked => tail ((isTail_iff b).mp masked)]
      simp [tail]

/-! ## One code point -/

theorem kMinForLength_eq (tails : Nat) (some_ : 1 ≤ tails) (few : tails ≤ 3) :
    (kMinForLength (tails + 1)).toNat = formLimit (tails - 1) := by
  interval_cases tails <;> rfl

/-- Values of fewer tails fit in any greater number of them. -/
theorem formLimit_mono (fewer tails : Nat) (le : fewer ≤ tails) (few : tails ≤ 3) :
    formLimit fewer ≤ formLimit tails := by
  interval_cases tails <;> interval_cases fewer <;> decide

theorem isScalar_iff (c : UInt32) (small : c.toNat < 0x200000) :
    IsScalar c.toNat ↔ ¬(0xD800 ≤ c ∧ c ≤ 0xDFFF) ∧ ¬0x10FFFF < c := by
  have first : (0xD800 : UInt32).toNat = 0xD800 := rfl
  have last : (0xDFFF : UInt32).toNat = 0xDFFF := rfl
  have top : (0x10FFFF : UInt32).toNat = 0x10FFFF := rfl
  rw [UInt32.le_iff_toNat_le, UInt32.le_iff_toNat_le, UInt32.lt_iff_toNat_lt, first, last, top]
  unfold IsScalar
  omega

/-- The byte at a position inside the text and what follows it. -/
theorem suffix_at (text : Bytes) (i : Nat) (inside : i < text.length) :
    text.drop i = text.getD i 0 :: text.drop (i + 1) ∧
      text.length = i + 1 + (text.drop (i + 1)).length := by
  rw [List.getD_eq_getElem text 0 inside, List.length_drop]
  exact ⟨(List.getElem_cons_drop inside).symm, by omega⟩

theorem ascii_iff (lead : UInt8) : lead < 0x80 ↔ lead.toNat < 0x80 := UInt8.lt_iff_toNat_lt

/-- What is decoded is the encoding of a scalar value. -/
theorem decodeUtf8_decoded (text : Bytes) (i next : Nat) (inside : i < text.length) (c : UInt32)
    (decoded : decodeUtf8 text i = some (c, next)) :
    IsScalar c.toNat ∧ next = i + (encodeUtf8 c.toNat).length ∧
      ∃ rest, text.drop i = encodeUtf8 c.toNat ++ rest := by
  obtain ⟨suffix, lengths⟩ := suffix_at text i inside
  unfold decodeUtf8 at decoded
  rw [suffix]
  generalize text.getD i 0 = lead at *
  generalize text.drop (i + 1) = rest at *
  simp only at decoded
  split at decoded
  · next low =>
    simp only [Option.some.injEq, Prod.mk.injEq] at decoded
    obtain ⟨rfl, rfl⟩ := decoded
    rw [ascii_iff] at low
    have form : Utf8Form lead.toUInt32.toNat lead [] :=
      ⟨by simp, by simp, by simp [leadBase], by simpa [leadBase, leadSpan] using low,
        by simp [leadBase, tailValue]⟩
    rw [form.encode_eq (by rw [UInt8.toNat_toUInt32]; omega) (by simp)]
    exact ⟨.inl (by rw [UInt8.toNat_toUInt32]; omega), rfl, rest, rfl⟩
  · split at decoded
    · cases decoded
    · next length payload announced =>
      obtain ⟨tails, some_, few, rfl⟩ := leadByte_tails lead length payload announced
      obtain ⟨least, most, bits⟩ := (leadByte_iff lead tails some_ few payload).mp announced
      rw [Nat.add_sub_cancel] at decoded
      split at decoded
      · cases decoded
      · next whole =>
        have taken : (rest.take tails).length = tails := by
          rw [List.length_take]
          omega
        split at decoded
        · cases decoded
        · next value continued =>
          have room : leadSpan tails * 64 ^ (rest.take tails).length ≤ 2 ^ 32 := by
            rw [taken]
            interval_cases tails <;> decide
          obtain ⟨tailed, valued⟩ := (continuation_iff _ payload value (leadSpan tails)
            (by rw [bits]; omega) room).mp continued
          have form : Utf8Form value.toNat lead (rest.take tails) :=
            ⟨by rw [taken]; exact few, tailed, by rw [taken]; exact least,
              by rw [taken]; exact most, by rw [valued, bits, taken]⟩
          have small : value.toNat < 0x200000 :=
            lt_of_lt_of_le form.lt_limit (formLimit_mono _ 3 form.count (Nat.le_refl 3))
          split at decoded
          · cases decoded
          · next enough =>
            split at decoded
            · cases decoded
            · next surrogate =>
              split at decoded
              · cases decoded
              · next top =>
                simp only [Option.some.injEq, Prod.mk.injEq] at decoded
                obtain ⟨rfl, rfl⟩ := decoded
                rw [UInt32.lt_iff_toNat_lt, kMinForLength_eq tails some_ few] at enough
                have encoded := form.encode_eq small (by
                  intro fewer shorter
                  rw [taken] at shorter
                  have mono := formLimit_mono fewer (tails - 1) (by omega) (by omega)
                  omega)
                rw [encoded]
                refine ⟨(isScalar_iff value small).mpr ⟨surrogate, top⟩, ?_, rest.drop tails, ?_⟩
                · rw [List.length_cons, taken]
                · rw [List.cons_append, List.take_append_drop]

/-- The encoding of a scalar value is decoded. -/
theorem decodeUtf8_encoded (text : Bytes) (i : Nat) (inside : i < text.length) (c : UInt32)
    (scalar : IsScalar c.toNat) (after : Bytes)
    (shape : text.drop i = encodeUtf8 c.toNat ++ after) :
    decodeUtf8 text i = some (c, i + (encodeUtf8 c.toNat).length) := by
  obtain ⟨suffix, lengths⟩ := suffix_at text i inside
  obtain ⟨lead', tails, encoded, form, fewest⟩ := encode_form c.toNat scalar.small
  rw [suffix, encoded, List.cons_append, List.cons.injEq] at shape
  obtain ⟨first, rest⟩ := shape
  subst first
  unfold decodeUtf8
  rw [encoded]
  generalize text.getD i 0 = lead at *
  rw [rest] at lengths ⊢
  have few := form.count
  have least := form.low
  have most := form.high
  simp only
  by_cases alone : tails.length = 0
  · have none : tails = [] := List.length_eq_zero_iff.mp alone
    subst none
    have low : lead < 0x80 := by
      rw [ascii_iff]
      simpa [leadBase, leadSpan] using most
    have value : lead.toNat = c.toNat := by simpa [leadBase, tailValue] using form.value
    have same : lead.toUInt32 = c := by rw [← UInt32.toNat_inj, UInt8.toNat_toUInt32, value]
    rw [if_pos low, same]
    rfl
  · have some_ : 1 ≤ tails.length := Nat.pos_of_ne_zero alone
    have high : ¬lead < 0x80 := by
      rw [ascii_iff]
      have base : 0x80 ≤ leadBase tails.length := by
        generalize tails.length = count at *
        interval_cases count <;> decide
      omega
    have bound := lead.toNat_lt
    have payload : (UInt32.ofNat (lead.toNat - leadBase tails.length)).toNat =
        lead.toNat - leadBase tails.length := by
      rw [UInt32.toNat_ofNat', Nat.mod_eq_of_lt (by omega)]
    have announced := (leadByte_iff lead tails.length (by omega) few _).mpr
      ⟨least, most, payload⟩
    have whole : ¬text.length < i + (tails.length + 1) := by
      rw [lengths, List.length_append]
      omega
    have room : leadSpan tails.length * 64 ^ tails.length ≤ 2 ^ 32 := by
      generalize tails.length = count at *
      interval_cases count <;> decide
    have continued := (continuation_iff tails _ c (leadSpan tails.length)
      (by rw [payload]; omega) room).mpr ⟨form.tailed, by rw [payload, form.value]⟩
    have enough : ¬c < kMinForLength (tails.length + 1) := by
      rw [UInt32.lt_iff_toNat_lt, kMinForLength_eq _ (by omega) few]
      have least := fewest (tails.length - 1) (by omega)
      omega
    obtain ⟨surrogate, top⟩ := (isScalar_iff c scalar.small).mp scalar
    rw [if_neg high, announced]
    simp only [if_neg whole, Nat.add_sub_cancel, List.take_left, continued, if_neg enough,
      if_neg surrogate, if_neg top, List.length_cons]

/-! ## Reads -/

/-- `continuation`, with every byte read through a bounds check that ends the run. -/
def continuationChecked (text : Bytes) : Nat → Nat → UInt32 → Option (Option UInt32)
  | 0, _, value => some (some value)
  | count + 1, position, value =>
      match text[position]? with
      | none => none
      | some cont =>
          if cont &&& 0xC0 ≠ 0x80 then some none
          else
            continuationChecked text count (position + 1)
              ((value <<< 6) ||| (cont &&& 0x3F).toUInt32)

/-- `decodeUtf8`, with every byte read through a bounds check that ends the run. -/
def decodeUtf8Checked (text : Bytes) (i : Nat) : Option (Option (UInt32 × Nat)) :=
  match text[i]? with
  | none => none
  | some lead =>
      if lead < 0x80 then some (some (lead.toUInt32, i + 1))
      else match leadByte lead with
        | none => some none
        | some (length, payload) =>
            if text.length < i + length then some none
            else match continuationChecked text (length - 1) (i + 1) payload with
              | none => none
              | some none => some none
              | some (some value) =>
                  if value < kMinForLength length then some none
                  else if 0xD800 ≤ value ∧ value ≤ 0xDFFF then some none
                  else if 0x10FFFF < value then some none
                  else some (some (value, i + length))

theorem continuationChecked_eq (text : Bytes) (count position : Nat) (value : UInt32)
    (inside : position + count ≤ text.length) :
    continuationChecked text count position value =
      some (continuation ((text.drop position).take count) value) := by
  induction count generalizing position value with
  | zero => rfl
  | succ count ih =>
    have here : position < text.length := by omega
    rw [continuationChecked, List.getElem?_eq_getElem here, ← List.getElem_cons_drop here,
      List.take_succ_cons, continuation]
    simp only
    split
    · rfl
    · exact ih (position + 1) _ (by omega)

/-- No read is out of bounds. -/
theorem decodeUtf8Checked_eq (text : Bytes) (i : Nat) (inside : i < text.length) :
    decodeUtf8Checked text i = some (decodeUtf8 text i) := by
  unfold decodeUtf8Checked decodeUtf8
  rw [List.getElem?_eq_getElem inside, ← List.getD_eq_getElem text 0 inside]
  simp only
  split
  · rfl
  · cases announced : leadByte (text.getD i 0) with
    | none => rfl
    | some announcement =>
      obtain ⟨length, payload⟩ := announcement
      obtain ⟨tails, some_, few, rfl⟩ := leadByte_tails _ length payload announced
      simp only
      split
      · rfl
      · rw [continuationChecked_eq text _ _ _ (by omega)]
        cases continuation ((text.drop (i + 1)).take (tails + 1 - 1)) payload with
        | none => rfl
        | some value =>
          simp only
          split
          · rfl
          · split
            · rfl
            · split
              · rfl
              · rfl

/-! ## Scanning a text -/

/-- The loop's predicate on a sequence: the first character is told apart. -/
def AcceptsAll (accepts : Bool → UInt32 → Bool) : Bool → List Nat → Prop
  | _, [] => True
  | first, c :: cs => accepts first (UInt32.ofNat c) = true ∧ AcceptsAll accepts false cs

theorem scalar_toNat (c : Nat) (scalar : IsScalar c) : (UInt32.ofNat c).toNat = c := by
  have small := scalar.small
  rw [UInt32.toNat_ofNat', Nat.mod_eq_of_lt (by omega)]

theorem scan_ended (accepts : Bool → UInt32 → Bool) (text : Bytes) (i : Nat) (first : Bool)
    (past : text.length ≤ i) :
    ∃ cs, text.drop i = encodeText cs ∧ (∀ c ∈ cs, IsScalar c) ∧ AcceptsAll accepts first cs := by
  rw [List.drop_eq_nil_of_le past]
  exact ⟨[], rfl, by simp, trivial⟩

/-- With as many rounds as bytes, the loop accepts the encodings of accepted sequences. -/
theorem scan_iff (accepts : Bool → UInt32 → Bool) (text : Bytes) (rounds i : Nat) (first : Bool)
    (enough : text.length ≤ i + rounds) :
    scan accepts text rounds i first = true ↔
      ∃ cs, text.drop i = encodeText cs ∧ (∀ c ∈ cs, IsScalar c) ∧ AcceptsAll accepts first cs := by
  induction rounds generalizing i first with
  | zero =>
    rw [scan, decide_eq_true_eq]
    exact ⟨scan_ended accepts text i first, fun _ => by omega⟩
  | succ rounds ih =>
    rw [scan]
    by_cases inside : i < text.length
    · rw [if_pos inside]
      cases decoded : decodeUtf8 text i with
      | none =>
        simp only [Bool.false_eq_true, false_iff]
        rintro ⟨cs, shape, scalars, _⟩
        cases cs with
        | nil =>
          have past : text.length ≤ i := List.drop_eq_nil_iff.mp shape
          omega
        | cons c cs =>
          have scalar := scalars c (by simp)
          have same := scalar_toNat c scalar
          have found := decodeUtf8_encoded text i inside (UInt32.ofNat c) (by rwa [same])
            (encodeText cs) (by rw [shape, same]; rfl)
          rw [decoded] at found
          cases found
      | some read =>
        obtain ⟨c, next⟩ := read
        obtain ⟨scalar, moved, rest, shape⟩ := decodeUtf8_decoded text i next inside c decoded
        have positive := encodeUtf8_length c.toNat
        have later : text.drop next = rest := by
          rw [moved, ← List.drop_drop, shape, List.drop_left]
        simp only [Bool.and_eq_true]
        rw [ih next false (by omega), later]
        constructor
        · rintro ⟨accepted, cs, more, scalars, all⟩
          refine ⟨c.toNat :: cs, ?_, List.forall_mem_cons.mpr ⟨scalar, scalars⟩, ?_, all⟩
          · rw [shape, more]
            rfl
          · rw [UInt32.ofNat_toNat]
            exact accepted
        · rintro ⟨cs, whole, scalars, all⟩
          cases cs with
          | nil =>
            have past : text.length ≤ i := List.drop_eq_nil_iff.mp whole
            omega
          | cons d cs =>
            have scalar' := scalars d (by simp)
            have same := scalar_toNat d scalar'
            have split : text.drop i = encodeUtf8 d ++ encodeText cs := whole
            have found := decodeUtf8_encoded text i inside (UInt32.ofNat d) (by rwa [same])
              (encodeText cs) (by rw [split, same])
            rw [decoded, Option.some.injEq, Prod.mk.injEq] at found
            obtain ⟨rfl, _⟩ := found
            rw [same] at shape
            have tails : rest = encodeText cs :=
              List.append_cancel_left (shape.symm.trans split)
            exact ⟨all.1, cs, tails, fun c inside => scalars c (List.mem_cons_of_mem _ inside),
              all.2⟩
    · rw [if_neg inside]
      exact ⟨fun _ => scan_ended accepts text i first (Nat.le_of_not_lt inside), fun _ => rfl⟩

/-- Every round advances: more rounds than bytes left change nothing. -/
theorem scan_rounds (accepts : Bool → UInt32 → Bool) (text : Bytes) (rounds rounds' i : Nat)
    (first : Bool) (enough : text.length ≤ i + rounds) (enough' : text.length ≤ i + rounds') :
    scan accepts text rounds i first = scan accepts text rounds' i first := by
  rw [Bool.eq_iff_iff, scan_iff accepts text rounds i first enough,
    scan_iff accepts text rounds' i first enough']

/-! ## The character classes -/

theorem inRanges_cons (r : Nat × Nat) (ranges : List (Nat × Nat)) (c : Nat) :
    InRanges (r :: ranges) c ↔ (r.1 ≤ c ∧ c ≤ r.2) ∨ InRanges ranges c := by
  simp [InRanges]

theorem inRanges_nil (c : Nat) : ¬InRanges [] c := by
  rintro ⟨r, inside, _⟩
  cases inside

theorem inRanges_append (ranges more : List (Nat × Nat)) (c : Nat) :
    InRanges (ranges ++ more) c ↔ InRanges ranges c ∨ InRanges more c := by
  simp [InRanges, or_and_right, exists_or]

theorem isNameStartChar_iff (c : UInt32) :
    isNameStartChar c = true ↔ InRanges nameStartRanges c.toNat := by
  simp only [isNameStartChar, nameStartRanges, inRanges_cons, inRanges_nil, or_false, Bool.or_eq_true,
    Bool.and_eq_true, decide_eq_true_eq, beq_iff_eq, UInt32.le_iff_toNat_le, ← UInt32.toNat_inj,
    UInt32.reduceToNat]
  omega

theorem isNameChar_iff (c : UInt32) : isNameChar c = true ↔ InRanges nameRanges c.toNat := by
  simp only [isNameChar, isNameStartChar, nameRanges, nameStartRanges, inRanges_append,
    inRanges_cons, inRanges_nil, or_false, Bool.or_eq_true, Bool.and_eq_true, decide_eq_true_eq,
    beq_iff_eq, UInt32.le_iff_toNat_le, ← UInt32.toNat_inj, UInt32.reduceToNat]
  omega

theorem isXmlChar_iff (c : UInt32) (scalar : IsScalar c.toNat) :
    isXmlChar c = true ↔ InRanges textRanges c.toNat := by
  unfold IsScalar at scalar
  simp only [isXmlChar, textRanges, inRanges_cons, inRanges_nil, or_false, Bool.and_eq_true,
    Bool.not_eq_true', Bool.and_eq_false_iff, Bool.or_eq_false_iff, decide_eq_false_iff_not,
    bne_eq_false_iff_eq, beq_eq_false_iff_ne, ne_eq, UInt32.lt_iff_toNat_lt, ← UInt32.toNat_inj,
    UInt32.reduceToNat]
  omega

/-- The ranges of names and of text hold scalar values only. -/
theorem textRanges_scalar (c : Nat) (inside : InRanges textRanges c) : IsScalar c := by
  simp only [textRanges, inRanges_cons, inRanges_nil, or_false] at inside
  unfold IsScalar
  omega

theorem nameRanges_scalar (c : Nat) (inside : InRanges nameRanges c) : IsScalar c := by
  simp only [nameRanges, nameStartRanges, inRanges_append, inRanges_cons, inRanges_nil, or_false] at inside
  unfold IsScalar
  omega

theorem acceptsAll_iff (accepts : UInt32 → Bool) (first : Bool) (cs : List Nat) :
    AcceptsAll (fun _ => accepts) first cs ↔ ∀ c ∈ cs, accepts (UInt32.ofNat c) = true := by
  induction cs generalizing first with
  | nil => simp [AcceptsAll]
  | cons c cs ih => rw [AcceptsAll, ih, List.forall_mem_cons]

theorem acceptsAll_later (accepts : Bool → UInt32 → Bool) (cs : List Nat) :
    AcceptsAll accepts false cs ↔ ∀ c ∈ cs, accepts false (UInt32.ofNat c) = true := by
  induction cs with
  | nil => simp [AcceptsAll]
  | cons c cs ih => rw [AcceptsAll, ih, List.forall_mem_cons]

theorem isXmlRepresentable_iff (text : Bytes) : isXmlRepresentable text = true ↔ IsXmlText text := by
  unfold isXmlRepresentable IsXmlText
  rw [scan_iff _ _ _ _ _ (by omega), List.drop_zero]
  constructor
  · rintro ⟨cs, shape, scalars, all⟩
    rw [acceptsAll_iff] at all
    refine ⟨cs, fun c inside => ?_, shape⟩
    have same := scalar_toNat c (scalars c inside)
    have accepted := (isXmlChar_iff (UInt32.ofNat c) (by rw [same]; exact scalars c inside)).mp
      (all c inside)
    rwa [same] at accepted
  · rintro ⟨cs, ranges, shape⟩
    refine ⟨cs, shape, fun c inside => textRanges_scalar c (ranges c inside), ?_⟩
    rw [acceptsAll_iff]
    intro c inside
    have scalar := textRanges_scalar c (ranges c inside)
    have same := scalar_toNat c scalar
    exact (isXmlChar_iff _ (by rw [same]; exact scalar)).mpr (by rw [same]; exact ranges c inside)

theorem isValidElementName_iff (name : Bytes) : isValidElementName name = true ↔ IsXmlName name := by
  unfold isValidElementName IsXmlName
  rw [Bool.and_eq_true, scan_iff _ _ _ _ _ (by omega), List.drop_zero]
  constructor
  · rintro ⟨nonempty, cs, shape, scalars, all⟩
    cases cs with
    | nil =>
      rw [shape] at nonempty
      cases nonempty
    | cons c cs =>
      obtain ⟨first, later⟩ := all
      rw [acceptsAll_later] at later
      refine ⟨c, cs, ?_, fun d inside => ?_, shape⟩
      · have same := scalar_toNat c (scalars c (by simp))
        have accepted := (isNameStartChar_iff _).mp first
        rwa [same] at accepted
      · have same := scalar_toNat d (scalars d (List.mem_cons_of_mem _ inside))
        have accepted := (isNameChar_iff _).mp (later d inside)
        rwa [same] at accepted
  · rintro ⟨c, cs, start, ranges, shape⟩
    have starts : IsScalar c :=
      nameRanges_scalar c ((inRanges_append _ _ c).mpr (.inl start))
    have scalars : ∀ d ∈ c :: cs, IsScalar d :=
      List.forall_mem_cons.mpr ⟨starts, fun d inside => nameRanges_scalar d (ranges d inside)⟩
    refine ⟨?_, c :: cs, shape, scalars, ?_, ?_⟩
    · have positive := encodeUtf8_length c
      rw [shape, encodeText, List.flatMap_cons, Bool.not_eq_true', List.isEmpty_eq_false_iff,
        ← List.length_pos_iff, List.length_append]
      omega
    · refine (isNameStartChar_iff _).mpr ?_
      rw [scalar_toNat c starts]
      exact start
    · rw [acceptsAll_later]
      intro d inside
      refine (isNameChar_iff _).mpr ?_
      rw [scalar_toNat d (scalars d (List.mem_cons_of_mem _ inside))]
      exact ranges d inside

end ConfigManager.Refinement
