import Mathlib.Data.List.Nodup
import Mathlib.Logic.Function.Basic
import ConfigManager.Library.LabelledTree

/-!
# Entries with an index of positions

A list of keyed entries beside a map from keys to positions. While the index agrees
with the list, reading, replacing and appending through it are the operations on the
list alone.
-/

set_option autoImplicit false

namespace ConfigManager.Library

universe u v

variable {κ : Type u} {β : Type v} {index : κ → Option Nat} {entries : List (κ × β)}

/-- The index answers the position of each key of the entries and nothing for other keys. -/
def Indexes (index : κ → Option Nat) (entries : List (κ × β)) : Prop :=
  ∀ key i, index key = some i ↔ (entries.map Prod.fst)[i]? = some key

theorem Indexes.nil : Indexes (fun _ => none) ([] : List (κ × β)) := by
  intro key i
  simp

theorem Indexes.none_iff (agrees : Indexes index entries) (key : κ) :
    index key = none ↔ key ∉ entries.map Prod.fst := by
  rw [List.mem_iff_getElem?, not_exists]
  constructor
  · intro unknown i here
    rw [← agrees key i, unknown] at here
    cases here
  · intro absent
    cases known : index key with
    | none => rfl
    | some i => exact absurd ((agrees key i).mp known) (absent i)

/-- A key cannot have two positions. -/
theorem Indexes.distinct (agrees : Indexes index entries) : (entries.map Prod.fst).Nodup := by
  rw [List.nodup_iff_getElem?_ne_getElem?]
  intro i j before inside same
  have here := List.getElem?_eq_getElem inside
  rw [here] at same
  have first := (agrees _ i).mpr same
  have second := (agrees _ j).mpr here
  rw [first, Option.some.injEq] at second
  omega

/-- Only the keys count. -/
theorem Indexes.of_keys {entries' : List (κ × β)} (agrees : Indexes index entries)
    (same : entries'.map Prod.fst = entries.map Prod.fst) : Indexes index entries' := by
  intro key i
  rw [same]
  exact agrees key i

theorem Indexes.position (agrees : Indexes index entries) (key : κ) (value : β) (i : Nat)
    (here : entries[i]? = some (key, value)) : index key = some i := by
  rw [agrees key i, List.getElem?_map, here]
  rfl

variable [DecidableEq κ]

theorem Indexes.isSome (agrees : Indexes index entries) (key : κ) :
    (index key).isSome = (lookupKey key entries).isSome := by
  cases found : lookupKey key entries with
  | none =>
    rw [lookup_none_iff] at found
    rw [(agrees.none_iff key).mpr found]
    rfl
  | some value =>
    obtain ⟨i, here, _⟩ := lookup_position key entries value found
    rw [agrees.position key value i here]
    rfl

/-- Writing at the position that the index answers. -/
theorem Indexes.replace (agrees : Indexes index entries) (key : κ) (i : Nat)
    (known : index key = some i) (value : β) :
    (entries.modify i fun entry => (entry.1, value)) = updateKey key value entries := by
  have present : (lookupKey key entries).isSome = true := by rw [← agrees.isSome key, known]; rfl
  obtain ⟨old, found⟩ := Option.isSome_iff_exists.mp present
  obtain ⟨j, here, _, updated⟩ := lookup_position key entries old found
  have same : i = j := by
    rw [agrees.position key old j here, Option.some.injEq] at known
    exact known.symm
  subst same
  rw [updated]
  apply List.ext_getElem?
  intro k
  by_cases other : i = k
  · subst other
    rw [List.getElem?_modify_eq, here, List.getElem?_set_self (List.getElem?_eq_some_iff.mp here).1]
    rfl
  · rw [List.getElem?_modify_ne _ _ other, List.getElem?_set_ne other]

theorem Indexes.append (agrees : Indexes index entries) (key : κ) (fresh : index key = none)
    (value : β) :
    Indexes (Function.update index key (some entries.length)) (entries ++ [(key, value)]) := by
  have absent := (agrees.none_iff key).mp fresh
  intro other i
  rw [List.map_append, List.map_cons, List.map_nil]
  have length : (entries.map Prod.fst).length = entries.length := List.length_map ..
  by_cases same : other = key
  · subst same
    rw [Function.update_self, Option.some.injEq]
    rcases Nat.lt_trichotomy i entries.length with before | last | past
    · rw [List.getElem?_append_left (by omega)]
      refine ⟨fun impossible => by omega, fun here => ?_⟩
      exact absurd (List.mem_of_getElem? here) absent
    · rw [last, List.getElem?_append_right (by omega), length, Nat.sub_self]
      exact ⟨fun _ => rfl, fun _ => rfl⟩
    · rw [List.getElem?_eq_none (by simp; omega)]
      constructor
      · intro impossible
        omega
      · intro nothing
        cases nothing
  · rw [Function.update_of_ne same, agrees other i]
    by_cases before : i < entries.length
    · rw [List.getElem?_append_left (by omega)]
    · rw [List.getElem?_eq_none (by omega), List.getElem?_append_right (by omega)]
      constructor
      · intro nothing
        cases nothing
      · intro here
        have inside := List.mem_of_getElem? here
        rw [List.mem_singleton] at inside
        exact absurd inside same

/-- Forgetting a key that was just added. -/
theorem update_forget (key : κ) (fresh : index key = none) (i : Nat) :
    Function.update (Function.update index key (some i)) key none = index := by
  rw [Function.update_idem, ← fresh, Function.update_eq_self]

end ConfigManager.Library
