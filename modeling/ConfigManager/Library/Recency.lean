import Mathlib.Data.List.Dedup
import Mathlib.Data.List.Infix

/-!
# Most recently used first

A use moves an element to the front. Of a list that began with the `n` most
recently used elements, moving to the front keeps that.
-/

set_option autoImplicit false

namespace ConfigManager.Library

universe u

variable {α : Type u}

/-! ## Fronts of lists -/

theorem take_append_prefix (front l k : List α) (n : Nat) (enough : n ≤ front.length ∨ l = []) :
    (front ++ l).take n <+: front ++ k := by
  have taken : (front ++ l).take n = front.take n := by
    rcases enough with long | rfl
    · exact List.take_append_of_le_length long
    · rw [List.append_nil]
  rw [taken]
  exact (List.take_prefix n front).trans (List.prefix_append front k)

/-- A list between the front of another and the whole of it has that front. -/
theorem take_of_front (l k : List α) (n : Nat) (front : l.take n <+: k) (sub : k.Sublist l) :
    k.take n = l.take n := by
  rcases Nat.lt_or_ge l.length n with short | long
  · rw [List.take_of_length_le short.le] at front ⊢
    have same : k = l := sub.eq_of_length_le front.length_le
    rw [same, List.take_of_length_le short.le]
  · have whole := List.prefix_iff_eq_take.mp front
    rw [List.length_take, Nat.min_eq_left long] at whole
    exact whole.symm

/-! ## Recency -/

variable [DecidableEq α]

def touch (a : α) (l : List α) : List α := a :: l.erase a

/-- The elements of a history, newest first, each where it was used last. -/
def recency : List α → List α
  | [] => []
  | a :: older => touch a (recency older)

theorem touch_nodup (a : α) (l : List α) (distinct : l.Nodup) : (touch a l).Nodup :=
  List.nodup_cons.mpr ⟨fun inside => (distinct.mem_erase_iff.mp inside).1 rfl, distinct.erase a⟩

theorem recency_nodup (history : List α) : (recency history).Nodup := by
  induction history with
  | nil => exact .nil
  | cons a older ih => exact touch_nodup a _ ih

@[simp] theorem mem_touch (a b : α) (l : List α) : b ∈ touch a l ↔ b = a ∨ b ∈ l := by
  rw [touch, List.mem_cons]
  by_cases same : b = a
  · simp [same]
  · simp [same, List.mem_erase_of_ne same]

@[simp] theorem mem_recency (history : List α) (a : α) : a ∈ recency history ↔ a ∈ history := by
  induction history with
  | nil => rfl
  | cons b older ih => rw [recency, mem_touch, ih, List.mem_cons]

theorem recency_perm (history : List α) : (recency history).Perm history.dedup :=
  (List.perm_ext_iff_of_nodup (recency_nodup history) (List.nodup_dedup history)).mpr fun a => by
    simp

theorem touch_sublist (a : α) (l k : List α) (sub : k.Sublist l) : (touch a k).Sublist (touch a l) :=
  (sub.erase a).cons_cons a

/-- Using an element keeps the front of the list that is known to be there. -/
theorem touch_front (a : α) (l k : List α) (n : Nat) (front : l.take n <+: k) :
    (touch a l).take n <+: touch a k := by
  cases n with
  | zero => exact List.nil_prefix
  | succ n =>
    obtain ⟨more, rfl⟩ := front
    rw [touch, touch, List.take_succ_cons, List.prefix_cons_inj]
    have full : n + 1 ≤ (l.take (n + 1)).length ∨ l.drop (n + 1) = [] := by
      rcases Nat.lt_or_ge l.length (n + 1) with short | long
      · exact .inr (List.drop_of_length_le short.le)
      · exact .inl (by rw [List.length_take]; omega)
    nth_rewrite 1 [← List.take_append_drop (n + 1) l]
    rw [List.erase_append, List.erase_append]
    by_cases inside : a ∈ l.take (n + 1)
    · rw [if_pos inside, if_pos inside]
      refine take_append_prefix _ _ _ n (full.imp_left fun long => ?_)
      rw [List.length_erase_of_mem inside]
      omega
    · rw [if_neg inside, if_neg inside]
      refine take_append_prefix _ _ _ n (full.imp (fun long => by omega) fun none => ?_)
      rw [none]
      rfl

end ConfigManager.Library
