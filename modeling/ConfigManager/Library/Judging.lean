import Mathlib.Data.List.Basic
import Mathlib.Data.List.Perm.Basic

/-!
# Judging the elements of a list

A judgement turns an element into a result or refuses it with an error. The
results and the refusals of a list, in its order, account for every element once.
-/

set_option autoImplicit false

namespace ConfigManager.Library

universe u v w

variable {α : Type u} {ε : Type v} {β : Type w} (judge : α → Except ε β)

/-- The results, in the order of the elements they came from. -/
def passed : List α → List β
  | [] => []
  | a :: rest =>
      match judge a with
      | .ok b => b :: passed rest
      | .error _ => passed rest

/-- The refused elements, each with its error. -/
def refused : List α → List (α × ε)
  | [] => []
  | a :: rest =>
      match judge a with
      | .ok _ => refused rest
      | .error e => (a, e) :: refused rest

section
variable {judge} {a : α} {rest : List α}

theorem passed_cons_ok {b : β} (ok : judge a = .ok b) :
    passed judge (a :: rest) = b :: passed judge rest := by rw [passed, ok]

theorem passed_cons_error {e : ε} (error : judge a = .error e) :
    passed judge (a :: rest) = passed judge rest := by rw [passed, error]

theorem refused_cons_ok {b : β} (ok : judge a = .ok b) :
    refused judge (a :: rest) = refused judge rest := by rw [refused, ok]

theorem refused_cons_error {e : ε} (error : judge a = .error e) :
    refused judge (a :: rest) = (a, e) :: refused judge rest := by rw [refused, error]

end

/-- The elements are judged one by one, so a list can be judged in parts. -/
@[simp] theorem passed_append (l l' : List α) :
    passed judge (l ++ l') = passed judge l ++ passed judge l' := by
  induction l with
  | nil => rfl
  | cons a rest ih =>
    cases judged : judge a with
    | ok b => rw [List.cons_append, passed_cons_ok judged, passed_cons_ok judged, ih, List.cons_append]
    | error e => rw [List.cons_append, passed_cons_error judged, passed_cons_error judged, ih]

@[simp] theorem refused_append (l l' : List α) :
    refused judge (l ++ l') = refused judge l ++ refused judge l' := by
  induction l with
  | nil => rfl
  | cons a rest ih =>
    cases judged : judge a with
    | ok b => rw [List.cons_append, refused_cons_ok judged, refused_cons_ok judged, ih]
    | error e =>
      rw [List.cons_append, refused_cons_error judged, refused_cons_error judged, ih,
        List.cons_append]

/-- The results are what is left once the errors are dropped. -/
theorem passed_eq_filterMap (l : List α) :
    passed judge l = l.filterMap fun a => (judge a).toOption := by
  induction l with
  | nil => rfl
  | cons a rest ih =>
    cases judged : judge a with
    | ok b =>
      rw [passed_cons_ok judged, List.filterMap_cons, judged, ih]
      rfl
    | error e =>
      rw [passed_cons_error judged, List.filterMap_cons, judged, ih]
      rfl

/-- A result comes from an element, and an element that is not refused has its result there. -/
theorem mem_passed (l : List α) (b : β) : b ∈ passed judge l ↔ ∃ a ∈ l, judge a = .ok b := by
  induction l with
  | nil => simp [passed]
  | cons a rest ih =>
    cases judged : judge a with
    | ok b' => simp [passed_cons_ok judged, ih, judged, eq_comm]
    | error e => simp [passed_cons_error judged, ih, judged]

/-- Every element is in one of the lists, as often as it is in the judged one. -/
theorem judged_perm {κ : Type u} (name : α → κ) (name' : β → κ) (l : List α)
    (named : ∀ a ∈ l, ∀ b, judge a = .ok b → name' b = name a) :
    ((refused judge l).map (fun r => name r.1) ++ (passed judge l).map name').Perm (l.map name) := by
  induction l with
  | nil => exact .nil
  | cons a rest ih =>
    have rest_named := ih fun a' inside => named a' (List.mem_cons_of_mem _ inside)
    cases judged : judge a with
    | ok b =>
      rw [refused_cons_ok judged, passed_cons_ok judged, List.map_cons, List.map_cons,
        named a List.mem_cons_self b judged]
      exact List.perm_middle.trans (rest_named.cons _)
    | error e =>
      rw [refused_cons_error judged, passed_cons_error judged, List.map_cons, List.map_cons,
        List.cons_append]
      exact rest_named.cons _

/-- Results that keep their element's name stand in the order of the judged list. -/
theorem passed_names {κ : Type u} (name : α → κ) (name' : β → κ) (l : List α)
    (named : ∀ a ∈ l, ∀ b, judge a = .ok b → name' b = name a) :
    ((passed judge l).map name').Sublist (l.map name) := by
  induction l with
  | nil => exact .slnil
  | cons a rest ih =>
    have rest_named := ih fun a' inside => named a' (List.mem_cons_of_mem _ inside)
    cases judged : judge a with
    | ok b =>
      rw [passed_cons_ok judged, List.map_cons, List.map_cons, named a List.mem_cons_self b judged]
      exact rest_named.cons_cons _
    | error e =>
      rw [passed_cons_error judged, List.map_cons]
      exact rest_named.cons _

end ConfigManager.Library
