import Mathlib.Data.List.Nodup

/-!
# Lists threaded through a link function

`Threaded next head ids` says that following `next` from `head` visits exactly
`ids`, in this order, and ends. Such a chain is determined by its head and never
visits an entry twice.
-/

set_option autoImplicit false

namespace ConfigManager.Library

universe u

variable {ι : Type u}

inductive Threaded (next : ι → Option ι) : Option ι → List ι → Prop where
  | nil : Threaded next none []
  | cons (i : ι) (rest : List ι) (tail : Threaded next (next i) rest) :
      Threaded next (some i) (i :: rest)

/-- Only the links of the visited entries matter. -/
theorem Threaded.congr {next next' : ι → Option ι} {head : Option ι} {ids : List ι}
    (chain : Threaded next head ids) (agree : ∀ i ∈ ids, next' i = next i) :
    Threaded next' head ids := by
  induction chain with
  | nil => exact .nil
  | cons i rest _ ih =>
    refine .cons i rest ?_
    rw [agree i (by simp)]
    exact ih fun j inside => agree j (List.mem_cons_of_mem i inside)

theorem Threaded.unique {next : ι → Option ι} {head : Option ι} {ids ids' : List ι}
    (chain : Threaded next head ids) (chain' : Threaded next head ids') : ids = ids' := by
  induction chain generalizing ids' with
  | nil => cases chain'; rfl
  | cons i rest _ ih =>
    cases chain' with
    | cons _ rest' tail' => rw [ih tail']

theorem Threaded.suffix {next : ι → Option ι} {head : Option ι} {ids : List ι}
    (chain : Threaded next head ids) (i : ι) (inside : i ∈ ids) :
    ∃ before rest, ids = before ++ i :: rest ∧ Threaded next (some i) (i :: rest) := by
  induction chain with
  | nil => cases inside
  | cons j rest tail ih =>
    rcases List.mem_cons.mp inside with rfl | later
    · exact ⟨[], rest, rfl, .cons i rest tail⟩
    · obtain ⟨before, rest', shape, chain'⟩ := ih later
      exact ⟨j :: before, rest', by rw [shape, List.cons_append], chain'⟩

/-- The chain is acyclic. -/
theorem Threaded.nodup {next : ι → Option ι} {head : Option ι} {ids : List ι}
    (chain : Threaded next head ids) : ids.Nodup := by
  induction chain with
  | nil => exact List.nodup_nil
  | cons i rest tail ih =>
    refine List.nodup_cons.mpr ⟨fun again => ?_, ih⟩
    obtain ⟨before, rest', shape, chain'⟩ := tail.suffix i again
    have same : rest = rest' := (List.cons.inj ((Threaded.cons i rest tail).unique chain')).2
    have lengths := congrArg List.length shape
    rw [same] at lengths
    simp only [List.length_append, List.length_cons] at lengths
    omega

end ConfigManager.Library
