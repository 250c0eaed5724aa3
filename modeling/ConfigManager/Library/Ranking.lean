import Mathlib.Data.List.Dedup
import Mathlib.Data.List.Sort
import Mathlib.Order.Defs.LinearOrder

/-!
# Sorting by a strict comparison

`sortBy` orders a list by a comparison that says which of two elements comes
first. When the comparison ranks by a key in a linear order, and no two elements
share a key, the sorted list is determined, and the first `k` elements are those
with fewer than `k` before them.
-/

set_option autoImplicit false

namespace ConfigManager.Library

universe u v

variable {α : Type u} {κ : Type v}

def sortBy (before : α → α → Bool) (l : List α) : List α :=
  l.insertionSort fun a b => before b a = false

theorem sortBy_perm (before : α → α → Bool) (l : List α) : (sortBy before l).Perm l :=
  List.perm_insertionSort _ l

@[simp] theorem mem_sortBy (before : α → α → Bool) (l : List α) (a : α) :
    a ∈ sortBy before l ↔ a ∈ l := (sortBy_perm before l).mem_iff

/-- A map that keeps the comparison commutes with sorting. -/
theorem sortBy_map {β : Type u} (before : α → α → Bool) (before' : β → β → Bool) (f : α → β)
    (l : List α) (keeps : ∀ a ∈ l, ∀ b ∈ l, before' (f a) (f b) = before a b) :
    sortBy before' (l.map f) = (sortBy before l).map f := by
  refine (List.map_insertionSort _ _ f l fun a first b second => ?_).symm
  rw [keeps b second a first]

variable [LinearOrder κ]

/-- The comparison is by this key. -/
def Ranks (before : α → α → Bool) (key : α → κ) : Prop :=
  ∀ a b, before a b = true ↔ key a < key b

/-- No two elements of the list have the same key. -/
def KeyedApart (key : α → κ) (l : List α) : Prop := ∀ a ∈ l, ∀ b ∈ l, key a = key b → a = b

theorem keyedApart_of_ascending (key : α → κ) (l : List α)
    (ascending : l.Pairwise fun a b => key a < key b) : KeyedApart key l := by
  induction l with
  | nil => exact fun a inside => absurd inside (by simp)
  | cons x rest ih =>
    rw [List.pairwise_cons] at ascending
    intro a first b second same
    rcases List.mem_cons.mp first with rfl | inside
    · rcases List.mem_cons.mp second with rfl | inside
      · rfl
      · exact absurd same (ne_of_lt (ascending.1 b inside))
    · rcases List.mem_cons.mp second with rfl | inside'
      · exact absurd same (ne_of_gt (ascending.1 a inside))
      · exact ih ascending.2 a inside b inside' same

section
variable {before : α → α → Bool} {key : α → κ} (ranks : Ranks before key)
include ranks

theorem Ranks.not_before (a b : α) : before b a = false ↔ key a ≤ key b := by
  rw [← Bool.not_eq_true, ranks b a, not_lt]

theorem Ranks.sorted (l : List α) : (sortBy before l).Pairwise fun a b => key a ≤ key b := by
  have total : Std.Total fun a b : α => before b a = false :=
    ⟨fun a b => by simpa only [ranks.not_before] using le_total (key a) (key b)⟩
  have trans : IsTrans α fun a b : α => before b a = false :=
    ⟨fun a b c => by simpa only [ranks.not_before] using le_trans⟩
  refine (List.pairwise_insertionSort _ l).imp fun first => ?_
  exact (ranks.not_before _ _).mp first

/-- Rearranging the list does not change the sorted one. -/
theorem Ranks.sort_congr (l l' : List α) (same : l.Perm l') (apart : KeyedApart key l) :
    sortBy before l = sortBy before l' := by
  refine List.Perm.eq_of_pairwise ?_ (ranks.sorted l) (ranks.sorted l')
    (((sortBy_perm before l).trans same).trans (sortBy_perm before l').symm)
  intro a b first second low high
  rw [mem_sortBy] at first second
  exact apart a first b (same.mem_iff.mpr second) (le_antisymm low high)

theorem Ranks.sorted_strictly (l : List α) (apart : KeyedApart key l) (distinct : l.Nodup) :
    (sortBy before l).Pairwise fun a b => key a < key b := by
  have unequal := (sortBy_perm before l).nodup_iff.mpr distinct
  refine List.Pairwise.imp_of_mem ?_ ((ranks.sorted l).and unequal)
  intro a b first second both
  rw [mem_sortBy] at first second
  exact lt_of_le_of_ne both.1 fun same => both.2 (apart a first b second same)

/-- A list in order stays as it is. -/
theorem Ranks.sort_sorted (l : List α) (ascending : l.Pairwise fun a b => key a < key b) :
    sortBy before l = l :=
  List.Pairwise.insertionSort_eq (ascending.imp fun less => (ranks.not_before _ _).mpr less.le)

/-- The first element of the sorted list has the least key. -/
theorem Ranks.head_least (l : List α) (a : α) (rest : List α) (sorted : sortBy before l = a :: rest) :
    ∀ b ∈ l, key a ≤ key b := by
  intro b inside
  have ascending := ranks.sorted l
  rw [sorted, List.pairwise_cons] at ascending
  rw [← mem_sortBy before l b, sorted] at inside
  rcases List.mem_cons.mp inside with rfl | later
  · exact le_rfl
  · exact ascending.1 b later

end

/-! ## Leaders of groups -/

section
variable {γ : Type v} [DecidableEq γ] (group : α → γ) (before : α → α → Bool) (l : List α)

/-- The elements that no other of their group comes before. -/
def leaders : List α := l.filter fun a => l.all fun b => !(decide (group b = group a) && before b a)

theorem mem_leaders (a : α) :
    a ∈ leaders group before l ↔ a ∈ l ∧ ∀ b ∈ l, group b = group a → before b a = false := by
  simp [leaders, imp_iff_not_or]

theorem leaders_nodup (distinct : l.Nodup) : (leaders group before l).Nodup :=
  distinct.filter _

variable {group before l} {key : α → κ} (ranks : Ranks before key)
include ranks

/-- A group has one leader at most. -/
theorem Ranks.leader_unique (apart : KeyedApart key l) (a b : α) (first : a ∈ leaders group before l)
    (second : b ∈ leaders group before l) (same : group a = group b) : a = b := by
  rw [mem_leaders] at first second
  have low := (ranks.not_before b a).mp (second.2 a first.1 same)
  have high := (ranks.not_before a b).mp (first.2 b second.1 same.symm)
  exact apart a first.1 b second.1 (le_antisymm high low)

theorem Ranks.exists_leader (a : α) (inside : a ∈ l) :
    ∃ b ∈ leaders group before l, group b = group a := by
  have member : a ∈ l.filter fun b => group b = group a := by simp [inside]
  cases sorted : sortBy before (l.filter fun b => group b = group a) with
  | nil =>
    rw [← mem_sortBy before, sorted] at member
    cases member
  | cons b rest =>
    have least := ranks.head_least _ b rest sorted
    have here : b ∈ l.filter fun b => group b = group a := by
      rw [← mem_sortBy before, sorted]
      exact List.mem_cons_self
    simp only [List.mem_filter, decide_eq_true_eq] at here
    refine ⟨b, (mem_leaders group before l b).mpr ⟨here.1, fun c other same => ?_⟩, here.2⟩
    refine (ranks.not_before b c).mpr (least c ?_)
    simp [other, same, here.2]

/-- Alone in its group, every element leads. -/
theorem Ranks.leaders_alone (alone : (l.map group).Nodup) : leaders group before l = l := by
  apply List.filter_eq_self.mpr
  intro a inside
  simp only [List.all_eq_true, Bool.not_eq_true', Bool.and_eq_false_iff, decide_eq_false_iff_not]
  intro b other
  by_cases same : group b = group a
  · obtain rfl := List.inj_on_of_nodup_map alone other inside same
    exact .inr ((ranks.not_before b b).mpr le_rfl)
  · exact .inl same

/-- The leaders stand for their groups. -/
theorem Ranks.leaders_groups (apart : KeyedApart key l) (distinct : l.Nodup) :
    ((leaders group before l).map group).Perm (l.map group).dedup := by
  have once : ((leaders group before l).map group).Nodup :=
    (leaders_nodup group before l distinct).map_on fun a first b second same =>
      ranks.leader_unique apart a b first second same
  refine (List.perm_ext_iff_of_nodup once (List.nodup_dedup _)).mpr fun g => ?_
  simp only [List.mem_map, List.mem_dedup]
  constructor
  · rintro ⟨a, leads, rfl⟩
    exact ⟨a, ((mem_leaders group before l a).mp leads).1, rfl⟩
  · rintro ⟨a, inside, rfl⟩
    exact ranks.exists_leader a inside

end

end ConfigManager.Library
