import Mathlib.Data.List.Nodup
import Mathlib.Order.Lattice

/-!
# Consecutive pairs of an ascending list

`consecutive` lists the neighbours of a list, `span lo hi` the neighbours among
its entries from `lo` to `hi`. In an ascending list the span from an entry
starts with the step to its successor, which is how a walk along the list
proceeds.
-/

set_option autoImplicit false

namespace ConfigManager.Library

universe u

variable {α : Type u}

def consecutive : List α → List (α × α)
  | a :: b :: rest => (a, b) :: consecutive (b :: rest)
  | _ => []

@[simp] theorem consecutive_singleton (a : α) : consecutive [a] = [] := rfl

@[simp] theorem consecutive_cons_cons (a b : α) (rest : List α) :
    consecutive (a :: b :: rest) = (a, b) :: consecutive (b :: rest) := rfl

theorem mem_consecutive (l : List α) (step : α × α) :
    step ∈ consecutive l ↔ ∃ before rest, l = before ++ step.1 :: step.2 :: rest := by
  induction l with
  | nil => simp [consecutive]
  | cons a rest ih =>
    cases rest with
    | nil =>
      rw [consecutive_singleton]
      constructor
      · simp
      · rintro ⟨before, rest, split⟩
        have lengths := congrArg List.length split
        simp at lengths
        omega
    | cons b rest =>
      rw [consecutive_cons_cons, List.mem_cons, ih]
      constructor
      · rintro (rfl | ⟨before, later, split⟩)
        · exact ⟨[], rest, rfl⟩
        · exact ⟨a :: before, later, by rw [split, List.cons_append]⟩
      · rintro ⟨before, later, split⟩
        cases before with
        | nil =>
          simp only [List.nil_append, List.cons.injEq] at split
          exact .inl (Prod.ext split.1.symm split.2.1.symm)
        | cons first before =>
          rw [List.cons_append, List.cons.injEq] at split
          exact .inr ⟨before, later, split.2⟩

theorem consecutive_fst_sublist (l : List α) : ((consecutive l).map Prod.fst).Sublist l := by
  induction l with
  | nil => exact List.Sublist.slnil
  | cons a rest ih =>
    cases rest with
    | nil => simp
    | cons b rest => exact ih.cons_cons a

variable [LinearOrder α]

theorem consecutive_nodup (l : List α) (ascending : l.Pairwise (· < ·)) :
    (consecutive l).Nodup :=
  List.Nodup.of_map Prod.fst
    ((ascending.imp ne_of_lt).sublist (consecutive_fst_sublist l))

def within (lo hi v : α) : Bool := decide (lo ≤ v) && decide (v ≤ hi)

theorem within_iff (lo hi v : α) : within lo hi v = true ↔ lo ≤ v ∧ v ≤ hi := by
  simp [within]

/-- The neighbours among the entries from `lo` to `hi`. -/
def span (lo hi : α) (l : List α) : List (α × α) := consecutive (l.filter (within lo hi))

/-- Seen from an entry of an ascending list, the span is about what follows it. -/
theorem span_split (before rest : List α) (a hi : α) (bound : a ≤ hi)
    (ascending : (before ++ a :: rest).Pairwise (· < ·)) :
    span a hi (before ++ a :: rest) =
      consecutive (a :: rest.filter fun v => decide (v ≤ hi)) := by
  obtain ⟨_, tail, across⟩ := List.pairwise_append.mp ascending
  rw [List.pairwise_cons] at tail
  have early : (before.filter (within a hi)) = [] := by
    rw [List.filter_eq_nil_iff]
    intro v inside between
    exact not_le_of_gt (across v inside a (by simp)) ((within_iff a hi v).mp between).1
  have late : (rest.filter (within a hi)) =
      rest.filter fun v => decide (v ≤ hi) := by
    apply List.filter_congr
    intro v inside
    simp [within, le_of_lt (tail.1 v inside)]
  rw [span, List.filter_append, early, List.nil_append, List.filter_cons_of_pos
    ((within_iff a hi a).mpr ⟨le_rfl, bound⟩), late]

/-- Nothing lies between an entry and itself. -/
theorem span_self (l : List α) (ascending : l.Pairwise (· < ·)) (a : α) (inside : a ∈ l) :
    span a a l = [] := by
  obtain ⟨before, rest, rfl⟩ := List.append_of_mem inside
  rw [span_split before rest a a le_rfl ascending]
  obtain ⟨_, tail, _⟩ := List.pairwise_append.mp ascending
  rw [List.pairwise_cons] at tail
  have none : (rest.filter fun v => decide (v ≤ a)) = [] := by
    rw [List.filter_eq_nil_iff]
    intro v member
    simpa using tail.1 v member
  rw [none, consecutive_singleton]

theorem consecutive_lt (l : List α) (ascending : l.Pairwise (· < ·)) (a b : α)
    (step : (a, b) ∈ consecutive l) : a < b := by
  obtain ⟨before, rest, split⟩ := (mem_consecutive l (a, b)).mp step
  rw [split] at ascending
  exact (List.pairwise_cons.mp (List.pairwise_append.mp ascending).2.1).1 b (by simp)

/-- The span from an entry starts with the step to the next one. -/
theorem span_step (l : List α) (ascending : l.Pairwise (· < ·)) (a b hi : α)
    (step : (a, b) ∈ consecutive l) (bound : b ≤ hi) : span a hi l = (a, b) :: span b hi l := by
  have up := consecutive_lt l ascending a b step
  obtain ⟨before, rest, split⟩ := (mem_consecutive l (a, b)).mp step
  simp only at split
  rw [split] at ascending ⊢
  have shape : before ++ a :: b :: rest = (before ++ [a]) ++ b :: rest := by simp
  rw [span_split before (b :: rest) a hi (le_trans (le_of_lt up) bound) ascending,
    List.filter_cons_of_pos (by simp [bound]), consecutive_cons_cons, shape,
    span_split (before ++ [a]) rest b hi bound (shape ▸ ascending)]

/-- In an ascending list, an entry above `a` is at least `a`'s successor. -/
theorem successor_le (before rest : List α) (a b hi : α) (above : a < hi)
    (inside : hi ∈ before ++ a :: b :: rest)
    (ascending : (before ++ a :: b :: rest).Pairwise (· < ·)) : b ≤ hi := by
  obtain ⟨_, tail, across⟩ := List.pairwise_append.mp ascending
  rw [List.pairwise_cons, List.pairwise_cons] at tail
  rcases List.mem_append.mp inside with early | late
  · exact absurd above (not_lt_of_gt (across hi early a (by simp)))
  · rcases List.mem_cons.mp late with rfl | later
    · exact absurd above (lt_irrefl _)
    · rcases List.mem_cons.mp later with rfl | further
      · exact le_rfl
      · exact le_of_lt (tail.2.1 hi further)

/-- In an ascending list, an entry from its last one on is the last one. -/
theorem last_eq (before : List α) (a hi : α) (bound : a ≤ hi) (inside : hi ∈ before ++ [a])
    (ascending : (before ++ [a]).Pairwise (· < ·)) : a = hi := by
  rcases List.mem_append.mp inside with early | same
  · exact absurd bound
      (not_le_of_gt ((List.pairwise_append.mp ascending).2.2 hi early a (by simp)))
  · exact (List.mem_singleton.mp same).symm

/-- Going down an ascending list: what holds at the entry `hi` and passes from every entry to the
one before it holds at every entry up to `hi`. -/
@[elab_as_elim]
theorem descending_induction (l : List α) (ascending : l.Pairwise (· < ·)) (hi : α) (top : hi ∈ l)
    {motive : α → Prop} (arrived : motive hi)
    (step : ∀ a b, (a, b) ∈ consecutive l → b ≤ hi → motive b → motive a)
    (a : α) (inside : a ∈ l) (bound : a ≤ hi) : motive a := by
  obtain ⟨before, rest, split⟩ := List.append_of_mem inside
  induction rest generalizing before a with
  | nil =>
    rw [split] at top ascending
    have last := last_eq before a hi bound top ascending
    subst last
    exact arrived
  | cons b rest ih =>
    rcases lt_or_eq_of_le bound with above | rfl
    · have bound' : b ≤ hi := successor_le before rest a b hi above (split ▸ top) (split ▸ ascending)
      have later : motive b := by
        apply ih b ?_ bound' (before ++ [a])
        · rw [split, List.append_assoc, List.singleton_append]
        · rw [split]
          simp
      exact step a b ((mem_consecutive l (a, b)).mpr ⟨before, rest, split⟩) bound' later
    · exact arrived

/-- Following the steps of a span ends at its upper entry. -/
theorem span_end (l : List α) (ascending : l.Pairwise (· < ·)) (hi : α) (top : hi ∈ l) (a : α)
    (inside : a ∈ l) (bound : a ≤ hi) : (span a hi l).foldl (fun _ step => step.2) a = hi := by
  refine descending_induction l ascending hi top ?_ ?_ a inside bound
  · rw [span_self l ascending hi top]
    rfl
  · intro a b step bound ends
    rw [span_step l ascending a b hi step bound]
    exact ends

/-- A span splits at any entry inside it. -/
theorem span_append (l : List α) (ascending : l.Pairwise (· < ·)) (mid hi : α) (between : mid ∈ l)
    (high : mid ≤ hi) (a : α) (inside : a ∈ l) (low : a ≤ mid) :
    span a hi l = span a mid l ++ span mid hi l := by
  refine descending_induction l ascending mid between ?_ ?_ a inside low
  · rw [span_self l ascending mid between, List.nil_append]
  · intro a b step bound splits
    rw [span_step l ascending a b hi step (le_trans bound high), splits,
      span_step l ascending a b mid step bound, List.cons_append]

/-- Steps that start at a value and go up, each from where the one before it ended. -/
inductive Climbs : α → List (α × α) → Prop where
  | done (a : α) : Climbs a []
  | step (a b : α) (steps : List (α × α)) (up : a < b) (later : Climbs b steps) :
      Climbs a ((a, b) :: steps)

theorem Climbs.above {a : α} {steps : List (α × α)} (climbs : Climbs a steps) :
    ∀ step ∈ steps, a ≤ step.1 := by
  induction climbs with
  | done a => simp
  | step a b steps up later ih =>
    rw [List.forall_mem_cons]
    exact ⟨le_rfl, fun step inside => le_trans (le_of_lt up) (ih step inside)⟩

/-- No step is taken twice. -/
theorem Climbs.nodup {a : α} {steps : List (α × α)} (climbs : Climbs a steps) : steps.Nodup := by
  induction climbs with
  | done a => exact List.nodup_nil
  | step a b steps up later ih =>
    refine List.nodup_cons.mpr ⟨fun inside => ?_, ih⟩
    exact absurd (later.above _ inside) (not_le_of_gt up)

theorem Climbs.of_append {a : α} (first last : List (α × α)) (climbs : Climbs a (first ++ last)) :
    Climbs a first := by
  induction first generalizing a with
  | nil => exact .done a
  | cons step first ih =>
    cases climbs with
    | step _ b _ up later => exact .step a b first up (ih later)

theorem span_climbs (l : List α) (ascending : l.Pairwise (· < ·)) (hi : α) (top : hi ∈ l) (a : α)
    (inside : a ∈ l) (bound : a ≤ hi) : Climbs a (span a hi l) := by
  refine descending_induction l ascending hi top ?_ ?_ a inside bound
  · rw [span_self l ascending hi top]
    exact .done hi
  · intro a b step bound climbs
    rw [span_step l ascending a b hi step bound]
    exact .step a b _ (consecutive_lt l ascending a b step) climbs

/-- The steps of a span are steps of the list. -/
theorem span_subset (l : List α) (lo hi : α) (ascending : l.Pairwise (· < ·)) :
    ∀ step ∈ span lo hi l, step ∈ consecutive l := by
  induction l with
  | nil => simp [span, consecutive]
  | cons a rest ih =>
    rw [List.pairwise_cons] at ascending
    intro step inside
    have later : step ∈ span lo hi rest → step ∈ consecutive (a :: rest) := by
      intro there
      have found := ih ascending.2 step there
      cases rest with
      | nil => simp [consecutive] at found
      | cons b rest => exact List.mem_cons_of_mem _ found
    unfold span at inside later
    by_cases kept : within lo hi a = true
    · rw [List.filter_cons_of_pos kept] at inside
      cases rest with
      | nil => simp at inside
      | cons b rest =>
        rw [within_iff] at kept
        have up := ascending.1 b (by simp)
        by_cases high : b ≤ hi
        · have keptB : within lo hi b = true :=
            (within_iff lo hi b).mpr ⟨le_trans kept.1 (le_of_lt up), high⟩
          rw [List.filter_cons_of_pos keptB] at inside later
          rw [consecutive_cons_cons] at inside
          rcases List.mem_cons.mp inside with rfl | further
          · simp
          · exact later further
        · have none : ((b :: rest).filter (within lo hi)) = [] := by
            rw [List.filter_eq_nil_iff]
            intro v member between
            have above : b ≤ v := by
              rcases List.mem_cons.mp member with rfl | further
              · exact le_rfl
              · exact le_of_lt ((List.pairwise_cons.mp ascending.2).1 v further)
            exact high (le_trans above ((within_iff lo hi v).mp between).2)
          rw [none] at inside
          simp at inside
    · rw [List.filter_cons_of_neg kept] at inside
      exact later inside

end ConfigManager.Library
