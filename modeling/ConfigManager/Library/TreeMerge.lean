import ConfigManager.Library.TreeEdits

/-!
# A merge, path by path

Where the first tree has a node, the merge has that node, or its merge with what
the second tree has there. Elsewhere the merge has what the second tree has,
where the path leaves the first tree at a member that an object lacks, reached
by members alone.
-/

set_option autoImplicit false

namespace ConfigManager.Library

universe u v w

namespace Tree

variable {ι : Type u} {κ : Type v} {α : Type w} [DecidableEq κ]

/-- The path leaves the tree at a member that an object lacks, reached by members alone. -/
def LacksKey (p : List (Step κ)) (t : Tree ι κ α) : Prop :=
  ∃ (names : List κ) (k : κ) (r : List (Step κ)) (l : ι) (ms : List (κ × Tree ι κ α)),
    p = names.map Step.key ++ Step.key k :: r ∧ locate (names.map Step.key) t = .ok (.object l ms) ∧
      lookupKey k ms = none

theorem lookup_mergeMembers (k : κ) (ms ds : List (κ × Tree ι κ α)) :
    lookupKey k (mergeMembers ms ds) = (lookupKey k ms).map fun c =>
      match lookupKey k ds with
      | some d => merge c d
      | none => c := by
  induction ms with
  | nil => rfl
  | cons m ms ih =>
    obtain ⟨k', c⟩ := m
    rw [mergeMembers, lookup_cons_eq, lookup_cons_eq]
    by_cases same : k = k'
    · subst same
      rw [if_pos rfl, if_pos rfl]
      rfl
    · rw [if_neg same, if_neg same]
      exact ih

theorem lookup_filter_absent (k : κ) (ms ds : List (κ × Tree ι κ α)) (absent : lookupKey k ms = none) :
    lookupKey k (ds.filter fun e => (lookupKey e.1 ms).isNone) = lookupKey k ds := by
  induction ds with
  | nil => rfl
  | cons d ds ih =>
    by_cases same : k = d.1
    · subst same
      rw [List.filter_cons_of_pos (by simp [absent])]
      simp [lookupKey]
    · by_cases kept : (lookupKey d.1 ms).isNone = true
      · rw [List.filter_cons_of_pos (by simpa using kept)]
        simp only [lookupKey, if_neg same]
        exact ih
      · rw [List.filter_cons_of_neg (by simpa using kept)]
        simp only [lookupKey, if_neg same]
        exact ih

/-- The children of a merge of two objects. -/
theorem descend_merge (k : κ) (l l' : ι) (ms ds : List (κ × Tree ι κ α)) :
    descend (.key k) (merge (.object l ms) (.object l' ds)) =
      match lookupKey k ms, lookupKey k ds with
      | some c, some d => .ok (merge c d)
      | some c, none => .ok c
      | none, some d => .ok d
      | none, none => .error .absent := by
  rw [merge]
  simp only [descend, lookup_append, lookup_mergeMembers]
  cases present : lookupKey k ms with
  | none =>
    rw [lookup_filter_absent k ms ds present]
    cases lookupKey k ds <;> rfl
  | some c => cases lookupKey k ds <;> rfl

/-- A node of the first tree stays, merged or as it is. -/
theorem locate_merge_present (p : List (Step κ)) (m d x : Tree ι κ α) (here : locate p m = .ok x) :
    ∃ y, locate p (merge m d) = .ok y ∧ (y = x ∨ ∃ e, y = merge x e) := by
  induction p generalizing m d with
  | nil =>
    cases here
    exact ⟨_, rfl, .inr ⟨d, rfl⟩⟩
  | cons s p ih =>
    by_cases objects : (∃ l ms, m = .object l ms) ∧ ∃ l ds, d = .object l ds
    · obtain ⟨⟨l, ms, rfl⟩, l', ds, rfl⟩ := objects
      obtain ⟨c, step, found⟩ := locate_cons_success s p _ x here
      cases s with
      | index i => cases step
      | key k =>
        have children := descend_merge k l l' ms ds
        simp only [descend] at step
        cases present : lookupKey k ms with
        | none =>
          rw [present] at step
          cases step
        | some c' =>
          rw [present] at step children
          cases step
          cases other : lookupKey k ds with
          | none =>
            rw [other] at children
            exact ⟨x, (locate_cons_ok _ _ _ _ children).trans found, .inl rfl⟩
          | some e =>
            rw [other] at children
            obtain ⟨y, merged, how⟩ := ih c e found
            exact ⟨y, (locate_cons_ok _ _ _ _ children).trans merged, how⟩
    · rw [merge_of_not_objects m d objects]
      exact ⟨x, here, .inl rfl⟩

theorem lacksKey_cons (k : κ) (p : List (Step κ)) (l : ι) (ms : List (κ × Tree ι κ α)) :
    LacksKey (.key k :: p) (.object l ms) ↔
      lookupKey k ms = none ∨ ∃ c, lookupKey k ms = some c ∧ LacksKey p c := by
  constructor
  · intro lacks
    obtain ⟨names, k', r, l', ns, split, found, absent⟩ := lacks
    cases names with
    | nil =>
      obtain ⟨same, rfl⟩ := List.cons.inj split
      cases same
      cases found
      exact .inl absent
    | cons name names =>
      obtain ⟨same, rest⟩ := List.cons.inj split
      cases same
      obtain ⟨c, step, below⟩ := locate_cons_success _ _ _ _ found
      simp only [descend] at step
      cases present : lookupKey k ms with
      | none => exact .inl rfl
      | some c' =>
        rw [present] at step
        cases step
        exact .inr ⟨c, rfl, names, k', r, l', ns, rest, below, absent⟩
  · intro how
    rcases how with absent | ⟨c, present, names, k', r, l', ns, rfl, found, absent⟩
    · exact ⟨[], k, p, l, ms, rfl, rfl, absent⟩
    · refine ⟨k :: names, k', r, l', ns, rfl, ?_, absent⟩
      rw [List.map_cons, locate_cons_ok _ _ _ c (by simp only [descend, present])]
      exact found

theorem not_lacksKey_of_not_object (p : List (Step κ)) (t : Tree ι κ α)
    (other : ∀ l ms, t ≠ .object l ms) : ¬ LacksKey p t := by
  intro lacks
  obtain ⟨names, k, r, l, ms, _, found, _⟩ := lacks
  cases names with
  | nil => exact other l ms (by cases found; rfl)
  | cons name names =>
    obtain ⟨c, step, _⟩ := locate_cons_success _ _ _ _ found
    cases t with
    | object l' ns => exact other l' ns rfl
    | leaf l' a => cases step
    | array l' es => cases step

/-- What is not in the first tree comes from the second, where a member lacks. -/
theorem locate_merge_absent (p : List (Step κ)) (m d : Tree ι κ α) (f : Fault)
    (gone : locate p m = .error f) (z : Tree ι κ α) :
    locate p (merge m d) = .ok z ↔ locate p d = .ok z ∧ LacksKey p m := by
  induction p generalizing m d with
  | nil => cases gone
  | cons s p ih =>
    by_cases objects : (∃ l ms, m = .object l ms) ∧ ∃ l ds, d = .object l ds
    · obtain ⟨⟨l, ms, rfl⟩, l', ds, rfl⟩ := objects
      cases s with
      | index i =>
        have stuck : locate (.index i :: p) (merge (.object l ms) (.object l' ds)) =
            .error .mismatch := locate_cons_error _ _ _ _ (by rw [merge]; rfl)
        have stuck' : locate (.index i :: p) (.object l' ds : Tree ι κ α) = .error .mismatch :=
          locate_cons_error _ _ _ _ rfl
        rw [stuck, stuck']
        constructor
        · intro impossible
          cases impossible
        · intro both
          cases both.1
      | key k =>
        have children := descend_merge k l l' ms ds
        have direct : locate (.key k :: p) (.object l' ds : Tree ι κ α) =
            (lookupKey k ds).elim (.error .absent) (locate p) := by
          rw [locate, descend]
          cases lookupKey k ds <;> rfl
        rw [lacksKey_cons, locate, children, direct]
        cases present : lookupKey k ms with
        | none => cases lookupKey k ds <;> simp
        | some c =>
          have below : locate p c = .error f := by
            rw [locate, descend, present] at gone
            exact gone
          cases other : lookupKey k ds with
          | none => simp [below]
          | some e => simpa using ih c e below
    · rw [merge_of_not_objects m d objects, gone]
      constructor
      · intro impossible
        cases impossible
      intro both
      obtain ⟨found, lacks⟩ := both
      -- A member that the first tree lacks is looked for in an object, and the second is none.
      exfalso
      cases m with
      | leaf l a => exact not_lacksKey_of_not_object _ _ (fun _ _ same => by cases same) lacks
      | array l es => exact not_lacksKey_of_not_object _ _ (fun _ _ same => by cases same) lacks
      | object l ms =>
        obtain ⟨names, k, r, _, _, split, _, _⟩ := lacks
        have first : ∃ k', s = .key k' := by
          cases names with
          | nil => exact ⟨k, (List.cons.inj split).1⟩
          | cons name names => exact ⟨name, (List.cons.inj split).1⟩
        obtain ⟨k', rfl⟩ := first
        obtain ⟨c, step, _⟩ := locate_cons_success _ _ _ _ found
        cases d with
        | object l' ds => exact objects ⟨⟨l, ms, rfl⟩, l', ds, rfl⟩
        | leaf l' a => cases step
        | array l' es => cases step

end Tree

end ConfigManager.Library
