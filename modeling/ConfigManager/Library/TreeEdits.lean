import ConfigManager.Library.TreePaths

/-!
# Reference edits of an ordered tree

`upsert`, `remove` and `merge` on trees, with no storage behind them. `upsert`
creates the containers a path still lacks and never changes the kind of a node
that exists; `remove` takes one subtree out; `merge` adds what only the second
tree has. `afterRemove` and `afterReplace` say where a node is found after an
edit, or that the edit detached it.
-/

set_option autoImplicit false

namespace ConfigManager.Library.Tree

universe u v w

variable {ι : Type u} {κ : Type v} {α : Type w} [DecidableEq κ]

/-! ## Writing -/

/-- The chain of fresh containers that a path still lacks, with `v` at its end.
A fresh array is empty, so an index among them can only be `0`. -/
def create : List (Step κ) → Tree Unit κ α → Except Fault (Tree Unit κ α)
  | [], v => .ok v
  | .key k :: p, v => (create p v).map fun c => .object () [(k, c)]
  | .index i :: p, v =>
      if i = 0 then (create p v).map fun c => .array () [c] else .error .absent

/-- Write `v` at a path: in place when the node exists and is of the same kind,
else under freshly created containers. -/
def upsert (same : Tree Unit κ α → Tree Unit κ α → Bool) :
    List (Step κ) → Tree Unit κ α → Tree Unit κ α → Except Fault (Tree Unit κ α)
  | [], v, t => if same t v then .ok v else .error .mismatch
  | s :: p, v, t =>
      match descend s t with
      | .ok c => (upsert same p v c).map fun c' => putChild s c' t
      | .error .absent =>
          if canAppend s t then (create p v).map fun c => addChild s c t else .error .absent
      | .error .mismatch => .error .mismatch

/-! ## Removing -/

def remove : List (Step κ) → Tree ι κ α → Except Fault (Tree ι κ α)
  | [], _ => .error .absent
  | [s], t => (descend s t).map fun _ => dropChild s t
  | s :: p, t =>
      match descend s t with
      | .ok c => (remove p c).map fun c' => putChild s c' t
      | .error f => .error f

/-- `remove` fails exactly as `locate` does, and otherwise edits the parent. -/
theorem remove_eq (q : List (Step κ)) (s : Step κ) (t : Tree ι κ α) :
    remove (q ++ [s]) t =
      match locate q t with
      | .error f => .error f
      | .ok x => (descend s x).map fun _ => replace q (dropChild s x) t := by
  induction q generalizing t with
  | nil => rfl
  | cons s' q ih =>
    have longer : ∃ s'' r, q ++ [s] = s'' :: r := by
      cases q with
      | nil => exact ⟨s, [], rfl⟩
      | cons a b => exact ⟨a, b ++ [s], rfl⟩
    obtain ⟨s'', r, shape⟩ := longer
    cases step : descend s' t with
    | error f =>
      rw [List.cons_append, shape]
      simp only [remove, step, locate_cons_error s' q t f step]
    | ok c =>
      have unfolded : remove (s' :: (q ++ [s])) t =
          (remove (q ++ [s]) c).map fun c' => putChild s' c' t := by
        rw [shape]
        simp only [remove, step]
      rw [List.cons_append, unfolded, ih c, locate_cons_ok _ _ _ _ step]
      cases located : locate q c with
      | error f => rfl
      | ok x =>
        simp only []
        cases descend s x with
        | error f => rfl
        | ok y => simp only [Except.map, replace_cons_ok _ _ _ _ _ step]

theorem remove_unresolved (q : List (Step κ)) (s : Step κ) (t : Tree ι κ α) (f : Fault)
    (failed : locate (q ++ [s]) t = .error f) : remove (q ++ [s]) t = .error f := by
  rw [remove_eq]
  cases anchor : locate q t with
  | error g =>
    rw [locate_append_error q [s] t g anchor] at failed
    cases failed
    rfl
  | ok x =>
    rw [locate_append q [s] t x anchor] at failed
    cases step : descend s x with
    | ok c => simp [locate, step] at failed
    | error g =>
      rw [locate_cons_error s [] x g step] at failed
      cases failed
      simp only [Except.map, step]

theorem remove_resolved (q : List (Step κ)) (s : Step κ) (t x c : Tree ι κ α)
    (anchor : locate q t = .ok x) (step : descend s x = .ok c) :
    remove (q ++ [s]) t = .ok (replace q (dropChild s x) t) := by
  rw [remove_eq, anchor]
  simp only [Except.map, step]

/-! ## Merging -/

mutual
/-- `m` with what only `d` has: members missing from an object are appended in
`d`'s order, and the merge descends where both sides hold an object. -/
def merge : Tree ι κ α → Tree ι κ α → Tree ι κ α
  | .object l ms, .object _ ds =>
      .object l (mergeMembers ms ds ++ ds.filter fun e => (lookupKey e.1 ms).isNone)
  | .object l ms, .leaf _ _ => .object l ms
  | .object l ms, .array _ _ => .object l ms
  | .leaf l a, _ => .leaf l a
  | .array l es, _ => .array l es
def mergeMembers : List (κ × Tree ι κ α) → List (κ × Tree ι κ α) → List (κ × Tree ι κ α)
  | [], _ => []
  | (k, c) :: ms, ds =>
      (k, match lookupKey k ds with
          | some d => merge c d
          | none => c) :: mergeMembers ms ds
end

/-- What one member of `d` adds to the members of an object. -/
def mergeMember (ms : List (κ × Tree ι κ α)) (e : κ × Tree ι κ α) : List (κ × Tree ι κ α) :=
  match lookupKey e.1 ms with
  | none => ms ++ [e]
  | some c => updateKey e.1 (merge c e.2) ms

@[simp] theorem mergeMembers_keys (ms ds : List (κ × Tree ι κ α)) :
    (mergeMembers ms ds).map Prod.fst = ms.map Prod.fst := by
  induction ms with
  | nil => rfl
  | cons m rest ih => rw [mergeMembers, List.map_cons, List.map_cons, ih]

theorem mergeMembers_nil (ms : List (κ × Tree ι κ α)) : mergeMembers ms [] = ms := by
  induction ms with
  | nil => rfl
  | cons m rest ih => rw [mergeMembers, ih]; rfl

theorem mergeMembers_append (ms ns ds : List (κ × Tree ι κ α)) :
    mergeMembers (ms ++ ns) ds = mergeMembers ms ds ++ mergeMembers ns ds := by
  induction ms with
  | nil => rfl
  | cons m rest ih => rw [List.cons_append, mergeMembers, ih, mergeMembers, List.cons_append]

theorem mergeMembers_cons_absent (ms ds : List (κ × Tree ι κ α)) (e : κ × Tree ι κ α)
    (absent : e.1 ∉ ms.map Prod.fst) : mergeMembers ms (e :: ds) = mergeMembers ms ds := by
  induction ms with
  | nil => rfl
  | cons m rest ih =>
    rw [List.map_cons, List.mem_cons, not_or] at absent
    obtain ⟨k, d⟩ := e
    rw [mergeMembers, mergeMembers, ih absent.2, lookup_cons_eq, if_neg (Ne.symm absent.1)]

theorem mergeMembers_cons_present (ms ds : List (κ × Tree ι κ α)) (e : κ × Tree ι κ α)
    (c : Tree ι κ α) (distinct : (ms.map Prod.fst).Nodup) (present : lookupKey e.1 ms = some c)
    (fresh : e.1 ∉ ds.map Prod.fst) :
    mergeMembers ms (e :: ds) = mergeMembers (updateKey e.1 (merge c e.2) ms) ds := by
  obtain ⟨k, d⟩ := e
  induction ms with
  | nil => cases present
  | cons m rest ih =>
    obtain ⟨k', old⟩ := m
    rw [List.map_cons, List.nodup_cons] at distinct
    rw [lookup_cons_eq] at present
    by_cases h : k = k'
    · subst h
      simp only [if_true, Option.some.injEq] at present
      subst present
      have unseen : lookupKey k ds = none := (lookup_none_iff k ds).mpr fresh
      simp only [updateKey, if_true, mergeMembers, lookup_cons_eq, unseen,
        mergeMembers_cons_absent rest ds (k, d) distinct.1]
    · simp only [if_neg h] at present
      simp only [updateKey, if_neg h, mergeMembers, lookup_cons_eq, if_neg (Ne.symm h),
        ih distinct.2 present]

/-- Merging member by member, in the order of `ds`, is the merge of the members. -/
theorem foldl_mergeMember (ms ds : List (κ × Tree ι κ α)) (distinct : (ms.map Prod.fst).Nodup)
    (distinct' : (ds.map Prod.fst).Nodup) :
    ds.foldl mergeMember ms =
      mergeMembers ms ds ++ ds.filter fun e => (lookupKey e.1 ms).isNone := by
  induction ds generalizing ms with
  | nil => simp [mergeMembers_nil]
  | cons e rest ih =>
    rw [List.map_cons, List.nodup_cons] at distinct'
    rw [List.foldl_cons]
    cases present : lookupKey e.1 ms with
    | none =>
      have absent := (lookup_none_iff e.1 ms).mp present
      have extended : ((ms ++ [e]).map Prod.fst).Nodup := by
        rw [List.map_append, List.nodup_append]
        refine ⟨distinct, by simp, ?_⟩
        rintro k inside _ last rfl
        simp only [List.map_cons, List.map_nil, List.mem_singleton] at last
        exact absent (last ▸ inside)
      have seen : rest.filter (fun d => (lookupKey d.1 (ms ++ [e])).isNone) =
          rest.filter fun d => (lookupKey d.1 ms).isNone := by
        apply List.filter_congr
        intro d inside
        have different : d.1 ≠ e.1 := fun equal =>
          distinct'.1 (equal ▸ List.mem_map_of_mem inside)
        rw [lookup_append, lookup_cons_eq, if_neg different]
        cases lookupKey d.1 ms <;> rfl
      have last : mergeMembers [e] rest = [e] := by
        rw [mergeMembers, (lookup_none_iff e.1 rest).mpr distinct'.1]
        rfl
      rw [mergeMember, present]
      simp only []
      rw [ih _ extended distinct'.2, seen, mergeMembers_append, last,
        mergeMembers_cons_absent ms rest e absent, List.filter_cons_of_pos (by simp [present]),
        List.append_assoc]
      rfl
    | some c =>
      have updated : ((updateKey e.1 (merge c e.2) ms).map Prod.fst).Nodup := by
        rwa [updateKey_keys]
      have seen : (fun d : κ × Tree ι κ α =>
          (lookupKey d.1 (updateKey e.1 (merge c e.2) ms)).isNone) =
          fun d => (lookupKey d.1 ms).isNone := by
        funext d
        rw [Bool.eq_iff_iff, Option.isNone_iff_eq_none, Option.isNone_iff_eq_none,
          lookup_none_iff, lookup_none_iff, updateKey_keys]
      rw [mergeMember, present]
      simp only []
      rw [ih _ updated distinct'.2, seen,
        mergeMembers_cons_present ms rest e c distinct present distinct'.1,
        List.filter_cons_of_neg (by simp [present])]

/-- Where not both sides hold an object the first side wins unchanged. -/
theorem merge_of_not_objects (m d : Tree ι κ α)
    (notBoth : ¬ ((∃ l ms, m = .object l ms) ∧ ∃ l ds, d = .object l ds)) : merge m d = m := by
  cases m with
  | leaf l a => cases d <;> rfl
  | array l es => cases d <;> rfl
  | object l ms =>
    cases d with
    | leaf l' a => rfl
    | array l' es => rfl
    | object l' ds => exact absurd ⟨⟨l, ms, rfl⟩, l', ds, rfl⟩ notBoth

theorem mergeMembers_self_of (ms ds : List (κ × Tree ι κ α))
    (fixed : ∀ m ∈ ms, ∀ d, lookupKey m.1 ds = some d → merge m.2 d = m.2) :
    mergeMembers ms ds = ms := by
  induction ms with
  | nil => rfl
  | cons m rest ih =>
    obtain ⟨k, c⟩ := m
    rw [mergeMembers, ih fun m inside => fixed m (List.mem_cons_of_mem _ inside)]
    cases found : lookupKey k ds with
    | none => rfl
    | some d => simp only [fixed (k, c) (by simp) d found]

theorem filter_absent_nil (ms ds : List (κ × Tree ι κ α))
    (covered : ∀ d ∈ ds, d.1 ∈ ms.map Prod.fst) :
    (ds.filter fun e => (lookupKey e.1 ms).isNone) = [] := by
  apply List.filter_eq_nil_iff.mpr
  intro d inside none
  rw [Option.isNone_iff_eq_none, lookup_none_iff] at none
  exact none (covered d inside)

/-- A tree with distinct keys has nothing to add to itself. -/
theorem merge_self (t : Tree ι κ α) (distinct : Every (fun s => s.keys.Nodup) t) :
    merge t t = t := by
  induction t using children_induction with
  | node t ih =>
    obtain ⟨here, below⟩ := (every_iff _ t).mp distinct
    cases t with
    | leaf l a => rfl
    | array l es => rfl
    | object l ms =>
      have members : mergeMembers ms ms = ms := by
        apply mergeMembers_self_of
        intro m inside d found
        rw [lookup_of_mem ms here m inside, Option.some.injEq] at found
        have child : m.2 ∈ (Tree.object l ms).children := by
          simp only [children, List.mem_map]
          exact ⟨m, inside, rfl⟩
        rw [← found]
        exact ih m.2 child (below m.2 child)
      rw [merge, members, filter_absent_nil ms ms fun d inside => List.mem_map_of_mem inside,
        List.append_nil]

/-- Once merged, nothing is left to merge. -/
theorem merge_merge (m d : Tree ι κ α) (distinct : Every (fun s => s.keys.Nodup) d) :
    merge (merge m d) d = merge m d := by
  induction m using children_induction generalizing d with
  | node m ih =>
    cases m with
    | leaf l a => cases d <;> rfl
    | array l es => cases d <;> rfl
    | object l ms =>
      cases d with
      | leaf l' a => rfl
      | array l' es => rfl
      | object l' ds =>
        obtain ⟨here, below⟩ := (every_iff _ _).mp distinct
        have childOf : ∀ k e, lookupKey k ds = some e → Every (fun s => s.keys.Nodup) e := by
          intro k e found
          apply below
          simp only [children, List.mem_map]
          exact ⟨(k, e), lookup_mem k ds e found, rfl⟩
        have old : mergeMembers (mergeMembers ms ds) ds = mergeMembers ms ds := by
          clear distinct here below
          simp only [children] at ih
          induction ms with
          | nil => rfl
          | cons m rest tail =>
            obtain ⟨k, c⟩ := m
            rw [mergeMembers, mergeMembers,
              tail fun c inside => ih c (by simp at inside ⊢; exact .inr inside)]
            cases found : lookupKey k ds with
            | none => rfl
            | some e => simp only [ih c (by simp) e (childOf k e found)]
        have added : mergeMembers (ds.filter fun e => (lookupKey e.1 ms).isNone) ds =
            ds.filter fun e => (lookupKey e.1 ms).isNone := by
          apply mergeMembers_self_of
          intro e inside d found
          have member := List.mem_of_mem_filter inside
          rw [lookup_of_mem ds here e member, Option.some.injEq] at found
          rw [← found]
          exact merge_self e.2 (childOf e.1 e.2 (lookup_of_mem ds here e member))
        have covered : ∀ e ∈ ds, e.1 ∈ (mergeMembers ms ds ++
            ds.filter fun e => (lookupKey e.1 ms).isNone).map Prod.fst := by
          intro e inside
          rw [List.map_append, List.mem_append, mergeMembers_keys]
          by_cases present : e.1 ∈ ms.map Prod.fst
          · exact .inl present
          · refine .inr (List.mem_map_of_mem (List.mem_filter.mpr ⟨inside, ?_⟩))
            rw [Option.isNone_iff_eq_none]
            exact (lookup_none_iff e.1 ms).mpr present
        rw [merge, merge, mergeMembers_append, old, added, filter_absent_nil _ ds covered,
          List.append_nil]

/-! ## Positions after an edit -/

/-- Where the node at a position is found once the subtree at the first path is
removed; `none` when the node went with it. Later array elements move up by one. -/
def afterRemove : List (Step κ) → List (Step κ) → Option (List (Step κ))
  | [], _ => none
  | _ :: _, [] => some []
  | [.index i], .index j :: r =>
      if j = i then none else if i < j then some (.index (j - 1) :: r) else some (.index j :: r)
  | s :: q, s' :: r => if s = s' then (afterRemove q r).map (s' :: ·) else some (s' :: r)

/-- Where the node at a position is found once the contents of the node at the
first path are replaced: its descendants are gone, everything else stays. -/
def afterReplace (q p : List (Step κ)) : Option (List (Step κ)) :=
  if q <+: p ∧ q ≠ p then none else some p

theorem locate_afterRemove_one (s : Step κ) (t c y : Tree ι κ α) (p : List (Step κ))
    (step : descend s t = .ok c) (here : locate p t = .ok y) :
    match afterRemove [s] p with
    | some p' => ∃ y', locate p' (dropChild s t) = .ok y' ∧ y'.label = y.label
    | none => [s] <+: p := by
  cases p with
  | nil =>
    cases here
    exact ⟨_, rfl, dropChild_label s _⟩
  | cons s' r =>
    obtain ⟨d, step', rest⟩ := locate_cons_success s' r t y here
    cases s with
    | key k =>
      cases t with
      | leaf l a => simp [descend] at step
      | array l es => simp [descend] at step
      | object l ms =>
        cases s' with
        | index j => simp [descend] at step'
        | key k' =>
          by_cases equal : k = k'
          · subst equal
            simp [afterRemove]
          · have names : k' ≠ k := Ne.symm equal
            simp only [afterRemove, Step.key.injEq, if_neg equal]
            refine ⟨y, ?_, rfl⟩
            rw [locate_cons_ok _ _ _ d]
            · exact rest
            · simpa only [descend, dropChild, lookup_eraseKey_ne k k' ms names] using step'
    | index i =>
      cases t with
      | leaf l a => simp [descend] at step
      | object l ms => simp [descend] at step
      | array l es =>
        cases s' with
        | key k => simp [descend] at step'
        | index j =>
          have found : es[j]? = some d := by
            simp only [descend] at step'
            cases h : es[j]? with
            | none => simp [h] at step'
            | some e => simpa [h] using step'
          have moved : ∀ j', (es.eraseIdx i)[j']? = some d →
              ∃ y', locate (.index j' :: r) (dropChild (.index i) (Tree.array l es : Tree ι κ α)) =
                .ok y' ∧ y'.label = y.label := by
            intro j' at'
            refine ⟨y, ?_, rfl⟩
            rw [locate_cons_ok _ _ _ d]
            · exact rest
            · simp only [descend, dropChild, at']
          by_cases equal : j = i
          · subst equal
            simp [afterRemove]
          · simp only [afterRemove, if_neg equal]
            by_cases later : i < j
            · rw [if_pos later]
              apply moved
              rw [List.getElem?_eraseIdx_of_ge (by omega)]
              rwa [Nat.sub_add_cancel (by omega)]
            · rw [if_neg later]
              apply moved
              rwa [List.getElem?_eraseIdx_of_lt (by omega)]

/-- A node that `remove` does not detach is found, with its label, at the tracked position. -/
theorem locate_afterRemove (q : List (Step κ)) (s : Step κ) (t x c y : Tree ι κ α)
    (p : List (Step κ)) (parent : locate q t = .ok x) (step : descend s x = .ok c)
    (here : locate p t = .ok y) :
    match afterRemove (q ++ [s]) p with
    | some p' => ∃ y', locate p' (replace q (dropChild s x) t) = .ok y' ∧ y'.label = y.label
    | none => q ++ [s] <+: p := by
  induction q generalizing t p with
  | nil =>
    cases parent
    exact locate_afterRemove_one s x c y p step here
  | cons s' q ih =>
    obtain ⟨d, down, rest⟩ := locate_cons_success s' q t x parent
    rw [replace_cons_ok _ _ _ _ _ down]
    have longer : ∃ s'' r, q ++ [s] = s'' :: r := by
      cases q with
      | nil => exact ⟨s, [], rfl⟩
      | cons a b => exact ⟨a, b ++ [s], rfl⟩
    obtain ⟨s'', r', shape⟩ := longer
    have unfolded : ∀ s₀ r, afterRemove (s' :: (q ++ [s])) (s₀ :: r) =
        if s' = s₀ then (afterRemove (q ++ [s]) r).map (s₀ :: ·) else some (s₀ :: r) := by
      intro s₀ r
      rw [shape]
      simp only [afterRemove]
    cases p with
    | nil =>
      refine ⟨_, rfl, ?_⟩
      cases here
      exact putChild_label s' _ _
    | cons s₀ r =>
      obtain ⟨e, step₀, rest₀⟩ := locate_cons_success s₀ r _ y here
      rw [List.cons_append, unfolded]
      by_cases equal : s' = s₀
      · subst equal
        rw [down] at step₀
        cases step₀
        rw [if_pos rfl]
        have inner := ih d r rest rest₀
        cases tracked : afterRemove (q ++ [s]) r with
        | none =>
          rw [tracked] at inner
          exact List.cons_prefix_cons.mpr ⟨rfl, inner⟩
        | some p' =>
          rw [tracked] at inner
          obtain ⟨y', located, labelled⟩ := inner
          refine ⟨y', ?_, labelled⟩
          rw [locate_cons_ok _ _ _ _ (descend_putChild_self s' t d _ down)]
          exact located
      · rw [if_neg equal]
        refine ⟨y, ?_, rfl⟩
        rw [locate_cons_ok s₀ r _ e
          (by rw [descend_putChild_ne s' s₀ t _ (Ne.symm equal)]; exact step₀)]
        exact rest₀

/-- A node below a position has its labels among those of the node there. -/
theorem label_mem_of_prefix [DecidableEq ι] (q p : List (Step κ)) (t x y : Tree ι κ α)
    (below : q <+: p) (found : locate q t = .ok x) (here : locate p t = .ok y) :
    y.label ∈ x.labels := by
  obtain ⟨r, rfl⟩ := below
  rw [locate_append q r t x found] at here
  have counted := count_locate_le r x y here y.label
  rw [← List.count_pos_iff]
  have own : 0 < y.labels.count y.label := by
    rw [count_labels, if_pos rfl]
    omega
  omega

end ConfigManager.Library.Tree
