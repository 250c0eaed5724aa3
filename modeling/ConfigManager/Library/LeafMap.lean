import ConfigManager.Library.TreeFrames

/-!
# A tree as a map from paths to leaf values

A write overrides the map at the paths below its own and nowhere else; a removal
takes the paths below its own out of it, and moves down by one those behind the
removed element. So writes at paths apart from one another may be reordered.
-/

set_option autoImplicit false

namespace ConfigManager.Library

universe u v w

namespace Tree

variable {ι : Type u} {κ : Type v} {α : Type w} [DecidableEq κ]

/-- The value of the leaf at a path. -/
def leafAt (t : Tree ι κ α) (r : List (Step κ)) : Option α :=
  match locate r t with
  | .ok (.leaf _ a) => some a
  | _ => none

theorem leafAt_cons_ok (s : Step κ) (r : List (Step κ)) (t c : Tree ι κ α)
    (step : descend s t = .ok c) : leafAt t (s :: r) = leafAt c r := by
  simp only [leafAt, locate_cons_ok s r t c step]

theorem leafAt_cons_error (s : Step κ) (r : List (Step κ)) (t : Tree ι κ α) (f : Fault)
    (step : descend s t = .error f) : leafAt t (s :: r) = none := by
  simp only [leafAt, locate_cons_error s r t f step]

/-- What a step sees does not depend on how the tree was changed elsewhere. -/
theorem leafAt_cons_congr (s : Step κ) (r : List (Step κ)) (t t' : Tree ι κ α)
    (same : descend s t' = descend s t) : leafAt t' (s :: r) = leafAt t (s :: r) := by
  cases step : descend s t with
  | ok c =>
    rw [step] at same
    rw [leafAt_cons_ok s r t' c same, leafAt_cons_ok s r t c step]
  | error f =>
    rw [step] at same
    rw [leafAt_cons_error s r t' f same, leafAt_cons_error s r t f step]

/-- A node with a child is not a leaf. -/
theorem leafAt_nil_of_descend (s : Step κ) (t c : Tree ι κ α) (step : descend s t = .ok c) :
    leafAt t [] = none := by
  cases t with
  | leaf l a => cases s <;> cases step
  | object l ms => rfl
  | array l es => rfl

theorem leafAt_nil_of_canAppend (s : Step κ) (t : Tree ι κ α) (room : canAppend s t = true) :
    leafAt t [] = none := by
  cases t with
  | leaf l a => cases s <;> cases room
  | object l ms => rfl
  | array l es => rfl

theorem descend_addChild_ne (s other : Step κ) (t c : Tree ι κ α) (room : canAppend s t = true)
    (different : other ≠ s) : descend other (addChild s c t) = descend other t := by
  cases s with
  | key k =>
    cases t with
    | object l ms =>
      cases other with
      | index i => rfl
      | key k' =>
        have apart : k' ≠ k := fun same => different (congrArg Step.key same)
        simp only [addChild, descend, lookup_append, lookupKey, if_neg apart, Option.or_none]
    | leaf l a => cases room
    | array l es => cases room
  | index i =>
    cases t with
    | array l es =>
      cases other with
      | key k => rfl
      | index j =>
        have here : i = es.length := by simpa [canAppend] using room
        have apart : j ≠ es.length := fun same => different (by rw [same, here])
        by_cases inside : j < es.length
        · simp only [addChild, descend, List.getElem?_append_left inside]
        · have beyond : (es ++ [c])[j]? = none := by
            rw [List.getElem?_eq_none]
            rw [List.length_append, List.length_singleton]
            omega
          have beyond' : es[j]? = none := List.getElem?_eq_none (by omega)
          simp only [addChild, descend, beyond, beyond']
    | leaf l a => cases room
    | object l ms => cases room

/-- Fresh containers around a value hold its leaves and no others. -/
theorem leafAt_create (p : List (Step κ)) (v c : Tree Unit κ α) (made : create p v = .ok c)
    (r : List (Step κ)) :
    leafAt c r = if p <+: r then leafAt v (r.drop p.length) else none := by
  induction p generalizing c r with
  | nil =>
    cases made
    rw [if_pos List.nil_prefix]
    rfl
  | cons s p ih =>
    -- Either container has the one child that the step leads to.
    have shape : ∃ c', create p v = .ok c' ∧ leafAt c [] = none ∧ descend s c = .ok c' ∧
        ∀ other, other ≠ s → ∃ f, descend other c = .error f := by
      cases s with
      | key k =>
        simp only [create] at made
        cases below : create p v with
        | error f => rw [below] at made; cases made
        | ok c' =>
          rw [below] at made
          cases made
          refine ⟨c', rfl, rfl, by simp [descend, lookupKey], fun other different => ?_⟩
          cases other with
          | index i => exact ⟨_, rfl⟩
          | key k' =>
            have apart : k' ≠ k := fun same => different (congrArg Step.key same)
            exact ⟨.absent, by simp [descend, lookupKey, apart]⟩
      | index i =>
        simp only [create] at made
        by_cases first : i = 0
        · subst first
          rw [if_pos rfl] at made
          cases below : create p v with
          | error f => rw [below] at made; cases made
          | ok c' =>
            rw [below] at made
            cases made
            refine ⟨c', rfl, rfl, rfl, fun other different => ?_⟩
            cases other with
            | key k => exact ⟨_, rfl⟩
            | index j =>
              have apart : j ≠ 0 := fun same => different (congrArg Step.index same)
              refine ⟨.absent, ?_⟩
              simp only [descend, List.getElem?_eq_none (show [c'].length ≤ j from by
                rw [List.length_singleton]; omega)]
        · rw [if_neg first] at made
          cases made
    obtain ⟨c', below, bare, here, elsewhere⟩ := shape
    cases r with
    | nil => rw [bare, if_neg (by simp)]
    | cons s' r =>
      by_cases same : s' = s
      · subst same
        rw [leafAt_cons_ok s' r c c' here, ih c' below r]
        simp only [List.cons_prefix_cons, true_and, List.length_cons, List.drop_succ_cons]
      · obtain ⟨f, failed⟩ := elsewhere s' same
        rw [leafAt_cons_error s' r c f failed, if_neg]
        intro prefix_
        exact same (List.cons_prefix_cons.mp prefix_).1.symm

/-- A write overrides the map below its path. -/
theorem leafAt_upsert (same : Tree Unit κ α → Tree Unit κ α → Bool) (p : List (Step κ))
    (v t t' : Tree Unit κ α) (success : upsert same p v t = .ok t') (r : List (Step κ)) :
    leafAt t' r = if p <+: r then leafAt v (r.drop p.length) else leafAt t r := by
  induction p generalizing t t' r with
  | nil =>
    simp only [upsert] at success
    split at success
    · cases success
      rw [if_pos List.nil_prefix]
      rfl
    · cases success
  | cons s p ih =>
    simp only [upsert] at success
    cases step : descend s t with
    | ok c =>
      rw [step] at success
      simp only at success
      cases below : upsert same p v c with
      | error f => rw [below] at success; cases success
      | ok c' =>
        rw [below] at success
        cases success
        cases r with
        | nil =>
          rw [if_neg (by simp), leafAt_nil_of_descend s t c step,
            leafAt_nil_of_descend s _ c' (descend_putChild_self s t c c' step)]
        | cons s' r =>
          by_cases here : s' = s
          · subst here
            rw [leafAt_cons_ok s' r _ c' (descend_putChild_self s' t c c' step),
              leafAt_cons_ok s' r t c step, ih c c' below r]
            simp only [List.cons_prefix_cons, true_and, List.length_cons, List.drop_succ_cons]
          · rw [leafAt_cons_congr s' r t _ (descend_putChild_ne s s' t c' here), if_neg]
            intro prefix_
            exact here (List.cons_prefix_cons.mp prefix_).1.symm
    | error f =>
      rw [step] at success
      cases f with
      | mismatch => cases success
      | absent =>
        simp only at success
        by_cases room : canAppend s t = true
        · rw [if_pos room] at success
          cases made : create p v with
          | error f => rw [made] at success; cases success
          | ok c =>
            rw [made] at success
            cases success
            cases r with
            | nil =>
              rw [if_neg (by simp), leafAt_nil_of_canAppend s t room,
                leafAt_nil_of_descend s _ c (descend_addChild_self s t c room)]
            | cons s' r =>
              by_cases here : s' = s
              · subst here
                rw [leafAt_cons_ok s' r _ c (descend_addChild_self s' t c room),
                  leafAt_cons_error s' r t _ step, leafAt_create p v c made r]
                simp only [List.cons_prefix_cons, true_and, List.length_cons, List.drop_succ_cons]
              · rw [leafAt_cons_congr s' r t _ (descend_addChild_ne s s' t c room here), if_neg]
                intro prefix_
                exact here (List.cons_prefix_cons.mp prefix_).1.symm
        · rw [if_neg room] at success
          cases success

/-! ## Removals -/

/-- Where the leaf at a path was before the removal at `p`, if anywhere. -/
def beforeRemove : List (Step κ) → List (Step κ) → Option (List (Step κ))
  | [.index i], .index j :: r => some (.index (if j < i then j else j + 1) :: r)
  | [.key k], .key k' :: r => if k' = k then none else some (.key k' :: r)
  | s :: s' :: q, s'' :: r =>
      if s'' = s then (beforeRemove (s' :: q) r).map (s'' :: ·) else some (s'' :: r)
  | _, r => some r

theorem descend_dropKey (k k' : κ) (t c : Tree ι κ α) (distinct : t.keys.Nodup)
    (step : descend (.key k) t = .ok c) :
    descend (.key k') (dropChild (.key k) t) =
      if k' = k then .error .absent else descend (.key k') t := by
  by_cases same : k' = k
  · subst same
    rw [if_pos rfl]
    exact descend_dropKey_self k' t c distinct step
  · rw [if_neg same]
    cases t with
    | object l ms => simp only [dropChild, descend, lookup_eraseKey_ne k k' ms same]
    | leaf l a => rfl
    | array l es => rfl

theorem descend_dropIndex (i j : Nat) (t c : Tree ι κ α) (step : descend (.index i) t = .ok c) :
    descend (.index j) (dropChild (.index i) t) =
      descend (.index (if j < i then j else j + 1)) t := by
  cases t with
  | leaf l a => cases step
  | object l ms => cases step
  | array l es =>
    by_cases earlier : j < i
    · simp only [dropChild, descend, if_pos earlier, List.getElem?_eraseIdx_of_lt earlier]
    · simp only [dropChild, descend, if_neg earlier,
        List.getElem?_eraseIdx_of_ge (Nat.le_of_not_lt earlier)]

/-- A removal takes the map below its path out, and moves what is behind it. -/
theorem leafAt_remove (p : List (Step κ)) (t t' : Tree ι κ α)
    (distinct : Every (fun x => x.keys.Nodup) t) (success : remove p t = .ok t')
    (r : List (Step κ)) :
    leafAt t' r = (beforeRemove p r).bind (leafAt t) := by
  induction p generalizing t t' r with
  | nil => cases success
  | cons s p ih =>
    cases p with
    | nil =>
      simp only [remove] at success
      cases step : descend s t with
      | error f => rw [step] at success; cases success
      | ok c =>
        rw [step] at success
        cases success
        cases s with
        | key k =>
          have object : ∃ l ms, t = .object l ms := by
            cases t with
            | object l ms => exact ⟨l, ms, rfl⟩
            | leaf l a => cases step
            | array l es => cases step
          obtain ⟨l, ms, rfl⟩ := object
          cases r with
          | nil => rfl
          | cons s' r =>
            cases s' with
            | index j => rfl
            | key k' =>
              have seen := descend_dropKey k k' _ c ((every_iff _ _).mp distinct).1 step
              simp only [beforeRemove]
              by_cases same : k' = k
              · rw [if_pos same] at seen ⊢
                exact leafAt_cons_error _ r _ _ seen
              · rw [if_neg same] at seen ⊢
                exact leafAt_cons_congr _ r _ _ seen
        | index i =>
          have array : ∃ l es, t = .array l es := by
            cases t with
            | array l es => exact ⟨l, es, rfl⟩
            | leaf l a => cases step
            | object l ms => cases step
          obtain ⟨l, es, rfl⟩ := array
          cases r with
          | nil => rfl
          | cons s' r =>
            cases s' with
            | key k => rfl
            | index j =>
              have seen := descend_dropIndex i j _ c step
              simp only [beforeRemove, Option.bind_some]
              cases there : descend (.index (if j < i then j else j + 1)) (.array l es : Tree ι κ α) with
              | ok c' =>
                rw [there] at seen
                rw [leafAt_cons_ok _ r _ c' seen, leafAt_cons_ok _ r _ c' there]
              | error f =>
                rw [there] at seen
                rw [leafAt_cons_error _ r _ f seen, leafAt_cons_error _ r _ f there]
    | cons s₂ q =>
      simp only [remove] at success
      cases step : descend s t with
      | error f => rw [step] at success; cases success
      | ok c =>
        rw [step] at success
        simp only at success
        cases below : remove (s₂ :: q) c with
        | error f => rw [below] at success; cases success
        | ok c' =>
          rw [below] at success
          cases success
          have distinct' : Every (fun x => x.keys.Nodup) c :=
            ((every_iff _ _).mp distinct).2 c (descend_mem s t c step)
          have self := descend_putChild_self s t c c' step
          cases r with
          | nil =>
            have before : beforeRemove (s :: s₂ :: q) [] = some [] := by cases s <;> rfl
            rw [before, Option.bind_some, leafAt_nil_of_descend s t c step,
              leafAt_nil_of_descend s _ c' self]
          | cons s' r =>
            have before : beforeRemove (s :: s₂ :: q) (s' :: r) =
                if s' = s then (beforeRemove (s₂ :: q) r).map (s' :: ·) else some (s' :: r) := by
              cases s <;> cases s' <;> rfl
            rw [before]
            by_cases here : s' = s
            · subst here
              rw [if_pos rfl, leafAt_cons_ok s' r _ c' self, ih c c' distinct' below r]
              cases beforeRemove (s₂ :: q) r with
              | none => rfl
              | some r' => simp only [Option.map_some, Option.bind_some, leafAt_cons_ok s' r' t c step]
            · rw [if_neg here]
              exact leafAt_cons_congr s' r t _ (descend_putChild_ne s s' t c' here)

end Tree

end ConfigManager.Library
