import ConfigManager.Library.LabelledTree

/-!
# Positions in a labelled tree

`descend` takes one step, `locate` a path. `putChild`, `addChild` and
`dropChild` are the three ways to edit the children of one node, and `replace`
carries an edit up from a path to the root. Each edit keeps every label outside
the part it touches, which is stated once for the children list and once for
the multiset of labels.
-/

set_option autoImplicit false

namespace ConfigManager.Library.Tree

universe u v w

variable {ι : Type u} {κ : Type v} {α : Type w} [DecidableEq κ]

/-- The child that the step names, or why there is none. -/
def descend : Step κ → Tree ι κ α → Except Fault (Tree ι κ α)
  | .key k, .object _ ms =>
      match lookupKey k ms with
      | some c => .ok c
      | none => .error .absent
  | .index i, .array _ es =>
      match es[i]? with
      | some c => .ok c
      | none => .error .absent
  | _, _ => .error .mismatch

/-- The node at the end of the steps, or the first fault on the way. -/
def locate : List (Step κ) → Tree ι κ α → Except Fault (Tree ι κ α)
  | [], t => .ok t
  | s :: p, t =>
      match descend s t with
      | .ok c => locate p c
      | .error f => .error f

/-- Put `c` in the place of the child that `s` leads to. -/
def putChild : Step κ → Tree ι κ α → Tree ι κ α → Tree ι κ α
  | .key k, c, .object l ms => .object l (updateKey k c ms)
  | .index i, c, .array l es => .array l (es.set i c)
  | _, _, t => t

/-- Append `c` as a new child, under the name the step gives it. -/
def addChild : Step κ → Tree ι κ α → Tree ι κ α → Tree ι κ α
  | .key k, c, .object l ms => .object l (ms ++ [(k, c)])
  | .index _, c, .array l es => .array l (es ++ [c])
  | _, _, t => t

/-- Take the child that `s` leads to out of the node. -/
def dropChild : Step κ → Tree ι κ α → Tree ι κ α
  | .key k, .object l ms => .object l (eraseKey k ms)
  | .index i, .array l es => .array l (es.eraseIdx i)
  | _, t => t

/-- Whether `s` names the place right after the last child. -/
def canAppend : Step κ → Tree ι κ α → Bool
  | .key k, .object _ ms => (lookupKey k ms).isNone
  | .index i, .array _ es => i == es.length
  | _, _ => false

/-- Put `n` at the end of the steps; without such a place nothing changes. -/
def replace : List (Step κ) → Tree ι κ α → Tree ι κ α → Tree ι κ α
  | [], n, _ => n
  | s :: p, n, t =>
      match descend s t with
      | .ok c => putChild s (replace p n c) t
      | .error _ => t

@[simp] theorem locate_nil (t : Tree ι κ α) : locate [] t = .ok t := rfl

theorem locate_cons_ok (s : Step κ) (p : List (Step κ)) (t c : Tree ι κ α)
    (step : descend s t = .ok c) : locate (s :: p) t = locate p c := by
  simp only [locate, step]

theorem locate_cons_error (s : Step κ) (p : List (Step κ)) (t : Tree ι κ α) (f : Fault)
    (step : descend s t = .error f) : locate (s :: p) t = .error f := by
  simp only [locate, step]

theorem locate_cons_success (s : Step κ) (p : List (Step κ)) (t x : Tree ι κ α)
    (success : locate (s :: p) t = .ok x) : ∃ c, descend s t = .ok c ∧ locate p c = .ok x := by
  cases step : descend s t with
  | error f => rw [locate_cons_error s p t f step] at success; cases success
  | ok c => exact ⟨c, rfl, by rwa [locate_cons_ok s p t c step] at success⟩

theorem replace_cons_ok (s : Step κ) (p : List (Step κ)) (n t c : Tree ι κ α)
    (step : descend s t = .ok c) : replace (s :: p) n t = putChild s (replace p n c) t := by
  simp only [replace, step]

/-- A path is followed in parts. -/
theorem locate_append (p q : List (Step κ)) (t x : Tree ι κ α) (found : locate p t = .ok x) :
    locate (p ++ q) t = locate q x := by
  induction p generalizing t with
  | nil => cases found; rfl
  | cons s p ih =>
    obtain ⟨c, step, rest⟩ := locate_cons_success s p t x found
    rw [List.cons_append, locate_cons_ok _ _ _ _ step]
    exact ih c rest

theorem locate_append_error (p q : List (Step κ)) (t : Tree ι κ α) (f : Fault)
    (failed : locate p t = .error f) : locate (p ++ q) t = .error f := by
  induction p generalizing t with
  | nil => cases failed
  | cons s p ih =>
    rw [List.cons_append]
    cases step : descend s t with
    | error g => rw [locate_cons_error _ _ _ _ step] at failed ⊢; exact failed
    | ok c =>
      rw [locate_cons_ok _ _ _ _ step] at failed ⊢
      exact ih c failed

theorem locate_append_success (p q : List (Step κ)) (t x : Tree ι κ α)
    (success : locate (p ++ q) t = .ok x) : ∃ y, locate p t = .ok y ∧ locate q y = .ok x := by
  cases found : locate p t with
  | error f => rw [locate_append_error p q t f found] at success; cases success
  | ok y => exact ⟨y, rfl, by rwa [locate_append p q t y found] at success⟩

/-! ## One node: the children list under each edit -/

/-- A step that succeeds names a position among the children, and both in-place
edits act at that position. -/
theorem descend_position (s : Step κ) (t c : Tree ι κ α) (step : descend s t = .ok c) :
    ∃ j, t.children[j]? = some c ∧ (dropChild s t).children = t.children.eraseIdx j ∧
      ∀ c', (putChild s c' t).children = t.children.set j c' := by
  cases s with
  | key k =>
    cases t with
    | object l ms =>
      simp only [descend] at step
      cases found : lookupKey k ms with
      | none => simp [found] at step
      | some d =>
        simp only [found, Except.ok.injEq] at step
        subst step
        obtain ⟨j, here, erased, updated⟩ := lookup_position k ms d found
        refine ⟨j, by simp [children, here], ?_, fun c' => ?_⟩
        · simp only [dropChild, children, erased, List.eraseIdx_map]
        · simp only [putChild, children, updated, List.map_set]
    | leaf l a => simp [descend] at step
    | array l es => simp [descend] at step
  | index i =>
    cases t with
    | array l es =>
      simp only [descend] at step
      cases found : es[i]? with
      | none => simp [found] at step
      | some d =>
        simp only [found, Except.ok.injEq] at step
        subst step
        exact ⟨i, found, rfl, fun c' => rfl⟩
    | leaf l a => simp [descend] at step
    | object l ms => simp [descend] at step

theorem descend_mem (s : Step κ) (t c : Tree ι κ α) (step : descend s t = .ok c) :
    c ∈ t.children := by
  obtain ⟨j, here, _⟩ := descend_position s t c step
  exact List.mem_of_getElem? here

/-- What holds of every node holds of every node below a position. -/
theorem Every.locate {p : Tree ι κ α → Prop} {t x : Tree ι κ α} (h : Every p t)
    (steps : List (Step κ)) (found : locate steps t = .ok x) : Every p x := by
  induction steps generalizing t with
  | nil => cases found; exact h
  | cons s steps ih =>
    obtain ⟨c, step, rest⟩ := locate_cons_success s steps t x found
    exact ih (((every_iff p t).mp h).2 c (descend_mem s t c step)) rest

@[simp] theorem putChild_label (s : Step κ) (c t : Tree ι κ α) :
    (putChild s c t).label = t.label := by
  cases s <;> cases t <;> rfl

omit [DecidableEq κ] in
@[simp] theorem addChild_label (s : Step κ) (c t : Tree ι κ α) :
    (addChild s c t).label = t.label := by
  cases s <;> cases t <;> rfl

@[simp] theorem dropChild_label (s : Step κ) (t : Tree ι κ α) :
    (dropChild s t).label = t.label := by
  cases s <;> cases t <;> rfl

theorem addChild_children (s : Step κ) (c t : Tree ι κ α) (room : canAppend s t = true) :
    (addChild s c t).children = t.children ++ [c] := by
  cases s <;> cases t <;> simp_all [canAppend, addChild, children]

/-! ## Labels as a multiset, counted one label at a time -/

section Count
variable [DecidableEq ι]

omit [DecidableEq κ] in
theorem count_flatMap_set (cs : List (Tree ι κ α)) (j : Nat) (c c' : Tree ι κ α)
    (here : cs[j]? = some c) (i : ι) :
    ((cs.set j c').flatMap labels).count i + c.labels.count i =
      (cs.flatMap labels).count i + c'.labels.count i := by
  induction cs generalizing j with
  | nil => simp at here
  | cons d rest ih =>
    cases j with
    | zero =>
      simp only [List.getElem?_cons_zero, Option.some.injEq] at here
      subst here
      simp only [List.set_cons_zero, List.flatMap_cons, List.count_append]
      omega
    | succ j =>
      have tail := ih j (by simpa using here)
      simp only [List.set_cons_succ, List.flatMap_cons, List.count_append]
      omega

omit [DecidableEq κ] in
theorem count_flatMap_eraseIdx (cs : List (Tree ι κ α)) (j : Nat) (c : Tree ι κ α)
    (here : cs[j]? = some c) (i : ι) :
    ((cs.eraseIdx j).flatMap labels).count i + c.labels.count i =
      (cs.flatMap labels).count i := by
  induction cs generalizing j with
  | nil => simp at here
  | cons d rest ih =>
    cases j with
    | zero =>
      simp only [List.getElem?_cons_zero, Option.some.injEq] at here
      subst here
      simp only [List.eraseIdx_zero, List.tail_cons, List.flatMap_cons, List.count_append]
      omega
    | succ j =>
      have tail := ih j (by simpa using here)
      simp only [List.eraseIdx_cons_succ, List.flatMap_cons, List.count_append]
      omega

omit [DecidableEq κ] in
/-- A label is counted at the node and below its children. The counts say that an edit neither
lends nor loses a label. -/
theorem count_labels (t : Tree ι κ α) (i : ι) :
    t.labels.count i = (if t.label = i then 1 else 0) + (t.children.flatMap labels).count i := by
  rw [labels_eq, List.count_cons]
  by_cases h : t.label = i
  · simp only [h, beq_self_eq_true, if_true]
    omega
  · simp [h]

theorem count_putChild (s : Step κ) (t c c' : Tree ι κ α) (step : descend s t = .ok c) (i : ι) :
    (putChild s c' t).labels.count i + c.labels.count i =
      t.labels.count i + c'.labels.count i := by
  obtain ⟨j, here, _, updated⟩ := descend_position s t c step
  have below := count_flatMap_set t.children j c c' here i
  rw [count_labels, count_labels t, updated, putChild_label]
  omega

theorem count_dropChild (s : Step κ) (t c : Tree ι κ α) (step : descend s t = .ok c) (i : ι) :
    (dropChild s t).labels.count i + c.labels.count i = t.labels.count i := by
  obtain ⟨j, here, erased, _⟩ := descend_position s t c step
  have below := count_flatMap_eraseIdx t.children j c here i
  rw [count_labels, count_labels t, erased, dropChild_label]
  omega

theorem count_addChild (s : Step κ) (t c : Tree ι κ α) (room : canAppend s t = true) (i : ι) :
    (addChild s c t).labels.count i = t.labels.count i + c.labels.count i := by
  rw [count_labels, count_labels t, addChild_children s c t room, addChild_label]
  simp only [List.flatMap_append, List.flatMap_cons, List.flatMap_nil, List.count_append,
    List.append_nil]
  omega

/-- Replacing trades the labels of the old subtree for those of the new one. -/
theorem count_replace (p : List (Step κ)) (n t x : Tree ι κ α) (found : locate p t = .ok x)
    (i : ι) :
    (replace p n t).labels.count i + x.labels.count i =
      t.labels.count i + n.labels.count i := by
  induction p generalizing t with
  | nil =>
    cases found
    simp only [replace]
    omega
  | cons s p ih =>
    obtain ⟨c, step, rest⟩ := locate_cons_success s p t x found
    have inner := ih c rest
    have outer := count_putChild s t c (replace p n c) step i
    rw [replace_cons_ok _ _ _ _ _ step]
    omega

theorem count_locate_le (p : List (Step κ)) (t x : Tree ι κ α) (found : locate p t = .ok x)
    (i : ι) : x.labels.count i ≤ t.labels.count i := by
  induction p generalizing t with
  | nil => cases found; exact Nat.le_refl _
  | cons s p ih =>
    obtain ⟨c, step, rest⟩ := locate_cons_success s p t x found
    have inner := ih c rest
    have outer := count_dropChild s t c step i
    omega

end Count

/-! ## Forgetting the labels commutes with every operation -/

theorem descend_forget (s : Step κ) (t : Tree ι κ α) :
    descend s t.forget = (descend s t).map forget := by
  cases s with
  | key k =>
    cases t with
    | object l ms =>
      simp only [forget_object, descend, lookup_map]
      cases lookupKey k ms <;> rfl
    | leaf l a => rfl
    | array l es => simp only [forget_array, descend]; rfl
  | index i =>
    cases t with
    | array l es =>
      simp only [forget_array, descend, List.getElem?_map]
      cases es[i]? <;> rfl
    | leaf l a => rfl
    | object l ms => simp only [forget_object, descend]; rfl

/-- Labels do not matter for where a path leads. -/
theorem locate_forget (p : List (Step κ)) (t : Tree ι κ α) :
    locate p t.forget = (locate p t).map forget := by
  induction p generalizing t with
  | nil => rfl
  | cons s p ih =>
    simp only [locate, descend_forget]
    cases descend s t with
    | error f => rfl
    | ok c => exact ih c

@[simp] theorem putChild_forget (s : Step κ) (c t : Tree ι κ α) :
    (putChild s c t).forget = putChild s c.forget t.forget := by
  cases s <;> cases t <;> simp [putChild, updateKey_map, List.map_set]

omit [DecidableEq κ] in
@[simp] theorem addChild_forget (s : Step κ) (c t : Tree ι κ α) :
    (addChild s c t).forget = addChild s c.forget t.forget := by
  cases s <;> cases t <;> simp [addChild]

@[simp] theorem dropChild_forget (s : Step κ) (t : Tree ι κ α) :
    (dropChild s t).forget = dropChild s t.forget := by
  cases s <;> cases t <;> simp [dropChild, eraseKey_map, List.eraseIdx_map]

@[simp] theorem canAppend_forget (s : Step κ) (t : Tree ι κ α) :
    canAppend s t.forget = canAppend s t := by
  cases s <;> cases t <;> simp [canAppend, lookup_map]

theorem replace_forget (p : List (Step κ)) (n t : Tree ι κ α) :
    (replace p n t).forget = replace p n.forget t.forget := by
  induction p generalizing t with
  | nil => rfl
  | cons s p ih =>
    simp only [replace, descend_forget]
    cases descend s t with
    | error f => rfl
    | ok c => simp [Except.map, ih]

/-! ## Reading after an edit -/

/-- After a child was put, its own step leads to it. -/
theorem descend_putChild_self (s : Step κ) (t c c' : Tree ι κ α) (step : descend s t = .ok c) :
    descend s (putChild s c' t) = .ok c' := by
  cases s with
  | key k =>
    cases t with
    | object l ms =>
      simp only [descend, putChild] at step ⊢
      cases found : lookupKey k ms with
      | none => simp [found] at step
      | some d => simp [lookup_updateKey_self k c' d ms found]
    | leaf l a => simp [descend] at step
    | array l es => simp [descend] at step
  | index i =>
    cases t with
    | array l es =>
      simp only [descend, putChild] at step ⊢
      cases found : es[i]? with
      | none => simp [found] at step
      | some d =>
        have inside := (List.getElem?_eq_some_iff.mp found).1
        simp [List.getElem?_set_self inside]
    | leaf l a => simp [descend] at step
    | object l ms => simp [descend] at step

/-- Every other step leads where it led. -/
theorem descend_putChild_ne (s other : Step κ) (t c' : Tree ι κ α) (different : other ≠ s) :
    descend other (putChild s c' t) = descend other t := by
  cases s with
  | key k =>
    cases t with
    | object l ms =>
      cases other with
      | key k' =>
        have names : k' ≠ k := fun equal => different (by rw [equal])
        simp only [descend, putChild, lookup_updateKey_ne k k' c' ms names]
      | index i => rfl
    | leaf l a => rfl
    | array l es => rfl
  | index i =>
    cases t with
    | array l es =>
      cases other with
      | index j =>
        have places : i ≠ j := fun equal => different (by rw [equal])
        simp only [descend, putChild, List.getElem?_set_ne places]
      | key k => rfl
    | leaf l a => rfl
    | object l ms => rfl

theorem descend_addChild (s other : Step κ) (t c x : Tree ι κ α)
    (step : descend other t = .ok x) : descend other (addChild s c t) = .ok x := by
  cases other with
  | key k =>
    cases t with
    | object l ms =>
      simp only [descend] at step
      cases found : lookupKey k ms with
      | none => simp [found] at step
      | some d =>
        cases s with
        | key k' => simpa [descend, addChild, lookup_append, found] using step
        | index i => simpa [descend, addChild, found] using step
    | leaf l a => simp [descend] at step
    | array l es => simp [descend] at step
  | index j =>
    cases t with
    | array l es =>
      simp only [descend] at step
      cases found : es[j]? with
      | none => simp [found] at step
      | some d =>
        have inside := (List.getElem?_eq_some_iff.mp found).1
        cases s with
        | key k => simpa [descend, addChild, found] using step
        | index i =>
          simp only [descend, addChild, List.getElem?_append_left inside, found]
          simpa [found] using step
    | leaf l a => simp [descend] at step
    | object l ms => simp [descend] at step

theorem descend_addChild_self (s : Step κ) (t c : Tree ι κ α) (room : canAppend s t = true) :
    descend s (addChild s c t) = .ok c := by
  cases s with
  | key k =>
    cases t with
    | object l ms =>
      simp only [canAppend, Option.isNone_iff_eq_none] at room
      simp [descend, addChild, lookup_append, room, lookup_cons_eq]
    | leaf l a => simp [canAppend] at room
    | array l es => simp [canAppend] at room
  | index i =>
    cases t with
    | array l es =>
      simp only [canAppend, beq_iff_eq] at room
      simp [descend, addChild, room]
    | leaf l a => simp [canAppend] at room
    | object l ms => simp [canAppend] at room

/-- What was put at a path is found there. -/
theorem locate_replace_self (p : List (Step κ)) (n t x : Tree ι κ α)
    (found : locate p t = .ok x) : locate p (replace p n t) = .ok n := by
  induction p generalizing t with
  | nil => rfl
  | cons s p ih =>
    obtain ⟨c, step, rest⟩ := locate_cons_success s p t x found
    rw [replace_cons_ok _ _ _ _ _ step,
      locate_cons_ok _ _ _ _ (descend_putChild_self s t c _ step)]
    exact ih c rest

theorem putChild_putChild (s : Step κ) (first second t : Tree ι κ α) :
    putChild s second (putChild s first t) = putChild s second t := by
  cases s <;> cases t <;> simp [putChild, updateKey_updateKey]

/-- The last of two writes to one path stays. -/
theorem replace_replace (p : List (Step κ)) (first second t x : Tree ι κ α)
    (found : locate p t = .ok x) :
    replace p second (replace p first t) = replace p second t := by
  induction p generalizing t with
  | nil => rfl
  | cons s p ih =>
    obtain ⟨c, step, rest⟩ := locate_cons_success s p t x found
    rw [replace_cons_ok _ _ _ _ _ step, replace_cons_ok _ _ _ _ _ step,
      replace_cons_ok _ _ _ _ _ (descend_putChild_self s t c _ step), putChild_putChild,
      ih c rest]

/-- Replacing below a path is replacing at the path what the inner edit makes of it. -/
theorem replace_append (p q : List (Step κ)) (n t x : Tree ι κ α)
    (found : locate p t = .ok x) :
    replace (p ++ q) n t = replace p (replace q n x) t := by
  induction p generalizing t with
  | nil => cases found; rfl
  | cons s p ih =>
    obtain ⟨c, step, rest⟩ := locate_cons_success s p t x found
    rw [List.cons_append, replace_cons_ok _ _ _ _ _ step, replace_cons_ok _ _ _ _ _ step,
      ih c rest]

/-- A node that does not lie at or below the edited path keeps its label and its position. -/
theorem locate_replace_outside (p q : List (Step κ)) (n t x y : Tree ι κ α)
    (found : locate q t = .ok y) (outside : ¬ q <+: p)
    (here : locate p t = .ok x) :
    ∃ x', locate p (replace q n t) = .ok x' ∧ x'.label = x.label := by
  induction q generalizing t p with
  | nil => exact absurd (List.nil_prefix) outside
  | cons s q ih =>
    obtain ⟨c, step, rest⟩ := locate_cons_success s q t y found
    rw [replace_cons_ok _ _ _ _ _ step]
    cases p with
    | nil =>
      cases here
      exact ⟨_, rfl, putChild_label s _ _⟩
    | cons s' p =>
      obtain ⟨d, step', rest'⟩ := locate_cons_success s' p t x here
      by_cases equal : s' = s
      · subst equal
        rw [step] at step'
        cases step'
        have inner : ¬ q <+: p := fun shared => outside (List.cons_prefix_cons.mpr ⟨rfl, shared⟩)
        obtain ⟨x', located, labelled⟩ := ih p c rest inner rest'
        refine ⟨x', ?_, labelled⟩
        rw [locate_cons_ok _ _ _ _ (descend_putChild_self s' t c _ step)]
        exact located
      · refine ⟨x, ?_, rfl⟩
        rw [locate_cons_ok s' p _ d (by rw [descend_putChild_ne s s' t _ equal]; exact step')]
        exact rest'

end ConfigManager.Library.Tree
