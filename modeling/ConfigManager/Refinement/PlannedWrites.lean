import ConfigManager.Refinement.AnchoredEdits

/-!
# Planning a write

`validateTree` decides `Fits`. `planWrite` walks the arena as `locate` walks the
tree: it answers with the existing target, with the anchor below which a chain
can be created, or with the error that `upsert` reports.
-/

set_option autoImplicit false

namespace ConfigManager.Refinement
open Library Source Reference

/-! ## Validation -/

/-- No node of a tree is too deep when neither its root nor any of its children's nodes is. -/
theorem shallow_iff_children {ι κ α : Type} (x : Tree ι κ α) (depth : Nat) :
    depth + x.height ≤ kMaxTreeDepth ↔
      depth ≤ kMaxTreeDepth ∧ ∀ c ∈ x.children, depth + 1 + c.height ≤ kMaxTreeDepth := by
  constructor
  · intro shallow
    constructor
    · omega
    · intro c member
      have lower := Tree.height_child_lt x c member
      omega
  · intro both
    have bound : x.height ≤ kMaxTreeDepth - depth := by
      rw [Tree.height_le_iff]
      intro c member
      have deeper := both.2 c member
      omega
    omega

theorem fits_iff_children (value : ConfigValue) (depth : Nat) :
    Fits depth value ↔ (∀ key ∈ value.keys, Addressable key) ∧ depth ≤ kMaxTreeDepth ∧
      ∀ c ∈ value.children, Fits (depth + 1) c := by
  unfold Fits
  rw [Tree.every_iff, shallow_iff_children]
  constructor
  · intro fits
    obtain ⟨⟨here, below⟩, bound, lower⟩ := fits
    exact ⟨here, bound, fun c member => ⟨below c member, lower c member⟩⟩
  · intro parts
    obtain ⟨here, bound, below⟩ := parts
    exact ⟨⟨here, fun c member => (below c member).1⟩, bound, fun c member => (below c member).2⟩

theorem validateMembers_ok_iff (ms : List (Bytes × ConfigValue)) (depth : Nat) :
    validateMembers ms depth = .ok () ↔
      ∀ m ∈ ms, Addressable m.1 ∧ validateTree m.2 (depth + 1) = .ok () := by
  induction ms with
  | nil => simp [validateMembers]
  | cons m rest ih =>
    obtain ⟨key, value⟩ := m
    rw [List.forall_mem_cons, ← ih, validateMembers]
    by_cases named : isAddressableKey key = true
    · rw [if_neg (by simp [named])]
      cases validateTree value (depth + 1) with
      | error e => simp
      | ok u => exact ⟨fun later => ⟨⟨named, rfl⟩, later⟩, fun all => all.2⟩
    · rw [if_pos (by simpa using named)]
      simp [named, keyError, fail]

theorem validateElements_ok_iff (es : List ConfigValue) (depth : Nat) :
    validateElements es depth = .ok () ↔ ∀ e ∈ es, validateTree e (depth + 1) = .ok () := by
  induction es with
  | nil => simp [validateElements]
  | cons value rest ih =>
    rw [List.forall_mem_cons, ← ih, validateElements]
    cases validateTree value (depth + 1) <;> simp

theorem validateTree_ok_iff (value : ConfigValue) (depth : Nat) :
    validateTree value depth = .ok () ↔ Fits depth value := by
  induction value using Tree.children_induction generalizing depth with
  | node value ih =>
    rw [fits_iff_children]
    cases value with
    | leaf l s =>
      rw [validateTree]
      by_cases deep : kMaxTreeDepth < depth
      · rw [if_pos deep]
        simp [depthError, fail]
        omega
      · rw [if_neg deep]
        simp [Tree.keys, Tree.children]
        omega
    | object l ms =>
      rw [validateTree]
      by_cases deep : kMaxTreeDepth < depth
      · rw [if_pos deep]
        simp [depthError, fail]
        omega
      · rw [if_neg deep, validateMembers_ok_iff]
        simp only [Tree.children, List.mem_map, forall_exists_index, and_imp,
          forall_apply_eq_imp_iff₂] at ih
        simp only [Tree.keys, Tree.children, List.forall_mem_map]
        constructor
        · intro all
          exact ⟨fun m inside => (all m inside).1, by omega, fun m inside =>
            (ih m inside _).mp (all m inside).2⟩
        · rintro ⟨named, _, below⟩ m inside
          exact ⟨named m inside, (ih m inside _).mpr (below m inside)⟩
    | array l es =>
      rw [validateTree]
      by_cases deep : kMaxTreeDepth < depth
      · rw [if_pos deep]
        simp [depthError, fail]
        omega
      · rw [if_neg deep, validateElements_ok_iff]
        simp only [Tree.children] at ih
        simp only [Tree.keys, Tree.children, List.not_mem_nil, false_implies, implies_true, true_and]
        constructor
        · intro all
          exact ⟨by omega, fun e inside => (ih e inside _).mp (all e inside)⟩
        · rintro ⟨_, below⟩ e inside
          exact (ih e inside _).mpr (below e inside)

/-- Every refusal of the validator is `InvalidPath`. -/
theorem validateTree_outcome (value : ConfigValue) (depth : Nat) :
    outcome (validateTree value depth) = .ok () ∨
      outcome (validateTree value depth) = .error .invalidPath := by
  induction value using Tree.children_induction generalizing depth with
  | node value ih =>
    cases value with
    | leaf l s =>
      rw [validateTree]
      split
      · exact .inr rfl
      · exact .inl rfl
    | object l ms =>
      rw [validateTree]
      split
      · exact .inr rfl
      · clear * - ih
        simp only [Tree.children] at ih
        induction ms with
        | nil => exact .inl rfl
        | cons m rest tail =>
          obtain ⟨key, value⟩ := m
          rw [validateMembers]
          split
          · exact .inr rfl
          · have head := ih value (by simp) (depth + 1)
            have later := tail fun c inside => ih c (by simp at inside ⊢; exact .inr inside)
            cases checked : validateTree value (depth + 1) with
            | ok u => exact later
            | error e => simpa [checked, outcome] using head
    | array l es =>
      rw [validateTree]
      split
      · exact .inr rfl
      · clear * - ih
        simp only [Tree.children] at ih
        induction es with
        | nil => exact .inl rfl
        | cons value rest tail =>
          rw [validateElements]
          have head := ih value (by simp) (depth + 1)
          have later := tail fun c inside => ih c (List.mem_cons_of_mem _ inside)
          cases checked : validateTree value (depth + 1) with
          | ok u => exact later
          | error e => simpa [checked, outcome] using head

theorem validateTree_spec (value : ConfigValue) (depth : Nat) :
    outcome (validateTree value depth) =
      if Fits depth value then .ok () else .error .invalidPath := by
  split
  · next fits => rw [(validateTree_ok_iff value depth).mpr fits, outcome_ok]
  · next misfit =>
    rcases validateTree_outcome value depth with success | failure
    · cases checked : validateTree value depth with
      | ok u => exact absurd ((validateTree_ok_iff value depth).mp checked) misfit
      | error e =>
        rw [checked] at success
        cases success
    · exact failure

/-! ## The walk -/

theorem checkCreatable_spec (segments rest : List PathSegment) (from_ : Nat) (parent : NodeId)
    (shape : segments.drop (from_ + 1) = rest) :
    (Tree.Creatable rest → checkCreatable segments from_ parent = .ok ⟨parent, from_⟩) ∧
      (¬ Tree.Creatable rest →
        outcome (checkCreatable segments from_ parent) = .error .nodeNotFound) := by
  unfold checkCreatable
  rw [shape]
  dsimp only
  split
  · next index bad =>
    have stuck : ¬ Tree.Creatable rest := by
      intro fresh
      obtain ⟨segment, inside, found⟩ := List.exists_of_findSome?_eq_some bad
      cases segment with
      | key key => simp at found
      | index i => simp [fresh i inside] at found
    exact ⟨fun fresh => absurd fresh stuck, fun _ => rfl⟩
  · next bad =>
    have fresh : Tree.Creatable rest := by
      intro i inside
      have none := List.findSome?_eq_none_iff.mp bad _ inside
      simpa using none
    exact ⟨fun _ => rfl, fun stuck => absurd fresh stuck⟩

/-- One round of `planWrite`, with the child it looks at. -/
theorem planWrite_step (a : NodeArena) (segments : List PathSegment) (finalType : NodeType)
    (parent : Option NodeId) (x c : SlotTree) (rep : Rep a parent x) (i : Nat)
    (segment : PathSegment) (rest : List PathSegment)
    (down : Tree.descend segment x = .ok c) :
    planWrite a segments finalType x.label i (segment :: rest) =
      if rest.isEmpty then
        if (a.get c.label).type ≠ finalType then
          fail .invalidType
            (bytes "write would change the type of the existing node; remove it first")
        else .ok ⟨c.label, segments.length⟩
      else planWrite a segments finalType c.label (i + 1) rest := by
  obtain ⟨type, _, members, elements⟩ := rep.record
  rw [planWrite.eq_def]
  cases segment with
  | key key =>
    cases x with
    | leaf l s => simp [Tree.descend] at down
    | array l es => simp [Tree.descend] at down
    | object l ms =>
      simp only [treeContent] at type members
      have found : lookupKey key ms = some c := by
        simp only [Tree.descend] at down
        cases looked : lookupKey key ms with
        | none => simp [looked] at down
        | some d => simpa [looked] using down
      simp only [type, ne_eq, not_true_eq_false, if_false, findMember, members, lookup_map, found,
        Option.map_some]
  | index index =>
    cases x with
    | leaf l s => simp [Tree.descend] at down
    | object l ms => simp [Tree.descend] at down
    | array l es =>
      simp only [treeContent] at type elements
      have found : es[index]? = some c := by
        simp only [Tree.descend] at down
        cases looked : es[index]? with
        | none => simp [looked] at down
        | some d => simpa [looked] using down
      have inside := (List.getElem?_eq_some_iff.mp found).1
      have notPast : ¬ (es.map Tree.label).length < index := by
        rw [List.length_map]
        omega
      simp only [type, ne_eq, not_true_eq_false, if_false, elements, if_neg notPast,
        List.getElem?_map, found, Option.map_some]

/-- The last round of `planWrite`, when the step leads nowhere. -/
theorem planWrite_stuck (a : NodeArena) (segments : List PathSegment) (finalType : NodeType)
    (parent : Option NodeId) (x : SlotTree) (rep : Rep a parent x) (i : Nat)
    (segment : PathSegment) (rest : List PathSegment) (f : Fault)
    (stuck : Tree.descend segment x = .error f) :
    (f = .mismatch → outcome (planWrite a segments finalType x.label i (segment :: rest)) =
        .error .invalidType) ∧
      (f = .absent → Tree.canAppend segment x = false →
        outcome (planWrite a segments finalType x.label i (segment :: rest)) =
          .error .nodeNotFound) ∧
      (f = .absent → Tree.canAppend segment x = true →
        planWrite a segments finalType x.label i (segment :: rest) =
          checkCreatable segments i x.label) := by
  obtain ⟨type, _, members, elements⟩ := rep.record
  rw [planWrite.eq_def]
  cases segment with
  | key key =>
    cases x with
    | object l ms =>
      simp only [treeContent] at type members
      cases looked : lookupKey key ms with
      | some c => simp [Tree.descend, looked] at stuck
      | none =>
        simp only [Tree.descend, looked, Except.error.injEq] at stuck
        subst stuck
        simp [type, findMember, members, lookup_map, looked, Tree.canAppend]
    | leaf l s =>
      simp only [Tree.descend, Except.error.injEq] at stuck
      subst stuck
      have other : s.type ≠ .object := by cases s <;> simp [Scalar.type]
      simp only [treeContent] at type
      simp [type, other, Tree.canAppend, notObjectError, fail, outcome]
    | array l es =>
      simp only [Tree.descend, Except.error.injEq] at stuck
      subst stuck
      simp only [treeContent] at type
      simp [type, Tree.canAppend, notObjectError, fail, outcome]
  | index index =>
    cases x with
    | array l es =>
      simp only [treeContent] at type elements
      cases looked : es[index]? with
      | some c => simp [Tree.descend, looked] at stuck
      | none =>
        simp only [Tree.descend, looked, Except.error.injEq] at stuck
        subst stuck
        have beyond := List.getElem?_eq_none_iff.mp looked
        refine ⟨by simp, fun _ noRoom => ?_, fun _ room => ?_⟩
        · simp only [Tree.canAppend, beq_eq_false_iff_ne, ne_eq] at noRoom
          have past : (es.map Tree.label).length < index := by
            rw [List.length_map]
            omega
          simp only [type, ne_eq, not_true_eq_false, if_false, elements, if_pos past, fail, outcome]
        · simp only [Tree.canAppend, beq_iff_eq] at room
          simp [type, elements, room]
    | leaf l s =>
      simp only [Tree.descend, Except.error.injEq] at stuck
      subst stuck
      have other : s.type ≠ .array := by cases s <;> simp [Scalar.type]
      simp only [treeContent] at type
      simp [type, other, Tree.canAppend, notArrayError, fail, outcome]
    | object l ms =>
      simp only [Tree.descend, Except.error.injEq] at stuck
      subst stuck
      simp only [treeContent] at type
      simp [type, Tree.canAppend, notArrayError, fail, outcome]

/-- The plan for a path that leads to a node. -/
theorem planWrite_existing (a : NodeArena) (segments : List PathSegment) (finalType : NodeType)
    (parent : Option NodeId) (x y : SlotTree) (rep : Rep a parent x) (i : Nat)
    (rest : List PathSegment) (some_ : rest ≠ []) (found : Tree.locate rest x = .ok y) :
    planWrite a segments finalType x.label i rest =
      if ConfigValue.type y.forget ≠ finalType then
        fail .invalidType
          (bytes "write would change the type of the existing node; remove it first")
      else .ok ⟨y.label, segments.length⟩ := by
  induction rest generalizing x parent i with
  | nil => exact absurd rfl some_
  | cons segment rest ih =>
    obtain ⟨c, down, later⟩ := Tree.locate_cons_success segment rest x y found
    have repC := rep.children c (Tree.descend_mem segment x c down)
    rw [planWrite_step a segments finalType parent x c rep i segment rest down]
    cases rest with
    | nil =>
      cases later
      rw [← repC.type]
      rfl
    | cons segment' rest =>
      exact ih (some x.label) c repC (i + 1) (List.cons_ne_nil _ _) later

/-- The plan for a path that gets stuck is the plan of the step where it does. -/
theorem planWrite_prefix (a : NodeArena) (segments : List PathSegment) (finalType : NodeType)
    (parent : Option NodeId) (x y : SlotTree) (rep : Rep a parent x) (i : Nat)
    (q : List PathSegment) (s : PathSegment) (r : List PathSegment)
    (found : Tree.locate q x = .ok y) :
    planWrite a segments finalType x.label i (q ++ s :: r) =
      planWrite a segments finalType y.label (i + q.length) (s :: r) := by
  induction q generalizing x parent i with
  | nil =>
    cases found
    rfl
  | cons segment q ih =>
    obtain ⟨c, down, later⟩ := Tree.locate_cons_success segment q x y found
    have repC := rep.children c (Tree.descend_mem segment x c down)
    rw [List.cons_append,
      planWrite_step a segments finalType parent x c rep i segment (q ++ s :: r) down, if_neg (by simp),
      ih (some x.label) c repC (i + 1) later, List.length_cons]
    congr 1
    omega

end ConfigManager.Refinement
