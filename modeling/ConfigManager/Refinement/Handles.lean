import ConfigManager.Refinement.ModelRuns

/-!
# Handles read the tree below their node

`Shows a h x` lists what every accessor of a handle answers at a node that holds
`x`; `navigate` follows `child` and `at` from a handle. A valid handle to a
represented node shows its subtree, and navigation from it is `locate`.
-/

set_option autoImplicit false

namespace ConfigManager.Refinement
open Library Source Reference

/-- What a scalar read answers at a node that holds `x`. -/
def scalarAnswer : ConfigValue → Except ErrorCode Scalar
  | Tree.leaf _ scalar => .ok scalar
  | _ => .error .invalidType

/-- What `keys` answers at a node that holds `x`. -/
def keysAnswer : ConfigValue → Except ErrorCode (List Bytes)
  | Tree.object _ ms => .ok (ms.map Prod.fst)
  | _ => .error .invalidType

/-- What the accessors of a handle answer. `members` lists the keys in order, each with
the handle that `child` gives. -/
structure Shows (a : NodeArena) (h : ConfigNode) (x : ConfigValue) : Prop where
  valid : h.valid a = true
  type : h.type a = x.type
  size : h.size a = x.children.length
  scalar : outcome (h.scalarValue a) = scalarAnswer x
  keys : outcome (h.keys a) = keysAnswer x
  members : outcome ((h.members a).map fun listed => listed.map Prod.fst) = keysAnswer x
  handles : ∀ listed, h.members a = .ok listed →
    ∀ entry ∈ listed, h.child a entry.1 = .ok entry.2

/-- Following `child` and `at` from a handle. -/
def navigate (a : NodeArena) : ConfigNode → List PathSegment → Result ConfigNode
  | h, [] => .ok h
  | h, .key key :: rest =>
      match h.child a key with
      | .error e => .error e
      | .ok next => navigate a next rest
  | h, .index index :: rest =>
      match h.at a index with
      | .error e => .error e
      | .ok next => navigate a next rest

/-- Navigation from `h` leads where `locate` leads in `x`, and shows what is there. -/
def NavigatesAs (a : NodeArena) (h : ConfigNode) (x : ConfigValue) : Prop :=
  ∀ steps, match Tree.locate steps x with
    | .ok y => ∃ reached, navigate a h steps = .ok reached ∧ Shows a reached y
    | .error f => outcome (navigate a h steps) = .error (faultCode f)

/-! ## Accessors on a represented node -/

theorem issue_valid (a : NodeArena) (id : NodeId) (alive : a.live id = true) :
    (ConfigNode.issue a id).valid a = true :=
  (NodeArena.matches_iff a id _).mpr ⟨alive, rfl⟩

theorem findLive_valid (a : NodeArena) (h : ConfigNode) (valid : h.valid a = true) :
    h.findLive a = some (a.get h.id) := by
  unfold ConfigNode.findLive
  exact if_pos valid

theorem valid_eq_issue (a : NodeArena) (h : ConfigNode) (valid : h.valid a = true) :
    h = ConfigNode.issue a h.id := by
  obtain ⟨_, same⟩ := (NodeArena.matches_iff a h.id h.generation).mp valid
  cases h with
  | mk id generation =>
    simp only [ConfigNode.issue, ConfigNode.mk.injEq, true_and]
    exact same.symm

theorem child_spec (a : NodeArena) (parent : Option NodeId) (t : SlotTree) (rep : Rep a parent t)
    (key : Bytes) :
    match Tree.descend (.key key) t with
    | .ok c => (ConfigNode.issue a t.label).child a key = .ok (ConfigNode.issue a c.label)
    | .error f => outcome ((ConfigNode.issue a t.label).child a key) = .error (faultCode f) := by
  have live := findLive_valid a _ (issue_valid a t.label rep.alive)
  obtain ⟨type, _, members, _⟩ := rep.record
  unfold ConfigNode.child
  rw [live]
  simp only [ConfigNode.issue]
  cases t with
  | leaf l s =>
    have other : s.type ≠ .object := by cases s <;> simp [Scalar.type]
    simp only [treeContent] at type
    simp [Tree.descend, type, other, faultCode]
  | array l es =>
    simp only [treeContent] at type
    simp [Tree.descend, type, faultCode]
  | object l ms =>
    simp only [treeContent] at type members
    simp only [Tree.descend, type, ne_eq, not_true_eq_false, if_false, members, lookup_map]
    cases lookupKey key ms <;> simp [faultCode]

theorem at_spec (a : NodeArena) (parent : Option NodeId) (t : SlotTree) (rep : Rep a parent t)
    (index : Nat) :
    match Tree.descend (.index index) t with
    | .ok c => (ConfigNode.issue a t.label).at a index = .ok (ConfigNode.issue a c.label)
    | .error f => outcome ((ConfigNode.issue a t.label).at a index) = .error (faultCode f) := by
  have live := findLive_valid a _ (issue_valid a t.label rep.alive)
  obtain ⟨type, _, _, elements⟩ := rep.record
  unfold ConfigNode.at
  rw [live]
  simp only [ConfigNode.issue]
  cases t with
  | leaf l s =>
    have other : s.type ≠ .array := by cases s <;> simp [Scalar.type]
    simp only [treeContent] at type
    simp [Tree.descend, type, other, faultCode]
  | object l ms =>
    simp only [treeContent] at type
    simp [Tree.descend, type, faultCode]
  | array l es =>
    simp only [treeContent] at type elements
    simp only [Tree.descend, type, ne_eq, not_true_eq_false, if_false, elements, List.getElem?_map]
    cases es[index]? <;> simp [faultCode]

theorem issue_shows (a : NodeArena) (parent : Option NodeId) (t : SlotTree) (rep : Rep a parent t)
    (distinct : t.keys.Nodup) : Shows a (ConfigNode.issue a t.label) t.forget := by
  have valid := issue_valid a t.label rep.alive
  have live := findLive_valid a _ valid
  have children := child_spec a parent t rep
  obtain ⟨type, scalar, members, elements⟩ := rep.record
  refine ⟨valid, rep.type, ?_, ?_, ?_, ?_, ?_⟩
  · rw [Tree.children_forget, List.length_map]
    cases t with
    | leaf l s => cases s <;> simp_all [ConfigNode.size, ConfigNode.issue, treeContent,
        Tree.children, Scalar.type]
    | object l ms => simp_all [ConfigNode.size, ConfigNode.issue, treeContent, Tree.children]
    | array l es => simp_all [ConfigNode.size, ConfigNode.issue, treeContent, Tree.children]
  · unfold ConfigNode.scalarValue
    rw [live]
    cases t with
    | leaf l s =>
      have plain : s.type ≠ .object ∧ s.type ≠ .array := by cases s <;> simp [Scalar.type]
      simp_all [ConfigNode.issue, treeContent, scalarAnswer]
    | object l ms => simp_all [ConfigNode.issue, treeContent, scalarAnswer]
    | array l es => simp_all [ConfigNode.issue, treeContent, scalarAnswer]
  · unfold ConfigNode.keys
    rw [live]
    cases t with
    | leaf l s =>
      have other : s.type ≠ .object := by cases s <;> simp [Scalar.type]
      simp_all [ConfigNode.issue, treeContent, keysAnswer]
    | object l ms => simp_all [ConfigNode.issue, treeContent, keysAnswer, Function.comp_def]
    | array l es => simp_all [ConfigNode.issue, treeContent, keysAnswer]
  · unfold ConfigNode.members
    rw [live]
    cases t with
    | leaf l s =>
      have other : s.type ≠ .object := by cases s <;> simp [Scalar.type]
      simp_all [ConfigNode.issue, treeContent, keysAnswer, fail, Except.map, outcome]
    | object l ms =>
      simp_all [ConfigNode.issue, treeContent, keysAnswer, Function.comp_def, Except.map]
    | array l es =>
      simp_all [ConfigNode.issue, treeContent, keysAnswer, fail, Except.map, outcome]
  · intro listed answer entry inside
    unfold ConfigNode.members at answer
    rw [live] at answer
    simp only [ConfigNode.issue] at answer
    cases t with
    | leaf l s =>
      have other : s.type ≠ .object := by cases s <;> simp [Scalar.type]
      simp only [treeContent] at type
      simp [type, other, fail] at answer
    | array l es =>
      simp only [treeContent] at type
      simp [type, fail] at answer
    | object l ms =>
      simp only [treeContent] at type members
      simp only [type, members, ne_eq, not_true_eq_false, if_false, Except.ok.injEq] at answer
      subst answer
      simp only [List.map_map, List.mem_map, Function.comp_apply] at inside
      obtain ⟨m, member, rfl⟩ := inside
      have child := children m.1
      simp only [Tree.descend, lookup_of_mem ms distinct m member] at child
      exact child

theorem navigate_spec (a : NodeArena) (parent : Option NodeId) (t : SlotTree) (rep : Rep a parent t)
    (steps : List PathSegment) :
    match Tree.locate steps t with
    | .ok y => navigate a (ConfigNode.issue a t.label) steps = .ok (ConfigNode.issue a y.label)
    | .error f => outcome (navigate a (ConfigNode.issue a t.label) steps) =
        .error (faultCode f) := by
  induction steps generalizing parent t with
  | nil => rfl
  | cons step rest ih =>
    -- Both accessors are one step of the tree; what is left is the tail.
    have first : ∀ answer : Result ConfigNode,
        (match Tree.descend step t with
          | .ok c => answer = .ok (ConfigNode.issue a c.label)
          | .error f => outcome answer = .error (faultCode f)) →
        navigate a (ConfigNode.issue a t.label) (step :: rest) =
          (match answer with
            | .error e => .error e
            | .ok next => navigate a next rest) →
        match Tree.locate (step :: rest) t with
        | .ok y => navigate a (ConfigNode.issue a t.label) (step :: rest) =
            .ok (ConfigNode.issue a y.label)
        | .error f => outcome (navigate a (ConfigNode.issue a t.label) (step :: rest)) =
            .error (faultCode f) := by
      intro answer spec unfolded
      cases down : Tree.descend step t with
      | error f =>
        rw [down] at spec
        rw [Tree.locate_cons_error _ _ _ _ down, unfolded]
        cases answer with
        | ok next => simp at spec
        | error e => simpa [outcome] using spec
      | ok c =>
        rw [down] at spec
        simp only at spec
        rw [Tree.locate_cons_ok _ _ _ _ down, unfolded, spec]
        exact ih _ c (rep.children c (Tree.descend_mem step t c down))
    cases step with
    | key key => exact first _ (child_spec a parent t rep key) rfl
    | index index => exact first _ (at_spec a parent t rep index) rfl

/-- Every handle to a represented node navigates its subtree. -/
theorem issue_navigates (a : NodeArena) (parent : Option NodeId) (t : SlotTree)
    (rep : Rep a parent t) (keys : ConfigValue.KeysDistinct t.forget) :
    NavigatesAs a (ConfigNode.issue a t.label) t.forget := by
  intro steps
  have spec := navigate_spec a parent t rep steps
  rw [Tree.locate_forget]
  cases found : Tree.locate steps t with
  | error f =>
    rw [found] at spec
    exact spec
  | ok y =>
    rw [found] at spec
    obtain ⟨up, repY⟩ := rep.locate steps found
    have plain : Tree.locate steps t.forget = .ok y.forget := by
      rw [Tree.locate_forget, found]
      rfl
    have distinct : y.keys.Nodup := by
      rw [← Tree.keys_forget]
      exact ((Tree.every_iff _ _).mp (Tree.Every.locate keys steps plain)).1
    exact ⟨_, spec, issue_shows a up y repY distinct⟩

end ConfigManager.Refinement
