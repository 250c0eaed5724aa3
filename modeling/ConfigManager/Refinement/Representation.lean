import ConfigManager.Reference.ConfigTree
import ConfigManager.Refinement.ArenaSlots

/-!
# The arena holds a tree

`Rep a parent t` says that the live nodes of `a` below slot `t.label` form the
tree `t`, whose labels are the slots. Reading through slots (`resolveFrom`,
`buildValue`) then computes what `locate` and `forget` say about `t`.
-/

set_option autoImplicit false

namespace ConfigManager.Refinement
open Library Source Reference

/-- A configuration tree that remembers in which slot each node sits. -/
abbrev SlotTree := Tree NodeId Bytes Scalar

/-- What a live record stores about its own node. -/
structure Content where
  type : NodeType
  scalar : Scalar
  members : List (Bytes × NodeId)
  elements : List NodeId
  deriving DecidableEq

def contentOf (node : Node) : Content := ⟨node.type, node.scalar, node.members, node.elements⟩

def treeContent : SlotTree → Content
  | .leaf _ scalar => ⟨scalar.type, scalar, [], []⟩
  | .object _ ms => ⟨.object, .monostate, ms.map fun m => (m.1, m.2.label), []⟩
  | .array _ es => ⟨.array, .monostate, [], es.map Tree.label⟩

inductive Rep (a : NodeArena) : Option NodeId → SlotTree → Prop where
  | node (parent : Option NodeId) (t : SlotTree) (alive : a.live t.label = true)
      (holds : contentOf (a.get t.label) = treeContent t)
      (up : (a.get t.label).parent = parent)
      (below : ∀ c ∈ t.children, Rep a (some t.label) c) : Rep a parent t

theorem Rep.alive {a : NodeArena} {parent : Option NodeId} {t : SlotTree} (rep : Rep a parent t) :
    a.live t.label = true := by
  cases rep with | node _ _ alive _ _ _ => exact alive

theorem Rep.holds {a : NodeArena} {parent : Option NodeId} {t : SlotTree} (rep : Rep a parent t) :
    contentOf (a.get t.label) = treeContent t := by
  cases rep with | node _ _ _ holds _ _ => exact holds

theorem Rep.up {a : NodeArena} {parent : Option NodeId} {t : SlotTree} (rep : Rep a parent t) :
    (a.get t.label).parent = parent := by
  cases rep with | node _ _ _ _ up _ => exact up

theorem Rep.children {a : NodeArena} {parent : Option NodeId} {t : SlotTree} (rep : Rep a parent t) :
    ∀ c ∈ t.children, Rep a (some t.label) c := by
  cases rep with | node _ _ _ _ _ below => exact below

theorem label_mem_labels (t : SlotTree) : t.label ∈ t.labels := by
  rw [Tree.labels_eq]
  exact List.mem_cons_self

theorem child_labels_subset (t c : SlotTree) (member : c ∈ t.children) (i : NodeId)
    (inside : i ∈ c.labels) : i ∈ t.labels := by
  rw [Tree.labels_eq]
  exact List.mem_cons_of_mem _ (List.mem_flatMap.mpr ⟨c, member, inside⟩)

/-- Every slot of a represented tree is live. -/
theorem Rep.labels_live {a : NodeArena} {parent : Option NodeId} {t : SlotTree}
    (rep : Rep a parent t) : ∀ i ∈ t.labels, a.live i = true := by
  induction rep with
  | node parent t alive _ _ _ ih =>
    intro i inside
    rw [Tree.labels_eq] at inside
    rcases List.mem_cons.mp inside with rfl | later
    · exact alive
    · obtain ⟨c, member, deeper⟩ := List.mem_flatMap.mp later
      exact ih c member i deeper

/-- A representation depends on the records of its own slots only. -/
theorem Rep.frame {a a' : NodeArena} {parent : Option NodeId} {t : SlotTree}
    (rep : Rep a parent t) (same : ∀ i ∈ t.labels, a'.get i = a.get i) : Rep a' parent t := by
  induction rep with
  | node parent t alive holds up _ ih =>
    have here := same t.label (label_mem_labels t)
    refine .node parent t ?_ ?_ ?_ fun c member =>
      ih c member fun i inside => same i (child_labels_subset t c member i inside)
    · rw [NodeArena.live, here]
      exact alive
    · rw [here]
      exact holds
    · rw [here]
      exact up

/-- Re-parenting the root is the only change a representation needs when its root moves. -/
theorem Rep.reparent {a a' : NodeArena} {parent parent' : Option NodeId} {t : SlotTree}
    (rep : Rep a parent t) (alive : a'.live t.label = true)
    (content : contentOf (a'.get t.label) = contentOf (a.get t.label))
    (up : (a'.get t.label).parent = parent')
    (same : ∀ c ∈ t.children, ∀ i ∈ c.labels, a'.get i = a.get i) : Rep a' parent' t :=
  .node parent' t alive (by rw [content, rep.holds]) up fun c member =>
    (rep.children c member).frame (same c member)

/-! ## Reading one node -/

theorem treeContent_type (t : SlotTree) : (treeContent t).type = ConfigValue.type t.forget := by
  cases t <;> simp [treeContent, ConfigValue.type]

theorem Rep.type {a : NodeArena} {parent : Option NodeId} {t : SlotTree} (rep : Rep a parent t) :
    (a.get t.label).type = ConfigValue.type t.forget := by
  rw [← treeContent_type, ← rep.holds]
  rfl

theorem Rep.record {a : NodeArena} {parent : Option NodeId} {t : SlotTree} (rep : Rep a parent t) :
    (a.get t.label).type = (treeContent t).type ∧ (a.get t.label).scalar = (treeContent t).scalar ∧
      (a.get t.label).members = (treeContent t).members ∧
      (a.get t.label).elements = (treeContent t).elements := by
  rw [← rep.holds]
  exact ⟨rfl, rfl, rfl, rfl⟩

@[simp] theorem outcome_notObjectError {α : Type} (key : Bytes) :
    outcome (notObjectError key : Result α) = .error .invalidType := rfl

@[simp] theorem outcome_notArrayError {α : Type} :
    outcome (notArrayError : Result α) = .error .invalidType := rfl

theorem resolveFrom_spec (a : NodeArena) (segments : List PathSegment) (parent : Option NodeId)
    (t : SlotTree) (rep : Rep a parent t) :
    outcome (ConfigModel.resolveFrom a t.label segments) =
      coded ((Tree.locate segments t).map Tree.label) := by
  induction segments generalizing parent t with
  | nil => rfl
  | cons segment rest ih =>
    obtain ⟨type, _, members, elements⟩ := rep.record
    cases segment with
    | key key =>
      rw [ConfigModel.resolveFrom]
      cases t with
      | leaf l s => cases s <;> simp_all [treeContent, Tree.locate, Tree.descend, Scalar.type,
          Except.map, faultCode]
      | array l es => simp_all [treeContent, Tree.locate, Tree.descend, Except.map, faultCode]
      | object l ms =>
        simp only [treeContent] at type members
        rw [type, findMember, members, lookup_map]
        cases found : lookupKey key ms with
        | none => simp [Tree.locate, Tree.descend, found, Except.map, faultCode]
        | some c =>
          have member : c ∈ (Tree.object l ms : SlotTree).children :=
            List.mem_map.mpr ⟨(key, c), lookup_mem key ms c found, rfl⟩
          have step : Tree.descend (.key key) (Tree.object l ms : SlotTree) = .ok c := by
            simp only [Tree.descend, found]
          rw [Tree.locate_cons_ok _ _ _ _ step, ← ih _ c (rep.children c member)]
          simp
    | index index =>
      rw [ConfigModel.resolveFrom]
      cases t with
      | leaf l s => cases s <;> simp_all [treeContent, Tree.locate, Tree.descend, Scalar.type,
          Except.map, faultCode]
      | object l ms => simp_all [treeContent, Tree.locate, Tree.descend, Except.map, faultCode]
      | array l es =>
        simp only [treeContent] at type elements
        rw [type, elements, List.getElem?_map]
        cases found : es[index]? with
        | none => simp [Tree.locate, Tree.descend, found, Except.map, faultCode]
        | some c =>
          have member : c ∈ (Tree.array l es : SlotTree).children := List.mem_of_getElem? found
          have step : Tree.descend (.index index) (Tree.array l es : SlotTree) = .ok c := by
            simp only [Tree.descend, found]
          rw [Tree.locate_cons_ok _ _ _ _ step, ← ih _ c (rep.children c member)]
          simp

/-- A located node is represented too. -/
theorem Rep.locate {a : NodeArena} {parent : Option NodeId} {t x : SlotTree}
    (rep : Rep a parent t) (path : List PathSegment) (found : Tree.locate path t = .ok x) :
    ∃ up, Rep a up x := by
  induction path generalizing parent t with
  | nil => cases found; exact ⟨parent, rep⟩
  | cons s p ih =>
    obtain ⟨c, step, rest⟩ := Tree.locate_cons_success s p t x found
    exact ih (rep.children c (Tree.descend_mem s t c step)) rest

/-! ## Rebuilding a value -/

theorem foldl_set (ms : List (Bytes × ConfigValue)) (before : List (Bytes × ConfigValue))
    (distinct : ((before ++ ms).map Prod.fst).Nodup) :
    ms.foldl (fun value m => ConfigValue.set value m.1 m.2) (Tree.object () before) =
      Tree.object () (before ++ ms) := by
  induction ms generalizing before with
  | nil => simp
  | cons m rest ih =>
    have absent : m.1 ∉ before.map Prod.fst := by
      rw [List.map_append, List.nodup_append] at distinct
      exact fun inside => distinct.2.2 m.1 inside m.1 (by simp) rfl
    rw [List.foldl_cons, ConfigValue.set_of_absent before m.1 m.2 absent, ih]
    · simp
    · simpa using distinct

theorem foldl_push (es : List ConfigValue) (before : List ConfigValue) :
    es.foldl ConfigValue.push (Tree.array () before) = Tree.array () (before ++ es) := by
  induction es generalizing before with
  | nil => simp
  | cons e rest ih => simp [ConfigValue.push, ih]

theorem buildValue_spec (a : NodeArena) (slots : Nat) (parent : Option NodeId) (t : SlotTree)
    (rep : Rep a parent t) (enough : t.height < slots)
    (distinct : ConfigValue.KeysDistinct t.forget) : buildValue slots a t.label = t.forget := by
  induction t using Tree.children_induction generalizing slots parent with
  | node t ih =>
    cases slots with
    | zero => omega
    | succ slots =>
      obtain ⟨type, scalar, members, elements⟩ := rep.record
      have child : ∀ c ∈ t.children, ConfigValue.KeysDistinct c.forget →
          buildValue slots a c.label = c.forget := fun c member keys =>
        ih c member slots _ (rep.children c member)
          (by have := Tree.height_child_lt t c member; omega) keys
      cases t with
      | leaf l s => cases s <;> simp_all [buildValue, treeContent, Scalar.type, ConfigValue.of]
      | object l ms =>
        rw [Tree.forget_object, ConfigValue.keysDistinct_object] at distinct
        have built : (ms.map fun m => (m.1, buildValue slots a m.2.label)) =
            ms.map fun m => (m.1, m.2.forget) := by
          apply List.map_congr_left
          intro m inside
          rw [child m.2 (List.mem_map_of_mem inside)
            (distinct.2 (m.1, m.2.forget) (List.mem_map.mpr ⟨m, inside, rfl⟩))]
        have folded := foldl_set (ms.map fun m => (m.1, m.2.forget)) []
          (by simpa using distinct.1)
        simp only [treeContent] at type members
        rw [buildValue, type, members, Tree.forget_object]
        simp only [ConfigValue.object, List.foldl_map]
        rw [← built, List.foldl_map] at folded
        rw [folded, List.nil_append, built]
      | array l es =>
        rw [Tree.forget_array, ConfigValue.keysDistinct_array] at distinct
        have built : (es.map fun e => buildValue slots a e.label) = es.map Tree.forget := by
          apply List.map_congr_left
          intro e inside
          exact child e inside (distinct e.forget (List.mem_map_of_mem inside))
        have folded := foldl_push (es.map Tree.forget) []
        simp only [treeContent] at type elements
        rw [buildValue, type, elements, Tree.forget_array]
        simp only [ConfigValue.array, List.foldl_map]
        rw [← built, List.foldl_map] at folded
        rw [folded, List.nil_append, built]

end ConfigManager.Refinement
