import ConfigManager.Refinement.ModelRuns

/-!
# The arena of every reachable model is well formed

`WellFormed` speaks about slots and edges only. It follows from `Represents`:
every live slot is a node of the represented tree, so what the tree shows about
that node holds of the slot's record.
-/

set_option autoImplicit false

namespace ConfigManager.Guarantees
open Library Source Reference Refinement

/-- The edges that leave a slot, members first. -/
def childIds (node : Node) : List NodeId := node.members.map Prod.snd ++ node.elements

/-- `j` is `depth` edges below `i`. -/
inductive Below (a : NodeArena) : NodeId → Nat → NodeId → Prop where
  | here (i : NodeId) : Below a i 0 i
  | child (i j k : NodeId) (depth : Nat) (edge : j ∈ childIds (a.get i))
      (rest : Below a j depth k) : Below a i (depth + 1) k

structure WellFormed (m : ConfigModel) : Prop where
  /-- The live slots are exactly the nodes below the root. -/
  reachable : ∀ i, m.arena.live i = true ↔ ∃ depth, Below m.arena m.rootId depth i
  root : m.arena.live m.rootId = true ∧ (m.arena.get m.rootId).type = .object
  rootEdges : ∀ i, m.rootId ∉ childIds (m.arena.get i)
  /-- One slot holds one edge to the node, and the node's parent field names that slot. -/
  oneParent : ∀ j, m.arena.live j = true → j ≠ m.rootId →
    ∃ p, (m.arena.get j).parent = some p ∧ (childIds (m.arena.get p)).count j = 1 ∧
      ∀ i, i ≠ p → j ∉ childIds (m.arena.get i)
  /-- The free list visits every dead slot once. -/
  free : ∃ ids, Threaded (fun i => (m.arena.get i).parent) m.arena.freeHead ids ∧ ids.Nodup ∧
    ∀ i : Nat, i ∈ ids ↔ i < m.arena.nodes.length ∧ m.arena.live i = false
  cleared : ∀ i, m.arena.live i = false → (m.arena.get i).members = [] ∧
    (m.arena.get i).elements = [] ∧ (m.arena.get i).scalar = .monostate
  keys : ∀ i, m.arena.live i = true → (m.arena.get i).type = .object →
    ((m.arena.get i).members.map Prod.fst).Nodup ∧
      ∀ key ∈ (m.arena.get i).members.map Prod.fst,
        key ≠ [] ∧ dot ∉ key ∧ openBracket ∉ key ∧ closeBracket ∉ key
  members : ∀ i, m.arena.live i = true → (m.arena.get i).members ≠ [] →
    (m.arena.get i).type = .object
  elements : ∀ i, m.arena.live i = true → (m.arena.get i).elements ≠ [] →
    (m.arena.get i).type = .array
  scalars : ∀ i, m.arena.live i = true → (m.arena.get i).type ≠ .object →
    (m.arena.get i).type ≠ .array → (m.arena.get i).scalar.type = (m.arena.get i).type
  shallow : ∀ i depth, Below m.arena m.rootId depth i → depth ≤ kMaxTreeDepth

/-! ## From slots to tree nodes -/

/-- What a node of the represented tree tells about its slot. -/
structure SitsIn (a : NodeArena) (t x : SlotTree) : Prop where
  rep : ∃ up, Rep a up x
  within : ∀ i ∈ x.labels, i ∈ t.labels
  distinct : LabelsDistinct x
  keys : Tree.WellKeyed Addressable x.forget

theorem childIds_eq (a : NodeArena) (parent : Option NodeId) (x : SlotTree) (rep : Rep a parent x) :
    childIds (a.get x.label) = x.children.map Tree.label := by
  obtain ⟨_, _, members, elements⟩ := rep.record
  unfold childIds
  rw [members, elements]
  cases x <;> simp [treeContent, Tree.children, Function.comp_def]

theorem SitsIn.child {a : NodeArena} {t x c : SlotTree} (sits : SitsIn a t x)
    (member : c ∈ x.children) : SitsIn a t c := by
  obtain ⟨up, rep⟩ := sits.rep
  refine ⟨⟨_, rep.children c member⟩, fun i inside =>
    sits.within i (child_labels_subset x c member i inside), sits.distinct.child c member, ?_⟩
  refine ((Tree.wellKeyed_iff _).mp sits.keys).2 c.forget ?_
  rw [Tree.children_forget]
  exact List.mem_map_of_mem member

theorem represents_sits {m : ConfigModel} {t : SlotTree} (r : Represents m t) :
    SitsIn m.arena t t :=
  ⟨⟨none, r.rep⟩, fun _ inside => inside, r.distinct, r.admissible.keys⟩

/-- Every slot of a sitting tree belongs to a node found below its root. -/
theorem below_of_label (a : NodeArena) (t x : SlotTree) (sits : SitsIn a t x) (i : NodeId)
    (inside : i ∈ x.labels) :
    ∃ depth y, Below a x.label depth i ∧ y.label = i ∧ SitsIn a t y ∧
      (y = x ∨ ∃ z, SitsIn a t z ∧ y ∈ z.children) := by
  induction x using Tree.children_induction with
  | node x ih =>
    obtain ⟨up, rep⟩ := sits.rep
    rw [Tree.labels_eq, List.mem_cons, List.mem_flatMap] at inside
    rcases inside with rfl | ⟨c, member, deeper⟩
    · exact ⟨0, x, .here _, rfl, sits, .inl rfl⟩
    · obtain ⟨depth, y, below, label, found, origin⟩ := ih c member (sits.child member) deeper
      have edge : c.label ∈ childIds (a.get x.label) := by
        rw [childIds_eq a up x rep]
        exact List.mem_map_of_mem member
      refine ⟨depth + 1, y, .child x.label c.label i depth edge below, label, found, .inr ?_⟩
      rcases origin with rfl | nested
      · exact ⟨x, sits, member⟩
      · exact nested

/-- Following edges from a sitting node reaches sitting nodes, at most its height down. -/
theorem sits_of_below (a : NodeArena) (t : SlotTree) (i k : NodeId) (depth : Nat)
    (below : Below a i depth k) (x : SlotTree) (sits : SitsIn a t x) (label : x.label = i) :
    ∃ y, SitsIn a t y ∧ y.label = k ∧ depth + y.height ≤ x.height := by
  induction below generalizing x with
  | here i => exact ⟨x, sits, label, by omega⟩
  | child i j k depth edge _ ih =>
    obtain ⟨up, rep⟩ := sits.rep
    rw [← label, childIds_eq a up x rep, List.mem_map] at edge
    obtain ⟨c, member, labelC⟩ := edge
    obtain ⟨y, found, labelY, bound⟩ := ih c (sits.child member) labelC
    have down := Tree.height_child_lt x c member
    exact ⟨y, found, labelY, by omega⟩

/-- A slot is live exactly when it is a node of the represented tree. -/
theorem live_iff_node {m : ConfigModel} {t : SlotTree} (r : Represents m t) (i : NodeId) :
    m.arena.live i = true ↔ i ∈ t.labels := by
  rw [live_iff_liveCount, ← r.slots, ← List.count_pos_iff]
  have bound := r.distinct i
  omega

/-- The node of the represented tree that sits in a live slot. -/
theorem node_of_live {m : ConfigModel} {t : SlotTree} (r : Represents m t) (i : NodeId)
    (alive : m.arena.live i = true) :
    ∃ y, y.label = i ∧ SitsIn m.arena t y ∧ (y = t ∨ ∃ z, SitsIn m.arena t z ∧ y ∈ z.children) := by
  obtain ⟨_, y, _, label, sits, origin⟩ := below_of_label m.arena t t (represents_sits r) i
    ((live_iff_node r i).mp alive)
  exact ⟨y, label, sits, origin⟩

/-- The record of a live slot is the content of a well-keyed node. -/
theorem content_of_live {m : ConfigModel} {t : SlotTree} (r : Represents m t) (i : NodeId)
    (alive : m.arena.live i = true) :
    ∃ x : SlotTree, Tree.WellKeyed Addressable x.forget ∧
      (m.arena.get i).type = (treeContent x).type ∧ (m.arena.get i).scalar = (treeContent x).scalar ∧
      (m.arena.get i).members = (treeContent x).members ∧
      (m.arena.get i).elements = (treeContent x).elements := by
  obtain ⟨x, rfl, sits, _⟩ := node_of_live r i alive
  obtain ⟨up, rep⟩ := sits.rep
  exact ⟨x, sits.keys, rep.record⟩

/-- A holder of an edge is live, and the node below it names it as its parent. -/
theorem edge_holder {m : ConfigModel} {t : SlotTree} (r : Represents m t) (i j : NodeId)
    (edge : j ∈ childIds (m.arena.get i)) :
    (m.arena.get j).parent = some i ∧ (childIds (m.arena.get i)).count j = 1 := by
  have alive : m.arena.live i = true := by
    by_contra dead
    rw [Bool.not_eq_true] at dead
    obtain ⟨members, elements, _⟩ := r.consistent.cleared i dead
    simp [childIds, members, elements] at edge
  obtain ⟨x, rfl, sits, _⟩ := node_of_live r i alive
  obtain ⟨up, rep⟩ := sits.rep
  have ids := childIds_eq m.arena up x rep
  rw [ids] at edge ⊢
  obtain ⟨c, member, rfl⟩ := List.mem_map.mp edge
  refine ⟨(rep.children c member).up, ?_⟩
  exact List.count_eq_one_of_mem (child_labels_nodup x sits.distinct) edge

theorem addressable_spelled (key : Bytes) (ok : Addressable key) :
    key ≠ [] ∧ dot ∉ key ∧ openBracket ∉ key ∧ closeBracket ∉ key := by
  simp only [Addressable, isAddressableKey, Bool.and_eq_true, Bool.not_eq_true',
    List.isEmpty_eq_false_iff, List.any_eq_false] at ok
  refine ⟨ok.1, fun inside => ?_, fun inside => ?_, fun inside => ?_⟩
  · exact ok.2 _ inside rfl
  · exact ok.2 _ inside rfl
  · exact ok.2 _ inside rfl

/-! ## The invariant -/

theorem represents_wellFormed (m : ConfigModel) (t : SlotTree) (r : Represents m t) :
    WellFormed m := by
  have top := represents_sits r
  have rootLive : m.arena.live m.rootId = true := by
    rw [← r.label]
    exact r.rep.alive
  refine ⟨fun i => ?_, ⟨rootLive, ?_⟩, fun i edge => ?_, fun j alive notRoot => ?_, ?_,
    r.consistent.cleared, fun i alive isObject => ?_, fun i alive some_ => ?_,
    fun i alive some_ => ?_, fun i alive notObject notArray => ?_, fun i depth below => ?_⟩
  · constructor
    · intro alive
      obtain ⟨depth, _, below, _⟩ := below_of_label m.arena t t top i ((live_iff_node r i).mp alive)
      rw [r.label] at below
      exact ⟨depth, below⟩
    · rintro ⟨depth, below⟩
      obtain ⟨y, sits, rfl, _⟩ := sits_of_below m.arena t m.rootId i depth below t top r.label
      obtain ⟨up, rep⟩ := sits.rep
      exact rep.alive
  · rw [← r.label, r.rep.type, r.admissible.root]
  · obtain ⟨parent, _⟩ := edge_holder r i m.rootId edge
    rw [← r.label, r.rep.up] at parent
    cases parent
  · obtain ⟨y, rfl, sits, origin⟩ := node_of_live r j alive
    rcases origin with rfl | ⟨z, sitsZ, member⟩
    · exact absurd r.label notRoot
    · obtain ⟨up, rep⟩ := sitsZ.rep
      have edge : y.label ∈ childIds (m.arena.get z.label) := by
        rw [childIds_eq m.arena up z rep]
        exact List.mem_map_of_mem member
      obtain ⟨parent, once⟩ := edge_holder r z.label y.label edge
      refine ⟨z.label, parent, once, fun i different edge' => different ?_⟩
      obtain ⟨parent', _⟩ := edge_holder r i y.label edge'
      rw [parent, Option.some.injEq] at parent'
      exact parent'.symm
  · obtain ⟨ids, chain, members⟩ := r.consistent.free
    exact ⟨ids, chain, chain.nodup, members⟩
  · obtain ⟨x, keyed, _, _, members, _⟩ := content_of_live r i alive
    obtain ⟨⟨distinct, addressable⟩, _⟩ := (Tree.wellKeyed_iff _).mp keyed
    rw [Tree.keys_forget] at distinct addressable
    have names : (m.arena.get i).members.map Prod.fst = x.keys := by
      rw [members]
      cases x <;> simp [treeContent, Tree.keys, Function.comp_def]
    rw [names]
    exact ⟨distinct, fun key inside => addressable_spelled key (addressable key inside)⟩
  · obtain ⟨x, _, type, _, members, _⟩ := content_of_live r i alive
    rw [members] at some_
    rw [type]
    cases x <;> simp_all [treeContent]
  · obtain ⟨x, _, type, _, _, elements⟩ := content_of_live r i alive
    rw [elements] at some_
    rw [type]
    cases x <;> simp_all [treeContent]
  · obtain ⟨x, _, type, scalar, _, _⟩ := content_of_live r i alive
    rw [type] at notObject notArray
    rw [type, scalar]
    cases x <;> simp_all [treeContent]
  · obtain ⟨y, _, _, bound⟩ := sits_of_below m.arena t m.rootId i depth below t top r.label
    have shallow := r.admissible.shallow
    rw [Tree.height_forget] at shallow
    omega

/-- Every model the interface can produce, after successful and failed operations alike,
has a well-formed arena. -/
theorem reachable_wellFormed (m : ConfigModel) (reached : Reachable m) : WellFormed m := by
  obtain ⟨t, r⟩ := reachable_represents reached
  exact represents_wellFormed m t r

/-- A model with a member that was written and one that was removed again. -/
theorem removed_member_wellFormed :
    WellFormed (((ConfigModel.empty.set (bytes "a.b") (ConfigValue.of (.bool true))).2.set
      (bytes "c") ConfigValue.array).2.remove (bytes "a")).2 :=
  reachable_wellFormed _ (.remove _ _ (.set _ _ ⟨ConfigValue.array, by decide⟩
    (.set _ _ ⟨ConfigValue.of (.bool true), by decide⟩ .empty)))

end ConfigManager.Guarantees
