import ConfigManager.Refinement.Representation

/-!
# Building, freeing and replacing subtrees

One specification per function. `Built` is what every detached construction
leaves: the slots of the new tree are exactly the ones brought to life.
`freeSubtree` gives exactly the slots of its subtree back.
-/

set_option autoImplicit false

namespace ConfigManager.Refinement
open Library Source

/-! ## Linking a child -/

/-- The append that links a finished child, by the kind of step that names it. -/
def pushChild (a : NodeArena) (id : NodeId) (step : PathSegment) (child : NodeId) : NodeArena :=
  match step with
  | .key key => a.pushMember id key child
  | .index _ => a.pushElement id child

/-- Whether a node is of the kind that `step` needs to live in. -/
def fits : PathSegment → SlotTree → Bool
  | .key _, .object _ _ => true
  | .index _, .array _ _ => true
  | _, _ => false

theorem fits_of_canAppend (step : PathSegment) (t : SlotTree)
    (room : Tree.canAppend step t = true) : fits step t = true := by
  cases step <;> cases t <;> simp_all [fits, Tree.canAppend]

theorem pushChild_eq_modify (a : NodeArena) (id : NodeId) (step : PathSegment) (child : NodeId) :
    ∃ f, Edit f ∧ pushChild a id step child = a.modify id f := by
  cases step with
  | key key => exact ⟨_, edit_pushMember key child, rfl⟩
  | index index => exact ⟨_, edit_pushElement child, rfl⟩

theorem addChild_children_of_fits (step : PathSegment) (t c : SlotTree) (kind : fits step t = true) :
    (Tree.addChild step c t).children = t.children ++ [c] := by
  cases step <;> cases t <;> simp_all [fits, Tree.addChild, Tree.children]

theorem Rep.link {a : NodeArena} {parent : Option NodeId} {t c : SlotTree} (step : PathSegment)
    (kind : fits step t = true) (rep : Rep a parent t) (child : Rep a (some t.label) c)
    (apart : t.label ∉ c.labels) (apart' : ∀ d ∈ t.children, t.label ∉ d.labels) :
    Rep (pushChild a t.label step c.label) parent (Tree.addChild step c t) := by
  obtain ⟨f, edit, shape⟩ := pushChild_eq_modify a t.label step c.label
  have inside := NodeArena.live_lt a t.label rep.alive
  have other : ∀ i, i ≠ t.label → (pushChild a t.label step c.label).get i = a.get i := by
    intro i different
    rw [shape, NodeArena.modify_get_of_ne a t.label i f different]
  obtain ⟨type, scalar, members, elements⟩ := rep.record
  refine .node parent _ ?_ ?_ ?_ ?_
  · rw [Tree.addChild_label, shape, modify_live a t.label f edit]
    exact rep.alive
  · rw [Tree.addChild_label]
    cases step with
    | key key =>
      cases t with
      | leaf l s => simp [fits] at kind
      | array l es => simp [fits] at kind
      | object l ms =>
        simp only [pushChild, NodeArena.pushMember]
        rw [NodeArena.modify_get_self a _ _ inside]
        simp_all [contentOf, treeContent, Tree.addChild]
    | index index =>
      cases t with
      | leaf l s => simp [fits] at kind
      | object l ms => simp [fits] at kind
      | array l es =>
        simp only [pushChild, NodeArena.pushElement]
        rw [NodeArena.modify_get_self a _ _ inside]
        simp_all [contentOf, treeContent, Tree.addChild]
  · rw [Tree.addChild_label]
    have up := rep.up
    cases step with
    | key key =>
      simp only [pushChild, NodeArena.pushMember]
      rw [NodeArena.modify_get_self a _ _ inside]
      exact up
    | index index =>
      simp only [pushChild, NodeArena.pushElement]
      rw [NodeArena.modify_get_self a _ _ inside]
      exact up
  · intro d member
    rw [addChild_children_of_fits step t c kind] at member
    rw [Tree.addChild_label]
    rcases List.mem_append.mp member with old | new
    · exact (rep.children d old).frame fun i listed =>
        other i fun same => apart' d old (same ▸ listed)
    · rw [List.mem_singleton.mp new]
      exact child.frame fun i listed => other i fun same => apart (same ▸ listed)

/-- Re-parenting the root of a subtree. -/
theorem Rep.setParent {a : NodeArena} {parent : Option NodeId} {t : SlotTree}
    (rep : Rep a parent t) (parent' : Option NodeId) (apart : ∀ c ∈ t.children, t.label ∉ c.labels) :
    Rep (a.setParent t.label parent') parent' t := by
  have inside := NodeArena.live_lt a t.label rep.alive
  refine rep.reparent ?_ ?_ ?_ fun c member i listed => ?_
  · rw [NodeArena.setParent, modify_live a _ _ (edit_setParent parent')]
    exact rep.alive
  · rw [NodeArena.setParent, NodeArena.modify_get_self a _ _ inside]
    rfl
  · rw [NodeArena.setParent, NodeArena.modify_get_self a _ _ inside]
  · exact NodeArena.modify_get_of_ne a _ i _ fun same => apart c member (same ▸ listed)

theorem rep_fresh_object (a : NodeArena) (id : NodeId) (before : Node)
    (fresh : a.get id = freshNode .object before) : Rep a none (.object id []) := by
  refine .node none _ ?_ ?_ ?_ ?_
  · simp only [Tree.label, NodeArena.live, fresh, freshNode]
  · simp [Tree.label, fresh, freshNode, contentOf, treeContent]
  · simp [Tree.label, fresh, freshNode]
  · simp [Tree.children]

theorem rep_fresh_array (a : NodeArena) (id : NodeId) (before : Node)
    (fresh : a.get id = freshNode .array before) : Rep a none (.array id []) := by
  refine .node none _ ?_ ?_ ?_ ?_
  · simp only [Tree.label, NodeArena.live, fresh, freshNode]
  · simp [Tree.label, fresh, freshNode, contentOf, treeContent]
  · simp [Tree.label, fresh, freshNode]
  · simp [Tree.children]

/-! ## Building -/

/-- No slot occurs twice in the tree. -/
def LabelsDistinct (t : SlotTree) : Prop := ∀ i, t.labels.count i ≤ 1

theorem LabelsDistinct.root_apart {t : SlotTree} (distinct : LabelsDistinct t) :
    ∀ c ∈ t.children, t.label ∉ c.labels := by
  intro c member inside
  have bound := distinct t.label
  rw [Tree.count_labels, if_pos rfl] at bound
  have below : t.label ∈ t.children.flatMap Tree.labels :=
    List.mem_flatMap.mpr ⟨c, member, inside⟩
  have positive := List.count_pos_iff.mpr below
  omega

theorem LabelsDistinct.root_out {t : SlotTree} (distinct : LabelsDistinct t) :
    t.label ∉ t.children.flatMap Tree.labels := by
  intro inside
  obtain ⟨c, member, listed⟩ := List.mem_flatMap.mp inside
  exact distinct.root_apart c member listed

theorem LabelsDistinct.children {t : SlotTree} (distinct : LabelsDistinct t) (i : NodeId) :
    (t.children.flatMap Tree.labels).count i ≤ 1 := by
  have bound := distinct i
  rw [Tree.count_labels] at bound
  omega

theorem count_child_le (cs : List SlotTree) (c : SlotTree) (member : c ∈ cs) (i : NodeId) :
    c.labels.count i ≤ (cs.flatMap Tree.labels).count i := by
  rw [List.count_flatMap]
  exact List.single_le_sum (by simp) _ (List.mem_map_of_mem (f := List.count i ∘ Tree.labels) member)

theorem LabelsDistinct.child {t : SlotTree} (distinct : LabelsDistinct t) (c : SlotTree)
    (member : c ∈ t.children) : LabelsDistinct c := fun i =>
  Nat.le_trans (count_child_le t.children c member i) (distinct.children i)

theorem Allocated.labelsDistinct {a a' : NodeArena} {t : SlotTree}
    (step : Allocated a a' t.labels) : LabelsDistinct t := by
  intro i
  have counted := step.live i
  have bound := liveCount_le_one a' i
  omega

/-- What a detached construction leaves: `t` sits in exactly the slots brought to life. -/
structure Built (a : NodeArena) (result : NodeId × NodeArena) (parent : Option NodeId)
    (value : ConfigValue) (t : SlotTree) : Prop where
  label : t.label = result.1
  allocated : Allocated a result.2 t.labels
  rep : Rep result.2 parent t
  forget : t.forget = value

/-- One more child built below the root of a detached tree and linked to it. -/
theorem Built.link {a : NodeArena} {result built : NodeId × NodeArena} {parent : Option NodeId}
    {value v : ConfigValue} {t c : SlotTree} (step : PathSegment) (kind : fits step t = true)
    (first : Built a result parent value t)
    (child : Built result.2 built (some result.1) v c) :
    Built a (result.1, pushChild built.2 result.1 step built.1) parent
      (Tree.addChild step v value) (Tree.addChild step c t) := by
  have both := first.allocated.trans child.allocated
  have apart : t.label ∉ c.labels := child.allocated.fresh t.label first.rep.alive
  have rep : Rep built.2 parent t := first.rep.frame fun i inside =>
    child.allocated.keeps i (first.rep.labels_live i inside)
  have childRep : Rep built.2 (some t.label) c := by
    rw [first.label]
    exact child.rep
  have linked := rep.link step kind childRep apart first.allocated.labelsDistinct.root_apart
  obtain ⟨f, edit, shape⟩ := pushChild_eq_modify built.2 result.1 step built.1
  refine ⟨by rw [Tree.addChild_label, first.label], ?_, ?_, ?_⟩
  · have rootListed : result.1 ∈ t.labels ++ c.labels := by
      rw [← first.label]
      exact List.mem_append_left _ (label_mem_labels t)
    have edited := both.modify result.1 rootListed f edit
    rw [← shape] at edited
    apply edited.congr
    intro i
    rw [Tree.count_labels, addChild_children_of_fits step t c kind, Tree.addChild_label,
      List.count_append, Tree.count_labels t]
    simp only [List.flatMap_append, List.flatMap_cons, List.flatMap_nil, List.append_nil,
      List.count_append]
    omega
  · rw [← first.label, ← child.label]
    exact linked
  · rw [Tree.addChild_forget, first.forget, child.forget]

theorem allocate_built_object (a : NodeArena) (consistent : Consistent a) :
    Built a (a.allocate .object) none (Tree.object () []) (.object (a.allocate .object).1 []) := by
  obtain ⟨allocated, fresh⟩ := allocate_spec a .object consistent
  exact ⟨rfl, by simpa [Tree.labels, Tree.labelsMembers] using allocated,
    rep_fresh_object _ _ _ fresh, by simp⟩

theorem allocate_built_array (a : NodeArena) (consistent : Consistent a) :
    Built a (a.allocate .array) none (Tree.array () []) (.array (a.allocate .array).1 []) := by
  obtain ⟨allocated, fresh⟩ := allocate_spec a .array consistent
  exact ⟨rfl, by simpa [Tree.labels, Tree.labelsElements] using allocated,
    rep_fresh_array _ _ _ fresh, by simp⟩

theorem Built.setParent {a : NodeArena} {result : NodeId × NodeArena} {parent : Option NodeId}
    {value : ConfigValue} {t : SlotTree} (built : Built a result parent value t)
    (parent' : Option NodeId) :
    Built a (result.1, result.2.setParent result.1 parent') parent' value t := by
  have apart := built.allocated.labelsDistinct.root_apart
  refine ⟨built.label, ?_, ?_, built.forget⟩
  · exact built.allocated.modify result.1 (by rw [← built.label]; exact label_mem_labels t) _
      (edit_setParent parent')
  · rw [← built.label]
    exact built.rep.setParent parent' apart

theorem buildMembers_spec (a : NodeArena) (parent : Option NodeId) (id : NodeId)
    (ms : List (Bytes × ConfigValue))
    (each : ∀ m ∈ ms, ∀ b, Consistent b → ∀ up, ∃ t, Built b (buildFromValue b m.2 up) up m.2 t)
    (arena : NodeArena) (done : List (Bytes × SlotTree))
    (before : List (Bytes × ConfigValue))
    (soFar : Built a (id, arena) parent (Tree.object () before) (.object id done)) :
    ∃ t, Built a (id, buildMembers arena ms id) parent (Tree.object () (before ++ ms)) t := by
  induction ms generalizing arena done before with
  | nil => exact ⟨_, by simpa [buildMembers] using soFar⟩
  | cons m rest ih =>
    obtain ⟨key, value⟩ := m
    obtain ⟨c, child⟩ := each (key, value) (by simp) arena soFar.allocated.consistent (some id)
    have linked := soFar.link (.key key) rfl child
    obtain ⟨t, finished⟩ := ih (fun m inside => each m (List.mem_cons_of_mem _ inside)) _
      (done ++ [(key, c)]) (before ++ [(key, value)]) linked
    exact ⟨t, by simpa [buildMembers, pushChild] using finished⟩

theorem buildElements_spec (a : NodeArena) (parent : Option NodeId) (id : NodeId)
    (es : List ConfigValue)
    (each : ∀ e ∈ es, ∀ b, Consistent b → ∀ up, ∃ t, Built b (buildFromValue b e up) up e t)
    (arena : NodeArena) (done : List SlotTree) (before : List ConfigValue)
    (soFar : Built a (id, arena) parent (Tree.array () before) (.array id done)) :
    ∃ t, Built a (id, buildElements arena es id) parent (Tree.array () (before ++ es)) t := by
  induction es generalizing arena done before with
  | nil => exact ⟨_, by simpa [buildElements] using soFar⟩
  | cons value rest ih =>
    obtain ⟨c, child⟩ := each value (by simp) arena soFar.allocated.consistent (some id)
    have linked := soFar.link (.index 0) rfl child
    obtain ⟨t, finished⟩ := ih (fun e inside => each e (List.mem_cons_of_mem _ inside)) _
      (done ++ [c]) (before ++ [value]) linked
    exact ⟨t, by simpa [buildElements, pushChild] using finished⟩

theorem buildFromValue_spec (a : NodeArena) (consistent : Consistent a) (value : ConfigValue)
    (parent : Option NodeId) : ∃ t, Built a (buildFromValue a value parent) parent value t := by
  induction value using Tree.children_induction generalizing a parent with
  | node value ih =>
    cases value with
    | leaf l scalar =>
      obtain ⟨allocated, fresh⟩ := allocate_spec a scalar.type consistent
      refine ⟨.leaf (a.allocate scalar.type).1 scalar, rfl, ?_, ?_, rfl⟩
      · have parented := allocated.modify (a.allocate scalar.type).1 (by simp) _
          (edit_setParent parent)
        exact parented.modify (a.allocate scalar.type).1 (by simp)
          (fun node => { node with scalar := scalar }) ⟨fun _ => rfl, fun _ => rfl, fun _ => rfl⟩
      · have inside := NodeArena.live_lt _ _ (allocated.alive (a.allocate scalar.type).1 (by simp))
        have record : (buildFromValue a (Tree.leaf l scalar) parent).2.get
            (a.allocate scalar.type).1 =
            { freshNode scalar.type (a.get (a.allocate scalar.type).1) with
              parent := parent, scalar := scalar } := by
          simp only [buildFromValue, NodeArena.setParent]
          rw [NodeArena.modify_get_self _ _ _ (by simpa using inside),
            NodeArena.modify_get_self _ _ _ inside, fresh]
        refine .node parent _ ?_ ?_ ?_ (by simp [Tree.children])
        · rw [NodeArena.live, Tree.label, record]
          rfl
        · rw [Tree.label, record]
          rfl
        · rw [Tree.label, record]
    | object l ms =>
      have start := (allocate_built_object a consistent).setParent parent
      exact buildMembers_spec a parent _ ms (fun m inside b ok up =>
        ih m.2 (List.mem_map_of_mem inside) b ok up) _ [] [] start
    | array l es =>
      have start := (allocate_built_array a consistent).setParent parent
      exact buildElements_spec a parent _ es (fun e inside b ok up => ih e inside b ok up)
        _ [] [] start

/-! ## The bottom-up chain -/

/-- The empty container that a step needs to live in. -/
def emptyFor : PathSegment → ConfigValue
  | .key _ => Tree.object () []
  | .index _ => Tree.array () []

/-- The chain is parented to the container that was just allocated for it, not yet linked. -/
theorem Built.parented {a : NodeArena} {built container : NodeId × NodeArena}
    {value empty : ConfigValue} {t outer : SlotTree} (done : Built a built none value t)
    (allocated : Built built.2 container none empty outer) :
    Allocated a (container.2.setParent built.1 (some container.1)) (t.labels ++ outer.labels) ∧
      Rep (container.2.setParent built.1 (some container.1)) (some outer.label) t ∧
      Rep (container.2.setParent built.1 (some container.1)) none outer := by
  have both := done.allocated.trans allocated.allocated
  have chainLive := done.rep.labels_live
  have chainListed : built.1 ∈ t.labels ++ outer.labels := by
    rw [← done.label]
    exact List.mem_append_left _ (label_mem_labels t)
  have kept : Rep container.2 none t := done.rep.frame fun i inside =>
    allocated.allocated.keeps i (chainLive i inside)
  refine ⟨both.modify built.1 chainListed _ (edit_setParent (some container.1)), ?_, ?_⟩
  · rw [← done.label, ← allocated.label]
    exact kept.setParent (some outer.label) done.allocated.labelsDistinct.root_apart
  · refine allocated.rep.frame fun i inside => NodeArena.modify_get_of_ne _ _ i _ ?_
    rintro rfl
    rw [← done.label] at inside
    exact allocated.allocated.fresh t.label (chainLive _ (label_mem_labels t)) inside

/-- One round of the chain, whichever empty container was just allocated for it. -/
theorem Built.wrap {a : NodeArena} {built container : NodeId × NodeArena} {value : ConfigValue}
    {t outer : SlotTree} (step : PathSegment) (kind : fits step outer = true)
    (done : Built a built none value t)
    (allocated : Built built.2 container none (emptyFor step) outer) :
    Built a (container.1, pushChild (container.2.setParent built.1 (some container.1))
      container.1 step built.1) none (Tree.addChild step value (emptyFor step))
      (Tree.addChild step t outer) := by
  obtain ⟨parented, chain, outerRep⟩ := done.parented allocated
  have apart : outer.label ∉ t.labels := fun inside =>
    allocated.allocated.fresh outer.label (done.rep.labels_live _ inside) (label_mem_labels outer)
  have outerListed : container.1 ∈ t.labels ++ outer.labels := by
    rw [← allocated.label]
    exact List.mem_append_right _ (label_mem_labels outer)
  have linked := outerRep.link step kind chain apart
    allocated.allocated.labelsDistinct.root_apart
  obtain ⟨f, edit, shape⟩ := pushChild_eq_modify
    (container.2.setParent built.1 (some container.1)) container.1 step built.1
  refine ⟨by rw [Tree.addChild_label, allocated.label], ?_, ?_, ?_⟩
  · have pushed := parented.modify container.1 outerListed f edit
    rw [shape]
    apply pushed.congr
    intro i
    rw [Tree.count_labels, addChild_children_of_fits step outer t kind, Tree.addChild_label,
      List.count_append, Tree.count_labels outer]
    simp only [List.flatMap_append, List.flatMap_cons, List.flatMap_nil, List.append_nil,
      List.count_append]
    omega
  · rw [← allocated.label, ← done.label] at linked ⊢
    exact linked
  · rw [Tree.addChild_forget, done.forget, allocated.forget]

theorem wrapChain_spec (a : NodeArena) (built : NodeId × NodeArena) (value : ConfigValue)
    (t : SlotTree) (step : PathSegment) (done : Built a built none value t) :
    ∃ t', Built a (wrapChain step built) none (Tree.addChild step value (emptyFor step)) t' := by
  have consistent := done.allocated.consistent
  cases step with
  | key key => exact ⟨_, done.wrap (.key key) rfl (allocate_built_object built.2 consistent)⟩
  | index index => exact ⟨_, done.wrap (.index index) rfl (allocate_built_array built.2 consistent)⟩

/-- The whole chain below the creation point: `create` says what it holds. -/
theorem foldr_wrapChain_spec (a : NodeArena) (built : NodeId × NodeArena) (value whole : ConfigValue)
    (t : SlotTree) (segments : List PathSegment) (done : Built a built none value t)
    (creatable : Tree.create segments value = .ok whole) :
    ∃ t', Built a (segments.foldr wrapChain built) none whole t' := by
  induction segments generalizing whole with
  | nil =>
    cases creatable
    exact ⟨t, done⟩
  | cons step rest ih =>
    have inner : ∃ below, Tree.create rest value = .ok below ∧
        whole = Tree.addChild step below (emptyFor step) := by
      cases step with
      | key key =>
        simp only [Tree.create] at creatable
        cases made : Tree.create rest value with
        | error f => simp [made, Except.map] at creatable
        | ok below =>
          simp only [made, Except.map, Except.ok.injEq] at creatable
          exact ⟨below, rfl, creatable.symm⟩
      | index index =>
        simp only [Tree.create] at creatable
        split at creatable
        · cases made : Tree.create rest value with
          | error f => simp [made, Except.map] at creatable
          | ok below =>
            simp only [made, Except.map, Except.ok.injEq] at creatable
            exact ⟨below, rfl, creatable.symm⟩
        · cases creatable
    obtain ⟨below, made, shape⟩ := inner
    obtain ⟨t', chain⟩ := ih below made
    rw [shape, List.foldr_cons]
    exact wrapChain_spec a _ below t' step chain

/-! ## Freeing -/

/-- Releasing a list of sibling subtrees, one after the other. -/
theorem foldl_free_spec (freeNode : NodeArena → NodeId → NodeArena) (parent : Option NodeId)
    (cs : List SlotTree)
    (each : ∀ c ∈ cs, ∀ b, Rep b parent c → Consistent b →
      Released b (freeNode b c.label) c.labels)
    (arena : NodeArena) (reps : ∀ c ∈ cs, Rep arena parent c)
    (distinct : ∀ i, (cs.flatMap Tree.labels).count i ≤ 1) (consistent : Consistent arena) :
    Released arena ((cs.map Tree.label).foldl freeNode arena) (cs.flatMap Tree.labels) := by
  induction cs generalizing arena with
  | nil => exact Released.refl arena consistent
  | cons c rest ih =>
    have first := each c (by simp) arena (reps c (by simp)) consistent
    have apart : ∀ d ∈ rest, ∀ i ∈ d.labels, i ∉ c.labels := by
      intro d member i listed here
      have bound := distinct i
      have inRest := List.count_pos_iff.mpr (List.mem_flatMap.mpr ⟨d, member, listed⟩)
      have inHead := List.count_pos_iff.mpr here
      rw [List.flatMap_cons, List.count_append] at bound
      omega
    have later := ih (fun d member => each d (List.mem_cons_of_mem _ member))
      (freeNode arena c.label)
      (fun d member => (reps d (List.mem_cons_of_mem _ member)).frame fun i listed =>
        first.frame i (apart d member i listed))
      (fun i => by
        have bound := distinct i
        rw [List.flatMap_cons, List.count_append] at bound
        omega)
      first.consistent
    exact first.trans later

theorem edit_clear : Edit fun node => { node with members := [], elements := [] } :=
  ⟨fun _ => rfl, fun _ => rfl, fun _ => rfl⟩

/-- The record of a node whose children were given away. -/
def clearChildren (a : NodeArena) (id : NodeId) : NodeArena :=
  a.modify id fun node => { node with members := [], elements := [] }

/-- The two loops of `freeChildren` visit the children in order. -/
theorem freeChildren_eq (freeNode : NodeArena → NodeId → NodeArena) (a : NodeArena)
    (parent : Option NodeId) (t : SlotTree) (rep : Rep a parent t) :
    freeChildren freeNode a t.label =
      (t.children.map Tree.label).foldl freeNode (clearChildren a t.label) := by
  obtain ⟨_, _, members, elements⟩ := rep.record
  cases t with
  | leaf l s => simp_all [freeChildren, clearChildren, treeContent, Tree.children]
  | object l ms =>
    simp only [treeContent] at members elements
    simp only [freeChildren, clearChildren, members, elements, Tree.children, List.foldl_map,
      List.map_map, List.foldl_nil, Function.comp_apply]
  | array l es =>
    simp only [treeContent] at members elements
    simp only [freeChildren, clearChildren, members, elements, Tree.children, List.foldl_nil]

/-- What freeing the children leaves of a node: its record with empty lists. -/
structure Emptied (a a' : NodeArena) (t : SlotTree) : Prop where
  consistent : Consistent a'
  live : ∀ i, liveCount a i = liveCount a' i + (t.children.flatMap Tree.labels).count i
  root : a'.get t.label = { a.get t.label with members := [], elements := [] }
  frame : ∀ i, i ∉ t.labels → a'.get i = a.get i
  gone : ∀ i ∈ t.labels, i ≠ t.label → (a'.get i).releases = (a.get i).releases + 1

theorem Emptied.alive {a a' : NodeArena} {parent : Option NodeId} {t : SlotTree}
    (emptied : Emptied a a' t) (rep : Rep a parent t) : a'.live t.label = true := by
  rw [NodeArena.live, emptied.root]
  exact rep.alive

theorem freeChildren_spec (freeNode : NodeArena → NodeId → NodeArena) (a : NodeArena)
    (parent : Option NodeId) (t : SlotTree) (rep : Rep a parent t) (distinct : LabelsDistinct t)
    (consistent : Consistent a)
    (each : ∀ c ∈ t.children, ∀ b, Rep b (some t.label) c → Consistent b →
      Released b (freeNode b c.label) c.labels) :
    Emptied a (freeChildren freeNode a t.label) t := by
  have released : Released (clearChildren a t.label) (freeChildren freeNode a t.label)
      (t.children.flatMap Tree.labels) := by
    rw [freeChildren_eq freeNode a parent t rep]
    refine foldl_free_spec freeNode (some t.label) t.children each _ (fun c member => ?_)
      distinct.children (modify_consistent a t.label _ edit_clear rep.alive consistent)
    exact (rep.children c member).frame fun i listed => NodeArena.modify_get_of_ne a _ i _
      fun same => distinct.root_apart c member (same ▸ listed)
  refine ⟨released.consistent, fun i => ?_, ?_, fun i out => ?_, fun i listed different => ?_⟩
  · rw [← released.live, clearChildren, modify_liveCount a t.label _ edit_clear]
  · rw [released.frame t.label distinct.root_out]
    exact NodeArena.modify_get_self a t.label _ (NodeArena.live_lt a _ rep.alive)
  · rw [Tree.labels_eq, List.mem_cons, not_or] at out
    rw [released.frame i out.2]
    exact NodeArena.modify_get_of_ne a t.label i _ out.1
  · rw [Tree.labels_eq] at listed
    rw [released.releases i ((List.mem_cons.mp listed).resolve_left different), clearChildren,
      modify_releases a t.label _ edit_clear rep.alive]

theorem freeSubtree_spec (slots : Nat) (a : NodeArena) (parent : Option NodeId) (t : SlotTree)
    (rep : Rep a parent t) (distinct : LabelsDistinct t) (enough : t.height < slots)
    (consistent : Consistent a) : Released a (freeSubtree slots a t.label) t.labels := by
  induction slots generalizing a parent t with
  | zero => omega
  | succ slots ih =>
    have emptied := freeChildren_spec (freeSubtree slots) a parent t rep distinct consistent
      fun c member b repB ok => ih b (some t.label) c repB (distinct.child c member)
        (by have := Tree.height_child_lt t c member; omega) ok
    have last := release_spec _ t.label (emptied.alive rep) emptied.consistent
    rw [freeSubtree]
    refine ⟨last.consistent, fun i => ?_, fun i out => ?_, fun i listed => ?_⟩
    · rw [emptied.live, last.live, Tree.labels_eq]
      simp only [List.count_cons, List.count_nil]
      omega
    · have different : i ≠ t.label := fun same => out (same ▸ label_mem_labels t)
      rw [last.frame i (by simpa using different), emptied.frame i out]
    · by_cases root : i = t.label
      · rw [root, last.releases t.label (by simp), emptied.root]
      · rw [last.frame i (by simpa using root), emptied.gone i listed root]

/-- A represented tree is lower than the number of slots. -/
theorem Rep.height_lt {a : NodeArena} {parent : Option NodeId} {t : SlotTree}
    (rep : Rep a parent t) (distinct : LabelsDistinct t) : t.height < a.nodes.length := by
  have nodup : t.labels.Nodup := List.nodup_iff_count_le_one.mpr distinct
  have inRange : t.labels ⊆ List.range a.nodes.length := fun i inside =>
    List.mem_range.mpr (NodeArena.live_lt a i (rep.labels_live i inside))
  have bound := (nodup.subperm inRange).length_le
  rw [List.length_range] at bound
  exact Nat.lt_of_lt_of_le t.height_lt_labels bound

/-- `freeChildren` as `assignContents` calls it, with as many rounds as there are slots. -/
theorem freeChildren_all (a : NodeArena) (parent : Option NodeId) (t : SlotTree)
    (rep : Rep a parent t) (distinct : LabelsDistinct t) (consistent : Consistent a) :
    Emptied a (freeChildren (freeSubtree a.nodes.length) a t.label) t := by
  have enough := rep.height_lt distinct
  apply freeChildren_spec _ a parent t rep distinct consistent
  intro c member b repB ok
  have lower := Tree.height_child_lt t c member
  exact freeSubtree_spec _ b _ c repB (distinct.child c member) (by omega) ok

end ConfigManager.Refinement
