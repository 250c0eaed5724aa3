import ConfigManager.Refinement.BuildFree

/-!
# Edits below one node

The three mutations of the model each act below one anchor node that keeps its
slot: replacing its contents, linking a created chain, unlinking and freeing a
child. `Rewrite` is what they have in common, so that carrying an edit up to the
root is done once.
-/

set_option autoImplicit false

namespace ConfigManager.Refinement
open Library Source

/-- Between `a` and `a'` the subtree `old` became `new`, in the same root slot. Slots of
`old` that `new` lacks were released once; everything live outside `old` is untouched. -/
structure Rewrite (a a' : NodeArena) (parent : Option NodeId) (old new : SlotTree) : Prop where
  label : new.label = old.label
  consistent : Consistent a'
  rep : Rep a' parent new
  live : ∀ i, liveCount a' i + old.labels.count i = liveCount a i + new.labels.count i
  frame : ∀ i, a.live i = true → i ∉ old.labels → a'.get i = a.get i
  kept : ∀ i ∈ old.labels, i ∈ new.labels → (a'.get i).releases = (a.get i).releases
  gone : ∀ i ∈ old.labels, i ∉ new.labels → (a'.get i).releases = (a.get i).releases + 1
  monotone : ∀ i, (a.get i).releases ≤ (a'.get i).releases

/-! ## Re-parenting a list of nodes -/

def setParents (a : NodeArena) (ids : List NodeId) (parent : Option NodeId) : NodeArena :=
  ids.foldl (fun a id => a.setParent id parent) a

theorem setParents_spec (ids : List NodeId) (a : NodeArena) (parent : Option NodeId)
    (alive : ∀ i ∈ ids, a.live i = true) (consistent : Consistent a) :
    Consistent (setParents a ids parent) ∧
      (∀ i, liveCount (setParents a ids parent) i = liveCount a i) ∧
      ∀ i, (setParents a ids parent).get i =
        if i ∈ ids then { a.get i with parent := parent } else a.get i := by
  induction ids generalizing a with
  | nil => exact ⟨consistent, fun _ => rfl, fun _ => by simp [setParents]⟩
  | cons id rest ih =>
    have here := alive id (by simp)
    have inside := NodeArena.live_lt a id here
    have edit := edit_setParent parent
    obtain ⟨ok, live, get⟩ := ih (a.setParent id parent)
      (fun i member => by
        rw [NodeArena.setParent, modify_live a id _ edit]
        exact alive i (List.mem_cons_of_mem _ member))
      (modify_consistent a id _ edit here consistent)
    refine ⟨ok, fun i => (live i).trans (modify_liveCount a id _ edit i), fun i => ?_⟩
    have unfolded : setParents a (id :: rest) parent =
        setParents (a.setParent id parent) rest parent := rfl
    rw [unfolded, get i]
    by_cases same : i = id
    · subst same
      rw [NodeArena.setParent, NodeArena.modify_get_self a i _ inside]
      simp
    · rw [NodeArena.setParent, NodeArena.modify_get_of_ne a id i _ same]
      simp [same]

/-! ## Replacing the contents of a node -/

/-- The tree with another slot for its root. -/
def relabelRoot (l : NodeId) : SlotTree → SlotTree
  | .leaf _ s => .leaf l s
  | .object _ ms => .object l ms
  | .array _ es => .array l es

@[simp] theorem relabelRoot_label (l : NodeId) (t : SlotTree) : (relabelRoot l t).label = l := by
  cases t <;> rfl

@[simp] theorem relabelRoot_children (l : NodeId) (t : SlotTree) :
    (relabelRoot l t).children = t.children := by
  cases t <;> rfl

@[simp] theorem relabelRoot_content (l : NodeId) (t : SlotTree) :
    treeContent (relabelRoot l t) = treeContent t := by
  cases t <;> rfl

@[simp] theorem relabelRoot_forget (l : NodeId) (t : SlotTree) :
    (relabelRoot l t).forget = t.forget := by
  cases t <;> simp [relabelRoot]

/-- The last three statements of `assignContents`, on the children of the built tree. -/
def spliceContents (a : NodeArena) (target built : NodeId) (children : List NodeId) : NodeArena :=
  (setParents (a.modify target fun node =>
    { node with
      scalar := (a.get built).scalar
      members := (a.get built).members
      elements := (a.get built).elements }) children (some target)).release built

theorem assignContents_eq (a : NodeArena) (target : NodeId) (value : ConfigValue) (s : SlotTree)
    (holds : contentOf ((freeChildren
      (freeSubtree (buildFromValue a value none).2.nodes.length)
      (buildFromValue a value none).2 target).get (buildFromValue a value none).1) =
        treeContent s) :
    assignContents a target value =
      spliceContents (freeChildren (freeSubtree (buildFromValue a value none).2.nodes.length)
        (buildFromValue a value none).2 target) target (buildFromValue a value none).1
        (s.children.map Tree.label) := by
  have members := congrArg Content.members holds
  have elements := congrArg Content.elements holds
  simp only [contentOf] at members elements
  cases s with
  | leaf l v =>
    simp only [treeContent] at members elements
    simp only [assignContents, spliceContents, setParents, members, elements, Tree.children,
      List.map_nil, List.foldl_nil]
  | object l ms =>
    simp only [treeContent] at members elements
    simp only [assignContents, spliceContents, setParents, members, elements, Tree.children,
      List.foldl_nil, List.foldl_map, List.map_map, Function.comp_apply]
  | array l es =>
    simp only [treeContent] at members elements
    simp only [assignContents, spliceContents, setParents, members, elements, Tree.children,
      List.foldl_nil]

theorem edit_contents (scalar : Scalar) (members : List (Bytes × NodeId)) (elements : List NodeId) :
    Edit fun node => { node with scalar := scalar, members := members, elements := elements } :=
  ⟨fun _ => rfl, fun _ => rfl, fun _ => rfl⟩

/-- A slot below a child's root is the root of no child. -/
theorem LabelsDistinct.grandchild_apart {t c d : SlotTree} (distinct : LabelsDistinct t)
    (member : c ∈ t.children) (member' : d ∈ c.children) (i : NodeId) (listed : i ∈ d.labels) :
    i ∉ t.children.map Tree.label := by
  intro inside
  obtain ⟨e, memberE, same⟩ := List.mem_map.mp inside
  by_cases equal : e = c
  · subst equal
    exact (distinct.child e member).root_apart d member' (same ▸ listed)
  · have nodup : (t.children.flatMap Tree.labels).Nodup :=
      List.nodup_iff_count_le_one.mpr distinct.children
    have symm : Std.Symm (Function.onFun List.Disjoint (Tree.labels : SlotTree → List NodeId)) :=
      ⟨fun _ _ => List.Disjoint.symm⟩
    have disjoint := (List.nodup_flatMap.mp nodup).2.forall memberE member equal
    apply disjoint (same ▸ label_mem_labels e)
    exact child_labels_subset c d member' i listed

/-- The records after a splice: the target takes the contents, the children a new parent. -/
theorem spliceContents_get (a : NodeArena) (parent : Option NodeId) (s : SlotTree)
    (rep : Rep a parent s) (distinct : LabelsDistinct s) (target : NodeId)
    (apart : target ∉ s.labels) (alive : a.live target = true) (consistent : Consistent a) :
    ∃ a₁, Released a₁ (spliceContents a target s.label (s.children.map Tree.label)) [s.label] ∧
      (∀ i, liveCount a₁ i = liveCount a i) ∧
      (a₁.get s.label).releases = (a.get s.label).releases ∧
      ∀ i, a₁.get i =
        if i ∈ s.children.map Tree.label then { a.get i with parent := some target }
        else if i = target then
          { a.get target with
            scalar := (a.get s.label).scalar
            members := (a.get s.label).members
            elements := (a.get s.label).elements }
        else a.get i := by
  have edit := edit_contents (a.get s.label).scalar (a.get s.label).members (a.get s.label).elements
  have idsIn : ∀ i ∈ s.children.map Tree.label, i ∈ s.labels := by
    intro i inside
    obtain ⟨c, member, rfl⟩ := List.mem_map.mp inside
    exact child_labels_subset s c member c.label (label_mem_labels c)
  have rootOut : s.label ∉ s.children.map Tree.label := by
    intro inside
    obtain ⟨c, member, same⟩ := List.mem_map.mp inside
    exact distinct.root_apart c member (same ▸ label_mem_labels c)
  have rootApart : s.label ≠ target := fun same => apart (same ▸ label_mem_labels s)
  obtain ⟨ok, live, get⟩ := setParents_spec (s.children.map Tree.label) (a.modify target _)
    (some target)
    (fun i inside => by
      rw [modify_live a target _ edit]
      exact rep.labels_live i (idsIn i inside))
    (modify_consistent a target _ edit alive consistent)
  refine ⟨_, release_spec _ s.label ?_ ok, fun i => ?_, ?_, fun i => ?_⟩
  · rw [live_iff_liveCount, live, modify_liveCount a target _ edit, ← live_iff_liveCount]
    exact rep.alive
  · rw [live, modify_liveCount a target _ edit]
  · rw [get, if_neg rootOut, NodeArena.modify_get_of_ne a target _ _ rootApart]
  · rw [get]
    by_cases isTarget : i = target
    · have out : i ∉ s.children.map Tree.label := fun inside => apart (isTarget ▸ idsIn i inside)
      rw [if_neg out, if_neg out, if_pos isTarget, isTarget,
        NodeArena.modify_get_self a target _ (NodeArena.live_lt a _ alive)]
    · rw [NodeArena.modify_get_of_ne a target i _ isTarget, if_neg isTarget]

/-- What a splice leaves: the contents and children of `s` below `target`, and the root slot of
`s` given back. -/
structure Spliced (a a' : NodeArena) (target : NodeId) (s : SlotTree) : Prop where
  consistent : Consistent a'
  live : ∀ i, liveCount a' i + (if s.label = i then 1 else 0) = liveCount a i
  frame : ∀ i, i ∉ s.labels → i ≠ target → a'.get i = a.get i
  rep : Rep a' (a.get target).parent (relabelRoot target s)
  kept : ∀ i, i ≠ s.label → (a'.get i).releases = (a.get i).releases
  gone : (a'.get s.label).releases = (a.get s.label).releases + 1

theorem spliceContents_spec (a : NodeArena) (parent : Option NodeId) (s : SlotTree)
    (rep : Rep a parent s) (distinct : LabelsDistinct s) (target : NodeId)
    (apart : target ∉ s.labels) (alive : a.live target = true)
    (sameType : (a.get target).type = (a.get s.label).type) (consistent : Consistent a) :
    Spliced a (spliceContents a target s.label (s.children.map Tree.label)) target s := by
  obtain ⟨a₁, last, live, builtReleases, get⟩ :=
    spliceContents_get a parent s rep distinct target apart alive consistent
  generalize spliceContents a target s.label (s.children.map Tree.label) = a' at last ⊢
  have childIn : ∀ c ∈ s.children, ∀ i ∈ c.labels, i ∈ s.labels ∧ i ≠ s.label := by
    intro c member i listed
    refine ⟨child_labels_subset s c member i listed, ?_⟩
    rintro rfl
    exact distinct.root_apart c member listed
  have idsIn : ∀ i ∈ s.children.map Tree.label, i ∈ s.labels := by
    intro i inside
    obtain ⟨c, member, rfl⟩ := List.mem_map.mp inside
    exact (childIn c member c.label (label_mem_labels c)).1
  have kept : ∀ i, i ≠ s.label → a'.get i = a₁.get i := fun i different =>
    last.frame i (by simpa using different)
  have root : a'.get target =
      { a.get target with
        scalar := (a.get s.label).scalar
        members := (a.get s.label).members
        elements := (a.get s.label).elements } := by
    have different : target ≠ s.label := fun same => apart (same ▸ label_mem_labels s)
    rw [kept target different, get, if_neg fun inside => apart (idsIn target inside), if_pos rfl]
  refine ⟨last.consistent, fun i => ?_, fun i out different => ?_, ?_, fun i different => ?_, ?_⟩
  · have counted := last.live i
    rw [live] at counted
    simp only [List.count_cons, List.count_nil, beq_iff_eq] at counted
    omega
  · have notRoot : i ≠ s.label := fun same => out (same ▸ label_mem_labels s)
    rw [kept i notRoot, get, if_neg fun inside => out (idsIn i inside), if_neg different]
  · refine .node _ _ ?_ ?_ ?_ fun c member => ?_
    · rw [relabelRoot_label, NodeArena.live, root]
      exact alive
    · rw [relabelRoot_label, relabelRoot_content, root, ← rep.holds]
      simp only [contentOf, sameType]
    · rw [relabelRoot_label, root]
    · rw [relabelRoot_children] at member
      have repC := rep.children c member
      have childRoot : a'.get c.label = { a.get c.label with parent := some target } := by
        rw [kept c.label (childIn c member _ (label_mem_labels c)).2, get,
          if_pos (List.mem_map_of_mem member)]
      refine repC.reparent ?_ ?_ ?_ fun d member' i listed => ?_
      · rw [NodeArena.live, childRoot]
        exact repC.alive
      · rw [childRoot]
        rfl
      · rw [childRoot, relabelRoot_label]
      · have inside := childIn c member i (child_labels_subset c d member' i listed)
        have different : i ≠ target := fun same => apart (same ▸ inside.1)
        rw [kept i inside.2, get, if_neg (distinct.grandchild_apart member member' i listed),
          if_neg different]
  · rw [kept i different, get]
    split
    · rfl
    · split
      · next same => rw [same]
      · rfl
  · rw [last.releases s.label (by simp), builtReleases]

theorem assignContents_spec (a : NodeArena) (parent : Option NodeId) (t : SlotTree)
    (rep : Rep a parent t) (distinct : LabelsDistinct t) (consistent : Consistent a)
    (value : ConfigValue) (sameType : ConfigValue.type t.forget = value.type) :
    ∃ t', Rewrite a (assignContents a t.label value) parent t t' ∧ t'.forget = value ∧
      ∀ i ∈ t.labels, i ∈ t'.labels → i = t.label := by
  obtain ⟨s, built⟩ := buildFromValue_spec a consistent value none
  -- The built slots are fresh, so they meet neither the target nor its descendants.
  have fresh : ∀ i ∈ t.labels, i ∉ s.labels := fun i listed =>
    built.allocated.fresh i (rep.labels_live i listed)
  obtain ⟨label, allocated, repS, forget⟩ := built
  have unfolded := assignContents_eq a t.label value s
  rw [← label] at unfolded
  generalize (buildFromValue a value none).2 = a₁ at unfolded allocated repS
  have rep₁ : Rep a₁ parent t := rep.frame fun i listed =>
    allocated.keeps i (rep.labels_live i listed)
  have emptied := freeChildren_all a₁ parent t rep₁ distinct allocated.consistent
  generalize freeChildren (freeSubtree a₁.nodes.length) a₁ t.label = a₂ at unfolded emptied
  have repS₂ : Rep a₂ none s := repS.frame fun i inside =>
    emptied.frame i fun listed => fresh i listed inside
  have types : (a₂.get t.label).type = (a₂.get s.label).type := by
    rw [repS₂.type, forget, ← sameType, ← rep₁.type, emptied.root]
  have spliced := spliceContents_spec a₂ none s repS₂ allocated.labelsDistinct t.label
    (fresh _ (label_mem_labels t)) (emptied.alive rep₁) types emptied.consistent
  rw [unfolded repS₂.holds]
  generalize spliceContents a₂ t.label s.label (s.children.map Tree.label) = a₃ at spliced ⊢
  have shared : ∀ i ∈ t.labels, i ∈ (relabelRoot t.label s).labels → i = t.label := by
    intro i listed new
    rw [Tree.labels_eq, relabelRoot_label, relabelRoot_children, List.mem_cons] at new
    refine new.resolve_right fun below => fresh i listed ?_
    rw [Tree.labels_eq]
    exact List.mem_cons_of_mem _ below
  have outside : ∀ i ∈ t.labels, i ≠ s.label := fun i listed same =>
    fresh i listed (same ▸ label_mem_labels s)
  have rootReleases : (a₃.get t.label).releases = (a.get t.label).releases := by
    rw [spliced.kept _ (outside _ (label_mem_labels t)), emptied.root, ← allocated.releases]
  have childReleases : ∀ i ∈ t.labels, i ≠ t.label →
      (a₃.get i).releases = (a.get i).releases + 1 := fun i listed different => by
    rw [spliced.kept i (outside i listed), emptied.gone i listed different, allocated.releases]
  refine ⟨relabelRoot t.label s, ⟨relabelRoot_label _ _, spliced.consistent, ?_, fun i => ?_,
    fun i alive out => ?_, fun i listed new => ?_, fun i listed out => ?_, fun i => ?_⟩, ?_, shared⟩
  · have up := spliced.rep
    rw [emptied.root, rep₁.up] at up
    exact up
  · have count₁ := allocated.live i
    have count₂ := emptied.live i
    have count₃ := spliced.live i
    rw [Tree.count_labels s] at count₁
    rw [Tree.count_labels t, Tree.count_labels (relabelRoot t.label s), relabelRoot_label,
      relabelRoot_children]
    omega
  · have different : i ≠ t.label := fun same => out (same ▸ label_mem_labels t)
    have notS := allocated.fresh i alive
    rw [spliced.frame i notS different, emptied.frame i out, allocated.frame i notS]
  · rw [shared i listed new, rootReleases]
  · refine childReleases i listed fun same => out ?_
    have here := label_mem_labels (relabelRoot t.label s)
    rw [relabelRoot_label] at here
    exact same ▸ here
  · by_cases listed : i ∈ t.labels
    · by_cases root : i = t.label
      · rw [root, rootReleases]
      · rw [childReleases i listed root]
        omega
    · by_cases built : i = s.label
      · rw [built, spliced.gone, emptied.frame _ (built ▸ listed), allocated.releases]
        omega
      · rw [spliced.kept i built, emptied.frame i listed, allocated.releases]
  · rw [relabelRoot_forget]
    exact forget

/-! ## Linking a created chain -/

/-- What `applyWrite` does when it creates: the chain below `step`, then the link. -/
def attachChain (a : NodeArena) (anchor : NodeId) (step : PathSegment) (rest : List PathSegment)
    (value : ConfigValue) : NodeArena :=
  let (chain, arena) := rest.foldr wrapChain (buildFromValue a value none)
  pushChild (arena.setParent chain (some anchor)) anchor step chain

theorem attachChain_spec (a : NodeArena) (parent : Option NodeId) (x : SlotTree)
    (rep : Rep a parent x) (distinct : LabelsDistinct x) (consistent : Consistent a)
    (step : PathSegment) (rest : List PathSegment) (value whole : ConfigValue)
    (room : Tree.canAppend step x = true) (creatable : Tree.create rest value = .ok whole) :
    ∃ c, Rewrite a (attachChain a x.label step rest value) parent x (Tree.addChild step c x) ∧
      c.forget = whole := by
  obtain ⟨s, start⟩ := buildFromValue_spec a consistent value none
  obtain ⟨c, built⟩ := foldr_wrapChain_spec a _ value whole s rest start creatable
  have shape : attachChain a x.label step rest value =
      pushChild ((rest.foldr wrapChain (buildFromValue a value none)).2.setParent c.label
        (some x.label)) x.label step c.label := by
    rw [built.label]
    rfl
  rw [shape]
  generalize (rest.foldr wrapChain (buildFromValue a value none)) = chain at built
  have fresh : ∀ i ∈ x.labels, i ∉ c.labels := fun i listed =>
    built.allocated.fresh i (rep.labels_live i listed)
  have rootOut : x.label ∉ c.labels := fresh _ (label_mem_labels x)
  have cOut : c.label ∉ x.labels := fun listed => fresh _ listed (label_mem_labels c)
  have parented : Rep (chain.2.setParent c.label (some x.label)) parent x := by
    refine (rep.frame fun i listed => built.allocated.keeps i (rep.labels_live i listed)).frame
      fun i listed => NodeArena.modify_get_of_ne _ _ i _ ?_
    rintro rfl
    exact cOut listed
  have child := built.rep.setParent (some x.label) built.allocated.labelsDistinct.root_apart
  have linked := parented.link step (fits_of_canAppend step x room) child rootOut
    distinct.root_apart
  obtain ⟨f, edit, pushed⟩ := pushChild_eq_modify (chain.2.setParent c.label (some x.label))
    x.label step c.label
  have cLive : chain.2.live c.label = true := built.rep.alive
  have xLive : (chain.2.setParent c.label (some x.label)).live x.label = true := parented.alive
  have ok := modify_consistent chain.2 c.label _ (edit_setParent (some x.label)) cLive
    built.allocated.consistent
  have releases : ∀ i, ((pushChild (chain.2.setParent c.label (some x.label)) x.label step
      c.label).get i).releases = (a.get i).releases := fun i => by
    rw [pushed, modify_releases _ _ f edit xLive, NodeArena.setParent,
      modify_releases _ _ _ (edit_setParent (some x.label)) cLive, built.allocated.releases]
  refine ⟨c, ⟨Tree.addChild_label step c x, ?_, linked, fun i => ?_, fun i alive out => ?_,
    fun i _ _ => releases i, fun i inside out => ?_, fun i => (releases i).ge⟩, built.forget⟩
  · rw [pushed]
    exact modify_consistent _ _ f edit xLive ok
  · rw [pushed, modify_liveCount _ _ f edit, NodeArena.setParent,
      modify_liveCount _ _ _ (edit_setParent (some x.label)), built.allocated.live,
      Tree.count_addChild step x c room]
    omega
  · have different : i ≠ x.label := fun same => out (same ▸ label_mem_labels x)
    have notC : i ≠ c.label := by
      rintro rfl
      exact built.allocated.fresh c.label alive (label_mem_labels c)
    rw [pushed, NodeArena.modify_get_of_ne _ _ i f different, NodeArena.setParent,
      NodeArena.modify_get_of_ne _ _ i _ notC, built.allocated.keeps i alive]
  · have counted := Tree.count_addChild step x c room i
    have before := List.count_pos_iff.mpr inside
    rw [← List.count_pos_iff] at out
    omega

/-! ## Unlinking and freeing a child -/

theorem child_labels_nodup (t : SlotTree) (distinct : LabelsDistinct t) :
    (t.children.map Tree.label).Nodup := by
  have below : (t.children.flatMap Tree.labels).Nodup :=
    List.nodup_iff_count_le_one.mpr distinct.children
  refine below.sublist ?_
  generalize t.children = cs
  induction cs with
  | nil => exact List.Sublist.slnil
  | cons c rest ih =>
    rw [List.map_cons, List.flatMap_cons, Tree.labels_eq, List.cons_append]
    exact (ih.trans (List.sublist_append_right _ _)).cons_cons _

/-- Erasing a member by its slot is erasing it by its key. -/
theorem eraseP_slot (ms : List (Bytes × SlotTree)) (key : Bytes) (c : SlotTree)
    (found : lookupKey key ms = some c) (distinct : (ms.map fun m => m.2.label).Nodup) :
    (ms.map fun m => (m.1, m.2.label)).eraseP (fun m => m.2 == c.label) =
      (eraseKey key ms).map fun m => (m.1, m.2.label) := by
  induction ms with
  | nil => cases found
  | cons m rest ih =>
    obtain ⟨key', d⟩ := m
    rw [lookup_cons_eq] at found
    rw [List.map_cons, List.nodup_cons] at distinct
    by_cases same : key = key'
    · rw [if_pos same, Option.some.injEq] at found
      simp [eraseKey, same, found]
    · rw [if_neg same] at found
      have different : d.label ≠ c.label := fun equal => by
        refine distinct.1 (List.mem_map.mpr ⟨(key, c), lookup_mem key rest c found, equal.symm⟩)
      rw [List.map_cons, List.eraseP_cons_of_neg (by simpa using different), ih found distinct.2]
      simp [eraseKey, same]

theorem unlink_eq_modify (a : NodeArena) (id target : NodeId) (step : PathSegment) :
    ∃ f, Edit f ∧ (∀ node, (f node).parent = node.parent) ∧
      ConfigModel.unlink a id target step = a.modify id f := by
  cases step with
  | key key =>
    exact ⟨fun node => { node with members := node.members.eraseP fun m => m.2 == target },
      ⟨fun _ => rfl, fun _ => rfl, fun _ => rfl⟩, fun _ => rfl, rfl⟩
  | index index =>
    exact ⟨fun node => { node with elements := node.elements.eraseIdx index },
      ⟨fun _ => rfl, fun _ => rfl, fun _ => rfl⟩, fun _ => rfl, rfl⟩

theorem unlink_content (a : NodeArena) (parent : Option NodeId) (x c : SlotTree)
    (rep : Rep a parent x) (distinct : LabelsDistinct x) (step : PathSegment)
    (found : Tree.descend step x = .ok c) :
    contentOf ((ConfigModel.unlink a x.label c.label step).get x.label) =
      treeContent (Tree.dropChild step x) := by
  have inside := NodeArena.live_lt a x.label rep.alive
  obtain ⟨type, scalar, members, elements⟩ := rep.record
  have slots := child_labels_nodup x distinct
  cases step with
  | key key =>
    cases x with
    | leaf l s => simp [Tree.descend] at found
    | array l es => simp [Tree.descend] at found
    | object l ms =>
      have present : lookupKey key ms = some c := by
        simp only [Tree.descend] at found
        cases looked : lookupKey key ms with
        | none => simp [looked] at found
        | some d => simpa [looked] using found
      have erased := eraseP_slot ms key c present (by simpa [Tree.children, Function.comp_def] using slots)
      simp only [ConfigModel.unlink]
      rw [NodeArena.modify_get_self a _ _ inside]
      simp_all [contentOf, treeContent, Tree.dropChild]
  | index index =>
    cases x with
    | leaf l s => simp [Tree.descend] at found
    | object l ms => simp [Tree.descend] at found
    | array l es =>
      simp only [ConfigModel.unlink]
      rw [NodeArena.modify_get_self a _ _ inside]
      simp_all [contentOf, treeContent, Tree.dropChild, List.eraseIdx_map]

/-- The two steps of `remove` at the parent of its target. -/
def detachChild (a : NodeArena) (id target : NodeId) (step : PathSegment) : NodeArena :=
  freeSubtree (ConfigModel.unlink a id target step).nodes.length
    (ConfigModel.unlink a id target step) target

/-- The labels below a child and those that stay without it are apart. -/
theorem LabelsDistinct.dropChild_apart {x c : SlotTree} (distinct : LabelsDistinct x)
    (step : PathSegment) (found : Tree.descend step x = .ok c) :
    ∀ i ∈ (Tree.dropChild step x).labels, i ∉ c.labels := by
  intro i kept below
  have counted := Tree.count_dropChild step x c found i
  have bound := distinct i
  have first := List.count_pos_iff.mpr kept
  have second := List.count_pos_iff.mpr below
  omega

theorem dropped_below (x c : SlotTree) (step : PathSegment) (found : Tree.descend step x = .ok c) :
    ∀ i ∈ x.labels, i ∉ (Tree.dropChild step x).labels → i ∈ c.labels := by
  intro i listed out
  have counted := Tree.count_dropChild step x c found i
  have before := List.count_pos_iff.mpr listed
  rw [← List.count_eq_zero] at out
  rw [← List.count_pos_iff]
  omega

theorem detachChild_spec (a : NodeArena) (parent : Option NodeId) (x c : SlotTree)
    (rep : Rep a parent x) (distinct : LabelsDistinct x) (consistent : Consistent a)
    (step : PathSegment) (found : Tree.descend step x = .ok c) :
    Rewrite a (detachChild a x.label c.label step) parent x (Tree.dropChild step x) := by
  have member := Tree.descend_mem step x c found
  have content := unlink_content a parent x c rep distinct step found
  obtain ⟨f, edit, parentKept, shape⟩ := unlink_eq_modify a x.label c.label step
  have inside := NodeArena.live_lt a x.label rep.alive
  have rootOut := distinct.root_apart c member
  have other : ∀ i, i ≠ x.label → (ConfigModel.unlink a x.label c.label step).get i = a.get i := by
    intro i different
    rw [shape, NodeArena.modify_get_of_ne a x.label i f different]
  have repC : Rep (ConfigModel.unlink a x.label c.label step) (some x.label) c :=
    (rep.children c member).frame fun i listed => other i fun same => rootOut (same ▸ listed)
  have ok : Consistent (ConfigModel.unlink a x.label c.label step) := by
    rw [shape]
    exact modify_consistent a x.label f edit rep.alive consistent
  have freed := freeSubtree_spec _ _ _ c repC (distinct.child c member)
    (repC.height_lt (distinct.child c member)) ok
  rw [← detachChild] at freed
  have root := freed.frame x.label rootOut
  have live : ∀ i, liveCount (ConfigModel.unlink a x.label c.label step) i = liveCount a i := by
    intro i
    rw [shape, modify_liveCount a x.label f edit]
  have releases : ∀ i, ((ConfigModel.unlink a x.label c.label step).get i).releases =
      (a.get i).releases := fun i => by
    rw [shape, modify_releases a x.label f edit rep.alive]
  have apart := distinct.dropChild_apart step found
  obtain ⟨j, _, erased, _⟩ := Tree.descend_position step x c found
  refine ⟨Tree.dropChild_label step x, freed.consistent, ?_, fun i => ?_, fun i alive out => ?_,
    fun i listed kept => ?_, fun i listed out => ?_, fun i => ?_⟩
  · refine .node parent _ ?_ ?_ ?_ fun d memberD => ?_
    · rw [Tree.dropChild_label, NodeArena.live, root]
      have kept := modify_live a x.label f edit x.label
      rw [← shape, rep.alive] at kept
      exact kept
    · rw [Tree.dropChild_label, root, content]
    · rw [Tree.dropChild_label, root, shape, NodeArena.modify_get_self a x.label f inside,
        parentKept]
      exact rep.up
    · have stays := child_labels_subset _ d memberD
      rw [erased] at memberD
      rw [Tree.dropChild_label]
      refine (rep.children d (List.mem_of_mem_eraseIdx memberD)).frame fun i listed => ?_
      have notRoot : i ≠ x.label := fun same =>
        distinct.root_apart d (List.mem_of_mem_eraseIdx memberD) (same ▸ listed)
      rw [freed.frame i (apart i (stays i listed)), other i notRoot]
  · have counted := freed.live i
    have split := Tree.count_dropChild step x c found i
    rw [live] at counted
    omega
  · have notC : i ∉ c.labels := fun listed => out (child_labels_subset x c member i listed)
    have notRoot : i ≠ x.label := fun same => out (same ▸ label_mem_labels x)
    rw [freed.frame i notC, other i notRoot]
  · rw [freed.frame i (apart i kept), releases]
  · rw [freed.releases i (dropped_below x c step found i listed out), releases]
  · by_cases listedC : i ∈ c.labels
    · rw [freed.releases i listedC, releases]
      omega
    · rw [freed.frame i listedC, releases]

end ConfigManager.Refinement
