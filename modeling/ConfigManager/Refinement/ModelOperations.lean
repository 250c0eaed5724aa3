import ConfigManager.Refinement.PlannedWrites

/-!
# The model refines the reference tree

`Represents m t` is the invariant of a configuration model: its live slots are
exactly the nodes of the tree `t`. An edit below one anchor is lifted to the
root once (`Rewrite.lift`). Each operation of the model then computes the
reference operation on `t.forget`, and `Moves` says where it leaves the nodes
that existed before.
-/

set_option autoImplicit false

namespace ConfigManager.Refinement
open Library Source Reference

/-- The live slots of the model are exactly the nodes of `t`, and `t` is admissible. -/
structure Represents (m : ConfigModel) (t : SlotTree) : Prop where
  label : t.label = m.rootId
  rep : Rep m.arena none t
  slots : ∀ i, t.labels.count i = liveCount m.arena i
  consistent : Consistent m.arena
  admissible : Admissible t.forget

theorem Represents.distinct {m : ConfigModel} {t : SlotTree} (r : Represents m t) :
    LabelsDistinct t := fun i => by
  rw [r.slots]
  exact liveCount_le_one m.arena i

/-! ## From the anchor to the root -/

/-- A child at another position shares no slot with the one that is replaced. -/
theorem sibling_apart (cs : List SlotTree) (j : Nat) (c d c' : SlotTree)
    (distinct : ∀ i, (cs.flatMap Tree.labels).count i ≤ 1) (here : cs[j]? = some c)
    (member : d ∈ cs.set j c') (different : d ≠ c') : d ∈ cs ∧ ∀ i ∈ d.labels, i ∉ c.labels := by
  obtain ⟨k, at'⟩ := List.mem_iff_getElem?.mp member
  have other : j ≠ k := by
    rintro rfl
    have inside := (List.getElem?_eq_some_iff.mp here).1
    rw [List.getElem?_set_self inside, Option.some.injEq] at at'
    exact different at'.symm
  rw [List.getElem?_set_ne other] at at'
  refine ⟨List.mem_of_getElem? at', fun i listed listed' => ?_⟩
  have erased : d ∈ cs.eraseIdx j :=
    List.mem_eraseIdx_iff_getElem?.mpr ⟨k, other.symm, at'⟩
  have split := Tree.count_flatMap_eraseIdx cs j c here i
  have bound := distinct i
  have part := count_child_le _ d erased i
  have first := List.count_pos_iff.mpr listed
  have second := List.count_pos_iff.mpr listed'
  omega

theorem set_same {β : Type} (l : List β) (j : Nat) (value : β) (here : l[j]? = some value) :
    l.set j value = l := by
  obtain ⟨inside, rfl⟩ := List.getElem?_eq_some_iff.mp here
  exact List.set_getElem_self inside

theorem treeContent_putChild (s : PathSegment) (t c c' : SlotTree)
    (step : Tree.descend s t = .ok c) (same : c'.label = c.label) :
    treeContent (Tree.putChild s c' t) = treeContent t := by
  cases s with
  | key key =>
    cases t with
    | leaf l v => rfl
    | array l es => rfl
    | object l ms =>
      have found : lookupKey key ms = some c := by
        simp only [Tree.descend] at step
        cases looked : lookupKey key ms with
        | none => simp [looked] at step
        | some d => simpa [looked] using step
      obtain ⟨j, here, _, updated⟩ := lookup_position key ms c found
      simp only [Tree.putChild, treeContent, updated, List.map_set, same]
      congr 1
      exact set_same _ j _ (by simp [here])
  | index index =>
    cases t with
    | leaf l v => rfl
    | object l ms => rfl
    | array l es =>
      have found : es[index]? = some c := by
        simp only [Tree.descend] at step
        cases looked : es[index]? with
        | none => simp [looked] at step
        | some d => simpa [looked] using step
      simp only [Tree.putChild, treeContent, List.map_set, same]
      congr 1
      exact set_same _ index _ (by simp [found])

/-- A rewrite of a child is a rewrite of its parent. -/
theorem Rewrite.step {a a' : NodeArena} {parent : Option NodeId} {t c c' : SlotTree}
    (rep : Rep a parent t) (distinct : LabelsDistinct t) (s : PathSegment)
    (down : Tree.descend s t = .ok c) (edit : Rewrite a a' (some t.label) c c') :
    Rewrite a a' parent t (Tree.putChild s c' t) := by
  have member := Tree.descend_mem s t c down
  have rootOut := distinct.root_apart c member
  have counted := Tree.count_putChild s t c c' down
  have root := edit.frame t.label rep.alive rootOut
  obtain ⟨j, here, _, updated⟩ := Tree.descend_position s t c down
  have inC : ∀ i ∈ t.labels, i ∉ (Tree.putChild s c' t).labels → i ∈ c.labels ∧ i ∉ c'.labels := by
    intro i inside out
    have balance := counted i
    have once := (distinct.child c member) i
    have before := List.count_pos_iff.mpr inside
    rw [← List.count_eq_zero] at out
    rw [← List.count_pos_iff, ← List.count_eq_zero]
    omega
  refine ⟨Tree.putChild_label s c' t, edit.consistent, ?_, fun i => ?_, fun i alive out => ?_,
    fun i inside kept => ?_, fun i inside out => ?_, edit.monotone⟩
  · refine .node parent _ ?_ ?_ ?_ fun d memberD => ?_
    · rw [Tree.putChild_label, NodeArena.live, root]
      exact rep.alive
    · rw [Tree.putChild_label, root, rep.holds, treeContent_putChild s t c c' down edit.label]
    · rw [Tree.putChild_label, root]
      exact rep.up
    · rw [Tree.putChild_label]
      rw [updated] at memberD
      by_cases new : d = c'
      · rw [new]
        exact edit.rep
      · obtain ⟨old, apart⟩ := sibling_apart t.children j c d c' distinct.children here memberD new
        have repD := rep.children d old
        exact repD.frame fun i listed => edit.frame i (repD.labels_live i listed) (apart i listed)
  · have balance := counted i
    have live := edit.live i
    omega
  · exact edit.frame i alive fun listed => out (child_labels_subset t c member i listed)
  · by_cases listed : i ∈ c.labels
    · apply edit.kept i listed
      have balance := counted i
      have once := distinct i
      have first := List.count_pos_iff.mpr listed
      have second := List.count_pos_iff.mpr kept
      rw [← List.count_pos_iff]
      omega
    · rw [edit.frame i (rep.labels_live i inside) listed]
  · obtain ⟨listed, dropped⟩ := inC i inside out
    exact edit.gone i listed dropped

/-- A rewrite at a position is a rewrite of the whole tree. -/
theorem Rewrite.lift {a a' : NodeArena} {parent up : Option NodeId} {t x x' : SlotTree}
    (rep : Rep a parent t) (distinct : LabelsDistinct t) (p : List PathSegment)
    (found : Tree.locate p t = .ok x) (held : Rep a up x) (edit : Rewrite a a' up x x') :
    Rewrite a a' parent t (Tree.replace p x' t) := by
  induction p generalizing t parent with
  | nil =>
    cases found
    have parents : parent = up := rep.up.symm.trans held.up
    rw [parents]
    exact edit
  | cons s p ih =>
    obtain ⟨c, down, rest⟩ := Tree.locate_cons_success s p t x found
    have member := Tree.descend_mem s t c down
    rw [Tree.replace_cons_ok _ _ _ _ _ down]
    exact Rewrite.step rep distinct s down
      (ih (rep.children c member) (distinct.child c member) rest)

/-- After a rewrite of its tree the model represents the new tree. -/
theorem Represents.rewrite {m : ConfigModel} {t t' : SlotTree} (r : Represents m t)
    (a' : NodeArena) (edit : Rewrite m.arena a' none t t') (ok : Admissible t'.forget) :
    Represents { m with arena := a' } t' := by
  refine ⟨edit.label.trans r.label, edit.rep, fun i => ?_, edit.consistent, ok⟩
  have live := edit.live i
  have slots := r.slots i
  change _ = liveCount a' i
  omega

/-! ## Where nodes are found after an operation -/

/-- Nodes that `after` keeps are found, in their slot, at the position it gives; the
slots of the others were released once. -/
structure Moves (a a' : NodeArena) (t t' : SlotTree)
    (after : List PathSegment → Option (List PathSegment)) : Prop where
  kept : ∀ p y p', Tree.locate p t = .ok y → after p = some p' →
    ∃ y', Tree.locate p' t' = .ok y' ∧ y'.label = y.label ∧
      (a'.get y.label).releases = (a.get y.label).releases
  gone : ∀ p y, Tree.locate p t = .ok y → after p = none →
    (a'.get y.label).releases = (a.get y.label).releases + 1
  monotone : ∀ i, (a.get i).releases ≤ (a'.get i).releases

theorem Moves.refl (a : NodeArena) (t : SlotTree) : Moves a a t t some := by
  refine ⟨fun p y p' here same => ?_, fun p y _ gone => ?_, fun _ => Nat.le_refl _⟩
  · cases same
    exact ⟨y, here, rfl, rfl⟩
  · cases gone

theorem located_label (p : List PathSegment) (t y : SlotTree) (here : Tree.locate p t = .ok y) :
    y.label ∈ t.labels :=
  Tree.label_mem_of_prefix [] p t t y List.nil_prefix rfl here

/-- A rewrite that finds every kept node again, and loses the slots of the others. -/
theorem Rewrite.moves {a a' : NodeArena} {parent : Option NodeId} {t t' : SlotTree}
    {after : List PathSegment → Option (List PathSegment)} (edit : Rewrite a a' parent t t')
    (found : ∀ p y p', Tree.locate p t = .ok y → after p = some p' →
      ∃ y', Tree.locate p' t' = .ok y' ∧ y'.label = y.label)
    (lost : ∀ p y, Tree.locate p t = .ok y → after p = none → y.label ∉ t'.labels) :
    Moves a a' t t' after := by
  refine ⟨fun p y p' here kept => ?_, fun p y here none => ?_, edit.monotone⟩
  · obtain ⟨y', there, same⟩ := found p y p' here kept
    refine ⟨y', there, same, edit.kept y.label (located_label p t y here) ?_⟩
    rw [← same]
    exact located_label p' t' y' there
  · exact edit.gone y.label (located_label p t y here) (lost p y here none)

/-! ## Reading -/

theorem Represents.resolve_ok {m : ConfigModel} {t x : SlotTree} (r : Represents m t)
    (segments : List PathSegment) (found : Tree.locate segments t = .ok x) :
    m.resolve segments = .ok x.label := by
  have spec := resolveFrom_spec m.arena segments none t r.rep
  rw [found, r.label] at spec
  unfold ConfigModel.resolve
  cases answer : ConfigModel.resolveFrom m.arena m.rootId segments with
  | error e => simp [answer, outcome, Except.map] at spec
  | ok id => simpa [answer, Except.map] using spec

theorem Represents.resolve_error {m : ConfigModel} {t : SlotTree} (r : Represents m t)
    (segments : List PathSegment) (f : Fault) (failed : Tree.locate segments t = .error f) :
    outcome (m.resolve segments) = .error (faultCode f) := by
  have spec := resolveFrom_spec m.arena segments none t r.rep
  rw [failed, r.label] at spec
  exact spec

/-- The tree at a position is represented, in slots of its own. -/
theorem Represents.located {m : ConfigModel} {t x : SlotTree} (r : Represents m t)
    (segments : List PathSegment) (found : Tree.locate segments t = .ok x) :
    ∃ up, Rep m.arena up x ∧ LabelsDistinct x := by
  obtain ⟨up, rep⟩ := r.rep.locate segments found
  exact ⟨up, rep, fun i => (Tree.count_locate_le segments t x found i).trans (r.distinct i)⟩

/-- The value rebuilt below any located node is the tree there. -/
theorem Represents.buildValue {m : ConfigModel} {t x : SlotTree} (r : Represents m t)
    (segments : List PathSegment) (found : Tree.locate segments t = .ok x) :
    buildValue m.arena.nodes.length m.arena x.label = x.forget := by
  obtain ⟨up, rep, distinct⟩ := r.located segments found
  have plain : Tree.locate segments t.forget = .ok x.forget := by
    rw [Tree.locate_forget, found]
    rfl
  have keys := Tree.Every.mono (fun _ here => here.1) (r.admissible.keys.locate segments plain)
  exact buildValue_spec m.arena _ up x rep (rep.height_lt distinct) keys

/-- The whole tree a model holds, as its own extraction reads it. -/
def contents (m : ConfigModel) : ConfigValue :=
  buildValue m.arena.nodes.length m.arena m.rootId

theorem contents_eq {m : ConfigModel} {t : SlotTree} (r : Represents m t) :
    contents m = t.forget := by
  rw [contents, ← r.label]
  exact r.buildValue [] rfl

theorem getValue_spec (m : ConfigModel) (t : SlotTree) (r : Represents m t) (path : Bytes) :
    outcome (m.getValue path) = Reference.getValue path t.forget := by
  unfold ConfigModel.getValue Reference.getValue
  cases parsed : ConfigPath.parse path with
  | error e => rfl
  | ok segments =>
    simp only [outcome_ok, Tree.locate_forget]
    cases found : Tree.locate segments t with
    | ok x =>
      rw [r.resolve_ok segments found]
      simp only [outcome_ok, Except.map, coded_ok, r.buildValue segments found]
    | error f =>
      have failed := r.resolve_error segments f found
      cases answer : m.resolve segments with
      | ok id => simp [answer] at failed
      | error e => simpa [answer, Except.map, outcome] using failed

theorem contains_spec (m : ConfigModel) (t : SlotTree) (r : Represents m t) (path : Bytes) :
    m.contains path = Reference.contains path t.forget := by
  unfold ConfigModel.contains Reference.contains Reference.getValue
  cases parsed : ConfigPath.parse path with
  | error e => rfl
  | ok segments =>
    simp only [outcome_ok, Tree.locate_forget]
    cases found : Tree.locate segments t with
    | ok x =>
      rw [r.resolve_ok segments found]
      rfl
    | error f =>
      have failed := r.resolve_error segments f found
      cases answer : m.resolve segments with
      | ok id => simp [answer] at failed
      | error e => rfl

theorem Represents.contains_iff {m : ConfigModel} {t : SlotTree} (r : Represents m t)
    (path : Bytes) (segments : List PathSegment) (parsed : ConfigPath.parse path = .ok segments) :
    m.contains path = true ↔ ∃ x, Tree.locate segments t = .ok x := by
  rw [contains_spec m t r, Reference.contains, Reference.getValue, parsed]
  simp only [outcome_ok, Tree.locate_forget]
  cases Tree.locate segments t with
  | ok x => simp [Except.map, Except.isOk, Except.toBool]
  | error f => simp [Except.map, Except.isOk, Except.toBool]

theorem Represents.nodeAt {m : ConfigModel} {t x : SlotTree} (r : Represents m t) (path : Bytes)
    (segments : List PathSegment) (parsed : ConfigPath.parse path = .ok segments)
    (found : Tree.locate segments t = .ok x) :
    m.nodeAt path = .ok (ConfigNode.issue m.arena x.label) := by
  unfold ConfigModel.nodeAt
  rw [parsed]
  simp only [r.resolve_ok segments found]

/-! ## Writing -/

/-- The arena an in-place write leaves. -/
theorem set_existing (m : ConfigModel) (t x : SlotTree) (r : Represents m t)
    (segments : List PathSegment) (found : Tree.locate segments t = .ok x) (value : ConfigValue)
    (same : sameType x.forget value = true) :
    ∃ t', Rewrite m.arena (assignContents m.arena x.label value) none t t' ∧
      t'.forget = Tree.replace segments value t.forget ∧
      Moves m.arena (assignContents m.arena x.label value) t t' (Tree.afterReplace segments) := by
  obtain ⟨up, rep, distinct⟩ := r.located segments found
  obtain ⟨x', edit, plain, shared⟩ := assignContents_spec m.arena up x rep distinct r.consistent
    value (beq_iff_eq.mp same)
  have lifted := Rewrite.lift r.rep r.distinct segments found rep edit
  refine ⟨_, lifted, by rw [Tree.replace_forget, plain], lifted.moves ?_ ?_⟩
  · intro p y p' here kept
    unfold Tree.afterReplace at kept
    split at kept
    · cases kept
    · next outside =>
      cases kept
      by_cases below : segments <+: p
      · have target : segments = p := by
          by_contra different
          exact outside ⟨below, different⟩
        subst target
        rw [found, Except.ok.injEq] at here
        subst here
        exact ⟨x', Tree.locate_replace_self segments x' t x found, edit.label⟩
      · exact Tree.locate_replace_outside p segments x' t y x found below here
  · intro p y here none listed
    unfold Tree.afterReplace at none
    split at none
    · next inside =>
      obtain ⟨⟨q, rfl⟩, longer⟩ := inside
      rw [Tree.locate_append segments q t x found] at here
      cases q with
      | nil => exact longer (List.append_nil _).symm
      | cons s q =>
        obtain ⟨c, down, rest⟩ := Tree.locate_cons_success s q x y here
        have member := Tree.descend_mem s x c down
        have inC := located_label q c y rest
        have notRoot : y.label ≠ x.label := fun equal =>
          distinct.root_apart c member (equal ▸ inC)
        have inX := child_labels_subset x c member y.label inC
        have balance := Tree.count_replace segments x' t x found y.label
        have once := r.distinct y.label
        have part := Tree.count_locate_le segments t x found y.label
        have notNew : y.label ∉ x'.labels := fun inNew => notRoot (shared y.label inX inNew)
        have first := List.count_pos_iff.mpr listed
        have second := List.count_pos_iff.mpr inX
        rw [← List.count_eq_zero] at notNew
        omega
    · cases none

/-- The arena a creating write leaves. -/
theorem set_creating (m : ConfigModel) (t x : SlotTree) (r : Represents m t)
    (q rest : List PathSegment) (s : PathSegment) (found : Tree.locate q t = .ok x)
    (room : Tree.canAppend s x = true) (value whole : ConfigValue)
    (made : Tree.create rest value = .ok whole) :
    ∃ t', Rewrite m.arena (attachChain m.arena x.label s rest value) none t t' ∧
      t'.forget = Tree.replace q (Tree.addChild s whole x.forget) t.forget ∧
      Moves m.arena (attachChain m.arena x.label s rest value) t t' some := by
  obtain ⟨up, rep, distinct⟩ := r.located q found
  obtain ⟨c, edit, plain⟩ := attachChain_spec m.arena up x rep distinct r.consistent s rest value
    whole room made
  have lifted := Rewrite.lift r.rep r.distinct q found rep edit
  refine ⟨_, lifted, by rw [Tree.replace_forget, Tree.addChild_forget, plain],
    lifted.moves ?_ fun p y _ none => by cases none⟩
  intro p y p' here kept
  cases kept
  exact Tree.locate_addChild p q s c t x y found here

/-- The arena a removal leaves. -/
theorem remove_existing (m : ConfigModel) (t x c : SlotTree) (r : Represents m t)
    (q : List PathSegment) (s : PathSegment) (found : Tree.locate q t = .ok x)
    (down : Tree.descend s x = .ok c) :
    Rewrite m.arena (detachChild m.arena x.label c.label s) none t
        (Tree.replace q (Tree.dropChild s x) t) ∧
      Moves m.arena (detachChild m.arena x.label c.label s) t
        (Tree.replace q (Tree.dropChild s x) t) (Tree.afterRemove (q ++ [s])) := by
  obtain ⟨up, rep, distinct⟩ := r.located q found
  have lifted := Rewrite.lift r.rep r.distinct q found rep
    (detachChild_spec m.arena up x c rep distinct r.consistent s down)
  refine ⟨lifted, lifted.moves ?_ ?_⟩
  · intro p y p' here kept
    have tracked := Tree.locate_afterRemove q s t x c y p found down here
    rw [kept] at tracked
    exact tracked
  · intro p y here none listed
    have tracked := Tree.locate_afterRemove q s t x c y p found down here
    rw [none] at tracked
    have target : Tree.locate (q ++ [s]) t = .ok c := by
      rw [Tree.locate_append q [s] t x found, Tree.locate_cons_ok s [] x c down]
      rfl
    have inC := Tree.label_mem_of_prefix (q ++ [s]) p t c y tracked target here
    have balance := Tree.count_replace q (Tree.dropChild s x) t x found y.label
    have dropped := Tree.count_dropChild s x c down y.label
    have once := r.distinct y.label
    have first := List.count_pos_iff.mpr listed
    have second := List.count_pos_iff.mpr inC
    omega

end ConfigManager.Refinement
