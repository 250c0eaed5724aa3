import ConfigManager.Refinement.ModelRuns
import ConfigManager.Source.Unwinding

/-!
# Writes that run out of memory

`Grown` says that between two arenas some slots came to life and all that were live
keep their record; other slots may have been used and given back. Each function of
a write either does what it does without failures or throws and leaves no slot
behind.
-/

set_option autoImplicit false

namespace ConfigManager.Refinement
open Library Source Reference

/-- `ids` are live in `a'` beside the slots that were live in `a`. -/
structure Grown (a a' : NodeArena) (ids : List NodeId) : Prop where
  consistent : Consistent a'
  live : ∀ i, liveCount a' i = liveCount a i + ids.count i
  kept : ∀ i, a.live i = true → a'.get i = a.get i

theorem Grown.refl (a : NodeArena) (consistent : Consistent a) : Grown a a [] :=
  ⟨consistent, fun _ => by simp, fun _ _ => rfl⟩

theorem Allocated.grown {a a' : NodeArena} {ids : List NodeId} (step : Allocated a a' ids) :
    Grown a a' ids :=
  ⟨step.consistent, step.live, step.keeps⟩

theorem Grown.trans {a b c : NodeArena} {ids ids' : List NodeId} (first : Grown a b ids)
    (second : Grown b c ids') : Grown a c (ids ++ ids') := by
  refine ⟨second.consistent, fun i => ?_, fun i alive => ?_⟩
  · rw [second.live, first.live, List.count_append]
    omega
  · have still : b.live i = true := by
      have counted := first.live i
      have bound := liveCount_le_one b i
      rw [live_iff_liveCount] at alive ⊢
      omega
    rw [second.kept i still, first.kept i alive]

theorem Grown.release {a b c : NodeArena} {ids ids' : List NodeId} (grown : Grown a b (ids ++ ids'))
    (released : Released b c ids') : Grown a c ids := by
  have counts : ∀ i, liveCount b i = liveCount a i + (ids.count i + ids'.count i) := fun i => by
    rw [grown.live, List.count_append]
  refine ⟨released.consistent, fun i => ?_, fun i alive => ?_⟩
  · have before := counts i
    have after := released.live i
    omega
  · have unlisted : i ∉ ids' := by
      intro listed
      have before := counts i
      have bound := liveCount_le_one b i
      have positive := List.count_pos_iff.mpr listed
      rw [live_iff_liveCount] at alive
      omega
    rw [released.frame i unlisted, grown.kept i alive]

/-! ## Freeing what a guard owns -/

/-- Freeing a tree among the slots that came to life gives its slots back. -/
theorem Grown.freeTree {a b : NodeArena} {ids : List NodeId} {parent : Option NodeId} {t : SlotTree}
    (grown : Grown a b (ids ++ t.labels)) (rep : Rep b parent t) :
    Released b (freeSubtree b.nodes.length b t.label) t.labels := by
  have distinct : LabelsDistinct t := by
    intro i
    have counted := grown.live i
    have bound := liveCount_le_one b i
    rw [List.count_append] at counted
    omega
  exact freeSubtree_spec _ b parent t rep distinct (rep.height_lt distinct) grown.consistent

/-- Freeing the node leaves none of the slots that came to life since `a`. -/
def Frees (a b : NodeArena) (id : NodeId) : Prop :=
  Grown a (freeSubtree b.nodes.length b id) []

theorem Built.frees {a b : NodeArena} {id : NodeId} {parent : Option NodeId} {value : ConfigValue}
    {t : SlotTree} (built : Built a (id, b) parent value t) : Frees a b id := by
  have grown : Grown a b ([] ++ t.labels) := built.allocated.grown
  have freed := grown.release (grown.freeTree built.rep)
  rw [built.label] at freed
  exact freed

/-- The same when more was tried and undone after the tree was built. -/
theorem Built.frees_later {a b c : NodeArena} {id : NodeId} {parent : Option NodeId}
    {value : ConfigValue} {t : SlotTree} (built : Built a (id, b) parent value t)
    (undone : Grown b c []) : Frees a c id := by
  have grown : Grown a c ([] ++ t.labels) := by
    have both := built.allocated.grown.trans undone
    rwa [List.append_nil] at both
  have rep : Rep c parent t := built.rep.frame fun i inside =>
    undone.kept i (built.rep.labels_live i inside)
  have freed := grown.release (grown.freeTree rep)
  rw [built.label] at freed
  exact freed

/-- A node that was just allocated holds no children yet. -/
theorem frees_fresh (a b : NodeArena) (id : NodeId) (allocated : Allocated a b [id])
    (members : (b.get id).members = []) (elements : (b.get id).elements = []) : Frees a b id := by
  have alive := allocated.alive id (List.mem_singleton_self id)
  have inside := NodeArena.live_lt b id alive
  obtain ⟨slots, length⟩ : ∃ slots, b.nodes.length = slots + 1 := ⟨b.nodes.length - 1, by omega⟩
  have cleared := allocated.modify id (List.mem_singleton_self id) _ edit_clear
  have released := release_spec _ id (cleared.alive id (List.mem_singleton_self id))
    cleared.consistent
  have grown : Grown a (clearChildren b id) ([] ++ [id]) := cleared.grown
  rw [Frees, length, freeSubtree, freeChildren, members, elements]
  exact grown.release released

/-! ## Primitive operations -/

open Unwinding (Store request makeRoom takeSlot allocate append onArena freeGuarded guardSubtree
  containerType)
open Throwing (Ensures)

theorem request_ensures (store : Store) :
    Ensures request store (fun _ after => after.arena = store.arena)
      (fun after => after.arena = store.arena) := by
  unfold Ensures request
  by_cases granted : store.demand store.performed ≤ store.granted
  · rw [if_pos granted]
  · rw [if_neg granted]

theorem makeRoom_ensures (store : Store) :
    Ensures makeRoom store (fun _ after => after.arena = store.arena)
      (fun after => after.arena = store.arena) := by
  by_cases full : store.arena.freeHead.isNone = true
  · have grows : makeRoom store = request store := if_pos full
    unfold Ensures
    rw [grows]
    exact request_ensures store
  · have reuses : makeRoom store = .returned () store := if_neg full
    unfold Ensures
    rw [reuses]

theorem allocate_ensures (type : NodeType) (store : Store) :
    Ensures (allocate type) store (fun id after => (id, after.arena) = store.arena.allocate type)
      (fun after => after.arena = store.arena) := by
  apply Ensures.bind (makeRoom_ensures store)
  intro _ after same
  change _ = _
  rw [same]

theorem onArena_ensures (f : NodeArena → NodeArena) (store : Store) (throws : Store → Prop) :
    Ensures (onArena f) store (fun _ after => after.arena = f store.arena) throws :=
  Ensures.update _ rfl

theorem append_ensures (id child : NodeId) (segment : PathSegment) (store : Store) :
    Ensures (append id segment child) store
      (fun _ after => after.arena = pushChild store.arena id segment child)
      (fun after => after.arena = store.arena) := by
  apply Ensures.bind (request_ensures store)
  intro _ after same
  rw [← same]
  cases segment <;> exact rfl

/-- A built child is linked, or freed by its guard. -/
theorem link_ensures (b : NodeArena) (id child : NodeId) (segment : PathSegment)
    (parent : Option NodeId) (value : ConfigValue) (c : SlotTree) (store : Store)
    (built : Built b (child, store.arena) parent value c) :
    Ensures (guardSubtree child (append id segment child)) store
      (fun _ after => after.arena = pushChild store.arena id segment child)
      (fun after => Grown b after.arena []) := by
  apply Ensures.guarding
  apply (append_ensures id child segment store).imp
  · intro _ after pushed
    exact pushed
  · intro after same
    have freed := built.frees
    rw [← same] at freed
    exact freed

/-! ## Building -/

/-- What a construction guarantees: it does what it does without failures, or it throws and
leaves nothing behind. -/
def Builds (body : Throwing Store NodeId) (store : Store) (result : NodeId × NodeArena) : Prop :=
  Ensures body store (fun id after => (id, after.arena) = result)
    (fun after => Grown store.arena after.arena [])

/-- One more child below a detached node: where building or linking it throws, freeing the node
still frees all. -/
theorem child_ensures {a : NodeArena} {id : NodeId} {parent : Option NodeId} {before : ConfigValue}
    {t : SlotTree} (segment : PathSegment) (kind : fits segment t = true) (value : ConfigValue)
    (store : Store) (soFar : Built a (id, store.arena) parent before t)
    (build : Builds (Unwinding.buildFromValue value (some id)) store
      (buildFromValue store.arena value (some id)))
    (next : Throwing Store Unit) (returns : Unit → Store → Prop)
    (rest : ∀ c after, after.arena = pushChild (buildFromValue store.arena value (some id)).2 id
        segment (buildFromValue store.arena value (some id)).1 →
      Built a (id, after.arena) parent (Tree.addChild segment value before)
        (Tree.addChild segment c t) →
      Ensures next after returns (fun last => Frees a last.arena id)) :
    Ensures (do
      let child ← Unwinding.buildFromValue value (some id)
      guardSubtree child (append id segment child)
      next) store returns (fun last => Frees a last.arena id) := by
  apply Ensures.bind (build.imp (fun _ _ made => made) fun _ undone => soFar.frees_later undone)
  intro child mid made
  obtain ⟨c, built⟩ := buildFromValue_spec store.arena soFar.allocated.consistent value (some id)
  rw [← made] at built rest
  have link := link_ensures store.arena id child segment (some id) value c mid built
  apply Ensures.bind (link.imp (fun _ _ pushed => pushed) fun _ undone => soFar.frees_later undone)
  intro _ after pushed
  have linked := soFar.link segment kind built
  rw [← pushed] at linked
  exact rest c after pushed linked

theorem buildMembers_ensures (a : NodeArena) (parent : Option NodeId) (id : NodeId)
    (ms : List (Bytes × ConfigValue))
    (each : ∀ m ∈ ms, ∀ store : Store, Consistent store.arena → ∀ up,
      Builds (Unwinding.buildFromValue m.2 up) store (buildFromValue store.arena m.2 up))
    (store : Store) (done : List (Bytes × SlotTree)) (before : List (Bytes × ConfigValue))
    (soFar : Built a (id, store.arena) parent (Tree.object () before) (.object id done)) :
    Ensures (Unwinding.buildMembers ms id) store
      (fun _ after => after.arena = buildMembers store.arena ms id)
      (fun after => Frees a after.arena id) := by
  induction ms generalizing store done before with
  | nil => exact Ensures.pure () rfl
  | cons m rest ih =>
    obtain ⟨key, value⟩ := m
    have first := each (key, value) List.mem_cons_self store soFar.allocated.consistent (some id)
    apply child_ensures (.key key) rfl value store soFar first
    intro c after pushed linked
    have later := ih (fun m inside => each m (List.mem_cons_of_mem _ inside)) after _ _ linked
    rw [pushed] at later
    exact later

theorem buildElements_ensures (a : NodeArena) (parent : Option NodeId) (id : NodeId)
    (es : List ConfigValue)
    (each : ∀ e ∈ es, ∀ store : Store, Consistent store.arena → ∀ up,
      Builds (Unwinding.buildFromValue e up) store (buildFromValue store.arena e up))
    (store : Store) (done : List SlotTree) (before : List ConfigValue)
    (soFar : Built a (id, store.arena) parent (Tree.array () before) (.array id done)) :
    Ensures (Unwinding.buildElements es id) store
      (fun _ after => after.arena = buildElements store.arena es id)
      (fun after => Frees a after.arena id) := by
  induction es generalizing store done before with
  | nil => exact Ensures.pure () rfl
  | cons value rest ih =>
    have first := each value List.mem_cons_self store soFar.allocated.consistent (some id)
    apply child_ensures (.index 0) rfl value store soFar first
    intro c after pushed linked
    have later := ih (fun e inside => each e (List.mem_cons_of_mem _ inside)) after _ _ linked
    rw [pushed] at later
    exact later

/-- A node is allocated and parented, then filled under its guard. -/
theorem node_ensures (type : NodeType) (store : Store) (consistent : Consistent store.arena)
    (parent : Option NodeId) (fill : NodeId → Throwing Store Unit) (filled : NodeArena)
    (frees : Frees store.arena
      ((store.arena.allocate type).2.setParent (store.arena.allocate type).1 parent)
      (store.arena.allocate type).1)
    (fills : ∀ mid : Store, mid.arena =
        (store.arena.allocate type).2.setParent (store.arena.allocate type).1 parent →
      Ensures (fill (store.arena.allocate type).1) mid (fun _ after => after.arena = filled)
        (fun after => Frees store.arena after.arena (store.arena.allocate type).1)) :
    Builds (do
      let id ← allocate type
      onArena fun arena => arena.setParent id parent
      guardSubtree id do
        request
        fill id
      return id) store ((store.arena.allocate type).1, filled) := by
  have refused : ∀ after : Store, after.arena = store.arena →
      Grown store.arena after.arena [] := by
    intro after same
    rw [same]
    exact Grown.refl _ consistent
  apply Ensures.bind ((allocate_ensures type store).imp (fun _ _ made => made) refused)
  intro id mid made
  rw [← made] at frees fills ⊢
  apply Ensures.bind (onArena_ensures (fun arena => arena.setParent id parent) mid _)
  intro _ parented same
  rw [← same] at frees
  have guarded : Ensures (guardSubtree id do
      request
      fill id) parented (fun _ after => after.arena = filled)
      (fun after => Grown store.arena after.arena []) := by
    apply Ensures.guarding
    have granted : ∀ after : Store, after.arena = parented.arena →
        Frees store.arena after.arena id := fun after same => by rw [same]; exact frees
    apply Ensures.bind ((request_ensures parented).imp (fun _ _ same => same) granted)
    intro _ after kept
    exact fills after (kept.trans same)
  apply Ensures.bind guarded
  intro _ after done
  exact Ensures.pure id (congrArg (Prod.mk id) done)

theorem buildFromValue_ensures (value : ConfigValue) (store : Store)
    (consistent : Consistent store.arena) (parent : Option NodeId) :
    Builds (Unwinding.buildFromValue value parent) store
      (buildFromValue store.arena value parent) := by
  induction value using Tree.children_induction generalizing store parent with
  | node value ih =>
    cases value with
    | leaf l scalar =>
      obtain ⟨allocated, fresh⟩ := allocate_spec store.arena scalar.type consistent
      have inside := allocated.alive _ (List.mem_singleton_self _)
      have parented := allocated.modify _ (List.mem_singleton_self _) _ (edit_setParent parent)
      have record := NodeArena.modify_get_self _ _ (fun node => { node with parent := parent })
        (NodeArena.live_lt _ _ inside)
      rw [Unwinding.buildFromValue]
      apply node_ensures scalar.type store consistent parent
      · apply frees_fresh _ _ _ parented
        · rw [record, fresh]
          rfl
        · rw [record, fresh]
          rfl
      · intro mid same
        have assigned := onArena_ensures (fun arena => arena.modify (store.arena.allocate scalar.type).1
          fun node => { node with scalar := scalar }) mid
        rw [same] at assigned
        exact assigned _
    | object l ms =>
      have start := (allocate_built_object store.arena consistent).setParent parent
      have shape : buildFromValue store.arena (Tree.object l ms) parent =
          ((store.arena.allocate .object).1, buildMembers ((store.arena.allocate .object).2.setParent
            (store.arena.allocate .object).1 parent) ms (store.arena.allocate .object).1) := rfl
      rw [Unwinding.buildFromValue, shape]
      apply node_ensures .object store consistent parent _ _ start.frees
      intro mid same
      rw [← same] at start ⊢
      exact buildMembers_ensures store.arena parent _ ms (fun m inside below ok up =>
        ih m.2 (List.mem_map_of_mem inside) below ok up) mid [] [] start
    | array l es =>
      have start := (allocate_built_array store.arena consistent).setParent parent
      have shape : buildFromValue store.arena (Tree.array l es) parent =
          ((store.arena.allocate .array).1, buildElements ((store.arena.allocate .array).2.setParent
            (store.arena.allocate .array).1 parent) es (store.arena.allocate .array).1) := rfl
      rw [Unwinding.buildFromValue, shape]
      apply node_ensures .array store consistent parent _ _ start.frees
      intro mid same
      rw [← same] at start ⊢
      exact buildElements_ensures store.arena parent _ es (fun e inside below ok up =>
        ih e inside below ok up) mid [] [] start

/-! ## The created chain -/

/-- A container that cannot be linked is freed by its own guard, then the chain by the other. -/
theorem Built.frees_both {a : NodeArena} {built container : NodeId × NodeArena}
    {value empty : ConfigValue} {t outer : SlotTree} (done : Built a built none value t)
    (allocated : Built built.2 container none empty outer) :
    let parented := container.2.setParent built.1 (some container.1)
    Frees a (freeSubtree parented.nodes.length parented container.1) built.1 := by
  intro parented
  obtain ⟨grown, chain, outerRep⟩ := done.parented allocated
  have released := grown.grown.freeTree outerRep
  have left : Grown a _ ([] ++ t.labels) := grown.grown.release released
  have kept := chain.frame fun i inside => released.frame i
    (allocated.allocated.fresh i (done.rep.labels_live i inside))
  have freed := left.release (left.freeTree kept)
  rw [done.label, allocated.label] at freed
  exact freed

theorem allocate_built_container (a : NodeArena) (consistent : Consistent a) (segment : PathSegment) :
    ∃ outer, Built a (a.allocate (containerType segment)) none (emptyFor segment) outer := by
  cases segment with
  | key key => exact ⟨_, allocate_built_object a consistent⟩
  | index index => exact ⟨_, allocate_built_array a consistent⟩

theorem wrapChain_eq (segment : PathSegment) (chain : NodeId) (a : NodeArena) :
    wrapChain segment (chain, a) = ((a.allocate (containerType segment)).1,
      pushChild ((a.allocate (containerType segment)).2.setParent chain
          (some (a.allocate (containerType segment)).1))
        (a.allocate (containerType segment)).1 segment chain) := by
  cases segment <;> rfl

theorem wrapChain_ensures (a : NodeArena) (segment : PathSegment) (chain : NodeId) (value : ConfigValue)
    (t : SlotTree) (store : Store) (done : Built a (chain, store.arena) none value t) :
    Ensures (Unwinding.wrapChain segment chain) store
      (fun container after => (container, after.arena) = wrapChain segment (chain, store.arena))
      (fun after => Grown a after.arena []) := by
  obtain ⟨outer, container⟩ :=
    allocate_built_container store.arena done.allocated.consistent segment
  unfold Unwinding.wrapChain
  rw [wrapChain_eq]
  apply Ensures.guarding
  have refused : ∀ after : Store, after.arena = store.arena → Frees a after.arena chain := by
    intro after same
    rw [same]
    exact done.frees
  apply Ensures.bind ((allocate_ensures (containerType segment) store).imp (fun _ _ made => made)
    refused)
  intro id mid made
  have both := done.frees_both container
  simp only at made both ⊢
  rw [← made] at both ⊢
  have guarded : Ensures (guardSubtree id do
      onArena fun arena => arena.setParent chain (some id)
      append id segment chain) mid
      (fun _ after => after.arena = pushChild (mid.arena.setParent chain (some id)) id segment chain)
      (fun after => Frees a after.arena chain) := by
    apply Ensures.guarding
    apply Ensures.bind (onArena_ensures (fun arena => arena.setParent chain (some id)) mid _)
    intro _ parented same
    have linked := append_ensures id chain segment parented
    rw [same] at linked
    apply linked.imp (fun _ _ pushed => pushed)
    intro after unlinked
    change Frees a (freeSubtree after.arena.nodes.length after.arena id) chain
    rw [unlinked]
    exact both
  apply Ensures.bind guarded
  intro _ after pushed
  exact Ensures.pure id (congrArg (Prod.mk id) pushed)

theorem foldr_wrapChain_built (a : NodeArena) (consistent : Consistent a) (value : ConfigValue)
    (segments : List PathSegment) :
    ∃ whole t, Built a (segments.foldr wrapChain (buildFromValue a value none)) none whole t := by
  induction segments with
  | nil =>
    obtain ⟨t, built⟩ := buildFromValue_spec a consistent value none
    exact ⟨value, t, built⟩
  | cons segment rest ih =>
    obtain ⟨whole, t, built⟩ := ih
    obtain ⟨t', wrapped⟩ := wrapChain_spec a _ whole t segment built
    exact ⟨_, t', wrapped⟩

theorem foldr_wrapChain_ensures (value : ConfigValue) (store : Store)
    (consistent : Consistent store.arena) (segments : List PathSegment) :
    Builds (segments.foldr (fun segment below => below >>= Unwinding.wrapChain segment)
      (Unwinding.buildFromValue value none)) store
      (segments.foldr wrapChain (buildFromValue store.arena value none)) := by
  induction segments with
  | nil => exact buildFromValue_ensures value store consistent none
  | cons segment rest ih =>
    apply Ensures.bind ih
    intro chain mid made
    obtain ⟨whole, t, built⟩ := foldr_wrapChain_built store.arena consistent value rest
    rw [← made] at built
    have wrapped := wrapChain_ensures store.arena segment chain whole t mid built
    rw [made] at wrapped
    exact wrapped

/-! ## The write -/

theorem assignContents_ensures (target : NodeId) (value : ConfigValue) (store : Store)
    (consistent : Consistent store.arena) :
    Ensures (Unwinding.assignContents target value) store
      (fun _ after => after.arena = assignContents store.arena target value)
      (fun after => Grown store.arena after.arena []) := by
  apply Ensures.bind (buildFromValue_ensures value store consistent none)
  intro built mid made
  have spliced := onArena_ensures (Unwinding.splice target built) mid
    fun after => Grown store.arena after.arena []
  have shape : assignContents store.arena target value =
      Unwinding.splice target (buildFromValue store.arena value none).1
        (buildFromValue store.arena value none).2 := rfl
  rw [shape, ← made]
  exact spliced

theorem applyWrite_ensures (plan : WritePlan) (segments : List PathSegment) (value : ConfigValue)
    (store : Store) (consistent : Consistent store.arena) :
    Ensures (Unwinding.applyWrite plan segments value) store
      (fun _ after => after.arena = applyWrite store.arena plan segments value)
      (fun after => Grown store.arena after.arena []) := by
  unfold Unwinding.applyWrite applyWrite
  by_cases existing : plan.createFrom = segments.length
  · rw [if_pos existing, if_pos existing]
    exact assignContents_ensures plan.node value store consistent
  · rw [if_neg existing, if_neg existing]
    generalize segments.drop (plan.createFrom + 1) = rest
    apply Ensures.bind (foldr_wrapChain_ensures value store consistent rest)
    intro chain mid made
    obtain ⟨whole, t, built⟩ := foldr_wrapChain_built store.arena consistent value rest
    rw [← made] at built ⊢
    have parented := built.setParent (some plan.node)
    apply Ensures.guarding
    apply Ensures.bind (onArena_ensures (fun arena => arena.setParent chain (some plan.node)) mid _)
    intro _ after same
    simp only at same parented ⊢
    rw [← same] at parented ⊢
    cases here : segments[plan.createFrom]? with
    | none => exact Ensures.pure () rfl
    | some segment =>
      apply (append_ensures plan.node chain segment after).imp
      · intro _ last pushed
        rw [pushed]
        cases segment <;> rfl
      · intro last unlinked
        change Frees store.arena last.arena chain
        rw [unlinked]
        exact parented.frees

/-- A write that throws leaves no slot behind; one that returns is `ConfigModel::set`. -/
theorem set_ensures (m : ConfigModel) (path : Bytes) (value : ConfigValue) (store : Store)
    (here : store.arena = m.arena) (consistent : Consistent m.arena) :
    Ensures (Unwinding.set m.rootId path value) store
      (fun answer after => (answer, { m with arena := after.arena }) = m.set path value)
      (fun after => Grown m.arena after.arena []) := by
  have refused : ∀ before after : Store, before.arena = m.arena → after.arena = before.arena →
      Grown m.arena after.arena [] := by
    intro before after same still
    rw [still, same]
    exact Grown.refl _ consistent
  unfold Unwinding.set ConfigModel.set
  apply Ensures.bind ((request_ensures store).imp (fun _ _ same => same) fun after =>
    refused store after here)
  intro _ first same
  have kept := same.trans here
  cases ConfigPath.parse path with
  | error e =>
    apply Ensures.pure
    rw [kept]
  | ok segments =>
    simp only
    apply Ensures.bind ((request_ensures first).imp (fun _ _ same => same) fun after =>
      refused first after kept)
    intro _ second same
    have kept := same.trans kept
    cases validateTree value segments.length with
    | error e =>
      apply Ensures.pure
      rw [kept]
    | ok _ =>
      simp only
      apply Ensures.bind ((request_ensures second).imp (fun _ _ same => same) fun after =>
        refused second after kept)
      intro _ third same
      have kept := same.trans kept
      have current : Ensures Throwing.read third (fun current after => current = third ∧ after = third)
          (fun after => Grown m.arena after.arena []) := ⟨rfl, rfl⟩
      apply Ensures.bind current
      intro current fourth read
      obtain ⟨rfl, rfl⟩ := read
      rw [kept]
      cases planWrite m.arena segments value.type m.rootId 0 segments with
      | error e =>
        apply Ensures.pure
        rw [kept]
      | ok plan =>
        have written := applyWrite_ensures plan segments value fourth (kept ▸ consistent)
        rw [kept] at written
        apply Ensures.bind written
        intro _ after applied
        apply Ensures.pure
        rw [applied]

/-! ## Models after failed writes -/

theorem Grown.represents {m : ConfigModel} {t : SlotTree} {a : NodeArena}
    (grown : Grown m.arena a []) (r : Represents m t) : Represents { m with arena := a } t := by
  refine ⟨r.label, ?_, fun i => ?_, grown.consistent, r.admissible⟩
  · exact r.rep.frame fun i inside => grown.kept i (r.rep.labels_live i inside)
  · have counted := grown.live i
    rw [List.count_nil, Nat.add_zero] at counted
    rw [counted]
    exact r.slots i

theorem unwound_grown {m : ConfigModel} {t : SlotTree} (r : Represents m t) (path : Bytes)
    (value : ConfigValue) (demand : Nat → Nat) (n : Nat) (store : Store)
    (exit : Unwinding.set m.rootId path value { arena := m.arena, demand := demand, granted := n } =
      .thrown store) : Grown m.arena store.arena [] :=
  (set_ensures m path value _ rfl r.consistent).thrown store exit

theorem unwinding_represents {m : ConfigModel} (reached : Unwinding.Reachable m) :
    ∃ t, Represents m t := by
  induction reached with
  | empty =>
    obtain ⟨t, r, _⟩ := empty_represents
    exact ⟨t, r⟩
  | fromValue value m success => exact fromValue_represents value m success
  | set m path value _ ih =>
    obtain ⟨t, r⟩ := ih
    exact set_represents m t r path value
  | unwound m path value _ demand n store exit ih =>
    obtain ⟨t, r⟩ := ih
    exact ⟨t, (unwound_grown r path value.1 demand n store exit).represents r⟩
  | remove m path _ ih =>
    obtain ⟨t, r⟩ := ih
    exact remove_represents m t r path
  | clone m _ ih =>
    obtain ⟨t, r⟩ := ih
    exact ⟨t, r⟩

end ConfigManager.Refinement
