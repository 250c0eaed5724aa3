import ConfigManager.Refinement.ModelRuns

/-!
# How the arena's storage grows

A slot is appended only while the free list is empty, so a construction of `k` nodes
leaves the larger of the slots that were there and the live slots with the `k` new ones.
Freeing and splicing append nothing.
-/

set_option autoImplicit false

namespace ConfigManager.Refinement
open Library Source Reference

/-! ## Counting live slots -/

/-- The number of live slots. -/
def liveSlots (a : NodeArena) : Nat := (List.range a.nodes.length).countP a.live

theorem liveSlots_le (a : NodeArena) : liveSlots a ≤ a.nodes.length := by
  have bound := List.countP_le_length (p := a.live) (l := List.range a.nodes.length)
  rw [List.length_range] at bound
  exact bound

theorem liveSlots_full_iff (a : NodeArena) :
    liveSlots a = a.nodes.length ↔ ∀ i, (i : Nat) < a.nodes.length → a.live i = true := by
  have full := List.countP_eq_length (p := a.live) (l := List.range a.nodes.length)
  rw [List.length_range] at full
  rw [liveSlots, full]
  simp only [List.mem_range]

theorem count_live (a : NodeArena) (i : NodeId) :
    ((List.range a.nodes.length).filter a.live).count i = liveCount a i := by
  unfold liveCount
  by_cases alive : a.live i = true
  · have inside := NodeArena.live_lt a i alive
    rw [List.count_filter alive, if_pos alive]
    exact List.count_eq_one_of_mem List.nodup_range (List.mem_range.mpr inside)
  · rw [if_neg alive]
    exact List.count_eq_zero.mpr fun inside => alive (List.mem_filter.mp inside).2

/-- A list that holds every live slot once has their number as its length. -/
theorem liveSlots_of_count (a : NodeArena) (ids : List NodeId)
    (listed : ∀ i, ids.count i = liveCount a i) : liveSlots a = ids.length := by
  have same : ((List.range a.nodes.length).filter a.live).Perm ids := by
    apply List.perm_iff_count.mpr
    intro i
    rw [count_live, listed]
  rw [liveSlots, List.countP_eq_length_filter]
  exact same.length_eq

theorem Allocated.liveSlots {a a' : NodeArena} {ids : List NodeId} (step : Allocated a a' ids) :
    liveSlots a' = liveSlots a + ids.length := by
  have before := liveSlots_of_count a _ (count_live a)
  have after := liveSlots_of_count a' ((List.range a.nodes.length).filter a.live ++ ids) fun i => by
    rw [List.count_append, count_live, step.live]
  rw [List.length_append] at after
  omega

theorem size_forget (t : SlotTree) : t.forget.size = t.size := by
  induction t using Tree.children_induction with
  | node t ih =>
    rw [Tree.size_eq, Tree.size_eq, Tree.children_forget, List.map_map]
    congr 2
    exact List.map_congr_left ih

/-- A model keeps one slot alive for each of its nodes. -/
theorem Represents.liveSlots {m : ConfigModel} {t : SlotTree} (r : Represents m t) :
    liveSlots m.arena = t.forget.size :=
  (liveSlots_of_count m.arena t.labels r.slots).trans (size_forget t).symm

theorem modify_liveSlots (a : NodeArena) (id : NodeId) (f : Node → Node) (edit : Edit f) :
    liveSlots (a.modify id f) = liveSlots a := by
  unfold liveSlots
  rw [NodeArena.modify_length]
  exact List.countP_congr fun i _ => by rw [modify_live a id f edit i]

/-! ## Bringing nodes to life -/

/-- `a'` has `k` more live slots than `a`, and slots were appended only where none was dead. -/
structure Grows (a a' : NodeArena) (k : Nat) : Prop where
  consistent : Consistent a'
  keeps : ∀ i, a.live i = true → a'.live i = true
  live : liveSlots a' = liveSlots a + k
  slots : a'.nodes.length = max a.nodes.length (liveSlots a + k)

/-- A construction of `k` nodes whose root is live. -/
structure Enlarged (a : NodeArena) (result : NodeId × NodeArena) (k : Nat) : Prop where
  grows : Grows a result.2 k
  alive : result.2.live result.1 = true

theorem Grows.refl (a : NodeArena) (consistent : Consistent a) : Grows a a 0 where
  consistent := consistent
  keeps _ alive := alive
  live := rfl
  slots := by
    have bound := liveSlots_le a
    omega

theorem Grows.trans {a b c : NodeArena} {j k : Nat} (first : Grows a b j) (second : Grows b c k) :
    Grows a c (j + k) where
  consistent := second.consistent
  keeps i alive := second.keeps i (first.keeps i alive)
  live := by
    have early := first.live
    have late := second.live
    omega
  slots := by
    have early := first.slots
    have between := first.live
    have late := second.slots
    omega

theorem Grows.modify {a a' : NodeArena} {k : Nat} (grows : Grows a a' k) (id : NodeId)
    (alive : a'.live id = true) (f : Node → Node) (edit : Edit f) : Grows a (a'.modify id f) k where
  consistent := modify_consistent a' id f edit alive grows.consistent
  keeps i alive' := by
    rw [modify_live a' id f edit]
    exact grows.keeps i alive'
  live := by rw [modify_liveSlots a' id f edit, grows.live]
  slots := by rw [NodeArena.modify_length, grows.slots]

theorem Enlarged.modify {a : NodeArena} {result : NodeId × NodeArena} {k : Nat}
    (grown : Enlarged a result k) (id : NodeId) (alive : result.2.live id = true) (f : Node → Node)
    (edit : Edit f) : Enlarged a (result.1, result.2.modify id f) k where
  grows := grown.grows.modify id alive f edit
  alive := by
    rw [modify_live _ id f edit]
    exact grown.alive

/-- A slot is appended exactly when every slot is live. -/
theorem allocate_slots (a : NodeArena) (type : NodeType) (consistent : Consistent a) :
    (a.allocate type).2.nodes.length = max a.nodes.length (liveSlots a + 1) := by
  obtain ⟨ids, chain, dead⟩ := consistent.free
  have bound := liveSlots_le a
  cases head : a.freeHead with
  | none =>
    rw [head] at chain
    cases chain
    have full : liveSlots a = a.nodes.length := by
      refine (liveSlots_full_iff a).mpr fun i inside => ?_
      by_contra notLive
      rw [Bool.not_eq_true] at notLive
      exact List.not_mem_nil ((dead i).mpr ⟨inside, notLive⟩)
    simp only [NodeArena.allocate, head, List.length_append, List.length_singleton]
    omega
  | some id =>
    rw [head] at chain
    cases chain with
    | cons _ rest tail =>
      have free := (dead id).mp List.mem_cons_self
      have room : liveSlots a ≠ a.nodes.length := by
        intro full
        have alive := (liveSlots_full_iff a).mp full id free.1
        rw [free.2] at alive
        cases alive
      simp only [NodeArena.allocate, head, NodeArena.modify_length]
      omega

theorem allocate_grown (a : NodeArena) (type : NodeType) (consistent : Consistent a) :
    Enlarged a (a.allocate type) 1 := by
  have step := (allocate_spec a type consistent).1
  refine ⟨⟨step.consistent, fun i alive => ?_, step.liveSlots, allocate_slots a type consistent⟩,
    step.alive _ List.mem_cons_self⟩
  have counted := step.live i
  have bound := liveCount_le_one (a.allocate type).2 i
  have before := (live_iff_liveCount a i).mp alive
  exact (live_iff_liveCount _ i).mpr (by omega)

/-! ## Building values and chains -/

theorem buildMembers_grows (ms : List (Bytes × ConfigValue)) (id : NodeId)
    (each : ∀ m ∈ ms, ∀ b, Consistent b → ∀ up, Enlarged b (buildFromValue b m.2 up) m.2.size)
    (a : NodeArena) (consistent : Consistent a) (alive : a.live id = true) :
    Grows a (buildMembers a ms id) (ms.map fun m => m.2.size).sum := by
  induction ms generalizing a with
  | nil => exact Grows.refl a consistent
  | cons m ms ih =>
    obtain ⟨key, value⟩ := m
    have child := each (key, value) List.mem_cons_self a consistent (some id)
    have linked := child.grows.modify id (child.grows.keeps id alive) _
      (edit_pushMember key (buildFromValue a value (some id)).1)
    have rest := ih (fun m inside => each m (List.mem_cons_of_mem _ inside)) _ linked.consistent
      (linked.keeps id alive)
    exact linked.trans rest

theorem buildElements_grows (es : List ConfigValue) (id : NodeId)
    (each : ∀ e ∈ es, ∀ b, Consistent b → ∀ up, Enlarged b (buildFromValue b e up) e.size)
    (a : NodeArena) (consistent : Consistent a) (alive : a.live id = true) :
    Grows a (buildElements a es id) (es.map Tree.size).sum := by
  induction es generalizing a with
  | nil => exact Grows.refl a consistent
  | cons value es ih =>
    have child := each value List.mem_cons_self a consistent (some id)
    have linked := child.grows.modify id (child.grows.keeps id alive) _
      (edit_pushElement (buildFromValue a value (some id)).1)
    have rest := ih (fun e inside => each e (List.mem_cons_of_mem _ inside)) _ linked.consistent
      (linked.keeps id alive)
    exact linked.trans rest

theorem buildFromValue_grown (value : ConfigValue) (a : NodeArena) (consistent : Consistent a)
    (parent : Option NodeId) : Enlarged a (buildFromValue a value parent) value.size := by
  induction value using Tree.children_induction generalizing a parent with
  | node value ih =>
    cases value with
    | leaf l scalar =>
      have fresh := allocate_grown a scalar.type consistent
      have placed := fresh.modify _ fresh.alive _ (edit_setParent parent)
      exact placed.modify _ placed.alive (fun node => { node with scalar := scalar })
        ⟨fun _ => rfl, fun _ => rfl, fun _ => rfl⟩
    | object l ms =>
      have fresh := allocate_grown a .object consistent
      have placed := fresh.modify _ fresh.alive _ (edit_setParent parent)
      have filled := buildMembers_grows ms (a.allocate .object).1
        (fun m inside => ih m.2 (List.mem_map_of_mem inside)) _ placed.grows.consistent placed.alive
      refine ⟨?_, filled.keeps _ placed.alive⟩
      rw [Tree.size_object, Nat.add_comm]
      exact placed.grows.trans filled
    | array l es =>
      have fresh := allocate_grown a .array consistent
      have placed := fresh.modify _ fresh.alive _ (edit_setParent parent)
      have filled := buildElements_grows es (a.allocate .array).1 (fun e inside => ih e inside) _
        placed.grows.consistent placed.alive
      refine ⟨?_, filled.keeps _ placed.alive⟩
      rw [Tree.size_array, Nat.add_comm]
      exact placed.grows.trans filled

theorem wrapChain_grown (a : NodeArena) (built : NodeId × NodeArena) (k : Nat) (step : PathSegment)
    (done : Enlarged a built k) : Enlarged a (wrapChain step built) (k + 1) := by
  have wrapped : ∀ type, Enlarged a (built.2.allocate type) (k + 1) := fun type =>
    have fresh := allocate_grown built.2 type done.grows.consistent
    ⟨done.grows.trans fresh.grows, fresh.alive⟩
  have chainLive : ∀ type, (built.2.allocate type).2.live built.1 = true := fun type =>
    (allocate_grown built.2 type done.grows.consistent).grows.keeps _ done.alive
  cases step with
  | key key =>
    have placed := (wrapped .object).modify built.1 (chainLive .object) _
      (edit_setParent (some (built.2.allocate .object).1))
    exact placed.modify _ placed.alive _ (edit_pushMember key built.1)
  | index index =>
    have placed := (wrapped .array).modify built.1 (chainLive .array) _
      (edit_setParent (some (built.2.allocate .array).1))
    exact placed.modify _ placed.alive _ (edit_pushElement built.1)

theorem foldr_wrapChain_grown (a : NodeArena) (built : NodeId × NodeArena) (k : Nat)
    (segments : List PathSegment) (done : Enlarged a built k) :
    Enlarged a (segments.foldr wrapChain built) (k + segments.length) := by
  induction segments with
  | nil => exact done
  | cons step segments ih => exact wrapChain_grown a _ _ step ih

/-! ## Freeing and splicing -/

theorem foldl_slots {β : Type} (step : NodeArena → β → NodeArena)
    (keeps : ∀ a b, (step a b).nodes.length = a.nodes.length) (bs : List β) (a : NodeArena) :
    (bs.foldl step a).nodes.length = a.nodes.length := by
  induction bs generalizing a with
  | nil => rfl
  | cons b bs ih => rw [List.foldl_cons, ih, keeps]

@[simp] theorem release_slots (a : NodeArena) (id : NodeId) :
    (a.release id).nodes.length = a.nodes.length := by
  simp [NodeArena.release]

theorem setParent_slots (a : NodeArena) (id : NodeId) (parent : Option NodeId) :
    (a.setParent id parent).nodes.length = a.nodes.length :=
  NodeArena.modify_length ..

theorem freeChildren_slots (freeNode : NodeArena → NodeId → NodeArena)
    (keeps : ∀ a i, (freeNode a i).nodes.length = a.nodes.length) (a : NodeArena) (id : NodeId) :
    (freeChildren freeNode a id).nodes.length = a.nodes.length := by
  unfold freeChildren
  simp only
  rw [foldl_slots _ keeps, foldl_slots (fun (b : NodeArena) (member : Bytes × NodeId) =>
    freeNode b member.2) fun b member => keeps b member.2, NodeArena.modify_length]

theorem freeSubtree_slots (slots : Nat) (a : NodeArena) (id : NodeId) :
    (freeSubtree slots a id).nodes.length = a.nodes.length := by
  induction slots generalizing a id with
  | zero => rfl
  | succ slots ih => rw [freeSubtree, release_slots, freeChildren_slots _ ih]

theorem assignContents_slots (a : NodeArena) (target : NodeId) (value : ConfigValue) :
    (assignContents a target value).nodes.length =
      (buildFromValue a value none).2.nodes.length := by
  unfold assignContents
  simp only
  rw [release_slots, foldl_slots (fun (b : NodeArena) (element : NodeId) =>
      b.setParent element (some target)) fun b _ => setParent_slots b _ _,
    foldl_slots (fun (b : NodeArena) (member : Bytes × NodeId) =>
      b.setParent member.2 (some target)) fun b _ => setParent_slots b _ _,
    NodeArena.modify_length, freeChildren_slots _ (freeSubtree_slots _)]

/-! ## One write -/

theorem checkCreatable_from (segments : List PathSegment) (i : Nat) (current : NodeId)
    (plan : WritePlan) (planned : checkCreatable segments i current = .ok plan) :
    plan.createFrom = i := by
  unfold checkCreatable at planned
  simp only at planned
  split at planned
  · cases planned
  · cases planned
    rfl

/-- A write creates nodes exactly when its path does not resolve. -/
theorem planWrite_creates (a : NodeArena) (segments : List PathSegment) (finalType : NodeType)
    (rest : List PathSegment) (current : NodeId) (i : Nat) (plan : WritePlan)
    (there : segments.length = i + rest.length)
    (planned : planWrite a segments finalType current i rest = .ok plan) :
    plan.createFrom = segments.length ↔ (ConfigModel.resolveFrom a current rest).isOk = true := by
  induction rest generalizing current i with
  | nil =>
    cases planned
    exact ⟨fun _ => rfl, fun _ => rfl⟩
  | cons segment rest ih =>
    rw [List.length_cons] at there
    have created : checkCreatable segments i current = .ok plan →
        plan.createFrom ≠ segments.length := by
      intro made same
      have start := checkCreatable_from segments i current plan made
      omega
    -- Past an existing child both functions go on from it.
    have descended : ∀ child, (if rest.isEmpty then
          if (a.get child).type ≠ finalType then
            fail .invalidType
              (bytes "write would change the type of the existing node; remove it first")
          else .ok ⟨child, segments.length⟩
        else planWrite a segments finalType child (i + 1) rest) = .ok plan →
          (plan.createFrom = segments.length ↔
            (ConfigModel.resolveFrom a child rest).isOk = true) := by
      intro child next
      cases rest with
      | nil =>
        simp only [List.isEmpty_nil, if_true] at next
        split at next
        · cases next
        · cases next
          exact ⟨fun _ => rfl, fun _ => rfl⟩
      | cons segment' rest => exact ih child (i + 1) (by omega) next
    cases segment with
    | key key =>
      by_cases kind : (a.get current).type = .object
      · simp only [planWrite, ConfigModel.resolveFrom, kind, ne_eq, not_true_eq_false,
          if_false] at planned ⊢
        cases found : findMember (a.get current) key with
        | none =>
          rw [found] at planned
          exact ⟨fun same => absurd same (created planned),
            fun resolved => absurd resolved Bool.false_ne_true⟩
        | some child =>
          rw [found] at planned
          exact descended child planned
      · simp [planWrite, kind, notObjectError, fail] at planned
    | index index =>
      by_cases kind : (a.get current).type = .array
      · by_cases past : (a.get current).elements.length < index
        · simp [planWrite, kind, past, fail] at planned
        · simp only [planWrite, ConfigModel.resolveFrom, kind, past, ne_eq, not_true_eq_false,
            if_false] at planned ⊢
          cases found : (a.get current).elements[index]? with
          | none =>
            rw [found] at planned
            exact ⟨fun same => absurd same (created planned),
            fun resolved => absurd resolved Bool.false_ne_true⟩
          | some child =>
            rw [found] at planned
            exact descended child planned
      · simp [planWrite, kind, notArrayError, fail] at planned

/-- What one write leaves: an existing target is rebuilt beside its old contents, a new
one is built with the containers above it. -/
theorem applyWrite_slots (a : NodeArena) (consistent : Consistent a) (plan : WritePlan)
    (segments : List PathSegment) (value : ConfigValue) :
    (applyWrite a plan segments value).nodes.length =
      if plan.createFrom = segments.length then max a.nodes.length (liveSlots a + value.size)
      else max a.nodes.length (liveSlots (applyWrite a plan segments value)) := by
  have built := buildFromValue_grown value a consistent none
  by_cases existing : plan.createFrom = segments.length
  · rw [if_pos existing, applyWrite, if_pos existing, assignContents_slots]
    exact built.grows.slots
  · have chained := foldr_wrapChain_grown a _ _ (segments.drop (plan.createFrom + 1)) built
    rw [if_neg existing, applyWrite, if_neg existing]
    generalize (segments.drop (plan.createFrom + 1)).foldr wrapChain (buildFromValue a value none) =
      chain at chained
    have settled : ∀ b : NodeArena, b.nodes.length = chain.2.nodes.length →
        liveSlots b = liveSlots chain.2 → b.nodes.length = max a.nodes.length (liveSlots b) := by
      intro b length live
      have slots := chained.grows.slots
      have total := chained.grows.live
      omega
    have parented := modify_liveSlots chain.2 chain.1 _ (edit_setParent (some plan.node))
    simp only
    cases segments[plan.createFrom]? with
    | none => exact settled _ (setParent_slots ..) parented
    | some step =>
      have joined : ∀ f, Edit f →
          ((chain.2.setParent chain.1 (some plan.node)).modify plan.node f).nodes.length =
            max a.nodes.length
              (liveSlots ((chain.2.setParent chain.1 (some plan.node)).modify plan.node f)) := by
        intro f edit
        refine settled _ ?_ ?_
        · rw [NodeArena.modify_length, setParent_slots]
        · rw [modify_liveSlots _ _ _ edit]
          exact parented
      cases step with
      | key key => exact joined _ (edit_pushMember key chain.1)
      | index index => exact joined _ (edit_pushElement chain.1)

/-! ## One call -/

theorem set_slots (m : ConfigModel) (t : SlotTree) (r : Represents m t) (path : Bytes)
    (value : ConfigValue) (distinct : value.KeysDistinct) :
    (m.set path value).2.arena.nodes.length =
      match Reference.set path value t.forget with
      | .error _ => m.arena.nodes.length
      | .ok new => max m.arena.nodes.length
          (if Reference.contains path t.forget then t.forget.size + value.size else new.size) := by
  have spec := set_spec m t r path value distinct
  cases after : Reference.set path value t.forget with
  | error code =>
    rw [after] at spec
    rw [spec.2]
  | ok new =>
    rw [after] at spec
    obtain ⟨success, t', r', rfl, _⟩ := spec
    have live := r'.liveSlots
    have before := r.liveSlots
    have present := contains_spec m t r path
    unfold ConfigModel.set at success live ⊢
    cases parsed : ConfigPath.parse path with
    | error e =>
      rw [parsed] at success
      cases success
    | ok segments =>
      simp only [parsed] at success live ⊢
      cases valid : validateTree value segments.length with
      | error e =>
        rw [valid] at success
        cases success
      | ok _ =>
        simp only [valid] at success live ⊢
        cases planned : planWrite m.arena segments value.type m.rootId 0 segments with
        | error e =>
          rw [planned] at success
          cases success
        | ok plan =>
          simp only [planned] at live ⊢
          have creates := planWrite_creates m.arena segments value.type segments m.rootId 0 plan
            (by omega) planned
          have resolved : plan.createFrom = segments.length ↔
              Reference.contains path t.forget = true := by
            rw [creates, ← present, ConfigModel.contains, parsed]
            rfl
          rw [applyWrite_slots m.arena r.consistent plan segments value, live, before]
          by_cases existing : plan.createFrom = segments.length
          · rw [if_pos existing, if_pos (resolved.mp existing)]
          · rw [if_neg existing, if_neg fun held => existing (resolved.mpr held)]

theorem unlink_slots (a : NodeArena) (parent target : NodeId) (last : PathSegment) :
    (ConfigModel.unlink a parent target last).nodes.length = a.nodes.length := by
  obtain ⟨f, _, _, unlinked⟩ := unlink_eq_modify a parent target last
  rw [unlinked, NodeArena.modify_length]

theorem remove_slots (m : ConfigModel) (path : Bytes) :
    (m.remove path).2.arena.nodes.length = m.arena.nodes.length := by
  unfold ConfigModel.remove
  split
  · rfl
  · split
    · rfl
    · split
      · rw [freeSubtree_slots, unlink_slots]
      · rfl

end ConfigManager.Refinement
