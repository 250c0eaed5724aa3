import ConfigManager.Library.FreeList
import ConfigManager.Source.ConfigModel

/-!
# Slots: what allocating and releasing do to the arena

`Consistent` is the part of the arena's invariant that no tree is needed for: the
free list threads exactly the dead slots, dead slots are empty, and generations
count releases modulo 2^32. Every larger operation is described by the slots it
brings to life (`Allocated`) or gives back (`Released`): all others keep their
record. Both relations compose.
-/

set_option autoImplicit false

namespace ConfigManager.Refinement
open Library Source

/-- How often the slot counts as live: once or not at all. -/
def liveCount (a : NodeArena) (id : NodeId) : Nat := if a.live id then 1 else 0

theorem liveCount_le_one (a : NodeArena) (id : NodeId) : liveCount a id ≤ 1 := by
  unfold liveCount
  split <;> omega

theorem live_iff_liveCount (a : NodeArena) (id : NodeId) :
    a.live id = true ↔ liveCount a id = 1 := by
  unfold liveCount
  split <;> simp_all

structure Consistent (a : NodeArena) : Prop where
  free : ∃ ids, Threaded (fun i => (a.get i).parent) a.freeHead ids ∧
    ∀ i : Nat, i ∈ ids ↔ i < a.nodes.length ∧ a.live i = false
  cleared : ∀ i, a.live i = false →
    (a.get i).members = [] ∧ (a.get i).elements = [] ∧ (a.get i).scalar = .monostate
  counted : ∀ i, (a.get i).generation = Fin.ofNat (2 ^ 32) (a.get i).releases

/-- `ids` are the slots brought to life between `a` and `a'`. -/
structure Allocated (a a' : NodeArena) (ids : List NodeId) : Prop where
  consistent : Consistent a'
  live : ∀ i, liveCount a' i = liveCount a i + ids.count i
  frame : ∀ i, i ∉ ids → a'.get i = a.get i
  releases : ∀ i, (a'.get i).releases = (a.get i).releases

/-- `ids` are the slots given back between `a` and `a'`. -/
structure Released (a a' : NodeArena) (ids : List NodeId) : Prop where
  consistent : Consistent a'
  live : ∀ i, liveCount a i = liveCount a' i + ids.count i
  frame : ∀ i, i ∉ ids → a'.get i = a.get i
  releases : ∀ i ∈ ids, (a'.get i).releases = (a.get i).releases + 1

theorem Allocated.refl (a : NodeArena) (consistent : Consistent a) : Allocated a a [] :=
  ⟨consistent, fun _ => by simp, fun _ _ => rfl, fun _ => rfl⟩

/-- The slots brought to life were dead before. -/
theorem Allocated.fresh {a a' : NodeArena} {ids : List NodeId} (step : Allocated a a' ids)
    (id : NodeId) (alive : a.live id = true) : id ∉ ids := by
  intro inside
  have counted := step.live id
  have positive := List.count_pos_iff.mpr inside
  have bound := liveCount_le_one a' id
  rw [live_iff_liveCount] at alive
  omega

theorem Allocated.alive {a a' : NodeArena} {ids : List NodeId} (step : Allocated a a' ids)
    (id : NodeId) (inside : id ∈ ids) : a'.live id = true := by
  have counted := step.live id
  have positive := List.count_pos_iff.mpr inside
  have bound := liveCount_le_one a' id
  rw [live_iff_liveCount]
  omega

theorem Allocated.keeps {a a' : NodeArena} {ids : List NodeId} (step : Allocated a a' ids)
    (id : NodeId) (alive : a.live id = true) : a'.get id = a.get id :=
  step.frame id (step.fresh id alive)

theorem Allocated.trans {a b c : NodeArena} {ids ids' : List NodeId} (first : Allocated a b ids)
    (second : Allocated b c ids') : Allocated a c (ids ++ ids') := by
  refine ⟨second.consistent, fun i => ?_, fun i outside => ?_, fun i => ?_⟩
  · rw [second.live, first.live, List.count_append]
    omega
  · rw [List.mem_append, not_or] at outside
    rw [second.frame i outside.2, first.frame i outside.1]
  · rw [second.releases, first.releases]

theorem Allocated.congr {a b : NodeArena} {ids ids' : List NodeId} (step : Allocated a b ids)
    (same : ∀ i, ids'.count i = ids.count i) : Allocated a b ids' := by
  refine ⟨step.consistent, fun i => by rw [step.live, same], fun i outside => ?_, step.releases⟩
  apply step.frame
  rw [← List.count_eq_zero] at outside ⊢
  rwa [← same]

theorem Released.refl (a : NodeArena) (consistent : Consistent a) : Released a a [] :=
  ⟨consistent, fun _ => by simp, fun _ _ => rfl, fun _ inside => by cases inside⟩

theorem Released.trans {a b c : NodeArena} {ids ids' : List NodeId} (first : Released a b ids)
    (second : Released b c ids') : Released a c (ids ++ ids') := by
  -- A slot given back first is dead in `b`, so the second step does not list it.
  have apart : ∀ i, i ∈ ids → i ∉ ids' := by
    intro i inside again
    have before := first.live i
    have after := second.live i
    have bound := liveCount_le_one a i
    have once := List.count_pos_iff.mpr inside
    have twice := List.count_pos_iff.mpr again
    omega
  refine ⟨second.consistent, fun i => ?_, fun i outside => ?_, fun i inside => ?_⟩
  · rw [first.live, second.live, List.count_append]
    omega
  · rw [List.mem_append, not_or] at outside
    rw [second.frame i outside.2, first.frame i outside.1]
  · rcases List.mem_append.mp inside with early | late
    · rw [second.frame i (apart i early), first.releases i early]
    · rw [second.releases i late, first.frame i fun early => apart i early late]

theorem Released.congr {a b : NodeArena} {ids ids' : List NodeId} (step : Released a b ids)
    (same : ∀ i, ids'.count i = ids.count i) : Released a b ids' := by
  have members : ∀ i, i ∈ ids' ↔ i ∈ ids := fun i => by
    rw [← List.count_pos_iff, same, List.count_pos_iff]
  refine ⟨step.consistent, fun i => by rw [step.live, same], fun i outside => ?_,
    fun i inside => step.releases i ((members i).mp inside)⟩
  exact step.frame i fun inside => outside ((members i).mpr inside)

/-! ## Editing a live record -/

/-- An edit that touches neither liveness nor the release count of its slot. -/
structure Edit (f : Node → Node) : Prop where
  alive : ∀ node, (f node).alive = node.alive
  generation : ∀ node, (f node).generation = node.generation
  releases : ∀ node, (f node).releases = node.releases

theorem modify_live (a : NodeArena) (id : NodeId) (f : Node → Node) (edit : Edit f) (i : Nat) :
    (a.modify id f).live i = a.live i := by
  by_cases same : i = id
  · subst same
    by_cases inside : i < a.nodes.length
    · rw [NodeArena.live, NodeArena.modify_get_self a i f inside, edit.alive]
      rfl
    · have outside : ∀ b : NodeArena, b.nodes.length = a.nodes.length → b.live i = false := by
        intro b length
        by_contra alive
        rw [Bool.not_eq_false] at alive
        have := NodeArena.live_lt b i alive
        omega
      rw [outside a rfl, outside _ (NodeArena.modify_length a i f)]
  · rw [NodeArena.live, NodeArena.modify_get_of_ne a id i f same]
    rfl

theorem modify_liveCount (a : NodeArena) (id : NodeId) (f : Node → Node) (edit : Edit f)
    (i : NodeId) : liveCount (a.modify id f) i = liveCount a i := by
  rw [liveCount, liveCount, modify_live a id f edit]

theorem modify_releases (a : NodeArena) (id : NodeId) (f : Node → Node) (edit : Edit f)
    (alive : a.live id = true) (i : NodeId) :
    ((a.modify id f).get i).releases = (a.get i).releases := by
  by_cases same : i = id
  · subst same
    rw [NodeArena.modify_get_self a i f (NodeArena.live_lt a i alive), edit.releases]
  · rw [NodeArena.modify_get_of_ne a id i f same]

theorem modify_consistent (a : NodeArena) (id : NodeId) (f : Node → Node) (edit : Edit f)
    (alive : a.live id = true) (consistent : Consistent a) : Consistent (a.modify id f) := by
  have inside := NodeArena.live_lt a id alive
  have dead : ∀ i, a.live i = false → (a.modify id f).get i = a.get i := by
    intro i gone
    apply NodeArena.modify_get_of_ne
    rintro rfl
    rw [alive] at gone
    cases gone
  obtain ⟨ids, chain, members⟩ := consistent.free
  refine ⟨⟨ids, ?_, fun i => ?_⟩, fun i gone => ?_, fun i => ?_⟩
  · rw [NodeArena.modify_freeHead]
    exact chain.congr fun i free => by rw [dead i ((members i).mp free).2]
  · rw [NodeArena.modify_length, modify_live a id f edit]
    exact members i
  · rw [modify_live a id f edit] at gone
    rw [dead i gone]
    exact consistent.cleared i gone
  · rw [modify_releases a id f edit alive]
    by_cases same : i = id
    · subst same
      rw [NodeArena.modify_get_self a i f inside, edit.generation]
      exact consistent.counted i
    · rw [NodeArena.modify_get_of_ne a id i f same]
      exact consistent.counted i

theorem edit_setParent (parent : Option NodeId) :
    Edit fun node => { node with parent := parent } :=
  ⟨fun _ => rfl, fun _ => rfl, fun _ => rfl⟩

theorem edit_pushMember (key : Bytes) (child : NodeId) :
    Edit fun node => { node with members := node.members ++ [(key, child)] } :=
  ⟨fun _ => rfl, fun _ => rfl, fun _ => rfl⟩

theorem edit_pushElement (child : NodeId) :
    Edit fun node => { node with elements := node.elements ++ [child] } :=
  ⟨fun _ => rfl, fun _ => rfl, fun _ => rfl⟩

/-- An edit of a slot that was just brought to life is part of the allocation. -/
theorem Allocated.modify {a a' : NodeArena} {ids : List NodeId} (step : Allocated a a' ids)
    (id : NodeId) (inside : id ∈ ids) (f : Node → Node) (edit : Edit f) :
    Allocated a (a'.modify id f) ids := by
  have alive := step.alive id inside
  refine ⟨modify_consistent a' id f edit alive step.consistent, fun i => ?_, fun i outside => ?_,
    fun i => ?_⟩
  · rw [modify_liveCount a' id f edit, step.live]
  · rw [NodeArena.modify_get_of_ne a' id i f fun same => outside (same ▸ inside),
      step.frame i outside]
  · rw [modify_releases a' id f edit alive, step.releases]

/-! ## The two primitive operations -/

/-- The record a slot holds right after it was allocated. -/
def freshNode (type : NodeType) (before : Node) : Node :=
  { type := type
    alive := true
    generation := before.generation
    releases := before.releases }

theorem get_append (a : NodeArena) (node : Node) (i : Nat) :
    NodeArena.get { a with nodes := a.nodes ++ [node] } i =
      if i = a.nodes.length then node else a.get i := by
  simp only [NodeArena.get, List.getD, List.getElem?_append]
  by_cases same : i = a.nodes.length
  · simp [same]
  · rw [if_neg same]
    by_cases inside : i < a.nodes.length
    · rw [if_pos inside]
    · rw [if_neg inside, List.getElem?_eq_none (by omega : a.nodes.length ≤ i),
        List.getElem?_eq_none (by simp only [List.length_cons, List.length_nil]; omega)]

/-- What one changed slot may break of the invariant. -/
theorem Consistent.update {a a' : NodeArena} (consistent : Consistent a) (id : NodeId)
    (other : ∀ i, i ≠ id → a'.get i = a.get i)
    (free : ∃ ids, Threaded (fun i => (a'.get i).parent) a'.freeHead ids ∧
      ∀ i : Nat, i ∈ ids ↔ i < a'.nodes.length ∧ a'.live i = false)
    (cleared : a'.live id = false → (a'.get id).members = [] ∧ (a'.get id).elements = [] ∧
      (a'.get id).scalar = .monostate)
    (counted : (a'.get id).generation = Fin.ofNat (2 ^ 32) (a'.get id).releases) :
    Consistent a' := by
  refine ⟨free, fun i dead => ?_, fun i => ?_⟩
  · by_cases same : i = id
    · subst same
      exact cleared dead
    · rw [NodeArena.live, other i same] at dead
      rw [other i same]
      exact consistent.cleared i dead
  · by_cases same : i = id
    · rw [same]
      exact counted
    · rw [other i same]
      exact consistent.counted i

/-- One slot came to life and no other changed. -/
theorem liveCount_update {a a' : NodeArena} (id : NodeId)
    (other : ∀ i, i ≠ id → a'.get i = a.get i) (before : a.live id = false)
    (after : a'.live id = true) (i : NodeId) : liveCount a' i = liveCount a i + [id].count i := by
  by_cases same : i = id
  · subst same
    simp [liveCount, before, after]
  · rw [liveCount, NodeArena.live, other i same, List.count_eq_zero_of_not_mem (by simpa using same)]
    rfl

/-- One dead slot got the fresh record; the free list is each caller's own. -/
theorem allocated_of_record {a a' : NodeArena} (consistent : Consistent a) (type : NodeType)
    (id : NodeId) (dead : a.live id = false) (self : a'.get id = freshNode type (a.get id))
    (other : ∀ i, i ≠ id → a'.get i = a.get i)
    (free : ∃ ids, Threaded (fun i => (a'.get i).parent) a'.freeHead ids ∧
      ∀ i : Nat, i ∈ ids ↔ i < a'.nodes.length ∧ a'.live i = false) : Allocated a a' [id] := by
  have alive : a'.live id = true := by
    rw [NodeArena.live, self]
    rfl
  have counted : (a'.get id).generation = Fin.ofNat (2 ^ 32) (a'.get id).releases := by
    rw [self]
    exact consistent.counted id
  refine ⟨consistent.update id other free (fun gone => ?_) counted,
    liveCount_update id other dead alive, fun i outside => other i (by simpa using outside),
    fun i => ?_⟩
  · rw [alive] at gone
    cases gone
  · by_cases same : i = id
    · rw [same, self]
      rfl
    · rw [other i same]

theorem allocate_spec (a : NodeArena) (type : NodeType) (consistent : Consistent a) :
    Allocated a (a.allocate type).2 [(a.allocate type).1] ∧
      (a.allocate type).2.get (a.allocate type).1 =
        freshNode type (a.get (a.allocate type).1) := by
  obtain ⟨ids, chain, members⟩ := consistent.free
  cases head : a.freeHead with
  | none =>
    rw [head] at chain
    cases chain
    have shape : a.allocate type =
        (a.nodes.length, { a with nodes := a.nodes ++ [{ type := type, alive := true }] }) := by
      simp only [NodeArena.allocate, head]
    have missing : a.get a.nodes.length = {} := by
      simp [NodeArena.get, List.getD]
    have self : NodeArena.get { a with nodes := a.nodes ++ [{ type := type, alive := true }] }
        a.nodes.length = freshNode type (a.get a.nodes.length) := by
      rw [get_append, if_pos rfl, missing]
      rfl
    rw [shape]
    refine ⟨allocated_of_record consistent type _ ?_ self ?_ ?_, self⟩
    · rw [NodeArena.live, missing]
    · intro i different
      rw [get_append, if_neg different]
    · refine ⟨[], ?_, fun i => ?_⟩
      · rw [head]
        exact .nil
      · simp only [NodeArena.live, get_append, List.length_append, List.length_cons,
          List.length_nil, List.not_mem_nil, false_iff, not_and]
        intro bound
        by_cases same : i = a.nodes.length
        · simp [same]
        · rw [if_neg same]
          have used := (members i).not.mp (by simp)
          exact fun gone => used ⟨by omega, gone⟩
  | some id =>
    rw [head] at chain
    cases chain with
    | cons _ rest tail =>
      have gone := (members id).mp (by simp)
      have nodup := (Threaded.cons id rest tail).nodup
      let f : Node → Node := fun node =>
        { node with type := type, scalar := .monostate, parent := none, alive := true }
      have shape : a.allocate type =
          (id, { a.modify id f with freeHead := (a.get id).parent }) := by
        simp only [NodeArena.allocate, head, f]
      have self : NodeArena.get { a.modify id f with freeHead := (a.get id).parent } id =
          freshNode type (a.get id) := by
        have written := NodeArena.modify_get_self a id f gone.1
        have empty := consistent.cleared id gone.2
        simp only [f, empty.1, empty.2.1] at written
        exact written
      have other : ∀ i, i ≠ id →
          NodeArena.get { a.modify id f with freeHead := (a.get id).parent } i = a.get i :=
        fun i different => NodeArena.modify_get_of_ne a id i f different
      rw [shape]
      refine ⟨allocated_of_record consistent type id gone.2 self other ⟨rest, ?_, fun i => ?_⟩, self⟩
      · apply tail.congr
        intro i later
        rw [other i]
        rintro rfl
        exact (List.nodup_cons.mp nodup).1 later
      · change i ∈ rest ↔ i < (a.modify id f).nodes.length ∧ _
        rw [NodeArena.modify_length]
        by_cases same : i = id
        · subst same
          rw [NodeArena.live, self]
          simp [freshNode, (List.nodup_cons.mp nodup).1]
        · rw [NodeArena.live, other i same]
          have before := members i
          rw [List.mem_cons, or_iff_right same] at before
          exact before

theorem generation_succ (count : Nat) :
    Fin.ofNat (2 ^ 32) count + 1 = Fin.ofNat (2 ^ 32) (count + 1) := by
  have one : ((1 : Fin (2 ^ 32)) : Nat) = 1 := rfl
  apply Fin.ext
  rw [Fin.val_add, one]
  simp only [Fin.ofNat]
  omega

theorem release_spec (a : NodeArena) (id : Nat) (alive : a.live id = true)
    (consistent : Consistent a) : Released a (a.release id) [id] := by
  have inside := NodeArena.live_lt a id alive
  let f : Node → Node := fun node =>
    { node with
      alive := false
      generation := node.generation + 1
      releases := node.releases + 1
      scalar := .monostate
      members := []
      elements := []
      parent := a.freeHead }
  have self : (a.release id).get id = f (a.get id) := NodeArena.modify_get_self a id f inside
  have other : ∀ i, i ≠ id → (a.release id).get i = a.get i :=
    fun i different => NodeArena.modify_get_of_ne a id i f different
  have dead : (a.release id).live id = false := by
    rw [NodeArena.live, self]
  obtain ⟨ids, chain, members⟩ := consistent.free
  have unlisted : id ∉ ids := fun listed => by
    rw [((members id).mp listed).2] at alive
    cases alive
  have counted : ((a.release id).get id).generation =
      Fin.ofNat (2 ^ 32) ((a.release id).get id).releases := by
    have before := consistent.counted id
    rw [self]
    simp only [f, before]
    exact generation_succ _
  refine ⟨consistent.update id other ⟨id :: ids, ?_, fun i => ?_⟩ (fun _ => ?_) counted,
    liveCount_update id (fun i different => (other i different).symm) dead alive,
    fun i outside => other i (by simpa using outside), fun i listed => ?_⟩
  · refine .cons id ids ?_
    simp only [self]
    apply chain.congr
    intro i listed
    rw [other i]
    rintro rfl
    exact unlisted listed
  · change i ∈ id :: ids ↔ i < (a.modify id f).nodes.length ∧ _
    rw [NodeArena.modify_length, List.mem_cons]
    by_cases same : i = id
    · subst same
      rw [NodeArena.live, self]
      simp [f, inside]
    · rw [NodeArena.live, other i same, or_iff_right same]
      exact members i
  · rw [self]
    exact ⟨rfl, rfl, rfl⟩
  · rw [List.mem_singleton.mp listed, self]

end ConfigManager.Refinement
