import ConfigManager.Guarantees.ArenaInvariant
import ConfigManager.Refinement.Handles
import ConfigManager.Refinement.UnwoundWrites

/-!
# A write that runs out of memory changes nothing

Wherever an allocation fails inside `ConfigModel::set`, the guards give back every
slot that was taken, so the model holds the same nodes in the same slots as before.
-/

set_option autoImplicit false

namespace ConfigManager.Guarantees
open Library Source Reference Refinement

/-- The handle is valid and every accessor answers as before. The handles among the answers are
the same, so what they read is the same too. -/
structure ReadsAlike (a a' : NodeArena) (h : ConfigNode) : Prop where
  valid : h.valid a' = true
  type : h.type a' = h.type a
  size : h.size a' = h.size a
  child : ∀ key, h.child a' key = h.child a key
  element : ∀ index, h.at a' index = h.at a index
  keys : h.keys a' = h.keys a
  members : h.members a' = h.members a
  scalar : h.scalarValue a' = h.scalarValue a

structure Unharmed (m m' : ConfigModel) : Prop where
  tree : contents m' = contents m
  slots : ∀ i, m'.arena.live i = m.arena.live i
  /-- In particular every live slot is below the root. -/
  wellFormed : WellFormed m'
  handles : ∀ h : ConfigNode, h.valid m.arena = true → ReadsAlike m.arena m'.arena h

/-! ## Reading the same record -/

theorem edge_live {m : ConfigModel} {t : SlotTree} (r : Represents m t) (i j : NodeId)
    (alive : m.arena.live i = true) (edge : j ∈ childIds (m.arena.get i)) :
    m.arena.live j = true := by
  obtain ⟨x, rfl, sits, _⟩ := node_of_live r i alive
  obtain ⟨up, rep⟩ := sits.rep
  rw [childIds_eq m.arena up x rep] at edge
  obtain ⟨c, member, rfl⟩ := List.mem_map.mp edge
  exact (rep.children c member).alive

theorem readsAlike_of_record (a a' : NodeArena) (h : ConfigNode) (valid : h.valid a = true)
    (same : a'.get h.id = a.get h.id)
    (below : ∀ j ∈ childIds (a.get h.id), a'.get j = a.get j) : ReadsAlike a a' h := by
  obtain ⟨alive, generation⟩ := (NodeArena.matches_iff a h.id h.generation).mp valid
  have valid' : h.valid a' = true := by
    refine (NodeArena.matches_iff a' h.id h.generation).mpr ⟨?_, ?_⟩
    · rw [NodeArena.live, same]
      exact alive
    · rw [same]
      exact generation
  have found := findLive_valid a h valid
  have found' := findLive_valid a' h valid'
  rw [same] at found'
  have issued : ∀ j ∈ childIds (a.get h.id), ConfigNode.issue a' j = ConfigNode.issue a j := by
    intro j edge
    rw [ConfigNode.issue, below j edge]
    rfl
  have member : ∀ entry ∈ (a.get h.id).members,
      ConfigNode.issue a' entry.2 = ConfigNode.issue a entry.2 := fun entry listed =>
    issued _ (List.mem_append_left _ (List.mem_map_of_mem listed))
  refine ⟨valid', ?_, ?_, fun key => ?_, fun index => ?_, ?_, ?_, ?_⟩
  · rw [ConfigNode.type, same]
    rfl
  · unfold ConfigNode.size
    rw [same]
  · unfold ConfigNode.child
    rw [found, found']
    simp only
    cases looked : lookupKey key (a.get h.id).members with
    | none => rfl
    | some id =>
      simp only
      rw [member (key, id) (lookup_mem key _ id looked)]
  · unfold ConfigNode.at
    rw [found, found']
    simp only
    cases here : (a.get h.id).elements[index]? with
    | none => rfl
    | some id =>
      simp only
      rw [issued id (List.mem_append_right _ (List.mem_of_getElem? here))]
  · unfold ConfigNode.keys
    rw [found, found']
  · unfold ConfigNode.members
    rw [found, found']
    have handles : (a.get h.id).members.map (fun entry => (entry.1, ConfigNode.issue a' entry.2)) =
        (a.get h.id).members.map fun entry => (entry.1, ConfigNode.issue a entry.2) := by
      apply List.map_congr_left
      intro entry listed
      rw [member entry listed]
    simp only
    rw [handles]
  · unfold ConfigNode.scalarValue
    rw [found, found']

/-- If the `n + 1`st allocation inside `set` fails, however many each operation makes, the model is
what it was: the same tree in the same slots, no slot lost, and every handle still good. -/
theorem failed_allocation_changes_nothing (m : ConfigModel) (reached : Unwinding.Reachable m)
    (path : Bytes) (value : BuiltValue) (demand : Nat → Nat) (n : Nat) (store : Unwinding.Store)
    (failed : Unwinding.set m.rootId path value.1
      { arena := m.arena, demand := demand, granted := n } = .thrown store) :
    Unharmed m { m with arena := store.arena } := by
  obtain ⟨t, r⟩ := unwinding_represents reached
  have grown := unwound_grown r path value.1 demand n store failed
  have r' := grown.represents r
  refine ⟨?_, fun i => ?_, represents_wellFormed _ t r', fun h valid => ?_⟩
  · rw [contents_eq r', contents_eq r]
  · have counted := grown.live i
    rw [List.count_nil, Nat.add_zero] at counted
    rw [Bool.eq_iff_iff, live_iff_liveCount, live_iff_liveCount, counted]
  · obtain ⟨alive, _⟩ := (NodeArena.matches_iff m.arena h.id h.generation).mp valid
    apply readsAlike_of_record m.arena store.arena h valid (grown.kept h.id alive)
    intro j edge
    exact grown.kept j (edge_live r h.id j alive edge)

/-- `true` is built and the object around it finds no memory. -/
theorem failed_container_changes_nothing :
    ∃ store, Unwinding.set ConfigModel.empty.rootId (bytes "a.b") (ConfigValue.of (.bool true))
        { arena := ConfigModel.empty.arena, demand := fun _ => 1, granted := 5 } = .thrown store ∧
      store.arena.nodes.length = 2 ∧ Unharmed ConfigModel.empty
        { ConfigModel.empty with arena := store.arena } :=
  ⟨_, rfl, rfl, failed_allocation_changes_nothing ConfigModel.empty .empty (bytes "a.b")
    ⟨ConfigValue.of (.bool true), by decide⟩ (fun _ => 1) 5 _ rfl⟩

end ConfigManager.Guarantees
