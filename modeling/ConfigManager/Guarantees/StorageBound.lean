import ConfigManager.Guarantees.ModelRefinement
import ConfigManager.Refinement.StorageGrowth

/-!
# The storage of a model is its high-water mark

Slots are never returned, and none is appended while a dead one is left. After any run
of writes and removals the arena has as many slots as the most nodes that one call ever
held at once. The 32-bit bound of `NodeId` is met exactly where this mark meets it.
-/

set_option autoImplicit false

namespace ConfigManager.Guarantees
open Library Source Reference Refinement

/-- A call that may change a model. -/
inductive Write where
  | set (path : Bytes) (value : BuiltValue)
  | remove (path : Bytes)

namespace Write

def perform (m : ConfigModel) : Write → ConfigModel
  | .set path value => (m.set path value.1).2
  | .remove path => (m.remove path).2

/-- The same call on a reference tree. -/
def apply (t : ConfigValue) : Write → ConfigValue
  | .set path value => (committed t (Reference.set path value.1 t)).2
  | .remove path => (committed t (Reference.remove path t)).2

/-- The nodes that the call holds at once. The contents of a node that is replaced stand
until the new ones are built. A call that fails or removes creates none. -/
def demand (t : ConfigValue) : Write → Nat
  | .set path value =>
      match Reference.set path value.1 t with
      | .error _ => 0
      | .ok new => if Reference.contains path t then t.size + value.1.size else new.size
  | .remove _ => 0

/-- The largest demand of a run. -/
def highWater : ConfigValue → List Write → Nat
  | _, [] => 0
  | t, write :: writes => max (write.demand t) (highWater (write.apply t) writes)

end Write

theorem perform_holds (m : ConfigModel) (t : ConfigValue) (holds : Holds m t) (write : Write) :
    Holds (write.perform m) (write.apply t) := by
  cases write with
  | set path value => exact (model_simulates_tree.set m t path value holds).2
  | remove path => exact (model_simulates_tree.remove m t path holds).2

theorem perform_slots (m : ConfigModel) (t : ConfigValue) (holds : Holds m t) (write : Write) :
    (write.perform m).arena.nodes.length = max m.arena.nodes.length (write.demand t) := by
  obtain ⟨s, r, rfl⟩ := holds
  cases write with
  | set path value =>
    have slots := set_slots m s r path value.1 value.2
    cases after : Reference.set path value.1 s.forget with
    | error code =>
      simp only [after, Write.perform, Write.demand] at slots ⊢
      omega
    | ok new =>
      simp only [after, Write.perform, Write.demand] at slots ⊢
      exact slots
  | remove path =>
    have slots := remove_slots m path
    simp only [Write.perform, Write.demand]
    omega

/-- One write raises the mark to its demand, and a run to the largest one. -/
theorem run_slots (writes : List Write) (m : ConfigModel) (t : ConfigValue) (holds : Holds m t) :
    Holds (writes.foldl Write.perform m) (writes.foldl Write.apply t) ∧
      (writes.foldl Write.perform m).arena.nodes.length =
        max m.arena.nodes.length (Write.highWater t writes) := by
  induction writes generalizing m t with
  | nil =>
    refine ⟨holds, ?_⟩
    simp only [List.foldl_nil, Write.highWater]
    omega
  | cons write writes ih =>
    have step := perform_slots m t holds write
    obtain ⟨final, slots⟩ := ih _ _ (perform_holds m t holds write)
    refine ⟨final, ?_⟩
    simp only [List.foldl_cons, Write.highWater]
    omega

/-- The contents that a model is created with are built beside its empty root. -/
theorem fromValue_slots (value : BuiltValue) (m : ConfigModel)
    (made : ConfigModel.fromValue value.1 = .ok m) :
    m.arena.nodes.length = value.1.size + 1 := by
  obtain ⟨t, r, plain⟩ := empty_represents
  have live := r.liveSlots
  rw [plain] at live
  have one : ConfigValue.object.size = 1 := rfl
  have root : ConfigModel.empty.arena.nodes.length = 1 := rfl
  unfold ConfigModel.fromValue at made
  split at made
  · cases made
  split at made
  · cases made
  cases made
  rw [assignContents_slots, (buildFromValue_grown value.1 _ r.consistent none).grows.slots]
  omega

/-- The slots of a model after a run are those it had or the run's largest demand, and
the live ones are the nodes of its contents. -/
theorem slots_high_water (m : ConfigModel) (reached : Reachable m) (writes : List Write) :
    (writes.foldl Write.perform m).arena.nodes.length =
        max m.arena.nodes.length (Write.highWater (contents m) writes) ∧
      liveSlots (writes.foldl Write.perform m).arena =
        (contents (writes.foldl Write.perform m)).size ∧
      contents (writes.foldl Write.perform m) = writes.foldl Write.apply (contents m) ∧
      ∀ value : BuiltValue, ConfigModel.fromValue value.1 = .ok m →
        m.arena.nodes.length = value.1.size + 1 := by
  obtain ⟨t, r⟩ := reachable_represents reached
  obtain ⟨⟨t', r', after⟩, slots⟩ := run_slots writes m t.forget ⟨t, r, rfl⟩
  rw [← contents_eq r] at slots after
  rw [contents_eq r']
  exact ⟨slots, r'.liveSlots, after, fun value made => fromValue_slots value m made⟩

/-- Replacing a scalar and removing it again, three slots serve for every round. -/
theorem replaced_member_slots :
    ([Write.set (bytes "a") ⟨ConfigValue.of (.bool true), by decide⟩,
      .set (bytes "a") ⟨ConfigValue.of (.bool false), by decide⟩, .remove (bytes "a"),
      .set (bytes "b.c") ⟨ConfigValue.of (.bool true), by decide⟩].foldl Write.perform
        ConfigModel.empty).arena.nodes.length = 3 := by
  have slots := (slots_high_water ConfigModel.empty .empty
    [Write.set (bytes "a") ⟨ConfigValue.of (.bool true), by decide⟩,
      .set (bytes "a") ⟨ConfigValue.of (.bool false), by decide⟩, .remove (bytes "a"),
      .set (bytes "b.c") ⟨ConfigValue.of (.bool true), by decide⟩]).1
  rw [slots]
  decide

end ConfigManager.Guarantees
