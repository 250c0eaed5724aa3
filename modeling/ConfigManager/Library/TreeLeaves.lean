import ConfigManager.Library.LabelledTree

/-!
# Leaves and keys of an ordered tree

`EveryLeaf` and `EveryKey` say what holds of all leaf values and of all member
names, and `mapLeaves` changes the leaf values and nothing else.
-/

set_option autoImplicit false

namespace ConfigManager.Library.Tree

universe u v w x

variable {ι : Type u} {κ : Type v} {α : Type w} {β : Type x}

/-! ## What holds of all leaves, and of all keys -/

/-- The property holds of the value of every leaf, however deep. -/
def EveryLeaf (p : α → Prop) (t : Tree ι κ α) : Prop :=
  Every (fun s => ∀ l a, s = .leaf l a → p a) t

/-- The property holds of every member name of every object in the tree. -/
def EveryKey (p : κ → Prop) (t : Tree ι κ α) : Prop := Every (fun s => ∀ k ∈ s.keys, p k) t

@[simp] theorem everyLeaf_leaf (p : α → Prop) (l : ι) (a : α) :
    EveryLeaf p (.leaf l a : Tree ι κ α) ↔ p a := by
  unfold EveryLeaf
  rw [every_iff]
  simp [children]

/-- The name of a member does not matter for the leaves. -/
@[simp] theorem everyLeaf_object (p : α → Prop) (l : ι) (ms : List (κ × Tree ι κ α)) :
    EveryLeaf p (.object l ms) ↔ ∀ m ∈ ms, EveryLeaf p m.2 := by
  unfold EveryLeaf
  rw [every_iff]
  simp only [children, List.forall_mem_map, reduceCtorEq, false_imp_iff, implies_true, true_and]

@[simp] theorem everyLeaf_array (p : α → Prop) (l : ι) (es : List (Tree ι κ α)) :
    EveryLeaf p (.array l es) ↔ ∀ e ∈ es, EveryLeaf p e := by
  unfold EveryLeaf
  rw [every_iff]
  simp [children]

@[simp] theorem everyKey_leaf (p : κ → Prop) (l : ι) (a : α) :
    EveryKey p (.leaf l a : Tree ι κ α) ↔ True := by
  unfold EveryKey
  rw [every_iff]
  simp [keys, children]

/-- An object has names of its own besides those below its members. -/
@[simp] theorem everyKey_object (p : κ → Prop) (l : ι) (ms : List (κ × Tree ι κ α)) :
    EveryKey p (.object l ms) ↔ ∀ m ∈ ms, p m.1 ∧ EveryKey p m.2 := by
  unfold EveryKey
  rw [every_iff]
  simp only [keys, children, List.forall_mem_map]
  exact ⟨fun h m inside => ⟨h.1 m inside, h.2 m inside⟩,
    fun h => ⟨fun m inside => (h m inside).1, fun m inside => (h m inside).2⟩⟩

@[simp] theorem everyKey_array (p : κ → Prop) (l : ι) (es : List (Tree ι κ α)) :
    EveryKey p (.array l es) ↔ ∀ e ∈ es, EveryKey p e := by
  unfold EveryKey
  rw [every_iff]
  simp [keys, children]

/-- Two properties of all leaves can be shown apart. -/
theorem everyLeaf_and (p q : α → Prop) (t : Tree ι κ α) :
    EveryLeaf (fun a => p a ∧ q a) t ↔ EveryLeaf p t ∧ EveryLeaf q t := by
  induction t using children_induction with
  | node t ih =>
    cases t with
    | leaf l a => simp
    | object l ms =>
      simp only [children, List.forall_mem_map] at ih
      simp only [everyLeaf_object, ← forall_and]
      exact forall₂_congr ih
    | array l es =>
      simp only [everyLeaf_array, ← forall_and]
      exact forall₂_congr ih

/-- What holds of all keys together with what holds of all leaves. -/
def EveryPart (p : κ → Prop) (q : α → Prop) (t : Tree ι κ α) : Prop := EveryKey p t ∧ EveryLeaf q t

@[simp] theorem everyPart_leaf (p : κ → Prop) (q : α → Prop) (l : ι) (a : α) :
    EveryPart p q (.leaf l a : Tree ι κ α) ↔ q a := by
  simp [EveryPart]

/-- Over an object both parts go member by member. -/
@[simp] theorem everyPart_object (p : κ → Prop) (q : α → Prop) (l : ι)
    (ms : List (κ × Tree ι κ α)) :
    EveryPart p q (.object l ms) ↔ ∀ m ∈ ms, p m.1 ∧ EveryPart p q m.2 := by
  simp only [EveryPart, everyKey_object, everyLeaf_object, ← forall_and, and_assoc]

@[simp] theorem everyPart_array (p : κ → Prop) (q : α → Prop) (l : ι) (es : List (Tree ι κ α)) :
    EveryPart p q (.array l es) ↔ ∀ e ∈ es, EveryPart p q e := by
  simp only [EveryPart, everyKey_array, everyLeaf_array, ← forall_and]

/-! ## Changing the leaves -/

mutual
/-- The same tree, with labels, names and order as they were, and the function over its leaves. -/
def mapLeaves (f : α → β) : Tree ι κ α → Tree ι κ β
  | .leaf l a => .leaf l (f a)
  | .object l ms => .object l (mapMembers f ms)
  | .array l es => .array l (mapElements f es)
def mapMembers (f : α → β) : List (κ × Tree ι κ α) → List (κ × Tree ι κ β)
  | [] => []
  | (k, t) :: ms => (k, mapLeaves f t) :: mapMembers f ms
def mapElements (f : α → β) : List (Tree ι κ α) → List (Tree ι κ β)
  | [] => []
  | t :: es => mapLeaves f t :: mapElements f es
end

@[simp] theorem mapLeaves_leaf (f : α → β) (l : ι) (a : α) :
    mapLeaves f (.leaf l a : Tree ι κ α) = .leaf l (f a) := rfl

/-- The recursion over the member list is a map. -/
@[simp] theorem mapLeaves_object (f : α → β) (l : ι) (ms : List (κ × Tree ι κ α)) :
    mapLeaves f (.object l ms) = .object l (ms.map fun m => (m.1, mapLeaves f m.2)) := by
  have members : mapMembers f ms = ms.map fun m => (m.1, mapLeaves f m.2) := by
    induction ms with
    | nil => rfl
    | cons m rest ih => rw [mapMembers, ih, List.map_cons]
  rw [mapLeaves, members]

@[simp] theorem mapLeaves_array (f : α → β) (l : ι) (es : List (Tree ι κ α)) :
    mapLeaves f (.array l es) = .array l (es.map (mapLeaves f)) := by
  have elements : mapElements f es = es.map (mapLeaves f) := by
    induction es with
    | nil => rfl
    | cons t rest ih => rw [mapElements, ih, List.map_cons]
  rw [mapLeaves, elements]

/-- What holds of the changed leaves, asked of the leaves before the change. -/
theorem everyLeaf_mapLeaves (p : β → Prop) (f : α → β) (t : Tree ι κ α) :
    EveryLeaf p (mapLeaves f t) ↔ EveryLeaf (fun a => p (f a)) t := by
  induction t using children_induction with
  | node t ih =>
    cases t with
    | leaf l a => simp
    | object l ms =>
      simp only [children, List.forall_mem_map] at ih
      simp only [mapLeaves_object, everyLeaf_object, List.forall_mem_map]
      exact forall₂_congr ih
    | array l es =>
      simp only [mapLeaves_array, everyLeaf_array, List.forall_mem_map]
      exact forall₂_congr ih

/-- Names are untouched. -/
theorem everyKey_mapLeaves (p : κ → Prop) (f : α → β) (t : Tree ι κ α) :
    EveryKey p (mapLeaves f t) ↔ EveryKey p t := by
  induction t using children_induction with
  | node t ih =>
    cases t with
    | leaf l a => simp
    | object l ms =>
      simp only [children, List.forall_mem_map] at ih
      simp only [mapLeaves_object, everyKey_object, List.forall_mem_map]
      exact forall₂_congr fun m inside => and_congr_right fun _ => ih m inside
    | array l es =>
      simp only [mapLeaves_array, everyKey_array, List.forall_mem_map]
      exact forall₂_congr ih

end ConfigManager.Library.Tree
