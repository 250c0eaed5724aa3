import Mathlib.Data.List.Basic
import Mathlib.Data.List.Nodup
import Mathlib.Data.List.Perm.Basic
import Mathlib.Algebra.Order.BigOperators.Group.List
import Mathlib.Algebra.Order.Group.Nat
import Mathlib.Algebra.GroupWithZero.Nat

/-!
# Ordered trees with labelled nodes

Insertion-ordered trees: a leaf carries a value, an object an ordered list of
named children, an array an ordered list of children. Every node also carries a
label. With the trivial label `Unit` this is the plain tree; with an identity
per node it records which node sits where, and `forget` connects the two.

Nothing here fixes what keys, values or labels are.
-/

set_option autoImplicit false

namespace ConfigManager.Library

universe u v w

/-- One step from a node to one of its children. -/
inductive Step (κ : Type u) where
  | key (name : κ)
  | index (position : Nat)
  deriving DecidableEq, Repr

/-- Why a step leads nowhere: the node is of the other kind, or has no such child. -/
inductive Fault where
  | mismatch
  | absent
  deriving DecidableEq, Repr

/-! ## Association lists, first occurrence of a key -/

section Assoc
variable {κ : Type u} {β : Type v} [DecidableEq κ]

def lookupKey (k : κ) : List (κ × β) → Option β
  | [] => none
  | (k', value) :: rest => if k = k' then some value else lookupKey k rest

def updateKey (k : κ) (value : β) : List (κ × β) → List (κ × β)
  | [] => []
  | (k', old) :: rest =>
      if k = k' then (k', value) :: rest else (k', old) :: updateKey k value rest

def eraseKey (k : κ) : List (κ × β) → List (κ × β)
  | [] => []
  | (k', old) :: rest => if k = k' then rest else (k', old) :: eraseKey k rest

theorem lookup_cons_eq (k k' : κ) (value : β) (rest : List (κ × β)) :
    lookupKey k ((k', value) :: rest) = if k = k' then some value else lookupKey k rest := rfl

/-- A successful lookup names a position, and the two writers act at that position. -/
theorem lookup_position (k : κ) (ms : List (κ × β)) (value : β)
    (found : lookupKey k ms = some value) :
    ∃ j, ms[j]? = some (k, value) ∧ eraseKey k ms = ms.eraseIdx j ∧
      ∀ value', updateKey k value' ms = ms.set j (k, value') := by
  induction ms with
  | nil => cases found
  | cons m rest ih =>
    obtain ⟨k', old⟩ := m
    rw [lookup_cons_eq] at found
    by_cases h : k = k'
    · subst h
      simp only [if_true, Option.some.injEq] at found
      subst found
      exact ⟨0, by simp, by simp [eraseKey], fun value' => by simp [updateKey]⟩
    · rw [if_neg h] at found
      obtain ⟨j, here, erased, updated⟩ := ih found
      refine ⟨j + 1, by simpa using here, by simp [eraseKey, h, erased], fun value' => ?_⟩
      simp [updateKey, h, updated]

theorem lookup_none_iff (k : κ) (ms : List (κ × β)) :
    lookupKey k ms = none ↔ k ∉ ms.map Prod.fst := by
  induction ms with
  | nil => simp [lookupKey]
  | cons m rest ih =>
    obtain ⟨k', old⟩ := m
    rw [lookup_cons_eq]
    by_cases h : k = k' <;> simp [h, ih]

theorem lookup_mem (k : κ) (ms : List (κ × β)) (value : β) (found : lookupKey k ms = some value) :
    (k, value) ∈ ms := by
  obtain ⟨j, here, _⟩ := lookup_position k ms value found
  exact List.mem_of_getElem? here

/-- With distinct keys the lookup finds every member. -/
theorem lookup_of_mem (ms : List (κ × β)) (distinct : (ms.map Prod.fst).Nodup)
    (m : κ × β) (member : m ∈ ms) : lookupKey m.1 ms = some m.2 := by
  induction ms with
  | nil => cases member
  | cons head rest ih =>
    obtain ⟨k', old⟩ := head
    simp only [List.map_cons, List.nodup_cons] at distinct
    rw [lookup_cons_eq]
    rcases List.mem_cons.mp member with rfl | later
    · simp
    · have different : m.1 ≠ k' := by
        rintro rfl
        exact distinct.1 (List.mem_map_of_mem later)
      rw [if_neg different]
      exact ih distinct.2 later

theorem lookup_map {γ : Type w} (k : κ) (f : β → γ) (ms : List (κ × β)) :
    lookupKey k (ms.map fun m => (m.1, f m.2)) = (lookupKey k ms).map f := by
  induction ms with
  | nil => rfl
  | cons m rest ih =>
    obtain ⟨k', old⟩ := m
    rw [List.map_cons, lookup_cons_eq, lookup_cons_eq, ih]
    split <;> rfl

theorem lookup_append (k : κ) (ms ns : List (κ × β)) :
    lookupKey k (ms ++ ns) = (lookupKey k ms).or (lookupKey k ns) := by
  induction ms with
  | nil => simp [lookupKey]
  | cons m rest ih =>
    obtain ⟨k', old⟩ := m
    rw [List.cons_append, lookup_cons_eq, lookup_cons_eq, ih]
    split <;> simp

theorem updateKey_map {γ : Type w} (k : κ) (value : β) (f : β → γ) (ms : List (κ × β)) :
    (updateKey k value ms).map (fun m => (m.1, f m.2)) =
      updateKey k (f value) (ms.map fun m => (m.1, f m.2)) := by
  induction ms with
  | nil => rfl
  | cons m rest ih =>
    obtain ⟨k', old⟩ := m
    simp only [updateKey, List.map_cons]
    split <;> simp [ih]

theorem eraseKey_map {γ : Type w} (k : κ) (f : β → γ) (ms : List (κ × β)) :
    (eraseKey k ms).map (fun m => (m.1, f m.2)) = eraseKey k (ms.map fun m => (m.1, f m.2)) := by
  induction ms with
  | nil => rfl
  | cons m rest ih =>
    obtain ⟨k', old⟩ := m
    simp only [eraseKey, List.map_cons]
    split <;> simp [ih]

@[simp] theorem updateKey_keys (k : κ) (value : β) (ms : List (κ × β)) :
    (updateKey k value ms).map Prod.fst = ms.map Prod.fst := by
  induction ms with
  | nil => rfl
  | cons m rest ih =>
    obtain ⟨k', old⟩ := m
    simp only [updateKey]
    split <;> simp [ih]

theorem mem_updateKey (k : κ) (value : β) (ms : List (κ × β)) (m : κ × β)
    (inside : m ∈ updateKey k value ms) : m ∈ ms ∨ m.2 = value := by
  induction ms with
  | nil => cases inside
  | cons head rest ih =>
    obtain ⟨k', old⟩ := head
    by_cases same : k = k'
    · simp only [updateKey, if_pos same, List.mem_cons] at inside
      rcases inside with rfl | inside
      · exact .inr rfl
      · exact .inl (List.mem_cons_of_mem _ inside)
    · simp only [updateKey, if_neg same, List.mem_cons] at inside
      rcases inside with rfl | inside
      · exact .inl List.mem_cons_self
      · exact (ih inside).imp (List.mem_cons_of_mem _) id

theorem lookup_updateKey_self (k : κ) (value old : β) (ms : List (κ × β))
    (found : lookupKey k ms = some old) : lookupKey k (updateKey k value ms) = some value := by
  induction ms with
  | nil => cases found
  | cons m rest ih =>
    obtain ⟨k', here⟩ := m
    rw [lookup_cons_eq] at found
    by_cases h : k = k'
    · simp [updateKey, h, lookup_cons_eq]
    · rw [if_neg h] at found
      simp only [updateKey, if_neg h, lookup_cons_eq]
      exact ih found

theorem lookup_updateKey_ne (k other : κ) (value : β) (ms : List (κ × β)) (different : other ≠ k) :
    lookupKey other (updateKey k value ms) = lookupKey other ms := by
  induction ms with
  | nil => rfl
  | cons m rest ih =>
    obtain ⟨k', here⟩ := m
    by_cases h : k = k'
    · subst h
      simp [updateKey, lookup_cons_eq, different]
    · simp only [updateKey, if_neg h, lookup_cons_eq, ih]

theorem lookup_eraseKey_ne (k other : κ) (ms : List (κ × β)) (different : other ≠ k) :
    lookupKey other (eraseKey k ms) = lookupKey other ms := by
  induction ms with
  | nil => rfl
  | cons m rest ih =>
    obtain ⟨k', here⟩ := m
    by_cases h : k = k'
    · subst h
      simp [eraseKey, lookup_cons_eq, different]
    · simp only [eraseKey, if_neg h, lookup_cons_eq, ih]

theorem updateKey_updateKey (k : κ) (first second : β) (ms : List (κ × β)) :
    updateKey k second (updateKey k first ms) = updateKey k second ms := by
  induction ms with
  | nil => rfl
  | cons m rest ih =>
    obtain ⟨k', here⟩ := m
    by_cases h : k = k' <;> simp [updateKey, h, ih]

end Assoc

/-! ## Trees -/

inductive Tree (ι : Type u) (κ : Type v) (α : Type w) where
  | leaf (label : ι) (value : α)
  | object (label : ι) (members : List (κ × Tree ι κ α))
  | array (label : ι) (elements : List (Tree ι κ α))

namespace Tree

variable {ι : Type u} {κ : Type v} {α : Type w}

def label : Tree ι κ α → ι
  | .leaf l _ => l
  | .object l _ => l
  | .array l _ => l

def keys : Tree ι κ α → List κ
  | .object _ ms => ms.map Prod.fst
  | _ => []

def children : Tree ι κ α → List (Tree ι κ α)
  | .leaf _ _ => []
  | .object _ ms => ms.map Prod.snd
  | .array _ es => es

/-- Induction over the children of a node, whatever its kind. -/
@[elab_as_elim]
theorem children_induction {motive : Tree ι κ α → Prop}
    (node : ∀ t, (∀ c ∈ t.children, motive c) → motive t) (t : Tree ι κ α) : motive t :=
  match t with
  | .leaf l a => node _ (by simp [children])
  | .object l ms => node _ (by
      intro c member
      simp only [children, List.mem_map] at member
      obtain ⟨m, inside, rfl⟩ := member
      exact children_induction node m.2)
  | .array l es => node _ (by
      intro c member
      exact children_induction node c)
termination_by t
decreasing_by
  · have := List.sizeOf_lt_of_mem inside
    obtain ⟨k, c⟩ := m
    simp at this ⊢
    omega
  · have := List.sizeOf_lt_of_mem (show c ∈ es from member)
    simp
    omega

mutual
def labels : Tree ι κ α → List ι
  | .leaf l _ => [l]
  | .object l ms => l :: labelsMembers ms
  | .array l es => l :: labelsElements es
def labelsMembers : List (κ × Tree ι κ α) → List ι
  | [] => []
  | (_, t) :: ms => labels t ++ labelsMembers ms
def labelsElements : List (Tree ι κ α) → List ι
  | [] => []
  | t :: es => labels t ++ labelsElements es
end

mutual
/-- Number of edges below a node on the longest way down. -/
def height : Tree ι κ α → Nat
  | .leaf _ _ => 0
  | .object _ ms => heightMembers ms
  | .array _ es => heightElements es
def heightMembers : List (κ × Tree ι κ α) → Nat
  | [] => 0
  | (_, t) :: ms => max (height t + 1) (heightMembers ms)
def heightElements : List (Tree ι κ α) → Nat
  | [] => 0
  | t :: es => max (height t + 1) (heightElements es)
end

mutual
/-- The plain tree below the labels. -/
def forget : Tree ι κ α → Tree Unit κ α
  | .leaf _ a => .leaf () a
  | .object _ ms => .object () (forgetMembers ms)
  | .array _ es => .array () (forgetElements es)
def forgetMembers : List (κ × Tree ι κ α) → List (κ × Tree Unit κ α)
  | [] => []
  | (k, t) :: ms => (k, forget t) :: forgetMembers ms
def forgetElements : List (Tree ι κ α) → List (Tree Unit κ α)
  | [] => []
  | t :: es => forget t :: forgetElements es
end

@[simp] theorem forget_leaf (l : ι) (a : α) : forget (.leaf l a : Tree ι κ α) = .leaf () a := rfl

@[simp] theorem forget_object (l : ι) (ms : List (κ × Tree ι κ α)) :
    forget (.object l ms) = .object () (ms.map fun m => (m.1, forget m.2)) := by
  have members : forgetMembers ms = ms.map fun m => (m.1, forget m.2) := by
    induction ms with
    | nil => rfl
    | cons m rest ih => rw [forgetMembers, ih, List.map_cons]
  rw [forget, members]

@[simp] theorem forget_array (l : ι) (es : List (Tree ι κ α)) :
    forget (.array l es) = .array () (es.map forget) := by
  have elements : forgetElements es = es.map forget := by
    induction es with
    | nil => rfl
    | cons t rest ih => rw [forgetElements, ih, List.map_cons]
  rw [forget, elements]

theorem labels_eq (t : Tree ι κ α) : t.labels = t.label :: t.children.flatMap labels := by
  have members : ∀ ms : List (κ × Tree ι κ α),
      labelsMembers ms = (ms.map Prod.snd).flatMap labels := by
    intro ms
    induction ms with
    | nil => rfl
    | cons m rest ih => rw [labelsMembers, ih, List.map_cons, List.flatMap_cons]
  have elements : ∀ es : List (Tree ι κ α), labelsElements es = es.flatMap labels := by
    intro es
    induction es with
    | nil => rfl
    | cons c rest ih => rw [labelsElements, ih, List.flatMap_cons]
  cases t with
  | leaf l a => simp [labels, label, children]
  | object l ms => rw [labels, members]; rfl
  | array l es => rw [labels, elements]; rfl

theorem height_le_iff (t : Tree ι κ α) (n : Nat) :
    t.height ≤ n ↔ ∀ c ∈ t.children, c.height + 1 ≤ n := by
  have members : ∀ ms : List (κ × Tree ι κ α),
      heightMembers ms ≤ n ↔ ∀ c ∈ ms.map Prod.snd, c.height + 1 ≤ n := by
    intro ms
    induction ms with
    | nil => simp [heightMembers]
    | cons m rest ih =>
      rw [heightMembers, Nat.max_le, ih, List.map_cons, List.forall_mem_cons]
  have elements : ∀ es : List (Tree ι κ α),
      heightElements es ≤ n ↔ ∀ c ∈ es, c.height + 1 ≤ n := by
    intro es
    induction es with
    | nil => simp [heightElements]
    | cons c rest ih => rw [heightElements, Nat.max_le, ih, List.forall_mem_cons]
  cases t with
  | leaf l a => simp [height, children]
  | object l ms => exact members ms
  | array l es => exact elements es

theorem height_child_lt (t c : Tree ι κ α) (member : c ∈ t.children) : c.height < t.height :=
  (height_le_iff t t.height).mp (Nat.le_refl _) c member

/-- Along the longest way down every node has a label of its own. -/
theorem height_lt_labels (t : Tree ι κ α) : t.height < t.labels.length := by
  induction t using children_induction with
  | node t ih =>
    rw [labels_eq, List.length_cons, Nat.lt_succ_iff, height_le_iff]
    intro c member
    have part : c.labels.length ≤ (t.children.flatMap labels).length := by
      rw [List.length_flatMap]
      exact List.single_le_sum (by simp) _ (List.mem_map_of_mem member)
    have := ih c member
    omega

/-- Number of nodes. -/
def size (t : Tree ι κ α) : Nat := t.labels.length

theorem size_eq (t : Tree ι κ α) : t.size = (t.children.map size).sum + 1 := by
  rw [size, labels_eq, List.length_cons, List.length_flatMap]
  rfl

theorem size_object (l : ι) (ms : List (κ × Tree ι κ α)) :
    size (.object l ms) = (ms.map fun m => m.2.size).sum + 1 := by
  rw [size_eq, children, List.map_map]
  rfl

theorem size_array (l : ι) (es : List (Tree ι κ α)) :
    size (.array l es) = (es.map size).sum + 1 := by
  rw [size_eq, children]

theorem size_pos (t : Tree ι κ α) : 0 < t.size := by
  rw [size_eq]
  exact Nat.succ_pos _

/-- With the trivial label the nodes are counted by their label. -/
theorem size_eq_count (t : Tree Unit κ α) : t.size = t.labels.count () := by
  rw [size, eq_comm, List.count_eq_length]
  intro u _
  rfl

@[simp] theorem children_forget (t : Tree ι κ α) : t.forget.children = t.children.map forget := by
  cases t <;> simp [children, Function.comp_def]

@[simp] theorem keys_forget (t : Tree ι κ α) : t.forget.keys = t.keys := by
  cases t <;> simp [keys, Function.comp_def]

@[simp] theorem height_forget (t : Tree ι κ α) : t.forget.height = t.height := by
  induction t using children_induction with
  | node t ih =>
    apply Nat.le_antisymm
    · rw [height_le_iff]
      intro c member
      rw [children_forget, List.mem_map] at member
      obtain ⟨d, inside, rfl⟩ := member
      rw [ih d inside]
      exact height_child_lt t d inside
    · rw [height_le_iff]
      intro c member
      rw [← ih c member]
      exact height_child_lt t.forget c.forget (by simpa using ⟨c, member, rfl⟩)

/-! ## A property of every node -/

/-- `p` holds of the node and of all its descendants. -/
inductive Every (p : Tree ι κ α → Prop) : Tree ι κ α → Prop where
  | node (t : Tree ι κ α) (here : p t) (below : ∀ c ∈ t.children, Every p c) : Every p t

theorem every_iff (p : Tree ι κ α → Prop) (t : Tree ι κ α) :
    Every p t ↔ p t ∧ ∀ c ∈ t.children, Every p c :=
  ⟨fun h => by cases h with | node _ here below => exact ⟨here, below⟩,
    fun h => .node t h.1 h.2⟩

theorem Every.mono {p q : Tree ι κ α → Prop} (weaker : ∀ t, p t → q t) {t : Tree ι κ α}
    (h : Every p t) : Every q t := by
  induction h with
  | node t here _ ih => exact .node t (weaker t here) ih

/-- A property that reads the plain tree only is a property of the plain tree. -/
theorem every_forget_iff (p : Tree Unit κ α → Prop) (t : Tree ι κ α) :
    Every p t.forget ↔ Every (fun s => p s.forget) t := by
  induction t using children_induction with
  | node t ih =>
    rw [every_iff, every_iff, children_forget]
    simp only [List.mem_map, forall_exists_index, and_imp, forall_apply_eq_imp_iff₂]
    exact and_congr_right fun _ => forall₂_congr ih

mutual
def everyBool (p : Tree ι κ α → Bool) : Tree ι κ α → Bool
  | .leaf l a => p (.leaf l a)
  | .object l ms => p (.object l ms) && everyMembers p ms
  | .array l es => p (.array l es) && everyElements p es
def everyMembers (p : Tree ι κ α → Bool) : List (κ × Tree ι κ α) → Bool
  | [] => true
  | (_, t) :: ms => everyBool p t && everyMembers p ms
def everyElements (p : Tree ι κ α → Bool) : List (Tree ι κ α) → Bool
  | [] => true
  | t :: es => everyBool p t && everyElements p es
end

theorem everyBool_iff (p : Tree ι κ α → Prop) [DecidablePred p] (t : Tree ι κ α) :
    everyBool (fun s => decide (p s)) t = true ↔ Every p t := by
  have members : ∀ ms : List (κ × Tree ι κ α), everyMembers (fun s => decide (p s)) ms = true ↔
      ∀ c ∈ ms.map Prod.snd, everyBool (fun s => decide (p s)) c = true := by
    intro ms
    induction ms with
    | nil => simp [everyMembers]
    | cons m rest ih => simp [everyMembers, ih]
  have elements : ∀ es : List (Tree ι κ α), everyElements (fun s => decide (p s)) es = true ↔
      ∀ c ∈ es, everyBool (fun s => decide (p s)) c = true := by
    intro es
    induction es with
    | nil => simp [everyElements]
    | cons c rest ih => simp [everyElements, ih]
  induction t using children_induction with
  | node t ih =>
    rw [every_iff, ← forall₂_congr ih]
    cases t with
    | leaf l a => simp [everyBool, children]
    | object l ms => simp only [everyBool, Bool.and_eq_true, decide_eq_true_eq, members]; rfl
    | array l es => simp only [everyBool, Bool.and_eq_true, decide_eq_true_eq, elements]; rfl

instance (p : Tree ι κ α → Prop) [DecidablePred p] (t : Tree ι κ α) : Decidable (Every p t) :=
  decidable_of_iff _ (everyBool_iff p t)

/-! ## Decidable equality -/

section Equality
variable [DecidableEq ι] [DecidableEq κ] [DecidableEq α]

mutual
def beq : Tree ι κ α → Tree ι κ α → Bool
  | .leaf l a, .leaf l' a' => decide (l = l') && decide (a = a')
  | .object l ms, .object l' ms' => decide (l = l') && beqMembers ms ms'
  | .array l es, .array l' es' => decide (l = l') && beqElements es es'
  | _, _ => false
def beqMembers : List (κ × Tree ι κ α) → List (κ × Tree ι κ α) → Bool
  | [], [] => true
  | (k, t) :: ms, (k', t') :: ms' => decide (k = k') && beq t t' && beqMembers ms ms'
  | _, _ => false
def beqElements : List (Tree ι κ α) → List (Tree ι κ α) → Bool
  | [], [] => true
  | t :: es, t' :: es' => beq t t' && beqElements es es'
  | _, _ => false
end

theorem beq_iff (s t : Tree ι κ α) : beq s t = true ↔ s = t := by
  induction s using children_induction generalizing t with
  | node s ih =>
    cases s with
    | leaf l a => cases t <;> simp [beq]
    | object l ms =>
      have members : ∀ ms' : List (κ × Tree ι κ α), beqMembers ms ms' = true ↔ ms = ms' := by
        simp only [children] at ih
        induction ms with
        | nil => intro ms'; cases ms' <;> simp [beqMembers]
        | cons m rest tail =>
          intro ms'
          cases ms' with
          | nil => simp [beqMembers]
          | cons m' rest' =>
            have head := ih m.2 (by simp) m'.2
            have later := tail (fun c inside => ih c (by simp at inside ⊢; exact .inr inside)) rest'
            simp [beqMembers, head, later, Prod.ext_iff]
      cases t <;> simp [beq, members]
    | array l es =>
      have elements : ∀ es' : List (Tree ι κ α), beqElements es es' = true ↔ es = es' := by
        simp only [children] at ih
        induction es with
        | nil => intro es'; cases es' <;> simp [beqElements]
        | cons c rest tail =>
          intro es'
          cases es' with
          | nil => simp [beqElements]
          | cons c' rest' =>
            have head := ih c (by simp) c'
            have later := tail (fun d inside => ih d (by simp [inside])) rest'
            simp [beqElements, head, later]
      cases t <;> simp [beq, elements]

instance : DecidableEq (Tree ι κ α) := fun s t => decidable_of_iff _ (beq_iff s t)

end Equality

end Tree
end ConfigManager.Library
