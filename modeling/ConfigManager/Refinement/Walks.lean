import ConfigManager.Refinement.Handles
import ConfigManager.Library.TreeLeaves
import ConfigManager.Source.Boundary

/-!
# Walking a represented tree by handles

What the encoders of both backends read at a node, by the kind of node, and how
the answers for the parts make the answer for the whole.
-/

set_option autoImplicit false

namespace ConfigManager.Refinement
open Library Source Reference

variable {a : NodeArena} {parent : Option NodeId}

theorem type_issue {t : SlotTree} (rep : Rep a parent t) :
    (ConfigNode.issue a t.label).type a = ConfigValue.type t.forget := rep.type

theorem members_object (l : NodeId) (ms : List (Bytes × SlotTree))
    (rep : Rep a parent (.object l ms)) :
    (ConfigNode.issue a l).members a =
      .ok (ms.map fun m => (m.1, ConfigNode.issue a m.2.label)) := by
  have live := findLive_valid a _ (issue_valid a l rep.alive)
  have type : (a.get l).type = .object := rep.record.1
  have members : (a.get l).members = ms.map fun m => (m.1, m.2.label) := rep.record.2.2.1
  unfold ConfigNode.members
  simp only [live]
  simp only [ConfigNode.issue, type, members, ne_eq, not_true_eq_false, if_false, List.map_map,
    Function.comp_def]

theorem size_object (l : NodeId) (ms : List (Bytes × SlotTree))
    (rep : Rep a parent (.object l ms)) : (ConfigNode.issue a l).size a = ms.length := by
  have type : (a.get l).type = .object := rep.record.1
  have members : (a.get l).members = ms.map fun m => (m.1, m.2.label) := rep.record.2.2.1
  simp only [ConfigNode.size, ConfigNode.issue, type, members, List.length_map]

theorem size_array (l : NodeId) (es : List SlotTree) (rep : Rep a parent (.array l es)) :
    (ConfigNode.issue a l).size a = es.length := by
  have type : (a.get l).type = .array := rep.record.1
  have elements : (a.get l).elements = es.map Tree.label := rep.record.2.2.2
  simp only [ConfigNode.size, ConfigNode.issue, type, elements, List.length_map]

theorem at_element (l : NodeId) (es : List SlotTree) (rep : Rep a parent (.array l es)) (i : Nat)
    (e : SlotTree) (here : es[i]? = some e) :
    (ConfigNode.issue a l).at a i = .ok (ConfigNode.issue a e.label) := by
  have spec := at_spec a parent _ rep i
  simp only [Tree.descend, here] at spec
  exact spec

theorem scalarOf_leaf (format : Bytes) (l : NodeId) (s : Scalar) (rep : Rep a parent (.leaf l s)) :
    scalarOf format a (ConfigNode.issue a l) = .ok s := by
  have live := findLive_valid a _ (issue_valid a l rep.alive)
  have type : (a.get l).type = s.type := rep.record.1
  have scalar : (a.get l).scalar = s := rep.record.2.1
  have plain : ¬ (s.type = .object ∨ s.type = .array) := by cases s <;> simp [Scalar.type]
  unfold scalarOf ConfigNode.scalarValue
  simp only [live]
  simp only [ConfigNode.issue, ConfigNode.type, type, scalar, if_neg plain, if_true]

/-- What an encoder finds at the root of a reachable model. -/
theorem root_members {m : ConfigModel} (reached : Reachable m) :
    ∃ ns : List (Bytes × SlotTree),
      m.root.members m.arena = .ok (ns.map fun n => (n.1, ConfigNode.issue m.arena n.2.label)) ∧
      contents m = Tree.object () (ns.map fun n => (n.1, n.2.forget)) ∧
      ∀ n ∈ ns, (∃ parent, Rep m.arena parent n.2) ∧ n.2.height < m.arena.nodes.length := by
  obtain ⟨t, r⟩ := reachable_represents reached
  obtain ⟨ms, shape⟩ := ConfigValue.object_of_type _ r.admissible.root
  have plain := contents_eq r
  cases t with
  | leaf l s => cases shape
  | array l es => simp at shape
  | object l ns =>
    have root : m.root = ConfigNode.issue m.arena l := by
      rw [ConfigModel.root, ← r.label]
      rfl
    refine ⟨ns, ?_, by rw [plain, Tree.forget_object], fun n member => ?_⟩
    · rw [root]
      exact members_object l ns r.rep
    · have child : n.2 ∈ Tree.children (.object l ns) := List.mem_map_of_mem member
      exact ⟨⟨_, r.rep.children n.2 child⟩,
        lt_trans (Tree.height_child_lt _ n.2 child) (r.rep.height_lt r.distinct)⟩

/-! ## Building up a container -/

/-- A container of children that fit one level deeper fits at its depth. -/
theorem shallow_of_children (value : ConfigValue) (depth : Nat) (here : depth ≤ kMaxTreeDepth)
    (below : ∀ c ∈ value.children, depth + 1 + c.height ≤ kMaxTreeDepth) :
    depth + value.height ≤ kMaxTreeDepth :=
  (shallow_iff_children value depth).mpr ⟨here, below⟩

theorem nodup_append_key (done : List (Bytes × ConfigValue)) (name : Bytes) (value : ConfigValue)
    (distinct : (done.map Prod.fst).Nodup) (fresh : name ∉ done.map Prod.fst) :
    ((done ++ [(name, value)]).map Prod.fst).Nodup := by
  rw [List.map_append, List.nodup_append]
  refine ⟨distinct, by simp, ?_⟩
  rintro key inside _ last rfl
  simp only [List.map_cons, List.map_nil, List.mem_singleton] at last
  exact fresh (last ▸ inside)

/-! ## Answers of an encoder -/

/-- The value where the condition holds, `SerializationError` where it does not. -/
structure SavesAs {α : Type} (answer : Result α) (condition : Prop) (value : α) : Prop where
  saved : condition → answer = .ok value
  refused : ¬ condition → ∃ e, answer = .error e ∧ e.code = .serializationError

theorem SavesAs.congr {α : Type} {answer : Result α} {condition condition' : Prop} {value : α}
    (saves : SavesAs answer condition value) (same : condition ↔ condition') :
    SavesAs answer condition' value :=
  ⟨fun holds => saves.saved (same.mpr holds), fun fails => saves.refused (mt same.mp fails)⟩

theorem SavesAs.of_ok {α : Type} {answer : Result α} {value : α} (same : answer = .ok value) :
    SavesAs answer True value :=
  ⟨fun _ => same, fun fails => absurd trivial fails⟩

theorem SavesAs.of_saved {α : Type} {answer : Result α} {condition : Prop} {value x : α}
    (saves : SavesAs answer condition value) (made : answer = .ok x) : condition ∧ x = value := by
  by_cases holds : condition
  · rw [saves.saved holds, Except.ok.injEq] at made
    exact ⟨holds, made.symm⟩
  · obtain ⟨e, failed, _⟩ := saves.refused holds
    rw [failed] at made
    cases made

/-- A part that fails fails the whole; otherwise the rest decides. -/
theorem SavesAs.next {α β : Type} {part : Result α} {answer : Result β} {first later : Prop}
    {x : α} {value : β} (saves : SavesAs part first x)
    (failing : ∀ e, part = .error e → answer = .error e)
    (rest : part = .ok x → SavesAs answer later value) : SavesAs answer (first ∧ later) value := by
  refine ⟨fun ⟨here, there⟩ => (rest (saves.saved here)).saved there, fun fails => ?_⟩
  by_cases here : first
  · exact (rest (saves.saved here)).refused fun there => fails ⟨here, there⟩
  · obtain ⟨e, failed, code⟩ := saves.refused here
    exact ⟨e, failing e failed, code⟩

end ConfigManager.Refinement
