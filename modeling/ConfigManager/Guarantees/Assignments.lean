import ConfigManager.Guarantees.WriteOrder
import ConfigManager.Library.TreeAssignments
import ConfigManager.Refinement.PathScanning

/-!
# A config rebuilt by assignments

Every node of a config has a path, under which it is read. The scalars and empty
containers at these paths, set one after the other in a fresh model, give the
config back: nothing in it is out of reach of the path API.
-/

set_option autoImplicit false

namespace ConfigManager.Guarantees
open Library Source Reference Refinement

theorem bare_built (x : ConfigValue) : ConfigValue.KeysDistinct (Tree.bare x) := by
  cases x with
  | leaf l a => exact ConfigValue.keysDistinct_of a
  | object l ms => exact (ConfigValue.keysDistinct_object []).mpr ⟨List.nodup_nil, by simp⟩
  | array l es => exact (ConfigValue.keysDistinct_array []).mpr (by simp)

/-- A scalar or an empty container fits at every depth that a model has. -/
theorem bare_fits (depth : Nat) (x : ConfigValue) (shallow : depth ≤ kMaxTreeDepth) :
    Fits depth (Tree.bare x) := by
  refine ⟨(Tree.every_iff _ _).mpr ⟨?_, ?_⟩, ?_⟩
  · cases x <;> simp [Tree.bare, Tree.keys]
  · cases x <;> simp [Tree.bare, Tree.children]
  · cases x <;> exact shallow

/-- The paths of the nodes with their scalars and empty containers, parents first. -/
def assigned (m : ConfigModel) : List (Bytes × BuiltValue) :=
  (Tree.nodesBelow [] (contents m)).map fun node =>
    (renderPath node.1, ⟨Tree.bare node.2, bare_built node.2⟩)

/-- A node of an admissible tree has a path that parses, and is not too deep. -/
theorem node_addressed (t : ConfigValue) (ok : Admissible t) (size : t.size ≤ sizeLimit)
    (p : List PathSegment) (x : ConfigValue) (proper : p ≠ []) (found : Tree.locate p t = .ok x) :
    ConfigPath.parse (renderPath p) = .ok p ∧ p.length ≤ kMaxTreeDepth := by
  obtain ⟨names, positions⟩ := Tree.locate_steps Addressable p t x ok.keys found
  obtain ⟨ms, rfl⟩ := ConfigValue.object_of_type t ok.root
  have height := Tree.height_locate_le p _ x found
  have shallow := ok.shallow
  refine ⟨?_, by omega⟩
  cases p with
  | nil => exact absurd rfl proper
  | cons s p =>
    cases s with
    | index i => cases found
    | key name =>
      exact parse_renderPath name p names fun n inside =>
        (positions n (List.mem_cons_of_mem _ inside)).trans_le size

/-- Sets at rendered paths do to a model what the writes do to its tree. -/
theorem setAll_rebuilds (nodes : List (List PathSegment × ConfigValue))
    (addressed : ∀ node ∈ nodes, ConfigPath.parse (renderPath node.1) = .ok node.1 ∧
      node.1.length ≤ kMaxTreeDepth)
    (m : ConfigModel) (reached : Reachable m) (t : SlotTree) (rep : Represents m t)
    (new : ConfigValue) (ran : Tree.rebuild sameType nodes t.forget = .ok new) :
    ∃ m', setAll m (nodes.map fun node =>
        (renderPath node.1, ⟨Tree.bare node.2, bare_built node.2⟩)) = (.ok (), m') ∧
      Reachable m' ∧ contents m' = new := by
  induction nodes generalizing m t with
  | nil =>
    cases ran
    exact ⟨m, rfl, reached, contents_eq rep⟩
  | cons node nodes ih =>
    obtain ⟨segments, value⟩ := node
    obtain ⟨parsed, shallow⟩ := addressed _ List.mem_cons_self
    have spec := set_spec m t rep (renderPath segments) (Tree.bare value) (bare_built value)
    rw [Reference.set, parsed, outcome_ok] at spec
    simp only [if_pos (bare_fits segments.length value shallow)] at spec
    rw [Tree.rebuild] at ran
    cases written : Tree.upsert sameType segments (Tree.bare value) t.forget with
    | error f =>
      rw [written] at ran
      cases ran
    | ok next =>
      rw [written] at ran spec
      obtain ⟨success, t', rep', rfl, _⟩ := spec
      obtain ⟨m', rest, reached', same⟩ := ih
        (fun node inside => addressed node (List.mem_cons_of_mem _ inside)) _
        (.set m (renderPath segments) ⟨_, bare_built value⟩ reached) t' rep' ran
      refine ⟨m', ?_, reached', same⟩
      rw [List.map_cons, setAll]
      simp only
      generalize m.set (renderPath segments) (Tree.bare value) = ended at success rest ⊢
      obtain ⟨answer, after⟩ := ended
      cases success
      exact rest

/-- In every reachable model, with as many nodes as positions can number, each node is read at the
path that its position renders to; and setting the scalars and empty containers that are read, parents
first, in an empty model succeeds at every step and gives the same contents. -/
theorem rebuilt_by_assignments (m : ConfigModel) (reached : Reachable m)
    (size : (contents m).size ≤ sizeLimit) :
    (∀ p x, p ≠ [] → Tree.locate p (contents m) = .ok x →
      m.getValue (renderPath p) = .ok x) ∧
    (∀ w ∈ assigned m, ∃ x, m.getValue w.1 = .ok x ∧ w.2.1 = Tree.bare x) ∧
    ∃ m', setAll ConfigModel.empty (assigned m) = (.ok (), m') ∧ Reachable m' ∧
      contents m' = contents m := by
  obtain ⟨t, rep⟩ := reachable_represents reached
  have plain := contents_eq rep
  have admissible := rep.admissible
  rw [← plain] at admissible
  have reads : ∀ p x, p ≠ [] → Tree.locate p (contents m) = .ok x →
      m.getValue (renderPath p) = .ok x := by
    intro p x proper found
    obtain ⟨parsed, _⟩ := node_addressed _ admissible size p x proper found
    rw [getValue_iff m t rep _ p parsed, ← plain]
    exact found
  refine ⟨reads, fun w inside => ?_, ?_⟩
  · obtain ⟨node, member, rfl⟩ := List.mem_map.mp inside
    obtain ⟨p, path, proper, found⟩ :=
      Tree.nodes_located _ admissible.keysDistinct [] node member
    rw [List.nil_append] at path
    exact ⟨node.2, path ▸ reads p node.2 proper found, rfl⟩
  · obtain ⟨t₀, rep₀, fresh⟩ := empty_represents
    obtain ⟨ms, shape⟩ := ConfigValue.object_of_type _ admissible.root
    have builds := Tree.nodes_rebuild sameType (contents m) admissible.keysDistinct []
      t₀.forget t₀.forget rfl
    have start : Tree.replace [] (Tree.bare (contents m)) t₀.forget = t₀.forget := by
      rw [fresh, shape]
      rfl
    rw [start] at builds
    refine setAll_rebuilds _ (fun node inside => ?_) ConfigModel.empty .empty t₀ rep₀ _ builds
    obtain ⟨p, path, proper, found⟩ := Tree.nodes_located _ admissible.keysDistinct [] node inside
    rw [List.nil_append] at path
    rw [path]
    exact node_addressed _ admissible size p node.2 proper found

def nestedMember : BuiltValue :=
  ⟨ConfigValue.object.set (bytes "b") (ConfigValue.of (.bool true)), ConfigValue.set_keysDistinct _ _ _
    (bare_built ConfigValue.object) (ConfigValue.keysDistinct_of _)⟩

/-- An object with a member, rebuilt in two sets. -/
theorem nested_rebuilt :
    ∃ m', setAll ConfigModel.empty
        (assigned (ConfigModel.empty.set (bytes "a") nestedMember.1).2) = (.ok (), m') ∧
      contents m' = Tree.object () [(bytes "a", nestedMember.1)] := by
  obtain ⟨_, _, m', ran, _, same⟩ := rebuilt_by_assignments
    (ConfigModel.empty.set (bytes "a") nestedMember.1).2 (.set _ _ nestedMember .empty) (by decide +kernel)
  exact ⟨m', ran, same.trans (by decide +kernel)⟩

end ConfigManager.Guarantees
