import ConfigManager.Refinement.XmlDecoding

/-!
# What a conversion guarantees

Whatever nodes `parseValue` converts, the value is well keyed, fits at its depth,
has all its nodes counted, and can be written again. The induction is over the
node, and within a container over the list of its children.
-/

set_option autoImplicit false

namespace ConfigManager.Refinement
open Library Source Reference

/-- Induction over the children of an element. -/
@[elab_as_elim]
theorem xmlNode_induction {motive : XmlNode → Prop}
    (element : ∀ name attributes children, (∀ c ∈ children, motive c) →
      motive (.element name attributes children))
    (pcdata : ∀ value, motive (.pcdata value)) (cdata : ∀ value, motive (.cdata value))
    (other : motive .other) (node : XmlNode) : motive node :=
  match node with
  | .element name attributes children =>
      element name attributes children fun c _ =>
        xmlNode_induction element pcdata cdata other c
  | .pcdata value => pcdata value
  | .cdata value => cdata value
  | .other => other

/-- What an element was converted to, at a depth and with a budget. -/
structure ConvertedAt (depth : Nat) (budget : NodeBudget) (value : ConfigValue)
    (budget' : NodeBudget) : Prop where
  keyed : Tree.WellKeyed Addressable value
  shallow : depth + value.height ≤ kMaxTreeDepth
  limit : budget'.maxNodes = budget.maxNodes
  counted : budget'.nodes = budget.nodes + value.size
  within : budget.nodes ≤ budget.maxNodes → budget'.nodes ≤ budget.maxNodes
  writable : XmlWritable value

/-! ## Scalars -/

theorem consume_ok (budget budget' : NodeBudget) (consumed : budget.consume = (.ok (), budget')) :
    budget.nodes ≠ budget.maxNodes ∧ budget' = { budget with nodes := budget.nodes + 1 } := by
  unfold NodeBudget.consume at consumed
  split at consumed
  · simp [fail] at consumed
  · next room =>
    cases consumed
    exact ⟨room, rfl⟩

theorem parseString_ok (element : Bytes) (children : List XmlNode) (value : ConfigValue)
    (ok : parseString element children = .ok value) :
    ∃ s, value = ConfigValue.of s ∧ XmlScalar s := by
  unfold parseString at ok
  split at ok
  · cases ok
  · next text _ =>
    split at ok
    · cases ok
    · next representable =>
      cases ok
      exact ⟨_, rfl, by simpa [XmlScalar] using representable⟩

theorem parseScalar_ok (float : FloatText) (element type : Bytes) (children : List XmlNode)
    (value : ConfigValue) (ok : parseScalar float element type children = .ok value) :
    ∃ s, value = ConfigValue.of s ∧ XmlScalar s := by
  unfold parseScalar at ok
  split at ok
  · split at ok
    · cases ok
    · next text _ =>
      split at ok
      · split at ok
        · cases ok
        · cases ok
          exact ⟨_, rfl, trivial⟩
      · split at ok
        · unfold parseBoolText at ok
          split at ok
          · cases ok
            exact ⟨_, rfl, trivial⟩
          · split at ok
            · cases ok
              exact ⟨_, rfl, trivial⟩
            · cases ok
        · split at ok
          · unfold parseIntText notDecimalError at ok
            split at ok
            · cases ok
            · cases ok
            · split at ok
              · cases ok
              · cases ok
                exact ⟨_, rfl, trivial⟩
          · unfold parseDoubleText notFloatError at ok
            split at ok
            · cases ok
            · split at ok
              · cases ok
              · next finite =>
                cases ok
                rw [Bool.or_eq_true, not_or] at finite
                exact ⟨_, rfl, by simpa [XmlScalar] using finite.2⟩
  · cases ok

theorem convertedAt_scalar (depth : Nat) (budget : NodeBudget) (s : Scalar)
    (shallow : depth ≤ kMaxTreeDepth) (room : budget.nodes ≠ budget.maxNodes)
    (writable : XmlScalar s) :
    ConvertedAt depth budget (ConfigValue.of s) { budget with nodes := budget.nodes + 1 } :=
  ⟨Tree.wellKeyed_leaf _ _, shallow, rfl, rfl, fun bound => by simp only; omega,
    (xmlWritable_leaf s).mpr writable⟩

/-! ## Containers -/

/-- What the recursive call is promised to do for an element. -/
def ConvertsAt (float : FloatText) (node : XmlNode) : Prop :=
  ∀ depth budget value budget', parseValue float node depth budget = (.ok value, budget') →
    (∃ name attributes children, node = .element name attributes children) →
    ConvertedAt depth budget value budget'

/-- The members converted after `done`, in order. -/
theorem parseObjectMembers_ok (float : FloatText) (element : Bytes) (depth : Nat)
    (nodes : List XmlNode) (each : ∀ node ∈ nodes, ConvertsAt float node) (budget : NodeBudget)
    (done : List (Bytes × ConfigValue)) (value : ConfigValue) (budget' : NodeBudget)
    (ok : parseObjectMembers float element depth nodes budget (Tree.object () done) =
      (.ok value, budget'))
    (distinct : (done.map Prod.fst).Nodup) :
    ∃ new, value = Tree.object () (done ++ new) ∧ ((done ++ new).map Prod.fst).Nodup ∧
      (∀ m ∈ new, Addressable m.1 ∧ Tree.WellKeyed Addressable m.2 ∧
        depth + 1 + m.2.height ≤ kMaxTreeDepth ∧ XmlKey m.1 ∧ XmlWritable m.2) ∧
      budget'.maxNodes = budget.maxNodes ∧
      budget'.nodes = budget.nodes + (new.map fun m => m.2.size).sum ∧
      (budget.nodes ≤ budget.maxNodes → budget'.nodes ≤ budget.maxNodes) := by
  induction nodes generalizing budget done with
  | nil =>
    cases ok
    exact ⟨[], by simp, by simpa using distinct, by simp, rfl, by simp, id⟩
  | cons node rest ih =>
    have later := fun budget done => ih (fun node inside => each node (by simp [inside])) budget done
    cases node with
    | other => exact later budget done ok distinct
    | pcdata text =>
      rw [parseObjectMembers] at ok
      split at ok
      · simp [fail] at ok
      · exact later budget done ok distinct
    | cdata text =>
      rw [parseObjectMembers] at ok
      split at ok
      · simp [fail] at ok
      · exact later budget done ok distinct
    | element name attributes children =>
      rw [parseObjectMembers] at ok
      split at ok
      · simp [fail] at ok
      · next addressable =>
        split at ok
        · simp [fail] at ok
        · next valid =>
          split at ok
          · simp [fail] at ok
          · next absent =>
            rw [Bool.not_eq_true', Bool.not_eq_false] at addressable valid
            have fresh : cString name ∉ done.map Prod.fst := by
              rw [Bool.not_eq_true, ConfigValue.contains, Option.isSome_eq_false_iff,
                Option.isNone_iff_eq_none, lookup_none_iff] at absent
              exact absent
            cases first : parseValue float (.element name attributes children) (depth + 1) budget with
            | mk answer middle =>
              rw [first] at ok
              cases answer with
              | error e => simp at ok
              | ok child =>
                simp only [ConfigValue.set_of_absent done _ child fresh] at ok
                have here := each _ (by simp) (depth + 1) budget child middle first ⟨_, _, _, rfl⟩
                obtain ⟨new, shape, nodup, good, limit, counted, within⟩ := later middle _ ok
                  (nodup_append_key done _ child distinct fresh)
                rw [List.append_assoc, List.singleton_append] at shape nodup
                refine ⟨(cString name, child) :: new, shape, nodup, ?_, ?_, ?_, ?_⟩
                · exact List.forall_mem_cons.mpr
                    ⟨⟨addressable, here.keyed, here.shallow, valid, here.writable⟩, good⟩
                · rw [limit, here.limit]
                · rw [counted, here.counted, List.map_cons, List.sum_cons, Nat.add_assoc]
                · intro bound
                  rw [here.limit] at within
                  exact within (here.within bound)

theorem parseArrayItems_ok (float : FloatText) (element : Bytes) (depth : Nat)
    (nodes : List XmlNode) (each : ∀ node ∈ nodes, ConvertsAt float node) (budget : NodeBudget)
    (done : List ConfigValue) (value : ConfigValue) (budget' : NodeBudget)
    (ok : parseArrayItems float element depth nodes budget (Tree.array () done) =
      (.ok value, budget')) :
    ∃ new, value = Tree.array () (done ++ new) ∧
      (∀ e ∈ new, Tree.WellKeyed Addressable e ∧ depth + 1 + e.height ≤ kMaxTreeDepth ∧
        XmlWritable e) ∧
      budget'.maxNodes = budget.maxNodes ∧
      budget'.nodes = budget.nodes + (new.map Tree.size).sum ∧
      (budget.nodes ≤ budget.maxNodes → budget'.nodes ≤ budget.maxNodes) := by
  induction nodes generalizing budget done with
  | nil =>
    cases ok
    exact ⟨[], by simp, by simp, rfl, by simp, id⟩
  | cons node rest ih =>
    have later := fun budget done => ih (fun node inside => each node (by simp [inside])) budget done
    cases node with
    | other => exact later budget done ok
    | pcdata text =>
      rw [parseArrayItems] at ok
      split at ok
      · simp [fail] at ok
      · exact later budget done ok
    | cdata text =>
      rw [parseArrayItems] at ok
      split at ok
      · simp [fail] at ok
      · exact later budget done ok
    | element name attributes children =>
      rw [parseArrayItems] at ok
      split at ok
      · simp [fail] at ok
      · cases first : parseValue float (.element name attributes children) (depth + 1) budget with
        | mk answer middle =>
          rw [first] at ok
          cases answer with
          | error e => simp at ok
          | ok child =>
            simp only [ConfigValue.push] at ok
            have here := each _ (by simp) (depth + 1) budget child middle first ⟨_, _, _, rfl⟩
            obtain ⟨new, shape, good, limit, counted, within⟩ := later middle _ ok
            rw [List.append_assoc, List.singleton_append] at shape
            refine ⟨child :: new, shape, ?_, ?_, ?_, ?_⟩
            · exact List.forall_mem_cons.mpr ⟨⟨here.keyed, here.shallow, here.writable⟩, good⟩
            · rw [limit, here.limit]
            · rw [counted, here.counted, List.map_cons, List.sum_cons, Nat.add_assoc]
            · intro bound
              rw [here.limit] at within
              exact within (here.within bound)

/-- An object whose members were converted one level deeper. -/
theorem convertedAt_object (float : FloatText) (element : Bytes) (depth : Nat)
    (nodes : List XmlNode) (each : ∀ node ∈ nodes, ConvertsAt float node) (budget : NodeBudget)
    (shallow : depth ≤ kMaxTreeDepth) (room : budget.nodes ≠ budget.maxNodes) (value : ConfigValue)
    (budget' : NodeBudget)
    (ok : parseObjectMembers float element depth nodes { budget with nodes := budget.nodes + 1 }
      ConfigValue.object = (.ok value, budget')) :
    ConvertedAt depth budget value budget' := by
  obtain ⟨new, shape, distinct, good, limit, counted, within⟩ := parseObjectMembers_ok float element
    depth nodes each _ [] value budget' ok (by simp)
  rw [List.nil_append] at shape distinct
  subst shape
  refine ⟨?_, ?_, limit, ?_, fun bound => within (by simp only; omega), ?_⟩
  · rw [Tree.wellKeyed_iff]
    simp only [Tree.keys, Tree.children, List.forall_mem_map]
    exact ⟨⟨distinct, fun m inside => (good m inside).1⟩, fun m inside => (good m inside).2.1⟩
  · apply shallow_of_children _ depth shallow
    simp only [Tree.children, List.forall_mem_map]
    exact fun m inside => (good m inside).2.2.1
  · rw [counted, Tree.size_object, Nat.add_assoc, Nat.add_comm 1]
  · rw [xmlWritable_object]
    exact fun m inside => (good m inside).2.2.2

theorem convertedAt_array (float : FloatText) (element : Bytes) (depth : Nat)
    (nodes : List XmlNode) (each : ∀ node ∈ nodes, ConvertsAt float node) (budget : NodeBudget)
    (shallow : depth ≤ kMaxTreeDepth) (room : budget.nodes ≠ budget.maxNodes) (value : ConfigValue)
    (budget' : NodeBudget)
    (ok : parseArrayItems float element depth nodes { budget with nodes := budget.nodes + 1 }
      ConfigValue.array = (.ok value, budget')) :
    ConvertedAt depth budget value budget' := by
  obtain ⟨new, shape, good, limit, counted, within⟩ := parseArrayItems_ok float element
    depth nodes each _ [] value budget' ok
  rw [List.nil_append] at shape
  subst shape
  refine ⟨?_, ?_, limit, ?_, fun bound => within (by simp only; omega), ?_⟩
  · rw [Tree.wellKeyed_iff]
    exact ⟨⟨List.nodup_nil, by simp [Tree.keys]⟩, fun e inside => (good e inside).1⟩
  · exact shallow_of_children _ depth shallow fun e inside => (good e inside).2.1
  · rw [counted, Tree.size_array, Nat.add_assoc, Nat.add_comm 1]
  · rw [xmlWritable_array]
    exact fun e inside => (good e inside).2.2

/-- Every element that `parseValue` accepts. -/
theorem parseValue_ok (float : FloatText) (node : XmlNode) : ConvertsAt float node := by
  induction node using xmlNode_induction with
  | pcdata text => intro depth budget value budget' _ ⟨_, _, _, shape⟩; cases shape
  | cdata text => intro depth budget value budget' _ ⟨_, _, _, shape⟩; cases shape
  | other => intro depth budget value budget' _ ⟨_, _, _, shape⟩; cases shape
  | element name attributes children ih =>
    intro depth budget value budget' ok _
    rw [parseValue] at ok
    split at ok
    · simp [fail] at ok
    · next depthOk =>
      have shallow := Nat.le_of_not_lt depthOk
      split at ok
      · simp at ok
      · next middle consumed =>
        obtain ⟨room, rfl⟩ := consume_ok _ _ consumed
        split at ok
        · simp at ok
        · split at ok
          · exact convertedAt_object float _ depth children ih budget shallow room value budget' ok
          · rw [Prod.mk.injEq] at ok
            obtain ⟨parsed, rfl⟩ := ok
            obtain ⟨s, rfl, writable⟩ := parseString_ok _ _ _ parsed
            exact convertedAt_scalar depth budget s shallow room writable
        · split at ok
          · exact convertedAt_object float _ depth children ih budget shallow room value budget' ok
          · split at ok
            · exact convertedAt_array float _ depth children ih budget shallow room value budget' ok
            · rw [Prod.mk.injEq] at ok
              obtain ⟨parsed, rfl⟩ := ok
              obtain ⟨s, rfl, writable⟩ := parseScalar_ok _ _ _ _ _ parsed
              exact convertedAt_scalar depth budget s shallow room writable

/-! ## The document -/

/-- The root that a document was converted to, before the model adopts it. -/
theorem root_converted (float : FloatText) (limits : LoadLimits) (element : Bytes)
    (nodes : List XmlNode) (budget budget' : NodeBudget) (root : ConfigValue)
    (consumed : NodeBudget.consume { maxNodes := limits.maxNodes } = (.ok (), budget))
    (ok : parseObjectMembers float element 0 nodes budget ConfigValue.object =
      (.ok root, budget')) :
    Admissible root ∧ XmlWritable root ∧ root.size ≤ limits.maxNodes := by
  obtain ⟨room, rfl⟩ := consume_ok _ _ consumed
  have converted := convertedAt_object float element 0 nodes
    (fun node _ => parseValue_ok float node) { maxNodes := limits.maxNodes } (Nat.zero_le _) room
    root budget' ok
  obtain ⟨new, shape, _⟩ := parseObjectMembers_ok float element 0 nodes
    (fun node _ => parseValue_ok float node) _ [] root budget' ok (by simp)
  have counted := converted.counted
  have within := converted.within (Nat.zero_le _)
  have shallow := converted.shallow
  refine ⟨⟨by rw [shape]; rfl, converted.keyed, ?_⟩, converted.writable, ?_⟩
  · omega
  · simp only at counted within
    omega

/-- Whatever `convert` accepts can be written again and is within the node limit. -/
theorem convert_ok (float : FloatText) (limits : LoadLimits) (nodes : List XmlNode)
    (c : VersionedConfig) (ok : XmlInterface.convert float limits nodes = .ok c) :
    XmlWritable (contents c.model) ∧ (contents c.model).size ≤ limits.maxNodes ∧
      Reachable c.model := by
  unfold XmlInterface.convert at ok
  split at ok
  · cases ok
  · simp only at ok
    split at ok
    · cases ok
    · split at ok
      · cases ok
      · cases ok
      · split at ok
        · cases ok
        · next budget consumed =>
          split at ok
          · cases ok
          · next root budget' members =>
            obtain ⟨admissible, writable, small⟩ :=
              root_converted float limits _ _ budget budget' root consumed members
            obtain ⟨m, made, same⟩ := fromValue_ok root admissible
            rw [made] at ok
            cases ok
            rw [same]
            exact ⟨writable, small, .fromValue ⟨root, admissible.keysDistinct⟩ m made⟩

end ConfigManager.Refinement
