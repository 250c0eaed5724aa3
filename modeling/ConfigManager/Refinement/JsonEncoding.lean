import ConfigManager.Reference.JsonText
import ConfigManager.Refinement.KeyPaths
import ConfigManager.Refinement.Walks

/-!
# The document that the JSON backend writes

`toJson` on a represented node is the plain tree below it with each scalar as a
JSON value, if all doubles are finite.
-/

set_option autoImplicit false

namespace ConfigManager.Refinement
open Library Source Reference

variable {a : NodeArena} {parent : Option NodeId}

/-- No infinity and no NaN. -/
def FiniteScalar : Scalar → Prop
  | .double value => value.isFinite = true
  | _ => True

def Utf8Scalar : Scalar → Prop
  | .string text => ValidUtf8 text
  | _ => True

def primitiveOf : Scalar → JsonPrimitive
  | .monostate => .null
  | .bool value => .boolean value
  | .int value => .numberInteger value
  | .double value => .numberFloat value
  | .string value => .string value

abbrev jsonOf (value : ConfigValue) : OrderedJson := Tree.mapLeaves primitiveOf value

theorem toJsonScalar_spec (s : Scalar) (name : Bytes) :
    SavesAs (toJsonScalar s name) (FiniteScalar s) (Tree.leaf () (primitiveOf s)) := by
  cases s with
  | double value =>
    simp only [toJsonScalar, Bool.not_eq_true']
    constructor
    · intro finite
      rw [if_neg (by simpa [FiniteScalar] using finite)]
      rfl
    · intro infinite
      rw [if_pos (by simpa [FiniteScalar] using infinite)]
      exact ⟨_, rfl, rfl⟩
  | monostate => exact .of_ok rfl
  | bool value => exact .of_ok rfl
  | int value => exact .of_ok rfl
  | string value => exact .of_ok rfl

/-- What the recursive call is promised to do for a child. -/
def EncodesAs (encode : ConfigNode → Bytes → Result OrderedJson) (a : NodeArena) (t : SlotTree) :
    Prop :=
  ∀ name, SavesAs (encode (ConfigNode.issue a t.label) name)
    (Tree.EveryLeaf FiniteScalar t.forget) (jsonOf t.forget)

theorem toJsonMembers_spec (encode : ConfigNode → Bytes → Result OrderedJson)
    (ms : List (Bytes × SlotTree)) (each : ∀ m ∈ ms, EncodesAs encode a m.2)
    (done : List (Bytes × OrderedJson)) :
    SavesAs
      (toJsonMembers encode (ms.map fun m => (m.1, ConfigNode.issue a m.2.label))
        (Tree.object () done))
      (∀ m ∈ ms, Tree.EveryLeaf FiniteScalar m.2.forget)
      (Tree.object () (done ++ ms.map fun m => (m.1, jsonOf m.2.forget))) := by
  induction ms generalizing done with
  | nil =>
    refine (SavesAs.of_ok ?_).congr (by simp)
    simp [toJsonMembers]
  | cons m rest ih =>
    have first := each m (by simp) m.1
    rw [List.forall_mem_cons]
    refine first.next ?_ fun encoded => ?_
    · intro e failed
      simp only [List.map_cons, toJsonMembers, failed]
    · have tail := ih (fun m' inside => each m' (by simp [inside]))
        (done ++ [(m.1, jsonOf m.2.forget)])
      rw [List.append_assoc, List.singleton_append] at tail
      simp only [List.map_cons, toJsonMembers, encoded, appendMember]
      exact tail

theorem toJsonElements_spec (encode : ConfigNode → Bytes → Result OrderedJson) (node : ConfigNode)
    (es : List SlotTree) (each : ∀ e ∈ es, EncodesAs encode a e) (i : Nat)
    (reads : ∀ j e, es[j]? = some e → node.at a (i + j) = .ok (ConfigNode.issue a e.label))
    (done : List OrderedJson) :
    SavesAs (toJsonElements encode a node (List.range' i es.length) (Tree.array () done))
      (∀ e ∈ es, Tree.EveryLeaf FiniteScalar e.forget)
      (Tree.array () (done ++ es.map fun e => jsonOf e.forget)) := by
  induction es generalizing i done with
  | nil =>
    refine (SavesAs.of_ok ?_).congr (by simp)
    simp [toJsonElements]
  | cons e rest ih =>
    have here : node.at a i = .ok (ConfigNode.issue a e.label) := reads 0 e rfl
    have first := each e (by simp) (natText i)
    rw [List.length_cons, List.range'_succ, List.forall_mem_cons]
    refine first.next ?_ fun encoded => ?_
    · intro e failed
      simp only [toJsonElements, here, failed]
    · have tail := ih (fun e' inside => each e' (by simp [inside])) (i + 1)
        (fun j e' later => by
          rw [Nat.add_assoc, Nat.add_comm 1 j]
          exact reads (j + 1) e' (by simpa using later))
        (done ++ [jsonOf e.forget])
      rw [List.append_assoc, List.singleton_append] at tail
      simp only [toJsonElements, here, encoded, pushBack]
      exact tail

/-- The walk over a represented node, with as many slots as it has levels. -/
theorem toJson_spec (t : SlotTree) (parent : Option NodeId) (rep : Rep a parent t) (slots : Nat)
    (enough : t.height < slots) : EncodesAs (toJson a slots) a t := by
  induction t using Tree.children_induction generalizing parent slots with
  | node t ih =>
    intro name
    cases slots with
    | zero => exact absurd enough (Nat.not_lt_zero _)
    | succ slots =>
      have below : ∀ c ∈ t.children, EncodesAs (toJson a slots) a c := fun c member =>
        ih c member _ (rep.children c member) slots
          (lt_of_lt_of_le (Tree.height_child_lt t c member) (Nat.le_of_lt_succ enough))
      cases t with
      | leaf l s =>
        have type : (ConfigNode.issue a l).type a = s.type := type_issue rep
        have read := scalarOf_leaf (bytes "JSON") l s rep
        have scalar := (toJsonScalar_spec s name).congr
          (Tree.everyLeaf_leaf (κ := Bytes) FiniteScalar () s).symm
        change SavesAs (toJson a (slots + 1) (ConfigNode.issue a l) name) _ _
        cases s <;> simp only [toJson, type, Scalar.type, read] <;> exact scalar
      | object l ms =>
        have type : (ConfigNode.issue a l).type a = .object := type_issue rep
        have read := members_object l ms rep
        simp only [Tree.children, List.forall_mem_map] at below
        have whole := toJsonMembers_spec (toJson a slots) ms below []
        change SavesAs (toJson a (slots + 1) (ConfigNode.issue a l) name) _ _
        simp only [toJson, type, read, jsonOf, Tree.forget_object, Tree.everyLeaf_object,
          Tree.mapLeaves_object, List.forall_mem_map, List.map_map]
        exact whole
      | array l es =>
        have type : (ConfigNode.issue a l).type a = .array := type_issue rep
        have size := size_array l es rep
        have whole := toJsonElements_spec (toJson a slots) (ConfigNode.issue a l) es below 0
          (fun j e here => by rw [Nat.zero_add]; exact at_element l es rep j e here) []
        change SavesAs (toJson a (slots + 1) (ConfigNode.issue a l) name) _ _
        simp only [toJson, type, size, List.range_eq_range', jsonOf, Tree.forget_array,
          Tree.everyLeaf_array, Tree.mapLeaves_array, List.forall_mem_map, List.map_map]
        exact whole

/-! ## The document -/

def carrier (version : VersionId) : OrderedJson :=
  Tree.leaf () (.numberUnsigned (UInt64.ofNat version.val))

/-- The version first, then the members of the root. -/
def documentOf (version : VersionId) (ms : List (Bytes × ConfigValue)) : OrderedJson :=
  Tree.object () ((kVersionKey, carrier version) :: ms.map fun m => (m.1, jsonOf m.2))

theorem addressable_versionKey : Addressable kVersionKey := by decide

theorem contains_versionKey {m : ConfigModel} {t : SlotTree} (r : Represents m t) :
    m.contains kVersionKey = true ↔ kVersionKey ∈ (contents m).keys := by
  have parsed := parse_joinKeys [kVersionKey] (by simp)
    (fun k inside => List.mem_singleton.mp inside ▸ addressable_versionKey)
  rw [r.contains_iff kVersionKey _ parsed, contents_eq r, Tree.keys_forget]
  obtain ⟨ms, shape⟩ := ConfigValue.object_of_type _ r.admissible.root
  cases t with
  | leaf l s => cases shape
  | array l es => simp at shape
  | object l ms =>
    rw [Tree.keys, ← not_iff_not, ← lookup_none_iff]
    cases found : lookupKey kVersionKey ms with
    | none => simp [keySteps, Tree.locate, Tree.descend, found]
    | some c => simp [keySteps, Tree.locate, Tree.descend, found]

/-- The document is built exactly when the root leaves the carrier's key free and all doubles
are finite. -/
theorem document_spec (config : VersionedConfig) (reached : Reachable config.model) :
    ∃ ms, contents config.model = Tree.object () ms ∧
      SavesAs (JsonInterface.document config)
        (kVersionKey ∉ (contents config.model).keys ∧
          Tree.EveryLeaf FiniteScalar (contents config.model))
        (documentOf config.version ms) := by
  obtain ⟨t, r⟩ := reachable_represents reached
  have reserved := contains_versionKey r
  obtain ⟨ns, listed, plain, below⟩ := root_members reached
  refine ⟨_, plain, ?_⟩
  unfold JsonInterface.document
  by_cases taken : config.model.contains kVersionKey = true
  · rw [if_pos taken]
    exact ⟨fun free => absurd (reserved.mp taken) free.1, fun _ => ⟨_, rfl, rfl⟩⟩
  · rw [if_neg taken]
    have free : kVersionKey ∉ (contents config.model).keys := mt reserved.mpr taken
    have each : ∀ n ∈ ns, EncodesAs
        (toJson config.model.arena config.model.arena.nodes.length) config.model.arena n.2 := by
      intro n member
      obtain ⟨⟨parent, rep⟩, height⟩ := below n member
      exact toJson_spec n.2 parent rep _ height
    have finite : (∀ n ∈ ns, Tree.EveryLeaf FiniteScalar n.2.forget) ↔
        Tree.EveryLeaf FiniteScalar (contents config.model) := by
      rw [plain, Tree.everyLeaf_object, List.forall_mem_map]
    have whole := toJsonMembers_spec _ ns each [(kVersionKey, carrier config.version)]
    rw [listed, documentOf, List.map_map]
    exact whole.congr (finite.trans (and_iff_right free).symm)

end ConfigManager.Refinement
