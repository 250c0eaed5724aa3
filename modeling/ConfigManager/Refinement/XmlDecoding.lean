import ConfigManager.Refinement.XmlEncoding

/-!
# Conversion undoes the encoding

Whatever whitespace the written elements gained, `parseValue` on the element of a
value gives the value back and counts its nodes. The induction is over the value,
and within a container over the respaced list of its child elements.
-/

set_option autoImplicit false

namespace ConfigManager.Refinement
open Library Source Reference

/-! ## Scalars -/

theorem takeWhile_natText (n : Nat) : (natText n).takeWhile isDigit = natText n :=
  List.takeWhile_eq_self_iff.mpr (natText_isDigit n)

theorem dropWhile_natText (n : Nat) : (natText n).dropWhile isDigit = [] :=
  List.dropWhile_eq_nil_iff.mpr (natText_isDigit n)

theorem natText_head (n : Nat) : (natText n).head? ≠ some 45 := by
  intro minus
  have digit := natText_isDigit n 45 (List.mem_of_mem_head? minus)
  exact absurd digit (by decide)

/-- Reading a rendered integer gives the integer back. -/
theorem fromCharsInt_intText (value : Int64) : fromCharsInt (intText value) = (.ok value, []) := by
  have low := Int64.le_toInt value
  have high := Int64.toInt_lt value
  have some : (natText value.toInt.natAbs).isEmpty = false :=
    List.isEmpty_eq_false_iff.mpr (natText_ne_nil _)
  unfold fromCharsInt intText
  by_cases negative : value.toInt < 0
  · have same : -(value.toInt.natAbs : Int) = value.toInt := by omega
    rw [if_pos negative]
    simp only [List.head?_cons, if_true, List.drop_succ_cons, List.drop_zero,
      takeWhile_natText, dropWhile_natText, digitsValue_natText, some, Bool.false_eq_true,
      if_false, same]
    rw [if_neg (by omega), Int64.ofInt_toInt]
  · have same : (value.toInt.natAbs : Int) = value.toInt := by omega
    rw [if_neg negative]
    simp only [natText_head, if_false, Bool.false_eq_true,
      takeWhile_natText, dropWhile_natText, digitsValue_natText, some, same]
    rw [if_neg (by omega), Int64.ofInt_toInt]

theorem parseVersionCarrier_text (version : VersionId) :
    parseVersionCarrier (versionText version) = .ok version := by
  have some : (natText version.val).isEmpty = false :=
    List.isEmpty_eq_false_iff.mpr (natText_ne_nil _)
  have digits : (natText version.val).all isDigit = true :=
    List.all_eq_true.mpr (natText_isDigit _)
  unfold parseVersionCarrier versionText
  simp only [some, digits, digitsValue_natText, Bool.not_true, Bool.false_eq_true, if_false]
  rw [dif_pos version.isLt]

theorem typeAttribute_one (element type : Bytes) (plain : 0 ∉ type) :
    typeAttribute element [(kTypeAttr, type)] none = .ok (some type) := by
  have key : cString kTypeAttr = kTypeAttr := by decide
  simp only [typeAttribute, key, cString_eq type plain, if_true, Option.isSome_none,
    Bool.false_eq_true, if_false]

theorem scalarText_one (element text : Bytes) (plain : 0 ∉ text) :
    scalarText element [.pcdata text] [] = .ok text := by
  simp only [scalarText, cString_eq text plain, List.nil_append]

theorem consume_spec (budget : NodeBudget) (left : budget.nodes < budget.maxNodes) :
    budget.consume = (.ok (), { budget with nodes := budget.nodes + 1 }) := by
  unfold NodeBudget.consume
  rw [if_neg (Nat.ne_of_lt left)]

theorem scalarChildren_flat (float : FloatText) (s : Scalar) :
    hasElementChildren (scalarChildren float s) = false := by
  cases s with
  | string value =>
    simp only [scalarChildren]
    split <;> rfl
  | monostate => rfl
  | bool value => rfl
  | int value => rfl
  | double value => rfl

/-- The element of a scalar reads back as the scalar. -/
theorem parseValue_scalar (float : FloatText) (floats : ExactFloats float) (name : Bytes)
    (s : Scalar) (writable : XmlScalar s) (depth : Nat) (budget : NodeBudget)
    (shallow : depth ≤ kMaxTreeDepth) (left : budget.nodes < budget.maxNodes) :
    parseValue float (.element name (scalarAttributes s) (scalarChildren float s)) depth budget =
      (.ok (ConfigValue.of s), { budget with nodes := budget.nodes + 1 }) := by
  rw [parseValue, if_neg (not_lt_of_ge shallow), consume_spec budget left]
  simp only
  cases s with
  | monostate =>
    rw [scalarAttributes, typeAttribute_one _ _ (by decide)]
    rfl
  | bool value =>
    rw [scalarAttributes, typeAttribute_one _ _ (by decide)]
    cases value <;> rfl
  | int value =>
    rw [scalarAttributes, typeAttribute_one _ _ (by decide), scalarChildren]
    have text := scalarText_one (cString name) (intText value) (intText_plain value)
    have read : parseScalar float (cString name) (bytes "int") [.pcdata (intText value)] =
        .ok (ConfigValue.of (.int value)) := by
      unfold parseScalar
      rw [if_pos (by decide), text]
      simp only [if_neg (show bytes "int" ≠ bytes "null" by decide),
        if_neg (show bytes "int" ≠ bytes "bool" by decide), if_true, parseIntText,
        fromCharsInt_intText, List.isEmpty_nil, Bool.not_true, Bool.false_eq_true, if_false]
    simp only [if_neg (show bytes "int" ≠ bytes "object" by decide),
      if_neg (show bytes "int" ≠ bytes "array" by decide), read]
  | double value =>
    rw [scalarAttributes, typeAttribute_one _ _ (by decide), scalarChildren]
    have finite : value.isFinite = true := writable
    have text := scalarText_one (cString name) _ (floats.printable value finite)
    have read : parseScalar float (cString name) (bytes "double")
        [.pcdata (float.toChars value)] = .ok (ConfigValue.of (.double value)) := by
      unfold parseScalar
      rw [if_pos (by decide), text]
      simp only [if_neg (show bytes "double" ≠ bytes "null" by decide),
        if_neg (show bytes "double" ≠ bytes "bool" by decide),
        if_neg (show bytes "double" ≠ bytes "int" by decide), parseDoubleText,
        floats.exact value finite, List.isEmpty_nil, Bool.not_true, finite, Bool.or_self,
        Bool.false_eq_true, if_false]
    simp only [if_neg (show bytes "double" ≠ bytes "object" by decide),
      if_neg (show bytes "double" ≠ bytes "array" by decide), read]
  | string value =>
    have representable : isXmlRepresentable value = true := writable
    have flat := scalarChildren_flat float (.string value)
    have text : scalarText (cString name) (scalarChildren float (.string value)) [] = .ok value := by
      cases value with
      | nil => rfl
      | cons c rest =>
        exact scalarText_one _ _ (scan_plain _ (by decide) _ true representable)
    simp only [scalarAttributes, typeAttribute, flat, Bool.false_eq_true, if_false, parseString,
      text, representable, Bool.not_true]

/-! ## Elements behind respaced text -/

/-- A blank text stays blank as a NUL-terminated string. -/
theorem cString_blank (text : Bytes) (blank : isXmlWhitespace text = true) :
    isXmlWhitespace (cString text) = true := by
  unfold isXmlWhitespace at blank ⊢
  rw [List.all_eq_true] at blank ⊢
  exact fun c inside => blank c ((List.takeWhile_sublist _).mem inside)

theorem elementOf_shape (float : FloatText) (name : Bytes) (x : ConfigValue) :
    ∃ attributes children, elementOf float name x = .element name attributes children := by
  cases x <;> exact ⟨_, _, rfl⟩

theorem reformatted_element {name : Bytes} {attributes : List (Bytes × Bytes)}
    {children : List XmlNode} {node' : XmlNode}
    (same : Reformatted (.element name attributes children) node') :
    ∃ children', node' = .element name attributes children' ∧
      (hasElementChildren children = false ∧ children' = children ∨
        hasElementChildren children = true ∧ Respaced Reformatted children children') := by
  cases same with
  | flat _ _ _ plain => exact ⟨children, rfl, .inl ⟨plain, rfl⟩⟩
  | nested _ _ _ children' container spaced => exact ⟨children', rfl, .inr ⟨container, spaced⟩⟩

/-- Whitespace hides no child element. -/
theorem respaced_elements {nodes nodes' : List XmlNode} (spaced : Respaced Reformatted nodes nodes')
    (container : hasElementChildren nodes = true) : hasElementChildren nodes' = true := by
  induction spaced with
  | done => exact container
  | space text blank nodes nodes' rest ih => exact ih container
  | node node node' here nodes nodes' rest ih =>
    cases here with
    | text value => exact ih container
    | flat => rfl
    | nested => rfl

/-- What the conversion of a written element gives, in whatever whitespace. -/
def Converts (float : FloatText) (x : ConfigValue) : Prop :=
  ∀ (name : Bytes) (node' : XmlNode) (depth : Nat) (budget : NodeBudget),
    Reformatted (elementOf float name x) node' → depth + x.height ≤ kMaxTreeDepth →
    budget.nodes + x.size ≤ budget.maxNodes →
    parseValue float node' depth budget =
      (.ok x, { budget with nodes := budget.nodes + x.size })

/-- The members of an object are converted in order. -/
theorem members_convert (float : FloatText) (element : Bytes) (depth : Nat)
    (ms : List (Bytes × ConfigValue)) (nodes' : List XmlNode)
    (spaced : Respaced Reformatted (memberElements float ms) nodes')
    (each : ∀ m ∈ ms, Converts float m.2) (done : List (Bytes × ConfigValue))
    (distinct : ((done ++ ms).map Prod.fst).Nodup)
    (names : ∀ m ∈ ms, Addressable m.1 ∧ XmlKey m.1)
    (shallow : ∀ m ∈ ms, depth + 1 + m.2.height ≤ kMaxTreeDepth) (budget : NodeBudget)
    (left : budget.nodes + (ms.map fun m => m.2.size).sum ≤ budget.maxNodes) :
    parseObjectMembers float element depth nodes' budget (Tree.object () done) =
      (.ok (Tree.object () (done ++ ms)),
        { budget with nodes := budget.nodes + (ms.map fun m => m.2.size).sum }) := by
  generalize written : memberElements float ms = nodes at spaced
  induction spaced generalizing ms done budget with
  | done =>
    cases ms with
    | nil => simp [parseObjectMembers]
    | cons m rest => cases written
  | space text blank nodes nodes' rest ih =>
    rw [parseObjectMembers, cString_blank text blank, if_neg (by simp)]
    exact ih ms each done distinct names shallow budget left written
  | node node node' here nodes nodes' rest ih =>
    cases ms with
    | nil => cases written
    | cons m ms =>
      obtain ⟨key, x⟩ := m
      simp only [memberElements, List.cons.injEq] at written
      obtain ⟨rfl, later⟩ := written
      simp only [List.map_cons, List.sum_cons] at left ⊢
      obtain ⟨addressable, valid⟩ := names (key, x) (by simp)
      have fresh : key ∉ done.map Prod.fst := by
        rw [List.map_append, List.nodup_append] at distinct
        exact fun early => distinct.2.2 key early key (by simp) rfl
      have converted := each (key, x) (by simp) key node' (depth + 1) budget here
        (shallow (key, x) (by simp)) (Nat.le_trans (by simp only; omega) left)
      obtain ⟨attributes, children, shape⟩ := elementOf_shape float key x
      rw [shape] at here
      obtain ⟨children', rfl, _⟩ := reformatted_element here
      have accepted : isPathAddressable key = true := addressable
      have named : isValidElementName key = true := valid
      have absent : ConfigValue.contains (Tree.object () done) key = false := by
        simp [ConfigValue.contains, (lookup_none_iff key done).mpr fresh]
      have tail := ih ms (fun m' inside => each m' (by simp [inside])) (done ++ [(key, x)])
        (by simpa using distinct) (fun m' inside => names m' (by simp [inside]))
        (fun m' inside => shallow m' (by simp [inside]))
        { budget with nodes := budget.nodes + x.size } (by simp only; omega) later
      rw [parseObjectMembers]
      simp only [cString_name key named, accepted, named, absent, Bool.not_true,
        Bool.false_eq_true, if_false, converted, ConfigValue.set_of_absent done key x fresh]
      rw [tail]
      simp only [List.append_assoc, List.singleton_append, Nat.add_assoc]

/-- The items of an array are converted in order. -/
theorem items_convert (float : FloatText) (element : Bytes) (depth : Nat) (es : List ConfigValue)
    (nodes' : List XmlNode) (spaced : Respaced Reformatted (itemElements float es) nodes')
    (each : ∀ e ∈ es, Converts float e) (done : List ConfigValue)
    (shallow : ∀ e ∈ es, depth + 1 + e.height ≤ kMaxTreeDepth) (budget : NodeBudget)
    (left : budget.nodes + (es.map Tree.size).sum ≤ budget.maxNodes) :
    parseArrayItems float element depth nodes' budget (Tree.array () done) =
      (.ok (Tree.array () (done ++ es)),
        { budget with nodes := budget.nodes + (es.map Tree.size).sum }) := by
  generalize written : itemElements float es = nodes at spaced
  induction spaced generalizing es done budget with
  | done =>
    cases es with
    | nil => simp [parseArrayItems]
    | cons e rest => cases written
  | space text blank nodes nodes' rest ih =>
    rw [parseArrayItems, cString_blank text blank, if_neg (by simp)]
    exact ih es each done shallow budget left written
  | node node node' here nodes nodes' rest ih =>
    cases es with
    | nil => cases written
    | cons e es =>
      simp only [itemElements, List.cons.injEq] at written
      obtain ⟨rfl, later⟩ := written
      simp only [List.map_cons, List.sum_cons] at left ⊢
      have converted := each e (by simp) kItemName node' (depth + 1) budget here
        (shallow e (by simp)) (Nat.le_trans (by omega) left)
      obtain ⟨attributes, children, shape⟩ := elementOf_shape float kItemName e
      rw [shape] at here
      obtain ⟨children', rfl, _⟩ := reformatted_element here
      have tail := ih es (fun e' inside => each e' (by simp [inside])) (done ++ [e])
        (fun e' inside => shallow e' (by simp [inside]))
        { budget with nodes := budget.nodes + e.size } (by simp only; omega) later
      rw [parseArrayItems, cString_name kItemName kItemName_valid, if_neg (by simp), converted]
      simp only [ConfigValue.push]
      rw [tail]
      simp only [List.append_assoc, List.singleton_append, Nat.add_assoc]

/-- Members and items are elements, so a container is either empty or respaced. -/
theorem memberElements_container (float : FloatText) (m : Bytes × ConfigValue)
    (rest : List (Bytes × ConfigValue)) :
    hasElementChildren (memberElements float (m :: rest)) = true := by
  obtain ⟨key, x⟩ := m
  obtain ⟨attributes, children, shape⟩ := elementOf_shape float key x
  rw [memberElements, shape]
  rfl

theorem memberElements_flat (float : FloatText) (ms : List (Bytes × ConfigValue))
    (flat : hasElementChildren (memberElements float ms) = false) : memberElements float ms = [] := by
  cases ms with
  | nil => rfl
  | cons m rest =>
    rw [memberElements_container] at flat
    cases flat

theorem itemElements_flat (float : FloatText) (es : List ConfigValue)
    (flat : hasElementChildren (itemElements float es) = false) : itemElements float es = [] := by
  cases es with
  | nil => rfl
  | cons e rest =>
    obtain ⟨attributes, children, shape⟩ := elementOf_shape float kItemName e
    rw [itemElements, shape] at flat
    cases flat

/-- Where children without elements are none at all, all that parsing adds is whitespace. -/
theorem children_respaced (children children' : List XmlNode)
    (flat : hasElementChildren children = false → children = [])
    (cases_ : hasElementChildren children = false ∧ children' = children ∨
      hasElementChildren children = true ∧ Respaced Reformatted children children') :
    Respaced Reformatted children children' := by
  rcases cases_ with ⟨empty, rfl⟩ | ⟨_, spaced⟩
  · rw [flat empty]
    exact .done
  · exact spaced

theorem value_converts (float : FloatText) (floats : ExactFloats float) (x : ConfigValue)
    (writable : XmlWritable x) (keyed : Tree.WellKeyed Addressable x) : Converts float x := by
  induction x using Tree.children_induction with
  | node x ih =>
    intro name node' depth budget same shallow left
    obtain ⟨⟨distinct, names⟩, below⟩ := (Tree.wellKeyed_iff x).mp keyed
    have positive := Tree.size_pos x
    have consumed := consume_spec budget (by omega)
    cases x with
    | leaf l s =>
      obtain ⟨children', rfl, flat | nested⟩ := reformatted_element same
      · rw [flat.2]
        exact parseValue_scalar float floats name s ((xmlWritable_leaf s).mp writable) depth budget
          (by omega) (by omega)
      · rw [scalarChildren_flat] at nested
        cases nested.1
    | object l ms =>
      rw [xmlWritable_object] at writable
      obtain ⟨children', rfl, shape⟩ := reformatted_element same
      have spaced := children_respaced _ _ (memberElements_flat float ms) shape
      have deeper : ∀ m ∈ ms, depth + 1 + m.2.height ≤ kMaxTreeDepth := fun m inside => by
        have lower := Tree.height_child_lt (Tree.object l ms) m.2 (List.mem_map_of_mem inside)
        omega
      have total : Tree.size (Tree.object l ms) =
          (ms.map fun m : Bytes × ConfigValue => Tree.size m.2).sum + 1 := by
        rw [Tree.size_eq, Tree.children, List.map_map]
        rfl
      rw [total] at left ⊢
      simp only [Tree.children, List.forall_mem_map] at ih below
      have members := members_convert float (cString name) depth ms children' spaced
        (fun m inside => ih m inside (writable m inside).2 (below m inside)) []
        (by simpa [Tree.keys] using distinct)
        (fun m inside => ⟨names m.1 (List.mem_map_of_mem inside), (writable m inside).1⟩) deeper
        { budget with nodes := budget.nodes + 1 } (by simp only; omega)
      change parseObjectMembers float (cString name) depth children' _ ConfigValue.object = _
        at members
      rw [parseValue, if_neg (by omega), consumed]
      cases ms with
      | nil =>
        simp only [List.isEmpty_nil, if_true, typeAttribute_one (cString name) (bytes "object")
          (by decide), members]
        rfl
      | cons m rest =>
        have container : hasElementChildren children' = true := by
          rcases shape with ⟨empty, _⟩ | ⟨container, spaced⟩
          · rw [memberElements_container] at empty
            cases empty
          · exact respaced_elements spaced container
        simp only [List.isEmpty_cons, Bool.false_eq_true, if_false, typeAttribute, container,
          if_true, members, List.nil_append]
        rw [Nat.add_assoc, Nat.add_comm 1]
    | array l es =>
      rw [xmlWritable_array] at writable
      obtain ⟨children', rfl, shape⟩ := reformatted_element same
      have spaced := children_respaced _ _ (itemElements_flat float es) shape
      have deeper : ∀ e ∈ es, depth + 1 + e.height ≤ kMaxTreeDepth := fun e inside => by
        have lower := Tree.height_child_lt (Tree.array l es) e inside
        omega
      have total : Tree.size (Tree.array l es) = (es.map Tree.size).sum + 1 := by
        rw [Tree.size_eq, Tree.children]
      rw [total] at left ⊢
      have items := items_convert float (cString name) depth es children' spaced
        (fun e inside => ih e inside (writable e inside) (below e inside)) [] deeper
        { budget with nodes := budget.nodes + 1 } (by simp only; omega)
      change parseArrayItems float (cString name) depth children' _ ConfigValue.array = _ at items
      rw [parseValue, if_neg (by omega), consumed]
      simp only [typeAttribute_one (cString name) (bytes "array") (by decide),
        if_neg (show bytes "array" ≠ bytes "object" by decide), if_true, items, List.nil_append]
      rw [Nat.add_assoc, Nat.add_comm 1]

/-! ## The whole document -/

/-- Blank text around the root is passed over. -/
theorem checkDocument_blank (nodes' : List XmlNode) (spaced : Respaced Reformatted [] nodes')
    (seen : Bool) : XmlInterface.checkDocument nodes' seen = .ok () := by
  generalize empty : ([] : List XmlNode) = nodes at spaced
  induction spaced with
  | done => rfl
  | space text blank nodes nodes' rest ih =>
    rw [XmlInterface.checkDocument, cString_blank text blank, if_neg (by simp)]
    exact ih empty
  | node node node' here nodes nodes' rest ih => cases empty

theorem document_root (name : Bytes) (attributes : List (Bytes × Bytes)) (children : List XmlNode)
    (nodes' : List XmlNode)
    (spaced : Respaced Reformatted [.element name attributes children] nodes') :
    ∃ children', Reformatted (.element name attributes children) (.element name attributes children') ∧
      XmlInterface.checkDocument nodes' false = .ok () ∧
      XmlInterface.documentElement nodes' = (name, attributes, children') := by
  generalize one : [XmlNode.element name attributes children] = nodes at spaced
  induction spaced with
  | done => cases one
  | space text blank nodes nodes' rest ih =>
    obtain ⟨children', same, checked, root⟩ := ih one
    refine ⟨children', same, ?_, root⟩
    rw [XmlInterface.checkDocument, cString_blank text blank, if_neg (by simp)]
    exact checked
  | node node node' here nodes nodes' rest ih =>
    simp only [List.cons.injEq] at one
    obtain ⟨rfl, rfl⟩ := one
    obtain ⟨children', rfl, _⟩ := reformatted_element here
    refine ⟨children', here, ?_, rfl⟩
    rw [XmlInterface.checkDocument, if_neg (by simp)]
    exact checkDocument_blank nodes' rest true

/-- A written document, read back in whatever whitespace, converts to its version and tree. -/
theorem convert_document (float : FloatText) (floats : ExactFloats float) (limits : LoadLimits)
    (version : VersionId) (ms : List (Bytes × ConfigValue)) (nodes : List XmlNode)
    (spaced : Respaced Reformatted [rootOf float version ms] nodes)
    (admissible : Admissible (Tree.object () ms)) (writable : XmlWritable (Tree.object () ms))
    (budget : Tree.size (Tree.object () ms : ConfigValue) ≤ limits.maxNodes) :
    ∃ c, XmlInterface.convert float limits nodes = .ok c ∧ c.version = version ∧
      contents c.model = Tree.object () ms := by
  obtain ⟨children', same, checked, root⟩ := document_root _ _ _ nodes spaced
  obtain ⟨other, shape, kind⟩ := reformatted_element same
  cases shape
  have inner := children_respaced _ _ (memberElements_flat float ms) kind
  rw [xmlWritable_object] at writable
  obtain ⟨⟨distinct, names⟩, below⟩ := (Tree.wellKeyed_iff _).mp admissible.keys
  have deeper : ∀ m ∈ ms, 0 + 1 + m.2.height ≤ kMaxTreeDepth := fun m inside => by
    have lower := Tree.height_child_lt (Tree.object () ms) m.2 (List.mem_map_of_mem inside)
    have bound := admissible.shallow
    omega
  have total : Tree.size (Tree.object () ms : ConfigValue) =
      (ms.map fun m : Bytes × ConfigValue => Tree.size m.2).sum + 1 := by
    rw [Tree.size_eq, Tree.children, List.map_map]
    rfl
  rw [total] at budget
  simp only [Tree.children, List.forall_mem_map] at below
  have consumed := consume_spec { maxNodes := limits.maxNodes } (by simp only; omega)
  have members := members_convert float (cString kRootName) 0 ms children' inner
    (fun m inside => value_converts float floats m.2 (writable m inside).2 (below m inside)) []
    (by simpa [Tree.keys] using distinct)
    (fun m inside => ⟨names m.1 (List.mem_map_of_mem inside), (writable m inside).1⟩) deeper
    { maxNodes := limits.maxNodes, nodes := 0 + 1 } (by simp only; omega)
  change parseObjectMembers float (cString kRootName) 0 children' _ ConfigValue.object = _ at members
  obtain ⟨m, made, same⟩ := fromValue_ok _ admissible
  refine ⟨⟨version, m⟩, ?_, rfl, same⟩
  have rootName : cString kRootName = kRootName := by decide
  have attribute_ : XmlInterface.rootAttributes [(kVersionAttr, versionText version)] none false =
      .ok (some version) := by
    have key : cString kVersionAttr = kVersionAttr := by decide
    have text : cString (versionText version) = versionText version :=
      cString_eq _ (natText_plain _)
    simp only [XmlInterface.rootAttributes, key, if_true, Option.isSome_none, Bool.false_eq_true,
      if_false, text, parseVersionCarrier_text]
  unfold XmlInterface.convert
  rw [checked]
  simp only [root, rootName, ne_eq, not_true_eq_false, if_false, attribute_, consumed]
  rw [rootName] at members
  simp only [members, List.nil_append, made]

end ConfigManager.Refinement
