import ConfigManager.Refinement.XmlDocuments

/-!
# Whitespace between elements does not matter

Adding or removing whitespace-only text among the children of objects and arrays,
and outside the root, changes no answer of the conversion, not even an error.
-/

set_option autoImplicit false

namespace ConfigManager.Refinement
open Library Source Reference

/-- A blank node is one of the two kinds of text. -/
theorem space_cases {space : XmlNode} (blank : IsSpaceNode space) :
    ∃ text, isXmlWhitespace (cString text) = true ∧ (space = .pcdata text ∨ space = .cdata text) := by
  obtain ⟨text, data, white⟩ := blank
  exact ⟨text, (isBlank_iff text).mpr white, characterData_cases data⟩

theorem parseObjectMembers_space (float : FloatText) (element : Bytes) (depth : Nat)
    (space : XmlNode) (blank : IsSpaceNode space) (rest : List XmlNode) (budget : NodeBudget)
    (object : ConfigValue) :
    parseObjectMembers float element depth (space :: rest) budget object =
      parseObjectMembers float element depth rest budget object := by
  obtain ⟨text, white, rfl | rfl⟩ := space_cases blank
  · rw [parseObjectMembers, white, if_neg (by simp)]
  · rw [parseObjectMembers, white, if_neg (by simp)]

theorem parseArrayItems_space (float : FloatText) (element : Bytes) (depth : Nat)
    (space : XmlNode) (blank : IsSpaceNode space) (rest : List XmlNode) (budget : NodeBudget)
    (array : ConfigValue) :
    parseArrayItems float element depth (space :: rest) budget array =
      parseArrayItems float element depth rest budget array := by
  obtain ⟨text, white, rfl | rfl⟩ := space_cases blank
  · rw [parseArrayItems, white, if_neg (by simp)]
  · rw [parseArrayItems, white, if_neg (by simp)]

theorem checkDocument_space (space : XmlNode) (blank : IsSpaceNode space) (rest : List XmlNode)
    (seen : Bool) :
    XmlInterface.checkDocument (space :: rest) seen = XmlInterface.checkDocument rest seen := by
  obtain ⟨text, white, rfl | rfl⟩ := space_cases blank
  · rw [XmlInterface.checkDocument, white, if_neg (by simp)]
  · rw [XmlInterface.checkDocument, white, if_neg (by simp)]

theorem hasElementChildren_space (space : XmlNode) (blank : IsSpaceNode space)
    (rest : List XmlNode) : hasElementChildren (space :: rest) = hasElementChildren rest := by
  obtain ⟨text, _, rfl | rfl⟩ := space_cases blank
  · rfl
  · rfl

theorem documentElement_space (space : XmlNode) (blank : IsSpaceNode space) (rest : List XmlNode) :
    XmlInterface.documentElement (space :: rest) = XmlInterface.documentElement rest := by
  obtain ⟨text, _, rfl | rfl⟩ := space_cases blank
  · rfl
  · rfl

theorem sameButSpace_element {name : Bytes} {attributes : List (Bytes × Bytes)}
    {children : List XmlNode} {node' : XmlNode}
    (same : SameButSpace (.element name attributes children) node') :
    ∃ children', node' = .element name attributes children' ∧
      (children' = children ∨
        (kindOf attributes children = some .object ∨ kindOf attributes children = some .array) ∧
          Respacing SameButSpace children children') := by
  cases same with
  | same => exact ⟨children, rfl, .inl rfl⟩
  | container _ _ _ children' kind spaced => exact ⟨children', rfl, .inr ⟨kind, spaced⟩⟩

/-- Whitespace neither hides nor makes an element. -/
theorem hasElementChildren_respacing {nodes nodes' : List XmlNode}
    (spaced : Respacing SameButSpace nodes nodes') :
    hasElementChildren nodes' = hasElementChildren nodes := by
  induction spaced with
  | done => rfl
  | added space blank nodes nodes' rest ih => rw [hasElementChildren_space space blank, ih]
  | removed space blank nodes nodes' rest ih => rw [hasElementChildren_space space blank, ih]
  | node node node' here nodes nodes' rest ih =>
    cases here with
    | same =>
      cases node with
      | element name attributes children => rfl
      | _ => exact ih
    | container name attributes children children' kind spaced => rfl

/-- The conversion does not tell these nodes apart. -/
def Alike (float : FloatText) (node : XmlNode) : Prop :=
  ∀ node', SameButSpace node node' → ∀ depth budget,
    parseValue float node' depth budget = parseValue float node depth budget

theorem members_alike (float : FloatText) (element : Bytes) (depth : Nat)
    (nodes nodes' : List XmlNode) (spaced : Respacing SameButSpace nodes nodes')
    (each : ∀ node ∈ nodes, Alike float node) (budget : NodeBudget) (object : ConfigValue) :
    parseObjectMembers float element depth nodes' budget object =
      parseObjectMembers float element depth nodes budget object := by
  induction spaced generalizing budget object with
  | done => rfl
  | added space blank nodes nodes' rest ih =>
    rw [parseObjectMembers_space float element depth space blank, ih each]
  | removed space blank nodes nodes' rest ih =>
    rw [parseObjectMembers_space float element depth space blank]
    exact ih (fun node inside => each node (by simp [inside])) budget object
  | node node node' here nodes nodes' rest ih =>
    rw [List.forall_mem_cons] at each
    have later := ih each.2
    cases node with
    | element name attributes children =>
      have first := each.1 node' here (depth + 1) budget
      obtain ⟨children', rfl, _⟩ := sameButSpace_element here
      rw [parseObjectMembers, parseObjectMembers, first]
      simp only [later]
    | pcdata own =>
      cases here
      rw [parseObjectMembers, parseObjectMembers, later]
    | cdata own =>
      cases here
      rw [parseObjectMembers, parseObjectMembers, later]
    | other =>
      cases here
      rw [parseObjectMembers, parseObjectMembers, later]

theorem items_alike (float : FloatText) (element : Bytes) (depth : Nat)
    (nodes nodes' : List XmlNode) (spaced : Respacing SameButSpace nodes nodes')
    (each : ∀ node ∈ nodes, Alike float node) (budget : NodeBudget) (array : ConfigValue) :
    parseArrayItems float element depth nodes' budget array =
      parseArrayItems float element depth nodes budget array := by
  induction spaced generalizing budget array with
  | done => rfl
  | added space blank nodes nodes' rest ih =>
    rw [parseArrayItems_space float element depth space blank, ih each]
  | removed space blank nodes nodes' rest ih =>
    rw [parseArrayItems_space float element depth space blank]
    exact ih (fun node inside => each node (by simp [inside])) budget array
  | node node node' here nodes nodes' rest ih =>
    rw [List.forall_mem_cons] at each
    have later := ih each.2
    cases node with
    | element name attributes children =>
      have first := each.1 node' here (depth + 1) budget
      obtain ⟨children', rfl, _⟩ := sameButSpace_element here
      rw [parseArrayItems, parseArrayItems, first]
      simp only [later]
    | pcdata own =>
      cases here
      rw [parseArrayItems, parseArrayItems, later]
    | cdata own =>
      cases here
      rw [parseArrayItems, parseArrayItems, later]
    | other =>
      cases here
      rw [parseArrayItems, parseArrayItems, later]

theorem typedKind_container (type : Bytes)
    (kind : typedKind type = some .object ∨ typedKind type = some .array) :
    type = bytes "object" ∨ type = bytes "array" := by
  by_contra other
  rw [not_or] at other
  unfold typedKind at kind
  rw [if_neg other.1, if_neg other.2] at kind
  rcases kind with kind | kind <;> (repeat' split at kind) <;> cases kind

/-- By its attributes an element is a container whatever its children, or untyped with some. -/
theorem typeAttribute_container (element : Bytes) (attributes : List (Bytes × Bytes))
    (children : List XmlNode) (type : Option Bytes)
    (read : typeAttribute element attributes none = .ok type)
    (kind : kindOf attributes children = some .object ∨ kindOf attributes children = some .array) :
    (type = none ∧ hasElementChildren children = true) ∨
      ∃ name, type = some name ∧ (name = bytes "object" ∨ name = bytes "array") := by
  rcases (typeAttribute_ok _ _ _).mp read with ⟨rfl, rfl⟩ | ⟨key, text, rfl, typed, rfl⟩
  · left
    refine ⟨rfl, (hasElementChildren_iff children).mpr fun flat => ?_⟩
    simp only [kindOf, flat, if_true, Option.some.injEq, reduceCtorEq, or_self] at kind
  · right
    rw [kindOf, if_pos typed] at kind
    exact ⟨_, rfl, typedKind_container _ kind⟩

theorem value_alike (float : FloatText) (node : XmlNode) : Alike float node := by
  induction node using xmlNode_induction with
  | pcdata value => intro node' same depth budget; cases same; rfl
  | cdata value => intro node' same depth budget; cases same; rfl
  | other => intro node' same depth budget; cases same; rfl
  | element name attributes children ih =>
    intro node' same depth budget
    obtain ⟨children', rfl, rfl | ⟨kind, spaced⟩⟩ := sameButSpace_element same
    · rfl
    · have members := members_alike float (cString name) depth children children' spaced ih
      have items := items_alike float (cString name) depth children children' spaced ih
      have nested := hasElementChildren_respacing spaced
      rw [parseValue, parseValue, nested]
      simp only [members, items]
      cases read : typeAttribute (cString name) attributes none with
      | error e => rfl
      | ok type =>
        rcases typeAttribute_container _ _ children type read kind with
          ⟨rfl, container⟩ | ⟨typeName, rfl, rfl | rfl⟩
        · simp only [container, if_true]
        · simp only [if_true]
        · simp only [if_neg (show bytes "array" ≠ bytes "object" by decide), if_true]

/-! ## The document -/

theorem sameRoot_element {node node' : XmlNode} (same : SameRoot node node') :
    node' = node ∨ ∃ name attributes children children',
      node = .element name attributes children ∧ node' = .element name attributes children' ∧
        Respacing SameButSpace children children' := by
  cases same with
  | same => exact .inl rfl
  | root name attributes children children' spaced =>
    exact .inr ⟨name, attributes, children, children', rfl, rfl, spaced⟩

theorem checkDocument_respacing (nodes nodes' : List XmlNode) (spaced : Respacing SameRoot nodes nodes')
    (seen : Bool) :
    XmlInterface.checkDocument nodes' seen = XmlInterface.checkDocument nodes seen := by
  induction spaced generalizing seen with
  | done => rfl
  | added space blank nodes nodes' rest ih => rw [checkDocument_space space blank, ih]
  | removed space blank nodes nodes' rest ih => rw [checkDocument_space space blank, ih]
  | node node node' here nodes nodes' rest ih =>
    rcases sameRoot_element here with rfl | ⟨name, attributes, children, children', rfl, rfl, _⟩
    · cases node' <;> simp only [XmlInterface.checkDocument, ih]
    · simp only [XmlInterface.checkDocument, ih]

/-- The root stays the same up to whitespace inside. -/
theorem documentElement_respacing (nodes nodes' : List XmlNode)
    (spaced : Respacing SameRoot nodes nodes') :
    ∃ name attributes children children', Respacing SameButSpace children children' ∧
      XmlInterface.documentElement nodes = (name, attributes, children) ∧
      XmlInterface.documentElement nodes' = (name, attributes, children') := by
  have itself : ∀ children, Respacing SameButSpace children children := by
    intro children
    induction children with
    | nil => exact .done
    | cons child rest ih => exact .node child child (.same child) rest rest ih
  induction spaced with
  | done => exact ⟨[], [], [], [], .done, rfl, rfl⟩
  | added space blank nodes nodes' rest ih => rwa [documentElement_space space blank]
  | removed space blank nodes nodes' rest ih => rwa [documentElement_space space blank]
  | node node node' here nodes nodes' rest ih =>
    rcases sameRoot_element here with rfl | ⟨name, attributes, children, children', rfl, rfl, inner⟩
    · cases node' with
      | element name attributes children =>
        exact ⟨name, attributes, children, children, itself children, rfl, rfl⟩
      | _ => exact ih
    · exact ⟨name, attributes, children, children', inner, rfl, rfl⟩

theorem convert_respacing (float : FloatText) (limits : LoadLimits) (nodes nodes' : List XmlNode)
    (spaced : Respacing SameRoot nodes nodes') :
    XmlInterface.convert float limits nodes' = XmlInterface.convert float limits nodes := by
  obtain ⟨name, attributes, children, children', inner, before, after⟩ :=
    documentElement_respacing nodes nodes' spaced
  have members := fun budget => members_alike float (cString name) 0 children children' inner
    (fun node _ => value_alike float node) budget ConfigValue.object
  unfold XmlInterface.convert
  rw [checkDocument_respacing nodes nodes' spaced, before, after]
  simp only [members]

end ConfigManager.Refinement
