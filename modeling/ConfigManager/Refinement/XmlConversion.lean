import ConfigManager.Refinement.XmlLiterals

/-!
# The conversion follows what elements denote

`parseValue` succeeds on an element exactly when the element denotes a value that
is not too deep for its place and has room in the budget, and then with that
value. The induction is over the element, and within a container over its children.
-/

set_option autoImplicit false

namespace ConfigManager.Refinement
open Library Source Reference

/-! ## One element -/

/-- Attributes that are refused give an element no kind. -/
theorem kindOf_refused (element : Bytes) (attributes : List (Bytes × Bytes))
    (children : List XmlNode) (e : Error) (read : typeAttribute element attributes none = .error e) :
    kindOf attributes children = none := by
  cases attributes with
  | nil => cases read
  | cons a rest =>
    cases rest with
    | nil =>
      rw [kindOf, if_neg]
      intro typed
      have fine := (typeAttribute_ok element [a] (some (cString a.2))).mpr
        (.inr ⟨a.1, a.2, rfl, typed, rfl⟩)
      cases read.symm.trans fine
    | cons b rest => rfl

/-- A type other than those of the containers is that of a scalar or of nothing. -/
theorem typedKind_flat (type : Bytes) (object : type ≠ bytes "object") (array : type ≠ bytes "array") :
    typedKind type ≠ some .object ∧ typedKind type ≠ some .array := by
  unfold typedKind
  rw [if_neg object, if_neg array]
  constructor <;> (repeat' split) <;> simp

/-- What `parseValue` does with an element depends on its kind. -/
theorem parseValue_element (float : FloatText) (name : Bytes) (attributes : List (Bytes × Bytes))
    (children : List XmlNode) (depth : Nat) (budget : NodeBudget) (value : ConfigValue)
    (budget' : NodeBudget) :
    parseValue float (.element name attributes children) depth budget = (.ok value, budget') ↔
      depth ≤ kMaxTreeDepth ∧ budget.nodes ≠ budget.maxNodes ∧
        ((kindOf attributes children = some .object ∧
            parseObjectMembers float (cString name) depth children
              { budget with nodes := budget.nodes + 1 } ConfigValue.object = (.ok value, budget')) ∨
          (kindOf attributes children = some .array ∧
            parseArrayItems float (cString name) depth children
              { budget with nodes := budget.nodes + 1 } ConfigValue.array = (.ok value, budget')) ∨
          ∃ kind, kindOf attributes children = some (.scalar kind) ∧ elements children = [] ∧
            (∃ s, value = ConfigValue.of s ∧ LiteralOf float kind (textOf cString children) s) ∧
            budget' = { budget with nodes := budget.nodes + 1 }) := by
  rw [parseValue]
  by_cases deep : kMaxTreeDepth < depth
  · rw [if_pos deep]
    simp [fail, Nat.not_le_of_lt deep]
  rw [if_neg deep]
  by_cases full : budget.nodes = budget.maxNodes
  · unfold NodeBudget.consume
    rw [if_pos full]
    simp [fail, full]
  have consumed : budget.consume = (.ok (), { budget with nodes := budget.nodes + 1 }) := by
    unfold NodeBudget.consume
    rw [if_neg full]
  rw [consumed]
  simp only [Nat.le_of_not_lt deep, full, ne_eq, not_false_eq_true, true_and]
  cases read : typeAttribute (cString name) attributes none with
  | error e =>
    have none := kindOf_refused (cString name) attributes children e read
    simp [none]
  | ok type =>
    rcases (typeAttribute_ok _ _ _).mp read with ⟨rfl, rfl⟩ | ⟨key, text, rfl, typed, rfl⟩
    · have some := hasElementChildren_iff children
      simp only [kindOf]
      by_cases flat : elements children = []
      · rw [if_neg (fun container => some.mp container flat), if_pos flat, Prod.mk.injEq,
          parseString_iff float]
        simp [flat, eq_comm]
      · rw [if_pos (some.mpr flat), if_neg flat]
        simp
    · simp only [kindOf, if_pos typed]
      by_cases object : cString text = bytes "object"
      · have kind : typedKind (cString text) = some .object := by rw [object]; rfl
        rw [if_pos object, kind]
        simp
      rw [if_neg object]
      by_cases array : cString text = bytes "array"
      · have kind : typedKind (cString text) = some .array := by rw [array]; rfl
        rw [if_pos array, kind]
        simp
      have other := typedKind_flat (cString text) object array
      rw [if_neg array, Prod.mk.injEq, parseScalar_iff _ _ _ _ object array]
      simp only [other.1, other.2, false_and, false_or]
      constructor
      · intro parsed
        obtain ⟨⟨kind, typed', flat, denoted⟩, rfl⟩ := parsed
        exact ⟨kind, typed', flat, denoted, rfl⟩
      · intro parsed
        obtain ⟨kind, typed', flat, denoted, rfl⟩ := parsed
        exact ⟨⟨kind, typed', flat, denoted⟩, rfl⟩

/-! ## Children one by one -/

/-- Blank text between the children is skipped, other text is an error. -/
theorem parseObjectMembers_text (float : FloatText) (element : Bytes) (depth : Nat)
    (text : Bytes) (node : XmlNode) (data : characterData node = some text) (rest : List XmlNode)
    (budget : NodeBudget) (object value : ConfigValue) (budget' : NodeBudget) :
    parseObjectMembers float element depth (node :: rest) budget object = (.ok value, budget') ↔
      IsBlank text ∧
        parseObjectMembers float element depth rest budget object = (.ok value, budget') := by
  rw [← isBlank_iff]
  rcases characterData_cases data with rfl | rfl
  · rw [parseObjectMembers]
    cases isXmlWhitespace (cString text) <;> simp [fail]
  · rw [parseObjectMembers]
    cases isXmlWhitespace (cString text) <;> simp [fail]

theorem parseArrayItems_text (float : FloatText) (element : Bytes) (depth : Nat)
    (text : Bytes) (node : XmlNode) (data : characterData node = some text) (rest : List XmlNode)
    (budget : NodeBudget) (array value : ConfigValue) (budget' : NodeBudget) :
    parseArrayItems float element depth (node :: rest) budget array = (.ok value, budget') ↔
      IsBlank text ∧
        parseArrayItems float element depth rest budget array = (.ok value, budget') := by
  rw [← isBlank_iff]
  rcases characterData_cases data with rfl | rfl
  · rw [parseArrayItems]
    cases isXmlWhitespace (cString text) <;> simp [fail]
  · rw [parseArrayItems]
    cases isXmlWhitespace (cString text) <;> simp [fail]

/-- A child element is a new member with an accepted name. -/
theorem parseObjectMembers_element (float : FloatText) (element : Bytes) (depth : Nat)
    (name : Bytes) (attributes : List (Bytes × Bytes)) (children rest : List XmlNode)
    (budget : NodeBudget) (done : List (Bytes × ConfigValue)) (value : ConfigValue)
    (budget' : NodeBudget) :
    parseObjectMembers float element depth (.element name attributes children :: rest) budget
        (Tree.object () done) = (.ok value, budget') ↔
      (PlainKey (cString name) ∧ IsXmlName (cString name)) ∧ cString name ∉ done.map Prod.fst ∧
        ∃ child middle,
          parseValue float (.element name attributes children) (depth + 1) budget =
              (.ok child, middle) ∧
            parseObjectMembers float element depth rest middle
              (Tree.object () (done ++ [(cString name, child)])) = (.ok value, budget') := by
  have plain : isPathAddressable (cString name) = true ↔ PlainKey (cString name) :=
    addressable_iff (cString name)
  have absent : cString name ∉ done.map Prod.fst ↔
      ConfigValue.contains (Tree.object () done) (cString name) = false := by
    rw [ConfigValue.contains, Option.isSome_eq_false_iff, Option.isNone_iff_eq_none,
      lookup_none_iff]
  by_cases fresh : cString name ∉ done.map Prod.fst
  · rw [parseObjectMembers, ← plain, ← isValidElementName_iff]
    simp only [absent.mp fresh, fresh, not_false_eq_true, true_and,
      ConfigValue.set_of_absent done (cString name) _ fresh]
    cases isPathAddressable (cString name) with
    | false => simp [fail]
    | true =>
      cases isValidElementName (cString name) with
      | false => simp [fail]
      | true =>
        simp only [Bool.not_true, Bool.false_eq_true, if_false, and_self, true_and]
        cases parseValue float (.element name attributes children) (depth + 1) budget with
        | mk answer middle => cases answer <;> simp
  · have present : ConfigValue.contains (Tree.object () done) (cString name) = true := by
      simpa using mt absent.mpr fresh
    rw [parseObjectMembers]
    simp only [present, if_true, fresh, false_and, and_false, iff_false]
    split
    · simp [fail]
    · split <;> simp [fail]

theorem parseArrayItems_element (float : FloatText) (element : Bytes) (depth : Nat)
    (name : Bytes) (attributes : List (Bytes × Bytes)) (children rest : List XmlNode)
    (budget : NodeBudget) (done : List ConfigValue) (value : ConfigValue) (budget' : NodeBudget) :
    parseArrayItems float element depth (.element name attributes children :: rest) budget
        (Tree.array () done) = (.ok value, budget') ↔
      cString name = kItemName ∧ ∃ child middle,
        parseValue float (.element name attributes children) (depth + 1) budget =
            (.ok child, middle) ∧
          parseArrayItems float element depth rest middle (Tree.array () (done ++ [child])) =
            (.ok value, budget') := by
  rw [parseArrayItems]
  by_cases item : cString name = kItemName
  · rw [if_neg (not_not_intro item)]
    cases parseValue float (.element name attributes children) (depth + 1) budget with
    | mk answer middle => cases answer <;> simp [item, ConfigValue.push]
  · simp [item, fail]

/-! ## Whole values -/

/-- A budget after so many more nodes. -/
def charged (budget : NodeBudget) (nodes : Nat) : NodeBudget :=
  { budget with nodes := budget.nodes + nodes }

/-- The conversion of an element is what it denotes, where that fits. -/
def Converted (float : FloatText) (node : XmlNode) : Prop :=
  ∀ depth budget value budget', budget.nodes ≤ budget.maxNodes →
    (parseValue float node depth budget = (.ok value, budget') ↔
      ElementDenotes float cString node value ∧ depth + value.height ≤ kMaxTreeDepth ∧
        budget.nodes + value.size ≤ budget.maxNodes ∧
        budget' = charged budget value.size)

/-- The children of an object denote these members, which fit one level below. -/
structure MembersFit (float : FloatText) (depth : Nat) (nodes : List XmlNode) (budget : NodeBudget)
    (earlier : List Bytes) (ms : List (Bytes × ConfigValue)) : Prop where
  spaced : Spaced nodes
  names : (elements nodes).map elementName = ms.map Prod.fst
  keys : FreshKeys (ms.map Prod.fst) earlier
  valid : ∀ m ∈ ms, IsXmlName m.1
  values : List.Forall₂ (ElementDenotes float cString) (elements nodes) (ms.map Prod.snd)
  shallow : ∀ m ∈ ms, depth + 1 + m.2.height ≤ kMaxTreeDepth
  within : budget.nodes + (ms.map fun m => m.2.size).sum ≤ budget.maxNodes

theorem membersFit_nil (float : FloatText) (depth : Nat) (budget : NodeBudget)
    (earlier : List Bytes) (ms : List (Bytes × ConfigValue))
    (room : budget.nodes ≤ budget.maxNodes) :
    MembersFit float depth [] budget earlier ms ↔ ms = [] := by
  constructor
  · intro fit
    simpa [elements] using fit.names.symm
  · rintro rfl
    exact ⟨by simp [Spaced, texts], rfl, ⟨by simp, by simp, by simp⟩, by simp, .nil, by simp,
      by simpa using room⟩

theorem spaced_cons_text (text : Bytes) (node : XmlNode) (data : characterData node = some text)
    (rest : List XmlNode) : Spaced (node :: rest) ↔ IsBlank text ∧ Spaced rest := by
  unfold Spaced texts
  rw [List.filterMap_cons_some data, List.forall_mem_cons]

theorem membersFit_text (float : FloatText) (depth : Nat) (text : Bytes) (node : XmlNode)
    (data : characterData node = some text) (rest : List XmlNode) (budget : NodeBudget)
    (earlier : List Bytes) (ms : List (Bytes × ConfigValue)) :
    MembersFit float depth (node :: rest) budget earlier ms ↔
      IsBlank text ∧ MembersFit float depth rest budget earlier ms := by
  have same := elements_text data rest
  have spaced := spaced_cons_text text node data rest
  constructor
  · intro fit
    obtain ⟨blank, later⟩ := spaced.mp fit.spaced
    exact ⟨blank, later, same ▸ fit.names, fit.keys, fit.valid, same ▸ fit.values, fit.shallow,
      fit.within⟩
  · intro both
    obtain ⟨blank, fit⟩ := both
    exact ⟨spaced.mpr ⟨blank, fit.spaced⟩, same ▸ fit.names, fit.keys, fit.valid,
      same ▸ fit.values, fit.shallow, fit.within⟩

theorem membersFit_other (float : FloatText) (depth : Nat) (rest : List XmlNode)
    (budget : NodeBudget) (earlier : List Bytes) (ms : List (Bytes × ConfigValue)) :
    MembersFit float depth (.other :: rest) budget earlier ms ↔
      MembersFit float depth rest budget earlier ms :=
  ⟨fun fit => ⟨fit.1, fit.2, fit.3, fit.4, fit.5, fit.6, fit.7⟩,
    fun fit => ⟨fit.1, fit.2, fit.3, fit.4, fit.5, fit.6, fit.7⟩⟩

/-- A child element stands for the first member. -/
theorem membersFit_element (float : FloatText) (depth : Nat) (name : Bytes)
    (attributes : List (Bytes × Bytes)) (children rest : List XmlNode) (budget : NodeBudget)
    (earlier : List Bytes) (ms : List (Bytes × ConfigValue)) :
    MembersFit float depth (.element name attributes children :: rest) budget earlier ms ↔
      ∃ child ms', ms = (cString name, child) :: ms' ∧
        (PlainKey (cString name) ∧ IsXmlName (cString name)) ∧ cString name ∉ earlier ∧
        ElementDenotes float cString (.element name attributes children) child ∧
        depth + 1 + child.height ≤ kMaxTreeDepth ∧
        MembersFit float depth rest (charged budget child.size) (earlier ++ [cString name]) ms' := by
  constructor
  · intro fit
    have names := fit.names
    have values := fit.values
    rw [elements_element] at names values
    cases ms with
    | nil => simp at names
    | cons m ms' =>
      obtain ⟨key, child⟩ := m
      simp only [List.map_cons, List.cons.injEq, List.forall₂_cons] at names values
      obtain ⟨rfl, names⟩ := names
      obtain ⟨here, values⟩ := values
      have keys := (freshKeys_cons _ _ _).mp fit.keys
      have valid := List.forall_mem_cons.mp fit.valid
      have shallow := List.forall_mem_cons.mp fit.shallow
      have within := fit.within
      rw [List.map_cons, List.sum_cons, ← Nat.add_assoc] at within
      exact ⟨child, ms', rfl, ⟨keys.1.1, valid.1⟩, keys.1.2, here, shallow.1,
        fit.spaced, names, keys.2, valid.2, values, shallow.2, within⟩
  · rintro ⟨child, ms', rfl, ⟨plain, valid⟩, fresh, here, shallow, fit⟩
    have within := fit.within
    constructor
    · exact fit.spaced
    · rw [elements_element, List.map_cons, List.map_cons, fit.names]
      rfl
    · exact (freshKeys_cons _ _ _).mpr ⟨⟨plain, fresh⟩, fit.keys⟩
    · exact List.forall_mem_cons.mpr ⟨valid, fit.valid⟩
    · exact .cons here fit.values
    · exact List.forall_mem_cons.mpr ⟨shallow, fit.shallow⟩
    · rw [List.map_cons, List.sum_cons, ← Nat.add_assoc]
      exact within

/-- The members of an object are converted one after the other. -/
theorem members_converted (float : FloatText) (element : Bytes) (depth : Nat)
    (nodes : List XmlNode)
    (each : ∀ node ∈ nodes, isElement node = true → Converted float node) (budget : NodeBudget)
    (room : budget.nodes ≤ budget.maxNodes) (done : List (Bytes × ConfigValue))
    (value : ConfigValue) (budget' : NodeBudget) :
    parseObjectMembers float element depth nodes budget (Tree.object () done) =
        (.ok value, budget') ↔
      ∃ ms, value = Tree.object () (done ++ ms) ∧
        MembersFit float depth nodes budget (done.map Prod.fst) ms ∧
        budget' = charged budget (ms.map fun m => m.2.size).sum := by
  induction nodes generalizing budget done with
  | nil =>
    rw [parseObjectMembers]
    simp only [membersFit_nil float depth budget _ _ room, Prod.mk.injEq, Except.ok.injEq]
    constructor
    · rintro ⟨rfl, rfl⟩
      exact ⟨[], by simp, rfl, rfl⟩
    · rintro ⟨ms, rfl, rfl, rfl⟩
      exact ⟨by simp, rfl⟩
  | cons node rest ih =>
    rw [List.forall_mem_cons] at each
    have later := ih each.2
    have text : ∀ own, characterData node = some own →
        (parseObjectMembers float element depth (node :: rest) budget (Tree.object () done) =
          (.ok value, budget') ↔ ∃ ms, value = Tree.object () (done ++ ms) ∧
            MembersFit float depth (node :: rest) budget (done.map Prod.fst) ms ∧
            budget' = charged budget (ms.map fun m => m.2.size).sum) := by
      intro own data
      rw [parseObjectMembers_text float element depth own node data, later budget room done]
      simp only [membersFit_text float depth own node data]
      constructor
      · rintro ⟨blank, ms, shape, fit, counted⟩
        exact ⟨ms, shape, ⟨blank, fit⟩, counted⟩
      · rintro ⟨ms, shape, ⟨blank, fit⟩, counted⟩
        exact ⟨blank, ms, shape, fit, counted⟩
    cases node with
    | pcdata own => exact text own rfl
    | cdata own => exact text own rfl
    | other =>
      rw [parseObjectMembers, later budget room done]
      simp only [membersFit_other]
    | element name attributes children =>
      have here := each.1 rfl
      rw [parseObjectMembers_element]
      constructor
      · rintro ⟨names, fresh, child, middle, parsed, tail⟩
        obtain ⟨denotes, shallow, within, rfl⟩ :=
          (here (depth + 1) budget child middle room).mp parsed
        obtain ⟨ms, rfl, fit, rfl⟩ := (later _ within _).mp tail
        rw [List.map_append] at fit
        refine ⟨(cString name, child) :: ms, by simp, ?_, ?_⟩
        · exact (membersFit_element float depth name attributes children rest budget _ _).mpr
            ⟨child, ms, rfl, names, fresh, denotes, shallow, fit⟩
        · simp only [charged, List.map_cons, List.sum_cons, Nat.add_assoc]
      · rintro ⟨all, rfl, fit, rfl⟩
        obtain ⟨child, ms, rfl, names, fresh, denotes, shallow, fit⟩ :=
          (membersFit_element float depth name attributes children rest budget _ _).mp fit
        have within : budget.nodes + child.size ≤ budget.maxNodes := by
          have total := fit.within
          simp only [charged] at total
          omega
        refine ⟨names, fresh, child, charged budget child.size, ?_, ?_⟩
        · exact (here (depth + 1) budget child _ room).mpr ⟨denotes, shallow, within, rfl⟩
        · refine (later (charged budget child.size) within _).mpr ⟨ms, by simp, ?_, ?_⟩
          · rw [List.map_append]
            exact fit
          · simp only [charged, List.map_cons, List.sum_cons, Nat.add_assoc]

/-- The children of an array denote these items, which fit one level below. -/
structure ItemsFit (float : FloatText) (depth : Nat) (nodes : List XmlNode) (budget : NodeBudget)
    (es : List ConfigValue) : Prop where
  shape : ItemsShape nodes
  values : List.Forall₂ (ElementDenotes float cString) (elements nodes) es
  shallow : ∀ e ∈ es, depth + 1 + e.height ≤ kMaxTreeDepth
  within : budget.nodes + (es.map Tree.size).sum ≤ budget.maxNodes

theorem itemsFit_nil (float : FloatText) (depth : Nat) (budget : NodeBudget)
    (es : List ConfigValue) (room : budget.nodes ≤ budget.maxNodes) :
    ItemsFit float depth [] budget es ↔ es = [] := by
  constructor
  · intro fit
    exact List.forall₂_nil_left_iff.mp fit.values
  · rintro rfl
    exact ⟨⟨by simp [Spaced, texts], by simp [elements]⟩, .nil, by simp, by simpa using room⟩

theorem itemsFit_text (float : FloatText) (depth : Nat) (text : Bytes) (node : XmlNode)
    (data : characterData node = some text) (rest : List XmlNode) (budget : NodeBudget)
    (es : List ConfigValue) :
    ItemsFit float depth (node :: rest) budget es ↔
      IsBlank text ∧ ItemsFit float depth rest budget es := by
  have same := elements_text data rest
  have spaced := spaced_cons_text text node data rest
  constructor
  · intro fit
    obtain ⟨blank, later⟩ := spaced.mp fit.shape.spaced
    exact ⟨blank, ⟨later, same ▸ fit.shape.names⟩, same ▸ fit.values, fit.shallow, fit.within⟩
  · intro both
    obtain ⟨blank, fit⟩ := both
    exact ⟨⟨spaced.mpr ⟨blank, fit.shape.spaced⟩, same ▸ fit.shape.names⟩, same ▸ fit.values,
      fit.shallow, fit.within⟩

theorem itemsFit_other (float : FloatText) (depth : Nat) (rest : List XmlNode)
    (budget : NodeBudget) (es : List ConfigValue) :
    ItemsFit float depth (.other :: rest) budget es ↔ ItemsFit float depth rest budget es :=
  ⟨fun fit => ⟨⟨fit.1.1, fit.1.2⟩, fit.2, fit.3, fit.4⟩,
    fun fit => ⟨⟨fit.1.1, fit.1.2⟩, fit.2, fit.3, fit.4⟩⟩

theorem itemsFit_element (float : FloatText) (depth : Nat) (name : Bytes)
    (attributes : List (Bytes × Bytes)) (children rest : List XmlNode) (budget : NodeBudget)
    (es : List ConfigValue) :
    ItemsFit float depth (.element name attributes children :: rest) budget es ↔
      ∃ child es', es = child :: es' ∧ cString name = kItemName ∧
        ElementDenotes float cString (.element name attributes children) child ∧
        depth + 1 + child.height ≤ kMaxTreeDepth ∧
        ItemsFit float depth rest (charged budget child.size) es' := by
  constructor
  · intro fit
    have names := fit.shape.names
    have values := fit.values
    rw [elements_element] at names values
    rw [List.forall_mem_cons] at names
    obtain ⟨child, es', here, below, rfl⟩ := List.forall₂_cons_left_iff.mp values
    have shallow := List.forall_mem_cons.mp fit.shallow
    have within := fit.within
    rw [List.map_cons, List.sum_cons, ← Nat.add_assoc] at within
    exact ⟨child, es', rfl, names.1, here, shallow.1, ⟨fit.shape.spaced, names.2⟩, below,
      shallow.2, within⟩
  · rintro ⟨child, es', rfl, item, here, shallow, fit⟩
    have within := fit.within
    constructor
    · refine ⟨fit.shape.spaced, ?_⟩
      rw [elements_element, List.forall_mem_cons]
      exact ⟨item, fit.shape.names⟩
    · exact .cons here fit.values
    · exact List.forall_mem_cons.mpr ⟨shallow, fit.shallow⟩
    · rw [List.map_cons, List.sum_cons, ← Nat.add_assoc]
      exact within

/-- The items of an array are converted one after the other. -/
theorem items_converted (float : FloatText) (element : Bytes) (depth : Nat)
    (nodes : List XmlNode)
    (each : ∀ node ∈ nodes, isElement node = true → Converted float node) (budget : NodeBudget)
    (room : budget.nodes ≤ budget.maxNodes) (done : List ConfigValue) (value : ConfigValue)
    (budget' : NodeBudget) :
    parseArrayItems float element depth nodes budget (Tree.array () done) = (.ok value, budget') ↔
      ∃ es, value = Tree.array () (done ++ es) ∧ ItemsFit float depth nodes budget es ∧
        budget' = charged budget (es.map Tree.size).sum := by
  induction nodes generalizing budget done with
  | nil =>
    rw [parseArrayItems]
    simp only [itemsFit_nil float depth budget _ room, Prod.mk.injEq, Except.ok.injEq]
    constructor
    · rintro ⟨rfl, rfl⟩
      exact ⟨[], by simp, rfl, rfl⟩
    · rintro ⟨es, rfl, rfl, rfl⟩
      exact ⟨by simp, rfl⟩
  | cons node rest ih =>
    rw [List.forall_mem_cons] at each
    have later := ih each.2
    have text : ∀ own, characterData node = some own →
        (parseArrayItems float element depth (node :: rest) budget (Tree.array () done) =
          (.ok value, budget') ↔ ∃ es, value = Tree.array () (done ++ es) ∧
            ItemsFit float depth (node :: rest) budget es ∧
            budget' = charged budget (es.map Tree.size).sum) := by
      intro own data
      rw [parseArrayItems_text float element depth own node data, later budget room done]
      simp only [itemsFit_text float depth own node data]
      constructor
      · rintro ⟨blank, es, shape, fit, counted⟩
        exact ⟨es, shape, ⟨blank, fit⟩, counted⟩
      · rintro ⟨es, shape, ⟨blank, fit⟩, counted⟩
        exact ⟨blank, es, shape, fit, counted⟩
    cases node with
    | pcdata own => exact text own rfl
    | cdata own => exact text own rfl
    | other =>
      rw [parseArrayItems, later budget room done]
      simp only [itemsFit_other]
    | element name attributes children =>
      have here := each.1 rfl
      rw [parseArrayItems_element]
      constructor
      · rintro ⟨item, child, middle, parsed, tail⟩
        obtain ⟨denotes, shallow, within, rfl⟩ :=
          (here (depth + 1) budget child middle room).mp parsed
        obtain ⟨es, rfl, fit, rfl⟩ := (later _ within _).mp tail
        refine ⟨child :: es, by simp, ?_, ?_⟩
        · exact (itemsFit_element float depth name attributes children rest budget _).mpr
            ⟨child, es, rfl, item, denotes, shallow, fit⟩
        · simp only [charged, List.map_cons, List.sum_cons, Nat.add_assoc]
      · rintro ⟨all, rfl, fit, rfl⟩
        obtain ⟨child, es, rfl, item, denotes, shallow, fit⟩ :=
          (itemsFit_element float depth name attributes children rest budget _).mp fit
        have within : budget.nodes + child.size ≤ budget.maxNodes := by
          have total := fit.within
          simp only [charged] at total
          omega
        refine ⟨item, child, charged budget child.size, ?_, ?_⟩
        · exact (here (depth + 1) budget child _ room).mpr ⟨denotes, shallow, within, rfl⟩
        · refine (later (charged budget child.size) within _).mpr ⟨es, by simp, fit, ?_⟩
          simp only [charged, List.map_cons, List.sum_cons, Nat.add_assoc]

/-! ## Every element -/

/-- An object element, counted before its members. -/
theorem object_converted (float : FloatText) (element : Bytes) (depth : Nat)
    (children : List XmlNode)
    (each : ∀ node ∈ children, isElement node = true → Converted float node)
    (budget : NodeBudget) (room : budget.nodes ≤ budget.maxNodes) (value : ConfigValue)
    (budget' : NodeBudget) :
    (depth ≤ kMaxTreeDepth ∧ budget.nodes ≠ budget.maxNodes ∧
        parseObjectMembers float element depth children { budget with nodes := budget.nodes + 1 }
          ConfigValue.object = (.ok value, budget')) ↔
      (∃ ms, value = Tree.object () ms ∧ MembersShape children ms ∧
        List.Forall₂ (ElementDenotes float cString) (elements children) (ms.map Prod.snd)) ∧
      depth + value.height ≤ kMaxTreeDepth ∧ budget.nodes + value.size ≤ budget.maxNodes ∧
        budget' = charged budget value.size := by
  have size : ∀ ms : List (Bytes × ConfigValue), Tree.size (Tree.object () ms : ConfigValue) =
      (ms.map fun m => m.2.size).sum + 1 := Tree.size_object ()
  constructor
  · rintro ⟨here, full, parsed⟩
    have left : budget.nodes + 1 ≤ budget.maxNodes := by omega
    obtain ⟨ms, rfl, fit, rfl⟩ := (members_converted float element depth children each
      (charged budget 1) left [] value budget').mp parsed
    have within := fit.within
    have shallow := shallow_iff_children (Tree.object () ms : ConfigValue) depth
    simp only [Tree.children, List.forall_mem_map] at shallow
    simp only [charged] at within
    refine ⟨⟨ms, rfl, ⟨fit.spaced, fit.names, fit.keys.distinct, fun m inside => ?_⟩, fit.values⟩,
      shallow.mpr ⟨here, fit.shallow⟩, ?_, ?_⟩
    · exact ⟨fit.keys.plain m.1 (List.mem_map_of_mem inside), fit.valid m inside⟩
    · rw [List.nil_append, size]
      omega
    · rw [List.nil_append, size]
      simp only [charged, Nat.add_assoc, Nat.add_comm 1]
  · rintro ⟨⟨ms, rfl, shape, values⟩, deep, within, rfl⟩
    have shallow := (shallow_iff_children (Tree.object () ms : ConfigValue) depth).mp deep
    simp only [Tree.children, List.forall_mem_map] at shallow
    rw [size] at within
    have left : budget.nodes + 1 ≤ budget.maxNodes := by omega
    refine ⟨shallow.1, by omega, ?_⟩
    refine (members_converted float element depth children each (charged budget 1) left [] _ _).mpr
      ⟨ms, rfl, ⟨shape.spaced, shape.names, ⟨shape.distinct, ?_, by simp⟩,
        fun m inside => (shape.valid m inside).2, values, shallow.2, ?_⟩, ?_⟩
    · exact List.forall_mem_map.mpr fun m inside => (shape.valid m inside).1
    · simp only [charged]
      omega
    · rw [size]
      simp only [charged, Nat.add_assoc, Nat.add_comm 1]

theorem array_converted (float : FloatText) (element : Bytes) (depth : Nat)
    (children : List XmlNode)
    (each : ∀ node ∈ children, isElement node = true → Converted float node)
    (budget : NodeBudget) (room : budget.nodes ≤ budget.maxNodes) (value : ConfigValue)
    (budget' : NodeBudget) :
    (depth ≤ kMaxTreeDepth ∧ budget.nodes ≠ budget.maxNodes ∧
        parseArrayItems float element depth children { budget with nodes := budget.nodes + 1 }
          ConfigValue.array = (.ok value, budget')) ↔
      (∃ es, value = Tree.array () es ∧ ItemsShape children ∧
        List.Forall₂ (ElementDenotes float cString) (elements children) es) ∧
      depth + value.height ≤ kMaxTreeDepth ∧ budget.nodes + value.size ≤ budget.maxNodes ∧
        budget' = charged budget value.size := by
  constructor
  · rintro ⟨here, full, parsed⟩
    have left : budget.nodes + 1 ≤ budget.maxNodes := by omega
    obtain ⟨es, rfl, fit, rfl⟩ := (items_converted float element depth children each
      (charged budget 1) left [] value budget').mp parsed
    have within := fit.within
    simp only [charged] at within
    refine ⟨⟨es, rfl, fit.shape, fit.values⟩,
      (shallow_iff_children (Tree.array () es : ConfigValue) depth).mpr ⟨here, fit.shallow⟩, ?_, ?_⟩
    · rw [List.nil_append, Tree.size_array]
      omega
    · rw [List.nil_append, Tree.size_array]
      simp only [charged, Nat.add_assoc, Nat.add_comm 1]
  · rintro ⟨⟨es, rfl, shape, values⟩, deep, within, rfl⟩
    have shallow := (shallow_iff_children (Tree.array () es : ConfigValue) depth).mp deep
    rw [Tree.size_array] at within
    have left : budget.nodes + 1 ≤ budget.maxNodes := by omega
    refine ⟨shallow.1, by omega, ?_⟩
    refine (items_converted float element depth children each (charged budget 1) left [] _ _).mpr
      ⟨es, rfl, ⟨shape, values, shallow.2, ?_⟩, ?_⟩
    · simp only [charged]
      omega
    · rw [Tree.size_array]
      simp only [charged, Nat.add_assoc, Nat.add_comm 1]

/-- What an element of a kind denotes. -/
theorem elementDenotes_iff (float : FloatText) (read : Bytes → Bytes) (name : Bytes)
    (attributes : List (Bytes × Bytes)) (children : List XmlNode) (value : ConfigValue) :
    ElementDenotes float read (.element name attributes children) value ↔
      (kindOf attributes children = some .object ∧ ∃ ms, value = Tree.object () ms ∧
          MembersShape children ms ∧
          List.Forall₂ (ElementDenotes float read) (elements children) (ms.map Prod.snd)) ∨
        (kindOf attributes children = some .array ∧ ∃ es, value = Tree.array () es ∧
          ItemsShape children ∧ List.Forall₂ (ElementDenotes float read) (elements children) es) ∨
        ∃ kind, kindOf attributes children = some (.scalar kind) ∧ elements children = [] ∧
          ∃ s, value = ConfigValue.of s ∧ LiteralOf float kind (textOf read children) s := by
  constructor
  · intro denotes
    cases denotes with
    | object _ _ _ typed ms shape values => exact .inl ⟨typed, ms, rfl, shape, values⟩
    | array _ _ _ typed es shape values => exact .inr (.inl ⟨typed, es, rfl, shape, values⟩)
    | scalar _ _ _ kind typed flat s literal => exact .inr (.inr ⟨kind, typed, flat, s, rfl, literal⟩)
  · intro denotes
    rcases denotes with ⟨typed, ms, rfl, shape, values⟩ | ⟨typed, es, rfl, shape, values⟩ |
      ⟨kind, typed, flat, s, rfl, literal⟩
    · exact .object name attributes children typed ms shape values
    · exact .array name attributes children typed es shape values
    · exact .scalar name attributes children kind typed flat s literal

theorem scalar_charged (depth : Nat) (budget budget' : NodeBudget) (s : Scalar)
    (room : budget.nodes ≤ budget.maxNodes) :
    (depth ≤ kMaxTreeDepth ∧ budget.nodes ≠ budget.maxNodes ∧
        budget' = { budget with nodes := budget.nodes + 1 }) ↔
      depth + (ConfigValue.of s).height ≤ kMaxTreeDepth ∧
        budget.nodes + (ConfigValue.of s).size ≤ budget.maxNodes ∧
        budget' = charged budget (ConfigValue.of s).size := by
  have height : (ConfigValue.of s).height = 0 := rfl
  have size : (ConfigValue.of s).size = 1 := rfl
  rw [height, size, charged]
  constructor
  · rintro ⟨shallow, full, counted⟩
    exact ⟨shallow, by omega, counted⟩
  · rintro ⟨shallow, within, counted⟩
    exact ⟨shallow, by omega, counted⟩

theorem element_converted (float : FloatText) (node : XmlNode) (element : isElement node = true) :
    Converted float node := by
  induction node using xmlNode_induction with
  | pcdata value => cases element
  | cdata value => cases element
  | other => cases element
  | element name attributes children ih =>
    intro depth budget value budget' room
    have object := object_converted float (cString name) depth children ih budget room value budget'
    have array := array_converted float (cString name) depth children ih budget room value budget'
    rw [parseValue_element, elementDenotes_iff]
    constructor
    · rintro ⟨here, full, ⟨typed, parsed⟩ | ⟨typed, parsed⟩ |
        ⟨kind, typed, flat, ⟨s, rfl, literal⟩, counted⟩⟩
      · obtain ⟨denoted, fits⟩ := object.mp ⟨here, full, parsed⟩
        exact ⟨.inl ⟨typed, denoted⟩, fits⟩
      · obtain ⟨denoted, fits⟩ := array.mp ⟨here, full, parsed⟩
        exact ⟨.inr (.inl ⟨typed, denoted⟩), fits⟩
      · have fits := (scalar_charged depth budget budget' s room).mp ⟨here, full, counted⟩
        exact ⟨.inr (.inr ⟨kind, typed, flat, s, rfl, literal⟩), fits⟩
    · rintro ⟨⟨typed, denoted⟩ | ⟨typed, denoted⟩ | ⟨kind, typed, flat, s, rfl, literal⟩, fits⟩
      · obtain ⟨here, full, parsed⟩ := object.mpr ⟨denoted, fits⟩
        exact ⟨here, full, .inl ⟨typed, parsed⟩⟩
      · obtain ⟨here, full, parsed⟩ := array.mpr ⟨denoted, fits⟩
        exact ⟨here, full, .inr (.inl ⟨typed, parsed⟩)⟩
      · obtain ⟨here, full, counted⟩ := (scalar_charged depth budget budget' s room).mpr fits
        exact ⟨here, full, .inr (.inr ⟨kind, typed, flat, ⟨s, rfl, literal⟩, counted⟩)⟩

end ConfigManager.Refinement
