import ConfigManager.Reference.ConfigTree
import ConfigManager.Reference.PathGrammar
import ConfigManager.Reference.XmlCharacters
import ConfigManager.Reference.XmlDocument

/-!
# What an XML document denotes

Elements by their kind: scalars with a literal of their type, objects and arrays
with child elements and nothing but whitespace between them. How the character
data of scalars and of the version is read is a parameter, since pugixml hands
it out up to the first NUL.
-/

set_option autoImplicit false

namespace ConfigManager.Reference
open Library Source

/-! ## Nodes -/

def isElement : XmlNode → Bool
  | .element _ _ _ => true
  | _ => false

def elements (nodes : List XmlNode) : List XmlNode := nodes.filter isElement

def elementName : XmlNode → Bytes
  | .element name _ _ => cString name
  | _ => []

/-- The character data of a text node. -/
def characterData : XmlNode → Option Bytes
  | .pcdata value => some value
  | .cdata value => some value
  | _ => none

def texts (nodes : List XmlNode) : List Bytes := nodes.filterMap characterData

def IsBlank (text : Bytes) : Prop := ∀ c ∈ cString text, c = 32 ∨ c = 9 ∨ c = 10 ∨ c = 13

/-- Nothing but whitespace between the elements. -/
def Spaced (nodes : List XmlNode) : Prop := ∀ text ∈ texts nodes, IsBlank text

def textOf (read : Bytes → Bytes) (nodes : List XmlNode) : Bytes := (texts nodes).flatMap read

/-! ## Kinds and literals -/

inductive ScalarKind where
  | string
  | null
  | bool
  | int
  | double
  deriving DecidableEq, Repr

inductive ElementKind where
  | scalar (kind : ScalarKind)
  | object
  | array
  deriving DecidableEq, Repr

def typedKind (type : Bytes) : Option ElementKind :=
  if type = bytes "object" then some .object
  else if type = bytes "array" then some .array
  else if type = bytes "null" then some (.scalar .null)
  else if type = bytes "bool" then some (.scalar .bool)
  else if type = bytes "int" then some (.scalar .int)
  else if type = bytes "double" then some (.scalar .double)
  else none

/-- At most one attribute, and that the type. -/
def kindOf (attributes : List (Bytes × Bytes)) (children : List XmlNode) : Option ElementKind :=
  match attributes with
  | [] => some (if elements children = [] then .scalar .string else .object)
  | [(name, type)] => if cString name = kTypeAttr then typedKind (cString type) else none
  | _ => none

def signedValue (negative : Bool) (digits : Bytes) : Int :=
  if negative then -digitsValue digits else digitsValue digits

/-- The exact literals of a kind, with what they denote. -/
inductive LiteralOf (float : FloatText) : ScalarKind → Bytes → Scalar → Prop where
  | string (text : Bytes) (representable : IsXmlText text) :
      LiteralOf float .string text (.string text)
  | null : LiteralOf float .null [] .monostate
  | bool (value : Bool) :
      LiteralOf float .bool (if value then bytes "true" else bytes "false") (.bool value)
  | int (negative : Bool) (digits : Bytes) (nonempty : digits ≠ [])
      (decimal : ∀ c ∈ digits, isDigit c = true) (low : -2 ^ 63 ≤ signedValue negative digits)
      (high : signedValue negative digits < 2 ^ 63) :
      LiteralOf float .int (if negative then 45 :: digits else digits)
        (.int (Int64.ofInt (signedValue negative digits)))
  | double (text : Bytes) (value : Double) (whole : float.fromChars text = (.ok value, []))
      (finite : value.isFinite = true) : LiteralOf float .double text (.double value)

/-! ## Elements -/

/-- The child elements of an object stand for members of these names. -/
structure MembersShape (children : List XmlNode) (ms : List (Bytes × ConfigValue)) : Prop where
  spaced : Spaced children
  names : (elements children).map elementName = ms.map Prod.fst
  distinct : (ms.map Prod.fst).Nodup
  valid : ∀ m ∈ ms, PlainKey m.1 ∧ IsXmlName m.1

/-- The child elements of an array are items. -/
structure ItemsShape (children : List XmlNode) : Prop where
  spaced : Spaced children
  names : ∀ child ∈ elements children, elementName child = kItemName

inductive ElementDenotes (float : FloatText) (read : Bytes → Bytes) :
    XmlNode → ConfigValue → Prop where
  | scalar (name : Bytes) (attributes : List (Bytes × Bytes)) (children : List XmlNode)
      (kind : ScalarKind) (typed : kindOf attributes children = some (.scalar kind))
      (flat : elements children = []) (value : Scalar)
      (literal : LiteralOf float kind (textOf read children) value) :
      ElementDenotes float read (.element name attributes children) (ConfigValue.of value)
  | object (name : Bytes) (attributes : List (Bytes × Bytes)) (children : List XmlNode)
      (typed : kindOf attributes children = some .object) (ms : List (Bytes × ConfigValue))
      (shape : MembersShape children ms)
      (values : List.Forall₂ (ElementDenotes float read) (elements children) (ms.map Prod.snd)) :
      ElementDenotes float read (.element name attributes children) (Tree.object () ms)
  | array (name : Bytes) (attributes : List (Bytes × Bytes)) (children : List XmlNode)
      (typed : kindOf attributes children = some .array) (es : List ConfigValue)
      (shape : ItemsShape children)
      (values : List.Forall₂ (ElementDenotes float read) (elements children) es) :
      ElementDenotes float read (.element name attributes children) (Tree.array () es)

/-! ## Documents -/

def attributeValues (attributes : List (Bytes × Bytes)) (name : Bytes) : List Bytes :=
  (attributes.filter fun a => cString a.1 = name).map Prod.snd

/-- One version in decimal digits, the type `object` at most once, and nothing else. -/
structure RootAttributes (read : Bytes → Bytes) (attributes : List (Bytes × Bytes))
    (version : VersionId) : Prop where
  known : ∀ a ∈ attributes, cString a.1 = kVersionAttr ∨ cString a.1 = kTypeAttr
  carrier : ∃ text, attributeValues attributes kVersionAttr = [text] ∧ read text ≠ [] ∧
    (∀ c ∈ read text, isDigit c = true) ∧ digitsValue (read text) = version.val
  type : attributeValues attributes kTypeAttr = [] ∨
    ∃ text, attributeValues attributes kTypeAttr = [text] ∧ cString text = bytes "object"

/-- A document with one root that denotes this version and this tree, within the limits. -/
structure DocumentDenotes (float : FloatText) (read : Bytes → Bytes) (maxNodes : Nat)
    (nodes : List XmlNode) (version : VersionId) (root : ConfigValue) : Prop where
  spaced : Spaced nodes
  element : ∃ name attributes children ms,
    elements nodes = [.element name attributes children] ∧ cString name = kRootName ∧
      RootAttributes read attributes version ∧ root = Tree.object () ms ∧
      MembersShape children ms ∧
      List.Forall₂ (ElementDenotes float read) (elements children) (ms.map Prod.snd)
  shallow : root.height ≤ kMaxTreeDepth
  budget : root.size ≤ maxNodes

/-! ## Character data -/

/-- The expanded character data of a scalar element in this node. -/
inductive ScalarData (data : Bytes) : XmlNode → Prop where
  | here (name : Bytes) (attributes : List (Bytes × Bytes)) (children : List XmlNode)
      (kind : ScalarKind) (typed : kindOf attributes children = some (.scalar kind))
      (whole : data = textOf id children) : ScalarData data (.element name attributes children)
  | inner (name : Bytes) (attributes : List (Bytes × Bytes)) (children : List XmlNode)
      (child : XmlNode) (inside : child ∈ elements children) (lower : ScalarData data child) :
      ScalarData data (.element name attributes children)

/-- The expanded character data of the version or of a scalar element of the document. -/
def DocumentData (nodes : List XmlNode) (data : Bytes) : Prop :=
  ∃ name attributes children, elements nodes = [.element name attributes children] ∧
    (data ∈ attributeValues attributes kVersionAttr ∨
      ∃ child ∈ elements children, ScalarData data child)

/-! ## Formatting -/

def IsSpaceNode (node : XmlNode) : Prop := ∃ text, characterData node = some text ∧ IsBlank text

/-- The same nodes, with whitespace-only text nodes added and removed among them. -/
inductive Respacing (same : XmlNode → XmlNode → Prop) : List XmlNode → List XmlNode → Prop where
  | done : Respacing same [] []
  | added (space : XmlNode) (blank : IsSpaceNode space) (nodes nodes' : List XmlNode)
      (rest : Respacing same nodes nodes') : Respacing same nodes (space :: nodes')
  | removed (space : XmlNode) (blank : IsSpaceNode space) (nodes nodes' : List XmlNode)
      (rest : Respacing same nodes nodes') : Respacing same (space :: nodes) nodes'
  | node (node node' : XmlNode) (here : same node node') (nodes nodes' : List XmlNode)
      (rest : Respacing same nodes nodes') : Respacing same (node :: nodes) (node' :: nodes')

/-- The same element up to whitespace among the children of objects and arrays. -/
inductive SameButSpace : XmlNode → XmlNode → Prop where
  | same (node : XmlNode) : SameButSpace node node
  | container (name : Bytes) (attributes : List (Bytes × Bytes)) (children children' : List XmlNode)
      (kind : kindOf attributes children = some .object ∨ kindOf attributes children = some .array)
      (spaced : Respacing SameButSpace children children') :
      SameButSpace (.element name attributes children) (.element name attributes children')

/-- The root is an object whatever its attributes. -/
inductive SameRoot : XmlNode → XmlNode → Prop where
  | same (node : XmlNode) : SameRoot node node
  | root (name : Bytes) (attributes : List (Bytes × Bytes)) (children children' : List XmlNode)
      (spaced : Respacing SameButSpace children children') :
      SameRoot (.element name attributes children) (.element name attributes children')

end ConfigManager.Reference
