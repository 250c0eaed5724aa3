import ConfigManager.Library.Throwing
import ConfigManager.Source.XmlInterface

/-!
# `XmlInterface::save` when an allocation fails (xml_interface.cpp)

`save` again as the source runs it: every element is appended to its parent first
and filled in place through its handle. Each operation that may allocate asks for
one outcome. pugixml reports a failure by a null handle, by `false` or by an empty
name, the standard library throws. Writing the document allocates nothing.
-/

set_option autoImplicit false

namespace ConfigManager.Source

namespace XmlNode

def name : XmlNode → Bytes
  | .element name _ _ => name
  | _ => []

def attributes : XmlNode → List (Bytes × Bytes)
  | .element _ attributes _ => attributes
  | _ => []

def children : XmlNode → List XmlNode
  | .element _ _ children => children
  | _ => []

/-- The node reached by these positions. -/
def nodeAt : XmlNode → List Nat → Option XmlNode
  | node, [] => some node
  | node, i :: handle =>
      match node.children[i]? with
      | some child => child.nodeAt handle
      | none => none

def editAt (f : XmlNode → XmlNode) : XmlNode → List Nat → XmlNode
  | node, [] => f node
  | .element name attributes children, i :: handle =>
      .element name attributes (children.modify i fun child => editAt f child handle)
  | node, _ :: _ => node

def setValue (value : Bytes) : XmlNode → XmlNode
  | .pcdata _ => .pcdata value
  | node => node

def setAttributeValue (i : Nat) (value : Bytes) : XmlNode → XmlNode
  | .element name attributes children =>
      .element name (attributes.modify i fun pair => (pair.1, value)) children
  | node => node

end XmlNode

namespace XmlBuilding
open Library

/-- How an operation that may allocate comes out. `unnamed` is a node or an attribute that
was made but whose `set_name` failed; where no name is set it is a failure. -/
inductive Outcome where
  | granted
  | unnamed
  | refused
deriving DecidableEq

/-- A call of `save` while it runs. -/
structure Saving where
  /-- The document node, as an element without a name. -/
  doc : XmlNode := .element [] [] []
  out : OutputStream
  /-- The outcome of each operation, by the order in which they run. -/
  outcome : Nat → Outcome
  performed : Nat := 0

/-- A `pugi::xml_node`: the positions on the way from the document node. -/
abbrev Handle := List Nat

def next : Throwing Saving Outcome := fun saving =>
  .returned (saving.outcome saving.performed) { saving with performed := saving.performed + 1 }

def badAlloc {α : Type} : Throwing Saving α := fun saving => .thrown saving

/-- An allocation of the standard library. -/
def request : Throwing Saving Unit := do
  match ← next with
  | .granted => return ()
  | .unnamed | .refused => badAlloc

/-- A null handle and `false` are `none`. -/
def checkAlloc {α : Type} : Option α → Throwing Saving α
  | some result => return result
  | none => badAlloc

/-! ## The operations of pugixml -/

def onNode (handle : Handle) (f : XmlNode → XmlNode) : Throwing Saving Unit :=
  Throwing.update fun saving => { saving with doc := saving.doc.editAt f handle }

def node (handle : Handle) : Throwing Saving XmlNode := do
  let saving ← Throwing.read
  return (saving.doc.nodeAt handle).getD .other

def insertChild (parent : Handle) (child : XmlNode) : Throwing Saving Handle := do
  let i := (← node parent).children.length
  onNode parent fun node => node.appendChild child
  return parent ++ [i]

/-- `append_child` with a name. -/
def appendElement (parent : Handle) (name : Bytes) : Throwing Saving (Option Handle) := do
  match ← next with
  | .granted => return some (← insertChild parent (.element (cString name) [] []))
  | .unnamed => return some (← insertChild parent (.element [] [] []))
  | .refused => return none

/-- `append_child(pugi::node_pcdata)`. -/
def appendPcdata (parent : Handle) : Throwing Saving (Option Handle) := do
  match ← next with
  | .granted => return some (← insertChild parent (.pcdata []))
  | .unnamed | .refused => return none

/-- An attribute is its element and its position. -/
def insertAttribute (element : Handle) (name : Bytes) : Throwing Saving (Handle × Nat) := do
  let i := (← node element).attributes.length
  onNode element fun node => node.appendAttribute name []
  return (element, i)

/-- `append_attribute`. -/
def appendAttribute (element : Handle) (name : Bytes) :
    Throwing Saving (Option (Handle × Nat)) := do
  match ← next with
  | .granted => return some (← insertAttribute element (cString name))
  | .unnamed => return some (← insertAttribute element [])
  | .refused => return none

/-- The two `set_value` run the edit unless the copy of the text fails. -/
def setValue (handle : Handle) (f : XmlNode → XmlNode) : Throwing Saving (Option Unit) := do
  match ← next with
  | .granted => return some (← onNode handle f)
  | .unnamed | .refused => return none

/-- `name()[0] != '\0'`. -/
def hasName (name : Bytes) : Option Unit := if (cString name).isEmpty then none else some ()

/-! ## The functions of xml_interface.cpp -/

def appendNamedChild (parent : Handle) (name : Bytes) : Throwing Saving Handle := do
  let child ← checkAlloc (← appendElement parent name)
  checkAlloc (hasName (← node child).name)
  return child

def appendNamedAttribute (element : Handle) (name : Bytes) : Throwing Saving (Handle × Nat) := do
  let place ← checkAlloc (← appendAttribute element name)
  let attributes := (← node place.1).attributes
  checkAlloc (hasName ((attributes[place.2]?.map fun pair => pair.1).getD []))
  return place

def setElementText (element : Handle) (text : Bytes) : Throwing Saving Unit := do
  let child ← checkAlloc (← appendPcdata element)
  checkAlloc (← setValue child (XmlNode.setValue (cString text)))

def setAttribute (element : Handle) (name value : Bytes) : Throwing Saving Unit := do
  let place ← appendNamedAttribute element name
  checkAlloc (← setValue place.1 (XmlNode.setAttributeValue place.2 value))

def setTypeAttribute (element : Handle) (type : Bytes) : Throwing Saving Unit :=
  setAttribute element kTypeAttr type

/-- An error, whose message is allocated. -/
def refuse (error : Result Unit) : Throwing Saving (Result Unit) := do
  request
  return error

/-- The cases of `appendValueElement` that read a scalar. -/
def appendScalar (float : FloatText) (element : Handle) (name : Bytes) :
    Scalar → Throwing Saving (Result Unit)
  | .monostate => do
      setTypeAttribute element (bytes "null")
      return .ok ()
  | .bool value => do
      setTypeAttribute element (bytes "bool")
      setElementText element (if value then bytes "true" else bytes "false")
      return .ok ()
  | .int value => do
      setTypeAttribute element (bytes "int")
      -- `std::to_string`
      request
      setElementText element (intText value)
      return .ok ()
  | .double value =>
      if !value.isFinite then
        refuse (fail .serializationError (bytes "non-finite double at key '" ++ name ++
          bytes "' is unrepresentable in the XML mapping"))
      else do
        setTypeAttribute element (bytes "double")
        request
        setElementText element (float.toChars value)
        return .ok ()
  | .string value => do
      -- `as<std::string>` copies
      request
      if !isXmlRepresentable value then
        refuse (fail .serializationError (bytes "string at key '" ++ name ++
          bytes "' contains a control character that XML 1.0 cannot represent"))
      else if !value.isEmpty then do
        setElementText element value
        return .ok ()
      else return .ok ()

/-- The loop of `appendMembers`; `append` is `appendValueElement`. -/
def appendMembers (append : Handle → Bytes → ConfigNode → Throwing Saving (Result Unit))
    (element : Handle) : List (Bytes × ConfigNode) → Throwing Saving (Result Unit)
  | [] => return .ok ()
  | (key, member) :: rest => do
      match ← append element key member with
      | .error e => return .error e
      | .ok () => appendMembers append element rest

/-- The loop of `appendItems` over the indices. -/
def appendItems (append : Handle → Bytes → ConfigNode → Throwing Saving (Result Unit))
    (arena : NodeArena) (array : ConfigNode) (element : Handle) :
    List Nat → Throwing Saving (Result Unit)
  | [] => return .ok ()
  | i :: rest =>
      match array.at arena i with
      | .error _ => return badAccess (bytes "XML")
      | .ok item => do
          match ← append element kItemName item with
          | .error e => return .error e
          | .ok () => appendItems append arena array element rest

/-- The content of the new element. -/
def fillElement (float : FloatText) (arena : NodeArena)
    (append : Handle → Bytes → ConfigNode → Throwing Saving (Result Unit)) (element : Handle)
    (name : Bytes) (node : ConfigNode) : Throwing Saving (Result Unit) :=
  match node.type arena with
  | .null => do
      setTypeAttribute element (bytes "null")
      return .ok ()
  | .bool | .int | .double | .string =>
      match scalarOf (bytes "XML") arena node with
      | .error e => return .error e
      | .ok scalar => appendScalar float element name scalar
  | .object =>
      if node.size arena = 0 then do
        setTypeAttribute element (bytes "object")
        return .ok ()
      else do
        -- `members()` answers a vector
        request
        match node.members arena with
        | .error _ => return badAccess (bytes "XML")
        | .ok members => appendMembers append element members
  | .array => do
      setTypeAttribute element (bytes "array")
      appendItems append arena node element (List.range (node.size arena))

def appendValueElement (float : FloatText) (arena : NodeArena) :
    Nat → Handle → Bytes → ConfigNode → Throwing Saving (Result Unit)
  | 0, _, _, _ => return badAccess (bytes "XML")
  | slots + 1, parent, name, node =>
      if !isValidElementName name then
        refuse (fail .serializationError (bytes "model key '" ++ name ++
          bytes "' is not a valid XML element name (XML 1.0 Name production, ':' excluded)"))
      else do
        let element ← appendNamedChild parent name
        fillElement float arena (appendValueElement float arena slots) element name node

/-- The document of `save`. -/
def buildDocument (float : FloatText) (config : VersionedConfig) :
    Throwing Saving (Result Unit) := do
  let root ← appendNamedChild [] kRootName
  setAttribute root kVersionAttr (versionText config.version)
  request
  match config.model.root.members config.model.arena with
  | .error _ => return badAccess (bytes "XML")
  | .ok members =>
      appendMembers (appendValueElement float config.model.arena config.model.arena.nodes.length)
        root members

/-- `doc.save(out, "  ")` and what follows it. -/
def writeDocument (pugi : PugiXml) : Throwing Saving (Result Unit) := do
  Throwing.update fun saving =>
    { saving with out := saving.out.write (pugi.write saving.doc.children) }
  let saving ← Throwing.read
  if saving.out.failed then
    refuse (fail .serializationError (bytes "failed to write XML document to stream"))
  else return .ok ()

def save (pugi : PugiXml) (float : FloatText) (config : VersionedConfig) :
    Throwing Saving (Result Unit) := do
  match ← buildDocument float config with
  | .error e => return .error e
  | .ok () => writeDocument pugi

end XmlBuilding

end ConfigManager.Source
