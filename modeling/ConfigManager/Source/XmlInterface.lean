import ConfigManager.Source.MigrationEngine
import ConfigManager.Source.XmlText

/-!
# The XML backend (xml_interface.hpp/.cpp)

`load` converts the document tree that pugixml parses, `save` builds one by
walking the model and has pugixml write it. pugixml is a parameter, and so are
the conversions of doubles. Failed allocations are in `XmlBuilding`.
-/

set_option autoImplicit false

namespace ConfigManager.Source
open Library

/-- A node of a `pugi::xml_document`. Comments and the like are `other`. -/
inductive XmlNode where
  | element (name : Bytes) (attributes : List (Bytes × Bytes)) (children : List XmlNode)
  | pcdata (value : Bytes)
  | cdata (value : Bytes)
  | other

/-- `load_buffer_inplace` under `kParseFlags`, with the description of a failure, and
`save` with an indentation of two spaces. A document is the list of its children. -/
structure PugiXml where
  parse : Bytes → Except Bytes (List XmlNode)
  write : List XmlNode → Bytes

def kRootName : Bytes := bytes "config"

def kVersionAttr : Bytes := bytes "version"

def kTypeAttr : Bytes := bytes "type"

def kItemName : Bytes := bytes "item"

structure NodeBudget where
  maxNodes : Nat
  nodes : Nat := 0

def NodeBudget.consume (budget : NodeBudget) : Result Unit × NodeBudget :=
  if budget.nodes = budget.maxNodes then
    (fail .parseError (bytes "XML document exceeds node limit (" ++ natText budget.maxNodes ++
      bytes ")"), budget)
  else (.ok (), { budget with nodes := budget.nodes + 1 })

def parseVersionCarrier (text : Bytes) : Result VersionId :=
  if text.isEmpty then fail .invalidVersion (bytes "version attribute must not be empty")
  else if !text.all isDigit then
    fail .invalidVersion (bytes "version attribute must be decimal digits only, got '" ++ text ++
      bytes "'")
  -- From 2^64 on `from_chars` reports the range, below it the value is compared.
  else if fits : digitsValue text < 2 ^ 32 then .ok ⟨digitsValue text, fits⟩
  else
    fail .invalidVersion (bytes "version attribute value '" ++ text ++
      bytes "' is not representable in VersionId")

/-! ## Decoding -/

def hasElementChildren : List XmlNode → Bool
  | [] => false
  | .element _ _ _ :: _ => true
  | _ :: rest => hasElementChildren rest

/-- The loop of `scalarText` with the text so far. -/
def scalarText (element : Bytes) : List XmlNode → Bytes → Result Bytes
  | [], text => .ok text
  | .pcdata value :: rest, text => scalarText element rest (text ++ cString value)
  | .cdata value :: rest, text => scalarText element rest (text ++ cString value)
  | .element _ _ _ :: _, _ =>
      fail .parseError (bytes "scalar element '" ++ element ++
        bytes "' must have no child elements")
  | .other :: rest, text => scalarText element rest text

def parseBoolText (text element : Bytes) : Result ConfigValue :=
  if text = bytes "true" then .ok (ConfigValue.of (.bool true))
  else if text = bytes "false" then .ok (ConfigValue.of (.bool false))
  else
    fail .parseError (bytes "bool element '" ++ element ++
      bytes "' must be exactly 'true' or 'false', got '" ++ text ++ bytes "'")

def notDecimalError {α : Type} (text element : Bytes) : Result α :=
  fail .parseError (bytes "int element '" ++ element ++ bytes "' text '" ++ text ++
    bytes "' is not a decimal integer")

def parseIntText (text element : Bytes) : Result ConfigValue :=
  match fromCharsInt text with
  | (.error .resultOutOfRange, _) =>
      fail .parseError (bytes "int element text '" ++ text ++
        bytes "' is outside std::int64_t's range")
  | (.error .invalidArgument, _) => notDecimalError text element
  | (.ok value, unread) =>
      if !unread.isEmpty then notDecimalError text element else .ok (ConfigValue.of (.int value))

def notFloatError {α : Type} (text element : Bytes) : Result α :=
  fail .parseError (bytes "double element '" ++ element ++ bytes "' text '" ++ text ++
    bytes "' is not a finite decimal floating-point literal")

def parseDoubleText (float : FloatText) (text element : Bytes) : Result ConfigValue :=
  match float.fromChars text with
  | (.error _, _) => notFloatError text element
  | (.ok value, unread) =>
      if !unread.isEmpty || !value.isFinite then notFloatError text element
      else .ok (ConfigValue.of (.double value))

/-- The attributes of an element other than the root. -/
def typeAttribute (element : Bytes) : List (Bytes × Bytes) → Option Bytes → Result (Option Bytes)
  | [], type => .ok type
  | (name, value) :: rest, type =>
      if cString name = kTypeAttr then
        if type.isSome then
          fail .parseError (bytes "duplicate 'type' attribute on element '" ++ element ++ bytes "'")
        else typeAttribute element rest (some (cString value))
      else
        fail .parseError (bytes "attribute '" ++ cString name ++ bytes "' on element '" ++ element ++
          bytes "' — only 'type' (and 'version' on the document root) is reserved")

/-- An untyped element without child elements. -/
def parseString (element : Bytes) (children : List XmlNode) : Result ConfigValue :=
  match scalarText element children [] with
  | .error e => .error e
  | .ok text =>
      if !isXmlRepresentable text then
        fail .parseError (bytes "text of element '" ++ element ++
          bytes "' is not valid UTF-8 XML character data")
      else .ok (ConfigValue.of (.string text))

/-- An element with a type other than `object` and `array`. -/
def parseScalar (float : FloatText) (element type : Bytes) (children : List XmlNode) :
    Result ConfigValue :=
  if type ∈ [bytes "null", bytes "bool", bytes "int", bytes "double"] then
    match scalarText element children [] with
    | .error e => .error e
    | .ok text =>
        if type = bytes "null" then
          if !text.isEmpty then
            fail .parseError (bytes "null element '" ++ element ++ bytes "' must be empty")
          else .ok (ConfigValue.of .monostate)
        else if type = bytes "bool" then parseBoolText text element
        else if type = bytes "int" then parseIntText text element
        else parseDoubleText float text element
  else
    fail .parseError (bytes "unknown type attribute value '" ++ type ++ bytes "' on element '" ++
      element ++ bytes "' (expected bool, int, double, null, object, or array)")

mutual
/-- `depth` is the element's depth in the model, the root at 0. -/
def parseValue (float : FloatText) : XmlNode → Nat → NodeBudget → Result ConfigValue × NodeBudget
  | .element name attributes children, depth, budget =>
      if kMaxTreeDepth < depth then
        (fail .parseError (bytes "document exceeds the maximum nesting depth (" ++
          natText kMaxTreeDepth ++ bytes ")"), budget)
      else match budget.consume with
        | (.error e, budget) => (.error e, budget)
        | (.ok (), budget) =>
            match typeAttribute (cString name) attributes none with
            | .error e => (.error e, budget)
            | .ok none =>
                if hasElementChildren children then
                  parseObjectMembers float (cString name) depth children budget ConfigValue.object
                else (parseString (cString name) children, budget)
            | .ok (some type) =>
                if type = bytes "object" then
                  parseObjectMembers float (cString name) depth children budget ConfigValue.object
                else if type = bytes "array" then
                  parseArrayItems float (cString name) depth children budget ConfigValue.array
                else (parseScalar float (cString name) type children, budget)
  -- Callers pass elements only.
  | _, _, budget => (.ok (ConfigValue.of (.string [])), budget)
/-- The loop over the children with the object so far. -/
def parseObjectMembers (float : FloatText) (element : Bytes) (depth : Nat) :
    List XmlNode → NodeBudget → ConfigValue → Result ConfigValue × NodeBudget
  | [], budget, object => (.ok object, budget)
  | .element name attributes children :: rest, budget, object =>
      let key := cString name
      if !isPathAddressable key then
        (fail .parseError (bytes "element name '" ++ key ++
          bytes "' is not path-addressable (contains '.', '[', or ']')"), budget)
      else if !isValidElementName key then
        (fail .parseError (bytes "element name '" ++ key ++
          bytes "' is not a valid XML name in this mapping"), budget)
      else if object.contains key then
        (fail .parseError (bytes "repeated sibling element '" ++ key ++ bytes "' under '" ++
          element ++ bytes "'"), budget)
      else match parseValue float (.element name attributes children) (depth + 1) budget with
        | (.error e, budget) => (.error e, budget)
        | (.ok value, budget) =>
            parseObjectMembers float element depth rest budget (object.set key value)
  | .pcdata value :: rest, budget, object =>
      if !isXmlWhitespace (cString value) then
        (fail .parseError (bytes "object element '" ++ element ++ bytes "' must have no text"), budget)
      else parseObjectMembers float element depth rest budget object
  | .cdata value :: rest, budget, object =>
      if !isXmlWhitespace (cString value) then
        (fail .parseError (bytes "object element '" ++ element ++ bytes "' must have no text"), budget)
      else parseObjectMembers float element depth rest budget object
  | .other :: rest, budget, object => parseObjectMembers float element depth rest budget object
/-- The loop over the children with the array so far. -/
def parseArrayItems (float : FloatText) (element : Bytes) (depth : Nat) :
    List XmlNode → NodeBudget → ConfigValue → Result ConfigValue × NodeBudget
  | [], budget, array => (.ok array, budget)
  | .element name attributes children :: rest, budget, array =>
      if cString name ≠ kItemName then
        (fail .parseError (bytes "array element '" ++ element ++
          bytes "' must contain only <item> children, got '" ++ cString name ++ bytes "'"), budget)
      else match parseValue float (.element name attributes children) (depth + 1) budget with
        | (.error e, budget) => (.error e, budget)
        | (.ok value, budget) => parseArrayItems float element depth rest budget (array.push value)
  | .pcdata value :: rest, budget, array =>
      if !isXmlWhitespace (cString value) then
        (fail .parseError (bytes "array element '" ++ element ++ bytes "' must have no text"), budget)
      else parseArrayItems float element depth rest budget array
  | .cdata value :: rest, budget, array =>
      if !isXmlWhitespace (cString value) then
        (fail .parseError (bytes "array element '" ++ element ++ bytes "' must have no text"), budget)
      else parseArrayItems float element depth rest budget array
  | .other :: rest, budget, array => parseArrayItems float element depth rest budget array
end

/-! ## Encoding -/

namespace XmlNode

def appendChild : XmlNode → XmlNode → XmlNode
  | .element name attributes children, child => .element name attributes (children ++ [child])
  | node, _ => node

def appendAttribute : XmlNode → Bytes → Bytes → XmlNode
  | .element name attributes children, key, value =>
      .element name (attributes ++ [(key, value)]) children
  | node, _, _ => node

end XmlNode

def setElementText (element : XmlNode) (text : Bytes) : XmlNode :=
  element.appendChild (.pcdata (cString text))

def setTypeAttribute (element : XmlNode) (type : Bytes) : XmlNode :=
  element.appendAttribute kTypeAttr type

/-- The cases of `appendValueElement` that read a scalar. -/
def appendScalar (float : FloatText) (element : XmlNode) (name : Bytes) : Scalar → Result XmlNode
  | .monostate => .ok (setTypeAttribute element (bytes "null"))
  | .bool value =>
      .ok (setElementText (setTypeAttribute element (bytes "bool"))
        (if value then bytes "true" else bytes "false"))
  | .int value => .ok (setElementText (setTypeAttribute element (bytes "int")) (intText value))
  | .double value =>
      if !value.isFinite then
        fail .serializationError (bytes "non-finite double at key '" ++ name ++
          bytes "' is unrepresentable in the XML mapping")
      else .ok (setElementText (setTypeAttribute element (bytes "double")) (float.toChars value))
  | .string value =>
      if !isXmlRepresentable value then
        fail .serializationError (bytes "string at key '" ++ name ++
          bytes "' contains a control character that XML 1.0 cannot represent")
      else if !value.isEmpty then .ok (setElementText element value)
      else .ok element

/-- The loop of `appendMembers`; `append` is `appendValueElement`. -/
def appendMembers (append : XmlNode → Bytes → ConfigNode → Result XmlNode) :
    List (Bytes × ConfigNode) → XmlNode → Result XmlNode
  | [], element => .ok element
  | (key, member) :: rest, element =>
      match append element key member with
      | .error e => .error e
      | .ok element => appendMembers append rest element

/-- The loop of `appendItems` over the indices. -/
def appendItems (append : XmlNode → Bytes → ConfigNode → Result XmlNode) (arena : NodeArena)
    (array : ConfigNode) : List Nat → XmlNode → Result XmlNode
  | [], element => .ok element
  | i :: rest, element =>
      match array.at arena i with
      | .error _ => badAccess (bytes "XML")
      | .ok item =>
          match append element kItemName item with
          | .error e => .error e
          | .ok element => appendItems append arena array rest element

/-- The content of the new element. -/
def fillElement (float : FloatText) (arena : NodeArena)
    (append : XmlNode → Bytes → ConfigNode → Result XmlNode) (element : XmlNode) (name : Bytes)
    (node : ConfigNode) : Result XmlNode :=
  match node.type arena with
  | .null => .ok (setTypeAttribute element (bytes "null"))
  | .bool | .int | .double | .string =>
      match scalarOf (bytes "XML") arena node with
      | .error e => .error e
      | .ok scalar => appendScalar float element name scalar
  | .object =>
      if node.size arena = 0 then .ok (setTypeAttribute element (bytes "object"))
      else match node.members arena with
        | .error _ => badAccess (bytes "XML")
        | .ok members => appendMembers append members element
  | .array =>
      appendItems append arena node (List.range (node.size arena))
        (setTypeAttribute element (bytes "array"))

/-- Appends an element for the node and answers the parent. The source appends it first and
fills it in place. -/
def appendValueElement (float : FloatText) (arena : NodeArena) :
    Nat → XmlNode → Bytes → ConfigNode → Result XmlNode
  | 0, _, _, _ => badAccess (bytes "XML")
  | slots + 1, parent, name, node =>
      if !isValidElementName name then
        fail .serializationError (bytes "model key '" ++ name ++
          bytes "' is not a valid XML element name (XML 1.0 Name production, ':' excluded)")
      else
        match fillElement float arena (appendValueElement float arena slots)
          (.element (cString name) [] []) name node with
        | .error e => .error e
        | .ok element => .ok (parent.appendChild element)

/-! ## XmlInterface -/

structure XmlInterface where
  limits : LoadLimits := {}

namespace XmlInterface

/-- The loop over the document's children; `seen` once the root element was passed. -/
def checkDocument : List XmlNode → Bool → Result Unit
  | [], _ => .ok ()
  | .element _ _ _ :: rest, seen =>
      if seen then fail .parseError (bytes "document has more than one root element")
      else checkDocument rest true
  | .pcdata value :: rest, seen =>
      if !isXmlWhitespace (cString value) then
        fail .parseError (bytes "document has text outside the root element")
      else checkDocument rest seen
  | .cdata value :: rest, seen =>
      if !isXmlWhitespace (cString value) then
        fail .parseError (bytes "document has text outside the root element")
      else checkDocument rest seen
  | .other :: rest, seen => checkDocument rest seen

/-- `document_element()`: name, attributes and children of the first element, all empty
without one. -/
def documentElement : List XmlNode → Bytes × List (Bytes × Bytes) × List XmlNode
  | [] => ([], [], [])
  | .element name attributes children :: _ => (name, attributes, children)
  | _ :: rest => documentElement rest

/-- The loop over the root's attributes. -/
def rootAttributes : List (Bytes × Bytes) → Option VersionId → Bool → Result (Option VersionId)
  | [], version, _ => .ok version
  | (name, value) :: rest, version, sawTypeAttr =>
      if cString name = kVersionAttr then
        if version.isSome then
          fail .parseError (bytes "duplicate 'version' attribute on the document root")
        else match parseVersionCarrier (cString value) with
          | .error e => .error e
          | .ok carrier => rootAttributes rest (some carrier) sawTypeAttr
      else if cString name = kTypeAttr then
        if sawTypeAttr then
          fail .parseError (bytes "duplicate 'type' attribute on the document root")
        else if cString value ≠ bytes "object" then
          fail .parseError (bytes "document root must be an object, got type=\"" ++ cString value ++
            bytes "\"")
        else rootAttributes rest version true
      else
        fail .parseError (bytes "attribute '" ++ cString name ++
          bytes "' on the document root — only 'version' and 'type' are reserved")

/-- `load` once the document is parsed. -/
def convert (float : FloatText) (limits : LoadLimits) (nodes : List XmlNode) :
    Result VersionedConfig :=
  match checkDocument nodes false with
  | .error e => .error e
  | .ok () =>
      let (name, attributes, children) := documentElement nodes
      if cString name ≠ kRootName then
        fail .parseError (bytes "document root must be <config>, got <" ++ cString name ++ bytes ">")
      else match rootAttributes attributes none false with
        | .error e => .error e
        | .ok none =>
            fail .invalidVersion
              (bytes "stream carries no version metadata (root 'version' attribute)")
        | .ok (some version) =>
            match NodeBudget.consume { maxNodes := limits.maxNodes } with
            | (.error e, _) => .error e
            | (.ok (), budget) =>
                match parseObjectMembers float (cString name) 0 children budget
                  ConfigValue.object with
                | (.error e, _) => .error e
                | (.ok root, _) =>
                    match ConfigModel.fromValue root with
                    | .error e => fail .parseError e.message
                    | .ok model => .ok ⟨version, model⟩

def load (pugi : PugiXml) (float : FloatText) (backend : XmlInterface) (input : InputStream) :
    Result VersionedConfig × InputStream :=
  match readBounded (bytes "XML") input backend.limits.maxInputBytes with
  | (.error e, input) => (.error e, input)
  | (.ok text, input) =>
      match pugi.parse text with
      | .error description => (fail .parseError (bytes "XML parse failed: " ++ description), input)
      | .ok nodes => (convert float backend.limits nodes, input)

/-- The document that `save` writes. -/
def document (float : FloatText) (config : VersionedConfig) : Result (List XmlNode) :=
  let root := XmlNode.appendAttribute (.element kRootName [] []) kVersionAttr
    (versionText config.version)
  match config.model.root.members config.model.arena with
  | .error _ => badAccess (bytes "XML")
  | .ok members =>
      match appendMembers
        (appendValueElement float config.model.arena config.model.arena.nodes.length) members
        root with
      | .error e => .error e
      | .ok root => .ok [root]

def save (pugi : PugiXml) (float : FloatText) (config : VersionedConfig) (out : OutputStream) :
    Result Unit × OutputStream :=
  match document float config with
  | .error e => (.error e, out)
  | .ok doc =>
      let out := out.write (pugi.write doc)
      if out.failed then
        (fail .serializationError (bytes "failed to write XML document to stream"), out)
      else (.ok (), out)

end XmlInterface

end ConfigManager.Source
