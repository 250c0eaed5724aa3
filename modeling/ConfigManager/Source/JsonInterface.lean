import ConfigManager.Source.MigrationEngine
import ConfigManager.Source.Boundary

/-!
# The JSON backend (json_interface.hpp/.cpp)

`load` runs the events of `sax_parse` through `ValueBuilder`; `save` walks the
model by handles and dumps the document it builds. nlohmann/json is a parameter:
how it dumps a document and which events it delivers for a text.
-/

set_option autoImplicit false

namespace ConfigManager.Source
open Library

inductive JsonPrimitive where
  | null
  | boolean (value : Bool)
  | numberInteger (value : Int64)
  | numberUnsigned (value : UInt64)
  | numberFloat (value : Double)
  | string (value : Bytes)
  deriving DecidableEq

/-- `nlohmann::ordered_json`, whose objects keep the order of insertion. -/
abbrev OrderedJson := Tree Unit Bytes JsonPrimitive

/-- The callbacks of `nlohmann::json_sax`, with the arguments the handler reads. -/
inductive SaxEvent where
  | null
  | boolean (value : Bool)
  | numberInteger (value : Int64)
  | numberUnsigned (value : UInt64)
  | numberFloat (value : Double) (literal : Bytes)
  | string (value : Bytes)
  | binary
  | startObject
  | key (value : Bytes)
  | endObject
  | startArray
  | endArray
  | parseError (what : Bytes)

/-- `dump(2)`, which may throw with a `what()`, and the events `sax_parse` delivers for a
text, `parseError` last where the text is malformed. -/
structure NlohmannJson where
  dump : OrderedJson → Except Bytes Bytes
  events : Bytes → List SaxEvent

def kVersionKey : Bytes := bytes "__version"

def kMaxVersion : UInt64 := 4294967295

def kMaxInt : UInt64 := 9223372036854775807

/-! ## ValueBuilder -/

structure Frame where
  container : ConfigValue
  /-- Objects: set by `key`, consumed by `attach`. -/
  pendingKey : Bytes

/-- The container with one more child. -/
def Frame.hold (top : Frame) (value : ConfigValue) : Frame :=
  if top.container.type = .object then ⟨top.container.set top.pendingKey value, []⟩
  else ⟨top.container.push value, top.pendingKey⟩

structure ValueBuilder where
  limits : LoadLimits
  nodes : Nat := 0
  /-- The open containers, innermost first. -/
  stack : List Frame := []
  /-- `root_`, once `haveRoot_`. -/
  root : Option ConfigValue := none
  version : Option VersionId := none
  sawVersionKey : Bool := false
  nextIsCarrier : Bool := false
  error : Option Error := none

namespace ValueBuilder

def setError (b : ValueBuilder) (code : ErrorCode) (message : Bytes) : Bool × ValueBuilder :=
  (false, { b with error := some ⟨code, message⟩ })

def rejectNonObjectRoot (b : ValueBuilder) : Bool × ValueBuilder :=
  b.setError .parseError (bytes "JSON document root is not an object")

/-- The carrier flag, which every value callback clears. -/
def consumeCarrierFlag (b : ValueBuilder) : Bool × ValueBuilder :=
  (b.nextIsCarrier, { b with nextIsCarrier := false })

def depthExceeded (b : ValueBuilder) : Bool × ValueBuilder :=
  b.setError .parseError (bytes "document exceeds the maximum nesting depth (" ++
    natText kMaxTreeDepth ++ bytes ")")

def checkContainerDepth (b : ValueBuilder) : Bool × ValueBuilder :=
  if kMaxTreeDepth < b.stack.length then b.depthExceeded else (true, b)

def consumeNode (b : ValueBuilder) : Bool × ValueBuilder :=
  if b.nodes = b.limits.maxNodes then
    b.setError .parseError (bytes "JSON document exceeds node limit (" ++
      natText b.limits.maxNodes ++ bytes ")")
  else (true, { b with nodes := b.nodes + 1 })

def attach (b : ValueBuilder) (value : ConfigValue) : Bool × ValueBuilder :=
  if kMaxTreeDepth < b.stack.length then b.depthExceeded
  else match b.consumeNode with
    | (false, b) => (false, b)
    | (true, b) =>
        match b.stack with
        -- Callers attach below an open container only.
        | [] => (true, b)
        | top :: outer => (true, { b with stack := top.hold value :: outer })

def carrierError (b : ValueBuilder) (got : Bytes) : Bool × ValueBuilder :=
  b.setError .invalidVersion (bytes "version carrier must be a native unsigned integer" ++ got)

def onScalar (b : ValueBuilder) (value : ConfigValue) : Bool × ValueBuilder :=
  if b.stack.isEmpty then b.rejectNonObjectRoot
  else match b.consumeCarrierFlag with
    | (true, b) => b.carrierError []
    | (false, b) => b.attach value

def null (b : ValueBuilder) : Bool × ValueBuilder := b.onScalar (ConfigValue.of .monostate)

def boolean (b : ValueBuilder) (value : Bool) : Bool × ValueBuilder :=
  b.onScalar (ConfigValue.of (.bool value))

def numberInteger (b : ValueBuilder) (value : Int64) : Bool × ValueBuilder :=
  if b.stack.isEmpty then b.rejectNonObjectRoot
  else match b.consumeCarrierFlag with
    | (true, b) => b.setError .invalidVersion (bytes "version carrier must not be negative")
    | (false, b) => b.attach (ConfigValue.of (.int value))

def numberUnsigned (b : ValueBuilder) (value : UInt64) : Bool × ValueBuilder :=
  if b.stack.isEmpty then b.rejectNonObjectRoot
  else match b.consumeCarrierFlag with
    | (true, b) =>
        if kMaxVersion < value then
          b.setError .invalidVersion (bytes "version carrier value " ++ natText value.toNat ++
            bytes " is not representable in VersionId")
        else (true, { b with version := some (Fin.ofNat (2 ^ 32) value.toNat) })
    | (false, b) =>
        if kMaxInt < value then
          b.setError .parseError (bytes "JSON number " ++ natText value.toNat ++
            bytes " is outside std::int64_t's range")
        else b.attach (ConfigValue.of (.int value.toInt64))

/-- `'.'`, `'e'` and `'E'`. -/
def isFloatMark (c : UInt8) : Bool := c == 46 || c == 101 || c == 69

def numberFloat (b : ValueBuilder) (value : Double) (literal : Bytes) : Bool × ValueBuilder :=
  if b.stack.isEmpty then b.rejectNonObjectRoot
  else match b.consumeCarrierFlag with
    | (true, b) => b.carrierError (bytes ", got number '" ++ literal ++ bytes "'")
    | (false, b) =>
        if !literal.any isFloatMark then
          b.setError .parseError (bytes "integral JSON number '" ++ literal ++
            bytes "' is outside std::int64_t's range")
        else b.attach (ConfigValue.of (.double value))

def string (b : ValueBuilder) (value : Bytes) : Bool × ValueBuilder :=
  b.onScalar (ConfigValue.of (.string value))

/-- The root object is opened with an empty stack, so no root check stands here. -/
def startObject (b : ValueBuilder) : Bool × ValueBuilder :=
  match b.consumeCarrierFlag with
  | (true, b) => b.carrierError (bytes ", got an object")
  | (false, b) =>
      match b.checkContainerDepth with
      | (false, b) => (false, b)
      | (true, b) => (true, { b with stack := ⟨ConfigValue.object, []⟩ :: b.stack })

def startArray (b : ValueBuilder) : Bool × ValueBuilder :=
  if b.stack.isEmpty then b.rejectNonObjectRoot
  else match b.consumeCarrierFlag with
    | (true, b) => b.carrierError (bytes ", got an array")
    | (false, b) =>
        match b.checkContainerDepth with
        | (false, b) => (false, b)
        | (true, b) => (true, { b with stack := ⟨ConfigValue.array, []⟩ :: b.stack })

def key (b : ValueBuilder) (name : Bytes) : Bool × ValueBuilder :=
  if !isPathAddressable name then
    b.setError .parseError (bytes "object key '" ++ name ++
      bytes "' is not path-addressable (empty or contains '.', '[', ']')")
  else match b.stack with
    -- The back of an empty vector, undefined; a parser gives keys inside an object only.
    | [] => (true, b)
    | top :: outer =>
        if outer.isEmpty ∧ name = kVersionKey then
          if b.sawVersionKey then
            b.setError .parseError (bytes "duplicate object key '__version'")
          else (true, { b with sawVersionKey := true, nextIsCarrier := true })
        else if top.container.contains name then
          b.setError .parseError (bytes "duplicate object key '" ++ name ++ bytes "'")
        else (true, { b with stack := { top with pendingKey := name } :: outer })

def popFrame (b : ValueBuilder) : Bool × ValueBuilder :=
  match b.stack with
  -- Undefined as in `key`; a parser closes only what it opened.
  | [] => (true, b)
  | top :: outer =>
      let b := { b with stack := outer }
      if outer.isEmpty then
        match b.consumeNode with
        | (false, b) => (false, b)
        | (true, b) => (true, { b with root := some top.container })
      else b.attach top.container

/-- The callback of an event. -/
def handle (b : ValueBuilder) : SaxEvent → Bool × ValueBuilder
  | .null => b.null
  | .boolean value => b.boolean value
  | .numberInteger value => b.numberInteger value
  | .numberUnsigned value => b.numberUnsigned value
  | .numberFloat value literal => b.numberFloat value literal
  | .string value => b.string value
  | .binary => (true, b)
  | .startObject => b.startObject
  | .key value => b.key value
  | .endObject => b.popFrame
  | .startArray => b.startArray
  | .endArray => b.popFrame
  | .parseError what => b.setError .parseError what

def takeRoot (b : ValueBuilder) : ConfigValue := b.root.getD (ConfigValue.of .monostate)

def takeError (b : ValueBuilder) : Error :=
  b.error.getD ⟨.parseError, bytes "JSON parse failed"⟩

/-- `sax_parse` stops at the first callback that answers false. -/
def saxParse (b : ValueBuilder) : List SaxEvent → Bool × ValueBuilder
  | [] => (true, b)
  | event :: rest =>
      match b.handle event with
      | (false, b) => (false, b)
      | (true, b) => b.saxParse rest

end ValueBuilder

/-! ## Encoding -/

def appendMember (object : OrderedJson) (key : Bytes) (value : OrderedJson) : OrderedJson :=
  match object with
  | Tree.object _ ms => Tree.object () (ms ++ [(key, value)])
  | other => other

def pushBack (array : OrderedJson) (value : OrderedJson) : OrderedJson :=
  match array with
  | Tree.array _ es => Tree.array () (es ++ [value])
  | other => other

def nonFiniteError {α : Type} (name : Bytes) : Result α :=
  fail .serializationError (bytes "non-finite double at '" ++ name ++
    bytes "' is unrepresentable in JSON")

/-- The cases of `toJson` that read a scalar. -/
def toJsonScalar (scalar : Scalar) (name : Bytes) : Result OrderedJson :=
  match scalar with
  | .monostate => .ok (Tree.leaf () .null)
  | .bool value => .ok (Tree.leaf () (.boolean value))
  | .int value => .ok (Tree.leaf () (.numberInteger value))
  | .double value =>
      if !value.isFinite then nonFiniteError name else .ok (Tree.leaf () (.numberFloat value))
  | .string value => .ok (Tree.leaf () (.string value))

/-- The loop over an object's members; `encode` is the recursive call. -/
def toJsonMembers (encode : ConfigNode → Bytes → Result OrderedJson) :
    List (Bytes × ConfigNode) → OrderedJson → Result OrderedJson
  | [], object => .ok object
  | (key, member) :: rest, object =>
      match encode member key with
      | .error e => .error e
      | .ok child => toJsonMembers encode rest (appendMember object key child)

/-- The loop over the indices of an array. -/
def toJsonElements (encode : ConfigNode → Bytes → Result OrderedJson) (arena : NodeArena)
    (node : ConfigNode) : List Nat → OrderedJson → Result OrderedJson
  | [], array => .ok array
  | i :: rest, array =>
      match node.at arena i with
      | .error _ => badAccess (bytes "JSON")
      | .ok child =>
          match encode child (natText i) with
          | .error e => .error e
          | .ok element => toJsonElements encode arena node rest (pushBack array element)

def toJson (arena : NodeArena) : Nat → ConfigNode → Bytes → Result OrderedJson
  | 0, _, _ => badAccess (bytes "JSON")
  | slots + 1, node, name =>
      match node.type arena with
      | .object =>
          match node.members arena with
          | .error _ => badAccess (bytes "JSON")
          | .ok members => toJsonMembers (toJson arena slots) members (Tree.object () [])
      | .array =>
          toJsonElements (toJson arena slots) arena node (List.range (node.size arena))
            (Tree.array () [])
      | .null => .ok (Tree.leaf () .null)
      | .bool | .int | .double | .string =>
          match scalarOf (bytes "JSON") arena node with
          | .error e => .error e
          | .ok scalar => toJsonScalar scalar name

/-! ## JsonInterface -/

structure JsonInterface where
  limits : LoadLimits := {}

namespace JsonInterface

/-- `load` once the bytes are read. -/
def decode (json : NlohmannJson) (limits : LoadLimits) (text : Bytes) : Result VersionedConfig :=
  let (accepted, builder) := ValueBuilder.saxParse { limits := limits } (json.events text)
  if !accepted then .error builder.takeError
  else match builder.version with
    | none =>
        fail .invalidVersion (bytes "stream carries no version metadata ('__version')")
    | some version =>
        match ConfigModel.fromValue builder.takeRoot with
        | .error e => fail .parseError e.message
        | .ok model => .ok ⟨version, model⟩

def load (json : NlohmannJson) (backend : JsonInterface) (input : InputStream) :
    Result VersionedConfig × InputStream :=
  match readBounded (bytes "JSON") input backend.limits.maxInputBytes with
  | (.error e, input) => (.error e, input)
  | (.ok text, input) => (decode json backend.limits text, input)

/-- The document that `save` dumps. -/
def document (config : VersionedConfig) : Result OrderedJson :=
  if config.model.contains kVersionKey then
    fail .serializationError
      (bytes "model contains the reserved version carrier '__version' (ADR-020)")
  else
    let doc := appendMember (Tree.object () []) kVersionKey
      (Tree.leaf () (.numberUnsigned (UInt64.ofNat config.version.val)))
    match config.model.root.members config.model.arena with
    | .error _ => badAccess (bytes "JSON")
    | .ok members =>
        toJsonMembers (toJson config.model.arena config.model.arena.nodes.length) members doc

def save (json : NlohmannJson) (config : VersionedConfig) (out : OutputStream) :
    Result Unit × OutputStream :=
  match document config with
  | .error e => (.error e, out)
  | .ok doc =>
      match json.dump doc with
      | .error what => (fail .serializationError (bytes "JSON save failed: " ++ what), out)
      | .ok text =>
          let out := (out.write text).write [10]
          if out.failed then
            (fail .serializationError (bytes "failed to write JSON document to stream"), out)
          else (.ok (), out)

end JsonInterface

end ConfigManager.Source
