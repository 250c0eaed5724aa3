import ConfigManager.Reference.ConfigTree
import ConfigManager.Reference.JsonText

/-!
# JSON documents and their reading by recursion

Documented behaviour of nlohmann/json's parser: a text is either delivered as the
events of one document, whose strings are valid UTF-8 and whose doubles are
finite, or the events end with `parse_error`. `readDocument` says what the JSON
backend is for: the version and the tree of a document, or the code of the first
thing that is wrong with it.
-/

set_option autoImplicit false

namespace ConfigManager.Reference
open Library Source

/-- A scalar as the parser delivers it, a double with its literal. -/
inductive SaxScalar where
  | null
  | boolean (value : Bool)
  | numberInteger (value : Int64)
  | numberUnsigned (value : UInt64)
  | numberFloat (value : Double) (literal : Bytes)
  | string (value : Bytes)
  deriving DecidableEq

def SaxScalar.event : SaxScalar → SaxEvent
  | .null => .null
  | .boolean value => .boolean value
  | .numberInteger value => .numberInteger value
  | .numberUnsigned value => .numberUnsigned value
  | .numberFloat value literal => .numberFloat value literal
  | .string value => .string value

/-- A JSON document in the order of its text. -/
abbrev SaxDocument := Tree Unit Bytes SaxScalar

mutual
def saxEvents : SaxDocument → List SaxEvent
  | Tree.leaf _ value => [value.event]
  | Tree.object _ ms => .startObject :: (saxMemberEvents ms ++ [.endObject])
  | Tree.array _ es => .startArray :: (saxElementEvents es ++ [.endArray])
def saxMemberEvents : List (Bytes × SaxDocument) → List SaxEvent
  | [] => []
  | (key, value) :: ms => .key key :: (saxEvents value ++ saxMemberEvents ms)
def saxElementEvents : List SaxDocument → List SaxEvent
  | [] => []
  | value :: es => saxEvents value ++ saxElementEvents es
end

/-- What the lexer lets through. -/
def LexedScalar : SaxScalar → Prop
  | .numberFloat value _ => value.isFinite = true
  | .string text => ValidUtf8 text
  | _ => True

def Lexed (doc : SaxDocument) : Prop := Tree.EveryPart ValidUtf8 LexedScalar doc

/-- The events of every text, well formed or not. -/
def ParsesTexts (json : NlohmannJson) : Prop :=
  ∀ text, (∃ doc, json.events text = saxEvents doc ∧ Lexed doc) ∨
    ∃ before what, json.events text = before ++ [.parseError what]

/-! ## Reading by recursion -/

/-- A value at a depth is counted when it is attached. -/
def countNode (maxNodes depth nodes : Nat) : Except ErrorCode Nat :=
  if kMaxTreeDepth < depth then .error .parseError
  else if nodes = maxNodes then .error .parseError
  else .ok (nodes + 1)

def readScalar : SaxScalar → Except ErrorCode Scalar
  | .null => .ok .monostate
  | .boolean value => .ok (.bool value)
  | .numberInteger value => .ok (.int value)
  | .numberUnsigned value =>
      if kMaxInt < value then .error .parseError else .ok (.int value.toInt64)
  | .numberFloat value literal =>
      if literal.any ValueBuilder.isFloatMark then .ok (.double value) else .error .parseError
  | .string value => .ok (.string value)

mutual
/-- The value of a document below the root, with the nodes counted so far. -/
def readValue (maxNodes : Nat) : SaxDocument → Nat → Nat → Except ErrorCode (ConfigValue × Nat)
  | Tree.leaf _ scalar, depth, nodes =>
      match readScalar scalar with
      | .error code => .error code
      | .ok read =>
          match countNode maxNodes depth nodes with
          | .error code => .error code
          | .ok nodes => .ok (ConfigValue.of read, nodes)
  | Tree.object _ ms, depth, nodes =>
      if kMaxTreeDepth < depth then .error .parseError
      else match readMembers maxNodes ms (depth + 1) nodes [] with
        | .error code => .error code
        | .ok (read, nodes) =>
            match countNode maxNodes depth nodes with
            | .error code => .error code
            | .ok nodes => .ok (Tree.object () read, nodes)
  | Tree.array _ es, depth, nodes =>
      if kMaxTreeDepth < depth then .error .parseError
      else match readElements maxNodes es (depth + 1) nodes [] with
        | .error code => .error code
        | .ok (read, nodes) =>
            match countNode maxNodes depth nodes with
            | .error code => .error code
            | .ok nodes => .ok (Tree.array () read, nodes)
def readMembers (maxNodes : Nat) : List (Bytes × SaxDocument) → Nat → Nat →
    List (Bytes × ConfigValue) → Except ErrorCode (List (Bytes × ConfigValue) × Nat)
  | [], _, nodes, done => .ok (done, nodes)
  | (key, value) :: rest, depth, nodes, done =>
      if Addressable key ∧ key ∉ done.map Prod.fst then
        match readValue maxNodes value depth nodes with
        | .error code => .error code
        | .ok (read, nodes) => readMembers maxNodes rest depth nodes (done ++ [(key, read)])
      else .error .parseError
def readElements (maxNodes : Nat) : List SaxDocument → Nat → Nat →
    List ConfigValue → Except ErrorCode (List ConfigValue × Nat)
  | [], _, nodes, done => .ok (done, nodes)
  | value :: rest, depth, nodes, done =>
      match readValue maxNodes value depth nodes with
      | .error code => .error code
      | .ok (read, nodes) => readElements maxNodes rest depth nodes (done ++ [read])
end

def readCarrier : SaxDocument → Except ErrorCode VersionId
  | Tree.leaf _ (.numberUnsigned value) =>
      if kMaxVersion < value then .error .invalidVersion
      else .ok (Fin.ofNat (2 ^ 32) value.toNat)
  | _ => .error .invalidVersion

/-- The members of the root, one of which is the carrier. -/
def readRoot (maxNodes : Nat) : List (Bytes × SaxDocument) → Nat → Option VersionId →
    List (Bytes × ConfigValue) →
    Except ErrorCode (Option VersionId × List (Bytes × ConfigValue) × Nat)
  | [], nodes, version, done => .ok (version, done, nodes)
  | (key, value) :: rest, nodes, version, done =>
      if key = kVersionKey then
        if version.isSome then .error .parseError
        else match readCarrier value with
          | .error code => .error code
          | .ok carrier => readRoot maxNodes rest nodes (some carrier) done
      else if Addressable key ∧ key ∉ done.map Prod.fst then
        match readValue maxNodes value 1 nodes with
        | .error code => .error code
        | .ok (read, nodes) => readRoot maxNodes rest nodes version (done ++ [(key, read)])
      else .error .parseError

def readDocument (maxNodes : Nat) : SaxDocument → Except ErrorCode (VersionId × ConfigValue)
  | Tree.object _ ms =>
      match readRoot maxNodes ms 0 none [] with
      | .error code => .error code
      | .ok (version, read, nodes) =>
          if nodes = maxNodes then .error .parseError
          else match version with
            | none => .error .invalidVersion
            | some version => .ok (version, Tree.object () read)
  | _ => .error .parseError

end ConfigManager.Reference
