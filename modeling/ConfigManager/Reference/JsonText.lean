import ConfigManager.Library.TreeLeaves
import ConfigManager.Source.JsonInterface

/-!
# What the JSON backend relies on of nlohmann/json

Documented behaviour of code outside the repository: `dump` with the strict
error handler refuses text that is not UTF-8, writes every finite double with a
fraction or an exponent and exactly, and parsing its output gives the events of
the dumped document.
-/

set_option autoImplicit false

namespace ConfigManager.Reference
open Library Source

/-- The UTF-8 encoding of a sequence of characters. -/
def ValidUtf8 (text : Bytes) : Prop := ∃ chars : List Char, text = chars.flatMap String.utf8EncodeChar

def Utf8Primitive : JsonPrimitive → Prop
  | .string text => ValidUtf8 text
  | _ => True

def FinitePrimitive : JsonPrimitive → Prop
  | .numberFloat value => value.isFinite = true
  | _ => True

/-- Non-negative integers arrive as unsigned. -/
def primitiveEvent (literal : Double → Bytes) : JsonPrimitive → SaxEvent
  | .null => .null
  | .boolean value => .boolean value
  | .numberInteger value => if value < 0 then .numberInteger value else .numberUnsigned value.toUInt64
  | .numberUnsigned value => .numberUnsigned value
  | .numberFloat value => .numberFloat value (literal value)
  | .string value => .string value

mutual
/-- The events of a document in order, given the literal of each double. -/
def documentEvents (literal : Double → Bytes) : OrderedJson → List SaxEvent
  | Tree.leaf _ value => [primitiveEvent literal value]
  | Tree.object _ ms => .startObject :: (memberEvents literal ms ++ [.endObject])
  | Tree.array _ es => .startArray :: (elementEvents literal es ++ [.endArray])
def memberEvents (literal : Double → Bytes) : List (Bytes × OrderedJson) → List SaxEvent
  | [] => []
  | (key, value) :: ms => .key key :: (documentEvents literal value ++ memberEvents literal ms)
def elementEvents (literal : Double → Bytes) : List OrderedJson → List SaxEvent
  | [] => []
  | value :: es => documentEvents literal value ++ elementEvents literal es
end

/-- nlohmann/json behaves on this document as documented. The newline is the one `save`
writes after the dump. -/
structure Dumps (json : NlohmannJson) (doc : OrderedJson) : Prop where
  strict : (∃ text, json.dump doc = .ok text) ↔
    Tree.EveryKey ValidUtf8 doc ∧ Tree.EveryLeaf Utf8Primitive doc
  parsed : Tree.EveryLeaf FinitePrimitive doc → ∀ text, json.dump doc = .ok text →
    ∃ literal : Double → Bytes,
      (∀ d, d.isFinite = true → (literal d).any ValueBuilder.isFloatMark = true) ∧
      json.events (text ++ [10]) = documentEvents literal doc

theorem validUtf8_versionKey : ValidUtf8 kVersionKey := ⟨"__version".toList, by decide⟩

end ConfigManager.Reference
