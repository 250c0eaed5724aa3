import ConfigManager.Reference.XmlMeaning

/-!
# Text behind the root, as pugixml parses it

Documented behaviour of `load_buffer_inplace` in fragment mode on a buffer of exact
length: text outside the root becomes a text node, the last byte of the buffer is
lost where it belongs to text, and a NUL ends the input.
-/

set_option autoImplicit false

namespace ConfigManager.Reference
open Library Source

/-- What is left of the text at the end of a buffer. -/
def keptText (text : Bytes) : Bytes := if 0 ∈ text then cString text else text.dropLast

/-- The text nodes behind the root; `expand` resolves references and line ends. -/
def trailingNodes (expand : Bytes → Bytes) (text : Bytes) : List XmlNode :=
  if keptText text = [] then [] else [.pcdata (expand (keptText text))]

/-- The document ends with the `>` of its root element. -/
structure EndsWithRoot (text : Bytes) (nodes : List XmlNode) : Prop where
  plain : 0 ∉ text
  tag : (∃ before, text = before ++ bytes "/>") ∨
    ∃ before space, text = before ++ bytes "</config" ++ space ++ bytes ">" ∧
      ∀ c ∈ space, c = 32 ∨ c = 9 ∨ c = 10 ∨ c = 13
  last : ∃ before root, nodes = before ++ [root] ∧ isElement root = true

structure ParsesFragments (pugi : PugiXml) (expand : Bytes → Bytes) : Prop where
  empty : expand [] = []
  appended : ∀ text nodes more, pugi.parse text = .ok nodes → EndsWithRoot text nodes →
    60 ∉ more → pugi.parse (text ++ more) = .ok (nodes ++ trailingNodes expand more)

end ConfigManager.Reference
