import ConfigManager.Source.XmlInterface

/-!
# What the XML backend relies on of pugixml and the standard library

Documented behaviour of code outside the repository: parsing a written document
gives back its elements, attributes and text, and between the children of an
element with child elements any whitespace that the indentation left; shortest
`to_chars` and `from_chars` are inverse on finite doubles.
-/

set_option autoImplicit false

namespace ConfigManager.Reference
open Library Source

/-- The same nodes, with whitespace-only text anywhere between them. -/
inductive Respaced (same : XmlNode → XmlNode → Prop) : List XmlNode → List XmlNode → Prop where
  | done : Respaced same [] []
  | space (text : Bytes) (blank : isXmlWhitespace text = true) (nodes nodes' : List XmlNode)
      (rest : Respaced same nodes nodes') : Respaced same nodes (.pcdata text :: nodes')
  | node (node node' : XmlNode) (here : same node node') (nodes nodes' : List XmlNode)
      (rest : Respaced same nodes nodes') : Respaced same (node :: nodes) (node' :: nodes')

/-- The same node up to whitespace in elements that have child elements. -/
inductive Reformatted : XmlNode → XmlNode → Prop where
  | text (value : Bytes) : Reformatted (.pcdata value) (.pcdata value)
  | flat (name : Bytes) (attributes : List (Bytes × Bytes)) (children : List XmlNode)
      (plain : hasElementChildren children = false) :
      Reformatted (.element name attributes children) (.element name attributes children)
  | nested (name : Bytes) (attributes : List (Bytes × Bytes)) (children children' : List XmlNode)
      (container : hasElementChildren children = true)
      (spaced : Respaced Reformatted children children') :
      Reformatted (.element name attributes children) (.element name attributes children')

/-- pugixml reads this document back. -/
def Rereads (pugi : PugiXml) (doc : List XmlNode) : Prop :=
  ∃ nodes, pugi.parse (pugi.write doc) = .ok nodes ∧ Respaced Reformatted doc nodes

/-- Finite doubles survive their text, which holds no NUL. -/
structure ExactFloats (float : FloatText) : Prop where
  exact : ∀ d, d.isFinite = true → float.fromChars (float.toChars d) = (.ok d, [])
  printable : ∀ d, d.isFinite = true → 0 ∉ float.toChars d

/-- `from_chars` reads printable ASCII only. -/
def AsciiFloats (float : FloatText) : Prop :=
  ∀ text value, float.fromChars text = (.ok value, []) →
    ∀ c ∈ text, 32 ≤ c.toNat ∧ c.toNat < 127

/-- Conversions that read no double. -/
def noFloats : FloatText := ⟨fun _ => [], fun text => (.error .invalidArgument, text)⟩

end ConfigManager.Reference
