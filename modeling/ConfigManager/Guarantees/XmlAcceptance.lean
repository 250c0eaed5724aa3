import ConfigManager.Refinement.XmlFormatting

/-!
# Which XML documents load

For every tree of elements, attributes and text nodes, exactly when the conversion
in `load` accepts it and as what, and that whitespace between elements is
formatting.
-/

set_option autoImplicit false

namespace ConfigManager.Guarantees
open Library Source Reference Refinement

/-- The conversion accepts a document exactly when it denotes a version and a tree within the
limits, which are then the version and the tree it answers, and whitespace-only text among the
children of objects and arrays or outside the root changes nothing. -/
theorem xml_acceptance (float : FloatText) (limits : LoadLimits) (nodes : List XmlNode) :
    ((∃ c, XmlInterface.convert float limits nodes = .ok c) ↔
        ∃ version root, DocumentDenotes float cString limits.maxNodes nodes version root) ∧
      (∀ c, XmlInterface.convert float limits nodes = .ok c → ∀ version root,
        DocumentDenotes float cString limits.maxNodes nodes version root ↔
          version = c.version ∧ root = contents c.model) ∧
      ∀ nodes', Respacing SameRoot nodes nodes' →
        XmlInterface.convert float limits nodes' = XmlInterface.convert float limits nodes := by
  refine ⟨?_, ?_, convert_respacing float limits nodes⟩
  · constructor
    · intro converted
      obtain ⟨c, converted⟩ := converted
      exact ⟨_, _, (convert_iff float limits nodes _ _).mp ⟨c, converted, rfl, rfl⟩⟩
    · intro denotes
      obtain ⟨version, root, denotes⟩ := denotes
      obtain ⟨c, converted, _⟩ := (convert_iff float limits nodes version root).mpr denotes
      exact ⟨c, converted⟩
  · intro c converted version root
    rw [← convert_iff, converted]
    simp only [Except.ok.injEq, exists_eq_left', eq_comm]

/-- The element `<config version="3">` with an empty object, a string of one blank and an item. -/
def formattedDocument : List XmlNode :=
  [.element (bytes "config") [(bytes "version", bytes "3")]
    [.pcdata (bytes "\n  "), .element (bytes "o") [(bytes "type", bytes "object")] [.pcdata [32]],
      .element (bytes "s") [] [.pcdata [32]],
      .element (bytes "a") [(bytes "type", bytes "array")]
        [.element (bytes "item") [(bytes "type", bytes "int")] [.pcdata (bytes "-7")]]]]

example : (XmlInterface.convert noFloats {} formattedDocument).map
    (fun c => (c.version, contents c.model)) =
      .ok (3, Tree.object () [(bytes "o", Tree.object () []),
        (bytes "s", ConfigValue.of (.string [32])),
        (bytes "a", Tree.array () [ConfigValue.of (.int (-7))])]) := by
  rfl

end ConfigManager.Guarantees
