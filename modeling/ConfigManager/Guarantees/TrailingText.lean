import ConfigManager.Reference.XmlFragment
import ConfigManager.Refinement.StoredConfigs
import ConfigManager.Refinement.XmlFormatting

/-!
# Text behind the root of an XML document

The scan of the document's text nodes sees what pugixml keeps of the text behind
the root. It keeps neither the last byte nor what follows a NUL, so text that
consists of no more than that is accepted unseen.
-/

set_option autoImplicit false

namespace ConfigManager.Guarantees
open Library Source Reference Refinement

theorem checkDocument_error (nodes : List XmlNode) (seen : Bool) (e : Error)
    (refused : XmlInterface.checkDocument nodes seen = .error e) : e.code = .parseError := by
  induction nodes generalizing seen with
  | nil => cases refused
  | cons node rest ih =>
    cases node with
    | other => exact ih seen refused
    | element name attributes children =>
      rw [XmlInterface.checkDocument] at refused
      split at refused
      · cases refused
        rfl
      · exact ih true refused
    | pcdata text =>
      rw [XmlInterface.checkDocument] at refused
      split at refused
      · cases refused
        rfl
      · exact ih seen refused
    | cdata text =>
      rw [XmlInterface.checkDocument] at refused
      split at refused
      · cases refused
        rfl
      · exact ih seen refused

/-- Text that is not blank is refused wherever it stands in the document. -/
theorem convert_unspaced (float : FloatText) (limits : LoadLimits) (nodes : List XmlNode)
    (text : ¬ Spaced nodes) :
    ∃ e, XmlInterface.convert float limits nodes = .error e ∧ e.code = .parseError := by
  unfold XmlInterface.convert
  cases checked : XmlInterface.checkDocument nodes false with
  | ok done => exact absurd ((checkDocument_ok nodes false).mp checked).1 text
  | error e => exact ⟨e, rfl, checkDocument_error nodes false e checked⟩

/-- Blank text behind the nodes changes nothing. -/
theorem convert_trailing (float : FloatText) (limits : LoadLimits) (expand : Bytes → Bytes)
    (nodes : List XmlNode) (more : Bytes) (blank : IsBlank (expand (keptText more))) :
    XmlInterface.convert float limits (nodes ++ trailingNodes expand more) =
      XmlInterface.convert float limits nodes := by
  apply convert_respacing
  have tail : Respacing SameRoot [] (trailingNodes expand more) := by
    unfold trailingNodes
    split
    · exact .done
    · exact .added _ ⟨_, rfl, blank⟩ _ _ .done
  induction nodes with
  | nil => exact tail
  | cons node rest ih => exact .node node node (.same node) rest _ ih

/-- A document that `load` accepts, with more text behind its root, is refused as malformed exactly
when it gets too long or when something other than whitespace is left of that text. -/
theorem trailing_text_refused (pugi : PugiXml) (float : FloatText) (expand : Bytes → Bytes)
    (fragments : ParsesFragments pugi expand) (backend : XmlInterface)
    (input input' : InputStream) (text more : Bytes) (nodes : List XmlNode)
    (delivers : input.Delivers text) (delivers' : input'.Delivers (text ++ more))
    (parsed : pugi.parse text = .ok nodes) (ends : EndsWithRoot text nodes)
    (accepted : ∃ c, (XmlInterface.load pugi float backend input).1 = .ok c) (markup : 60 ∉ more) :
    (∃ e, (XmlInterface.load pugi float backend input').1 = .error e ∧ e.code = .parseError) ↔
      backend.limits.maxInputBytes < (text ++ more).length ∨ ¬ IsBlank (expand (keptText more)) := by
  rw [xml_load]
  by_cases long : backend.limits.maxInputBytes < (text ++ more).length
  · obtain ⟨message, refused⟩ := loadWith_over (bytes "XML") (xmlDecode pugi float) backend.limits
      input' (text ++ more) delivers' long
    exact iff_of_true ⟨_, refused, rfl⟩ (.inl long)
  have within : (text ++ more).length ≤ backend.limits.maxInputBytes := Nat.le_of_not_lt long
  have short : text.length ≤ backend.limits.maxInputBytes := by
    rw [List.length_append] at within
    omega
  rw [loadWith_within _ _ _ _ _ delivers' within,
    xmlDecode_parsed _ _ _ _ _ (fragments.appended text nodes more parsed ends markup)]
  obtain ⟨c, loaded⟩ := accepted
  rw [xml_load, loadWith_within _ _ _ _ _ delivers short,
    xmlDecode_parsed _ _ _ _ _ parsed] at loaded
  by_cases blank : IsBlank (expand (keptText more))
  · rw [convert_trailing float backend.limits expand nodes more blank, loaded]
    apply iff_of_false
    · intro failed
      obtain ⟨e, failed, _⟩ := failed
      cases failed
    · rw [not_or]
      exact ⟨long, not_not_intro blank⟩
  · have unspaced : ¬ Spaced (nodes ++ trailingNodes expand more) := by
      intro spaced
      apply blank
      have kept : keptText more ≠ [] := by
        intro none
        apply blank
        rw [none, fragments.empty]
        intro c inside
        cases inside
      apply spaced
      rw [trailingNodes, if_neg kept, texts, List.filterMap_append, List.mem_append]
      exact .inr (List.mem_singleton.mpr rfl)
    exact iff_of_true (convert_unspaced float backend.limits _ unspaced) (.inr blank)

/-! ## One byte too many -/

def rootText : Bytes := bytes "<config version=\"1\"/>"

def rootOnly : List XmlNode := [.element kRootName [(kVersionAttr, bytes "1")] []]

/-- pugixml on the document `rootText` with text behind it, without references. -/
def fragmentPugi : PugiXml where
  write _ := rootText
  parse text :=
    if rootText <+: text ∧ 60 ∉ text.drop rootText.length then
      .ok (rootOnly ++ trailingNodes id (text.drop rootText.length))
    else .error (bytes "no document")

theorem fragmentPugi_appended (more : Bytes) (markup : 60 ∉ more) :
    fragmentPugi.parse (rootText ++ more) = .ok (rootOnly ++ trailingNodes id more) := by
  have rest : (rootText ++ more).drop rootText.length = more := List.drop_left
  change (if _ then _ else _) = _
  rw [rest, if_pos ⟨List.prefix_append _ _, markup⟩]

/-- The tag that ends the document is no longer at its end once a byte follows. -/
theorem no_tag_behind_root (c : UInt8) (nodes : List XmlNode) :
    ¬ EndsWithRoot (rootText ++ [c]) nodes := by
  intro ends
  have shape : (rootText ++ [c]).reverse = c :: 62 :: rootText.reverse.tail := by
    rw [List.reverse_append]
    rfl
  rcases ends.tag with ⟨before, same⟩ | ⟨before, space, same, white⟩
  · have reversed := congrArg List.reverse same
    rw [shape, List.reverse_append] at reversed
    cases reversed
  · have reversed := congrArg List.reverse same
    rw [shape, List.reverse_append, List.reverse_append, List.reverse_append] at reversed
    obtain ⟨_, reversed⟩ := List.cons.inj reversed
    cases blank : space.reverse with
    | nil =>
      rw [blank] at reversed
      cases reversed
    | cons d rest =>
      rw [blank] at reversed
      have same : 62 = d := (List.cons.inj reversed).1
      subst same
      have member : 62 ∈ space := List.mem_reverse.mp (blank ▸ List.mem_cons_self)
      exact absurd (white 62 member) (by decide)

theorem fragmentPugi_parses : ParsesFragments fragmentPugi id := by
  refine ⟨rfl, fun text nodes more parsed ends markup => ?_⟩
  change (if _ then _ else _) = _ at parsed
  split at parsed
  · next known =>
    obtain ⟨⟨rest, rfl⟩, clean⟩ := known
    rw [List.drop_left] at parsed clean
    cases parsed
    have none : keptText rest = [] := by
      by_contra kept
      obtain ⟨before, root, shape, element⟩ := ends.last
      rw [trailingNodes, if_neg kept] at shape
      obtain ⟨_, same⟩ := List.append_inj' shape rfl
      cases same
      cases element
    have plain : 0 ∉ rest := fun inside => ends.plain (List.mem_append_right _ inside)
    rw [keptText, if_neg plain] at none
    cases rest with
    | nil =>
      have nothing : trailingNodes id [] = [] := rfl
      rw [List.append_nil, fragmentPugi_appended more markup, nothing, List.append_nil]
    | cons c later =>
      cases later with
      | nil => exact absurd ends (no_tag_behind_root c _)
      | cons d later => cases none
  · cases parsed

theorem rootText_ends : EndsWithRoot rootText rootOnly :=
  ⟨by decide, .inl ⟨bytes "<config version=\"1\"", rfl⟩, [], _, rfl, rfl⟩

theorem rootText_parsed : fragmentPugi.parse rootText = .ok rootOnly := by
  have parsed := fragmentPugi_appended [] (by decide)
  rwa [List.append_nil] at parsed

/-- A single letter behind the root goes unnoticed. -/
theorem stray_letter_accepted :
    ParsesFragments fragmentPugi id ∧ EndsWithRoot rootText rootOnly ∧
      fragmentPugi.parse rootText = .ok rootOnly ∧ 60 ∉ bytes "x" ∧
      (∃ c ∈ bytes "x", ¬ (c = 32 ∨ c = 9 ∨ c = 10 ∨ c = 13)) ∧
      (∃ c, (XmlInterface.load fragmentPugi noFloats {} ⟨some [rootText], false⟩).1 = .ok c) ∧
      ∃ c, (XmlInterface.load fragmentPugi noFloats {} ⟨some [rootText ++ bytes "x"], false⟩).1 =
        .ok c :=
  ⟨fragmentPugi_parses, rootText_ends, rootText_parsed, by decide,
    ⟨120, by decide, by decide⟩, ⟨_, rfl⟩, ⟨_, rfl⟩⟩

/-- Two letters are noticed. -/
theorem two_letters_refused :
    ∃ e, (XmlInterface.load fragmentPugi noFloats {} ⟨some [rootText ++ bytes "xy"], false⟩).1 =
      .error e ∧ e.code = .parseError := by
  refine (trailing_text_refused fragmentPugi noFloats id fragmentPugi_parses {}
    ⟨some [rootText], false⟩ ⟨some [rootText ++ bytes "xy"], false⟩ rootText (bytes "xy") rootOnly
    ⟨_, rfl, by simp, by decide⟩ ⟨_, rfl, by simp, by decide⟩ rootText_parsed rootText_ends ⟨_, rfl⟩
    (by decide)).mpr (.inr fun blank => ?_)
  have white := blank 120 (by decide)
  exact absurd white (by decide)

end ConfigManager.Guarantees
