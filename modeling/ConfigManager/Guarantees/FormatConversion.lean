import ConfigManager.Guarantees.Relaunch
import ConfigManager.Refinement.FormatConversion

/-!
# From one format to the other and back

A config loaded in one format is stored in the other exactly when the other has
a form for it, and nothing is lost on the way: the config that is loaded from
there is saved, in the format it came from, as the very bytes it would have been
saved as without the detour.
-/

set_option autoImplicit false

namespace ConfigManager.Guarantees
open Library Source Reference Refinement Programs Application

/-- The detour ends with the bytes of the direct way, when equal trees are saved as equal bytes. -/
theorem resaved_alike {save : Saves} {c c' : VersionedConfig}
    (alike : ∀ text, saveFile save c = (.ok (), text) → saveFile save c' = (.ok (), text))
    (saves : (saveFile save c).1 = .ok ()) : saveFile save c' = saveFile save c := by
  have direct : saveFile save c = (.ok (), (saveFile save c).2) := Prod.ext saves rfl
  rw [direct]
  exact alike _ direct

/-- XML stores what JSON has loaded exactly when its names and texts are XML; JSON stores what XML
has loaded exactly when no member of the root has the name of the JSON version. What is loaded from
there, within the limits, is saved in the first format byte for byte as the original is. -/
theorem formats_convert (json : NlohmannJson) (texts : ParsesTexts json) (pugi : PugiXml)
    (float : FloatText) (floats : ExactFloats float) (limits : LoadLimits) (input : InputStream)
    (c : VersionedConfig) (dumps : ∀ doc, JsonInterface.document c = .ok doc → Dumps json doc)
    (rereads : ∀ doc, XmlInterface.document float c = .ok doc → Rereads pugi doc) :
    ((JsonInterface.load json ⟨limits⟩ input).1 = .ok c →
      ((saveFile (XmlInterface.save pugi float) c).1 = .ok () ↔ XmlWritable (contents c.model)) ∧
      ∀ text, text.length ≤ limits.maxInputBytes →
        saveFile (XmlInterface.save pugi float) c = (.ok (), text) →
        ∃ c', (XmlInterface.load pugi float ⟨limits⟩ (fileStream text)).1 = .ok c' ∧
          c'.version = c.version ∧ contents c'.model = contents c.model ∧
          saveFile (JsonInterface.save json) c' = saveFile (JsonInterface.save json) c ∧
          (saveFile (JsonInterface.save json) c).1 = .ok ()) ∧
    ((XmlInterface.load pugi float ⟨limits⟩ input).1 = .ok c →
      ((saveFile (JsonInterface.save json) c).1 = .ok () ↔
        kVersionKey ∉ (contents c.model).keys) ∧
      ∀ text, text.length ≤ limits.maxInputBytes →
        saveFile (JsonInterface.save json) c = (.ok (), text) →
        ∃ c', (JsonInterface.load json ⟨limits⟩ (fileStream text)).1 = .ok c' ∧
          c'.version = c.version ∧ contents c'.model = contents c.model ∧
          saveFile (XmlInterface.save pugi float) c' = saveFile (XmlInterface.save pugi float) c ∧
          (saveFile (XmlInterface.save pugi float) c).1 = .ok ()) := by
  constructor
  · intro loaded
    obtain ⟨reached, writable, nodes⟩ := json_accepted json texts ⟨limits⟩ input c loaded
    have asJson := json_stores json c reached dumps {} ⟨rfl, rfl⟩
    have asXml := xml_stores pugi float floats c reached rereads {} ⟨rfl, rfl⟩
    have direct := (saveFile_succeeds _ asJson).mpr writable
    refine ⟨saveFile_succeeds _ asXml, fun text within saved => ?_⟩
    obtain ⟨c', back, version, same⟩ :=
      loadWith_saved (bytes "XML") _ asXml limits nodes text within saved
    rw [← xml_load pugi float ⟨limits⟩] at back
    have reached' := (xml_accepted pugi float ⟨limits⟩ _ c' back).1
    have alike := json_alike json c c' reached reached' version same
    exact ⟨c', back, version, same, resaved_alike alike direct, direct⟩
  · intro loaded
    obtain ⟨reached, writable, nodes⟩ := xml_accepted pugi float ⟨limits⟩ input c loaded
    have asJson := json_stores json c reached dumps {} ⟨rfl, rfl⟩
    have asXml := xml_stores pugi float floats c reached rereads {} ⟨rfl, rfl⟩
    have direct := (saveFile_succeeds _ asXml).mpr writable
    refine ⟨(saveFile_succeeds _ asJson).trans (xmlWritable_json _ writable),
      fun text within saved => ?_⟩
    obtain ⟨c', back, version, same⟩ :=
      loadWith_saved (bytes "JSON") _ asJson limits nodes text within saved
    rw [← json_load json ⟨limits⟩] at back
    have reached' := (json_accepted json texts ⟨limits⟩ _ c' back).1
    have alike := xml_alike pugi float floats c c' reached reached' version same
    exact ⟨c', back, version, same, resaved_alike alike direct, direct⟩

/-- An integer, a text of blanks and an array with a double, from JSON over XML and from XML over
JSON. -/
theorem plain_converted :
    (∃ c', (XmlInterface.load plainPugi plainFloats {} (fileStream plainText)).1 = .ok c' ∧
      saveFile (JsonInterface.save plainJson) c' = (.ok (), plainIndented ++ [10])) ∧
    ∃ c', (JsonInterface.load plainJson {} (fileStream (plainIndented ++ [10]))).1 = .ok c' ∧
      saveFile (XmlInterface.save plainPugi plainFloats) c' = (.ok (), plainText) := by
  have converts := fun input => formats_convert plainJson plainJson_parses plainPugi plainFloats
    plainFloats_exact {} input ⟨3, adoptedModel⟩ (plainJson_dumps _ rfl) (plainPugi_rereads_of _ rfl)
  have fromJson := (converts ⟨some [plainCompact], false⟩).1 rfl
  have fromXml := (converts ⟨some [plainText], false⟩).2 plainText_loads
  obtain ⟨c, loaded, _, _, saved, _⟩ := fromJson.2 plainText (by decide +kernel) rfl
  obtain ⟨c', loaded', _, _, saved', _⟩ := fromXml.2 (plainIndented ++ [10]) (by decide +kernel) rfl
  exact ⟨⟨c, loaded, saved⟩, c', loaded', saved'⟩

end ConfigManager.Guarantees
