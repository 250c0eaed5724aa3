import ConfigManager.Refinement.StoredConfigs

/-!
# JSON decode undoes encode

For a config over a reachable model, what makes `save` succeed, and that `load`
reads the written document back as the same version and the same tree.
nlohmann/json is assumed to behave as documented on the document that is saved.
-/

set_option autoImplicit false

namespace ConfigManager.Guarantees
open Library Source Reference Refinement

/-- `save` succeeds exactly when the carrier's key is free at the root, all doubles are finite
and all keys and strings are UTF-8, and then `load` returns the same version and tree. -/
theorem json_round_trip (json : NlohmannJson) (c : VersionedConfig) (reached : Reachable c.model)
    (dumps : ∀ doc, JsonInterface.document c = .ok doc → Dumps json doc) (out : OutputStream)
    (working : out.Working) :
    ((JsonInterface.save json c out).1 = .ok () ↔
        kVersionKey ∉ (contents c.model).keys ∧ Tree.EveryLeaf FiniteScalar (contents c.model) ∧
          Tree.EveryKey ValidUtf8 (contents c.model) ∧
            Tree.EveryLeaf Utf8Scalar (contents c.model)) ∧
      ∀ out', JsonInterface.save json c out = (.ok (), out') →
        ∃ text, out'.written = out.written ++ text ∧
          ∀ (backend : JsonInterface) (input : InputStream), input.Delivers text →
            text.length ≤ backend.limits.maxInputBytes →
            (contents c.model).size ≤ backend.limits.maxNodes →
            ∃ c', (JsonInterface.load json backend input).1 = .ok c' ∧ c'.version = c.version ∧
              contents c'.model = contents c.model := by
  have stores := json_stores json c reached dumps out working
  refine ⟨stores.succeeds, fun out' saved => ?_⟩
  obtain ⟨text, written, loads⟩ := stores.text out' saved
  refine ⟨text, written, fun backend input delivers within nodes => ?_⟩
  rw [json_load, loadWith_within _ _ _ _ text delivers within]
  exact loads backend.limits nodes

/-- A model with one negative integer and one string. -/
def sampleModel : ConfigModel :=
  ((ConfigModel.empty.set (bytes "n") (ConfigValue.of (.int (-42)))).2.set (bytes "s")
    (ConfigValue.of (.string (bytes "two")))).2

def sampleText : Bytes :=
  bytes "\x7b\n  \"__version\": 3,\n  \"n\": -42,\n  \"s\": \"two\"\n\x7d"

/-- nlohmann/json on the document of `sampleModel` at version 3. -/
def sampleJson : NlohmannJson where
  dump _ := .ok sampleText
  events _ := [.startObject, .key kVersionKey, .numberUnsigned 3, .key (bytes "n"),
    .numberInteger (-42), .key (bytes "s"), .string (bytes "two"), .endObject]

/-- Its document is that of every model with the same members. -/
theorem sampleJson_dumps (m : ConfigModel)
    (known : JsonInterface.document ⟨3, m⟩ = .ok (documentOf 3 [
      (bytes "n", ConfigValue.of (.int (-42))), (bytes "s", ConfigValue.of (.string (bytes "two")))])) :
    ∀ doc, JsonInterface.document ⟨3, m⟩ = .ok doc → Dumps sampleJson doc := by
  intro doc built
  rw [known, Except.ok.injEq] at built
  subst built
  refine ⟨⟨fun _ => ?_, fun _ => ⟨_, rfl⟩⟩, fun _ text dumped => ?_⟩
  · rw [documentOf_utf8]
    simp only [Tree.everyKey_object, Tree.everyLeaf_object, ConfigValue.of, List.forall_mem_cons,
      Tree.everyKey_leaf, Tree.everyLeaf_leaf, List.not_mem_nil, false_imp_iff, implies_true,
      and_true]
    exact ⟨⟨⟨['n'], rfl⟩, ⟨['s'], rfl⟩⟩, trivial, ⟨['t', 'w', 'o'], rfl⟩⟩
  · exact ⟨fun _ => bytes "0.0", fun _ _ => rfl, rfl⟩

theorem sampleModel_round_trips :
    ∃ c', (JsonInterface.load sampleJson {} ⟨some [sampleText, [10]], false⟩).1 = .ok c' ∧
      c'.version = 3 ∧ contents c'.model = contents sampleModel := by
  obtain ⟨text, written, loads⟩ := (json_round_trip sampleJson ⟨3, sampleModel⟩
    (.set _ _ ⟨_, by decide⟩ (.set _ _ ⟨_, by decide⟩ .empty)) (sampleJson_dumps _ rfl) {} ⟨rfl, rfl⟩).2
    _ rfl
  have same : sampleText ++ [10] = text := written
  subst same
  exact loads {} ⟨some [sampleText, [10]], false⟩ ⟨_, rfl, rfl, by decide⟩ (by decide) (by decide)

end ConfigManager.Guarantees
