import ConfigManager.Refinement.JsonConditions
import ConfigManager.Refinement.StoredConfigs

/-!
# Which JSON documents load

For a document delivered as the events of its literals: exactly when `load`
accepts it, as what version and tree, and which of the two error codes it answers
otherwise. The first violation in the order of the events decides.
-/

set_option autoImplicit false

namespace ConfigManager.Guarantees
open Library Source Reference Refinement

/-- The value of the carrier is the first violation. -/
def CarrierOffends (maxNodes : Nat) (doc : JsonTree) : Prop :=
  ∃ event value, FirstViolation maxNodes doc (event, .carrier value)

/-- Nothing is wrong but that the root has no carrier. -/
def CarrierMissing (maxNodes : Nat) (doc : JsonTree) : Prop :=
  NoViolation maxNodes doc ∧ kVersionKey ∉ Tree.keys doc

theorem firstViolation_iff (maxNodes : Nat) (doc : JsonTree) (event : CheckedEvent) :
    FirstViolation maxNodes doc event ↔ checkedScan maxNodes (documentChecks doc) 0 = .error event :=
  (countedScan_error_iff _ _ _ _ _).symm

theorem noViolation_iff (maxNodes : Nat) (doc : JsonTree) :
    NoViolation maxNodes doc ↔ ∃ nodes, checkedScan maxNodes (documentChecks doc) 0 = .ok nodes := by
  constructor
  · intro quiet
    exact ⟨_, (countedScan_ok_iff _ _ _ _ _).mpr ⟨quiet, rfl⟩⟩
  · intro scanned
    obtain ⟨nodes, scanned⟩ := scanned
    exact ((countedScan_ok_iff _ _ _ _ _).mp scanned).1

theorem codeOf_invalidVersion (event : CheckedEvent) :
    codeOf event = .invalidVersion ↔ ∃ value, event.2 = .carrier value := by
  obtain ⟨event, check⟩ := event
  cases check <;> simp [codeOf]

/-- With a violation the first one gives the code. -/
theorem code_of_violation (maxNodes : Nat) (doc : JsonTree) (event : CheckedEvent)
    (scanned : checkedScan maxNodes (documentChecks doc) 0 = .error event) :
    codeOf event = .invalidVersion ↔ CarrierOffends maxNodes doc ∨ CarrierMissing maxNodes doc := by
  rw [codeOf_invalidVersion]
  constructor
  · intro carrier
    obtain ⟨value, same⟩ := carrier
    exact .inl ⟨event.1, value, (firstViolation_iff _ _ _).mpr (same ▸ scanned)⟩
  · intro either
    rcases either with ⟨first, value, violation⟩ | ⟨quiet, _⟩
    · rw [firstViolation_iff, scanned, Except.error.injEq] at violation
      exact ⟨value, congrArg Prod.snd violation⟩
    · obtain ⟨nodes, fine⟩ := (noViolation_iff _ _).mp quiet
      cases scanned.symm.trans fine

/-- Without violation a root without a usable carrier has none. -/
theorem carriedIn_eq_none (maxNodes : Nat) (l : Unit) (ms : List (Bytes × JsonTree))
    (quiet : NoViolation maxNodes (Tree.object l ms)) (none : carriedIn ms = none) :
    kVersionKey ∉ ms.map Prod.fst := by
  intro inside
  obtain ⟨m, member, reserved⟩ := List.mem_map.mp inside
  obtain ⟨keys, good, _⟩ := (noViolation_object maxNodes l ms).mp quiet
  have found : lookupKey kVersionKey ms = some m.2 :=
    reserved ▸ lookup_of_mem ms keys.distinct m member
  have usable := good m member
  rw [RootGood, if_pos reserved] at usable
  rw [carriedIn, found, Option.bind_some] at none
  exact usable none

/-- What is read is an accepted document without its carrier. -/
theorem readDocument_accepts (maxNodes : Nat) (doc : JsonTree) (version : VersionId)
    (root : ConfigValue) :
    readDocument maxNodes (Tree.mapLeaves JsonScalar.delivered doc) = .ok (version, root) ↔
      ∃ ms, doc = Tree.object () ms ∧ AcceptedRoot maxNodes ms version ∧
        root = denotedJson (uncarried ms) := by
  rw [readDocument_scanned]
  constructor
  · intro read
    cases scanned : checkedScan maxNodes (documentChecks doc) 0 with
    | error event => simp [scanned] at read
    | ok nodes =>
      have quiet := (noViolation_iff _ _).mpr ⟨nodes, scanned⟩
      cases doc with
      | leaf l s => simp [scanned] at read
      | array l es => simp [scanned] at read
      | object l ms =>
        cases carried : carriedIn ms with
        | none => simp [scanned, carried] at read
        | some carrier =>
          simp only [scanned, carried, Except.ok.injEq, Prod.mk.injEq] at read
          obtain ⟨rfl, rfl⟩ := read
          exact ⟨ms, rfl, (acceptedRoot_iff _ _ _).mpr ⟨quiet, carried⟩, rfl⟩
  · intro accepted
    obtain ⟨ms, rfl, accepted, rfl⟩ := accepted
    obtain ⟨quiet, carried⟩ := (acceptedRoot_iff _ _ _).mp accepted
    obtain ⟨nodes, scanned⟩ := (noViolation_iff _ _).mp quiet
    simp only [scanned, carried]

/-- The code of a document that is not read. -/
theorem readDocument_refuses (maxNodes : Nat) (doc : JsonTree) (code : ErrorCode)
    (refused : readDocument maxNodes (Tree.mapLeaves JsonScalar.delivered doc) = .error code) :
    (code = .invalidVersion ↔ CarrierOffends maxNodes doc ∨ CarrierMissing maxNodes doc) ∧
      (code = .invalidVersion ∨ code = .parseError) := by
  rw [readDocument_scanned] at refused
  cases scanned : checkedScan maxNodes (documentChecks doc) 0 with
  | error event =>
    simp only [scanned, Except.error.injEq] at refused
    subst refused
    refine ⟨code_of_violation maxNodes doc event scanned, ?_⟩
    unfold codeOf
    split <;> simp
  | ok nodes =>
    have quiet := (noViolation_iff _ _).mpr ⟨nodes, scanned⟩
    cases doc with
    | leaf l s => exact absurd quiet (violation_noObject maxNodes _ (by simp))
    | array l es => exact absurd quiet (violation_noObject maxNodes _ (by simp))
    | object l ms =>
      cases carried : carriedIn ms with
      | some carrier => simp [scanned, carried] at refused
      | none =>
        simp only [scanned, carried, Except.error.injEq] at refused
        subst refused
        have missing := carriedIn_eq_none maxNodes l ms quiet carried
        exact ⟨iff_of_true rfl (.inr ⟨quiet, missing⟩), .inl rfl⟩

/-- `load` accepts a document exactly when its root is an object, its keys are plain and distinct
in every object, its root carries a version, its other integers are 64-bit, no node is too deep and
its nodes are within the limit; the model is then the document without the carrier. Otherwise the
code is `InvalidVersion` when the first violation is the carrier's value or only the carrier is
missing, and `ParseError` in every other case. -/
theorem json_acceptance (json : NlohmannJson) (backend : JsonInterface) (input : InputStream)
    (text : Bytes) (doc : JsonTree) (delivers : input.Delivers text)
    (within : text.length ≤ backend.limits.maxInputBytes)
    (parsed : json.events text = jsonEvents doc) :
    let maxNodes := backend.limits.maxNodes
    let loaded := (JsonInterface.load json backend input).1
    (documentChecks doc).map Prod.fst = json.events text ∧
      ((∃ config, loaded = .ok config) ↔
        ∃ ms version, doc = Tree.object () ms ∧ AcceptedRoot maxNodes ms version) ∧
      (∀ config, loaded = .ok config → ∃ ms, doc = Tree.object () ms ∧
        AcceptedRoot maxNodes ms config.version ∧
        contents config.model = denotedJson (uncarried ms)) ∧
      ∀ e, loaded = .error e →
        (e.code = .invalidVersion ↔ CarrierOffends maxNodes doc ∨ CarrierMissing maxNodes doc) ∧
        (e.code = .invalidVersion ∨ e.code = .parseError) := by
  intro maxNodes loaded
  have events : (documentChecks doc).map Prod.fst = json.events text := by
    rw [documentChecks_events, parsed]
  have reads := decode_reads json backend.limits text _ parsed
  have decoded : loaded = JsonInterface.decode json backend.limits text := by
    change (JsonInterface.load json backend input).1 = _
    rw [json_load, loadWith_within _ _ _ _ text delivers within]
  rw [decoded]
  cases read : readDocument maxNodes (Tree.mapLeaves JsonScalar.delivered doc) with
  | ok result =>
    obtain ⟨version, root⟩ := result
    rw [read] at reads
    obtain ⟨m, done, same, _⟩ := reads
    obtain ⟨ms, shape, accepted, denoted⟩ := (readDocument_accepts _ _ _ _).mp read
    rw [done]
    refine ⟨events, iff_of_true ⟨_, rfl⟩ ⟨ms, version, shape, accepted⟩, ?_, ?_⟩
    · intro config loaded
      cases loaded
      exact ⟨ms, shape, accepted, same.trans denoted⟩
    · intro e failed
      cases failed
  | error code =>
    rw [read] at reads
    cases answer : JsonInterface.decode json backend.limits text with
    | ok config =>
      rw [answer] at reads
      cases reads
    | error e =>
      have code' : e.code = code := by simpa [answer, outcome] using reads
      refine ⟨events, iff_of_false (fun loaded => by simp at loaded) ?_, ?_, ?_⟩
      · intro accepted
        obtain ⟨ms, version, shape, accepted⟩ := accepted
        cases read.symm.trans ((readDocument_accepts _ _ _ _).mpr ⟨ms, shape, accepted, rfl⟩)
      · intro config loaded
        cases loaded
      · intro e' failed
        cases failed
        rw [code']
        exact readDocument_refuses maxNodes doc code read

/-- A document with a negative carrier and an empty key after it. -/
def negativeCarrier : JsonTree :=
  Tree.object () [(kVersionKey, Tree.leaf () (.integer true 1 ⟨0⟩)),
    ([], Tree.leaf () (.boolean true))]

def negativeText : Bytes := bytes "\x7b\"__version\": -1, \"\": true\x7d"

theorem negativeCarrier_first :
    FirstViolation 10 negativeCarrier
      (.numberInteger (-1), .carrier (Tree.leaf () (.integer true 1 ⟨0⟩))) := by
  have key : PlainKey kVersionKey ∧ kVersionKey ∉ ([] : List Bytes) :=
    ⟨(addressable_iff _).mp addressable_versionKey, List.not_mem_nil⟩
  refine ⟨[(.startObject, .opening 0), (.key kVersionKey, .key kVersionKey [])],
    rootChecks [([], Tree.leaf () (.boolean true))] [kVersionKey] ++ [(.endObject, .closing)], ?_,
    rfl, ?_⟩
  · rw [negativeCarrier, documentChecks, rootChecks, if_pos rfl]
    rfl
  · change Quiet 10 _ 0
    rw [Quiet, inoffensive_cons]
    exact ⟨Nat.not_lt_zero _, (quiet_key _ _ _ _ _).mpr ⟨key, inoffensive_nil _ _ _⟩⟩

/-- The carrier comes first, so its violation gives the code. -/
theorem negativeCarrier_refused :
    ∃ e, (JsonInterface.load ⟨fun _ => .error [], fun _ => jsonEvents negativeCarrier⟩
      ⟨⟨1000, 10⟩⟩ ⟨some [negativeText], false⟩).1 = .error e ∧ e.code = .invalidVersion := by
  have all := json_acceptance ⟨fun _ => .error [], fun _ => jsonEvents negativeCarrier⟩
    ⟨⟨1000, 10⟩⟩ ⟨some [negativeText], false⟩ negativeText negativeCarrier ⟨_, rfl, rfl, by decide⟩
    (by decide) rfl
  refine ⟨_, rfl, ?_⟩
  exact (all.2.2.2 _ rfl).1.mpr (.inl ⟨_, _, negativeCarrier_first⟩)

end ConfigManager.Guarantees
