import ConfigManager.Refinement.XmlBuilding

/-!
# Saving as XML when memory runs out

However pugixml and the standard library run out of memory while `save` builds its
document, the call throws. A call that returns has had every allocation granted, so
no truncated document is reported as saved.
-/

set_option autoImplicit false

namespace ConfigManager.Guarantees
open Library Source Refinement XmlBuilding

/-- A call that throws left the stream alone, unless the stream failed under the whole document
and the message about that could not be allocated. -/
structure Threw (out written : OutputStream) (outcome : Nat → Outcome) (after : Saving) : Prop where
  starved : ∃ i < after.performed, outcome i ≠ .granted
  stream : after.out = out ∨ after.out = written ∧ written.failed = true

theorem writeDocument_ensures (pugi : PugiXml) (float : FloatText) (config : VersionedConfig)
    (out : OutputStream) (outcome : Nat → Outcome) (saving : Saving)
    (supplied : Supplied out outcome saving)
    (built : XmlInterface.document float config = .ok saving.doc.children) :
    Throwing.Ensures (writeDocument pugi) saving
      (fun result after => (result, after.out) = XmlInterface.save pugi float config out ∧
        ∀ i < after.performed, outcome i = .granted)
      (Threw out (XmlInterface.save pugi float config out).2 outcome) := by
  have wrote : Supplied (out.write (pugi.write saving.doc.children)) outcome
      { saving with out := saving.out.write (pugi.write saving.doc.children) } := by
    refine ⟨?_, supplied.outcomes, supplied.granted⟩
    rw [supplied.unwritten]
  have whole : XmlInterface.save pugi float config out =
      if (out.write (pugi.write saving.doc.children)).failed then
        (fail .serializationError (bytes "failed to write XML document to stream"),
          out.write (pugi.write saving.doc.children))
      else (.ok (), out.write (pugi.write saving.doc.children)) := by
    rw [XmlInterface.save, built]
  change Throwing.Ensures (if (saving.out.write (pugi.write saving.doc.children)).failed = true
    then refuse (fail .serializationError (bytes "failed to write XML document to stream"))
    else return .ok ()) { saving with out := saving.out.write (pugi.write saving.doc.children) } _ _
  rw [supplied.unwritten] at wrote ⊢
  by_cases broken : (out.write (pugi.write saving.doc.children)).failed = true
  · rw [if_pos broken] at whole ⊢
    rw [whole]
    apply Throwing.Ensures.bind (Throwing.Ensures.imp (request_does wrote) (fun _ _ reached => reached)
      fun _ starved => ⟨starved.failed, .inr ⟨starved.unwritten, broken⟩⟩)
    intro _ after reached
    exact ⟨by rw [reached.1.unwritten], reached.1.granted⟩
  · rw [if_neg broken] at whole ⊢
    rw [whole]
    exact ⟨rfl, wrote.granted⟩

/-- Whatever fails to be allocated: a call that returns did what it does without failures, and all
its allocations were granted; otherwise it throws. -/
theorem starved_save_throws (pugi : PugiXml) (float : FloatText) (config : VersionedConfig)
    (out : OutputStream) (outcome : Nat → Outcome) :
    Throwing.Ensures (XmlBuilding.save pugi float config) { out := out, outcome := outcome }
      (fun result after => (result, after.out) = XmlInterface.save pugi float config out ∧
        ∀ i < after.performed, outcome i = .granted)
      (Threw out (XmlInterface.save pugi float config out).2 outcome) := by
  unfold XmlBuilding.save
  apply Throwing.Ensures.bind
    (Throwing.Ensures.imp (buildDocument_does float config out outcome)
      (fun _ _ reached => reached) fun _ starved => ⟨starved.failed, .inl starved.unwritten⟩)
  intro result after reached
  obtain ⟨supplied, built⟩ := reached
  cases result with
  | error e =>
    refine ⟨?_, supplied.granted⟩
    rw [XmlInterface.save, built, supplied.unwritten]
  | ok _ => exact writeDocument_ensures pugi float config out outcome after supplied built

end ConfigManager.Guarantees
