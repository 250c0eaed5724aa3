import ConfigManager.Refinement.XmlEncoding
import ConfigManager.Source.XmlBuilding

/-!
# The document that is built in place

Handles stay good while nodes are appended, so filling an element through its handle
puts into the document what the plain encoder answers for that element. Throughout a
call every outcome was granted; where the call throws, one was not.
-/

set_option autoImplicit false

namespace ConfigManager.Refinement
open Library Source Reference XmlBuilding
open Throwing (Ensures bind_returned)

/-! ## Handles -/

namespace XmlHandles

def IsElement (node : XmlNode) : Prop :=
  ∃ name attributes children, node = .element name attributes children

theorem appendChild_isElement {node : XmlNode} (element : IsElement node) (child : XmlNode) :
    IsElement (node.appendChild child) := by
  obtain ⟨name, attributes, children, rfl⟩ := element
  exact ⟨name, attributes, children ++ [child], rfl⟩

theorem nodeAt_append (node : XmlNode) (handle below : Handle) :
    node.nodeAt (handle ++ below) = (node.nodeAt handle).bind fun found => found.nodeAt below := by
  induction handle generalizing node with
  | nil => rfl
  | cons i handle ih =>
    simp only [List.cons_append, XmlNode.nodeAt]
    cases node.children[i]? with
    | none => rfl
    | some child => exact ih child

theorem editAt_append (f : XmlNode → XmlNode) (node : XmlNode) (handle below : Handle) :
    node.editAt f (handle ++ below) = node.editAt (fun found => found.editAt f below) handle := by
  induction handle generalizing node with
  | nil => rfl
  | cons i handle ih =>
    cases node with
    | element name attributes children =>
      simp only [List.cons_append, XmlNode.editAt, ih]
    | pcdata value => rfl
    | cdata value => rfl
    | other => rfl

theorem editAt_editAt (f g : XmlNode → XmlNode) (node : XmlNode) (handle : Handle) :
    (node.editAt f handle).editAt g handle = node.editAt (fun found => g (f found)) handle := by
  induction handle generalizing node with
  | nil => rfl
  | cons i handle ih =>
    cases node with
    | element name attributes children =>
      simp only [XmlNode.editAt, List.modify_modify_eq, Function.comp_def, ih]
    | pcdata value => rfl
    | cdata value => rfl
    | other => rfl

section
variable {node found : XmlNode} {handle : Handle} (there : node.nodeAt handle = some found)
include there

/-- The first step of the way to a node that is there. -/
theorem nodeAt_cons {i : Nat} {below : Handle} (same : handle = i :: below) :
    ∃ name attributes children child, node = .element name attributes children ∧
      children[i]? = some child ∧ child.nodeAt below = some found := by
  subst same
  cases node with
  | element name attributes children =>
    simp only [XmlNode.nodeAt, XmlNode.children] at there
    cases here : children[i]? with
    | none => rw [here] at there; cases there
    | some child =>
      rw [here] at there
      exact ⟨name, attributes, children, child, rfl, here, there⟩
  | pcdata value => cases there
  | cdata value => cases there
  | other => cases there

theorem nodeAt_editAt (f : XmlNode → XmlNode) :
    (node.editAt f handle).nodeAt handle = some (f found) := by
  induction handle generalizing node with
  | nil => cases there; rfl
  | cons i handle ih =>
    obtain ⟨name, attributes, children, child, rfl, here, below⟩ := nodeAt_cons there rfl
    simp only [XmlNode.editAt, XmlNode.nodeAt, XmlNode.children, List.getElem?_modify_eq, here]
    exact ih below

/-- Only what the edit makes of the node there counts. -/
theorem editAt_congr (f g : XmlNode → XmlNode) (same : f found = g found) :
    node.editAt f handle = node.editAt g handle := by
  induction handle generalizing node with
  | nil => cases there; exact same
  | cons i handle ih =>
    obtain ⟨name, attributes, children, child, rfl, here, below⟩ := nodeAt_cons there rfl
    simp only [XmlNode.editAt]
    congr 1
    apply List.ext_getElem?
    intro j
    by_cases other : i = j
    · subst other
      simp only [List.getElem?_modify_eq, here, Option.map_eq_map, Option.map_some, ih below]
    · rw [List.getElem?_modify_ne _ _ other, List.getElem?_modify_ne _ _ other]

end

theorem editAt_id (node : XmlNode) (handle : Handle) :
    node.editAt (fun found => found) handle = node := by
  induction handle generalizing node with
  | nil => rfl
  | cons i handle ih =>
    cases node with
    | element name attributes children =>
      simp only [XmlNode.editAt, ih]
      exact congrArg _ (List.modify_id i children)
    | pcdata value => rfl
    | cdata value => rfl
    | other => rfl

theorem modify_last {α : Type} (f : α → α) (l : List α) (a : α) :
    (l ++ [a]).modify l.length f = l ++ [f a] := by
  induction l with
  | nil => rfl
  | cons b l ih => simp only [List.cons_append, List.length_cons, List.modify_succ_cons, ih]

/-- Appending a child and editing it through its handle. -/
theorem editAt_child (node : XmlNode) (handle : Handle) (name : Bytes)
    (attributes : List (Bytes × Bytes)) (children : List XmlNode)
    (there : node.nodeAt handle = some (.element name attributes children)) (child : XmlNode)
    (f : XmlNode → XmlNode) :
    (node.editAt (fun found => found.appendChild child) handle).editAt f
        (handle ++ [children.length]) =
      node.editAt (fun found => found.appendChild (f child)) handle := by
  rw [editAt_append, editAt_editAt]
  apply editAt_congr there
  simp only [XmlNode.appendChild, XmlNode.editAt, modify_last]

theorem nodeAt_child (node : XmlNode) (handle : Handle) (name : Bytes)
    (attributes : List (Bytes × Bytes)) (children : List XmlNode)
    (there : node.nodeAt handle = some (.element name attributes children)) (child : XmlNode) :
    (node.editAt (fun found => found.appendChild child) handle).nodeAt
      (handle ++ [children.length]) = some child := by
  rw [nodeAt_append, nodeAt_editAt there]
  simp [XmlNode.appendChild, XmlNode.nodeAt, XmlNode.children]

end XmlHandles

open XmlHandles

/-! ## Calls that go on and calls that throw -/

/-- Every operation so far succeeded, and nothing is written yet. -/
structure Supplied (out : OutputStream) (outcome : Nat → Outcome) (saving : Saving) : Prop where
  unwritten : saving.out = out
  outcomes : saving.outcome = outcome
  granted : ∀ i < saving.performed, outcome i = .granted

structure Starved (out : OutputStream) (outcome : Nat → Outcome) (saving : Saving) : Prop where
  unwritten : saving.out = out
  failed : ∃ i < saving.performed, outcome i ≠ .granted

variable {α β : Type} {out : OutputStream} {outcome : Nat → Outcome} {saving : Saving}

/-- The body returns with this document and all its operations granted, or it throws because one
was not. -/
def Does (out : OutputStream) (outcome : Nat → Outcome) (body : Throwing Saving α) (saving : Saving)
    (returns : α → XmlNode → Prop) : Prop :=
  Ensures body saving (fun value after => Supplied out outcome after ∧ returns value after.doc)
    (Starved out outcome)

theorem Does.pure (supplied : Supplied out outcome saving) (value : α)
    {returns : α → XmlNode → Prop} (holds : returns value saving.doc) :
    Does out outcome (Pure.pure value) saving returns :=
  ⟨supplied, holds⟩

theorem Does.bind {body : Throwing Saving α} {next : α → Throwing Saving β}
    {returns : α → XmlNode → Prop} {returns' : β → XmlNode → Prop}
    (first : Does out outcome body saving returns)
    (rest : ∀ value after, Supplied out outcome after → returns value after.doc →
      Does out outcome (next value) after returns') :
    Does out outcome (body >>= next) saving returns' :=
  Ensures.bind first fun value after reached => rest value after reached.1 reached.2

theorem Does.imp {body : Throwing Saving α} {returns returns' : α → XmlNode → Prop}
    (does : Does out outcome body saving returns)
    (weaker : ∀ value doc, returns value doc → returns' value doc) :
    Does out outcome body saving returns' :=
  Ensures.imp does (fun value after reached => ⟨reached.1, weaker value after.doc reached.2⟩)
    fun _ starved => starved

/-! ## One operation -/

/-- After one more operation, with this document. -/
def performing (saving : Saving) (doc : XmlNode) : Saving :=
  { saving with doc := doc, performed := saving.performed + 1 }

theorem Supplied.performing (supplied : Supplied out outcome saving) (doc : XmlNode)
    (granted : saving.outcome saving.performed = .granted) :
    Supplied out outcome (performing saving doc) where
  unwritten := supplied.unwritten
  outcomes := supplied.outcomes
  granted i below := by
    by_cases last : i = saving.performed
    · rw [last, ← supplied.outcomes]
      exact granted
    · exact supplied.granted i (by simp only [Refinement.performing] at below; omega)

theorem Supplied.starved (supplied : Supplied out outcome saving) (doc : XmlNode)
    (failed : saving.outcome saving.performed ≠ .granted) :
    Starved out outcome (Refinement.performing saving doc) where
  unwritten := supplied.unwritten
  failed := ⟨saving.performed, Nat.lt_succ_self _, by rw [← supplied.outcomes]; exact failed⟩

theorem Does.of_returned {body : Throwing Saving α} {returns : α → XmlNode → Prop} {value : α}
    {doc : XmlNode} (supplied : Supplied out outcome saving)
    (granted : saving.outcome saving.performed = .granted)
    (ran : body saving = .returned value (performing saving doc)) (holds : returns value doc) :
    Does out outcome body saving returns := by
  unfold Does Ensures
  rw [ran]
  exact ⟨supplied.performing doc granted, holds⟩

theorem Does.of_thrown {body : Throwing Saving α} {returns : α → XmlNode → Prop}
    (supplied : Supplied out outcome saving) (failed : saving.outcome saving.performed ≠ .granted)
    (ran : ∃ doc, body saving = .thrown (performing saving doc)) :
    Does out outcome body saving returns := by
  obtain ⟨doc, ran⟩ := ran
  unfold Does Ensures
  rw [ran]
  exact supplied.starved doc failed

/-- The next outcome decides how an operation goes on. -/
theorem next_run (rest : Outcome → Throwing Saving α) (saving : Saving) :
    (XmlBuilding.next >>= rest) saving =
      rest (saving.outcome saving.performed) (performing saving saving.doc) := rfl

theorem request_does (supplied : Supplied out outcome saving) :
    Does out outcome request saving fun _ doc => doc = saving.doc := by
  unfold Does Ensures request
  rw [next_run]
  cases came : saving.outcome saving.performed with
  | granted => exact ⟨supplied.performing _ came, rfl⟩
  | unnamed => exact supplied.starved _ (by rw [came]; decide)
  | refused => exact supplied.starved _ (by rw [came]; decide)

theorem checkAlloc_some (value : α) (saving : Saving) :
    checkAlloc (some value) saving = .returned value saving := rfl

section
variable {handle : Handle} {name : Bytes} {attributes : List (Bytes × Bytes)}
  {children : List XmlNode}
  (there : saving.doc.nodeAt handle = some (.element name attributes children))
include there

theorem node_run : node handle saving = .returned (.element name attributes children) saving := by
  change Exit.returned ((saving.doc.nodeAt handle).getD .other) saving = _
  rw [there]
  rfl

theorem insertChild_run (child : XmlNode) :
    insertChild handle child saving = .returned (handle ++ [children.length])
      { saving with
        doc := saving.doc.editAt (fun found => found.appendChild child) handle } := by
  unfold insertChild
  rw [bind_returned _ (node_run there)]
  rfl

/-- The name of a child that was just appended. -/
theorem node_child (child : XmlNode) (after : Saving)
    (appended : after.doc = saving.doc.editAt (fun found => found.appendChild child) handle) :
    node (handle ++ [children.length]) after = .returned child after := by
  have found := nodeAt_child saving.doc handle name attributes children there child
  rw [← appended] at found
  change Exit.returned ((after.doc.nodeAt (handle ++ [children.length])).getD .other) after = _
  rw [found]
  rfl

/-- `append_child` makes a node, with the name or without. -/
theorem appendElement_run (child : Bytes) (made : XmlNode)
    (which : saving.outcome saving.performed = .granted ∧ made = .element (cString child) [] [] ∨
      saving.outcome saving.performed = .unnamed ∧ made = .element [] [] []) :
    appendElement handle child saving = .returned (some (handle ++ [children.length]))
      (performing saving (saving.doc.editAt (fun found => found.appendChild made) handle)) := by
  have still : (performing saving saving.doc).doc.nodeAt handle =
      some (.element name attributes children) := there
  unfold appendElement
  rw [next_run]
  rcases which with ⟨came, rfl⟩ | ⟨came, rfl⟩
  · rw [came]
    exact bind_returned _ (insertChild_run still _)
  · rw [came]
    exact bind_returned _ (insertChild_run still _)

theorem appendNamedChild_does (child : Bytes) (named : hasName (cString child) = some ())
    (supplied : Supplied out outcome saving) :
    Does out outcome (appendNamedChild handle child) saving fun made doc =>
      made = handle ++ [children.length] ∧
        doc = saving.doc.editAt
          (fun found => found.appendChild (.element (cString child) [] [])) handle := by
  unfold appendNamedChild
  cases came : saving.outcome saving.performed with
  | granted =>
    refine .of_returned supplied came ?_ ⟨rfl, rfl⟩
    rw [bind_returned _ (appendElement_run there child _ (.inl ⟨came, rfl⟩)),
      bind_returned _ (checkAlloc_some _ _), bind_returned _ (node_child there _ _ rfl),
      XmlNode.name, named]
    rfl
  | unnamed =>
    refine .of_thrown supplied (by rw [came]; decide) ?_
    rw [bind_returned _ (appendElement_run there child _ (.inr ⟨came, rfl⟩)),
      bind_returned _ (checkAlloc_some _ _), bind_returned _ (node_child there _ _ rfl)]
    exact ⟨_, rfl⟩
  | refused =>
    have refused : appendElement handle child saving =
        .returned none (performing saving saving.doc) := by
      unfold appendElement
      rw [next_run, came]
      rfl
    refine .of_thrown supplied (by rw [came]; decide) ?_
    rw [bind_returned _ refused]
    exact ⟨_, rfl⟩

theorem insertAttribute_run (key : Bytes) :
    insertAttribute handle key saving = .returned (handle, attributes.length)
      { saving with
        doc := saving.doc.editAt (fun found => found.appendAttribute key []) handle } := by
  unfold insertAttribute
  rw [bind_returned _ (node_run there)]
  rfl

/-- `append_attribute` makes an attribute, with the name or without. -/
theorem appendAttribute_run (key made : Bytes)
    (which : saving.outcome saving.performed = .granted ∧ made = cString key ∨
      saving.outcome saving.performed = .unnamed ∧ made = []) :
    XmlBuilding.appendAttribute handle key saving = .returned (some (handle, attributes.length))
      (performing saving
        (saving.doc.editAt (fun found => found.appendAttribute made []) handle)) := by
  have still : (performing saving saving.doc).doc.nodeAt handle =
      some (.element name attributes children) := there
  unfold XmlBuilding.appendAttribute
  rw [next_run]
  rcases which with ⟨came, rfl⟩ | ⟨came, rfl⟩
  · rw [came]
    exact bind_returned _ (insertAttribute_run still _)
  · rw [came]
    exact bind_returned _ (insertAttribute_run still _)

theorem appendNamedAttribute_does (key : Bytes) (named : hasName (cString key) = some ())
    (supplied : Supplied out outcome saving) :
    Does out outcome (appendNamedAttribute handle key) saving fun made doc =>
      made = (handle, attributes.length) ∧
        doc = saving.doc.editAt (fun found => found.appendAttribute (cString key) []) handle := by
  have read : ∀ made, node handle (performing saving
      (saving.doc.editAt (fun found => found.appendAttribute made []) handle)) =
      .returned (.element name (attributes ++ [(made, [])]) children) (performing saving
        (saving.doc.editAt (fun found => found.appendAttribute made []) handle)) := fun made =>
    node_run (nodeAt_editAt there fun found => found.appendAttribute made [])
  have last : ∀ made : Bytes, (((attributes ++ [(made, ([] : Bytes))])[attributes.length]?.map
      fun pair => pair.1).getD []) = made := by simp
  unfold appendNamedAttribute
  cases came : saving.outcome saving.performed with
  | granted =>
    refine .of_returned supplied came ?_ ⟨rfl, rfl⟩
    rw [bind_returned _ (appendAttribute_run there key _ (.inl ⟨came, rfl⟩)),
      bind_returned _ (checkAlloc_some _ _), bind_returned _ (read _), XmlNode.attributes, last,
      named]
    rfl
  | unnamed =>
    refine .of_thrown supplied (by rw [came]; decide) ?_
    rw [bind_returned _ (appendAttribute_run there key _ (.inr ⟨came, rfl⟩)),
      bind_returned _ (checkAlloc_some _ _), bind_returned _ (read _), XmlNode.attributes, last]
    exact ⟨_, rfl⟩
  | refused =>
    have refused : XmlBuilding.appendAttribute handle key saving =
        .returned none (performing saving saving.doc) := by
      unfold XmlBuilding.appendAttribute
      rw [next_run, came]
      rfl
    refine .of_thrown supplied (by rw [came]; decide) ?_
    rw [bind_returned _ refused]
    exact ⟨_, rfl⟩

end

/-! ## Operations that answer a handle or `true` -/

/-- What is answered is good, or nothing is and the operation failed. -/
def Tries (out : OutputStream) (outcome : Nat → Outcome) (body : Throwing Saving (Option α))
    (saving : Saving) (returns : α → XmlNode → Prop) : Prop :=
  Ensures body saving
    (fun result after => match result with
      | some value => Supplied out outcome after ∧ returns value after.doc
      | none => Starved out outcome after)
    (Starved out outcome)

theorem Tries.bind {body : Throwing Saving (Option α)} {next : α → Throwing Saving β}
    {returns : α → XmlNode → Prop} {returns' : β → XmlNode → Prop}
    (tries : Tries out outcome body saving returns)
    (rest : ∀ value after, Supplied out outcome after → returns value after.doc →
      Does out outcome (next value) after returns') :
    Does out outcome (body >>= fun result => checkAlloc result >>= next) saving returns' := by
  apply Ensures.bind tries
  intro result after reached
  cases result with
  | none => exact reached
  | some value => exact rest value after reached.1 reached.2

theorem Tries.last {body : Throwing Saving (Option α)} {returns : α → XmlNode → Prop}
    (tries : Tries out outcome body saving returns) :
    Does out outcome (body >>= fun result => checkAlloc result) saving returns := by
  apply Ensures.bind tries
  intro result after reached
  cases result with
  | none => exact reached
  | some value => exact reached

theorem setValue_tries (supplied : Supplied out outcome saving) (handle : Handle)
    (f : XmlNode → XmlNode) :
    Tries out outcome (setValue handle f) saving fun _ doc => doc = saving.doc.editAt f handle := by
  unfold Tries Ensures setValue
  rw [next_run]
  cases came : saving.outcome saving.performed with
  | granted => exact ⟨supplied.performing _ came, rfl⟩
  | unnamed => exact supplied.starved _ (by rw [came]; decide)
  | refused => exact supplied.starved _ (by rw [came]; decide)

section
variable {handle : Handle} {name : Bytes} {attributes : List (Bytes × Bytes)}
  {children : List XmlNode}
  (there : saving.doc.nodeAt handle = some (.element name attributes children))
  (supplied : Supplied out outcome saving)
include there supplied

theorem appendPcdata_tries :
    Tries out outcome (appendPcdata handle) saving fun made doc =>
      made = handle ++ [children.length] ∧
        doc = saving.doc.editAt (fun found => found.appendChild (.pcdata [])) handle := by
  have still : (performing saving saving.doc).doc.nodeAt handle =
      some (.element name attributes children) := there
  unfold Tries Ensures appendPcdata
  rw [next_run]
  cases came : saving.outcome saving.performed with
  | granted =>
    simp only
    rw [bind_returned _ (insertChild_run still _)]
    exact ⟨supplied.performing _ came, rfl, rfl⟩
  | unnamed => exact supplied.starved _ (by rw [came]; decide)
  | refused => exact supplied.starved _ (by rw [came]; decide)

/-- The text becomes the last child, as `setElementText` of the plain encoder has it. -/
theorem setElementText_does (text : Bytes) :
    Does out outcome (setElementText handle text) saving fun _ doc =>
      doc = saving.doc.editAt (fun found => Source.setElementText found text) handle := by
  apply (appendPcdata_tries there supplied).bind
  intro made after supplied' appended
  apply (setValue_tries supplied' made _).last.imp
  intro _ doc valued
  rw [valued, appended.1, appended.2]
  exact editAt_child saving.doc handle name attributes children there _ _

theorem setAttribute_does (key value : Bytes) (plain : cString key = key)
    (named : hasName key = some ()) :
    Does out outcome (setAttribute handle key value) saving fun _ doc =>
      doc = saving.doc.editAt (fun found => found.appendAttribute key value) handle := by
  have first := appendNamedAttribute_does there key (by rw [plain]; exact named) supplied
  apply first.bind
  intro made after supplied' appended
  apply (setValue_tries supplied' made.1 _).last.imp
  intro _ doc valued
  rw [valued, appended.1, appended.2, plain, editAt_editAt]
  apply editAt_congr there
  simp only [XmlNode.appendAttribute, XmlNode.setAttributeValue, modify_last]

end

/-! ## Filling an element -/

/-- The element at the handle became what the plain encoder makes of it, or both fail alike. -/
def Completed (plain : Result XmlNode) (doc : XmlNode) (handle : Handle) (result : Result Unit)
    (after : XmlNode) : Prop :=
  match result with
  | .ok () => ∃ filled, plain = .ok filled ∧ IsElement filled ∧
      after = doc.editAt (fun _ => filled) handle
  | .error e => plain = .error e

/-- `body` does to the element at the handle what `plain` does to an element. -/
def Fills (body : Throwing Saving (Result Unit)) (handle : Handle)
    (plain : XmlNode → Result XmlNode) : Prop :=
  ∀ (out : OutputStream) (outcome : Nat → Outcome) (saving : Saving) (element : XmlNode),
    Supplied out outcome saving → saving.doc.nodeAt handle = some element → IsElement element →
    Does out outcome body saving (Completed (plain element) saving.doc handle)

/-- The same for a step that cannot fail but by throwing. -/
def Edits (step : Throwing Saving Unit) (handle : Handle) (f : XmlNode → XmlNode) : Prop :=
  ∀ (out : OutputStream) (outcome : Nat → Outcome) (saving : Saving) (element : XmlNode),
    Supplied out outcome saving → saving.doc.nodeAt handle = some element → IsElement element →
    IsElement (f element) ∧
      Does out outcome step saving fun _ doc => doc = saving.doc.editAt f handle

section
variable {handle : Handle}

theorem Fills.done : Fills (return .ok ()) handle .ok := by
  intro out outcome saving element supplied there kind
  refine .pure supplied _ ⟨element, rfl, kind, ?_⟩
  rw [editAt_congr there (fun _ => element) (fun found => found) rfl, editAt_id]

theorem Fills.failed (e : Error) : Fills (return .error e) handle fun _ => .error e := by
  intro out outcome saving element supplied _ _
  exact .pure supplied _ rfl

theorem Fills.congr {body : Throwing Saving (Result Unit)} {plain plain' : XmlNode → Result XmlNode}
    (fills : Fills body handle plain) (same : ∀ element, plain element = plain' element) :
    Fills body handle plain' := by
  intro out outcome saving element supplied there kind
  rw [← same element]
  exact fills out outcome saving element supplied there kind

theorem Edits.request : Edits request handle fun found => found := by
  intro out outcome saving element supplied there kind
  refine ⟨kind, (request_does supplied).imp fun _ doc same => ?_⟩
  rw [same, editAt_id]

theorem Edits.setElementText (text : Bytes) :
    Edits (setElementText handle text) handle fun found => Source.setElementText found text := by
  intro out outcome saving element supplied there kind
  obtain ⟨name, attributes, children, rfl⟩ := kind
  exact ⟨⟨name, attributes, _, rfl⟩, setElementText_does there supplied text⟩

theorem Edits.setAttribute (key value : Bytes) (plain : cString key = key)
    (named : hasName key = some ()) :
    Edits (setAttribute handle key value) handle fun found => found.appendAttribute key value := by
  intro out outcome saving element supplied there kind
  obtain ⟨name, attributes, children, rfl⟩ := kind
  exact ⟨⟨name, _, children, rfl⟩, setAttribute_does there supplied key value plain named⟩

theorem Edits.setTypeAttribute (type : Bytes) :
    Edits (setTypeAttribute handle type) handle fun found => Source.setTypeAttribute found type :=
  .setAttribute kTypeAttr type (by decide) (by decide)

theorem Edits.then {step : Throwing Saving Unit} {f : XmlNode → XmlNode}
    {body : Throwing Saving (Result Unit)} {plain : XmlNode → Result XmlNode}
    (edits : Edits step handle f) (fills : Fills body handle plain) :
    Fills (step >>= fun _ => body) handle fun element => plain (f element) := by
  intro out outcome saving element supplied there kind
  obtain ⟨kind', does⟩ := edits out outcome saving element supplied there kind
  apply does.bind
  intro _ after supplied' edited
  have there' : after.doc.nodeAt handle = some (f element) := by
    rw [edited]
    exact nodeAt_editAt there f
  apply (fills out outcome after (f element) supplied' there' kind').imp
  intro result doc filled
  cases result with
  | error e => exact filled
  | ok _ =>
    obtain ⟨last, same, kind'', whole⟩ := filled
    exact ⟨last, same, kind'', by rw [whole, edited, editAt_editAt]⟩

theorem Fills.then {body rest : Throwing Saving (Result Unit)} {plain plain' : XmlNode → Result XmlNode}
    (fills : Fills body handle plain) (later : Fills rest handle plain') :
    Fills (body >>= fun result => match result with
      | .error e => return .error e
      | .ok () => rest) handle
      fun element => (plain element).bind plain' := by
  intro out outcome saving element supplied there kind
  apply (fills out outcome saving element supplied there kind).bind
  intro result after supplied' filled
  cases result with
  | error e =>
    have same : plain element = .error e := filled
    simp only [same]
    exact .pure supplied' _ rfl
  | ok _ =>
    obtain ⟨middle, same, kind', edited⟩ := filled
    have there' : after.doc.nodeAt handle = some middle := by
      rw [edited]
      exact nodeAt_editAt there fun _ => middle
    simp only [same]
    apply (later out outcome after middle supplied' there' kind').imp
    intro result doc filled
    cases result with
    | error e => exact filled
    | ok _ =>
      obtain ⟨last, same', kind'', whole⟩ := filled
      exact ⟨last, same', kind'', by rw [whole, edited, editAt_editAt]⟩

theorem Fills.ite (condition : Prop) [Decidable condition]
    {body rest : Throwing Saving (Result Unit)} {plain plain' : XmlNode → Result XmlNode}
    (yes : Fills body handle plain) (no : Fills rest handle plain') :
    Fills (if condition then body else rest) handle
      fun element => if condition then plain element else plain' element := by
  by_cases holds : condition
  · simp only [holds, if_true]
    exact yes
  · simp only [holds, if_false]
    exact no

theorem refuse_fills (e : Error) : Fills (refuse (.error e)) handle fun _ => .error e :=
  Edits.request.then (.failed e)

/-! ## The encoder -/

theorem appendScalar_fills (float : FloatText) (name : Bytes) (scalar : Scalar) :
    Fills (appendScalar float handle name scalar) handle
      fun element => Source.appendScalar float element name scalar := by
  cases scalar with
  | monostate => exact (Edits.setTypeAttribute _).then .done
  | bool value => exact (Edits.setTypeAttribute _).then ((Edits.setElementText _).then .done)
  | int value =>
    exact (Edits.setTypeAttribute _).then (Edits.request.then ((Edits.setElementText _).then .done))
  | double value =>
    exact .ite _ (refuse_fills _) ((Edits.setTypeAttribute _).then
      (Edits.request.then ((Edits.setElementText _).then .done)))
  | string value =>
    exact Edits.request.then
      (.ite _ (refuse_fills _) (.ite _ ((Edits.setElementText _).then .done) .done))

section
variable {append : Handle → Bytes → ConfigNode → Throwing Saving (Result Unit)}
  {plain : XmlNode → Bytes → ConfigNode → Result XmlNode}
  (each : ∀ handle key node, Fills (append handle key node) handle fun element => plain element key node)
include each

theorem appendMembers_fills (members : List (Bytes × ConfigNode)) :
    Fills (appendMembers append handle members) handle (Source.appendMembers plain members) := by
  induction members with
  | nil => exact .done
  | cons member rest ih =>
    obtain ⟨key, node⟩ := member
    refine ((each handle key node).then ih).congr fun element => ?_
    rw [Source.appendMembers]
    cases plain element key node <;> rfl

theorem appendItems_fills (arena : NodeArena) (array : ConfigNode) (indices : List Nat) :
    Fills (appendItems append arena array handle indices) handle
      (Source.appendItems plain arena array indices) := by
  induction indices with
  | nil => exact .done
  | cons i rest ih =>
    rw [XmlBuilding.appendItems]
    cases here : array.at arena i with
    | error e =>
      refine (Fills.failed _).congr fun element => ?_
      rw [Source.appendItems, here]
      rfl
    | ok item =>
      refine ((each handle kItemName item).then ih).congr fun element => ?_
      simp only [Source.appendItems, here]
      cases plain element kItemName item <;> rfl

theorem fillElement_fills (float : FloatText) (arena : NodeArena) (name : Bytes) (node : ConfigNode) :
    Fills (fillElement float arena append handle name node) handle
      fun element => Source.fillElement float arena plain element name node := by
  unfold XmlBuilding.fillElement Source.fillElement
  cases node.type arena with
  | null => exact (Edits.setTypeAttribute _).then .done
  | bool | int | double | string =>
    cases scalarOf (bytes "XML") arena node with
    | error e => exact .failed e
    | ok scalar => exact appendScalar_fills float name scalar
  | object =>
    refine .ite _ ((Edits.setTypeAttribute _).then .done) (Edits.request.then ?_)
    · cases node.members arena with
      | error e => exact .failed _
      | ok members => exact appendMembers_fills each members
  | array => exact (Edits.setTypeAttribute _).then (appendItems_fills each arena node _)

end

end

theorem hasName_valid (name : Bytes) (valid : isValidElementName name = true) :
    hasName (cString name) = some () := by
  have nonempty : name.isEmpty = false := by
    unfold isValidElementName at valid
    rw [Bool.and_eq_true] at valid
    simpa using valid.1
  rw [cString_name name valid, hasName, cString_name name valid, nonempty]
  rfl

theorem appendValueElement_fills (float : FloatText) (arena : NodeArena) (slots : Nat)
    (handle : Handle) (name : Bytes) (node : ConfigNode) :
    Fills (appendValueElement float arena slots handle name node) handle
      fun element => Source.appendValueElement float arena slots element name node := by
  induction slots generalizing handle name node with
  | zero => exact .failed _
  | succ slots ih =>
    unfold XmlBuilding.appendValueElement Source.appendValueElement
    by_cases valid : isValidElementName name = true
    · simp only [valid, Bool.not_true, Bool.false_eq_true, if_false]
      intro out outcome saving element supplied there kind
      obtain ⟨parent, attributes, children, rfl⟩ := kind
      apply (appendNamedChild_does there name (hasName_valid name valid) supplied).bind
      intro made after supplied' appended
      obtain ⟨rfl, inserted⟩ := appended
      have there' : after.doc.nodeAt (handle ++ [children.length]) =
          some (.element (cString name) [] []) := by
        rw [inserted]
        exact nodeAt_child saving.doc handle parent attributes children there _
      apply (fillElement_fills ih float arena name node out outcome after _ supplied' there'
        ⟨_, _, _, rfl⟩).imp
      intro result doc filled
      cases result with
      | error e =>
        have same : Source.fillElement float arena (Source.appendValueElement float arena slots)
            (.element (cString name) [] []) name node = .error e := filled
        simp only [same]
        rfl
      | ok _ =>
        obtain ⟨child, same, _, whole⟩ := filled
        simp only [same]
        refine ⟨_, rfl, appendChild_isElement ⟨_, _, _, rfl⟩ child, ?_⟩
        rw [whole, inserted, editAt_child _ _ _ _ _ there]
        exact editAt_congr there _ _ rfl
    · simp only [valid, Bool.not_false, if_true]
      exact refuse_fills _

/-- What `buildDocument` leaves below the document node, or its error. -/
def Document (plain : Result (List XmlNode)) (result : Result Unit) (doc : XmlNode) : Prop :=
  match result with
  | .ok () => plain = .ok doc.children
  | .error e => plain = .error e

theorem buildDocument_does (float : FloatText) (config : VersionedConfig) (out : OutputStream)
    (outcome : Nat → Outcome) :
    Does out outcome (buildDocument float config) { out := out, outcome := outcome }
      (Document (XmlInterface.document float config)) := by
  have supplied : Supplied out outcome { out := out, outcome := outcome } :=
    ⟨rfl, rfl, fun i below => absurd below (Nat.not_lt_zero i)⟩
  have root : ({ out := out, outcome := outcome } : Saving).doc.nodeAt [] =
      some (.element [] [] []) := rfl
  unfold buildDocument
  apply (appendNamedChild_does root kRootName (by decide) supplied).bind
  intro made after supplied' appended
  obtain ⟨rfl, inserted⟩ := appended
  have there : after.doc.nodeAt [0] = some (.element kRootName [] []) := by
    rw [inserted]
    rfl
  have version : Edits (setAttribute [0] kVersionAttr (versionText config.version)) [0]
      fun root => root.appendAttribute kVersionAttr (versionText config.version) :=
    .setAttribute kVersionAttr _ (by decide) (by decide)
  unfold XmlInterface.document
  cases config.model.root.members config.model.arena with
  | error e =>
    apply ((version.then (Edits.request.then (.failed _))) out outcome after _ supplied' there
      ⟨_, _, _, rfl⟩).imp
    intro result doc completed
    cases result with
    | error e' =>
      have same : badAccess (bytes "XML") = .error e' := completed
      cases same
      rfl
    | ok _ =>
      obtain ⟨_, same, _⟩ := completed
      cases same
  | ok members =>
    have each := appendValueElement_fills float config.model.arena config.model.arena.nodes.length
    apply ((version.then (Edits.request.then (appendMembers_fills each members))) out outcome after _
      supplied' there ⟨_, _, _, rfl⟩).imp
    intro result doc completed
    cases result with
    | error e =>
      have same : Source.appendMembers _ members _ = .error e := completed
      unfold Document
      simp only [same]
    | ok _ =>
      obtain ⟨last, same, _, whole⟩ := completed
      have children : doc.children = [last] := by
        rw [whole, inserted]
        rfl
      unfold Document
      simp only [same, children]

end ConfigManager.Refinement
