import ConfigManager.Reference.JsonDocument
import ConfigManager.Refinement.JsonDecoding

/-!
# The builder reads a document by recursion

`readValue` is the recursive descent that the event machine of the JSON backend
amounts to: the same values, the same number of nodes and the same error code,
for the events of any document. What a successful reading guarantees about its
result is then a property of the recursion.
-/

set_option autoImplicit false

namespace ConfigManager.Refinement
open Library Source Reference

/-- What a caller that ignores the message can tell from a run of the builder. -/
def run (b : ValueBuilder) (events : List SaxEvent) : Except ErrorCode ValueBuilder :=
  match b.saxParse events with
  | (true, b) => .ok b
  | (false, b) => .error b.takeError.code

theorem run_cons (b b' : ValueBuilder) (event : SaxEvent) (rest : List SaxEvent)
    (step : b.handle event = (true, b')) : run b (event :: rest) = run b' rest := by
  unfold run
  rw [saxParse_cons b b' event rest step]

/-- Whatever the builder is when it reports an error. -/
def Fails (r : Bool × ValueBuilder) (code : ErrorCode) : Prop :=
  ∃ (b : ValueBuilder) (message : Bytes), r = b.setError code message

theorem run_failed (b : ValueBuilder) (event : SaxEvent) (rest : List SaxEvent) (code : ErrorCode)
    (step : Fails (b.handle event) code) : run b (event :: rest) = .error code := by
  obtain ⟨b', message, step⟩ := step
  unfold run
  rw [ValueBuilder.saxParse, step]
  rfl

/-! ## One callback -/

/-- Attaching counts a value or reports an error. -/
theorem attach_cases (b : ValueBuilder) (top : Frame) (outer : List Frame) (value : ConfigValue)
    (opened : b.stack = top :: outer) :
    (∃ code, countNode b.limits.maxNodes b.stack.length b.nodes = .error code ∧
        Fails (b.attach value) code) ∨
      ∃ nodes, countNode b.limits.maxNodes b.stack.length b.nodes = .ok nodes ∧
        b.attach value = (true, { b with nodes := nodes, stack := top.hold value :: outer }) := by
  unfold countNode ValueBuilder.attach ValueBuilder.consumeNode
  by_cases deep : kMaxTreeDepth < b.stack.length
  · rw [if_pos deep, if_pos deep]
    exact .inl ⟨_, rfl, _, _, rfl⟩
  · rw [if_neg deep, if_neg deep]
    by_cases full : b.nodes = b.limits.maxNodes
    · rw [if_pos full, if_pos full]
      exact .inl ⟨_, rfl, _, _, rfl⟩
    · rw [if_neg full, if_neg full]
      simp only [opened]
      exact .inr ⟨_, rfl, rfl⟩

theorem run_attach (b : ValueBuilder) (top : Frame) (outer : List Frame) (value : ConfigValue)
    (opened : b.stack = top :: outer) (event : SaxEvent) (rest : List SaxEvent)
    (step : b.handle event = b.attach value) :
    run b (event :: rest) =
      match countNode b.limits.maxNodes b.stack.length b.nodes with
      | .error code => .error code
      | .ok nodes => run { b with nodes := nodes, stack := top.hold value :: outer } rest := by
  rcases attach_cases b top outer value opened with ⟨code, refused, failed⟩ | ⟨nodes, counted, attached⟩
  · rw [refused]
    exact run_failed b event rest code (step ▸ failed)
  · rw [counted]
    exact run_cons b _ event rest (step.trans attached)

/-- A scalar below an open container, away from the carrier. -/
theorem handle_saxScalar (b : ValueBuilder) (top : Frame) (outer : List Frame)
    (opened : b.stack = top :: outer) (clear : b.nextIsCarrier = false) (s : SaxScalar) :
    (∃ code, readScalar s = .error code ∧ Fails (b.handle s.event) code) ∨
      ∃ read, readScalar s = .ok read ∧ b.handle s.event = b.attach (ConfigValue.of read) := by
  have inside : ¬ b.stack.isEmpty = true := by simp [opened]
  cases s with
  | null => exact .inr ⟨_, rfl, onScalar_spec b top outer _ opened clear⟩
  | boolean value => exact .inr ⟨_, rfl, onScalar_spec b top outer _ opened clear⟩
  | string value => exact .inr ⟨_, rfl, onScalar_spec b top outer _ opened clear⟩
  | numberInteger value =>
    refine .inr ⟨_, rfl, ?_⟩
    change b.numberInteger value = _
    unfold ValueBuilder.numberInteger
    rw [if_neg inside, consumeCarrierFlag_clear b clear]
  | numberUnsigned value =>
    change (∃ code, _ ∧ Fails (b.numberUnsigned value) code) ∨ ∃ read, _ ∧ b.numberUnsigned value = _
    unfold ValueBuilder.numberUnsigned readScalar
    rw [if_neg inside, consumeCarrierFlag_clear b clear]
    by_cases large : kMaxInt < value
    · simp only [if_pos large]
      exact .inl ⟨_, rfl, _, _, rfl⟩
    · simp only [if_neg large]
      exact .inr ⟨_, rfl, rfl⟩
  | numberFloat value literal =>
    change (∃ code, _ ∧ Fails (b.numberFloat value literal) code) ∨
      ∃ read, _ ∧ b.numberFloat value literal = _
    unfold ValueBuilder.numberFloat readScalar
    rw [if_neg inside, consumeCarrierFlag_clear b clear]
    cases marked : literal.any ValueBuilder.isFloatMark with
    | false =>
      simp only [marked, Bool.not_false, if_true, Bool.false_eq_true, if_false]
      exact .inl ⟨_, rfl, _, _, rfl⟩
    | true =>
      simp only [marked, Bool.not_true, Bool.false_eq_true, if_false, if_true]
      exact .inr ⟨_, rfl, rfl⟩

/-- A key of an object below the root is accepted if it is addressable and new there. -/
theorem run_key (b : ValueBuilder) (done : List (Bytes × ConfigValue)) (pending : Bytes)
    (outer : List Frame) (name : Bytes) (opened : b.stack = ⟨Tree.object () done, pending⟩ :: outer)
    (plain : outer = [] → name ≠ kVersionKey) (rest : List SaxEvent) :
    run b (.key name :: rest) =
      if Addressable name ∧ name ∉ done.map Prod.fst then
        run { b with stack := ⟨Tree.object () done, name⟩ :: outer } rest
      else .error .parseError := by
  by_cases addressable : Addressable name
  · by_cases fresh : name ∉ done.map Prod.fst
    · rw [if_pos ⟨addressable, fresh⟩]
      exact run_cons b _ _ rest (key_spec b done pending outer name opened addressable fresh plain)
    · rw [if_neg (fun both => fresh both.2)]
      apply run_failed b _ rest
      have accepted : isPathAddressable name = true := addressable
      have notCarrier : ¬ (outer.isEmpty = true ∧ name = kVersionKey) := fun ⟨empty, same⟩ =>
        plain (List.isEmpty_iff.mp empty) same
      have present : ConfigValue.contains (Tree.object () done) name = true := by
        rw [ConfigValue.contains, Option.isSome_iff_ne_none, ne_eq, lookup_none_iff]
        exact fresh
      change Fails (b.key name) _
      unfold ValueBuilder.key
      simp only [accepted, Bool.not_true, Bool.false_eq_true, if_false, opened, if_neg notCarrier,
        present, if_true]
      exact ⟨_, _, rfl⟩
  · rw [if_neg (fun both => addressable both.1)]
    apply run_failed b _ rest
    have refused : isPathAddressable name = false := Bool.eq_false_iff.mpr addressable
    change Fails (b.key name) _
    unfold ValueBuilder.key
    rw [refused]
    exact ⟨_, _, rfl⟩

/-- Opening a container, whose frame is pushed unless it is too deep. -/
theorem run_startObject (b : ValueBuilder) (clear : b.nextIsCarrier = false) (rest : List SaxEvent) :
    run b (.startObject :: rest) =
      if kMaxTreeDepth < b.stack.length then .error .parseError
      else run { b with stack := ⟨ConfigValue.object, []⟩ :: b.stack } rest := by
  by_cases deep : kMaxTreeDepth < b.stack.length
  · rw [if_pos deep]
    apply run_failed b _ rest
    change Fails b.startObject _
    unfold ValueBuilder.startObject ValueBuilder.checkContainerDepth
    rw [consumeCarrierFlag_clear b clear]
    simp only [if_pos deep]
    exact ⟨_, _, rfl⟩
  · rw [if_neg deep]
    exact run_cons b _ _ rest (startObject_spec b clear (Nat.le_of_not_lt deep))

theorem run_startArray (b : ValueBuilder) (top : Frame) (outer : List Frame)
    (opened : b.stack = top :: outer) (clear : b.nextIsCarrier = false) (rest : List SaxEvent) :
    run b (.startArray :: rest) =
      if kMaxTreeDepth < b.stack.length then .error .parseError
      else run { b with stack := ⟨ConfigValue.array, []⟩ :: b.stack } rest := by
  by_cases deep : kMaxTreeDepth < b.stack.length
  · rw [if_pos deep]
    apply run_failed b _ rest
    change Fails b.startArray _
    unfold ValueBuilder.startArray ValueBuilder.checkContainerDepth
    rw [if_neg (by simp [opened]), consumeCarrierFlag_clear b clear]
    simp only [if_pos deep]
    exact ⟨_, _, rfl⟩
  · rw [if_neg deep]
    exact run_cons b _ _ rest (startArray_spec b top outer opened clear (Nat.le_of_not_lt deep))

/-- Closing a container attaches it to the frame below. -/
theorem run_popFrame (b : ValueBuilder) (closed top : Frame) (outer : List Frame)
    (opened : b.stack = closed :: top :: outer) (event : SaxEvent)
    (closes : b.handle event = b.popFrame) (rest : List SaxEvent) :
    run b (event :: rest) =
      match countNode b.limits.maxNodes (outer.length + 1) b.nodes with
      | .error code => .error code
      | .ok nodes =>
          run { b with nodes := nodes, stack := top.hold closed.container :: outer } rest := by
  have pops : b.popFrame = ValueBuilder.attach { b with stack := top :: outer } closed.container := by
    unfold ValueBuilder.popFrame
    simp only [opened, List.isEmpty_cons, Bool.false_eq_true, if_false]
  rcases attach_cases { b with stack := top :: outer } top outer closed.container rfl with
    ⟨code, refused, failed⟩ | ⟨nodes, counted, attached⟩
  · rw [List.length_cons] at refused
    rw [refused]
    exact run_failed b event rest code (by rw [closes, pops]; exact failed)
  · rw [List.length_cons] at counted
    rw [counted]
    exact run_cons b _ event rest (by rw [closes, pops]; exact attached)

/-! ## A whole value -/

/-- Below an open container the events of a value do what `readValue` says. -/
def Reads (x : SaxDocument) : Prop :=
  ∀ (b : ValueBuilder) (top : Frame) (outer : List Frame) (rest : List SaxEvent),
    b.stack = top :: outer → b.nextIsCarrier = false →
    run b (saxEvents x ++ rest) =
      match readValue b.limits.maxNodes x b.stack.length b.nodes with
      | .error code => .error code
      | .ok (read, nodes) => run { b with nodes := nodes, stack := top.hold read :: outer } rest

theorem members_read (ms : List (Bytes × SaxDocument)) (each : ∀ m ∈ ms, Reads m.2)
    (b : ValueBuilder) (clear : b.nextIsCarrier = false) (done : List (Bytes × ConfigValue))
    (top : Frame) (outer : List Frame) (rest : List SaxEvent)
    (opened : b.stack = ⟨Tree.object () done, []⟩ :: top :: outer) :
    run b (saxMemberEvents ms ++ rest) =
      match readMembers b.limits.maxNodes ms b.stack.length b.nodes done with
      | .error code => .error code
      | .ok (read, nodes) =>
          run { b with
            nodes := nodes
            stack := ⟨Tree.object () read, []⟩ :: top :: outer } rest := by
  induction ms generalizing b done with
  | nil => simp only [saxMemberEvents, List.nil_append, readMembers, ← opened]
  | cons m ms ih =>
    obtain ⟨name, x⟩ := m
    rw [saxMemberEvents, List.cons_append, readMembers,
      run_key b done [] (top :: outer) name opened (fun empty => by cases empty)]
    by_cases accepted : Addressable name ∧ name ∉ done.map Prod.fst
    · rw [if_pos accepted, if_pos accepted, List.append_assoc]
      have first := each (name, x) (by simp)
        { b with stack := ⟨Tree.object () done, name⟩ :: top :: outer } _ (top :: outer)
        (saxMemberEvents ms ++ rest) rfl clear
      have length : b.stack.length = (top :: outer).length + 1 := by rw [opened, List.length_cons]
      rw [first]
      simp only [List.length_cons] at length ⊢
      rw [length]
      cases readValue b.limits.maxNodes x (outer.length + 1 + 1) b.nodes with
      | error code => rfl
      | ok result =>
        obtain ⟨read, nodes⟩ := result
        simp only [hold_object done name read accepted.2]
        have later := ih (fun m' inside => each m' (by simp [inside]))
          { b with
            nodes := nodes
            stack := ⟨Tree.object () (done ++ [(name, read)]), []⟩ :: top :: outer }
          clear (done ++ [(name, read)]) rfl
        simpa only [List.length_cons] using later
    · rw [if_neg accepted, if_neg accepted]

theorem elements_read (es : List SaxDocument) (each : ∀ e ∈ es, Reads e) (b : ValueBuilder)
    (clear : b.nextIsCarrier = false) (done : List ConfigValue) (outer : List Frame)
    (rest : List SaxEvent) (opened : b.stack = ⟨Tree.array () done, []⟩ :: outer) :
    run b (saxElementEvents es ++ rest) =
      match readElements b.limits.maxNodes es b.stack.length b.nodes done with
      | .error code => .error code
      | .ok (read, nodes) =>
          run { b with nodes := nodes, stack := ⟨Tree.array () read, []⟩ :: outer } rest := by
  induction es generalizing b done with
  | nil => simp only [saxElementEvents, List.nil_append, readElements, ← opened]
  | cons e es ih =>
    have first := each e (by simp) b _ outer (saxElementEvents es ++ rest) opened clear
    rw [saxElementEvents, List.append_assoc, readElements, first]
    have length : b.stack.length = outer.length + 1 := by rw [opened, List.length_cons]
    cases readValue b.limits.maxNodes e b.stack.length b.nodes with
    | error code => rfl
    | ok result =>
      obtain ⟨read, nodes⟩ := result
      have later := ih (fun e' inside => each e' (by simp [inside]))
        { b with nodes := nodes, stack := ⟨Tree.array () (done ++ [read]), []⟩ :: outer }
        clear (done ++ [read]) rfl
      rw [List.length_cons, ← length] at later
      exact later

theorem value_reads (x : SaxDocument) : Reads x := by
  induction x using Tree.children_induction with
  | node x ih =>
    intro b top outer rest opened clear
    cases x with
    | leaf l s =>
      rw [saxEvents, readValue, List.singleton_append]
      rcases handle_saxScalar b top outer opened clear s with ⟨code, refused, failed⟩ | ⟨read, ok, step⟩
      · rw [refused]
        exact run_failed b _ rest code failed
      · rw [ok, run_attach b top outer _ opened _ rest step]
        cases countNode b.limits.maxNodes b.stack.length b.nodes <;> rfl
    | object l ms =>
      simp only [Tree.children, List.forall_mem_map] at ih
      rw [saxEvents, readValue, List.cons_append, run_startObject b clear, List.append_assoc]
      by_cases deep : kMaxTreeDepth < b.stack.length
      · rw [if_pos deep, if_pos deep]
      · rw [if_neg deep, if_neg deep]
        have inside := members_read ms ih { b with stack := ⟨ConfigValue.object, []⟩ :: b.stack }
          clear [] top outer ([.endObject] ++ rest) (by rw [opened]; rfl)
        rw [inside, List.length_cons]
        cases readMembers b.limits.maxNodes ms (b.stack.length + 1) b.nodes [] with
        | error code => rfl
        | ok result =>
          obtain ⟨read, nodes⟩ := result
          have close := run_popFrame
            { b with nodes := nodes, stack := ⟨Tree.object () read, []⟩ :: top :: outer }
            _ top outer rfl .endObject rfl rest
          have length : b.stack.length = outer.length + 1 := by rw [opened, List.length_cons]
          simp only [List.singleton_append, length]
          rw [close]
          cases countNode b.limits.maxNodes (outer.length + 1) nodes <;> rfl
    | array l es =>
      rw [saxEvents, readValue, List.cons_append, run_startArray b top outer opened clear,
        List.append_assoc]
      by_cases deep : kMaxTreeDepth < b.stack.length
      · rw [if_pos deep, if_pos deep]
      · rw [if_neg deep, if_neg deep]
        have inside := elements_read es ih { b with stack := ⟨ConfigValue.array, []⟩ :: b.stack }
          clear [] b.stack ([.endArray] ++ rest) rfl
        rw [inside, List.length_cons]
        cases readElements b.limits.maxNodes es (b.stack.length + 1) b.nodes [] with
        | error code => rfl
        | ok result =>
          obtain ⟨read, nodes⟩ := result
          have close := run_popFrame
            { b with nodes := nodes, stack := ⟨Tree.array () read, []⟩ :: top :: outer }
            _ top outer rfl .endArray rfl rest
          have length : b.stack.length = outer.length + 1 := by rw [opened, List.length_cons]
          simp only [List.singleton_append, opened, List.length_cons]
          rw [close]
          cases countNode b.limits.maxNodes (outer.length + 1) nodes <;> rfl

/-! ## What a reading guarantees -/

/-- Everything `save` asks of a tree, the reserved key aside. -/
def Dumpable (value : ConfigValue) : Prop :=
  Tree.EveryPart ValidUtf8 (fun s => FiniteScalar s ∧ Utf8Scalar s) value

/-- What was read at a depth is well keyed and not too deep, and all its nodes were counted. -/
structure ReadAt (maxNodes depth : Nat) (x : SaxDocument) (nodes : Nat) (read : ConfigValue)
    (nodes' : Nat) : Prop where
  keyed : Tree.WellKeyed Addressable read
  shallow : depth + read.height ≤ kMaxTreeDepth
  counted : nodes' = nodes + read.size
  budget : nodes ≤ maxNodes → nodes' ≤ maxNodes
  dumpable : Lexed x → Dumpable read

theorem countNode_ok (maxNodes depth nodes nodes' : Nat)
    (counted : countNode maxNodes depth nodes = .ok nodes') :
    depth ≤ kMaxTreeDepth ∧ nodes ≠ maxNodes ∧ nodes' = nodes + 1 := by
  unfold countNode at counted
  split at counted
  · cases counted
  · next shallow =>
    split at counted
    · cases counted
    · next room =>
      cases counted
      exact ⟨Nat.le_of_not_lt shallow, room, rfl⟩

/-- Counting a value whose parts were read. -/
theorem ReadAt.counting (maxNodes depth : Nat) (x : SaxDocument) (nodes middle last : Nat)
    (read : ConfigValue) (counted : countNode maxNodes depth middle = .ok last)
    (keyed : Tree.WellKeyed Addressable read)
    (below : ∀ c ∈ read.children, depth + 1 + c.height ≤ kMaxTreeDepth)
    (parts : middle + 1 = nodes + read.size) (budget : nodes ≤ maxNodes → middle ≤ maxNodes)
    (dumpable : Lexed x → Dumpable read) : ReadAt maxNodes depth x nodes read last := by
  obtain ⟨shallow, room, rfl⟩ := countNode_ok _ _ _ _ counted
  refine ⟨keyed, shallow_of_children read depth shallow below, parts, fun bound => ?_, dumpable⟩
  have within := budget bound
  omega

theorem dumpable_scalar (s : SaxScalar) (read : Scalar) (ok : readScalar s = .ok read)
    (lexed : LexedScalar s) : FiniteScalar read ∧ Utf8Scalar read := by
  cases s with
  | null => cases ok; exact ⟨trivial, trivial⟩
  | boolean value => cases ok; exact ⟨trivial, trivial⟩
  | numberInteger value => cases ok; exact ⟨trivial, trivial⟩
  | string value => cases ok; exact ⟨trivial, lexed⟩
  | numberUnsigned value =>
    rw [readScalar] at ok
    split at ok
    · cases ok
    · cases ok
      exact ⟨trivial, trivial⟩
  | numberFloat value literal =>
    rw [readScalar] at ok
    split at ok
    · cases ok
      exact ⟨lexed, trivial⟩
    · cases ok

/-- The members read after `done`, in order. -/
theorem readMembers_ok (maxNodes : Nat) (ms : List (Bytes × SaxDocument)) (depth : Nat)
    (each : ∀ m ∈ ms, ∀ nodes read nodes', readValue maxNodes m.2 depth nodes = .ok (read, nodes') →
      ReadAt maxNodes depth m.2 nodes read nodes')
    (nodes : Nat) (done read : List (Bytes × ConfigValue)) (nodes' : Nat)
    (ok : readMembers maxNodes ms depth nodes done = .ok (read, nodes'))
    (distinct : (done.map Prod.fst).Nodup) :
    ∃ new, read = done ++ new ∧ (read.map Prod.fst).Nodup ∧
      (∀ m ∈ new, Addressable m.1 ∧ Tree.WellKeyed Addressable m.2 ∧
        depth + m.2.height ≤ kMaxTreeDepth) ∧
      nodes' = nodes + (new.map fun m => m.2.size).sum ∧ (nodes ≤ maxNodes → nodes' ≤ maxNodes) ∧
      ((∀ m ∈ ms, ValidUtf8 m.1 ∧ Lexed m.2) → ∀ m ∈ new, ValidUtf8 m.1 ∧ Dumpable m.2) := by
  induction ms generalizing nodes done with
  | nil =>
    cases ok
    exact ⟨[], by simp, distinct, by simp, by simp, id, by simp⟩
  | cons m rest ih =>
    obtain ⟨name, x⟩ := m
    rw [readMembers] at ok
    split at ok
    · next accepted =>
      cases first : readValue maxNodes x depth nodes with
      | error code => simp [first] at ok
      | ok result =>
        obtain ⟨value, middle⟩ := result
        simp only [first] at ok
        have here := each (name, x) (by simp) nodes value middle first
        have appended := nodup_append_key done name value distinct accepted.2
        obtain ⟨new, shape, nodup, good, counted, budget, dumpable⟩ :=
          ih (fun m inside => each m (by simp [inside])) middle _ ok appended
        refine ⟨(name, value) :: new, by simp [shape], nodup, ?_, ?_, ?_, ?_⟩
        · exact List.forall_mem_cons.mpr ⟨⟨accepted.1, here.keyed, here.shallow⟩, good⟩
        · rw [counted, here.counted, List.map_cons, List.sum_cons, Nat.add_assoc]
        · exact fun room => budget (here.budget room)
        · intro lexed
          rw [List.forall_mem_cons] at lexed ⊢
          exact ⟨⟨lexed.1.1, here.dumpable lexed.1.2⟩, dumpable lexed.2⟩
    · cases ok

theorem readElements_ok (maxNodes : Nat) (es : List SaxDocument) (depth : Nat)
    (each : ∀ e ∈ es, ∀ nodes read nodes', readValue maxNodes e depth nodes = .ok (read, nodes') →
      ReadAt maxNodes depth e nodes read nodes')
    (nodes : Nat) (done read : List ConfigValue) (nodes' : Nat)
    (ok : readElements maxNodes es depth nodes done = .ok (read, nodes')) :
    ∃ new, read = done ++ new ∧
      (∀ e ∈ new, Tree.WellKeyed Addressable e ∧ depth + e.height ≤ kMaxTreeDepth) ∧
      nodes' = nodes + (new.map Tree.size).sum ∧ (nodes ≤ maxNodes → nodes' ≤ maxNodes) ∧
      ((∀ e ∈ es, Lexed e) → ∀ e ∈ new, Dumpable e) := by
  induction es generalizing nodes done with
  | nil =>
    cases ok
    exact ⟨[], by simp, by simp, by simp, id, by simp⟩
  | cons e rest ih =>
    rw [readElements] at ok
    cases first : readValue maxNodes e depth nodes with
    | error code => simp [first] at ok
    | ok result =>
      obtain ⟨value, middle⟩ := result
      simp only [first] at ok
      have here := each e (by simp) nodes value middle first
      obtain ⟨new, shape, good, counted, budget, dumpable⟩ :=
        ih (fun e inside => each e (by simp [inside])) middle _ ok
      refine ⟨value :: new, by simp [shape], ?_, ?_, ?_, ?_⟩
      · exact List.forall_mem_cons.mpr ⟨⟨here.keyed, here.shallow⟩, good⟩
      · rw [counted, here.counted, List.map_cons, List.sum_cons, Nat.add_assoc]
      · exact fun room => budget (here.budget room)
      · intro lexed
        rw [List.forall_mem_cons] at lexed ⊢
        exact ⟨here.dumpable lexed.1, dumpable lexed.2⟩

theorem readValue_ok (maxNodes : Nat) (x : SaxDocument) (depth nodes : Nat) (read : ConfigValue)
    (nodes' : Nat) (ok : readValue maxNodes x depth nodes = .ok (read, nodes')) :
    ReadAt maxNodes depth x nodes read nodes' := by
  induction x using Tree.children_induction generalizing depth nodes read nodes' with
  | node x ih =>
    cases x with
    | leaf l s =>
      rw [readValue] at ok
      cases scalar : readScalar s with
      | error code => simp [scalar] at ok
      | ok value =>
        cases counted : countNode maxNodes depth nodes with
        | error code => simp [scalar, counted] at ok
        | ok middle =>
          simp only [scalar, counted, Except.ok.injEq, Prod.mk.injEq] at ok
          obtain ⟨rfl, rfl⟩ := ok
          refine .counting maxNodes depth _ nodes nodes _ _ counted (Tree.wellKeyed_leaf _ _)
            (by simp [ConfigValue.of, Tree.children]) rfl id fun lexed => ?_
          rw [Lexed, Tree.everyPart_leaf] at lexed
          rw [Dumpable, ConfigValue.of, Tree.everyPart_leaf]
          exact dumpable_scalar s value scalar lexed
    | object l ms =>
      simp only [Tree.children, List.forall_mem_map] at ih
      rw [readValue] at ok
      split at ok
      · cases ok
      · cases members : readMembers maxNodes ms (depth + 1) nodes [] with
        | error code => simp [members] at ok
        | ok result =>
          obtain ⟨done, middle⟩ := result
          cases counted : countNode maxNodes depth middle with
          | error code => simp [members, counted] at ok
          | ok last =>
            simp only [members, counted, Except.ok.injEq, Prod.mk.injEq] at ok
            obtain ⟨rfl, rfl⟩ := ok
            obtain ⟨new, rfl, distinct, good, total, budget, dumpable⟩ :=
              readMembers_ok maxNodes ms (depth + 1)
                (fun m inside nodes read nodes' => ih m inside (depth + 1) nodes read nodes')
                nodes [] done middle members (by simp)
            refine .counting maxNodes depth _ nodes middle _ _ counted ?_ ?_ ?_ budget fun lexed => ?_
            · rw [Tree.wellKeyed_iff]
              simp only [Tree.keys, Tree.children, List.forall_mem_map]
              exact ⟨⟨distinct, fun m inside => (good m inside).1⟩, fun m inside => (good m inside).2.1⟩
            · simp only [Tree.children, List.forall_mem_map]
              exact fun m inside => (good m inside).2.2
            · rw [Tree.size_object, total, Nat.add_assoc]
            · rw [Lexed, Tree.everyPart_object] at lexed
              rw [Dumpable, Tree.everyPart_object]
              exact dumpable lexed
    | array l es =>
      rw [readValue] at ok
      split at ok
      · cases ok
      · cases elements : readElements maxNodes es (depth + 1) nodes [] with
        | error code => simp [elements] at ok
        | ok result =>
          obtain ⟨done, middle⟩ := result
          cases counted : countNode maxNodes depth middle with
          | error code => simp [elements, counted] at ok
          | ok last =>
            simp only [elements, counted, Except.ok.injEq, Prod.mk.injEq] at ok
            obtain ⟨rfl, rfl⟩ := ok
            obtain ⟨new, rfl, good, total, budget, dumpable⟩ :=
              readElements_ok maxNodes es (depth + 1)
                (fun e inside nodes read nodes' => ih e inside (depth + 1) nodes read nodes')
                nodes [] done middle elements
            refine .counting maxNodes depth _ nodes middle _ _ counted ?_
              (fun e inside => (good e inside).2) ?_ budget fun lexed => ?_
            · rw [Tree.wellKeyed_iff]
              exact ⟨⟨List.nodup_nil, by simp [Tree.keys]⟩, fun e inside => (good e inside).1⟩
            · rw [Tree.size_array, total, Nat.add_assoc]
            · rw [Lexed, Tree.everyPart_array] at lexed
              rw [Dumpable, Tree.everyPart_array]
              exact dumpable lexed

/-! ## The document -/

/-- The carrier's value is consumed in place. -/
theorem run_carrier (x : SaxDocument) (b : ValueBuilder) (top : Frame) (rest : List SaxEvent)
    (opened : b.stack = [top]) (flagged : b.nextIsCarrier = true) :
    run b (saxEvents x ++ rest) =
      match readCarrier x with
      | .error code => .error code
      | .ok version => run { b with nextIsCarrier := false, version := some version } rest := by
  have inside : ¬ b.stack.isEmpty = true := by simp [opened]
  have consumed : b.consumeCarrierFlag = (true, { b with nextIsCarrier := false }) := by
    rw [ValueBuilder.consumeCarrierFlag, flagged]
  have refused : ∀ got, Fails (ValueBuilder.carrierError { b with nextIsCarrier := false } got)
      .invalidVersion := fun got => ⟨_, _, rfl⟩
  cases x with
  | object l ms =>
    rw [saxEvents, List.cons_append]
    apply run_failed b
    change Fails b.startObject _
    unfold ValueBuilder.startObject
    rw [consumed]
    exact refused _
  | array l es =>
    rw [saxEvents, List.cons_append]
    apply run_failed b
    change Fails b.startArray _
    unfold ValueBuilder.startArray
    rw [if_neg inside, consumed]
    exact refused _
  | leaf l s =>
    have scalar : ∀ value, Fails (b.onScalar value) .invalidVersion := fun value => by
      unfold ValueBuilder.onScalar
      rw [if_neg inside, consumed]
      exact refused _
    rw [saxEvents, List.singleton_append]
    cases s with
    | null => exact run_failed b _ rest _ (scalar _)
    | boolean value => exact run_failed b _ rest _ (scalar _)
    | string value => exact run_failed b _ rest _ (scalar _)
    | numberInteger value =>
      apply run_failed b _ rest
      change Fails (b.numberInteger value) _
      unfold ValueBuilder.numberInteger
      rw [if_neg inside, consumed]
      exact ⟨_, _, rfl⟩
    | numberFloat value literal =>
      apply run_failed b _ rest
      change Fails (b.numberFloat value literal) _
      unfold ValueBuilder.numberFloat
      rw [if_neg inside, consumed]
      exact refused _
    | numberUnsigned value =>
      rw [readCarrier]
      by_cases large : kMaxVersion < value
      · rw [if_pos large]
        apply run_failed b _ rest
        change Fails (b.numberUnsigned value) _
        unfold ValueBuilder.numberUnsigned
        rw [if_neg inside, consumed]
        simp only [if_pos large]
        exact ⟨_, _, rfl⟩
      · rw [if_neg large]
        apply run_cons b _ _ rest
        change b.numberUnsigned value = _
        unfold ValueBuilder.numberUnsigned
        rw [if_neg inside, consumed]
        simp only [if_neg large]

/-- The reserved key is taken once, and its value is the version. -/
theorem run_versionKey (b : ValueBuilder) (top : Frame) (opened : b.stack = [top])
    (rest : List SaxEvent) :
    run b (.key kVersionKey :: rest) =
      if b.sawVersionKey = true then .error .parseError
      else run { b with sawVersionKey := true, nextIsCarrier := true } rest := by
  have accepted : isPathAddressable kVersionKey = true := addressable_versionKey
  have shape : b.key kVersionKey =
      if b.sawVersionKey then
        b.setError .parseError (bytes "duplicate object key '__version'")
      else (true, { b with sawVersionKey := true, nextIsCarrier := true }) := by
    unfold ValueBuilder.key
    simp only [accepted, Bool.not_true, Bool.false_eq_true, if_false, opened, List.isEmpty_nil,
      and_self, if_true]
  by_cases seen : b.sawVersionKey = true
  · rw [if_pos seen]
    apply run_failed b _ rest
    change Fails (b.key kVersionKey) _
    rw [shape, if_pos seen]
    exact ⟨_, _, rfl⟩
  · rw [if_neg seen]
    apply run_cons b _ _ rest
    change b.key kVersionKey = _
    rw [shape, if_neg seen]

theorem root_read (ms : List (Bytes × SaxDocument)) (b : ValueBuilder)
    (clear : b.nextIsCarrier = false) (seen : b.sawVersionKey = b.version.isSome)
    (done : List (Bytes × ConfigValue)) (rest : List SaxEvent)
    (opened : b.stack = [⟨Tree.object () done, []⟩]) :
    run b (saxMemberEvents ms ++ rest) =
      match readRoot b.limits.maxNodes ms b.nodes b.version done with
      | .error code => .error code
      | .ok (version, read, nodes) =>
          run { b with
            nodes := nodes
            version := version
            sawVersionKey := version.isSome
            stack := [⟨Tree.object () read, []⟩] } rest := by
  induction ms generalizing b done with
  | nil => simp only [saxMemberEvents, List.nil_append, readRoot, ← opened, ← seen]
  | cons m ms ih =>
    obtain ⟨name, x⟩ := m
    rw [saxMemberEvents, List.cons_append, readRoot, List.append_assoc]
    by_cases reserved : name = kVersionKey
    · subst reserved
      rw [if_pos rfl, run_versionKey b _ opened, seen]
      by_cases twice : b.version.isSome = true
      · rw [if_pos twice, if_pos twice]
      · rw [if_neg twice, if_neg twice,
          run_carrier x { b with sawVersionKey := true, nextIsCarrier := true } _ _ opened rfl]
        cases readCarrier x with
        | error code => rfl
        | ok version =>
          have later := ih { b with
            sawVersionKey := true
            nextIsCarrier := false
            version := some version } rfl rfl done opened
          simpa only [clear] using later
    · rw [if_neg reserved, run_key b done [] [] name opened (fun _ => reserved)]
      by_cases accepted : Addressable name ∧ name ∉ done.map Prod.fst
      · rw [if_pos accepted, if_pos accepted,
          value_reads x { b with stack := [⟨Tree.object () done, name⟩] } _ [] _ rfl clear]
        simp only [List.length_cons, List.length_nil, Nat.zero_add]
        cases readValue b.limits.maxNodes x 1 b.nodes with
        | error code => rfl
        | ok result =>
          obtain ⟨read, nodes⟩ := result
          simp only [hold_object done name read accepted.2]
          exact ih { b with nodes := nodes, stack := [⟨Tree.object () (done ++ [(name, read)]), []⟩] }
            clear seen _ rfl
      · rw [if_neg accepted, if_neg accepted]

/-- What reading the members of the root leaves. -/
theorem readRoot_ok (maxNodes : Nat) (ms : List (Bytes × SaxDocument)) (nodes : Nat)
    (version : Option VersionId) (done : List (Bytes × ConfigValue)) (version' : Option VersionId)
    (read : List (Bytes × ConfigValue)) (nodes' : Nat)
    (ok : readRoot maxNodes ms nodes version done = .ok (version', read, nodes'))
    (distinct : (done.map Prod.fst).Nodup) :
    ∃ new, read = done ++ new ∧ (read.map Prod.fst).Nodup ∧
      (∀ m ∈ new, m.1 ≠ kVersionKey ∧ Addressable m.1 ∧ Tree.WellKeyed Addressable m.2 ∧
        1 + m.2.height ≤ kMaxTreeDepth) ∧
      nodes' = nodes + (new.map fun m => m.2.size).sum ∧ (nodes ≤ maxNodes → nodes' ≤ maxNodes) ∧
      ((∀ m ∈ ms, ValidUtf8 m.1 ∧ Lexed m.2) → ∀ m ∈ new, ValidUtf8 m.1 ∧ Dumpable m.2) := by
  induction ms generalizing nodes version done with
  | nil =>
    cases ok
    exact ⟨[], by simp, distinct, by simp, by simp, id, by simp⟩
  | cons m rest ih =>
    obtain ⟨name, x⟩ := m
    rw [readRoot] at ok
    by_cases reserved : name = kVersionKey
    · rw [if_pos reserved] at ok
      split at ok
      · cases ok
      · cases carried : readCarrier x with
        | error code => simp [carried] at ok
        | ok carrier =>
          simp only [carried] at ok
          obtain ⟨new, shape, nodup, good, counted, budget, dumpable⟩ :=
            ih nodes (some carrier) done ok distinct
          refine ⟨new, shape, nodup, good, counted, budget, fun lexed => dumpable ?_⟩
          exact fun m inside => lexed m (by simp [inside])
    · rw [if_neg reserved] at ok
      split at ok
      · next accepted =>
        cases first : readValue maxNodes x 1 nodes with
        | error code => simp [first] at ok
        | ok result =>
          obtain ⟨value, middle⟩ := result
          simp only [first] at ok
          have here := readValue_ok maxNodes x 1 nodes value middle first
          have appended := nodup_append_key done name value distinct accepted.2
          obtain ⟨new, shape, nodup, good, counted, budget, dumpable⟩ :=
            ih middle version _ ok appended
          refine ⟨(name, value) :: new, by simp [shape], nodup, ?_, ?_, ?_, ?_⟩
          · exact List.forall_mem_cons.mpr
              ⟨⟨reserved, accepted.1, here.keyed, here.shallow⟩, good⟩
          · rw [counted, here.counted, List.map_cons, List.sum_cons, Nat.add_assoc]
          · exact fun room => budget (here.budget room)
          · intro lexed
            rw [List.forall_mem_cons] at lexed ⊢
            exact ⟨⟨lexed.1.1, here.dumpable lexed.1.2⟩, dumpable lexed.2⟩
      · cases ok

/-- What a successful reading of a document guarantees. -/
structure ReadRoot (maxNodes : Nat) (doc : SaxDocument) (root : ConfigValue) : Prop where
  admissible : Admissible root
  free : kVersionKey ∉ root.keys
  budget : root.size ≤ maxNodes
  dumpable : Lexed doc → Dumpable root

theorem readDocument_ok (maxNodes : Nat) (doc : SaxDocument) (version : VersionId)
    (root : ConfigValue) (ok : readDocument maxNodes doc = .ok (version, root)) :
    ReadRoot maxNodes doc root := by
  cases doc with
  | leaf l s => cases ok
  | array l es => cases ok
  | object l ms =>
    rw [readDocument] at ok
    cases members : readRoot maxNodes ms 0 none [] with
    | error code => simp [members] at ok
    | ok result =>
      obtain ⟨carried, read, nodes⟩ := result
      simp only [members] at ok
      obtain ⟨new, rfl, distinct, good, total, budget, dumpable⟩ :=
        readRoot_ok maxNodes ms 0 none [] carried read nodes members (by simp)
      split at ok
      · cases ok
      · next room =>
        cases carried with
        | none => cases ok
        | some carrier =>
          cases ok
          refine ⟨⟨rfl, ?_, ?_⟩, ?_, ?_, fun lexed => ?_⟩
          · rw [Tree.wellKeyed_iff]
            simp only [Tree.keys, Tree.children, List.forall_mem_map]
            exact ⟨⟨distinct, fun m inside => (good m inside).2.1⟩,
              fun m inside => (good m inside).2.2.1⟩
          · have shallow := shallow_of_children (Tree.object () read) 0 (Nat.zero_le _)
            simp only [Tree.children, List.forall_mem_map, Nat.zero_add] at shallow
            exact shallow fun m inside => (good m inside).2.2.2
          · intro inside
            obtain ⟨m, member, same⟩ := List.mem_map.mp inside
            exact (good m member).1 same
          · have within := budget (Nat.zero_le _)
            have size : Tree.size (Tree.object () read : ConfigValue) = nodes + 1 := by
              rw [Tree.size_object, total, Nat.zero_add]
            omega
          · rw [Lexed, Tree.everyPart_object] at lexed
            rw [Dumpable, Tree.everyPart_object]
            exact dumpable lexed

/-- Closing the root counts it. -/
theorem run_closeRoot (b : ValueBuilder) (closed : Frame) (opened : b.stack = [closed]) :
    run b [.endObject] =
      if b.nodes = b.limits.maxNodes then .error .parseError
      else .ok { b with nodes := b.nodes + 1, stack := [], root := some closed.container } := by
  by_cases full : b.nodes = b.limits.maxNodes
  · rw [if_pos full]
    refine run_failed b _ [] _ ?_
    change Fails b.popFrame _
    unfold ValueBuilder.popFrame ValueBuilder.consumeNode
    simp only [opened, List.isEmpty_nil, if_true, if_pos full]
    exact ⟨_, _, rfl⟩
  · rw [if_neg full]
    refine (run_cons b _ _ [] ?_).trans rfl
    change b.popFrame = _
    unfold ValueBuilder.popFrame ValueBuilder.consumeNode
    simp only [opened, List.isEmpty_nil, if_true, if_neg full]

/-- The builder accepts the events of a document exactly when it can be read, a missing carrier
aside, which is noticed after the last event. -/
theorem run_document (limits : LoadLimits) (doc : SaxDocument) :
    match readDocument limits.maxNodes doc with
    | .error code =>
        run { limits := limits } (saxEvents doc) = .error code ∨
          ∃ b, run { limits := limits } (saxEvents doc) = .ok b ∧ b.version = none ∧
            code = .invalidVersion
    | .ok (version, root) =>
        ∃ b, run { limits := limits } (saxEvents doc) = .ok b ∧ b.version = some version ∧
          b.root = some root := by
  cases doc with
  | leaf l s =>
    refine .inl (run_failed _ _ _ _ ?_)
    cases s <;> exact ⟨_, _, rfl⟩
  | array l es => exact .inl (run_failed _ _ _ _ ⟨_, _, rfl⟩)
  | object l ms =>
    have shallow : ¬ kMaxTreeDepth < ([] : List Frame).length := by simp
    have start := run_startObject { limits := limits } rfl (saxMemberEvents ms ++ [.endObject])
    rw [if_neg shallow, root_read ms _ rfl rfl [] _ rfl] at start
    rw [saxEvents, readDocument, start]
    cases readRoot limits.maxNodes ms 0 none [] with
    | error code => exact .inl rfl
    | ok result =>
      obtain ⟨version, read, nodes⟩ := result
      simp only
      rw [run_closeRoot _ _ rfl]
      by_cases full : nodes = limits.maxNodes
      · rw [if_pos full, if_pos full]
        exact .inl rfl
      · rw [if_neg full, if_neg full]
        cases version with
        | none => exact .inr ⟨_, rfl, rfl, rfl⟩
        | some version => exact ⟨_, rfl, rfl, rfl⟩

/-- A run that ends with `parse_error` fails. -/
theorem run_parseError (events : List SaxEvent) (what : Bytes) (b : ValueBuilder) :
    ∃ code, run b (events ++ [.parseError what]) = .error code := by
  induction events generalizing b with
  | nil => exact ⟨.parseError, rfl⟩
  | cons event rest ih =>
    cases step : b.handle event with
    | mk accepted b' =>
      cases accepted with
      | true =>
        obtain ⟨code, failed⟩ := ih b'
        exact ⟨code, (run_cons b b' event _ step).trans failed⟩
      | false =>
        refine ⟨b'.takeError.code, ?_⟩
        unfold run
        rw [List.cons_append, ValueBuilder.saxParse, step]

/-! ## Loading a text -/

/-- Once the builder has a root and a version, the model adopts the root. -/
theorem takeRoot_adopted (json : NlohmannJson) (texts : ParsesTexts json) (limits : LoadLimits)
    (text : Bytes) (b : ValueBuilder)
    (accepted : ValueBuilder.saxParse { limits := limits } (json.events text) = (true, b))
    (versioned : b.version.isSome = true) : ∃ m, ConfigModel.fromValue b.takeRoot = .ok m := by
  have ran : run { limits := limits } (json.events text) = .ok b := by
    unfold run
    rw [accepted]
  rcases texts text with ⟨doc, parsed, _⟩ | ⟨before, what, parsed⟩
  · have spec := run_document limits doc
    rw [← parsed, ran] at spec
    cases read : readDocument limits.maxNodes doc with
    | error code =>
      rw [read] at spec
      simp only [reduceCtorEq, Except.ok.injEq, exists_eq_left', false_or] at spec
      rw [spec.1] at versioned
      cases versioned
    | ok result =>
      obtain ⟨version, root⟩ := result
      rw [read] at spec
      simp only [Except.ok.injEq, exists_eq_left'] at spec
      obtain ⟨m, made, _⟩ := fromValue_ok root (readDocument_ok _ doc version root read).admissible
      refine ⟨m, ?_⟩
      rw [ValueBuilder.takeRoot, spec.2, Option.getD_some, made]
  · obtain ⟨code, failed⟩ := run_parseError before what { limits := limits }
    rw [parsed, failed] at ran
    cases ran

/-- What `decode` answers for a text that parses, and that adopting the tree never fails. -/
theorem decode_reads (json : NlohmannJson) (limits : LoadLimits) (text : Bytes) (doc : SaxDocument)
    (parsed : json.events text = saxEvents doc) :
    match readDocument limits.maxNodes doc with
    | .error code => outcome (JsonInterface.decode json limits text) = .error code
    | .ok (version, root) =>
        ∃ m, JsonInterface.decode json limits text = .ok ⟨version, m⟩ ∧ contents m = root ∧
          Reachable m := by
  have ran := run_document limits doc
  unfold run at ran
  unfold JsonInterface.decode
  rw [parsed]
  cases parse : ValueBuilder.saxParse { limits := limits } (saxEvents doc) with
  | mk accepted b =>
    rw [parse] at ran
    cases read : readDocument limits.maxNodes doc with
    | error code =>
      rw [read] at ran
      cases accepted with
      | false => simpa [outcome] using ran
      | true =>
        simp only [reduceCtorEq, Except.ok.injEq, exists_eq_left', false_or] at ran
        simp only [Bool.not_true, Bool.false_eq_true, if_false, ran.1, outcome_fail, ran.2]
    | ok result =>
      obtain ⟨version, root⟩ := result
      rw [read] at ran
      cases accepted with
      | false => simp at ran
      | true =>
        simp only [Except.ok.injEq, exists_eq_left'] at ran
        have admissible := (readDocument_ok _ doc version root read).admissible
        obtain ⟨m, made, same⟩ := fromValue_ok root admissible
        refine ⟨m, ?_, same, .fromValue ⟨root, admissible.keysDistinct⟩ m made⟩
        simp only [Bool.not_true, Bool.false_eq_true, if_false, ran.1, ValueBuilder.takeRoot, ran.2,
          Option.getD_some, made]

/-- Whatever `decode` accepts was read from a document. -/
theorem decode_ok (json : NlohmannJson) (texts : ParsesTexts json) (limits : LoadLimits)
    (text : Bytes) (c : VersionedConfig) (loaded : JsonInterface.decode json limits text = .ok c) :
    Reachable c.model ∧ ∃ doc, json.events text = saxEvents doc ∧ Lexed doc ∧
      readDocument limits.maxNodes doc = .ok (c.version, contents c.model) := by
  rcases texts text with ⟨doc, parsed, lexed⟩ | ⟨before, what, parsed⟩
  · have spec := decode_reads json limits text doc parsed
    rw [loaded] at spec
    cases read : readDocument limits.maxNodes doc with
    | error code =>
      rw [read] at spec
      cases spec
    | ok result =>
      obtain ⟨version, root⟩ := result
      rw [read] at spec
      obtain ⟨m, same, rfl, reached⟩ := spec
      cases same
      exact ⟨reached, doc, parsed, lexed, read⟩
  · obtain ⟨code, failed⟩ := run_parseError before what { limits := limits }
    unfold JsonInterface.decode at loaded
    unfold run at failed
    rw [parsed] at loaded
    cases parse : ValueBuilder.saxParse { limits := limits } (before ++ [.parseError what]) with
    | mk accepted b =>
      rw [parse] at failed loaded
      cases accepted with
      | false => simp at loaded
      | true => cases failed

end ConfigManager.Refinement
