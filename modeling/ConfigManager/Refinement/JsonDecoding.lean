import ConfigManager.Refinement.JsonEncoding

/-!
# The builder undoes the encoding

The events of an encoded value, delivered below an open container, attach the
value there and count its nodes. The induction is over the value: a container
opens a frame, its children are attached one by one, and closing it attaches it
to the frame below.
-/

set_option autoImplicit false

namespace ConfigManager.Refinement
open Library Source Reference

theorem saxParse_cons (b b' : ValueBuilder) (event : SaxEvent) (rest : List SaxEvent)
    (step : b.handle event = (true, b')) : b.saxParse (event :: rest) = b'.saxParse rest := by
  rw [ValueBuilder.saxParse, step]

/-! ## One callback -/

theorem attach_spec (b : ValueBuilder) (top : Frame) (outer : List Frame) (value : ConfigValue)
    (opened : b.stack = top :: outer) (depth : b.stack.length ≤ kMaxTreeDepth)
    (budget : b.nodes < b.limits.maxNodes) :
    b.attach value =
      (true, { b with nodes := b.nodes + 1, stack := top.hold value :: outer }) := by
  unfold ValueBuilder.attach ValueBuilder.consumeNode
  rw [if_neg (not_lt_of_ge depth), if_neg (Nat.ne_of_lt budget)]
  simp only [opened]

theorem consumeCarrierFlag_clear (b : ValueBuilder) (clear : b.nextIsCarrier = false) :
    b.consumeCarrierFlag = (false, b) := by
  cases b
  simp only [ValueBuilder.consumeCarrierFlag] at clear ⊢
  rw [clear]

theorem onScalar_spec (b : ValueBuilder) (top : Frame) (outer : List Frame) (value : ConfigValue)
    (opened : b.stack = top :: outer) (clear : b.nextIsCarrier = false) :
    b.onScalar value = b.attach value := by
  unfold ValueBuilder.onScalar
  rw [consumeCarrierFlag_clear b clear, opened, if_neg (by simp)]

/-- A non-negative integer fits the unsigned callback and comes back. -/
theorem nonNegative_fits (value : Int64) (nonNegative : ¬ value < 0) :
    ¬ kMaxInt < value.toUInt64 := by
  rw [Int64.lt_iff_toInt_lt] at nonNegative
  rw [UInt64.lt_iff_toNat_lt]
  have zero : (0 : Int64).toInt = 0 := rfl
  have bound : kMaxInt.toNat = 9223372036854775807 := rfl
  have read : value.toInt = value.toBitVec.toInt := rfl
  have same : value.toUInt64.toNat = value.toBitVec.toNat := rfl
  rw [BitVec.toInt_eq_toNat_cond] at read
  split at read <;> omega

/-- The event of an encoded scalar attaches it. -/
theorem handle_scalar (literal : Double → Bytes)
    (marked : ∀ d, d.isFinite = true → (literal d).any ValueBuilder.isFloatMark = true)
    (s : Scalar) (finite : FiniteScalar s) (b : ValueBuilder) (top : Frame) (outer : List Frame)
    (opened : b.stack = top :: outer) (clear : b.nextIsCarrier = false) :
    b.handle (primitiveEvent literal (primitiveOf s)) = b.attach (ConfigValue.of s) := by
  have inside : ¬ b.stack.isEmpty = true := by simp [opened]
  cases s with
  | monostate => exact onScalar_spec b top outer _ opened clear
  | bool value => exact onScalar_spec b top outer _ opened clear
  | string value => exact onScalar_spec b top outer _ opened clear
  | int value =>
    simp only [primitiveOf, primitiveEvent]
    by_cases negative : value < 0
    · rw [if_pos negative]
      change b.numberInteger value = _
      unfold ValueBuilder.numberInteger
      rw [if_neg inside, consumeCarrierFlag_clear b clear]
    · rw [if_neg negative]
      change b.numberUnsigned value.toUInt64 = _
      unfold ValueBuilder.numberUnsigned
      rw [if_neg inside, consumeCarrierFlag_clear b clear]
      simp only [if_neg (nonNegative_fits value negative)]
      rfl
  | double value =>
    have mark := marked value finite
    change b.numberFloat value (literal value) = _
    unfold ValueBuilder.numberFloat
    simp only [if_neg inside, consumeCarrierFlag_clear b clear, mark, Bool.not_true,
      Bool.false_eq_true, if_false]

/-- Opening a container below the depth limit pushes an empty frame. -/
theorem checkContainerDepth_spec (b : ValueBuilder) (depth : b.stack.length ≤ kMaxTreeDepth) :
    b.checkContainerDepth = (true, b) := by
  unfold ValueBuilder.checkContainerDepth
  rw [if_neg (not_lt_of_ge depth)]

theorem startObject_spec (b : ValueBuilder) (clear : b.nextIsCarrier = false)
    (depth : b.stack.length ≤ kMaxTreeDepth) :
    b.startObject = (true, { b with stack := ⟨ConfigValue.object, []⟩ :: b.stack }) := by
  unfold ValueBuilder.startObject
  simp only [consumeCarrierFlag_clear b clear, checkContainerDepth_spec b depth]

theorem startArray_spec (b : ValueBuilder) (top : Frame) (outer : List Frame)
    (opened : b.stack = top :: outer) (clear : b.nextIsCarrier = false)
    (depth : b.stack.length ≤ kMaxTreeDepth) :
    b.startArray = (true, { b with stack := ⟨ConfigValue.array, []⟩ :: b.stack }) := by
  unfold ValueBuilder.startArray
  rw [if_neg (by simp [opened])]
  simp only [consumeCarrierFlag_clear b clear, checkContainerDepth_spec b depth]

/-- A member name that is new in its object, and not the root's carrier, waits for its value. -/
theorem key_spec (b : ValueBuilder) (done : List (Bytes × ConfigValue)) (pending : Bytes)
    (outer : List Frame) (name : Bytes) (opened : b.stack = ⟨Tree.object () done, pending⟩ :: outer)
    (addressable : Addressable name) (fresh : name ∉ done.map Prod.fst)
    (plain : outer = [] → name ≠ kVersionKey) :
    b.key name = (true, { b with stack := ⟨Tree.object () done, name⟩ :: outer }) := by
  have accepted : isPathAddressable name = true := addressable
  have notCarrier : ¬ (outer.isEmpty = true ∧ name = kVersionKey) := fun ⟨empty, same⟩ =>
    plain (List.isEmpty_iff.mp empty) same
  have absent : ConfigValue.contains (Tree.object () done) name = false := by
    simp [ConfigValue.contains, (lookup_none_iff name done).mpr fresh]
  unfold ValueBuilder.key
  simp only [accepted, Bool.not_true, Bool.false_eq_true, if_false, opened, if_neg notCarrier, absent]

/-! ## A value below an open container -/

/-- What the events of an encoded value do below an open container, whatever comes next. -/
def Attaches (literal : Double → Bytes) (x : ConfigValue) : Prop :=
  ∀ (b : ValueBuilder) (top : Frame) (outer : List Frame) (rest : List SaxEvent),
    b.stack = top :: outer → b.nextIsCarrier = false → b.stack.length + x.height ≤ kMaxTreeDepth →
    b.nodes + x.size ≤ b.limits.maxNodes →
    b.saxParse (documentEvents literal (jsonOf x) ++ rest) =
      ValueBuilder.saxParse
        { b with nodes := b.nodes + x.size, stack := top.hold x :: outer } rest

theorem hold_object (done : List (Bytes × ConfigValue)) (name : Bytes) (value : ConfigValue)
    (fresh : name ∉ done.map Prod.fst) :
    Frame.hold ⟨Tree.object () done, name⟩ value = ⟨Tree.object () (done ++ [(name, value)]), []⟩ := by
  simp only [Frame.hold, ConfigValue.type, if_true, ConfigValue.set_of_absent done name value fresh]

/-- The members of an open object are attached in order. -/
theorem members_attach (literal : Double → Bytes) (ms : List (Bytes × ConfigValue))
    (each : ∀ m ∈ ms, Attaches literal m.2) (b : ValueBuilder) (clear : b.nextIsCarrier = false)
    (done : List (Bytes × ConfigValue)) (outer : List Frame) (rest : List SaxEvent)
    (opened : b.stack = ⟨Tree.object () done, []⟩ :: outer)
    (distinct : ((done ++ ms).map Prod.fst).Nodup) (names : ∀ m ∈ ms, Addressable m.1)
    (plain : outer = [] → kVersionKey ∉ ms.map Prod.fst)
    (depth : ∀ m ∈ ms, b.stack.length + m.2.height ≤ kMaxTreeDepth)
    (budget : b.nodes + (ms.map fun m => m.2.size).sum ≤ b.limits.maxNodes) :
    b.saxParse (memberEvents literal (ms.map fun m => (m.1, jsonOf m.2)) ++ rest) =
      ValueBuilder.saxParse
        { b with
          nodes := b.nodes + (ms.map fun m => m.2.size).sum
          stack := ⟨Tree.object () (done ++ ms), []⟩ :: outer } rest := by
  induction ms generalizing b done with
  | nil =>
    simp only [List.map_nil, memberEvents, List.nil_append, List.sum_nil, List.append_nil,
      Nat.add_zero, ← opened]
  | cons m ms ih =>
    obtain ⟨name, x⟩ := m
    simp only [List.map_cons, List.sum_cons] at budget ⊢
    have fresh : name ∉ done.map Prod.fst := by
      rw [List.map_append, List.nodup_append] at distinct
      exact fun early => distinct.2.2 name early name (by simp) rfl
    have named := key_spec b done [] outer name opened (names (name, x) (by simp)) fresh
      (fun empty same => plain empty (by simp [same]))
    have first := each (name, x) (by simp)
      { b with stack := ⟨Tree.object () done, name⟩ :: outer } _ outer
      (memberEvents literal (ms.map fun m => (m.1, jsonOf m.2)) ++ rest) rfl clear
      (by simpa [opened] using depth (name, x) (by simp))
      (Nat.le_trans (by simp only; omega) budget)
    rw [memberEvents, List.cons_append, saxParse_cons b _ (.key name) _ named, List.append_assoc,
      first, hold_object done name x fresh]
    have later := ih (fun m' inside => each m' (by simp [inside]))
      { b with
        nodes := b.nodes + x.size
        stack := ⟨Tree.object () (done ++ [(name, x)]), []⟩ :: outer }
      clear (done ++ [(name, x)]) rfl (by simpa using distinct)
      (fun m' inside => names m' (by simp [inside]))
      (fun empty inside => plain empty (by simp [inside]))
      (fun m' inside => by simpa [opened] using depth m' (by simp [inside]))
      (by simp only; omega)
    rw [later]
    simp only [List.append_assoc, List.singleton_append, Nat.add_assoc]

/-- The elements of an open array are attached in order. -/
theorem elements_attach (literal : Double → Bytes) (es : List ConfigValue)
    (each : ∀ e ∈ es, Attaches literal e) (b : ValueBuilder) (clear : b.nextIsCarrier = false)
    (done : List ConfigValue) (outer : List Frame) (rest : List SaxEvent)
    (opened : b.stack = ⟨Tree.array () done, []⟩ :: outer)
    (depth : ∀ e ∈ es, b.stack.length + e.height ≤ kMaxTreeDepth)
    (budget : b.nodes + (es.map Tree.size).sum ≤ b.limits.maxNodes) :
    b.saxParse (elementEvents literal (es.map jsonOf) ++ rest) =
      ValueBuilder.saxParse
        { b with
          nodes := b.nodes + (es.map Tree.size).sum
          stack := ⟨Tree.array () (done ++ es), []⟩ :: outer } rest := by
  induction es generalizing b done with
  | nil =>
    simp only [List.map_nil, elementEvents, List.nil_append, List.sum_nil, List.append_nil,
      Nat.add_zero, ← opened]
  | cons e es ih =>
    simp only [List.map_cons, List.sum_cons] at budget ⊢
    have first := each e (by simp) b _ outer (elementEvents literal (es.map jsonOf) ++ rest) opened
      clear (depth e (by simp)) (Nat.le_trans (by omega) budget)
    rw [elementEvents, List.append_assoc, first]
    have later := ih (fun e' inside => each e' (by simp [inside]))
      { b with
        nodes := b.nodes + e.size
        stack := ⟨Tree.array () (done ++ [e]), []⟩ :: outer }
      clear (done ++ [e]) rfl
      (fun e' inside => by simpa [opened] using depth e' (by simp [inside]))
      (by simp only; omega)
    change ValueBuilder.saxParse
      { b with
        nodes := b.nodes + e.size
        stack := ⟨Tree.array () (done ++ [e]), []⟩ :: outer } _ = _
    rw [later]
    simp only [List.append_assoc, List.singleton_append, Nat.add_assoc]

/-- Closing a container attaches it to the frame below. -/
theorem popFrame_inner (b : ValueBuilder) (closed top : Frame) (outer : List Frame)
    (opened : b.stack = closed :: top :: outer) (depth : outer.length + 1 ≤ kMaxTreeDepth)
    (budget : b.nodes < b.limits.maxNodes) :
    b.popFrame = (true, { b with
      nodes := b.nodes + 1
      stack := top.hold closed.container :: outer }) := by
  unfold ValueBuilder.popFrame
  simp only [opened, List.isEmpty_cons, Bool.false_eq_true, if_false]
  exact attach_spec { b with stack := top :: outer } top outer closed.container rfl depth budget

theorem value_attaches (literal : Double → Bytes)
    (marked : ∀ d, d.isFinite = true → (literal d).any ValueBuilder.isFloatMark = true)
    (x : ConfigValue) (finite : Tree.EveryLeaf FiniteScalar x)
    (keyed : Tree.WellKeyed Addressable x) : Attaches literal x := by
  induction x using Tree.children_induction with
  | node x ih =>
    intro b top outer rest opened clear depth budget
    obtain ⟨⟨distinct, names⟩, below⟩ := (Tree.wellKeyed_iff x).mp keyed
    cases x with
    | leaf l s =>
      rw [Tree.everyLeaf_leaf] at finite
      have one : Tree.size (Tree.leaf l s : ConfigValue) = 1 := rfl
      rw [one] at budget ⊢
      have attached := attach_spec b top outer (ConfigValue.of s) opened (by omega) budget
      rw [jsonOf, Tree.mapLeaves_leaf, documentEvents, List.singleton_append]
      exact saxParse_cons b _ _ rest
        ((handle_scalar literal marked s finite b top outer opened clear).trans attached)
    | object l ms =>
      rw [Tree.everyLeaf_object] at finite
      have deeper : ∀ m ∈ ms, b.stack.length + 1 + m.2.height ≤ kMaxTreeDepth := fun m inside => by
        have lower := Tree.height_child_lt (Tree.object l ms) m.2 (List.mem_map_of_mem inside)
        omega
      have total : Tree.size (Tree.object l ms) =
          (ms.map fun m : Bytes × ConfigValue => Tree.size m.2).sum + 1 := by
        rw [Tree.size_eq, Tree.children, List.map_map]
        rfl
      rw [total] at budget ⊢
      simp only [Tree.children, List.forall_mem_map] at ih below
      have start := startObject_spec b clear (by omega)
      have inside := members_attach literal ms
        (fun m member => ih m member (finite m member) (below m member))
        { b with stack := ⟨ConfigValue.object, []⟩ :: b.stack } clear [] b.stack
        ([.endObject] ++ rest) rfl (by simpa [Tree.keys] using distinct)
        (fun m member => names m.1 (List.mem_map_of_mem member))
        (fun empty => by simp [opened] at empty)
        (fun m member => by simpa using deeper m member) (by simp only; omega)
      have close := popFrame_inner
        { b with
          nodes := b.nodes + (ms.map fun m : Bytes × ConfigValue => Tree.size m.2).sum
          stack := ⟨Tree.object () ms, []⟩ :: b.stack }
        _ top outer (by rw [opened]) (by simp only [opened, List.length_cons] at depth; omega)
        (by simp only; omega)
      rw [jsonOf, Tree.mapLeaves_object, documentEvents, List.cons_append,
        saxParse_cons b _ .startObject _ start, List.append_assoc, inside, List.singleton_append]
      exact saxParse_cons _ _ .endObject rest close
    | array l es =>
      rw [Tree.everyLeaf_array] at finite
      have deeper : ∀ e ∈ es, b.stack.length + 1 + e.height ≤ kMaxTreeDepth := fun e inside => by
        have lower := Tree.height_child_lt (Tree.array l es) e inside
        omega
      have total : Tree.size (Tree.array l es) = (es.map Tree.size).sum + 1 := by
        rw [Tree.size_eq, Tree.children]
      rw [total] at budget ⊢
      have start := startArray_spec b top outer opened clear (by omega)
      have inside := elements_attach literal es
        (fun e member => ih e member (finite e member) (below e member))
        { b with stack := ⟨ConfigValue.array, []⟩ :: b.stack } clear [] b.stack
        ([.endArray] ++ rest) rfl (fun e member => by simpa using deeper e member)
        (by simp only; omega)
      have close := popFrame_inner
        { b with
          nodes := b.nodes + (es.map Tree.size).sum
          stack := ⟨Tree.array () es, []⟩ :: b.stack }
        _ top outer (by rw [opened]) (by simp only [opened, List.length_cons] at depth; omega)
        (by simp only; omega)
      rw [jsonOf, Tree.mapLeaves_array, documentEvents, List.cons_append,
        saxParse_cons b _ .startArray _ start, List.append_assoc, inside, List.singleton_append]
      exact saxParse_cons _ _ .endArray rest close

/-! ## The whole document -/

theorem version_fits (version : VersionId) : ¬ kMaxVersion < UInt64.ofNat version.val := by
  have bound := version.isLt
  have limit : kMaxVersion.toNat = 2 ^ 32 - 1 := rfl
  rw [UInt64.lt_iff_toNat_lt, UInt64.toNat_ofNat', limit]
  omega

theorem version_read (version : VersionId) :
    Fin.ofNat (2 ^ 32) (UInt64.ofNat version.val).toNat = version := by
  have bound := version.isLt
  apply Fin.ext
  rw [UInt64.toNat_ofNat', Fin.val_ofNat]
  omega

/-- The events of a written document end with its version and its root. -/
theorem document_parses (literal : Double → Bytes)
    (marked : ∀ d, d.isFinite = true → (literal d).any ValueBuilder.isFloatMark = true)
    (version : VersionId) (ms : List (Bytes × ConfigValue)) (limits : LoadLimits)
    (admissible : Admissible (Tree.object () ms))
    (finite : Tree.EveryLeaf FiniteScalar (Tree.object () ms : ConfigValue))
    (free : kVersionKey ∉ ms.map Prod.fst)
    (budget : Tree.size (Tree.object () ms : ConfigValue) ≤ limits.maxNodes) :
    ∃ b, ValueBuilder.saxParse { limits := limits }
        (documentEvents literal (documentOf version ms)) = (true, b) ∧
      b.version = some version ∧ b.root = some (Tree.object () ms) := by
  rw [Tree.everyLeaf_object] at finite
  obtain ⟨⟨distinct, names⟩, below⟩ := (Tree.wellKeyed_iff _).mp admissible.keys
  have deeper : ∀ m ∈ ms, 1 + m.2.height ≤ kMaxTreeDepth := fun m inside => by
    have lower := Tree.height_child_lt (Tree.object () ms) m.2 (List.mem_map_of_mem inside)
    have shallow := admissible.shallow
    omega
  have total : Tree.size (Tree.object () ms : ConfigValue) =
      (ms.map fun m : Bytes × ConfigValue => Tree.size m.2).sum + 1 := by
    rw [Tree.size_eq, Tree.children, List.map_map]
    rfl
  rw [total] at budget
  simp only [Tree.children, List.forall_mem_map] at below
  have start := startObject_spec { limits := limits } rfl (Nat.zero_le _)
  -- The carrier is consumed in place, so the members start on an empty root.
  let opened : ValueBuilder := { limits := limits, stack := [⟨ConfigValue.object, []⟩] }
  let flagged : ValueBuilder := { opened with sawVersionKey := true, nextIsCarrier := true }
  let versioned : ValueBuilder :=
    { opened with sawVersionKey := true, version := some version }
  have named : opened.handle (.key kVersionKey) = (true, flagged) := rfl
  have consumed : flagged.handle (.numberUnsigned (UInt64.ofNat version.val)) =
      (true, versioned) := by
    change flagged.numberUnsigned _ = _
    unfold ValueBuilder.numberUnsigned
    rw [if_neg (by simp [flagged, opened])]
    simp only [ValueBuilder.consumeCarrierFlag, flagged, opened, versioned,
      if_neg (version_fits version), version_read]
  have members := members_attach literal ms
    (fun m inside => value_attaches literal marked m.2 (finite m inside) (below m inside))
    versioned rfl [] [] [.endObject] rfl (by simpa [Tree.keys] using distinct)
    (fun m inside => names m.1 (List.mem_map_of_mem inside)) (fun _ => free)
    (fun m inside => deeper m inside) (by simp only [versioned, opened]; omega)
  have close : ∃ b, ValueBuilder.popFrame { versioned with
      nodes := versioned.nodes + (ms.map fun m : Bytes × ConfigValue => Tree.size m.2).sum
      stack := ⟨Tree.object () ms, []⟩ :: [] } = (true, b) ∧
      b.version = some version ∧ b.root = some (Tree.object () ms) := by
    unfold ValueBuilder.popFrame ValueBuilder.consumeNode
    simp only [versioned, opened, List.isEmpty_nil, if_true]
    rw [if_neg (by omega)]
    exact ⟨_, rfl, rfl, rfl⟩
  obtain ⟨b, popped, same, root⟩ := close
  refine ⟨b, ?_, same, root⟩
  let written := memberEvents literal (ms.map fun m => (m.1, jsonOf m.2)) ++ [.endObject]
  let number : SaxEvent := .numberUnsigned (UInt64.ofNat version.val)
  calc ValueBuilder.saxParse { limits := limits }
        (documentEvents literal (documentOf version ms))
      = ValueBuilder.saxParse { limits := limits }
          (.startObject :: .key kVersionKey :: number :: written) := rfl
    _ = opened.saxParse (.key kVersionKey :: number :: written) := saxParse_cons _ _ _ _ start
    _ = flagged.saxParse (number :: written) := saxParse_cons _ _ _ _ named
    _ = versioned.saxParse written := saxParse_cons _ _ _ _ consumed
    _ = _ := members
    _ = (true, b) := saxParse_cons _ b .endObject [] popped

/-- A text whose events are those of the document decodes to its version and its tree. -/
theorem decode_document (json : NlohmannJson) (limits : LoadLimits) (text : Bytes)
    (literal : Double → Bytes)
    (marked : ∀ d, d.isFinite = true → (literal d).any ValueBuilder.isFloatMark = true)
    (version : VersionId) (ms : List (Bytes × ConfigValue))
    (parsed : json.events text = documentEvents literal (documentOf version ms))
    (admissible : Admissible (Tree.object () ms))
    (finite : Tree.EveryLeaf FiniteScalar (Tree.object () ms : ConfigValue))
    (free : kVersionKey ∉ ms.map Prod.fst)
    (budget : Tree.size (Tree.object () ms : ConfigValue) ≤ limits.maxNodes) :
    ∃ c, JsonInterface.decode json limits text = .ok c ∧ c.version = version ∧
      contents c.model = Tree.object () ms := by
  obtain ⟨b, accepted, read, root⟩ := document_parses literal marked version ms limits admissible
    finite free budget
  obtain ⟨m, made, same⟩ := fromValue_ok _ admissible
  refine ⟨⟨version, m⟩, ?_, rfl, same⟩
  unfold JsonInterface.decode
  rw [parsed, accepted]
  simp only [Bool.not_true, Bool.false_eq_true, if_false, read, ValueBuilder.takeRoot, root,
    Option.getD_some, made]

end ConfigManager.Refinement
