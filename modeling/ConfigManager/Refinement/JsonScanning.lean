import ConfigManager.Reference.JsonLiterals
import ConfigManager.Refinement.JsonReading
import ConfigManager.Refinement.PathScanning

/-!
# Reading a document is a scan of its checks

The recursive reading of a document fails at the first of its events that violates
a check, and without a violation it reads what the document denotes. The checks
that depend on what came before them, distinct keys and the number of nodes, are
then conditions on the document.
-/

set_option autoImplicit false

namespace ConfigManager.Refinement
open Library Source Reference

/-! ## Literals as they are delivered -/

theorem isFloatMark_digit (c : UInt8) (digit : isDigit c = true) :
    ValueBuilder.isFloatMark c = false := by
  have range := (isDigit_iff c).mp digit
  simp only [ValueBuilder.isFloatMark, Bool.or_eq_false_iff, beq_eq_false_iff_ne, ne_eq,
    ← UInt8.toNat_inj]
  simp
  omega

/-- Integer literals have no fraction and no exponent. -/
theorem integerText_unmarked (negative : Bool) (magnitude : Nat) :
    (integerText negative magnitude).any ValueBuilder.isFloatMark = false := by
  have digits : (natText magnitude).any ValueBuilder.isFloatMark = false := by
    rw [List.any_eq_false]
    intro c inside
    rw [isFloatMark_digit c (natText_isDigit magnitude c inside)]
    exact Bool.false_ne_true
  unfold integerText
  split
  · rw [List.any_cons, digits]
    rfl
  · exact digits

theorem toInt64_ofNat (magnitude : Nat) :
    (UInt64.ofNat magnitude).toInt64 = Int64.ofInt magnitude := by
  rw [← Int64.toBitVec_inj]
  simp

theorem readScalar_delivered (s : JsonScalar) :
    readScalar s.delivered = if IntegerFits s then .ok s.denoted else .error .parseError := by
  cases s with
  | null => rfl
  | boolean value => rfl
  | string value => rfl
  | real literal value =>
    rw [JsonScalar.delivered, readScalar, if_pos literal.marked]
    rfl
  | integer negative magnitude nearest =>
    have refused : readScalar (.numberFloat nearest (integerText negative magnitude)) =
        .error .parseError := by
      rw [readScalar, integerText_unmarked]
      rfl
    cases negative with
    | true =>
      simp only [JsonScalar.delivered, IntegerFits, if_true]
      by_cases fits : magnitude ≤ 2 ^ 63
      · rw [if_pos fits, if_pos fits]
        rfl
      · rw [if_neg fits, if_neg fits, refused]
    | false =>
      simp only [JsonScalar.delivered, IntegerFits, Bool.false_eq_true, if_false]
      by_cases unsigned : magnitude < 2 ^ 64
      · have bound : kMaxInt < UInt64.ofNat magnitude ↔ ¬ magnitude < 2 ^ 63 := by
          have limit : kMaxInt.toNat = 2 ^ 63 - 1 := rfl
          rw [UInt64.lt_iff_toNat_lt, UInt64.toNat_ofNat_of_lt' unsigned, limit]
          omega
        rw [if_pos unsigned, readScalar]
        by_cases fits : magnitude < 2 ^ 63
        · rw [if_neg (fun large => bound.mp large fits), if_pos fits, toInt64_ofNat]
          rfl
        · rw [if_pos (bound.mpr fits), if_neg fits]
      · have large : ¬ magnitude < 2 ^ 63 := by omega
        rw [if_neg unsigned, if_neg large, refused]

theorem readCarrier_delivered (x : JsonTree) :
    readCarrier (Tree.mapLeaves JsonScalar.delivered x) =
      match carriedVersion x with
      | some version => .ok version
      | none => .error .invalidVersion := by
  cases x with
  | object l ms => rw [Tree.mapLeaves_object]; rfl
  | array l es => rw [Tree.mapLeaves_array]; rfl
  | leaf l s =>
    rw [Tree.mapLeaves_leaf]
    cases s with
    | null => rfl
    | boolean value => rfl
    | real literal value => rfl
    | string value => rfl
    | integer negative magnitude nearest =>
      cases negative with
      | true =>
        simp only [JsonScalar.delivered, if_true, carriedVersion]
        split <;> rfl
      | false =>
        simp only [JsonScalar.delivered, Bool.false_eq_true, if_false, carriedVersion]
        by_cases unsigned : magnitude < 2 ^ 64
        · have limit : kMaxVersion.toNat = 2 ^ 32 - 1 := rfl
          have bound : kMaxVersion < UInt64.ofNat magnitude ↔ ¬ magnitude < 2 ^ 32 := by
            rw [UInt64.lt_iff_toNat_lt, UInt64.toNat_ofNat_of_lt' unsigned, limit]
            omega
          rw [if_pos unsigned, readCarrier]
          by_cases small : magnitude < 2 ^ 32
          · have same : Fin.ofNat (2 ^ 32) (UInt64.ofNat magnitude).toNat = ⟨magnitude, small⟩ := by
              rw [UInt64.toNat_ofNat_of_lt' unsigned]
              exact Fin.ext (Nat.mod_eq_of_lt small)
            rw [if_neg (fun large => bound.mp large small), dif_pos small, same]
          · rw [if_pos (bound.mpr small), dif_neg small]
        · have large : ¬ magnitude < 2 ^ 32 := by omega
          rw [if_neg unsigned, dif_neg large]
          rfl

/-! ## The checks follow the events -/

theorem checkFirst_events (check : Check) (events : List SaxEvent) :
    (checkFirst check events).map Prod.fst = events := by
  cases events with
  | nil => rfl
  | cons event rest => simp [checkFirst, Function.comp_def]

theorem valueChecks_events (x : JsonTree) (depth : Nat) :
    (valueChecks x depth).map Prod.fst = jsonEvents x := by
  induction x using Tree.children_induction generalizing depth with
  | node x ih =>
    cases x with
    | leaf l s => rfl
    | object l ms =>
      simp only [Tree.children, List.forall_mem_map] at ih
      have members : ∀ earlier, (memberChecks ms (depth + 1) earlier).map Prod.fst =
          saxMemberEvents (ms.map fun m => (m.1, Tree.mapLeaves JsonScalar.delivered m.2)) := by
        induction ms with
        | nil => exact fun _ => rfl
        | cons m rest tail =>
          intro earlier
          rw [List.forall_mem_cons] at ih
          simp only [memberChecks, List.map_cons, List.map_append, saxMemberEvents,
            ih.1 (depth + 1), tail ih.2]
          rfl
      simp only [valueChecks, jsonEvents, Tree.mapLeaves_object, saxEvents, List.map_cons,
        List.map_append, members, List.map_nil]
    | array l es =>
      simp only [Tree.children] at ih
      have elements : (elementChecks es (depth + 1)).map Prod.fst =
          saxElementEvents (es.map (Tree.mapLeaves JsonScalar.delivered)) := by
        induction es with
        | nil => rfl
        | cons e rest tail =>
          rw [List.forall_mem_cons] at ih
          simp only [elementChecks, List.map_cons, List.map_append, saxElementEvents,
            ih.1 (depth + 1), tail ih.2]
          rfl
      simp only [valueChecks, jsonEvents, Tree.mapLeaves_array, saxEvents, List.map_cons,
        List.map_append, elements, List.map_nil]

/-- One check for each event, in their order. -/
theorem documentChecks_events (doc : JsonTree) : (documentChecks doc).map Prod.fst = jsonEvents doc := by
  cases doc with
  | leaf l s => rw [documentChecks, checkFirst_events]; simp
  | array l es => rw [documentChecks, checkFirst_events]; simp
  | object l ms =>
    have members : ∀ earlier, (rootChecks ms earlier).map Prod.fst =
        saxMemberEvents (ms.map fun m => (m.1, Tree.mapLeaves JsonScalar.delivered m.2)) := by
      induction ms with
      | nil => exact fun _ => rfl
      | cons m rest tail =>
        intro earlier
        have value : (if m.1 = kVersionKey then checkFirst (.carrier m.2) (jsonEvents m.2)
            else valueChecks m.2 1).map Prod.fst = jsonEvents m.2 := by
          split
          · exact checkFirst_events _ _
          · exact valueChecks_events _ _
        simp only [rootChecks, List.map_cons, List.map_append, saxMemberEvents, value, tail]
        rfl
    simp only [documentChecks, jsonEvents, Tree.mapLeaves_object, saxEvents, List.map_cons,
      List.map_append, members, List.map_nil]

/-! ## Reading is scanning -/

/-- The code of the error an offending event is answered with. -/
def codeOf (event : CheckedEvent) : ErrorCode :=
  match event.2 with
  | .carrier _ => .invalidVersion
  | _ => .parseError

abbrev checkedScan (maxNodes : Nat) (events : List CheckedEvent) (nodes : Nat) :
    Except CheckedEvent Nat :=
  countedScan (OffendsAt maxNodes) countsAt events nodes

/-- What a reading answers whose value does not depend on the scan. -/
def reported {β : Type} (value : β) : Except CheckedEvent Nat → Except ErrorCode (β × Nat)
  | .error event => .error (codeOf event)
  | .ok nodes => .ok (value, nodes)

theorem scan_append (maxNodes : Nat) (l l' : List CheckedEvent) (nodes : Nat) :
    checkedScan maxNodes (l ++ l') nodes =
      match checkedScan maxNodes l nodes with
      | .error event => .error event
      | .ok counted => checkedScan maxNodes l' counted := by
  unfold checkedScan
  rw [countedScan_append]
  cases countedScan (OffendsAt maxNodes) countsAt l nodes <;> rfl

theorem scan_key (maxNodes : Nat) (name : Bytes) (earlier : List Bytes) (rest : List CheckedEvent)
    (nodes : Nat) :
    checkedScan maxNodes ((.key name, .key name earlier) :: rest) nodes =
      if Addressable name ∧ name ∉ earlier then checkedScan maxNodes rest nodes
      else .error (.key name, .key name earlier) := by
  by_cases accepted : Addressable name ∧ name ∉ earlier
  · have fine : ¬ OffendsAt maxNodes nodes (.key name, .key name earlier) :=
      not_not_intro ⟨(addressable_iff name).mp accepted.1, accepted.2⟩
    rw [if_pos accepted]
    exact countedScan_cons_ok _ _ _ _ _ fine
  · have offends : OffendsAt maxNodes nodes (.key name, .key name earlier) := fun both =>
      accepted ⟨(addressable_iff name).mpr both.1, both.2⟩
    rw [if_neg accepted, checkedScan, countedScan, if_pos offends]

theorem scan_scalar (maxNodes : Nat) (event : SaxEvent) (depth : Nat) (s : JsonScalar)
    (nodes : Nat) :
    checkedScan maxNodes [(event, .scalar depth s)] nodes =
      if ¬ IntegerFits s ∨ kMaxTreeDepth < depth ∨ nodes = maxNodes then
        .error (event, .scalar depth s)
      else .ok (nodes + 1) := rfl

/-- An opened and closed container, which is counted where it is closed. -/
theorem scan_container (maxNodes : Nat) (first last : SaxEvent) (depth : Nat)
    (inside : List CheckedEvent) (nodes : Nat) :
    checkedScan maxNodes ((first, .opening depth) :: (inside ++ [(last, .closing)])) nodes =
      if kMaxTreeDepth < depth then .error (first, .opening depth)
      else match checkedScan maxNodes inside nodes with
        | .error event => .error event
        | .ok counted => if counted = maxNodes then .error (last, .closing) else .ok (counted + 1) := by
  rw [checkedScan, countedScan]
  by_cases deep : kMaxTreeDepth < depth
  · rw [if_pos (show OffendsAt maxNodes nodes (first, .opening depth) from deep), if_pos deep]
  · rw [if_neg (show ¬ OffendsAt maxNodes nodes (first, .opening depth) from deep), if_neg deep]
    exact scan_append maxNodes inside [(last, .closing)] nodes

/-- A container that is not too deep is counted where it is closed. -/
theorem countNode_shallow (maxNodes depth nodes : Nat) (shallow : ¬ kMaxTreeDepth < depth) :
    countNode maxNodes depth nodes =
      if nodes = maxNodes then .error .parseError else .ok (nodes + 1) := by
  rw [countNode, if_neg shallow]

theorem readMembers_scanned (maxNodes : Nat) (ms : List (Bytes × JsonTree)) (depth : Nat)
    (each : ∀ m ∈ ms, ∀ nodes, readValue maxNodes (Tree.mapLeaves JsonScalar.delivered m.2) depth nodes =
      reported (denotedJson m.2) (checkedScan maxNodes (valueChecks m.2 depth) nodes))
    (nodes : Nat) (done : List (Bytes × ConfigValue)) :
    readMembers maxNodes (ms.map fun m => (m.1, Tree.mapLeaves JsonScalar.delivered m.2)) depth
        nodes done =
      reported (done ++ ms.map fun m => (m.1, denotedJson m.2))
        (checkedScan maxNodes (memberChecks ms depth (done.map Prod.fst)) nodes) := by
  induction ms generalizing nodes done with
  | nil =>
    rw [List.map_nil, readMembers, List.map_nil, List.append_nil]
    rfl
  | cons m rest ih =>
    rw [List.forall_mem_cons] at each
    have later := fun nodes => ih each.2 nodes (done ++ [(m.1, denotedJson m.2)])
    rw [List.map_cons, readMembers, memberChecks, each.1 nodes, scan_key]
    by_cases accepted : Addressable m.1 ∧ m.1 ∉ done.map Prod.fst
    · rw [if_pos accepted, if_pos accepted, scan_append]
      cases checkedScan maxNodes (valueChecks m.2 depth) nodes with
      | error event => rfl
      | ok counted =>
        simp only [reported]
        rw [later counted, List.map_append, List.append_assoc]
        rfl
    · rw [if_neg accepted, if_neg accepted]
      rfl

theorem readElements_scanned (maxNodes : Nat) (es : List JsonTree) (depth : Nat)
    (each : ∀ e ∈ es, ∀ nodes,
      readValue maxNodes (Tree.mapLeaves JsonScalar.delivered e) depth nodes =
        reported (denotedJson e) (checkedScan maxNodes (valueChecks e depth) nodes))
    (nodes : Nat) (done : List ConfigValue) :
    readElements maxNodes (es.map (Tree.mapLeaves JsonScalar.delivered)) depth nodes done =
      reported (done ++ es.map denotedJson) (checkedScan maxNodes (elementChecks es depth) nodes) := by
  induction es generalizing nodes done with
  | nil =>
    rw [List.map_nil, readElements, List.map_nil, List.append_nil]
    rfl
  | cons e rest ih =>
    rw [List.forall_mem_cons] at each
    rw [List.map_cons, readElements, elementChecks, each.1 nodes, scan_append]
    cases checkedScan maxNodes (valueChecks e depth) nodes with
    | error event => rfl
    | ok counted =>
      simp only [reported]
      rw [ih each.2 counted, List.append_assoc]
      rfl

/-- A value is read as what it denotes, unless a check of its events fails. -/
theorem readValue_scanned (maxNodes : Nat) (x : JsonTree) (depth nodes : Nat) :
    readValue maxNodes (Tree.mapLeaves JsonScalar.delivered x) depth nodes =
      reported (denotedJson x) (checkedScan maxNodes (valueChecks x depth) nodes) := by
  induction x using Tree.children_induction generalizing depth nodes with
  | node x ih =>
    cases x with
    | leaf l s =>
      rw [Tree.mapLeaves_leaf, readValue, readScalar_delivered, valueChecks, scan_scalar]
      by_cases fits : IntegerFits s
      · by_cases deep : kMaxTreeDepth < depth
        · simp [fits, deep, countNode, reported, codeOf]
        · by_cases full : nodes = maxNodes
          · simp [fits, deep, full, countNode, reported, codeOf]
          · simp only [fits, deep, full, countNode, not_true_eq_false, or_self, if_true, if_false,
              reported]
            rfl
      · simp [fits, reported, codeOf]
    | object l ms =>
      simp only [Tree.children, List.forall_mem_map] at ih
      rw [Tree.mapLeaves_object, readValue, valueChecks, scan_container,
        readMembers_scanned maxNodes ms (depth + 1) (fun m inside => ih m inside (depth + 1)) nodes []]
      by_cases deep : kMaxTreeDepth < depth
      · rw [if_pos deep, if_pos deep]
        rfl
      · rw [if_neg deep, if_neg deep, List.map_nil]
        cases checkedScan maxNodes (memberChecks ms (depth + 1) []) nodes with
        | error event => rfl
        | ok counted =>
          simp only [reported, countNode_shallow maxNodes depth counted deep]
          by_cases full : counted = maxNodes
          · rw [if_pos full, if_pos full]
            rfl
          · rw [if_neg full, if_neg full, List.nil_append, denotedJson, Tree.mapLeaves_object]
            rfl
    | array l es =>
      simp only [Tree.children] at ih
      rw [Tree.mapLeaves_array, readValue, valueChecks, scan_container,
        readElements_scanned maxNodes es (depth + 1) (fun e inside => ih e inside (depth + 1)) nodes []]
      by_cases deep : kMaxTreeDepth < depth
      · rw [if_pos deep, if_pos deep]
        rfl
      · rw [if_neg deep, if_neg deep]
        cases checkedScan maxNodes (elementChecks es (depth + 1)) nodes with
        | error event => rfl
        | ok counted =>
          simp only [reported, countNode_shallow maxNodes depth counted deep]
          by_cases full : counted = maxNodes
          · rw [if_pos full, if_pos full]
            rfl
          · rw [if_neg full, if_neg full, List.nil_append, denotedJson, Tree.mapLeaves_array]
            rfl

/-! ## The root -/

theorem jsonEvents_cons (x : JsonTree) : ∃ event rest, jsonEvents x = event :: rest := by
  cases x with
  | leaf l s => exact ⟨_, _, rfl⟩
  | object l ms => exact ⟨_, _, by rw [jsonEvents, Tree.mapLeaves_object, saxEvents]⟩
  | array l es => exact ⟨_, _, by rw [jsonEvents, Tree.mapLeaves_array, saxEvents]⟩

theorem quiet_nothing (maxNodes : Nat) (events : List SaxEvent) (nodes : Nat) :
    Inoffensive (OffendsAt maxNodes) countsAt (events.map fun event => (event, .nothing)) nodes := by
  apply inoffensive_of_forall
  intro a inside m offends
  obtain ⟨event, _, rfl⟩ := List.mem_map.mp inside
  exact offends

theorem countP_nothing (events : List SaxEvent) :
    (events.map fun event => ((event, .nothing) : CheckedEvent)).countP countsAt = 0 := by
  rw [List.countP_eq_zero]
  intro a inside
  obtain ⟨event, _, rfl⟩ := List.mem_map.mp inside
  exact Bool.false_ne_true

/-- Only the first event of such a value is checked, and nothing of it is counted. -/
theorem scan_checkFirst (maxNodes : Nat) (check : Check) (event : SaxEvent) (rest : List SaxEvent)
    (uncounted : check.counts = false) (nodes : Nat) :
    checkedScan maxNodes (checkFirst check (event :: rest)) nodes =
      if check.Offends maxNodes nodes then .error (event, check) else .ok nodes := by
  rw [checkFirst, checkedScan, countedScan]
  by_cases offends : check.Offends maxNodes nodes
  · rw [if_pos (show OffendsAt maxNodes nodes (event, check) from offends), if_pos offends]
  · rw [if_neg (show ¬ OffendsAt maxNodes nodes (event, check) from offends), if_neg offends,
      countedScan_ok_iff, countP_nothing]
    have same : countsAt (event, check) = false := uncounted
    rw [same]
    exact ⟨quiet_nothing maxNodes rest _, rfl⟩

theorem scan_carrier (maxNodes : Nat) (x : JsonTree) (nodes : Nat) :
    ∃ event, checkedScan maxNodes (checkFirst (.carrier x) (jsonEvents x)) nodes =
      match carriedVersion x with
      | none => .error (event, .carrier x)
      | some _ => .ok nodes := by
  obtain ⟨event, rest, shape⟩ := jsonEvents_cons x
  refine ⟨event, ?_⟩
  rw [shape, scan_checkFirst maxNodes (.carrier x) event rest rfl]
  cases carried : carriedVersion x with
  | none => rw [if_pos (show Check.Offends maxNodes nodes (.carrier x) from carried)]
  | some version =>
    have fine : ¬ Check.Offends maxNodes nodes (.carrier x) := by
      intro offends
      cases carried.symm.trans offends
    rw [if_neg fine]

/-- The version of the first carrier among these members. -/
def carriedIn (ms : List (Bytes × JsonTree)) : Option VersionId :=
  (lookupKey kVersionKey ms).bind carriedVersion

def uncarriedMembers (ms : List (Bytes × JsonTree)) : List (Bytes × JsonTree) :=
  ms.filter fun m => m.1 ≠ kVersionKey

theorem carriedIn_cons_ne (name : Bytes) (x : JsonTree) (rest : List (Bytes × JsonTree))
    (plain : name ≠ kVersionKey) : carriedIn ((name, x) :: rest) = carriedIn rest := by
  rw [carriedIn, lookup_cons_eq, if_neg (Ne.symm plain), carriedIn]

/-- The root is read like any object, with the carrier set apart. -/
theorem readRoot_scanned (maxNodes : Nat) (ms : List (Bytes × JsonTree)) (nodes : Nat)
    (version : Option VersionId) (done : List (Bytes × ConfigValue)) (earlier : List Bytes)
    (kept : done.map Prod.fst = earlier.filter fun name => name ≠ kVersionKey)
    (seen : version.isSome = true ↔ kVersionKey ∈ earlier) :
    readRoot maxNodes (ms.map fun m => (m.1, Tree.mapLeaves JsonScalar.delivered m.2)) nodes
        version done =
      match checkedScan maxNodes (rootChecks ms earlier) nodes with
      | .error event => .error (codeOf event)
      | .ok counted => .ok (version.or (carriedIn ms),
          done ++ (uncarriedMembers ms).map (fun m => (m.1, denotedJson m.2)), counted) := by
  induction ms generalizing nodes version done earlier with
  | nil =>
    simp only [List.map_nil, readRoot, rootChecks, checkedScan, countedScan, carriedIn, uncarriedMembers,
      lookupKey, Option.bind_none, Option.or_none, List.filter_nil, List.append_nil]
  | cons m rest ih =>
    obtain ⟨name, x⟩ := m
    rw [List.map_cons, readRoot, rootChecks, scan_key]
    by_cases reserved : name = kVersionKey
    · subst reserved
      rw [if_pos rfl, if_pos rfl, readCarrier_delivered]
      by_cases twice : version.isSome = true
      · rw [if_pos twice, if_neg fun both => both.2 (seen.mp twice)]
        rfl
      · have fresh : kVersionKey ∉ earlier := fun inside => twice (seen.mpr inside)
        obtain ⟨event, scanned⟩ := scan_carrier maxNodes x nodes
        rw [if_neg twice, if_pos ⟨addressable_versionKey, fresh⟩, scan_append, scanned]
        cases carried : carriedVersion x with
        | none => rfl
        | some carrier =>
          have none : version = none := by simpa using twice
          have first : carriedIn ((kVersionKey, x) :: rest) = some carrier := by
            rw [carriedIn, lookup_cons_eq, if_pos rfl, Option.bind_some, carried]
          have same : uncarriedMembers ((kVersionKey, x) :: rest) = uncarriedMembers rest := by
            simp [uncarriedMembers]
          have later := ih nodes (some carrier) done (earlier ++ [kVersionKey])
            (by simp [kept]) (by simp)
          simp only
          rw [later, none, first, same]
          rfl
    · have member : name ∉ done.map Prod.fst ↔ name ∉ earlier := by
        rw [kept, List.mem_filter]
        simp [reserved]
      rw [if_neg reserved, if_neg reserved, readValue_scanned, scan_append]
      by_cases accepted : Addressable name ∧ name ∉ earlier
      · rw [if_pos accepted, if_pos ⟨accepted.1, member.mpr accepted.2⟩]
        cases checkedScan maxNodes (valueChecks x 1) nodes with
        | error event => rfl
        | ok counted =>
          have same : uncarriedMembers ((name, x) :: rest) = (name, x) :: uncarriedMembers rest := by
            simp [uncarriedMembers, reserved]
          have later := ih counted version (done ++ [(name, denotedJson x)]) (earlier ++ [name])
            (by simp [kept, reserved]) (by simp [seen, Ne.symm reserved])
          simp only [reported]
          rw [later, carriedIn_cons_ne name x rest reserved, same, List.map_cons,
            List.append_assoc]
          rfl
      · rw [if_neg accepted, if_neg fun both => accepted ⟨both.1, member.mp both.2⟩]
        rfl

/-- The whole document, whose missing carrier is noticed last. -/
theorem readDocument_scanned (maxNodes : Nat) (doc : JsonTree) :
    readDocument maxNodes (Tree.mapLeaves JsonScalar.delivered doc) =
      match checkedScan maxNodes (documentChecks doc) 0 with
      | .error event => .error (codeOf event)
      | .ok _ =>
          match doc with
          | Tree.object _ ms =>
              match carriedIn ms with
              | none => .error .invalidVersion
              | some version => .ok (version, denotedJson (uncarried ms))
          | _ => .error .parseError := by
  have noRoot : ∀ x : JsonTree, ∃ event,
      checkedScan maxNodes (checkFirst .root (jsonEvents x)) 0 = .error (event, .root) := by
    intro x
    obtain ⟨event, events, shape⟩ := jsonEvents_cons x
    refine ⟨event, ?_⟩
    rw [shape, scan_checkFirst maxNodes .root event events rfl]
    rfl
  cases doc with
  | leaf l s =>
    obtain ⟨event, failed⟩ := noRoot (Tree.leaf l s)
    rw [documentChecks, failed]
    · rfl
    · simp
  | array l es =>
    obtain ⟨event, failed⟩ := noRoot (Tree.array l es)
    rw [documentChecks, failed, Tree.mapLeaves_array]
    · rfl
    · simp
  | object l ms =>
    have shallow : ¬ kMaxTreeDepth < 0 := by simp
    rw [Tree.mapLeaves_object, readDocument, documentChecks, scan_container, if_neg shallow,
      readRoot_scanned maxNodes ms 0 none [] [] rfl (by simp)]
    cases checkedScan maxNodes (rootChecks ms []) 0 with
    | error event => rfl
    | ok counted =>
      simp only
      by_cases full : counted = maxNodes
      · rw [if_pos full, if_pos full]
        rfl
      · rw [if_neg full, if_neg full, Option.none_or]
        cases carriedIn ms with
        | none => rfl
        | some version =>
          simp only [List.nil_append, denotedJson, uncarried, Tree.mapLeaves_object]
          rfl

end ConfigManager.Refinement
