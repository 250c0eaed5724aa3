import ConfigManager.Refinement.JsonScanning

/-!
# The checks of a document as conditions on it

No event violates its check exactly when the keys are plain and distinct, the
integers fit, no node is too deep and the nodes are within the budget.
-/

set_option autoImplicit false

namespace ConfigManager.Refinement
open Library Source Reference

abbrev Quiet (maxNodes : Nat) (events : List CheckedEvent) (nodes : Nat) : Prop :=
  Inoffensive (OffendsAt maxNodes) countsAt events nodes

theorem quiet_append (maxNodes : Nat) (l l' : List CheckedEvent) (nodes : Nat) :
    Quiet maxNodes (l ++ l') nodes ↔
      Quiet maxNodes l nodes ∧ Quiet maxNodes l' (nodes + l.countP countsAt) :=
  inoffensive_append _ _ l l' nodes

/-! ## Nodes are counted once -/

theorem memberChecks_count (ms : List (Bytes × JsonTree)) (depth : Nat) (earlier : List Bytes) :
    (memberChecks ms depth earlier).countP countsAt =
      (ms.flatMap fun m => valueChecks m.2 depth).countP countsAt := by
  induction ms generalizing earlier with
  | nil => rfl
  | cons m rest ih =>
    rw [memberChecks, List.countP_cons, List.countP_append, ih, List.flatMap_cons,
      List.countP_append]
    rfl

theorem elementChecks_eq (es : List JsonTree) (depth : Nat) :
    elementChecks es depth = es.flatMap fun e => valueChecks e depth := by
  induction es with
  | nil => rfl
  | cons e rest ih => rw [elementChecks, ih, List.flatMap_cons]

theorem valueChecks_count (x : JsonTree) (depth : Nat) :
    (valueChecks x depth).countP countsAt = x.size := by
  induction x using Tree.children_induction generalizing depth with
  | node x ih =>
    cases x with
    | leaf l s => rfl
    | object l ms =>
      simp only [Tree.children, List.forall_mem_map] at ih
      rw [valueChecks, List.countP_cons, List.countP_append, memberChecks_count,
        List.countP_flatMap, Tree.size_object]
      have sizes := List.map_congr_left fun m inside => ih m inside (depth + 1)
      exact congrArg (fun l : List Nat => l.sum + 1) sizes
    | array l es =>
      simp only [Tree.children] at ih
      rw [valueChecks, List.countP_cons, List.countP_append, elementChecks_eq,
        List.countP_flatMap, Tree.size_array]
      have sizes := List.map_congr_left fun e inside => ih e inside (depth + 1)
      exact congrArg (fun l : List Nat => l.sum + 1) sizes

def totalSize (ms : List (Bytes × JsonTree)) : Nat := (ms.map fun m => Tree.size m.2).sum

theorem memberChecks_size (ms : List (Bytes × JsonTree)) (depth : Nat) (earlier : List Bytes) :
    (memberChecks ms depth earlier).countP countsAt = totalSize ms := by
  rw [memberChecks_count, List.countP_flatMap]
  exact congrArg List.sum (List.map_congr_left fun m _ => valueChecks_count m.2 depth)

theorem elementChecks_size (es : List JsonTree) (depth : Nat) :
    (elementChecks es depth).countP countsAt = (es.map Tree.size).sum := by
  rw [elementChecks_eq, List.countP_flatMap]
  exact congrArg List.sum (List.map_congr_left fun e _ => valueChecks_count e depth)

/-! ## Containers -/

/-- Values that stay quiet one after the other: each is good, and together they fit the budget. -/
theorem quiet_flatMap {β : Type} (maxNodes : Nat) (f : β → List CheckedEvent) (good : β → Prop)
    (weight : β → Nat) (l : List β)
    (each : ∀ b ∈ l, ∀ nodes, nodes ≤ maxNodes →
      (Quiet maxNodes (f b) nodes ↔ good b ∧ nodes + weight b ≤ maxNodes))
    (counted : ∀ b ∈ l, (f b).countP countsAt = weight b) (nodes : Nat) (room : nodes ≤ maxNodes) :
    Quiet maxNodes (l.flatMap f) nodes ↔
      (∀ b ∈ l, good b) ∧ nodes + (l.map weight).sum ≤ maxNodes := by
  induction l generalizing nodes with
  | nil => simp [inoffensive_nil, room]
  | cons b rest ih =>
    rw [List.forall_mem_cons] at each counted
    rw [List.flatMap_cons, quiet_append, counted.1, List.forall_mem_cons,
      List.map_cons, List.sum_cons, ← Nat.add_assoc, each.1 nodes room]
    constructor
    · intro quiet
      obtain ⟨⟨here, within⟩, later⟩ := quiet
      rw [ih each.2 counted.2 _ within] at later
      exact ⟨⟨here, later.1⟩, later.2⟩
    · intro good
      obtain ⟨⟨here, later⟩, within⟩ := good
      have first : nodes + weight b ≤ maxNodes := by omega
      exact ⟨⟨here, first⟩, (ih each.2 counted.2 _ first).mpr ⟨later, within⟩⟩

theorem quiet_key (maxNodes : Nat) (name : Bytes) (earlier : List Bytes) (rest : List CheckedEvent)
    (nodes : Nat) :
    Quiet maxNodes ((.key name, .key name earlier) :: rest) nodes ↔
      (PlainKey name ∧ name ∉ earlier) ∧ Quiet maxNodes rest nodes := by
  rw [Quiet, inoffensive_cons]
  exact and_congr_left fun _ => not_not

/-- The keys of an object are checked where they stand, its values as if they had none. -/
theorem quiet_members (maxNodes : Nat) (ms : List (Bytes × JsonTree)) (depth : Nat)
    (earlier : List Bytes) (nodes : Nat) :
    Quiet maxNodes (memberChecks ms depth earlier) nodes ↔
      FreshKeys (ms.map Prod.fst) earlier ∧
        Quiet maxNodes (ms.flatMap fun m => valueChecks m.2 depth) nodes := by
  induction ms generalizing earlier nodes with
  | nil =>
    simp only [memberChecks, inoffensive_nil, List.map_nil, List.flatMap_nil, and_true, true_iff]
    exact ⟨List.nodup_nil, by simp, by simp⟩
  | cons m rest ih =>
    rw [memberChecks, quiet_key, quiet_append, ih, List.map_cons, freshKeys_cons,
      List.flatMap_cons, quiet_append]
    tauto

theorem quiet_container (maxNodes : Nat) (first last : SaxEvent) (depth : Nat)
    (inside : List CheckedEvent) (nodes : Nat) :
    Quiet maxNodes ((first, .opening depth) :: (inside ++ [(last, .closing)])) nodes ↔
      depth ≤ kMaxTreeDepth ∧ Quiet maxNodes inside nodes ∧
        nodes + inside.countP countsAt ≠ maxNodes := by
  rw [Quiet, inoffensive_cons, inoffensive_append, inoffensive_cons]
  have opening : (¬ OffendsAt maxNodes nodes (first, .opening depth)) ↔ depth ≤ kMaxTreeDepth :=
    Nat.not_lt
  have closing : ∀ counted, ¬ OffendsAt maxNodes counted (last, .closing) ↔ counted ≠ maxNodes :=
    fun counted => Iff.rfl
  rw [opening, closing]
  simp only [inoffensive_nil, and_true]
  rfl

/-! ## Values -/

structure GoodValue (depth : Nat) (x : JsonTree) : Prop where
  keys : Tree.WellKeyed PlainKey x
  integers : Tree.EveryLeaf IntegerFits x
  shallow : depth + x.height ≤ kMaxTreeDepth

/-- An object is good when its keys and its members are. -/
theorem goodValue_object (depth : Nat) (l : Unit) (ms : List (Bytes × JsonTree)) :
    GoodValue depth (Tree.object l ms) ↔
      depth ≤ kMaxTreeDepth ∧ FreshKeys (ms.map Prod.fst) [] ∧
        ∀ m ∈ ms, GoodValue (depth + 1) m.2 := by
  have keyed : Tree.WellKeyed PlainKey (Tree.object l ms) ↔ _ := Tree.wellKeyed_iff _
  have shallow := shallow_iff_children (Tree.object l ms : JsonTree) depth
  have leaves := Tree.everyLeaf_object IntegerFits l ms
  simp only [Tree.keys, Tree.children, List.forall_mem_map] at keyed shallow
  constructor
  · intro good
    have keys := keyed.mp good.keys
    have height := shallow.mp good.shallow
    have integers := leaves.mp good.integers
    refine ⟨height.1, ⟨keys.1.1, List.forall_mem_map.mpr keys.1.2, by simp⟩, fun m inside => ?_⟩
    exact ⟨keys.2 m inside, integers m inside, height.2 m inside⟩
  · intro parts
    obtain ⟨here, keys, below⟩ := parts
    constructor
    · exact keyed.mpr ⟨⟨keys.distinct, List.forall_mem_map.mp keys.plain⟩,
        fun m inside => (below m inside).keys⟩
    · exact leaves.mpr fun m inside => (below m inside).integers
    · exact shallow.mpr ⟨here, fun m inside => (below m inside).shallow⟩

theorem goodValue_array (depth : Nat) (l : Unit) (es : List JsonTree) :
    GoodValue depth (Tree.array l es) ↔
      depth ≤ kMaxTreeDepth ∧ ∀ e ∈ es, GoodValue (depth + 1) e := by
  have keyed : Tree.WellKeyed PlainKey (Tree.array l es) ↔ _ := Tree.wellKeyed_iff _
  have shallow := shallow_iff_children (Tree.array l es : JsonTree) depth
  have leaves := Tree.everyLeaf_array IntegerFits l es
  simp only [Tree.keys, Tree.children] at keyed shallow
  constructor
  · intro good
    have height := shallow.mp good.shallow
    refine ⟨height.1, fun e inside => ?_⟩
    exact ⟨(keyed.mp good.keys).2 e inside, leaves.mp good.integers e inside,
      height.2 e inside⟩
  · intro parts
    obtain ⟨here, below⟩ := parts
    constructor
    · exact keyed.mpr ⟨⟨List.nodup_nil, by simp⟩, fun e inside => (below e inside).keys⟩
    · exact leaves.mpr fun e inside => (below e inside).integers
    · exact shallow.mpr ⟨here, fun e inside => (below e inside).shallow⟩

theorem goodValue_leaf (depth : Nat) (l : Unit) (s : JsonScalar) :
    GoodValue depth (Tree.leaf l s) ↔ IntegerFits s ∧ depth ≤ kMaxTreeDepth := by
  constructor
  · intro good
    exact ⟨(Tree.everyLeaf_leaf IntegerFits l s).mp good.integers, good.shallow⟩
  · intro both
    exact ⟨Tree.wellKeyed_leaf l s, (Tree.everyLeaf_leaf IntegerFits l s).mpr both.1, both.2⟩

/-- No check of a value fails when the value is good and has room. -/
theorem quiet_value (maxNodes : Nat) (x : JsonTree) (depth nodes : Nat) (room : nodes ≤ maxNodes) :
    Quiet maxNodes (valueChecks x depth) nodes ↔
      GoodValue depth x ∧ nodes + x.size ≤ maxNodes := by
  induction x using Tree.children_induction generalizing depth nodes with
  | node x ih =>
    cases x with
    | leaf l s =>
      have size : Tree.size (Tree.leaf l s : JsonTree) = 1 := rfl
      rw [valueChecks, Quiet, inoffensive_cons, goodValue_leaf, size]
      simp only [inoffensive_nil, and_true, OffendsAt, Check.Offends, not_or, not_not, Nat.not_lt]
      have budget : ¬ nodes = maxNodes ↔ nodes + 1 ≤ maxNodes := by omega
      rw [budget, and_assoc]
    | object l ms =>
      simp only [Tree.children, List.forall_mem_map] at ih
      have inside : Quiet maxNodes (ms.flatMap fun m => valueChecks m.2 (depth + 1)) nodes ↔
          (∀ m ∈ ms, GoodValue (depth + 1) m.2) ∧ nodes + totalSize ms ≤ maxNodes :=
        quiet_flatMap maxNodes _ _ _ ms
          (fun m member nodes' room' => ih m member (depth + 1) nodes' room')
          (fun m _ => valueChecks_count m.2 (depth + 1)) nodes room
      have size : Tree.size (Tree.object l ms : JsonTree) = totalSize ms + 1 := Tree.size_object l ms
      rw [valueChecks, quiet_container, quiet_members, inside, goodValue_object, memberChecks_size,
        size]
      constructor
      · intro quiet
        obtain ⟨here, ⟨keys, below, within⟩, full⟩ := quiet
        exact ⟨⟨here, keys, below⟩, by omega⟩
      · intro good
        obtain ⟨⟨here, keys, below⟩, within⟩ := good
        exact ⟨here, ⟨keys, below, by omega⟩, by omega⟩
    | array l es =>
      simp only [Tree.children] at ih
      have inside := quiet_flatMap maxNodes (fun e : JsonTree => valueChecks e (depth + 1))
        (fun e => GoodValue (depth + 1) e) Tree.size es
        (fun e member nodes' room' => ih e member (depth + 1) nodes' room')
        (fun e _ => valueChecks_count e (depth + 1)) nodes room
      rw [valueChecks, quiet_container, elementChecks_size, elementChecks_eq, inside,
        goodValue_array, Tree.size_array]
      constructor
      · intro quiet
        obtain ⟨here, ⟨below, within⟩, full⟩ := quiet
        exact ⟨⟨here, below⟩, by omega⟩
      · intro good
        obtain ⟨⟨here, below⟩, within⟩ := good
        exact ⟨here, ⟨below, by omega⟩, by omega⟩

/-! ## The root -/

def rootValueChecks (m : Bytes × JsonTree) : List CheckedEvent :=
  if m.1 = kVersionKey then checkFirst (.carrier m.2) (jsonEvents m.2) else valueChecks m.2 1

def RootGood (m : Bytes × JsonTree) : Prop :=
  if m.1 = kVersionKey then carriedVersion m.2 ≠ none else GoodValue 1 m.2

def rootWeight (m : Bytes × JsonTree) : Nat := if m.1 = kVersionKey then 0 else Tree.size m.2

theorem quiet_carrier (maxNodes : Nat) (x : JsonTree) (nodes : Nat) :
    Quiet maxNodes (checkFirst (.carrier x) (jsonEvents x)) nodes ↔ carriedVersion x ≠ none := by
  obtain ⟨event, rest, shape⟩ := jsonEvents_cons x
  rw [shape, checkFirst, Quiet, inoffensive_cons]
  constructor
  · intro quiet
    exact quiet.1
  · intro fine
    exact ⟨fine, quiet_nothing maxNodes rest _⟩

theorem rootValueChecks_count (m : Bytes × JsonTree) :
    (rootValueChecks m).countP countsAt = rootWeight m := by
  unfold rootValueChecks rootWeight
  split
  · obtain ⟨event, rest, shape⟩ := jsonEvents_cons m.2
    rw [shape, checkFirst, List.countP_cons, countP_nothing]
    rfl
  · exact valueChecks_count m.2 1

theorem quiet_rootValue (maxNodes : Nat) (m : Bytes × JsonTree) (nodes : Nat)
    (room : nodes ≤ maxNodes) :
    Quiet maxNodes (rootValueChecks m) nodes ↔ RootGood m ∧ nodes + rootWeight m ≤ maxNodes := by
  unfold rootValueChecks RootGood rootWeight
  split
  · rw [quiet_carrier]
    simp [room]
  · exact quiet_value maxNodes m.2 1 nodes room

theorem quiet_root (maxNodes : Nat) (ms : List (Bytes × JsonTree)) (earlier : List Bytes)
    (nodes : Nat) :
    Quiet maxNodes (rootChecks ms earlier) nodes ↔
      FreshKeys (ms.map Prod.fst) earlier ∧ Quiet maxNodes (ms.flatMap rootValueChecks) nodes := by
  induction ms generalizing earlier nodes with
  | nil =>
    simp only [rootChecks, inoffensive_nil, List.map_nil, List.flatMap_nil, and_true, true_iff]
    exact ⟨List.nodup_nil, by simp, by simp⟩
  | cons m rest ih =>
    rw [rootChecks, quiet_key, quiet_append, ih, List.map_cons, freshKeys_cons, List.flatMap_cons,
      quiet_append]
    change (_ ∧ Quiet maxNodes (rootValueChecks m) nodes ∧ _ ∧ _) ↔ _
    tauto

theorem rootChecks_count (ms : List (Bytes × JsonTree)) (earlier : List Bytes) :
    (rootChecks ms earlier).countP countsAt = (ms.map rootWeight).sum := by
  induction ms generalizing earlier with
  | nil => rfl
  | cons m rest ih =>
    have first := rootValueChecks_count m
    rw [rootChecks, List.countP_cons, List.countP_append, ih, List.map_cons, List.sum_cons, ← first]
    rfl

/-- The carrier weighs nothing. -/
theorem rootWeight_sum (ms : List (Bytes × JsonTree)) :
    (ms.map rootWeight).sum = totalSize (uncarriedMembers ms) := by
  induction ms with
  | nil => rfl
  | cons m rest ih =>
    rw [List.map_cons, List.sum_cons, ih]
    by_cases reserved : m.1 = kVersionKey
    · simp [rootWeight, uncarriedMembers, reserved]
    · simp [rootWeight, uncarriedMembers, reserved, totalSize]

theorem noViolation_object (maxNodes : Nat) (l : Unit) (ms : List (Bytes × JsonTree)) :
    NoViolation maxNodes (Tree.object l ms) ↔
      FreshKeys (ms.map Prod.fst) [] ∧ (∀ m ∈ ms, RootGood m) ∧
        totalSize (uncarriedMembers ms) + 1 ≤ maxNodes := by
  have inside := quiet_flatMap maxNodes rootValueChecks RootGood rootWeight ms
    (fun m _ nodes room => quiet_rootValue maxNodes m nodes room)
    (fun m _ => rootValueChecks_count m) 0 (Nat.zero_le _)
  change Quiet maxNodes (documentChecks (Tree.object l ms)) 0 ↔ _
  rw [documentChecks, quiet_container, quiet_root, inside, rootChecks_count, rootWeight_sum]
  constructor
  · intro quiet
    obtain ⟨_, ⟨keys, good, within⟩, full⟩ := quiet
    exact ⟨keys, good, by omega⟩
  · intro good
    obtain ⟨keys, good, within⟩ := good
    exact ⟨Nat.zero_le _, ⟨keys, good, by omega⟩, by omega⟩

/-- The first event of a document that is no object is a violation. -/
theorem violation_noObject (maxNodes : Nat) (doc : JsonTree)
    (noObject : ∀ l ms, doc ≠ Tree.object l ms) : ¬ NoViolation maxNodes doc := by
  obtain ⟨event, rest, shape⟩ := jsonEvents_cons doc
  have checks : documentChecks doc = checkFirst .root (jsonEvents doc) := by
    cases doc with
    | leaf l s => rw [documentChecks]; simp
    | array l es => rw [documentChecks]; simp
    | object l ms => exact absurd rfl (noObject l ms)
  intro quiet
  rw [NoViolation, checks, shape, checkFirst, inoffensive_cons] at quiet
  exact quiet.1 trivial

/-! ## Accepted documents -/

theorem carriedVersion_eq_some (x : JsonTree) (version : VersionId) :
    carriedVersion x = some version ↔
      ∃ nearest, x = Tree.leaf () (.integer false version.val nearest) := by
  constructor
  · intro carried
    cases x with
    | object l ms => cases carried
    | array l es => cases carried
    | leaf l s =>
      cases s with
      | integer negative magnitude nearest =>
        cases negative with
        | true => cases carried
        | false =>
          rw [carriedVersion] at carried
          split at carried
          · cases carried
            exact ⟨nearest, rfl⟩
          · cases carried
      | _ => cases carried
  · intro shape
    obtain ⟨nearest, rfl⟩ := shape
    rw [carriedVersion, dif_pos version.isLt]

theorem carriedIn_eq_some (ms : List (Bytes × JsonTree)) (distinct : (ms.map Prod.fst).Nodup)
    (version : VersionId) :
    carriedIn ms = some version ↔
      ∃ nearest, (kVersionKey, Tree.leaf () (.integer false version.val nearest)) ∈ ms := by
  rw [carriedIn, Option.bind_eq_some_iff]
  constructor
  · intro found
    obtain ⟨x, lookup, carried⟩ := found
    obtain ⟨nearest, rfl⟩ := (carriedVersion_eq_some x version).mp carried
    exact ⟨nearest, lookup_mem _ _ _ lookup⟩
  · intro member
    obtain ⟨nearest, inside⟩ := member
    have lookup := lookup_of_mem ms distinct _ inside
    exact ⟨_, lookup, (carriedVersion_eq_some _ version).mpr ⟨nearest, rfl⟩⟩

theorem mem_uncarriedMembers (ms : List (Bytes × JsonTree)) (m : Bytes × JsonTree) :
    m ∈ uncarriedMembers ms ↔ m ∈ ms ∧ m.1 ≠ kVersionKey := by
  rw [uncarriedMembers, List.mem_filter, decide_eq_true_eq]

/-- A document without violation that carries this version. -/
theorem acceptedRoot_iff (maxNodes : Nat) (ms : List (Bytes × JsonTree)) (version : VersionId) :
    AcceptedRoot maxNodes ms version ↔
      NoViolation maxNodes (Tree.object () ms) ∧ carriedIn ms = some version := by
  have size : (uncarried ms).size = totalSize (uncarriedMembers ms) + 1 := Tree.size_object _ _
  have whole : Tree.WellKeyed PlainKey (Tree.object () ms) ↔ _ := Tree.wellKeyed_iff _
  have below := goodValue_object 0 () (uncarriedMembers ms)
  simp only [Tree.keys, Tree.children, List.forall_mem_map] at whole
  rw [noViolation_object, ← size]
  constructor
  · intro accepted
    have keys := whole.mp accepted.keys
    have carried := (carriedIn_eq_some ms keys.1.1 version).mpr accepted.carrier
    refine ⟨⟨⟨keys.1.1, List.forall_mem_map.mpr keys.1.2, by simp⟩, fun m inside => ?_,
      accepted.budget⟩, carried⟩
    unfold RootGood
    split
    · next reserved =>
      have found : lookupKey kVersionKey ms = some m.2 :=
        reserved ▸ lookup_of_mem ms keys.1.1 m inside
      rw [carriedIn, found, Option.bind_some] at carried
      rw [carried]
      exact Option.some_ne_none version
    · next plain =>
      have integers := (Tree.everyLeaf_object IntegerFits () (uncarriedMembers ms)).mp
        accepted.integers m ((mem_uncarriedMembers ms m).mpr ⟨inside, plain⟩)
      have height := Tree.height_child_lt (uncarried ms) m.2
        (List.mem_map_of_mem ((mem_uncarriedMembers ms m).mpr ⟨inside, plain⟩))
      have shallow := accepted.shallow
      exact ⟨keys.2 m inside, integers, by omega⟩
  · intro both
    obtain ⟨⟨keys, good, budget⟩, carried⟩ := both
    have values : ∀ m ∈ uncarriedMembers ms, GoodValue 1 m.2 := by
      intro m inside
      obtain ⟨member, plain⟩ := (mem_uncarriedMembers ms m).mp inside
      have here := good m member
      rwa [RootGood, if_neg plain] at here
    have kept : FreshKeys ((uncarriedMembers ms).map Prod.fst) [] := by
      have sub : List.Sublist ((uncarriedMembers ms).map Prod.fst) (ms.map Prod.fst) :=
        List.filter_sublist.map Prod.fst
      exact ⟨keys.distinct.sublist sub, fun name inside => keys.plain name (sub.subset inside),
        by simp⟩
    have object := below.mpr ⟨Nat.zero_le _, kept, values⟩
    constructor
    · rw [whole]
      refine ⟨⟨keys.distinct, List.forall_mem_map.mp keys.plain⟩, fun m inside => ?_⟩
      have here := good m inside
      unfold RootGood at here
      split at here
      · obtain ⟨carrier, found⟩ := Option.ne_none_iff_exists'.mp here
        obtain ⟨nearest, shape⟩ := (carriedVersion_eq_some m.2 carrier).mp found
        rw [shape]
        exact Tree.wellKeyed_leaf _ _
      · exact here.keys
    · exact (carriedIn_eq_some ms keys.distinct version).mp carried
    · exact object.integers
    · exact (Nat.zero_add _).symm.trans_le object.shallow
    · exact budget

end ConfigManager.Refinement
