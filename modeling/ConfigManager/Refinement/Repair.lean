import ConfigManager.Refinement.Handles
import ConfigManager.Refinement.KeyPaths
import ConfigManager.Source.ConfigRuntime

/-!
# fillMissing computes the merge

The loop of `fillMissing` visits the members of one object of the defaults. One
round does to the model what `mergeMember` does to the members of the object at
the same position, and grows the tree exactly when it reports an addition.
-/

set_option autoImplicit false

namespace ConfigManager.Refinement
open Library Source Reference

theorem size_replace (p : List PathSegment) (n t x : ConfigValue)
    (found : Tree.locate p t = .ok x) :
    (Tree.replace p n t).size + x.size = t.size + n.size := by
  simp only [Tree.size_eq_count]
  exact Tree.count_replace p n t x found ()

/-- What one pass over members of the defaults leaves of the object at `keys`: the model holds
the tree with `after` for `before`, and `added` tells whether something was added. -/
structure Filled (m m' : ConfigModel) (tm : SlotTree) (keys : List Bytes)
    (before after : ConfigValue) (added : Bool) : Prop where
  holds : ∃ tm', Represents m' tm' ∧
    tm'.forget = Tree.replace (keySteps keys) after tm.forget
  reachable : Reachable m → Reachable m'
  grows : before.size ≤ after.size
  unchanged : added = false → after = before
  changed : added = true → before.size < after.size

theorem replace_self (p : List PathSegment) (t x : ConfigValue) (found : Tree.locate p t = .ok x) :
    Tree.replace p x t = t := by
  induction p generalizing t with
  | nil => cases found; rfl
  | cons s p ih =>
    obtain ⟨c, step, rest⟩ := Tree.locate_cons_success s p t x found
    rw [Tree.replace_cons_ok _ _ _ _ _ step, ih c rest]
    cases s with
    | key key =>
      cases t with
      | leaf l v => rfl
      | array l es => rfl
      | object l ms =>
        have here : lookupKey key ms = some c := by
          simp only [Tree.descend] at step
          cases looked : lookupKey key ms with
          | none => simp [looked] at step
          | some d => simpa [looked] using step
        obtain ⟨j, at', _, updated⟩ := lookup_position key ms c here
        rw [Tree.putChild, updated, set_same ms j (key, c) at']
    | index index =>
      cases t with
      | leaf l v => rfl
      | object l ms => rfl
      | array l es =>
        have here : es[index]? = some c := by
          simp only [Tree.descend] at step
          cases looked : es[index]? with
          | none => simp [looked] at step
          | some d => simpa [looked] using step
        rw [Tree.putChild, set_same es index c here]

theorem Filled.refl (m : ConfigModel) (tm : SlotTree) (rm : Represents m tm) (keys : List Bytes)
    (x : ConfigValue) (found : Tree.locate (keySteps keys) tm.forget = .ok x) :
    Filled m m tm keys x x false :=
  ⟨⟨tm, rm, (replace_self _ _ _ found).symm⟩, fun reached => reached, Nat.le_refl _,
    fun _ => rfl, fun impossible => by cases impossible⟩

/-- Two passes over the same object, one after the other. -/
theorem Filled.trans {m m₁ m₂ : ConfigModel} {tm tm₁ : SlotTree} {keys : List Bytes}
    {before middle after : ConfigValue} {added added' : Bool}
    (found : Tree.locate (keySteps keys) tm.forget = .ok before)
    (between : tm₁.forget = Tree.replace (keySteps keys) middle tm.forget)
    (first : Filled m m₁ tm keys before middle added)
    (second : Filled m₁ m₂ tm₁ keys middle after added') :
    Filled m m₂ tm keys before after (added || added') := by
  obtain ⟨tm₂, r₂, plain⟩ := second.holds
  refine ⟨⟨tm₂, r₂, ?_⟩, fun reached => second.reachable (first.reachable reached),
    Nat.le_trans first.grows second.grows, fun none => ?_, fun some_ => ?_⟩
  · rw [plain, between, Tree.replace_replace _ _ _ _ _ found]
  · obtain ⟨no, no'⟩ := Bool.or_eq_false_iff.mp none
    rw [second.unchanged no', first.unchanged no]
  · rcases (Bool.or_eq_true _ _).mp some_ with yes | yes
    · exact Nat.lt_of_lt_of_le (first.changed yes) second.grows
    · exact Nat.lt_of_le_of_lt first.grows (second.changed yes)

section Round

variable {d m : ConfigModel} {td dn tm : SlotTree} {keys : List Bytes} {key : Bytes}
  {c : SlotTree} {ms : List (Bytes × ConfigValue)}

/-- The value that `getValue` copies out of the defaults fits below the same path of the model. -/
theorem default_fits (rd : Represents d td)
    (foundC : Tree.locate (keySteps (keys ++ [key])) td = .ok c) :
    Fits (keys ++ [key]).length c.forget ∧ ConfigValue.KeysDistinct c.forget := by
  have plain : Tree.locate (keySteps (keys ++ [key])) td.forget = .ok c.forget := by
    rw [Tree.locate_forget, foundC]
    rfl
  have keyed := rd.admissible.keys.locate _ plain
  have deep := Tree.height_locate_le _ _ _ plain
  have shallow := rd.admissible.shallow
  rw [keySteps_length] at deep
  exact ⟨⟨Tree.Every.mono (fun _ here => here.2) keyed, by omega⟩,
    Tree.Every.mono (fun _ here => here.1) keyed⟩

/-- A key the model lacks: `set` appends the default's subtree. -/
theorem round_absent (rd : Represents d td) (rm : Represents m tm)
    (names : ∀ k ∈ keys ++ [key], Addressable k)
    (foundC : Tree.locate (keySteps (keys ++ [key])) td = .ok c)
    (foundM : Tree.locate (keySteps keys) tm.forget = .ok (Tree.object () ms))
    (absent : lookupKey key ms = none) :
    m.contains (joinKeys (keys ++ [key])) = false ∧
      d.getValue (joinKeys (keys ++ [key])) = .ok c.forget ∧
      (m.set (joinKeys (keys ++ [key])) c.forget).1 = .ok () ∧
      Filled m (m.set (joinKeys (keys ++ [key])) c.forget).2 tm keys (Tree.object () ms)
        (Tree.object () (ms ++ [(key, c.forget)])) true := by
  have parsed := parse_joinKeys (keys ++ [key]) (by simp) names
  obtain ⟨fits, distinct⟩ := default_fits rd foundC
  have stuck : Tree.descend (.key key) (Tree.object () ms) = .error .absent := by
    simp only [Tree.descend, absent]
  have room : Tree.canAppend (.key key) (Tree.object () ms) = true := by
    simp [Tree.canAppend, absent]
  have missing : Tree.locate (keySteps (keys ++ [key])) tm.forget = .error .absent := by
    rw [keySteps_append, Tree.locate_append _ _ _ _ foundM,
      Tree.locate_cons_error _ _ _ _ stuck]
  have read : d.getValue (joinKeys (keys ++ [key])) = .ok c.forget := by
    have spec := getValue_spec d td rd (joinKeys (keys ++ [key]))
    rw [Reference.getValue, parsed] at spec
    simp only [outcome_ok, Tree.locate_forget, foundC, Except.map, coded_ok] at spec
    cases answer : d.getValue (joinKeys (keys ++ [key])) with
    | error e => simp [answer, outcome] at spec
    | ok value => simpa [answer] using spec
  have written : Reference.set (joinKeys (keys ++ [key])) c.forget tm.forget =
      .ok (Tree.replace (keySteps keys) (Tree.object () (ms ++ [(key, c.forget)])) tm.forget) := by
    rw [Reference.set, parsed]
    have upserted := Tree.upsert_creating sameType (keySteps keys) [] (.key key) c.forget tm.forget
      _ foundM stuck
    rw [room, if_pos rfl, ← keySteps_append] at upserted
    simp only [outcome_ok, keySteps_length, if_pos fits, upserted]
    rfl
  have spec := set_spec m tm rm (joinKeys (keys ++ [key])) c.forget distinct
  rw [written] at spec
  obtain ⟨success, tm', rm', plain, _⟩ := spec
  have bigger : Tree.size (Tree.object () ms) <
      Tree.size (Tree.object () (ms ++ [(key, c.forget)])) := by
    have counted := Tree.count_addChild (.key key) (Tree.object () ms) c.forget room ()
    rw [← Tree.size_eq_count, ← Tree.size_eq_count, ← Tree.size_eq_count] at counted
    have positive := Tree.size_pos c.forget
    change Tree.size (Tree.object () (ms ++ [(key, c.forget)])) = _ at counted
    omega
  refine ⟨?_, read, success, ⟨⟨tm', rm', plain⟩,
    fun reached => .set m _ ⟨c.forget, distinct⟩ reached, Nat.le_of_lt bigger,
    fun impossible => (by cases impossible), fun _ => bigger⟩⟩
  rw [contains_spec m tm rm, Reference.contains, Reference.getValue, parsed]
  simp only [outcome_ok, missing, coded_error]
  rfl

/-- A key the model has: `contains` finds it and `nodeAt` shows what is there. -/
theorem round_present (rm : Represents m tm) (names : ∀ k ∈ keys ++ [key], Addressable k)
    (foundM : Tree.locate (keySteps keys) tm.forget = .ok (Tree.object () ms)) (x : ConfigValue)
    (present : lookupKey key ms = some x) :
    m.contains (joinKeys (keys ++ [key])) = true ∧
      ∃ h, m.nodeAt (joinKeys (keys ++ [key])) = .ok h ∧ h.type m.arena = x.type := by
  have parsed := parse_joinKeys (keys ++ [key]) (by simp) names
  have plain : Tree.locate (keySteps (keys ++ [key])) tm.forget = .ok x := by
    have step : Tree.descend (.key key) (Tree.object () ms) = .ok x := by
      simp only [Tree.descend, present]
    rw [keySteps_append, Tree.locate_append _ _ _ _ foundM, Tree.locate_cons_ok _ _ _ _ step]
    rfl
  rw [Tree.locate_forget] at plain
  cases found : Tree.locate (keySteps (keys ++ [key])) tm with
  | error f => simp [found, Except.map] at plain
  | ok y =>
    simp only [found, Except.map, Except.ok.injEq] at plain
    obtain ⟨up, rep⟩ := rm.rep.locate _ found
    refine ⟨(rm.contains_iff _ _ parsed).mpr ⟨y, found⟩, _, rm.nodeAt _ _ parsed found, ?_⟩
    rw [← plain]
    exact rep.type

end Round

/-- What the recursive call is specified to do, at every position of the defaults it can be
called for. -/
def DescendSpec (d : ConfigModel) (td : SlotTree) (slots : Nat)
    (descend : ConfigModel → ConfigNode → Bytes → Result Bool × ConfigModel) : Prop :=
  ∀ (keys : List Bytes) (dn : SlotTree) (ds : List (Bytes × ConfigValue)) (m : ConfigModel)
    (tm : SlotTree) (ms : List (Bytes × ConfigValue)),
    (∀ k ∈ keys, Addressable k) → Tree.locate (keySteps keys) td = .ok dn →
    dn.forget = Tree.object () ds → dn.height < slots → Represents m tm →
    Tree.locate (keySteps keys) tm.forget = .ok (Tree.object () ms) →
    ∃ added m', descend m (ConfigNode.issue d.arena dn.label) (joinKeys keys) = (.ok added, m') ∧
      Filled m m' tm keys (Tree.object () ms)
        (Tree.merge (Tree.object () ms) (Tree.object () ds)) added

theorem updateKey_self (key : Bytes) (c : ConfigValue) (ms : List (Bytes × ConfigValue))
    (found : lookupKey key ms = some c) : updateKey key c ms = ms := by
  obtain ⟨j, here, _, updated⟩ := lookup_position key ms c found
  rw [updated, set_same ms j (key, c) here]

/-- The keys of the defaults are addressable. -/
theorem defaultKey_addressable {d : ConfigModel} {td dn c : SlotTree} {keys : List Bytes}
    {key : Bytes} (rd : Represents d td) (foundD : Tree.locate (keySteps keys) td = .ok dn)
    (step : Tree.descend (.key key) dn = .ok c) : Addressable key := by
  have keyed : Tree.WellKeyed Addressable dn :=
    ((Tree.wellKeyed_forget td).mp rd.admissible.keys).locate _ foundD
  obtain ⟨⟨_, admissible⟩, _⟩ := (Tree.wellKeyed_iff dn).mp keyed
  apply admissible key
  cases dn with
  | leaf l s => simp [Tree.descend] at step
  | array l es => simp [Tree.descend] at step
  | object l ds =>
    simp only [Tree.descend] at step
    cases looked : lookupKey key ds with
    | none => simp [looked] at step
    | some e => exact List.mem_map_of_mem (lookup_mem key ds e looked)

/-- A recursive pass edits the member; seen from its object it edits the object. -/
theorem Filled.lift {m m' : ConfigModel} {tm : SlotTree} {keys : List Bytes} {key : Bytes}
    {ms xs : List (Bytes × ConfigValue)} {v : ConfigValue} {added : Bool}
    (foundM : Tree.locate (keySteps keys) tm.forget = .ok (Tree.object () ms))
    (present : lookupKey key ms = some (Tree.object () xs))
    (filled : Filled m m' tm (keys ++ [key]) (Tree.object () xs) (Tree.merge (Tree.object () xs) v)
      added) :
    Filled m m' tm keys (Tree.object () ms) (Tree.object () (Tree.mergeMember ms (key, v)))
      added := by
  have stepM : Tree.descend (.key key) (Tree.object () ms) = .ok (Tree.object () xs) := by
    simp only [Tree.descend, present]
  have edited : ∀ y : ConfigValue, y = Tree.merge (Tree.object () xs) v →
      Tree.replace [.key key] y (Tree.object () ms) =
        Tree.object () (Tree.mergeMember ms (key, v)) := by
    intro y same
    rw [Tree.replace_cons_ok _ _ _ _ _ stepM, same]
    simp only [Tree.replace, Tree.putChild, Tree.mergeMember, present]
  have lifted : Tree.replace (keySteps (keys ++ [key])) (Tree.merge (Tree.object () xs) v) tm.forget =
      Tree.replace (keySteps keys) (Tree.object () (Tree.mergeMember ms (key, v))) tm.forget := by
    rw [keySteps_append, Tree.replace_append _ _ _ _ _ foundM]
    exact congrArg (Tree.replace (keySteps keys) · tm.forget) (edited _ rfl)
  have sizes := size_replace [.key key] (Tree.merge (Tree.object () xs) v)
    (Tree.object () ms) (Tree.object () xs) (by rw [Tree.locate_cons_ok _ _ _ _ stepM]; rfl)
  rw [edited _ rfl] at sizes
  have grows := filled.grows
  refine ⟨?_, filled.reachable, by omega, fun none => ?_, fun some_ => ?_⟩
  · rw [← lifted]
    exact filled.holds
  · have same := filled.unchanged none
    simp only [Tree.mergeMember, present, same, updateKey_self key _ ms present]
  · have bigger := filled.changed some_
    omega

/-- One round of the loop, followed by the rest of it. -/
theorem fillKeys_cons (d : ConfigModel) (td : SlotTree) (rd : Represents d td) (slots : Nat)
    (descend : ConfigModel → ConfigNode → Bytes → Result Bool × ConfigModel)
    (below : DescendSpec d td slots descend) (keys : List Bytes) (dn : SlotTree)
    (names : ∀ k ∈ keys, Addressable k) (foundD : Tree.locate (keySteps keys) td = .ok dn)
    (enough : dn.height < slots + 1) (key : Bytes) (c : SlotTree)
    (step : Tree.descend (.key key) dn = .ok c) (m : ConfigModel) (tm : SlotTree)
    (rm : Represents m tm) (ms : List (Bytes × ConfigValue))
    (foundM : Tree.locate (keySteps keys) tm.forget = .ok (Tree.object () ms)) (rest : List Bytes)
    (added : Bool) :
    ∃ added' m', fillKeys descend d (ConfigNode.issue d.arena dn.label) (joinKeys keys)
        (key :: rest) added m =
          fillKeys descend d (ConfigNode.issue d.arena dn.label) (joinKeys keys) rest
            (added || added') m' ∧
      Filled m m' tm keys (Tree.object () ms)
        (Tree.object () (Tree.mergeMember ms (key, c.forget))) added' := by
  obtain ⟨up, rep⟩ := rd.rep.locate _ foundD
  have child := child_spec d.arena up dn rep key
  rw [step] at child
  simp only at child
  have foundC : Tree.locate (keySteps (keys ++ [key])) td = .ok c := by
    rw [keySteps_append, Tree.locate_append _ _ _ _ foundD, Tree.locate_cons_ok _ _ _ _ step]
    rfl
  have repC := rep.children c (Tree.descend_mem _ dn c step)
  have typeC : (ConfigNode.issue d.arena c.label).type d.arena = ConfigValue.type c.forget :=
    repC.type
  have named := defaultKey_addressable rd foundD step
  have names' : ∀ k ∈ keys ++ [key], Addressable k := by
    intro k inside
    rcases List.mem_append.mp inside with old | new
    · exact names k old
    · rw [List.mem_singleton.mp new]
      exact named
  rw [fillKeys, child]
  simp only [← joinKeys_append keys key names]
  cases present : lookupKey key ms with
  | none =>
    obtain ⟨absent, read, success, filled⟩ := round_absent rd rm names' foundC foundM present
    cases written : m.set (joinKeys (keys ++ [key])) c.forget with
    | mk answer m' =>
      rw [written] at success filled
      simp only at success
      subst success
      refine ⟨true, m', ?_, ?_⟩
      · simp only [absent, Bool.not_false, if_true, read, written, Bool.or_true]
      · simpa only [Tree.mergeMember, present] using filled
  | some x =>
    obtain ⟨contains, h, at', typeX⟩ := round_present rm names' foundM x present
    have refl := Filled.refl m tm rm keys _ foundM
    have kept : Tree.merge x c.forget = x →
        Tree.object () (Tree.mergeMember ms (key, c.forget)) = (Tree.object () ms : ConfigValue) := by
      intro same
      simp only [Tree.mergeMember, present, same, updateKey_self key x ms present]
    simp only [contains, Bool.not_true, Bool.false_eq_true, if_false, typeC, at', typeX]
    by_cases objectC : ConfigValue.type c.forget = .object
    · rw [if_pos objectC]
      by_cases objectX : ConfigValue.type x = .object
      · rw [if_pos objectX]
        obtain ⟨ds, shapeC⟩ := ConfigValue.object_of_type c.forget objectC
        obtain ⟨xs, rfl⟩ := ConfigValue.object_of_type x objectX
        have foundX : Tree.locate (keySteps (keys ++ [key])) tm.forget = .ok (Tree.object () xs) := by
          have stepM : Tree.descend (.key key) (Tree.object () ms) = .ok (Tree.object () xs) := by
            simp only [Tree.descend, present]
          rw [keySteps_append, Tree.locate_append _ _ _ _ foundM, Tree.locate_cons_ok _ _ _ _ stepM]
          rfl
        obtain ⟨added', m', called, filled⟩ := below (keys ++ [key]) c ds m tm xs names' foundC
          shapeC (by have := Tree.height_descend_lt _ dn c step; omega) rm foundX
        rw [← shapeC] at filled
        exact ⟨added', m', by rw [called], filled.lift foundM present⟩
      · rw [if_neg objectX]
        refine ⟨false, m, by rw [Bool.or_false], ?_⟩
        rw [kept (Tree.merge_of_not_objects x c.forget (by
          rintro ⟨⟨l, xs, rfl⟩, _⟩
          exact objectX rfl))]
        exact refl
    · rw [if_neg objectC]
      refine ⟨false, m, by rw [Bool.or_false], ?_⟩
      rw [kept (Tree.merge_of_not_objects x c.forget (by
        rintro ⟨_, l, ds, shape⟩
        rw [shape] at objectC
        exact objectC rfl))]
      exact refl

/-- The whole loop, over members of the defaults that are still to visit. -/
theorem fillKeys_spec (d : ConfigModel) (td : SlotTree) (rd : Represents d td) (slots : Nat)
    (descend : ConfigModel → ConfigNode → Bytes → Result Bool × ConfigModel)
    (below : DescendSpec d td slots descend) (keys : List Bytes) (dn : SlotTree)
    (names : ∀ k ∈ keys, Addressable k) (foundD : Tree.locate (keySteps keys) td = .ok dn)
    (enough : dn.height < slots + 1) (todo : List (Bytes × SlotTree))
    (here : ∀ e ∈ todo, Tree.descend (.key e.1) dn = .ok e.2) (m : ConfigModel) (tm : SlotTree)
    (rm : Represents m tm) (ms : List (Bytes × ConfigValue))
    (foundM : Tree.locate (keySteps keys) tm.forget = .ok (Tree.object () ms)) (added : Bool) :
    ∃ added' m', fillKeys descend d (ConfigNode.issue d.arena dn.label) (joinKeys keys)
        (todo.map Prod.fst) added m = (.ok (added || added'), m') ∧
      Filled m m' tm keys (Tree.object () ms)
        (Tree.object () ((todo.map fun e => (e.1, e.2.forget)).foldl Tree.mergeMember ms)) added' := by
  induction todo generalizing m tm ms added with
  | nil => exact ⟨false, m, by simp [fillKeys], Filled.refl m tm rm keys _ foundM⟩
  | cons e rest ih =>
    obtain ⟨key, c⟩ := e
    obtain ⟨added₁, m₁, unfolded, first⟩ := fillKeys_cons d td rd slots descend below keys dn names
      foundD enough key c (here (key, c) (by simp)) m tm rm ms foundM (rest.map Prod.fst) added
    obtain ⟨tm₁, rm₁, between⟩ := first.holds
    have foundM₁ : Tree.locate (keySteps keys) tm₁.forget =
        .ok (Tree.object () (Tree.mergeMember ms (key, c.forget))) := by
      rw [between]
      exact Tree.locate_replace_self _ _ _ _ foundM
    obtain ⟨added₂, m₂, finished, second⟩ := ih (fun e inside => here e (List.mem_cons_of_mem _ inside))
      m₁ tm₁ rm₁ _ foundM₁ (added || added₁)
    refine ⟨added₁ || added₂, m₂, ?_, first.trans foundM between second⟩
    rw [List.map_cons, unfolded, finished, Bool.or_assoc]

theorem fillMissing_descends (d : ConfigModel) (td : SlotTree) (rd : Represents d td)
    (slots : Nat) : DescendSpec d td slots (fillMissing d slots) := by
  induction slots with
  | zero =>
    intro keys dn ds m tm ms _ _ _ enough
    omega
  | succ slots ih =>
    intro keys dn ds m tm ms names foundD shape enough rm foundM
    obtain ⟨up, rep⟩ := rd.rep.locate _ foundD
    have keyed : Tree.WellKeyed Addressable dn :=
      ((Tree.wellKeyed_forget td).mp rd.admissible.keys).locate _ foundD
    obtain ⟨⟨distinct, _⟩, _⟩ := (Tree.wellKeyed_iff dn).mp keyed
    have shows := issue_shows d.arena up dn rep distinct
    cases dn with
    | leaf l s => simp at shape
    | array l es => simp at shape
    | object l members =>
      rw [Tree.forget_object, Tree.object.injEq] at shape
      obtain ⟨_, shape⟩ := shape
      have listed : (ConfigNode.issue d.arena (Tree.object l members).label).keys d.arena =
          .ok (members.map Prod.fst) := by
        have answer := shows.keys
        rw [Tree.forget_object, keysAnswer, List.map_map] at answer
        cases got : (ConfigNode.issue d.arena (Tree.object l members).label).keys d.arena with
        | error e => simp [got, outcome] at answer
        | ok keys => simpa [got, Function.comp_def] using answer
      have here : ∀ e ∈ members, Tree.descend (.key e.1) (Tree.object l members) = .ok e.2 := by
        intro e inside
        simp only [Tree.descend, lookup_of_mem members distinct e inside]
      obtain ⟨added, m', finished, filled⟩ := fillKeys_spec d td rd slots (fillMissing d slots) ih
        keys (Tree.object l members) names foundD enough members here m tm rm ms foundM false
      have distinctM : (ms.map Prod.fst).Nodup :=
        ((Tree.wellKeyed_iff _).mp (rm.admissible.keys.locate _ foundM)).1.1
      have distinctD : (ds.map Prod.fst).Nodup := by
        rw [← shape, List.map_map]
        exact distinct
      refine ⟨added, m', ?_, ?_⟩
      · simp only [fillMissing, listed, finished, Bool.false_or]
      · rw [Tree.merge, ← Tree.foldl_mergeMember ms ds distinctM distinctD, ← shape]
        exact filled

/-- `fillMissing` from the root never fails and leaves the merge. -/
theorem fillMissing_spec (m d : ConfigModel) (tm td : SlotTree) (rm : Represents m tm)
    (rd : Represents d td) :
    ∃ added m' tm', fillMissing d d.arena.nodes.length m d.root [] = (.ok added, m') ∧
      Represents m' tm' ∧ tm'.forget = Tree.merge tm.forget td.forget ∧
      (Reachable m → Reachable m') ∧ (added = true ↔ tm'.forget ≠ tm.forget) := by
  obtain ⟨ms, shapeM⟩ := ConfigValue.object_of_type _ rm.admissible.root
  obtain ⟨ds, shapeD⟩ := ConfigValue.object_of_type _ rd.admissible.root
  obtain ⟨added, m', called, filled⟩ := fillMissing_descends d td rd d.arena.nodes.length [] td ds m
    tm ms (by simp) rfl shapeD (rd.rep.height_lt rd.distinct) rm (by rw [shapeM]; rfl)
  obtain ⟨tm', rm', plain⟩ := filled.holds
  rw [rd.label] at called
  rw [shapeM, shapeD]
  refine ⟨added, m', tm', called, rm', plain, filled.reachable, ?_⟩
  change tm'.forget = Tree.merge (Tree.object () ms) (Tree.object () ds) at plain
  rw [plain]
  cases added with
  | false =>
    have same := filled.unchanged rfl
    simp [same]
  | true =>
    have bigger := filled.changed rfl
    refine ⟨fun _ same => ?_, fun _ => rfl⟩
    rw [same] at bigger
    exact Nat.lt_irrefl _ bigger

end ConfigManager.Refinement
