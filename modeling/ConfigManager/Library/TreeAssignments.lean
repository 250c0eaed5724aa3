import ConfigManager.Library.TreeWrites

/-!
# A tree rebuilt from its nodes

Every node below the root has a path. Written there as a leaf or an empty
container, one after the other and parents first, the nodes rebuild the tree.
-/

set_option autoImplicit false

namespace ConfigManager.Library

universe u v w

namespace Tree

variable {κ : Type v} {α : Type w}

/-- The node without its children. -/
def bare : Tree Unit κ α → Tree Unit κ α
  | .leaf _ a => .leaf () a
  | .object _ _ => .object () []
  | .array _ _ => .array () []

mutual
/-- The nodes below the one at `q`, with their paths. -/
def nodesBelow (q : List (Step κ)) : Tree Unit κ α → List (List (Step κ) × Tree Unit κ α)
  | .leaf _ _ => []
  | .object _ ms => nodesOfMembers q ms
  | .array _ es => nodesOfElements q 0 es
def nodesOfMembers (q : List (Step κ)) :
    List (κ × Tree Unit κ α) → List (List (Step κ) × Tree Unit κ α)
  | [] => []
  | (k, c) :: ms =>
      (q ++ [.key k], c) :: (nodesBelow (q ++ [.key k]) c ++ nodesOfMembers q ms)
def nodesOfElements (q : List (Step κ)) (i : Nat) :
    List (Tree Unit κ α) → List (List (Step κ) × Tree Unit κ α)
  | [] => []
  | c :: es =>
      (q ++ [.index i], c) :: (nodesBelow (q ++ [.index i]) c ++ nodesOfElements q (i + 1) es)
end

variable [DecidableEq κ]

/-- The nodes written at their paths, each without its children. -/
def rebuild (same : Tree Unit κ α → Tree Unit κ α → Bool) :
    List (List (Step κ) × Tree Unit κ α) → Tree Unit κ α → Except Fault (Tree Unit κ α)
  | [], t => .ok t
  | (p, v) :: rest, t =>
      match upsert same p (bare v) t with
      | .ok t' => rebuild same rest t'
      | .error f => .error f

variable (same : Tree Unit κ α → Tree Unit κ α → Bool)

theorem rebuild_append (ws ws' : List (List (Step κ) × Tree Unit κ α)) (t t' : Tree Unit κ α)
    (ran : rebuild same ws t = .ok t') : rebuild same (ws ++ ws') t = rebuild same ws' t' := by
  induction ws generalizing t with
  | nil =>
    cases ran
    rfl
  | cons w ws ih =>
    obtain ⟨p, v⟩ := w
    simp only [List.cons_append, rebuild] at ran ⊢
    cases written : upsert same p (bare v) t with
    | error f => rw [written] at ran; cases ran
    | ok next =>
      rw [written] at ran
      exact ih next ran

theorem putChild_addChild (s : Step κ) (c d x : Tree Unit κ α) (room : canAppend s x = true) :
    putChild s c (addChild s d x) = addChild s c x := by
  cases s with
  | key k =>
    cases x with
    | leaf l a => cases room
    | array l es => cases room
    | object l ms =>
      have absent : lookupKey k ms = none := by simpa [canAppend] using room
      have updated : updateKey k c (ms ++ [(k, d)]) = ms ++ [(k, c)] := by
        induction ms with
        | nil => simp [updateKey]
        | cons m ms ih =>
          rw [lookup_cons_eq] at absent
          by_cases here : k = m.1
          · rw [if_pos here] at absent
            cases absent
          · rw [if_neg here] at absent
            have room' : canAppend (.key k) (.object l ms : Tree Unit κ α) = true := by
              simpa [canAppend] using absent
            simp only [List.cons_append, updateKey, if_neg here, ih room' absent]
      simp only [putChild, addChild, updated]
  | index i =>
    cases x with
    | leaf l a => cases room
    | object l ms => cases room
    | array l es =>
      obtain rfl : i = es.length := by simpa [canAppend] using room
      simp [putChild, addChild]

/-- The nodes below rebuild the node, wherever it stands. -/
def Builds (same : Tree Unit κ α → Tree Unit κ α → Bool) (c : Tree Unit κ α) : Prop :=
  ∀ (q : List (Step κ)) (t x : Tree Unit κ α), locate q t = .ok x →
    rebuild same (nodesBelow q c) (replace q (bare c) t) = .ok (replace q c t)

/-- One more child of the node at `q`, then what lies below it. -/
theorem child_built (c : Tree Unit κ α) (builds : Builds same c) (q : List (Step κ)) (s : Step κ)
    (x t y : Tree Unit κ α) (anchor : locate q t = .ok y) (room : canAppend s x = true) :
    rebuild same ((q ++ [s], c) :: nodesBelow (q ++ [s]) c) (replace q x t) =
      .ok (replace q (addChild s c x) t) := by
  have here := locate_replace_self q x t y anchor
  have first : upsert same (q ++ [s]) (bare c) (replace q x t) =
      .ok (replace q (addChild s (bare c) x) t) := by
    rw [upsert_creating same q [] s (bare c) _ x here (descend_absent_of_canAppend s x room),
      if_pos room]
    change Except.ok (replace q (addChild s (bare c) x) (replace q x t)) = _
    rw [replace_replace q x _ t y anchor]
  have here' := locate_replace_self q (addChild s (bare c) x) t y anchor
  have step := descend_addChild_self s x (bare c) room
  -- The new child is replaced below the node, whatever replaces it.
  have below : ∀ d, replace (q ++ [s]) d (replace q (addChild s (bare c) x) t) =
      replace q (addChild s d x) t := by
    intro d
    rw [replace_append q [s] d _ _ here', replace_cons_ok s [] d _ _ step,
      replace_replace q _ _ t y anchor]
    exact congrArg (fun n => replace q n t) (putChild_addChild s d (bare c) x room)
  have child : locate (q ++ [s]) (replace q (addChild s (bare c) x) t) = .ok (bare c) := by
    rw [locate_append q [s] _ _ here', locate_cons_ok s [] _ _ step]
    rfl
  have rest := builds (q ++ [s]) _ _ child
  rw [below, below] at rest
  rw [rebuild, first]
  exact rest

theorem members_built (ms : List (κ × Tree Unit κ α)) (builds : ∀ m ∈ ms, Builds same m.2)
    (done : List (κ × Tree Unit κ α)) (distinct : ((done ++ ms).map Prod.fst).Nodup)
    (q : List (Step κ)) (t y : Tree Unit κ α) (anchor : locate q t = .ok y) :
    rebuild same (nodesOfMembers q ms) (replace q (.object () done) t) =
      .ok (replace q (.object () (done ++ ms)) t) := by
  induction ms generalizing done with
  | nil => rw [nodesOfMembers, rebuild, List.append_nil]
  | cons m ms ih =>
    obtain ⟨k, c⟩ := m
    have absent : lookupKey k done = none := by
      rw [lookup_none_iff]
      intro inside
      rw [List.map_append, List.nodup_append] at distinct
      exact distinct.2.2 k inside k (by simp) rfl
    have room : canAppend (.key k) (.object () done : Tree Unit κ α) = true := by
      simp [canAppend, absent]
    have child := child_built same c (builds _ List.mem_cons_self) q (.key k) (.object () done) t y
      anchor room
    rw [nodesOfMembers, ← List.cons_append, rebuild_append same _ _ _ _ child]
    have rest := ih (fun m inside => builds m (List.mem_cons_of_mem _ inside)) (done ++ [(k, c)])
      (by rwa [List.append_assoc])
    rwa [List.append_assoc] at rest

theorem elements_built (es : List (Tree Unit κ α)) (builds : ∀ e ∈ es, Builds same e)
    (done : List (Tree Unit κ α)) (q : List (Step κ)) (t y : Tree Unit κ α)
    (anchor : locate q t = .ok y) :
    rebuild same (nodesOfElements q done.length es) (replace q (.array () done) t) =
      .ok (replace q (.array () (done ++ es)) t) := by
  induction es generalizing done with
  | nil => rw [nodesOfElements, rebuild, List.append_nil]
  | cons c es ih =>
    have room : canAppend (.index done.length) (.array () done : Tree Unit κ α) = true := by
      simp [canAppend]
    have child := child_built same c (builds _ List.mem_cons_self) q (.index done.length)
      (.array () done) t y anchor room
    rw [nodesOfElements, ← List.cons_append, rebuild_append same _ _ _ _ child]
    have rest := ih (fun e inside => builds e (List.mem_cons_of_mem _ inside)) (done ++ [c])
    rwa [List.append_assoc, List.length_append, List.length_singleton] at rest

theorem nodes_rebuild (c : Tree Unit κ α) (distinct : Every (fun x => x.keys.Nodup) c) :
    Builds same c := by
  induction c using children_induction with
  | node c ih =>
    obtain ⟨keys, below⟩ := (every_iff _ _).mp distinct
    intro q t x anchor
    cases c with
    | leaf l a => rw [nodesBelow, rebuild, bare]
    | object l ms =>
      refine members_built same ms (fun m inside => ?_) [] keys q t x anchor
      have member : m.2 ∈ (Tree.object l ms).children := List.mem_map_of_mem inside
      exact ih m.2 member (below m.2 member)
    | array l es =>
      exact elements_built same es (fun e inside => ih e inside (below e inside)) [] q t x anchor

/-! ## The paths -/

omit [DecidableEq κ] in
theorem mem_nodesOfMembers (q : List (Step κ)) (ms : List (κ × Tree Unit κ α))
    (w : List (Step κ) × Tree Unit κ α) (inside : w ∈ nodesOfMembers q ms) :
    ∃ m ∈ ms, w = (q ++ [.key m.1], m.2) ∨ w ∈ nodesBelow (q ++ [.key m.1]) m.2 := by
  induction ms with
  | nil => cases inside
  | cons m ms ih =>
    obtain ⟨k, c⟩ := m
    simp only [nodesOfMembers, List.mem_cons, List.mem_append] at inside
    rcases inside with here | below | later
    · exact ⟨_, List.mem_cons_self, .inl here⟩
    · exact ⟨_, List.mem_cons_self, .inr below⟩
    · obtain ⟨m, member, how⟩ := ih later
      exact ⟨m, List.mem_cons_of_mem _ member, how⟩

omit [DecidableEq κ] in
theorem mem_nodesOfElements (q : List (Step κ)) (i : Nat) (es : List (Tree Unit κ α))
    (w : List (Step κ) × Tree Unit κ α) (inside : w ∈ nodesOfElements q i es) :
    ∃ j e, es[j]? = some e ∧
      (w = (q ++ [.index (i + j)], e) ∨ w ∈ nodesBelow (q ++ [.index (i + j)]) e) := by
  induction es generalizing i with
  | nil => cases inside
  | cons c es ih =>
    simp only [nodesOfElements, List.mem_cons, List.mem_append] at inside
    rcases inside with here | below | later
    · exact ⟨0, c, rfl, .inl here⟩
    · exact ⟨0, c, rfl, .inr below⟩
    · obtain ⟨j, e, member, how⟩ := ih (i + 1) later
      refine ⟨j + 1, e, member, ?_⟩
      rwa [show i + (j + 1) = i + 1 + j by omega]

/-- Each node is found at its path. -/
theorem nodes_located (c : Tree Unit κ α) (distinct : Every (fun x => x.keys.Nodup) c)
    (q : List (Step κ)) (w : List (Step κ) × Tree Unit κ α) (inside : w ∈ nodesBelow q c) :
    ∃ p, w.1 = q ++ p ∧ p ≠ [] ∧ locate p c = .ok w.2 := by
  induction c using children_induction generalizing q w with
  | node c ih =>
    obtain ⟨keys, below⟩ := (every_iff _ _).mp distinct
    -- A node of a child, or the child itself, is one of the node.
    have through : ∀ s d, descend s c = .ok d → w = (q ++ [s], d) ∨ w ∈ nodesBelow (q ++ [s]) d →
        ∃ p, w.1 = q ++ p ∧ p ≠ [] ∧ locate p c = .ok w.2 := by
      intro s d step how
      rcases how with rfl | deeper
      · exact ⟨[s], rfl, by simp, by rw [locate_cons_ok s [] c d step]; rfl⟩
      · have member := descend_mem s c d step
        obtain ⟨p, path, _, found⟩ := ih d member (below d member) (q ++ [s]) w deeper
        refine ⟨s :: p, ?_, by simp, ?_⟩
        · rw [path, List.append_assoc, List.singleton_append]
        · rw [locate_cons_ok s p c d step]
          exact found
    cases c with
    | leaf l a => cases inside
    | object l ms =>
      obtain ⟨m, member, how⟩ := mem_nodesOfMembers q ms w inside
      have found := lookup_of_mem ms keys m member
      exact through (.key m.1) m.2 (by simp only [descend, found]) how
    | array l es =>
      obtain ⟨j, e, member, how⟩ := mem_nodesOfElements q 0 es w inside
      rw [Nat.zero_add] at how
      exact through (.index j) e (by simp only [descend, member]) how

/-- The steps to a node are names of the tree and positions within its size. -/
theorem locate_steps (good : κ → Prop) (p : List (Step κ)) (t x : Tree Unit κ α)
    (keyed : WellKeyed good t) (found : locate p t = .ok x) :
    (∀ k, Step.key k ∈ p → good k) ∧ ∀ n, Step.index n ∈ p → n < t.size := by
  induction p generalizing t with
  | nil => exact ⟨fun _ none => (nomatch none), fun _ none => (nomatch none)⟩
  | cons s p ih =>
    obtain ⟨c, step, rest⟩ := locate_cons_success s p t x found
    obtain ⟨names, positions⟩ := ih c (keyed.descend s step) rest
    have member := descend_mem s t c step
    have smaller : c.size ≤ t.size := by
      have part := List.single_le_sum (l := t.children.map size) (by simp) c.size
        (List.mem_map_of_mem member)
      rw [size_eq t]
      omega
    refine ⟨fun k inside => ?_, fun n inside => ?_⟩
    · rcases List.mem_cons.mp inside with rfl | later
      · refine ((wellKeyed_iff t).mp keyed).1.2 k ?_
        cases t with
        | leaf l a => cases step
        | array l es => cases step
        | object l ms =>
          simp only [descend] at step
          cases present : lookupKey k ms with
          | none => rw [present] at step; cases step
          | some c' => exact List.mem_map_of_mem (lookup_mem k ms c' present)
      · exact names k later
    · rcases List.mem_cons.mp inside with rfl | later
      · cases t with
        | leaf l a => cases step
        | object l ms => cases step
        | array l es =>
          simp only [descend] at step
          have within : n < es.length := by
            by_contra beyond
            rw [List.getElem?_eq_none (Nat.le_of_not_lt beyond)] at step
            cases step
          have many := List.length_le_sum_of_one_le (es.map size) (by
            intro k inside
            obtain ⟨e, _, rfl⟩ := List.mem_map.mp inside
            exact size_pos e)
          rw [size_array]
          rw [List.length_map] at many
          omega
      · exact lt_of_lt_of_le (positions n later) smaller

end Tree

end ConfigManager.Library
