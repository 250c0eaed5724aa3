import ConfigManager.Library.TreeEdits

/-!
# What a write does, and what edits keep

A path either leads to a node or gets stuck at one step. `upsert` is described
by these two cases, and so is the condition under which it succeeds. The rest
says what each edit keeps: keys that are distinct and admissible (`WellKeyed`),
a bound on the height, and the positions of the nodes it does not detach.
-/

set_option autoImplicit false

namespace ConfigManager.Library.Tree

universe u v w

variable {ι : Type u} {κ : Type v} {α : Type w} [DecidableEq κ]

/-! ## A write by cases -/

/-- Where a path that leads nowhere gets stuck. -/
theorem locate_stuck (p : List (Step κ)) (t : Tree ι κ α) (f : Fault)
    (failed : locate p t = .error f) :
    ∃ q s r x, p = q ++ s :: r ∧ locate q t = .ok x ∧ descend s x = .error f := by
  induction p generalizing t with
  | nil => cases failed
  | cons s p ih =>
    cases step : descend s t with
    | error g =>
      rw [locate_cons_error s p t g step] at failed
      cases failed
      exact ⟨[], s, p, t, rfl, rfl, step⟩
    | ok c =>
      rw [locate_cons_ok s p t c step] at failed
      obtain ⟨q, s', r, x, shape, found, stuck⟩ := ih c failed
      refine ⟨s :: q, s', r, x, by rw [shape, List.cons_append], ?_, stuck⟩
      rw [locate_cons_ok s q t c step]
      exact found

theorem descend_absent_of_canAppend (s : Step κ) (t : Tree ι κ α) (room : canAppend s t = true) :
    descend s t = .error .absent := by
  cases s <;> cases t <;> simp_all [canAppend, descend]

theorem upsert_append (same : Tree Unit κ α → Tree Unit κ α → Bool) (q r : List (Step κ))
    (v t x : Tree Unit κ α) (found : locate q t = .ok x) :
    upsert same (q ++ r) v t = (upsert same r v x).map fun n => replace q n t := by
  induction q generalizing t with
  | nil =>
    cases found
    rw [List.nil_append]
    cases written : upsert same r v x <;> rfl
  | cons s q ih =>
    obtain ⟨c, step, rest⟩ := locate_cons_success s q t x found
    rw [List.cons_append, upsert, step]
    simp only []
    rw [ih c rest]
    cases upsert same r v x with
    | error f => rfl
    | ok n => simp only [Except.map, replace_cons_ok _ _ _ _ _ step]

/-- A write to a node that exists. -/
theorem upsert_existing (same : Tree Unit κ α → Tree Unit κ α → Bool) (p : List (Step κ))
    (v t x : Tree Unit κ α) (found : locate p t = .ok x) :
    upsert same p v t = if same x v then .ok (replace p v t) else .error .mismatch := by
  have split := upsert_append same p [] v t x found
  rw [List.append_nil] at split
  rw [split, upsert]
  split <;> rfl

/-- A write that has to create: the anchor exists, its child does not. -/
theorem upsert_creating (same : Tree Unit κ α → Tree Unit κ α → Bool) (q r : List (Step κ))
    (s : Step κ) (v t x : Tree Unit κ α) (found : locate q t = .ok x)
    (stuck : descend s x = .error .absent) :
    upsert same (q ++ s :: r) v t =
      if canAppend s x then (create r v).map fun c => replace q (addChild s c x) t
      else .error .absent := by
  rw [upsert_append same q (s :: r) v t x found, upsert, stuck]
  simp only []
  split
  · cases create r v <;> rfl
  · rfl

theorem upsert_mismatch (same : Tree Unit κ α → Tree Unit κ α → Bool) (q r : List (Step κ))
    (s : Step κ) (v t x : Tree Unit κ α) (found : locate q t = .ok x)
    (stuck : descend s x = .error .mismatch) :
    upsert same (q ++ s :: r) v t = .error .mismatch := by
  rw [upsert_append same q (s :: r) v t x found, upsert, stuck]
  rfl

/-- Fresh containers can only be entered at the front. -/
def Creatable (p : List (Step κ)) : Prop := ∀ i, Step.index i ∈ p → i = 0

omit [DecidableEq κ] in
theorem create_ok_iff (p : List (Step κ)) (v : Tree Unit κ α) :
    (∃ c, create p v = .ok c) ↔ Creatable p := by
  induction p with
  | nil => simp [create, Creatable]
  | cons s p ih =>
    cases s with
    | key k =>
      have same : Creatable (.key k :: p) ↔ Creatable p := by simp [Creatable]
      rw [same, ← ih, create]
      cases create p v <;> simp [Except.map]
    | index i =>
      rw [create]
      by_cases zero : i = 0
      · subst zero
        have same : Creatable (.index 0 :: p) ↔ Creatable p := by simp [Creatable]
        rw [same, ← ih, if_pos rfl]
        cases create p v <;> simp [Except.map]
      · rw [if_neg zero]
        simp [Creatable, zero]

omit [DecidableEq κ] in
theorem create_error (p : List (Step κ)) (v : Tree Unit κ α) (f : Fault)
    (failed : create p v = .error f) : f = .absent := by
  induction p generalizing f with
  | nil => cases failed
  | cons s p ih =>
    cases s with
    | key k =>
      rw [create] at failed
      cases inner : create p v with
      | error g =>
        simp only [inner, Except.map, Except.error.injEq] at failed
        rw [← failed]
        exact ih g inner
      | ok c => simp [inner, Except.map] at failed
    | index i =>
      rw [create] at failed
      split at failed
      · cases inner : create p v with
        | error g =>
          simp only [inner, Except.map, Except.error.injEq] at failed
          rw [← failed]
          exact ih g inner
        | ok c => simp [inner, Except.map] at failed
      · simpa using failed.symm

/-- A path can be written when it leads to a node of the same kind, or to a node with
room for the next step and fresh containers from there on. -/
def Writable (same : Tree Unit κ α → Tree Unit κ α → Bool) (p : List (Step κ))
    (v t : Tree Unit κ α) : Prop :=
  (∃ x, locate p t = .ok x ∧ same x v = true) ∨
    ∃ q s r x, p = q ++ s :: r ∧ locate q t = .ok x ∧ canAppend s x = true ∧ Creatable r

theorem upsert_ok_iff (same : Tree Unit κ α → Tree Unit κ α → Bool) (p : List (Step κ))
    (v t : Tree Unit κ α) : (∃ t', upsert same p v t = .ok t') ↔ Writable same p v t := by
  constructor
  · rintro ⟨t', success⟩
    cases found : locate p t with
    | ok x =>
      rw [upsert_existing same p v t x found] at success
      split at success
      · next kind => exact .inl ⟨x, found, kind⟩
      · cases success
    | error f =>
      obtain ⟨q, s, r, x, shape, anchor, stuck⟩ := locate_stuck p t f found
      subst shape
      cases f with
      | mismatch =>
        rw [upsert_mismatch same q r s v t x anchor stuck] at success
        cases success
      | absent =>
        rw [upsert_creating same q r s v t x anchor stuck] at success
        split at success
        · next room =>
          cases made : create r v with
          | error g => simp [made, Except.map] at success
          | ok c => exact .inr ⟨q, s, r, x, rfl, anchor, room, (create_ok_iff r v).mp ⟨c, made⟩⟩
        · cases success
  · rintro (⟨x, found, kind⟩ | ⟨q, s, r, x, rfl, anchor, room, fresh⟩)
    · rw [upsert_existing same p v t x found, if_pos kind]
      exact ⟨_, rfl⟩
    · obtain ⟨c, made⟩ := (create_ok_iff r v).mpr fresh
      rw [upsert_creating same q r s v t x anchor (descend_absent_of_canAppend s x room),
        if_pos room, made]
      exact ⟨_, rfl⟩

/-- Creating moves no node that existed. -/
theorem locate_addChild (p q : List (Step κ)) (s : Step κ) (c t x y : Tree ι κ α)
    (anchor : locate q t = .ok x) (here : locate p t = .ok y) :
    ∃ y', locate p (replace q (addChild s c x) t) = .ok y' ∧ y'.label = y.label := by
  by_cases below : q <+: p
  · obtain ⟨r, rfl⟩ := below
    rw [locate_append q r t x anchor] at here
    rw [locate_append q r _ _ (locate_replace_self q _ t x anchor)]
    cases r with
    | nil =>
      cases here
      exact ⟨_, rfl, addChild_label s c _⟩
    | cons s' r =>
      obtain ⟨d, step, rest⟩ := locate_cons_success s' r x y here
      exact ⟨y, by rwa [locate_cons_ok _ _ _ _ (descend_addChild s s' x c d step)], rfl⟩
  · exact locate_replace_outside p q _ t y x anchor below here

/-- What was written is read back at its path. -/
theorem locate_upsert (same : Tree Unit κ α → Tree Unit κ α → Bool) (p : List (Step κ))
    (v t t' : Tree Unit κ α) (success : upsert same p v t = .ok t') : locate p t' = .ok v := by
  have created : ∀ (r : List (Step κ)) (c : Tree Unit κ α), create r v = .ok c →
      locate r c = .ok v := by
    intro r
    induction r with
    | nil =>
      intro c made
      cases made
      rfl
    | cons s r ih =>
      intro c made
      cases s with
      | key k =>
        rw [create] at made
        cases inner : create r v with
        | error f => simp [inner, Except.map] at made
        | ok d =>
          simp only [inner, Except.map, Except.ok.injEq] at made
          subst made
          rw [locate_cons_ok _ _ _ d (by simp [descend, lookup_cons_eq])]
          exact ih d inner
      | index i =>
        rw [create] at made
        split at made
        · next zero =>
          cases inner : create r v with
          | error f => simp [inner, Except.map] at made
          | ok d =>
            simp only [inner, Except.map, Except.ok.injEq] at made
            subst made zero
            rw [locate_cons_ok _ _ _ d (by simp [descend])]
            exact ih d inner
        · cases made
  cases found : locate p t with
  | ok x =>
    rw [upsert_existing same p v t x found] at success
    split at success
    · cases success
      exact locate_replace_self p v t x found
    · cases success
  | error f =>
    obtain ⟨q, s, r, x, shape, anchor, stuck⟩ := locate_stuck p t f found
    subst shape
    cases f with
    | mismatch =>
      rw [upsert_mismatch same q r s v t x anchor stuck] at success
      cases success
    | absent =>
      rw [upsert_creating same q r s v t x anchor stuck] at success
      split at success
      · next room =>
        cases made : create r v with
        | error g => simp [made, Except.map] at success
        | ok c =>
          simp only [made, Except.map, Except.ok.injEq] at success
          rw [← success, locate_append q _ _ _ (locate_replace_self q _ t x anchor),
            locate_cons_ok s r _ c (descend_addChild_self s x c room)]
          exact created r c made
      · cases success

/-- A removal detaches exactly what lies at or below its path. -/
theorem afterRemove_none_iff (q p : List (Step κ)) (path : q ≠ []) :
    afterRemove q p = none ↔ q <+: p := by
  induction q generalizing p with
  | nil => exact absurd rfl path
  | cons s q ih =>
    cases p with
    | nil => simp [afterRemove]
    | cons s' r =>
      rw [List.cons_prefix_cons]
      cases q with
      | nil =>
        cases s with
        | key k =>
          simp only [afterRemove, List.nil_prefix, and_true]
          split <;> simp_all
        | index i =>
          cases s' with
          | key k => simp [afterRemove]
          | index j =>
            simp only [afterRemove, List.nil_prefix, and_true, Step.index.injEq]
            split
            · simp_all
            · split <;> simp_all [eq_comm]
      | cons s'' q =>
        have unfolded : afterRemove (s :: s'' :: q) (s' :: r) =
            if s = s' then (afterRemove (s'' :: q) r).map (s' :: ·) else some (s' :: r) := by
          simp only [afterRemove]
        rw [unfolded, ← ih r (List.cons_ne_nil _ _)]
        split <;> simp_all

/-! ## Keys that stay distinct and admissible -/

/-- Every object has pairwise distinct keys, all of them `good`. -/
def WellKeyed (good : κ → Prop) (t : Tree ι κ α) : Prop :=
  Every (fun s => s.keys.Nodup ∧ ∀ k ∈ s.keys, good k) t

section WellKeyed
variable {good : κ → Prop}

omit [DecidableEq κ] in
theorem wellKeyed_iff (t : Tree ι κ α) :
    WellKeyed good t ↔
      (t.keys.Nodup ∧ ∀ k ∈ t.keys, good k) ∧ ∀ c ∈ t.children, WellKeyed good c :=
  every_iff _ t

omit [DecidableEq κ] in
theorem wellKeyed_leaf (l : ι) (a : α) : WellKeyed good (.leaf l a : Tree ι κ α) :=
  (wellKeyed_iff _).mpr ⟨by simp [keys], by simp [children]⟩

theorem WellKeyed.descend {t c : Tree ι κ α} (ok : WellKeyed good t) (s : Step κ)
    (step : descend s t = .ok c) : WellKeyed good c :=
  ((wellKeyed_iff t).mp ok).2 c (descend_mem s t c step)

theorem WellKeyed.locate {t x : Tree ι κ α} (ok : WellKeyed good t) (p : List (Step κ))
    (found : locate p t = .ok x) : WellKeyed good x :=
  Every.locate ok p found

omit [DecidableEq κ] in
@[simp] theorem wellKeyed_forget (t : Tree ι κ α) : WellKeyed good t.forget ↔ WellKeyed good t := by
  unfold WellKeyed
  rw [every_forget_iff]
  simp only [keys_forget]

/-- A child of a well-keyed node is where some step leads. -/
theorem WellKeyed.step_of_mem {t c : Tree ι κ α} (ok : WellKeyed good t) (member : c ∈ t.children) :
    ∃ s, Tree.descend s t = .ok c := by
  obtain ⟨⟨distinct, _⟩, _⟩ := (wellKeyed_iff t).mp ok
  cases t with
  | leaf l a => simp [children] at member
  | object l ms =>
    simp only [children, List.mem_map] at member
    obtain ⟨m, inside, rfl⟩ := member
    exact ⟨.key m.1, by simp only [Tree.descend, lookup_of_mem ms distinct m inside]⟩
  | array l es =>
    obtain ⟨j, here⟩ := List.mem_iff_getElem?.mp (show c ∈ es from member)
    exact ⟨.index j, by simp only [Tree.descend, here]⟩

/-- Every label of a well-keyed tree is the label at some position. -/
theorem WellKeyed.locate_of_label {t : Tree ι κ α} (ok : WellKeyed good t) (i : ι)
    (inside : i ∈ t.labels) : ∃ p x, Tree.locate p t = .ok x ∧ x.label = i := by
  induction t using children_induction with
  | node t ih =>
    rw [labels_eq, List.mem_cons, List.mem_flatMap] at inside
    rcases inside with rfl | ⟨c, member, deeper⟩
    · exact ⟨[], t, rfl, rfl⟩
    · obtain ⟨s, step⟩ := ok.step_of_mem member
      obtain ⟨p, x, found, label⟩ := ih c member (ok.descend s step) deeper
      exact ⟨s :: p, x, by rw [locate_cons_ok s p t c step]; exact found, label⟩

@[simp] theorem putChild_keys (s : Step κ) (c t : Tree ι κ α) :
    (putChild s c t).keys = t.keys := by
  cases s <;> cases t <;> simp [putChild, keys]

theorem WellKeyed.putChild {t c c' : Tree ι κ α} (ok : WellKeyed good t) (s : Step κ)
    (step : Tree.descend s t = .ok c) (ok' : WellKeyed good c') :
    WellKeyed good (putChild s c' t) := by
  obtain ⟨here, below⟩ := (wellKeyed_iff t).mp ok
  obtain ⟨j, _, _, updated⟩ := descend_position s t c step
  refine (wellKeyed_iff _).mpr ⟨by rwa [putChild_keys], fun d member => ?_⟩
  rw [updated] at member
  rcases List.mem_or_eq_of_mem_set member with old | rfl
  · exact below d old
  · exact ok'

theorem WellKeyed.replace {t x n : Tree ι κ α} (ok : WellKeyed good t) (p : List (Step κ))
    (found : Tree.locate p t = .ok x) (ok' : WellKeyed good n) :
    WellKeyed good (replace p n t) := by
  induction p generalizing t with
  | nil => exact ok'
  | cons s p ih =>
    obtain ⟨c, step, rest⟩ := locate_cons_success s p t x found
    rw [replace_cons_ok _ _ _ _ _ step]
    exact ok.putChild s step (ih (ok.descend s step) rest)

theorem WellKeyed.addChild {t c : Tree ι κ α} (ok : WellKeyed good t) (s : Step κ)
    (room : canAppend s t = true) (name : ∀ k, s = .key k → good k) (ok' : WellKeyed good c) :
    WellKeyed good (addChild s c t) := by
  obtain ⟨⟨distinct, admissible⟩, below⟩ := (wellKeyed_iff t).mp ok
  refine (wellKeyed_iff _).mpr ⟨?_, fun d member => ?_⟩
  · cases s with
    | index i =>
      cases t with
      | leaf l a => exact ⟨distinct, admissible⟩
      | object l ms => exact ⟨distinct, admissible⟩
      | array l es => exact ⟨distinct, admissible⟩
    | key k =>
      cases t with
      | leaf l a => simp [canAppend] at room
      | array l es => simp [canAppend] at room
      | object l ms =>
        simp only [canAppend, Option.isNone_iff_eq_none] at room
        have absent := (lookup_none_iff k ms).mp room
        simp only [Tree.addChild, keys, List.map_append, List.map_cons, List.map_nil]
        refine ⟨List.nodup_append.mpr ⟨distinct, by simp, ?_⟩, fun k' inside => ?_⟩
        · rintro k' inside _ last rfl
          rw [List.mem_singleton] at last
          exact absent (last ▸ inside)
        · rcases List.mem_append.mp inside with old | new
          · exact admissible k' old
          · rw [List.mem_singleton.mp new]
            exact name k rfl
  · rw [addChild_children s c t room] at member
    rcases List.mem_append.mp member with old | new
    · exact below d old
    · rw [List.mem_singleton.mp new]
      exact ok'

theorem eraseKey_sublist {β : Type u} (k : κ) (ms : List (κ × β)) :
    ((eraseKey k ms).map Prod.fst).Sublist (ms.map Prod.fst) := by
  induction ms with
  | nil => exact List.Sublist.slnil
  | cons m rest ih =>
    obtain ⟨k', old⟩ := m
    simp only [eraseKey]
    split
    · exact List.sublist_cons_self _ _
    · exact ih.cons_cons _

theorem WellKeyed.dropChild {t c : Tree ι κ α} (ok : WellKeyed good t) (s : Step κ)
    (step : Tree.descend s t = .ok c) : WellKeyed good (dropChild s t) := by
  obtain ⟨⟨distinct, admissible⟩, below⟩ := (wellKeyed_iff t).mp ok
  obtain ⟨j, _, erased, _⟩ := descend_position s t c step
  refine (wellKeyed_iff _).mpr ⟨?_, fun d member => ?_⟩
  · have fewer : (Tree.dropChild s t).keys.Sublist t.keys := by
      cases s <;> cases t <;> simp [Tree.dropChild, keys, eraseKey_sublist]
    exact ⟨distinct.sublist fewer, fun k inside => admissible k (fewer.subset inside)⟩
  · rw [erased] at member
    exact below d (List.mem_of_mem_eraseIdx member)

omit [DecidableEq κ] in
theorem wellKeyed_create (p : List (Step κ)) (v c : Tree Unit κ α) (made : create p v = .ok c)
    (names : ∀ k, Step.key k ∈ p → good k) (ok : WellKeyed good v) : WellKeyed good c := by
  induction p generalizing c with
  | nil => cases made; exact ok
  | cons s p ih =>
    have later : ∀ k, Step.key k ∈ p → good k := fun k inside =>
      names k (List.mem_cons_of_mem _ inside)
    cases s with
    | key k =>
      rw [create] at made
      cases inner : create p v with
      | error f => simp [inner, Except.map] at made
      | ok d =>
        simp only [inner, Except.map, Except.ok.injEq] at made
        subst made
        refine (wellKeyed_iff _).mpr ⟨by simpa [keys] using names k (by simp), ?_⟩
        simpa [children] using ih d inner later
    | index i =>
      rw [create] at made
      split at made
      · cases inner : create p v with
        | error f => simp [inner, Except.map] at made
        | ok d =>
          simp only [inner, Except.map, Except.ok.injEq] at made
          subst made
          refine (wellKeyed_iff _).mpr ⟨by simp [keys], ?_⟩
          simpa [children] using ih d inner later
      · cases made

theorem wellKeyed_upsert (same : Tree Unit κ α → Tree Unit κ α → Bool) (p : List (Step κ))
    (v t t' : Tree Unit κ α) (success : upsert same p v t = .ok t')
    (names : ∀ k, Step.key k ∈ p → good k) (ok : WellKeyed good v) (ok' : WellKeyed good t) :
    WellKeyed good t' := by
  induction p generalizing t t' with
  | nil =>
    rw [upsert] at success
    split at success
    · cases success; exact ok
    · cases success
  | cons s p ih =>
    have later : ∀ k, Step.key k ∈ p → good k := fun k inside =>
      names k (List.mem_cons_of_mem _ inside)
    rw [upsert] at success
    cases step : Tree.descend s t with
    | ok c =>
      simp only [step] at success
      cases inner : upsert same p v c with
      | error f => simp [inner, Except.map] at success
      | ok c' =>
        simp only [inner, Except.map, Except.ok.injEq] at success
        rw [← success]
        exact ok'.putChild s step (ih c c' inner later (ok'.descend s step))
    | error f =>
      cases f with
      | mismatch => simp [step] at success
      | absent =>
        simp only [step] at success
        split at success
        · next room =>
          cases made : create p v with
          | error f => simp [made, Except.map] at success
          | ok c =>
            simp only [made, Except.map, Except.ok.injEq] at success
            rw [← success]
            exact ok'.addChild s room (fun k shape => names k (by simp [shape]))
              (wellKeyed_create p v c made later ok)
        · cases success

end WellKeyed

/-! ## Heights -/

theorem height_descend_lt (s : Step κ) (t c : Tree ι κ α) (step : descend s t = .ok c) :
    c.height < t.height := height_child_lt t c (descend_mem s t c step)

theorem height_locate_le (p : List (Step κ)) (t x : Tree ι κ α) (found : locate p t = .ok x) :
    p.length + x.height ≤ t.height := by
  induction p generalizing t with
  | nil =>
    cases found
    simp
  | cons s p ih =>
    obtain ⟨c, step, rest⟩ := locate_cons_success s p t x found
    have below := ih c rest
    have down := height_descend_lt s t c step
    rw [List.length_cons]
    omega

theorem height_putChild_le (s : Step κ) (c c' t : Tree ι κ α) (n : Nat)
    (step : descend s t = .ok c) (bound : t.height ≤ n) (bound' : c'.height + 1 ≤ n) :
    (putChild s c' t).height ≤ n := by
  obtain ⟨j, _, _, updated⟩ := descend_position s t c step
  rw [height_le_iff] at bound ⊢
  intro d member
  rw [updated] at member
  rcases List.mem_or_eq_of_mem_set member with old | rfl
  · exact bound d old
  · exact bound'

theorem height_addChild_le (s : Step κ) (c t : Tree ι κ α) (n : Nat)
    (room : canAppend s t = true) (bound : t.height ≤ n) (bound' : c.height + 1 ≤ n) :
    (addChild s c t).height ≤ n := by
  rw [height_le_iff] at bound ⊢
  intro d member
  rw [addChild_children s c t room] at member
  rcases List.mem_append.mp member with old | new
  · exact bound d old
  · rw [List.mem_singleton.mp new]
    exact bound'

theorem height_dropChild_le (s : Step κ) (c t : Tree ι κ α) (step : descend s t = .ok c) :
    (dropChild s t).height ≤ t.height := by
  obtain ⟨j, _, erased, _⟩ := descend_position s t c step
  rw [height_le_iff]
  intro d member
  rw [erased] at member
  exact height_child_lt t d (List.mem_of_mem_eraseIdx member)

theorem height_replace_le (p : List (Step κ)) (n t x : Tree ι κ α) (found : locate p t = .ok x)
    (lower : n.height ≤ x.height) : (replace p n t).height ≤ t.height := by
  induction p generalizing t with
  | nil =>
    cases found
    exact lower
  | cons s p ih =>
    obtain ⟨c, step, rest⟩ := locate_cons_success s p t x found
    rw [replace_cons_ok _ _ _ _ _ step]
    have below := ih c rest
    have down := height_descend_lt s t c step
    exact height_putChild_le s c _ t _ step (Nat.le_refl _) (by omega)

omit [DecidableEq κ] in
theorem height_create_le (p : List (Step κ)) (v c : Tree Unit κ α) (made : create p v = .ok c) :
    c.height ≤ p.length + v.height := by
  induction p generalizing c with
  | nil =>
    cases made
    simp
  | cons s p ih =>
    have wrapped : ∃ d, create p v = .ok d ∧ c.children = [d] := by
      cases s with
      | key k =>
        rw [create] at made
        cases inner : create p v with
        | error f => simp [inner, Except.map] at made
        | ok d =>
          simp only [inner, Except.map, Except.ok.injEq] at made
          exact ⟨d, rfl, by rw [← made]; rfl⟩
      | index i =>
        rw [create] at made
        split at made
        · cases inner : create p v with
          | error f => simp [inner, Except.map] at made
          | ok d =>
            simp only [inner, Except.map, Except.ok.injEq] at made
            exact ⟨d, rfl, by rw [← made]; rfl⟩
        · cases made
    obtain ⟨d, inner, below⟩ := wrapped
    have bound := ih d inner
    rw [height_le_iff, below]
    intro e member
    rw [List.mem_singleton.mp member, List.length_cons]
    omega

theorem height_upsert_le (same : Tree Unit κ α → Tree Unit κ α → Bool) (p : List (Step κ))
    (v t t' : Tree Unit κ α) (n : Nat) (success : upsert same p v t = .ok t')
    (bound : t.height ≤ n) (bound' : p.length + v.height ≤ n) : t'.height ≤ n := by
  induction p generalizing t t' n with
  | nil =>
    rw [upsert] at success
    split at success
    · cases success
      simpa using bound'
    · cases success
  | cons s p ih =>
    rw [List.length_cons] at bound'
    rw [upsert] at success
    cases step : descend s t with
    | ok c =>
      simp only [step] at success
      cases inner : upsert same p v c with
      | error f => simp [inner, Except.map] at success
      | ok c' =>
        simp only [inner, Except.map, Except.ok.injEq] at success
        rw [← success]
        have down := height_descend_lt s t c step
        have below := ih c c' (n - 1) inner (by omega) (by omega)
        exact height_putChild_le s c c' t n step bound (by omega)
    | error f =>
      cases f with
      | mismatch => simp [step] at success
      | absent =>
        simp only [step] at success
        split at success
        · next room =>
          cases made : create p v with
          | error f => simp [made, Except.map] at success
          | ok c =>
            simp only [made, Except.map, Except.ok.injEq] at success
            rw [← success]
            have below := height_create_le p v c made
            exact height_addChild_le s c t n room bound (by omega)
        · cases success

end ConfigManager.Library.Tree
