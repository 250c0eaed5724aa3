import ConfigManager.Library.TreeWrites

/-!
# What a write leaves where it was

A write concerns the nodes at, above and below its position. Nodes elsewhere are
found unchanged after a replacement, after a write that creates containers, and
after a member was dropped.
-/

set_option autoImplicit false

namespace ConfigManager.Library.Tree

universe u v w

variable {ι : Type u} {κ : Type v} {α : Type w} [DecidableEq κ]

/-- Neither position lies at or below the other. -/
def Apart (p q : List (Step κ)) : Prop := ¬p <+: q ∧ ¬q <+: p

omit [DecidableEq κ] in
theorem Apart.symm {p q : List (Step κ)} (apart : Apart p q) : Apart q p := ⟨apart.2, apart.1⟩

omit [DecidableEq κ] in
theorem apart_cons (s : Step κ) (p q : List (Step κ)) :
    Apart (s :: p) (s :: q) ↔ Apart p q := by
  simp [Apart, List.cons_prefix_cons]

/-- A replacement keeps what lies elsewhere. -/
theorem locate_replace_apart (p q : List (Step κ)) (n t x : Tree ι κ α) (apart : Apart p q)
    (here : locate p t = .ok x) : locate p (replace q n t) = .ok x := by
  induction q generalizing t p with
  | nil => exact absurd List.nil_prefix apart.2
  | cons s q ih =>
    cases p with
    | nil => exact absurd List.nil_prefix apart.1
    | cons s' p =>
      obtain ⟨d, step', rest'⟩ := locate_cons_success s' p t x here
      cases step : descend s t with
      | error f =>
        simp only [replace, step]
        exact here
      | ok c =>
        rw [replace_cons_ok _ _ _ _ _ step]
        by_cases equal : s' = s
        · subst equal
          rw [step, Except.ok.injEq] at step'
          subst step'
          rw [locate_cons_ok _ _ _ _ (descend_putChild_self s' t c _ step)]
          exact ih p c ((apart_cons s' p q).mp apart) rest'
        · rw [locate_cons_ok s' p _ d (by rw [descend_putChild_ne s s' t _ equal]; exact step')]
          exact rest'

/-- What is found below an anchor, when only the anchor's own children by other steps
may change. -/
theorem locate_replace_below (p q : List (Step κ)) (s : Step κ) (n t y x : Tree ι κ α)
    (anchor : locate q t = .ok y) (apart : Apart p (q ++ [s]))
    (others : ∀ s' c, s' ≠ s → descend s' y = .ok c → descend s' n = .ok c)
    (here : locate p t = .ok x) : locate p (replace q n t) = .ok x := by
  by_cases below : q <+: p
  · obtain ⟨r, rfl⟩ := below
    rw [locate_append q r t y anchor] at here
    rw [locate_append q r _ n (locate_replace_self q n t y anchor)]
    cases r with
    | nil =>
      rw [List.append_nil] at apart
      exact absurd (List.prefix_append q [s]) apart.1
    | cons s' r =>
      obtain ⟨c, step, rest⟩ := locate_cons_success s' r y x here
      have different : s' ≠ s := by
        rintro rfl
        refine apart.2 ⟨r, ?_⟩
        simp
      rw [locate_cons_ok s' r n c (others s' c different step)]
      exact rest
  · apply locate_replace_apart p q n t x _ here
    exact ⟨fun above => apart.1 (above.trans (List.prefix_append q [s])), below⟩

/-- A write keeps what lies elsewhere. -/
theorem locate_upsert_apart (same : Tree Unit κ α → Tree Unit κ α → Bool) (p q : List (Step κ))
    (v t t' x : Tree Unit κ α) (success : upsert same q v t = .ok t') (apart : Apart p q)
    (here : locate p t = .ok x) : locate p t' = .ok x := by
  cases found : locate q t with
  | ok y =>
    rw [upsert_existing same q v t y found] at success
    split at success
    · cases success
      exact locate_replace_apart p q v t x apart here
    · cases success
  | error f =>
    obtain ⟨q', s, r, y, shape, anchor, stuck⟩ := locate_stuck q t f found
    subst shape
    cases f with
    | mismatch =>
      rw [upsert_mismatch same q' r s v t y anchor stuck] at success
      cases success
    | absent =>
      rw [upsert_creating same q' r s v t y anchor stuck] at success
      split at success
      · next room =>
        cases made : create r v with
        | error g => simp [made, Except.map] at success
        | ok c =>
          simp only [made, Except.map, Except.ok.injEq] at success
          subst success
          by_cases below : q' ++ [s] <+: p
          · -- nothing is found below a step that leads nowhere
            obtain ⟨r', rfl⟩ := below
            rw [List.append_assoc, locate_append q' _ t y anchor, List.singleton_append,
              locate_cons_error s r' y _ stuck] at here
            cases here
          · refine locate_replace_below p q' s _ t y x anchor ⟨fun above => ?_, below⟩ ?_ here
            · have whole : q' ++ s :: r = (q' ++ [s]) ++ r := by simp
              rw [whole] at apart
              exact apart.1 (above.trans (List.prefix_append _ r))
            · exact fun s' d _ step => descend_addChild s s' y c d step
      · cases success

theorem descend_dropKey_ne (k : κ) (s : Step κ) (t c : Tree ι κ α) (different : s ≠ .key k)
    (step : descend s t = .ok c) : descend s (dropChild (.key k) t) = .ok c := by
  cases t with
  | leaf l a => exact step
  | array l es => exact step
  | object l ms =>
    cases s with
    | index i => simp [descend] at step
    | key k' =>
      have names : k' ≠ k := fun same => different (by rw [same])
      simpa only [descend, dropChild, lookup_eraseKey_ne k k' ms names] using step

/-- Dropping a member keeps what lies elsewhere. -/
theorem locate_dropKey_apart (p q : List (Step κ)) (k : κ) (t y x : Tree ι κ α)
    (anchor : locate q t = .ok y) (apart : Apart p (q ++ [.key k])) (here : locate p t = .ok x) :
    locate p (replace q (dropChild (.key k) y) t) = .ok x :=
  locate_replace_below p q (.key k) _ t y x anchor apart
    (fun s c different step => descend_dropKey_ne k s y c different step) here

/-- A dropped member is gone when the keys are distinct. -/
theorem descend_dropKey_self (k : κ) (t c : Tree ι κ α) (distinct : t.keys.Nodup)
    (step : descend (.key k) t = .ok c) : descend (.key k) (dropChild (.key k) t) = .error .absent := by
  cases t with
  | leaf l a => simp [descend] at step
  | array l es => simp [descend] at step
  | object l ms =>
    have none : lookupKey k (eraseKey k ms) = none := by
      rw [lookup_none_iff]
      simp only [keys] at distinct
      clear step
      induction ms with
      | nil => simp [eraseKey]
      | cons m ms ih =>
        obtain ⟨k', d⟩ := m
        simp only [List.map_cons, List.nodup_cons] at distinct
        by_cases equal : k = k'
        · subst equal
          simpa [eraseKey] using distinct.1
        · rw [eraseKey, if_neg equal, List.map_cons, List.mem_cons]
          rintro (same | inside)
          · exact equal same
          · exact ih distinct.2 inside
    simp only [dropChild, descend, none]

/-- After a member was dropped its position leads nowhere. -/
theorem locate_dropKey_self (q : List (Step κ)) (k : κ) (t y c : Tree ι κ α)
    (anchor : locate q t = .ok y) (step : descend (.key k) y = .ok c) (distinct : y.keys.Nodup) :
    locate (q ++ [.key k]) (replace q (dropChild (.key k) y) t) = .error .absent := by
  rw [locate_append q _ _ _ (locate_replace_self q _ t y anchor)]
  exact locate_cons_error _ _ _ _ (descend_dropKey_self k y c distinct step)

end ConfigManager.Library.Tree
