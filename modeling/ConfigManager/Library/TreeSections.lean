import ConfigManager.Library.TreeFrames

/-!
# Members that are grouped into sections

A section is a member of the root that is an object; its own members are the settings.
`assign` gives a setting of a section a value, and makes the section as the last member
when it is missing; `withdraw` takes a setting out. Writing and removing through a
section are these two. `gather` assigns to sections what flat members hold.
-/

set_option autoImplicit false

namespace ConfigManager.Library

universe u v w

section
variable {κ : Type u} {β : Type v} [DecidableEq κ]

/-- Erasing a key filters it out, where keys are distinct. -/
theorem eraseKey_filter (k : κ) (ms : List (κ × β)) (distinct : (ms.map Prod.fst).Nodup) :
    eraseKey k ms = ms.filter fun m => m.1 ≠ k := by
  induction ms with
  | nil => rfl
  | cons m rest ih =>
    obtain ⟨k', old⟩ := m
    rw [List.map_cons, List.nodup_cons] at distinct
    by_cases same : k = k'
    · subst same
      rw [eraseKey, if_pos rfl, List.filter_cons_of_neg (by simp), List.filter_eq_self.mpr]
      intro m inside
      have different : m.1 ≠ k := by
        intro same
        have member := List.mem_map_of_mem (f := Prod.fst) inside
        rw [same] at member
        exact distinct.1 member
      simpa using different
    · rw [eraseKey, if_neg same, ih distinct.2, List.filter_cons_of_pos (by simpa using Ne.symm same)]

theorem lookup_eraseKey_self (k : κ) (ms : List (κ × β)) (distinct : (ms.map Prod.fst).Nodup) :
    lookupKey k (eraseKey k ms) = none := by
  rw [eraseKey_filter k ms distinct, lookup_none_iff]
  intro member
  obtain ⟨m, inside, same⟩ := List.mem_map.mp member
  simpa [same] using (List.mem_filter.mp inside).2

theorem lookup_filter_keys (keep : κ → Bool) (k : κ) (ms : List (κ × β)) (kept : keep k = true) :
    lookupKey k (ms.filter fun m => keep m.1) = lookupKey k ms := by
  induction ms with
  | nil => rfl
  | cons m rest ih =>
    obtain ⟨k', old⟩ := m
    by_cases same : k = k'
    · subst same
      rw [List.filter_cons, if_pos kept, lookup_cons_eq, lookup_cons_eq, if_pos rfl, if_pos rfl]
    · rw [lookup_cons_eq, if_neg same, List.filter_cons]
      split
      · rw [lookup_cons_eq, if_neg same, ih]
      · exact ih

end

namespace Tree

variable {ι : Type u} {κ : Type v} {α : Type w} [DecidableEq κ]

/-! ## One setting -/

/-- An object with this member, in the place of the one it has or as the last. -/
def withMember (name : κ) (value : Tree Unit κ α) : Tree Unit κ α → Tree Unit κ α
  | .object _ ms =>
      if (lookupKey name ms).isSome then .object () (updateKey name value ms)
      else .object () (ms ++ [(name, value)])
  | other => other

def assign (group name : κ) (value : Tree Unit κ α) :
    List (κ × Tree Unit κ α) → List (κ × Tree Unit κ α)
  | [] => [(group, .object () [(name, value)])]
  | (key, content) :: rest =>
      if group = key then (key, withMember name value content) :: rest
      else (key, content) :: assign group name value rest

def withdraw (group name : κ) : List (κ × Tree ι κ α) → List (κ × Tree ι κ α)
  | [] => []
  | (key, content) :: rest =>
      if group = key then (key, dropChild (.key name) content) :: rest
      else (key, content) :: withdraw group name rest

/-- Where the section is there it is an object, and what the setting holds may be replaced. -/
def Welcomes (same : Tree Unit κ α → Tree Unit κ α → Bool) (group name : κ) (value : Tree Unit κ α)
    (ms : List (κ × Tree Unit κ α)) : Prop :=
  ∀ content, lookupKey group ms = some content →
    ∃ ds, content = .object () ds ∧ ∀ old, lookupKey name ds = some old → same old value = true

theorem lookup_withMember (name name' : κ) (value : Tree Unit κ α) (ds : List (κ × Tree Unit κ α)) :
    ∃ ds', withMember name value (.object () ds) = .object () ds' ∧
      lookupKey name' ds' = if name' = name then some value else lookupKey name' ds := by
  cases present : lookupKey name ds with
  | some old =>
    refine ⟨updateKey name value ds, by simp [withMember, present], ?_⟩
    by_cases same : name' = name
    · rw [if_pos same, same, lookup_updateKey_self name value old ds present]
    · rw [if_neg same, lookup_updateKey_ne name name' value ds same]
  | none =>
    refine ⟨ds ++ [(name, value)], by simp [withMember, present], ?_⟩
    rw [lookup_append, lookup_cons_eq]
    by_cases same : name' = name
    · rw [if_pos same, if_pos same, same, present, Option.none_or]
    · rw [if_neg same, if_neg same, lookupKey, Option.or_none]

theorem lookup_assign_ne (group name key : κ) (value : Tree Unit κ α) (ms : List (κ × Tree Unit κ α))
    (different : key ≠ group) : lookupKey key (assign group name value ms) = lookupKey key ms := by
  induction ms with
  | nil => rw [assign, lookup_cons_eq, if_neg different]
  | cons m rest ih =>
    obtain ⟨k, old⟩ := m
    rw [assign]
    split
    · next same =>
      rw [← same, lookup_cons_eq, lookup_cons_eq, if_neg different, if_neg different]
    · rw [lookup_cons_eq, lookup_cons_eq, ih]

theorem lookup_assign_self (group name : κ) (value : Tree Unit κ α) (ms : List (κ × Tree Unit κ α)) :
    lookupKey group (assign group name value ms) =
      some (withMember name value ((lookupKey group ms).getD (.object () []))) := by
  induction ms with
  | nil => simp [assign, lookupKey, withMember]
  | cons m rest ih =>
    obtain ⟨k, old⟩ := m
    rw [assign, lookup_cons_eq]
    by_cases same : group = k
    · rw [if_pos same, if_pos same, lookup_cons_eq, if_pos same, Option.getD_some]
    · rw [if_neg same, if_neg same, lookup_cons_eq, if_neg same, ih]

theorem assign_present (group name : κ) (value content : Tree Unit κ α)
    (ms : List (κ × Tree Unit κ α)) (found : lookupKey group ms = some content) :
    assign group name value ms = updateKey group (withMember name value content) ms := by
  induction ms with
  | nil => cases found
  | cons m rest ih =>
    obtain ⟨k, old⟩ := m
    rw [lookup_cons_eq] at found
    by_cases same : group = k
    · rw [if_pos same, Option.some.injEq] at found
      rw [assign, updateKey, if_pos same, if_pos same, found]
    · rw [if_neg same] at found
      rw [assign, updateKey, if_neg same, if_neg same, ih found]

theorem assign_absent (group name : κ) (value : Tree Unit κ α) (ms : List (κ × Tree Unit κ α))
    (missing : lookupKey group ms = none) :
    assign group name value ms = ms ++ [(group, .object () [(name, value)])] := by
  induction ms with
  | nil => rfl
  | cons m rest ih =>
    obtain ⟨k, old⟩ := m
    rw [lookup_cons_eq] at missing
    by_cases same : group = k
    · simp [same] at missing
    · rw [if_neg same] at missing
      rw [assign, if_neg same, ih missing, List.cons_append]

theorem withdraw_present (group name : κ) (content : Tree ι κ α) (ms : List (κ × Tree ι κ α))
    (found : lookupKey group ms = some content) :
    withdraw group name ms = updateKey group (dropChild (.key name) content) ms := by
  induction ms with
  | nil => cases found
  | cons m rest ih =>
    obtain ⟨k, old⟩ := m
    rw [lookup_cons_eq] at found
    by_cases same : group = k
    · rw [if_pos same, Option.some.injEq] at found
      rw [withdraw, updateKey, if_pos same, if_pos same, found]
    · rw [if_neg same] at found
      rw [withdraw, updateKey, if_neg same, if_neg same, ih found]

theorem eraseKey_assign (group name key : κ) (value : Tree Unit κ α) (ms : List (κ × Tree Unit κ α))
    (different : key ≠ group) :
    eraseKey key (assign group name value ms) = assign group name value (eraseKey key ms) := by
  induction ms with
  | nil => simp [assign, eraseKey, different]
  | cons m rest ih =>
    obtain ⟨k, old⟩ := m
    by_cases same : group = k
    · subst same
      simp [assign, eraseKey, different]
    · by_cases erased : key = k
      · simp [assign, eraseKey, same, erased]
      · simp [assign, eraseKey, same, erased, ih]

/-- Assigning one setting changes nothing for another. -/
theorem welcomes_assign (same : Tree Unit κ α → Tree Unit κ α → Bool) (group name group' name' : κ)
    (value value' : Tree Unit κ α) (ms : List (κ × Tree Unit κ α))
    (welcome : Welcomes same group name value ms) (different : (group', name') ≠ (group, name)) :
    Welcomes same group' name' value' (assign group name value ms) ↔
      Welcomes same group' name' value' ms := by
  by_cases equal : group' = group
  · subst equal
    have other : name' ≠ name := fun here => different (by rw [here])
    have looks : ∀ ds, ∃ ds', withMember name value (.object () ds) = .object () ds' ∧
        lookupKey name' ds' = lookupKey name' ds := fun ds => by
      obtain ⟨ds', made, looked⟩ := lookup_withMember name name' value ds
      exact ⟨ds', made, by rw [looked, if_neg other]⟩
    unfold Welcomes
    rw [lookup_assign_self]
    cases present : lookupKey group' ms with
    | none =>
      obtain ⟨ds', made, looked⟩ := looks []
      refine ⟨fun _ content found => (by cases found), fun _ content found => ?_⟩
      rw [Option.getD_none, made, Option.some.injEq] at found
      refine ⟨ds', found.symm, fun old here => ?_⟩
      rw [looked] at here
      cases here
    | some before =>
      obtain ⟨ds, rfl, _⟩ := welcome before present
      obtain ⟨ds', made, looked⟩ := looks ds
      rw [Option.getD_some, made]
      constructor
      · intro all content found
        obtain ⟨es, shape, fine⟩ := all _ rfl
        rw [Tree.object.injEq] at shape
        rw [Option.some.injEq] at found
        refine ⟨ds, found.symm, fun old here => fine old ?_⟩
        rw [← shape.2, looked]
        exact here
      · intro all content found
        obtain ⟨es, shape, fine⟩ := all _ rfl
        rw [Tree.object.injEq] at shape
        rw [Option.some.injEq] at found
        refine ⟨ds', found.symm, fun old here => fine old ?_⟩
        rw [← shape.2, ← looked]
        exact here
  · unfold Welcomes
    rw [lookup_assign_ne group name group' value ms equal]

theorem welcomes_eraseKey (same : Tree Unit κ α → Tree Unit κ α → Bool) (group name key : κ)
    (value : Tree Unit κ α) (ms : List (κ × Tree Unit κ α)) (different : group ≠ key) :
    Welcomes same group name value (eraseKey key ms) ↔ Welcomes same group name value ms := by
  unfold Welcomes
  rw [lookup_eraseKey_ne key group ms different]

/-! ## Writing, reading and removing a setting -/

theorem upsert_assign (same : Tree Unit κ α → Tree Unit κ α → Bool) (group name : κ)
    (value : Tree Unit κ α) (ms : List (κ × Tree Unit κ α))
    (welcome : Welcomes same group name value ms) :
    upsert same [.key group, .key name] value (.object () ms) =
      .ok (.object () (assign group name value ms)) := by
  cases found : lookupKey group ms with
  | none =>
    have stuck : descend (.key group) (.object () ms) =
        (.error .absent : Except Fault (Tree Unit κ α)) := by
      simp only [descend, found]
    have space : canAppend (.key group) (.object () ms : Tree Unit κ α) = true := by
      simp only [canAppend, found, Option.isNone_none]
    rw [upsert, stuck]
    simp only [space, if_true]
    rw [assign_absent group name value ms found]
    rfl
  | some content =>
    have step : descend (.key group) (.object () ms) = .ok content := by
      simp only [descend, found]
    obtain ⟨ds, rfl, replaces⟩ := welcome content found
    have inner : upsert same [.key name] value (.object () ds) =
        .ok (withMember name value (.object () ds)) := by
      cases present : lookupKey name ds with
      | none =>
        have space : canAppend (.key name) (.object () ds : Tree Unit κ α) = true := by
          simp only [canAppend, present, Option.isNone_none]
        rw [upsert, descend_absent_of_canAppend _ _ space]
        simp [space, create, withMember, present, addChild, Except.map]
      | some old =>
        have down : descend (.key name) (.object () ds) = .ok old := by
          simp only [descend, present]
        rw [upsert, down]
        simp [upsert, replaces old present, withMember, present, putChild, Except.map]
    rw [upsert, step]
    simp only [inner, Except.map, putChild]
    rw [assign_present group name value _ ms found]

theorem upsert_refused (same : Tree Unit κ α → Tree Unit κ α → Bool) (group name : κ)
    (value : Tree Unit κ α) (ms : List (κ × Tree Unit κ α))
    (unwelcome : ¬ Welcomes same group name value ms) :
    ∃ f, upsert same [.key group, .key name] value (.object () ms) = .error f := by
  unfold Welcomes at unwelcome
  rw [not_forall] at unwelcome
  obtain ⟨content, unwelcome⟩ := unwelcome
  rw [Classical.not_imp] at unwelcome
  obtain ⟨found, refuses⟩ := unwelcome
  have step : descend (.key group) (.object () ms) = .ok content := by
    simp only [descend, found]
  have inner : ∃ f, upsert same [.key name] value content = .error f := by
    cases content with
    | leaf l a => exact ⟨.mismatch, rfl⟩
    | array l es => exact ⟨.mismatch, rfl⟩
    | object l ds =>
      cases present : lookupKey name ds with
      | none =>
        refine absurd ⟨ds, rfl, fun old here => ?_⟩ refuses
        rw [present] at here
        cases here
      | some old =>
        have down : descend (.key name) (.object l ds) = .ok old := by
          simp only [descend, present]
        have differs : same old value = false := by
          rw [Bool.eq_false_iff]
          refine fun fine => refuses ⟨ds, rfl, fun old' here => ?_⟩
          rw [present, Option.some.injEq] at here
          exact here ▸ fine
        refine ⟨.mismatch, ?_⟩
        rw [upsert, down]
        simp [upsert, differs, Except.map]
  obtain ⟨f, refused⟩ := inner
  refine ⟨f, ?_⟩
  rw [upsert, step]
  simp only [refused, Except.map]

theorem locate_setting (group name : κ) (l : ι) (ms : List (κ × Tree ι κ α)) (v : Tree ι κ α) :
    locate [.key group, .key name] (.object l ms) = .ok v ↔
      ∃ l' ds, lookupKey group ms = some (.object l' ds) ∧ lookupKey name ds = some v := by
  cases found : lookupKey group ms with
  | none => simp [locate, descend, found]
  | some content =>
    cases content with
    | leaf l' a => simp [locate, descend, found]
    | array l' es => simp [locate, descend, found]
    | object l' ds =>
      cases present : lookupKey name ds with
      | none => simp [locate, descend, found, present]
      | some w => simp [locate, descend, found, present]

/-- A setting is found where it was assigned. -/
theorem locate_assign (same : Tree Unit κ α → Tree Unit κ α → Bool) (group name : κ)
    (value : Tree Unit κ α) (ms : List (κ × Tree Unit κ α))
    (welcome : Welcomes same group name value ms) :
    locate [.key group, .key name] (.object () (assign group name value ms)) = .ok value := by
  rw [locate_setting, lookup_assign_self]
  have whole : ∃ ds, (lookupKey group ms).getD (.object () []) = .object () ds := by
    cases found : lookupKey group ms with
    | none => exact ⟨[], rfl⟩
    | some content =>
      obtain ⟨ds, shape, _⟩ := welcome content found
      exact ⟨ds, shape⟩
  obtain ⟨ds, shape⟩ := whole
  obtain ⟨ds', made, looked⟩ := lookup_withMember name name value ds
  rw [shape, made]
  exact ⟨(), ds', rfl, by rw [looked, if_pos rfl]⟩

/-- Assigning a setting keeps what lies apart from it. -/
theorem locate_assign_apart (same : Tree Unit κ α → Tree Unit κ α → Bool) (group name : κ)
    (value x : Tree Unit κ α) (ms : List (κ × Tree Unit κ α))
    (welcome : Welcomes same group name value ms) (p : List (Step κ))
    (apart : Apart p [.key group, .key name]) (found : locate p (.object () ms) = .ok x) :
    locate p (.object () (assign group name value ms)) = .ok x :=
  locate_upsert_apart same p _ value _ _ x (upsert_assign same group name value ms welcome) apart found

/-- It brings no other setting. -/
theorem locate_assign_other (group name group' name' : κ) (value v : Tree Unit κ α)
    (ms : List (κ × Tree Unit κ α)) (different : (group', name') ≠ (group, name))
    (found : locate [.key group', .key name'] (.object () (assign group name value ms)) = .ok v) :
    locate [.key group', .key name'] (.object () ms) = .ok v := by
  rw [locate_setting] at found ⊢
  obtain ⟨l, ds, looked, here⟩ := found
  by_cases equal : group' = group
  · subst equal
    have other : name' ≠ name := fun here => different (by rw [here])
    rw [lookup_assign_self, Option.some.injEq] at looked
    cases present : lookupKey group' ms with
    | none =>
      obtain ⟨ds', made, looked'⟩ := lookup_withMember name name' value []
      rw [present, Option.getD_none, made, Tree.object.injEq] at looked
      rw [← looked.2, looked', if_neg other] at here
      cases here
    | some content =>
      rw [present, Option.getD_some] at looked
      cases content with
      | leaf l' a => cases looked
      | array l' es => cases looked
      | object l' es =>
        obtain ⟨ds', made, looked'⟩ := lookup_withMember name name' value es
        cases l'
        rw [made, Tree.object.injEq] at looked
        rw [← looked.2, looked', if_neg other] at here
        exact ⟨(), es, rfl, here⟩
  · rw [lookup_assign_ne group name group' value ms equal] at looked
    exact ⟨l, ds, looked, here⟩

omit [DecidableEq κ] in
theorem heads_apart (key key' : κ) (p q : List (Step κ)) (different : key' ≠ key) :
    Apart (Step.key key' :: p) (.key key :: q) := by
  unfold Apart
  simp only [List.cons_prefix_cons, Step.key.injEq]
  exact ⟨fun same => different same.1, fun same => different same.1.symm⟩

omit [DecidableEq κ] in
theorem settings_apart (group name group' name' : κ) (different : (group', name') ≠ (group, name)) :
    Apart [Step.key group', .key name'] [.key group, .key name] := by
  unfold Apart
  simp only [List.cons_prefix_cons, List.prefix_rfl, and_true, Step.key.injEq]
  exact ⟨fun same => different (by rw [same.1, same.2]), fun same => different (by rw [same.1, same.2])⟩

theorem remove_setting (group name : κ) (l : ι) (ms : List (κ × Tree ι κ α)) (value : Tree ι κ α)
    (found : locate [.key group, .key name] (.object l ms) = .ok value) :
    remove [.key group, .key name] (.object l ms) = .ok (.object l (withdraw group name ms)) := by
  obtain ⟨l', ds, looked, here⟩ := (locate_setting group name l ms value).mp found
  rw [withdraw_present group name _ ms looked]
  simp [remove, descend, looked, here, Except.map, putChild]

theorem lookup_withdraw_ne (group name key : κ) (ms : List (κ × Tree ι κ α)) (different : key ≠ group) :
    lookupKey key (withdraw group name ms) = lookupKey key ms := by
  induction ms with
  | nil => rfl
  | cons m rest ih =>
    obtain ⟨k, old⟩ := m
    rw [withdraw]
    split
    · next same =>
      rw [← same, lookup_cons_eq, lookup_cons_eq, if_neg different, if_neg different]
    · rw [lookup_cons_eq, lookup_cons_eq, ih]

/-- Taking a setting out keeps what lies apart from it. -/
theorem locate_withdraw_apart (group name : κ) (l : ι) (ms : List (κ × Tree ι κ α))
    (value x : Tree ι κ α) (here : locate [.key group, .key name] (.object l ms) = .ok value)
    (p : List (Step κ)) (apart : Apart p [.key group, .key name])
    (found : locate p (.object l ms) = .ok x) :
    locate p (.object l (withdraw group name ms)) = .ok x := by
  obtain ⟨content, anchor, step⟩ := locate_append_success [.key group] [.key name] _ _ here
  obtain ⟨c, step, _⟩ := locate_cons_success (.key name) [] content value step
  have removed := remove_resolved [.key group] (.key name) (.object l ms) content c anchor step
  rw [List.singleton_append, remove_setting group name l ms value here, Except.ok.injEq] at removed
  rw [removed]
  exact locate_dropKey_apart p [.key group] name _ content x anchor apart found

theorem locate_withdraw_other (group name group' name' : κ) (l : ι) (ms : List (κ × Tree ι κ α))
    (value v : Tree ι κ α) (here : locate [.key group, .key name] (.object l ms) = .ok value)
    (different : (group', name') ≠ (group, name))
    (found : locate [.key group', .key name'] (.object l (withdraw group name ms)) = .ok v) :
    locate [.key group', .key name'] (.object l ms) = .ok v := by
  obtain ⟨l₁, ds, looked, _⟩ := (locate_setting group name l ms value).mp here
  rw [withdraw_present group name _ ms looked] at found
  rw [locate_setting] at found ⊢
  obtain ⟨l₂, es, looked', found⟩ := found
  by_cases equal : group' = group
  · subst equal
    have other : name' ≠ name := fun here => different (by rw [here])
    rw [lookup_updateKey_self group' _ _ ms looked, dropChild, Option.some.injEq,
      Tree.object.injEq] at looked'
    rw [← looked'.2, lookup_eraseKey_ne name name' ds other] at found
    exact ⟨l₁, ds, looked, found⟩
  · rw [lookup_updateKey_ne group group' _ ms equal] at looked'
    exact ⟨l₂, es, looked', found⟩

theorem remove_member (key : κ) (l : ι) (ms : List (κ × Tree ι κ α)) (value : Tree ι κ α)
    (found : lookupKey key ms = some value) :
    remove [.key key] (.object l ms) = .ok (.object l (eraseKey key ms)) := by
  simp [remove, descend, found, Except.map, dropChild]

/-! ## Many settings -/

/-- The section and the name that a flat member moves to. -/
structure Setting (κ : Type v) where
  key : κ
  group : κ
  name : κ

/-- The members once the settings were assigned what `flat` holds under their keys. -/
def gather (flat : List (κ × Tree Unit κ α)) :
    List (Setting κ) → List (κ × Tree Unit κ α) → List (κ × Tree Unit κ α)
  | [], ms => ms
  | s :: settings, ms =>
      match lookupKey s.key flat with
      | some value => gather flat settings (assign s.group s.name value ms)
      | none => gather flat settings ms

theorem gather_congr (flat flat' : List (κ × Tree Unit κ α)) (settings : List (Setting κ))
    (ms : List (κ × Tree Unit κ α))
    (same : ∀ s ∈ settings, lookupKey s.key flat' = lookupKey s.key flat) :
    gather flat' settings ms = gather flat settings ms := by
  induction settings generalizing ms with
  | nil => rfl
  | cons s settings ih =>
    have later := fun s inside => same s (List.mem_cons_of_mem _ inside)
    rw [gather, gather, same s List.mem_cons_self]
    cases lookupKey s.key flat with
    | none => exact ih ms later
    | some value => exact ih _ later

theorem gather_eraseKey (flat : List (κ × Tree Unit κ α)) (settings : List (Setting κ))
    (ms : List (κ × Tree Unit κ α)) (key : κ) (apart : ∀ s ∈ settings, key ≠ s.group) :
    gather flat settings (eraseKey key ms) = eraseKey key (gather flat settings ms) := by
  induction settings generalizing ms with
  | nil => rfl
  | cons s settings ih =>
    obtain ⟨here, later⟩ := List.forall_mem_cons.mp apart
    rw [gather, gather]
    cases lookupKey s.key flat with
    | none => exact ih ms later
    | some value =>
      rw [← ih _ later, eraseKey_assign s.group s.name key value ms here]

theorem lookup_gather (flat : List (κ × Tree Unit κ α)) (settings : List (Setting κ))
    (ms : List (κ × Tree Unit κ α)) (key : κ) (apart : ∀ s ∈ settings, key ≠ s.group) :
    lookupKey key (gather flat settings ms) = lookupKey key ms := by
  induction settings generalizing ms with
  | nil => rfl
  | cons s settings ih =>
    obtain ⟨here, later⟩ := List.forall_mem_cons.mp apart
    rw [gather]
    cases lookupKey s.key flat with
    | none => exact ih ms later
    | some value => rw [ih _ later, lookup_assign_ne s.group s.name key value ms here]

/-- The sections accept what the flat members hold. -/
def WelcomesAll (same : Tree Unit κ α → Tree Unit κ α → Bool) (flat : List (κ × Tree Unit κ α))
    (settings : List (Setting κ)) (ms : List (κ × Tree Unit κ α)) : Prop :=
  ∀ s ∈ settings, ∀ v, lookupKey s.key flat = some v → Welcomes same s.group s.name v ms

theorem WelcomesAll.later {same : Tree Unit κ α → Tree Unit κ α → Bool}
    {flat : List (κ × Tree Unit κ α)} {first : Setting κ} {settings : List (Setting κ)}
    {ms : List (κ × Tree Unit κ α)} (welcome : WelcomesAll same flat (first :: settings) ms)
    (places : ((first :: settings).map fun s => (s.group, s.name)).Nodup) (value : Tree Unit κ α)
    (held : lookupKey first.key flat = some value) :
    WelcomesAll same flat settings (assign first.group first.name value ms) := by
  rw [List.map_cons, List.nodup_cons] at places
  intro s inside v found
  have elsewhere : (s.group, s.name) ≠ (first.group, first.name) := fun here =>
    places.1 (here ▸ List.mem_map_of_mem (f := fun s => (s.group, s.name)) inside)
  exact (welcomes_assign same first.group first.name s.group s.name value v ms
    (welcome first List.mem_cons_self value held) elsewhere).mpr
    (welcome s (List.mem_cons_of_mem first inside) v found)

section
variable (same : Tree Unit κ α → Tree Unit κ α → Bool) (flat : List (κ × Tree Unit κ α))
  (settings : List (Setting κ)) (ms : List (κ × Tree Unit κ α))
  (places : (settings.map fun s => (s.group, s.name)).Nodup)
  (welcome : WelcomesAll same flat settings ms)
include places welcome

theorem locate_gather_apart (p : List (Step κ)) (x : Tree Unit κ α)
    (apart : ∀ s ∈ settings, Apart p [.key s.group, .key s.name])
    (found : locate p (.object () ms) = .ok x) :
    locate p (.object () (gather flat settings ms)) = .ok x := by
  induction settings generalizing ms with
  | nil => exact found
  | cons s settings ih =>
    obtain ⟨here, later⟩ := List.forall_mem_cons.mp apart
    rw [gather]
    cases held : lookupKey s.key flat with
    | none =>
      exact ih ms (List.nodup_cons.mp places).2
        (fun s' inside => welcome s' (List.mem_cons_of_mem s inside)) later found
    | some value =>
      exact ih _ (List.nodup_cons.mp places).2 (welcome.later places value held) later
        (locate_assign_apart same s.group s.name value x ms (welcome s List.mem_cons_self value held) p
          here found)

theorem welcomes_gather (group name : κ) (value : Tree Unit κ α)
    (fresh : ∀ s ∈ settings, (group, name) ≠ (s.group, s.name)) :
    Welcomes same group name value (gather flat settings ms) ↔ Welcomes same group name value ms := by
  induction settings generalizing ms with
  | nil => rfl
  | cons s settings ih =>
    obtain ⟨here, later⟩ := List.forall_mem_cons.mp fresh
    have rest := (List.nodup_cons.mp places).2
    rw [gather]
    cases held : lookupKey s.key flat with
    | none => exact ih ms rest (fun s' inside => welcome s' (List.mem_cons_of_mem s inside)) later
    | some v =>
      rw [ih _ rest (welcome.later places v held) later]
      exact welcomes_assign same s.group s.name group name v value ms
        (welcome s List.mem_cons_self v held) here

/-- Every setting that was taken over is found in its section. -/
theorem locate_gather (s : Setting κ) (inside : s ∈ settings) (v : Tree Unit κ α)
    (found : lookupKey s.key flat = some v) :
    locate [.key s.group, .key s.name] (.object () (gather flat settings ms)) = .ok v := by
  induction settings generalizing ms with
  | nil => cases inside
  | cons first settings ih =>
    have rest := List.nodup_cons.mp places
    rw [gather]
    rcases List.mem_cons.mp inside with equal | member
    · subst equal
      rw [found]
      refine locate_gather_apart same flat settings _ rest.2 (welcome.later places v found) _ v
        (fun s' member => settings_apart _ _ _ _ fun here => ?_)
        (locate_assign same s.group s.name v ms (welcome s List.mem_cons_self v found))
      have member' := List.mem_map_of_mem (f := fun s => (s.group, s.name)) member
      rw [← here] at member'
      exact rest.1 member'
    · cases held : lookupKey first.key flat with
      | none => exact ih ms rest.2 (fun s' inside => welcome s' (List.mem_cons_of_mem first inside)) member
      | some value => exact ih _ rest.2 (welcome.later places value held) member

end

theorem assign_nodup (group name : κ) (value : Tree Unit κ α) (ms : List (κ × Tree Unit κ α))
    (distinct : (ms.map Prod.fst).Nodup) : ((assign group name value ms).map Prod.fst).Nodup := by
  cases found : lookupKey group ms with
  | some content => rwa [assign_present group name value content ms found, updateKey_keys]
  | none =>
    have fresh := (lookup_none_iff group ms).mp found
    rw [assign_absent group name value ms found, List.map_append, List.map_singleton]
    refine List.nodup_append.mpr ⟨distinct, List.nodup_singleton _, fun key inside key' last same => ?_⟩
    have equal : key = group := same.trans (List.mem_singleton.mp last)
    exact fresh (equal ▸ inside)

theorem gather_nodup (flat : List (κ × Tree Unit κ α)) (settings : List (Setting κ))
    (ms : List (κ × Tree Unit κ α)) (distinct : (ms.map Prod.fst).Nodup) :
    ((gather flat settings ms).map Prod.fst).Nodup := by
  induction settings generalizing ms with
  | nil => exact distinct
  | cons s settings ih =>
    rw [gather]
    cases lookupKey s.key flat with
    | none => exact ih ms distinct
    | some value => exact ih _ (assign_nodup s.group s.name value ms distinct)

end Tree

end ConfigManager.Library
