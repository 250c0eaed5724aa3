import ConfigManager.Refinement.CallFrames
import ConfigManager.Refinement.VolumeLookups

/-!
# What the calls change on a volume

A run of calls changes the places that it is for; elsewhere directories and
files may appear, but nothing disappears and no link is made.
-/

set_option autoImplicit false

namespace ConfigManager.Refinement
open Library Source Reference

/-- From `v` to `w` only `changed` places lost what they had, and links were only lost. -/
structure Spares (changed : Location → Prop) (v w : Volume) : Prop where
  current : w.current = v.current
  inspection : w.inspection = v.inspection
  outside : ∀ place, ¬ changed place →
    w.node place = v.node place ∨ v.node place = none ∧ w.links place = none
  links : ∀ place, w.links place = v.links place ∨ w.links place = none

section
variable {changed : Location → Prop} {v w u : Volume}

theorem Spares.refl (changed : Location → Prop) (v : Volume) : Spares changed v v :=
  ⟨rfl, rfl, fun _ _ => .inl rfl, fun _ => .inl rfl⟩

theorem no_node_no_link {place : Location} (empty : v.node place = none) : v.links place = none :=
  links_eq_none (by simp [empty])

theorem Spares.trans (first : Spares changed v w) (last : Spares changed w u) :
    Spares changed v u := by
  refine ⟨last.current.trans first.current, last.inspection.trans first.inspection,
    fun place untouched => ?_, fun place => ?_⟩
  · rcases last.outside place untouched with same | ⟨empty, plain⟩
    · rcases first.outside place untouched with same' | ⟨empty, plain⟩
      · exact .inl (same.trans same')
      · refine .inr ⟨empty, ?_⟩
        rw [Volume.links, same]
        exact plain
    · rcases first.outside place untouched with same' | ⟨empty', _⟩
      · exact .inr ⟨same' ▸ empty, plain⟩
      · exact .inr ⟨empty', plain⟩
  · rcases last.links place with same | gone
    · rw [same]
      exact first.links place
    · exact .inr gone

theorem Spares.weaken {wider : Location → Prop} (spares : Spares changed v w)
    (inside : ∀ place, changed place → wider place) : Spares wider v w :=
  ⟨spares.current, spares.inspection,
    fun place untouched => spares.outside place fun here => untouched (inside place here),
    spares.links⟩

/-- A place that was empty need not be counted. -/
theorem Spares.narrow {place : Location}
    (spares : Spares (fun other => changed other ∨ other = place) v w)
    (allowed : changed place ∨ v.node place = none) : Spares changed v w := by
  refine ⟨spares.current, spares.inspection, fun other untouched => ?_, spares.links⟩
  by_cases here : other = place
  · subst here
    have empty := allowed.resolve_left untouched
    refine .inr ⟨empty, ?_⟩
    rcases spares.links other with same | gone
    · rw [same, no_node_no_link empty]
    · exact gone
  · exact spares.outside other fun either => either.elim untouched here

/-- What was empty and is not a place of its own was empty from the start. -/
theorem Spares.empty_before (spares : Spares changed v w) {place : Location}
    (empty : w.node place = none) : changed place ∨ v.node place = none := by
  by_cases untouched : changed place
  · exact .inl untouched
  · rcases spares.outside place untouched with same | ⟨before, _⟩
    · exact .inr (same ▸ empty)
    · exact .inr before

/-- Paths that follow no changed link lead where they led. -/
theorem Spares.same (spares : Spares changed v w) (path : FsPath)
    (clear : ∀ link, Passes v.links (wayOf v path) link → ¬ changed link) :
    SameOn v.links w.links (wayOf v path) := by
  constructor
  · intro link passes
    rcases spares.outside link (clear link passes) with same | ⟨empty, _⟩
    · rw [Volume.links, same]
      rfl
    · exact absurd (no_node_no_link empty) passes.1
  · intro place plain
    rcases spares.links place with same | gone
    · exact same.trans plain
    · exact gone

theorem Spares.way (spares : Spares changed v w) (path : FsPath) : wayOf w path = wayOf v path := by
  rw [wayOf, wayOf, Volume.start, Volume.start, spares.current]

theorem Spares.slot (spares : Spares changed v w) {path : FsPath} {place : Location}
    (clear : ∀ link, Passes v.links (wayOf v (parentOrCurrent path)) link → ¬ changed link) :
    SlotAt w path place ↔ SlotAt v path place := by
  have same := spares.same (parentOrCurrent path) clear
  constructor
  · rintro ⟨named, directory, settles, here⟩
    rw [spares.way] at settles
    exact ⟨named, directory, (same.settles directory).mp settles, here⟩
  · rintro ⟨named, directory, settles, here⟩
    refine ⟨named, directory, ?_, here⟩
    rw [spares.way]
    exact (same.settles directory).mpr settles

end

/-! ## Lookups -/

section
variable {changed : Location → Prop} {v w : Volume} (spares : Spares changed v w)
  (solid : ∀ place, changed place → v.node place ≠ some .directory)
include spares solid

theorem Spares.lookupLoop (follow follow' : Location → List Bytes → Except Errno Location)
    (found : Location) (kept : ¬ changed found)
    (follows : ∀ place elements, follow place elements = .ok found →
      (∀ link, Passes v.links (place, hopsOf elements) link → ¬ changed link) →
      follow' place elements = .ok found)
    (elements : List Bytes) (place : Location)
    (clear : ∀ link, Passes v.links (place, hopsOf elements) link → ¬ changed link)
    (ran : v.lookupLoop follow place elements = .ok found) :
    w.lookupLoop follow' place elements = .ok found := by
  have same : ∀ place node, v.node place = some node → ¬ changed place → w.node place = some node := by
    intro place node here untouched
    rcases spares.outside place untouched with same | ⟨empty, _⟩
    · rw [same, here]
    · rw [empty] at here
      cases here
  induction elements generalizing place with
  | nil =>
    rw [Volume.lookupLoop] at ran ⊢
    split at ran
    · next present =>
      cases ran
      obtain ⟨node, here⟩ := Option.isSome_iff_exists.mp present
      rw [same found node here kept]
      rfl
    · cases ran
  | cons element rest ih =>
    rw [Volume.lookupLoop] at ran ⊢
    split at ran
    · next skips =>
      rw [hopsOf_cons_none skips] at clear
      exact ih place clear ran
    · next hops =>
      exact ih _ (fun link passes => clear link (passes.head (way_up hops rest))) ran
    · next name hops =>
      split at ran
      · cases ran
      · next here =>
        have onward := ih _ (fun link passes => clear link
          (passes.head (way_down hops rest (links_eq_none (by simp [here]))))) ran
        rw [same _ _ here fun touched => solid _ touched here]
        exact onward
      · next node here =>
        split at ran
        · next last =>
          cases ran
          rw [same _ _ here kept]
          simp only [if_pos last]
        · cases ran
      · next target here =>
        have linked : v.links (place ++ [name]) ≠ none := by simp [links_eq_some here]
        have passed : Passes v.links (place, hopsOf (element :: rest)) (place ++ [name]) :=
          ⟨linked, place, name, hopsOf rest, by rw [hopsOf_cons_some hops]; exact .refl, rfl⟩
        rw [same _ _ here (clear _ passed)]
        exact follows _ _ ran fun link passes =>
          clear link (passes.head (way_link hops rest here))

theorem Spares.lookup (links : Nat) (elements : List Bytes) (place found : Location)
    (kept : ¬ changed found)
    (clear : ∀ link, Passes v.links (place, hopsOf elements) link → ¬ changed link)
    (ran : v.lookup links place elements = .ok found) :
    w.lookup links place elements = .ok found := by
  induction links generalizing elements place with
  | zero =>
    exact spares.lookupLoop solid _ _ found kept (fun _ _ failed _ => by cases failed) elements place
      clear ran
  | succ links ih =>
    exact spares.lookupLoop solid _ _ found kept
      (fun place elements ran clear => ih elements place clear ran) elements place clear ran

/-- What a path leads to stays there when neither it nor a link on the way changes. -/
theorem Spares.locate {path : FsPath} {place : Location} (found : v.locate path = .ok place)
    (clear : ∀ link, Passes v.links (wayOf v path) link → ¬ changed link)
    (kept : ¬ changed place) : w.locate path = .ok place ∧ w.node place = v.node place := by
  obtain ⟨fine, named, ran⟩ := locate_lookup found
  constructor
  · rw [Volume.locate, spares.inspection, fine, Volume.start, spares.current]
    simp only [named, Bool.false_eq_true, if_false]
    exact spares.lookup solid kLinks path.elements _ place kept clear ran
  · rcases spares.outside place kept with same | ⟨empty, _⟩
    · exact same
    · exact absurd empty (locate_settles found).2

end

/-! ## Nodes -/

section
variable {changed : Location → Prop} {v w : Volume}

theorem node_put (v : Volume) (place other : Location) (node : VolumeNode) (inner : place ≠ []) :
    (v.put place node).node other = if other = place then some node else v.node other := by
  unfold Volume.node Volume.put
  by_cases here : other = place
  · subst here
    rw [if_neg inner, if_pos rfl]
    exact AList.lookup_insert _
  · rw [if_neg here]
    split
    · rfl
    · exact AList.lookup_insert_ne here

theorem node_erase (v : Volume) (place other : Location) (inner : place ≠ []) :
    (v.erase place).node other = if other = place then none else v.node other := by
  unfold Volume.node Volume.erase
  by_cases here : other = place
  · subst here
    rw [if_neg inner, if_pos rfl]
    exact AList.lookup_erase _ _
  · rw [if_neg here]
    split
    · rfl
    · exact AList.lookup_erase_ne here

theorem Spares.put (spares : Spares changed v w) {place : Location} {node : VolumeNode}
    (inner : place ≠ []) (plain : ∀ target, node ≠ .link target)
    (allowed : changed place ∨ v.node place = none) : Spares changed v (w.put place node) := by
  have plain' : (w.put place node).links place = none := by
    refine links_eq_none fun target linked => plain target ?_
    rw [node_put w place place node inner, if_pos rfl] at linked
    exact Option.some.inj linked
  refine ⟨spares.current, spares.inspection, fun other untouched => ?_, fun other => ?_⟩
  · by_cases here : other = place
    · subst here
      exact .inr ⟨allowed.resolve_left untouched, plain'⟩
    · rw [Volume.links, node_put w place other node inner, if_neg here]
      exact spares.outside other untouched
  · by_cases here : other = place
    · subst here
      exact .inr plain'
    · rw [Volume.links, node_put w place other node inner, if_neg here]
      exact spares.links other

theorem Spares.erase (spares : Spares changed v w) {place : Location} (inner : place ≠ [])
    (allowed : changed place ∨ v.node place = none) : Spares changed v (w.erase place) := by
  have gone : (w.erase place).node place = none := by
    rw [node_erase w place place inner, if_pos rfl]
  refine ⟨spares.current, spares.inspection, fun other untouched => ?_, fun other => ?_⟩
  · by_cases here : other = place
    · subst here
      exact .inr ⟨allowed.resolve_left untouched, no_node_no_link gone⟩
    · rw [Volume.links, node_erase w place other inner, if_neg here]
      exact spares.outside other untouched
  · by_cases here : other = place
    · subst here
      exact .inr (no_node_no_link gone)
    · rw [Volume.links, node_erase w place other inner, if_neg here]
      exact spares.links other

theorem SlotAt.inner {path : FsPath} {place : Location} (slot : SlotAt v path place) :
    place ≠ [] := by
  obtain ⟨_, directory, _, rfl⟩ := slot
  simp

end

/-! ## One call -/

section
variable {changed : Location → Prop} {v w : Volume}

/-- What the action keeps the call keeps. -/
theorem Spares.call {α : Type} {act : Answer → Volume → Except Errno α × Volume}
    (acts : ∀ answer w, Spares changed v w → Spares changed v (act answer w).2)
    (spares : Spares changed v w) : Spares changed v (Volume.call act w).2 := by
  have scheduled : ∀ rest, Spares changed v { w with schedule := rest } := fun rest =>
    ⟨spares.current, spares.inspection, spares.outside, spares.links⟩
  unfold Volume.call
  split
  · exact spares
  · split
    · exact scheduled _
    · exact acts _ _ (scheduled _)

theorem Spares.make (spares : Spares changed v w) (path : FsPath) :
    Spares changed v (w.make path).2 := by
  rw [Volume.make]
  split
  · exact spares
  · next place found =>
    split
    · exact spares
    · next empty =>
      exact spares.put (slotOf_at found).inner (by simp) (spares.empty_before empty)

theorem Spares.makeLoop (absolute : Bool) (elements : List Bytes) (done : List Bytes)
    (spares : Spares changed v w) :
    Spares changed v (Volume.makeLoop absolute done elements w).2 := by
  induction elements generalizing done w with
  | nil => exact spares
  | cons element rest ih =>
    rw [Volume.makeLoop]
    split
    · split
      · split
        · exact ih _ spares
        · exact spares
      · split
        · have made := spares.make ⟨absolute, done ++ [element]⟩
          cases answered : w.make ⟨absolute, done ++ [element]⟩ with
          | mk result w' =>
            rw [answered] at made
            rcases result with e | ⟨⟩
            · exact made
            · exact ih _ made
        · exact spares
    · exact ih _ spares

/-- Making directories removes nothing. -/
theorem Spares.createDirectories (message : Errno → Bytes) (path : FsPath)
    (spares : Spares changed v w) :
    Spares changed v ((volumeSystem message).createDirectories path w).2 :=
  Spares.call (fun _ _ spares => spares.makeLoop path.absolute path.elements []) spares

/-- Removing a file changes its place only. -/
theorem Spares.remove (message : Errno → Bytes) (path : FsPath) (spares : Spares changed v w)
    (allowed : ∀ w, Spares changed v w → ∀ place, SlotAt w path place →
      changed place ∨ v.node place = none) :
    Spares changed v ((volumeSystem message).remove path w).2 := by
  refine Spares.call (fun _ w spares => ?_) spares
  unfold Volume.removing
  split
  · split <;> exact spares
  · next place found =>
    have here := allowed w spares place (slotOf_at found)
    have inner := (slotOf_at found).inner
    split
    · split
      · exact spares
      · exact spares.erase inner here
    · exact spares.erase inner here

end

/-! ## Writing and replacing -/

/-- While the temporary file is there its place may change too. It was empty, or may change anyway. -/
structure Staged (changed : Location → Prop) (v : Volume) (destination candidate : FsPath)
    (w : Volume) : Prop where
  beside : wayOf v (parentOrCurrent candidate) = wayOf v (parentOrCurrent destination)
  place : ∃ place, SlotAt v candidate place ∧ (changed place ∨ v.node place = none) ∧
    Spares (fun other => changed other ∨ other = place) v w

section
variable {changed : Location → Prop} {v w : Volume} {destination candidate : FsPath}

theorem Staged.spares (staged : Staged changed v destination candidate w) :
    Spares changed v w := by
  obtain ⟨place, _, allowed, spares⟩ := staged.place
  exact spares.narrow allowed

/-- An action that changes the places of the temporary file and of the destination only. -/
theorem Staged.call {α : Type} {act : Answer → Volume → Except Errno α × Volume}
    (staged : Staged changed v destination candidate w)
    (acts : ∀ place, SlotAt v candidate place → (changed place ∨ v.node place = none) →
      ∀ answer w, Spares (fun other => changed other ∨ other = place) v w →
        Spares (fun other => changed other ∨ other = place) v (act answer w).2) :
    Staged changed v destination candidate (Volume.call act w).2 := by
  obtain ⟨beside, place, slot, allowed, spares⟩ := staged
  exact ⟨beside, place, slot, allowed, Spares.call (acts place slot allowed) spares⟩

section
variable (clear : ∀ link, Passes v.links (wayOf v (parentOrCurrent destination)) link →
  ¬ changed link)
include clear

/-- The paths beside the destination lead where they led. -/
theorem staged_slot {path : FsPath} {place other : Location}
    (allowed : changed place ∨ v.node place = none)
    (beside : wayOf v (parentOrCurrent path) = wayOf v (parentOrCurrent destination))
    (spares : Spares (fun other => changed other ∨ other = place) v w)
    (slot : SlotAt w path other) : SlotAt v path other := by
  refine (spares.slot fun link passes => ?_).mp slot
  rw [beside] at passes
  rintro (here | rfl)
  · exact clear link passes here
  · exact passes.1 (no_node_no_link (allowed.resolve_left (clear link passes)))

theorem Staged.write (message : Errno → Bytes) (text : Bytes)
    (staged : Staged changed v destination candidate w) :
    Staged changed v destination candidate ((volumeSystem message).write candidate text w).2 := by
  have beside := staged.beside
  apply Staged.call staged
  intro place slot allowed answer w spares
  unfold Volume.writing
  split
  · exact spares
  · next other found =>
    split
    · have same := (staged_slot clear allowed beside spares (slotOf_at found)).unique slot
      subst same
      exact spares.put slot.inner (by simp) (.inl (.inr rfl))
    · exact spares

theorem Staged.remove (message : Errno → Bytes)
    (staged : Staged changed v destination candidate w) :
    Staged changed v destination candidate ((volumeSystem message).remove candidate w).2 := by
  obtain ⟨beside, place, slot, allowed, spares⟩ := staged
  refine ⟨beside, place, slot, allowed, spares.remove message candidate fun w spares other here => ?_⟩
  exact .inl (.inr ((staged_slot clear allowed beside spares here).unique slot))

/-- A rename onto a directory fails, so only another destination changes. -/
theorem Staged.rename (message : Errno → Bytes)
    (target : ∀ place, SlotAt v destination place → v.node place ≠ some .directory →
      changed place)
    (staged : Staged changed v destination candidate w) :
    Staged changed v destination candidate
      ((volumeSystem message).rename candidate destination w).2 := by
  have beside := staged.beside
  apply Staged.call staged
  intro place slot allowed _ w spares
  unfold Volume.replacing
  split
  · exact spares
  · exact spares
  · next other other' found found' =>
    have same := (staged_slot clear allowed beside spares (slotOf_at found)).unique slot
    subst same
    have slot' := staged_slot clear allowed rfl spares (slotOf_at found')
    split
    · exact spares
    · next node here free =>
      refine (spares.erase slot.inner (.inl (.inr rfl))).put slot'.inner (by simp) ?_
      by_cases kept : v.node other' = some .directory
      · by_cases counted : changed other' ∨ other' = other
        · exact .inl counted
        · rcases spares.outside other' counted with same | ⟨empty, _⟩
          · exact absurd (same.trans kept) (by simpa using free)
          · exact .inr empty
      · exact .inl (.inl (target other' slot' kept))
    · exact spares

end

theorem call_ok {α : Type} {act : Answer → Volume → Except Errno α × Volume} {a : α}
    (ok : (Volume.call act w).1 = some (.ok a)) :
    ∃ answer rest, act answer { w with schedule := rest } = (.ok a, (Volume.call act w).2) := by
  unfold Volume.call at ok ⊢
  cases scheduled : w.schedule with
  | nil =>
    rw [scheduled] at ok
    cases ok
  | cons answer rest =>
    rw [scheduled] at ok
    cases failing : answer.error with
    | some e =>
      simp only [failing] at ok
      cases ok
    | none =>
      simp only [failing] at ok ⊢
      refine ⟨answer, rest, Prod.ext ?_ rfl⟩
      exact Option.some.inj ok

/-- A temporary file is created where nothing was. -/
theorem staged_opened (message : Errno → Bytes) (ticks : Int64) (sequence : UInt64)
    (clear : ∀ link, Passes v.links (wayOf v (parentOrCurrent destination)) link → ¬ changed link)
    (spares : Spares changed v w)
    (ok : ((volumeSystem message).openExclusive
      (temporaryCandidate destination ticks sequence) w).1 = some (.ok ())) :
    Staged changed v destination (temporaryCandidate destination ticks sequence)
      ((volumeSystem message).openExclusive
        (temporaryCandidate destination ticks sequence) w).2 := by
  obtain ⟨name, _, named⟩ := temporary_name destination ticks sequence
  have beside : wayOf v (parentOrCurrent (temporaryCandidate destination ticks sequence)) =
      wayOf v (parentOrCurrent destination) := by
    rw [named, wayOf_parent_child]
  generalize temporaryCandidate destination ticks sequence = candidate at beside ok ⊢
  obtain ⟨answer, rest, opened⟩ := call_ok ok
  have scheduled : Spares changed v { w with schedule := rest } :=
    ⟨spares.current, spares.inspection, spares.outside, spares.links⟩
  change _ = (_, ((volumeSystem message).openExclusive candidate w).2) at opened
  generalize ((volumeSystem message).openExclusive candidate w).2 = w' at opened ⊢
  rw [Volume.opening] at opened
  split at opened
  · cases opened
  · next place found =>
    split at opened
    · cases opened
    · next empty =>
      cases opened
      have allowed := scheduled.empty_before empty
      have slot : SlotAt v candidate place :=
        (scheduled.slot (by rwa [beside])).mp (slotOf_at found)
      refine ⟨beside, place, slot, allowed, ?_⟩
      exact (scheduled.weaken fun _ => Or.inl).put slot.inner (by simp) (.inl (.inr rfl))

/-- An exclusive creation that fails changes nothing. -/
theorem spares_refused (message : Errno → Bytes) (path : FsPath) (spares : Spares changed v w)
    (refused : ((volumeSystem message).openExclusive path w).1 ≠ some (.ok ())) :
    Spares changed v ((volumeSystem message).openExclusive path w).2 := by
  have scheduled : ∀ rest, Spares changed v { w with schedule := rest } := fun rest =>
    ⟨spares.current, spares.inspection, spares.outside, spares.links⟩
  change (Volume.call (Volume.opening path) w).1 ≠ some (.ok ()) at refused
  change Spares changed v (Volume.call (Volume.opening path) w).2
  unfold Volume.call at refused ⊢
  cases next : w.schedule with
  | nil => exact spares
  | cons answer rest =>
    rw [next] at refused
    cases failing : answer.error with
    | some e =>
      simp only [failing]
      exact scheduled rest
    | none =>
      simp only [failing] at refused ⊢
      unfold Volume.opening at refused ⊢
      split at refused
      · exact scheduled rest
      · split at refused
        · exact scheduled rest
        · exact absurd rfl refused

/-- Writing and replacing changes the destination, unless that is a directory. -/
theorem volume_framed (message : Errno → Bytes) (v : Volume) (destination : FsPath)
    (changed : Location → Prop)
    (clear : ∀ link, Passes v.links (wayOf v (parentOrCurrent destination)) link → ¬ changed link)
    (target : ∀ place, SlotAt v destination place → v.node place ≠ some .directory →
      changed place) :
    Framed (volumeSystem message) destination (Spares changed v)
      (Staged changed v destination) where
  fetch _ spares := ⟨spares.current, spares.inspection, spares.outside, spares.links⟩
  stat path _ spares := by
    refine Spares.call (fun _ w spares => ?_) spares
    unfold Volume.inspecting
    split <;> exact spares
  refused path _ spares refused := spares_refused message path spares refused
  opened ticks sequence _ spares ok := staged_opened message ticks sequence clear spares ok
  write _ text _ staged := staged.write clear message text
  fchmod _ _ staged := staged.call fun _ _ _ _ _ spares => spares
  close _ _ staged := staged.call fun _ _ _ _ _ spares => spares
  rename _ _ staged := staged.rename clear message target
  remove _ _ staged := staged.remove clear message
  done _ _ staged := staged.spares

end

end ConfigManager.Refinement
