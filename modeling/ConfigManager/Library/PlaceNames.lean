import Mathlib.Data.List.Basic
import Mathlib.Logic.Relation

/-!
# Places and the paths that lead to them

A place is the list of its names from the root. A path goes up or down, and a
name on its way may be a link, which stands for another path. Where a path
settles does not depend on what is at the places it goes through, apart from
the links.
-/

set_option autoImplicit false

namespace ConfigManager.Library
open Relation

universe u

inductive Hop (α : Type u) where
  | up
  | down (name : α)
  deriving DecidableEq

structure LinkTarget (α : Type u) where
  fromRoot : Bool
  hops : List (Hop α)

abbrev Links (α : Type u) := List α → Option (LinkTarget α)

/-- A place and the hops that are left. -/
abbrev Way (α : Type u) := List α × List (Hop α)

variable {α : Type u}

def advance (links : Links α) : Way α → Option (Way α)
  | (_, []) => none
  | (place, .up :: rest) => some (place.dropLast, rest)
  | (place, .down name :: rest) =>
      match links (place ++ [name]) with
      | none => some (place ++ [name], rest)
      | some target => some (if target.fromRoot then [] else place, target.hops ++ rest)

def Leads (links : Links α) : Way α → Way α → Prop :=
  ReflTransGen fun way way' => advance links way = some way'

def Settles (links : Links α) (way : Way α) (place : List α) : Prop := Leads links way (place, [])

/-- The link is one of those that the path follows. -/
def Passes (links : Links α) (way : Way α) (link : List α) : Prop :=
  links link ≠ none ∧
    ∃ place name rest, Leads links way (place, .down name :: rest) ∧ link = place ++ [name]

variable {links links' : Links α}

theorem settles_here (place : List α) : Settles links (place, []) place := .refl

theorem settled_leads {place : List α} {way : Way α} (leads : Leads links (place, []) way) :
    way = (place, []) := by
  rcases leads.cases_head with same | ⟨next, step, _⟩
  · exact same.symm
  · cases step

theorem Settles.unique {way : Way α} {place place' : List α} (settles : Settles links way place)
    (settles' : Settles links way place') : place = place' := by
  have determined : Relator.RightUnique fun way way' : Way α => advance links way = some way' :=
    fun _ _ _ step step' => Option.some.inj (step.symm.trans step')
  rcases ReflTransGen.total_of_right_unique determined settles settles' with onward | onward
  · exact congrArg Prod.fst (settled_leads onward).symm
  · exact congrArg Prod.fst (settled_leads onward)

/-- Where one hop down leads that is no link. -/
theorem settles_down {place : List α} {name : α} (plain : links (place ++ [name]) = none) :
    Settles links (place, [.down name]) (place ++ [name]) :=
  .single (by rw [advance, plain])

theorem not_passes_down {place link : List α} {name : α} (plain : links (place ++ [name]) = none) :
    ¬ Passes links (place, [.down name]) link := by
  rintro ⟨linked, at', name', rest, leads, rfl⟩
  rcases leads.cases_head with same | ⟨way, step, later⟩
  · cases same
    exact linked plain
  · rw [advance, plain] at step
    cases step
    cases settled_leads later

/-! ## Paths after one another -/

theorem advance_append {place place' : List α} {hops hops' : List (Hop α)}
    (step : advance links (place, hops) = some (place', hops')) (more : List (Hop α)) :
    advance links (place, hops ++ more) = some (place', hops' ++ more) := by
  cases hops with
  | nil => cases step
  | cons hop rest =>
    cases hop with
    | up =>
      cases step
      rfl
    | down name =>
      rw [advance] at step
      rw [List.cons_append, advance]
      split at step
      · cases step
        rfl
      · cases step
        rw [List.append_assoc]

theorem Leads.append {place place' : List α} {hops hops' : List (Hop α)}
    (leads : Leads links (place, hops) (place', hops')) (more : List (Hop α)) :
    Leads links (place, hops ++ more) (place', hops' ++ more) :=
  ReflTransGen.lift (fun way : Way α => (way.1, way.2 ++ more))
    (fun _ _ step => advance_append step more) _ _ leads

theorem Settles.append {place middle last : List α} {hops more : List (Hop α)}
    (settles : Settles links (place, hops) middle) (settles' : Settles links (middle, more) last) :
    Settles links (place, hops ++ more) last :=
  ReflTransGen.trans (Leads.append settles more) settles'

/-- A longer path is still on its first part, or has settled it. -/
theorem leads_append {place : List α} {hops more : List (Hop α)} {way : Way α}
    (leads : Leads links (place, hops ++ more) way) :
    (∃ rest, Leads links (place, hops) (way.1, rest) ∧ way.2 = rest ++ more) ∨
      ∃ middle, Settles links (place, hops) middle ∧ Leads links (middle, more) way := by
  induction leads with
  | refl => exact .inl ⟨hops, .refl, rfl⟩
  | @tail way way' _ step ih =>
    rcases ih with ⟨rest, early, shape⟩ | ⟨middle, settles, late⟩
    · obtain ⟨at', hops'⟩ := way
      simp only at early shape
      subst shape
      cases rest with
      | nil => exact .inr ⟨at', early, .single step⟩
      | cons hop rest =>
        cases next : advance links (at', hop :: rest) with
        | none =>
          exfalso
          cases hop with
          | up => cases next
          | down name =>
            rw [advance] at next
            split at next <;> cases next
        | some way'' =>
          rw [advance_append next more] at step
          cases step
          exact .inl ⟨way''.2, early.tail next, rfl⟩
    · exact .inr ⟨middle, settles, late.tail step⟩

/-- The links passed after a step are passed before it. -/
theorem Passes.head {way way' : Way α} {link : List α} (step : advance links way = some way')
    (passes : Passes links way' link) : Passes links way link := by
  obtain ⟨linked, place, name, rest, leads, here⟩ := passes
  exact ⟨linked, place, name, rest, leads.head step, here⟩

theorem Passes.append {place link : List α} {hops : List (Hop α)}
    (passes : Passes links (place, hops) link) (more : List (Hop α)) :
    Passes links (place, hops ++ more) link := by
  obtain ⟨linked, at', name, rest, leads, here⟩ := passes
  exact ⟨linked, at', name, rest ++ more, leads.append more, here⟩

theorem passes_append {place link : List α} {hops more : List (Hop α)}
    (passes : Passes links (place, hops ++ more) link) :
    Passes links (place, hops) link ∨
      ∃ middle, Settles links (place, hops) middle ∧ Passes links (middle, more) link := by
  obtain ⟨linked, at', name, rest, leads, here⟩ := passes
  rcases leads_append leads with ⟨rest', early, shape⟩ | ⟨middle, settles, late⟩
  · cases rest' with
    | nil =>
      rw [List.nil_append] at shape
      subst shape
      exact .inr ⟨at', early, linked, at', name, rest, .refl, here⟩
    | cons hop rest' =>
      rw [List.cons_append, List.cons.injEq] at shape
      obtain ⟨rfl, _⟩ := shape
      exact .inl ⟨linked, at', name, rest', early, here⟩
  · exact .inr ⟨middle, settles, linked, at', name, rest, late, here⟩

/-! ## Other links -/

/-- Links may disappear, but not those that the path follows. -/
structure SameOn (links links' : Links α) (way : Way α) : Prop where
  passed : ∀ link, Passes links way link → links' link = links link
  fewer : ∀ place, links place = none → links' place = none

theorem SameOn.advance {way way' : Way α} (same : SameOn links links' way)
    (leads : Leads links way way') :
    Library.advance links' way' = Library.advance links way' := by
  obtain ⟨place, hops⟩ := way'
  cases hops with
  | nil => rfl
  | cons hop rest =>
    cases hop with
    | up => rfl
    | down name =>
      have agree : links' (place ++ [name]) = links (place ++ [name]) := by
        by_cases linked : links (place ++ [name]) = none
        · rw [same.fewer _ linked, linked]
        · exact same.passed _ ⟨linked, place, name, rest, leads, rfl⟩
      rw [Library.advance, Library.advance, agree]

/-- Then the path takes the same way. -/
theorem SameOn.leads {way way' : Way α} (same : SameOn links links' way) :
    Leads links' way way' ↔ Leads links way way' := by
  constructor
  · intro leads
    induction leads with
    | refl => exact .refl
    | tail _ step ih => exact ih.tail ((same.advance ih).symm.trans step)
  · intro leads
    induction leads with
    | refl => exact .refl
    | tail early step ih => exact ih.tail ((same.advance early).trans step)

theorem SameOn.settles {way : Way α} (same : SameOn links links' way) (place : List α) :
    Settles links' way place ↔ Settles links way place := same.leads

theorem SameOn.passes {way : Way α} (same : SameOn links links' way) (link : List α) :
    Passes links' way link ↔ Passes links way link := by
  constructor
  · rintro ⟨linked, place, name, rest, leads, here⟩
    exact ⟨fun none => linked (same.fewer link none), place, name, rest, same.leads.mp leads, here⟩
  · intro passes
    have agree := same.passed link passes
    obtain ⟨linked, place, name, rest, leads, here⟩ := passes
    exact ⟨fun none => linked (agree.symm.trans none), place, name, rest, same.leads.mpr leads, here⟩

/-- A path that follows no link and goes down only settles at its names. -/
theorem settles_names (place names : List α)
    (unlinked : ∀ link, ¬ Passes links (place, names.map Hop.down) link) :
    Settles links (place, names.map Hop.down) (place ++ names) := by
  induction names generalizing place with
  | nil =>
    rw [List.append_nil]
    exact settles_here place
  | cons name rest ih =>
    have plain : links (place ++ [name]) = none := by
      by_contra linked
      exact unlinked _ ⟨linked, place, name, rest.map Hop.down, .refl, rfl⟩
    have step : Library.advance links (place, (name :: rest).map Hop.down) =
        some (place ++ [name], rest.map Hop.down) := by
      rw [List.map_cons, Library.advance, plain]
    have onward := ih (place ++ [name]) fun link passes => unlinked link (passes.head step)
    rw [List.append_assoc] at onward
    exact onward.head step

end ConfigManager.Library
