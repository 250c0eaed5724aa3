import ConfigManager.Reference.Volume
import ConfigManager.Refinement.CheckpointNames

/-!
# Lookups on a volume

A lookup that finds something settles its path. Changes that leave the links
and the directories on the way alone do not change what it finds.
-/

set_option autoImplicit false

namespace ConfigManager.Refinement
open Library Source Reference

/-! ## Ways -/

/-- The way that a path takes on a volume. -/
def wayOf (v : Volume) (path : FsPath) : Way Bytes := (v.start path, hopsOf path.elements)

@[simp] theorem hopsOf_nil : hopsOf [] = [] := rfl

theorem hopsOf_cons_none {element : Bytes} (skips : hopOf element = none) (rest : List Bytes) :
    hopsOf (element :: rest) = hopsOf rest := List.filterMap_cons_none skips

theorem hopsOf_cons_some {element : Bytes} {hop : Hop Bytes} (hops : hopOf element = some hop)
    (rest : List Bytes) : hopsOf (element :: rest) = hop :: hopsOf rest :=
  List.filterMap_cons_some hops

@[simp] theorem hopsOf_append (first last : List Bytes) :
    hopsOf (first ++ last) = hopsOf first ++ hopsOf last := List.filterMap_append

@[simp] theorem node_root (v : Volume) : v.node [] = some .directory := if_pos rfl

theorem links_eq_some {v : Volume} {place : Location} {target : FsPath}
    (linked : v.node place = some (.link target)) :
    v.links place = some ⟨target.absolute, hopsOf target.elements⟩ := by
  rw [Volume.links, linked]

theorem links_eq_none {v : Volume} {place : Location}
    (plain : ∀ target, v.node place ≠ some (.link target)) : v.links place = none := by
  rw [Volume.links]
  split
  · next target linked => exact absurd linked (plain target)
  · rfl

/-- The elements of a lookup and its way go together. -/
theorem way_down {v : Volume} {place : Location} {element name : Bytes}
    (hops : hopOf element = some (.down name)) (rest : List Bytes)
    (plain : v.links (place ++ [name]) = none) :
    advance v.links (place, hopsOf (element :: rest)) = some (place ++ [name], hopsOf rest) := by
  rw [hopsOf_cons_some hops, advance, plain]

theorem way_link {v : Volume} {place : Location} {element name : Bytes} {target : FsPath}
    (hops : hopOf element = some (.down name)) (rest : List Bytes)
    (linked : v.node (place ++ [name]) = some (.link target)) :
    advance v.links (place, hopsOf (element :: rest)) =
      some (if target.absolute then [] else place, hopsOf (target.elements ++ rest)) := by
  rw [hopsOf_cons_some hops, advance, links_eq_some linked, hopsOf_append]

theorem way_up {v : Volume} {place : Location} {element : Bytes} (hops : hopOf element = some .up)
    (rest : List Bytes) :
    advance v.links (place, hopsOf (element :: rest)) = some (place.dropLast, hopsOf rest) := by
  rw [hopsOf_cons_some hops, advance]

/-! ## What a lookup finds -/

theorem lookupLoop_settles (v : Volume) (follow : Location → List Bytes → Except Errno Location)
    (follows : ∀ place elements found, follow place elements = .ok found →
      Settles v.links (place, hopsOf elements) found ∧ v.node found ≠ none)
    (elements : List Bytes) (place found : Location)
    (ran : v.lookupLoop follow place elements = .ok found) :
    Settles v.links (place, hopsOf elements) found ∧ v.node found ≠ none := by
  induction elements generalizing place with
  | nil =>
    rw [Volume.lookupLoop] at ran
    split at ran
    · next present =>
      cases ran
      exact ⟨settles_here _, Option.isSome_iff_ne_none.mp present⟩
    · cases ran
  | cons element rest ih =>
    rw [Volume.lookupLoop] at ran
    split at ran
    · next skips =>
      rw [hopsOf_cons_none skips]
      exact ih place ran
    · next hops =>
      obtain ⟨settles, present⟩ := ih _ ran
      exact ⟨settles.head (way_up hops rest), present⟩
    · next name hops =>
      split at ran
      · cases ran
      · next here =>
        obtain ⟨settles, present⟩ := ih _ ran
        exact ⟨settles.head (way_down hops rest (links_eq_none (by simp [here]))), present⟩
      · next node here =>
        split at ran
        · next last =>
          cases ran
          subst last
          exact ⟨.single (way_down hops [] (links_eq_none (by simp [here]))), by simp [here]⟩
        · cases ran
      · next target here =>
        obtain ⟨settles, present⟩ := follows _ _ found ran
        exact ⟨settles.head (way_link hops rest here), present⟩

theorem lookup_settles (v : Volume) (links : Nat) (elements : List Bytes) (place found : Location)
    (ran : v.lookup links place elements = .ok found) :
    Settles v.links (place, hopsOf elements) found ∧ v.node found ≠ none := by
  induction links generalizing elements place found with
  | zero => exact lookupLoop_settles v _ (fun _ _ _ failed => by cases failed) elements place found ran
  | succ links ih =>
    exact lookupLoop_settles v _ (fun place elements => ih elements place) elements place found ran

theorem locate_lookup {v : Volume} {path : FsPath} {place : Location}
    (found : v.locate path = .ok place) :
    v.inspection path = none ∧ path.isEmpty = false ∧
      v.lookup kLinks (v.start path) path.elements = .ok place := by
  rw [Volume.locate] at found
  split at found
  · cases found
  · next fine =>
    split at found
    · cases found
    · next named => exact ⟨fine, by simpa using named, found⟩

theorem locate_settles {v : Volume} {path : FsPath} {place : Location}
    (found : v.locate path = .ok place) :
    Settles v.links (wayOf v path) place ∧ v.node place ≠ none :=
  lookup_settles v kLinks path.elements _ place (locate_lookup found).2.2

/-- The place of a name, whatever is there. -/
structure SlotAt (v : Volume) (path : FsPath) (place : Location) : Prop where
  named : hopOf path.filename = some (.down path.filename)
  beside : ∃ directory, Settles v.links (wayOf v (parentOrCurrent path)) directory ∧
    place = directory ++ [path.filename]

theorem hopOf_down {element name : Bytes} (hops : hopOf element = some (.down name)) :
    name = element := by
  rw [hopOf] at hops
  split at hops
  · cases hops
  · split at hops
    · cases hops
    · cases hops
      rfl

theorem slotOf_at {v : Volume} {path : FsPath} {place : Location}
    (found : v.slotOf path = .ok place) : SlotAt v path place := by
  rw [Volume.slotOf] at found
  split at found
  · next name hops =>
    obtain rfl := hopOf_down hops
    split at found
    · cases found
    · next directory located =>
      split at found
      · cases found
        exact ⟨hops, directory, (locate_settles located).1, rfl⟩
      · cases found
  · cases found

theorem SlotAt.unique {v : Volume} {path : FsPath} {place place' : Location}
    (slot : SlotAt v path place) (slot' : SlotAt v path place') : place = place' := by
  obtain ⟨_, directory, settles, rfl⟩ := slot
  obtain ⟨_, directory', settles', rfl⟩ := slot'
  rw [settles.unique settles']

theorem wayOf_parent (v : Volume) (path : FsPath) :
    wayOf v (parentOrCurrent path) = (v.start path, hopsOf path.parentPath.elements) := by
  rw [parentOrCurrent]
  split
  · next empty =>
    simp only [FsPath.isEmpty, Bool.and_eq_true, Bool.not_eq_true', List.isEmpty_iff] at empty
    obtain ⟨relative, none⟩ := empty
    have current : hopsOf [bytes "."] = [] := by decide
    have relative' : path.absolute = false := relative
    simp only [wayOf, Volume.start, current, none, hopsOf_nil, relative']
  · rfl

/-- A name in a directory is beside it. -/
theorem wayOf_parent_child (v : Volume) (directory : FsPath) (name : Bytes) :
    wayOf v (parentOrCurrent (directory.child name)) = wayOf v directory := by
  rw [wayOf_parent, wayOf]
  congr 1
  simp only [FsPath.child, FsPath.parentPath, List.dropLast_concat]
  split
  · next separated =>
    obtain ⟨front, shape⟩ := List.getLast?_eq_some_iff.mp separated
    rw [shape, List.dropLast_concat, hopsOf_append, hopsOf_cons_none (by simp [hopOf]),
      hopsOf_nil, List.append_nil]
  · rfl

/-- The last hop of a path that ends in a name. -/
theorem wayOf_named (v : Volume) (path : FsPath) {name : Bytes}
    (named : hopOf path.filename = some (.down name)) :
    wayOf v path = ((wayOf v (parentOrCurrent path)).1,
      (wayOf v (parentOrCurrent path)).2 ++ [.down path.filename]) := by
  obtain rfl := hopOf_down named
  have last : path.elements.getLast? = some path.filename := by
    cases found : path.elements.getLast? with
    | some last => rw [FsPath.filename, found, Option.getD_some]
    | none =>
      rw [FsPath.filename, found] at named
      cases named
  obtain ⟨front, shape⟩ := List.getLast?_eq_some_iff.mp last
  rw [wayOf_parent, wayOf, FsPath.parentPath]
  simp only
  rw [shape, List.dropLast_concat, hopsOf_append, hopsOf_cons_some named, hopsOf_nil]

/-- A name that is no link settles at its place. -/
theorem SlotAt.settles {v : Volume} {path : FsPath} {place : Location} (slot : SlotAt v path place)
    (plain : v.links place = none) : Settles v.links (wayOf v path) place := by
  obtain ⟨named, directory, settles, rfl⟩ := slot
  rw [wayOf_named v path named]
  exact settles.append (settles_down plain)

/-- A name under which a regular file is found is not a directory's. -/
theorem SlotAt.not_directory {v : Volume} {path : FsPath} {place : Location}
    (slot : SlotAt v path place) (regular : v.regular path = .ok true) :
    v.node place ≠ some .directory := by
  intro solid
  have settles := slot.settles (links_eq_none (by simp [solid]))
  rw [Volume.regular] at regular
  split at regular
  · cases regular
  · next found located =>
    rw [(locate_settles located).1.unique settles, solid] at regular
    cases regular

end ConfigManager.Refinement
