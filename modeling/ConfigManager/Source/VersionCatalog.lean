import ConfigManager.Source.ConfigModel

/-!
# Callbacks and the version catalog (version.hpp, version_catalog.hpp/.cpp)

A callback is a function of a state `σ` that all callbacks share and that
survives between calls. It returns or throws; `std::bad_alloc` is not modelled.
`World` pairs that state with a ghost record of the callbacks that ran. An empty
`std::function` is `none`.
-/

set_option autoImplicit false

namespace ConfigManager.Source
open Library

abbrev VersionId := Fin (2 ^ 32)

/-- `std::to_string` on a version. -/
def versionText (v : VersionId) : Bytes := natText v.val

/-- How a call ended: with a result, with a `std::exception` and its `what()`, or with
anything else. -/
inductive CallOutcome (α : Type) where
  | returned (value : α)
  | threw (what : Bytes)
  | threwOther

structure DefaultFactory (σ : Type) where
  run : σ → CallOutcome BuiltValue × σ

/-- What happened during a run, in order. -/
inductive Event where
  | migration (source target : VersionId) (outcome : CallOutcome (Result Unit))
  | factory (version : VersionId) (outcome : CallOutcome BuiltValue)
  | commit

structure World (σ : Type) where
  callbacks : σ
  /-- Ghost: only statements read it. -/
  events : List Event

structure VersionArtifact (σ : Type) where
  version : VersionId
  defaultFactory : Option (DefaultFactory σ)

/-- An accepted artifact: its factory is not empty. -/
structure CatalogEntry (σ : Type) where
  version : VersionId
  defaultFactory : DefaultFactory σ

structure VersionCatalog (σ : Type) where
  entries : List (CatalogEntry σ) := []
  ascending : (entries.map CatalogEntry.version).Pairwise (· < ·) := by simp

namespace VersionCatalog

variable {σ : Type}

/-- `std::lower_bound`: the entries from the first one that is not below `v`. -/
def findEntry (entries : List (CatalogEntry σ)) (v : VersionId) : List (CatalogEntry σ) :=
  entries.dropWhile fun entry => decide (entry.version < v)

def notRegisteredError {α : Type} (v : VersionId) : Result α :=
  fail .invalidVersion (bytes "version " ++ versionText v ++ bytes " is not registered")

theorem findEntry_split (entries : List (CatalogEntry σ)) (v : VersionId) :
    ∃ before, entries = before ++ findEntry entries v ∧ ∀ e ∈ before, e.version < v := by
  refine ⟨entries.takeWhile fun entry => decide (entry.version < v),
    List.takeWhile_append_dropWhile.symm, fun e inside => ?_⟩
  have below := List.all_eq_true.mp (List.all_takeWhile
    (p := fun entry : CatalogEntry σ => decide (entry.version < v)) (l := entries)) e inside
  simpa using below

theorem findEntry_head (entries : List (CatalogEntry σ)) (v : VersionId) (entry : CatalogEntry σ)
    (rest : List (CatalogEntry σ)) (found : findEntry entries v = entry :: rest) :
    v ≤ entry.version := by
  have head := List.head?_dropWhile_not (fun e : CatalogEntry σ => decide (e.version < v)) entries
  unfold findEntry at found
  rw [found] at head
  simpa using head

theorem insert_ascending (entries : List (CatalogEntry σ)) (added : CatalogEntry σ)
    (ascending : (entries.map CatalogEntry.version).Pairwise (· < ·))
    (absent : ∀ entry rest, findEntry entries added.version = entry :: rest →
      entry.version ≠ added.version) :
    (((entries.takeWhile fun entry => decide (entry.version < added.version)) ++
      added :: findEntry entries added.version).map CatalogEntry.version).Pairwise (· < ·) := by
  have split : entries = (entries.takeWhile fun entry => decide (entry.version < added.version)) ++
      findEntry entries added.version := List.takeWhile_append_dropWhile.symm
  have below : ∀ e ∈ entries.takeWhile fun entry => decide (entry.version < added.version),
      e.version < added.version := by
    intro e inside
    have small := List.all_eq_true.mp (List.all_takeWhile
      (p := fun entry : CatalogEntry σ => decide (entry.version < added.version))
      (l := entries)) e inside
    simpa using small
  rw [split, List.map_append, List.pairwise_append] at ascending
  obtain ⟨early, late, across⟩ := ascending
  have above : ∀ e ∈ findEntry entries added.version, added.version < e.version := by
    cases found : findEntry entries added.version with
    | nil => simp
    | cons entry rest =>
      have first : added.version < entry.version :=
        lt_of_le_of_ne (findEntry_head entries _ entry rest found)
          (absent entry rest found).symm
      rw [found, List.map_cons, List.pairwise_cons] at late
      intro e inside
      rcases List.mem_cons.mp inside with rfl | later
      · exact first
      · exact first.trans (late.1 e.version (List.mem_map_of_mem later))
  rw [List.map_append, List.map_cons, List.pairwise_append]
  refine ⟨early, List.pairwise_cons.mpr ⟨?_, late⟩, ?_⟩
  · intro version inside
    obtain ⟨e, member, rfl⟩ := List.mem_map.mp inside
    exact above e member
  · intro version inside version' inside'
    obtain ⟨e, member, rfl⟩ := List.mem_map.mp inside
    rcases List.mem_cons.mp inside' with rfl | later
    · exact below e member
    · exact across _ (List.mem_map_of_mem member) _ later

def registerVersion (catalog : VersionCatalog σ) (artifact : VersionArtifact σ) :
    Result Unit × VersionCatalog σ :=
  match artifact.defaultFactory with
  | none =>
      (fail .migrationFailed (bytes "default factory for version " ++
        versionText artifact.version ++ bytes " is empty"), catalog)
  | some factory =>
      if present : ∃ entry ∈ (findEntry catalog.entries artifact.version).head?,
          entry.version = artifact.version then
        (fail .invalidVersion (bytes "version " ++ versionText artifact.version ++
          bytes " is already registered"), catalog)
      else
        (.ok (), {
          entries := (catalog.entries.takeWhile fun entry =>
            decide (entry.version < artifact.version)) ++
            ⟨artifact.version, factory⟩ :: findEntry catalog.entries artifact.version
          ascending := insert_ascending catalog.entries ⟨artifact.version, factory⟩
            catalog.ascending fun entry rest found same =>
              present ⟨entry, by simp [found], same⟩ })

def contains (catalog : VersionCatalog σ) (v : VersionId) : Bool :=
  match findEntry catalog.entries v with
  | [] => false
  | entry :: _ => entry.version == v

def latestVersion (catalog : VersionCatalog σ) : Result VersionId :=
  match catalog.entries.getLast? with
  | none => fail .invalidVersion (bytes "catalog has no registered versions")
  | some entry => .ok entry.version

def nextVersion (catalog : VersionCatalog σ) (v : VersionId) : Result VersionId :=
  match findEntry catalog.entries v with
  | [] => notRegisteredError v
  | entry :: rest =>
      if entry.version ≠ v then notRegisteredError v
      else match rest with
        | [] =>
            fail .invalidVersion (bytes "version " ++ versionText v ++
              bytes " is the latest registered version")
        | next :: _ => .ok next.version

/-- The factory runs once, whatever it does. -/
def createDefault (catalog : VersionCatalog σ) (v : VersionId) (world : World σ) :
    Result ConfigModel × World σ :=
  match findEntry catalog.entries v with
  | [] => (notRegisteredError v, world)
  | entry :: _ =>
      if entry.version ≠ v then (notRegisteredError v, world)
      else
        let (outcome, callbacks) := entry.defaultFactory.run world.callbacks
        let world : World σ := ⟨callbacks, world.events ++ [.factory v outcome]⟩
        match outcome with
        | .threw what =>
            (fail .migrationFailed (bytes "default factory for version " ++ versionText v ++
              bytes " threw: " ++ what), world)
        | .threwOther =>
            (fail .migrationFailed (bytes "default factory for version " ++ versionText v ++
              bytes " threw a non-standard exception"), world)
        | .returned root => (ConfigModel.fromValue root.1, world)

def versions (catalog : VersionCatalog σ) : List VersionId :=
  catalog.entries.map CatalogEntry.version

end VersionCatalog

end ConfigManager.Source
