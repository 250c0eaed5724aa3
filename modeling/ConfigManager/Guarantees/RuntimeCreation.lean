import ConfigManager.Refinement.Registrations

/-!
# Registration in any order

A setup fills a catalog and a registry through `registerVersion` and
`registerMigration`, in any order, with duplicates and empty callables. The
catalog is the ascending list of the accepted versions, and `create` accepts
exactly the complete chains. Its messages name the first edge at fault in the
order of registration; whether it succeeds, and its code, do not depend on that
order.
-/

set_option autoImplicit false

namespace ConfigManager.Guarantees
open Library Source Refinement

variable {σ : Type}

inductive Registration (σ : Type) where
  | version (artifact : VersionArtifact σ)
  | migration (source target : VersionId) (fn : Option (MigrationFn σ))

/-- The version a call offers: its factory is not empty. -/
def Registration.offeredVersion : Registration σ → Option VersionId
  | .version artifact => if artifact.defaultFactory.isSome then some artifact.version else none
  | .migration .. => none

def Registration.offeredEdge : Registration σ → Option (VersionId × VersionId)
  | .version _ => none
  | .migration source target fn => if fn.isSome then some (source, target) else none

structure Setup (σ : Type) where
  catalog : VersionCatalog σ := {}
  registry : MigrationRegistry σ := {}
  /-- Ghost: the calls that succeeded, in order. -/
  accepted : List (Registration σ) := []

namespace Setup

def call (s : Setup σ) (made : Registration σ) : Result Unit × Setup σ :=
  match made with
  | .version artifact =>
      match s.catalog.registerVersion artifact with
      | (.error e, catalog) => (.error e, { s with catalog := catalog })
      | (.ok (), catalog) =>
          (.ok (), { s with catalog := catalog, accepted := s.accepted ++ [made] })
  | .migration source target fn =>
      match s.registry.registerMigration source target fn with
      | (.error e, registry) => (.error e, { s with registry := registry })
      | (.ok (), registry) =>
          (.ok (), { s with registry := registry, accepted := s.accepted ++ [made] })

def run (calls : List (Registration σ)) : Setup σ :=
  calls.foldl (fun s made => (s.call made).2) {}

def acceptedVersions (s : Setup σ) : List VersionId :=
  s.accepted.filterMap Registration.offeredVersion

def acceptedEdges (s : Setup σ) : List (VersionId × VersionId) :=
  s.accepted.filterMap Registration.offeredEdge

/-- Whether `create` succeeds, and its code if it does not. -/
def outcome (s : Setup σ) : Except ErrorCode Unit :=
  match ConfigRuntime.create s.catalog s.registry with
  | .ok _ => .ok ()
  | .error e => .error e.code

/-! ## The invariant of a setup -/

/-- The catalog and the registry hold what was accepted, and everything offered by the
calls made so far was accepted once. -/
structure Recorded (calls : List (Registration σ)) (s : Setup σ) : Prop where
  versions : s.catalog.versions.Perm s.acceptedVersions
  edges : s.registry.edges.map edgePair = s.acceptedEdges
  edges_once : s.acceptedEdges.Nodup
  offered_versions : ∀ v, v ∈ s.acceptedVersions ↔ v ∈ calls.filterMap Registration.offeredVersion
  offered_edges : ∀ p, p ∈ s.acceptedEdges ↔ p ∈ calls.filterMap Registration.offeredEdge

/-- A rejected call changes nothing. -/
theorem call_rejected (s : Setup σ) (made : Registration σ) (e : Error)
    (rejected : (s.call made).1 = .error e) : (s.call made).2 = s := by
  cases made with
  | version artifact =>
    simp only [call] at rejected ⊢
    rcases registerVersion_cases s.catalog artifact with
      ⟨e', refused, _⟩ | ⟨after, taken, _⟩
    · rw [refused]
    · rw [taken] at rejected
      cases rejected
  | migration source target fn =>
    simp only [call] at rejected ⊢
    rcases registerMigration_cases s.registry source target fn with
      ⟨e', refused, _⟩ | ⟨after, taken, _⟩
    · rw [refused]
    · rw [taken] at rejected
      cases rejected

/-- A call that offers nothing new leaves the offers as they were. -/
theorem offers_known {α : Type} (offered : Registration σ → Option α)
    (calls : List (Registration σ)) (made : Registration σ)
    (known : ∀ x, offered made = some x → x ∈ calls.filterMap offered) (x : α) :
    x ∈ (calls ++ [made]).filterMap offered ↔ x ∈ calls.filterMap offered := by
  rw [List.filterMap_append, List.mem_append, or_iff_left_of_imp]
  intro new
  obtain ⟨only, single, same⟩ := List.mem_filterMap.mp new
  rw [List.mem_singleton.mp single] at same
  exact known x same

/-- A refused call of either kind. -/
theorem Recorded.refused {calls : List (Registration σ)} {s : Setup σ} (recorded : Recorded calls s)
    (made : Registration σ) (version : ∀ v, made.offeredVersion = some v → v ∈ s.acceptedVersions)
    (edge : ∀ p, made.offeredEdge = some p → p ∈ s.acceptedEdges) : Recorded (calls ++ [made]) s := by
  refine ⟨recorded.versions, recorded.edges, recorded.edges_once, fun v => ?_, fun p => ?_⟩
  · rw [offers_known _ _ _ fun v offered => (recorded.offered_versions v).mp (version v offered)]
    exact recorded.offered_versions v
  · rw [offers_known _ _ _ fun p offered => (recorded.offered_edges p).mp (edge p offered)]
    exact recorded.offered_edges p

theorem version_recorded (calls : List (Registration σ)) (s : Setup σ) (artifact : VersionArtifact σ)
    (before : Recorded calls s) :
    Recorded (calls ++ [.version artifact]) (s.call (.version artifact)).2 := by
  simp only [call]
  rcases registerVersion_cases s.catalog artifact with
    ⟨e, refused, reason⟩ | ⟨after, taken, given, absent, filled⟩
  · -- what it offers, if anything, is there already
    rw [refused]
    apply before.refused
    · intro v offered
      simp only [Registration.offeredVersion] at offered
      split at offered
      · next given =>
        cases offered
        rcases reason with empty | present
        · simp [empty] at given
        · exact before.versions.mem_iff.mp present
      · cases offered
    · intro p offered
      cases offered
  · rw [taken]
    have added : Setup.acceptedVersions { s with
        catalog := after, accepted := s.accepted ++ [.version artifact] } =
        s.acceptedVersions ++ [artifact.version] := by
      simp [acceptedVersions, Registration.offeredVersion, given]
    have kept : Setup.acceptedEdges { s with
        catalog := after, accepted := s.accepted ++ [.version artifact] } = s.acceptedEdges := by
      simp [acceptedEdges, Registration.offeredEdge]
    refine ⟨?_, ?_, ?_, fun v => ?_, fun p => ?_⟩
    · rw [added]
      exact filled.trans ((before.versions.cons _).trans (List.perm_append_singleton _ _).symm)
    · rw [kept]
      exact before.edges
    · rw [kept]
      exact before.edges_once
    · rw [added]
      simp [before.offered_versions, Registration.offeredVersion, given]
    · rw [kept]
      simp [before.offered_edges, Registration.offeredEdge]

theorem migration_recorded (calls : List (Registration σ)) (s : Setup σ) (source target : VersionId)
    (fn : Option (MigrationFn σ)) (before : Recorded calls s) :
    Recorded (calls ++ [.migration source target fn]) (s.call (.migration source target fn)).2 := by
  simp only [call]
  rcases registerMigration_cases s.registry source target fn with
    ⟨e, refused, reason⟩ | ⟨after, taken, given, absent, filled⟩
  · rw [refused]
    apply before.refused
    · intro v offered
      cases offered
    · intro p offered
      simp only [Registration.offeredEdge] at offered
      split at offered
      · next given =>
        cases offered
        rcases reason with rfl | present
        · cases given
        · exact before.edges ▸ present
      · cases offered
  · rw [taken]
    have kept : Setup.acceptedVersions { s with
        registry := after, accepted := s.accepted ++ [.migration source target fn] } =
        s.acceptedVersions := by
      simp [acceptedVersions, Registration.offeredVersion]
    have added : Setup.acceptedEdges { s with
        registry := after, accepted := s.accepted ++ [.migration source target fn] } =
        s.acceptedEdges ++ [(source, target)] := by
      simp [acceptedEdges, Registration.offeredEdge, given]
    rw [before.edges] at absent filled
    refine ⟨?_, ?_, ?_, fun v => ?_, fun p => ?_⟩
    · rw [kept]
      exact before.versions
    · rw [added]
      exact filled
    · rw [added, List.nodup_append]
      refine ⟨before.edges_once, List.nodup_singleton _, fun p inside q single same => ?_⟩
      rw [List.mem_singleton] at single
      exact absent (single ▸ same ▸ inside)
    · rw [kept]
      simp [before.offered_versions, Registration.offeredVersion]
    · rw [added]
      simp [before.offered_edges, Registration.offeredEdge, given]

theorem call_recorded (calls : List (Registration σ)) (s : Setup σ) (made : Registration σ)
    (before : Recorded calls s) : Recorded (calls ++ [made]) (s.call made).2 := by
  cases made with
  | version artifact => exact version_recorded calls s artifact before
  | migration source target fn => exact migration_recorded calls s source target fn before

theorem run_recorded (calls : List (Registration σ)) : Recorded calls (run calls) := by
  induction calls using List.reverseRecOn with
  | nil =>
    exact ⟨List.Perm.refl _, rfl, List.nodup_nil, fun v => Iff.rfl, fun p => Iff.rfl⟩
  | append_singleton calls made ih =>
    have last : run (calls ++ [made]) = ((run calls).call made).2 := by
      simp [run]
    rw [last]
    exact call_recorded calls _ made ih

/-! ## Independence of the order -/

/-- Setups that accepted the same versions have the same list of versions. -/
theorem versions_determined (calls calls' : List (Registration σ))
    (same : ∀ v, v ∈ (run calls).acceptedVersions ↔ v ∈ (run calls').acceptedVersions) :
    (run calls).catalog.versions = (run calls').catalog.versions := by
  apply List.Pairwise.eq_of_mem_iff (run calls).catalog.ascending (run calls').catalog.ascending
  intro v
  rw [← VersionCatalog.versions, ← VersionCatalog.versions,
    (run_recorded calls).versions.mem_iff, (run_recorded calls').versions.mem_iff]
  exact same v

open Classical in
/-- The answer of `create`, read off the versions and the edges. -/
theorem outcome_eq (s : Setup σ) :
    s.outcome =
      if s.catalog.versions = [] ∨
          ∃ pair ∈ s.registry.edges.map edgePair, pair ∉ consecutive s.catalog.versions then
        .error .invalidVersion
      else if ∃ pair ∈ consecutive s.catalog.versions, pair ∉ s.registry.edges.map edgePair then
        .error .missingMigration
      else .ok () := by
  have noFault : s.catalog.versions ≠ [] →
      (∀ pair ∈ s.registry.edges.map edgePair, pair ∈ consecutive s.catalog.versions) →
      ¬(s.catalog.versions = [] ∨
        ∃ pair ∈ s.registry.edges.map edgePair, pair ∉ consecutive s.catalog.versions) := by
    rintro occupied adjacent (empty | ⟨pair, inside, apart⟩)
    · exact occupied empty
    · exact apart (adjacent pair inside)
  unfold outcome
  rcases create_cases s.catalog s.registry with
    ⟨made, occupied, exact⟩ | ⟨e, failed, code, fault⟩ | ⟨e, failed, code, occupied, adjacent, gap⟩
  · have noGap : ¬∃ pair ∈ consecutive s.catalog.versions,
        pair ∉ s.registry.edges.map edgePair := by
      rintro ⟨pair, inside, apart⟩
      exact apart ((exact pair).mpr inside)
    rw [made, if_neg (noFault occupied fun pair => (exact pair).mp), if_neg noGap]
  · rw [failed, if_pos fault, ← code]
  · rw [failed, if_neg (noFault occupied adjacent), if_pos gap, ← code]

/-- What `create` answers is a matter of which versions and edges were accepted. -/
theorem outcome_determined (calls calls' : List (Registration σ))
    (sameVersions : ∀ v, v ∈ (run calls).acceptedVersions ↔ v ∈ (run calls').acceptedVersions)
    (sameEdges : ∀ p, p ∈ (run calls).acceptedEdges ↔ p ∈ (run calls').acceptedEdges) :
    (run calls).outcome = (run calls').outcome := by
  have versions := versions_determined calls calls' sameVersions
  have edges : ∀ p, p ∈ (run calls).registry.edges.map edgePair ↔
      p ∈ (run calls').registry.edges.map edgePair := by
    intro p
    rw [(run_recorded calls).edges, (run_recorded calls').edges]
    exact sameEdges p
  rw [outcome_eq, outcome_eq, versions]
  simp only [edges]

/-- Making the same calls in another order accepts the same versions and edges. -/
theorem outcome_of_perm (calls calls' : List (Registration σ)) (same : calls.Perm calls') :
    (run calls).outcome = (run calls').outcome := by
  have first := run_recorded calls
  have second := run_recorded calls'
  apply outcome_determined
  · intro v
    rw [first.offered_versions, second.offered_versions, (same.filterMap _).mem_iff]
  · intro p
    rw [first.offered_edges, second.offered_edges, (same.filterMap _).mem_iff]

end Setup

/-- For every sequence of calls: the catalog lists the accepted versions in strictly
ascending order and its lookups agree with that list; a rejected call changes nothing; the
versions and edges accepted are those that some call offered, each accepted once;
`create` succeeds exactly when a version was accepted and the accepted edges are the pairs
of consecutive versions; its codes tell a gap from an edge that is no such pair; and two
sequences that accepted the same registrations, or made the same calls, in any order get
the same answer. -/
theorem registration_exact (calls : List (Registration σ)) :
    let s := Setup.run calls
    (s.catalog.versions.Pairwise (· < ·) ∧ s.catalog.versions.Perm s.acceptedVersions ∧
      (∀ v, s.catalog.contains v = true ↔ v ∈ s.catalog.versions) ∧
      (∀ v w, s.catalog.nextVersion v = .ok w ↔ (v, w) ∈ consecutive s.catalog.versions) ∧
      ∀ v, s.catalog.latestVersion = .ok v ↔ s.catalog.versions.getLast? = some v) ∧
    (∀ made e, (s.call made).1 = .error e → (s.call made).2 = s) ∧
    (s.acceptedVersions.Nodup ∧ s.acceptedEdges.Nodup ∧
      (∀ v, v ∈ s.acceptedVersions ↔ v ∈ calls.filterMap Registration.offeredVersion) ∧
      ∀ p, p ∈ s.acceptedEdges ↔ p ∈ calls.filterMap Registration.offeredEdge) ∧
    ((∃ runtime, ConfigRuntime.create s.catalog s.registry = .ok runtime) ↔
      s.acceptedVersions ≠ [] ∧ s.acceptedEdges.Perm (consecutive s.catalog.versions)) ∧
    (∀ e, ConfigRuntime.create s.catalog s.registry = .error e →
      (e.code = .missingMigration ∧
        (∀ p ∈ s.acceptedEdges, p ∈ consecutive s.catalog.versions) ∧
        ∃ p ∈ consecutive s.catalog.versions, p ∉ s.acceptedEdges) ∨
      (e.code = .invalidVersion ∧
        (s.catalog.versions = [] ∨
          ∃ p ∈ s.acceptedEdges, p ∉ consecutive s.catalog.versions))) ∧
    ∀ calls', (s.accepted.Perm (Setup.run calls').accepted ∨ calls.Perm calls') →
      (Setup.run calls').outcome = s.outcome := by
  intro s
  have recorded := Setup.run_recorded calls
  have ascending : s.catalog.versions.Pairwise (· < ·) := s.catalog.ascending
  have edges : s.registry.edges.map edgePair = s.acceptedEdges := recorded.edges
  have cases := create_cases s.catalog s.registry
  rw [edges] at cases
  refine ⟨⟨ascending, recorded.versions, contains_iff_mem s.catalog, nextVersion_iff s.catalog,
    latestVersion_iff s.catalog⟩, s.call_rejected, ?_, ?_, ?_, ?_⟩
  · have once : s.catalog.versions.Nodup := ascending.imp fun less => ne_of_lt less
    exact ⟨recorded.versions.nodup_iff.mp once, recorded.edges_once, recorded.offered_versions,
      recorded.offered_edges⟩
  · have occupied : s.acceptedVersions ≠ [] ↔ s.catalog.versions ≠ [] :=
      not_congr ⟨fun none => (none ▸ recorded.versions).eq_nil,
        fun none => (none ▸ recorded.versions.symm).eq_nil⟩
    have exactly : s.acceptedEdges.Perm (consecutive s.catalog.versions) ↔
        ∀ pair, pair ∈ s.acceptedEdges ↔ pair ∈ consecutive s.catalog.versions :=
      List.perm_ext_iff_of_nodup recorded.edges_once (consecutive_nodup _ ascending)
    rw [occupied, exactly]
    constructor
    · rintro ⟨runtime, created⟩
      rcases cases with ⟨_, some, exact⟩ | ⟨e, failed, _⟩ | ⟨e, failed, _⟩
      · exact ⟨some, exact⟩
      · rw [failed] at created
        cases created
      · rw [failed] at created
        cases created
    · rintro ⟨some, exact⟩
      rcases cases with ⟨made, _⟩ | ⟨e, _, _, fault⟩ | ⟨e, _, _, _, _, pair, inside, apart⟩
      · exact ⟨_, made⟩
      · rcases fault with none | ⟨pair, inside, apart⟩
        · exact absurd none some
        · exact absurd ((exact pair).mp inside) apart
      · exact absurd ((exact pair).mpr inside) apart
  · intro e created
    rcases cases with ⟨made, _⟩ | ⟨e', failed, code, fault⟩ | ⟨e', failed, code, _, adjacent, gap⟩
    · rw [made] at created
      cases created
    · rw [failed, Except.error.injEq] at created
      exact .inr ⟨created ▸ code, fault⟩
    · rw [failed, Except.error.injEq] at created
      exact .inl ⟨created ▸ code, adjacent, gap⟩
  · rintro calls' (accepted | made)
    · apply Setup.outcome_determined
      · exact fun v => (accepted.filterMap _).mem_iff.symm
      · exact fun p => (accepted.filterMap _).mem_iff.symm
    · exact (Setup.outcome_of_perm calls calls' made).symm

end ConfigManager.Guarantees
