import ConfigManager.Refinement.Handles

/-!
# Handles stay valid exactly until their node is detached

A session is one model, the operations on it and the handles obtained on the
way. Each held handle carries the position its node is tracked at, which only
the outcomes of the operations change, and how often its slot had been released
when it was issued. The generation counter wraps at 2^32, so a detached handle
is only recognized for fewer releases than that.
-/

set_option autoImplicit false

namespace ConfigManager.Guarantees
open Library Source Reference Refinement

structure Held where
  handle : ConfigNode
  /-- Where the node is, or `none` once it was detached. -/
  position : Option (List PathSegment)
  /-- Releases of the slot at the time of issue. -/
  issuedAt : Nat

def Held.move (after : List PathSegment → Option (List PathSegment)) (g : Held) : Held :=
  { g with position := g.position.bind after }

/-- Only a successful operation moves or detaches nodes. -/
def moved (answer : Result Unit) (after : List PathSegment → Option (List PathSegment))
    (held : List Held) : List Held :=
  match answer with
  | .ok _ => held.map (Held.move after)
  | .error _ => held

/-- `h` is what one accessor call on `g` hands out, and the step it stands for. -/
inductive Follow (a : NodeArena) (g : ConfigNode) : PathSegment → ConfigNode → Prop where
  | child (key : Bytes) (h : ConfigNode) (got : g.child a key = .ok h) : Follow a g (.key key) h
  | at (index : Nat) (h : ConfigNode) (got : g.at a index = .ok h) : Follow a g (.index index) h
  | member (listed : List (Bytes × ConfigNode)) (entry : Bytes × ConfigNode)
      (got : g.members a = .ok listed) (inside : entry ∈ listed) :
      Follow a g (.key entry.1) entry.2

/-- `h` is obtained from the model while `held` are held, for the node at `p`. -/
inductive Obtained (m : ConfigModel) (held : List Held) : ConfigNode → List PathSegment → Prop where
  | root : Obtained m held m.root []
  | nodeAt (path : Bytes) (segments : List PathSegment) (h : ConfigNode)
      (parsed : ConfigPath.parse path = .ok segments) (got : m.nodeAt path = .ok h) :
      Obtained m held h segments
  | follow (g : Held) (step : PathSegment) (h : ConfigNode) (p : List PathSegment)
      (holds : g ∈ held) (got : Follow m.arena g.handle step h) (sits : m.resolve p = .ok h.id) :
      Obtained m held h p

inductive Session : ConfigModel → List Held → Prop where
  | start (m : ConfigModel) (reached : Reachable m) : Session m []
  | set (m : ConfigModel) (held : List Held) (path : Bytes) (value : BuiltValue)
      (before : Session m held) :
      Session (m.set path value.1).2
        (moved (m.set path value.1).1 (afterSet (m.contains path) path) held)
  | remove (m : ConfigModel) (held : List Held) (path : Bytes) (before : Session m held) :
      Session (m.remove path).2 (moved (m.remove path).1 (afterRemove path) held)
  | obtain (m : ConfigModel) (held : List Held) (h : ConfigNode) (p : List PathSegment)
      (before : Session m held) (obtained : Obtained m held h p) :
      Session m (⟨h, some p, (m.arena.get h.id).releases⟩ :: held)

/-- What holds of every handle of a session. -/
structure HandlesTrack (m : ConfigModel) (held : List Held) : Prop where
  valid_iff : ∀ g ∈ held, (m.arena.get g.handle.id).releases < g.issuedAt + 2 ^ 32 →
    (g.handle.valid m.arena = true ↔ g.position.isSome = true)
  /-- An attached handle navigates and reads the subtree at its current position. -/
  reads : ∀ g ∈ held, ∀ p, g.position = some p →
    ∃ x, Tree.locate p (contents m) = .ok x ∧ NavigatesAs m.arena g.handle x
  /-- Every handle that an accessor hands out has a position, one step below its origin. -/
  follows : ∀ g ∈ held, ∀ step h, Follow m.arena g.handle step h →
    ∃ p, m.resolve p = .ok h.id ∧ ∀ q, g.position = some q → p = q ++ [step]
  /-- A successful write is what handles read at its path from then on. -/
  writes : ∀ path segments, ∀ value : BuiltValue, ConfigPath.parse path = .ok segments →
    (m.set path value.1).1 = .ok () →
      Tree.locate segments (contents (m.set path value.1).2) = .ok value.1

/-! ## The invariant of a session -/

structure Tracked (a : NodeArena) (t : SlotTree) (g : Held) : Prop where
  generation : g.handle.generation = Fin.ofNat (2 ^ 32) g.issuedAt
  attached : ∀ p, g.position = some p → ∃ x, Tree.locate p t = .ok x ∧
    x.label = g.handle.id ∧ (a.get g.handle.id).releases = g.issuedAt
  detached : g.position = none → g.issuedAt < (a.get g.handle.id).releases

theorem Tracked.move {a a' : NodeArena} {t t' : SlotTree} {g : Held}
    (after : List PathSegment → Option (List PathSegment)) (tracked : Tracked a t g)
    (moves : Moves a a' t t' after) : Tracked a' t' (g.move after) := by
  refine ⟨tracked.generation, fun p' now => ?_, fun now => ?_⟩
  · cases before : g.position with
    | none => simp [Held.move, before] at now
    | some p =>
      simp only [Held.move, before, Option.bind_some] at now
      obtain ⟨x, found, label, releases⟩ := tracked.attached p before
      obtain ⟨y, there, same, kept⟩ := moves.kept p x p' found now
      refine ⟨y, there, same.trans label, ?_⟩
      change (a'.get g.handle.id).releases = g.issuedAt
      rw [← releases, ← label]
      exact kept
  · change g.issuedAt < (a'.get g.handle.id).releases
    cases before : g.position with
    | none => exact Nat.lt_of_lt_of_le (tracked.detached before) (moves.monotone _)
    | some p =>
      simp only [Held.move, before, Option.bind_some] at now
      obtain ⟨x, found, label, releases⟩ := tracked.attached p before
      have gone := moves.gone p x found now
      rw [label, releases] at gone
      omega

/-- A handle issued for a located node. -/
theorem tracked_issue {m : ConfigModel} {t x : SlotTree} (r : Represents m t)
    (p : List PathSegment) (found : Tree.locate p t = .ok x) :
    Tracked m.arena t ⟨ConfigNode.issue m.arena x.label, some p, (m.arena.get x.label).releases⟩ := by
  refine ⟨r.consistent.counted x.label, fun q same => ?_, fun none => by cases none⟩
  cases same
  exact ⟨x, found, rfl, rfl⟩

/-- A successful resolution names a node of the tree. -/
theorem resolve_sound {m : ConfigModel} {t : SlotTree} (r : Represents m t)
    (p : List PathSegment) (id : NodeId) (success : m.resolve p = .ok id) :
    ∃ x, Tree.locate p t = .ok x ∧ x.label = id := by
  cases found : Tree.locate p t with
  | error f =>
    have failed := r.resolve_error p f found
    simp [success] at failed
  | ok x =>
    rw [r.resolve_ok p found, Except.ok.injEq] at success
    exact ⟨x, rfl, success⟩

/-- The node of a live slot, wherever it is. -/
theorem live_located {m : ConfigModel} {t : SlotTree} (r : Represents m t) (i : NodeId)
    (alive : m.arena.live i = true) : ∃ p x, Tree.locate p t = .ok x ∧ x.label = i := by
  have keyed : Tree.WellKeyed Addressable t := (Tree.wellKeyed_forget t).mp r.admissible.keys
  apply keyed.locate_of_label i
  rw [live_iff_liveCount, ← r.slots] at alive
  exact List.count_pos_iff.mp (by omega)

/-- An accessor call that hands out a handle issues it for a child. -/
theorem follow_sound {m : ConfigModel} {t x : SlotTree} (r : Represents m t)
    (q : List PathSegment) (found : Tree.locate q t = .ok x) (g : ConfigNode)
    (issued : g = ConfigNode.issue m.arena x.label) (step : PathSegment) (h : ConfigNode)
    (follow : Follow m.arena g step h) :
    ∃ c, Tree.locate (q ++ [step]) t = .ok c ∧ h = ConfigNode.issue m.arena c.label := by
  obtain ⟨up, rep⟩ := r.rep.locate q found
  have below : ∀ s c, Tree.descend s x = .ok c → Tree.locate (q ++ [s]) t = .ok c := by
    intro s c down
    rw [Tree.locate_append q [s] t x found, Tree.locate_cons_ok s [] x c down]
    rfl
  have byChild : ∀ key, g.child m.arena key = .ok h →
      ∃ c, Tree.locate (q ++ [.key key]) t = .ok c ∧ h = ConfigNode.issue m.arena c.label := by
    intro key got
    have spec := child_spec m.arena up x rep key
    rw [issued] at got
    cases down : Tree.descend (.key key) x with
    | error f => simp [down, got] at spec
    | ok c =>
      simp only [down, got, Except.ok.injEq] at spec
      exact ⟨c, below _ c down, spec⟩
  cases follow with
  | child key _ got => exact byChild key got
  | «at» index _ got =>
    have spec := at_spec m.arena up x rep index
    rw [issued] at got
    cases down : Tree.descend (.index index) x with
    | error f => simp [down, got] at spec
    | ok c =>
      simp only [down, got, Except.ok.injEq] at spec
      exact ⟨c, below _ c down, spec⟩
  | member listed entry got inside =>
    have keyed : Tree.WellKeyed Addressable x :=
      ((Tree.wellKeyed_forget t).mp r.admissible.keys).locate q found
    have shows := issue_shows m.arena up x rep ((Tree.wellKeyed_iff x).mp keyed).1.1
    rw [issued] at got
    exact byChild entry.1 (by rw [issued]; exact shows.handles listed got entry inside)

/-- A call on a handle succeeds only while its slot is live and of its generation. -/
theorem follow_valid (a : NodeArena) (g h : ConfigNode) (step : PathSegment)
    (follow : Follow a g step h) : g.valid a = true := by
  by_contra stale
  have lost : g.findLive a = none := by
    unfold ConfigNode.findLive
    exact if_neg stale
  cases follow with
  | child key _ got => simp [ConfigNode.child, lost, ConfigNode.staleError, fail] at got
  | «at» index _ got => simp [ConfigNode.at, lost, ConfigNode.staleError, fail] at got
  | member listed entry got inside =>
    simp [ConfigNode.members, lost, ConfigNode.staleError, fail] at got

theorem obtained_tracked {m : ConfigModel} {t : SlotTree} (r : Represents m t) (held : List Held)
    (h : ConfigNode) (p : List PathSegment) (obtained : Obtained m held h p) :
    Tracked m.arena t ⟨h, some p, (m.arena.get h.id).releases⟩ := by
  cases obtained with
  | root =>
    have issued := tracked_issue r [] rfl
    rw [r.label] at issued
    exact issued
  | nodeAt path _ _ parsed got =>
    unfold ConfigModel.nodeAt at got
    rw [parsed] at got
    cases answer : m.resolve p with
    | error e => simp [answer] at got
    | ok id =>
      simp only [answer, Except.ok.injEq] at got
      obtain ⟨x, found, rfl⟩ := resolve_sound r p id answer
      rw [← got]
      exact tracked_issue r p found
  | follow g step _ _ holds got sits =>
    -- The origin may be any handle whose slot and generation are current.
    have valid := follow_valid m.arena g.handle h step got
    have issued := valid_eq_issue m.arena g.handle valid
    obtain ⟨alive, _⟩ := (NodeArena.matches_iff _ _ _).mp valid
    obtain ⟨q, x, found, label⟩ := live_located r g.handle.id alive
    rw [← label] at issued
    obtain ⟨c, _, handed⟩ := follow_sound r q found g.handle issued step h got
    obtain ⟨y, found', label'⟩ := resolve_sound r p h.id sits
    have same : y.label = c.label := by
      rw [label', handed]
      rfl
    rw [handed, ← same]
    exact tracked_issue r p found'

theorem session_tracked (m : ConfigModel) (held : List Held) (session : Session m held) :
    ∃ t, Represents m t ∧ ∀ g ∈ held, Tracked m.arena t g := by
  induction session with
  | start m reached =>
    obtain ⟨t, r⟩ := reachable_represents reached
    exact ⟨t, r, by simp⟩
  | set m held path value _ ih =>
    obtain ⟨t, r, tracked⟩ := ih
    have spec := set_spec m t r path value.1 value.2
    cases written : Reference.set path value.1 t.forget with
    | error code =>
      rw [written] at spec
      obtain ⟨failed, same⟩ := spec
      cases answer : (m.set path value.1).1 with
      | ok u => simp [answer] at failed
      | error e =>
        rw [same]
        exact ⟨t, r, tracked⟩
    | ok new =>
      rw [written] at spec
      obtain ⟨success, t', r', _, moves⟩ := spec
      rw [success]
      refine ⟨t', r', fun g inside => ?_⟩
      obtain ⟨g', inside', rfl⟩ := List.mem_map.mp inside
      exact (tracked g' inside').move _ moves
  | remove m held path _ ih =>
    obtain ⟨t, r, tracked⟩ := ih
    have spec := remove_spec m t r path
    cases removed : Reference.remove path t.forget with
    | error code =>
      rw [removed] at spec
      obtain ⟨failed, same⟩ := spec
      cases answer : (m.remove path).1 with
      | ok u => simp [answer] at failed
      | error e =>
        rw [same]
        exact ⟨t, r, tracked⟩
    | ok new =>
      rw [removed] at spec
      obtain ⟨success, t', r', _, moves⟩ := spec
      rw [success]
      refine ⟨t', r', fun g inside => ?_⟩
      obtain ⟨g', inside', rfl⟩ := List.mem_map.mp inside
      exact (tracked g' inside').move _ moves
  | obtain m held h p _ obtained ih =>
    obtain ⟨t, r, tracked⟩ := ih
    refine ⟨t, r, fun g inside => ?_⟩
    rcases List.mem_cons.mp inside with rfl | older
    · exact obtained_tracked r held h p obtained
    · exact tracked g older

/-- Distinct release counts less than 2^32 apart give distinct generations. -/
theorem generation_ne (before now : Nat) (later : before < now) (close : now < before + 2 ^ 32) :
    Fin.ofNat (2 ^ 32) now ≠ Fin.ofNat (2 ^ 32) before := by
  intro same
  have values := congrArg Fin.val same
  simp only [Fin.ofNat] at values
  omega

theorem tracked_handle {m : ConfigModel} {t : SlotTree} (r : Represents m t) (g : Held)
    (tracked : Tracked m.arena t g) (p : List PathSegment) (attached : g.position = some p) :
    ∃ x, Tree.locate p t = .ok x ∧ g.handle = ConfigNode.issue m.arena x.label := by
  obtain ⟨x, found, label, releases⟩ := tracked.attached p attached
  refine ⟨x, found, ?_⟩
  have current := r.consistent.counted g.handle.id
  rw [releases, ← tracked.generation] at current
  rw [label, ConfigNode.issue, current]

theorem Tracked.valid_iff {m : ConfigModel} {t : SlotTree} (r : Represents m t) {g : Held}
    (tracked : Tracked m.arena t g)
    (recent : (m.arena.get g.handle.id).releases < g.issuedAt + 2 ^ 32) :
    g.handle.valid m.arena = true ↔ g.position.isSome = true := by
  cases position : g.position with
  | none =>
    refine ⟨fun valid => ?_, fun attached => by cases attached⟩
    obtain ⟨_, same⟩ := (NodeArena.matches_iff _ _ _).mp valid
    rw [tracked.generation, r.consistent.counted] at same
    exact absurd same (generation_ne _ _ (tracked.detached position) recent)
  | some p =>
    refine ⟨fun _ => rfl, fun _ => ?_⟩
    obtain ⟨x, found, issued⟩ := tracked_handle r g tracked p position
    obtain ⟨up, rep⟩ := r.rep.locate p found
    rw [issued]
    exact issue_valid m.arena x.label rep.alive

theorem Tracked.reads {m : ConfigModel} {t : SlotTree} (r : Represents m t) {g : Held}
    (tracked : Tracked m.arena t g) (p : List PathSegment) (attached : g.position = some p) :
    ∃ x, Tree.locate p (contents m) = .ok x ∧ NavigatesAs m.arena g.handle x := by
  obtain ⟨x, found, issued⟩ := tracked_handle r g tracked p attached
  obtain ⟨up, rep⟩ := r.rep.locate p found
  have plain : Tree.locate p t.forget = .ok x.forget := by
    rw [Tree.locate_forget, found]
    rfl
  rw [contents_eq r, issued]
  exact ⟨x.forget, plain, issue_navigates m.arena up x rep
    (Tree.Every.mono (fun _ here => here.1) (r.admissible.keys.locate p plain))⟩

theorem Tracked.follows {m : ConfigModel} {t : SlotTree} (r : Represents m t) {g : Held}
    (tracked : Tracked m.arena t g) (step : PathSegment) (h : ConfigNode)
    (got : Follow m.arena g.handle step h) :
    ∃ p, m.resolve p = .ok h.id ∧ ∀ q, g.position = some q → p = q ++ [step] := by
  have valid := follow_valid m.arena g.handle h step got
  obtain ⟨alive, _⟩ := (NodeArena.matches_iff _ _ _).mp valid
  cases position : g.position with
  | some q =>
    obtain ⟨x, found, issued⟩ := tracked_handle r g tracked q position
    obtain ⟨c, below, handed⟩ := follow_sound r q found g.handle issued step h got
    refine ⟨q ++ [step], ?_, fun q' same => by cases same; rfl⟩
    rw [r.resolve_ok _ below, handed]
    rfl
  | none =>
    obtain ⟨q, x, found, label⟩ := live_located r g.handle.id alive
    have issued := valid_eq_issue m.arena g.handle valid
    rw [← label] at issued
    obtain ⟨c, below, handed⟩ := follow_sound r q found g.handle issued step h got
    refine ⟨q ++ [step], ?_, fun q' same => by cases same⟩
    rw [r.resolve_ok _ below, handed]
    rfl

/-- Over every run of writes and removals: a handle is valid iff its node was not detached,
it then reads the subtree at the node's current position, and detaching is what a removal
at or above the node does, or a write in place strictly above it. -/
theorem session_handles_track (m : ConfigModel) (held : List Held) (session : Session m held) :
    HandlesTrack m held ∧
      ∀ path segments p, ConfigPath.parse path = .ok segments →
        (afterRemove path p = none ↔ segments <+: p) ∧
          ∀ existing, afterSet existing path p = none ↔
            existing = true ∧ segments <+: p ∧ segments ≠ p := by
  obtain ⟨t, r, tracked⟩ := session_tracked m held session
  refine ⟨⟨fun g holds => (tracked g holds).valid_iff r, fun g holds => (tracked g holds).reads r,
    fun g holds => (tracked g holds).follows r, fun path segments value parsed success => ?_⟩,
    fun path segments p parsed => ⟨?_, ?_⟩⟩
  · obtain ⟨t', r', upserted⟩ :=
      (set_written m t r path segments parsed value.1 value.2).1 success
    rw [contents_eq r']
    exact Tree.locate_upsert sameType segments value.1 t.forget _ upserted
  · simp only [afterRemove, parsed]
    exact Tree.afterRemove_none_iff segments p (parse_readOk path segments parsed).2
  · intro existing
    simp only [afterSet, parsed]
    cases existing with
    | false => simp
    | true => simp [Tree.afterReplace]

def twoElements : BuiltValue :=
  ⟨(ConfigValue.array.push (ConfigValue.of (.int 1))).push (ConfigValue.of (.int 2)), by decide⟩

/-- The second of two elements, held while the first is removed. -/
theorem second_element_tracks :
    HandlesTrack ((ConfigModel.empty.set (bytes "a") twoElements.1).2.remove (bytes "a[0]")).2
      (moved ((ConfigModel.empty.set (bytes "a") twoElements.1).2.remove (bytes "a[0]")).1
        (afterRemove (bytes "a[0]"))
        [⟨⟨3, 0⟩, some [.key (bytes "a"), .index 1],
          ((ConfigModel.empty.set (bytes "a") twoElements.1).2.arena.get 3).releases⟩]) :=
  (session_handles_track _ _ (.remove _ _ _ (.obtain _ _ ⟨3, 0⟩ _
    (.set _ _ _ twoElements (.start _ .empty))
    (.nodeAt (bytes "a[1]") _ _ (by decide) (by decide))))).1

end ConfigManager.Guarantees
