import ConfigManager.Library.TreeWrites
import ConfigManager.Source.ConfigModel

/-!
# The reference configuration tree

What a configuration model is for, with no storage behind it: an ordered tree
whose root is an object, whose keys are addressable and whose depth is bounded.
The operations are the tree edits of the library behind the path grammar, and
they report the library's error codes.
-/

set_option autoImplicit false

namespace ConfigManager.Reference
open Library Source

abbrev Addressable (key : Bytes) : Prop := isAddressableKey key = true

/-- What every configuration tree satisfies. -/
structure Admissible (t : ConfigValue) : Prop where
  root : t.type = .object
  keys : Tree.WellKeyed Addressable t
  shallow : t.height ≤ kMaxTreeDepth

/-- Whether a value may sit at a depth: its keys are addressable and it is not too deep. -/
def Fits (depth : Nat) (value : ConfigValue) : Prop :=
  Tree.Every (fun s => ∀ key ∈ s.keys, Addressable key) value ∧
    depth + value.height ≤ kMaxTreeDepth

instance (depth : Nat) (value : ConfigValue) : Decidable (Fits depth value) := by
  unfold Fits
  infer_instance

/-- The error code for a step that leads nowhere. -/
def faultCode : Fault → ErrorCode
  | .mismatch => .invalidType
  | .absent => .nodeNotFound

/-- A fallible tree operation as the library reports it. -/
def coded {β : Type} : Except Fault β → Except ErrorCode β
  | .ok value => .ok value
  | .error f => .error (faultCode f)

@[simp] theorem coded_ok {β : Type} (value : β) : coded (.ok value) = .ok value := rfl

@[simp] theorem coded_error {β : Type} (f : Fault) :
    coded (.error f : Except Fault β) = .error (faultCode f) := rfl

def sameType (existing value : ConfigValue) : Bool := existing.type == value.type

def fromValue (value : ConfigValue) : Except ErrorCode ConfigValue :=
  if value.type ≠ .object then .error .invalidType
  else if Fits 0 value then .ok value
  else .error .invalidPath

def getValue (path : Bytes) (t : ConfigValue) : Except ErrorCode ConfigValue :=
  match outcome (ConfigPath.parse path) with
  | .error code => .error code
  | .ok segments => coded (Tree.locate segments t)

def contains (path : Bytes) (t : ConfigValue) : Bool := (getValue path t).isOk

def set (path : Bytes) (value t : ConfigValue) : Except ErrorCode ConfigValue :=
  match outcome (ConfigPath.parse path) with
  | .error code => .error code
  | .ok segments =>
      if Fits segments.length value then coded (Tree.upsert sameType segments value t)
      else .error .invalidPath

def remove (path : Bytes) (t : ConfigValue) : Except ErrorCode ConfigValue :=
  match outcome (ConfigPath.parse path) with
  | .error code => .error code
  | .ok segments => coded (Tree.remove segments t)

/-! ## Where a node is found after an operation that succeeded -/

/-- `existing` tells whether the path led to a node before the write. -/
def afterSet (existing : Bool) (path : Bytes) (position : List PathSegment) :
    Option (List PathSegment) :=
  match ConfigPath.parse path with
  | .error _ => some position
  | .ok segments => if existing then Tree.afterReplace segments position else some position

def afterRemove (path : Bytes) (position : List PathSegment) : Option (List PathSegment) :=
  match ConfigPath.parse path with
  | .error _ => some position
  | .ok segments => Tree.afterRemove segments position

/-! ## Parsed paths -/

theorem takeWhile_addressable (rest : Bytes)
    (nonempty : (rest.takeWhile fun c => !isReserved c).isEmpty = false) :
    Addressable (rest.takeWhile fun c => !isReserved c) := by
  have clean : (rest.takeWhile fun c => !isReserved c).any isReserved = false := by
    rw [List.any_eq_false]
    intro c inside
    have plain := List.all_eq_true.mp
      (List.all_takeWhile (p := fun c => !isReserved c) (l := rest)) c inside
    simpa using plain
  simp [Addressable, isAddressableKey, nonempty, clean]

/-- What the scanner has read so far: it starts with a key and all its keys are addressable. -/
def ReadOk (segments : List PathSegment) : Prop := ∀ key, Step.key key ∈ segments → Addressable key

theorem parseIndices_readOk (text : Bytes) (rounds : Nat) (rest : Bytes)
    (before : List PathSegment) (after : Bytes) (segments : List PathSegment)
    (ok : ReadOk before)
    (success : ConfigPath.parseIndices text rounds rest before = .ok (after, segments)) :
    ReadOk segments ∧ before <+: segments := by
  induction rounds generalizing rest before with
  | zero => cases success
  | succ rounds ih =>
    cases rest with
    | nil =>
      cases success
      exact ⟨ok, List.prefix_refl _⟩
    | cons c rest =>
      simp only [ConfigPath.parseIndices] at success
      split at success
      · cases success
        exact ⟨ok, List.prefix_refl _⟩
      · split at success
        · cases success
        · split at success
          · cases success
          · split at success
            · cases success
            · split at success
              · cases success
              · have grown : ReadOk (before ++ [.index (digitsValue (rest.takeWhile isDigit))]) := by
                  intro key inside
                  rcases List.mem_append.mp inside with old | new
                  · exact ok key old
                  · simp at new
                obtain ⟨read, shared⟩ := ih _ _ grown success
                exact ⟨read, (List.prefix_append _ _).trans shared⟩

theorem parseSegments_readOk (text : Bytes) (rounds : Nat) (rest : Bytes)
    (before segments : List PathSegment) (ok : ReadOk before)
    (success : ConfigPath.parseSegments text rounds rest before = .ok segments) :
    ReadOk segments ∧ before <+: segments ∧ before.length < segments.length := by
  induction rounds generalizing rest before with
  | zero => cases success
  | succ rounds ih =>
    simp only [ConfigPath.parseSegments] at success
    split at success
    · cases success
    · next nonempty =>
      rw [Bool.not_eq_true] at nonempty
      have grown : ReadOk (before ++ [.key (rest.takeWhile fun c => !isReserved c)]) := by
        intro key inside
        rcases List.mem_append.mp inside with old | new
        · exact ok key old
        · rw [List.mem_singleton, Step.key.injEq] at new
          rw [new]
          exact takeWhile_addressable rest nonempty
      have longer := List.prefix_append before [.key (rest.takeWhile fun c => !isReserved c)]
      have counted : (before ++ [Step.key (rest.takeWhile fun c => !isReserved c)]).length =
          before.length + 1 := by simp
      split at success
      · cases success
      · next read indices =>
        cases success
        obtain ⟨clean, shared⟩ := parseIndices_readOk _ _ _ _ _ _ grown indices
        have bound := shared.length_le
        exact ⟨clean, longer.trans shared, by omega⟩
      · next c next read indices =>
        obtain ⟨clean, shared⟩ := parseIndices_readOk _ _ _ _ _ _ grown indices
        have bound := shared.length_le
        split at success
        · obtain ⟨clean', shared', bound'⟩ := ih next read clean success
          exact ⟨clean', (longer.trans shared).trans shared', by omega⟩
        · cases success

/-- Every key of a parsed path is addressable, and a parsed path has a segment. -/
theorem parse_readOk (path : Bytes) (segments : List PathSegment)
    (success : ConfigPath.parse path = .ok segments) :
    (∀ key, Step.key key ∈ segments → Addressable key) ∧ segments ≠ [] := by
  unfold ConfigPath.parse at success
  split at success
  · cases success
  · obtain ⟨clean, _, longer⟩ := parseSegments_readOk _ _ _ _ _ (by simp [ReadOk]) success
    exact ⟨clean, List.ne_nil_of_length_pos (Nat.lt_of_le_of_lt (Nat.zero_le _) longer)⟩

/-! ## Admissible trees stay admissible -/

theorem wellKeyed_of_fits (depth : Nat) (value : ConfigValue) (fits : Fits depth value)
    (distinct : value.KeysDistinct) : Tree.WellKeyed Addressable value := by
  have addressable := fits.1
  clear fits
  induction value using Tree.children_induction with
  | node value ih =>
    obtain ⟨here, below⟩ := (Tree.every_iff _ _).mp distinct
    obtain ⟨named, named'⟩ := (Tree.every_iff _ _).mp addressable
    exact (Tree.wellKeyed_iff _).mpr ⟨⟨here, named⟩, fun c member =>
      ih c member (below c member) (named' c member)⟩

theorem Admissible.keysDistinct {t : ConfigValue} (ok : Admissible t) : t.KeysDistinct :=
  Tree.Every.mono (fun _ here => here.1) ok.keys

theorem Admissible.fits {t : ConfigValue} (ok : Admissible t) : Fits 0 t :=
  ⟨Tree.Every.mono (fun _ here => here.2) ok.keys, by simpa using ok.shallow⟩

theorem admissible_empty : Admissible ConfigValue.object := by
  refine ⟨rfl, (Tree.wellKeyed_iff _).mpr ⟨by simp [ConfigValue.object, Tree.keys], ?_⟩, ?_⟩
  · simp [ConfigValue.object, Tree.children]
  · exact Nat.zero_le _

theorem fromValue_admissible (value : BuiltValue) (t : ConfigValue)
    (success : fromValue value.1 = .ok t) : t = value.1 ∧ Admissible t := by
  unfold fromValue at success
  split at success
  · cases success
  · next isObject =>
    rw [ne_eq, not_not] at isObject
    split at success
    · next fits =>
      cases success
      refine ⟨rfl, isObject, wellKeyed_of_fits 0 _ fits value.2, ?_⟩
      have bound := fits.2
      omega
    · cases success

theorem putChild_type (s : PathSegment) (c t : ConfigValue) :
    ConfigValue.type (Tree.putChild s c t) = t.type := by
  cases s <;> cases t <;> rfl

theorem addChild_type (s : PathSegment) (c t : ConfigValue) :
    ConfigValue.type (Tree.addChild s c t) = t.type := by
  cases s <;> cases t <;> rfl

theorem dropChild_type (s : PathSegment) (t : ConfigValue) :
    ConfigValue.type (Tree.dropChild s t) = t.type := by
  cases s <;> cases t <;> rfl

theorem replace_type (p : List PathSegment) (n t x : ConfigValue)
    (found : Tree.locate p t = .ok x) (same : n.type = x.type) :
    ConfigValue.type (Tree.replace p n t) = t.type := by
  cases p with
  | nil => cases found; exact same
  | cons s p =>
    obtain ⟨c, step, _⟩ := Tree.locate_cons_success s p t x found
    rw [Tree.replace_cons_ok _ _ _ _ _ step, putChild_type]

theorem upsert_type (p : List PathSegment) (v t t' : ConfigValue)
    (success : Tree.upsert sameType p v t = .ok t') : t'.type = t.type := by
  cases p with
  | nil =>
    rw [Tree.upsert] at success
    split at success
    · next same =>
      cases success
      exact (beq_iff_eq.mp same).symm
    · cases success
  | cons s p =>
    rw [Tree.upsert] at success
    cases step : Tree.descend s t with
    | ok c =>
      simp only [step] at success
      cases inner : Tree.upsert sameType p v c with
      | error f => simp [inner, Except.map] at success
      | ok c' =>
        simp only [inner, Except.map, Except.ok.injEq] at success
        rw [← success, putChild_type]
    | error f =>
      cases f with
      | mismatch => simp [step] at success
      | absent =>
        simp only [step] at success
        split at success
        · cases made : Tree.create p v with
          | error f => simp [made, Except.map] at success
          | ok c =>
            simp only [made, Except.map, Except.ok.injEq] at success
            rw [← success, addChild_type]
        · cases success

theorem upsert_admissible (segments : List PathSegment) (value t t' : ConfigValue)
    (names : ∀ key, Step.key key ∈ segments → Addressable key)
    (fits : Fits segments.length value) (distinct : value.KeysDistinct) (ok : Admissible t)
    (success : Tree.upsert sameType segments value t = .ok t') : Admissible t' :=
  ⟨(upsert_type _ _ _ _ success).trans ok.root,
    Tree.wellKeyed_upsert sameType segments value t t' success names
      (wellKeyed_of_fits _ _ fits distinct) ok.keys,
    Tree.height_upsert_le sameType segments value t t' _ success ok.shallow fits.2⟩

theorem drop_admissible (q : List PathSegment) (s : PathSegment) (t x c : ConfigValue)
    (anchor : Tree.locate q t = .ok x) (step : Tree.descend s x = .ok c) (ok : Admissible t) :
    Admissible (Tree.replace q (Tree.dropChild s x) t) :=
  ⟨(replace_type q _ t x anchor (dropChild_type s x)).trans ok.root,
    ok.keys.replace q anchor ((ok.keys.locate q anchor).dropChild s step),
    Nat.le_trans (Tree.height_replace_le q _ t x anchor (Tree.height_dropChild_le s c x step))
      ok.shallow⟩

/-! ## When a write succeeds -/

/-- A write succeeds exactly when the path parses, the value fits at its depth, and the
path leads to a node of the value's type or to room for fresh containers. -/
theorem set_ok_iff (path : Bytes) (value t : ConfigValue) :
    (∃ t', set path value t = .ok t') ↔
      ∃ segments, ConfigPath.parse path = .ok segments ∧ Fits segments.length value ∧
        Tree.Writable sameType segments value t := by
  unfold set
  cases parsed : ConfigPath.parse path with
  | error e => simp [outcome]
  | ok segments =>
    simp only [outcome_ok, Except.ok.injEq, exists_eq_left', ← Tree.upsert_ok_iff]
    by_cases fits : Fits segments.length value
    · rw [if_pos fits]
      cases Tree.upsert sameType segments value t <;> simp [fits]
    · simp [fits]

end ConfigManager.Reference
