import ConfigManager.Refinement.PathScanning

/-!
# The path grammar is exact

`ConfigPath::parse` against the grammar its header documents. An index is a
`std::size_t`, so a segment list holds values below `2 ^ 64`.
-/

set_option autoImplicit false

namespace ConfigManager.Guarantees
open Library Source Reference Refinement

theorem leading_zero (digits : Bytes) : digitsValue (48 :: digits) = digitsValue digits := rfl

/-- The scanner terminates: rounds beyond the bytes still unread change neither loop. It
succeeds exactly on the texts with a derivation whose indices are below `2 ^ 64`, with the
steps of that derivation; a text has at most one derivation; every other text fails with
`InvalidPath`; zeros in front of an index do not count; and a rendered list of segments
that starts with a key parses back to itself. -/
theorem parse_exact :
    (∀ (text unread : Bytes) (read : List PathSegment) (rounds : Nat), unread.length < rounds →
      ConfigPath.parseSegments text rounds unread read =
        ConfigPath.parseSegments text (unread.length + 1) unread read ∧
      ConfigPath.parseIndices text rounds unread read =
        ConfigPath.parseIndices text (unread.length + 1) unread read) ∧
    (∀ text segments, ConfigPath.parse text = .ok segments ↔
      ∃ tree : PathTree, tree.text = text ∧ tree.InRange ∧ tree.steps = segments) ∧
    (∀ tree tree' : PathTree, tree.text = tree'.text → tree = tree') ∧
    (∀ text, (¬∃ tree : PathTree, tree.text = text ∧ tree.InRange) →
      ∃ message, ConfigPath.parse text = fail .invalidPath message) ∧
    (∀ digits, digitsValue (48 :: digits) = digitsValue digits) ∧
    ∀ (name : Bytes) (segments : List PathSegment),
      (∀ key, Step.key key ∈ .key name :: segments → Addressable key) →
      (∀ n, Step.index n ∈ segments → n < sizeLimit) →
      ConfigPath.parse (renderPath (.key name :: segments)) = .ok (.key name :: segments) := by
  refine ⟨?_, ?_, derivation_unique, ?_, leading_zero, parse_renderPath⟩
  · intro text unread read rounds enough
    constructor
    · exact parseSegments_rounds text unread read _ _ enough (Nat.lt_succ_self _)
    · exact parseIndices_rounds text unread read _ _ enough (Nat.lt_succ_self _)
  · intro text segments
    constructor
    · intro parsed
      obtain ⟨tree, derives, steps, small⟩ := parse_ok text segments parsed
      exact ⟨tree, derives, small, steps⟩
    · rintro ⟨tree, rfl, small, rfl⟩
      exact parse_derived tree small
  · intro text underivable
    cases parsed : ConfigPath.parse text with
    | ok segments =>
      obtain ⟨tree, derives, _, small⟩ := parse_ok text segments parsed
      exact absurd ⟨tree, derives, small⟩ underivable
    | error e =>
      have code := parse_code text e parsed
      obtain ⟨kind, message⟩ := e
      change kind = .invalidPath at code
      subst code
      exact ⟨message, rfl⟩

end ConfigManager.Guarantees
