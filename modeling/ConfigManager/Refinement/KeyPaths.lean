import ConfigManager.Refinement.PathScanning

/-!
# Paths joined from keys

A path that joins addressable keys with dots parses back to those keys, and
appending one key to it is appending one segment.
-/

set_option autoImplicit false

namespace ConfigManager.Refinement
open Library Source Reference

def joinKeys : List Bytes → Bytes
  | [] => []
  | [key] => key
  | key :: next :: rest => key ++ dot :: joinKeys (next :: rest)

/-- The segments that name a descendant through objects only. -/
def keySteps (keys : List Bytes) : List PathSegment := keys.map Step.key

@[simp] theorem keySteps_nil : keySteps [] = [] := rfl

@[simp] theorem keySteps_length (keys : List Bytes) : (keySteps keys).length = keys.length :=
  List.length_map _

theorem keySteps_append (keys : List Bytes) (key : Bytes) :
    keySteps (keys ++ [key]) = keySteps keys ++ [.key key] := by
  simp [keySteps]

theorem joinKeys_rendered (key : Bytes) (keys : List Bytes) :
    joinKeys (key :: keys) = renderPath (keySteps (key :: keys)) := by
  induction keys generalizing key with
  | nil => simp [joinKeys, keySteps, renderPath]
  | cons next rest ih =>
    rw [joinKeys, ih next]
    simp [keySteps, renderPath, renderNext]

theorem joinKeys_length (keys : List Bytes) (names : ∀ k ∈ keys, Addressable k) :
    keys.length ≤ (joinKeys keys).length := by
  induction keys with
  | nil => exact Nat.le_refl _
  | cons key rest ih =>
    have later := ih fun k inside => names k (List.mem_cons_of_mem _ inside)
    have positive := List.length_pos_iff.mpr ((addressable_iff key).mp (names key (by simp))).1
    cases rest with
    | nil =>
      simp only [joinKeys, List.length_cons, List.length_nil]
      omega
    | cons next rest =>
      simp only [joinKeys, List.length_cons, List.length_append] at later ⊢
      omega

/-- Joined addressable keys parse back to the keys. -/
theorem parse_joinKeys (keys : List Bytes) (some_ : keys ≠ []) (names : ∀ k ∈ keys, Addressable k) :
    ConfigPath.parse (joinKeys keys) = .ok (keySteps keys) := by
  cases keys with
  | nil => exact absurd rfl some_
  | cons key rest =>
    rw [joinKeys_rendered]
    apply parse_renderPath
    · intro name inside
      have member : name ∈ key :: rest := by simpa [keySteps] using inside
      exact names name member
    · simp

theorem joinKeys_append (keys : List Bytes) (key : Bytes) (names : ∀ k ∈ keys, Addressable k) :
    joinKeys (keys ++ [key]) =
      if (joinKeys keys).isEmpty then key else joinKeys keys ++ bytes "." ++ key := by
  have separator : bytes "." = [dot] := by decide
  cases keys with
  | nil => simp [joinKeys]
  | cons first rest =>
    have bound := joinKeys_length (first :: rest) names
    have nonempty : (joinKeys (first :: rest)).isEmpty = false := by
      rw [List.isEmpty_eq_false_iff]
      intro empty
      rw [empty] at bound
      simp at bound
    rw [nonempty, if_neg (by simp), separator]
    clear bound nonempty names separator
    induction rest generalizing first with
    | nil => simp [joinKeys]
    | cons next rest ih =>
      have tail := ih next
      simp only [List.cons_append] at tail ⊢
      simp only [joinKeys]
      rw [tail]
      simp

end ConfigManager.Refinement
