import Mathlib.Logic.Function.Basic

/-!
# Processes that take turns on a shared state

Any number of processes, of which each step is a step of one of them. What holds in every
state that can be reached follows from one process's own steps and from what its steps
leave of the claims of another one.
-/

set_option autoImplicit false

namespace ConfigManager.Library

universe u v w

/-- What a step of the process `i` may do to its own state and to the shared one. -/
abbrev Moves (ι : Type u) (π : Type v) (δ : Type w) := ι → π → δ → π → δ → Prop

variable {ι : Type u} {π : Type v} {δ : Type w} [DecidableEq ι]

/-- The states that are reached when the processes take turns, in any order. -/
inductive Interleaved (moves : Moves ι π δ) (processes : ι → π) (shared : δ) :
    (ι → π) → δ → Prop where
  | start : Interleaved moves processes shared processes shared
  | turn (reached : ι → π) (now : δ) (i : ι) (p : π) (then_ : δ)
      (before : Interleaved moves processes shared reached now)
      (move : moves i (reached i) now p then_) :
      Interleaved moves processes shared (Function.update reached i p) then_

/-- `Shared` speaks about the shared state, `Own` about one process in it, `Apart` about two
processes. A step keeps what its process relies on and spoils nothing of another one. -/
structure Respects (moves : Moves ι π δ) (Shared : δ → Prop) (Own : ι → π → δ → Prop)
    (Apart : ι → π → ι → π → Prop) : Prop where
  symmetric : ∀ i p j q, Apart i p j q → Apart j q i p
  own : ∀ i p now p' then_, Shared now → Own i p now → moves i p now p' then_ →
    Shared then_ ∧ Own i p' then_
  others : ∀ i j p q now p' then_, i ≠ j → Shared now → Own i p now → Own j q now →
    Apart i p j q → moves i p now p' then_ → Own j q then_ ∧ Apart i p' j q

theorem Respects.reached {moves : Moves ι π δ} {Shared : δ → Prop} {Own : ι → π → δ → Prop}
    {Apart : ι → π → ι → π → Prop} (respects : Respects moves Shared Own Apart) {processes : ι → π}
    {shared : δ} (sound : Shared shared) (each : ∀ i, Own i (processes i) shared)
    (pairs : ∀ i j, i ≠ j → Apart i (processes i) j (processes j)) {reached : ι → π} {now : δ}
    (run : Interleaved moves processes shared reached now) :
    Shared now ∧ (∀ i, Own i (reached i) now) ∧
      ∀ i j, i ≠ j → Apart i (reached i) j (reached j) := by
  induction run with
  | start => exact ⟨sound, each, pairs⟩
  | turn reached now i p then_ _ move ih =>
    obtain ⟨sound, each, pairs⟩ := ih
    obtain ⟨sound', mine⟩ := respects.own i _ now p then_ sound (each i) move
    have spared : ∀ j, i ≠ j → Own j (reached j) then_ ∧ Apart i p j (reached j) := fun j different =>
      respects.others i j _ _ now p then_ different sound (each i) (each j) (pairs i j different) move
    refine ⟨sound', fun j => ?_, fun j k different => ?_⟩
    · by_cases same : j = i
      · subst same
        rw [Function.update_self]
        exact mine
      · rw [Function.update_of_ne same]
        exact (spared j (Ne.symm same)).1
    · by_cases first : j = i
      · subst first
        rw [Function.update_self, Function.update_of_ne (Ne.symm different)]
        exact (spared k different).2
      · rw [Function.update_of_ne first]
        by_cases second : k = i
        · subst second
          rw [Function.update_self]
          exact respects.symmetric _ _ _ _ (spared j different.symm).2
        · rw [Function.update_of_ne second]
          exact pairs j k different

end ConfigManager.Library
