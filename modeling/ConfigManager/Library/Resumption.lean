/-!
# Code that asks, seen as a machine of stages

The code is a function on a state that records the replies to the calls it makes and,
where they end, the request it waits with. A machine describes it as stages, each with
the request that it makes and what a reply turns it into. `Follows` states that a piece
of code goes the way of the machine; one rule for each way to compose code.
-/

set_option autoImplicit false

namespace ConfigManager.Library

universe u v w x y

/-- A stage without a request has ended. -/
structure Stages (π : Type u) (ρ : Type v) (η : Type w) where
  request : π → Option ρ
  resume : π → η → π

/-- A state of the code: the replies it has not read yet, and the request it waits with. -/
structure Recording (σ : Type u) (ρ : Type v) (η : Type w) where
  replies : σ → List η
  waiting : σ → Option ρ

namespace Stages

variable {π : Type u} {ρ : Type v} {η : Type w} {σ : Type x} {β γ : Type y}

/-- The stage after the replies. -/
def after (M : Stages π ρ η) (stage : π) (replies : List η) : π := replies.foldl M.resume stage

@[simp] theorem after_nil (M : Stages π ρ η) (stage : π) : M.after stage [] = stage := rfl

@[simp] theorem after_cons (M : Stages π ρ η) (stage : π) (reply : η) (replies : List η) :
    M.after stage (reply :: replies) = M.after (M.resume stage reply) replies := rfl

theorem after_concat (M : Stages π ρ η) (stage : π) (replies : List η) (reply : η) :
    M.after stage (replies ++ [reply]) = M.resume (M.after stage replies) reply := by
  simp [after]

/-- From `stage`, code that stopped waits with the request of the stage that all replies
lead to, and code that answered has read them up to the stage `next`. -/
def Follows (M : Stages π ρ η) (R : Recording σ ρ η) (stage : π) (s : σ)
    (outcome : Option β × σ) (next : β → σ → π) : Prop :=
  match outcome with
  | (none, s') => ∃ r, R.waiting s' = some r ∧ M.request (M.after stage (R.replies s)) = some r
  | (some b, s') => M.after stage (R.replies s) = M.after (next b s') (R.replies s')

variable {M : Stages π ρ η} {R : Recording σ ρ η} {stage : π} {s : σ}

theorem Follows.answered (b : β) (next : β → σ → π) (here : next b s = stage) :
    M.Follows R stage s (some b, s) next := by
  rw [Follows, here]

theorem Follows.stopped {s' : σ} {next : β → σ → π} {next' : γ → σ → π}
    (follows : M.Follows R stage s (none, s') next) : M.Follows R stage s (none, s') next' := follows

/-- Code that goes on from an answer goes on at the stage where the first part left it. -/
theorem Follows.onward {b : β} {s' : σ} {next : β → σ → π} {outcome : Option γ × σ}
    {next' : γ → σ → π} (follows : M.Follows R stage s (some b, s') next)
    (rest : M.Follows R (next b s') s' outcome next') : M.Follows R stage s outcome next' := by
  obtain ⟨answer, s''⟩ := outcome
  cases answer with
  | none =>
    obtain ⟨r, waits, asks⟩ := rest
    exact ⟨r, waits, (congrArg M.request follows).trans asks⟩
  | some c => exact Eq.trans follows rest

end Stages

end ConfigManager.Library
