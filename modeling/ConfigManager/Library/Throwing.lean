/-!
# Computations that throw

A computation on a state returns a value or throws, and leaves a state either way.
A guard cleans up when the computation in its scope throws. `Ensures` states what
holds after either exit, with one rule for each way to compose computations.
-/

set_option autoImplicit false

namespace ConfigManager.Library

universe u v

variable {σ : Type u} {α β : Type v}

/-- How a computation ends: with a value or with an exception, and with a state either way. -/
inductive Exit (σ : Type u) (α : Type v) where
  | returned (value : α) (state : σ)
  | thrown (state : σ)

def Exit.state {σ : Type u} {α : Type v} : Exit σ α → σ
  | .returned _ state => state
  | .thrown state => state

/-- A computation over a state; an exception leaves the state as it is at that moment. -/
def Throwing (σ : Type u) (α : Type v) := σ → Exit σ α

namespace Throwing

instance : Monad (Throwing σ) where
  pure value := fun state => .returned value state
  bind first next := fun state =>
    match first state with
    | .returned value state => next value state
    | .thrown state => .thrown state

def read : Throwing σ σ := fun state => .returned state state

def update (f : σ → σ) : Throwing σ PUnit.{v + 1} := fun state => .returned ⟨⟩ (f state)

/-- A guard: `cleanUp` runs when the body throws. -/
def guarding (cleanUp : σ → σ) (body : Throwing σ α) : Throwing σ α := fun state =>
  match body state with
  | .returned value state => .returned value state
  | .thrown state => .thrown (cleanUp state)

theorem bind_returned {body : Throwing σ α} {state after : σ} {value : α} (next : α → Throwing σ β)
    (exit : body state = .returned value after) : (body >>= next) state = next value after := by
  change (match body state with
    | .returned value after => next value after
    | .thrown after => .thrown after : Exit σ β) = _
  rw [exit]

/-- What holds after the computation returned, and what after it threw. -/
def Ensures (body : Throwing σ α) (state : σ) (returns : α → σ → Prop) (throws : σ → Prop) : Prop :=
  match body state with
  | .returned value state => returns value state
  | .thrown state => throws state

/-! ## Rules -/

variable {body : Throwing σ α} {state : σ} {returns returns' : α → σ → Prop}
  {throws throws' : σ → Prop}

theorem Ensures.returned (ensures : Ensures body state returns throws) (value : α) (after : σ)
    (exit : body state = .returned value after) : returns value after := by
  rwa [Ensures, exit] at ensures

theorem Ensures.thrown (ensures : Ensures body state returns throws) (after : σ)
    (exit : body state = .thrown after) : throws after := by
  rwa [Ensures, exit] at ensures

/-- Both conclusions may be weakened. -/
theorem Ensures.imp (ensures : Ensures body state returns throws)
    (returned : ∀ value after, returns value after → returns' value after)
    (thrown : ∀ after, throws after → throws' after) : Ensures body state returns' throws' := by
  unfold Ensures at ensures ⊢
  cases exit : body state with
  | returned value after =>
    rw [exit] at ensures
    exact returned value after ensures
  | thrown after =>
    rw [exit] at ensures
    exact thrown after ensures

/-- What holds after either exit. -/
theorem Ensures.either (holds : σ → Prop) (ensures : Ensures body state returns throws)
    (returned : ∀ value after, returns value after → holds after)
    (thrown : ∀ after, throws after → holds after) : holds (body state).state := by
  cases exit : body state with
  | returned value after => exact returned value after (ensures.returned value after exit)
  | thrown after => exact thrown after (ensures.thrown after exit)

theorem Ensures.pure (value : α) (holds : returns value state) :
    Ensures (pure value) state returns throws := holds

theorem Ensures.read {returns : σ → σ → Prop} {throws : σ → Prop} (holds : returns state state) :
    Ensures read state returns throws := holds

theorem Ensures.update (f : σ → σ) {returns : PUnit.{v + 1} → σ → Prop} (holds : returns ⟨⟩ (f state)) :
    Ensures (update f) state returns throws := holds

/-- The rest runs only after a return, so both throw into the same condition. -/
theorem Ensures.bind {next : α → Throwing σ β} {returns' : β → σ → Prop}
    (first : Ensures body state returns throws)
    (rest : ∀ value after, returns value after → Ensures (next value) after returns' throws) :
    Ensures (body >>= next) state returns' throws := by
  unfold Ensures at first ⊢
  change (match (match body state with
    | .returned value after => next value after
    | .thrown after => .thrown after) with
    | .returned value after => returns' value after
    | .thrown after => throws after)
  cases exit : body state with
  | returned value after =>
    rw [exit] at first
    exact rest value after first
  | thrown after =>
    rw [exit] at first
    exact first

/-- What the guard leaves is the clean-up of what the throw left. -/
theorem Ensures.guarding (cleanUp : σ → σ)
    (ensures : Ensures body state returns fun after => throws (cleanUp after)) :
    Ensures (guarding cleanUp body) state returns throws := by
  unfold Ensures at ensures ⊢
  rw [Throwing.guarding]
  cases exit : body state with
  | returned value after =>
    rw [exit] at ensures
    exact ensures
  | thrown after =>
    rw [exit] at ensures
    exact ensures

end Throwing

end ConfigManager.Library
