/-
Module: ParameterLog.Outcome
Purpose: what an operation on a state comes to.
Main exports: Outcome, Outcome.andThen, Outcome.mapState
-/
import ParameterLog.Event

/-!
An operation takes a state and comes to an answer or an error, a new state, and the events on the
way. An operation that fails still has a state to leave behind and events to report, so the three
stand side by side. Operations are put together with `andThen`: the second one starts in the state
that the first one left, unless the first one failed.
-/

namespace ParameterLog

/-- What an operation on a state comes to. -/
structure Outcome (σ α : Type) where
  result : Except StoreError α
  /-- The state afterwards. -/
  state : σ
  events : List Event
deriving Inhabited

namespace Outcome

variable {σ τ α β : Type}

/-- An answer without further ado. -/
def done (state : σ) (answer : α) : Outcome σ α := ⟨.ok answer, state, []⟩

/-- An error that leaves the state alone. -/
def fail (state : σ) (error : StoreError) : Outcome σ α := ⟨.error error, state, []⟩

/-- An answer or an error that leaves the state alone. -/
def of (state : σ) (result : Except StoreError α) : Outcome σ α := ⟨result, state, []⟩

/-- Reports an event before those of an outcome. -/
def reporting (outcome : Outcome σ α) (events : List Event) : Outcome σ α :=
  { outcome with events := events ++ outcome.events }

/-- Looks at the state as another one. -/
def mapState (outcome : Outcome σ α) (f : σ → τ) : Outcome τ α :=
  ⟨outcome.result, f outcome.state, outcome.events⟩

/-- Goes on with an answer in the state that was left; an error ends the matter. -/
def andThen (outcome : Outcome σ α) (next : α → σ → Outcome σ β) : Outcome σ β :=
  match outcome.result with
  | .ok answer => (next answer outcome.state).reporting outcome.events
  | .error e => ⟨.error e, outcome.state, outcome.events⟩

/-- Answers with a function of the answer. -/
def map (outcome : Outcome σ α) (f : α → β) : Outcome σ β :=
  ⟨outcome.result.map f, outcome.state, outcome.events⟩

@[simp] theorem andThen_done (state : σ) (answer : α) (next : α → σ → Outcome σ β) :
    (done state answer).andThen next = next answer state := rfl

@[simp] theorem andThen_fail (state : σ) (error : StoreError) (next : α → σ → Outcome σ β) :
    (fail state error).andThen next = fail state error := rfl

theorem andThen_of_ok {outcome : Outcome σ α} {answer : α} (h : outcome.result = .ok answer)
    (next : α → σ → Outcome σ β) :
    outcome.andThen next = (next answer outcome.state).reporting outcome.events := by
  simp [andThen, h]

theorem andThen_of_error {outcome : Outcome σ α} {error : StoreError}
    (h : outcome.result = .error error) (next : α → σ → Outcome σ β) :
    outcome.andThen next = ⟨.error error, outcome.state, outcome.events⟩ := by
  simp [andThen, h]

end Outcome
end ParameterLog
