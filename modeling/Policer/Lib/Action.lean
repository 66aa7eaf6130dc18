import Mathlib.Control.Basic

/-!
# Stateful methods that may throw

A method of a mutable object is an `Action`: the state after the call, or the
error the call threw. Actions compose with `>=>`, so a throw ends the whole
sequence and the later parts never run. `seq_ok` peels a finished run apart.
-/

namespace Policer.Lib

/-- One call of a stateful method. -/
abbrev Action (ε σ : Type) := σ → Except ε σ

/-- A sequence of two calls ends normally exactly when both do. -/
theorem bind_ok {ε α β : Type} {call : Except ε α} {next : α → Except ε β} {result : β} :
    (call >>= next) = .ok result ↔ ∃ middle, call = .ok middle ∧ next middle = .ok result := by
  cases call with
  | error thrown => simp [bind, Except.bind]
  | ok middle => simp [bind, Except.bind]

theorem exists_ok_of_isOk {ε α : Type} {outcome : Except ε α} (finished : outcome.isOk = true) :
    ∃ value, outcome = .ok value := by
  cases outcome with
  | error thrown => cases finished
  | ok value => exact ⟨value, rfl⟩

theorem map_ok {ε α β : Type} {call : Except ε α} {f : α → β} {result : β} :
    call.map f = .ok result ↔ ∃ middle, call = .ok middle ∧ f middle = result := by
  cases call with
  | error thrown => simp [Except.map]
  | ok middle => simp [Except.map]

namespace Action

variable {ε σ : Type}

/-- The method that does nothing. -/
def skip : Action ε σ := fun state => .ok state

/-- A method that changes the state and cannot throw. -/
def update (f : σ → σ) : Action ε σ := fun state => .ok (f state)

/-- A method that throws. -/
def throw (error : ε) : Action ε σ := fun _ => .error error

/-- Run a list of methods in order. -/
def sequence : List (Action ε σ) → Action ε σ
  | [] => skip
  | head :: tail => head >=> sequence tail

@[simp] theorem skip_apply (state : σ) : (skip : Action ε σ) state = .ok state := rfl

@[simp] theorem update_apply (f : σ → σ) (state : σ) :
    (update f : Action ε σ) state = .ok (f state) := rfl

@[simp] theorem throw_apply (error : ε) (state : σ) :
    (throw error : Action ε σ) state = .error error := rfl

@[simp] theorem skip_seq (second : Action ε σ) : (skip >=> second) = second := rfl

@[simp] theorem update_seq (f : σ → σ) (second : Action ε σ) (state : σ) :
    (update f >=> second) state = second (f state) := rfl

@[simp] theorem seq_update_id (first : Action ε σ) :
    (first >=> update fun state => state) = first :=
  fish_pure first

@[simp] theorem seq_skip (first : Action ε σ) : (first >=> skip) = first :=
  fish_pure first

@[simp] theorem throw_seq (error : ε) (second : Action ε σ) (state : σ) :
    (throw error >=> second) state = .error error := rfl

/-- The second part runs in the state the first one left. -/
theorem seq_of_ok {first second : Action ε σ} {state middle : σ}
    (ran : first state = .ok middle) : (first >=> second) state = second middle := by
  change first state >>= second = second middle
  rw [ran]
  rfl

/-- A throw of the first part is the throw of the sequence. -/
theorem seq_of_error {first second : Action ε σ} {state : σ} {error : ε}
    (threw : first state = .error error) : (first >=> second) state = .error error := by
  change first state >>= second = .error error
  rw [threw]
  rfl

/-- A sequence ends normally exactly when both parts do. -/
theorem seq_ok {first second : Action ε σ} {state final : σ} :
    (first >=> second) state = .ok final ↔
      ∃ middle, first state = .ok middle ∧ second middle = .ok final := by
  cases run : first state with
  | error error => simp [seq_of_error run]
  | ok middle => simp [seq_of_ok run]

theorem seq_assoc (first second third : Action ε σ) :
    ((first >=> second) >=> third) = (first >=> second >=> third) :=
  fish_assoc first second third

@[simp] theorem sequence_nil : sequence ([] : List (Action ε σ)) = skip := rfl

@[simp] theorem sequence_cons (head : Action ε σ) (tail : List (Action ε σ)) :
    sequence (head :: tail) = (head >=> sequence tail) := rfl

theorem sequence_append (first second : List (Action ε σ)) :
    sequence (first ++ second) = (sequence first >=> sequence second) := by
  induction first with
  | nil => rfl
  | cons head tail ih => simp [ih, seq_assoc]

/-- A sequence of methods that do nothing does nothing. -/
theorem sequence_skip {α : Type} {f : α → Action ε σ} (items : List α)
    (quiet : ∀ item ∈ items, f item = skip) : sequence (items.map f) = skip := by
  induction items with
  | nil => rfl
  | cons head tail ih =>
      rw [List.map_cons, sequence_cons, quiet head List.mem_cons_self, skip_seq]
      exact ih fun item member => quiet item (List.mem_cons_of_mem _ member)

/-- A sequence of state changes is their fold. -/
theorem sequence_update {α : Type} (f : α → σ → σ) (items : List α) (state : σ) :
    sequence (items.map fun item => (update (f item) : Action ε σ)) state =
      .ok (items.foldl (fun current item => f item current) state) := by
  induction items generalizing state with
  | nil => rfl
  | cons head tail ih => simpa using ih (f head state)

end Action
end Policer.Lib
