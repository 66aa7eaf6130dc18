/-!
# What a fallible computation ends with

`Meets outcome good bad` says of a computation that its result has one property, or its
error another one. The rules follow the construction of the computation.
-/

namespace Policer.Lib

variable {α β ε δ : Type}

/-- The result is good, or the error is one of the bad ones. -/
def Meets (outcome : Except ε α) (good : α → Prop) (bad : ε → Prop) : Prop :=
  match outcome with
  | .ok result => good result
  | .error error => bad error

namespace Meets

variable {outcome : Except ε α} {good other : α → Prop} {bad : ε → Prop}

theorem ok {result : α} (holds : good result) : Meets (.ok result : Except ε α) good bad := holds

theorem error {error : ε} (holds : bad error) : Meets (.error error : Except ε α) good bad :=
  holds

theorem of_ok {result : α} (meets : Meets outcome good bad) (isOk : outcome = .ok result) :
    good result := by
  rw [isOk] at meets
  exact meets

theorem of_error {error : ε} (meets : Meets outcome good bad) (isError : outcome = .error error) :
    bad error := by
  rw [isError] at meets
  exact meets

theorem imp (meets : Meets outcome good bad) (weaker : ∀ result, good result → other result) :
    Meets outcome other bad := by
  cases outcome with
  | ok result => exact weaker result meets
  | error error => exact meets

/-- More results are good and more errors are bad. -/
theorem mono {worse : ε → Prop} (meets : Meets outcome good bad)
    (weaker : ∀ result, good result → other result) (covers : ∀ error, bad error → worse error) :
    Meets outcome other worse := by
  cases outcome with
  | ok result => exact weaker result meets
  | error error => exact covers error meets

theorem bind {next : α → Except ε β} {after : β → Prop} (meets : Meets outcome good bad)
    (continues : ∀ result, good result → Meets (next result) after bad) :
    Meets (outcome >>= next) after bad := by
  cases outcome with
  | ok result => exact continues result meets
  | error error => exact meets

theorem map {f : α → β} {after : β → Prop} (meets : Meets outcome good bad)
    (becomes : ∀ result, good result → after (f result)) : Meets (outcome.map f) after bad := by
  cases outcome with
  | ok result => exact becomes result meets
  | error error => exact meets

end Meets

end Policer.Lib
