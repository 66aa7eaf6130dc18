/-!
# Loops

A loop is given by what one turn of it does: go on from another state, or leave
with a result. A loop without a bound on its turns has a result when it ends, and
a variant shows that it ends.
-/

namespace Policer.Lib

variable {State Result : Type}

/-- A loop ends with a result after finitely many turns. -/
inductive Ends (turn : State → State ⊕ Result) : State → Result → Prop where
  | leave {state : State} {result : Result} (left : turn state = .inr result) :
      Ends turn state result
  | again {state next : State} {result : Result} (goes : turn state = .inl next)
      (rest : Ends turn next result) : Ends turn state result

variable {turn : State → State ⊕ Result}

/-- A loop with an invariant and a variant ends, and with a result the invariant gives. -/
theorem ends_of_variant {invariant : State → Prop} {post : Result → Prop} (variant : State → Nat)
    (goes : ∀ {state next}, invariant state → turn state = .inl next →
      invariant next ∧ variant next < variant state)
    (leaves : ∀ {state result}, invariant state → turn state = .inr result → post result)
    {state : State} (initial : invariant state) :
    ∃ result, Ends turn state result ∧ post result := by
  induction size : variant state using Nat.strongRecOn generalizing state with
  | ind n smaller =>
      cases turned : turn state with
      | inr result => exact ⟨result, .leave turned, leaves initial turned⟩
      | inl next =>
          obtain ⟨still, less⟩ := goes initial turned
          obtain ⟨result, ends, holds⟩ := smaller (variant next) (size ▸ less) still rfl
          exact ⟨result, .again turned ends, holds⟩

end Policer.Lib
