import Policer.Lib.Action

/-!
# Simulation between stateful methods

`Tracks pre post spec run` says that the method `run` does on its states what
`spec` does on simpler ones: started in related states both end in related
states, or both throw the same error. The rules below compose simulations the
way actions compose, so a claim about a long run is one fact per part.
-/

namespace Policer.Lib

/-- Both runs ended in related states, or both threw the same error. -/
inductive Related {ε α σ : Type} (R : α → σ → Prop) : Except ε α → Except ε σ → Prop where
  | ok {abs : α} {con : σ} : R abs con → Related R (.ok abs) (.ok con)
  | error {thrown : ε} : Related R (.error thrown) (.error thrown)

/-- `run` simulates `spec` from states related by `pre` to states related by `post`. -/
def Tracks {ε α σ : Type} (pre post : α → σ → Prop) (spec : Action ε α) (run : Action ε σ) : Prop :=
  ∀ abs con, pre abs con → Related post (spec abs) (run con)

variable {ε α σ : Type}

namespace Related

variable {R : α → σ → Prop} {spec : Except ε α} {run : Except ε σ}

/-- A finished run has a related result of the specification. -/
theorem of_run_ok (related : Related R spec run) {con : σ} (ran : run = .ok con) :
    ∃ abs, spec = .ok abs ∧ R abs con := by
  subst ran
  cases related with
  | ok holds => exact ⟨_, rfl, holds⟩

/-- A finished specification has a related result of the run. -/
theorem of_spec_ok (related : Related R spec run) {abs : α} (ran : spec = .ok abs) :
    ∃ con, run = .ok con ∧ R abs con := by
  subst ran
  cases related with
  | ok holds => exact ⟨_, rfl, holds⟩

end Related

namespace Tracks

variable {pre middle post : α → σ → Prop} {spec spec' : Action ε α} {run run' : Action ε σ}

theorem skip (R : α → σ → Prop) :
    Tracks R R (Action.skip : Action ε α) (Action.skip : Action ε σ) :=
  fun _ _ related => .ok related

/-- State changes that keep the relation simulate each other. -/
theorem update {f : α → α} {g : σ → σ} (keeps : ∀ abs con, pre abs con → post (f abs) (g con)) :
    Tracks pre post (Action.update f : Action ε α) (Action.update g) :=
  fun abs con related => .ok (keeps abs con related)

/-- Simulations compose in sequence. -/
theorem seq (first : Tracks pre middle spec run) (second : Tracks middle post spec' run') :
    Tracks pre post (spec >=> spec') (run >=> run') := by
  intro abs con related
  cases specRun : spec abs with
  | error thrown =>
      have threw := first abs con related
      rw [specRun] at threw
      cases conRun : run con with
      | error other =>
          rw [conRun] at threw
          cases threw
          rw [Action.seq_of_error specRun, Action.seq_of_error conRun]
          exact .error
      | ok next =>
          rw [conRun] at threw
          cases threw
  | ok abs' =>
      obtain ⟨con', conRun, related'⟩ := (first abs con related).of_spec_ok specRun
      rw [Action.seq_of_ok specRun, Action.seq_of_ok conRun]
      exact second abs' con' related'

/-- A silent part before the run does not show in the specification. -/
theorem silent_before {g : σ → σ} (enters : ∀ abs con, pre abs con → middle abs (g con))
    (rest : Tracks middle post spec run) : Tracks pre post spec (Action.update g >=> run) :=
  fun abs con related => rest abs (g con) (enters abs con related)

/-- A silent part after the run does not show in the specification. -/
theorem silent_after {g : σ → σ} (rest : Tracks pre middle spec run)
    (leaves : ∀ abs con, middle abs con → post abs (g con)) :
    Tracks pre post spec (run >=> Action.update g) := by
  have both := rest.seq (Tracks.update (ε := ε) (f := fun abs => abs) leaves)
  rwa [Action.seq_update_id] at both

end Tracks
end Policer.Lib
