/-!
# Labelled runs

A labelled transition system and what holds along its runs: an invariant is checked
for one step, and a simulation relates two systems that take the same labels.
-/

namespace Policer.Lib

/-- A transition system whose steps carry labels. -/
structure TransitionSystem (State Label : Type) where
  Step : State → Label → State → Prop

namespace TransitionSystem

variable {State Label : Type} {system : TransitionSystem State Label}

/-- A finite run with the labels of its steps in order. -/
inductive Steps (system : TransitionSystem State Label) : State → List Label → State → Prop where
  | refl {state : State} : Steps system state [] state
  | step {start middle final : State} {labels : List Label} {label : Label}
      (prior : Steps system start labels middle) (transition : system.Step middle label final) :
      Steps system start (labels ++ [label]) final

/-- What one step preserves holds along every run. -/
theorem Steps.invariant (property : List Label → State → Prop) {start final : State}
    {labels : List Label} (run : system.Steps start labels final) (initial : property [] start)
    (preserved : ∀ {before middle label after}, property before middle →
      system.Step middle label after → property (before ++ [label]) after) :
    property labels final := by
  induction run with
  | refl => exact initial
  | step _ transition inductionHypothesis => exact preserved inductionHypothesis transition

theorem Steps.eq_of_nil {start final : State} (run : system.Steps start [] final) :
    final = start := by
  generalize none : ([] : List Label) = labels at run
  cases run with
  | refl => rfl
  | step _ _ => simp at none

/-- The last step of a run. -/
theorem Steps.of_append_singleton {start final : State} {labels : List Label} {label : Label}
    (run : system.Steps start (labels ++ [label]) final) :
    ∃ middle, system.Steps start labels middle ∧ system.Step middle label final := by
  generalize same : labels ++ [label] = all at run
  cases run with
  | refl => simp at same
  | step prior transition =>
      obtain ⟨rfl, isLabel⟩ := List.append_inj' same rfl
      obtain rfl := List.singleton_inj.mp isLabel
      exact ⟨_, prior, transition⟩

/-- Labels that determine their steps determine the state a run ends in. -/
theorem Steps.unique {determines : Label → Prop}
    (functional : ∀ {state label first second}, determines label →
      system.Step state label first → system.Step state label second → first = second)
    {start first second : State} {labels : List Label} (here : system.Steps start labels first)
    (there : system.Steps start labels second) (each : ∀ label ∈ labels, determines label) :
    first = second := by
  induction here generalizing second with
  | refl => exact there.eq_of_nil.symm
  | step _ transition inductionHypothesis =>
      obtain ⟨middle, prior, last⟩ := there.of_append_singleton
      obtain rfl := inductionHypothesis prior fun label member =>
        each label (List.mem_append_left _ member)
      exact functional (each _ (by simp)) transition last

/-! ### Interleavings -/

variable {ι : Type}

/-- Components that take turns. After a step of one of them the others take over what they share
with it. -/
def interleave (ι : Type) (system : TransitionSystem State Label) (share : State → State → State) :
    TransitionSystem (ι → State) (ι × Label) where
  Step state label next :=
    system.Step (state label.1) label.2 (next label.1) ∧
      ∀ other, other ≠ label.1 → next other = share (next label.1) (state other)

/-- The labels of one component of an interleaving. -/
def ownLabels [DecidableEq ι] (self : ι) (labels : List (ι × Label)) : List Label :=
  labels.filterMap fun label => if label.1 = self then some label.2 else none

section OwnLabels

variable [DecidableEq ι] {self : ι} {label : ι × Label}

theorem ownLabels_append_self (own : label.1 = self) (labels : List (ι × Label)) :
    ownLabels self (labels ++ [label]) = ownLabels self labels ++ [label.2] := by
  simp [ownLabels, own]

theorem ownLabels_append_other (other : label.1 ≠ self) (labels : List (ι × Label)) :
    ownLabels self (labels ++ [label]) = ownLabels self labels := by
  simp [ownLabels, other]

theorem mem_ownLabels {own : Label} {labels : List (ι × Label)} :
    own ∈ ownLabels self labels ↔ (self, own) ∈ labels := by
  simp only [ownLabels, List.mem_filterMap, Option.ite_none_right_eq_some, Option.some.injEq]
  constructor
  · rintro ⟨⟨index, _⟩, member, rfl, rfl⟩
    exact member
  · exact fun member => ⟨_, member, rfl, rfl⟩

/-- One component of an interleaving runs as it does alone, when a relation is kept by its own
steps and by those of the others. -/
theorem Steps.alone {share : State → State → State} {allowed : List (ι × Label) → Prop}
    (related : List (ι × Label) → (ι → State) → State → Prop)
    (shorter : ∀ {before label}, allowed (before ++ [label]) → allowed before)
    (own : ∀ {before state label next alone}, allowed (before ++ [label]) → label.1 = self →
      related before state alone → (interleave ι system share).Step state label next →
        ∃ after, system.Step alone label.2 after ∧ related (before ++ [label]) next after)
    (others : ∀ {before state label next alone}, allowed (before ++ [label]) → label.1 ≠ self →
      related before state alone → (interleave ι system share).Step state label next →
        related (before ++ [label]) next alone)
    {start final : ι → State} {labels : List (ι × Label)}
    (run : (interleave ι system share).Steps start labels final) (isAllowed : allowed labels)
    (initial : related [] start (start self)) :
    ∃ alone, system.Steps (start self) (ownLabels self labels) alone ∧
      related labels final alone := by
  induction run with
  | refl => exact ⟨_, .refl, initial⟩
  | @step middle final labels label _ transition inductionHypothesis =>
      obtain ⟨alone, prior, relates⟩ := inductionHypothesis (shorter isAllowed)
      by_cases isOwn : label.1 = self
      · obtain ⟨after, last, relates⟩ := own isAllowed isOwn relates transition
        rw [ownLabels_append_self isOwn]
        exact ⟨after, .step prior last, relates⟩
      · rw [ownLabels_append_other isOwn]
        exact ⟨alone, prior, others isAllowed isOwn relates transition⟩

end OwnLabels

end TransitionSystem

/-- Every step of the concrete system is a step of the abstract one. -/
structure ForwardSimulation {Concrete Abstract Label : Type}
    (concrete : TransitionSystem Concrete Label) (abstract : TransitionSystem Abstract Label) where
  Related : Concrete → Abstract → Prop
  step : ∀ {con con' abs label}, Related con abs → concrete.Step con label con' →
    ∃ abs', abstract.Step abs label abs' ∧ Related con' abs'

/-- Every run of the concrete system is a run of the abstract one. -/
theorem ForwardSimulation.steps {Concrete Abstract Label : Type}
    {concrete : TransitionSystem Concrete Label} {abstract : TransitionSystem Abstract Label}
    (simulation : ForwardSimulation concrete abstract) {start final : Concrete}
    {labels : List Label} {initial : Abstract} (related : simulation.Related start initial)
    (run : concrete.Steps start labels final) :
    ∃ reached, abstract.Steps initial labels reached ∧ simulation.Related final reached := by
  induction run with
  | refl => exact ⟨initial, .refl, related⟩
  | step _ transition inductionHypothesis =>
      obtain ⟨middle, prior, between⟩ := inductionHypothesis
      obtain ⟨reached, last, after⟩ := simulation.step between transition
      exact ⟨reached, .step prior last, after⟩

end Policer.Lib
