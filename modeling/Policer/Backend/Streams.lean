import Policer.Backend.Launch

/-!
# Records on their way through the pipeline

Records are fed to a forest one after the other while the threads of the aggregators take their
steps. `streams_of_run` says what every component has done at any time, given what its predecessor
has handed on.
-/

namespace Policer.Backend

open Policer.Lib Policer.Parsing Policer.Aggregator
open Policer.Filter (FilterNode Behind Conversions Opcode ff3Init ff3Eval)

/-! ### Forests -/

mutual

/-- The shape of a tree of stages. -/
def BuilderStage.shape : BuilderStage → Rose
  | .mk _ _ next => .node (shapes next)

def shapes : List BuilderStage → List Rose
  | [] => []
  | head :: tail => head.shape :: shapes tail

end

mutual

theorem mem_nodesIn {address place : Address} {kind : StageKind} {options : Str}
    {next : List BuilderStage} : (stage : BuilderStage) →
    (address, .mk kind options next) ∈ stagesIn place stage →
      (address, shapes next) ∈ nodesIn place stage.shape
  | .mk _ _ below, member => by
      rw [stagesIn, List.mem_cons] at member
      rw [BuilderStage.shape, nodesIn, List.mem_cons]
      rcases member with same | deeper
      · cases same
        exact .inl rfl
      · exact .inr (mem_nodesOf below deeper)

theorem mem_nodesOf {address place : Address} {index : Nat} {kind : StageKind} {options : Str}
    {next : List BuilderStage} : (forest : List BuilderStage) →
    (address, .mk kind options next) ∈ stagesOf place index forest →
      (address, shapes next) ∈ nodesOf place index (shapes forest)
  | [], member => by simp [stagesOf] at member
  | head :: tail, member => by
      rw [stagesOf, List.mem_append] at member
      rw [shapes, nodesOf, List.mem_append]
      exact member.imp (mem_nodesIn head) (mem_nodesOf tail)

end

/-- What a component has done with the records that have arrived: the records it has handed on
are `sent`. -/
inductive Carries (unirec : Libunirec) (conv : Conversions) (behind : Record → Behind)
    (arrived : List Record) : BuilderStage → Statics × Component × List Record → Prop where
  | filter {fresh : Nat → Opcode} {options : Str} {next : List BuilderStage} {statics : Statics}
      {root : Option FilterNode} (init : ff3Init conv fresh options = .root root) :
      Carries unirec conv behind arrived (.mk .filter options next)
        (statics, .filter root,
          arrived.filter fun record => ff3Eval record (behind record) root ≠ 0)
  | agg {options : Str} {next : List BuilderStage} {statics : Statics} {config : Config} {now : Int}
      {self after : Agg} {labels : List AggStep} (read : Config.ofOptions options = .ok config)
      (initial : Agg.init unirec config now true false = some self)
      (run : aggSystem.Steps self labels (after.reads statics))
      (evaluated : labels.filterMap Aggregation.record? = arrived) :
      Carries unirec conv behind arrived (.mk .agg options next) (statics, .agg after, after.sent)
  | selector {options : Str} {next : List BuilderStage} {statics : Statics} {accepts : Str → Bool}
      {table after : Selector.FieldTable} {self : Selector.Running Nat}
      (started : Selector.start 0 accepts table options = some (self, after)) :
      Carries unirec conv behind arrived (.mk .selector options next)
        (statics, .selector ((arrived.map recordValues).foldl Selector.Running.eval self), [])

section Streams

variable {unirec : Libunirec} {conv : Conversions} {behind : Record → Behind}

theorem carries_of_runsAt {stage : BuilderStage} {start now : Pipeline} {address : Address}
    {arrived : List Record} (shared : start.shared = ⟨true, false⟩)
    (silent : ∀ address, start.sent address = [])
    (installed : Installed unirec conv stage (start.state address))
    (runs : (component behind).RunsAt start now address arrived) :
    Carries unirec conv behind arrived stage (now.view address) := by
  obtain ⟨labels, run, rfl⟩ := runs
  rw [Network.view, shared, silent address] at run
  generalize start.state address = component at installed run
  cases installed with
  | filter init =>
      rw [filter_of_alone run]
      exact .filter init
  | @agg _ _ _ _ self read initial =>
      obtain ⟨keyTemp, outputTemp, rfl⟩ := Agg.init_ok initial
      obtain ⟨after, steps, same, ran, evaluated⟩ := agg_of_alone run
      rw [same]
      exact evaluated ▸ .agg read initial ran rfl
  | selector started =>
      rw [selector_of_alone run]
      exact .selector started

/-- In every run the roots of a forest get the records that were fed, and every other component
what its predecessor has handed on. -/
theorem streams_of_run {forest : List BuilderStage} {start now : Pipeline}
    (new : IsNew unirec conv forest start) {labels : List (NetworkStep Record AggStep)}
    (run : ((component behind).network (shapes forest)).Steps start labels now) :
    now.sent [] = fed labels ∧ ∀ index address stage,
      (index :: address, stage) ∈ stagesOf [] 0 forest →
        Carries unirec conv behind (now.sent address) stage (now.view (index :: address)) := by
  obtain ⟨same, runs⟩ := Machine.wired_of_steps new.silent run
  refine ⟨same, fun index address stage member => ?_⟩
  obtain ⟨kind, options, next⟩ := stage
  exact carries_of_runsAt new.shared new.silent (new.installed _ member)
    (runs _ _ _ (mem_nodesOf forest member))

/-- An aggregator below an aggregator below a filter, and a selector beside it. -/
def nestedAggregators : BuilderVec :=
  [.mk .filter "PACKETS > 5".toList
    [.mk .agg "param -k DST_PORT -t A:60 -s BYTES".toList
      [.mk .agg "param -t G:60 -M BYTES".toList [], .mk .selector "0:sum = BYTES".toList []]]]

/-- A process with plain memory where UniRec accepts every name. -/
def plainSurroundings : Surroundings :=
  ⟨.plain, Filter.noConversions, fun _ _ => .other 0, 0, fun _ => true⟩

theorem streams_of_run_nestedAggregators :
    ∃ start now, build plainSurroundings Selector.definedFields nestedAggregators = some start ∧
      ((component fun _ _ _ => 0).network (shapes nestedAggregators)).Steps start
        [.feed fun _ => 7] now ∧
      ∀ index address stage, (index :: address, stage) ∈ stagesOf [] 0 nestedAggregators →
        Carries .plain Filter.noConversions (fun _ _ _ => 0) (now.sent address) stage
          (now.view (index :: address)) := by
  obtain ⟨start, built⟩ : ∃ start,
      build plainSurroundings Selector.definedFields nestedAggregators = some start :=
    Option.isSome_iff_exists.mp (by decide +kernel)
  obtain ⟨now, sends⟩ : ∃ now, (component fun _ _ _ => 0).send (fun _ => 7) [] 0
      (start.fedWith fun _ => 7) (shapes nestedAggregators) = .ok now := by
    have sends : (build plainSurroundings Selector.definedFields nestedAggregators).all fun start =>
        ((component fun _ _ _ => 0).send (fun _ => 7) [] 0 (start.fedWith fun _ => 7)
          (shapes nestedAggregators)).isOk := by decide +kernel
    rw [built] at sends
    exact exists_ok_of_isOk sends
  have feeds := TransitionSystem.Steps.step .refl (Machine.step_feed sends)
  exact ⟨start, now, built, feeds, (streams_of_run (isNew_of_build built) feeds).2⟩

end Streams

end Policer.Backend
