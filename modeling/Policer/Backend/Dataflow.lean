import Policer.Aggregator.Clock
import Policer.Aggregator.GlobalWindows
import Policer.Backend.Shutdown
import Policer.Filter.Nodes
import Policer.Lib.Network
import Policer.Selector.Messages

/-!
# Components

The components of a forest are a network: a filter hands on the records its tree is true of, an
aggregator what it sends, and a selector sends messages. What a component does among others it does
on its own (`agg_of_alone`, `filter_of_alone`, `selector_of_alone`); the others change the static
variables of aggregators and nothing else.
-/

namespace Policer.Aggregator

open Policer.Lib

/-! ### Static variables -/

/-- The static variables of aggregators. -/
structure Statics where
  once : Bool
  stop : Bool

namespace Agg

def statics (agg : Agg) : Statics := ⟨agg.once, agg.stop⟩

/-- The aggregator with the static variables as others have left them. -/
def reads (agg : Agg) (statics : Statics) : Agg :=
  { agg with once := statics.once, stop := statics.stop }

@[simp] theorem sent_reads (agg : Agg) (statics : Statics) : (agg.reads statics).sent = agg.sent :=
  rfl

end Agg

/-- A step an aggregator takes without a record. -/
def AggStep.isSpontaneous : AggStep → Bool
  | .startTimeouts | .checkTimeouts | .destroy | .rehash => true
  | .eval _ | .otherEval | .otherDestroy => false

theorem AggStep.record?_eq_none {label : AggStep} (spontaneous : label.isSpontaneous = true) :
    Aggregation.record? label = none := by
  cases label <;> first | rfl | cases spontaneous

/-- What a step may do to the static variables. -/
inductive Statics.Changes (statics : Statics) : Statics → Prop where
  | none : statics.Changes statics
  | evaluated : statics.Changes { statics with once := false }
  | destroyed : statics.Changes { statics with stop := true }

namespace Agg

theorem statics_sendOut {agg next : Agg} {leaves : Stored → Bool}
    (sends : agg.sendOut leaves = .ok next) : next.statics = agg.statics := by
  obtain ⟨records, _, rfl⟩ := sendOut_ok sends
  rfl

theorem statics_store {agg next : Agg} {inRec : Record} (stores : agg.store inRec = .ok next) :
    next.statics = agg.statics := by
  obtain ⟨storage, sent, rfl⟩ := store_frame stores
  rfl

theorem statics_startTimeouts (agg : Agg) : agg.startTimeouts.statics = agg.statics := by
  unfold startTimeouts
  split <;> rfl

theorem statics_eval {agg next : Agg} {inRec : Record} (evaluates : agg.eval inRec = .ok next) :
    next.statics = { agg.statics with once := false } := by
  have noted : (agg.noteFirstRecord inRec).statics = { agg.statics with once := false } := by
    rw [noteFirstRecord_eq]
    rfl
  unfold eval at evaluates
  dsimp only at evaluates
  split at evaluates
  · cases evaluates
    exact noted
  · exact (statics_store evaluates).trans noted

theorem statics_checkTimeouts {agg next : Agg} (checks : agg.checkTimeouts = .ok next) :
    next.statics = agg.statics := by
  have sweeps : (agg.sendOut agg.expired).map startTimeouts = .ok next →
      next.statics = agg.statics := by
    intro sweep
    obtain ⟨rest, swept, rfl⟩ := map_ok.mp sweep
    exact (statics_startTimeouts rest).trans (statics_sendOut swept)
  unfold checkTimeouts at checks
  split at checks
  · cases checks
    rfl
  · split at checks
    · exact statics_sendOut checks
    · cases checks
      rfl
    · exact sweeps checks
    · exact sweeps checks

theorem leads_eval {agg next : Agg} {inRec : Record} (evaluates : agg.eval inRec = .ok next) :
    agg.Leads (.eval inRec) (.ok next) :=
  evaluates ▸ .eval inRec

/-- What a step does to the static variables. -/
theorem Leads.statics {agg next : Agg} {label : AggStep} (leads : agg.Leads label (.ok next)) :
    agg.statics.Changes next.statics := by
  generalize outcome : (Except.ok next : Except Fault Agg) = result at leads
  cases leads with
  | eval inRec =>
      rw [statics_eval outcome.symm]
      exact .evaluated
  | startTimeouts =>
      cases outcome
      rw [statics_startTimeouts]
      exact .none
  | checkTimeouts =>
      rw [statics_checkTimeouts outcome.symm]
      exact .none
  | destroy =>
      have flushes : flushStorage { agg with stop := true } = .ok next := outcome.symm
      rw [statics_sendOut flushes]
      exact .destroyed
  | rehash =>
      cases outcome
      exact .none
  | otherEval =>
      cases outcome
      exact .evaluated
  | otherDestroy =>
      cases outcome
      exact .destroyed

end Agg

end Policer.Aggregator

namespace Policer.Backend

open Policer.Lib Policer.Parsing Policer.Aggregator
open Policer.Filter (FilterNode Behind Conversions Opcode ff3Init ff3Eval)

/-! ### Components -/

/-- A component behind its `init`. -/
inductive Component where
  | filter (root : Option FilterNode)
  | agg (self : Agg)
  | selector (self : Selector.Running Nat)

/-- The values of a record by the names of its fields. -/
def recordValues (record : Record) : Selector.Values Nat := fun name =>
  (urGetIdByName name).elim 0 fun id => (record id).toNat

/-- The step of an aggregator as one of a component: what it has sent since goes on. -/
def ofAgg (before after : Agg) : Statics × Component × List Record :=
  (after.statics, .agg after, after.sent.drop before.sent.length)

/-- `eval` of a component. `behind` is what memory holds behind the fields of a record. -/
def Component.eval (behind : Record → Behind) (record : Record) :
    Statics × Component → Except Fault (Statics × Component × List Record)
  | (statics, .filter root) =>
      .ok (statics, .filter root, if ff3Eval record (behind record) root ≠ 0 then [record] else [])
  | (statics, .agg self) => ((self.reads statics).eval record).map (ofAgg self)
  | (statics, .selector self) => .ok (statics, .selector (self.eval (recordValues record)), [])

/-- Aggregators take steps of their own. -/
inductive Component.Acts : AggStep → Statics × Component → Statics × Component × List Record → Prop
  where
  | agg {statics : Statics} {self next : Agg} {label : AggStep}
      (spontaneous : label.isSpontaneous = true)
      (leads : (self.reads statics).Leads label (.ok next)) :
      Acts label (statics, .agg self) (ofAgg self next)

/-- The components as machines. -/
def component (behind : Record → Behind) : Machine Statics Component Record AggStep Fault where
  accept := Component.eval behind
  Own := Component.Acts

/-! ### A component among others -/

section Alone

variable {behind : Record → Behind}

/-- What the steps of components do to the static variables. -/
theorem statics_of_changes {statics next : Statics}
    (changes : (component behind).Changes statics next) : statics.Changes next := by
  cases changes with
  | @accept record _ state result accepts =>
      cases state with
      | filter root =>
          cases accepts
          exact .none
      | agg self =>
          have accepts : ((self.reads statics).eval record).map (ofAgg self) = .ok result := accepts
          obtain ⟨after, evaluates, rfl⟩ := map_ok.mp accepts
          exact (Agg.leads_eval evaluates).statics
      | selector self =>
          cases accepts
          exact .none
  | own step =>
      cases step with
      | agg _ leads => exact leads.statics

/-- What an aggregator sees of the steps of others. -/
theorem others_steps {agg start : Agg} {statics next : Statics} {labels : List AggStep}
    (run : aggSystem.Steps start labels (agg.reads statics))
    (changes : Relation.ReflTransGen (component behind).Changes statics next) :
    ∃ more, aggSystem.Steps start (labels ++ more) (agg.reads next) ∧
      more.filterMap Aggregation.record? = [] := by
  induction changes with
  | refl => exact ⟨[], by simpa using run, rfl⟩
  | @tail middle _ _ last ih =>
      obtain ⟨more, ran, silent⟩ := ih
      have extended : ∀ {label after}, (agg.reads middle).Leads label (.ok after) →
          Aggregation.record? label = none → ∃ more,
            aggSystem.Steps start (labels ++ more) after ∧
              more.filterMap Aggregation.record? = [] := by
        intro label after leads noRecord
        refine ⟨more ++ [label], ?_, by simp [silent, noRecord]⟩
        rw [← List.append_assoc]
        exact .step ran leads
      cases statics_of_changes last with
      | none => exact ⟨more, ran, silent⟩
      | evaluated => exact extended .otherEval rfl
      | destroyed => exact extended .otherDestroy rfl

/-- An aggregator among others takes a run of `aggSystem` that evaluates what it accepts. -/
theorem agg_of_alone {agg : Agg} {statics : Statics} {labels : List (LocalStep Record AggStep)}
    {final : Statics × Component × List Record}
    (run : (component behind).alone.Steps (statics, .agg agg, agg.sent) labels final) :
    ∃ next steps, final = (final.1, .agg next, next.sent) ∧
      aggSystem.Steps (agg.reads statics) steps (next.reads final.1) ∧
        steps.filterMap Aggregation.record? = acceptedItems labels := by
  refine run.invariant (fun labels final => ∃ next steps, final = (final.1, .agg next, next.sent) ∧
    aggSystem.Steps (agg.reads statics) steps (next.reads final.1) ∧
      steps.filterMap Aggregation.record? = acceptedItems labels) ⟨agg, [], rfl, .refl, rfl⟩ ?_
  rintro before ⟨shared, state, sent⟩ label after ⟨next, steps, same, ran, accepts⟩ leads
  cases same
  have extended : ∀ {step last}, (next.reads shared).Leads step (.ok last) →
      aggSystem.Steps (agg.reads statics) (steps ++ [step]) (last.reads last.statics) ∧
        next.sent ++ last.sent.drop next.sent.length = last.sent := by
    intro step last leads
    obtain ⟨more, isSent⟩ := Agg.acrossParts_sent.of_leads leads
    refine ⟨.step ran leads, ?_⟩
    rw [← isSent, Agg.sent_reads, List.drop_left]
  cases leads with
  | @accept _ _ _ record result accepted =>
      have accepted : ((next.reads shared).eval record).map (ofAgg next) = .ok result := accepted
      obtain ⟨last, evaluates, rfl⟩ := map_ok.mp accepted
      obtain ⟨ran, isSent⟩ := extended (Agg.leads_eval evaluates)
      exact ⟨last, _, by rw [ofAgg, isSent], ran, by simp [accepts, LocalStep.item?,
        Aggregation.record?]⟩
  | own acts =>
      cases acts with
      | @agg _ _ last _ spontaneous leads =>
          obtain ⟨ran, isSent⟩ := extended leads
          exact ⟨last, _, by rw [ofAgg, isSent], ran, by simp [accepts, LocalStep.item?,
            AggStep.record?_eq_none spontaneous]⟩
  | others changes =>
      obtain ⟨more, ran, silent⟩ := others_steps ran changes
      exact ⟨next, _, rfl, ran, by simp [accepts, silent, LocalStep.item?]⟩

/-- A filter hands on what its tree is true of. -/
theorem filter_of_alone {root : Option FilterNode} {statics : Statics}
    {labels : List (LocalStep Record AggStep)} {final : Statics × Component × List Record}
    (run : (component behind).alone.Steps (statics, .filter root, []) labels final) :
    final = (final.1, .filter root, (acceptedItems labels).filter fun record =>
      ff3Eval record (behind record) root ≠ 0) := by
  refine run.invariant (fun labels final => final = (final.1, .filter root,
    (acceptedItems labels).filter fun record => ff3Eval record (behind record) root ≠ 0)) rfl ?_
  rintro before ⟨shared, state, sent⟩ label after same leads
  cases same
  cases leads with
  | @accept _ _ _ record result accepted =>
      cases accepted
      simp [LocalStep.item?, List.filter_singleton]
  | own acts => cases acts
  | others changes => simp [LocalStep.item?]

/-- A selector evaluates what it accepts and hands nothing on. -/
theorem selector_of_alone {self : Selector.Running Nat} {statics : Statics}
    {labels : List (LocalStep Record AggStep)} {final : Statics × Component × List Record}
    (run : (component behind).alone.Steps (statics, .selector self, []) labels final) :
    final = (final.1, .selector (((acceptedItems labels).map recordValues).foldl
      Selector.Running.eval self), []) := by
  refine run.invariant (fun labels final => final = (final.1,
    .selector (((acceptedItems labels).map recordValues).foldl Selector.Running.eval self), []))
    rfl ?_
  rintro before ⟨shared, state, sent⟩ label after same leads
  cases same
  cases leads with
  | accept accepted =>
      cases accepted
      simp [LocalStep.item?]
  | own acts => cases acts
  | others changes => simp [LocalStep.item?]

end Alone

/-! ### Set up -/

/-- A component as `init` leaves it. -/
inductive Installed (unirec : Libunirec) (conv : Conversions) :
    BuilderStage → Component → Prop where
  | filter {fresh : Nat → Opcode} {options : Str} {next : List BuilderStage}
      {root : Option FilterNode} (init : ff3Init conv fresh options = .root root) :
      Installed unirec conv (.mk .filter options next) (.filter root)
  | agg {options : Str} {next : List BuilderStage} {config : Config} {now : Int} {self : Agg}
      (read : Config.ofOptions options = .ok config)
      (initial : Agg.init unirec config now true false = some self) :
      Installed unirec conv (.mk .agg options next) (.agg self)
  | selector {options : Str} {next : List BuilderStage} {accepts : Str → Bool}
      {table after : Selector.FieldTable} {self : Selector.Running Nat}
      (started : Selector.start 0 accepts table options = some (self, after)) :
      Installed unirec conv (.mk .selector options next) (.selector self)

/-- The components of a process. -/
abbrev Pipeline := Network Statics Component Record

/-- A process that has just been set up. -/
structure IsNew (unirec : Libunirec) (conv : Conversions) (forest : List BuilderStage)
    (start : Pipeline) : Prop where
  shared : start.shared = ⟨true, false⟩
  silent : ∀ address, start.sent address = []
  installed : ∀ found ∈ stagesOf [] 0 forest, Installed unirec conv found.2 (start.state found.1)

end Policer.Backend
