import Policer.Aggregator.Clock
import Policer.Aggregator.Template

/-!
# The aggregators of a process

All aggregators of a process share the static variable `once` of `eval` and the static member
`stop`. Their steps are interleaved. `independent_of_first` says when an aggregator stores and
sends what it would alone, before any destructor runs.
-/

namespace Policer.Aggregator

open Policer.Lib TransitionSystem Policer.Parsing Policer.Backend

/-! ### A process -/

/-- An aggregator behind a step of another one. -/
def Agg.share (other agg : Agg) : Agg := { agg with once := other.once, stop := other.stop }

/-- An aggregator before any destructor runs. -/
def runningSystem : TransitionSystem Agg AggStep where
  Step agg label next := label.isOwn = true ∧ agg.Leads label (.ok next)

/-- The aggregators of a process before any destructor runs. -/
def process (ι : Type) : TransitionSystem (ι → Agg) (ι × AggStep) :=
  interleave ι runningSystem Agg.share

/-- An aggregator that has just been set up. -/
def Agg.IsNew (agg : Agg) : Prop :=
  ∃ unirec config now, Agg.init unirec config now true false = some agg

/-- A record has been evaluated. -/
def evaluated {ι : Type} (labels : List (ι × AggStep)) : Bool :=
  labels.any fun label => label.2.isEval

/-- The first record of the process is evaluated by `here`. -/
def EvaluatesFirst {ι : Type} (here : ι) (labels : List (ι × AggStep)) : Prop :=
  ∀ first, (labels.find? fun label => label.2.isEval) = some first → first.1 = here

variable {ι : Type} {here : ι}

theorem evaluated_append (labels : List (ι × AggStep)) (label : ι × AggStep) :
    evaluated (labels ++ [label]) = (evaluated labels || label.2.isEval) := by
  simp [evaluated]

theorem EvaluatesFirst.of_append {labels : List (ι × AggStep)} {label : ι × AggStep}
    (first : EvaluatesFirst here (labels ++ [label])) : EvaluatesFirst here labels := by
  intro found isFirst
  refine first found ?_
  rw [List.find?_append, isFirst]
  rfl

/-! ### The shared variables -/

/-- All aggregators run and know whether a record has been evaluated. -/
def Agrees (labels : List (ι × AggStep)) (state : ι → Agg) : Prop :=
  ∀ index, (state index).once = !evaluated labels ∧ (state index).stop = false

theorem Agrees.step {labels : List (ι × AggStep)} {state next : ι → Agg} {label : ι × AggStep}
    (agrees : Agrees labels state) (step : (process ι).Step state label next) :
    Agrees (labels ++ [label]) next := by
  obtain ⟨⟨own, leads⟩, others⟩ := step
  obtain ⟨_, once, running⟩ := Agg.clock_of_leads (agrees label.1).2 own leads
  have noted : (next label.1).once = !evaluated (labels ++ [label]) := by
    rw [once, Agg.onceAfter, (agrees label.1).1, evaluated_append, Bool.not_or, Bool.and_comm]
  intro index
  by_cases same : index = label.1
  · subst same
    exact ⟨noted, running⟩
  · rw [others index same]
    exact ⟨noted, running⟩

theorem agrees_of_isNew {start : ι → Agg} (new : ∀ index, (start index).IsNew) :
    Agrees [] start := by
  intro index
  obtain ⟨unirec, config, now, initial⟩ := new index
  obtain ⟨keyTemp, outputTemp, made⟩ := Agg.init_ok initial
  rw [made]
  exact ⟨rfl, rfl⟩

theorem agrees_of_run {start state : ι → Agg} {labels : List (ι × AggStep)}
    (new : ∀ index, (start index).IsNew) (run : (process ι).Steps start labels state) :
    Agrees labels state :=
  run.invariant Agrees (agrees_of_isNew new) Agrees.step

/-! ### One aggregator alone -/

variable [DecidableEq ι]

/-- When the first record is its own, an aggregator has evaluated one as soon as any has. -/
theorem EvaluatesFirst.own {labels : List (ι × AggStep)} (first : EvaluatesFirst here labels) :
    (ownLabels here labels).any AggStep.isEval = evaluated labels := by
  rw [Bool.eq_iff_iff, List.any_eq_true, evaluated, List.any_eq_true]
  constructor
  · rintro ⟨label, member, isEval⟩
    exact ⟨(here, label), mem_ownLabels.mp member, isEval⟩
  · rintro ⟨label, member, isEval⟩
    cases found : labels.find? fun label => label.2.isEval with
    | none => exact absurd isEval (List.find?_eq_none.mp found label member)
    | some other =>
        obtain ⟨index, step⟩ := other
        obtain rfl : index = here := first _ found
        exact ⟨step, mem_ownLabels.mpr (List.mem_of_find?_eq_some found),
          List.find?_some (p := fun label : ι × AggStep => label.2.isEval) found⟩

/-- Without a passive timeout, or with the first record of the process, the clock an aggregator
shares with others does not matter. -/
def Undisturbed (here : ι) (config : Config) (labels : List (ι × AggStep)) : Prop :=
  config.timeouts.timeoutType.hasPassive = true → EvaluatesFirst here labels

/-- The aggregator `here` of a process and the aggregator `alone` that takes the same steps. -/
structure Follows (here : ι) (config : Config) (labels : List (ι × AggStep)) (state : ι → Agg)
    (alone : Agg) : Prop where
  agrees : Agrees labels state
  setup : alone.config = config
  once : alone.once = !(ownLabels here labels).any AggStep.isEval
  same : (state here).withClock alone.once alone.timeLastFromRecord = alone
  clock : config.timeouts.timeoutType.hasPassive = true →
    alone.timeLastFromRecord = (state here).timeLastFromRecord

theorem Follows.own {config : Config} {labels : List (ι × AggStep)} {label : ι × AggStep}
    {state next : ι → Agg} {alone : Agg} (undisturbed : Undisturbed here config (labels ++ [label]))
    (own : label.1 = here) (follows : Follows here config labels state alone)
    (step : (process ι).Step state label next) :
    ∃ after, runningSystem.Step alone label.2 after ∧
      Follows here config (labels ++ [label]) next after := by
  have agrees := follows.agrees.step step
  subst own
  obtain ⟨⟨isOwn, leads⟩, _⟩ := step
  have running := (follows.agrees label.1).2
  have setup : (state label.1).config = config := by
    rw [← follows.setup, ← follows.same]
    rfl
  have aloneLeads := Agg.leads_withClock running isOwn leads alone.once alone.timeLastFromRecord
    (by rw [setup]; exact follows.clock)
  rw [follows.same] at aloneLeads
  refine ⟨_, ⟨isOwn, aloneLeads⟩, agrees, ?_, ?_, rfl, fun passive => ?_⟩
  · exact (SameSetup.of_leads leads).config.trans setup
  · change alone.onceAfter label.2 = _
    rw [Agg.onceAfter, follows.once, ownLabels_append_self rfl]
    simp [Bool.and_comm]
  · have once : alone.once = (state label.1).once := by
      rw [follows.once, (undisturbed passive).of_append.own, (follows.agrees label.1).1]
    rw [(Agg.clock_of_leads running isOwn leads).1]
    change alone.clockAfter label.2 = _
    rw [← follows.same, follows.clock passive, once]
    rfl

theorem Follows.other {config : Config} {labels : List (ι × AggStep)} {label : ι × AggStep}
    {state next : ι → Agg} {alone : Agg} (other : label.1 ≠ here)
    (follows : Follows here config labels state alone) (step : (process ι).Step state label next) :
    Follows here config (labels ++ [label]) next alone := by
  have agrees := follows.agrees.step step
  have shared : next here = Agg.share (next label.1) (state here) :=
    step.2 here (Ne.symm other)
  refine ⟨agrees, follows.setup, ?_, ?_, fun passive => ?_⟩
  · rw [ownLabels_append_other other, follows.once]
  · have running : (next label.1).stop = (state here).stop := by
      rw [(agrees label.1).2, (follows.agrees here).2]
    rw [shared]
    unfold Agg.share
    rw [running]
    exact follows.same
  · rw [shared]
    exact follows.clock passive

theorem Follows.outcome {config : Config} {labels : List (ι × AggStep)} {state : ι → Agg}
    {alone : Agg} (follows : Follows here config labels state alone) :
    alone.sent = (state here).sent ∧ alone.storage = (state here).storage := by
  have sent := congrArg Agg.sent follows.same
  have storage := congrArg Agg.storage follows.same
  exact ⟨sent.symm, storage.symm⟩

/-- An aggregator nobody disturbs takes its steps as it would alone. -/
theorem alone_of_run {start state : ι → Agg} {labels : List (ι × AggStep)}
    (new : ∀ index, (start index).IsNew) (run : (process ι).Steps start labels state)
    (undisturbed : Undisturbed here (start here).config labels) :
    ∃ alone, runningSystem.Steps (start here) (ownLabels here labels) alone ∧
      Follows here (start here).config labels state alone := by
  refine Steps.alone (Follows here (start here).config)
    (fun undisturbed passive => (undisturbed passive).of_append)
    (fun undisturbed own follows step => follows.own undisturbed own step)
    (fun _ other follows step => follows.other other step) run undisturbed ?_
  have agrees := agrees_of_isNew new
  exact ⟨agrees, rfl, (agrees here).1, rfl, fun _ => rfl⟩

/-- Labels but that of a rehash determine what a step leads to. -/
theorem Agg.Leads.unique {agg : Agg} {label : AggStep} {first second : Except Fault Agg}
    (determined : label ≠ .rehash) (here : agg.Leads label first)
    (there : agg.Leads label second) : first = second := by
  cases here with
  | rehash => exact absurd rfl determined
  | eval | startTimeouts | checkTimeouts | destroy | otherEval | otherDestroy =>
      cases there
      rfl

/-- A record sets the clock of the aggregator that evaluates it just when it is the first of the
process. An aggregator without a passive timeout, or with the first record of the process, stores
and sends what it would alone, and so the same in all processes. -/
theorem independent_of_first {start state : ι → Agg} {labels : List (ι × AggStep)}
    (new : ∀ index, (start index).IsNew) (run : (process ι).Steps start labels state) (here : ι) :
    (∀ inRec next, (process ι).Step state (here, .eval inRec) next →
      (next here).timeLastFromRecord =
        if evaluated labels then (state here).timeLastFromRecord
        else urTimeGetSec inRec.timeLast) ∧
    (Undisturbed here (start here).config labels →
      (∃ alone, runningSystem.Steps (start here) (ownLabels here labels) alone ∧
        alone.sent = (state here).sent ∧ alone.storage = (state here).storage) ∧
      ∀ {κ : Type} [DecidableEq κ] {start' state' : κ → Agg} {labels' : List (κ × AggStep)}
        (there : κ), (∀ index, (start' index).IsNew) → (process κ).Steps start' labels' state' →
        Undisturbed there (start' there).config labels' → start' there = start here →
        ownLabels there labels' = ownLabels here labels → .rehash ∉ ownLabels here labels →
        (state' there).sent = (state here).sent) := by
  refine ⟨fun inRec next step => ?_, fun undisturbed => ⟨?_, ?_⟩⟩
  · obtain ⟨⟨own, leads⟩, _⟩ := step
    obtain ⟨once, running⟩ := agrees_of_run new run here
    rw [(Agg.clock_of_leads running own leads).1, Agg.clockAfter, once]
    cases evaluated labels <;> rfl
  · obtain ⟨alone, ran, follows⟩ := alone_of_run new run undisturbed
    exact ⟨alone, ran, follows.outcome⟩
  · intro κ _ start' state' labels' there new' run' undisturbed' sameStart sameLabels fixed
    obtain ⟨alone, ran, follows⟩ := alone_of_run new run undisturbed
    obtain ⟨alone', ran', follows'⟩ := alone_of_run new' run' undisturbed'
    rw [sameStart, sameLabels] at ran'
    have unique : ∀ {agg label first second}, label ≠ AggStep.rehash →
        runningSystem.Step agg label first → runningSystem.Step agg label second →
        first = second := fun determined one other =>
      Except.ok.inj (one.2.unique determined other.2)
    obtain rfl := Steps.unique unique ran ran' fun label member isRehash =>
      fixed (isRehash ▸ member)
    exact follows'.outcome.1.symm.trans follows.outcome.1

/-! ### A record of another aggregator -/

/-- `window: passive 60 s` and `aggregator: v = SUM(TTL)`. -/
def passiveTtl : Config :=
  stageConfig { Context.root with window := some ⟨.passive, 60⟩ }
    ⟨⟨.v, .withParam ⟨.sum, .ttl⟩⟩, []⟩

/-- The aggregator of `passiveTtl`, set up at second 1000. -/
def passiveTtlAgg : Agg where
  config := passiveTtl
  keyTemp := passiveTtl.fields.filterMap keyOf?
  outputTemp :=
    { unirec := .plain
      outTmplt := configIds passiveTtl ++ staticIds
      fields := passiveTtl.fields.filterMap plainOf?
      fieldsLikePtr := passiveTtl.fields.filterMap ptrOf?
      prepareToSend := false
      avgPostprocessing := false }
  storage := ∅
  timeLastFromRecord := 1000
  once := true
  stop := false
  sent := []

theorem passiveTtlAgg_isNew : passiveTtlAgg.IsNew :=
  ⟨.plain, passiveTtl, 1000, init_eq (known_stageConfig _ _) 1000 true false⟩

/-- A record that ends in second 10. -/
def endsAtTen : Record := Record.set (fun _ => 0) (.unirec .timeLast) (10 * 2 ^ 32)

/-- An aggregator of a process takes its steps whatever the others have done. -/
theorem process_step {start state : ι → Agg} {labels : List (ι × AggStep)} (here : ι)
    {label : AggStep} {agg : Agg} (run : (process ι).Steps start labels state)
    (own : label.isOwn = true) (leads : (state here).Leads label (.ok agg)) :
    ∃ next, (process ι).Steps start (labels ++ [(here, label)]) next ∧ next here = agg ∧
      ∀ other, other ≠ here → next other = Agg.share agg (state other) := by
  refine ⟨fun index => if index = here then agg else Agg.share agg (state index),
    .step run ⟨⟨own, ?_⟩, fun other different => ?_⟩, if_pos rfl,
    fun other different => if_neg different⟩
  · dsimp only
    rw [if_pos rfl]
    exact leads
  · dsimp only at different ⊢
    rw [if_neg different, if_pos rfl]

/-- Two aggregators evaluate a record, first the one whose steps are looked at. -/
def beforeOther : List (Bool × AggStep) :=
  [(true, .startTimeouts), (true, .eval endsAtTen), (false, .eval endsAtTen),
    (true, .checkTimeouts)]

/-- The same with the records the other way round. -/
def behindOther : List (Bool × AggStep) :=
  [(true, .startTimeouts), (false, .eval endsAtTen), (true, .eval endsAtTen),
    (true, .checkTimeouts)]

theorem beforeOther_run :
    ∃ state, (process Bool).Steps (fun _ => passiveTtlAgg) beforeOther state ∧
      (state true).sent.length = 0 ∧ (state false).storage.entries.length = 1 := by
  have sent : (passiveTtlAgg.startTimeouts.eval endsAtTen >>= fun here =>
      (Agg.share here passiveTtlAgg).eval endsAtTen >>= fun other =>
        (Agg.share other here).checkTimeouts.map fun last =>
          (last.sent.length, (Agg.share last other).storage.entries.length)) = .ok (0, 1) := by
    decide +kernel
  obtain ⟨middle, evaluates, ran⟩ := bind_ok.mp sent
  obtain ⟨other, evaluatesToo, ran⟩ := bind_ok.mp ran
  obtain ⟨last, checks, both⟩ := map_ok.mp ran
  obtain ⟨sent, stored⟩ := Prod.mk.inj both
  obtain ⟨first, run, isFirst, others⟩ := process_step true
    (.refl : (process Bool).Steps (fun _ => passiveTtlAgg) [] _) rfl .startTimeouts
  have started : first false = passiveTtlAgg := others false (by decide)
  obtain ⟨second, run, isSecond, others⟩ := process_step true run rfl
    (isFirst ▸ evaluates ▸ .eval endsAtTen : (first true).Leads (.eval endsAtTen) (.ok middle))
  have shared : second false = Agg.share middle passiveTtlAgg := started ▸ others false (by decide)
  obtain ⟨third, run, isThird, others⟩ := process_step false run rfl
    (shared ▸ evaluatesToo ▸ .eval endsAtTen :
      (second false).Leads (.eval endsAtTen) (.ok other))
  have sharedToo : third true = Agg.share other middle := isSecond ▸ others true (by decide)
  obtain ⟨fourth, run, isFourth, others⟩ := process_step true run rfl
    (sharedToo ▸ checks ▸ .checkTimeouts : (third true).Leads .checkTimeouts (.ok last))
  have left : fourth false = Agg.share last other := isThird ▸ others false (by decide)
  exact ⟨fourth, run, isFourth ▸ sent, left ▸ stored⟩

theorem behindOther_run :
    ∃ state, (process Bool).Steps (fun _ => passiveTtlAgg) behindOther state ∧
      (state true).sent.length = 1 := by
  have sent : ((passiveTtlAgg.eval endsAtTen >>= fun other =>
      (Agg.share other passiveTtlAgg.startTimeouts).eval endsAtTen >>= Agg.checkTimeouts).map
        fun agg => agg.sent.length) = .ok 1 := by decide +kernel
  obtain ⟨last, ran, sent⟩ := map_ok.mp sent
  obtain ⟨other, evaluates, ran⟩ := bind_ok.mp ran
  obtain ⟨middle, evaluatesToo, checks⟩ := bind_ok.mp ran
  obtain ⟨first, run, isFirst, others⟩ := process_step true
    (.refl : (process Bool).Steps (fun _ => passiveTtlAgg) [] _) rfl .startTimeouts
  have isOther : first false = passiveTtlAgg := others false (by decide)
  obtain ⟨second, run, isSecond, others⟩ := process_step false run rfl
    (isOther ▸ evaluates ▸ .eval endsAtTen : (first false).Leads (.eval endsAtTen) (.ok other))
  have isShared : second true = Agg.share other passiveTtlAgg.startTimeouts :=
    isFirst ▸ others true (by decide)
  obtain ⟨third, run, isThird, _⟩ := process_step true run rfl
    (isShared ▸ evaluatesToo ▸ .eval endsAtTen :
      (second true).Leads (.eval endsAtTen) (.ok middle))
  obtain ⟨fourth, run, isFourth, _⟩ := process_step true run rfl
    (isThird ▸ checks ▸ .checkTimeouts : (third true).Leads .checkTimeouts (.ok last))
  exact ⟨fourth, run, isFourth ▸ sent⟩

theorem independent_of_first_beforeOther :
    ∃ state alone, (process Bool).Steps (fun _ => passiveTtlAgg) beforeOther state ∧
      (state false).storage.entries.length = 1 ∧
      runningSystem.Steps passiveTtlAgg (ownLabels true beforeOther) alone ∧
      alone.sent = (state true).sent ∧ alone.storage = (state true).storage := by
  obtain ⟨state, run, _, stored⟩ := beforeOther_run
  have first : EvaluatesFirst true beforeOther := by
    intro label isFirst
    obtain rfl := Option.some.inj isFirst
    rfl
  obtain ⟨alone, ran, same⟩ :=
    ((independent_of_first (fun _ => passiveTtlAgg_isNew) run true).2 fun _ => first).1
  exact ⟨state, alone, run, stored, ran, same⟩

/-- A record of another aggregator makes one with a passive timeout send its own record early. -/
theorem behindOther_disturbed :
    ∃ first second : Bool → Agg, passiveTtlAgg.IsNew ∧
      (process Bool).Steps (fun _ => passiveTtlAgg) beforeOther first ∧
      (process Bool).Steps (fun _ => passiveTtlAgg) behindOther second ∧
      ownLabels true beforeOther = ownLabels true behindOther ∧
      (first true).sent ≠ (second true).sent := by
  obtain ⟨first, run, none, _⟩ := beforeOther_run
  obtain ⟨second, run', one⟩ := behindOther_run
  refine ⟨first, second, passiveTtlAgg_isNew, run, run', rfl, fun same => ?_⟩
  rw [same, one] at none
  exact absurd none (by decide)

end Policer.Aggregator
