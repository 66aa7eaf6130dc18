import Policer.Aggregator.Independence

/-!
# When the passive timeout expires

The thread of `check_timeouts` adds the passive timeout to the clock once before its first sweep
and behind every sweep, and the first record sets the clock back. The sweeps take no time and
lie the timeout apart. `never_early_of_entered` says what a sweep sends out.
-/

namespace Policer.Aggregator

open Policer.Lib TransitionSystem Policer.Parsing Policer.Backend

/-! ### An aggregator and its thread in time -/

/-- How far the thread of `check_timeouts` has got: it has been created, it has entered the loop,
or it sleeps behind a sweep. -/
inductive Thread where
  | created
  | entered
  | sleeping (wake : Int)

/-- What a step does to the thread. -/
inductive Thread.Moves (timeout time : Int) : Thread → AggStep → Thread → Prop where
  | start : Moves timeout time .created .startTimeouts .entered
  | firstSweep : Moves timeout time .entered .checkTimeouts (.sleeping (time + timeout))
  | sweep : Moves timeout time (.sleeping time) .checkTimeouts (.sleeping (time + timeout))
  | eval (thread : Thread) (inRec : Record) : Moves timeout time thread (.eval inRec) thread
  | rehash (thread : Thread) : Moves timeout time thread .rehash thread

/-- An aggregator, its thread, and the time of the last step. -/
structure Watch where
  agg : Agg
  thread : Thread
  now : Int

/-- The passive timeout. -/
def Agg.passiveTimeout (agg : Agg) : Int := agg.config.timeouts.timeout .passive

/-- An aggregator with its thread, whose steps carry their times. -/
def timedSystem : TransitionSystem Watch (Int × AggStep) where
  Step watch label next :=
    runningSystem.Step watch.agg label.2 next.agg ∧
      watch.thread.Moves watch.agg.passiveTimeout label.1 label.2 next.thread ∧
      watch.now ≤ label.1 ∧ next.now = label.1

/-- The stored records a round of `check_timeouts` sends out. -/
def Agg.swept (agg : Agg) : List Stored :=
  (agg.storage.entries.filter fun entry => agg.leaves entry.2).map Sigma.snd

/-- A round of `check_timeouts`. -/
def AggStep.isSweep : AggStep → Bool
  | .checkTimeouts => true
  | .eval _ | .startTimeouts | .rehash | .destroy | .otherEval | .otherDestroy => false

/-- The time of the first sweep. -/
def firstSweep (labels : List (Int × AggStep)) : Option Int :=
  (labels.find? fun label => label.2.isSweep).map Prod.fst

theorem firstSweep_append (labels : List (Int × AggStep)) (label : Int × AggStep) :
    firstSweep (labels ++ [label]) =
      (firstSweep labels).or (if label.2.isSweep then some label.1 else none) := by
  unfold firstSweep
  rw [List.find?_append, Option.map_or, List.find?_singleton]
  split <;> rfl

/-! ### Before the first record -/

/-- An aggregator that has not evaluated a record. -/
structure Idle (config : Config) (watch : Watch) : Prop where
  setup : watch.agg.config = config
  once : watch.agg.once = true
  running : watch.agg.stop = false
  empty : watch.agg.storage.entries = []

theorem Agg.swept_of_empty {agg : Agg} (empty : agg.storage.entries = []) : agg.swept = [] := by
  rw [swept, empty]
  rfl

/-- Only a record fills an empty storage. -/
theorem Agg.empty_of_leads {agg next : Agg} {label : AggStep} (running : agg.stop = false)
    (own : label.isOwn = true) (noEval : label.isEval = false)
    (leads : agg.Leads label (.ok next)) (empty : agg.storage.entries = []) :
    next.storage.entries = [] := by
  generalize outcome : (Except.ok next : Except Fault Agg) = result at leads
  cases leads with
  | eval inRec => simp [AggStep.isEval] at noEval
  | startTimeouts =>
      cases outcome
      rw [startTimeouts_eq]
      exact empty
  | checkTimeouts =>
      rw [checkTimeouts_eq running] at outcome
      obtain ⟨swept, sends, rfl⟩ := map_ok.mp outcome.symm
      obtain ⟨records, _, rfl⟩ := sendOut_ok sends
      change agg.storage.entries.filter _ = []
      rw [empty]
      rfl
  | rehash reordered =>
      cases outcome
      rw [empty] at reordered
      exact List.nil_perm.mp reordered
  | destroy | otherEval | otherDestroy => simp [AggStep.isOwn] at own

theorem Idle.step {config : Config} {watch next : Watch} {label : Int × AggStep}
    (idle : Idle config watch) (noEval : label.2.isEval = false)
    (step : timedSystem.Step watch label next) : Idle config next := by
  obtain ⟨⟨own, leads⟩, _⟩ := step
  obtain ⟨_, once, running⟩ := Agg.clock_of_leads idle.running own leads
  refine ⟨(SameSetup.of_leads leads).config.trans idle.setup, ?_, running,
    Agg.empty_of_leads idle.running own noEval leads idle.empty⟩
  rw [once, Agg.onceAfter, noEval, idle.once]
  rfl

theorem idle_of_run {unirec : Libunirec} {config : Config} {now : Int} {agg : Agg}
    (initial : Agg.init unirec config now true false = some agg) {began : Int} {watch : Watch}
    {labels : List (Int × AggStep)} (run : timedSystem.Steps ⟨agg, .created, began⟩ labels watch)
    (noEval : ∀ label ∈ labels, label.2.isEval = false) : Idle config watch := by
  induction run with
  | refl =>
      obtain ⟨keyTemp, outputTemp, rfl⟩ := Agg.init_ok initial
      exact ⟨rfl, rfl, rfl, rfl⟩
  | step _ transition inductionHypothesis =>
      have idle := inductionHypothesis fun label member =>
        noEval label (List.mem_append_left _ member)
      exact idle.step (noEval _ (by simp)) transition

/-! ### Behind the first record -/

/-- What the clock is ahead by when the first record finds the thread in this place. -/
def Thread.lead (timeout : Int) : Thread → Int
  | .created => timeout
  | .entered | .sleeping _ => 0

/-- The clock behind a first record at time `tau` with `TIME_LAST` in second `base`, by the time of
the first sweep since and the place of the thread. -/
inductive Reads (timeout base tau lead : Int) : Option Int → Thread → Int → Prop where
  | created (ahead : lead = timeout) : Reads timeout base tau lead none .created base
  | entered : Reads timeout base tau lead none .entered (base + lead)
  | sleeping (wake : Int) : Reads timeout base tau lead none (.sleeping wake) (base + lead)
  | swept {first : Int} (later : tau ≤ first) (wake : Int) :
      Reads timeout base tau lead (some first) (.sleeping wake) (base + lead + (wake - first))

theorem reads_first (timeout base tau : Int) (thread : Thread) :
    Reads timeout base tau (thread.lead timeout) none thread base := by
  cases thread with
  | created => exact .created rfl
  | entered =>
      have reads : Reads timeout base tau 0 none .entered (base + 0) := .entered
      rwa [Int.add_zero] at reads
  | sleeping wake =>
      have reads : Reads timeout base tau 0 none (.sleeping wake) (base + 0) := .sleeping wake
      rwa [Int.add_zero] at reads

/-- An aggregator that has evaluated its first record. -/
structure Counting (config : Config) (base tau lead : Int) (labels : List (Int × AggStep))
    (watch : Watch) : Prop where
  setup : watch.agg.config = config
  once : watch.agg.once = false
  running : watch.agg.stop = false
  later : tau ≤ watch.now
  reads : Reads (config.timeouts.timeout .passive) base tau lead (firstSweep labels) watch.thread
    watch.agg.timeLastFromRecord

variable {config : Config} {base tau lead : Int} {labels : List (Int × AggStep)}
  {watch next : Watch} {label : Int × AggStep}

theorem Agg.passiveStep_eq {agg : Agg}
    (passive : agg.config.timeouts.timeoutType.hasPassive = true) :
    agg.passiveStep = agg.passiveTimeout := if_pos passive

/-- The clock at a sweep. -/
theorem Counting.at_sweep (counting : Counting config base tau lead labels watch)
    (step : timedSystem.Step watch label next) (sweep : label.2.isSweep = true) :
    ∃ first, firstSweep (labels ++ [label]) = some first ∧ tau ≤ first ∧
      watch.agg.timeLastFromRecord = base + lead + (label.1 - first) ∧
      next.thread = .sleeping (label.1 + watch.agg.passiveTimeout) := by
  obtain ⟨time, label⟩ := label
  obtain ⟨_, moves, now, _⟩ := step
  have reads := counting.reads
  have later := counting.later
  rw [firstSweep_append]
  generalize firstSweep labels = first at reads ⊢
  generalize watch.thread = thread, next.thread = thread' at moves reads ⊢
  dsimp only at moves sweep now ⊢
  generalize watch.agg.timeLastFromRecord = clock at reads
  cases moves with
  | start => simp [AggStep.isSweep] at sweep
  | eval | rehash => simp [AggStep.isSweep] at sweep
  | firstSweep =>
      cases reads with
      | entered => exact ⟨time, rfl, by omega, by omega, rfl⟩
  | sweep =>
      cases reads with
      | sleeping => exact ⟨time, rfl, by omega, by omega, rfl⟩
      | swept after => exact ⟨_, rfl, after, rfl, rfl⟩

/-- A step that is no sweep keeps the reading of the clock. -/
theorem Counting.reads_step (passive : config.timeouts.timeoutType.hasPassive = true)
    (counting : Counting config base tau lead labels watch)
    (step : timedSystem.Step watch label next) (noSweep : label.2.isSweep = false) :
    Reads (config.timeouts.timeout .passive) base tau lead (firstSweep labels) next.thread
      next.agg.timeLastFromRecord := by
  obtain ⟨time, label⟩ := label
  obtain ⟨⟨own, leads⟩, moves, _⟩ := step
  have clock := (Agg.clock_of_leads counting.running own leads).1
  have reads := counting.reads
  have once := counting.once
  have added : watch.agg.passiveStep = config.timeouts.timeout .passive := by
    rw [← counting.setup] at passive ⊢
    exact Agg.passiveStep_eq passive
  rw [clock]
  generalize watch.thread = thread, next.thread = thread' at moves reads ⊢
  dsimp only at moves noSweep ⊢
  cases moves with
  | start =>
      rw [Agg.clockAfter, added]
      generalize firstSweep labels = first, watch.agg.timeLastFromRecord = before at reads ⊢
      cases reads with
      | created ahead =>
          rw [← ahead]
          exact .entered
  | firstSweep | sweep => simp [AggStep.isSweep] at noSweep
  | eval thread inRec =>
      rw [Agg.clockAfter, once]
      exact reads
  | rehash => exact reads

/-- Behind the first record every step keeps the count. -/
theorem Counting.step (passive : config.timeouts.timeoutType.hasPassive = true)
    (counting : Counting config base tau lead labels watch)
    (step : timedSystem.Step watch label next) :
    Counting config base tau lead (labels ++ [label]) next := by
  obtain ⟨⟨own, leads⟩, moves, now, isNow⟩ := id step
  obtain ⟨clock, once, running⟩ := Agg.clock_of_leads counting.running own leads
  refine ⟨(SameSetup.of_leads leads).config.trans counting.setup, ?_, running, ?_, ?_⟩
  · rw [once, Agg.onceAfter, counting.once, Bool.and_false]
  · rw [isNow]
    exact Int.le_trans counting.later now
  · cases sweep : label.2.isSweep with
    | false =>
        rw [firstSweep_append, sweep, if_neg Bool.false_ne_true, Option.or_none]
        exact counting.reads_step passive step sweep
    | true =>
        obtain ⟨first, isFirst, after, before, wakes⟩ := counting.at_sweep step sweep
        have isSweep : label.2 = .checkTimeouts := by
          cases kind : label.2 <;> simp [kind, AggStep.isSweep] at sweep ⊢
        have added : watch.agg.passiveStep = watch.agg.passiveTimeout :=
          Agg.passiveStep_eq (counting.setup ▸ passive)
        have reading : base + lead + (label.1 - first) + watch.agg.passiveTimeout =
            base + lead + (label.1 + watch.agg.passiveTimeout - first) := by omega
        rw [isFirst, wakes, clock, isSweep, Agg.clockAfter, before, added, reading]
        exact .swept after _

/-- The first record sets the clock. -/
theorem Idle.first {inRec : Record} {tau : Int} (idle : Idle config watch)
    (step : timedSystem.Step watch (tau, .eval inRec) next) :
    Counting config (urTimeGetSec inRec.timeLast) tau
      (watch.thread.lead (config.timeouts.timeout .passive)) [] next := by
  obtain ⟨⟨own, leads⟩, moves, _, isNow⟩ := step
  obtain ⟨clock, once, running⟩ := Agg.clock_of_leads idle.running own leads
  refine ⟨(SameSetup.of_leads leads).config.trans idle.setup, once, running,
    Int.le_of_eq isNow.symm, ?_⟩
  rw [clock, Agg.clockAfter, idle.once, if_pos rfl]
  generalize watch.thread = thread, next.thread = thread' at moves ⊢
  cases moves with
  | eval => exact reads_first ..

theorem counting_of_run (passive : config.timeouts.timeoutType.hasPassive = true)
    {counted : Watch} (counting : Counting config base tau lead [] watch)
    (run : timedSystem.Steps watch labels counted) :
    Counting config base tau lead labels counted :=
  run.invariant (Counting config base tau lead) counting (Counting.step passive)

/-! ### What a sweep sends out -/

theorem Agg.mem_swept {agg : Agg} {stored : Stored} :
    stored ∈ agg.swept ↔
      (∃ key, ⟨key, stored⟩ ∈ agg.storage.entries) ∧ agg.leaves stored = true := by
  unfold swept
  rw [List.mem_map]
  constructor
  · rintro ⟨⟨key, _⟩, member, rfl⟩
    obtain ⟨member, leaves⟩ := List.mem_filter.mp member
    exact ⟨⟨key, member⟩, leaves⟩
  · rintro ⟨⟨key, member⟩, leaves⟩
    exact ⟨⟨key, stored⟩, List.mem_filter.mpr ⟨member, leaves⟩, rfl⟩

/-- A sweep sends the records it takes out of the storage. -/
theorem Agg.sent_of_sweep {agg next : Agg} (running : agg.stop = false)
    (leads : agg.Leads .checkTimeouts (.ok next)) :
    ∃ records, agg.swept.mapM agg.sendRecordOut = .ok records ∧
      next.sent = agg.sent ++ records := by
  generalize outcome : (Except.ok next : Except Fault Agg) = result at leads
  cases leads with
  | checkTimeouts =>
      rw [checkTimeouts_eq running] at outcome
      obtain ⟨rest, sends, rfl⟩ := map_ok.mp outcome.symm
      obtain ⟨records, made, rfl⟩ := sendOut_ok sends
      refine ⟨records, ?_, rfl⟩
      rw [swept, List.mapM_map]
      exact made

theorem Agg.leaves_eq {agg : Agg} (passive : agg.config.timeouts.timeoutType.hasPassive = true) :
    agg.leaves = agg.expired := by
  funext stored
  unfold leaves
  cases type : agg.config.timeouts.timeoutType with
  | active | global => simp [type, TimeoutType.hasPassive] at passive
  | passive | activePassive => rfl

/-- No sweep sends anything before the first record. Behind a first record at time `tau`, a sweep
sends out what lies further back than the passive timeout as seen from the first sweep since, and
`lead` seconds more. That is never early when the thread has entered its loop before, or when its
first sweep comes late enough. -/
theorem never_early_of_entered {unirec : Libunirec} {config : Config}
    (passive : config.timeouts.timeoutType.hasPassive = true) {now : Int} {agg : Agg}
    (initial : Agg.init unirec config now true false = some agg) {began : Int} {idle : Watch}
    {before : List (Int × AggStep)} (run : timedSystem.Steps ⟨agg, .created, began⟩ before idle)
    (noEval : ∀ label ∈ before, label.2.isEval = false) :
    idle.agg.swept = [] ∧
    ∀ {inRec : Record} {tau time : Int} {counted watch next : Watch}
      {after : List (Int × AggStep)}, timedSystem.Step idle (tau, .eval inRec) counted →
      timedSystem.Steps counted after watch →
      timedSystem.Step watch (time, .checkTimeouts) next →
      ∃ first records, firstSweep (after ++ [(time, .checkTimeouts)]) = some first ∧
        watch.agg.swept.mapM watch.agg.sendRecordOut = .ok records ∧
        next.agg.sent = watch.agg.sent ++ records ∧
        (∀ stored, stored ∈ watch.agg.swept ↔
          (∃ key, ⟨key, stored⟩ ∈ watch.agg.storage.entries) ∧
            urTimeGetSec stored.record.timeLast + config.timeouts.timeout .passive <
              urTimeGetSec inRec.timeLast + (time - first) +
                idle.thread.lead (config.timeouts.timeout .passive)) ∧
        ((idle.thread = .created → config.timeouts.timeout .passive ≤ first - tau + 1) →
          ∀ stored ∈ watch.agg.swept,
            urTimeGetSec stored.record.timeLast + config.timeouts.timeout .passive ≤
              urTimeGetSec inRec.timeLast + (time - tau)) := by
  have isIdle := idle_of_run initial run noEval
  refine ⟨Agg.swept_of_empty isIdle.empty, ?_⟩
  intro inRec tau time counted watch next after evaluates rest sweeps
  have counting := counting_of_run passive (isIdle.first evaluates) rest
  obtain ⟨first, isFirst, later, clock, _⟩ := counting.at_sweep sweeps rfl
  obtain ⟨records, made, sent⟩ := Agg.sent_of_sweep counting.running sweeps.1.2
  have sends (stored : Stored) : stored ∈ watch.agg.swept ↔
      (∃ key, ⟨key, stored⟩ ∈ watch.agg.storage.entries) ∧
        urTimeGetSec stored.record.timeLast + config.timeouts.timeout .passive <
          urTimeGetSec inRec.timeLast + (time - first) +
            idle.thread.lead (config.timeouts.timeout .passive) := by
    rw [Agg.mem_swept, Agg.leaves_eq (counting.setup ▸ passive), Agg.expired, decide_eq_true_iff,
      clock, counting.setup]
    refine and_congr_right fun _ => ?_
    omega
  refine ⟨first, records, isFirst, made, sent, sends, fun entered stored member => ?_⟩
  have late := ((sends stored).mp member).2
  cases place : idle.thread with
  | created =>
      have long := entered place
      rw [place, Thread.lead] at late
      omega
  | entered | sleeping =>
      rw [place, Thread.lead] at late
      omega

/-! ### A thread that enters its loop late -/

/-- `grouper: TTL`, `window: passive 60 s` and `aggregator: v = SUM(PACKETS)`. -/
def keyedPassive : Config :=
  stageConfig { Context.root with
      grouper := some (.keys ⟨.ttl, []⟩)
      window := some ⟨.passive, 60⟩ }
    ⟨⟨.v, .withParam ⟨.sum, .packets⟩⟩, []⟩

/-- A record with `TIME_LAST` in this second. -/
def endsAt (ttl : BitVec 8) (second : BitVec 64) : Record :=
  let timeLast : BitVec 64 := second <<< 32
  (Record.set (fun _ => 0) (.unirec .ttl) ttl).set (.unirec .timeLast) timeLast

theorem never_early_of_entered_keyedPassive :
    ∃ agg counted watch next, Agg.init .plain keyedPassive 1000 true false = some agg ∧
      timedSystem.Step ⟨agg.startTimeouts, .entered, 1000⟩ (1000, .eval (endsAt 1 100)) counted ∧
      timedSystem.Steps counted [(1000, .checkTimeouts), (1060, .checkTimeouts)] watch ∧
      timedSystem.Step watch (1120, .checkTimeouts) next ∧ next.agg.sent.length = 1 ∧
      ∀ stored ∈ watch.agg.swept, urTimeGetSec stored.record.timeLast + 60 ≤ 100 + 120 := by
  have ends : ((Agg.init .plain keyedPassive 1000 true false).map fun agg =>
      agg.startTimeouts.eval (endsAt 1 100) >>= fun one => one.checkTimeouts >>= fun two =>
        two.checkTimeouts >>= fun three => three.checkTimeouts.map fun last =>
          (last.sent.length, one.passiveTimeout, two.passiveTimeout)) =
      some (.ok (1, 60, 60)) := by decide +kernel
  obtain ⟨agg, initial, ran⟩ := Option.map_eq_some_iff.mp ends
  obtain ⟨one, evaluates, ran⟩ := bind_ok.mp ran
  obtain ⟨two, checks₁, ran⟩ := bind_ok.mp ran
  obtain ⟨three, checks₂, ran⟩ := bind_ok.mp ran
  obtain ⟨last, checks₃, all⟩ := map_ok.mp ran
  obtain ⟨sent, timeouts⟩ := Prod.mk.inj all
  obtain ⟨timeout₁, timeout₂⟩ := Prod.mk.inj timeouts
  have start : timedSystem.Step ⟨agg, .created, 1000⟩ (1000, .startTimeouts)
      ⟨agg.startTimeouts, .entered, 1000⟩ := ⟨⟨rfl, .startTimeouts⟩, .start, Int.le_refl _, rfl⟩
  have first : timedSystem.Step ⟨agg.startTimeouts, .entered, 1000⟩
      (1000, .eval (endsAt 1 100)) ⟨one, .entered, 1000⟩ :=
    ⟨⟨rfl, evaluates ▸ .eval _⟩, .eval _ _, Int.le_refl _, rfl⟩
  have sweep₁ : timedSystem.Step ⟨one, .entered, 1000⟩ (1000, .checkTimeouts)
      ⟨two, .sleeping 1060, 1000⟩ :=
    ⟨⟨rfl, checks₁ ▸ .checkTimeouts⟩, timeout₁ ▸ .firstSweep, Int.le_refl _, rfl⟩
  have sweep₂ : timedSystem.Step ⟨two, .sleeping 1060, 1000⟩ (1060, .checkTimeouts)
      ⟨three, .sleeping 1120, 1060⟩ :=
    ⟨⟨rfl, checks₂ ▸ .checkTimeouts⟩, timeout₂ ▸ .sweep,
      show (1000 : Int) ≤ 1060 by decide, rfl⟩
  have sweep₃ : timedSystem.Step ⟨three, .sleeping 1120, 1060⟩ (1120, .checkTimeouts)
      ⟨last, .sleeping (1120 + three.passiveTimeout), 1120⟩ :=
    ⟨⟨rfl, checks₃ ▸ .checkTimeouts⟩, .sweep, show (1060 : Int) ≤ 1120 by decide, rfl⟩
  have passive : keyedPassive.timeouts.timeoutType.hasPassive = true := by decide +kernel
  have timeout : keyedPassive.timeouts.timeout .passive = 60 := by decide +kernel
  have rest := TransitionSystem.Steps.step (.step .refl sweep₁) sweep₂
  obtain ⟨_, _, _, _, _, _, never⟩ := (never_early_of_entered passive initial
    (.step .refl start) (by simp [AggStep.isEval])).2 first rest sweep₃
  refine ⟨agg, _, _, _, initial, first, rest, sweep₃, sent, fun stored member => ?_⟩
  have late := never (fun created => by cases created) stored member
  rw [timeout] at late
  exact late

/-- A record that ends 50 seconds before the first one is sent out at once. -/
theorem entered_late_early :
    ∃ agg idle counted watch next, Agg.init .plain keyedPassive 1000 true false = some agg ∧
      timedSystem.Steps ⟨agg, .created, 1000⟩ [] idle ∧
      timedSystem.Step idle (1000, .eval (endsAt 1 100)) counted ∧
      timedSystem.Steps counted [(1000, .eval (endsAt 2 50)), (1000, .startTimeouts)] watch ∧
      timedSystem.Step watch (1000, .checkTimeouts) next ∧
      ∃ stored ∈ watch.agg.swept, 100 + (1000 - 1000) <
        urTimeGetSec stored.record.timeLast + keyedPassive.timeouts.timeout .passive := by
  have ends : ((Agg.init .plain keyedPassive 1000 true false).map fun agg =>
      (agg.eval (endsAt 1 100) >>= fun agg => agg.eval (endsAt 2 50) >>= fun agg =>
        agg.startTimeouts.checkTimeouts.map fun _ => agg).map fun agg =>
          agg.startTimeouts.swept.map fun stored => urTimeGetSec stored.record.timeLast) =
      some (.ok [50]) := by decide +kernel
  obtain ⟨agg, initial, ran⟩ := Option.map_eq_some_iff.mp ends
  obtain ⟨_, ran, late⟩ := map_ok.mp ran
  obtain ⟨first, evaluates, ran⟩ := bind_ok.mp ran
  obtain ⟨second, evaluatesToo, ran⟩ := bind_ok.mp ran
  obtain ⟨last, checks, rfl⟩ := map_ok.mp ran
  have start : timedSystem.Step ⟨second, .created, 1000⟩ (1000, .startTimeouts)
      ⟨second.startTimeouts, .entered, 1000⟩ := ⟨⟨rfl, .startTimeouts⟩, .start, Int.le_refl _, rfl⟩
  have one : timedSystem.Step ⟨agg, .created, 1000⟩ (1000, .eval (endsAt 1 100))
      ⟨first, .created, 1000⟩ := ⟨⟨rfl, evaluates ▸ .eval _⟩, .eval _ _, Int.le_refl _, rfl⟩
  have two : timedSystem.Step ⟨first, .created, 1000⟩ (1000, .eval (endsAt 2 50))
      ⟨second, .created, 1000⟩ := ⟨⟨rfl, evaluatesToo ▸ .eval _⟩, .eval _ _, Int.le_refl _, rfl⟩
  have sweep : timedSystem.Step ⟨second.startTimeouts, .entered, 1000⟩ (1000, .checkTimeouts)
      ⟨last, .sleeping (1000 + second.startTimeouts.passiveTimeout), 1000⟩ :=
    ⟨⟨rfl, checks ▸ .checkTimeouts⟩, .firstSweep, Int.le_refl _, rfl⟩
  obtain ⟨stored, member, isFifty⟩ := List.mem_map.mp (late ▸ List.mem_cons_self)
  have timeout : keyedPassive.timeouts.timeout .passive = 60 := by decide +kernel
  refine ⟨agg, _, _, _, _, initial, .refl, one, .step (.step .refl two) start, sweep, stored,
    member, ?_⟩
  rw [isFifty, timeout]
  decide

end Policer.Aggregator
