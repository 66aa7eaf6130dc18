import Policer.Aggregator.Agg

/-!
# The clock of an aggregator

`time_last_from_record` is written by `eval`, once for all aggregators, and by the thread of
`check_timeouts`. `clock_of_leads` says what a step before any destructor does to it, and
`leads_withClock` that a step reads it only for a passive timeout.
-/

namespace Policer.Aggregator

open Policer.Lib Policer.Parsing

/-! ### Steps before a destructor runs -/

/-- A step an aggregator takes itself before any destructor runs. -/
def AggStep.isOwn : AggStep → Bool
  | .eval _ | .startTimeouts | .checkTimeouts | .rehash => true
  | .destroy | .otherEval | .otherDestroy => false

/-- A step that evaluates a record. -/
def AggStep.isEval : AggStep → Bool
  | .eval _ => true
  | .startTimeouts | .checkTimeouts | .rehash | .destroy | .otherEval | .otherDestroy => false

namespace Agg

/-- The aggregator with other values of the variables the passive timeout is measured with. -/
def withClock (agg : Agg) (once : Bool) (clock : Int) : Agg :=
  { agg with once := once, timeLastFromRecord := clock }

/-- What a round of `check_timeouts` adds to the clock. -/
def passiveStep (agg : Agg) : Int :=
  if agg.config.timeouts.timeoutType.hasPassive then agg.config.timeouts.timeout .passive else 0

/-- What a round of `check_timeouts` sends out. -/
def leaves (agg : Agg) (stored : Stored) : Bool :=
  match agg.config.timeouts.timeoutType with
  | .global => true
  | .active => false
  | .passive | .activePassive => agg.expired stored

/-- The clock behind a step. -/
def clockAfter (agg : Agg) : AggStep → Int
  | .eval inRec => if agg.once then urTimeGetSec inRec.timeLast else agg.timeLastFromRecord
  | .startTimeouts | .checkTimeouts => agg.timeLastFromRecord + agg.passiveStep
  | .rehash | .destroy | .otherEval | .otherDestroy => agg.timeLastFromRecord

/-- The shared variable behind a step. -/
def onceAfter (agg : Agg) (label : AggStep) : Bool := !label.isEval && agg.once

/-! ### Steps as functions of the clock -/

/-- A new aggregator stores nothing and takes the time of day for its clock. -/
theorem init_ok {unirec : Libunirec} {config : Config} {now : Int} {once stop : Bool} {agg : Agg}
    (initial : init unirec config now once stop = some agg) :
    ∃ keyTemp outputTemp, agg = ⟨config, keyTemp, outputTemp, ∅, now, once, stop, []⟩ := by
  obtain ⟨templates, _, initial⟩ := Option.bind_eq_some_iff.mp initial
  obtain ⟨outTmplt, _, initial⟩ := Option.bind_eq_some_iff.mp initial
  exact ⟨_, _, (Option.some.inj initial).symm⟩

theorem noteFirstRecord_eq (agg : Agg) (inRec : Record) :
    agg.noteFirstRecord inRec = agg.withClock false (agg.clockAfter (.eval inRec)) := by
  obtain ⟨config, keyTemp, outputTemp, storage, clock, once, stop, sent⟩ := agg
  cases once <;> rfl

theorem startTimeouts_eq (agg : Agg) :
    agg.startTimeouts = agg.withClock agg.once (agg.timeLastFromRecord + agg.passiveStep) := by
  unfold startTimeouts passiveStep
  split
  · rfl
  · rw [Int.add_zero]
    rfl

/-- `storage_mutex` guards what is stored and sent, and nothing else. -/
theorem store_frame {agg next : Agg} {inRec : Record} (stores : agg.store inRec = .ok next) :
    ∃ storage sent, next = { agg with storage := storage, sent := sent } := by
  rcases store_ok stores with ⟨_, _, _, rfl⟩ | ⟨_, _, _, _, _, _, _, rfl⟩ | ⟨_, _, _, rfl⟩ <;>
    exact ⟨_, _, rfl⟩

section Frame

variable (agg : Agg) (once : Bool) (clock : Int)

@[simp] theorem keyTemp_withClock : (agg.withClock once clock).keyTemp = agg.keyTemp := rfl

@[simp] theorem storage_withClock : (agg.withClock once clock).storage = agg.storage := rfl

@[simp] theorem newTimeWindow_withClock :
    (agg.withClock once clock).newTimeWindow = agg.newTimeWindow := rfl

@[simp] theorem sendRecordOut_withClock :
    (agg.withClock once clock).sendRecordOut = agg.sendRecordOut := rfl

@[simp] theorem initRecordData_withClock :
    (agg.withClock once clock).initRecordData = agg.initRecordData := rfl

@[simp] theorem processAggFunctions_withClock :
    (agg.withClock once clock).processAggFunctions = agg.processAggFunctions := rfl

end Frame

theorem store_withClock (agg : Agg) (once : Bool) (clock : Int) (inRec : Record) :
    (agg.withClock once clock).store inRec =
      (agg.store inRec).map fun next => next.withClock once clock := by
  unfold store
  simp only [keyTemp_withClock, storage_withClock, newTimeWindow_withClock,
    sendRecordOut_withClock, initRecordData_withClock, processAggFunctions_withClock]
  cases agg.storage.lookup (recKey agg.keyTemp inRec) with
  | none =>
      dsimp only
      cases agg.initRecordData inRec fun _ => 0 <;> rfl
  | some stored =>
      dsimp only
      by_cases restarts : agg.newTimeWindow inRec stored = true
      · simp only [restarts, if_true]
        cases agg.sendRecordOut stored with
        | error fault => rfl
        | ok sentRec =>
            cases fresh : agg.initRecordData inRec sentRec <;>
              simp only [fresh, bind, Except.bind] <;> rfl
      · simp only [restarts, Bool.false_eq_true, if_false]
        rfl

theorem sendOut_withClock (agg : Agg) (once : Bool) (clock : Int) (leaves : Stored → Bool) :
    (agg.withClock once clock).sendOut leaves =
      (agg.sendOut leaves).map fun next => next.withClock once clock := by
  unfold sendOut
  change ((agg.storage.entries.filter fun entry => leaves entry.2).mapM fun entry =>
    agg.sendRecordOut entry.2).map _ = _
  cases (agg.storage.entries.filter fun entry => leaves entry.2).mapM fun entry =>
    agg.sendRecordOut entry.2 <;> rfl

/-- What a running aggregator does with a record, whatever its clock. -/
theorem eval_eq {agg : Agg} (running : agg.stop = false) (inRec : Record) :
    agg.eval inRec =
      (agg.store inRec).map fun next => next.withClock false (agg.clockAfter (.eval inRec)) := by
  rw [eval_of_running running, noteFirstRecord_eq, store_withClock]

/-- A round of `check_timeouts` sends records out and moves the clock. -/
theorem checkTimeouts_eq {agg : Agg} (running : agg.stop = false) :
    agg.checkTimeouts = (agg.sendOut agg.leaves).map fun next =>
      next.withClock agg.once (agg.timeLastFromRecord + agg.passiveStep) := by
  have sweeps (leaves : Stored → Bool) : (agg.sendOut leaves).map startTimeouts =
      (agg.sendOut leaves).map fun next =>
        next.withClock agg.once (agg.timeLastFromRecord + agg.passiveStep) := by
    unfold sendOut
    cases (agg.storage.entries.filter fun entry => leaves entry.2).mapM fun entry =>
        agg.sendRecordOut entry.2 with
    | error fault => rfl
    | ok records => exact congrArg Except.ok (startTimeouts_eq _)
  have stands (leaves : Stored → Bool)
    (still : agg.config.timeouts.timeoutType.hasPassive = false) :
      agg.sendOut leaves = (agg.sendOut leaves).map fun next =>
        next.withClock agg.once (agg.timeLastFromRecord + agg.passiveStep) := by
    unfold sendOut passiveStep
    cases (agg.storage.entries.filter fun entry => leaves entry.2).mapM fun entry =>
        agg.sendRecordOut entry.2 with
    | error fault => rfl
    | ok records => simp [still, Except.map, withClock]
  unfold checkTimeouts
  rw [if_neg (by simp [running])]
  cases type : agg.config.timeouts.timeoutType with
  | global =>
      have all : agg.leaves = fun _ => true := funext fun stored => by simp [leaves, type]
      rw [all]
      exact stands _ (by rw [type]; rfl)
  | active =>
      have none : agg.leaves = fun _ => false := funext fun stored => by simp [leaves, type]
      rw [none, ← stands _ (by rw [type]; rfl)]
      simp [sendOut, keepEntries, Except.map, pure, Except.pure]
  | passive | activePassive =>
      have expired : agg.leaves = agg.expired := funext fun stored => by simp [leaves, type]
      rw [expired]
      exact sweeps _

/-! ### What a step does to the clock -/

/-- A step an aggregator takes itself moves its clock, notes that a record has been evaluated, and
keeps it running. -/
theorem clock_of_leads {agg next : Agg} {label : AggStep} (running : agg.stop = false)
    (own : label.isOwn = true) (leads : agg.Leads label (.ok next)) :
    next.timeLastFromRecord = agg.clockAfter label ∧ next.once = agg.onceAfter label ∧
      next.stop = false := by
  generalize outcome : (Except.ok next : Except Fault Agg) = result at leads
  cases leads with
  | eval inRec =>
      rw [eval_eq running] at outcome
      obtain ⟨stored, stores, rfl⟩ := map_ok.mp outcome.symm
      obtain ⟨storage, sent, rfl⟩ := store_frame stores
      exact ⟨rfl, rfl, running⟩
  | startTimeouts =>
      cases outcome
      rw [startTimeouts_eq]
      exact ⟨rfl, rfl, running⟩
  | checkTimeouts =>
      rw [checkTimeouts_eq running] at outcome
      obtain ⟨swept, sends, rfl⟩ := map_ok.mp outcome.symm
      obtain ⟨records, _, rfl⟩ := sendOut_ok sends
      exact ⟨rfl, rfl, running⟩
  | rehash =>
      cases outcome
      exact ⟨rfl, rfl, running⟩
  | destroy | otherEval | otherDestroy => simp [AggStep.isOwn] at own

/-- Without a passive timeout, or with the same clock, an aggregator takes the same steps. -/
theorem leads_withClock {agg next : Agg} {label : AggStep} (running : agg.stop = false)
    (own : label.isOwn = true) (leads : agg.Leads label (.ok next)) (once : Bool) (clock : Int)
    (same : agg.config.timeouts.timeoutType.hasPassive = true → clock = agg.timeLastFromRecord) :
    (agg.withClock once clock).Leads label (.ok (next.withClock
      ((agg.withClock once clock).onceAfter label)
      ((agg.withClock once clock).clockAfter label))) := by
  generalize outcome : (Except.ok next : Except Fault Agg) = result at leads
  cases leads with
  | eval inRec =>
      rw [eval_eq running] at outcome
      obtain ⟨stored, stores, rfl⟩ := map_ok.mp outcome.symm
      have evaluates : (agg.withClock once clock).eval inRec = .ok (stored.withClock false
          ((agg.withClock once clock).clockAfter (.eval inRec))) := by
        have running' : (agg.withClock once clock).stop = false := running
        rw [eval_eq running', store_withClock, stores]
        rfl
      exact evaluates ▸ .eval inRec
  | startTimeouts =>
      cases outcome
      have starts := startTimeouts_eq (agg.withClock once clock)
      rw [startTimeouts_eq agg]
      exact starts ▸ .startTimeouts
  | checkTimeouts =>
      rw [checkTimeouts_eq running] at outcome
      obtain ⟨swept, sends, rfl⟩ := map_ok.mp outcome.symm
      have leaves : (agg.withClock once clock).leaves = agg.leaves := by
        cases type : agg.config.timeouts.timeoutType with
        | global | active =>
            funext stored
            simp [Agg.leaves, withClock, type]
        | passive | activePassive =>
            rw [same (by rw [type]; rfl)]
            rfl
      have checks : (agg.withClock once clock).checkTimeouts = .ok (swept.withClock once
          (clock + agg.passiveStep)) := by
        have running' : (agg.withClock once clock).stop = false := running
        rw [checkTimeouts_eq running', leaves, sendOut_withClock, sends]
        rfl
      exact checks ▸ .checkTimeouts
  | rehash reordered =>
      cases outcome
      exact .rehash reordered
  | destroy | otherEval | otherDestroy => simp [AggStep.isOwn] at own

end Agg

end Policer.Aggregator
