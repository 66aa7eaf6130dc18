import Policer.Aggregator.Summary
import Policer.Lib.Faults
import Policer.Lib.KeyedWindows

/-!
# The storage refines windows of records

`Aggregation` says what an aggregator is for: every key has at most one open window of
records, a record joins the window of its key or starts a new one, and windows are
closed by a record that comes too late, by a sweep or at the end. It holds the records
themselves; `Mirrors` relates it to the storage, where one record stands for each
window, and `Mirrors.step` keeps the relation. `Represents` is the relation for folds.
-/

namespace Policer.Aggregator

open Policer.Lib Policer.Parsing

/-! ### The abstract aggregator -/

/-- The windows of an aggregator with the clock of the passive timeout. -/
structure Aggregation where
  windows : KeyedWindows Key Record
  clock : Int
  once : Bool
  stopped : Bool

/-- A record comes more than the active timeout after one of the window. -/
def Restarts (timeouts : Timeouts) (group : List Record) (inRec : Record) : Prop :=
  timeouts.timeoutType.hasActive ∧
    ∃ earlier ∈ group, urTimeGetSec earlier.timeFirst + timeouts.timeout .active <
      urTimeGetSec inRec.timeFirst

/-- All records of the window lie further back than the passive timeout. -/
def Due (timeouts : Timeouts) (clock : Int) (group : List Record) : Prop :=
  ∀ record ∈ group, urTimeGetSec record.timeLast < clock - timeouts.timeout .passive

namespace Aggregation

/-- No windows yet. -/
def start (now : Int) (once : Bool) : Aggregation := ⟨.empty, now, once, false⟩

/-- The first record sets the clock. -/
def note (state : Aggregation) (inRec : Record) : Aggregation :=
  if state.once then { state with clock := urTimeGetSec inRec.timeLast, once := false } else state

/-- The clock advances by the passive timeout. -/
def advance (timeouts : Timeouts) (state : Aggregation) : Aggregation :=
  if timeouts.timeoutType.hasPassive then
    { state with clock := state.clock + timeouts.timeout .passive }
  else state

/-- `keys` are the keys, in some order, whose open window meets a condition. -/
structure Lists (state : Aggregation) (condition : List Record → Prop) (keys : List Key) :
    Prop where
  distinct : keys.Nodup
  mem_iff : ∀ key, key ∈ keys ↔
    state.windows.opened key ≠ [] ∧ condition (state.windows.opened key)

/-- The windows of some keys are closed. -/
def close (state : Aggregation) (keys : List Key) : Aggregation :=
  { state with windows := state.windows.release keys }

/-- A record joins the window of its key. -/
def join (keyTemp : List Field) (state : Aggregation) (inRec : Record) : Aggregation :=
  { state with windows := state.windows.join (recKey keyTemp inRec) inRec }

/-- The steps, with the labels of the aggregator. -/
inductive Step (keyTemp : List Field) (timeouts : Timeouts) (state : Aggregation) :
    AggStep → Aggregation → Prop where
  | join (inRec : Record) (running : state.stopped = false)
      (stays : ¬ Restarts timeouts (state.windows.opened (recKey keyTemp inRec)) inRec) :
      Step keyTemp timeouts state (.eval inRec) ((state.note inRec).join keyTemp inRec)
  | restart (inRec : Record) (running : state.stopped = false)
      (restarts : Restarts timeouts (state.windows.opened (recKey keyTemp inRec)) inRec) :
      Step keyTemp timeouts state (.eval inRec)
        (((state.note inRec).close [recKey keyTemp inRec]).join keyTemp inRec)
  | ignore (inRec : Record) (stopped : state.stopped = true) :
      Step keyTemp timeouts state (.eval inRec) (state.note inRec)
  | startTimeouts : Step keyTemp timeouts state .startTimeouts (state.advance timeouts)
  | idle (idle : state.stopped = true ∨ timeouts.timeoutType = .active) :
      Step keyTemp timeouts state .checkTimeouts state
  | flush {keys : List Key} (running : state.stopped = false)
      (global : timeouts.timeoutType = .global) (all : state.Lists (fun _ => True) keys) :
      Step keyTemp timeouts state .checkTimeouts (state.close keys)
  | expire {keys : List Key} (running : state.stopped = false)
      (passive : timeouts.timeoutType.hasPassive)
      (due : state.Lists (Due timeouts state.clock) keys) :
      Step keyTemp timeouts state .checkTimeouts ((state.close keys).advance timeouts)
  | destroy {keys : List Key} (all : state.Lists (fun _ => True) keys) :
      Step keyTemp timeouts state .destroy { state.close keys with stopped := true }
  | rehash : Step keyTemp timeouts state .rehash state
  | otherEval : Step keyTemp timeouts state .otherEval { state with once := false }
  | otherDestroy : Step keyTemp timeouts state .otherDestroy { state with stopped := true }

/-- The abstract aggregator as a transition system. -/
def system (keyTemp : List Field) (timeouts : Timeouts) :
    TransitionSystem Aggregation AggStep where
  Step := Step keyTemp timeouts

@[simp] theorem windows_note (state : Aggregation) (inRec : Record) :
    (state.note inRec).windows = state.windows := by
  unfold note
  split <;> rfl

@[simp] theorem stopped_note (state : Aggregation) (inRec : Record) :
    (state.note inRec).stopped = state.stopped := by
  unfold note
  split <;> rfl

@[simp] theorem windows_advance (timeouts : Timeouts) (state : Aggregation) :
    (state.advance timeouts).windows = state.windows := by
  unfold advance
  split <;> rfl

@[simp] theorem stopped_advance (timeouts : Timeouts) (state : Aggregation) :
    (state.advance timeouts).stopped = state.stopped := by
  unfold advance
  split <;> rfl

/-! ### No record is lost or repeated -/

/-- The step stops the aggregator. -/
def stops : AggStep → Bool
  | .destroy | .otherDestroy => true
  | _ => false

/-- The record of a step. -/
def record? : AggStep → Option Record
  | .eval inRec => some inRec
  | _ => none

/-- The records that arrive before the aggregator is stopped. -/
def accepted (labels : List AggStep) : List Record :=
  (labels.takeWhile fun label => !stops label).filterMap record?

theorem accepted_append (labels : List AggStep) (label : AggStep) :
    accepted (labels ++ [label]) =
      accepted labels ++ if labels.any stops ∨ stops label then [] else (record? label).toList := by
  induction labels with
  | nil => cases label <;> simp [accepted, stops, record?]
  | cons head tail ih =>
      cases stop : stops head with
      | true => simp [accepted, stop]
      | false =>
          have shorter : ∀ rest, accepted (head :: rest) =
              (record? head).toList ++ accepted rest := by
            intro rest
            cases found : record? head <;> simp [accepted, stop, found]
          rw [List.cons_append, shorter, shorter, ih, List.append_assoc, List.any_cons, stop,
            Bool.false_or]

/-- Every accepted record is in one window of its key, in the order of arrival. -/
structure Partitions (keyTemp : List Field) (labels : List AggStep) (state : Aggregation) :
    Prop where
  stopped : state.stopped = labels.any stops
  history : ∀ key, state.windows.history key =
    (accepted labels).filter fun record => recKey keyTemp record = key

variable {keyTemp : List Field} {timeouts : Timeouts}

/-- Only two labels stop the aggregator. -/
theorem Step.stopped_eq {state next : Aggregation} {label : AggStep}
    (step : Step keyTemp timeouts state label next) :
    next.stopped = (state.stopped || stops label) := by
  cases step <;> simp [stops, Aggregation.join, close]

/-- What a step does to the windows: it closes some that are open, and the record of the step
joins the window of its key unless the aggregator is stopped. -/
theorem Step.windows_eq {state next : Aggregation} {label : AggStep}
    (step : Step keyTemp timeouts state label next) :
    ∃ keys : List Key, keys.Nodup ∧ (∀ key ∈ keys, state.windows.opened key ≠ []) ∧
      ((state.stopped = true ∨ record? label = none) ∧
          next.windows = state.windows.release keys ∨
        ∃ inRec, label = .eval inRec ∧ state.stopped = false ∧
          ¬ Restarts timeouts ((state.windows.release keys).opened (recKey keyTemp inRec)) inRec ∧
          next.windows = (state.windows.release keys).join (recKey keyTemp inRec) inRec) := by
  have listed : ∀ {condition : List Record → Prop} {keys : List Key}, state.Lists condition keys →
      ∀ key ∈ keys, state.windows.opened key ≠ [] :=
    fun lists key isKey => ((lists.mem_iff key).mp isKey).1
  cases step with
  | join inRec running stays =>
      refine ⟨[], List.nodup_nil, by simp, .inr ⟨inRec, rfl, running, ?_, ?_⟩⟩
      · rwa [KeyedWindows.release_nil]
      · simp [Aggregation.join]
  | restart inRec running restarts =>
      obtain ⟨_, earlier, member, _⟩ := restarts
      refine ⟨[recKey keyTemp inRec], List.nodup_singleton _, ?_,
        .inr ⟨inRec, rfl, running, ?_, ?_⟩⟩
      · intro key isKey
        rw [List.mem_singleton.mp isKey]
        exact List.ne_nil_of_mem member
      · simp [Restarts]
      · simp [Aggregation.join, close]
  | flush running global all =>
      exact ⟨_, all.distinct, listed all, .inl ⟨.inr rfl, rfl⟩⟩
  | expire running passive due =>
      exact ⟨_, due.distinct, listed due, .inl ⟨.inr rfl, windows_advance ..⟩⟩
  | destroy all => exact ⟨_, all.distinct, listed all, .inl ⟨.inr rfl, rfl⟩⟩
  | ignore inRec stopped =>
      exact ⟨[], List.nodup_nil, by simp, .inl ⟨.inl stopped, by simp⟩⟩
  | _ => exact ⟨[], List.nodup_nil, by simp, .inl ⟨.inr rfl, by simp⟩⟩

/-- One step keeps the partition. -/
theorem Partitions.step {labels : List AggStep} {label : AggStep} {state next : Aggregation}
    (partitions : Partitions keyTemp labels state) (step : Step keyTemp timeouts state label next) :
    Partitions keyTemp (labels ++ [label]) next := by
  refine ⟨?_, fun key => ?_⟩
  · rw [step.stopped_eq, partitions.stopped]
    simp
  · obtain ⟨keys, distinct, _, ⟨idle, windows⟩ | ⟨inRec, rfl, running, _, windows⟩⟩ :=
      step.windows_eq
    · have same : accepted (labels ++ [label]) = accepted labels := by
        rw [accepted_append, ← partitions.stopped]
        rcases idle with stopped | none
        · simp [stopped]
        · simp [none]
      rw [windows, KeyedWindows.history_release _ distinct, partitions.history, same]
    · have longer : accepted (labels ++ [.eval inRec]) = accepted labels ++ [inRec] := by
        rw [accepted_append, ← partitions.stopped]
        simp [running, stops, record?]
      rw [windows, KeyedWindows.history_join, KeyedWindows.history_release _ distinct,
        partitions.history, longer, List.filter_append]
      by_cases same : recKey keyTemp inRec = key
      · simp [same]
      · simp [same, Ne.symm same]

/-- Every run keeps the partition. -/
theorem partitions_of_steps {now : Int} {once : Bool} {labels : List AggStep} {state : Aggregation}
    (run : (system keyTemp timeouts).Steps (start now once) labels state) :
    Partitions keyTemp labels state :=
  run.invariant (Partitions keyTemp) ⟨rfl, fun _ => rfl⟩ Partitions.step

end Aggregation

/-! ### Conditions on the stored record -/

theorem urTimeGetSec_mono {first second : BitVec 64} (le : first ≤ second) :
    urTimeGetSec first ≤ urTimeGetSec second := by
  have div := Nat.div_le_div_right (c := 2 ^ 32) (BitVec.le_def.mp le)
  unfold urTimeGetSec
  omega

variable {folds : List (Field × FunctionCode)} {keyTemp : List Field} {timeouts : Timeouts}
  {group : List Record} {out : Record}

/-- A record restarts a window when it comes too late for the stored `TIME_FIRST`. -/
theorem restarts_iff (first : Aggregates .min (group.map Record.timeFirst) out.timeFirst)
    (timeouts : Timeouts) (inRec : Record) :
    Restarts timeouts group inRec ↔ timeouts.timeoutType.hasActive ∧
      urTimeGetSec out.timeFirst + timeouts.timeout .active < urTimeGetSec inRec.timeFirst := by
  obtain ⟨member, least⟩ := first
  refine and_congr_right fun _ => ⟨?_, fun late => ?_⟩
  · rintro ⟨earlier, inGroup, late⟩
    have le := urTimeGetSec_mono (least earlier.timeFirst (List.mem_map_of_mem inGroup))
    omega
  · obtain ⟨earlier, inGroup, same⟩ := List.mem_map.mp member
    exact ⟨earlier, inGroup, by rwa [same]⟩

/-- A window is due when the stored `TIME_LAST` lies far enough back. -/
theorem due_iff (last : Aggregates .max (group.map Record.timeLast) out.timeLast)
    (timeouts : Timeouts) (clock : Int) :
    Due timeouts clock group ↔
      urTimeGetSec out.timeLast < clock - timeouts.timeout .passive := by
  obtain ⟨member, greatest⟩ := last
  constructor
  · intro due
    obtain ⟨latest, inGroup, same⟩ := List.mem_map.mp member
    have late := due latest inGroup
    rwa [same] at late
  · intro late record inGroup
    have le := urTimeGetSec_mono (greatest record.timeLast (List.mem_map_of_mem inGroup))
    omega

/-! ### The relation -/

/-- `stands` relates a window of records to the stored record the aggregator makes of it, and
`sends` to the record that is sent for it. -/
structure Windowed (agg : Agg) (stands : List Record → Stored → Prop)
    (sends : List Record → Record → Prop) : Prop where
  first : ∀ {inRec dst : Record} {fresh : Stored},
    agg.initRecordData inRec dst = .ok fresh → stands [inRec] fresh
  next : ∀ {group : List Record} {stored : Stored}, stands group stored → ∀ inRec,
    stands (group ++ [inRec]) (agg.processAggFunctions inRec stored)
  send : ∀ {group : List Record} {stored : Stored} {out : Record}, stands group stored →
    agg.sendRecordOut stored = .ok out → sends group out
  timeFirst : ∀ {group : List Record} {stored : Stored}, stands group stored →
    Aggregates .min (group.map Record.timeFirst) stored.record.timeFirst
  timeLast : ∀ {group : List Record} {stored : Stored}, stands group stored →
    Aggregates .max (group.map Record.timeLast) stored.record.timeLast

/-- The storage of `agg` holds one record for every open window of `state`, and what has been
sent stands for the closed windows. -/
structure Mirrors (stands : List Record → Stored → Prop) (sends : List Record → Record → Prop)
    (agg : Agg) (state : Aggregation) : Prop where
  stored : ∀ key stored, agg.storage.lookup key = some stored →
    state.windows.opened key ≠ [] ∧ stands (state.windows.opened key) stored
  absent : ∀ key, agg.storage.lookup key = none → state.windows.opened key = []
  sent : List.Forall₂ (fun out closed => closed.2 ≠ [] ∧ sends closed.2 out)
    agg.sent state.windows.closed
  clock : agg.timeLastFromRecord = state.clock
  once : agg.once = state.once
  stopped : agg.stop = state.stopped

/-- Entries that stay keep their key. -/
theorem lookup_keepEntries (storage : AList fun _ : Key => Stored) (stays : Stored → Bool)
    (key : Key) :
    (Agg.keepEntries storage stays).lookup key = (storage.lookup key).filter stays := by
  ext stored
  rw [Agg.keepEntries]
  rw [← Option.mem_def, AList.mem_lookup_iff, List.mem_filter, ← AList.mem_lookup_iff,
    Option.mem_def]
  simp [Option.filter_eq_some_iff]

theorem Windowed.of_sameSetup {agg agg' : Agg} {stands : List Record → Stored → Prop}
    {sends : List Record → Record → Prop} (windowed : Windowed agg stands sends)
    (setup : SameSetup agg agg') : Windowed agg' stands sends where
  first made := windowed.first ((setup.initRecordData ..).symm.trans made)
  next stand inRec := setup.processAggFunctions inRec _ ▸ windowed.next stand inRec
  send stand sent := windowed.send stand ((setup.sendRecordOut _).symm.trans sent)
  timeFirst := windowed.timeFirst
  timeLast := windowed.timeLast

namespace Mirrors

variable {agg agg' : Agg} {state : Aggregation} {stands : List Record → Stored → Prop}
  {sends : List Record → Record → Prop}

/-- Sending some entries closes their windows. -/
theorem sendOut (mirrors : Mirrors stands sends agg state) (windowed : Windowed agg stands sends)
    {leaves : Stored → Bool} (condition : List Record → Prop)
    (meets : ∀ group stored, stands group stored → (leaves stored = true ↔ condition group))
    (sent : agg.sendOut leaves = .ok agg') :
    ∃ keys, state.Lists condition keys ∧ Mirrors stands sends agg' (state.close keys) := by
  obtain ⟨records, made, rfl⟩ := Agg.sendOut_ok sent
  let leaving := agg.storage.entries.filter fun entry => leaves entry.2
  have isStored : ∀ key stored,
    (⟨key, stored⟩ : Sigma fun _ : Key => Stored) ∈ agg.storage.entries →
      state.windows.opened key ≠ [] ∧ stands (state.windows.opened key) stored :=
    fun key stored member => mirrors.stored key stored (AList.mem_lookup_iff.mpr member)
  have listed : state.Lists condition (leaving.map Sigma.fst) := by
    refine ⟨agg.storage.nodupKeys.sublist List.filter_sublist, fun key => ?_⟩
    constructor
    · intro member
      obtain ⟨⟨_, stored⟩, inLeaving, rfl⟩ := List.mem_map.mp member
      obtain ⟨inStorage, leave⟩ := List.mem_filter.mp inLeaving
      obtain ⟨opened, stand⟩ := isStored _ stored inStorage
      exact ⟨opened, (meets _ stored stand).mp leave⟩
    · rintro ⟨opened, holds⟩
      obtain ⟨stored, found⟩ := Option.ne_none_iff_exists'.mp (mt (mirrors.absent key) opened)
      have leave := (meets _ stored (mirrors.stored key stored found).2).mpr holds
      exact List.mem_map.mpr
        ⟨⟨key, stored⟩, List.mem_filter.mpr ⟨AList.mem_lookup_iff.mp found, leave⟩, rfl⟩
  refine ⟨leaving.map Sigma.fst, listed, fun key stored found => ?_, fun key found => ?_, ?_,
    mirrors.clock, mirrors.once, mirrors.stopped⟩
  · rw [lookup_keepEntries, Option.filter_eq_some_iff] at found
    obtain ⟨found, stays⟩ := found
    have here := mirrors.stored key stored found
    have notListed : key ∉ leaving.map Sigma.fst := by
      intro member
      have leave := (meets _ stored here.2).mpr ((listed.mem_iff key).mp member).2
      simp [leave] at stays
    simpa [Aggregation.close, notListed] using here
  · rw [lookup_keepEntries] at found
    by_cases opened : state.windows.opened key = []
    · simp [Aggregation.close, opened]
    · obtain ⟨stored, isSome⟩ := Option.ne_none_iff_exists'.mp (mt (mirrors.absent key) opened)
      have leave : leaves stored = true := by
        simpa [isSome, Option.filter_some] using found
      have member := (listed.mem_iff key).mpr
        ⟨opened, (meets _ stored (mirrors.stored key stored isSome).2).mp leave⟩
      simp [Aggregation.close, member]
  · refine List.rel_append mirrors.sent ?_
    rw [List.map_map, List.forall₂_map_right_iff]
    refine forall₂_of_mapM made fun entry member out isOut => ?_
    obtain ⟨opened, stand⟩ := isStored entry.1 entry.2 (List.mem_of_mem_filter member)
    exact ⟨opened, windowed.send stand isOut⟩

/-- A stored record replaces the one of its key. -/
theorem insert (mirrors : Mirrors stands sends agg state) {key : Key} {fresh : Stored}
    {sent : List Record} (windows : KeyedWindows Key Record)
    (stand : stands (windows.opened key) fresh) (nonempty : windows.opened key ≠ [])
    (others : ∀ other, other ≠ key → windows.opened other = state.windows.opened other)
    (closed : List.Forall₂ (fun out closed => closed.2 ≠ [] ∧ sends closed.2 out) sent
      windows.closed) :
    Mirrors stands sends { agg with storage := agg.storage.insert key fresh, sent := sent }
      { state with windows := windows } := by
  refine ⟨fun other stored found => ?_, fun other found => ?_, closed, mirrors.clock,
    mirrors.once, mirrors.stopped⟩
  · by_cases same : other = key
    · subst same
      obtain rfl : fresh = stored := by simpa using found
      exact ⟨nonempty, stand⟩
    · rw [others other same]
      exact mirrors.stored other stored (by simpa [AList.lookup_insert_ne same] using found)
  · by_cases same : other = key
    · subst same
      simp at found
    · rw [others other same]
      exact mirrors.absent other (by simpa [AList.lookup_insert_ne same] using found)

/-- A record joins the window of its key, or closes it and starts a new one. -/
theorem store (mirrors : Mirrors stands sends agg state) (windowed : Windowed agg stands sends)
    {inRec : Record} (stores : agg.store inRec = .ok agg') :
    (¬ Restarts agg.config.timeouts (state.windows.opened (recKey agg.keyTemp inRec)) inRec →
        Mirrors stands sends agg' (state.join agg.keyTemp inRec)) ∧
      (Restarts agg.config.timeouts (state.windows.opened (recKey agg.keyTemp inRec)) inRec →
        Mirrors stands sends agg'
          ((state.close [recKey agg.keyTemp inRec]).join agg.keyTemp inRec)) := by
  have others : ∀ other, other ≠ recKey agg.keyTemp inRec →
      (state.join agg.keyTemp inRec).windows.opened other = state.windows.opened other := by
    intro other different
    simp [Aggregation.join, different]
  have late : ∀ stored, agg.storage.lookup (recKey agg.keyTemp inRec) = some stored →
      (agg.newTimeWindow inRec stored = true ↔
        Restarts agg.config.timeouts (state.windows.opened (recKey agg.keyTemp inRec)) inRec) := by
    intro stored found
    rw [restarts_iff (windowed.timeFirst (mirrors.stored _ stored found).2)]
    simp [Agg.newTimeWindow]
  rcases Agg.store_ok stores with ⟨stored, found, continues, rfl⟩ |
    ⟨stored, sentRec, fresh, found, restarts, sent, made, rfl⟩ | ⟨fresh, absent, made, rfl⟩
  · obtain ⟨_, stand⟩ := mirrors.stored _ stored found
    have opened : (state.join agg.keyTemp inRec).windows.opened (recKey agg.keyTemp inRec) =
        state.windows.opened (recKey agg.keyTemp inRec) ++ [inRec] := by
      simp [Aggregation.join]
    refine ⟨fun _ => ?_, fun isLate => ?_⟩
    · refine mirrors.insert (state.join agg.keyTemp inRec).windows ?_ (by simp [opened]) others
        mirrors.sent
      rw [opened]
      exact windowed.next stand inRec
    · rw [(late stored found).mpr isLate] at continues
      cases continues
  · obtain ⟨nonempty, stand⟩ := mirrors.stored _ stored found
    let closed := (state.close [recKey agg.keyTemp inRec]).join agg.keyTemp inRec
    have opened : closed.windows.opened (recKey agg.keyTemp inRec) = [inRec] := by
      simp [closed, Aggregation.join, Aggregation.close]
    refine ⟨fun stays => absurd ((late stored found).mp restarts) stays, fun _ => ?_⟩
    refine mirrors.insert closed.windows ?_ (by simp [opened]) ?_ ?_
    · rw [opened]
      exact windowed.first made
    · intro other different
      simp [closed, Aggregation.join, Aggregation.close, different]
    · exact List.rel_append mirrors.sent (.cons ⟨nonempty, windowed.send stand sent⟩ .nil)
  · have empty := mirrors.absent _ absent
    have opened : (state.join agg.keyTemp inRec).windows.opened (recKey agg.keyTemp inRec) =
        [inRec] := by
      simp [Aggregation.join, empty]
    refine ⟨fun _ => ?_, ?_⟩
    · refine mirrors.insert (state.join agg.keyTemp inRec).windows ?_ (by simp [opened]) others
        mirrors.sent
      rw [opened]
      exact windowed.first made
    · rintro ⟨_, earlier, member, _⟩
      simp [empty] at member

/-! ### The steps -/

/-- Both are stopped. -/
theorem stop (mirrors : Mirrors stands sends agg state) :
    Mirrors stands sends { agg with stop := true } { state with stopped := true } :=
  { mirrors with stopped := rfl }

/-- The clocks no longer wait for a first record. -/
theorem clearOnce (mirrors : Mirrors stands sends agg state) :
    Mirrors stands sends { agg with once := false } { state with once := false } :=
  { mirrors with once := rfl }

/-- The first record sets both clocks. -/
theorem note (mirrors : Mirrors stands sends agg state) (inRec : Record) :
    Mirrors stands sends (agg.noteFirstRecord inRec) (state.note inRec) := by
  have sameOnce := mirrors.once
  cases once : state.once with
  | true =>
      rw [once] at sameOnce
      rw [Agg.noteFirstRecord, if_pos sameOnce, Aggregation.note, if_pos once]
      exact { mirrors with clock := rfl, once := rfl }
  | false =>
      rw [once] at sameOnce
      rw [Agg.noteFirstRecord, if_neg (by simp [sameOnce]), Aggregation.note,
        if_neg (by simp [once])]
      exact mirrors

/-- Both clocks advance by the same time. -/
theorem advance (mirrors : Mirrors stands sends agg state) :
    Mirrors stands sends agg.startTimeouts (state.advance agg.config.timeouts) := by
  unfold Agg.startTimeouts Aggregation.advance
  split
  · exact { mirrors with clock := by simp [mirrors.clock] }
  · exact mirrors

/-- What `eval` does to the windows. -/
theorem eval (mirrors : Mirrors stands sends agg state) (windowed : Windowed agg stands sends)
    {inRec : Record} (evaluates : agg.eval inRec = .ok agg') :
    ∃ next, Aggregation.Step agg.keyTemp agg.config.timeouts state (.eval inRec) next ∧
      Mirrors stands sends agg' next := by
  have setup := SameSetup.noteFirstRecord agg inRec
  have noted := mirrors.note inRec
  unfold Agg.eval at evaluates
  dsimp only at evaluates
  rw [noted.stopped, Aggregation.stopped_note] at evaluates
  cases stopped : state.stopped with
  | true =>
      rw [if_pos stopped] at evaluates
      cases evaluates
      exact ⟨_, .ignore inRec stopped, noted⟩
  | false =>
      rw [if_neg (by simp [stopped])] at evaluates
      obtain ⟨stays, restarts⟩ := noted.store (windowed.of_sameSetup setup) evaluates
      rw [setup.config, setup.keyTemp, Aggregation.windows_note] at stays restarts
      by_cases late : Restarts agg.config.timeouts
          (state.windows.opened (recKey agg.keyTemp inRec)) inRec
      · exact ⟨_, .restart inRec stopped late, restarts late⟩
      · exact ⟨_, .join inRec stopped late, stays late⟩

/-- What one round of `check_timeouts` does to the windows. -/
theorem checkTimeouts (mirrors : Mirrors stands sends agg state)
    (windowed : Windowed agg stands sends) (checks : agg.checkTimeouts = .ok agg') :
    ∃ next, Aggregation.Step agg.keyTemp agg.config.timeouts state .checkTimeouts next ∧
      Mirrors stands sends agg' next := by
  unfold Agg.checkTimeouts at checks
  rw [mirrors.stopped] at checks
  cases stopped : state.stopped with
  | true =>
      rw [if_pos stopped] at checks
      cases checks
      exact ⟨_, .idle (.inl stopped), mirrors⟩
  | false =>
      rw [if_neg (by simp [stopped])] at checks
      have sweeps : agg.config.timeouts.timeoutType.hasPassive = true →
          (agg.sendOut agg.expired).map Agg.startTimeouts = .ok agg' →
          ∃ next, Aggregation.Step agg.keyTemp agg.config.timeouts state .checkTimeouts next ∧
            Mirrors stands sends agg' next := by
        intro passive sweep
        obtain ⟨swept, sent, rfl⟩ := map_ok.mp sweep
        obtain ⟨keys, lists, after⟩ := mirrors.sendOut windowed
          (Due agg.config.timeouts state.clock) (fun group stored stand => by
            rw [due_iff (windowed.timeLast stand), ← mirrors.clock]
            simp [Agg.expired]) sent
        refine ⟨_, .expire stopped passive lists, ?_⟩
        rw [← (SameSetup.sendOut sent).config]
        exact after.advance
      cases type : agg.config.timeouts.timeoutType with
      | global =>
          rw [type] at checks
          obtain ⟨keys, lists, after⟩ :=
            mirrors.sendOut windowed (fun _ => True) (fun _ _ _ => by simp) checks
          exact ⟨_, .flush stopped type lists, after⟩
      | active =>
          rw [type] at checks
          cases checks
          exact ⟨_, .idle (.inr type), mirrors⟩
      | passive | activePassive =>
          rw [type] at checks
          exact sweeps (by rw [type]; rfl) checks

/-- Every step of the aggregator is a step of the windows. -/
theorem step (mirrors : Mirrors stands sends agg state) (windowed : Windowed agg stands sends)
    {label : AggStep} (leads : agg.Leads label (.ok agg')) :
    ∃ next, Aggregation.Step agg.keyTemp agg.config.timeouts state label next ∧
      Mirrors stands sends agg' next := by
  generalize outcome : (Except.ok agg' : Except Fault Agg) = result at leads
  cases leads with
  | eval inRec => exact mirrors.eval windowed outcome.symm
  | startTimeouts =>
      cases outcome
      exact ⟨_, .startTimeouts, mirrors.advance⟩
  | checkTimeouts => exact mirrors.checkTimeouts windowed outcome.symm
  | destroy =>
      have flushes : ({ agg with stop := true } : Agg).sendOut (fun _ => true) = .ok agg' :=
        outcome.symm
      obtain ⟨keys, lists, after⟩ := mirrors.stop.sendOut
        (windowed.of_sameSetup ⟨rfl, rfl, rfl⟩) (fun _ => True) (fun _ _ _ => by simp) flushes
      have all : state.Lists (fun _ => True) keys := ⟨lists.distinct, lists.mem_iff⟩
      exact ⟨_, .destroy all, after⟩
  | @rehash storage reordered =>
      cases outcome
      have same : ∀ key, storage.lookup key = agg.storage.lookup key := fun key =>
        (AList.perm_lookup reordered).symm
      exact ⟨state, .rehash, { mirrors with
        stored := fun key stored found => mirrors.stored key stored (same key ▸ found)
        absent := fun key found => mirrors.absent key (same key ▸ found) }⟩
  | otherEval =>
      cases outcome
      exact ⟨_, .otherEval, mirrors.clearOnce⟩
  | otherDestroy =>
      cases outcome
      exact ⟨_, .otherDestroy, mirrors.stop⟩

end Mirrors

/-- What is stored and what was sent in a run mirrors a run of the windows. -/
theorem mirrors_of_steps {start agg : Agg} {stands : List Record → Stored → Prop}
    {sends : List Record → Record → Prop} (windowed : Windowed start stands sends)
    {initial : Aggregation} (mirrors : Mirrors stands sends start initial) {labels : List AggStep}
    (run : aggSystem.Steps start labels agg) :
    ∃ state, (Aggregation.system start.keyTemp start.config.timeouts).Steps initial labels state ∧
      Mirrors stands sends agg state := by
  let simulation : ForwardSimulation aggSystem
      (Aggregation.system start.keyTemp start.config.timeouts) :=
    { Related := fun agg state => SameSetup start agg ∧ Mirrors stands sends agg state
      step := by
        rintro agg agg' state label ⟨setup, mirrors⟩ leads
        obtain ⟨next, step, after⟩ := mirrors.step (windowed.of_sameSetup setup) leads
        rw [setup.keyTemp, setup.config] at step
        exact ⟨next, step, setup.trans (.of_leads leads), after⟩ }
  obtain ⟨state, reached, _, after⟩ := simulation.steps
    (show simulation.Related start initial from ⟨⟨rfl, rfl, rfl⟩, mirrors⟩) run
  exact ⟨state, reached, after⟩

/-! ### Steps that succeed -/

/-- An aggregator that can make and send every record takes every step. -/
theorem Agg.leads_ok {agg : Agg}
    (makes : ∀ src dst, ∃ fresh, agg.initRecordData src dst = .ok fresh)
    (sends : ∀ stored, ∃ out, agg.sendRecordOut stored = .ok out) {label : AggStep}
    {outcome : Except Fault Agg} (leads : agg.Leads label outcome) :
    ∃ agg', outcome = .ok agg' := by
  have sweeps : ∀ leaves, ∃ agg', agg.sendOut leaves = .ok agg' := by
    intro leaves
    obtain ⟨records, made⟩ := mapM_ok_of_forall fun entry
      (_ : entry ∈ agg.storage.entries.filter fun entry => leaves entry.2) => sends entry.2
    exact ⟨_, by rw [sendOut, made]; rfl⟩
  cases leads with
  | eval inRec =>
      have setup := SameSetup.noteFirstRecord agg inRec
      have makes : ∀ src dst, ∃ fresh, (agg.noteFirstRecord inRec).initRecordData src dst =
          .ok fresh := fun src dst => (setup.initRecordData src dst).symm ▸ makes src dst
      unfold eval store
      dsimp only
      split
      · exact ⟨_, rfl⟩
      · split
        · rename_i stored _
          split
          · obtain ⟨sentRec, sent⟩ := sends stored
            obtain ⟨fresh, made⟩ := makes inRec sentRec
            exact ⟨_, by simp only [setup.sendRecordOut, sent, made, bind, Except.bind]; rfl⟩
          · exact ⟨_, rfl⟩
        · obtain ⟨fresh, made⟩ := makes inRec fun _ => 0
          exact ⟨_, by rw [made]; rfl⟩
  | checkTimeouts =>
      unfold checkTimeouts
      split
      · exact ⟨_, rfl⟩
      · split
        · exact sweeps _
        · exact ⟨_, rfl⟩
        all_goals
          obtain ⟨swept, sent⟩ := sweeps agg.expired
          exact ⟨_, by rw [sent]; rfl⟩
  | destroy =>
      obtain ⟨flushed, sent⟩ := sweeps fun _ => true
      obtain ⟨records, made, rfl⟩ := sendOut_ok sent
      exact ⟨_, congrArg (Except.map _) made⟩
  | startTimeouts | rehash | otherEval | otherDestroy => exact ⟨_, rfl⟩

/-! ### Aggregators of folds -/

/-- The storage of `agg` holds one record for every open window of `state`, and what has been
sent stands for the closed windows. -/
structure Represents (folds : List (Field × FunctionCode)) (agg : Agg) (state : Aggregation) :
    Prop where
  stored : ∀ key stored, agg.storage.lookup key = some stored →
    state.windows.opened key ≠ [] ∧ Summarizes folds (state.windows.opened key) stored.record
  absent : ∀ key, agg.storage.lookup key = none → state.windows.opened key = []
  sent : List.Forall₂ (fun out closed => closed.2 ≠ [] ∧ Summarizes folds closed.2 out)
    agg.sent state.windows.closed
  clock : agg.timeLastFromRecord = state.clock
  once : agg.once = state.once
  stopped : agg.stop = state.stopped

theorem represents_iff_mirrors {agg : Agg} {state : Aggregation} :
    Represents folds agg state ↔
      Mirrors (fun group stored => Summarizes folds group stored.record) (Summarizes folds) agg
        state :=
  ⟨fun rep => ⟨rep.stored, rep.absent, rep.sent, rep.clock, rep.once, rep.stopped⟩,
    fun mir => ⟨mir.stored, mir.absent, mir.sent, mir.clock, mir.once, mir.stopped⟩⟩

/-- What folds make of a window stands for it. -/
theorem Folding.windowed {agg : Agg} (folding : Folding agg folds) :
    Windowed agg (fun group stored => Summarizes folds group stored.record)
      (Summarizes folds) where
  first := by
    intro inRec dst fresh made
    rw [folding.initRecordData_eq] at made
    cases made
    exact folding.summarizes_init inRec dst
  next summary inRec := folding.summarizes_append summary inRec
  send := by
    intro group stored out summary sent
    rw [folding.sendRecordOut_eq] at sent
    cases sent
    exact summary
  timeFirst summary := summary.timeFirst
  timeLast summary := summary.timeLast

theorem Folding.of_sameSetup {agg agg' : Agg} (folding : Folding agg folds)
    (setup : SameSetup agg agg') : Folding agg' folds := by
  have template := setup.outputTemp
  constructor
  all_goals try rw [template]
  exacts [folding.fields, folding.noCounters, folding.noPostprocessing, folding.statics,
    folding.inTemplate, folding.distinct, folding.isFold, folding.isUInt, folding.notCount]

/-- The storage represents the windows, and the aggregator has kept what it was set up with. -/
structure Tracks (folds : List (Field × FunctionCode)) (keyTemp : List Field) (timeouts : Timeouts)
    (agg : Agg) (state : Aggregation) : Prop where
  represents : Represents folds agg state
  folding : Folding agg folds
  timeouts : agg.config.timeouts = timeouts
  keyTemp : agg.keyTemp = keyTemp

theorem Tracks.of_sameSetup {agg agg' : Agg} {state next : Aggregation}
    (tracks : Tracks folds keyTemp timeouts agg state) (setup : SameSetup agg agg')
    (represents : Represents folds agg' next) : Tracks folds keyTemp timeouts agg' next :=
  ⟨represents, tracks.folding.of_sameSetup setup, by rw [setup.config, tracks.timeouts],
    by rw [setup.keyTemp, tracks.keyTemp]⟩

/-- Every step of the aggregator succeeds and is a step of the windows. -/
theorem Tracks.leads {agg : Agg} {state : Aggregation}
    (tracks : Tracks folds keyTemp timeouts agg state) {label : AggStep}
    {outcome : Except Fault Agg} (leads : agg.Leads label outcome) :
    ∃ agg' next, outcome = .ok agg' ∧ Aggregation.Step keyTemp timeouts state label next ∧
      Tracks folds keyTemp timeouts agg' next := by
  have folding := tracks.folding
  obtain ⟨agg', rfl⟩ := Agg.leads_ok (fun src dst => ⟨_, folding.initRecordData_eq src dst⟩)
    (fun stored => ⟨_, folding.sendRecordOut_eq stored⟩) leads
  obtain ⟨next, step, after⟩ :=
    (represents_iff_mirrors.mp tracks.represents).step folding.windowed leads
  rw [tracks.keyTemp, tracks.timeouts] at step
  exact ⟨agg', next, rfl, step,
    tracks.of_sameSetup (.of_leads leads) (represents_iff_mirrors.mpr after)⟩

/-- The aggregator is simulated by its windows. -/
def simulation (folds : List (Field × FunctionCode)) (keyTemp : List Field) (timeouts : Timeouts) :
    ForwardSimulation aggSystem (Aggregation.system keyTemp timeouts) where
  Related := Tracks folds keyTemp timeouts
  step tracks leads := by
    obtain ⟨agg', next, isNext, step, after⟩ := tracks.leads leads
    cases isNext
    exact ⟨next, step, after⟩

end Policer.Aggregator
