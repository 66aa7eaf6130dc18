import Policer.Aggregator.Output
import Policer.Lib.Transition
import Mathlib.Data.List.AList

/-!
# The aggregator at run time

`Agg` with its steps: `eval` on a record, one round of `check_timeouts` and the
destructor. A step that runs under `storage_mutex` is one step here. The order in which
an `unordered_map` lists its entries may change at any time, which is a step of its own.
Allocation is taken to succeed. A call of a NULL function pointer is a fault.
-/

namespace Policer.Aggregator

open Policer.Lib Policer.Parsing

/-! ### Keys -/

/-- The bytes of a value as they lie in memory. -/
def bytes {w : Nat} (value : BitVec w) : List (BitVec 8) :=
  (List.range (w / 8)).map fun index => value.extractLsb' (8 * index) 8

/-- `Key`: the bytes of all key fields. -/
abbrev Key := List (BitVec 8)

/-- `Key::add_field`. -/
def addKeyField (data : Key) {w : Nat} (src : BitVec w) : Key := data ++ bytes src

/-- The key `Agg::eval` generates for a record. -/
def recKey (keyTemp : List Field) (inRec : Record) : Key :=
  keyTemp.foldl (fun data field => addKeyField data (inRec field)) []

/-! ### Members -/

/-- A stored record with the vectors its counters point to. -/
structure Stored where
  record : Record
  vectors : List (List Nat)

/-- Members of `Agg`. `stop` is a static member and `once` the static variable of `eval`; both
are shared with other aggregators, which run in the same thread. `sent` are the records
handed to `send`. -/
structure Agg where
  config : Config
  keyTemp : List Field
  outputTemp : OutputTemplate
  storage : AList fun _ : Key => Stored
  timeLastFromRecord : Int
  once : Bool
  stop : Bool
  sent : List Record

/-- A passive timeout is set. -/
def TimeoutType.hasPassive : TimeoutType → Bool
  | .passive | .activePassive => true
  | .active | .global => false

/-- An active timeout is set. -/
def TimeoutType.hasActive : TimeoutType → Bool
  | .active | .activePassive => true
  | .passive | .global => false

namespace Agg

/-- The loop of `init` over the fields of the configuration. It ends early on an unknown name;
a counter without a known field behind it does not occur. -/
def addConfigField (templates : List Field × OutputTemplate) (field : ConfigField) :
    Option (List Field × OutputTemplate) :=
  (urGetIdByName field.name).bind fun id =>
    match field.function with
    | .key => some (templates.1 ++ [id], templates.2)
    | .countDistinct => field.associatedWithId.map fun target =>
        (templates.1, templates.2.addPtrField id target (getAllocPtr field.function target.type)
          (getFunctionPtr field.function target.type) (getFinalMakePtr field.function target.type)
          (getDeallocPtr field.function target.type))
    | function =>
        some (templates.1, templates.2.addField id (getFunctionPtr function id.type)
          (function = .avg) (function = .rate) (getAvgPtr function id.type))

/-- `init` behind the reading of its options. `now` is the time of day, `once` and `stop` are
the values of the shared variables. -/
def init (unirec : Libunirec) (config : Config) (now : Int) (once stop : Bool) : Option Agg := do
  let templates ← config.fields.foldlM addConfigField ([], OutputTemplate.new unirec)
  let outTmplt ← urCreateTemplate config.returnTemplateDef
  return {
    config := config
    keyTemp := templates.1
    outputTemp := { templates.2 with outTmplt := outTmplt }
    storage := ∅
    timeLastFromRecord := now
    once := once
    stop := stop
    sent := [] }

/-! ### Records -/

/-- `process_agg_functions` on the record. `ur_is_fixlen` holds for every field. -/
def processFields (agg : Agg) (src dst : Record) : Record :=
  agg.outputTemp.fields.foldl
    (fun dst field =>
      dst.set field.record
        (field.process.apply agg.outputTemp.unirec (src field.record) (dst field.record)))
    dst

/-- `F_COUNT` is always increased. -/
def increaseCount (dst : Record) : Record :=
  let count : BitVec 32 := dst.count + 1
  dst.set .count count

/-- `TIME_FIRST:min`. -/
def takeTimeFirst (src dst : Record) : Record :=
  if src.timeFirst < dst.timeFirst then dst.set (.unirec .timeFirst) src.timeFirst else dst

/-- `TIME_LAST:max`. -/
def takeTimeLast (src dst : Record) : Record :=
  if dst.timeLast < src.timeLast then dst.set (.unirec .timeLast) src.timeLast else dst

/-- `process_agg_functions`. -/
def processAggFunctions (agg : Agg) (src : Record) (dst : Stored) : Stored where
  record :=
    agg.processFields src (takeTimeLast src (takeTimeFirst src (increaseCount dst.record)))
  vectors := (agg.outputTemp.fieldsLikePtr.zip dst.vectors).map fun (field, vector) =>
    field.process.applyPtr (src field.target).toNat vector

/-- One round of `init_ptr_field`. -/
def initVector (src : Record) (field : PtrField) : Except Fault (List Nat) :=
  match field.alloc with
  | some .allocVectorAndInit => .ok [(src field.target).toNat]
  | none => .error .nullFunction

/-- `init_ptr_field`. -/
def initPtrField (agg : Agg) (src : Record) : Except Fault (List (List Nat)) :=
  agg.outputTemp.fieldsLikePtr.mapM (initVector src)

/-- `init_record_data`. -/
def initRecordData (agg : Agg) (src dst : Record) : Except Fault Stored :=
  (agg.initPtrField src).map fun vectors =>
    ⟨(urCopyFields agg.outputTemp.outTmplt dst src).set .count 1, vectors⟩

/-- One round of the first loop of `prepare_to_send`. -/
def postprocess (unirec : Libunirec) (storedRec : Record) (field : PlainField) :
    Except Fault Record :=
  match field.avgField, field.rateField with
  | some func, _ =>
      (func.apply (storedRec field.record) storedRec.count).map (storedRec.set field.record)
  | none, some func =>
      (func.apply (storedRec field.record)
        (BitVec.ofNat 32 (unirec.urTimediff storedRec.timeLast storedRec.timeFirst / 1000))).map
          (storedRec.set field.record)
  | none, none => .error .nullFunction

/-- One round of the second loop of `prepare_to_send`. `make_count_distinct` calls the
deallocation function it gets. -/
def makeField (storedRec : Record) (counter : PtrField × List Nat) : Except Fault Record :=
  match counter.1.make, counter.1.dealloc with
  | some .makeCountDistinct, some .deallocVector =>
      .ok (storedRec.set counter.1.record (BitVec.ofNat _ counter.2.length))
  | _, _ => .error .nullFunction

/-- `prepare_to_send`. -/
def prepareToSend (agg : Agg) (stored : Stored) : Except Fault Record := do
  let divided ←
    if agg.outputTemp.avgPostprocessing then
      agg.outputTemp.fields.foldlM (postprocess agg.outputTemp.unirec) stored.record
    else .ok stored.record
  (agg.outputTemp.fieldsLikePtr.zip stored.vectors).foldlM makeField divided

/-- The record `send_record_out` hands to `send`. -/
def sendRecordOut (agg : Agg) (stored : Stored) : Except Fault Record :=
  if agg.outputTemp.prepareToSend then agg.prepareToSend stored else .ok stored.record

/-! ### Steps -/

/-- The storage without the entries that are erased. -/
def keepEntries (storage : AList fun _ : Key => Stored) (stays : Stored → Bool) :
    AList fun _ : Key => Stored where
  entries := storage.entries.filter fun entry => stays entry.2
  nodupKeys := storage.nodupKeys.sublist List.filter_sublist

/-- The entries of the storage that meet a condition are sent and erased. -/
def sendOut (agg : Agg) (leaves : Stored → Bool) : Except Fault Agg :=
  ((agg.storage.entries.filter fun entry => leaves entry.2).mapM fun entry =>
      agg.sendRecordOut entry.2).map fun records =>
    { agg with
      storage := keepEntries agg.storage fun stored => !leaves stored
      sent := agg.sent ++ records }

/-- `flush_storage`. -/
def flushStorage (agg : Agg) : Except Fault Agg := agg.sendOut fun _ => true

/-- What `check_timeouts` does before its loop. -/
def startTimeouts (agg : Agg) : Agg :=
  if agg.config.timeouts.timeoutType.hasPassive then
    { agg with
      timeLastFromRecord := agg.timeLastFromRecord + agg.config.timeouts.timeout .passive }
  else agg

/-- A stored record has been passive for too long. -/
def expired (agg : Agg) (stored : Stored) : Bool :=
  urTimeGetSec stored.record.timeLast <
    agg.timeLastFromRecord - agg.config.timeouts.timeout .passive

/-- One round of the loops of `check_timeouts`. The time that has elapsed and the time that is
left to sleep add up to the timeout. -/
def checkTimeouts (agg : Agg) : Except Fault Agg :=
  if agg.stop then .ok agg
  else
    match agg.config.timeouts.timeoutType with
    | .global => agg.flushStorage
    | .active => .ok agg
    | .passive | .activePassive => (agg.sendOut agg.expired).map startTimeouts

/-- The record starts a new time window of its key. -/
def newTimeWindow (agg : Agg) (inRec : Record) (stored : Stored) : Bool :=
  agg.config.timeouts.timeoutType.hasActive &&
    urTimeGetSec stored.record.timeFirst + agg.config.timeouts.timeout .active <
      urTimeGetSec inRec.timeFirst

/-- The first record of all sets the time the passive timeout is measured from. -/
def noteFirstRecord (agg : Agg) (inRec : Record) : Agg :=
  if agg.once then
    { agg with timeLastFromRecord := urTimeGetSec inRec.timeLast, once := false }
  else agg

/-- The part of `eval` under `storage_mutex`. A new record of UniRec is zeroed. -/
def store (agg : Agg) (inRec : Record) : Except Fault Agg :=
  let key := recKey agg.keyTemp inRec
  match agg.storage.lookup key with
  | some stored =>
      if agg.newTimeWindow inRec stored then do
        let sentRec ← agg.sendRecordOut stored
        let fresh ← agg.initRecordData inRec sentRec
        return { agg with storage := agg.storage.insert key fresh, sent := agg.sent ++ [sentRec] }
      else
        .ok { agg with
          storage := agg.storage.insert key (agg.processAggFunctions inRec stored) }
  | none =>
      (agg.initRecordData inRec fun _ => 0).map fun fresh =>
        { agg with storage := agg.storage.insert key fresh }

/-- `eval`. -/
def eval (agg : Agg) (inRec : Record) : Except Fault Agg :=
  let agg := agg.noteFirstRecord inRec
  if agg.stop then .ok agg else agg.store inRec

/-- The destructor up to the release of its memory. -/
def destroy (agg : Agg) : Except Fault Agg := flushStorage { agg with stop := true }

end Agg

/-- Labels of the steps. The last two are those of other aggregators that write the shared
variables. -/
inductive AggStep where
  | eval (inRec : Record)
  | startTimeouts
  | checkTimeouts
  | destroy
  | rehash
  | otherEval
  | otherDestroy

/-- What a step leads to. -/
inductive Agg.Leads (agg : Agg) : AggStep → Except Fault Agg → Prop where
  | eval (inRec : Record) : agg.Leads (.eval inRec) (agg.eval inRec)
  | startTimeouts : agg.Leads .startTimeouts (.ok agg.startTimeouts)
  | checkTimeouts : agg.Leads .checkTimeouts agg.checkTimeouts
  | destroy : agg.Leads .destroy agg.destroy
  | rehash {storage : AList fun _ : Key => Stored}
      (reordered : agg.storage.entries.Perm storage.entries) :
      agg.Leads .rehash (.ok { agg with storage := storage })
  | otherEval : agg.Leads .otherEval (.ok { agg with once := false })
  | otherDestroy : agg.Leads .otherDestroy (.ok { agg with stop := true })

/-- The aggregator as a transition system. -/
def aggSystem : TransitionSystem Agg AggStep where
  Step agg label next := agg.Leads label (.ok next)

/-! ### What no step changes -/

namespace Agg

@[simp] theorem stop_noteFirstRecord (agg : Agg) (inRec : Record) :
    (agg.noteFirstRecord inRec).stop = agg.stop := by
  unfold noteFirstRecord
  split <;> rfl

@[simp] theorem storage_noteFirstRecord (agg : Agg) (inRec : Record) :
    (agg.noteFirstRecord inRec).storage = agg.storage := by
  unfold noteFirstRecord
  split <;> rfl

@[simp] theorem sent_noteFirstRecord (agg : Agg) (inRec : Record) :
    (agg.noteFirstRecord inRec).sent = agg.sent := by
  unfold noteFirstRecord
  split <;> rfl

/-- A running aggregator stores the record. -/
theorem eval_of_running {agg : Agg} (running : agg.stop = false) (inRec : Record) :
    agg.eval inRec = (agg.noteFirstRecord inRec).store inRec :=
  if_neg (by simp [running])

theorem sendOut_ok {agg agg' : Agg} {leaves : Stored → Bool}
    (sends : agg.sendOut leaves = .ok agg') :
    ∃ records, ((agg.storage.entries.filter fun entry => leaves entry.2).mapM fun entry =>
        agg.sendRecordOut entry.2) = .ok records ∧
      agg' = { agg with
        storage := keepEntries agg.storage fun stored => !leaves stored
        sent := agg.sent ++ records } := by
  unfold sendOut at sends
  cases made : ((agg.storage.entries.filter fun entry => leaves entry.2).mapM fun entry =>
      agg.sendRecordOut entry.2) with
  | error fault =>
      rw [made] at sends
      cases sends
  | ok records =>
      rw [made] at sends
      cases sends
      exact ⟨records, rfl, rfl⟩

/-- A record is merged, starts a new window of its key, or is the first of its key. -/
theorem store_ok {agg agg' : Agg} {inRec : Record} (stores : agg.store inRec = .ok agg') :
    (∃ stored, agg.storage.lookup (recKey agg.keyTemp inRec) = some stored ∧
      agg.newTimeWindow inRec stored = false ∧
      agg' = { agg with
        storage := agg.storage.insert (recKey agg.keyTemp inRec)
          (agg.processAggFunctions inRec stored) }) ∨
    (∃ stored sentRec fresh, agg.storage.lookup (recKey agg.keyTemp inRec) = some stored ∧
      agg.newTimeWindow inRec stored = true ∧ agg.sendRecordOut stored = .ok sentRec ∧
      agg.initRecordData inRec sentRec = .ok fresh ∧
      agg' = { agg with
        storage := agg.storage.insert (recKey agg.keyTemp inRec) fresh
        sent := agg.sent ++ [sentRec] }) ∨
    ∃ fresh, agg.storage.lookup (recKey agg.keyTemp inRec) = none ∧
      agg.initRecordData inRec (fun _ => 0) = .ok fresh ∧
      agg' = { agg with storage := agg.storage.insert (recKey agg.keyTemp inRec) fresh } := by
  unfold store at stores
  dsimp only at stores
  split at stores
  · rename_i stored found
    split at stores
    · rename_i restarts
      cases sent : agg.sendRecordOut stored with
      | error fault =>
          rw [sent] at stores
          cases stores
      | ok sentRec =>
          cases fresh : agg.initRecordData inRec sentRec with
          | error fault =>
              simp only [sent, fresh, bind, Except.bind] at stores
              cases stores
          | ok made =>
              simp only [sent, fresh, bind, Except.bind] at stores
              cases stores
              exact Or.inr (Or.inl ⟨stored, sentRec, made, found, restarts, sent, fresh, rfl⟩)
    · rename_i continues
      cases stores
      exact Or.inl ⟨stored, found, by simpa using continues, rfl⟩
  · rename_i absent
    cases fresh : agg.initRecordData inRec fun _ => 0 with
    | error fault =>
        rw [fresh] at stores
        cases stores
    | ok made =>
        rw [fresh] at stores
        cases stores
        exact Or.inr (Or.inr ⟨made, absent, rfl, rfl⟩)

end Agg

/-- A relation that every part of a step respects. -/
structure Agg.AcrossParts (R : Agg → Agg → Prop) : Prop where
  trans {first second third : Agg} (before : R first second) (after : R second third) :
    R first third
  sendOut {agg agg' : Agg} {leaves : Stored → Bool} (sends : agg.sendOut leaves = .ok agg') :
    R agg agg'
  store {agg agg' : Agg} {inRec : Record} (stores : agg.store inRec = .ok agg') : R agg agg'
  /-- All other parts write these members only. -/
  others (agg : Agg) (storage : AList fun _ : Key => Stored) (timeLast : Int) (once stop : Bool) :
    R agg { agg with
      storage := storage
      timeLastFromRecord := timeLast
      once := once
      stop := stop }

namespace Agg.AcrossParts

variable {R : Agg → Agg → Prop} (across : AcrossParts R) {agg agg' : Agg}

include across

theorem noteFirstRecord (agg : Agg) (inRec : Record) : R agg (agg.noteFirstRecord inRec) := by
  unfold Agg.noteFirstRecord
  split <;> exact across.others agg _ _ _ _

theorem startTimeouts (agg : Agg) : R agg agg.startTimeouts := by
  unfold Agg.startTimeouts
  split <;> exact across.others agg _ _ _ _

theorem eval {inRec : Record} (evaluates : agg.eval inRec = .ok agg') : R agg agg' := by
  unfold Agg.eval at evaluates
  dsimp only at evaluates
  split at evaluates
  · cases evaluates
    exact across.noteFirstRecord agg inRec
  · exact across.trans (across.noteFirstRecord agg inRec) (across.store evaluates)

theorem checkTimeouts (checks : agg.checkTimeouts = .ok agg') : R agg agg' := by
  have sweeps : (agg.sendOut agg.expired).map Agg.startTimeouts = .ok agg' → R agg agg' := by
    intro sweep
    obtain ⟨rest, swept, rfl⟩ := map_ok.mp sweep
    exact across.trans (across.sendOut swept) (across.startTimeouts rest)
  unfold Agg.checkTimeouts at checks
  split at checks
  · cases checks
    exact across.others agg _ _ _ _
  · split at checks
    · exact across.sendOut checks
    · cases checks
      exact across.others agg _ _ _ _
    · exact sweeps checks
    · exact sweeps checks

/-- What holds across every part holds across every step. -/
theorem of_leads {label : AggStep} (leads : agg.Leads label (.ok agg')) : R agg agg' := by
  generalize outcome : (Except.ok agg' : Except Fault Agg) = result at leads
  cases leads with
  | eval inRec => exact across.eval outcome.symm
  | startTimeouts =>
      cases outcome
      exact across.startTimeouts agg
  | checkTimeouts => exact across.checkTimeouts outcome.symm
  | destroy =>
      have flushes : Agg.flushStorage { agg with stop := true } = .ok agg' := outcome.symm
      exact across.trans (across.others agg _ _ _ true) (across.sendOut flushes)
  | rehash | otherEval | otherDestroy =>
      cases outcome
      exact across.others agg _ _ _ _

/-- What holds across every part holds across every run. -/
theorem of_steps {labels : List AggStep} (run : aggSystem.Steps agg labels agg') : R agg agg' :=
  run.invariant (fun _ => R agg) (across.others agg _ _ _ _) fun before leads =>
    across.trans before (across.of_leads leads)

end Agg.AcrossParts

/-- The members no step changes. -/
structure SameSetup (agg agg' : Agg) : Prop where
  config : agg'.config = agg.config
  keyTemp : agg'.keyTemp = agg.keyTemp
  outputTemp : agg'.outputTemp = agg.outputTemp

namespace SameSetup

theorem trans {first second third : Agg} (before : SameSetup first second)
    (after : SameSetup second third) : SameSetup first third :=
  ⟨after.config.trans before.config, after.keyTemp.trans before.keyTemp,
    after.outputTemp.trans before.outputTemp⟩

variable {agg agg' : Agg}

theorem noteFirstRecord (agg : Agg) (inRec : Record) :
    SameSetup agg (agg.noteFirstRecord inRec) := by
  unfold Agg.noteFirstRecord
  split <;> exact ⟨rfl, rfl, rfl⟩

theorem sendOut {leaves : Stored → Bool} (sends : agg.sendOut leaves = .ok agg') :
    SameSetup agg agg' := by
  obtain ⟨records, _, rfl⟩ := Agg.sendOut_ok sends
  exact ⟨rfl, rfl, rfl⟩

theorem store {inRec : Record} (stores : agg.store inRec = .ok agg') : SameSetup agg agg' := by
  rcases Agg.store_ok stores with ⟨_, _, _, rfl⟩ | ⟨_, _, _, _, _, _, _, rfl⟩ | ⟨_, _, _, rfl⟩ <;>
    exact ⟨rfl, rfl, rfl⟩

theorem acrossParts : Agg.AcrossParts SameSetup where
  trans := trans
  sendOut := sendOut
  store := store
  others _ _ _ _ _ := ⟨rfl, rfl, rfl⟩

/-- Every step keeps what the aggregator was set up with. -/
theorem of_leads {label : AggStep} (leads : agg.Leads label (.ok agg')) : SameSetup agg agg' :=
  acrossParts.of_leads leads

theorem of_steps {labels : List AggStep} (run : aggSystem.Steps agg labels agg') :
    SameSetup agg agg' :=
  acrossParts.of_steps run

theorem initRecordData (setup : SameSetup agg agg') (src dst : Record) :
    agg'.initRecordData src dst = agg.initRecordData src dst := by
  rw [Agg.initRecordData, Agg.initRecordData, Agg.initPtrField, Agg.initPtrField, setup.outputTemp]

theorem sendRecordOut (setup : SameSetup agg agg') (stored : Stored) :
    agg'.sendRecordOut stored = agg.sendRecordOut stored := by
  rw [Agg.sendRecordOut, Agg.sendRecordOut, Agg.prepareToSend, Agg.prepareToSend, setup.outputTemp]

theorem processAggFunctions (setup : SameSetup agg agg') (src : Record) (dst : Stored) :
    agg'.processAggFunctions src dst = agg.processAggFunctions src dst := by
  rw [Agg.processAggFunctions, Agg.processAggFunctions, Agg.processFields, Agg.processFields,
    setup.outputTemp]

end SameSetup

end Policer.Aggregator
