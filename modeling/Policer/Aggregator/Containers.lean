import Policer.Aggregator.Agg
import Policer.Lib.Heap

/-!
# Counters in memory

`Agg` with the memory behind `COUNT_DISTINCT`. The eight bytes of a counter hold the address of a
vector from `init_ptr_field` on, and its size once `prepare_to_send` has completed the record. A
step that uses bytes as an address that are none, or a vector that has been released, is a fault.
Records are allocated and released as in `Agg`; `ip_cmp` is a parameter.
-/

namespace Policer.Aggregator

open Policer.Lib Policer.Parsing

/-! ### Memory -/

/-- Why a step is not completed. `push_back` throws a `length_error`. -/
inductive MemoryFault where
  | fault (fault : Fault)
  | noAddress
  | heap (error : HeapError)
  | lengthError
deriving DecidableEq, Repr

/-- The vectors, whose elements are given as numbers. -/
abbrev Vectors := Heap (List Nat)

/-- A record in the storage. The bytes of a field hold the address of a vector, or else the number
in `record`. -/
structure HeapRecord where
  record : Record
  address : Field → Option Nat

namespace HeapRecord

/-- A new record of UniRec. -/
def zeroed : HeapRecord := ⟨fun _ => 0, fun _ => none⟩

/-- A number is written to a field. -/
def set (stored : HeapRecord) (field : Field) (value : Value field) : HeapRecord where
  record := stored.record.set field value
  address := Function.update stored.address field none

/-- The address of a vector is written to a field. -/
def setAddress (stored : HeapRecord) (field : Field) (block : Nat) : HeapRecord :=
  { stored with address := Function.update stored.address field (some block) }

/-- The bytes of a field are cast to a pointer. -/
def vecPtr (stored : HeapRecord) (field : Field) : Except MemoryFault Nat :=
  match stored.address field with
  | some block => .ok block
  | none => .error .noAddress

/-- `ur_copy_fields`. -/
def copyFields (destination : HeapRecord) (template : List Field) (source : Record) :
    HeapRecord where
  record := urCopyFields template destination.record source
  address field := if field ∈ template then none else destination.address field

/-- `F_COUNT` is always increased. -/
def increaseCount (dst : HeapRecord) : HeapRecord :=
  let count : BitVec 32 := dst.record.count + 1
  dst.set .count count

/-- `TIME_FIRST:min`. -/
def takeTimeFirst (dst : HeapRecord) (src : Record) : HeapRecord :=
  if src.timeFirst < dst.record.timeFirst then dst.set (.unirec .timeFirst) src.timeFirst else dst

/-- `TIME_LAST:max`. -/
def takeTimeLast (dst : HeapRecord) (src : Record) : HeapRecord :=
  if dst.record.timeLast < src.timeLast then dst.set (.unirec .timeLast) src.timeLast else dst

@[simp] theorem record_takeTimeFirst (dst : HeapRecord) (src : Record) :
    (dst.takeTimeFirst src).record = Agg.takeTimeFirst src dst.record := by
  unfold takeTimeFirst Agg.takeTimeFirst
  split <;> rfl

@[simp] theorem record_takeTimeLast (dst : HeapRecord) (src : Record) :
    (dst.takeTimeLast src).record = Agg.takeTimeLast src dst.record := by
  unfold takeTimeLast Agg.takeTimeLast
  split <;> rfl

theorem address_set {field other : Field} (different : other ≠ field) (stored : HeapRecord)
    (value : Value field) : (stored.set field value).address other = stored.address other :=
  Function.update_of_ne different ..

theorem address_takeTimeFirst {field : Field} (other : field ≠ .unirec .timeFirst)
    (dst : HeapRecord) (src : Record) :
    (dst.takeTimeFirst src).address field = dst.address field := by
  unfold takeTimeFirst
  split
  · exact address_set other ..
  · rfl

theorem address_takeTimeLast {field : Field} (other : field ≠ .unirec .timeLast)
    (dst : HeapRecord) (src : Record) :
    (dst.takeTimeLast src).address field = dst.address field := by
  unfold takeTimeLast
  split
  · exact address_set other ..
  · rfl

end HeapRecord

/-! ### Functions over vectors -/

/-- No vector has more elements (`max_size` for elements of one byte). -/
def maxSize : Nat := 2 ^ 63 - 1

/-- `push_back`. -/
def pushBack (vector : List Nat) (value : Nat) : Except MemoryFault (List Nat) :=
  if vector.length < maxSize then .ok (vector ++ [value]) else .error .lengthError

/-- The functions of `COUNT_DISTINCT`, which differ in how they compare. -/
def countDistinctBy (same : Nat → Nat → Bool) (srcVal : Nat) (vector : List Nat) :
    Except MemoryFault (List Nat) :=
  if vector.any fun item => same item srcVal then .ok vector else pushBack vector srcVal

/-- `count_distinct`. -/
def countDistinct : Nat → List Nat → Except MemoryFault (List Nat) :=
  countDistinctBy fun item srcVal => item == srcVal

/-- `count_distinct_IP`. -/
def countDistinctIP (ipCmp : Nat → Nat → Int) : Nat → List Nat → Except MemoryFault (List Nat) :=
  countDistinctBy fun item srcVal => ipCmp item srcVal == 0

/-- A function runs on the vector behind a pointer. -/
def updateVector (heap : Vectors) (stored : HeapRecord) (field : Field)
    (func : List Nat → Except MemoryFault (List Nat)) : Except MemoryFault Vectors := do
  let block ← stored.vecPtr field
  let vector ← (heap.read block).mapError .heap
  let updated ← func vector
  (heap.write block updated).mapError .heap

/-- One round of the last loop of `process_agg_functions`. -/
def processPtrField (ipCmp : Nat → Nat → Int) (src : Record) (dst : HeapRecord) (heap : Vectors)
    (field : PtrField) : Except MemoryFault Vectors :=
  match field.process with
  | .countDistinct =>
      updateVector heap dst field.record (countDistinct (src field.target).toNat)
  | .countDistinctIp =>
      updateVector heap dst field.record (countDistinctIP ipCmp (src field.target).toNat)
  | _ => .ok heap

/-- One round of `init_ptr_field`. -/
def initSlot (src : Record) (state : HeapRecord × Vectors) (field : PtrField) :
    Except MemoryFault (HeapRecord × Vectors) :=
  match field.alloc with
  | some .allocVectorAndInit =>
      .ok (state.1.setAddress field.record state.2.next,
        state.2.alloc [(src field.target).toNat])
  | none => .error (.fault .nullFunction)

/-- One round of the second loop of `prepare_to_send`. -/
def makeSlot (state : HeapRecord × Vectors) (field : PtrField) :
    Except MemoryFault (HeapRecord × Vectors) :=
  match field.make, field.dealloc with
  | some .makeCountDistinct, some .deallocVector => do
      let block ← state.1.vecPtr field.record
      let vector ← (state.2.read block).mapError .heap
      let heap ← (state.2.release block).mapError .heap
      return (state.1.set field.record (BitVec.ofNat _ vector.length), heap)
  | _, _ => .error (.fault .nullFunction)

namespace OutputTemplate

variable (self : OutputTemplate)

/-- The vectors whose addresses a record holds. -/
def blocks (stored : HeapRecord) : List Nat :=
  self.fieldsLikePtr.filterMap fun field => stored.address field.record

/-- `process_agg_functions` before its last loop. -/
def processFields (src : Record) (dst : HeapRecord) : HeapRecord :=
  self.fields.foldl
    (fun dst field =>
      dst.set field.record
        (field.process.apply self.unirec (src field.record) (dst.record field.record)))
    ((dst.increaseCount.takeTimeFirst src).takeTimeLast src)

/-- `process_agg_functions`. -/
def processAggFunctions (ipCmp : Nat → Nat → Int) (src : Record) (dst : HeapRecord)
    (heap : Vectors) : Except MemoryFault (HeapRecord × Vectors) :=
  let processed := self.processFields src dst
  (self.fieldsLikePtr.foldlM (processPtrField ipCmp src processed) heap).map fun heap =>
    (processed, heap)

/-- `init_record_data`. -/
def initRecordData (src : Record) (dst : HeapRecord) (heap : Vectors) :
    Except MemoryFault (HeapRecord × Vectors) :=
  self.fieldsLikePtr.foldlM (initSlot src)
    ((dst.copyFields self.outTmplt src).set .count 1, heap)

/-- One round of the first loop of `prepare_to_send`. -/
def postprocess (stored : HeapRecord) (field : PlainField) : Except MemoryFault HeapRecord :=
  ((Agg.postprocess self.unirec stored.record field).mapError .fault).map fun record =>
    stored.set field.record (record field.record)

/-- `prepare_to_send`. -/
def prepareRecord (stored : HeapRecord) (heap : Vectors) :
    Except MemoryFault (HeapRecord × Vectors) := do
  let divided ←
    if self.avgPostprocessing then self.fields.foldlM self.postprocess stored else .ok stored
  self.fieldsLikePtr.foldlM makeSlot (divided, heap)

/-- `send_record_out` up to `send`. -/
def sendRecordOut (stored : HeapRecord) (heap : Vectors) :
    Except MemoryFault (HeapRecord × Vectors) :=
  if self.prepareToSend then self.prepareRecord stored heap else .ok (stored, heap)

end OutputTemplate

/-! ### Members and steps -/

/-- Members of `Agg` with the vectors. Beside each record that was sent are the vectors its entry
held. -/
structure HeapAgg where
  config : Config
  keyTemp : List Field
  outputTemp : OutputTemplate
  storage : AList fun _ : Key => HeapRecord
  heap : Vectors
  timeLastFromRecord : Int
  once : Bool
  stop : Bool
  sent : List (Record × List Nat)

namespace HeapAgg

/-- `init` behind the reading of its options. -/
def init (unirec : Libunirec) (config : Config) (now : Int) (once stop : Bool) : Option HeapAgg :=
  (Agg.init unirec config now once stop).map fun agg =>
    { config := agg.config
      keyTemp := agg.keyTemp
      outputTemp := agg.outputTemp
      storage := ∅
      heap := .empty
      timeLastFromRecord := agg.timeLastFromRecord
      once := agg.once
      stop := agg.stop
      sent := [] }

/-- The storage without the entries that are erased. -/
def keepEntries (storage : AList fun _ : Key => HeapRecord) (stays : HeapRecord → Bool) :
    AList fun _ : Key => HeapRecord where
  entries := storage.entries.filter fun entry => stays entry.2
  nodupKeys := storage.nodupKeys.sublist List.filter_sublist

/-- A stored record is sent. -/
def sendEntry (template : OutputTemplate) (state : List (Record × List Nat) × Vectors)
    (entry : Sigma fun _ : Key => HeapRecord) :
    Except MemoryFault (List (Record × List Nat) × Vectors) :=
  (template.sendRecordOut entry.2 state.2).map fun out =>
    (state.1 ++ [(out.1.record, template.blocks entry.2)], out.2)

/-- The entries of the storage that meet a condition are sent and erased. -/
def sendOut (agg : HeapAgg) (leaves : HeapRecord → Bool) : Except MemoryFault HeapAgg :=
  ((agg.storage.entries.filter fun entry => leaves entry.2).foldlM (sendEntry agg.outputTemp)
      (agg.sent, agg.heap)).map fun state =>
    { agg with
      storage := keepEntries agg.storage fun stored => !leaves stored
      heap := state.2
      sent := state.1 }

/-- `flush_storage`. -/
def flushStorage (agg : HeapAgg) : Except MemoryFault HeapAgg := agg.sendOut fun _ => true

/-- What `check_timeouts` does before its loop. -/
def startTimeouts (agg : HeapAgg) : HeapAgg :=
  if agg.config.timeouts.timeoutType.hasPassive then
    { agg with
      timeLastFromRecord := agg.timeLastFromRecord + agg.config.timeouts.timeout .passive }
  else agg

/-- A stored record has been passive for too long. -/
def expired (agg : HeapAgg) (stored : HeapRecord) : Bool :=
  urTimeGetSec stored.record.timeLast <
    agg.timeLastFromRecord - agg.config.timeouts.timeout .passive

/-- One round of the loops of `check_timeouts`. -/
def checkTimeouts (agg : HeapAgg) : Except MemoryFault HeapAgg :=
  if agg.stop then .ok agg
  else
    match agg.config.timeouts.timeoutType with
    | .global => agg.flushStorage
    | .active => .ok agg
    | .passive | .activePassive => (agg.sendOut agg.expired).map startTimeouts

/-- The record starts a new time window of its key. -/
def newTimeWindow (agg : HeapAgg) (inRec : Record) (stored : HeapRecord) : Bool :=
  agg.config.timeouts.timeoutType.hasActive &&
    urTimeGetSec stored.record.timeFirst + agg.config.timeouts.timeout .active <
      urTimeGetSec inRec.timeFirst

/-- The first record of all sets the time the passive timeout is measured from. -/
def noteFirstRecord (agg : HeapAgg) (inRec : Record) : HeapAgg :=
  if agg.once then
    { agg with timeLastFromRecord := urTimeGetSec inRec.timeLast, once := false }
  else agg

/-- An entry is made or replaced. -/
def put (agg : HeapAgg) (key : Key) (state : HeapRecord × Vectors) : HeapAgg :=
  { agg with storage := agg.storage.insert key state.1, heap := state.2 }

/-- The part of `eval` under `storage_mutex`. -/
def store (ipCmp : Nat → Nat → Int) (agg : HeapAgg) (inRec : Record) :
    Except MemoryFault HeapAgg :=
  let key := recKey agg.keyTemp inRec
  match agg.storage.lookup key with
  | some stored =>
      if agg.newTimeWindow inRec stored then do
        let out ← agg.outputTemp.sendRecordOut stored agg.heap
        let fresh ← agg.outputTemp.initRecordData inRec out.1 out.2
        return { agg.put key fresh with
          sent := agg.sent ++ [(out.1.record, agg.outputTemp.blocks stored)] }
      else
        (agg.outputTemp.processAggFunctions ipCmp inRec stored agg.heap).map (agg.put key)
  | none => (agg.outputTemp.initRecordData inRec .zeroed agg.heap).map (agg.put key)

/-- `eval`. -/
def eval (ipCmp : Nat → Nat → Int) (agg : HeapAgg) (inRec : Record) :
    Except MemoryFault HeapAgg :=
  let agg := agg.noteFirstRecord inRec
  if agg.stop then .ok agg else agg.store ipCmp inRec

/-- The destructor up to the release of its memory. -/
def destroy (agg : HeapAgg) : Except MemoryFault HeapAgg := flushStorage { agg with stop := true }

end HeapAgg

/-- What a step leads to. -/
inductive HeapAgg.Leads (ipCmp : Nat → Nat → Int) (agg : HeapAgg) :
    AggStep → Except MemoryFault HeapAgg → Prop where
  | eval (inRec : Record) : agg.Leads ipCmp (.eval inRec) (agg.eval ipCmp inRec)
  | startTimeouts : agg.Leads ipCmp .startTimeouts (.ok agg.startTimeouts)
  | checkTimeouts : agg.Leads ipCmp .checkTimeouts agg.checkTimeouts
  | destroy : agg.Leads ipCmp .destroy agg.destroy
  | rehash {storage : AList fun _ : Key => HeapRecord}
      (reordered : agg.storage.entries.Perm storage.entries) :
      agg.Leads ipCmp .rehash (.ok { agg with storage := storage })
  | otherEval : agg.Leads ipCmp .otherEval (.ok { agg with once := false })
  | otherDestroy : agg.Leads ipCmp .otherDestroy (.ok { agg with stop := true })

/-- The aggregator with its memory as a transition system. -/
def heapSystem (ipCmp : Nat → Nat → Int) : TransitionSystem HeapAgg AggStep where
  Step agg label next := agg.Leads ipCmp label (.ok next)

end Policer.Aggregator
