import Policer.Aggregator.Containers
import Mathlib.Data.List.AList

/-!
# When a record cannot be created

`Agg` with `storage_mutex` and with a storage whose entries may be NULL: `eval` puts a NULL entry
into the storage before it has a record for it. The exit it takes when `create_record` fails leaves
the mutex locked, or uses the NULL entry.
-/

namespace Policer.Aggregator

open Policer.Lib

/-- Why a call does not return. -/
inductive AllocFault where
  | memory (fault : MemoryFault)
  | nullRecord
  | noTemplate
  | deadlock
deriving DecidableEq

/-- Members of `Agg` with the vectors. A NULL entry is `none`; `outTmplt` says that the template of
`outputTemp` has not been released. -/
structure AllocAgg where
  config : Config
  keyTemp : List Field
  outputTemp : OutputTemplate
  outTmplt : Bool
  storage : AList fun _ : Key => Option HeapRecord
  locked : Bool
  heap : Vectors
  timeLastFromRecord : Int
  once : Bool
  stop : Bool
  sent : List (Record × List Nat)

namespace AllocAgg

/-! ### The mutex and the records -/

/-- `storage_mutex.lock()`. Who holds the mutex has left without unlocking it. -/
def lock (agg : AllocAgg) : Except AllocFault AllocAgg :=
  if agg.locked then .error .deadlock else .ok { agg with locked := true }

/-- `storage_mutex.unlock()`. -/
def unlock (agg : AllocAgg) : AllocAgg := { agg with locked := false }

/-- An entry is used as a record of the output template. -/
def useRecord (agg : AllocAgg) (entry : Option HeapRecord) : Except AllocFault HeapRecord :=
  match agg.outTmplt, entry with
  | true, some stored => .ok stored
  | true, none => .error .nullRecord
  | false, _ => .error .noTemplate

/-- The entries that are records. -/
def recordEntry? (entry : Sigma fun _ : Key => Option HeapRecord) :
    Option (Sigma fun _ : Key => HeapRecord) :=
  entry.2.map fun stored => ⟨entry.1, stored⟩

theorem nodupKeys_recordEntry {entries : List (Sigma fun _ : Key => Option HeapRecord)}
    (distinct : entries.NodupKeys) : (entries.filterMap recordEntry?).NodupKeys := by
  rw [List.nodupKeys_iff_pairwise] at distinct ⊢
  refine distinct.filterMap _ fun first second differ here isHere there isThere => ?_
  obtain ⟨_, _, rfl⟩ := Option.map_eq_some_iff.mp isHere
  obtain ⟨_, _, rfl⟩ := Option.map_eq_some_iff.mp isThere
  exact differ

/-- All entries are used as records. -/
def useRecords (agg : AllocAgg) : Except AllocFault HeapAgg :=
  (agg.storage.entries.mapM fun entry => agg.useRecord entry.2).map fun _ =>
    { config := agg.config
      keyTemp := agg.keyTemp
      outputTemp := agg.outputTemp
      storage := ⟨agg.storage.entries.filterMap recordEntry?,
        nodupKeys_recordEntry agg.storage.nodupKeys⟩
      heap := agg.heap
      timeLastFromRecord := agg.timeLastFromRecord
      once := agg.once
      stop := agg.stop
      sent := agg.sent }

/-- An entry that points to a record. -/
def someEntry (entry : Sigma fun _ : Key => HeapRecord) :
    Sigma fun _ : Key => Option HeapRecord :=
  ⟨entry.1, some entry.2⟩

theorem nodupKeys_someEntry {entries : List (Sigma fun _ : Key => HeapRecord)}
    (distinct : entries.NodupKeys) : (entries.map someEntry).NodupKeys := by
  rw [List.NodupKeys, List.keys, List.map_map]
  exact distinct

/-- An aggregator with a record for every entry, a template and a free mutex. -/
def ofHeap (agg : HeapAgg) : AllocAgg where
  config := agg.config
  keyTemp := agg.keyTemp
  outputTemp := agg.outputTemp
  outTmplt := true
  storage := ⟨agg.storage.entries.map someEntry, nodupKeys_someEntry agg.storage.nodupKeys⟩
  locked := false
  heap := agg.heap
  timeLastFromRecord := agg.timeLastFromRecord
  once := agg.once
  stop := agg.stop
  sent := agg.sent

/-- `init` behind the reading of its options. -/
def init (unirec : Libunirec) (config : Config) (now : Int) (once stop : Bool) : Option AllocAgg :=
  (HeapAgg.init unirec config now once stop).map ofHeap

/-! ### Evaluation -/

/-- The record starts a new time window of its key. -/
def newTimeWindow (agg : AllocAgg) (inRec : Record) (stored : HeapRecord) : Bool :=
  agg.config.timeouts.timeoutType.hasActive &&
    urTimeGetSec stored.record.timeFirst + agg.config.timeouts.timeout .active <
      urTimeGetSec inRec.timeFirst

/-- The first record of all sets the time the passive timeout is measured from. -/
def noteFirstRecord (agg : AllocAgg) (inRec : Record) : AllocAgg :=
  if agg.once then
    { agg with timeLastFromRecord := urTimeGetSec inRec.timeLast, once := false }
  else agg

/-- The entry of a key points to a record. -/
def put (agg : AllocAgg) (key : Key) (state : HeapRecord × Vectors) : AllocAgg :=
  { agg with storage := agg.storage.insert key (some state.1), heap := state.2 }

/-- A counter of a stored record is released (`dealloc_ptr_fields`). -/
def deallocSlot (stored : HeapRecord) (heap : Vectors) (field : PtrField) :
    Except MemoryFault Vectors :=
  match field.dealloc with
  | some .deallocVector => do
      let block ← stored.vecPtr field.record
      (heap.release block).mapError .heap
  | none => .error (.fault .nullFunction)

/-- One round of the loop of `clean_memory_with_ptrs` over a storage with counters. -/
def deallocEntry (agg : AllocAgg) (heap : Vectors)
    (entry : Sigma fun _ : Key => Option HeapRecord) : Except AllocFault Vectors := do
  let stored ← agg.useRecord entry.2
  (agg.outputTemp.fieldsLikePtr.foldlM (deallocSlot stored) heap).mapError .memory

/-- `clean_memory_with_ptrs`. Without counters it only frees the entries, and NULL may be freed. -/
def cleanMemoryWithPtrs (agg : AllocAgg) : Except AllocFault AllocAgg :=
  (if agg.outputTemp.fieldsLikePtr.isEmpty then .ok agg.heap
    else agg.storage.entries.foldlM agg.deallocEntry agg.heap).map fun heap =>
      { agg with storage := ∅, outTmplt := false, heap := heap }

/-- `eval` for a key with an entry. -/
def updateEntry (ipCmp : Nat → Nat → Int) (agg : AllocAgg) (key : Key) (inRec : Record)
    (stored : HeapRecord) : Except MemoryFault AllocAgg :=
  if agg.newTimeWindow inRec stored then do
    let out ← agg.outputTemp.sendRecordOut stored agg.heap
    let fresh ← agg.outputTemp.initRecordData inRec out.1 out.2
    return { agg.put key fresh with
      sent := agg.sent ++ [(out.1.record, agg.outputTemp.blocks stored)] }
  else
    (agg.outputTemp.processAggFunctions ipCmp inRec stored agg.heap).map (agg.put key)

/-- `eval` for a key whose entry is NULL so far. `created` says whether `create_record` has a record
to return. -/
def createEntry (agg : AllocAgg) (key : Key) (created : Bool) (inRec : Record) :
    Except AllocFault (Int × AllocAgg) :=
  if agg.outTmplt then
    if created then
      ((agg.outputTemp.initRecordData inRec .zeroed agg.heap).mapError .memory).map fun fresh =>
        (0, (agg.put key fresh).unlock)
    -- no `unlock` on this exit
    else agg.cleanMemoryWithPtrs.map fun agg => (-1, agg)
  else .error .noTemplate

/-- The part of `eval` behind the lock. -/
def store (ipCmp : Nat → Nat → Int) (agg : AllocAgg) (created : Bool) (inRec : Record) :
    Except AllocFault (Int × AllocAgg) :=
  let key := recKey agg.keyTemp inRec
  match agg.storage.lookup key with
  | some entry =>
      agg.useRecord entry >>= fun stored =>
        ((agg.updateEntry ipCmp key inRec stored).mapError .memory).map fun agg =>
          (0, agg.unlock)
  | none => createEntry { agg with storage := agg.storage.insert key none } key created inRec

/-- `eval` with the value it returns. -/
def eval (ipCmp : Nat → Nat → Int) (agg : AllocAgg) (created : Bool) (inRec : Record) :
    Except AllocFault (Int × AllocAgg) :=
  let agg := agg.noteFirstRecord inRec
  if agg.stop then .ok (0, agg) else agg.lock >>= fun agg => agg.store ipCmp created inRec

/-! ### Sweeps and the destructor -/

/-- What `check_timeouts` does before its loop. -/
def startTimeouts (agg : AllocAgg) : AllocAgg :=
  if agg.config.timeouts.timeoutType.hasPassive then
    { agg with
      timeLastFromRecord := agg.timeLastFromRecord + agg.config.timeouts.timeout .passive }
  else agg

/-- A loop over the storage that uses every entry as a record. -/
def onRecords (agg : AllocAgg) (loop : HeapAgg → Except MemoryFault HeapAgg) :
    Except AllocFault AllocAgg :=
  agg.useRecords >>= fun records => ((loop records).mapError .memory).map fun next =>
    { ofHeap next with outTmplt := agg.outTmplt, locked := agg.locked }

/-- One round of the loops of `check_timeouts`. -/
def checkTimeouts (agg : AllocAgg) : Except AllocFault AllocAgg :=
  if agg.stop ∨ agg.config.timeouts.timeoutType = .active then .ok agg
  else agg.lock >>= fun agg => (agg.onRecords HeapAgg.checkTimeouts).map unlock

/-- The destructor up to the release of its memory, once its thread has ended. -/
def destroy (agg : AllocAgg) : Except AllocFault AllocAgg := agg.onRecords HeapAgg.destroy

end AllocAgg

/-- Labels of the steps. -/
inductive AllocStep where
  | eval (inRec : Record) (created : Bool)
  | startTimeouts
  | checkTimeouts
  | destroy
  | rehash
  | otherEval
  | otherDestroy

/-- What a step leads to, with the value `eval` returns. -/
inductive AllocAgg.Leads (ipCmp : Nat → Nat → Int) (agg : AllocAgg) :
    AllocStep → Except AllocFault (Int × AllocAgg) → Prop where
  | eval (inRec : Record) (created : Bool) :
      agg.Leads ipCmp (.eval inRec created) (agg.eval ipCmp created inRec)
  | startTimeouts : agg.Leads ipCmp .startTimeouts (.ok (0, agg.startTimeouts))
  | checkTimeouts : agg.Leads ipCmp .checkTimeouts (agg.checkTimeouts.map fun next => (0, next))
  | destroy : agg.Leads ipCmp .destroy (agg.destroy.map fun next => (0, next))
  -- the thread that is joined waits for the mutex
  | join (locked : agg.locked = true) (waits : agg.config.timeouts.timeoutType ≠ .active) :
      agg.Leads ipCmp .destroy (.error .deadlock)
  | rehash {storage : AList fun _ : Key => Option HeapRecord}
      (reordered : agg.storage.entries.Perm storage.entries) :
      agg.Leads ipCmp .rehash (.ok (0, { agg with storage := storage }))
  | otherEval : agg.Leads ipCmp .otherEval (.ok (0, { agg with once := false }))
  | otherDestroy : agg.Leads ipCmp .otherDestroy (.ok (0, { agg with stop := true }))

/-- `eval` does not need a new record, or gets one. -/
def AllocAgg.Creates (agg : AllocAgg) : AllocStep → Prop
  | .eval inRec created => created = true ∨ agg.stop = true ∨
      (agg.storage.lookup (recKey agg.keyTemp inRec)).isSome
  | _ => True

/-- The aggregator with its mutex as a transition system, as long as records can be created. -/
def createdSystem (ipCmp : Nat → Nat → Int) : TransitionSystem AllocAgg AllocStep where
  Step agg label next := agg.Creates label ∧ ∃ code, agg.Leads ipCmp label (.ok (code, next))

end Policer.Aggregator
