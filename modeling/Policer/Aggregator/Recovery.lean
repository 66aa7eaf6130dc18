import Policer.Aggregator.Allocation
import Policer.Aggregator.DistinctValues

/-!
# What `eval` leaves behind

As long as `create_record` does not fail, an aggregator with a mutex and with entries that may be
NULL takes the steps of one with a record for every entry. `recovers_iff_creates` says that this is
the exact condition: after a failure the mutex stays locked, or a NULL entry is used as a record.
-/

namespace Policer.Aggregator

open Policer.Lib

/-! ### Steps on the records -/

/-- The step of an aggregator with a record for every entry. -/
def AllocStep.heapStep : AllocStep → AggStep
  | .eval inRec _ => .eval inRec
  | .startTimeouts => .startTimeouts
  | .checkTimeouts => .checkTimeouts
  | .destroy => .destroy
  | .rehash => .rehash
  | .otherEval => .otherEval
  | .otherDestroy => .otherDestroy

namespace AllocAgg

variable {agg : HeapAgg}

theorem keyTemp_locked (agg : HeapAgg) :
    ({ ofHeap agg with locked := true } : AllocAgg).keyTemp = agg.keyTemp := rfl

theorem storage_locked (agg : HeapAgg) :
    ({ ofHeap agg with locked := true } : AllocAgg).storage = (ofHeap agg).storage := rfl

theorem lookup_ofHeap (agg : HeapAgg) (key : Key) :
    (ofHeap agg).storage.lookup key = (agg.storage.lookup key).map some :=
  List.dlookup_map₂ (f := fun _ => some) key

theorem noteFirstRecord_ofHeap (agg : HeapAgg) (inRec : Record) :
    (ofHeap agg).noteFirstRecord inRec = ofHeap (agg.noteFirstRecord inRec) := by
  unfold noteFirstRecord HeapAgg.noteFirstRecord
  change (if agg.once then _ else _) = _
  split <;> rfl

theorem startTimeouts_ofHeap (agg : HeapAgg) :
    (ofHeap agg).startTimeouts = ofHeap agg.startTimeouts := by
  unfold startTimeouts HeapAgg.startTimeouts
  change (if agg.config.timeouts.timeoutType.hasPassive then _ else _) = _
  split <;> rfl

theorem filterMap_someEntry (entries : List (Sigma fun _ : Key => HeapRecord)) :
    (entries.map someEntry).filterMap recordEntry? = entries := by
  rw [List.filterMap_map]
  exact List.filterMap_some ..

/-- Entries that point to records can be used. -/
theorem useRecords_ofHeap (agg : HeapAgg) (locked : Bool) :
    useRecords { ofHeap agg with locked := locked } = .ok agg := by
  have each : ∀ entry ∈ (ofHeap agg).storage.entries, ∃ stored,
      useRecord { ofHeap agg with locked := locked } entry.2 = .ok stored := by
    intro entry member
    obtain ⟨stored, _, rfl⟩ := List.mem_map.mp member
    exact ⟨stored.2, rfl⟩
  obtain ⟨records, uses⟩ := mapM_ok_of_forall each
  have storage : (⟨(agg.storage.entries.map someEntry).filterMap recordEntry?,
      nodupKeys_recordEntry (nodupKeys_someEntry agg.storage.nodupKeys)⟩ :
        AList fun _ : Key => HeapRecord) = agg.storage :=
    AList.ext (filterMap_someEntry agg.storage.entries)
  refine map_ok.mpr ⟨records, uses, ?_⟩
  exact congrArg (fun storage => ({ agg with storage := storage } : HeapAgg)) storage

theorem kerase_someEntry (key : Key) (entries : List (Sigma fun _ : Key => HeapRecord)) :
    (entries.map someEntry).kerase key = (entries.kerase key).map someEntry :=
  List.eraseP_map ..

theorem put_ofHeap (agg : HeapAgg) (key : Key) (state : HeapRecord × Vectors) :
    (ofHeap agg).put key state = ofHeap (agg.put key state) := by
  have storage : (ofHeap agg).storage.insert key (some state.1) =
      (ofHeap (agg.put key state)).storage := by
    refine AList.ext ?_
    rw [AList.entries_insert]
    change _ :: List.kerase key (agg.storage.entries.map someEntry) =
      (⟨key, state.1⟩ :: agg.storage.entries.kerase key).map someEntry
    rw [kerase_someEntry]
    rfl
  rw [put, storage]
  rfl

/-- A record in place of a NULL entry. -/
theorem put_placeholder (agg : HeapAgg) (key : Key) (state : HeapRecord × Vectors) :
    (put { ofHeap agg with storage := (ofHeap agg).storage.insert key none, locked := true } key
      state).unlock = ofHeap (agg.put key state) := by
  rw [← put_ofHeap, put, put, AList.insert_insert]
  rfl

theorem put_locked (agg : HeapAgg) (key : Key) (state : HeapRecord × Vectors) :
    put { ofHeap agg with locked := true } key state =
      { ofHeap (agg.put key state) with locked := true } := by
  rw [← put_ofHeap]
  rfl

theorem store_found (ipCmp : Nat → Nat → Int) {inRec : Record} {stored : HeapRecord}
    (found : agg.storage.lookup (recKey agg.keyTemp inRec) = some stored) :
    agg.store ipCmp inRec =
      if agg.newTimeWindow inRec stored then
        agg.outputTemp.sendRecordOut stored agg.heap >>= fun out =>
          (agg.outputTemp.initRecordData inRec out.1 out.2).map fun fresh =>
            { agg.put (recKey agg.keyTemp inRec) fresh with
              sent := agg.sent ++ [(out.1.record, agg.outputTemp.blocks stored)] }
      else
        (agg.outputTemp.processAggFunctions ipCmp inRec stored agg.heap).map
          (agg.put (recKey agg.keyTemp inRec)) := by
  unfold HeapAgg.store
  dsimp only
  rw [found]
  rfl

/-- `eval` for a key with a record. -/
theorem updateEntry_ofHeap (ipCmp : Nat → Nat → Int) {inRec : Record} {stored : HeapRecord}
    (found : agg.storage.lookup (recKey agg.keyTemp inRec) = some stored) :
    updateEntry ipCmp { ofHeap agg with locked := true } (recKey agg.keyTemp inRec) inRec stored =
      (agg.store ipCmp inRec).map fun next => { ofHeap next with locked := true } := by
  rw [store_found ipCmp found, updateEntry]
  change (if agg.newTimeWindow inRec stored then
      agg.outputTemp.sendRecordOut stored agg.heap >>= fun out =>
        (agg.outputTemp.initRecordData inRec out.1 out.2 >>= fun fresh => Except.ok
          ({ put { ofHeap agg with locked := true } (recKey agg.keyTemp inRec) fresh with
            sent := agg.sent ++ [(out.1.record, agg.outputTemp.blocks stored)] } : AllocAgg))
    else (agg.outputTemp.processAggFunctions ipCmp inRec stored agg.heap).map
      (put { ofHeap agg with locked := true } (recKey agg.keyTemp inRec))) = _
  by_cases window : agg.newTimeWindow inRec stored = true
  · rw [if_pos window, if_pos window]
    cases agg.outputTemp.sendRecordOut stored agg.heap with
    | error fault => rfl
    | ok out =>
        change (agg.outputTemp.initRecordData inRec out.1 out.2 >>= _) =
          ((agg.outputTemp.initRecordData inRec out.1 out.2).map _).map _
        cases agg.outputTemp.initRecordData inRec out.1 out.2 with
        | error fault => rfl
        | ok fresh =>
            exact congrArg (fun next : AllocAgg => Except.ok { next with
              sent := agg.sent ++ [(out.1.record, agg.outputTemp.blocks stored)] })
                (put_locked agg _ fresh)
  · rw [if_neg window, if_neg window]
    cases agg.outputTemp.processAggFunctions ipCmp inRec stored agg.heap with
    | error fault => rfl
    | ok next => exact congrArg Except.ok (put_locked agg _ next)

/-- `eval` for a key without an entry, when a record can be created. -/
theorem createEntry_ofHeap (ipCmp : Nat → Nat → Int) {inRec : Record}
    (absent : agg.storage.lookup (recKey agg.keyTemp inRec) = none) :
    createEntry { ofHeap agg with
        storage := (ofHeap agg).storage.insert (recKey agg.keyTemp inRec) none
        locked := true } (recKey agg.keyTemp inRec) true inRec =
      ((agg.store ipCmp inRec).mapError .memory).map fun next => (0, ofHeap next) := by
  have stores : agg.store ipCmp inRec =
      (agg.outputTemp.initRecordData inRec .zeroed agg.heap).map
        (agg.put (recKey agg.keyTemp inRec)) := by
    unfold HeapAgg.store
    dsimp only
    rw [absent]
  rw [stores]
  change (((agg.outputTemp.initRecordData inRec .zeroed agg.heap).mapError AllocFault.memory).map
    fun fresh => ((0 : Int), (put _ (recKey agg.keyTemp inRec) fresh).unlock)) = _
  cases agg.outputTemp.initRecordData inRec .zeroed agg.heap with
  | error fault => rfl
  | ok fresh =>
      exact congrArg (fun next => Except.ok ((0 : Int), next)) (put_placeholder agg _ fresh)

/-- The part of `eval` behind the lock, on records. -/
theorem store_ofHeap (ipCmp : Nat → Nat → Int) {created : Bool} {inRec : Record}
    (needs : created = true ∨ (agg.storage.lookup (recKey agg.keyTemp inRec)).isSome) :
    store ipCmp { ofHeap agg with locked := true } created inRec =
      ((agg.store ipCmp inRec).mapError .memory).map fun next => (0, ofHeap next) := by
  unfold store
  dsimp only
  rw [keyTemp_locked, storage_locked, lookup_ofHeap]
  cases found : agg.storage.lookup (recKey agg.keyTemp inRec) with
  | some stored =>
      change ((updateEntry ipCmp { ofHeap agg with locked := true } (recKey agg.keyTemp inRec)
        inRec stored).mapError AllocFault.memory).map (fun agg => ((0 : Int), agg.unlock)) = _
      rw [updateEntry_ofHeap ipCmp found]
      cases agg.store ipCmp inRec with
      | error fault => rfl
      | ok next => rfl
  | none =>
      rw [found, Option.isSome_none] at needs
      obtain rfl := needs.resolve_right (by simp)
      exact createEntry_ofHeap ipCmp found

theorem noteFirstRecord_keeps (agg : HeapAgg) (inRec : Record) :
    (agg.noteFirstRecord inRec).keyTemp = agg.keyTemp ∧
      (agg.noteFirstRecord inRec).storage = agg.storage ∧
      (agg.noteFirstRecord inRec).stop = agg.stop := by
  unfold HeapAgg.noteFirstRecord
  split <;> exact ⟨rfl, rfl, rfl⟩

/-- As long as records can be created, `eval` is `eval` on the records. -/
theorem eval_ofHeap (ipCmp : Nat → Nat → Int) {created : Bool} {inRec : Record}
    (creates : (ofHeap agg).Creates (.eval inRec created)) :
    (ofHeap agg).eval ipCmp created inRec =
      ((agg.eval ipCmp inRec).mapError .memory).map fun next => (0, ofHeap next) := by
  obtain ⟨keyTemp, storage, stop⟩ := noteFirstRecord_keeps agg inRec
  have needs : created = true ∨ agg.stop = true ∨
      (agg.storage.lookup (recKey agg.keyTemp inRec)).isSome := by
    rwa [Creates, lookup_ofHeap, Option.isSome_map] at creates
  rw [← keyTemp, ← storage, ← stop] at needs
  unfold eval HeapAgg.eval
  dsimp only
  rw [noteFirstRecord_ofHeap]
  generalize agg.noteFirstRecord inRec = noted at needs
  change (if noted.stop then _ else _) = _
  by_cases stopped : noted.stop = true
  · rw [if_pos stopped, if_pos stopped]
    rfl
  · rw [if_neg stopped, if_neg stopped]
    exact store_ofHeap ipCmp (needs.imp id fun known => known.resolve_left stopped)

theorem checkTimeouts_ofHeap (agg : HeapAgg) :
    (ofHeap agg).checkTimeouts = (agg.checkTimeouts.mapError .memory).map ofHeap := by
  unfold checkTimeouts
  by_cases idle : agg.stop = true ∨ agg.config.timeouts.timeoutType = .active
  · have stays : agg.checkTimeouts = .ok agg := by
      unfold HeapAgg.checkTimeouts
      split
      · rfl
      · rename_i running
        rw [idle.resolve_left running]
    rw [stays]
    exact if_pos idle
  · refine (if_neg idle).trans ?_
    change (onRecords { ofHeap agg with locked := true } HeapAgg.checkTimeouts).map unlock = _
    rw [onRecords, useRecords_ofHeap]
    change Except.map unlock ((agg.checkTimeouts.mapError AllocFault.memory).map _) = _
    cases agg.checkTimeouts with
    | error fault => rfl
    | ok next => rfl

theorem destroy_ofHeap (agg : HeapAgg) :
    (ofHeap agg).destroy = (agg.destroy.mapError .memory).map ofHeap := by
  have uses : (ofHeap agg).useRecords = .ok agg := useRecords_ofHeap agg false
  rw [destroy, onRecords, uses]
  rfl

/-- Records in another order. -/
theorem rehash_ofHeap {storage : AList fun _ : Key => Option HeapRecord}
    (reordered : (ofHeap agg).storage.entries.Perm storage.entries) :
    ∃ records : AList fun _ : Key => HeapRecord, agg.storage.entries.Perm records.entries ∧
      ofHeap { agg with storage := records } = { ofHeap agg with storage := storage } := by
  have someEntries : ∀ entry ∈ storage.entries, ∃ record, someEntry record = entry := by
    intro entry member
    obtain ⟨record, _, isEntry⟩ := List.mem_map.mp (reordered.mem_iff.mpr member)
    exact ⟨record, isEntry⟩
  have back : (storage.entries.filterMap recordEntry?).map someEntry = storage.entries := by
    generalize storage.entries = entries at someEntries
    induction entries with
    | nil => rfl
    | cons head tail ih =>
        obtain ⟨record, rfl⟩ := someEntries head List.mem_cons_self
        rw [List.filterMap_cons_some (show recordEntry? (someEntry record) = some record from rfl),
          List.map_cons, ih fun entry member => someEntries entry (List.mem_cons_of_mem _ member)]
  refine ⟨⟨storage.entries.filterMap recordEntry?, nodupKeys_recordEntry storage.nodupKeys⟩, ?_, ?_⟩
  · have perm := reordered.filterMap recordEntry?
    rwa [show (ofHeap agg).storage.entries = agg.storage.entries.map someEntry from rfl,
      filterMap_someEntry] at perm
  · exact congrArg (fun storage => ({ ofHeap agg with storage := storage } : AllocAgg))
      (AList.ext back)

/-- As long as records can be created, a step is a step on the records. -/
theorem leads_ofHeap {ipCmp : Nat → Nat → Int} {label : AllocStep}
    (creates : (ofHeap agg).Creates label) {outcome : Except AllocFault (Int × AllocAgg)}
    (leads : (ofHeap agg).Leads ipCmp label outcome) :
    ∃ heapOutcome, agg.Leads ipCmp label.heapStep heapOutcome ∧
      outcome = (heapOutcome.mapError .memory).map fun next => (0, ofHeap next) := by
  cases leads with
  | eval inRec created => exact ⟨_, .eval inRec, eval_ofHeap ipCmp creates⟩
  | startTimeouts =>
      exact ⟨_, .startTimeouts,
        congrArg (fun next => Except.ok ((0 : Int), next)) (startTimeouts_ofHeap agg)⟩
  | checkTimeouts =>
      refine ⟨_, .checkTimeouts, ?_⟩
      rw [checkTimeouts_ofHeap]
      cases agg.checkTimeouts with
      | error fault => rfl
      | ok next => rfl
  | destroy =>
      refine ⟨_, .destroy, ?_⟩
      rw [destroy_ofHeap]
      cases agg.destroy with
      | error fault => rfl
      | ok next => rfl
  | join locked => cases locked
  | rehash reordered =>
      obtain ⟨records, perm, same⟩ := rehash_ofHeap reordered
      exact ⟨_, .rehash perm, congrArg (fun next => Except.ok ((0 : Int), next)) same.symm⟩
  | otherEval => exact ⟨_, .otherEval, rfl⟩
  | otherDestroy => exact ⟨_, .otherDestroy, rfl⟩

/-! ### What is left behind -/

/-- Every entry points to a record whose counters have live vectors. -/
def Initialised (agg : AllocAgg) : Prop :=
  ∀ entry ∈ agg.storage.entries, ∃ stored, entry.2 = some stored ∧
    ∀ field ∈ agg.outputTemp.fieldsLikePtr, ∃ block vector,
      stored.address field.record = some block ∧ agg.heap.contents block = some vector

/-- What a call of `eval` that returned `code` leaves behind. -/
structure Recovers (before : AllocAgg) (code : Int) (after : AllocAgg) : Prop where
  free : after.locked = false
  initialised : after.Initialised
  rollback : code ≠ 0 → after.storage = before.storage ∨ after.storage = ∅

/-- The mutex is free, the template is there and every entry points to a record. -/
structure Ready (agg : AllocAgg) : Prop where
  free : agg.locked = false
  template : agg.outTmplt = true
  initialised : agg.Initialised

/-- A fault that comes from neither the mutex nor the memory. -/
def Excusable (template : OutputTemplate) (fault : AllocFault) : Prop :=
  ∃ cause, fault = .memory cause ∧ Tolerated template cause

theorem ready_ofHeap (intact : agg.Intact) : (ofHeap agg).Ready := by
  refine ⟨rfl, rfl, fun entry member => ?_⟩
  obtain ⟨record, inStorage, rfl⟩ := List.mem_map.mp member
  refine ⟨record.2, rfl, fun field isCounter => ?_⟩
  obtain ⟨block, isBlock⟩ := intact.filled record inStorage field isCounter
  have owns : block ∈ agg.owners :=
    List.mem_flatMap.mpr ⟨record, inStorage, List.mem_filterMap.mpr ⟨field, isCounter, isBlock⟩⟩
  obtain ⟨vector, holds⟩ := intact.held.owned.live block owns
  exact ⟨block, vector, isBlock, holds⟩

/-- As long as records can be created, a step keeps all records in order. -/
theorem leads_meets (intact : agg.Intact) {ipCmp : Nat → Nat → Int}
    (isCmp : ∀ a b, ipCmp a b = 0 ↔ a = b) {label : AllocStep}
    (creates : (ofHeap agg).Creates label) {outcome : Except AllocFault (Int × AllocAgg)}
    (leads : (ofHeap agg).Leads ipCmp label outcome) :
    Meets outcome
      (fun result => result.1 = 0 ∧ ∃ next, result.2 = ofHeap next ∧ next.Intact)
      (Excusable agg.outputTemp) := by
  obtain ⟨heapOutcome, heapLeads, rfl⟩ := leads_ofHeap creates leads
  have meets := intact.leads_meets isCmp heapLeads
  cases heapOutcome with
  | error fault => exact .error ⟨fault, rfl, meets.of_error rfl⟩
  | ok next => exact .ok ⟨rfl, next, rfl, (meets.of_ok rfl).1⟩

/-! ### The exit without a record -/

/-- Nothing gets behind the lock any more. -/
theorem eval_of_locked {agg : AllocAgg} (locked : agg.locked = true) (running : agg.stop = false)
    (ipCmp : Nat → Nat → Int) (created : Bool) (inRec : Record) :
    agg.eval ipCmp created inRec = .error .deadlock := by
  have noted : (agg.noteFirstRecord inRec).locked = true ∧
      (agg.noteFirstRecord inRec).stop = false := by
    unfold noteFirstRecord
    split <;> exact ⟨locked, running⟩
  unfold eval
  dsimp only
  rw [noted.2, lock, noted.1]
  rfl

/-- The walk of `clean_memory_with_ptrs` over a storage with counters meets the NULL entry. -/
theorem cleanMemoryWithPtrs_placeholder (agg : HeapAgg) (key : Key) :
    cleanMemoryWithPtrs { ofHeap agg with
        storage := (ofHeap agg).storage.insert key none, locked := true } =
      if agg.outputTemp.fieldsLikePtr.isEmpty then
        .ok { ofHeap agg with storage := ∅, outTmplt := false, locked := true }
      else .error .nullRecord := by
  unfold cleanMemoryWithPtrs
  change Except.map _ (if agg.outputTemp.fieldsLikePtr.isEmpty then _ else
    ((ofHeap agg).storage.insert key none).entries.foldlM _ _) = _
  split
  · rfl
  · rw [AList.entries_insert, List.foldlM_cons]
    rfl

/-- A failure of `create_record` leaves the mutex locked, or the NULL entry is used. -/
theorem eval_failed (ipCmp : Nat → Nat → Int) {inRec : Record} (running : agg.stop = false)
    (absent : agg.storage.lookup (recKey agg.keyTemp inRec) = none) :
    (ofHeap agg).eval ipCmp false inRec =
      if agg.outputTemp.fieldsLikePtr.isEmpty then
        .ok (-1, { ofHeap (agg.noteFirstRecord inRec) with
          storage := ∅, outTmplt := false, locked := true })
      else .error .nullRecord := by
  obtain ⟨keyTemp, storage, stop⟩ := noteFirstRecord_keeps agg inRec
  rw [← HeapAgg.outputTemp_noteFirstRecord agg inRec]
  rw [← keyTemp, ← storage] at absent
  rw [← stop] at running
  unfold eval
  dsimp only
  rw [noteFirstRecord_ofHeap]
  generalize agg.noteFirstRecord inRec = noted at absent running
  refine (if_neg (by simp [ofHeap, running])).trans ?_
  change store ipCmp { ofHeap noted with locked := true } false inRec = _
  unfold store
  dsimp only
  rw [keyTemp_locked, storage_locked, lookup_ofHeap, absent]
  change (cleanMemoryWithPtrs { ofHeap noted with
    storage := (ofHeap noted).storage.insert (recKey noted.keyTemp inRec) none
    locked := true }).map (fun agg => ((-1 : Int), agg)) = _
  rw [cleanMemoryWithPtrs_placeholder]
  split <;> rfl

/-- What `eval` leaves behind is in order exactly when it does not need a record that cannot be
created. -/
theorem eval_recovers_iff (intact : agg.Intact) {ipCmp : Nat → Nat → Int}
    (isCmp : ∀ a b, ipCmp a b = 0 ↔ a = b) (inRec : Record) (created : Bool) :
    Meets ((ofHeap agg).eval ipCmp created inRec)
        (fun result => (ofHeap agg).Recovers result.1 result.2) (Excusable agg.outputTemp) ↔
      (ofHeap agg).Creates (.eval inRec created) := by
  constructor
  · intro recovers
    by_contra fails
    have parts : ¬ created = true ∧ ¬ agg.stop = true ∧
        ¬ (agg.storage.lookup (recKey agg.keyTemp inRec)).isSome := by
      rw [Creates, lookup_ofHeap, Option.isSome_map] at fails
      exact ⟨fun made => fails (.inl made), fun stopped => fails (.inr (.inl stopped)),
        fun known => fails (.inr (.inr known))⟩
    obtain ⟨notCreated, running, absent⟩ := parts
    obtain rfl := Bool.eq_false_iff.mpr notCreated
    rw [eval_failed ipCmp (Bool.eq_false_iff.mpr running)
      (Option.not_isSome_iff_eq_none.mp absent)] at recovers
    split at recovers
    · cases recovers.free
    · obtain ⟨_, isMemory, _⟩ := recovers
      cases isMemory
  · intro creates
    refine (leads_meets intact isCmp creates (.eval inRec created)).imp ?_
    rintro ⟨code, after⟩ ⟨rfl, next, rfl, intact⟩
    exact ⟨rfl, (ready_ofHeap intact).initialised, fun failed => absurd rfl failed⟩

end AllocAgg

/-! ### Runs -/

section Runs

variable {unirec : Libunirec} {options : Str} {config : Config} {now : Int} {once : Bool}
  {agg agg' : AllocAgg} {labels : List AllocStep}

/-- As long as records can be created, every entry has one. -/
theorem ofHeap_of_run (isCmp : ∀ a b, unirec.ipCmp a b = 0 ↔ a = b)
    (read : Config.ofOptions options = .ok config)
    (initial : AllocAgg.init unirec config now once false = some agg)
    (run : (createdSystem unirec.ipCmp).Steps agg labels agg') :
    ∃ records : HeapAgg, agg' = AllocAgg.ofHeap records ∧ records.Intact := by
  refine run.invariant (fun _ agg' => ∃ records : HeapAgg, agg' = AllocAgg.ofHeap records ∧
    records.Intact) ?_ ?_
  · obtain ⟨start, isStart, rfl⟩ := Option.map_eq_some_iff.mp initial
    obtain ⟨isInit, fresh⟩ := HeapAgg.initial_of_init isStart
    have slots := (ofConfig_of_init isInit).counterSlots (countersNamed_of_ofOptions read)
      (known_of_init isInit)
    exact ⟨start, rfl, fresh.intact slots⟩
  · rintro before middle label after ⟨records, rfl, intact⟩ ⟨creates, code, leads⟩
    exact ((AllocAgg.leads_meets intact isCmp creates leads).of_ok rfl).2

/-- In every run in which `create_record` did not fail so far, the mutex is free and all entries
point to records. The next call of `eval` leaves this behind exactly when it does not fail either,
and then every step can be taken. -/
theorem recovers_iff_creates (isCmp : ∀ a b, unirec.ipCmp a b = 0 ↔ a = b)
    (read : Config.ofOptions options = .ok config)
    (initial : AllocAgg.init unirec config now once false = some agg)
    (run : (createdSystem unirec.ipCmp).Steps agg labels agg') :
    agg'.Ready ∧
      (∀ inRec created, Meets (agg'.eval unirec.ipCmp created inRec)
          (fun result => agg'.Recovers result.1 result.2)
          (AllocAgg.Excusable agg'.outputTemp) ↔
        agg'.Creates (.eval inRec created)) ∧
      ∀ label outcome, agg'.Creates label → agg'.Leads unirec.ipCmp label outcome →
        Meets outcome (fun result => result.1 = 0 ∧ result.2.Ready)
          (AllocAgg.Excusable agg'.outputTemp) := by
  obtain ⟨records, rfl, intact⟩ := ofHeap_of_run isCmp read initial run
  refine ⟨AllocAgg.ready_ofHeap intact, AllocAgg.eval_recovers_iff intact isCmp,
    fun label outcome creates leads => ?_⟩
  refine (AllocAgg.leads_meets intact isCmp creates leads).imp ?_
  rintro ⟨code, after⟩ ⟨rfl, next, rfl, kept⟩
  exact ⟨rfl, AllocAgg.ready_ofHeap kept⟩

end Runs

theorem recovers_iff_creates_sourcesByPort :
    ∃ config agg agg', Config.ofOptions sourcesByPort = .ok config ∧
      AllocAgg.init .plain config 0 true false = some agg ∧
      (createdSystem Libunirec.plain.ipCmp).Steps agg [.eval (fromSource 1) true] agg' ∧
      agg'.Ready ∧
      Meets (agg'.eval Libunirec.plain.ipCmp false (fromSource 2))
        (fun result => agg'.Recovers result.1 result.2)
        (AllocAgg.Excusable agg'.outputTemp) := by
  let ipCmp := Libunirec.plain.ipCmp
  let config := (getopt (getArgcArgv sourcesByPort)).foldl Config.applyOption .new
  have read : Config.ofOptions sourcesByPort = .ok config :=
    map_ok.mpr ⟨sourcesByPort, if_pos (by decide), rfl⟩
  have ends : (AllocAgg.init .plain config 0 true false).map (fun agg =>
      (agg.eval ipCmp true (fromSource 1)).map fun result => (result.2.storage.lookup
        (recKey result.2.keyTemp (fromSource 2))).isSome) = some (Except.ok true) := by
    decide +kernel
  obtain ⟨agg, initial, ran⟩ := Option.map_eq_some_iff.mp ends
  obtain ⟨⟨code, agg'⟩, evaluates, known⟩ := map_ok.mp ran
  have leads : agg.Leads ipCmp (.eval (fromSource 1) true) (.ok (code, agg')) :=
    evaluates ▸ .eval ..
  have run : (createdSystem ipCmp).Steps agg [.eval (fromSource 1) true] agg' :=
    .step .refl ⟨.inl rfl, code, leads⟩
  obtain ⟨ready, recovers, _⟩ := recovers_iff_creates Libunirec.plain_ipCmp read initial run
  exact ⟨config, agg, agg', read, initial, run, ready,
    (recovers (fromSource 2) false).mpr (.inr (.inr known))⟩

/-- Options that ask for nothing but the ports. -/
def portsOnly : Str := "agg -k DST_PORT".toList

/-- Without counters the mutex stays locked, and the next call waits for it forever. With a counter
the NULL entry is used. -/
theorem eval_unrecovered :
    (∃ config agg code after, Config.ofOptions portsOnly = .ok config ∧
      AllocAgg.init .plain config 0 true false = some agg ∧
      agg.eval Libunirec.plain.ipCmp false (fromSource 1) = .ok (code, after) ∧
      ¬ agg.Recovers code after ∧
      after.eval Libunirec.plain.ipCmp true (fromSource 1) = .error .deadlock) ∧
    ∃ config agg, Config.ofOptions sourcesByPort = .ok config ∧
      AllocAgg.init .plain config 0 true false = some agg ∧
      agg.eval Libunirec.plain.ipCmp false (fromSource 1) = .error .nullRecord := by
  let ipCmp := Libunirec.plain.ipCmp
  constructor
  · let config := (getopt (getArgcArgv portsOnly)).foldl Config.applyOption .new
    have read : Config.ofOptions portsOnly = .ok config :=
      map_ok.mpr ⟨portsOnly, if_pos (by decide), rfl⟩
    have ends : (AllocAgg.init .plain config 0 true false).map (fun agg =>
        (agg.eval ipCmp false (fromSource 1)).map fun result =>
          (result.2.locked, result.2.stop)) = some (Except.ok (true, false)) := by
      decide +kernel
    obtain ⟨agg, initial, ran⟩ := Option.map_eq_some_iff.mp ends
    obtain ⟨⟨code, after⟩, evaluates, left⟩ := map_ok.mp ran
    obtain ⟨locked, running⟩ := Prod.mk.inj left
    refine ⟨config, agg, code, after, read, initial, evaluates, fun recovers => ?_,
      AllocAgg.eval_of_locked locked running ..⟩
    rw [recovers.free] at locked
    cases locked
  · let config := (getopt (getArgcArgv sourcesByPort)).foldl Config.applyOption .new
    have read : Config.ofOptions sourcesByPort = .ok config :=
      map_ok.mpr ⟨sourcesByPort, if_pos (by decide), rfl⟩
    have ends : (AllocAgg.init .plain config 0 true false).map (fun agg =>
        match agg.eval ipCmp false (fromSource 1) with
        | .error .nullRecord => true
        | _ => false) = some true := by
      decide +kernel
    obtain ⟨agg, initial, fails⟩ := Option.map_eq_some_iff.mp ends
    refine ⟨config, agg, read, initial, ?_⟩
    revert fails
    split
    · rename_i isError
      exact fun _ => isError
    · exact fun other => by cases other

end Policer.Aggregator
