import Policer.Aggregator.OwnedRecords

/-!
# The storage owns the vectors

`Intact` is the invariant: the vectors of the stored records are those that have not been released,
and those of the records sent have been. `Intact.leads_meets` is the step: it keeps `Intact`, and
is a step of `Agg` on the records with their vectors. A step that fails calls a NULL pointer,
meets the limit of a vector or divides. `Sound` is the same without divisions.
-/

namespace Policer.Aggregator

open Policer.Lib Policer.Parsing

/-! ### The storage as `Agg` has it -/

/-- An entry with the vectors of its record. -/
def OutputTemplate.viewEntry (self : OutputTemplate) (heap : Vectors)
    (entry : Sigma fun _ : Key => HeapRecord) : Sigma fun _ : Key => Stored :=
  ⟨entry.1, self.view heap entry.2⟩

theorem nodupKeys_viewEntry (template : OutputTemplate) (heap : Vectors)
    {entries : List (Sigma fun _ : Key => HeapRecord)} (distinct : entries.NodupKeys) :
    (entries.map (template.viewEntry heap)).NodupKeys := by
  rw [List.NodupKeys, List.keys, List.map_map]
  exact distinct

theorem kerase_viewEntry (template : OutputTemplate) (heap : Vectors) (key : Key)
    (entries : List (Sigma fun _ : Key => HeapRecord)) :
    (entries.map (template.viewEntry heap)).kerase key =
      (entries.kerase key).map (template.viewEntry heap) :=
  List.eraseP_map ..

/-- Entries are chosen by their vectors as they are in memory. -/
theorem filter_viewEntry {template : OutputTemplate} {heap : Vectors} {pick : HeapRecord → Bool}
    (pickToo : Stored → Bool) (agree : ∀ stored, pickToo (template.view heap stored) = pick stored)
    (entries : List (Sigma fun _ : Key => HeapRecord)) :
    (entries.map (template.viewEntry heap)).filter (fun entry => pickToo entry.2) =
      (entries.filter fun entry => pick entry.2).map (template.viewEntry heap) := by
  rw [List.filter_map]
  refine congrArg _ (List.filter_congr fun entry _ => ?_)
  exact agree entry.2

namespace HeapAgg

/-- The aggregator with the vectors beside the records. -/
def toAgg (agg : HeapAgg) : Agg where
  config := agg.config
  keyTemp := agg.keyTemp
  outputTemp := agg.outputTemp
  storage := ⟨agg.storage.entries.map (agg.outputTemp.viewEntry agg.heap),
    nodupKeys_viewEntry _ _ agg.storage.nodupKeys⟩
  timeLastFromRecord := agg.timeLastFromRecord
  once := agg.once
  stop := agg.stop
  sent := agg.sent.map Prod.fst

/-- The vectors of the stored records. -/
def owners (agg : HeapAgg) : List Nat :=
  agg.storage.entries.flatMap fun entry => agg.outputTemp.blocks entry.2

/-- The storage owns the vectors that have not been released, and those of the records sent have
been. -/
structure Intact (agg : HeapAgg) : Prop where
  slots : CounterSlots agg.outputTemp
  held : Held agg.heap agg.owners
  filled : ∀ entry ∈ agg.storage.entries, Filled agg.outputTemp.fieldsLikePtr entry.2
  released : agg.heap.released = agg.sent.flatMap Prod.snd

/-- The storage of an aggregator without divisions owns its vectors. -/
structure Sound (agg : HeapAgg) : Prop where
  slots : Slots agg.outputTemp
  held : Held agg.heap agg.owners
  filled : ∀ entry ∈ agg.storage.entries, Filled agg.outputTemp.fieldsLikePtr entry.2
  released : agg.heap.released = agg.sent.flatMap Prod.snd

variable {agg : HeapAgg}

theorem entries_toAgg (agg : HeapAgg) :
    agg.toAgg.storage.entries =
      agg.storage.entries.map (agg.outputTemp.viewEntry agg.heap) := rfl

theorem lookup_toAgg (agg : HeapAgg) (key : Key) :
    agg.toAgg.storage.lookup key =
      (agg.storage.lookup key).map (agg.outputTemp.view agg.heap) :=
  List.dlookup_map₂ (f := fun _ => agg.outputTemp.view agg.heap) key

/-- A new entry in place of those of its key. -/
theorem toAgg_put (agg : HeapAgg) (key : Key) (state : HeapRecord × Vectors)
    (same : agg.heap.Same state.2
      ((agg.storage.entries.kerase key).flatMap fun entry => agg.outputTemp.blocks entry.2)) :
    (agg.put key state).toAgg = { agg.toAgg with
      storage := agg.toAgg.storage.insert key (agg.outputTemp.view state.2 state.1) } := by
  have storage : (agg.put key state).toAgg.storage =
      agg.toAgg.storage.insert key (agg.outputTemp.view state.2 state.1) := by
    refine AList.ext ?_
    rw [AList.entries_insert]
    change (List.map (agg.outputTemp.viewEntry state.2) (⟨key, state.1⟩ ::
      agg.storage.entries.kerase key)) = _ :: List.kerase key (agg.storage.entries.map _)
    rw [List.map_cons, kerase_viewEntry]
    refine congrArg (_ :: ·) (List.map_congr_left fun entry member => ?_)
    have here : agg.heap.Same state.2 (agg.outputTemp.blocks entry.2) :=
      same.subset fun block isBlock => List.mem_flatMap.mpr ⟨entry, member, isBlock⟩
    rw [OutputTemplate.viewEntry, view_congr here]
    rfl
  rw [← storage]
  rfl

theorem toAgg_sent (agg : HeapAgg) (sent : List (Record × List Nat)) :
    ({ agg with sent := sent } : HeapAgg).toAgg = { agg.toAgg with sent := sent.map Prod.fst } :=
  rfl

/-- The entry of a key and the other entries. -/
theorem entries_perm {key : Key} {stored : HeapRecord}
    (found : agg.storage.lookup key = some stored) :
    agg.storage.entries.Perm (⟨key, stored⟩ :: agg.storage.entries.kerase key) := by
  have inStorage := AList.mem_lookup_iff.mp found
  have member : key ∈ agg.storage.entries.keys := List.mem_keys_of_mem inStorage
  obtain ⟨other, before, after, _, isEntries, isRest⟩ := List.exists_of_kerase member
  have isOther : (⟨key, other⟩ : Sigma fun _ : Key => HeapRecord) ∈ agg.storage.entries := by
    rw [isEntries]
    exact List.mem_append_right _ List.mem_cons_self
  obtain rfl := agg.storage.nodupKeys.eq_of_mk_mem inStorage isOther
  rw [isRest, isEntries]
  exact List.perm_middle

/-- The vectors of the entry of a key and those of the other entries. -/
theorem owners_perm {key : Key} {stored : HeapRecord}
    (found : agg.storage.lookup key = some stored) :
    agg.owners.Perm (agg.outputTemp.blocks stored ++
      (agg.storage.entries.kerase key).flatMap fun entry => agg.outputTemp.blocks entry.2) :=
  (entries_perm found).flatMap_right _

theorem entries_kerase {key : Key} (absent : agg.storage.lookup key = none) :
    agg.storage.entries.kerase key = agg.storage.entries :=
  List.kerase_of_notMem_keys (AList.lookup_eq_none.mp absent)

/-- An entry that holds its vectors is put in place of those of its key. -/
theorem Intact.put (intact : agg.Intact) {key : Key} {state : HeapRecord × Vectors}
    (filled : Filled agg.outputTemp.fieldsLikePtr state.1)
    (held : Held state.2 (agg.outputTemp.blocks state.1 ++
      (agg.storage.entries.kerase key).flatMap fun entry => agg.outputTemp.blocks entry.2))
    {sent : List (Record × List Nat)} (released : state.2.released = sent.flatMap Prod.snd) :
    Intact { agg.put key state with sent := sent } := by
  refine ⟨intact.slots, held, fun entry member => ?_, released⟩
  rcases List.mem_cons.mp member with rfl | old
  · exact filled
  · exact intact.filled entry ((List.kerase_sublist ..).subset old)

/-- The part of `eval` under `storage_mutex`. -/
theorem store_meets (intact : agg.Intact) {ipCmp : Nat → Nat → Int}
    (isCmp : ∀ a b, ipCmp a b = 0 ↔ a = b) (inRec : Record) :
    Meets (agg.store ipCmp inRec) (fun next => next.Intact ∧ agg.toAgg.store inRec = .ok next.toAgg)
      (Tolerated agg.outputTemp) := by
  unfold store Agg.store
  dsimp only
  rw [show agg.toAgg.keyTemp = agg.keyTemp from rfl, lookup_toAgg]
  generalize recKey agg.keyTemp inRec = key
  cases found : agg.storage.lookup key with
  | none =>
      have held : Held agg.heap ((agg.storage.entries.kerase key).flatMap fun entry =>
          agg.outputTemp.blocks entry.2) := by
        rw [entries_kerase found]
        exact intact.held
      refine Meets.map (initRecordData_meets agg.toAgg intact.slots inRec held) ?_
      rintro fresh ⟨filled, held', same, released, isFresh⟩
      refine ⟨intact.put filled held' (released.trans intact.released), ?_⟩
      rw [toAgg_put agg key fresh same]
      exact congrArg (Except.map _) isFresh
  | some stored =>
      have filled : Filled agg.outputTemp.fieldsLikePtr stored :=
        intact.filled _ (AList.mem_lookup_iff.mp found)
      have held := intact.held.perm (owners_perm found)
      have window : agg.toAgg.newTimeWindow inRec (agg.outputTemp.view agg.heap stored) =
          agg.newTimeWindow inRec stored := rfl
      dsimp only [Option.map_some]
      rw [window]
      split
      · refine (sendRecordOut_meets agg.toAgg intact.slots filled held).bind ?_
        rintro out ⟨held', same, released,
          (sends : agg.toAgg.sendRecordOut (agg.outputTemp.view agg.heap stored) = _)⟩
        refine (initRecordData_meets agg.toAgg intact.slots inRec held').bind ?_
        rintro fresh ⟨filled', held'', same', released', isFresh⟩
        have after : ({ agg.put key fresh with
            sent := agg.sent ++ [(out.1.record, agg.outputTemp.blocks stored)] } : HeapAgg).toAgg =
              { agg.toAgg with
                storage := agg.toAgg.storage.insert key (agg.outputTemp.view fresh.2 fresh.1)
                sent := agg.toAgg.sent ++ [out.1.record] } := by
          rw [toAgg_sent (agg.put key fresh), toAgg_put agg key fresh (same.trans same'),
            List.map_append]
          rfl
        refine .ok ⟨intact.put filled' held'' ?_, ?_⟩
        · rw [released', released, intact.released, List.flatMap_append, List.flatMap_singleton]
          rfl
        · rw [after, sends]
          change (agg.toAgg.initRecordData inRec out.1.record >>= _) = _
          rw [isFresh]
          rfl
      · refine (processAggFunctions_meets agg.toAgg intact.slots isCmp inRec filled held).map ?_
        rintro next ⟨filled', held', same, released, isNext⟩
        refine ⟨intact.put filled' held' (released.trans intact.released), ?_⟩
        rw [toAgg_put agg key next same]
        exact congrArg (fun stored => Except.ok { agg.toAgg with
          storage := agg.toAgg.storage.insert key stored }) isNext.symm

/-- The entries that leave are sent, and the others keep their vectors. -/
theorem sendOut_meets (intact : agg.Intact) {leaves : HeapRecord → Bool} (leavesToo : Stored → Bool)
    (agree : ∀ stored, leavesToo (agg.outputTemp.view agg.heap stored) = leaves stored) :
    Meets (agg.sendOut leaves)
      (fun next => next.Intact ∧ agg.toAgg.sendOut leavesToo = .ok next.toAgg)
      (Tolerated agg.outputTemp) := by
  let going := agg.storage.entries.filter fun entry => leaves entry.2
  let staying := agg.storage.entries.filter fun entry => !leaves entry.2
  have parts : (going ++ staying).Perm agg.storage.entries :=
    List.filter_append_perm _ agg.storage.entries
  have held : Held agg.heap ((going.flatMap fun entry => agg.outputTemp.blocks entry.2) ++
      staying.flatMap fun entry => agg.outputTemp.blocks entry.2) := by
    rw [← List.flatMap_append]
    exact intact.held.perm (parts.flatMap_right _).symm
  have filled : ∀ entry ∈ going, Filled agg.outputTemp.fieldsLikePtr entry.2 :=
    fun entry member => intact.filled entry (List.mem_of_mem_filter member)
  refine Meets.map (sendEntries_meets agg.toAgg intact.slots filled held) ?_
  rintro ⟨sent, heap⟩ made
  obtain ⟨records, makes, (isSent : sent.map Prod.fst = agg.sent.map Prod.fst ++ records)⟩ :=
    made.records
  refine ⟨⟨intact.slots, made.held, fun entry member =>
    intact.filled entry (List.mem_of_mem_filter member), ?_⟩, ?_⟩
  · rw [made.released, intact.released]
    exact made.blocks.symm
  · have sends : (agg.toAgg.storage.entries.filter fun entry => leavesToo entry.2).mapM
        (fun entry => agg.toAgg.sendRecordOut entry.2) = .ok records := by
      rw [entries_toAgg, filter_viewEntry leavesToo agree, List.mapM_map]
      exact makes
    have storage : Agg.keepEntries agg.toAgg.storage (fun stored => !leavesToo stored) =
        ({ agg with
          storage := keepEntries agg.storage fun stored => !leaves stored
          heap := heap
          sent := sent } : HeapAgg).toAgg.storage := by
      refine AList.ext ?_
      change (agg.storage.entries.map (agg.outputTemp.viewEntry agg.heap)).filter
        (fun entry => !leavesToo entry.2) = staying.map (agg.outputTemp.viewEntry heap)
      rw [filter_viewEntry (fun stored => !leavesToo stored) fun stored =>
        congrArg not (agree stored)]
      refine List.map_congr_left fun entry member => ?_
      have here : agg.heap.Same heap (agg.outputTemp.blocks entry.2) :=
        made.same.subset fun block isBlock => List.mem_flatMap.mpr ⟨entry, member, isBlock⟩
      rw [OutputTemplate.viewEntry, OutputTemplate.viewEntry, view_congr here]
    have isNext : ({ agg with
        storage := keepEntries agg.storage fun stored => !leaves stored
        heap := heap
        sent := sent } : HeapAgg).toAgg =
          { agg.toAgg with
            storage := Agg.keepEntries agg.toAgg.storage fun stored => !leavesToo stored
            sent := agg.toAgg.sent ++ records } := by
      rw [storage]
      change ({ agg.toAgg with storage := _, sent := sent.map Prod.fst } : Agg) = _
      rw [isSent]
      rfl
    rw [Agg.sendOut, sends]
    exact congrArg Except.ok isNext.symm

/-! ### Steps -/

/-- Members that own no vectors may change. -/
theorem Intact.congr {next : HeapAgg} (intact : agg.Intact)
    (outputTemp : next.outputTemp = agg.outputTemp) (storage : next.storage = agg.storage)
    (heap : next.heap = agg.heap) (sent : next.sent = agg.sent) : next.Intact := by
  obtain ⟨config, keyTemp, template, stored, vectors, time, once, stop, records⟩ := next
  obtain ⟨rfl, rfl, rfl, rfl⟩ : template = _ ∧ stored = _ ∧ vectors = _ ∧ records = _ :=
    ⟨outputTemp, storage, heap, sent⟩
  exact ⟨intact.slots, intact.held, intact.filled, intact.released⟩

theorem Intact.noteFirstRecord (intact : agg.Intact) (inRec : Record) :
    (agg.noteFirstRecord inRec).Intact := by
  unfold HeapAgg.noteFirstRecord
  split
  · exact intact.congr rfl rfl rfl rfl
  · exact intact

theorem Intact.startTimeouts (intact : agg.Intact) : agg.startTimeouts.Intact := by
  unfold HeapAgg.startTimeouts
  split
  · exact intact.congr rfl rfl rfl rfl
  · exact intact

theorem toAgg_noteFirstRecord (agg : HeapAgg) (inRec : Record) :
    (agg.noteFirstRecord inRec).toAgg = agg.toAgg.noteFirstRecord inRec := by
  unfold noteFirstRecord Agg.noteFirstRecord
  change _ = if agg.once then _ else _
  split <;> rfl

theorem outputTemp_noteFirstRecord (agg : HeapAgg) (inRec : Record) :
    (agg.noteFirstRecord inRec).outputTemp = agg.outputTemp := by
  unfold noteFirstRecord
  split <;> rfl

theorem toAgg_startTimeouts (agg : HeapAgg) :
    agg.startTimeouts.toAgg = agg.toAgg.startTimeouts := by
  unfold startTimeouts Agg.startTimeouts
  change _ = if agg.config.timeouts.timeoutType.hasPassive then _ else _
  split <;> rfl

theorem eval_meets (intact : agg.Intact) {ipCmp : Nat → Nat → Int}
    (isCmp : ∀ a b, ipCmp a b = 0 ↔ a = b) (inRec : Record) :
    Meets (agg.eval ipCmp inRec) (fun next => next.Intact ∧ agg.toAgg.eval inRec = .ok next.toAgg)
      (Tolerated agg.outputTemp) := by
  have noted := intact.noteFirstRecord inRec
  unfold eval Agg.eval
  dsimp only
  rw [← toAgg_noteFirstRecord, ← outputTemp_noteFirstRecord agg inRec]
  rw [show (agg.noteFirstRecord inRec).toAgg.stop = (agg.noteFirstRecord inRec).stop from rfl]
  split
  · exact .ok ⟨noted, rfl⟩
  · exact store_meets noted isCmp inRec

theorem checkTimeouts_meets (intact : agg.Intact) :
    Meets agg.checkTimeouts
      (fun next => next.Intact ∧ agg.toAgg.checkTimeouts = .ok next.toAgg)
      (Tolerated agg.outputTemp) := by
  unfold checkTimeouts Agg.checkTimeouts
  rw [show agg.toAgg.stop = agg.stop from rfl, show agg.toAgg.config = agg.config from rfl]
  have sweeps : Meets ((agg.sendOut agg.expired).map startTimeouts)
      (fun next => next.Intact ∧
        (agg.toAgg.sendOut agg.toAgg.expired).map Agg.startTimeouts = .ok next.toAgg)
      (Tolerated agg.outputTemp) := by
    refine (sendOut_meets intact agg.toAgg.expired fun _ => rfl).map ?_
    rintro swept ⟨after, sends⟩
    refine ⟨after.startTimeouts, ?_⟩
    rw [sends, toAgg_startTimeouts]
    rfl
  split
  · exact .ok ⟨intact, rfl⟩
  · cases agg.config.timeouts.timeoutType with
    | global => exact sendOut_meets intact (fun _ => true) fun _ => rfl
    | active => exact .ok ⟨intact, rfl⟩
    | passive | activePassive => exact sweeps

/-- A step keeps the vectors in order and is a step of `Agg`. -/
theorem Intact.leads_meets (intact : agg.Intact) {ipCmp : Nat → Nat → Int}
    (isCmp : ∀ a b, ipCmp a b = 0 ↔ a = b) {label : AggStep} {outcome : Except MemoryFault HeapAgg}
    (leads : agg.Leads ipCmp label outcome) :
    Meets outcome (fun next => next.Intact ∧ agg.toAgg.Leads label (.ok next.toAgg))
      (Tolerated agg.outputTemp) := by
  cases leads with
  | eval inRec =>
      exact (eval_meets intact isCmp inRec).imp fun next after =>
        ⟨after.1, after.2 ▸ Agg.Leads.eval inRec⟩
  | startTimeouts => exact .ok ⟨intact.startTimeouts, toAgg_startTimeouts agg ▸ .startTimeouts⟩
  | checkTimeouts =>
      exact (checkTimeouts_meets intact).imp fun next after =>
        ⟨after.1, after.2 ▸ Agg.Leads.checkTimeouts⟩
  | destroy =>
      have stopped : Intact { agg with stop := true } := intact.congr rfl rfl rfl rfl
      refine (sendOut_meets stopped (fun _ => true) fun _ => rfl).imp ?_
      rintro next ⟨after, flushes⟩
      exact ⟨after, flushes ▸ Agg.Leads.destroy⟩
  | @rehash storage reordered =>
      refine .ok ⟨⟨intact.slots, intact.held.perm (reordered.flatMap_right _),
        fun entry member => ?_, intact.released⟩, .rehash (reordered.map _)⟩
      exact intact.filled entry (reordered.mem_iff.mpr member)
  | otherEval => exact .ok ⟨intact.congr rfl rfl rfl rfl, .otherEval⟩
  | otherDestroy => exact .ok ⟨intact.congr rfl rfl rfl rfl, .otherDestroy⟩

theorem Sound.intact (sound : agg.Sound) : agg.Intact :=
  ⟨sound.slots.toCounterSlots, sound.held, sound.filled, sound.released⟩

/-- Without divisions a step only fails at a NULL pointer or at the limit of a vector. -/
theorem leads_meets (sound : agg.Sound) {ipCmp : Nat → Nat → Int}
    (isCmp : ∀ a b, ipCmp a b = 0 ↔ a = b) {label : AggStep} {outcome : Except MemoryFault HeapAgg}
    (leads : agg.Leads ipCmp label outcome) :
    Meets outcome (fun next => next.Sound ∧ agg.toAgg.Leads label (.ok next.toAgg))
      (Excused agg.outputTemp) := by
  refine (sound.intact.leads_meets isCmp leads).mono ?_ fun fault => sound.slots.excused
  rintro next ⟨intact, step⟩
  have template : next.outputTemp = agg.outputTemp := (SameSetup.of_leads step).outputTemp
  have noDivision : next.outputTemp.avgPostprocessing = false := by
    rw [template]
    exact sound.slots.noDivision
  exact ⟨⟨⟨intact.slots, noDivision⟩, intact.held, intact.filled, intact.released⟩, step⟩

end HeapAgg

end Policer.Aggregator
