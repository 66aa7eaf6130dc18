import Policer.Aggregator.Ownership
import Policer.Lib.Faults

/-!
# A record owns its vectors

`OutputTemplate.view` reads the vectors of a stored record, which makes it a stored record of
`Agg`. The functions of a template do on the record in memory what those of `Agg` do on its view:
`init_record_data` gives it vectors of its own, `process_agg_functions` changes no vectors but
those, and `send_record_out` releases them. A function that fails calls a NULL pointer or meets
the limit of a vector.
-/

namespace Policer.Aggregator

open Policer.Lib Policer.Parsing

/-! ### Templates -/

/-- The counters of a template have fields of their own, and records with counters are completed
before they are sent. -/
structure CounterSlots (template : OutputTemplate) : Prop where
  distinct : (template.fieldsLikePtr.map PtrField.record).Nodup
  apart : ∀ field ∈ template.fieldsLikePtr,
    field.record ∉ staticIds ∧ field.record ∉ template.fields.map PlainField.record
  prepares : template.fieldsLikePtr ≠ [] → template.prepareToSend = true

/-- No field is divided either. -/
structure Slots (template : OutputTemplate) : Prop extends CounterSlots template where
  noDivision : template.avgPostprocessing = false

/-- A function of a counter is NULL. -/
def Lacking (template : OutputTemplate) : Prop :=
  ∃ field ∈ template.fieldsLikePtr,
    field.alloc = none ∨ field.make = none ∨ field.dealloc = none

/-- A fault that is no misuse of memory. -/
def Excused (template : OutputTemplate) (fault : MemoryFault) : Prop :=
  fault = .lengthError ∨ fault = .fault .nullFunction ∧ Lacking template

/-- A fault that is no misuse of memory, where fields may be divided. -/
def Tolerated (template : OutputTemplate) (fault : MemoryFault) : Prop :=
  Excused template fault ∨ template.avgPostprocessing = true ∧ ∃ cause, fault = .fault cause

theorem Slots.excused {template : OutputTemplate} (slots : Slots template) {fault : MemoryFault}
    (tolerated : Tolerated template fault) : Excused template fault := by
  rcases tolerated with excused | ⟨averages, _⟩
  · exact excused
  · rw [slots.noDivision] at averages
    cases averages

/-- A stored record with the vectors its counters point to. -/
def OutputTemplate.view (self : OutputTemplate) (heap : Vectors) (stored : HeapRecord) :
    Stored where
  record := stored.record
  vectors := self.fieldsLikePtr.map fun field => vectorAt heap stored field.record

theorem view_congr {template : OutputTemplate} {heap heap' : Vectors} {stored : HeapRecord}
    (same : heap.Same heap' (template.blocks stored)) :
    template.view heap' stored = template.view heap stored := by
  unfold OutputTemplate.view
  rw [List.map_congr_left fun field member => vectorAt_congr same member]

theorem zip_map_right_self {α β : Type} (items : List α) (f : α → β) :
    items.zip (items.map f) = items.map fun item => (item, f item) := by
  simpa using List.zip_map' (f := id) (g := f) (l := items)

/-! ### Functions on a record -/

theorem record_processFields (abs : Agg) (src : Record) (dst : HeapRecord) :
    (abs.outputTemp.processFields src dst).record =
      abs.processFields src (Folding.updateStatics src dst.record) := by
  have start : ((dst.increaseCount.takeTimeFirst src).takeTimeLast src).record =
      Folding.updateStatics src dst.record := by
    rw [HeapRecord.record_takeTimeLast, HeapRecord.record_takeTimeFirst]
    rfl
  unfold OutputTemplate.processFields Agg.processFields
  rw [← start]
  generalize (dst.increaseCount.takeTimeFirst src).takeTimeLast src = current
  induction abs.outputTemp.fields generalizing current with
  | nil => rfl
  | cons head tail ih => exact ih _

/-- A field that is no static one and has no function keeps the address it holds. -/
theorem address_processFields {template : OutputTemplate} {field : Field}
    (noStatic : field ∉ staticIds) (noPlain : field ∉ template.fields.map PlainField.record)
    (src : Record) (dst : HeapRecord) :
    (template.processFields src dst).address field = dst.address field := by
  simp only [staticIds, List.mem_cons, List.not_mem_nil, or_false, not_or] at noStatic
  have start : ((dst.increaseCount.takeTimeFirst src).takeTimeLast src).address field =
      dst.address field := by
    rw [HeapRecord.address_takeTimeLast noStatic.2.1, HeapRecord.address_takeTimeFirst noStatic.1]
    exact HeapRecord.address_set noStatic.2.2 ..
  unfold OutputTemplate.processFields
  rw [← start]
  generalize (dst.increaseCount.takeTimeFirst src).takeTimeLast src = current,
    template.fields = fields at noPlain ⊢
  clear start
  induction fields generalizing current with
  | nil => rfl
  | cons head tail ih =>
      rw [List.map_cons, List.mem_cons, not_or] at noPlain
      exact (ih _ noPlain.2).trans (HeapRecord.address_set noPlain.1 ..)

section Records

variable (abs : Agg) {heap : Vectors} {others : List Nat} {stored : HeapRecord}

/-- `process_agg_functions` on a record and on its view. -/
theorem processAggFunctions_meets (slots : CounterSlots abs.outputTemp) {ipCmp : Nat → Nat → Int}
    (isCmp : ∀ a b, ipCmp a b = 0 ↔ a = b) (src : Record)
    (filled : Filled abs.outputTemp.fieldsLikePtr stored)
    (held : Held heap (abs.outputTemp.blocks stored ++ others)) :
    Meets (abs.outputTemp.processAggFunctions ipCmp src stored heap)
      (fun after => Filled abs.outputTemp.fieldsLikePtr after.1 ∧
        Held after.2 (abs.outputTemp.blocks after.1 ++ others) ∧ heap.Same after.2 others ∧
        after.2.released = heap.released ∧
        abs.outputTemp.view after.2 after.1 =
          abs.processAggFunctions src (abs.outputTemp.view heap stored))
      (Tolerated abs.outputTemp) := by
  let processed := abs.outputTemp.processFields src stored
  have kept : ∀ field ∈ abs.outputTemp.fieldsLikePtr,
      processed.address field.record = stored.address field.record := fun field member =>
    address_processFields (slots.apart field member).1 (slots.apart field member).2 src stored
  have blocks : abs.outputTemp.blocks processed = abs.outputTemp.blocks stored :=
    List.filterMap_congr kept
  have filled' : Filled abs.outputTemp.fieldsLikePtr processed := fun field member =>
    kept field member ▸ filled field member
  refine Meets.map ((processPtrFields_meets isCmp src filled' (blocks ▸ held)).mono
    (fun _ made => made) fun fault limit => .inl (.inl limit)) ?_
  rintro heap' ⟨held', same, released, updated⟩
  refine ⟨filled', held', same, released, ?_⟩
  have record := record_processFields abs src stored
  have vectors : (abs.outputTemp.fieldsLikePtr.map fun field =>
      vectorAt heap' processed field.record) =
        (abs.outputTemp.fieldsLikePtr.zip (abs.outputTemp.view heap stored).vectors).map
          fun counter => counter.1.process.applyPtr (src counter.1.target).toNat counter.2 := by
    rw [OutputTemplate.view, zip_map_right_self, List.map_map]
    refine List.map_congr_left fun field member => ?_
    have same : vectorAt heap processed field.record = vectorAt heap stored field.record := by
      simp only [vectorAt, kept field member]
    rw [updated field member, same]
    rfl
  rw [Agg.processAggFunctions, ← vectors]
  exact congrArg (Stored.mk · _) record

/-- `init_record_data` on a record and on its view. -/
theorem initRecordData_meets (slots : CounterSlots abs.outputTemp) (src : Record)
    (held : Held heap others) :
    Meets (abs.outputTemp.initRecordData src stored heap)
      (fun after => Filled abs.outputTemp.fieldsLikePtr after.1 ∧
        Held after.2 (abs.outputTemp.blocks after.1 ++ others) ∧ heap.Same after.2 others ∧
        after.2.released = heap.released ∧
        abs.initRecordData src stored.record = .ok (abs.outputTemp.view after.2 after.1))
      (Tolerated abs.outputTemp) := by
  refine (initSlots_meets slots.distinct src held).mono (fun after made => ?_) ?_
  · refine ⟨made.filled, made.held, made.same, made.released, ?_⟩
    rw [Agg.initRecordData, Agg.initPtrField, made.vectors, OutputTemplate.view, made.record]
    rfl
  · rintro fault ⟨isNull, field, member, lacks⟩
    exact .inl (.inr ⟨isNull, field, member, .inl lacks⟩)

/-- Dividing a field writes this field only. -/
theorem postprocess_set {unirec : Libunirec} {storedRec made : Record} {field : PlainField}
    (divides : Agg.postprocess unirec storedRec field = .ok made) :
    made = storedRec.set field.record (made field.record) := by
  unfold Agg.postprocess at divides
  split at divides
  · obtain ⟨value, _, rfl⟩ := map_ok.mp divides
    rw [Record.set_same]
  · obtain ⟨value, _, rfl⟩ := map_ok.mp divides
    rw [Record.set_same]
  · cases divides

/-- The first loop of `prepare_to_send` keeps the addresses of all other fields. -/
theorem postprocesses_meets (template : OutputTemplate) (fields : List PlainField)
    (stored : HeapRecord) :
    Meets (fields.foldlM template.postprocess stored)
      (fun after =>
        fields.foldlM (Agg.postprocess template.unirec) stored.record = .ok after.record ∧
        ∀ field, field ∉ fields.map PlainField.record →
          after.address field = stored.address field)
      (fun fault => ∃ cause, fault = .fault cause) := by
  induction fields generalizing stored with
  | nil => exact .ok ⟨rfl, fun _ _ => rfl⟩
  | cons head tail ih =>
      rw [List.foldlM_cons, List.foldlM_cons]
      cases divided : Agg.postprocess template.unirec stored.record head with
      | error cause =>
          have fails : template.postprocess stored head = .error (.fault cause) := by
            rw [OutputTemplate.postprocess, divided]
            rfl
          rw [fails]
          exact .error ⟨cause, rfl⟩
      | ok made =>
          have completes : template.postprocess stored head =
              .ok (stored.set head.record (made head.record)) := by
            rw [OutputTemplate.postprocess, divided]
            rfl
          have record : (stored.set head.record (made head.record)).record = made :=
            (postprocess_set divided).symm
          rw [completes]
          refine (ih (stored.set head.record (made head.record))).imp fun after rest => ?_
          rw [record] at rest
          refine ⟨rest.1, fun field other => ?_⟩
          rw [List.map_cons, List.mem_cons, not_or] at other
          exact (rest.2 field other.2).trans (HeapRecord.address_set other.1 ..)

/-- The loops of `prepare_to_send` one after the other. -/
theorem prepareRecord_eq (template : OutputTemplate) (stored : HeapRecord) (heap : Vectors) :
    template.prepareRecord stored heap =
      ((if template.avgPostprocessing then
          template.fields.foldlM template.postprocess stored else .ok stored) >>=
        fun divided => template.fieldsLikePtr.foldlM makeSlot (divided, heap)) := by
  unfold OutputTemplate.prepareRecord
  split <;> rfl

theorem prepareToSend_eq (stored : Stored) :
    abs.prepareToSend stored =
      ((if abs.outputTemp.avgPostprocessing then
          abs.outputTemp.fields.foldlM (Agg.postprocess abs.outputTemp.unirec) stored.record
          else .ok stored.record) >>=
        fun divided => (abs.outputTemp.fieldsLikePtr.zip stored.vectors).foldlM Agg.makeField
          divided) := by
  unfold Agg.prepareToSend
  split <;> rfl

/-- The fields are divided, which leaves the addresses of the counters. -/
theorem divides_meets (slots : CounterSlots abs.outputTemp) (stored : HeapRecord) :
    Meets (if abs.outputTemp.avgPostprocessing then
        abs.outputTemp.fields.foldlM abs.outputTemp.postprocess stored else .ok stored)
      (fun divided => (if abs.outputTemp.avgPostprocessing then
          abs.outputTemp.fields.foldlM (Agg.postprocess abs.outputTemp.unirec) stored.record
          else .ok stored.record) =
            .ok divided.record ∧
        ∀ field ∈ abs.outputTemp.fieldsLikePtr,
          divided.address field.record = stored.address field.record)
      (Tolerated abs.outputTemp) := by
  split
  · rename_i averages
    refine (postprocesses_meets abs.outputTemp abs.outputTemp.fields stored).mono ?_ ?_
    · rintro divided ⟨made, kept⟩
      exact ⟨made, fun field member => kept field.record (slots.apart field member).2⟩
    · rintro fault fails
      exact .inr ⟨averages, fails⟩
  · exact .ok ⟨rfl, fun _ _ => rfl⟩

/-- `send_record_out` on a record and on its view releases the vectors of the record. -/
theorem sendRecordOut_meets (slots : CounterSlots abs.outputTemp)
    (filled : Filled abs.outputTemp.fieldsLikePtr stored)
    (held : Held heap (abs.outputTemp.blocks stored ++ others)) :
    Meets (abs.outputTemp.sendRecordOut stored heap)
      (fun after => Held after.2 others ∧ heap.Same after.2 others ∧
        after.2.released = heap.released ++ abs.outputTemp.blocks stored ∧
        abs.sendRecordOut (abs.outputTemp.view heap stored) = .ok after.1.record)
      (Tolerated abs.outputTemp) := by
  unfold OutputTemplate.sendRecordOut
  split
  · rename_i prepares
    rw [prepareRecord_eq]
    refine (divides_meets abs slots stored).bind ?_
    rintro divided ⟨isDivided, kept⟩
    have blocks : abs.outputTemp.blocks divided = abs.outputTemp.blocks stored :=
      List.filterMap_congr kept
    have filled' : Filled abs.outputTemp.fieldsLikePtr divided := fun field member =>
      kept field member ▸ filled field member
    have vectors : (abs.outputTemp.fieldsLikePtr.map fun field =>
        vectorAt heap divided field.record) = (abs.outputTemp.view heap stored).vectors :=
      List.map_congr_left fun field member => by simp only [vectorAt, kept field member]
    refine (makeSlots_meets slots.distinct filled' (blocks ▸ held)).mono (fun after made => ?_) ?_
    · have released := made.released
      rw [show blocksOf abs.outputTemp.fieldsLikePtr divided = abs.outputTemp.blocks stored from
        blocks] at released
      refine ⟨made.held, made.same, released, ?_⟩
      have record := made.record
      rw [vectors] at record
      rw [Agg.sendRecordOut, if_pos prepares, prepareToSend_eq]
      exact bind_ok.mpr ⟨divided.record, isDivided, record⟩
    · rintro fault ⟨isNull, field, member, lacks⟩
      exact .inl (.inr ⟨isNull, field, member, .inr lacks⟩)
  · rename_i plain
    have noCounters : abs.outputTemp.fieldsLikePtr = [] := by
      by_contra counters
      exact plain (slots.prepares counters)
    have none : abs.outputTemp.blocks stored = [] := by
      rw [OutputTemplate.blocks, noCounters, List.filterMap_nil]
    rw [none] at held ⊢
    refine .ok ⟨held, .refl _ _, (List.append_nil _).symm, ?_⟩
    rw [Agg.sendRecordOut, if_neg plain]
    rfl

/-- What is sent of some entries. -/
structure Sent (abs : Agg) (items : List (Sigma fun _ : Key => HeapRecord))
    (before : List (Record × List Nat) × Vectors) (others : List Nat)
    (after : List (Record × List Nat) × Vectors) : Prop where
  held : Held after.2 others
  same : before.2.Same after.2 others
  released : after.2.released = before.2.released ++
    items.flatMap fun entry => abs.outputTemp.blocks entry.2
  blocks : after.1.flatMap Prod.snd = before.1.flatMap Prod.snd ++
    items.flatMap fun entry => abs.outputTemp.blocks entry.2
  records : ∃ records, (items.mapM fun entry =>
      abs.sendRecordOut (abs.outputTemp.view before.2 entry.2)) = .ok records ∧
    after.1.map Prod.fst = before.1.map Prod.fst ++ records

theorem sendEntry_meets (slots : CounterSlots abs.outputTemp)
    {entry : Sigma fun _ : Key => HeapRecord} (filled : Filled abs.outputTemp.fieldsLikePtr entry.2)
    {state : List (Record × List Nat) × Vectors}
    (held : Held state.2 (abs.outputTemp.blocks entry.2 ++ others)) :
    Meets (HeapAgg.sendEntry abs.outputTemp state entry) (Sent abs [entry] state others)
      (Tolerated abs.outputTemp) := by
  refine Meets.map (sendRecordOut_meets abs slots filled held) ?_
  rintro ⟨sentRec, heap'⟩ ⟨held', same, released, sends⟩
  refine ⟨held', same, ?_, ?_, [sentRec.record], ?_, ?_⟩
  · rw [List.flatMap_singleton]
    exact released
  · rw [List.flatMap_append, List.flatMap_singleton, List.flatMap_singleton]
  · rw [List.mapM_cons, sends]
    rfl
  · rw [List.map_append]
    rfl

/-- One entry after the other is sent. -/
theorem sendEntries_meets (slots : CounterSlots abs.outputTemp)
    {items : List (Sigma fun _ : Key => HeapRecord)}
    (filled : ∀ entry ∈ items, Filled abs.outputTemp.fieldsLikePtr entry.2)
    {state : List (Record × List Nat) × Vectors}
    (held : Held state.2 ((items.flatMap fun entry => abs.outputTemp.blocks entry.2) ++ others)) :
    Meets (items.foldlM (HeapAgg.sendEntry abs.outputTemp) state) (Sent abs items state others)
      (Tolerated abs.outputTemp) := by
  induction items generalizing state with
  | nil =>
      exact .ok ⟨held, .refl _ _, (List.append_nil _).symm, (List.append_nil _).symm, [], rfl,
        (List.append_nil _).symm⟩
  | cons head tail ih =>
      rw [List.flatMap_cons, List.append_assoc] at held
      rw [List.foldlM_cons]
      have isFilled := filled head List.mem_cons_self
      refine (sendEntry_meets abs slots isFilled held).bind fun middle first => ?_
      refine (ih (fun entry member => filled entry (List.mem_cons_of_mem _ member))
        first.held).imp fun after rest => ?_
      have released := first.released
      have blocks := first.blocks
      rw [List.flatMap_singleton] at released blocks
      obtain ⟨here, makes, isHere⟩ := first.records
      obtain ⟨later, makesLater, isLater⟩ := rest.records
      obtain ⟨out, _, sends, none, rfl⟩ := mapM_cons_ok makes
      cases none
      refine ⟨rest.held, (first.same.subset (List.subset_append_right ..)).trans rest.same, ?_, ?_,
        out :: later, ?_, ?_⟩
      · rw [rest.released, released, List.flatMap_cons, List.append_assoc]
      · rw [rest.blocks, blocks, List.flatMap_cons, List.append_assoc]
      · have views : ∀ entry ∈ tail, abs.sendRecordOut (abs.outputTemp.view middle.2 entry.2) =
            abs.sendRecordOut (abs.outputTemp.view state.2 entry.2) := by
          intro entry member
          rw [view_congr (first.same.subset fun block isBlock => ?_)]
          exact List.mem_append_left _ (List.mem_flatMap.mpr ⟨entry, member, isBlock⟩)
        rw [List.mapM_cons, sends, ← mapM_congr views, makesLater]
        rfl
      · rw [isLater, isHere, List.append_assoc]
        rfl

end Records

end Policer.Aggregator
