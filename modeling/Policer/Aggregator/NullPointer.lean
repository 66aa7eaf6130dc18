import Policer.Aggregator.Denotation
import Policer.Aggregator.Template
import Policer.Lib.Faults

/-!
# Calls through NULL pointers

The pointers of `OutputTemplate` are chosen once, by `Agg::init`. `NullFree` says that
those a step can call are there, and is necessary as well: one record, and at most its
flush, reaches every entry. `null_call_iff` states the condition for the functions of a
stage.
-/

namespace Policer.Aggregator

open Policer.Lib Policer.Parsing Policer.Backend

/-! ### Templates without a NULL that is called -/

/-- No entry a step can call is NULL. -/
structure NullFree (template : OutputTemplate) : Prop where
  counters : ∀ field ∈ template.fieldsLikePtr,
    field.alloc.isSome ∧ field.make.isSome ∧ field.dealloc.isSome
  averages : template.avgPostprocessing = true →
    ∀ field ∈ template.fields, field.avgField.isSome ∨ field.rateField.isSome

/-- Some run of the aggregator calls a NULL pointer. -/
def Agg.CallsNull (agg : Agg) : Prop :=
  ∃ labels agg' label, aggSystem.Steps agg labels agg' ∧
    agg'.Leads label (.error .nullFunction)

theorem apply_ne_null {w : Nat} (func : FinalAvg) (value : BitVec w) (divisor : BitVec 32) :
    func.apply value divisor ≠ .error .nullFunction := by
  cases func with
  | makeAvg =>
      unfold FinalAvg.apply
      dsimp only
      split <;> simp
  | makeRate => simp [FinalAvg.apply]

theorem map_eq_error {α β ε : Type} {outcome : Except ε α} {f : α → β} {fault : ε}
    (fails : outcome.map f = .error fault) : outcome = .error fault := by
  cases outcome with
  | error other =>
      cases fails
      rfl
  | ok value => cases fails

namespace NullFree

variable {agg : Agg}

theorem postprocess_ne (unirec : Libunirec) (record : Record) {field : PlainField}
    (isSome : field.avgField.isSome ∨ field.rateField.isSome) :
    Agg.postprocess unirec record field ≠ .error .nullFunction := by
  intro fails
  unfold Agg.postprocess at fails
  split at fails
  · exact apply_ne_null _ _ _ (map_eq_error fails)
  · exact apply_ne_null _ _ _ (map_eq_error fails)
  · rename_i noAvg noRate
    simp [noAvg, noRate] at isSome

theorem makeField_ok (record : Record) {counter : PtrField × List Nat}
    (make : counter.1.make.isSome) (dealloc : counter.1.dealloc.isSome) :
    ∃ made, Agg.makeField record counter = .ok made := by
  obtain ⟨func, isFunc⟩ := Option.isSome_iff_exists.mp make
  obtain ⟨free, isFree⟩ := Option.isSome_iff_exists.mp dealloc
  cases func
  cases free
  exact ⟨_, by rw [Agg.makeField, isFunc, isFree]⟩

theorem initRecordData_ok (free : NullFree agg.outputTemp) (src dst : Record) :
    ∃ stored, agg.initRecordData src dst = .ok stored := by
  have allocates : ∀ field ∈ agg.outputTemp.fieldsLikePtr,
      ∃ made, Agg.initVector src field = .ok made := by
    intro field member
    obtain ⟨func, isFunc⟩ := Option.isSome_iff_exists.mp (free.counters field member).1
    cases func
    exact ⟨_, by rw [Agg.initVector, isFunc]⟩
  obtain ⟨vectors, isVectors⟩ := mapM_ok_of_forall allocates
  exact ⟨_, by rw [Agg.initRecordData, Agg.initPtrField, isVectors]; rfl⟩

theorem sendRecordOut_ne (free : NullFree agg.outputTemp) (stored : Stored) :
    agg.sendRecordOut stored ≠ .error .nullFunction := by
  have makes : ∀ divided : Record,
      (agg.outputTemp.fieldsLikePtr.zip stored.vectors).foldlM Agg.makeField divided ≠
        .error .nullFunction := by
    intro divided fails
    obtain ⟨counter, member, record, failed⟩ := foldlM_eq_error fails
    obtain ⟨_, make, dealloc⟩ := free.counters counter.1 (List.of_mem_zip member).1
    obtain ⟨made, isMade⟩ := makeField_ok record make dealloc
    rw [failed] at isMade
    cases isMade
  intro fails
  unfold Agg.sendRecordOut Agg.prepareToSend at fails
  split at fails
  · split at fails
    · rename_i averages
      cases divided :
        agg.outputTemp.fields.foldlM (Agg.postprocess agg.outputTemp.unirec) stored.record with
      | error fault =>
          rw [divided] at fails
          cases fails
          obtain ⟨field, member, record, failed⟩ := foldlM_eq_error divided
          exact postprocess_ne _ record (free.averages averages field member) failed
      | ok record =>
          rw [divided] at fails
          exact makes record fails
    · exact makes stored.record fails
  · cases fails

theorem sendOut_ne (free : NullFree agg.outputTemp) (leaves : Stored → Bool) :
    agg.sendOut leaves ≠ .error .nullFunction := by
  intro fails
  obtain ⟨entry, _, failed⟩ := mapM_eq_error (map_eq_error fails)
  exact free.sendRecordOut_ne entry.2 failed

theorem store_ne (free : NullFree agg.outputTemp) (inRec : Record) :
    agg.store inRec ≠ .error .nullFunction := by
  intro fails
  unfold Agg.store at fails
  dsimp only at fails
  split at fails
  · rename_i stored _
    split at fails
    · cases sent : agg.sendRecordOut stored with
      | error fault =>
          rw [sent] at fails
          cases fails
          exact free.sendRecordOut_ne stored sent
      | ok sentRec =>
          obtain ⟨fresh, isFresh⟩ := free.initRecordData_ok inRec sentRec
          simp only [sent, isFresh, bind, Except.bind] at fails
          cases fails
    · cases fails
  · obtain ⟨fresh, isFresh⟩ := free.initRecordData_ok inRec fun _ => 0
    have failed := map_eq_error fails
    rw [isFresh] at failed
    cases failed

/-- No step calls a NULL pointer. -/
theorem leads_ne (free : NullFree agg.outputTemp) (label : AggStep) :
    ¬ agg.Leads label (.error .nullFunction) := by
  intro leads
  generalize outcome : (Except.error Fault.nullFunction : Except Fault Agg) = result at leads
  cases leads with
  | eval inRec =>
      have noted : NullFree (agg.noteFirstRecord inRec).outputTemp :=
        (SameSetup.noteFirstRecord agg inRec).outputTemp ▸ free
      unfold Agg.eval at outcome
      dsimp only at outcome
      split at outcome
      · cases outcome
      · exact noted.store_ne inRec outcome.symm
  | checkTimeouts =>
      unfold Agg.checkTimeouts at outcome
      split at outcome
      · cases outcome
      · split at outcome
        · exact free.sendOut_ne _ outcome.symm
        · cases outcome
        · exact free.sendOut_ne _ (map_eq_error outcome.symm)
        · exact free.sendOut_ne _ (map_eq_error outcome.symm)
  | destroy =>
      have stopping : NullFree { agg with stop := true }.outputTemp := free
      exact stopping.sendOut_ne (fun _ => true) outcome.symm
  | startTimeouts | rehash | otherEval | otherDestroy => cases outcome

/-- No run calls a NULL pointer. -/
theorem not_callsNull (free : NullFree agg.outputTemp) : ¬ agg.CallsNull := by
  rintro ⟨labels, agg', label, run, leads⟩
  have kept : NullFree agg'.outputTemp := (SameSetup.of_steps run).outputTemp ▸ free
  exact kept.leads_ne label leads

end NullFree

/-! ### Runs that reach an entry -/

/-- A counter without an allocation function fails on the first record. -/
theorem callsNull_of_counter {agg : Agg} (running : agg.stop = false) (empty : agg.storage = ∅)
    {field : PtrField} (member : field ∈ agg.outputTemp.fieldsLikePtr) (null : field.alloc = none)
    (inRec : Record) : agg.CallsNull := by
  have setup : SameSetup agg (agg.noteFirstRecord inRec) := .noteFirstRecord agg inRec
  have fails : (agg.noteFirstRecord inRec).initPtrField inRec = .error .nullFunction := by
    unfold Agg.initPtrField
    rw [setup.outputTemp]
    refine mapM_error_of_mem member (by rw [Agg.initVector, null]) fun other _ fault failed => ?_
    unfold Agg.initVector at failed
    split at failed
    · cases failed
    · exact (Except.error.inj failed).symm
  have evaluates : agg.eval inRec = .error .nullFunction := by
    rw [Agg.eval_of_running running]
    have absent : (agg.noteFirstRecord inRec).storage.lookup
        (recKey (agg.noteFirstRecord inRec).keyTemp inRec) = none := by
      rw [Agg.storage_noteFirstRecord, empty, AList.lookup_empty]
    simp only [Agg.store, absent, Agg.initRecordData, fails]
    rfl
  have leads : agg.Leads (.eval inRec) (.error .nullFunction) := evaluates ▸ .eval inRec
  exact ⟨[], agg, _, .refl, leads⟩

/-- The loop of `prepare_to_send` gets to a field without functions, since the count of a new
record is not zero. -/
theorem foldlM_postprocess_null {unirec : Libunirec} {fields : List PlainField} {record : Record}
    (counted : record.count = 1) (noCount : ∀ field ∈ fields, field.record ≠ .count)
    (rates : ∀ field ∈ fields, field.rateField ≠ some .makeAvg)
    {field : PlainField} (member : field ∈ fields) (noAvg : field.avgField = none)
    (noRate : field.rateField = none) :
    fields.foldlM (Agg.postprocess unirec) record = .error .nullFunction := by
  induction fields generalizing record with
  | nil => cases member
  | cons head tail ih =>
      by_cases null : head.avgField = none ∧ head.rateField = none
      · rw [List.foldlM_cons, Agg.postprocess, null.1, null.2]
        rfl
      · have made : ∃ value,
            Agg.postprocess unirec record head = .ok (record.set head.record value) := by
          unfold Agg.postprocess
          cases avg : head.avgField with
          | some func =>
              cases func with
              | makeAvg =>
                  simp only [FinalAvg.apply, counted]
                  exact ⟨_, rfl⟩
              | makeRate => exact ⟨_, rfl⟩
          | none =>
              cases rate : head.rateField with
              | some func =>
                  cases func with
                  | makeAvg => exact absurd rate (rates head List.mem_cons_self)
                  | makeRate => exact ⟨_, rfl⟩
              | none => exact absurd ⟨avg, rate⟩ null
        obtain ⟨value, isValue⟩ := made
        have later : field ∈ tail := by
          rcases List.mem_cons.mp member with rfl | later
          · exact absurd ⟨noAvg, noRate⟩ null
          · exact later
        have stillCounted : (record.set head.record value).count = 1 :=
          (Record.set_other (noCount head List.mem_cons_self).symm record value).trans counted
        rw [List.foldlM_cons, isValue]
        exact ih stillCounted (fun other inTail => noCount other (List.mem_cons_of_mem _ inTail))
          (fun other inTail => rates other (List.mem_cons_of_mem _ inTail)) later

/-- A plain field without functions fails when the first record is flushed. -/
theorem callsNull_of_plain {agg : Agg} (running : agg.stop = false) (empty : agg.storage = ∅)
    (counters : ∀ field ∈ agg.outputTemp.fieldsLikePtr, field.alloc.isSome)
    (prepares : agg.outputTemp.prepareToSend = true)
    (averages : agg.outputTemp.avgPostprocessing = true)
    (noCount : ∀ field ∈ agg.outputTemp.fields, field.record ≠ .count)
    (rates : ∀ field ∈ agg.outputTemp.fields, field.rateField ≠ some .makeAvg) {field : PlainField}
    (member : field ∈ agg.outputTemp.fields) (noAvg : field.avgField = none)
    (noRate : field.rateField = none) (inRec : Record) : agg.CallsNull := by
  let noted := agg.noteFirstRecord inRec
  have setup : SameSetup agg noted := .noteFirstRecord agg inRec
  have allocates : ∃ vectors, noted.initPtrField inRec = .ok vectors := by
    unfold Agg.initPtrField
    rw [setup.outputTemp]
    refine mapM_ok_of_forall fun counter isCounter => ?_
    obtain ⟨func, isFunc⟩ := Option.isSome_iff_exists.mp (counters counter isCounter)
    cases func
    exact ⟨_, by rw [Agg.initVector, isFunc]⟩
  obtain ⟨vectors, isVectors⟩ := allocates
  let fresh : Stored :=
    ⟨(urCopyFields noted.outputTemp.outTmplt (fun _ => 0) inRec).set .count 1, vectors⟩
  let stored : Agg :=
    { noted with storage := noted.storage.insert (recKey noted.keyTemp inRec) fresh }
  have evaluates : agg.eval inRec = .ok stored := by
    rw [Agg.eval_of_running running]
    have absent : noted.storage.lookup (recKey noted.keyTemp inRec) = none := by
      rw [Agg.storage_noteFirstRecord, empty, AList.lookup_empty]
    change noted.store inRec = _
    simp only [Agg.store, absent, Agg.initRecordData, isVectors]
    rfl
  have postprocess :
      noted.outputTemp.fields.foldlM (Agg.postprocess noted.outputTemp.unirec) fresh.record =
        .error .nullFunction := by
    have counted : fresh.record.count = 1 :=
      Record.set_same (urCopyFields noted.outputTemp.outTmplt (fun _ => 0) inRec) .count 1
    rw [setup.outputTemp]
    exact foldlM_postprocess_null counted noCount rates member noAvg noRate
  have sends : stored.sendRecordOut fresh = .error .nullFunction := by
    have isPrepared : stored.outputTemp.prepareToSend = true := setup.outputTemp ▸ prepares
    have isAveraged : stored.outputTemp.avgPostprocessing = true := setup.outputTemp ▸ averages
    have sameTemplate : stored.outputTemp = noted.outputTemp := rfl
    rw [Agg.sendRecordOut, if_pos isPrepared, Agg.prepareToSend, if_pos isAveraged, sameTemplate,
      postprocess]
    rfl
  have destroys : stored.destroy = .error .nullFunction := by
    have entries : stored.storage.entries = [⟨recKey noted.keyTemp inRec, fresh⟩] := by
      have isEmpty : noted.storage = ∅ := (agg.storage_noteFirstRecord inRec).trans empty
      simp [stored, isEmpty]
    have flushes : (stored.storage.entries.filter fun _ => true).mapM
        (fun entry => { stored with stop := true }.sendRecordOut entry.2) =
          .error .nullFunction := by
      rw [entries]
      have same : { stored with stop := true }.sendRecordOut fresh = .error .nullFunction := sends
      simp [same]
    exact congrArg (Except.map _) flushes
  have first : agg.Leads (.eval inRec) (.ok stored) := evaluates ▸ .eval inRec
  have last : stored.Leads .destroy (.error .nullFunction) := destroys ▸ .destroy
  exact ⟨_, stored, _, .step .refl first, last⟩

/-! ### Functions of a stage -/

/-- The functions `prepare_to_send` completes. -/
def Completed (func : AggrFuncWithParam) : Prop := func = .average ∨ func = .rate

/-- The registered functions go together: none counts distinct times, and next to an average or
a rate there are only averages and rates of unsigned fields, and counters. -/
structure Supported (ctx : Context) (body : AggregatorBody) : Prop where
  counters : ∀ func, Registers ctx body func → func.funcName = .countDistinct →
    unirecType func.param ≠ .time
  averages : ∀ func, Registers ctx body func → Completed func.funcName →
    ∀ other, Registers ctx body other → other.funcName ≠ .countDistinct →
      Completed other.funcName ∧ (unirecType other.param).isUInt

/-- The pointers of the plain field of a function. -/
theorem plainOf?_functionField {func : AggrFuncWithParamS}
    (plain : func.funcName ≠ .countDistinct) :
    plainOf? (functionField func) = some
      { record := .unirec func.param
        process := getFunctionPtr (functionCode func.funcName) (unirecType func.param)
        avgField :=
          if func.funcName = .average then getAvgPtr .avg (unirecType func.param) else none
        rateField :=
          if func.funcName = .rate then getAvgPtr .rate (unirecType func.param) else none } := by
  have isId := functionField_known func
  rw [outputField, if_neg plain] at isId
  obtain ⟨funcName, param⟩ := func
  unfold plainOf?
  rw [isId]
  cases funcName <;> first | rfl | exact absurd rfl plain

/-- The pointers of the counter of a function. -/
theorem ptrOf?_functionField {func : AggrFuncWithParamS} (counts : func.funcName = .countDistinct) :
    ptrOf? (functionField func) = some
      { record := .countDistinctOf func.param
        target := .unirec func.param
        alloc := getAllocPtr .countDistinct (unirecType func.param)
        process := getFunctionPtr .countDistinct (unirecType func.param)
        make := getFinalMakePtr .countDistinct (unirecType func.param)
        dealloc := getDeallocPtr .countDistinct (unirecType func.param) } := by
  have isId := functionField_known func
  rw [outputField, if_pos counts] at isId
  obtain ⟨funcName, param⟩ := func
  simp only at counts
  subst counts
  unfold ptrOf?
  rw [isId]
  rfl

/-- What fields of a stage add, unless keys add it, comes from registered functions. -/
theorem mem_filterMap_stageConfig {β : Type} {ctx : Context} {body : AggregatorBody}
    {adds : ConfigField → Option β} (noKey : ∀ un, adds (keyField un) = none) {added : β} :
    added ∈ (stageConfig ctx body).fields.filterMap adds ↔
      ∃ func, Registers ctx body func ∧ adds (functionField func) = some added := by
  rw [List.mem_filterMap]
  constructor
  · rintro ⟨registered, member, isField⟩
    rcases (mem_stageConfig_fields ctx body registered).mp member with
      ⟨un, _, _, _, rfl⟩ | ⟨func, registers, rfl⟩
    · rw [noKey] at isField
      cases isField
    · exact ⟨func, registers, isField⟩
  · rintro ⟨func, registers, isField⟩
    exact ⟨_, (mem_stageConfig_fields ctx body _).mpr (Or.inr ⟨func, registers, rfl⟩), isField⟩

/-- Every plain field of a stage comes from a registered function. -/
theorem mem_plainFields {ctx : Context} {body : AggregatorBody} {field : PlainField} :
    field ∈ (stageConfig ctx body).fields.filterMap plainOf? ↔
      ∃ func, Registers ctx body func ∧ func.funcName ≠ .countDistinct ∧
        plainOf? (functionField func) = some field := by
  rw [mem_filterMap_stageConfig fun un => by simp [plainOf?, keyField]]
  refine exists_congr fun func => and_congr_right fun _ => (and_iff_right_of_imp ?_).symm
  intro isField counts
  simp [plainOf?, functionField, counts, functionCode] at isField

/-- Every counter of a stage comes from a registered function. -/
theorem mem_ptrFields {ctx : Context} {body : AggregatorBody} {field : PtrField} :
    field ∈ (stageConfig ctx body).fields.filterMap ptrOf? ↔
      ∃ func, Registers ctx body func ∧ func.funcName = .countDistinct ∧
        ptrOf? (functionField func) = some field := by
  rw [mem_filterMap_stageConfig fun un => by simp [ptrOf?, keyField]]
  refine exists_congr fun func => and_congr_right fun _ => (and_iff_right_of_imp ?_).symm
  intro isField
  by_contra plain
  have code : functionCode func.funcName ≠ .countDistinct := fun same =>
    plain (functionCode_injective (same.trans rfl))
  simp [ptrOf?, functionField, code] at isField

/-- A stage completes its records when a function that is completed is registered. -/
theorem any_averages {ctx : Context} {body : AggregatorBody} :
    (stageConfig ctx body).fields.any averages = true ↔
      ∃ func, Registers ctx body func ∧ Completed func.funcName := by
  have completed : ∀ func, averages (functionField func) = true ↔ Completed func.funcName := by
    intro func
    obtain ⟨funcName, param⟩ := func
    cases funcName <;> simp [averages, functionField, functionCode, Completed]
  rw [List.any_eq_true]
  constructor
  · rintro ⟨field, member, isAverage⟩
    rcases (mem_stageConfig_fields ctx body field).mp member with
      ⟨un, _, _, _, rfl⟩ | ⟨func, registers, rfl⟩
    · simp [averages, keyField] at isAverage
    · exact ⟨func, registers, (completed func).mp isAverage⟩
  · rintro ⟨func, registers, isCompleted⟩
    exact ⟨_, (mem_stageConfig_fields ctx body _).mpr (Or.inr ⟨func, registers, rfl⟩),
      (completed func).mpr isCompleted⟩

/-- The pointers to complete a plain field are there for averages and rates of unsigned fields. -/
theorem completes_iff {func : AggrFuncWithParamS} {field : PlainField}
    (plain : func.funcName ≠ .countDistinct)
    (isField : plainOf? (functionField func) = some field) :
    (field.avgField.isSome ∨ field.rateField.isSome) ↔
      Completed func.funcName ∧ (unirecType func.param).isUInt := by
  rw [plainOf?_functionField plain] at isField
  obtain rfl := Option.some.inj isField
  obtain ⟨funcName, param⟩ := func
  cases isUInt : (unirecType param).isUInt <;> cases funcName <;>
    simp [getAvgPtr, Completed, isUInt]

theorem countable_iff (type : FieldType) : type.countable = true ↔ type ≠ .time := by
  cases type <;> decide

/-- No run of the aggregator of a stage calls a NULL pointer exactly when its functions are
supported. -/
theorem not_callsNull_iff {unirec : Libunirec} {ctx : Context} {body : AggregatorBody} {now : Int}
    {once : Bool} {agg : Agg}
    (initial : Agg.init unirec (stageConfig ctx body) now once false = some agg) :
    ¬ agg.CallsNull ↔ Supported ctx body := by
  rw [init_eq (known_stageConfig ctx body)] at initial
  obtain rfl := Option.some.inj initial
  constructor
  · intro never
    have counters : ∀ func, Registers ctx body func → func.funcName = .countDistinct →
        unirecType func.param ≠ .time := by
      intro func registers counts isTime
      have isField := ptrOf?_functionField counts
      refine never (callsNull_of_counter rfl rfl
        (mem_ptrFields.mpr ⟨func, registers, counts, isField⟩) ?_ fun _ => 0)
      simp [getAllocPtr, isTime, countable_iff]
    refine ⟨counters, fun func registers completed other registersOther plain => ?_⟩
    have isField := plainOf?_functionField plain
    by_contra unsupported
    have noPtr := mt (completes_iff plain isField).mp unsupported
    simp only [not_or, Bool.not_eq_true, Option.isSome_eq_false_iff, Option.isNone_iff_eq_none]
      at noPtr
    have isAveraged := any_averages.mpr ⟨func, registers, completed⟩
    refine never (callsNull_of_plain rfl rfl ?_ (by simp [isAveraged]) isAveraged ?_ ?_
      (mem_plainFields.mpr ⟨other, registersOther, plain, isField⟩) noPtr.1 noPtr.2 fun _ => 0)
    · intro counter isCounter
      obtain ⟨source, registersSource, counts, isSource⟩ := mem_ptrFields.mp isCounter
      rw [ptrOf?_functionField counts] at isSource
      obtain rfl := Option.some.inj isSource
      simp [getAllocPtr, countable_iff, counters source registersSource counts]
    · intro field isPlain
      obtain ⟨source, _, plainSource, isSource⟩ := mem_plainFields.mp isPlain
      rw [plainOf?_functionField plainSource] at isSource
      obtain rfl := Option.some.inj isSource
      simp
    · intro field isPlain
      obtain ⟨source, _, plainSource, isSource⟩ := mem_plainFields.mp isPlain
      rw [plainOf?_functionField plainSource] at isSource
      obtain rfl := Option.some.inj isSource
      by_cases rate : source.funcName = .rate <;>
        cases isUInt : (unirecType source.param).isUInt <;> simp [getAvgPtr, rate, isUInt]
  · intro supported
    refine NullFree.not_callsNull ⟨fun counter isCounter => ?_, fun averaged field isPlain => ?_⟩
    · obtain ⟨source, registers, counts, isSource⟩ := mem_ptrFields.mp isCounter
      rw [ptrOf?_functionField counts] at isSource
      obtain rfl := Option.some.inj isSource
      have countable := (countable_iff _).mpr (supported.counters source registers counts)
      simp [getAllocPtr, getFinalMakePtr, getDeallocPtr, countable]
    · obtain ⟨func, registers, completed⟩ := any_averages.mp averaged
      obtain ⟨source, registersSource, plain, isSource⟩ := mem_plainFields.mp isPlain
      exact (completes_iff plain isSource).mpr
        (supported.averages func registers completed source registersSource plain)

/-- After `Builder` no run of an aggregator calls a NULL pointer exactly when its registered
functions are supported. -/
theorem null_call_iff {ast : MainBranches} {data : InterRepr} (accepted : Accepted ast data)
    {number : Nat} {root : BuilderVec} (built : buildRoot data number = .ok root) :
    aggOptionsOf root = (aggregatorsOf ast.occurrences).map (fun occ => aggOptions occ.1 occ.2) ∧
      ∀ occ ∈ aggregatorsOf ast.occurrences, ∀ config,
        Config.ofOptions (aggOptions occ.1 occ.2) = .ok config → ∀ unirec now once agg,
          Agg.init unirec config now once false = some agg →
            (¬ agg.CallsNull ↔ Supported occ.1 occ.2) := by
  refine ⟨aggOptionsOf_root accepted.run built, fun occ _ config read _ _ _ _ initial => ?_⟩
  obtain ⟨_, rfl⟩ := ofOptions_eq_stageConfig read
  exact not_callsNull_iff initial

/-- `main { aggregator: v = SUM(PACKETS), w = AVG(BYTES); selector: v, w; }`. -/
def sumAndAverage : MainBranches where
  first := .mk .main (.stage (.aggregator
    { body :=
        { first := ⟨.v, .withParam ⟨.sum, .packets⟩⟩
          rest := [⟨.w, .withParam ⟨.average, .bytes⟩⟩] }
      succ := .stage (.selector
        ⟨⟨.name "v".toList, none⟩, [⟨.name "w".toList, none⟩]⟩) }))
  rest := .nil

theorem sumAndAverage_accepted : ∃ data, Accepted sumAndAverage data := by
  obtain ⟨data, accepted, _⟩ :=
    accepted_of_accepts sumAndAverage (fun _ => true) (by decide +kernel)
  exact ⟨data, accepted⟩

theorem null_call_iff_sumAndAverage :
    ∃ data root, Accepted sumAndAverage data ∧ buildRoot data 0 = .ok root ∧
      ∃ occ ∈ aggregatorsOf sumAndAverage.occurrences, ∃ config agg,
        Config.ofOptions (aggOptions occ.1 occ.2) = .ok config ∧
          Agg.init .plain config 0 true false = some agg ∧
            (¬ agg.CallsNull ↔ Supported occ.1 occ.2) := by
  obtain ⟨data, accepted⟩ := sumAndAverage_accepted
  have built := buildRoot_of_run accepted.run 0
  refine ⟨data, _, accepted, built, _, List.mem_cons_self, _, _,
    (ofOptions_aggOptions _ _).trans (if_pos (by decide)),
    init_eq (known_stageConfig _ _) 0 true false, ?_⟩
  exact (null_call_iff accepted built).2 _ List.mem_cons_self _
    ((ofOptions_aggOptions _ _).trans (if_pos (by decide))) .plain 0 true _
    (init_eq (known_stageConfig _ _) 0 true false)

/-- The sum next to an average has no function to complete it. -/
theorem sumAndAverage_callsNull :
    ∃ data root, Accepted sumAndAverage data ∧ buildRoot data 0 = .ok root ∧
      ∃ occ ∈ aggregatorsOf sumAndAverage.occurrences, ∃ config agg,
        Config.ofOptions (aggOptions occ.1 occ.2) = .ok config ∧
          Agg.init .plain config 0 true false = some agg ∧ agg.CallsNull := by
  obtain ⟨data, accepted⟩ := sumAndAverage_accepted
  refine ⟨data, _, accepted, buildRoot_of_run accepted.run 0, _, List.mem_cons_self, _, _,
    (ofOptions_aggOptions _ _).trans (if_pos (by decide)),
    init_eq (known_stageConfig _ _) 0 true false, ?_⟩
  by_contra never
  have supported := (not_callsNull_iff (init_eq (known_stageConfig _ _) 0 true false)).mp never
  have average := supported.averages ⟨.average, .bytes⟩ ⟨by decide, by decide, by decide⟩
    (Or.inl rfl) ⟨.sum, .packets⟩ ⟨by decide, by decide, by decide⟩ (by decide)
  rcases average.1 with isAverage | isRate
  · cases isAverage
  · cases isRate

end Policer.Aggregator
