import Policer.Aggregator.NullPointer
import Policer.Aggregator.Runs
import Policer.Lib.WrappedSum

/-!
# Averages and rates

The sum behind `AVG` and `RATE` is kept in the width of the field, and the number of records
in 32 bits. `completed_exact_iff` says when the quotient that is sent is the exact one.
-/

namespace Policer.Aggregator

open Policer.Lib Policer.Parsing Policer.Backend

/-! ### The aggregator of a stage -/

/-- The output template of the aggregator of a stage. -/
structure OfStage (ctx : Context) (body : AggregatorBody) (agg : Agg) : Prop where
  fields : agg.outputTemp.fields = (stageConfig ctx body).fields.filterMap plainOf?
  fieldsLikePtr : agg.outputTemp.fieldsLikePtr = (stageConfig ctx body).fields.filterMap ptrOf?
  outTmplt : agg.outputTemp.outTmplt = configIds (stageConfig ctx body) ++ staticIds
  prepareToSend : agg.outputTemp.prepareToSend =
    ((stageConfig ctx body).fields.any averages ||
      (stageConfig ctx body).fields.any fun field => field.function = .countDistinct)
  avgPostprocessing : agg.outputTemp.avgPostprocessing = (stageConfig ctx body).fields.any averages

theorem ofStage_of_init {unirec : Libunirec} {ctx : Context} {body : AggregatorBody} {now : Int}
    {once stop : Bool} {agg : Agg}
    (initial : Agg.init unirec (stageConfig ctx body) now once stop = some agg) :
    OfStage ctx body agg := by
  have made := ofConfig_of_init initial
  exact ⟨made.fields, made.fieldsLikePtr, made.outTmplt, made.prepareToSend,
    made.avgPostprocessing⟩

namespace OfStage

variable {ctx : Context} {body : AggregatorBody} {agg : Agg}

theorem ofConfig (stage : OfStage ctx body agg) : OfConfig (stageConfig ctx body) agg :=
  ⟨stage.fields, stage.fieldsLikePtr, stage.outTmplt, stage.prepareToSend,
    stage.avgPostprocessing⟩

/-- A plain field is that of a registered function. -/
theorem plain (stage : OfStage ctx body agg) {field : PlainField}
    (member : field ∈ agg.outputTemp.fields) :
    ∃ func, Registers ctx body func ∧ func.funcName ≠ .countDistinct ∧
      field.record = .unirec func.param := by
  rw [stage.fields] at member
  obtain ⟨func, registers, noCount, isField⟩ := mem_plainFields.mp member
  rw [plainOf?_functionField noCount] at isField
  obtain rfl := Option.some.inj isField
  exact ⟨func, registers, noCount, rfl⟩

/-- No plain field is a static one. -/
theorem notStatic (stage : OfStage ctx body agg) {field : PlainField}
    (member : field ∈ agg.outputTemp.fields) : field.record ∉ staticIds := by
  obtain ⟨func, registers, noCount, isParam⟩ := stage.plain member
  have noTime := registers.noTime
  rw [outputField, if_neg noCount] at noTime
  rw [isParam]
  simp only [staticIds, List.mem_cons, List.not_mem_nil, or_false, not_or]
  exact ⟨noTime.2, noTime.1, by simp⟩

theorem static_notPlain (stage : OfStage ctx body agg) {field : Field}
    (static : field ∈ staticIds) : field ∉ agg.outputTemp.fields.map PlainField.record := by
  intro member
  obtain ⟨plain, isPlain, rfl⟩ := List.mem_map.mp member
  exact stage.notStatic isPlain static

end OfStage

/-! ### What is stored for a window -/

/-- The values of a field. -/
def valuesOf (field : Field) (group : List Record) : List Nat :=
  group.map fun record => (record field).toNat

/-- The sum of the values of a field. -/
def total (field : Field) (group : List Record) : Nat := (valuesOf field group).sum

/-- The stored record counts the records of the window, has their first and their last time, and
the wrapped sums of the fields that will be divided. -/
structure Totals (agg : Agg) (group : List Record) (out : Record) : Prop where
  count : out.count = BitVec.ofNat 32 group.length
  timeFirst : Aggregates .min (group.map Record.timeFirst) out.timeFirst
  timeLast : Aggregates .max (group.map Record.timeLast) out.timeLast
  sums : ∀ field ∈ agg.outputTemp.fields, field.process = .avg ∨ field.process = .rate →
    out field.record = BitVec.ofNat _ (total field.record group)

section Stands

variable {ctx : Context} {body : AggregatorBody} {agg : Agg} {group : List Record}
  {stored : Stored}

/-- A field that will be divided has the wrapped sum of its values. -/
theorem OfStage.sum (stage : OfStage ctx body agg) (stands : agg.StandsFor group stored)
    {field : PlainField} (member : field ∈ agg.outputTemp.fields)
    (divided : field.process = .avg ∨ field.process = .rate) :
    stored.record field.record = BitVec.ofNat _ (total field.record group) := by
  have noStatic := stage.notStatic member
  induction stands with
  | @first inRec dst fresh made =>
      obtain ⟨vectors, _, rfl⟩ := map_ok.mp made
      have noCount : field.record ≠ .count := fun same =>
        noStatic (same ▸ by simp [staticIds])
      refine (copied_record (stage.ofConfig.inTemplate member) noCount inRec dst).trans ?_
      simp [total, valuesOf]
  | @next group stored _ inRec ih =>
      have adds : ∀ src dst : Value field.record,
          field.process.apply agg.outputTemp.unirec src dst = dst + src := by
        intro src dst
        rcases divided with isAvg | isRate
        · rw [isAvg]
          rfl
        · rw [isRate]
          rfl
      refine (stage.ofConfig.processFields_of_mem member inRec _).trans ?_
      rw [adds]
      refine (congrArg (· + inRec field.record)
        (Folding.updateStatics_other noStatic inRec stored.record)).trans ?_
      rw [ih, total, total, valuesOf, valuesOf, List.map_append, List.sum_append,
        BitVec.ofNat_add]
      simp

theorem OfStage.totals (stage : OfStage ctx body agg) (stands : agg.StandsFor group stored) :
    Totals agg group stored.record where
  count := stands.count (stage.static_notPlain (by simp [staticIds]))
  timeFirst := stage.ofConfig.timeFirst stands
  timeLast := stage.ofConfig.timeLast stands
  sums _ member divided := stage.sum stands member divided

end Stands

/-! ### What is sent for a window -/

/-- The value `prepare_to_send` writes into a plain field. -/
def Agg.completed (unirec : Libunirec) (storedRec : Record) (field : PlainField) :
    Except Fault (Value field.record) :=
  match field.avgField, field.rateField with
  | some func, _ => func.apply (storedRec field.record) storedRec.count
  | none, some func => func.apply (storedRec field.record)
      (BitVec.ofNat 32 (unirec.urTimediff storedRec.timeLast storedRec.timeFirst / 1000))
  | none, none => .error .nullFunction

theorem postprocess_eq (unirec : Libunirec) (storedRec : Record) (field : PlainField) :
    Agg.postprocess unirec storedRec field =
      (Agg.completed unirec storedRec field).map (storedRec.set field.record) := by
  obtain ⟨_, _, avgField, rateField⟩ := field
  cases avgField <;> cases rateField <;> rfl

/-- Other fields of the record do not matter. -/
theorem completed_congr {unirec : Libunirec} {first second : Record} {field : PlainField}
    (value : first field.record = second field.record)
    (statics : ∀ other ∈ staticIds, first other = second other) :
    Agg.completed unirec first field = Agg.completed unirec second field := by
  have count : first.count = second.count := statics .count (by simp [staticIds])
  have timeFirst : first.timeFirst = second.timeFirst := statics _ (by simp [staticIds])
  have timeLast : first.timeLast = second.timeLast := statics _ (by simp [staticIds])
  rw [Agg.completed, Agg.completed, value, count, timeFirst, timeLast]

/-- After the first loop of `prepare_to_send` each plain field has its completed value. -/
theorem postprocess_loop {unirec : Libunirec} {fields : List PlainField}
    (distinct : (fields.map PlainField.record).Nodup)
    (notStatic : ∀ field ∈ fields, field.record ∉ staticIds) {record out : Record}
    (made : fields.foldlM (Agg.postprocess unirec) record = .ok out) :
    (∀ field, field ∉ fields.map PlainField.record → out field = record field) ∧
      ∀ field ∈ fields, Agg.completed unirec record field = .ok (out field.record) := by
  induction fields generalizing record with
  | nil =>
      cases made
      exact ⟨fun _ _ => rfl, fun field member => by cases member⟩
  | cons head tail ih =>
      obtain ⟨fresh, distinct⟩ := List.nodup_cons.mp distinct
      rw [List.foldlM_cons] at made
      obtain ⟨middle, first, rest⟩ := bind_ok.mp made
      rw [postprocess_eq] at first
      obtain ⟨value, isValue, rfl⟩ := map_ok.mp first
      obtain ⟨others, completes⟩ := ih distinct
        (fun field member => notStatic field (List.mem_cons_of_mem _ member)) rest
      refine ⟨fun field outside => ?_, fun field member => ?_⟩
      · simp only [List.map_cons, List.mem_cons, not_or] at outside
        rw [others field outside.2, Record.set_other outside.1]
      · rcases List.mem_cons.mp member with rfl | later
        · rw [isValue, others _ fresh, Record.set_same]
        · rw [← completes field later]
          have different : field.record ≠ head.record := fun same =>
            fresh (same ▸ List.mem_map_of_mem later)
          refine completed_congr (Record.set_other different ..).symm fun static isStatic => ?_
          refine (Record.set_other (fun same => ?_) ..).symm
          exact notStatic head List.mem_cons_self (same ▸ isStatic)

/-- A plain field of a record that is sent has its completed value. -/
theorem OfStage.completed_of_sent {ctx : Context} {body : AggregatorBody} {agg : Agg}
    (stage : OfStage ctx body agg) (averaged : agg.outputTemp.avgPostprocessing = true)
    {stored : Stored} {out : Record} (sends : agg.sendRecordOut stored = .ok out)
    {field : PlainField} (member : field ∈ agg.outputTemp.fields) :
    Agg.completed agg.outputTemp.unirec stored.record field = .ok (out field.record) := by
  have prepares : agg.outputTemp.prepareToSend = true := by
    rw [stage.prepareToSend, ← stage.avgPostprocessing, averaged, Bool.true_or]
  rw [Agg.sendRecordOut, if_pos prepares, Agg.prepareToSend, if_pos averaged] at sends
  obtain ⟨divided, first, second⟩ := bind_ok.mp sends
  have loop := postprocess_loop stage.ofConfig.distinct (fun _ => stage.notStatic) first
  have other : field.record ∉ (agg.outputTemp.fieldsLikePtr.zip stored.vectors).map
      fun counter => counter.1.record := by
    intro isCounter
    obtain ⟨counter, inCounters, same⟩ := List.mem_map.mp isCounter
    obtain ⟨func, _, _, isParam⟩ := stage.plain member
    have isPtr := (List.of_mem_zip inCounters).1
    rw [stage.fieldsLikePtr] at isPtr
    obtain ⟨counted, _, counts, isCounter⟩ := mem_ptrFields.mp isPtr
    rw [ptrOf?_functionField counts] at isCounter
    rw [isParam, ← Option.some.inj isCounter] at same
    cases same
  rw [loop.2 field member, foldlM_makeField second, Record.setAll_other _ _ other]

/-! ### Exact quotients -/

/-- The integer part of the mean of values; it lies between them. -/
structure IsAverage (values : List Nat) (out : Nat) : Prop where
  exact : out = values.sum / values.length
  least : ∃ value ∈ values, value ≤ out
  greatest : ∃ value ∈ values, out ≤ value

theorem isAverage_iff {values : List Nat} (nonempty : values ≠ []) {out : Nat} :
    IsAverage values out ↔ out = values.sum / values.length := by
  refine ⟨IsAverage.exact, ?_⟩
  rintro rfl
  refine ⟨rfl, ?_, ?_⟩
  · by_contra none
    push Not at none
    have above := le_mean nonempty fun value member => Nat.succ_le_of_lt (none value member)
    omega
  · by_contra none
    push Not at none
    have positive : 0 < values.sum / values.length := by
      obtain ⟨head, tail, rfl⟩ := List.exists_cons_of_ne_nil nonempty
      exact Nat.zero_lt_of_lt (none head List.mem_cons_self)
    have below := mean_le fun value member => Nat.le_sub_one_of_lt (none value member)
    omega

/-- What `n` values of a width and their sum must be for the average. As long as the number of
records does not wrap, the part of the sum that is cut off has to lie within the remainder. -/
def AverageKept (bits n sum : Nat) : Prop :=
  (n < 2 ^ 32 ∧ QuotientKept (2 ^ bits) n sum) ∨
    (2 ^ 32 ≤ n ∧ CutsBalance (2 ^ bits) (2 ^ 32) n sum)

theorem averageKept_iff {bits n sum : Nat} (positive : 0 < n) (divisor : n % 2 ^ 32 ≠ 0) :
    AverageKept bits n sum ↔ sum % 2 ^ bits / (n % 2 ^ 32) = sum / n := by
  rw [mod_div_mod_eq_iff (Nat.pos_of_ne_zero divisor), AverageKept]
  by_cases small : n < 2 ^ 32
  · have notLarge : ¬ 2 ^ 32 ≤ n := Nat.not_le.mpr small
    rw [cutsBalance_iff_of_lt positive small]
    simp only [small, notLarge, true_and, false_and, or_false]
  · simp only [small, false_and, false_or, Nat.not_lt.mp small, true_and]

/-- The whole seconds between two times. -/
def secondsBetween (first last : BitVec 64) : Nat :=
  (max last.toNat first.toNat - min last.toNat first.toNat) / 2 ^ 32

theorem urTimediff_div {unirec : Libunirec} (inMilliseconds : unirec.InMilliseconds)
    (first last : BitVec 64) : unirec.urTimediff last first / 1000 = secondsBetween first last := by
  rw [inMilliseconds, secondsBetween, Nat.div_div_eq_div_mul, Nat.mul_div_mul_right _ _ (by decide)]

theorem secondsBetween_lt (first last : BitVec 64) : secondsBetween first last < 2 ^ 32 := by
  unfold secondsBetween
  have bounds := first.isLt
  have bounds' := last.isLt
  omega

/-- A quotient of a wrapped sum fits into the field. -/
theorem mod_div_lt (sum bits divisor : Nat) : sum % 2 ^ bits / divisor < 2 ^ bits :=
  (Nat.div_le_self ..).trans_lt (Nat.mod_lt _ (Nat.two_pow_pos bits))

/-- The integer part of what arrived in a second. -/
def rateOf (sum seconds : Nat) : Nat := if seconds = 0 then 0 else sum / seconds

theorem Aggregates.unique_min {w : Nat} {values : List (BitVec w)} {first second : BitVec w}
    (here : Aggregates .min values first) (there : Aggregates .min values second) :
    first = second :=
  BitVec.le_antisymm (here.2 second there.1) (there.2 first here.1)

theorem Aggregates.unique_max {w : Nat} {values : List (BitVec w)} {first second : BitVec w}
    (here : Aggregates .max values first) (there : Aggregates .max values second) :
    first = second :=
  BitVec.le_antisymm (there.2 first here.1) (here.2 second there.1)

theorem Agg.StandsFor.ne_nil {agg : Agg} {group : List Record} {stored : Stored}
    (stands : agg.StandsFor group stored) : group ≠ [] := by
  cases stands <;> simp

namespace OfStage

variable {ctx : Context} {body : AggregatorBody} {agg : Agg}

/-- The plain field of a function that is completed. -/
theorem completedField (stage : OfStage ctx body agg) {func : AggrFuncWithParamS}
    (registers : Registers ctx body func) (isUInt : (unirecType func.param).isUInt)
    (completed : Completed func.funcName) :
    agg.outputTemp.avgPostprocessing = true ∧
      (⟨.unirec func.param, if func.funcName = .average then .avg else .rate,
        if func.funcName = .average then some .makeAvg else none,
        if func.funcName = .average then none else some .makeRate⟩ : PlainField) ∈
          agg.outputTemp.fields := by
  refine ⟨?_, ?_⟩
  · rw [stage.avgPostprocessing]
    exact any_averages.mpr ⟨func, registers, completed⟩
  · rw [stage.fields]
    have plain : func.funcName ≠ .countDistinct := by
      rcases completed with isAverage | isRate
      · simp [isAverage]
      · simp [isRate]
    refine mem_plainFields.mpr ⟨func, registers, plain, ?_⟩
    rw [plainOf?_functionField plain]
    obtain ⟨funcName, param⟩ := func
    rcases completed with rfl | rfl <;>
      simp [getAvgPtr, getFunctionPtr, functionCode, isUInt]

/-- What is sent for an average. -/
theorem sent_average (stage : OfStage ctx body agg) {func : AggrFuncWithParamS}
    (registers : Registers ctx body func) (isUInt : (unirecType func.param).isUInt)
    (average : func.funcName = .average) {group : List Record} {stored : Stored}
    (stands : agg.StandsFor group stored) {out : Record}
    (sends : agg.sendRecordOut stored = .ok out) :
    group.length % 2 ^ 32 ≠ 0 ∧ (out (.unirec func.param)).toNat =
      total (.unirec func.param) group % 2 ^ (unirecType func.param).bits /
        (group.length % 2 ^ 32) := by
  obtain ⟨averaged, member⟩ := stage.completedField registers isUInt (Or.inl average)
  have completes := stage.completed_of_sent averaged sends member
  have totals := stage.totals stands
  have sum := totals.sums _ member (Or.inl (if_pos average))
  simp only [Agg.completed, average, if_true, FinalAvg.apply] at completes sum
  rw [sum, totals.count] at completes
  split at completes
  · cases completes
  · rename_i counted
    have divisor : group.length % 2 ^ 32 ≠ 0 := fun none =>
      counted (BitVec.eq_of_toNat_eq (by rw [BitVec.toNat_ofNat, none]; rfl))
    refine ⟨divisor, ?_⟩
    rw [← Except.ok.inj completes, BitVec.toNat_ofNat, BitVec.toNat_ofNat, BitVec.toNat_ofNat]
    exact Nat.mod_eq_of_lt (mod_div_lt ..)

/-- What is sent for a rate. -/
theorem sent_rate (stage : OfStage ctx body agg) {func : AggrFuncWithParamS}
    (registers : Registers ctx body func) (isUInt : (unirecType func.param).isUInt)
    (rate : func.funcName = .rate) (inMilliseconds : agg.outputTemp.unirec.InMilliseconds)
    {group : List Record} {stored : Stored} (stands : agg.StandsFor group stored) {out : Record}
    (sends : agg.sendRecordOut stored = .ok out) :
    (out (.unirec func.param)).toNat =
      rateOf (total (.unirec func.param) group % 2 ^ (unirecType func.param).bits)
        (secondsBetween stored.record.timeFirst stored.record.timeLast) := by
  have noAverage : func.funcName ≠ .average := by simp [rate]
  obtain ⟨averaged, member⟩ := stage.completedField registers isUInt (Or.inr rate)
  have completes := stage.completed_of_sent averaged sends member
  have sum := (stage.totals stands).sums _ member (Or.inr (if_neg noAverage))
  simp only [Agg.completed, noAverage, if_false, FinalAvg.apply] at completes sum
  rw [sum, urTimediff_div inMilliseconds] at completes
  have small := secondsBetween_lt stored.record.timeFirst stored.record.timeLast
  generalize secondsBetween stored.record.timeFirst stored.record.timeLast = seconds
    at completes small
  have none : BitVec.ofNat 32 seconds = 0 ↔ seconds = 0 := by
    rw [← BitVec.toNat_inj, BitVec.toNat_ofNat, Nat.mod_eq_of_lt small]
    rfl
  rw [← Except.ok.inj completes, BitVec.toNat_ofNat, BitVec.toNat_ofNat, BitVec.toNat_ofNat,
    Nat.mod_eq_of_lt small, rateOf]
  simp only [none]
  refine Nat.mod_eq_of_lt ?_
  split
  · exact Nat.two_pow_pos _
  · exact mod_div_lt ..

end OfStage

/-! ### When the quotients are exact -/

theorem count_ne_zero_iff {group : List Record} {stored : Stored}
    (count : stored.record.count = BitVec.ofNat 32 group.length) :
    stored.record.count ≠ 0 ↔ group.length % 2 ^ 32 ≠ 0 := by
  rw [count, ne_eq, ← BitVec.toNat_inj, BitVec.toNat_ofNat]
  rfl

theorem rateOf_mod_iff {bits sum seconds : Nat} :
    rateOf (sum % 2 ^ bits) seconds = rateOf sum seconds ↔
      seconds = 0 ∨ QuotientKept (2 ^ bits) seconds sum := by
  unfold rateOf
  by_cases none : seconds = 0
  · simp [none]
  · rw [if_neg none, if_neg none, mod_div_eq_iff (Nat.pos_of_ne_zero none)]
    simp [none]

/-- In every run of the aggregator of a stage, what is stored and sent stands for windows of
evaluated records. The number of records that is divided by is zero when the counter has
wrapped. The average that is sent is the integer part of the mean and lies between the values,
and the rate is exact, just when the part of the sum that was cut off does not reach the next
multiple of the divisor. -/
theorem completed_exact_iff {unirec : Libunirec} (inMilliseconds : unirec.InMilliseconds)
    {ctx : Context} {body : AggregatorBody} {config : Config}
    (read : Config.ofOptions (aggOptions ctx body) = .ok config) {now : Int} {once : Bool}
    {agg : Agg} (initial : Agg.init unirec config now once false = some agg) {labels : List AggStep}
    {agg' : Agg} (run : aggSystem.Steps agg labels agg') :
    agg.FromGroups labels agg' ∧ ∀ group stored, agg.StandsFor group stored →
      (stored.record.count ≠ 0 ↔ group.length % 2 ^ 32 ≠ 0) ∧
      ∀ func, Registers ctx body func → (unirecType func.param).isUInt →
      ∀ out, agg.sendRecordOut stored = .ok out →
        (func.funcName = .average →
          (IsAverage (valuesOf (.unirec func.param) group) (out (.unirec func.param)).toNat ↔
            AverageKept (unirecType func.param).bits group.length
              (total (.unirec func.param) group))) ∧
        (func.funcName = .rate → ∀ first last,
          Aggregates .min (group.map Record.timeFirst) first →
          Aggregates .max (group.map Record.timeLast) last →
          ((out (.unirec func.param)).toNat =
              rateOf (total (.unirec func.param) group) (secondsBetween first last) ↔
            secondsBetween first last = 0 ∨
              QuotientKept (2 ^ (unirecType func.param).bits) (secondsBetween first last)
                (total (.unirec func.param) group))) := by
  obtain ⟨_, rfl⟩ := ofOptions_eq_stageConfig read
  have stage := ofStage_of_init initial
  rw [← unirec_of_init initial] at inMilliseconds
  refine ⟨fromGroups_of_run initial run, fun group stored stands => ?_⟩
  have totals := stage.totals stands
  refine ⟨count_ne_zero_iff totals.count, fun func registers isUInt out sends => ⟨?_, ?_⟩⟩
  · intro average
    obtain ⟨divisor, value⟩ := stage.sent_average registers isUInt average stands sends
    have nonempty : valuesOf (.unirec func.param) group ≠ [] := by
      simp [valuesOf, stands.ne_nil]
    rw [isAverage_iff nonempty, value, valuesOf, List.length_map,
      averageKept_iff (List.length_pos_of_ne_nil stands.ne_nil) divisor]
    rfl
  · intro rate first last isFirst isLast
    rw [stage.sent_rate registers isUInt rate inMilliseconds stands sends,
      isFirst.unique_min totals.timeFirst, isLast.unique_max totals.timeLast]
    exact rateOf_mod_iff

/-- `aggregator: v = AVG(TTL)`. -/
def averageTtl : AggregatorBody where
  first := ⟨.v, .withParam ⟨.average, .ttl⟩⟩
  rest := []

/-- The aggregator of `averageTtl`. -/
def averageTtlAgg : Agg where
  config := stageConfig .root averageTtl
  keyTemp := (stageConfig .root averageTtl).fields.filterMap keyOf?
  outputTemp :=
    { unirec := .plain
      outTmplt := configIds (stageConfig .root averageTtl) ++ staticIds
      fields := (stageConfig .root averageTtl).fields.filterMap plainOf?
      fieldsLikePtr := (stageConfig .root averageTtl).fields.filterMap ptrOf?
      prepareToSend := true
      avgPostprocessing := true }
  storage := ∅
  timeLastFromRecord := 0
  once := true
  stop := false
  sent := []

theorem averageTtlAgg_init :
    Agg.init .plain (stageConfig .root averageTtl) 0 true false = some averageTtlAgg :=
  init_eq (known_stageConfig .root averageTtl) 0 true false

/-- A record with the largest `TTL`. -/
def largestTtl : Record := Record.set (fun _ => 0) (.unirec .ttl) 255

theorem completed_exact_iff_averageTtl :
    averageTtlAgg.FromGroups [] averageTtlAgg ∧ ∀ group stored,
      averageTtlAgg.StandsFor group stored → stored.record.count ≠ 0 →
      ∀ out, averageTtlAgg.sendRecordOut stored = .ok out →
        (IsAverage (valuesOf (.unirec .ttl) group) (out (.unirec .ttl)).toNat ↔
          AverageKept 8 group.length (total (.unirec .ttl) group)) := by
  have exact := completed_exact_iff Libunirec.plain_inMilliseconds
    ((ofOptions_aggOptions .root averageTtl).trans (if_pos (by decide))) averageTtlAgg_init .refl
  refine ⟨exact.1, fun group stored stands counted out sends => ?_⟩
  have average := ((exact.2 group stored stands).2 ⟨.average, .ttl⟩
    ⟨by decide, by decide, by decide⟩ rfl out sends).1 rfl
  exact average

/-- Two records with `TTL` 255 are averaged to 127. -/
theorem averageTtl_inexact :
    Config.ofOptions (aggOptions .root averageTtl) = .ok (stageConfig .root averageTtl) ∧
    ∃ agg agg', Agg.init .plain (stageConfig .root averageTtl) 0 true false = some agg ∧
      aggSystem.Steps agg [.eval largestTtl, .eval largestTtl, .destroy] agg' ∧
      ∃ out ∈ agg'.sent,
        ¬ IsAverage (valuesOf (.unirec .ttl) [largestTtl, largestTtl])
          (out (.unirec .ttl)).toNat := by
  refine ⟨(ofOptions_aggOptions ..).trans (if_pos (by decide)), ?_⟩
  have sent : ((averageTtlAgg.eval largestTtl >>= fun agg =>
      agg.eval largestTtl >>= Agg.destroy).map
      fun agg => agg.sent.map fun out => (out (.unirec .ttl)).toNat) = .ok [127] := by
    decide +kernel
  obtain ⟨agg', ran, sent⟩ := map_ok.mp sent
  obtain ⟨first, isFirst, ran⟩ := bind_ok.mp ran
  obtain ⟨second, isSecond, isLast⟩ := bind_ok.mp ran
  refine ⟨averageTtlAgg, agg', averageTtlAgg_init, ?_, ?_⟩
  · have one : averageTtlAgg.Leads (.eval largestTtl) (.ok first) := isFirst ▸ .eval largestTtl
    have two : first.Leads (.eval largestTtl) (.ok second) := isSecond ▸ .eval largestTtl
    have three : second.Leads .destroy (.ok agg') := isLast ▸ .destroy
    exact .step (.step (.step .refl one) two) three
  · have isOut : 127 ∈ agg'.sent.map fun out => (out (.unirec .ttl)).toNat := by
      rw [sent]
      exact List.mem_cons_self
    obtain ⟨out, member, value⟩ := List.mem_map.mp isOut
    refine ⟨out, member, fun average => ?_⟩
    have exact := average.exact
    rw [value] at exact
    revert exact
    decide

end Policer.Aggregator
