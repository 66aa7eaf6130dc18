import Policer.Aggregator.Template

/-!
# What a stored record says about its group

`Aggregates` gives the functions of an aggregator their meaning over all values that
arrived, without an order of evaluation. `Summarizes` is the relation between a group of
records and the one record that stands for it; `init_record_data` establishes it and
`process_agg_functions` extends it by one record.
-/

namespace Policer.Aggregator

open Policer.Lib Policer.Parsing

/-! ### Functions over all values -/

/-- The functions whose value is complete in the stored record. -/
def IsFold : FunctionCode → Bool
  | .sum | .min | .max | .first | .last | .bitOr | .bitAnd => true
  | .key | .avg | .rate | .countDistinct => false

/-- What a function makes of values in the order of arrival. -/
def Aggregates {w : Nat} : FunctionCode → List (BitVec w) → BitVec w → Prop
  | .sum, values, out => out = BitVec.ofNat w (values.map BitVec.toNat).sum
  | .min, values, out => out ∈ values ∧ ∀ value ∈ values, out ≤ value
  | .max, values, out => out ∈ values ∧ ∀ value ∈ values, value ≤ out
  | .first, values, out => values.head? = some out
  | .last, values, out => values.getLast? = some out
  | .bitOr, values, out => ∀ index, out.getLsbD index = values.any (·.getLsbD index)
  | .bitAnd, values, out => ∀ index, out.getLsbD index = values.all (·.getLsbD index)
  | _, _, _ => False

/-- The number a function makes of a stored and a new one. -/
def combine {w : Nat} : FunctionCode → BitVec w → BitVec w → BitVec w
  | .sum, src, dst | .avg, src, dst | .rate, src, dst => dst + src
  | .min, src, dst => if src < dst then src else dst
  | .max, src, dst => if dst < src then src else dst
  | .last, src, _ => src
  | .bitOr, src, dst => dst ||| src
  | .bitAnd, src, dst => dst &&& src
  | .key, _, dst | .first, _, dst | .countDistinct, _, dst => dst

/-- On numbers the function of a field does not depend on the library. -/
theorem apply_of_isUInt {w : Nat} (code : FunctionCode) {type : FieldType} (isUInt : type.isUInt)
    (unirec : Libunirec) (src dst : BitVec w) :
    (getFunctionPtr code type).apply unirec src dst = combine code src dst := by
  cases type <;> first | (cases code <;> rfl) | cases isUInt

/-- The first value is kept as it is. -/
theorem aggregates_singleton {w : Nat} {code : FunctionCode} (fold : IsFold code)
    (value : BitVec w) : Aggregates code [value] value := by
  cases code with
  | min => exact ⟨List.mem_singleton_self _, by simp⟩
  | max => exact ⟨List.mem_singleton_self _, by simp⟩
  | key | avg | rate | countDistinct => cases fold
  | _ => simp [Aggregates]

/-- One more value is combined with what is stored. -/
theorem Aggregates.append {w : Nat} {code : FunctionCode} {values : List (BitVec w)}
    {dst : BitVec w} (stored : Aggregates code values dst) (src : BitVec w) :
    Aggregates code (values ++ [src]) (combine code src dst) := by
  cases code with
  | sum =>
      simp only [Aggregates] at stored
      simp [Aggregates, combine, stored, BitVec.ofNat_add]
  | min =>
      obtain ⟨member, least⟩ := stored
      by_cases smaller : src < dst
      · have value : combine .min src dst = src := if_pos smaller
        rw [value]
        refine ⟨by simp, fun other isOther => ?_⟩
        rcases List.mem_append.mp isOther with before | new
        · exact BitVec.le_trans (BitVec.le_of_lt smaller) (least other before)
        · rw [List.mem_singleton.mp new]
          exact BitVec.le_refl _
      · have value : combine .min src dst = dst := if_neg smaller
        rw [value]
        refine ⟨List.mem_append_left _ member, fun other isOther => ?_⟩
        rcases List.mem_append.mp isOther with before | new
        · exact least other before
        · rw [List.mem_singleton.mp new]
          exact BitVec.not_lt.mp smaller
  | max =>
      obtain ⟨member, greatest⟩ := stored
      by_cases larger : dst < src
      · have value : combine .max src dst = src := if_pos larger
        rw [value]
        refine ⟨by simp, fun other isOther => ?_⟩
        rcases List.mem_append.mp isOther with before | new
        · exact BitVec.le_trans (greatest other before) (BitVec.le_of_lt larger)
        · rw [List.mem_singleton.mp new]
          exact BitVec.le_refl _
      · have value : combine .max src dst = dst := if_neg larger
        rw [value]
        refine ⟨List.mem_append_left _ member, fun other isOther => ?_⟩
        rcases List.mem_append.mp isOther with before | new
        · exact greatest other before
        · rw [List.mem_singleton.mp new]
          exact BitVec.not_lt.mp larger
  | first =>
      have kept : combine .first src dst = dst := rfl
      rw [kept]
      simp only [Aggregates] at stored ⊢
      rw [List.head?_append, stored, Option.some_or]
  | last => simp [Aggregates, combine]
  | bitOr =>
      intro index
      simp [combine, stored index]
  | bitAnd =>
      intro index
      simp [combine, stored index]
  | key | avg | rate | countDistinct => exact stored.elim

/-- A fresh record has the values of the record it is made of. -/
theorem copied_record {template : List Field} {field : Field} (inTemplate : field ∈ template)
    (other : field ≠ .count) (src dst : Record) :
    ((urCopyFields template dst src).set .count 1) field = src field := by
  rw [Record.set_other other, urCopyFields, if_pos inTemplate]

/-! ### Aggregators of folds -/

/-- The fields of an aggregator that folds: each with its function, in the order of the
arrays of `OutputTemplate`. -/
structure Folding (agg : Agg) (folds : List (Field × FunctionCode)) : Prop where
  fields : agg.outputTemp.fields = folds.map fun fold =>
    ⟨fold.1, getFunctionPtr fold.2 fold.1.type, none, none⟩
  noCounters : agg.outputTemp.fieldsLikePtr = []
  noPostprocessing : agg.outputTemp.prepareToSend = false
  statics : staticIds ⊆ agg.outputTemp.outTmplt
  inTemplate : ∀ fold ∈ folds, fold.1 ∈ agg.outputTemp.outTmplt
  distinct : (folds.map Prod.fst).Nodup
  isFold : ∀ fold ∈ folds, IsFold fold.2
  isUInt : ∀ fold ∈ folds, fold.1.type.isUInt
  notCount : ∀ fold ∈ folds, fold.1 ≠ .count

/-- `out` stands for the records of `group`. -/
structure Summarizes (folds : List (Field × FunctionCode)) (group : List Record) (out : Record) :
    Prop where
  count : out.count = BitVec.ofNat 32 group.length
  timeFirst : Aggregates .min (group.map Record.timeFirst) out.timeFirst
  timeLast : Aggregates .max (group.map Record.timeLast) out.timeLast
  fields : ∀ fold ∈ folds, Aggregates fold.2 (group.map fun record => record fold.1) (out fold.1)

namespace Folding

variable {agg : Agg} {folds : List (Field × FunctionCode)}

/-- A folded field is no static one. -/
theorem notStatic (folding : Folding agg folds) {fold : Field × FunctionCode}
    (member : fold ∈ folds) : fold.1 ∉ staticIds := by
  intro static
  have isUInt := folding.isUInt fold member
  simp only [staticIds, List.mem_cons, List.not_mem_nil, or_false] at static
  rcases static with isFirst | isLast | isCount
  · rw [isFirst] at isUInt
    cases isUInt
  · rw [isLast] at isUInt
    cases isUInt
  · exact folding.notCount fold member isCount

/-- One function after the other on the stored record. -/
def foldFields (folds : List (Field × FunctionCode)) (src dst : Record) : Record :=
  folds.foldl (fun dst fold => dst.set fold.1 (combine fold.2 (src fold.1) (dst fold.1))) dst

theorem processFields_eq (folding : Folding agg folds) (src dst : Record) :
    agg.processFields src dst = foldFields folds src dst := by
  have run : ∀ (items : List (Field × FunctionCode)) (dst : Record),
      (∀ fold ∈ items, fold ∈ folds) →
        (items.map fun fold =>
          (⟨fold.1, getFunctionPtr fold.2 fold.1.type, none, none⟩ : PlainField)).foldl
            (fun dst field =>
              dst.set field.record
                (field.process.apply agg.outputTemp.unirec (src field.record) (dst field.record)))
            dst = foldFields items src dst := by
    intro items dst inside
    induction items generalizing dst with
    | nil => rfl
    | cons head tail ih =>
        rw [List.map_cons, List.foldl_cons, ih _ fun fold member =>
          inside fold (List.mem_cons_of_mem _ member)]
        simp only [apply_of_isUInt head.2 (folding.isUInt head (inside head (by simp)))]
        rfl
  rw [Agg.processFields, folding.fields]
  exact run folds dst fun _ member => member

theorem foldFields_other {items : List (Field × FunctionCode)} {field : Field}
    (other : field ∉ items.map Prod.fst) (src dst : Record) :
    foldFields items src dst field = dst field :=
  Record.setAll_other Prod.fst (fun fold => combine fold.2 (src fold.1)) other dst

theorem foldFields_of_mem {items : List (Field × FunctionCode)}
    (distinct : (items.map Prod.fst).Nodup) {fold : Field × FunctionCode} (member : fold ∈ items)
    (src dst : Record) :
    foldFields items src dst fold.1 = combine fold.2 (src fold.1) (dst fold.1) :=
  Record.setAll_of_mem Prod.fst (fun fold => combine fold.2 (src fold.1)) distinct member dst

/-! ### A group of one record -/

theorem initRecordData_eq (folding : Folding agg folds) (src dst : Record) :
    agg.initRecordData src dst =
      .ok ⟨(urCopyFields agg.outputTemp.outTmplt dst src).set .count 1, []⟩ := by
  simp only [Agg.initRecordData, Agg.initPtrField, folding.noCounters, List.mapM_nil]
  rfl

theorem summarizes_init (folding : Folding agg folds) (src dst : Record) :
    Summarizes folds [src] ((urCopyFields agg.outputTemp.outTmplt dst src).set .count 1) := by
  refine ⟨Record.set_same .., ?_, ?_, fun fold member => ?_⟩
  · rw [Record.timeFirst, copied_record (folding.statics (by simp [staticIds])) (by simp)]
    exact aggregates_singleton rfl _
  · rw [Record.timeLast, copied_record (folding.statics (by simp [staticIds])) (by simp)]
    exact aggregates_singleton rfl _
  · rw [copied_record (folding.inTemplate fold member) (folding.notCount fold member)]
    exact aggregates_singleton (folding.isFold fold member) _

/-! ### One more record -/

theorem increaseCount_other {field : Field} (other : field ≠ .count) (dst : Record) :
    Agg.increaseCount dst field = dst field := Record.set_other other dst _

theorem takeTimeFirst_other {field : Field} (other : field ≠ .unirec .timeFirst)
    (src dst : Record) : Agg.takeTimeFirst src dst field = dst field := by
  unfold Agg.takeTimeFirst
  split
  · exact Record.set_other other ..
  · rfl

theorem takeTimeLast_other {field : Field} (other : field ≠ .unirec .timeLast)
    (src dst : Record) : Agg.takeTimeLast src dst field = dst field := by
  unfold Agg.takeTimeLast
  split
  · exact Record.set_other other ..
  · rfl

theorem takeTimeFirst_timeFirst (src dst : Record) :
    (Agg.takeTimeFirst src dst).timeFirst = combine .min src.timeFirst dst.timeFirst := by
  change _ = if src.timeFirst < dst.timeFirst then src.timeFirst else dst.timeFirst
  unfold Agg.takeTimeFirst
  split
  · exact Record.set_same ..
  · rfl

theorem takeTimeLast_timeLast (src dst : Record) :
    (Agg.takeTimeLast src dst).timeLast = combine .max src.timeLast dst.timeLast := by
  change _ = if dst.timeLast < src.timeLast then src.timeLast else dst.timeLast
  unfold Agg.takeTimeLast
  split
  · exact Record.set_same ..
  · rfl

/-- The record with the static fields updated. -/
def updateStatics (src dst : Record) : Record :=
  Agg.takeTimeLast src (Agg.takeTimeFirst src (Agg.increaseCount dst))

theorem updateStatics_count (src dst : Record) :
    (updateStatics src dst).count = dst.count + 1 := by
  have last := takeTimeLast_other (show Field.count ≠ .unirec .timeLast by simp) src
    (Agg.takeTimeFirst src (Agg.increaseCount dst))
  have first := takeTimeFirst_other (show Field.count ≠ .unirec .timeFirst by simp) src
    (Agg.increaseCount dst)
  exact last.trans (first.trans (Record.set_same ..))

theorem updateStatics_timeFirst (src dst : Record) :
    (updateStatics src dst).timeFirst = combine .min src.timeFirst dst.timeFirst := by
  have last := takeTimeLast_other (show Field.unirec .timeFirst ≠ .unirec .timeLast by simp) src
    (Agg.takeTimeFirst src (Agg.increaseCount dst))
  have counted : (Agg.increaseCount dst).timeFirst = dst.timeFirst :=
    increaseCount_other (by simp) dst
  exact last.trans ((takeTimeFirst_timeFirst src _).trans (by rw [counted]))

theorem updateStatics_timeLast (src dst : Record) :
    (updateStatics src dst).timeLast = combine .max src.timeLast dst.timeLast := by
  have first := takeTimeFirst_other (show Field.unirec .timeLast ≠ .unirec .timeFirst by simp) src
    (Agg.increaseCount dst)
  have counted : (Agg.increaseCount dst).timeLast = dst.timeLast :=
    increaseCount_other (by simp) dst
  have same : (Agg.takeTimeFirst src (Agg.increaseCount dst)).timeLast = dst.timeLast :=
    first.trans counted
  exact (takeTimeLast_timeLast src _).trans (by rw [same])

theorem updateStatics_other {field : Field} (other : field ∉ staticIds) (src dst : Record) :
    updateStatics src dst field = dst field := by
  simp only [staticIds, List.mem_cons, List.not_mem_nil, or_false, not_or] at other
  unfold updateStatics
  rw [takeTimeLast_other other.2.1, takeTimeFirst_other other.1, increaseCount_other other.2.2]

/-- A record that is merged makes the stored one stand for a longer group. -/
theorem summarizes_append (folding : Folding agg folds) {group : List Record} {dst : Stored}
    (stored : Summarizes folds group dst.record) (src : Record) :
    Summarizes folds (group ++ [src]) (agg.processAggFunctions src dst).record := by
  have same : (agg.processAggFunctions src dst).record =
      foldFields folds src (updateStatics src dst.record) := folding.processFields_eq src _
  have static : ∀ field ∈ staticIds,
      foldFields folds src (updateStatics src dst.record) field =
        updateStatics src dst.record field := by
    intro field isStatic
    refine foldFields_other ?_ src _
    intro member
    obtain ⟨fold, inFolds, rfl⟩ := List.mem_map.mp member
    exact folding.notStatic inFolds isStatic
  rw [same]
  refine ⟨?_, ?_, ?_, fun fold member => ?_⟩
  · have value := (static .count (by simp [staticIds])).trans (updateStatics_count src dst.record)
    refine value.trans ?_
    rw [stored.count, List.length_append, List.length_singleton, BitVec.ofNat_add]
    rfl
  · have value : (foldFields folds src (updateStatics src dst.record)).timeFirst = _ :=
      (static (.unirec .timeFirst) (by simp [staticIds])).trans
        (updateStatics_timeFirst src dst.record)
    rw [value, List.map_append]
    exact stored.timeFirst.append src.timeFirst
  · have value : (foldFields folds src (updateStatics src dst.record)).timeLast = _ :=
      (static (.unirec .timeLast) (by simp [staticIds])).trans
        (updateStatics_timeLast src dst.record)
    rw [value, List.map_append]
    exact stored.timeLast.append src.timeLast
  · rw [foldFields_of_mem folding.distinct member, updateStatics_other (folding.notStatic member),
      List.map_append]
    exact (stored.fields fold member).append (src fold.1)

theorem sendRecordOut_eq (folding : Folding agg folds) (stored : Stored) :
    agg.sendRecordOut stored = .ok stored.record := by
  simp [Agg.sendRecordOut, folding.noPostprocessing]

end Folding

end Policer.Aggregator
