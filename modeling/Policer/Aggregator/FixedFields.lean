import Policer.Aggregator.Template
import Policer.Aggregator.VariableFields
import Policer.Lib.LittleEndian
import Mathlib.Data.Fintype.Card

/-!
# Fields of a fixed length

No field of the program has a variable length. Whatever ids its fields have, the output
template of an aggregator is aligned, and `process_agg_functions` for any table leaves the
bytes of the record that it leaves in `Agg`.
-/

namespace Policer.Aggregator

open Policer.Lib

/-! ### Values and their bytes -/

theorem number_map_range (length : Nat) (memory : LittleEndian.Memory) :
    number ((List.range length).map memory) = LittleEndian.load length memory := by
  induction length generalizing memory with
  | zero => rfl
  | succ length inductionHypothesis =>
      have behind : memory ∘ Nat.succ = memory.from 1 := by
        funext i
        simp [LittleEndian.Memory.from, Nat.add_comm]
      rw [List.range_succ_eq_map, List.map_cons, List.map_map, behind, number,
        inductionHypothesis, LittleEndian.load]

theorem number_bytes {w : Nat} (whole : 8 ∣ w) (value : BitVec w) :
    number (bytes value) = value.toNat := by
  have width : w = 8 * (w / 8) := (Nat.mul_div_cancel' whole).symm
  exact (number_map_range (w / 8) _).trans (LittleEndian.load_value value width)

theorem Field.whole (field : Field) : 8 ∣ field.type.bits := by
  cases field.type <;> decide

theorem number_field (record : Record) (field : Field) :
    number (bytes (record field)) = (record field).toNat :=
  number_bytes field.whole _

/-! ### The table of the program -/

section Program

variable {size : Nat} (ids : Field ≃ Fin size)

/-- The table of the program, with some numbering of its fields. -/
def programTable : LengthTable where
  urGetSize id :=
    if inside : id < size then some ((ids.symm ⟨id, inside⟩).type.bits / 8) else none
  fCount := ids .count
  fTimeFirst := ids (.unirec .timeFirst)
  fTimeLast := ids (.unirec .timeLast)
  fixedStatics := by simp

theorem programTable_urIsFixlen {id : Nat} (inside : id < size) :
    (programTable ids).urIsFixlen id = true := by
  simp [LengthTable.urIsFixlen, programTable, inside]

/-- The bytes of a record. -/
def Record.inMemory (record : Record) : BytesRecord := fun id =>
  if inside : id < size then bytes (record (ids.symm ⟨id, inside⟩)) else []

@[simp] theorem Record.inMemory_id (record : Record) (field : Field) :
    record.inMemory ids (ids field) = bytes (record field) :=
  (dif_pos (ids field).isLt).trans
    (congrArg (fun field => bytes (record field)) (ids.symm_apply_apply field))

theorem number_inMemory (record : Record) (field : Field) :
    number (record.inMemory ids (ids field)) = (record field).toNat := by
  rw [Record.inMemory_id, number_field]

theorem Record.inMemory_set (record : Record) (field : Field) (value : Value field) :
    (record.set field value).inMemory ids =
      Function.update (record.inMemory ids) (ids field) (bytes value) := by
  funext id
  by_cases inside : id < size
  · obtain ⟨other, isOther⟩ := ids.surjective ⟨id, inside⟩
    obtain rfl : (ids other : Nat) = id := congrArg Fin.val isOther
    rw [inMemory_id]
    by_cases same : other = field
    · subst same
      rw [Record.set_same, Function.update_self]
    · have apart : (ids other : Nat) ≠ ids field := fun equal =>
        same (ids.injective (Fin.ext equal))
      rw [Record.set_other same, Function.update_of_ne apart, inMemory_id]
  · have apart : id ≠ ids field := fun equal => inside (equal ▸ (ids field).isLt)
    simp [inMemory, inside, apart]

/-- What the function of a field makes of bytes. -/
def PlainField.fieldFunc (unirec : Libunirec) (field : PlainField) : FieldFunc :=
  if field.process = .nope then .nope
  else .fixed fun src dst => bytes (field.process.apply unirec
    (BitVec.ofNat field.record.type.bits (number src)) (BitVec.ofNat _ (number dst)))

theorem PlainField.value_fieldFunc (unirec : Libunirec) (field : PlainField) (src dst : Record) :
    (field.fieldFunc unirec).value (bytes (src field.record)) (bytes (dst field.record)) =
      bytes (field.process.apply unirec (src field.record) (dst field.record)) := by
  unfold fieldFunc
  split
  · rename_i nope
    rw [nope]
    rfl
  · simp only [FieldFunc.value, number_field, BitVec.ofNat_toNat, BitVec.setWidth_eq]

/-! ### Steps of `process_agg_functions` -/

theorem increaseCount_inMemory (dst : Record) :
    LengthTemplate.increaseCount (programTable ids) (dst.inMemory ids) =
      (Agg.increaseCount dst).inMemory ids := by
  have next : BitVec.ofNat 32 (number (dst.inMemory ids (ids .count)) + 1) = dst.count + 1 := by
    rw [number_inMemory, BitVec.ofNat_add, BitVec.ofNat_toNat]
    exact congrArg (· + 1) (BitVec.setWidth_eq _)
  have increased : (Agg.increaseCount dst).inMemory ids =
      Function.update (dst.inMemory ids) (ids .count) (bytes (dst.count + 1)) :=
    dst.inMemory_set ids .count _
  rw [increased, ← next]
  rfl

theorem takeTimeFirst_inMemory (src dst : Record) :
    LengthTemplate.takeTimeFirst (programTable ids) (src.inMemory ids) (dst.inMemory ids) =
      (Agg.takeTimeFirst src dst).inMemory ids := by
  have numbers : number (src.inMemory ids (ids (.unirec .timeFirst))) <
      number (dst.inMemory ids (ids (.unirec .timeFirst))) ↔ src.timeFirst < dst.timeFirst := by
    rw [number_inMemory, number_inMemory]
    exact Iff.rfl
  by_cases earlier : src.timeFirst < dst.timeFirst
  · rw [Agg.takeTimeFirst, if_pos earlier]
    have taken := dst.inMemory_set ids (.unirec .timeFirst) src.timeFirst
    have written := congrArg (Function.update (dst.inMemory ids) (ids (.unirec .timeFirst)))
      (src.inMemory_id ids (.unirec .timeFirst))
    exact (if_pos (numbers.mpr earlier)).trans (written.trans taken.symm)
  · rw [Agg.takeTimeFirst, if_neg earlier]
    exact if_neg (earlier ∘ numbers.mp)

theorem takeTimeLast_inMemory (src dst : Record) :
    LengthTemplate.takeTimeLast (programTable ids) (src.inMemory ids) (dst.inMemory ids) =
      (Agg.takeTimeLast src dst).inMemory ids := by
  have numbers : number (dst.inMemory ids (ids (.unirec .timeLast))) <
      number (src.inMemory ids (ids (.unirec .timeLast))) ↔ dst.timeLast < src.timeLast := by
    rw [number_inMemory, number_inMemory]
    exact Iff.rfl
  by_cases later : dst.timeLast < src.timeLast
  · rw [Agg.takeTimeLast, if_pos later]
    have taken := dst.inMemory_set ids (.unirec .timeLast) src.timeLast
    have written := congrArg (Function.update (dst.inMemory ids) (ids (.unirec .timeLast)))
      (src.inMemory_id ids (.unirec .timeLast))
    exact (if_pos (numbers.mpr later)).trans (written.trans taken.symm)
  · rw [Agg.takeTimeLast, if_neg later]
    exact if_neg (later ∘ numbers.mp)

theorem updateFields_inMemory (unirec : Libunirec) (fields : List PlainField) (src dst : Record) :
    LengthTemplate.updateFields (fields.map fun field => ⟨ids field.record, field.fieldFunc unirec⟩)
        (src.inMemory ids) (dst.inMemory ids) =
      (fields.foldl (fun dst field => dst.set field.record
        (field.process.apply unirec (src field.record) (dst field.record))) dst).inMemory ids := by
  induction fields generalizing dst with
  | nil => rfl
  | cons head tail inductionHypothesis =>
      rw [List.foldl_cons, ← inductionHypothesis, Record.inMemory_set,
        ← head.value_fieldFunc unirec, ← src.inMemory_id ids, ← dst.inMemory_id ids]
      rfl

/-! ### The template of an aggregator -/

namespace OfConfig

variable {config : Config} {agg : Agg} (made : OfConfig config agg)

/-- The output template of an aggregator, with the ids of its fields. -/
def lengthTemplate (made : OfConfig config agg) : LengthTemplate (programTable ids) where
  outTmplt := agg.outputTemp.outTmplt.map fun field => ids field
  slots := agg.outputTemp.fields.map fun field =>
    ⟨ids field.record, field.fieldFunc agg.outputTemp.unirec⟩
  suits := by
    intro slot member
    obtain ⟨field, _, rfl⟩ := List.mem_map.mp member
    have fixlen := programTable_urIsFixlen ids (ids field.record).isLt
    by_cases nope : field.process = .nope
    · simp [FieldSlot.Suits, PlainField.fieldFunc, nope]
    · simpa [FieldSlot.Suits, PlainField.fieldFunc, nope] using fixlen
  present := by
    intro slot member
    obtain ⟨field, inFields, rfl⟩ := List.mem_map.mp member
    exact List.mem_map_of_mem (made.inTemplate inFields)

/-- Every index is aligned, whatever the ids of the fields are. -/
theorem aligned : (made.lengthTemplate ids).Aligned := by
  have few : agg.outputTemp.fields.length ≤ size := by
    have nodup := made.distinct.map ids.injective
    have bound := nodup.length_le_card
    rwa [List.length_map, List.length_map, Fintype.card_fin] at bound
  intro slot member
  have inSlots : slot.1 ∈ (made.lengthTemplate ids).slots := List.fst_mem_of_mem_zipIdx member
  obtain ⟨field, _, isField⟩ := List.mem_map.mp inSlots
  have index := List.snd_lt_of_mem_zipIdx member
  rw [lengthTemplate, List.length_map] at index
  refine .inr ⟨?_, programTable_urIsFixlen ids (by omega)⟩
  rw [← isField]
  exact programTable_urIsFixlen ids (ids field.record).isLt

/-- `process_agg_functions` for any table is that of `Agg`. -/
theorem processAggFunctions_inMemory (src : Record) (dst : Stored) :
    (made.lengthTemplate ids).processAggFunctions (src.inMemory ids) (dst.record.inMemory ids) =
      .ok ((agg.processAggFunctions src dst).record.inMemory ids) := by
  rw [LengthTemplate.processAggFunctions_eq (made.aligned ids), increaseCount_inMemory,
    takeTimeFirst_inMemory, takeTimeLast_inMemory]
  exact congrArg Except.ok (updateFields_inMemory ids _ agg.outputTemp.fields src _)

/-- `init_record_data` for any table is that of `Agg`. -/
theorem initRecordData_inMemory {src dst : Record} {stored : Stored}
    (copied : agg.initRecordData src dst = .ok stored) :
    (made.lengthTemplate ids).initRecordData (src.inMemory ids) (dst.inMemory ids) =
      stored.record.inMemory ids := by
  obtain ⟨vectors, _, rfl⟩ := map_ok.mp copied
  refine .trans ?_ (Record.inMemory_set ids _ .count 1).symm
  refine congrArg (fun record => Function.update record (ids .count : Nat) _) ?_
  funext id
  by_cases inside : id < size
  · obtain ⟨field, isField⟩ := ids.surjective ⟨id, inside⟩
    obtain rfl : (ids field : Nat) = id := congrArg Fin.val isField
    have member : (ids field : Nat) ∈ (made.lengthTemplate ids).outTmplt ↔
        field ∈ agg.outputTemp.outTmplt :=
      List.mem_map_of_injective (Fin.val_injective.comp ids.injective)
    rw [Record.inMemory_id, Record.inMemory_id, Record.inMemory_id, urCopyFields]
    by_cases copies : field ∈ agg.outputTemp.outTmplt
    · rw [if_pos (member.mpr copies), if_pos copies]
    · rw [if_neg (copies ∘ member.mp), if_neg copies]
  · simp [Record.inMemory, inside]

/-- What is stored after merging records has the bytes of what `Agg` stores. -/
theorem merge_inMemory {first created : Record} {stored : Stored}
    (copied : agg.initRecordData first created = .ok stored) (later : List Record) :
    (made.lengthTemplate ids).merge (first.inMemory ids) (later.map (Record.inMemory ids))
        (created.inMemory ids) =
      .ok ((later.foldl (fun dst src => agg.processAggFunctions src dst) stored).record.inMemory
        ids) := by
  rw [LengthTemplate.merge, initRecordData_inMemory ids made copied]
  clear copied
  induction later generalizing stored with
  | nil => rfl
  | cons head tail inductionHypothesis =>
      rw [List.map_cons, List.foldlM_cons, made.processAggFunctions_inMemory ids]
      exact inductionHypothesis

end OfConfig

end Program

end Policer.Aggregator
