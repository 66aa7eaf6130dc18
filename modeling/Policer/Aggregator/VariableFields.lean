import Policer.Aggregator.Agg
import Policer.Lib.Faults

/-!
# Fields of variable length

`process_agg_functions` for any table of fields. A field of a fixed length is updated
through pointers into the two records, one of a variable length through `var_params`.
The code asks for the length of the position in the output template, and names the
position in `var_params`. `updatesByKind_iff_aligned` says when that is the field.
-/

namespace Policer.Aggregator

open Policer.Lib

/-! ### Tables and records -/

/-- The fields of UniRec by their ids, with the static ones. A variable length is `none`. -/
structure LengthTable where
  urGetSize : Nat → Option Nat
  fCount : Nat
  fTimeFirst : Nat
  fTimeLast : Nat
  fixedStatics : ∀ id ∈ [fCount, fTimeFirst, fTimeLast], (urGetSize id).isSome

/-- `ur_is_fixlen`. -/
def LengthTable.urIsFixlen (table : LengthTable) (id : Nat) : Bool := (table.urGetSize id).isSome

/-- The bytes of a field. -/
abbrev FieldBytes := List (BitVec 8)

/-- A record: what `ur_get_ptr_by_id` points to for every field. -/
abbrev BytesRecord := Nat → FieldBytes

/-- The unsigned number in the bytes of a field. -/
def number : FieldBytes → Nat
  | [] => 0
  | byte :: rest => byte.toNat + 256 * number rest

/-! ### Aggregation functions -/

/-- `var_params`. Its `dst` is the record that is updated. -/
structure VarParams where
  fieldId : Nat
  varLen : Nat

/-- What an aggregation function gets as its destination: a field of the stored record, or the
parameters on the stack. -/
inductive Destination where
  | field (id : Nat)
  | params (params : VarParams)

/-- Aggregation functions: `nope`, those over fixed lengths and `last_variable`. -/
inductive FieldFunc where
  | nope
  | fixed (combine : FieldBytes → FieldBytes → FieldBytes)
  | lastVariable

/-- Other bytes are taken for `var_params`. -/
inductive ParamsFault where
  | noParams

/-- `ur_set_var`. It refuses a field that the template does not have. -/
def urSetVar (outTmplt : List Nat) (dst : BytesRecord) (fieldId : Nat) (value : FieldBytes) :
    BytesRecord :=
  if fieldId ∈ outTmplt then Function.update dst fieldId value else dst

/-- A call of the function on the stored record `dst`. -/
def FieldFunc.call (outTmplt : List Nat) (dst : BytesRecord) (src : FieldBytes) :
    FieldFunc → Destination → Except ParamsFault BytesRecord
  | .nope, _ => .ok dst
  | .fixed combine, .field id => .ok (Function.update dst id (combine src (dst id)))
  -- what is overwritten are the parameters
  | .fixed _, .params _ => .ok dst
  | .lastVariable, .params params =>
      .ok (urSetVar outTmplt dst params.fieldId (src.take params.varLen))
  | .lastVariable, .field _ => .error .noParams

/-- What a function makes of a value and the stored one. -/
def FieldFunc.value (src dst : FieldBytes) : FieldFunc → FieldBytes
  | .nope => dst
  | .fixed combine => combine src dst
  | .lastVariable => src

/-! ### The output template -/

/-- One index of `indexes_to_record` and `process`. -/
structure FieldSlot where
  record : Nat
  process : FieldFunc

/-- The function is one `get_function_ptr` gives for the type of the field: over a variable length
that is `last_variable` for `LAST` and `nope` for all others. -/
def FieldSlot.Suits (table : LengthTable) (slot : FieldSlot) : Prop :=
  match slot.process with
  | .nope => True
  | .fixed _ => table.urIsFixlen slot.record = true
  | .lastVariable => table.urIsFixlen slot.record = false

/-- The members of `OutputTemplate` that `process_agg_functions` reads, counters apart. -/
structure LengthTemplate (table : LengthTable) where
  outTmplt : List Nat
  slots : List FieldSlot
  suits : ∀ slot ∈ slots, slot.Suits table
  present : ∀ slot ∈ slots, slot.record ∈ outTmplt

namespace LengthTemplate

variable {table : LengthTable}

/-- A template with keys, counters and static fields only. -/
def new (table : LengthTable) (others : List Nat) : LengthTemplate table where
  outTmplt := others
  slots := []
  suits := by simp
  present := by simp

/-- `add_field`. The template of UniRec, which `Agg::init` creates behind the last call, has the
field too. -/
def addField (self : LengthTemplate table) (recordId : Nat) (foo : FieldFunc)
    (suits : FieldSlot.Suits table ⟨recordId, foo⟩) : LengthTemplate table where
  outTmplt := recordId :: self.outTmplt
  slots := self.slots ++ [⟨recordId, foo⟩]
  suits := by
    intro slot member
    rcases List.mem_append.mp member with before | added
    · exact self.suits slot before
    · obtain rfl := List.mem_singleton.mp added
      exact suits
  present := by
    intro slot member
    rcases List.mem_append.mp member with before | added
    · exact List.mem_cons_of_mem _ (self.present slot before)
    · obtain rfl := List.mem_singleton.mp added
      exact List.mem_cons_self

/-! ### Merging records -/

/-- `F_COUNT` is always increased. -/
def increaseCount (table : LengthTable) (dst : BytesRecord) : BytesRecord :=
  Function.update dst table.fCount (bytes (BitVec.ofNat 32 (number (dst table.fCount) + 1)))

/-- `TIME_FIRST:min`. -/
def takeTimeFirst (table : LengthTable) (src dst : BytesRecord) : BytesRecord :=
  if number (src table.fTimeFirst) < number (dst table.fTimeFirst) then
    Function.update dst table.fTimeFirst (src table.fTimeFirst)
  else dst

/-- `TIME_LAST:max`. -/
def takeTimeLast (table : LengthTable) (src dst : BytesRecord) : BytesRecord :=
  if number (dst table.fTimeLast) < number (src table.fTimeLast) then
    Function.update dst table.fTimeLast (src table.fTimeLast)
  else dst

/-- The destination the loop of `process_agg_functions` passes at index `i`. -/
def destination (table : LengthTable) (src : BytesRecord) (slot : FieldSlot) (i : Nat) :
    Destination :=
  if table.urIsFixlen i then .field slot.record
  else .params ⟨i, (src slot.record).length⟩

/-- One round of the loop. -/
def processSlot (self : LengthTemplate table) (src dst : BytesRecord) (slot : FieldSlot × Nat) :
    Except ParamsFault BytesRecord :=
  slot.1.process.call self.outTmplt dst (src slot.1.record)
    (destination table src slot.1 slot.2)

/-- `process_agg_functions` on the record. Its last loop works on the containers only. -/
def processAggFunctions (self : LengthTemplate table) (src dst : BytesRecord) :
    Except ParamsFault BytesRecord :=
  self.slots.zipIdx.foldlM (self.processSlot src)
    (takeTimeLast table src (takeTimeFirst table src (increaseCount table dst)))

/-- `init_record_data` on the record. -/
def initRecordData (self : LengthTemplate table) (src dst : BytesRecord) : BytesRecord :=
  Function.update (fun id => if id ∈ self.outTmplt then src id else dst id) table.fCount
    (bytes (1 : BitVec 32))

/-- The record stored for a first record and those merged with it later. -/
def merge (self : LengthTemplate table) (first : BytesRecord) (later : List BytesRecord)
    (created : BytesRecord) : Except ParamsFault BytesRecord :=
  later.foldlM (fun dst src => self.processAggFunctions src dst) (self.initRecordData first created)

/-! ### Updates by kind -/

/-- The destination a function needs for a field. -/
def ownDestination (table : LengthTable) (src : BytesRecord) (id : Nat) : Destination :=
  if table.urIsFixlen id then .field id else .params ⟨id, (src id).length⟩

/-- Every field is updated according to its own kind, no function writes another field, and `LAST`
over a variable length keeps the value of the last record. -/
structure UpdatesByKind (template : LengthTemplate table) : Prop where
  passes : ∀ slot ∈ template.slots.zipIdx, ∀ src,
    destination table src slot.1 slot.2 = ownDestination table src slot.1.record
  update : ∀ slot ∈ template.slots.zipIdx, ∀ src dst,
    template.processSlot src dst slot = .ok (Function.update dst slot.1.record
      (slot.1.process.value (src slot.1.record) (dst slot.1.record)))
  last : ∀ first later created, ∃ stored, template.merge first later created = .ok stored ∧
    ∀ slot ∈ template.slots, slot.process = .lastVariable →
      stored slot.record = later.getLastD first slot.record

/-- At every index the id is the index, or both are ids of fields of a fixed length. -/
def Aligned (self : LengthTemplate table) : Prop :=
  ∀ slot ∈ self.slots.zipIdx, slot.1.record = slot.2 ∨
    table.urIsFixlen slot.1.record ∧ table.urIsFixlen slot.2

/-! ### Runs of the loop -/

variable {self : LengthTemplate table}

/-- `LAST` at the index of its field keeps the value, at the index of another field of a variable
length it writes that field, and at the index of a field of a fixed length it finds no
parameters. -/
theorem processSlot_lastVariable (src dst : BytesRecord) (record i : Nat) :
    self.processSlot src dst (⟨record, .lastVariable⟩, i) =
      if table.urIsFixlen i then .error .noParams
      else .ok (urSetVar self.outTmplt dst i (src record)) := by
  unfold processSlot destination
  split
  · rfl
  · simp only [FieldFunc.call, List.take_length]

/-- A round at an aligned index updates the field at it. -/
theorem processSlot_eq (src dst : BytesRecord) {slot : FieldSlot × Nat}
    (member : slot ∈ self.slots.zipIdx)
    (aligned : slot.1.record = slot.2 ∨
      table.urIsFixlen slot.1.record ∧ table.urIsFixlen slot.2) :
    self.processSlot src dst slot = .ok (Function.update dst slot.1.record
      (slot.1.process.value (src slot.1.record) (dst slot.1.record))) := by
  have inSlots : slot.1 ∈ self.slots := List.fst_mem_of_mem_zipIdx member
  have suits := self.suits slot.1 inSlots
  have present := self.present slot.1 inSlots
  obtain ⟨⟨record, process⟩, i⟩ := slot
  dsimp only at aligned present
  cases process with
  | nope =>
      rw [FieldFunc.value, Function.update_eq_self]
      rfl
  | fixed combine =>
      have fixlen : table.urIsFixlen i = true := by
        rcases aligned with rfl | ⟨_, fixlen⟩
        · exact suits
        · exact fixlen
      simp [processSlot, destination, fixlen, FieldFunc.call, FieldFunc.value]
  | lastVariable =>
      have varlen : table.urIsFixlen record = false := suits
      rcases aligned with rfl | ⟨fixlen, _⟩
      · rw [processSlot_lastVariable]
        simp [varlen, urSetVar, present, FieldFunc.value]
      · rw [varlen] at fixlen
        cases fixlen

/-- The fields one after the other get the values of their functions. -/
def updateFields (slots : List FieldSlot) (src dst : BytesRecord) : BytesRecord :=
  slots.foldl (fun dst slot => Function.update dst slot.record
    (slot.process.value (src slot.record) (dst slot.record))) dst

/-- The loop updates every field. -/
theorem processAggFunctions_eq (aligned : self.Aligned) (src dst : BytesRecord) :
    self.processAggFunctions src dst = .ok (updateFields self.slots src
      (takeTimeLast table src (takeTimeFirst table src (increaseCount table dst)))) := by
  have rounds := foldlM_eq_foldl_of_ok
    (fun slot member dst => processSlot_eq src dst member (aligned slot member))
    (takeTimeLast table src (takeTimeFirst table src (increaseCount table dst)))
  rw [processAggFunctions, rounds, updateFields]
  conv_rhs => rw [← List.zipIdx_map_fst 0 self.slots, List.foldl_map]

/-- Where the stored value is the source's, functions over a variable length keep it. -/
theorem updateFields_same {slots : List FieldSlot} (suits : ∀ slot ∈ slots, slot.Suits table)
    {id : Nat} (varlen : table.urIsFixlen id = false) {src dst : BytesRecord}
    (same : dst id = src id) : updateFields slots src dst id = src id := by
  induction slots generalizing dst with
  | nil => exact same
  | cons head tail inductionHypothesis =>
      refine inductionHypothesis (fun slot member => suits slot (List.mem_cons_of_mem _ member)) ?_
      obtain ⟨record, process⟩ := head
      by_cases own : id = record
      · subst own
        have headSuits := suits ⟨id, process⟩ List.mem_cons_self
        cases process with
        | nope => simpa [FieldFunc.value] using same
        | lastVariable => simp [FieldFunc.value]
        | fixed combine =>
            have fixlen : table.urIsFixlen id = true := headSuits
            rw [varlen] at fixlen
            cases fixlen
      · simpa [own] using same

/-- `LAST` over a variable length takes the source's value. -/
theorem updateFields_last {slots : List FieldSlot} (suits : ∀ slot ∈ slots, slot.Suits table)
    {slot : FieldSlot} (member : slot ∈ slots) (isLast : slot.process = .lastVariable)
    (src dst : BytesRecord) : updateFields slots src dst slot.record = src slot.record := by
  obtain ⟨before, after, rfl⟩ := List.append_of_mem member
  have varlen : table.urIsFixlen slot.record = false := by
    have suited := suits slot member
    rwa [FieldSlot.Suits, isLast] at suited
  rw [updateFields, List.foldl_append, List.foldl_cons]
  refine updateFields_same (fun other later => suits other (by simp [later])) varlen ?_
  rw [Function.update_self, isLast, FieldFunc.value]

/-! ### When the fields are updated by their kinds -/

theorem initRecordData_of_varlen {id : Nat} (varlen : table.urIsFixlen id = false)
    (present : id ∈ self.outTmplt) (src dst : BytesRecord) :
    self.initRecordData src dst id = src id := by
  have noCount : id ≠ table.fCount := by
    rintro rfl
    have fixlen := table.fixedStatics table.fCount (by simp)
    rw [LengthTable.urIsFixlen, fixlen] at varlen
    cases varlen
  simp [initRecordData, noCount, present]

/-- Merging ends with the last record's values under `LAST`. -/
theorem merge_last (aligned : self.Aligned) (first : BytesRecord) (later : List BytesRecord)
    (created : BytesRecord) :
    ∃ stored, self.merge first later created = .ok stored ∧
      ∀ slot ∈ self.slots, slot.process = .lastVariable →
        stored slot.record = later.getLastD first slot.record := by
  rw [merge, foldlM_eq_foldl_of_ok fun src _ dst => processAggFunctions_eq aligned src dst]
  refine ⟨_, rfl, fun slot member isLast => ?_⟩
  have varlen : table.urIsFixlen slot.record = false := by
    have suited := self.suits slot member
    rwa [FieldSlot.Suits, isLast] at suited
  induction later using List.reverseRecOn with
  | nil => exact initRecordData_of_varlen varlen (self.present slot member) first created
  | append_singleton later src _ =>
      rw [List.foldl_append, List.getLastD_concat]
      exact updateFields_last self.suits member isLast src _

/-- For every table and every registered fields: all fields are updated by their own kinds exactly
when every index is aligned. -/
theorem updatesByKind_iff_aligned (self : LengthTemplate table) :
    self.UpdatesByKind ↔ self.Aligned := by
  constructor
  · intro updates slot member
    have same := updates.passes slot member fun _ => []
    unfold destination ownDestination at same
    split at same <;> split at same
    · rename_i atIndex atField
      exact .inr ⟨atField, atIndex⟩
    · cases same
    · cases same
    · exact .inl (congrArg VarParams.fieldId (Destination.params.inj same)).symm
  · intro aligned
    refine ⟨fun slot member src => ?_, fun slot member src dst =>
      processSlot_eq src dst member (aligned slot member), merge_last aligned⟩
    unfold destination ownDestination
    rcases aligned slot member with own | ⟨atField, atIndex⟩
    · rw [own]
    · rw [if_pos atField, if_pos atIndex]

end LengthTemplate

/-! ### The last host -/

/-- Two fields of a variable length in front of the static ones. -/
def hostsTable : LengthTable where
  urGetSize
    | 0 | 1 => none
    | 2 => some 4
    | _ => some 8
  fCount := 2
  fTimeFirst := 3
  fTimeLast := 4
  fixedStatics := by decide

/-- `LAST` over the second field and `FIRST` over the first one. -/
def lastHost : LengthTemplate hostsTable :=
  ((LengthTemplate.new hostsTable [2, 3, 4]).addField 1 .lastVariable rfl).addField 0 .nope trivial

/-- The first field gets the last host, and the second one keeps the first. -/
theorem lastHost_misplaced : ¬ lastHost.UpdatesByKind ∧
    ∃ stored, lastHost.merge (fun id => [BitVec.ofNat 8 id, 1]) [fun id => [BitVec.ofNat 8 id, 2]]
        (fun _ => []) = .ok stored ∧
      stored 0 = [1, 2] ∧ stored 1 = [1, 1] := by
  have merged : ∃ stored, lastHost.merge (fun id => [BitVec.ofNat 8 id, 1])
      [fun id => [BitVec.ofNat 8 id, 2]] (fun _ => []) = .ok stored ∧
        stored 0 = [1, 2] ∧ stored 1 = [1, 1] :=
    ⟨_, rfl, by decide, by decide⟩
  refine ⟨fun updates => ?_, merged⟩
  obtain ⟨stored, merged, _, kept⟩ := merged
  obtain ⟨other, mergedToo, last⟩ := updates.last _ _ _
  obtain rfl := Except.ok.inj (merged.symm.trans mergedToo)
  have taken := last ⟨1, .lastVariable⟩ List.mem_cons_self rfl
  rw [kept] at taken
  revert taken
  decide

end Policer.Aggregator
