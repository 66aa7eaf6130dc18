import Policer.Filter.Core

/-!
# Comparisons with numbers and times

The type `lookup_func` reports for an integer field has the width of the field, so the evaluator
reads exactly its bytes. A time is reported as a timestamp, whose opcodes go by the size of the
data; `data_func` leaves the size of the evaluator's buffer there, and no comparison succeeds.
-/

namespace Policer.Filter

open Policer.Parsing Policer.Aggregator Policer.Lib.LittleEndian

/-- The type that fits a field of UniRec. -/
def ffType : FieldType → FfType
  | .ip => .addr
  | .uint64 => .uint64
  | .time => .timestamp
  | .uint32 => .uint32
  | .uint16 => .uint16
  | .uint8 => .uint8

/-- `lookup_func` knows a field under a type that fits it, or not at all. -/
theorem lookupFunc_name (field : Field) :
    lookupFunc field.name = none ∨
      lookupFunc field.name = some (ffType field.type, some field) := by
  have table : ∀ field ∈ Field.all, lookupFunc field.name = none ∨
      lookupFunc field.name = some (ffType field.type, some field) := by
    decide +kernel
  exact table field field.mem_all

theorem lookupFunc_id {fieldstr : Str} {type : FfType} {id : Option Field}
    (looked : lookupFunc fieldstr = some (type, id)) : id = urGetIdByName fieldstr := by
  unfold lookupFunc at looked
  split at looked
  · exact (congrArg Prod.snd (Option.some.inj looked)).symm
  · split at looked
    · exact (congrArg Prod.snd (Option.some.inj looked)).symm
    · cases looked

/-- The type of a field that is found fits it. -/
theorem type_of_lookupFunc {fieldstr : Str} {type : FfType} {field : Field}
    (looked : lookupFunc fieldstr = some (type, some field)) : type = ffType field.type := by
  obtain rfl := name_of_urGetIdByName (lookupFunc_id looked).symm
  rcases lookupFunc_name field with none | found
  · rw [none] at looked
    cases looked
  · rw [found] at looked
    exact (congrArg Prod.fst (Option.some.inj looked)).symm

/-! ### Relations -/

/-- The operators that compare by size. -/
inductive Comparison where
  | eq
  | lt
  | gt
deriving DecidableEq, Repr

namespace Comparison

def oper : Comparison → FfOper
  | .eq => .eq
  | .lt => .lt
  | .gt => .gt

def cmp : Comparison → UiCmp
  | .eq => .eq
  | .lt => .lt
  | .gt => .gt

@[simp] theorem cmp?_oper (comparison : Comparison) :
    comparison.oper.cmp? = some comparison.cmp := by
  cases comparison <;> rfl

theorem oper_ne_isset (comparison : Comparison) : comparison.oper ≠ .isset := by
  cases comparison <;> decide

end Comparison

/-- A literal of the kind of a type: a number, or milliseconds for a time. -/
def FfType.literal (ui : BitVec 64) : FfType → Option Literal
  | .addr => none
  | .uint64 => some (.uint .w8 ui)
  | .uint32 => some (.uint .w4 ui)
  | .uint16 => some (.uint .w2 ui)
  | .uint8 => some (.uint .w1 ui)
  | .timestamp => some (.timestamp ui)

/-- The value of a field stands in the relation to the literal. A time is an instant: seconds in
units of `1 / 2 ^ 32` against milliseconds. -/
def InRelation (type : FfType) (comparison : Comparison) (value ui : Nat) : Prop :=
  match type with
  | .timestamp => comparison.cmp.holds (value * 1000) (ui * 2 ^ 32)
  | _ => comparison.cmp.holds value ui

/-- Filter::eval forwards a record exactly when its field stands in the relation. -/
def Compares (type : FfType) (comparison : Comparison) (field : Field) (ui : BitVec 64)
    (opcode : FfAttr) (record : Record) (behind : Memory) : Prop :=
  Forwards (.leaf (some field) opcode) record behind ↔
    InRelation type comparison (record field).toNat ui.toNat

/-! ### What the evaluator reads -/

/-- The evaluator reads the value of an integer field, whatever is behind it. -/
theorem load_dataFunc {record : Record} {behind : Memory} {field : Field} {n : Nat}
    (noAddress : field.type ≠ .ip) (width : field.type.bits = 8 * n) :
    load n (dataFunc record behind (some field)) = (record field).toNat := by
  have found : load n ((Memory.holding (record field) behind).from 0) =
      load n ((byteAt (record field)).from 0) := load_holding (by omega)
  rw [from_zero, from_zero] at found
  rw [dataFunc, if_neg fun isAddress => noAddress isAddress.1, found, load_value _ width]

/-- An opcode with a width of its own compares the value of the field. -/
theorem forwards_uiN_iff {record : Record} {behind : Memory} {field : Field} {cmp : UiCmp}
    {width : UiWidth} {ui : BitVec 64} (noAddress : field.type ≠ .ip)
    (fits : field.type.bits = 8 * width.bytes) :
    Forwards (.leaf (some field) (.uiN cmp width ui)) record behind ↔
      cmp.holds (record field).toNat ui.toNat := by
  rw [Forwards, ff3EvalNode, ff3OperEvalV2, load_dataFunc noAddress fits]
  exact truth_pos

/-- An opcode that goes by the size of the data fails on what `data_func` hands over. -/
theorem not_forwards_ui {record : Record} {behind : Memory} {field : Field} {cmp : UiCmp}
    {ui : BitVec 64} : ¬ Forwards (.leaf (some field) (.ui cmp ui)) record behind := by
  simp [Forwards, ff3EvalNode, ff3OperEvalV2, hord, evalBufMax]

/-- A condition is compared rightly when its field is no time, and for a time when the instant does
not stand in the relation. -/
theorem compares_iff {fieldstr : Str} {type : FfType} {field : Field}
    (looked : lookupFunc fieldstr = some (type, some field)) (comparison : Comparison)
    {ui : BitVec 64} {literal : Literal} (kind : type.literal ui = some literal) {opcode : FfAttr}
    (valid : ff3Validate comparison.oper literal = some opcode) (record : Record)
    (behind : Memory) :
    Compares type comparison field ui opcode record behind ↔
      type ≠ .timestamp ∨ ¬ InRelation type comparison (record field).toNat ui.toNat := by
  have fits := type_of_lookupFunc looked
  have number : ∀ {width : UiWidth}, literal = .uint width ui → field.type ≠ .ip →
      field.type.bits = 8 * width.bytes → type ≠ .timestamp →
      (InRelation type comparison (record field).toNat ui.toNat ↔
        comparison.cmp.holds (record field).toNat ui.toNat) →
      (Compares type comparison field ui opcode record behind ↔
        type ≠ .timestamp ∨ ¬ InRelation type comparison (record field).toNat ui.toNat) := by
    rintro width rfl noAddress bits noTime relation
    simp only [ff3Validate, Comparison.cmp?_oper, Option.map_some, Option.some.injEq] at valid
    subst valid
    rw [Compares, relation, forwards_uiN_iff noAddress bits]
    exact iff_of_true Iff.rfl (Or.inl noTime)
  obtain ⟨fieldType, isType⟩ : ∃ fieldType, field.type = fieldType := ⟨_, rfl⟩
  rw [isType] at fits
  subst fits
  cases fieldType with
  | ip => cases kind
  | time =>
      obtain rfl := Option.some.inj kind
      simp only [ff3Validate, comparison.oper_ne_isset, ↓reduceIte, Comparison.cmp?_oper,
        Option.map_some, Option.some.injEq] at valid
      subst valid
      rw [Compares]
      simp [not_forwards_ui, ffType]
  | uint64 | uint32 | uint16 | uint8 =>
      obtain rfl := Option.some.inj kind
      exact number rfl (by simp [isType]) (by rw [isType]; rfl) (by decide) Iff.rfl

/-- `PACKETS > 5`. -/
theorem compares_iff_packets :
    Compares .uint32 .gt (.unirec .packets) 5 (.uiN .gt .w4 5) (recordWith (.unirec .packets) 7)
        (fun _ => 0) ↔
      FfType.uint32 ≠ .timestamp ∨ ¬ InRelation .uint32 .gt
        (recordWith (.unirec .packets) 7 (.unirec .packets)).toNat (5 : BitVec 64).toNat :=
  compares_iff (show lookupFunc "PACKETS".toList = some (.uint32, some (.unirec .packets)) by
    decide +kernel) .gt rfl rfl _ _

/-- `TIME_FIRST > "2020-01-01 00:00:00"`, in milliseconds. -/
def newYear : BitVec 64 := 1577836800000

/-- The first second of 2021 as a time of UniRec. -/
def nextYear : Value (.unirec .timeFirst) := BitVec.ofNat 64 (1609459200 * 2 ^ 32)

/-- A record of 2021 is not forwarded. -/
theorem timeFirst_not_compared :
    lookupFunc "TIME_FIRST".toList = some (.timestamp, some (.unirec .timeFirst)) ∧
      FfType.timestamp.literal newYear = some (.timestamp newYear) ∧
      ff3Validate Comparison.gt.oper (.timestamp newYear) = some (.ui .gt newYear) ∧
      ¬ Compares .timestamp .gt (.unirec .timeFirst) newYear (.ui .gt newYear)
        (recordWith (.unirec .timeFirst) nextYear) (fun _ => 0) := by
  refine ⟨by decide +kernel, rfl, rfl, fun compares => ?_⟩
  have later : InRelation .timestamp .gt
      (recordWith (.unirec .timeFirst) nextYear (.unirec .timeFirst)).toNat newYear.toNat := by
    rw [recordWith_same]
    change newYear.toNat * 2 ^ 32 < nextYear.toNat * 1000
    decide
  exact not_forwards_ui (compares.mpr later)

end Policer.Filter
