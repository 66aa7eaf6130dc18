import Policer.Parsing.Alias
import Mathlib.Data.List.Nodup
import Mathlib.Data.BitVec

/-!
# UniRec fields and records

The fields of `UR_FIELDS` in `unirec_template.cpp` and those `define_new_unirec_field`
adds for `COUNT_DISTINCT`. All of them have a fixed length. A field stands for its id,
and a record gives every field a value of the width of its type. It is what `ur_get` yields:
for a field its template leaves out, whatever stands where the offset points.
-/

namespace Policer.Aggregator

open Policer.Parsing

/-- The types of the fields (`ur_field_type_t`). -/
inductive FieldType where
  | ip
  | uint64
  | time
  | uint32
  | uint16
  | uint8
deriving DecidableEq, Repr

/-- Width of a type in bits. -/
def FieldType.bits : FieldType → Nat
  | .ip => 128
  | .uint64 => 64
  | .time => 64
  | .uint32 => 32
  | .uint16 => 16
  | .uint8 => 8

/-- The unsigned integer types. -/
def FieldType.isUInt : FieldType → Bool
  | .uint64 | .uint32 | .uint16 | .uint8 => true
  | .ip | .time => false

/-- Types of the keywords. -/
def unirecType : Unirec → FieldType
  | .dstIP => .ip
  | .srcIP => .ip
  | .bytes => .uint64
  | .linkBitField => .uint64
  | .timeFirst => .time
  | .timeLast => .time
  | .packets => .uint32
  | .dstPort => .uint16
  | .srcPort => .uint16
  | .dirBitField => .uint8
  | .protocol => .uint8
  | .tcpFlags => .uint8
  | .tos => .uint8
  | .ttl => .uint8

/-- Ids of fields. `countDistinctOf` are those `define_new_unirec_field` adds. -/
inductive Field where
  | unirec (un : Unirec)
  | number
  | key
  | count
  | countDistinct
  | countDistinctOf (param : Unirec)
deriving DecidableEq

namespace Field

/-- `ur_get_type`. -/
def type : Field → FieldType
  | .unirec un => unirecType un
  | .number => .uint32
  | .key => .uint32
  | .count => .uint32
  | .countDistinct => .uint64
  | .countDistinctOf _ => .uint64

/-- `ur_get_name`. -/
def name : Field → Str
  | .unirec un => stringUnirecEnum un
  | .number => "NUMBER".toList
  | .key => "KEY".toList
  | .count => "COUNT".toList
  | .countDistinct => "COUNT_DISTINCT".toList
  | .countDistinctOf param => putTogetherFunctionAlias .countDistinct param

/-- The keywords in the order of `UR_FIELDS`. -/
def keywords : List Unirec :=
  [.dstIP, .srcIP, .bytes, .linkBitField, .timeFirst, .timeLast, .packets, .dstPort, .srcPort,
    .dirBitField, .protocol, .tcpFlags, .tos, .ttl]

/-- All fields. -/
def all : List Field :=
  keywords.map .unirec ++ [.number, .key, .count, .countDistinct] ++ keywords.map .countDistinctOf

theorem mem_keywords (un : Unirec) : un ∈ keywords := by
  cases un <;> decide

theorem mem_all (field : Field) : field ∈ all := by
  cases field with
  | unirec un => simp [all, mem_keywords]
  | countDistinctOf param => simp [all, mem_keywords]
  | _ => simp [all]

theorem names_nodup : (all.map name).Nodup := by
  decide +kernel

theorem name_injective {first second : Field} (same : first.name = second.name) :
    first = second :=
  List.inj_on_of_nodup_map names_nodup (mem_all first) (mem_all second) same

end Field

/-- `ur_get_id_by_name`; `none` is `UR_E_INVALID_NAME`. -/
def urGetIdByName (name : Str) : Option Field := Field.all.find? fun field => field.name == name

@[simp] theorem urGetIdByName_name (field : Field) : urGetIdByName field.name = some field := by
  have found : (urGetIdByName field.name).isSome = true :=
    List.find?_isSome.mpr ⟨field, field.mem_all, by simp⟩
  obtain ⟨other, isOther⟩ := Option.isSome_iff_exists.mp found
  have same : other.name = field.name := by simpa using List.find?_some isOther
  rw [isOther, Field.name_injective same]

theorem name_of_urGetIdByName {name : Str} {field : Field}
    (found : urGetIdByName name = some field) :
    field.name = name := by
  simpa using List.find?_some found

/-- A value of a field. -/
abbrev Value (field : Field) := BitVec field.type.bits

/-- A record: a value for every field. -/
def Record := (field : Field) → Value field

/-- `ur_set`. -/
def Record.set (record : Record) (field : Field) (value : Value field) : Record :=
  Function.update record field value

@[simp] theorem Record.set_same (record : Record) (field : Field) (value : Value field) :
    record.set field value field = value := Function.update_self ..

theorem Record.set_other {field other : Field} (different : other ≠ field) (record : Record)
    (value : Value field) : record.set field value other = record other :=
  Function.update_of_ne different ..

section SetAll

variable {ι : Type} (target : ι → Field)
  (value : (item : ι) → Value (target item) → Value (target item))

/-- Set the field of one item after the other. -/
def Record.setAll (items : List ι) (record : Record) : Record :=
  items.foldl (fun record item => record.set (target item) (value item (record (target item))))
    record

theorem Record.setAll_other {items : List ι} {field : Field} (other : field ∉ items.map target)
    (record : Record) : Record.setAll target value items record field = record field := by
  induction items generalizing record with
  | nil => rfl
  | cons head tail ih =>
      simp only [List.map_cons, List.mem_cons, not_or] at other
      exact (ih other.2 _).trans (Record.set_other other.1 ..)

/-- Each field that is set once gets the value of its item. -/
theorem Record.setAll_of_mem {items : List ι} (distinct : (items.map target).Nodup) {item : ι}
    (member : item ∈ items) (record : Record) :
    Record.setAll target value items record (target item) = value item (record (target item)) := by
  induction items generalizing record with
  | nil => cases member
  | cons head tail ih =>
      obtain ⟨fresh, distinct⟩ := List.nodup_cons.mp distinct
      rcases List.mem_cons.mp member with rfl | later
      · exact (Record.setAll_other target value fresh _).trans (Record.set_same ..)
      · have other : target item ≠ target head := by
          rintro same
          exact fresh (same ▸ List.mem_map_of_mem later)
        exact (ih distinct later _).trans (congrArg (value item) (Record.set_other other ..))

end SetAll

/-- `ur_copy_fields`: the fields of the destination's template are copied. -/
def urCopyFields (template : List Field) (destination source : Record) : Record := fun field =>
  if field ∈ template then source field else destination field

/-- `ur_time_get_sec`: the upper half of a time. -/
def urTimeGetSec (time : BitVec 64) : Int := (time.toNat / 2 ^ 32 : Nat)

/-- Functions of the library an aggregator is linked with. `ipCmp` compares the numbers of two
addresses. -/
structure Libunirec where
  ipCmp : Nat → Nat → Int
  urTimediff : BitVec 64 → BitVec 64 → Nat

/-- `ur_timediff` is the distance of two times in whole milliseconds. -/
def Libunirec.InMilliseconds (unirec : Libunirec) : Prop :=
  ∀ first second : BitVec 64, unirec.urTimediff first second =
    (max first.toNat second.toNat - min first.toNat second.toNat) * 1000 / 2 ^ 32

/-- A library for examples. -/
def Libunirec.plain : Libunirec where
  ipCmp first second := (first : Int) - second
  urTimediff first second :=
    (max first.toNat second.toNat - min first.toNat second.toNat) * 1000 / 2 ^ 32

theorem Libunirec.plain_inMilliseconds : plain.InMilliseconds := fun _ _ => rfl

theorem Libunirec.plain_ipCmp (first second : Nat) :
    plain.ipCmp first second = 0 ↔ first = second := by
  change (first : Int) - second = 0 ↔ first = second
  omega

namespace Record

/-- `F_COUNT` of a record. -/
def count (record : Record) : BitVec 32 := record .count

/-- `F_TIME_FIRST` of a record. -/
def timeFirst (record : Record) : BitVec 64 := record (.unirec .timeFirst)

/-- `F_TIME_LAST` of a record. -/
def timeLast (record : Record) : BitVec 64 := record (.unirec .timeLast)

end Record

end Policer.Aggregator
