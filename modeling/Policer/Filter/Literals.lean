import Policer.Filter.Comparisons
import Policer.Lib.CNumber

/-!
# Literals of integer conditions

How `ff3_new_leaf` compiles a condition. A literal that `str_to_uint` cannot convert is left to the
callback `rval_map_func`, which reports success and writes nothing: the condition is compiled to a
comparison with the zero the buffer was allocated with.
-/

namespace Policer.Filter

open Policer.Parsing Policer.Aggregator Policer.Lib.LittleEndian Policer.Lib.CNumber

/-! ### Conversion -/

/-- `get_unit`. -/
def getUnit (unit : Str) : Nat :=
  if 1 < unit.length then 0
  else
    match unit with
    | 'k' :: _ | 'K' :: _ => 1000
    | 'm' :: _ | 'M' :: _ => 1000 * 1000
    | 'g' :: _ | 'G' :: _ => 1000 * 1000 * 1000
    | _ => 0

/-- The result of a conversion: the number, where it ended, and whether an error was noted. -/
structure Converted where
  tmp64 : Nat
  endptr : Str
  err : Bool

/-- `ff3_strtoull`. -/
def ff3Strtoull (valstr : Str) : Converted :=
  match strtoull valstr with
  | none => ⟨0, valstr, true⟩
  | some (tmp64, []) => ⟨tmp64, [], valstr.head? = some '-'⟩
  | some (tmp64, c :: rest) =>
      let unit := if c = ' ' then rest else c :: rest
      let mult := getUnit unit
      ⟨tmp64 * mult % 2 ^ 64, if mult ≠ 0 then unit.tail else unit,
        valstr.head? = some '-' ∨ (mult ≠ 0 ∧ tmp64 * mult % 2 ^ 64 / mult ≠ tmp64)⟩

/-- `str_to_uint64`. -/
def strToUint64 (str : Str) : Option (BitVec 64) :=
  let converted := ff3Strtoull str
  if converted.err then none
  else if converted.endptr ≠ [] then none
  else some (BitVec.ofNat 64 converted.tmp64)

/-- `rval_map_func`: it returns `FF_OK` and leaves the buffer. -/
def rvalMapFunc (buf : BitVec 64) : Option (BitVec 64) := some buf

/-- `ff3_type_cast` for unsigned types: what the conversion fails on is left to the callback, with a
buffer of zeros. -/
def castUnsigned (valstr : Str) : Option (BitVec 64) :=
  match strToUint64 valstr with
  | some value => some value
  | none => rvalMapFunc 0

/-- The conversions that rest on `inet_pton`, `strptime` and `mktime`. -/
structure Conversions where
  toAddr : Str → Option FfNet
  toTimestamp : Str → Option (BitVec 64)

/-- `ff3_type_cast`. -/
def ff3TypeCast (conv : Conversions) (valstr : Str) : FfType → Option Literal
  | .addr => (conv.toAddr valstr).map .addr
  | .uint64 => (castUnsigned valstr).map (.uint .w8)
  | .uint32 => (castUnsigned valstr).map (.uint .w4)
  | .uint16 => (castUnsigned valstr).map (.uint .w2)
  | .uint8 => (castUnsigned valstr).map (.uint .w1)
  | .timestamp => (conv.toTimestamp valstr).map .timestamp

/-- The operator of a leaf: without one it is `FF_OP_EQ`. -/
def FfOper.orEq : FfOper → FfOper
  | .noop => .eq
  | oper => oper

/-- `ff3_new_leaf` with a value, and so `Filter::init` on a text that is one condition: the parser
aborts when there is no leaf. -/
def ff3NewLeaf (conv : Conversions) (fieldstr : Str) (oper : FfOper) (valstr : Str) :
    Option FfNode :=
  match lookupFunc fieldstr with
  | none => none
  | some (type, id) =>
      if valstr = [] then none
      else (ff3TypeCast conv valstr type).bind fun literal =>
        (ff3Validate oper.orEq literal).map (.leaf id)

/-! ### What a literal denotes -/

/-- A letter that stands for a power of 1000. -/
inductive UnitLetter : Char → Nat → Prop where
  | lowerKilo : UnitLetter 'k' 1000
  | kilo : UnitLetter 'K' 1000
  | lowerMega : UnitLetter 'm' 1000000
  | mega : UnitLetter 'M' 1000000
  | lowerGiga : UnitLetter 'g' 1000000000
  | giga : UnitLetter 'G' 1000000000

/-- A unit behind a number, with at most one blank in between. -/
inductive UnitOf : Str → Nat → Prop where
  | none : UnitOf [] 1
  | letter {c : Char} {factor : Nat} (isUnit : UnitLetter c factor) : UnitOf [c] factor
  | spaced {c : Char} {factor : Nat} (isUnit : UnitLetter c factor) : UnitOf [' ', c] factor

/-- A literal denotes an integer: white space, a sign, a number in the notation of C, and a unit. -/
def Denotes (valstr : Str) (value : Int) : Prop :=
  ∃ (spaces : Str) (sign : Sign) (text : Str) (number : Nat) (unit : Str) (factor : Nat),
    valstr = spaces ++ (sign.text ++ (text ++ unit)) ∧ (∀ c ∈ spaces, isSpace c = true) ∧
      Numeral text number ∧ UnitOf unit factor ∧
      value = if sign.isMinus then -((number * factor : Nat) : Int) else (number * factor : Nat)

/-- An integer the 64-bit comparison value can hold. -/
def Fits (value : Int) : Prop := 0 ≤ value ∧ value < 2 ^ 64

/-! ### The compiled value -/

theorem UnitLetter.spec {c : Char} {factor : Nat} (isUnit : UnitLetter c factor) :
    getUnit [c] = factor ∧ 0 < factor ∧ isDigit 16 c = false ∧ c ≠ 'x' ∧ c ≠ 'X' ∧ c ≠ ' ' := by
  cases isUnit <;> decide

theorem UnitOf.pos {unit : Str} {factor : Nat} (isUnit : UnitOf unit factor) : 0 < factor := by
  cases isUnit with
  | none => exact Nat.one_pos
  | letter isUnit => exact isUnit.spec.2.1
  | spaced isUnit => exact isUnit.spec.2.1

theorem UnitOf.ends {unit : Str} {factor : Nat} (isUnit : UnitOf unit factor) :
    EndsNumeral unit := by
  intro c isFirst
  cases isUnit with
  | none => cases isFirst
  | letter isUnit =>
      obtain rfl := Option.some.inj isFirst
      obtain ⟨_, _, noDigit, lower, upper, _⟩ := isUnit.spec
      exact ⟨noDigit, lower, upper⟩
  | spaced isUnit =>
      obtain rfl := Option.some.inj isFirst
      decide

/-- A number with a unit is converted to the product when that fits. -/
theorem ff3Strtoull_of_unit {valstr unit : Str} {number factor : Nat}
    (read : strtoull valstr = some (number, unit)) (isUnit : UnitOf unit factor)
    (fits : number * factor < 2 ^ 64) :
    ff3Strtoull valstr = ⟨number * factor, [], valstr.head? = some '-'⟩ := by
  have back : number * factor % 2 ^ 64 = number * factor := Nat.mod_eq_of_lt fits
  have whole : number * factor / factor = number := Nat.mul_div_cancel _ isUnit.pos
  have nonzero : factor ≠ 0 := Nat.pos_iff_ne_zero.mp isUnit.pos
  unfold ff3Strtoull
  cases isUnit with
  | none => simp only [read, Nat.mul_one]
  | letter isUnit =>
      obtain ⟨known, _, _, _, _, noBlank⟩ := isUnit.spec
      simp only [read, noBlank, ↓reduceIte, known, back, whole, nonzero, ne_eq, not_false_eq_true,
        not_true_eq_false, and_false, or_false, List.tail_cons]
  | spaced isUnit =>
      obtain ⟨known, _⟩ := isUnit.spec
      simp only [read, ↓reduceIte, known, back, whole, nonzero, ne_eq, not_false_eq_true,
        not_true_eq_false, and_false, or_false, List.tail_cons]

/-- What is converted to zero is compiled to zero, also when the conversion fails. -/
theorem castUnsigned_of_zero {valstr : Str} (zero : (ff3Strtoull valstr).tmp64 = 0) :
    castUnsigned valstr = some 0 := by
  simp only [castUnsigned, strToUint64, rvalMapFunc, zero]
  split
  · rename_i value converted
    split at converted
    · cases converted
    · split at converted
      · cases converted
      · exact converted.symm
  · rfl

/-- A literal that denotes an integer that fits is compiled to it. -/
theorem castUnsigned_of_denotes {valstr : Str} {value : Int} (denotes : Denotes valstr value)
    (fits : Fits value) : castUnsigned valstr = some (BitVec.ofNat 64 value.toNat) := by
  obtain ⟨spaces, sign, text, number, unit, factor, isText, blank, numeral, isUnit, isValue⟩ :=
    denotes
  obtain ⟨nonneg, below⟩ := fits
  have positive := isUnit.pos
  cases isMinus : sign.isMinus with
  | true =>
      rw [isMinus, if_pos rfl] at isValue
      have zero : number = 0 := by
        have product : number * factor = 0 := by omega
        rcases Nat.mul_eq_zero.mp product with zero | zero
        · exact zero
        · omega
      subst zero
      obtain rfl : value = 0 := by simpa using isValue
      have read : strtoull (spaces ++ (sign.text ++ (text ++ unit))) = _ :=
        strtoull_numeral blank numeral isUnit.ends (by omega)
      rw [isMinus, ← isText] at read
      refine castUnsigned_of_zero ?_
      rw [ff3Strtoull_of_unit read isUnit (by simp)]
      simp
  | false =>
      rw [isMinus, if_neg (by simp)] at isValue
      have product : number * factor < 2 ^ 64 := by omega
      have small : number < 2 ^ 64 :=
        Nat.lt_of_le_of_lt (Nat.le_mul_of_pos_right number positive) product
      have read : strtoull (spaces ++ (sign.text ++ (text ++ unit))) = _ :=
        strtoull_numeral blank numeral isUnit.ends small
      rw [isMinus, ← isText] at read
      have noMinus : valstr.head? ≠ some '-' := by
        rw [isText]
        exact head_ne_minus blank numeral isMinus
      have converted := ff3Strtoull_of_unit read isUnit product
      have value : value.toNat = number * factor := by omega
      simp [castUnsigned, strToUint64, converted, noMinus, value]

/-- Every literal is compiled to something. -/
theorem castUnsigned_isSome (valstr : Str) : (castUnsigned valstr).isSome = true := by
  unfold castUnsigned
  split <;> rfl

/-! ### Conditions -/

/-- The types of the integer fields. -/
def FfType.IsInteger : FfType → Prop
  | .addr | .timestamp => False
  | _ => True

/-- `Filter::init` on the condition succeeds only for a literal that denotes an integer that fits,
and the filter then compares with this integer. -/
def LiteralKept (conv : Conversions) (fieldstr : Str) (field : Field) (oper : FfOper)
    (valstr : Str) : Prop :=
  ∀ root, ff3NewLeaf conv fieldstr oper valstr = some root →
    ∃ value, Denotes valstr value ∧ Fits value ∧
      ∀ cmp, oper.orEq.cmp? = some cmp → ∀ record behind,
        (Forwards root record behind ↔ cmp.holds (record field).toNat value.toNat)

theorem cmp?_orEq (oper : FfOper) : ∃ cmp, oper.orEq.cmp? = some cmp := by
  cases oper <;> exact ⟨_, rfl⟩

/-- The leaf of a condition on an integer field compares with the compiled value. -/
theorem ff3NewLeaf_integer {fieldstr : Str} {type : FfType} {field : Field}
    (looked : lookupFunc fieldstr = some (type, some field)) (integer : type.IsInteger)
    (conv : Conversions) (oper : FfOper) {valstr : Str} (nonempty : valstr ≠ []) {cmp : UiCmp}
    (isCmp : oper.orEq.cmp? = some cmp) {ui : BitVec 64}
    (compiled : castUnsigned valstr = some ui) :
    ∃ root, ff3NewLeaf conv fieldstr oper valstr = some root ∧ ∀ record behind,
      (Forwards root record behind ↔ cmp.holds (record field).toNat ui.toNat) := by
  have fits := type_of_lookupFunc looked
  have leaf : ∀ width : UiWidth,
      ff3TypeCast conv valstr type = (castUnsigned valstr).map (.uint width) →
      field.type ≠ .ip → field.type.bits = 8 * width.bytes →
      ∃ root, ff3NewLeaf conv fieldstr oper valstr = some root ∧ ∀ record behind,
        (Forwards root record behind ↔ cmp.holds (record field).toNat ui.toNat) := by
    intro width cast noAddress bits
    refine ⟨.leaf (some field) (.uiN cmp width ui), ?_, fun record behind =>
      forwards_uiN_iff noAddress bits⟩
    simp [ff3NewLeaf, looked, nonempty, cast, compiled, ff3Validate, isCmp]
  obtain ⟨fieldType, isType⟩ : ∃ fieldType, field.type = fieldType := ⟨_, rfl⟩
  rw [isType] at fits
  subst fits
  cases fieldType with
  | ip | time => cases integer
  | uint64 => exact leaf .w8 rfl (by rw [isType]; decide) (by rw [isType]; rfl)
  | uint32 => exact leaf .w4 rfl (by rw [isType]; decide) (by rw [isType]; rfl)
  | uint16 => exact leaf .w2 rfl (by rw [isType]; decide) (by rw [isType]; rfl)
  | uint8 => exact leaf .w1 rfl (by rw [isType]; decide) (by rw [isType]; rfl)

/-- A condition on an integer field is compiled rightly when its literal denotes an integer that
fits; an empty literal is refused. -/
theorem literalKept_iff {fieldstr : Str} {type : FfType} {field : Field}
    (looked : lookupFunc fieldstr = some (type, some field)) (integer : type.IsInteger)
    (conv : Conversions) (oper : FfOper) (valstr : Str) :
    LiteralKept conv fieldstr field oper valstr ↔
      valstr = [] ∨ ∃ value, Denotes valstr value ∧ Fits value := by
  obtain ⟨cmp, isCmp⟩ := cmp?_orEq oper
  constructor
  · intro kept
    by_cases empty : valstr = []
    · exact Or.inl empty
    · obtain ⟨ui, compiled⟩ := Option.isSome_iff_exists.mp (castUnsigned_isSome valstr)
      obtain ⟨root, built, _⟩ := ff3NewLeaf_integer looked integer conv oper empty isCmp compiled
      obtain ⟨value, denotes, fits, _⟩ := kept root built
      exact Or.inr ⟨value, denotes, fits⟩
  · rintro (rfl | ⟨value, denotes, fits⟩) root built
    · simp [ff3NewLeaf, looked] at built
    · by_cases empty : valstr = []
      · subst empty
        simp [ff3NewLeaf, looked] at built
      · refine ⟨value, denotes, fits, fun other isOther record behind => ?_⟩
        obtain rfl := Option.some.inj (isCmp.symm.trans isOther)
        obtain ⟨found, isFound, compares⟩ := ff3NewLeaf_integer looked integer conv oper empty isCmp
          (castUnsigned_of_denotes denotes fits)
        obtain rfl := Option.some.inj (isFound.symm.trans built)
        have small : value.toNat < 2 ^ 64 := by
          obtain ⟨nonneg, below⟩ := fits
          omega
        rw [compares, BitVec.toNat_ofNat, Nat.mod_eq_of_lt small]

/-- Conversions that convert nothing. -/
def noConversions : Conversions := ⟨fun _ => none, fun _ => none⟩

/-- `PACKETS > 5k`. -/
theorem literalKept_iff_packets :
    LiteralKept noConversions "PACKETS".toList (.unirec .packets) .gt "5k".toList ↔
      "5k".toList = [] ∨ ∃ value, Denotes "5k".toList value ∧ Fits value :=
  literalKept_iff (show lookupFunc "PACKETS".toList = some (.uint32, some (.unirec .packets)) by
    decide +kernel) trivial noConversions .gt _

/-- What denotes an integer starts with white space, a sign or a digit. -/
theorem Denotes.head {valstr : Str} {value : Int} (denotes : Denotes valstr value) :
    ∃ c rest, valstr = c :: rest ∧
      (isSpace c = true ∨ c = '+' ∨ c = '-' ∨ isDigit 10 c = true) := by
  obtain ⟨spaces, sign, text, number, unit, factor, rfl, blank, numeral, _⟩ := denotes
  cases spaces with
  | cons c spaces => exact ⟨c, _, rfl, Or.inl (blank c List.mem_cons_self)⟩
  | nil =>
      cases sign with
      | plus => exact ⟨'+', _, rfl, Or.inr (Or.inl rfl)⟩
      | minus => exact ⟨'-', _, rfl, Or.inr (Or.inr (Or.inl rfl))⟩
      | none =>
          obtain ⟨c, rest, rfl, digit⟩ := numeral.head
          exact ⟨c, _, rfl, Or.inr (Or.inr (Or.inr digit))⟩

/-- `PACKETS > many` is accepted and forwards what has any packets. -/
theorem many_not_kept :
    ∃ root, ff3NewLeaf noConversions "PACKETS".toList .gt "many".toList = some root ∧
      (∀ record behind, Forwards root record behind ↔ 0 < (record (.unirec .packets)).toNat) ∧
      ¬ LiteralKept noConversions "PACKETS".toList (.unirec .packets) .gt "many".toList := by
  have looked : lookupFunc "PACKETS".toList = some (.uint32, some (.unirec .packets)) := by
    decide +kernel
  have compiled : castUnsigned "many".toList = some 0 := by decide +kernel
  obtain ⟨root, built, compares⟩ := ff3NewLeaf_integer looked trivial noConversions .gt (by decide)
    rfl compiled
  refine ⟨root, built, compares, fun kept => ?_⟩
  obtain ⟨value, denotes, _⟩ := kept root built
  obtain ⟨c, rest, same, first⟩ := denotes.head
  obtain rfl : 'm' = c := (List.cons.inj same).1
  revert first
  decide

end Policer.Filter
