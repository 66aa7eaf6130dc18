import Policer.Aggregator.Window

/-!
# The selector

`Selector::init` reads its interface number and a dictionary of fields off its option
string; `eval` copies the fields of the dictionary into the output record. UniRec itself is
given by the table of its fields and by the names it accepts for new ones.
-/

namespace Policer.Selector

open Policer.Lib Policer.Parsing Policer.Backend Policer.Aggregator

/-! ### UniRec -/

/-- The fields that are defined, with their types. -/
abbrev FieldTable := Str → Option FieldType

/-- `ur_define_field`; `none` is `UR_E_TYPE_MISMATCH`. A name that is not accepted stays
undefined. -/
def urDefineField (accepts : Str → Bool) (table : FieldTable) (name : Str) (type : FieldType) :
    Option FieldTable :=
  match table name with
  | some other => if other = type then some table else none
  | none => some (if accepts name then Function.update table name (some type) else table)

/-! ### The dictionary -/

/-- How `init` ends before its dictionary is complete: it gives up, or it reads the type of a
field that is not defined, which lies outside of the array of types. -/
inductive InitError where
  | rejected
  | unknownField
deriving DecidableEq, Repr

/-- `sel_dict_item`; the names stand for the ids, too. -/
structure SelDictItem where
  aliasName : Option Str
  fieldName : Str
deriving DecidableEq

/-- Members of `Selector` that `init` reads off its options. -/
structure Members where
  ifcNum : Int
  dict : List SelDictItem
deriving DecidableEq

/-- `define_new_alias_field`. -/
def defineNewAliasField (accepts : Str → Bool) (table : FieldTable) (aliasName fieldName : Str) :
    Except InitError FieldTable :=
  match table fieldName with
  | none => .error .unknownField
  | some type =>
      match urDefineField accepts table aliasName type with
      | none => .error .rejected
      | some table => .ok table

/-- One round of `fill_dict`. -/
def fillItem (accepts : Str → Bool) (state : FieldTable × List SelDictItem) (item : Str) :
    Except InitError (FieldTable × List SelDictItem) :=
  match findFrom item "=".toList 0 with
  | none => .ok (state.1, state.2 ++ [⟨none, item⟩])
  | some found =>
      let aliasName := item.take found
      let fieldName := item.drop (found + 1)
      (defineNewAliasField accepts state.1 aliasName fieldName).map fun table =>
        (table, state.2 ++ [⟨some aliasName, fieldName⟩])

/-- `fill_dict`. -/
def fillDict (accepts : Str → Bool) (state : FieldTable × List SelDictItem) (input : List Str) :
    Except InitError (FieldTable × List SelDictItem) :=
  input.foldlM (fillItem accepts) state

/-- `std::stoi`; `none` when it throws. -/
def stoi (text : Str) : Option Int :=
  let digits :=
    match text.dropWhile isspace with
    | '-' :: rest => rest
    | '+' :: rest => rest
    | rest => rest
  let value := Timeouts.strtol text
  if (digits.head?.any Char.isDigit) && decide (-2 ^ 31 ≤ value ∧ value < 2 ^ 31) then some value
  else none

/-- `set_dict`, after which the table of fields holds the new aliases. -/
def setDict (accepts : Str → Bool) (table : FieldTable) (input : Str) :
    Except InitError (FieldTable × List SelDictItem) :=
  let input := input.filter fun c => !isspace c
  fillDict accepts (table, []) (divideStr input ",".toList)

/-- `init` up to the creation of its output template. -/
def init (accepts : Str → Bool) (table : FieldTable) (options : Str) :
    Except InitError (Members × FieldTable) :=
  match divideStr (cStr options) ":".toList with
  | [ifcNum, body] =>
      match stoi ifcNum with
      | none => .error .rejected
      | some ifcNum =>
          (setDict accepts table body).map fun (table, dict) => (⟨ifcNum, dict⟩, table)
  | _ => .error .rejected

/-! ### Records -/

/-- A record gives values to fields. -/
abbrev Values (α : Type) := Str → α

/-- The field an item writes. -/
def SelDictItem.target (item : SelDictItem) : Str := item.aliasName.getD item.fieldName

/-- One round of `eval`: the value of a field is copied. -/
def SelDictItem.copy {α : Type} (item : SelDictItem) (inRec outRec : Values α) : Values α :=
  Function.update outRec item.target (inRec item.fieldName)

/-- The record `eval` hands to `trap_send`. -/
def Members.eval {α : Type} (self : Members) (inRec outRec : Values α) : Values α :=
  self.dict.foldl (fun outRec item => item.copy inRec outRec) outRec

/-! ### Numbers -/

/-- The interface number comes back when it is an `int`. -/
theorem stoi_toStringNat (n : Nat) :
    stoi (toStringNat n) = if n < 2 ^ 31 then some (n : Int) else none := by
  obtain ⟨head, tail, digits, isHead, _⟩ := toStringNat_starts n
  have noMinus : head ≠ '-' := by
    rintro rfl
    cases isHead
  have noPlus : head ≠ '+' := by
    rintro rfl
    cases isHead
  have value := strtol_toStringNat n
  have dropped := dropWhile_isspace_toStringNat n
  rw [digits] at value dropped ⊢
  unfold stoi
  simp only [dropped]
  split
  · rename_i rest starts
    exact absurd (List.cons.inj starts).1 noMinus
  · rename_i rest starts
    exact absurd (List.cons.inj starts).1 noPlus
  · rw [value]
    simp only [List.head?_cons, Option.any_some, isHead, Bool.true_and, decide_eq_true_eq]
    by_cases small : n < 2 ^ 31
    · have same : min (n : Int) (2 ^ 63 - 1) = n := by omega
      rw [if_pos small, same, if_pos (by omega)]
    · rw [if_neg small, if_neg (by omega)]

end Policer.Selector
