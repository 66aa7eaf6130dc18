import Policer.Aggregator.UniRec
import Policer.Backend.StringFunctions
import Policer.Lib.Tokens

/-!
# Configuration of an aggregator

`Config` collects what the options of an aggregator say: the fields with their
functions and the timeouts. Its invariants are fields of the structure, so every
`Config` registers a name once, never a time, and no more fields than its arrays hold.
The variable-length flag is left out, since no field has a variable length.
-/

namespace Policer.Aggregator

open Policer.Lib Policer.Parsing Policer.Backend

/-- Codes of the functions a field can have (`KEY`, `SUM` and so on). -/
inductive FunctionCode where
  | key
  | sum
  | avg
  | min
  | max
  | first
  | last
  | bitOr
  | bitAnd
  | rate
  | countDistinct
deriving DecidableEq, Repr

/-- `timeout_type`, and the index of its value in `timeout`. -/
inductive TimeoutType where
  | active
  | passive
  | global
  | activePassive
deriving DecidableEq, Repr

/-- `DEFAULT_TIMEOUT`. -/
def defaultTimeout : Int := 10

/-- `MAX_KEY_FIELDS`. -/
def maxKeyFields : Nat := 32

/-- `TIME_FIRST` and `TIME_LAST` cannot be assigned. -/
def isTimeName (name : Str) : Bool := name == "TIME_LAST".toList || name == "TIME_FIRST".toList

/-- One index of `functions`, `field_names` and `associated_with_id`. -/
structure ConfigField where
  function : FunctionCode
  name : Str
  associatedWithId : Option Field
deriving DecidableEq

/-! ### Timeouts -/

/-- `timeout` and `timeout_type`. The entry of `timeout` for `activePassive` lies outside the
array of the source; no option of the builder writes there. -/
structure Timeouts where
  timeout : TimeoutType → Int
  timeoutType : TimeoutType

namespace Timeouts

/-- `strtol` with base 10 on a platform with 64-bit `long`. -/
def strtol (text : Str) : Int :=
  let text := text.dropWhile isspace
  let digits (rest : Str) : Int := (Nat.ofDigitChars 10 (rest.takeWhile Char.isDigit) 0 : Nat)
  let value := match text with
    | '-' :: rest => -digits rest
    | '+' :: rest => digits rest
    | _ => digits text
  max (-2 ^ 63) (min value (2 ^ 63 - 1))

/-- `atoi`: the `long` is cut to an `int`. -/
def atoi (text : Str) : Int := (strtol text).bmod (2 ^ 32)

/-- The type `set_timeout` reads off the first character. -/
def timeoutTypeOf : Char → Option TimeoutType
  | 'a' | 'A' => some .active
  | 'p' | 'P' => some .passive
  | 'g' | 'G' => some .global
  | 'm' | 'M' => some .activePassive
  | _ => none

/-- One entry of `timeout` is written. -/
def setOf (self : Timeouts) (type : TimeoutType) (value : Int) : Timeouts :=
  { self with timeout := Function.update self.timeout type value }

/-- The part of `set_timeout` that reads the values behind the type. -/
def readValues (self : Timeouts) (second : Str) : Timeouts :=
  if self.timeoutType = .activePassive then
    match tokens ',' second with
    | activeTimeout :: passiveTimeout :: _ =>
        (self.setOf .active (atoi activeTimeout)).setOf .passive (atoi passiveTimeout)
    | [_] => { self with timeoutType := .active }
    | [] => self
  else self.setOf self.timeoutType (atoi second)

/-- The part of `set_timeout` before the values are checked. -/
def readDefinition (self : Timeouts) (input : Str) : Timeouts :=
  match tokens ':' input with
  | first :: second :: _ =>
      readValues
        { self with
          timeoutType := (first.head?.bind timeoutTypeOf).getD self.timeoutType } second
  | [first] => self.setOf self.timeoutType (atoi first)
  | [] => self

/-- The part of `set_timeout` that replaces values that are not positive. -/
def checkValues (self : Timeouts) : Timeouts :=
  if self.timeoutType = .activePassive then
    if self.timeout .active ≤ 0 ∨ self.timeout .passive ≤ 0 then
      (self.setOf .active defaultTimeout).setOf .passive defaultTimeout
    else self
  else if self.timeout self.timeoutType ≤ 0 then
    self.setOf self.timeoutType defaultTimeout
  else self

/-- `set_timeout`. -/
def set (self : Timeouts) (input : Str) : Timeouts :=
  if 21 < input.length then self else checkValues (readDefinition self input)

end Timeouts

/-! ### Fields -/

/-- Members of `Config`. -/
structure Config where
  fields : List ConfigField
  timeouts : Timeouts
  distinct : (fields.map ConfigField.name).Nodup
  noTimes : ∀ field ∈ fields, isTimeName field.name = false
  fits : fields.length ≤ maxKeyFields

namespace Config

/-- The constructor. -/
def new : Config where
  fields := []
  timeouts := ⟨fun _ => defaultTimeout, .active⟩
  distinct := List.nodup_nil
  noTimes := by simp
  fits := by simp [maxKeyFields]

/-- `verify_field`. -/
def verifyField (config : Config) (name : Str) : Bool :=
  !isTimeName name && !(config.fields.map ConfigField.name).contains name

/-- Write a field behind the registered ones. -/
def push (config : Config) (field : ConfigField) (room : config.fields.length < maxKeyFields)
    (verified : config.verifyField field.name = true) : Config :=
  { config with
    fields := config.fields ++ [field]
    distinct := by
      have fresh : field.name ∉ config.fields.map ConfigField.name := by
        simp only [verifyField, Bool.and_eq_true, Bool.not_eq_true'] at verified
        simpa using verified.2
      rw [List.map_append]
      exact List.nodup_append.mpr ⟨config.distinct, by simp, by
        intro name member other isOther
        rw [List.map_singleton, List.mem_singleton] at isOther
        rintro rfl
        exact fresh (isOther ▸ member)⟩
    noTimes := by
      intro other member
      rcases List.mem_append.mp member with before | added
      · exact config.noTimes other before
      · obtain rfl := List.mem_singleton.mp added
        simp only [verifyField, Bool.and_eq_true, Bool.not_eq_true'] at verified
        exact verified.1
    fits := by simpa [List.length_append] using Nat.succ_le_of_lt room }

@[simp] theorem fields_push (config : Config) (field : ConfigField)
    (room : config.fields.length < maxKeyFields)
    (verified : config.verifyField field.name = true) :
    (config.push field room verified).fields = config.fields ++ [field] := rfl

/-- `add_member`. -/
def addMember (config : Config) (func : FunctionCode) (fieldName : Str) : Config :=
  if room : config.fields.length < maxKeyFields then
    if verified : config.verifyField fieldName = true then
      config.push ⟨func, fieldName, none⟩ room verified
    else config
  else config

/-- `add_ptr_member` for `"COUNT_DISTINCT"`. -/
def addPtrMember (config : Config) (fieldName : Str) : Config :=
  let expandedAggName := "COUNT_DISTINCT".toList ++ "_".toList ++ fieldName
  if room : config.fields.length + 1 < maxKeyFields then
    if verified : config.verifyField expandedAggName = true then
      config.push ⟨.countDistinct, expandedAggName, urGetIdByName fieldName⟩ (by omega) verified
    else config
  else config

/-- `set_timeout`. -/
def setTimeout (config : Config) (input : Str) : Config :=
  { config with timeouts := config.timeouts.set input }

/-! ### The output template -/

/-- `STATIC_FIELDS`. -/
def staticFields : Str := "TIME_FIRST,TIME_LAST,COUNT".toList

/-- `return_template_def`. -/
def returnTemplateDef (config : Config) : Str :=
  (config.fields.flatMap fun field => field.name ++ ",".toList) ++ staticFields

end Config

/-- `ur_create_template`; `none` when a name is unknown. -/
def urCreateTemplate (definition : Str) : Option (List Field) :=
  (tokens ',' definition).mapM urGetIdByName

end Policer.Aggregator
