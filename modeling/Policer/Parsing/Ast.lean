import Mathlib.Data.List.Basic

/-!
# Abstract syntax of a rule file

The structures of `ast.hpp` with the enumeration texts of `ast.cpp`. The five
branch families after a stage differ only in the successor they carry, so they
are one parameterised type with an abbreviation for each member. Branch and
variable names are `Identifier`s, which `identifier_def` guarantees.
-/

namespace Policer

/-- `std::string` over the bytes the rule language uses. -/
abbrev Str := List Char

namespace Parsing

/-- First character of `identifier_def`: `alpha | '_'`. -/
def isIdentifierStart (c : Char) : Bool := c.isAlpha || c == '_'

/-- Later characters of `identifier_def`: `alnum | '_'`. -/
def isIdentifierRest (c : Char) : Bool := c.isAlphanum || c == '_'

/-- `raw[lexeme[(alpha | '_') >> *(alnum | '_')]]`. -/
def isIdentifier : Str → Bool
  | [] => false
  | c :: rest => isIdentifierStart c && rest.all isIdentifierRest

/-- A name accepted by `identifier_def`. -/
structure Identifier where
  text : Str
  valid : isIdentifier text = true
deriving DecidableEq

/-! ### Letters and names -/

theorem isUpper_iff_toNat {c : Char} : c.isUpper = true ↔ 65 ≤ c.val.toNat ∧ c.val.toNat ≤ 90 :=
  decide_eq_true_iff

theorem isLower_iff_toNat {c : Char} : c.isLower = true ↔ 97 ≤ c.val.toNat ∧ c.val.toNat ≤ 122 := by
  rw [show c.isLower = (decide ('a'.val ≤ c.val) && decide (c.val ≤ 'z'.val)) from rfl,
    Bool.and_eq_true, decide_eq_true_eq, decide_eq_true_eq]
  exact Iff.rfl

theorem isAlpha_iff {c : Char} : c.isAlpha = true ↔ c.isUpper = true ∨ c.isLower = true :=
  Bool.or_eq_true_iff

theorem isAlphanum_of_isAlpha {c : Char} (alpha : c.isAlpha = true) : c.isAlphanum = true :=
  Bool.or_eq_true_iff.mpr (Or.inl alpha)

theorem isIdentifierRest_of_start {c : Char} (starts : isIdentifierStart c = true) :
    isIdentifierRest c = true := by
  simp only [isIdentifierStart, isIdentifierRest, Bool.or_eq_true] at *
  exact starts.imp_left isAlphanum_of_isAlpha

namespace Identifier

variable (name : Identifier)

theorem exists_cons : ∃ c tail, name.text = c :: tail ∧ isIdentifierStart c = true ∧
    ∀ d ∈ tail, isIdentifierRest d = true := by
  have valid := name.valid
  cases made : name.text with
  | nil =>
      rw [made] at valid
      cases valid
  | cons c tail =>
      rw [made, isIdentifier, Bool.and_eq_true, List.all_eq_true] at valid
      exact ⟨c, tail, rfl, valid⟩

theorem text_ne_nil : name.text ≠ [] := by
  obtain ⟨c, tail, made, _⟩ := name.exists_cons
  simp [made]

theorem isRest : ∀ c ∈ name.text, isIdentifierRest c = true := by
  obtain ⟨c, tail, made, starts, inside⟩ := name.exists_cons
  rw [made, List.forall_mem_cons]
  exact ⟨isIdentifierRest_of_start starts, inside⟩

theorem text_injective : Function.Injective Identifier.text := by
  rintro ⟨text, _⟩ ⟨other, _⟩ rfl
  rfl

/-! Names of branches and variables in the programs below. -/

def main : Identifier := ⟨"main".toList, rfl⟩

def one : Identifier := ⟨"one".toList, rfl⟩

def two : Identifier := ⟨"two".toList, rfl⟩

def a : Identifier := ⟨"a".toList, rfl⟩

def v : Identifier := ⟨"v".toList, rfl⟩

def w : Identifier := ⟨"w".toList, rfl⟩

end Identifier

/-- UniRec keywords (`ast::unirec`). -/
inductive Unirec where
  | dstIP
  | srcIP
  | bytes
  | linkBitField
  | timeFirst
  | timeLast
  | packets
  | dstPort
  | srcPort
  | dirBitField
  | protocol
  | tcpFlags
  | tos
  | ttl
deriving DecidableEq, Repr

/-- `string_unirecEnum`. -/
def stringUnirecEnum : Unirec → Str
  | .dstIP => "DST_IP".toList
  | .srcIP => "SRC_IP".toList
  | .bytes => "BYTES".toList
  | .linkBitField => "LINK_BIT_FIELD".toList
  | .timeFirst => "TIME_FIRST".toList
  | .timeLast => "TIME_LAST".toList
  | .packets => "PACKETS".toList
  | .dstPort => "DST_PORT".toList
  | .srcPort => "SRC_PORT".toList
  | .dirBitField => "DIR_BIT_FIELD".toList
  | .protocol => "PROTOCOL".toList
  | .tcpFlags => "TCP_FLAGS".toList
  | .tos => "TOS".toList
  | .ttl => "TTL".toList

/-- `string_isUnirec`. The list of the source has no `"BYTES"`. -/
def stringIsUnirec (item : Str) : Bool :=
  item == "DST_IP".toList || item == "SRC_IP".toList || item == "LINK_BIT_FIELD".toList ||
    item == "TIME_FIRST".toList || item == "TIME_LAST".toList || item == "PACKETS".toList ||
    item == "DST_PORT".toList || item == "SRC_PORT".toList || item == "DIR_BIT_FIELD".toList ||
    item == "PROTOCOL".toList || item == "TCP_FLAGS".toList || item == "TOS".toList ||
    item == "TTL".toList

/-- Special mode of the Grouper stage (`grouper_case`). -/
inductive GrouperCase where
  | bidirectional
deriving DecidableEq, Repr

/-- `window_type`. -/
inductive WindowType where
  | active
  | passive
  | global
  | mixed
deriving DecidableEq, Repr

/-- `aggr_func_with_param`. -/
inductive AggrFuncWithParam where
  | sum
  | average
  | minimal
  | maximal
  | first
  | last
  | or
  | and
  | countDistinct
  | rate
deriving DecidableEq, Repr

/-- `string_aggrWithParamEnum`. -/
def stringAggrWithParamEnum : AggrFuncWithParam → Str
  | .sum => "SUM".toList
  | .average => "AVG".toList
  | .minimal => "MIN".toList
  | .maximal => "MAX".toList
  | .first => "FIRST".toList
  | .last => "LAST".toList
  | .or => "OR".toList
  | .and => "AND".toList
  | .countDistinct => "COUNT_DISTINCT".toList
  | .rate => "RATE".toList

/-- `aggr_func_without_param`. -/
inductive AggrFuncWithoutParam where
  | count
deriving DecidableEq, Repr

/-- `unsigned int` seconds. -/
abbrev Seconds := UInt32

/-- `grouper_keys`: the first key and the remaining ones. -/
structure GrouperKeys where
  first : Unirec
  rest : List Unirec

/-- All keys in textual order. -/
def GrouperKeys.all (keys : GrouperKeys) : List Unirec := keys.first :: keys.rest

/-- `grouper_type`. -/
inductive GrouperType where
  | keys (gk : GrouperKeys)
  | special (mode : GrouperCase)

/-- The keys a grouper body lists; the special mode lists none. -/
def GrouperType.all : GrouperType → List Unirec
  | .keys gk => gk.all
  | .special _ => []

/-- `window_body`. -/
structure WindowBody where
  type : WindowType
  range : Seconds

/-- `aggr_func_with_param_s`. -/
structure AggrFuncWithParamS where
  funcName : AggrFuncWithParam
  param : Unirec
deriving DecidableEq

/-- `aggr_func_type`. -/
inductive AggrFuncType where
  | withParam (func : AggrFuncWithParamS)
  | withoutParam (func : AggrFuncWithoutParam)
deriving DecidableEq

/-- `aggr_assignment`. -/
structure AggrAssignment where
  variableName : Identifier
  funcType : AggrFuncType
deriving DecidableEq

/-- `aggregator_body`. -/
structure AggregatorBody where
  first : AggrAssignment
  rest : List AggrAssignment

/-- All assignments in textual order. -/
def AggregatorBody.all (body : AggregatorBody) : List AggrAssignment := body.first :: body.rest

/-- `sel_variable`. -/
inductive SelVariable where
  | keyword (unir : Unirec)
  | name (variable_ : Identifier)

/-- `sel_optoken`. -/
inductive SelOptoken where
  | plus
  | minus
  | times
  | divide
  | positive
  | negative
deriving DecidableEq, Repr

/-- `double`, by the literal it is computed from: the digits in front of the point and behind it,
and the exponent. How they are rounded is left open. -/
inductive Double where
  | literal (negative : Bool) (digits fraction : Str) (exponent : Int)
  | infinity (negative : Bool)
  | nan
deriving DecidableEq, Repr

mutual

/-- `sel_operand`. -/
inductive SelOperand where
  | nil
  | number (value : Double)
  | variable_ (sv : SelVariable)
  | unary (operator_ : SelOptoken) (operand_ : SelOperand)
  | expression (se : SelExpression)

/-- `sel_expression`. -/
inductive SelExpression where
  | mk (first : SelOperand) (rest : SelOperations)

/-- `sel_operation_vec`. -/
inductive SelOperations where
  | nil
  | cons (operator_ : SelOptoken) (operand_ : SelOperand) (rest : SelOperations)

end

/-- `sel_output`: an identifier, a quoted text or a keyword. -/
inductive SelOutput where
  | name (text : Str)
  | keyword (unir : Unirec)

/-- `sel_assignment`. -/
structure SelAssignment where
  output : SelOutput
  selExpression : Option SelExpression

/-- `selector_body`. -/
structure SelectorBody where
  first : SelAssignment
  rest : List SelAssignment

/-- All items in textual order. -/
def SelectorBody.all (body : SelectorBody) : List SelAssignment := body.first :: body.rest

/-- A named branch after a stage: it holds a successor or one more branch. -/
inductive BranchAfter (σ : Type) where
  | stage (name : Identifier) (succ : σ)
  | branch (name : Identifier) (inner : BranchAfter σ)

/-- `name` of a branch. -/
def BranchAfter.name {σ : Type} : BranchAfter σ → Identifier
  | .stage name _ => name
  | .branch name _ => name

/-- Consecutive branches behind a stage. -/
structure BranchAfterS (σ : Type) where
  first : BranchAfter σ
  rest : List (BranchAfter σ)

/-- The successor of a stage is a stage or branches. -/
inductive Successor (σ : Type) where
  | stage (succ : σ)
  | branches (branches : BranchAfterS σ)

/-- `selector_stage`. -/
structure SelectorStage where
  body : SelectorBody

/-- `group_filter_stage`. -/
structure GroupFilterStage where
  body : Str
  succ : Successor SelectorStage

/-- `ag_stage_succ`. -/
inductive AgStageSucc where
  | groupFilter (gfs : GroupFilterStage)
  | selector (ss : SelectorStage)

/-- `aggregator_stage`. -/
structure AggregatorStage where
  body : AggregatorBody
  succ : Successor AgStageSucc

/-- `wi_stage_succ`. -/
inductive WiStageSucc where
  | aggregator (as : AggregatorStage)
  | groupFilter (gfs : GroupFilterStage)
  | selector (ss : SelectorStage)

/-- `window_stage`. -/
structure WindowStage where
  body : WindowBody
  succ : Successor WiStageSucc

/-- `gr_stage_succ`. -/
inductive GrStageSucc where
  | window (ws : WindowStage)
  | aggregator (as : AggregatorStage)
  | groupFilter (gfs : GroupFilterStage)
  | selector (ss : SelectorStage)

/-- `grouper_stage`. -/
structure GrouperStage where
  body : GrouperType
  succ : Successor GrStageSucc

/-- `fi_stage_succ`. -/
inductive FiStageSucc where
  | grouper (gs : GrouperStage)
  | window (ws : WindowStage)
  | aggregator (as : AggregatorStage)
  | selector (ss : SelectorStage)

/-- `filter_stage`. -/
structure FilterStage where
  body : Str
  succ : Successor FiStageSucc

/-- `stage`. -/
inductive Stage where
  | filter (fs : FilterStage)
  | grouper (gs : GrouperStage)
  | window (ws : WindowStage)
  | aggregator (as : AggregatorStage)
  | selector (ss : SelectorStage)

mutual

/-- `main_branch`. -/
inductive MainBranch where
  | mk (name : Identifier) (mbm : MainBranchBody)

/-- `main_branch_body`. -/
inductive MainBranchBody where
  | stage (stg : Stage)
  | branches (mbv : MainBranchVec)

/-- `main_branch_vec`. -/
inductive MainBranchVec where
  | nil
  | cons (first : MainBranch) (rest : MainBranchVec)

end

/-- `main_branches`. -/
structure MainBranches where
  first : MainBranch
  rest : MainBranchVec

end Parsing
end Policer
