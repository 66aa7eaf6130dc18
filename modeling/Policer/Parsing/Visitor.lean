import Policer.Lib.Action
import Policer.Parsing.Exception

/-!
# Crawling through the syntax tree

`Visitor` is the class of `ast_visitor.hpp`: one field for each `operator()`
that some derived class overrides, with the inherited body as its default. A
method that descends receives the traversals of its children as arguments, so
an override decides whether and where it calls them. The functions below the
structure are the methods no class overrides and the `boost::apply_visitor`
dispatch between them.
-/

namespace Policer.Parsing

open Policer.Lib

/-- A method of a visitor whose members have type `σ`. -/
abbrev Method (σ : Type) := Action Failure σ

/-- The overridable methods of `Visitor<class Visitor_T>`. -/
structure Visitor (σ : Type) where
  string : Str → Method σ := fun _ => Action.skip
  unirec : Unirec → Method σ := fun _ => Action.skip
  aggrFuncWithParamS : AggrFuncWithParamS → Method σ := fun agf => unirec agf.param
  aggrFuncWithoutParam : AggrFuncWithoutParam → Method σ := fun _ => Action.skip
  aggrAssignment : AggrAssignment → (funcType : Method σ) → Method σ :=
    fun _ funcType => funcType
  /-- The inherited method visits `output` and not the expression. -/
  selAssignment : SelAssignment → (output expression : Method σ) → Method σ :=
    fun _ output _ => output
  filterStage : Str → (succ : Method σ) → Method σ := fun _ succ => succ
  grouperStage : GrouperType → (type succ : Method σ) → Method σ := fun _ type succ => type >=> succ
  windowStage : WindowBody → (succ : Method σ) → Method σ := fun _ succ => succ
  aggregatorStage : AggregatorBody → (body succ : Method σ) → Method σ :=
    fun _ body succ => body >=> succ
  groupFilterStage : Str → (succ : Method σ) → Method σ := fun _ succ => succ
  selectorStage : SelectorBody → (body : Method σ) → Method σ := fun _ body => body
  mainBranch : Identifier → (mbm : Method σ) → Method σ := fun _ mbm => mbm
  mainBranchVec : List (Identifier × Method σ) → Method σ :=
    fun items => Action.sequence (items.map Prod.snd)
  mainBranches : (first : Identifier × Method σ) → (rest : List (Identifier × Method σ)) →
      Method σ :=
    fun first rest => first.2 >=> mainBranchVec rest
  /-- `branch_after_fi_s`, `branch_after_gr_s`, `branch_after_wi_s`, `branch_after_ag_s` and
  `branch_after_gf_s`, which every class defines alike. -/
  branchAfterS : (first : Identifier × Method σ) → (rest : List (Identifier × Method σ)) →
      Method σ :=
    fun first rest => first.2 >=> Action.sequence (rest.map Prod.snd)

mutual

/-- The variables a visit of an operand meets; below a sign it meets none. -/
def SelOperand.reached : SelOperand → List SelVariable
  | .nil => []
  | .number _ => []
  | .variable_ sv => [sv]
  | .unary _ _ => []
  | .expression se => se.reached

/-- The variables a visit of an expression meets. -/
def SelExpression.reached : SelExpression → List SelVariable
  | .mk first rest => first.reached ++ rest.reached

def SelOperations.reached : SelOperations → List SelVariable
  | .nil => []
  | .cons _ operand_ rest => operand_.reached ++ rest.reached

end

namespace Visitor

variable {σ : Type} (v : Visitor σ)

/-- `sel_variable`. -/
def selVariable : SelVariable → Method σ
  | .keyword unir => v.unirec unir
  | .name variable_ => v.string variable_.text

mutual

/-- `sel_operand`: the method for `sel_unary` has an empty body. -/
def selOperand : SelOperand → Method σ
  | .nil => Action.skip
  | .number _ => Action.skip
  | .variable_ sv => v.selVariable sv
  | .unary _ _ => Action.skip
  | .expression se => selExpression se

/-- `sel_expression`. -/
def selExpression : SelExpression → Method σ
  | .mk first rest => selOperand first >=> selOperations rest

/-- The loop over `sel_operation`s. -/
def selOperations : SelOperations → Method σ
  | .nil => Action.skip
  | .cons _ operand_ rest => selOperand operand_ >=> selOperations rest

end

mutual

theorem selOperand_eq : (operand_ : SelOperand) →
    v.selOperand operand_ = Action.sequence (operand_.reached.map v.selVariable)
  | .nil => rfl
  | .number _ => rfl
  | .variable_ sv => by simp [selOperand, SelOperand.reached]
  | .unary _ _ => rfl
  | .expression se => by simpa [selOperand, SelOperand.reached] using selExpression_eq se

/-- A visit of an expression runs the method for variables on those it meets. -/
theorem selExpression_eq : (se : SelExpression) →
    v.selExpression se = Action.sequence (se.reached.map v.selVariable)
  | .mk first rest => by
      rw [selExpression, selOperand_eq first, selOperations_eq rest, SelExpression.reached,
        List.map_append, Action.sequence_append]

theorem selOperations_eq : (operations : SelOperations) →
    v.selOperations operations = Action.sequence (operations.reached.map v.selVariable)
  | .nil => rfl
  | .cons _ operand_ rest => by
      rw [selOperations, selOperand_eq operand_, selOperations_eq rest, SelOperations.reached,
        List.map_append, Action.sequence_append]

end

/-- `sel_output`. -/
def selOutput : SelOutput → Method σ
  | .name text => v.string text
  | .keyword unir => v.unirec unir

/-- The traversal of the optional expression of a selector item. -/
def optionalExpression : Option SelExpression → Method σ
  | none => Action.skip
  | some se => v.selExpression se

/-- One selector item. -/
def visitSelAssignment (sa : SelAssignment) : Method σ :=
  v.selAssignment sa (v.selOutput sa.output) (v.optionalExpression sa.selExpression)

/-- `selector_body`. -/
def selectorBody (body : SelectorBody) : Method σ :=
  Action.sequence (body.all.map v.visitSelAssignment)

/-- `aggr_func_type`. -/
def aggrFuncType : AggrFuncType → Method σ
  | .withParam func => v.aggrFuncWithParamS func
  | .withoutParam func => v.aggrFuncWithoutParam func

/-- `aggregator_body`. -/
def aggregatorBody (body : AggregatorBody) : Method σ :=
  Action.sequence (body.all.map fun as => v.aggrAssignment as (v.aggrFuncType as.funcType))

/-- `grouper_type`: the method for `grouper_case` has an empty body. -/
def grouperType (type : GrouperType) : Method σ :=
  Action.sequence (type.all.map v.unirec)

/-- Methods that ignore names and keywords ignore a selector body. -/
theorem selectorBody_skip (quiet : ∀ sa, v.visitSelAssignment sa = Action.skip)
    (body : SelectorBody) : v.selectorBody body = Action.skip :=
  Action.sequence_skip body.all fun sa _ => quiet sa

theorem aggregatorBody_skip
    (quiet : ∀ as, v.aggrAssignment as (v.aggrFuncType as.funcType) = Action.skip)
    (body : AggregatorBody) : v.aggregatorBody body = Action.skip :=
  Action.sequence_skip body.all fun as _ => quiet as

theorem grouperType_skip (quiet : ∀ unir, v.unirec unir = Action.skip) (type : GrouperType) :
    v.grouperType type = Action.skip :=
  Action.sequence_skip type.all fun unir _ => quiet unir

/-- `branch_body_after_stage`: a branch that holds one branch descends into it. -/
def branchAfter {τ : Type} (visit : τ → Method σ) : BranchAfter τ → Method σ
  | .stage _ succ => visit succ
  | .branch _ inner => branchAfter visit inner

/-- A branch with the name its siblings are told apart by. -/
def namedBranch {τ : Type} (visit : τ → Method σ) (branch : BranchAfter τ) :
    Identifier × Method σ :=
  (branch.name, branchAfter visit branch)

/-- `succ` of a stage. -/
def successor {τ : Type} (visit : τ → Method σ) : Successor τ → Method σ
  | .stage succ => visit succ
  | .branches branches =>
      v.branchAfterS (namedBranch visit branches.first) (branches.rest.map (namedBranch visit))

def visitSelectorStage (ss : SelectorStage) : Method σ :=
  v.selectorStage ss.body (v.selectorBody ss.body)

def visitGroupFilterStage (gfs : GroupFilterStage) : Method σ :=
  v.groupFilterStage gfs.body (v.successor v.visitSelectorStage gfs.succ)

def agStageSucc : AgStageSucc → Method σ
  | .groupFilter gfs => v.visitGroupFilterStage gfs
  | .selector ss => v.visitSelectorStage ss

def visitAggregatorStage (as : AggregatorStage) : Method σ :=
  v.aggregatorStage as.body (v.aggregatorBody as.body) (v.successor v.agStageSucc as.succ)

def wiStageSucc : WiStageSucc → Method σ
  | .aggregator as => v.visitAggregatorStage as
  | .groupFilter gfs => v.visitGroupFilterStage gfs
  | .selector ss => v.visitSelectorStage ss

def visitWindowStage (ws : WindowStage) : Method σ :=
  v.windowStage ws.body (v.successor v.wiStageSucc ws.succ)

def grStageSucc : GrStageSucc → Method σ
  | .window ws => v.visitWindowStage ws
  | .aggregator as => v.visitAggregatorStage as
  | .groupFilter gfs => v.visitGroupFilterStage gfs
  | .selector ss => v.visitSelectorStage ss

def visitGrouperStage (gs : GrouperStage) : Method σ :=
  v.grouperStage gs.body (v.grouperType gs.body) (v.successor v.grStageSucc gs.succ)

def fiStageSucc : FiStageSucc → Method σ
  | .grouper gs => v.visitGrouperStage gs
  | .window ws => v.visitWindowStage ws
  | .aggregator as => v.visitAggregatorStage as
  | .selector ss => v.visitSelectorStage ss

def visitFilterStage (fs : FilterStage) : Method σ :=
  v.filterStage fs.body (v.successor v.fiStageSucc fs.succ)

def stage : Stage → Method σ
  | .filter fs => v.visitFilterStage fs
  | .grouper gs => v.visitGrouperStage gs
  | .window ws => v.visitWindowStage ws
  | .aggregator as => v.visitAggregatorStage as
  | .selector ss => v.visitSelectorStage ss

mutual

/-- `main_branch` with its name. -/
def visitMainBranch : MainBranch → Identifier × Method σ
  | .mk name mbm => (name, v.mainBranch name (visitMainBranchBody mbm))

/-- `mbm` of a main branch. -/
def visitMainBranchBody : MainBranchBody → Method σ
  | .stage stg => v.stage stg
  | .branches mbv => v.mainBranchVec (visitMainBranchVec mbv)

/-- The items of a `main_branch_vec`. -/
def visitMainBranchVec : MainBranchVec → List (Identifier × Method σ)
  | .nil => []
  | .cons first rest => visitMainBranch first :: visitMainBranchVec rest

end

/-- Apply the visitor to a whole rule file. -/
def visit (ast : MainBranches) : Method σ :=
  v.mainBranches (v.visitMainBranch ast.first) (v.visitMainBranchVec ast.rest)

end Visitor
end Policer.Parsing
