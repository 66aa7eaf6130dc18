import Policer.Parsing.FilterGrammar
import Policer.Parsing.Occurrence

/-!
# Keywords in a rule file

The UniRec keywords a stage mentions: keys of a grouper, parameters of an aggregator,
names in the body of a filter, outputs and expressions of a selector. A visitor that
overrides nothing but the method for keywords meets fewer of them: `keywordVisitor_visit`.
-/

namespace Policer.Parsing

open Policer.Lib

theorem stringUnirecEnum_injective {first second : Unirec}
    (same : stringUnirecEnum first = stringUnirecEnum second) : first = second := by
  revert same
  cases first <;> cases second <;> decide

/-! ### Mentioned keywords -/

/-- The function of an assignment when it has a parameter. -/
def withParam? (as : AggrAssignment) : Option AggrFuncWithParamS :=
  match as.funcType with
  | .withParam func => some func
  | .withoutParam _ => none

/-- The functions with a parameter in textual order. -/
def functionsOf (body : AggregatorBody) : List AggrFuncWithParamS := body.all.filterMap withParam?

/-- The keyword of a variable. -/
def SelVariable.keyword? : SelVariable → Option Unirec
  | .keyword unir => some unir
  | .name _ => none

/-- The name of a variable that is no keyword. -/
def SelVariable.name? : SelVariable → Option Str
  | .keyword _ => none
  | .name variable_ => some variable_.text

mutual

/-- The variables of an operand, also those below a sign. -/
def SelOperand.variables : SelOperand → List SelVariable
  | .nil => []
  | .number _ => []
  | .variable_ sv => [sv]
  | .unary _ operand_ => operand_.variables
  | .expression se => se.variables

/-- The variables of an expression. -/
def SelExpression.variables : SelExpression → List SelVariable
  | .mk first rest => first.variables ++ rest.variables

def SelOperations.variables : SelOperations → List SelVariable
  | .nil => []
  | .cons _ operand_ rest => operand_.variables ++ rest.variables

end

/-- The variables in the expression of an item. -/
def SelAssignment.variables (sa : SelAssignment) : List SelVariable :=
  sa.selExpression.elim [] SelExpression.variables

/-- The keyword an item uses as its output. -/
def SelAssignment.outputKeyword? (sa : SelAssignment) : Option Unirec :=
  match sa.output with
  | .name _ => none
  | .keyword unir => some unir

/-- The name of an item without expression: a variable or a quoted text. -/
def SelAssignment.bareName? (sa : SelAssignment) : Option Str :=
  match sa.output, sa.selExpression with
  | .name text, none => some text
  | _, _ => none

namespace SelectorBody

variable (body : SelectorBody)

/-- The keywords a selector uses as outputs. -/
def outputs : List Unirec := body.all.filterMap SelAssignment.outputKeyword?

/-- The keywords in the expressions of a selector. -/
def inExpressions : List Unirec :=
  (body.all.flatMap SelAssignment.variables).filterMap SelVariable.keyword?

/-- The names a selector takes values from. -/
def names : List Str :=
  body.all.filterMap SelAssignment.bareName? ++
    (body.all.flatMap SelAssignment.variables).filterMap SelVariable.name?

end SelectorBody

/-- The parameters of the aggregator above. -/
def Context.params (ctx : Context) : List Unirec :=
  ctx.aggregator.elim [] fun above => (functionsOf above.2).map AggrFuncWithParamS.param

/-- A filter body, up to its first zero, has a field of this name. -/
def NamedIn (body name : Str) : Prop :=
  ∃ found, filterNames (filterTokens (cStr body)) = some found ∧ some name ∈ found

namespace Node

/-- The keywords a stage uses as outputs. -/
def outputs : Node → List Unirec
  | .selector body => body.outputs
  | .inner _ => []

/-- The keywords in the expressions of a stage. -/
def inExpressions : Node → List Unirec
  | .selector body => body.inExpressions
  | .inner _ => []

/-- The names a group-filter or a selector takes values from. -/
def Names : Node → Str → Prop
  | .selector body, name => name ∈ body.names
  | .inner (.groupFilter body), name => NamedIn body name
  | .inner _, _ => False

end Node

/-! ### Keywords a visit meets -/

/-- The keywords a visit meets at a stage. -/
def Node.visited : Node → List Unirec
  | .selector body => body.outputs
  | .inner (.grouper type) => type.all
  | .inner (.aggregator body) => (functionsOf body).map AggrFuncWithParamS.param
  | .inner _ => []

/-- The keywords a visit meets in a rule file. -/
def MainBranches.visited (ast : MainBranches) : List Unirec :=
  ast.occurrences.flatMap fun occ => occ.2.visited

section KeywordVisitor

variable {σ : Type} (method : Unirec → Method σ)

/-- A visitor that overrides only the method for keywords. -/
def keywordVisitor : Visitor σ where
  unirec := method

/-- Run the method for every keyword of a list. -/
def runKeywords (keywords : List Unirec) : Method σ := Action.sequence (keywords.map method)

theorem runKeywords_append (first second : List Unirec) :
    runKeywords method (first ++ second) =
      (runKeywords method first >=> runKeywords method second) := by
  rw [runKeywords, List.map_append, Action.sequence_append]
  rfl

theorem keywordVisitor_siblings (level : BranchLevel) (items : List (Identifier × Method σ)) :
    (keywordVisitor method).siblings level items = Action.sequence (items.map Prod.snd) := by
  cases level <;> cases items <;> rfl

theorem keywordVisitor_branchItem (level : BranchLevel) (name : Identifier) (visit : Method σ) :
    (keywordVisitor method).branchItem level name visit = visit := by
  cases level <;> rfl

theorem keywordVisitor_selectorBody (body : SelectorBody) :
    (keywordVisitor method).selectorBody body = runKeywords method body.outputs := by
  unfold Visitor.selectorBody SelectorBody.outputs
  induction body.all with
  | nil => rfl
  | cons head tail ih =>
      rw [List.map_cons, Action.sequence_cons, ih]
      obtain ⟨output, selExpression⟩ := head
      cases output <;> rfl

theorem keywordVisitor_aggregatorBody (body : AggregatorBody) :
    (keywordVisitor method).aggregatorBody body =
      runKeywords method ((functionsOf body).map AggrFuncWithParamS.param) := by
  unfold Visitor.aggregatorBody functionsOf
  induction body.all with
  | nil => rfl
  | cons head tail ih =>
      rw [List.map_cons, Action.sequence_cons, ih]
      obtain ⟨name, func⟩ := head
      cases func <;> rfl

mutual

theorem keywordVisitor_tree (ctx : Context) : (t : Tree) →
    (keywordVisitor method).tree t =
      runKeywords method ((t.occurrences ctx).flatMap fun occ => occ.2.visited)
  | .selector body => by
      have visited : ((Tree.selector body).occurrences ctx).flatMap (fun occ => occ.2.visited) =
          body.outputs := List.append_nil _
      rw [visited]
      exact keywordVisitor_selectorBody method body
  | .stage st next => by
      have below := keywordVisitor_tree (ctx.enter st) next
      rw [Tree.occurrences, List.flatMap_cons, runKeywords_append, ← below]
      cases st with
      | aggregator body =>
          exact congrArg (· >=> (keywordVisitor method).tree next)
            (keywordVisitor_aggregatorBody method body)
      | _ => rfl
  | .branches level items => by
      rw [Visitor.tree, keywordVisitor_siblings]
      exact keywordVisitor_branches ctx level items

theorem keywordVisitor_branches (ctx : Context) (level : BranchLevel) : (items : Branches) →
    Action.sequence (((keywordVisitor method).branches level items).map Prod.snd) =
      runKeywords method ((items.occurrences ctx).flatMap fun occ => occ.2.visited)
  | .nil => rfl
  | .cons name tree rest => by
      rw [Visitor.branches, List.map_cons, Action.sequence_cons, keywordVisitor_branchItem,
        keywordVisitor_branches ctx level rest, keywordVisitor_tree (ctx.push name) tree,
        Branches.occurrences, List.flatMap_append, runKeywords_append]

end

/-- A visit of a rule file runs the method for the keywords it meets. -/
theorem keywordVisitor_visit (ast : MainBranches) :
    (keywordVisitor method).visit ast = runKeywords method ast.visited := by
  rw [Visitor.visit_eq_tree]
  exact keywordVisitor_tree method .root ast.tree

end KeywordVisitor

end Policer.Parsing
