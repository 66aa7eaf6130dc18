import Policer.Parsing.FilterNames
import Policer.Parsing.SelectorGrammar
import Policer.Parsing.Verdicts

/-!
# Names no one knows

`Check_filter_bodies` looks the recorded names of a group-filter up among the variables of the
aggregator above and in the list of `string_isUnirec`, which is the table of keywords without
`BYTES`. What it reports is compared with what the bodies mention.
-/

namespace Policer.Parsing

open Policer.Lib

/-! ### What bodies mention and what is recorded -/

/-- The keywords of the rule grammar. -/
def keywordNames : List Str := inputKeyword.map Prod.fst

/-- A variable of the aggregator above or a keyword. -/
def Covered (ctx : Context) (name : Str) : Prop :=
  name ∈ CheckFilterBodies.variablesAbove ctx ∨ name ∈ keywordNames

/-- A filter whose body is no filter. -/
def Malformed : Context × Node → Prop
  | (_, .inner (.filter body)) => (ff2Init body).names? = none
  | _ => False

namespace CheckFilterBodies

end CheckFilterBodies

/-- Group-filters with one path have one body, every filter body is a filter, and every name of a
group-filter has its room. -/
structure Undisturbed (ast : MainBranches) : Prop where
  alone : ∀ ctx body ctx' body', (ctx, .inner (.groupFilter body)) ∈ ast.occurrences →
    (ctx', .inner (.groupFilter body')) ∈ ast.occurrences → ctx.path = ctx'.path → body = body'
  filters : ∀ occ ∈ ast.occurrences, ¬ Malformed occ
  room : ∀ ctx body, (ctx, .inner (.groupFilter body)) ∈ ast.occurrences →
    ∀ expr : FilterExpr, filterTokens (cStr body) = expr.tokens →
      expr.names.length ≤ numberOfStrings ∧ ∀ name ∈ expr.names, name.length ≤ 1022

namespace Undisturbed

variable {ast : MainBranches} (undisturbed : Undisturbed ast)
include undisturbed

end Undisturbed

end Policer.Parsing
