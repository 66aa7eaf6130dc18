import Policer.Parsing.FilterExpressions

/-!
# The grammar of the filter stage

The productions of `ffilter_gram.y` of the filter stage, which builds a tree where the copy of the
rule parser only collects names. Here the precedences matter: `not` binds closer than `and`, `and`
closer than `or`, and both group to the left. What the parser finds is nested this way. The texts
are those of strings that fit into the buffers they are copied to.
-/

namespace Policer.Filter

open Policer.Parsing

/-! ### Texts of values -/

/-- `field`. -/
def fieldText : FilterField → Str
  | .ident name => name
  | field => printed field.text

/-- `consistent_val`; the quotes are taken off behind the copy. -/
def consistentText : ConsistentVal → Str
  | .string item => item.text
  | .quoted text => printed text.dropLast.tail

/-- `value`. -/
def valueText : FilterValue → Str
  | .consistent item => consistentText item
  | .strings first second => printed (first.text ++ ' ' :: second.text)

/-- The texts of a list. -/
def listTexts : FilterList → List Str
  | .comma item rest => consistentText item :: listTexts rest
  | .blank item rest => consistentText item :: listTexts rest
  | .last item => [consistentText item]

/-- The texts the strings of a value are copied from. -/
def valueSources : FilterValue → List Str
  | .consistent item => [item.source]
  | .strings first second => [first.text, second.text]

/-- The texts the strings of a list are copied from. -/
def listSources : FilterList → List Str
  | .comma item rest => item.source :: listSources rest
  | .blank item rest => item.source :: listSources rest
  | .last item => [item.source]

/-- The texts the strings of a condition are copied from. -/
def leafSources : FilterLeaf → List Str
  | .exist field => field.parts
  | .compare field _ value => field.parts ++ valueSources value
  | .among field list => field.parts ++ listSources list
  | .bare name => [name]

/-! ### The parser -/

/-- `field`. -/
def readField : List FilterToken → Option (FilterField × List FilterToken)
  | .ident name :: rest => some (.ident name, rest)
  | .dir d :: .ident name :: rest => some (.dir d name, rest)
  | .dir2 d :: .ident name :: rest => some (.dir2 d name, rest)
  | .dir2 d :: .dir e :: .ident name :: rest => some (.dir2Dir d e name, rest)
  | .pairOr :: .ident name :: rest => some (.pairOr name, rest)
  | .pairAnd :: .ident name :: rest => some (.pairAnd name, rest)
  | _ => none

/-- `string`. -/
def string? : FilterToken → Option FilterString
  | .ident text => some (.ident text)
  | .string text => some (.string text)
  | _ => none

/-- `consistent_val`. -/
def consistentVal? : FilterToken → Option ConsistentVal
  | .quoted text => some (.quoted text)
  | token => (string? token).map .string

/-- `value`: a second string is taken where there is one. -/
def readValue : List FilterToken → Option (FilterValue × List FilterToken)
  | [] => none
  | token :: rest =>
      match string? token, rest with
      | some first, next :: behind =>
          match string? next with
          | some second => some (.strings first second, behind)
          | none => some (.consistent (.string first), rest)
      | some first, [] => some (.consistent (.string first), rest)
      | none, _ => (consistentVal? token).map fun item => (.consistent item, rest)

/-- `list` up to its closing bracket. -/
def readList : List FilterToken → Option (FilterList × List FilterToken)
  | value :: .char [']'] :: rest => (consistentVal? value).map fun item => (.last item, rest)
  | value :: .char [','] :: rest =>
      (consistentVal? value).bind fun item =>
        (readList rest).map fun found => (.comma item found.1, found.2)
  | value :: rest =>
      (consistentVal? value).bind fun item =>
        (readList rest).map fun found => (.blank item found.1, found.2)
  | [] => none

/-- `cmp value` or `IN list` behind a field. -/
def readCondition (field : FilterField) :
    List FilterToken → Option (FilterLeaf × List FilterToken)
  | .in :: rest => (readList rest).map fun found => (.among field found.1, found.2)
  | .isset :: rest => (readValue rest).map fun found => (.compare field .isset found.1, found.2)
  | .eq :: rest => (readValue rest).map fun found => (.compare field .eq found.1, found.2)
  | .lt :: rest => (readValue rest).map fun found => (.compare field .lt found.1, found.2)
  | .gt :: rest => (readValue rest).map fun found => (.compare field .gt found.1, found.2)
  | rest => (readValue rest).map fun found => (.compare field .none found.1, found.2)

/-- A leaf of `expr`. -/
def readLeaf : List FilterToken → Option (FilterLeaf × List FilterToken)
  | .exist :: rest => (readField rest).map fun found => (.exist found.1, found.2)
  | tokens =>
      (readField tokens).bind fun (field, rest) =>
        match readCondition field rest, field with
        | some found, _ => some found
        | none, .ident name => some (.bare name, rest)
        | none, _ => none

/-- An expression with the disjunction that waits to its left. -/
def join : Option FilterExpr → FilterExpr → FilterExpr
  | none, last => last
  | some before, last => .or before last

mutual

/-- An operand: what `not` applies to. -/
def readOperand : Nat → List FilterToken → Option (FilterExpr × List FilterToken)
  | 0, _ => none
  | fuel + 1, .not :: rest => (readOperand fuel rest).map fun found => (.not found.1, found.2)
  | fuel + 1, .char ['('] :: rest =>
      match readExpr fuel none rest with
      | some (inner, .char [')'] :: behind) => some (.paren inner, behind)
      | _ => none
  | _ + 1, .any :: rest => some (.any, rest)
  | _ + 1, tokens => (readLeaf tokens).map fun found => (.leaf found.1, found.2)

/-- `expr` behind a disjunction that waits for its right side. -/
def readExpr : Nat → Option FilterExpr → List FilterToken → Option (FilterExpr × List FilterToken)
  | 0, _, _ => none
  | fuel + 1, before, tokens =>
      (readOperand fuel tokens).bind fun (first, rest) => readOperators fuel before first rest

/-- The operators behind a conjunction: `and` extends it, `or` ends it. -/
def readOperators : Nat → Option FilterExpr → FilterExpr → List FilterToken →
    Option (FilterExpr × List FilterToken)
  | 0, _, _, _ => none
  | fuel + 1, before, last, .and :: rest =>
      (readOperand fuel rest).bind fun (right, rest) =>
        readOperators fuel before (.and last right) rest
  | fuel + 1, before, last, .or :: rest => readExpr fuel (some (join before last)) rest
  | _ + 1, before, last, tokens => some (join before last, tokens)

end

/-- `ff3g_parse`: the tree of `filter`, which may be empty. -/
def ff3gParse : List FilterToken → Option (Option FilterExpr)
  | [] => some none
  | tokens =>
      match readExpr (2 * tokens.length + 2) none tokens with
      | some (root, []) => some (some root)
      | _ => none

/-! ### Nesting -/

/-- An operand of `not`, or a whole side of `and`. -/
def IsOperand : FilterExpr → Prop
  | .and _ _ | .or _ _ => False
  | _ => True

/-- No disjunction at the top. -/
def IsConjunction : FilterExpr → Prop
  | .or _ _ => False
  | _ => True

/-- A tree nested by the precedences: what stands below an operator without parentheses binds
closer, or as close on its left. -/
def Nested : FilterExpr → Prop
  | .any => True
  | .not inner => IsOperand inner ∧ Nested inner
  | .and left right => (IsConjunction left ∧ Nested left) ∧ IsOperand right ∧ Nested right
  | .or left right => Nested left ∧ IsConjunction right ∧ Nested right
  | .paren inner => Nested inner
  | .leaf _ => True

theorem IsOperand.isConjunction {expr : FilterExpr} (operand : IsOperand expr) :
    IsConjunction expr := by
  cases expr with
  | or left right => exact operand
  | _ => trivial

/-! ### The parser finds nested trees only -/

theorem readField_some {tokens rest : List FilterToken} {field : FilterField}
    (read : readField tokens = some (field, rest)) : tokens = field.tokens ++ rest := by
  unfold readField at read
  split at read
  all_goals
    cases read
    try rfl

theorem string?_some {token : FilterToken} {item : FilterString}
    (read : string? token = some item) : token = item.token := by
  cases token with
  | ident text | string text =>
      cases read
      rfl
  | _ => cases read

theorem consistentVal?_some {token : FilterToken} {item : ConsistentVal}
    (read : consistentVal? token = some item) : token = item.token := by
  cases token with
  | ident text | string text | quoted text =>
      cases read
      rfl
  | _ => cases read

theorem readValue_some {tokens rest : List FilterToken} {value : FilterValue}
    (read : readValue tokens = some (value, rest)) : tokens = value.tokens ++ rest := by
  unfold readValue at read
  split at read
  · cases read
  · rename_i token behind
    split at read
    · rename_i first next others isFirst
      obtain rfl := string?_some isFirst
      split at read
      · rename_i second isSecond
        obtain rfl := string?_some isSecond
        cases read
        rfl
      · cases read
        rfl
    · rename_i first isFirst
      obtain rfl := string?_some isFirst
      cases read
      rfl
    · obtain ⟨item, isItem, same⟩ := Option.map_eq_some_iff.mp read
      obtain rfl := consistentVal?_some isItem
      cases same
      rfl

theorem readList_some {tokens rest : List FilterToken} {list : FilterList}
    (read : readList tokens = some (list, rest)) : tokens = list.tokens ++ rest := by
  fun_induction readList tokens generalizing list rest with
  | case1 value behind =>
      obtain ⟨item, isItem, same⟩ := Option.map_eq_some_iff.mp read
      obtain rfl := consistentVal?_some isItem
      cases same
      rfl
  | case2 value behind ih =>
      obtain ⟨item, isItem, found⟩ := Option.bind_eq_some_iff.mp read
      obtain ⟨⟨others, after⟩, isList, same⟩ := Option.map_eq_some_iff.mp found
      obtain rfl := consistentVal?_some isItem
      obtain rfl := ih isList
      cases same
      rfl
  | case3 value behind _ _ ih =>
      obtain ⟨item, isItem, found⟩ := Option.bind_eq_some_iff.mp read
      obtain ⟨⟨others, after⟩, isList, same⟩ := Option.map_eq_some_iff.mp found
      obtain rfl := consistentVal?_some isItem
      obtain rfl := ih isList
      cases same
      rfl
  | case4 => cases read

theorem readCondition_some {field : FilterField} {tokens rest : List FilterToken}
    {leaf : FilterLeaf} (read : readCondition field tokens = some (leaf, rest)) :
    field.tokens ++ tokens = leaf.tokens ++ rest := by
  unfold readCondition at read
  split at read
  · obtain ⟨⟨list, behind⟩, isList, same⟩ := Option.map_eq_some_iff.mp read
    cases same
    simp [readList_some isList, FilterLeaf.tokens]
  all_goals
    obtain ⟨⟨value, behind⟩, isValue, same⟩ := Option.map_eq_some_iff.mp read
    cases same
    simp [readValue_some isValue, FilterLeaf.tokens, FilterCmp.tokens]

theorem readLeaf_some {tokens rest : List FilterToken} {leaf : FilterLeaf}
    (read : readLeaf tokens = some (leaf, rest)) : tokens = leaf.tokens ++ rest := by
  unfold readLeaf at read
  split at read
  · obtain ⟨⟨field, behind⟩, isField, same⟩ := Option.map_eq_some_iff.mp read
    cases same
    rw [readField_some isField]
    rfl
  · obtain ⟨⟨field, behind⟩, isField, found⟩ := Option.bind_eq_some_iff.mp read
    rw [readField_some isField]
    dsimp only at found
    split at found
    · rename_i condition
      cases found
      exact readCondition_some condition
    · cases found
      rfl
    · cases found

/-- The disjunction on the left of a conjunction that is not complete. -/
def NestedBefore : Option FilterExpr → Prop
  | none => True
  | some before => Nested before

theorem nested_join {before : Option FilterExpr} {last : FilterExpr} (left : NestedBefore before)
    (conjunction : IsConjunction last) (nested : Nested last) : Nested (join before last) := by
  cases before with
  | none => exact nested
  | some before => exact ⟨left, conjunction, nested⟩

/-- The tokens of a tree with the disjunction on its left. -/
def tokensFrom (before : Option FilterExpr) (tokens : List FilterToken) : List FilterToken :=
  before.elim tokens fun before => before.tokens ++ .or :: tokens

theorem tokens_join (before : Option FilterExpr) (last : FilterExpr) (rest : List FilterToken) :
    (join before last).tokens ++ rest = tokensFrom before (last.tokens ++ rest) := by
  cases before with
  | none => rfl
  | some before => simp [join, tokensFrom, FilterExpr.tokens]

/-- What the three parts of the parser make of a text is nested and has the tokens that were
read. -/
theorem reader_nested (fuel : Nat) :
    (∀ tokens expr rest, readOperand fuel tokens = some (expr, rest) →
      tokens = expr.tokens ++ rest ∧ IsOperand expr ∧ Nested expr) ∧
    (∀ before tokens expr rest, NestedBefore before →
      readExpr fuel before tokens = some (expr, rest) →
        tokensFrom before tokens = expr.tokens ++ rest ∧ Nested expr) ∧
    (∀ before last tokens expr rest, NestedBefore before → IsConjunction last → Nested last →
      readOperators fuel before last tokens = some (expr, rest) →
        tokensFrom before (last.tokens ++ tokens) = expr.tokens ++ rest ∧ Nested expr) := by
  induction fuel with
  | zero =>
      refine ⟨?_, ?_, ?_⟩
      · intro tokens expr rest read
        cases read
      · intro before tokens expr rest left read
        cases read
      · intro before last tokens expr rest left conjunction nested read
        cases read
  | succ fuel ih =>
      obtain ⟨operand, expression, operators⟩ := ih
      refine ⟨?_, ?_, ?_⟩
      · intro tokens expr rest read
        unfold readOperand at read
        split at read
        · rename_i none
          cases none
        · rename_i behind same
          obtain rfl := Nat.succ.inj same
          obtain ⟨⟨inner, after⟩, isInner, made⟩ := Option.map_eq_some_iff.mp read
          obtain ⟨tokens, isOperand, nested⟩ := operand _ _ _ isInner
          cases made
          exact ⟨by rw [tokens]; rfl, trivial, isOperand, nested⟩
        · rename_i behind same
          obtain rfl := Nat.succ.inj same
          split at read
          · rename_i inner after isInner
            obtain ⟨tokens, nested⟩ := expression none _ _ _ trivial isInner
            cases read
            refine ⟨?_, trivial, nested⟩
            simp only [tokensFrom, Option.elim_none] at tokens
            simp [tokens, FilterExpr.tokens]
          · cases read
        · cases read
          exact ⟨rfl, trivial, trivial⟩
        · obtain ⟨⟨leaf, after⟩, isLeaf, made⟩ := Option.map_eq_some_iff.mp read
          cases made
          exact ⟨readLeaf_some isLeaf, trivial, trivial⟩
      · intro before tokens expr rest left read
        rw [readExpr] at read
        obtain ⟨⟨first, behind⟩, isFirst, found⟩ := Option.bind_eq_some_iff.mp read
        obtain ⟨rfl, isOperand, nested⟩ := operand _ _ _ isFirst
        exact operators _ _ _ _ _ left isOperand.isConjunction nested found
      · intro before last tokens expr rest left conjunction nested read
        unfold readOperators at read
        split at read
        · rename_i none
          cases none
        · rename_i behind same
          obtain rfl := Nat.succ.inj same
          obtain ⟨⟨right, after⟩, isRight, found⟩ := Option.bind_eq_some_iff.mp read
          obtain ⟨rfl, isOperand, nestedRight⟩ := operand _ _ _ isRight
          obtain ⟨tokens, nested⟩ := operators _ (.and _ right) _ _ _ left trivial
            ⟨⟨conjunction, nested⟩, isOperand, nestedRight⟩ found
          refine ⟨?_, nested⟩
          rw [← tokens]
          simp [FilterExpr.tokens]
        · rename_i behind same
          obtain rfl := Nat.succ.inj same
          obtain ⟨tokens, nested⟩ := expression (some _) _ _ _
            (nested_join left conjunction nested) read
          refine ⟨?_, nested⟩
          rw [← tokens, ← tokens_join]
          rfl
        · cases read
          exact ⟨(tokens_join ..).symm, nested_join left conjunction nested⟩

end Policer.Filter
