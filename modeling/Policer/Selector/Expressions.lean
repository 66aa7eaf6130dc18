import Policer.Selector.RoundTrip

/-!
# Expressions of selectors

What an expression of a selector means, and what is left of it when `Selector::eval` copies
fields. `assignments_written_iff` says which assignments are carried out as they are written.
-/

namespace Policer.Parsing

/-! ### Meaning -/

/-- A number, a variable or an operator of an expression; parentheses only group. -/
inductive Symbol where
  | number (value : Double)
  | variable_ (sv : SelVariable)
  | operator_ (op : SelOptoken)

mutual

/-- The symbols of an operand in textual order. -/
def SelOperand.symbols : SelOperand → List Symbol
  | .nil => []
  | .number value => [.number value]
  | .variable_ sv => [.variable_ sv]
  | .unary operator_ operand_ => .operator_ operator_ :: operand_.symbols
  | .expression se => se.symbols

/-- The symbols of an expression in textual order. -/
def SelExpression.symbols : SelExpression → List Symbol
  | .mk first rest => first.symbols ++ rest.symbols

def SelOperations.symbols : SelOperations → List Symbol
  | .nil => []
  | .cons operator_ operand_ rest => .operator_ operator_ :: (operand_.symbols ++ rest.symbols)

end

/-- The number of the digits in front of and behind the point, scaled by a power of ten. -/
def realValue (negative : Bool) (digits fraction : Str) (exponent : Int) : Rat :=
  let size : Rat := (Nat.ofDigitChars 10 (digits ++ fraction) 0 : Nat)
  (if negative then -size else size) * 10 ^ (exponent - fraction.length)

/-- The rational number a literal denotes. -/
def Double.value : Double → Option Rat
  | .literal negative digits fraction exponent =>
      some (realValue negative digits fraction exponent)
  | .infinity _ | .nan => none

/-- The value of a sign in front of an operand. -/
def SelOptoken.unary (op : SelOptoken) (value : Rat) : Option Rat :=
  match op with
  | .positive => some value
  | .negative => some (-value)
  | _ => none

/-- The value of an operation; a quotient by zero has none. -/
def SelOptoken.binary (op : SelOptoken) (left right : Rat) : Option Rat :=
  match op with
  | .plus => some (left + right)
  | .minus => some (left - right)
  | .times => some (left * right)
  | .divide => if right = 0 then none else some (left / right)
  | .positive | .negative => none

mutual

/-- The value of an operand, given those of the variables. -/
def SelOperand.value (valueOf : SelVariable → Rat) : SelOperand → Option Rat
  | .nil => none
  | .number value => value.value
  | .variable_ sv => some (valueOf sv)
  | .unary operator_ operand_ => (operand_.value valueOf).bind operator_.unary
  | .expression se => se.value valueOf

/-- The value of an expression; the grammar nests what binds tighter. -/
def SelExpression.value (valueOf : SelVariable → Rat) : SelExpression → Option Rat
  | .mk first rest => (first.value valueOf).bind (rest.valueFrom valueOf)

/-- The value of operations behind a left operand. -/
def SelOperations.valueFrom (valueOf : SelVariable → Rat) : SelOperations → Rat → Option Rat
  | .nil, left => some left
  | .cons operator_ operand_ rest, left =>
      ((operand_.value valueOf).bind (operator_.binary left)).bind (rest.valueFrom valueOf)

end

/-! ### Expressions that are one variable -/

theorem mem_symbols_cons (first operand_ : SelOperand) (operator_ : SelOptoken)
    (rest : SelOperations) :
    .operator_ operator_ ∈ (SelExpression.mk first (.cons operator_ operand_ rest)).symbols :=
  List.mem_append_right first.symbols List.mem_cons_self

theorem symbols_mk_nil (first : SelOperand) :
    (SelExpression.mk first .nil).symbols = first.symbols := List.append_nil _

theorem value_mk_nil (first : SelOperand) (valueOf : SelVariable → Rat) :
    (SelExpression.mk first .nil).value valueOf = first.value valueOf := by
  rw [SelExpression.value]
  cases first.value valueOf <;> rfl

mutual

theorem SelOperand.of_symbols_eq_singleton {sv : SelVariable} : (operand_ : SelOperand) →
    operand_.symbols = [.variable_ sv] →
      operand_.reached = [sv] ∧ ∀ valueOf, operand_.value valueOf = some (valueOf sv)
  | .nil, one => by cases one
  | .number _, one => by cases one
  | .variable_ other, one => by
      cases one
      exact ⟨rfl, fun _ => rfl⟩
  | .unary _ _, one => by cases one
  | .expression se, one => se.of_symbols_eq_singleton one

/-- An expression that has no symbol but one variable has the value of the variable. -/
theorem SelExpression.of_symbols_eq_singleton {sv : SelVariable} : (se : SelExpression) →
    se.symbols = [.variable_ sv] →
      se.reached = [sv] ∧ ∀ valueOf, se.value valueOf = some (valueOf sv)
  | .mk first .nil, one => by
      obtain ⟨reached, value⟩ := first.of_symbols_eq_singleton (symbols_mk_nil first ▸ one)
      refine ⟨?_, fun valueOf => (value_mk_nil first valueOf).trans (value valueOf)⟩
      rw [SelExpression.reached, reached]
      rfl
  | .mk first (.cons operator_ operand_ rest), one => by
      have inside := mem_symbols_cons first operand_ operator_ rest
      rw [one, List.mem_singleton] at inside
      cases inside

end

mutual

theorem SelOperand.onlyVariables_cases : (operand_ : SelOperand) →
    (∀ symbol ∈ operand_.symbols, ∃ sv, symbol = .variable_ sv) →
      (∀ valueOf, operand_.value valueOf = none) ∨ ∃ sv, operand_.symbols = [.variable_ sv]
  | .nil, _ => Or.inl fun _ => rfl
  | .number _, only => by
      obtain ⟨_, same⟩ := only _ List.mem_cons_self
      cases same
  | .variable_ sv, _ => Or.inr ⟨sv, rfl⟩
  | .unary _ _, only => by
      obtain ⟨_, same⟩ := only _ List.mem_cons_self
      cases same
  | .expression se, only => se.onlyVariables_cases only

/-- An expression whose symbols are all variables has just one, or it has no value. -/
theorem SelExpression.onlyVariables_cases : (se : SelExpression) →
    (∀ symbol ∈ se.symbols, ∃ sv, symbol = .variable_ sv) →
      (∀ valueOf, se.value valueOf = none) ∨ ∃ sv, se.symbols = [.variable_ sv]
  | .mk first .nil, only => by
      rw [symbols_mk_nil] at only
      rcases first.onlyVariables_cases only with none | one
      · exact Or.inl fun valueOf => (value_mk_nil first valueOf).trans (none valueOf)
      · exact Or.inr (symbols_mk_nil first ▸ one)
  | .mk first (.cons operator_ operand_ rest), only => by
      obtain ⟨_, same⟩ := only _ (mem_symbols_cons first operand_ operator_ rest)
      cases same

end

/-- The variables of an assignment whose text reaches the option string. -/
def SelAssignment.kept (sa : SelAssignment) : List SelVariable :=
  match sa.output, sa.selExpression with
  | .name _, some se => se.reached
  | _, _ => []

end Policer.Parsing

namespace Policer.Selector

open Policer.Lib Policer.Parsing Policer.Backend Policer.Aggregator

/-! ### Assignments -/

/-- The field an assignment writes. -/
def outputField : SelOutput → Str
  | .name text => text
  | .keyword unir => stringUnirecEnum unir

/-- The value of an expression on a record: a variable is a keyword, or a name that stands for its
recorded alias. -/
def valueOn (pairs : List VarName) (inRec : Values Rat) (se : SelExpression) : Option Rat :=
  se.value fun sv => inRec (renameVariable pairs sv)

/-- An assignment is carried out: the options are not cut off inside of it, its only entry copies
the value of the expression into the output, and no number, variable or operator of the expression
is dropped. -/
structure CarriedOut (accepts : Str → Bool) (state : FieldTable × List SelDictItem)
    (pairs : List VarName) (sa : SelAssignment) (se : SelExpression) : Prop where
  uncut : '\x00' ∉ itemText sa
  written : ∃ fields item,
    fillDict accepts state (pieces pairs sa) = .ok (fields, state.2 ++ [item]) ∧
    ∀ inRec outRec : Values Rat, ∃ value, valueOn pairs inRec se = some value ∧
      item.copy inRec outRec = Function.update outRec (outputField sa.output) value
  complete : sa.kept.map Symbol.variable_ = se.symbols

/-- A name with nothing in it at which an item is cut. -/
structure Whole (name : Str) : Prop where
  noZero : '\x00' ∉ name
  noSpace : ∀ c ∈ name, isspace c = false
  noComma : ',' ∉ name
  noEqual : '=' ∉ name

/-- The assignment gives a name to one variable, in any number of parentheses, whose text is
renamed to its field. -/
def IsRenaming (table : FieldTable) (pairs : List VarName) (sa : SelAssignment)
    (se : SelExpression) : Prop :=
  ∃ name sv, sa.output = .name name ∧ Whole name ∧ se.symbols = [.variable_ sv] ∧
    renameText pairs (variableText sv) = renameVariable pairs sv ∧
      (table (renameVariable pairs sv)).isSome = true

variable {accepts : Str → Bool} {pairs : List VarName}

theorem defineItems_singleton (table : FieldTable) (item : SelDictItem) :
    defineItems accepts table [item] = defineItem accepts table item := by
  rw [defineItems, List.foldlM_cons]
  cases defineItem accepts table item <;> rfl

/-- Only the type of an unknown field is not read. -/
theorem isSome_iff_defineNewAliasField (accepts : Str → Bool) (table : FieldTable)
    (aliasName fieldName : Str) :
    (table fieldName).isSome = true ↔
      defineNewAliasField accepts table aliasName fieldName ≠ .error .unknownField := by
  unfold defineNewAliasField
  cases table fieldName with
  | none => simp
  | some type =>
      dsimp only
      split <;> simp

theorem noZero_variableText (sv : SelVariable) : '\x00' ∉ variableText sv := by
  cases sv with
  | keyword unir => cases unir <;> decide
  | name variable_ =>
      intro zero
      have inside := variable_.isRest _ zero
      revert inside
      decide

/-- A renaming whose name can be defined is carried out. -/
theorem carriedOut_of_isRenaming {state : FieldTable × List SelDictItem} {sa : SelAssignment}
    {se : SelExpression} (isExpression : sa.selExpression = some se)
    (renames : IsRenaming state.1 pairs sa se)
    (definable : fillDict accepts state (pieces pairs sa) ≠ .error .rejected) :
    CarriedOut accepts state pairs sa se := by
  obtain ⟨name, sv, isName, whole, one, renamed, known⟩ := renames
  obtain ⟨output, expression⟩ := sa
  obtain rfl : output = .name name := isName
  obtain rfl : expression = some se := isExpression
  obtain ⟨table, dict⟩ := state
  obtain ⟨reached, value⟩ := se.of_symbols_eq_singleton one
  have entries : (pieces pairs ⟨.name name, some se⟩).map readItem =
      [⟨some name, renameVariable pairs sv⟩] := by
    have text : [sv].flatMap variableText = variableText sv := List.append_nil _
    rw [pieces_assigned whole.noSpace whole.noComma whole.noEqual, List.map_singleton,
      readItem_assigned whole.noEqual, reached, text, renamed]
  have made : fillDict accepts (table, dict) (pieces pairs ⟨.name name, some se⟩) =
      (defineItems accepts table [⟨some name, renameVariable pairs sv⟩]).map fun fields =>
        (fields, dict ++ [⟨some name, renameVariable pairs sv⟩]) := by
    rw [fillDict_eq, entries]
  rw [made] at definable
  cases defined : defineItems accepts table [⟨some name, renameVariable pairs sv⟩] with
  | error failed =>
      have single := (defineItems_singleton table _).symm.trans defined
      cases failed with
      | rejected =>
          rw [defined] at definable
          exact absurd rfl definable
      | unknownField =>
        exact absurd single ((isSome_iff_defineNewAliasField accepts table name _).mp known)
  | ok fields =>
      refine ⟨?_, ⟨fields, ⟨some name, renameVariable pairs sv⟩, ?_, fun inRec outRec => ?_⟩, ?_⟩
      · change '\x00' ∉ name ++ "=".toList ++ se.reached.flatMap variableText
        rw [reached, List.mem_append, List.mem_append, not_or, not_or]
        exact ⟨⟨whole.noZero, by decide⟩, by simpa using noZero_variableText sv⟩
      · rw [made, defined]
        rfl
      · exact ⟨inRec (renameVariable pairs sv), value _, rfl⟩
      · exact (congrArg (List.map Symbol.variable_) reached).trans one.symm

/-- An assignment whose only entry has its own name has a whole name. -/
theorem whole_of_entry {name : Str} {se : SelExpression} {item : SelDictItem}
    (uncut : '\x00' ∉ itemText ⟨.name name, some se⟩)
    (entries : (pieces pairs ⟨.name name, some se⟩).map readItem = [item])
    (target : item.target = name) : Whole name := by
  have noZero : '\x00' ∉ name := fun zero =>
    uncut (List.mem_append_left _ (List.mem_append_left _ zero))
  let right := unspaced (se.reached.flatMap variableText)
  have text : unspaced (itemText ⟨.name name, some se⟩) = unspaced name ++ "=".toList ++ right := by
    change unspaced (name ++ "=".toList ++ se.reached.flatMap variableText) = _
    rw [unspaced, List.filter_append, List.filter_append]
    rfl
  have noComma : ',' ∉ unspaced name ++ "=".toList ++ right := by
    intro comma
    obtain ⟨before, rest, split, fresh⟩ := List.eq_append_cons_of_mem comma
    obtain ⟨next, more, later⟩ := List.exists_cons_of_ne_nil (List.splitOn_ne_nil ',' rest)
    rw [pieces, text, split, List.splitOn_append_cons_self_of_not_mem fresh, later] at entries
    simp at entries
  rw [pieces, text, List.splitOn_eq_singleton noComma, List.map_singleton, List.map_singleton]
    at entries
  obtain rfl := (List.singleton_inj.mp entries).symm
  have outside : ',' ∉ unspaced name := fun inside =>
    noComma (List.mem_append_left _ (List.mem_append_left _ inside))
  by_cases equal : '=' ∈ unspaced name
  · obtain ⟨before, rest, split, fresh⟩ := List.eq_append_cons_of_mem equal
    have nested : unspaced name ++ "=".toList ++ right =
        before ++ "=".toList ++ (rest ++ "=".toList ++ right) := by
      rw [split]
      simp only [List.append_assoc]
      rfl
    rw [nested, renamePiece_assigned fresh, readItem_assigned fresh] at target
    obtain rfl : before = name := target
    exact absurd (List.mem_of_mem_filter equal) fresh
  · rw [renamePiece_assigned equal, readItem_assigned equal] at target
    have same : unspaced name = name := target
    have within : ∀ {c}, c ∈ name → c ∈ unspaced name := fun member => by rwa [same]
    exact ⟨noZero, fun c member => isspace_of_mem_unspaced (within member),
      fun comma => outside (within comma), fun sign => equal (within sign)⟩

/-- What is carried out is a renaming. -/
theorem isRenaming_of_carriedOut {state : FieldTable × List SelDictItem} {sa : SelAssignment}
    {se : SelExpression} (isExpression : sa.selExpression = some se)
    (carried : CarriedOut accepts state pairs sa se) : IsRenaming state.1 pairs sa se := by
  obtain ⟨uncut, ⟨fields, item, made, copies⟩, complete⟩ := carried
  obtain ⟨table, dict⟩ := state
  rw [fillDict_eq] at made
  obtain ⟨_, defined, same⟩ := map_ok.mp made
  have entries : (pieces pairs sa).map readItem = [item] :=
    List.append_cancel_left (congrArg Prod.snd same)
  rw [entries, defineItems_singleton] at defined
  have target : item.target = outputField sa.output := by
    by_contra other
    obtain ⟨value, _, copied⟩ := copies (fun _ => 1) fun _ => 0
    have here := congrFun copied item.target
    rw [SelDictItem.copy, Function.update_self, Function.update_of_ne other] at here
    exact absurd here (by decide)
  have only : ∀ symbol ∈ se.symbols, ∃ sv, symbol = .variable_ sv := by
    intro symbol member
    rw [← complete] at member
    obtain ⟨sv, _, rfl⟩ := List.mem_map.mp member
    exact ⟨sv, rfl⟩
  obtain ⟨sv, one⟩ := (se.onlyVariables_cases only).resolve_left fun none => by
    obtain ⟨value, isValue, _⟩ := copies (fun _ => 0) fun _ => 0
    rw [valueOn, none] at isValue
    cases isValue
  obtain ⟨output, expression⟩ := sa
  obtain rfl : expression = some se := isExpression
  cases output with
  | keyword unir =>
      rw [one] at complete
      cases complete
  | name name =>
      have whole := whole_of_entry uncut entries target
      obtain ⟨reached, value⟩ := se.of_symbols_eq_singleton one
      have text : [sv].flatMap variableText = variableText sv := List.append_nil _
      rw [pieces_assigned whole.noSpace whole.noComma whole.noEqual, List.map_singleton,
        readItem_assigned whole.noEqual, reached, text] at entries
      obtain rfl := List.singleton_inj.mp entries
      have renamed : renameText pairs (variableText sv) = renameVariable pairs sv := by
        by_contra other
        obtain ⟨copied, isValue, updated⟩ :=
          copies (fun field => if field = renameText pairs (variableText sv) then 1 else 0)
            fun _ => 0
        rw [valueOn, value, if_neg (Ne.symm other)] at isValue
        have here := congrFun updated name
        rw [SelDictItem.copy, SelDictItem.target, Option.getD_some, outputField,
          Function.update_self, Function.update_self, if_pos rfl, ← Option.some.inj isValue] at here
        exact absurd here (by decide)
      refine ⟨name, sv, rfl, whole, one, renamed, ?_⟩
      rw [← renamed]
      refine (isSome_iff_defineNewAliasField accepts table name _).mpr fun fails => ?_
      cases fails.symm.trans defined

/-! ### Bodies -/

/-- The dictionary is filled with one item after the other. -/
theorem fillDict_flatMap (state : FieldTable × List SelDictItem) (items : List SelAssignment) :
    fillDict accepts state (items.flatMap (pieces pairs)) =
      items.foldlM (fun state sa => fillDict accepts state (pieces pairs sa)) state := by
  induction items generalizing state with
  | nil => rfl
  | cons head tail ih =>
      rw [List.flatMap_cons, fillDict, List.foldlM_append, List.foldlM_cons]
      exact congrArg (fillDict accepts state (pieces pairs head) >>= ·) (funext ih)

/-- `Selector::init` on the options of a body without a zero byte: a colon in a name makes it give
up, and else it reads one item after the other. -/
theorem init_body {body : SelectorBody} (filled : ∀ sa ∈ body.all, itemText sa ≠ [])
    {recorded : Option (List VarName)} (assigned : ∀ var ∈ recorded.getD [], var.Assigned)
    (noZero : '\x00' ∉ applyAliases (selectorText body) recorded .selectorBody)
    (table : FieldTable) (number : Nat) :
    init accepts table (toStringNat number ++ ":".toList ++
        applyAliases (selectorText body) recorded .selectorBody) =
      if ':' ∈ applyAliases (selectorText body) recorded .selectorBody ∨ 2 ^ 31 ≤ number then
        .error .rejected
      else
        (body.all.foldlM (fun state sa =>
          fillDict accepts state (pieces (recorded.getD []) sa)) (table, [])).map fun filled =>
            (⟨number, filled.2⟩, filled.1) := by
  rw [init_eq, cStr_eq_self noZero, pieces_body filled assigned]
  split
  · rfl
  · rw [← fillDict_flatMap, fillDict_eq]
    simp only [List.nil_append]
    cases defineItems accepts table
      ((body.all.flatMap (pieces (recorded.getD []))).map readItem) <;>
      rfl

theorem itemText_ne_nil_of_output {sa : SelAssignment} (named : sa.output ≠ .name []) :
    itemText sa ≠ [] := by
  obtain ⟨output, expression⟩ := sa
  cases output with
  | keyword unir => exact (plain_unirec unir).nonempty
  | name text =>
      have some : text ≠ [] := fun empty => named (congrArg SelOutput.name empty)
      cases expression with
      | none => exact some
      | some se =>
          change text ++ "=".toList ++ _ ≠ []
          simp

/-- For every selector of an accepted rule file, `Selector::init` reads its items one after the
other. When an assignment is not rejected there, it is carried out as it is written exactly when
it gives a whole name to one variable whose text is renamed to a field UniRec knows. -/
theorem assignments_written_iff (accepts : Str → Bool) {ast : MainBranches} {data : InterRepr}
    (accepted : Accepted ast data) {start : Nat} {root : BuilderVec}
    (built : buildRoot data start = .ok root) :
    selectorOptionsOf root = numberedOptions data start (selectorsOf ast.occurrences) ∧
      ∀ ctx body, (ctx, body) ∈ selectorsOf ast.occurrences →
        (∀ sa ∈ body.all, sa.output ≠ .name []) →
      ∀ recorded, data.selVars[stageKey .selector ctx.path]? = recorded →
        ('\x00' ∉ applyAliases (selectorText body) recorded .selectorBody →
          ∀ table (number : Nat), init accepts table (selectorOptions data ctx body number) =
            if ':' ∈ applyAliases (selectorText body) recorded .selectorBody ∨ 2 ^ 31 ≤ number then
              .error .rejected
            else
              (body.all.foldlM (fun state sa =>
                fillDict accepts state (pieces (recorded.getD []) sa)) (table, [])).map
                  fun filled => (⟨number, filled.2⟩, filled.1)) ∧
        ∀ sa ∈ body.all, ∀ se, sa.selExpression = some se → ∀ state,
          fillDict accepts state (pieces (recorded.getD []) sa) ≠ .error .rejected →
            (CarriedOut accepts state (recorded.getD []) sa se ↔
              IsRenaming state.1 (recorded.getD []) sa se) := by
  refine ⟨selectorOptionsOf_root accepted.run built, ?_⟩
  rintro ctx body _ named _ rfl
  have assigned : ∀ var ∈ (data.selVars[stageKey .selector ctx.path]?).getD [], var.Assigned :=
    assigned_of_getD accepted.run _
  refine ⟨fun noZero table number => ?_, fun sa _ se isExpression state definable => ?_⟩
  · exact init_body (fun sa member => itemText_ne_nil_of_output (named sa member)) assigned noZero
      table number
  · exact ⟨isRenaming_of_carriedOut isExpression, fun renames =>
      carriedOut_of_isRenaming isExpression renames definable⟩

theorem assignments_written_iff_bytesAndPackets :
    ∃ data root, Accepted bytesAndPackets data ∧ buildRoot data 0 = .ok root ∧
      selectorOptionsOf root = ["0:x=BYTES,PACKETS".toList] ∧
      CarriedOut (fun _ => true) (definedFields, []) [] bytesItem.assignment
        (.mk (.variable_ (.keyword .bytes)) .nil) := by
  obtain ⟨data, accepted, recorded⟩ := accepted_of_accepts bytesAndPackets
    (fun data => data.selVars[stageKey .selector [⟨"main".toList, rfl⟩]]? == none)
    (by decide +kernel)
  have built := buildRoot_of_run accepted.run 0
  have noVars : data.selVars[stageKey .selector [⟨"main".toList, rfl⟩]]? = none := by
    simpa using recorded
  obtain ⟨options, selectors⟩ := assignments_written_iff (fun _ => true) accepted built
  refine ⟨data, _, accepted, built, ?_, ?_⟩
  · refine options.trans ?_
    exact congrArg (fun text => [text]) ((selectorOptions_of_none noVars).trans rfl)
  · have named : ∀ sa ∈ (keywordBody bytesItem [.keyword .packets]).all, sa.output ≠ .name [] := by
      intro sa member
      rcases List.mem_pair.mp member with rfl | rfl <;> rintro ⟨⟩
    have each := (selectors (Context.root.push ⟨"main".toList, rfl⟩)
      (keywordBody bytesItem [.keyword .packets]) List.mem_cons_self named none noVars).2
    refine (each bytesItem.assignment List.mem_cons_self _ rfl (definedFields, []) ?_).mpr ?_
    · intro rejected
      have read : (fillDict (fun _ => true) (definedFields, [])
          (pieces [] bytesItem.assignment)).map Prod.snd =
            .ok [⟨some "x".toList, "BYTES".toList⟩] := by decide +kernel
      change fillDict _ _ (pieces [] bytesItem.assignment) = _ at rejected
      rw [rejected] at read
      cases read
    · have clean := clean_identifier ⟨"x".toList, rfl⟩
      exact ⟨"x".toList, .keyword .bytes, rfl,
        ⟨by decide, clean.noSpace, clean.noComma, clean.noEqual⟩, rfl, rfl, rfl⟩

/-- `BYTES * 2`. -/
def twiceBytes : SelExpression :=
  .mk (.variable_ (.keyword .bytes)) (.cons .times (.number (.literal false ['2'] [] 0)) .nil)

/-- `main { selector: twice = BYTES * 2; }`. -/
def twice : MainBranches where
  first := .mk .main
    (.stage (.selector ⟨⟨⟨.name "twice".toList, some twiceBytes⟩, []⟩⟩))
  rest := .nil

/-- The pipeline is built and copies `BYTES` into `twice`. -/
theorem twice_not_carriedOut :
    ∃ data root, Accepted twice data ∧ buildRoot data 0 = .ok root ∧
      selectorOptionsOf root = ["0:twice=BYTES".toList] ∧
      (init (fun _ => true) definedFields "0:twice=BYTES".toList).map Prod.fst =
        .ok ⟨0, [⟨some "twice".toList, "BYTES".toList⟩]⟩ ∧
      Members.eval ⟨0, [⟨some "twice".toList, "BYTES".toList⟩]⟩ (fun _ => (1 : Rat)) (fun _ => 0)
        "twice".toList = 1 ∧
      valueOn [] (fun _ => 1) twiceBytes = some 2 := by
  obtain ⟨data, accepted, recorded⟩ := accepted_of_accepts twice
    (fun data => data.selVars[stageKey .selector [⟨"main".toList, rfl⟩]]? == none)
    (by decide +kernel)
  have noVars : data.selVars[stageKey .selector [⟨"main".toList, rfl⟩]]? = none := by
    simpa using recorded
  have built := buildRoot_of_run accepted.run 0
  refine ⟨data, _, accepted, built, ?_, by decide +kernel, rfl, by decide +kernel⟩
  refine (selectorOptionsOf_root accepted.run built).trans ?_
  exact congrArg (fun text => [text]) ((selectorOptions_of_none noVars).trans rfl)

end Policer.Selector
