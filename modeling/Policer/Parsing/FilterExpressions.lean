import Policer.Parsing.FilterBodies
import Policer.Parsing.FilterRenaming

/-!
# Filter expressions

Expressions of the filter grammar as trees, one constructor a production, with their tokens and
their fields in textual order. The reader of `filterNames` accepts exactly the tokens of such trees,
and what it records of a leaf is the text of its field, if the strings of the leaf fit into the
buffers of the grammar. `ff2_t_append` keeps the first `NUMBER_OF_STRINGS` of them, and no caller
looks at the code it sets.
-/

namespace Policer.Parsing

open Policer.Lib Policer.Lib.Lexer

/-! ### The productions -/

/-- `field`. -/
inductive FilterField where
  | ident (name : Str)
  | dir (direction name : Str)
  | dir2 (direction name : Str)
  | dir2Dir (outer direction name : Str)
  | pairOr (name : Str)
  | pairAnd (name : Str)

namespace FilterField

def tokens : FilterField → List FilterToken
  | .ident name => [.ident name]
  | .dir direction name => [.dir direction, .ident name]
  | .dir2 direction name => [.dir2 direction, .ident name]
  | .dir2Dir outer direction name => [.dir2 outer, .dir direction, .ident name]
  | .pairOr name => [.pairOr, .ident name]
  | .pairAnd name => [.pairAnd, .ident name]

/-- The name of a field, whatever its length. -/
def text : FilterField → Str
  | .ident name => name
  | .dir direction name => direction ++ name
  | .dir2 direction name => direction ++ name
  | .dir2Dir outer direction name => outer ++ direction ++ name
  | .pairOr name => '|' :: name
  | .pairAnd name => '&' :: name

/-- The texts of its tokens one by one, with the sign of a pair. -/
def parts : FilterField → List Str
  | .ident name => [name]
  | .dir direction name => [direction, name]
  | .dir2 direction name => [direction, name]
  | .dir2Dir outer direction name => [outer, direction, name]
  | .pairOr name => [['|'], name]
  | .pairAnd name => [['&'], name]

/-- What `ff2_new_leaf` is given. -/
def recorded : FilterField → Option Str
  | .ident name => copied name
  | field => printedAll field.parts

/-- A plain identifier. -/
def Plain : FilterField → Prop
  | .ident _ => True
  | _ => False

end FilterField

/-- `string`. -/
inductive FilterString where
  | ident (text : Str)
  | string (text : Str)

def FilterString.token : FilterString → FilterToken
  | .ident text => .ident text
  | .string text => .string text

def FilterString.text : FilterString → Str
  | .ident text => text
  | .string text => text

/-- `consistent_val`. -/
inductive ConsistentVal where
  | string (item : FilterString)
  | quoted (text : Str)

def ConsistentVal.token : ConsistentVal → FilterToken
  | .string item => item.token
  | .quoted text => .quoted text

/-- The text it is copied from. -/
def ConsistentVal.source : ConsistentVal → Str
  | .string item => item.text
  | .quoted text => text

/-- Its texts that are read up to their ends. -/
def ConsistentVal.readTexts : ConsistentVal → List Str
  | .string _ => []
  | .quoted text => [text]

/-- `value`. -/
inductive FilterValue where
  | consistent (item : ConsistentVal)
  | strings (first second : FilterString)

def FilterValue.tokens : FilterValue → List FilterToken
  | .consistent item => [item.token]
  | .strings first second => [first.token, second.token]

def FilterValue.readTexts : FilterValue → List Str
  | .consistent item => item.readTexts
  | .strings first second => [first.text, second.text]

/-- `list`. -/
inductive FilterList where
  | comma (item : ConsistentVal) (rest : FilterList)
  | blank (item : ConsistentVal) (rest : FilterList)
  | last (item : ConsistentVal)

def FilterList.tokens : FilterList → List FilterToken
  | .comma item rest => item.token :: .char [','] :: rest.tokens
  | .blank item rest => item.token :: rest.tokens
  | .last item => [item.token, .char [']']]

def FilterList.readTexts : FilterList → List Str
  | .comma item rest => item.readTexts ++ rest.readTexts
  | .blank item rest => item.readTexts ++ rest.readTexts
  | .last item => item.readTexts

/-- `cmp`. -/
inductive FilterCmp where
  | isset
  | eq
  | lt
  | gt
  | none

def FilterCmp.tokens : FilterCmp → List FilterToken
  | .isset => [.isset]
  | .eq => [.eq]
  | .lt => [.lt]
  | .gt => [.gt]
  | .none => []

/-- The productions of `expr` that call `ff2_new_leaf`. -/
inductive FilterLeaf where
  | exist (field : FilterField)
  | compare (field : FilterField) (cmp : FilterCmp) (value : FilterValue)
  | among (field : FilterField) (list : FilterList)
  | bare (name : Str)

namespace FilterLeaf

def field : FilterLeaf → FilterField
  | .exist field => field
  | .compare field _ _ => field
  | .among field _ => field
  | .bare name => .ident name

def tokens : FilterLeaf → List FilterToken
  | .exist field => .exist :: field.tokens
  | .compare field cmp value => field.tokens ++ cmp.tokens ++ value.tokens
  | .among field list => field.tokens ++ .in :: list.tokens
  | .bare name => [.ident name]

/-- The texts of its value that are read up to their ends. -/
def readTexts : FilterLeaf → List Str
  | .exist _ => []
  | .compare _ _ value => value.readTexts
  | .among _ list => list.readTexts
  | .bare _ => []

/-- What is recorded of a leaf; nothing can be said when one of its strings has lost its end. -/
def recorded (leaf : FilterLeaf) : Option Str :=
  if ends leaf.readTexts then leaf.field.recorded else none

end FilterLeaf

/-- `expr`. -/
inductive FilterExpr where
  | any
  | not (inner : FilterExpr)
  | and (left right : FilterExpr)
  | or (left right : FilterExpr)
  | paren (inner : FilterExpr)
  | leaf (condition : FilterLeaf)

namespace FilterExpr

def tokens : FilterExpr → List FilterToken
  | .any => [.any]
  | .not inner => .not :: inner.tokens
  | .and left right => left.tokens ++ .and :: right.tokens
  | .or left right => left.tokens ++ .or :: right.tokens
  | .paren inner => .char ['('] :: inner.tokens ++ [.char [')']]
  | .leaf condition => condition.tokens

/-- The leaves in textual order. -/
def leaves : FilterExpr → List FilterLeaf
  | .any => []
  | .not inner => inner.leaves
  | .and left right => left.leaves ++ right.leaves
  | .or left right => left.leaves ++ right.leaves
  | .paren inner => inner.leaves
  | .leaf condition => [condition]

/-- Their fields. -/
def fields (expr : FilterExpr) : List FilterField := expr.leaves.map FilterLeaf.field

/-- The field names in textual order. -/
def names (expr : FilterExpr) : List Str := expr.fields.map FilterField.text

/-- The names `ff2_t_append` is called with. -/
def recorded (expr : FilterExpr) : List (Option Str) := expr.leaves.map FilterLeaf.recorded

end FilterExpr

/-! ### The reader accepts every expression -/

/-- What may stand behind an operand. -/
def Follows : List FilterToken → Prop
  | [] => True
  | token :: _ => token = .and ∨ token = .or ∨ token = .char [')']

theorem filterField_append (field : FilterField) (rest : List FilterToken) :
    filterField (field.tokens ++ rest) = some (field.recorded, rest) := by
  cases field <;> rfl

theorem ends_append (first second : List Str) :
    ends (first ++ second) = (ends first && ends second) := List.all_append

theorem filterValue_append (value : FilterValue) {rest : List FilterToken}
    (follows : Follows rest) :
    filterValue (value.tokens ++ rest) = some (ends value.readTexts, rest) := by
  cases value with
  | strings first second => cases first <;> cases second <;> rfl
  | consistent item =>
      cases item with
      | quoted text => rfl
      | string item =>
          cases rest with
          | nil => cases item <;> rfl
          | cons token rest => rcases follows with rfl | rfl | rfl <;> cases item <;> rfl

theorem ConsistentVal.consistentVal_token (item : ConsistentVal) :
    consistentVal item.token = some (ends item.readTexts) := by
  cases item with
  | quoted text => rfl
  | string item => cases item <;> rfl

theorem FilterList.exists_tokens_eq (list : FilterList) :
    ∃ item : ConsistentVal, ∃ rest, list.tokens = item.token :: rest := by
  cases list <;> exact ⟨_, _, rfl⟩

theorem filterList_cons {token next : FilterToken} {here : Bool}
    (isItem : consistentVal token = some here) (noSeparator : ∀ c, next ≠ .char c)
    (rest : List FilterToken) :
    filterList (token :: next :: rest) =
      (filterList (next :: rest)).map fun (later, rest) => (here && later, rest) := by
  cases next with
  | char c => exact absurd rfl (noSeparator c)
  | _ => simp [filterList, isItem]

theorem filterList_append (list : FilterList) (rest : List FilterToken) :
    filterList (list.tokens ++ rest) = some (ends list.readTexts, rest) := by
  induction list with
  | comma item list ih =>
      simp [FilterList.tokens, filterList, item.consistentVal_token, ih, FilterList.readTexts,
        ends_append]
  | blank item list ih =>
      obtain ⟨next, others, isList⟩ := list.exists_tokens_eq
      have noSeparator : ∀ c, next.token ≠ .char c := by
        intro c same
        have isItem := next.consistentVal_token
        rw [same] at isItem
        cases isItem
      rw [FilterList.tokens, isList, List.cons_append, List.cons_append,
        filterList_cons item.consistentVal_token noSeparator, ← List.cons_append, ← isList, ih,
        FilterList.readTexts, ends_append]
      rfl
  | last item =>
      simp [FilterList.tokens, filterList, item.consistentVal_token, FilterList.readTexts]

theorem filterCondition_cmp (cmp : FilterCmp) (value : FilterValue) {rest : List FilterToken}
    (follows : Follows rest) :
    filterCondition (cmp.tokens ++ (value.tokens ++ rest)) = some (ends value.readTexts, rest) := by
  have accepted := filterValue_append value follows
  cases cmp with
  | none =>
      cases value with
      | strings first second => cases first <;> exact accepted
      | consistent item =>
          cases item with
          | quoted text => rfl
          | string item => cases item <;> exact accepted
  | _ => exact accepted

/-- No condition starts with what may stand behind an operand. -/
theorem filterCondition_of_follows {rest : List FilterToken} (follows : Follows rest) :
    filterCondition rest = none := by
  cases rest with
  | nil => rfl
  | cons token rest => rcases follows with rfl | rfl | rfl <;> rfl

theorem filterLeaf_field (field : FilterField) {rest behind : List FilterToken} {ended : Bool}
    (condition : filterCondition rest = some (ended, behind)) :
    filterLeaf (field.tokens ++ rest) =
      some (if ended then field.recorded else none, behind) := by
  have first := filterField_append field rest
  cases field <;> simp_all [filterLeaf, FilterField.tokens]

theorem filterLeaf_append (leaf : FilterLeaf) {rest : List FilterToken} (follows : Follows rest) :
    filterLeaf (leaf.tokens ++ rest) = some (leaf.recorded, rest) := by
  cases leaf with
  | exist field => exact filterField_append field rest
  | compare field cmp value =>
      rw [FilterLeaf.tokens, List.append_assoc, List.append_assoc]
      exact filterLeaf_field field (filterCondition_cmp cmp value follows)
  | among field list =>
      rw [FilterLeaf.tokens, List.append_assoc]
      exact filterLeaf_field field (filterList_append list rest)
  | bare name =>
      simp [FilterLeaf.tokens, FilterLeaf.recorded, FilterLeaf.readTexts, FilterLeaf.field, ends,
        filterLeaf, filterField, filterCondition_of_follows follows, FilterField.recorded]

/-- What an operand can be. -/
theorem filterOperand_cases {fuel depth : Nat} {tokens : List FilterToken}
    {found : List (Option Str)} (read : filterOperand fuel depth tokens = some found) :
    ∃ less, fuel = less + 1 ∧
      ((∃ rest, tokens = .not :: rest ∧ filterOperand less depth rest = some found) ∨
      (∃ rest, tokens = .char ['('] :: rest ∧ filterOperand less (depth + 1) rest = some found) ∨
      (∃ rest, tokens = .any :: rest ∧ filterOperator less depth rest = some found) ∨
      (∃ name rest later, filterLeaf tokens = some (name, rest) ∧
        filterOperator less depth rest = some later ∧ found = name :: later)) := by
  cases fuel with
  | zero => cases read
  | succ less =>
      refine ⟨less, rfl, ?_⟩
      unfold filterOperand at read
      split at read
      · rename_i none
        cases none
      · rename_i rest same
        obtain rfl := Nat.succ.inj same
        exact Or.inl ⟨rest, rfl, read⟩
      · rename_i rest same
        obtain rfl := Nat.succ.inj same
        exact Or.inr (Or.inl ⟨rest, rfl, read⟩)
      · rename_i rest same
        obtain rfl := Nat.succ.inj same
        exact Or.inr (Or.inr (Or.inl ⟨rest, rfl, read⟩))
      · rename_i same notNot notParen notAny
        obtain rfl := Nat.succ.inj same
        split at read
        · cases read
        · rename_i name rest leaf
          obtain ⟨later, behind, rfl⟩ := Option.map_eq_some_iff.mp read
          exact Or.inr (Or.inr (Or.inr ⟨name, rest, later, leaf, behind, rfl⟩))

/-- What may follow an operand. -/
theorem filterOperator_cases {fuel depth : Nat} {tokens : List FilterToken}
    {found : List (Option Str)} (read : filterOperator fuel depth tokens = some found) :
    (depth = 0 ∧ tokens = [] ∧ found = []) ∨ ∃ less, fuel = less + 1 ∧
      ((∃ rest, tokens = .and :: rest ∧ filterOperand less depth rest = some found) ∨
      (∃ rest, tokens = .or :: rest ∧ filterOperand less depth rest = some found) ∨
      (∃ outer rest, depth = outer + 1 ∧ tokens = .char [')'] :: rest ∧
        filterOperator less outer rest = some found)) := by
  unfold filterOperator at read
  split at read
  · exact Or.inl ⟨rfl, rfl, (Option.some.inj read).symm⟩
  · exact Or.inr ⟨_, rfl, Or.inl ⟨_, rfl, read⟩⟩
  · exact Or.inr ⟨_, rfl, Or.inr (Or.inl ⟨_, rfl, read⟩)⟩
  · exact Or.inr ⟨_, rfl, Or.inr (Or.inr ⟨_, _, rfl, rfl, read⟩)⟩
  · cases read

theorem filterOperand_leaf {tokens rest : List FilterToken} {name : Option Str}
    (leaf : filterLeaf tokens = some (name, rest)) (fuel depth : Nat) :
    filterOperand (fuel + 1) depth tokens =
      (filterOperator fuel depth rest).map (name :: ·) := by
  unfold filterOperand
  split
  · rename_i none
    cases none
  · cases leaf
  · cases leaf
  · cases leaf
  · rename_i same notNot notParen notAny
    obtain rfl := Nat.succ.inj same
    simp only [leaf]

theorem filterOperator_and (fuel depth : Nat) (rest : List FilterToken) :
    filterOperator (fuel + 1) depth (.and :: rest) = filterOperand fuel depth rest := by
  cases depth <;> rfl

theorem filterOperator_or (fuel depth : Nat) (rest : List FilterToken) :
    filterOperator (fuel + 1) depth (.or :: rest) = filterOperand fuel depth rest := by
  cases depth <;> rfl

/-- More fuel gives the same names. -/
theorem reader_succ (fuel : Nat) :
    (∀ depth tokens found, filterOperand fuel depth tokens = some found →
      filterOperand (fuel + 1) depth tokens = some found) ∧
    (∀ depth tokens found, filterOperator fuel depth tokens = some found →
      filterOperator (fuel + 1) depth tokens = some found) := by
  induction fuel with
  | zero =>
      constructor
      · intro depth tokens found read
        cases read
      · intro depth tokens found read
        obtain ⟨rfl, rfl, rfl⟩ | ⟨less, none, _⟩ := filterOperator_cases read
        · rfl
        · cases none
  | succ fuel ih =>
      constructor
      · intro depth tokens found read
        obtain ⟨less, same, shape⟩ := filterOperand_cases read
        obtain rfl := Nat.succ.inj same
        obtain ⟨rest, rfl, behind⟩ | ⟨rest, rfl, behind⟩ | ⟨rest, rfl, behind⟩ |
          ⟨name, rest, later, leaf, behind, rfl⟩ := shape
        · exact ih.1 _ _ _ behind
        · exact ih.1 _ _ _ behind
        · exact ih.2 _ _ _ behind
        · rw [filterOperand_leaf leaf, ih.2 _ _ _ behind]
          rfl
      · intro depth tokens found read
        obtain ⟨rfl, rfl, rfl⟩ | ⟨less, same, shape⟩ := filterOperator_cases read
        · rfl
        obtain rfl := Nat.succ.inj same
        obtain ⟨rest, rfl, behind⟩ | ⟨rest, rfl, behind⟩ | ⟨outer, rest, rfl, rfl, behind⟩ := shape
        · rw [filterOperator_and]
          exact ih.1 _ _ _ behind
        · rw [filterOperator_or]
          exact ih.1 _ _ _ behind
        · exact ih.2 _ _ _ behind

theorem filterOperator_mono {fuel more depth : Nat} {tokens : List FilterToken}
    {found : List (Option Str)} (read : filterOperator fuel depth tokens = some found)
    (enough : fuel ≤ more) :
    filterOperator more depth tokens = some found := by
  induction enough with
  | refl => exact read
  | step _ ih => exact (reader_succ _).2 _ _ _ ih

theorem filterOperand_mono {fuel more depth : Nat} {tokens : List FilterToken}
    {found : List (Option Str)} (read : filterOperand fuel depth tokens = some found)
    (enough : fuel ≤ more) :
    filterOperand more depth tokens = some found := by
  induction enough with
  | refl => exact read
  | step _ ih => exact (reader_succ _).1 _ _ _ ih

theorem follows_of_filterOperator {fuel depth : Nat} {tokens : List FilterToken}
    {found : List (Option Str)} (read : filterOperator fuel depth tokens = some found) :
    Follows tokens := by
  obtain ⟨rfl, rfl, rfl⟩ | ⟨less, rfl, shape⟩ := filterOperator_cases read
  · trivial
  obtain ⟨rest, rfl, _⟩ | ⟨rest, rfl, _⟩ | ⟨outer, rest, rfl, rfl, _⟩ := shape
  · exact Or.inl rfl
  · exact Or.inr (Or.inl rfl)
  · exact Or.inr (Or.inr rfl)

/-- An expression is an operand: the reader goes on with what follows it. -/
theorem filterOperand_append (expr : FilterExpr) {fuel depth : Nat} {rest : List FilterToken}
    {later : List (Option Str)} (read : filterOperator fuel depth rest = some later) :
    filterOperand (fuel + expr.tokens.length) depth (expr.tokens ++ rest) =
      some (expr.recorded ++ later) := by
  induction expr generalizing fuel depth rest later with
  | any => exact read
  | not inner ih => exact ih read
  | and left right ihLeft ihRight =>
      have second : filterOperator (fuel + right.tokens.length + 1) depth
          (.and :: (right.tokens ++ rest)) = some (right.recorded ++ later) := by
        rw [filterOperator_and]
        exact ihRight read
      have both := ihLeft second
      simp only [FilterExpr.tokens, FilterExpr.recorded, FilterExpr.leaves, List.append_assoc,
        List.cons_append, List.map_append, List.length_append, List.length_cons] at both ⊢
      rw [← both]
      congr 1
      omega
  | or left right ihLeft ihRight =>
      have second : filterOperator (fuel + right.tokens.length + 1) depth
          (.or :: (right.tokens ++ rest)) = some (right.recorded ++ later) := by
        rw [filterOperator_or]
        exact ihRight read
      have both := ihLeft second
      simp only [FilterExpr.tokens, FilterExpr.recorded, FilterExpr.leaves, List.append_assoc,
        List.cons_append, List.map_append, List.length_append, List.length_cons] at both ⊢
      rw [← both]
      congr 1
      omega
  | paren inner ih =>
      have closed : filterOperator (fuel + 1) (depth + 1) (.char [')'] :: rest) = some later := read
      have opened : filterOperand (fuel + 1 + inner.tokens.length + 1) depth
          (.char ['('] :: (inner.tokens ++ .char [')'] :: rest)) =
            some (inner.recorded ++ later) := ih closed
      simp only [FilterExpr.tokens, FilterExpr.recorded, FilterExpr.leaves, List.append_assoc,
        List.cons_append, List.nil_append, List.length_append, List.length_cons,
        List.length_nil] at opened ⊢
      rw [← opened]
      congr 1
      omega
  | leaf condition =>
      have taken := filterLeaf_append condition (follows_of_filterOperator read)
      have nonempty : 0 < condition.tokens.length := by
        cases condition with
        | exist field => simp [FilterLeaf.tokens]
        | compare field cmp value => cases field <;> simp [FilterLeaf.tokens, FilterField.tokens]
        | among field list => cases field <;> simp [FilterLeaf.tokens, FilterField.tokens]
        | bare name => simp [FilterLeaf.tokens]
      obtain ⟨less, isLength⟩ := Nat.exists_eq_add_of_lt nonempty
      have enough : fuel + (FilterExpr.leaf condition).tokens.length = fuel + less + 1 := by
        simp only [FilterExpr.tokens]
        omega
      rw [enough]
      change filterOperand (fuel + less + 1) depth (condition.tokens ++ rest) = _
      rw [filterOperand_leaf taken, filterOperator_mono read (Nat.le_add_right fuel less)]
      rfl

/-- The reader accepts the tokens of an expression. -/
theorem filterNames_tokens (expr : FilterExpr) : filterNames expr.tokens = some expr.recorded := by
  have read : filterOperand (0 + expr.tokens.length) 0 (expr.tokens ++ []) =
      some (expr.recorded ++ []) := filterOperand_append expr rfl
  simp only [List.append_nil, Nat.zero_add] at read
  unfold filterNames
  split
  · rename_i none
    rw [none] at read
    cases read
  · exact filterOperand_mono read (Nat.le_succ _)

/-! ### The reader accepts nothing else -/

theorem filterField_some {tokens rest : List FilterToken} {name : Option Str}
    (read : filterField tokens = some (name, rest)) :
    ∃ field : FilterField, tokens = field.tokens ++ rest ∧ field.recorded = name := by
  unfold filterField at read
  split at read
  · obtain ⟨rfl, rfl⟩ := Prod.mk.inj (Option.some.inj read)
    exact ⟨.ident _, rfl, rfl⟩
  · obtain ⟨rfl, rfl⟩ := Prod.mk.inj (Option.some.inj read)
    exact ⟨.dir _ _, rfl, rfl⟩
  · obtain ⟨rfl, rfl⟩ := Prod.mk.inj (Option.some.inj read)
    exact ⟨.dir2 _ _, rfl, rfl⟩
  · obtain ⟨rfl, rfl⟩ := Prod.mk.inj (Option.some.inj read)
    exact ⟨.dir2Dir _ _ _, rfl, rfl⟩
  · obtain ⟨rfl, rfl⟩ := Prod.mk.inj (Option.some.inj read)
    exact ⟨.pairOr _, rfl, rfl⟩
  · obtain ⟨rfl, rfl⟩ := Prod.mk.inj (Option.some.inj read)
    exact ⟨.pairAnd _, rfl, rfl⟩
  · cases read

theorem filterValue_some {tokens rest : List FilterToken} {ended : Bool}
    (read : filterValue tokens = some (ended, rest)) :
    ∃ value : FilterValue, tokens = value.tokens ++ rest ∧ ends value.readTexts = ended := by
  unfold filterValue at read
  split at read
  · obtain ⟨rfl, rfl⟩ := Prod.mk.inj (Option.some.inj read)
    exact ⟨.consistent (.quoted _), rfl, rfl⟩
  · obtain ⟨rfl, rfl⟩ := Prod.mk.inj (Option.some.inj read)
    exact ⟨.strings (.ident _) (.ident _), rfl, rfl⟩
  · obtain ⟨rfl, rfl⟩ := Prod.mk.inj (Option.some.inj read)
    exact ⟨.strings (.ident _) (.string _), rfl, rfl⟩
  · obtain ⟨rfl, rfl⟩ := Prod.mk.inj (Option.some.inj read)
    exact ⟨.strings (.string _) (.ident _), rfl, rfl⟩
  · obtain ⟨rfl, rfl⟩ := Prod.mk.inj (Option.some.inj read)
    exact ⟨.strings (.string _) (.string _), rfl, rfl⟩
  · obtain ⟨rfl, rfl⟩ := Prod.mk.inj (Option.some.inj read)
    exact ⟨.consistent (.string (.ident _)), rfl, rfl⟩
  · obtain ⟨rfl, rfl⟩ := Prod.mk.inj (Option.some.inj read)
    exact ⟨.consistent (.string (.string _)), rfl, rfl⟩
  · cases read

theorem consistentVal_some {token : FilterToken} {ended : Bool}
    (isItem : consistentVal token = some ended) :
    ∃ item : ConsistentVal, token = item.token ∧ ends item.readTexts = ended := by
  cases token with
  | ident text => exact ⟨.string (.ident text), rfl, Option.some.inj isItem⟩
  | string text => exact ⟨.string (.string text), rfl, Option.some.inj isItem⟩
  | quoted text => exact ⟨.quoted text, rfl, Option.some.inj isItem⟩
  | _ => cases isItem

theorem filterList_some {tokens rest : List FilterToken} {ended : Bool}
    (read : filterList tokens = some (ended, rest)) :
    ∃ list : FilterList, tokens = list.tokens ++ rest ∧ ends list.readTexts = ended := by
  fun_induction filterList tokens generalizing ended rest with
  | case1 value behind =>
      obtain ⟨here, isItem, same⟩ := Option.map_eq_some_iff.mp read
      obtain ⟨item, rfl, rfl⟩ := consistentVal_some isItem
      obtain ⟨rfl, rfl⟩ := Prod.mk.inj same
      exact ⟨.last item, rfl, rfl⟩
  | case2 value behind ih =>
      obtain ⟨here, isItem, read⟩ := Option.bind_eq_some_iff.mp read
      obtain ⟨⟨later, behind⟩, isRest, same⟩ := Option.map_eq_some_iff.mp read
      obtain ⟨item, rfl, rfl⟩ := consistentVal_some isItem
      obtain ⟨list, rfl, rfl⟩ := ih isRest
      obtain ⟨rfl, rfl⟩ := Prod.mk.inj same
      exact ⟨.comma item list, rfl, ends_append ..⟩
  | case3 value behind _ _ ih =>
      obtain ⟨here, isItem, read⟩ := Option.bind_eq_some_iff.mp read
      obtain ⟨⟨later, behind⟩, isRest, same⟩ := Option.map_eq_some_iff.mp read
      obtain ⟨item, rfl, rfl⟩ := consistentVal_some isItem
      obtain ⟨list, rfl, rfl⟩ := ih isRest
      obtain ⟨rfl, rfl⟩ := Prod.mk.inj same
      exact ⟨.blank item list, rfl, ends_append ..⟩
  | case4 => cases read

theorem filterCondition_some {tokens rest : List FilterToken} {ended : Bool}
    (read : filterCondition tokens = some (ended, rest)) :
    (∃ list : FilterList, tokens = .in :: list.tokens ++ rest ∧ ends list.readTexts = ended) ∨
      ∃ (cmp : FilterCmp) (value : FilterValue),
        tokens = cmp.tokens ++ value.tokens ++ rest ∧ ends value.readTexts = ended := by
  unfold filterCondition at read
  split at read
  · obtain ⟨list, rfl, ended⟩ := filterList_some read
    exact Or.inl ⟨list, rfl, ended⟩
  · obtain ⟨value, rfl, ended⟩ := filterValue_some read
    exact Or.inr ⟨.isset, value, rfl, ended⟩
  · obtain ⟨value, rfl, ended⟩ := filterValue_some read
    exact Or.inr ⟨.eq, value, rfl, ended⟩
  · obtain ⟨value, rfl, ended⟩ := filterValue_some read
    exact Or.inr ⟨.lt, value, rfl, ended⟩
  · obtain ⟨value, rfl, ended⟩ := filterValue_some read
    exact Or.inr ⟨.gt, value, rfl, ended⟩
  · obtain ⟨value, rfl, ended⟩ := filterValue_some read
    exact Or.inr ⟨.none, value, rfl, ended⟩

theorem filterLeaf_some {tokens rest : List FilterToken} {name : Option Str}
    (read : filterLeaf tokens = some (name, rest)) :
    ∃ leaf : FilterLeaf, tokens = leaf.tokens ++ rest ∧ leaf.recorded = name := by
  unfold filterLeaf at read
  split at read
  · obtain ⟨field, rfl, rfl⟩ := filterField_some read
    exact ⟨.exist field, rfl, rfl⟩
  · split at read
    · cases read
    · rename_i first behind isField
      obtain ⟨field, rfl, rfl⟩ := filterField_some isField
      split at read
      · rename_i condition
        obtain ⟨rfl, rfl⟩ := Prod.mk.inj (Option.some.inj read)
        obtain ⟨list, rfl, rfl⟩ | ⟨cmp, value, rfl, rfl⟩ := filterCondition_some condition
        · exact ⟨.among field list, by simp [FilterLeaf.tokens], rfl⟩
        · exact ⟨.compare field cmp value, by simp [FilterLeaf.tokens], rfl⟩
      · rename_i bare others _ same
        obtain ⟨rfl, rfl⟩ := Prod.mk.inj (Option.some.inj read)
        exact ⟨.bare bare, same, rfl⟩
      · cases read

/-- What stands behind an expression below `depth` open parentheses, with its leaves. -/
inductive Tail : Nat → List FilterToken → List FilterLeaf → Prop where
  | nil : Tail 0 [] []
  | close {depth : Nat} {rest : List FilterToken} {leaves : List FilterLeaf}
      (outer : Tail depth rest leaves) : Tail (depth + 1) (.char [')'] :: rest) leaves
  | and {depth : Nat} {rest : List FilterToken} {leaves : List FilterLeaf} (right : FilterExpr)
      (later : Tail depth rest leaves) :
      Tail depth (.and :: (right.tokens ++ rest)) (right.leaves ++ leaves)
  | or {depth : Nat} {rest : List FilterToken} {leaves : List FilterLeaf} (right : FilterExpr)
      (later : Tail depth rest leaves) :
      Tail depth (.or :: (right.tokens ++ rest)) (right.leaves ++ leaves)

namespace Tail

variable {depth : Nat} {rest : List FilterToken} {leaves : List FilterLeaf}

/-- Outside parentheses an expression and its tail are an expression. -/
theorem whole (tail : Tail 0 rest leaves) (expr : FilterExpr) :
    ∃ all : FilterExpr, all.tokens = expr.tokens ++ rest ∧ all.leaves = expr.leaves ++ leaves := by
  generalize zero : 0 = depth at tail
  induction tail generalizing expr with
  | nil => exact ⟨expr, by simp, by simp⟩
  | close outer ih => cases zero
  | and right later ih =>
      obtain ⟨all, tokens, leaves⟩ := ih (.and expr right) zero
      exact ⟨all, by simp [tokens, FilterExpr.tokens], by simp [leaves, FilterExpr.leaves]⟩
  | or right later ih =>
      obtain ⟨all, tokens, leaves⟩ := ih (.or expr right) zero
      exact ⟨all, by simp [tokens, FilterExpr.tokens], by simp [leaves, FilterExpr.leaves]⟩

/-- Inside parentheses they are one up to the closing parenthesis. -/
theorem closed (tail : Tail (depth + 1) rest leaves) (expr : FilterExpr) :
    ∃ (inner : FilterExpr) (behind : List FilterToken) (others : List FilterLeaf),
      expr.tokens ++ rest = inner.tokens ++ .char [')'] :: behind ∧
        Tail depth behind others ∧ expr.leaves ++ leaves = inner.leaves ++ others := by
  generalize level : depth + 1 = inside at tail
  induction tail generalizing expr with
  | nil => cases level
  | close outer ih =>
      obtain rfl := Nat.succ.inj level
      exact ⟨expr, _, _, rfl, outer, rfl⟩
  | and right later ih =>
      obtain ⟨inner, behind, others, tokens, tail, leaves⟩ := ih (.and expr right) level
      refine ⟨inner, behind, others, ?_, tail, ?_⟩
      · simpa [FilterExpr.tokens] using tokens
      · simpa [FilterExpr.leaves] using leaves
  | or right later ih =>
      obtain ⟨inner, behind, others, tokens, tail, leaves⟩ := ih (.or expr right) level
      refine ⟨inner, behind, others, ?_, tail, ?_⟩
      · simpa [FilterExpr.tokens] using tokens
      · simpa [FilterExpr.leaves] using leaves

end Tail

/-- What the reader accepts is an expression and a tail of it. -/
theorem reader_some (fuel : Nat) :
    (∀ depth tokens found, filterOperand fuel depth tokens = some found →
      ∃ (expr : FilterExpr) (rest : List FilterToken) (leaves : List FilterLeaf),
        tokens = expr.tokens ++ rest ∧ Tail depth rest leaves ∧
          found = (expr.leaves ++ leaves).map FilterLeaf.recorded) ∧
    (∀ depth tokens found, filterOperator fuel depth tokens = some found →
      ∃ leaves, Tail depth tokens leaves ∧ found = leaves.map FilterLeaf.recorded) := by
  induction fuel with
  | zero =>
      constructor
      · intro depth tokens found read
        cases read
      · intro depth tokens found read
        obtain ⟨rfl, rfl, rfl⟩ | ⟨less, none, _⟩ := filterOperator_cases read
        · exact ⟨[], .nil, rfl⟩
        · cases none
  | succ fuel ih =>
      constructor
      · intro depth tokens found read
        obtain ⟨less, same, shape⟩ := filterOperand_cases read
        obtain rfl := Nat.succ.inj same
        obtain ⟨rest, rfl, behind⟩ | ⟨rest, rfl, behind⟩ | ⟨rest, rfl, behind⟩ |
          ⟨name, rest, later, leaf, behind, rfl⟩ := shape
        · obtain ⟨expr, rest, leaves, rfl, tail, rfl⟩ := ih.1 _ _ _ behind
          exact ⟨.not expr, rest, leaves, rfl, tail, rfl⟩
        · obtain ⟨expr, rest, leaves, rfl, tail, rfl⟩ := ih.1 _ _ _ behind
          obtain ⟨inner, behind, others, tokens, outer, sameLeaves⟩ := tail.closed expr
          refine ⟨.paren inner, behind, others, ?_, outer, by rw [sameLeaves]; rfl⟩
          simp [tokens, FilterExpr.tokens]
        · obtain ⟨leaves, tail, rfl⟩ := ih.2 _ _ _ behind
          exact ⟨.any, rest, leaves, rfl, tail, rfl⟩
        · obtain ⟨condition, rfl, rfl⟩ := filterLeaf_some leaf
          obtain ⟨leaves, tail, rfl⟩ := ih.2 _ _ _ behind
          exact ⟨.leaf condition, rest, leaves, rfl, tail, rfl⟩
      · intro depth tokens found read
        obtain ⟨rfl, rfl, rfl⟩ | ⟨less, same, shape⟩ := filterOperator_cases read
        · exact ⟨[], .nil, rfl⟩
        obtain rfl := Nat.succ.inj same
        obtain ⟨rest, rfl, behind⟩ | ⟨rest, rfl, behind⟩ | ⟨outer, rest, rfl, rfl, behind⟩ := shape
        · obtain ⟨right, rest, leaves, rfl, tail, rfl⟩ := ih.1 _ _ _ behind
          exact ⟨_, tail.and right, rfl⟩
        · obtain ⟨right, rest, leaves, rfl, tail, rfl⟩ := ih.1 _ _ _ behind
          exact ⟨_, tail.or right, rfl⟩
        · obtain ⟨leaves, tail, rfl⟩ := ih.2 _ _ _ behind
          exact ⟨leaves, .close tail, rfl⟩

/-- `filter`: nothing, or an expression. -/
theorem filterNames_some {tokens : List FilterToken} {found : List (Option Str)}
    (read : filterNames tokens = some found) :
    (tokens = [] ∧ found = []) ∨
      ∃ expr : FilterExpr, expr.tokens = tokens ∧ found = expr.recorded := by
  unfold filterNames at read
  split at read
  · exact Or.inl ⟨rfl, (Option.some.inj read).symm⟩
  · obtain ⟨expr, rest, leaves, rfl, tail, rfl⟩ := (reader_some _).1 _ _ _ read
    obtain ⟨all, isAll, allLeaves⟩ := tail.whole expr
    exact Or.inr ⟨all, isAll, by rw [FilterExpr.recorded, allLeaves]⟩

end Policer.Parsing
