import Policer.Filter.Grammar

/-!
# The trees of the filter stage

Every nested tree is found by the parser, and every text of the filter grammar has a nested tree:
`nest` regroups any tree of it. So the parser of the filter stage accepts what the rule parser
accepts and decides in one way how its operators nest.
-/

namespace Policer.Filter

open Policer.Parsing

/-! ### The parser finds every nested tree -/

theorem readField_append (field : FilterField) (rest : List FilterToken) :
    readField (field.tokens ++ rest) = some (field, rest) := by
  cases field <;> rfl

theorem consistentVal?_token (item : ConsistentVal) : consistentVal? item.token = some item := by
  cases item with
  | quoted text => rfl
  | string item => cases item <;> rfl

theorem readValue_append (value : FilterValue) {rest : List FilterToken}
    (follows : Follows rest) : readValue (value.tokens ++ rest) = some (value, rest) := by
  cases value with
  | strings first second => cases first <;> cases second <;> rfl
  | consistent item =>
      cases item with
      | quoted text => rfl
      | string item =>
          cases rest with
          | nil => cases item <;> rfl
          | cons token rest => rcases follows with rfl | rfl | rfl <;> cases item <;> rfl

theorem readList_cons {token next : FilterToken} (noSeparator : ∀ c, next ≠ .char c)
    (rest : List FilterToken) :
    readList (token :: next :: rest) = (consistentVal? token).bind fun item =>
      (readList (next :: rest)).map fun found => (.blank item found.1, found.2) := by
  cases next with
  | char c => exact absurd rfl (noSeparator c)
  | _ => simp [readList]

theorem readList_append (list : FilterList) (rest : List FilterToken) :
    readList (list.tokens ++ rest) = some (list, rest) := by
  induction list with
  | comma item list ih => simp [FilterList.tokens, readList, consistentVal?_token, ih]
  | blank item list ih =>
      obtain ⟨next, others, isList⟩ := list.exists_tokens_eq
      have noSeparator : ∀ c, next.token ≠ .char c := by
        intro c same
        have isItem := consistentVal?_token next
        rw [same] at isItem
        cases isItem
      rw [FilterList.tokens, isList, List.cons_append, List.cons_append,
        readList_cons noSeparator, ← List.cons_append, ← isList, ih, consistentVal?_token]
      rfl
  | last item => simp [FilterList.tokens, readList, consistentVal?_token]

theorem readCondition_append (field : FilterField) (cmp : FilterCmp) (value : FilterValue)
    {rest : List FilterToken} (follows : Follows rest) :
    readCondition field (cmp.tokens ++ (value.tokens ++ rest)) =
      some (.compare field cmp value, rest) := by
  have accepted := readValue_append value follows
  cases cmp with
  | none =>
      have read : readCondition field (value.tokens ++ rest) =
          (readValue (value.tokens ++ rest)).map fun found =>
            (.compare field .none found.1, found.2) := by
        cases value with
        | strings first second => cases first <;> rfl
        | consistent item =>
            cases item with
            | quoted text => rfl
            | string item => cases item <;> rfl
      exact read.trans (by rw [accepted]; rfl)
  | _ => simp [FilterCmp.tokens, readCondition, accepted]

/-- No condition starts with what may stand behind an operand. -/
theorem readCondition_of_follows (field : FilterField) {rest : List FilterToken}
    (follows : Follows rest) : readCondition field rest = none := by
  cases rest with
  | nil => rfl
  | cons token rest => rcases follows with rfl | rfl | rfl <;> rfl

theorem readLeaf_field (field : FilterField) {rest behind : List FilterToken} {leaf : FilterLeaf}
    (condition : readCondition field rest = some (leaf, behind)) :
    readLeaf (field.tokens ++ rest) = some (leaf, behind) := by
  have first := readField_append field rest
  cases field <;> simp_all [readLeaf, FilterField.tokens]

theorem readLeaf_append (leaf : FilterLeaf) {rest : List FilterToken} (follows : Follows rest) :
    readLeaf (leaf.tokens ++ rest) = some (leaf, rest) := by
  cases leaf with
  | exist field => simp [FilterLeaf.tokens, readLeaf, readField_append]
  | compare field cmp value =>
      rw [FilterLeaf.tokens, List.append_assoc, List.append_assoc]
      exact readLeaf_field field (readCondition_append field cmp value follows)
  | among field list =>
      rw [FilterLeaf.tokens, List.append_assoc]
      refine readLeaf_field field ?_
      simp [readCondition, readList_append]
  | bare name =>
      simp [FilterLeaf.tokens, readLeaf, readField, readCondition_of_follows _ follows]

/-- More fuel reads the same. -/
theorem reader_succ (fuel : Nat) :
    (∀ tokens found, readOperand fuel tokens = some found →
      readOperand (fuel + 1) tokens = some found) ∧
    (∀ before tokens found, readExpr fuel before tokens = some found →
      readExpr (fuel + 1) before tokens = some found) ∧
    (∀ before last tokens found, readOperators fuel before last tokens = some found →
      readOperators (fuel + 1) before last tokens = some found) := by
  induction fuel with
  | zero =>
      refine ⟨?_, ?_, ?_⟩
      · intro tokens found read
        cases read
      · intro before tokens found read
        cases read
      · intro before last tokens found read
        cases read
  | succ fuel ih =>
      obtain ⟨operand, expression, operators⟩ := ih
      refine ⟨?_, ?_, ?_⟩
      · intro tokens found read
        unfold readOperand at read ⊢
        split at read
        · rename_i none
          cases none
        · rename_i behind same
          obtain rfl := Nat.succ.inj same
          obtain ⟨inner, isInner, rfl⟩ := Option.map_eq_some_iff.mp read
          exact Option.map_eq_some_iff.mpr ⟨inner, operand _ _ isInner, rfl⟩
        · rename_i behind same
          obtain rfl := Nat.succ.inj same
          split at read
          · rename_i inner after isInner
            simp only [expression _ _ _ isInner]
            exact read
          · cases read
        · exact read
        · exact read
      · intro before tokens found read
        rw [readExpr] at read ⊢
        obtain ⟨⟨first, behind⟩, isFirst, found⟩ := Option.bind_eq_some_iff.mp read
        exact Option.bind_eq_some_iff.mpr
          ⟨_, operand _ _ isFirst, operators _ _ _ _ found⟩
      · intro before last tokens found read
        unfold readOperators at read ⊢
        split at read
        · rename_i none
          cases none
        · rename_i behind same
          obtain rfl := Nat.succ.inj same
          obtain ⟨⟨right, after⟩, isRight, found⟩ := Option.bind_eq_some_iff.mp read
          exact Option.bind_eq_some_iff.mpr
            ⟨_, operand _ _ isRight, operators _ _ _ _ found⟩
        · rename_i behind same
          obtain rfl := Nat.succ.inj same
          exact expression _ _ _ read
        · exact read

theorem readOperand_mono {fuel more : Nat} (enough : fuel ≤ more) {tokens : List FilterToken}
    {found : FilterExpr × List FilterToken} (read : readOperand fuel tokens = some found) :
    readOperand more tokens = some found := by
  induction enough with
  | refl => exact read
  | step _ ih => exact (reader_succ _).1 _ _ ih

theorem readExpr_mono {fuel more : Nat} (enough : fuel ≤ more) {before : Option FilterExpr}
    {tokens : List FilterToken} {found : FilterExpr × List FilterToken}
    (read : readExpr fuel before tokens = some found) :
    readExpr more before tokens = some found := by
  induction enough with
  | refl => exact read
  | step _ ih => exact (reader_succ _).2.1 _ _ _ ih

theorem readOperators_mono {fuel more : Nat} (enough : fuel ≤ more) {before : Option FilterExpr}
    {last : FilterExpr} {tokens : List FilterToken} {found : FilterExpr × List FilterToken}
    (read : readOperators fuel before last tokens = some found) :
    readOperators more before last tokens = some found := by
  induction enough with
  | refl => exact read
  | step _ ih => exact (reader_succ _).2.2 _ _ _ _ ih

/-- The disjunction on the left of the last conjunction of a tree, and this conjunction. -/
def splitLast : FilterExpr → Option FilterExpr × FilterExpr
  | .or before last => (some before, last)
  | expr => (none, expr)

theorem join_splitLast (expr : FilterExpr) : join (splitLast expr).1 (splitLast expr).2 = expr := by
  cases expr <;> rfl

theorem splitLast_conjunction {expr : FilterExpr} (conjunction : IsConjunction expr) :
    splitLast expr = (none, expr) := by
  cases expr with
  | or before last => cases conjunction
  | _ => rfl

/-- The parser reads a nested tree off the front of a text, whatever part of it meets the tree. -/
structure Reads (expr : FilterExpr) : Prop where
  operand : IsOperand expr → ∀ rest, Follows rest →
    readOperand (2 * expr.tokens.length) (expr.tokens ++ rest) = some (expr, rest)
  conjunction : IsConjunction expr → ∀ fuel before rest found, Follows rest →
    readOperators fuel before expr rest = some found →
      readExpr (fuel + 2 * expr.tokens.length) before (expr.tokens ++ rest) = some found
  whole : ∀ fuel rest found, Follows rest →
    readOperators fuel (splitLast expr).1 (splitLast expr).2 rest = some found →
      readExpr (fuel + 2 * expr.tokens.length) none (expr.tokens ++ rest) = some found

/-- A conjunction that is read is read as a whole. -/
theorem reads_of_conjunction {expr : FilterExpr} (conjunction : IsConjunction expr)
    (operand : IsOperand expr → ∀ rest, Follows rest →
      readOperand (2 * expr.tokens.length) (expr.tokens ++ rest) = some (expr, rest))
    (reads : ∀ fuel before rest found, Follows rest →
      readOperators fuel before expr rest = some found →
        readExpr (fuel + 2 * expr.tokens.length) before (expr.tokens ++ rest) = some found) :
    Reads expr where
  operand := operand
  conjunction _ := reads
  whole fuel rest found follows read := by
    rw [splitLast_conjunction conjunction] at read
    exact reads fuel none rest found follows read

/-- An operand that is read is read as a conjunction. -/
theorem reads_of_operand {expr : FilterExpr} (operand : IsOperand expr)
    (nonempty : 0 < expr.tokens.length) (reads : ∀ rest, Follows rest →
      readOperand (2 * expr.tokens.length) (expr.tokens ++ rest) = some (expr, rest)) :
    Reads expr := by
  refine reads_of_conjunction operand.isConjunction (fun _ => reads) ?_
  intro fuel before rest found follows read
  obtain ⟨less, rfl⟩ : ∃ less, fuel = less + 1 := by
    cases fuel with
    | zero => cases read
    | succ less => exact ⟨less, rfl⟩
  have first := readOperand_mono (Nat.le_add_left (2 * expr.tokens.length) less)
    (reads rest follows)
  have behind : readOperators (less + 2 * expr.tokens.length) before expr rest = some found :=
    readOperators_mono (by omega) read
  have more : less + 1 + 2 * expr.tokens.length = less + 2 * expr.tokens.length + 1 := by omega
  rw [more, readExpr, first]
  exact behind

theorem leaf_tokens_pos (leaf : FilterLeaf) : 0 < leaf.tokens.length := by
  cases leaf with
  | exist field => simp [FilterLeaf.tokens]
  | compare field cmp value => cases field <;> simp [FilterLeaf.tokens, FilterField.tokens]
  | among field list => cases field <;> simp [FilterLeaf.tokens, FilterField.tokens]
  | bare name => simp [FilterLeaf.tokens]

/-- A leaf is none of the other operands. -/
theorem readOperand_leaf (fuel : Nat) (leaf : FilterLeaf) (rest : List FilterToken) :
    readOperand (fuel + 1) (leaf.tokens ++ rest) =
      (readLeaf (leaf.tokens ++ rest)).map fun found => (.leaf found.1, found.2) := by
  cases leaf with
  | exist field => simp [FilterLeaf.tokens, readOperand]
  | compare field cmp value =>
      cases field <;> simp [FilterLeaf.tokens, FilterField.tokens, readOperand]
  | among field list => cases field <;> simp [FilterLeaf.tokens, FilterField.tokens, readOperand]
  | bare name => simp [FilterLeaf.tokens, readOperand]

/-- The parser reads every nested tree. -/
theorem reads_of_nested (expr : FilterExpr) (nested : Nested expr) : Reads expr := by
  induction expr with
  | any => exact reads_of_operand trivial (by simp [FilterExpr.tokens]) fun rest _ => rfl
  | leaf condition =>
      refine reads_of_operand trivial (leaf_tokens_pos condition) fun rest follows => ?_
      have positive := leaf_tokens_pos condition
      obtain ⟨less, isLength⟩ : ∃ less, 2 * condition.tokens.length = less + 1 :=
        ⟨2 * condition.tokens.length - 1, by omega⟩
      simp only [FilterExpr.tokens]
      rw [isLength, readOperand_leaf, readLeaf_append condition follows]
      rfl
  | not inner ih =>
      obtain ⟨operand, nested⟩ := nested
      refine reads_of_operand trivial (by simp [FilterExpr.tokens]) fun rest follows => ?_
      have read := readOperand_mono (Nat.le_succ _) ((ih nested).operand operand rest follows)
      have more : 2 * (FilterExpr.not inner).tokens.length = 2 * inner.tokens.length + 1 + 1 := by
        simp only [FilterExpr.tokens, List.length_cons]
        omega
      rw [more]
      simp only [FilterExpr.tokens, List.cons_append, readOperand, read, Option.map_some]
  | paren inner ih =>
      refine reads_of_operand trivial (by simp [FilterExpr.tokens]) fun rest _ => ?_
      have ends : readOperators 1 (splitLast inner).1 (splitLast inner).2
          (.char [')'] :: rest) = some (inner, .char [')'] :: rest) := by
        rw [readOperators, join_splitLast]
        all_goals
          intro _ none
          cases none
      have read := (ih nested).whole 1 (.char [')'] :: rest) _ (Or.inr (Or.inr rfl)) ends
      have more : 2 * (FilterExpr.paren inner).tokens.length =
          1 + 2 * inner.tokens.length + 2 + 1 := by
        simp only [FilterExpr.tokens, List.length_cons, List.length_append, List.length_nil]
        omega
      rw [more]
      simp only [FilterExpr.tokens, List.cons_append, List.append_assoc, List.nil_append,
        readOperand, readExpr_mono (Nat.le_add_right _ 2) read]
  | and left right ihLeft ihRight =>
      obtain ⟨⟨conjunction, nestedLeft⟩, operand, nestedRight⟩ := nested
      refine reads_of_conjunction trivial (fun impossible => impossible.elim) ?_
      intro fuel before rest found follows read
      have second := readOperand_mono (Nat.le_add_left (2 * right.tokens.length) fuel)
        ((ihRight nestedRight).operand operand rest follows)
      have after : readOperators (fuel + 2 * right.tokens.length + 1) before left
          (.and :: (right.tokens ++ rest)) = some found := by
        rw [readOperators, second]
        exact readOperators_mono (Nat.le_add_right ..) read
      have next : Follows (.and :: (right.tokens ++ rest)) := Or.inl rfl
      have all := (ihLeft nestedLeft).conjunction conjunction _ before _ found next after
      simp only [FilterExpr.tokens, List.append_assoc, List.cons_append, List.length_append,
        List.length_cons]
      exact readExpr_mono (by omega) all
  | or left right ihLeft ihRight =>
      obtain ⟨nestedLeft, conjunction, nestedRight⟩ := nested
      refine ⟨fun impossible => impossible.elim, fun impossible => impossible.elim, ?_⟩
      intro fuel rest found follows read
      have second := (ihRight nestedRight).conjunction conjunction fuel (some left) rest found
        follows read
      have after : readOperators (fuel + 2 * right.tokens.length + 1) (splitLast left).1
          (splitLast left).2 (.or :: (right.tokens ++ rest)) = some found := by
        rw [readOperators, join_splitLast]
        exact second
      have next : Follows (.or :: (right.tokens ++ rest)) := Or.inr (Or.inl rfl)
      have all := (ihLeft nestedLeft).whole _ _ found next after
      simp only [FilterExpr.tokens, List.append_assoc, List.cons_append, List.length_append,
        List.length_cons]
      exact readExpr_mono (by omega) all

theorem ff3gParse_nested {expr : FilterExpr} (nested : Nested expr) :
    ff3gParse expr.tokens = some (some expr) := by
  have ends : readOperators 1 (splitLast expr).1 (splitLast expr).2 [] = some (expr, []) := by
    rw [readOperators, join_splitLast]
    all_goals
      intro _ none
      cases none
  have read := (reads_of_nested expr nested).whole 1 [] _ trivial ends
  rw [List.append_nil] at read
  have enough := readExpr_mono (show 1 + 2 * expr.tokens.length ≤ 2 * expr.tokens.length + 2 by
    omega) read
  unfold ff3gParse
  split
  · rename_i none
    rw [none] at read
    cases read
  · rw [enough]

/-! ### Every text has a nested tree -/

/-- `and` between a tree and an operand. -/
def andOperand : FilterExpr → FilterExpr → FilterExpr
  | .or before last, right => .or before (.and last right)
  | left, right => .and left right

/-- `and` between two nested trees. -/
def nestAnd (left : FilterExpr) : FilterExpr → FilterExpr
  | .or before last => .or (nestAnd left before) last
  | .and before last => andOperand (nestAnd left before) last
  | right => andOperand left right

/-- `or` between two nested trees. -/
def nestOr (left : FilterExpr) : FilterExpr → FilterExpr
  | .or before last => .or (nestOr left before) last
  | right => .or left right

/-- `not` in front of a nested tree. -/
def nestNot : FilterExpr → FilterExpr
  | .or before last => .or (nestNot before) last
  | .and before last => .and (nestNot before) last
  | inner => .not inner

/-- The nested tree with the tokens of a tree. -/
def nest : FilterExpr → FilterExpr
  | .any => .any
  | .not inner => nestNot (nest inner)
  | .and left right => nestAnd (nest left) (nest right)
  | .or left right => nestOr (nest left) (nest right)
  | .paren inner => .paren (nest inner)
  | .leaf condition => .leaf condition

theorem andOperand_spec {left right : FilterExpr} (nestedLeft : Nested left)
    (operand : IsOperand right) (nestedRight : Nested right) :
    Nested (andOperand left right) ∧
      (andOperand left right).tokens = left.tokens ++ .and :: right.tokens := by
  cases left with
  | or before last =>
      obtain ⟨nestedBefore, conjunction, nestedLast⟩ := nestedLeft
      refine ⟨⟨nestedBefore, trivial, ⟨conjunction, nestedLast⟩, operand, nestedRight⟩, ?_⟩
      simp [andOperand, FilterExpr.tokens]
  | _ => exact ⟨⟨⟨trivial, nestedLeft⟩, operand, nestedRight⟩, rfl⟩

theorem nestAnd_spec {left right : FilterExpr} (nestedLeft : Nested left)
    (nestedRight : Nested right) :
    Nested (nestAnd left right) ∧
      (nestAnd left right).tokens = left.tokens ++ .and :: right.tokens := by
  induction right with
  | or before last ih =>
      obtain ⟨nestedBefore, conjunction, nestedLast⟩ := nestedRight
      obtain ⟨nested, tokens⟩ := ih nestedBefore
      exact ⟨⟨nested, conjunction, nestedLast⟩, by simp [nestAnd, FilterExpr.tokens, tokens]⟩
  | and before last ih =>
      obtain ⟨⟨_, nestedBefore⟩, operand, nestedLast⟩ := nestedRight
      obtain ⟨nested, tokens⟩ := ih nestedBefore
      obtain ⟨nested, all⟩ := andOperand_spec nested operand nestedLast
      exact ⟨nested, by rw [nestAnd, all, tokens]; simp [FilterExpr.tokens]⟩
  | _ => exact andOperand_spec nestedLeft trivial nestedRight

theorem nestOr_spec {left right : FilterExpr} (nestedLeft : Nested left)
    (nestedRight : Nested right) :
    Nested (nestOr left right) ∧
      (nestOr left right).tokens = left.tokens ++ .or :: right.tokens := by
  induction right with
  | or before last ih =>
      obtain ⟨nestedBefore, conjunction, nestedLast⟩ := nestedRight
      obtain ⟨nested, tokens⟩ := ih nestedBefore
      exact ⟨⟨nested, conjunction, nestedLast⟩, by simp [nestOr, FilterExpr.tokens, tokens]⟩
  | _ => exact ⟨⟨nestedLeft, trivial, nestedRight⟩, rfl⟩

theorem nestNot_spec {inner : FilterExpr} (nestedInner : Nested inner) :
    Nested (nestNot inner) ∧ (nestNot inner).tokens = .not :: inner.tokens ∧
      (IsConjunction inner → IsConjunction (nestNot inner)) := by
  induction inner with
  | or before last ih =>
      obtain ⟨nestedBefore, conjunction, nestedLast⟩ := nestedInner
      obtain ⟨nested, tokens, _⟩ := ih nestedBefore
      exact ⟨⟨nested, conjunction, nestedLast⟩, by simp [nestNot, FilterExpr.tokens, tokens],
        fun impossible => impossible⟩
  | and before last ih =>
      obtain ⟨⟨isConjunction, nestedBefore⟩, operand, nestedLast⟩ := nestedInner
      obtain ⟨nested, tokens, keeps⟩ := ih nestedBefore
      exact ⟨⟨⟨keeps isConjunction, nested⟩, operand, nestedLast⟩,
        by simp [nestNot, FilterExpr.tokens, tokens], fun _ => trivial⟩
  | _ => exact ⟨⟨trivial, nestedInner⟩, rfl, fun _ => trivial⟩

theorem nest_spec (expr : FilterExpr) : Nested (nest expr) ∧ (nest expr).tokens = expr.tokens := by
  induction expr with
  | any => exact ⟨trivial, rfl⟩
  | leaf condition => exact ⟨trivial, rfl⟩
  | paren inner ih => exact ⟨ih.1, by simp [nest, FilterExpr.tokens, ih.2]⟩
  | not inner ih =>
      obtain ⟨nested, tokens, _⟩ := nestNot_spec ih.1
      exact ⟨nested, by rw [nest, tokens, ih.2, FilterExpr.tokens]⟩
  | and left right ihLeft ihRight =>
      obtain ⟨nested, tokens⟩ := nestAnd_spec ihLeft.1 ihRight.1
      exact ⟨nested, by rw [nest, tokens, ihLeft.2, ihRight.2, FilterExpr.tokens]⟩
  | or left right ihLeft ihRight =>
      obtain ⟨nested, tokens⟩ := nestOr_spec ihLeft.1 ihRight.1
      exact ⟨nested, by rw [nest, tokens, ihLeft.2, ihRight.2, FilterExpr.tokens]⟩

/-! ### What the parser finds -/

theorem ff3gParse_some {tokens : List FilterToken} {root : FilterExpr}
    (parsed : ff3gParse tokens = some (some root)) : Nested root ∧ root.tokens = tokens := by
  unfold ff3gParse at parsed
  split at parsed
  · cases parsed
  · split at parsed
    · rename_i isRoot
      cases parsed
      obtain ⟨tokens, nested⟩ := (reader_nested _).2.1 none _ _ _ trivial isRoot
      exact ⟨nested, by simpa [tokensFrom] using tokens.symm⟩
    · cases parsed

/-- The parser of the filter stage finds the one tree of a text that is nested by the precedences,
and no tree for the empty text; the texts it accepts are those the rule parser accepts. -/
theorem ff3gParse_iff (tokens : List FilterToken) :
    (∀ root, ff3gParse tokens = some (some root) ↔ Nested root ∧ root.tokens = tokens) ∧
      (ff3gParse tokens = some none ↔ tokens = []) ∧
      ((ff3gParse tokens).isSome = true ↔ (filterNames tokens).isSome = true) := by
  have found : ∀ root, ff3gParse tokens = some (some root) ↔
      Nested root ∧ root.tokens = tokens := by
    intro root
    constructor
    · exact ff3gParse_some
    · rintro ⟨nested, rfl⟩
      exact ff3gParse_nested nested
  have empty : ff3gParse tokens = some none ↔ tokens = [] := by
    constructor
    · intro parsed
      unfold ff3gParse at parsed
      split at parsed
      · rfl
      · split at parsed <;> cases parsed
    · rintro rfl
      rfl
  refine ⟨found, empty, ?_⟩
  constructor
  · intro isSome
    obtain ⟨root, parsed⟩ := Option.isSome_iff_exists.mp isSome
    cases root with
    | none =>
        obtain rfl := empty.mp parsed
        rfl
    | some root =>
        obtain ⟨_, rfl⟩ := (found root).mp parsed
        rw [filterNames_tokens]
        rfl
  · intro isSome
    obtain ⟨names, accepted⟩ := Option.isSome_iff_exists.mp isSome
    obtain ⟨rfl, _⟩ | ⟨expr, rfl, _⟩ := filterNames_some accepted
    · rfl
    · obtain ⟨nested, tokens⟩ := nest_spec expr
      rw [(found (nest expr)).mpr ⟨nested, tokens⟩]
      rfl

end Policer.Filter
