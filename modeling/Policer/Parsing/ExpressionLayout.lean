import Policer.Parsing.Numbers

/-!
# Layouts of expressions

The tokens of an expression of a selector, and which expressions the grammar makes: products in
sums, signs in products, parentheses around sums. `selExpression_of_laid` reads an expression off
any layout of its tokens.
-/

namespace Policer.Parsing

open Policer.Lib.Expectation Rules

/-! ### Tokens -/

/-- Where an operand stands: in a sum, in a product, or behind a sign. -/
inductive Place where
  | summand
  | factor
  | primary
deriving DecidableEq

/-- The symbols between operands. -/
def Place.operators : Place → List (Str × SelOptoken)
  | .summand => selAdditiveOp
  | .factor => selMultiplicativeOp
  | .primary => []

/-- The sign of an operator. -/
def SelOptoken.sign : SelOptoken → Char
  | .plus | .positive => '+'
  | .minus | .negative => '-'
  | .times => '*'
  | .divide => '/'

/-- The text of a variable. -/
def SelVariable.text : SelVariable → Str
  | .keyword unir => stringUnirecEnum unir
  | .name variable_ => variable_.text

mutual

/-- The tokens of an operand. -/
def SelOperand.tokens (place : Place) : SelOperand → List Str
  | .nil => []
  | .number value => [value.text]
  | .variable_ sv => [sv.text]
  -- Without the blank a number would take the sign for its own.
  | .unary operator_ operand_ => [operator_.sign, ' '] :: operand_.tokens .primary
  | .expression se =>
      match place with
      | .summand => se.tokens .factor
      | .factor | .primary => ['('] :: (se.tokens .summand ++ [[')']])

def SelExpression.tokens (place : Place) : SelExpression → List Str
  | .mk first rest => first.tokens place ++ rest.tokens place

def SelOperations.tokens (place : Place) : SelOperations → List Str
  | .nil => []
  | .cons operator_ operand_ rest =>
      [operator_.sign] :: (operand_.tokens place ++ rest.tokens place)

end

/-! ### Expressions of the grammar -/

/-- A variable that is read again where an expression may stand. -/
def SelVariable.IsReadable : SelVariable → Prop
  | .keyword _ => True
  | .name variable_ => (∀ stored ∈ inputKeyword.map Prod.fst, ¬ stored <+: variable_.text) ∧
      ¬ startsSpecial variable_.text

mutual

/-- An operand the grammar can make at a place. -/
def SelOperand.Fits (place : Place) : SelOperand → Prop
  | .nil => False
  | .number value => place ≠ .summand ∧ value.IsLiteral
  | .variable_ sv => place ≠ .summand ∧ sv.IsReadable
  | .unary operator_ operand_ => place = .factor ∧
      operator_ ∈ selUnaryOp.map Prod.snd ∧ operand_.Fits .primary
  | .expression se =>
      match place with
      | .summand => se.Fits .factor
      | .factor | .primary => se.Fits .summand

def SelExpression.Fits (place : Place) : SelExpression → Prop
  | .mk first rest => first.Fits place ∧ rest.Fits place

def SelOperations.Fits (place : Place) : SelOperations → Prop
  | .nil => True
  | .cons operator_ operand_ rest => operator_ ∈ place.operators.map Prod.snd ∧
      operand_.Fits place ∧ rest.Fits place

end

/-- The operations as the parser collects them. -/
def SelOperations.toList : SelOperations → List (SelOptoken × SelOperand)
  | .nil => []
  | .cons operator_ operand_ rest => (operator_, operand_) :: rest.toList

theorem operations_toList (operations_ : SelOperations) :
    operations operations_.toList = operations_ := by
  cases operations_ with
  | nil => rfl
  | cons operator_ operand_ rest =>
      rw [SelOperations.toList, operations, operations_toList rest]

/-! ### Reading them -/

/-- The parser of an operand, around expressions in at most `fuel` parentheses. -/
def operandAt (fuel : Nat) : Place → Parser Char SelOperand
  | .summand => (selMultiplicativeExpr (selExpressionUpTo fuel)).map .expression
  | .factor => selUnaryExpr (selExpressionUpTo fuel)
  | .primary => selPrimaryExpr (selExpressionUpTo fuel)

/-- What may follow operands and operations at a place. -/
def Place.behind : Place → Str
  | .summand => ",;)".toList
  | .factor => "+-,;)".toList
  | .primary => operandSigns

section Reading

variable {rest text : Str} {tokens : List Str} {fuel : Nat}

/-- A parenthesis and a sign start no variable. -/
theorem selVariable_noMatch {c : Char} {tail : Str} (skipped : text.dropWhile space = c :: tail)
    (sign : c = '(' ∨ c = '+' ∨ c = '-') : selVariable text = .noMatch := by
  have ascii : isAscii c = true := by rcases sign with rfl | rfl | rfl <;> rfl
  have noKeyword : symbols inputKeyword text = .noMatch := by
    have heads : (inputKeyword.all fun entry =>
        entry.1.head?.any "SDBLTP".toList.contains) = true :=
      by decide
    refine symbols_noMatch heads ?_ ?_
    · rw [Clear, skips, skipped]
      exact ascii
    · rintro ⟨d, letter, first⟩
      rw [skipped] at first
      cases first
      revert letter
      rcases sign with rfl | rfl | rfl <;> decide
  have noName : identifier text = .noMatch := by
    rw [identifier, preSkip_cons skipped ascii]
    rcases sign with rfl | rfl | rfl <;> rfl
  rw [selVariable, Parser.orElse_of_noMatch (Parser.map_eq_noMatch.mpr noKeyword)]
  exact Parser.map_eq_noMatch.mpr noName

/-- A sign in front of a blank is not that of a number. -/
theorem selPrimaryExpr_noMatch {inner : Parser Char SelExpression} {c : Char} {tail : Str}
    (skipped : text.dropWhile space = c :: ' ' :: tail) (sign : c = '+' ∨ c = '-') :
    selPrimaryExpr inner text = .noMatch := by
  have ascii : isAscii c = true := by rcases sign with rfl | rfl <;> rfl
  have noNumber : double_ text = .noMatch := by
    rw [double_, preSkip_cons skipped ascii]
    rcases sign with rfl | rfl <;> rfl
  have noVariable := selVariable_noMatch skipped (Or.inr sign)
  have noParenthesis : lit '(' text = .noMatch := by
    rw [lit, preSkip_cons skipped ascii]
    rcases sign with rfl | rfl <;> rfl
  rw [selPrimaryExpr, Parser.orElse_of_noMatch (Parser.map_eq_noMatch.mpr noNumber),
    Parser.orElse_of_noMatch (Parser.map_eq_noMatch.mpr noVariable)]
  exact Parser.andThen_eq_noMatch_of_noMatch noParenthesis

theorem number_of_laid {number : Double} (literal : number.IsLiteral)
    (follows : EndsAt operandSigns rest) (laid : Laid [number.text] rest text) :
    double_ text = .matched number rest := by
  obtain ⟨blanks, middle, blank, later, rfl⟩ := laid_cons.mp laid
  cases later
  rw [double_, preSkip_blanks blank, preSkip_visible (isVisible_text literal)]
  exact extractReal_text literal follows

/-- The name of a keyword. -/
def keywordName (unir : Unirec) : Identifier := ⟨stringUnirecEnum unir, by cases unir <;> rfl⟩

theorem keywordName_plain (unir : Unirec) : ¬ startsSpecial (keywordName unir).text := by
  cases unir <;> exact fun special => special.elim (fun nan => nan rfl) fun inf => inf rfl

theorem variable_of_laid {sv : SelVariable} (readable : sv.IsReadable)
    (follows : EndsAt operandSigns rest) (laid : Laid [sv.text] rest text) :
    double_ text = .noMatch ∧ selVariable text = .matched sv rest := by
  have ends : EndsName rest := follows.endsName (by decide)
  obtain ⟨blanks, middle, blank, later, rfl⟩ := laid_cons.mp laid
  cases later
  cases sv with
  | keyword unir =>
      obtain ⟨middle, keyword, later, _⟩ := keyword_of_laid laid
      cases later
      exact ⟨(preSkip_blanks blank _).trans (double_noMatch (keywordName unir) ends
        (keywordName_plain unir)), Parser.orElse_of_matched (Parser.map_of_matched _ keyword)⟩
  | name variable_ =>
      obtain ⟨noKeyword, plain⟩ := readable
      have noSymbol : symbols inputKeyword (blanks ++ (variable_.text ++ rest)) = .noMatch :=
        (preSkip_blanks blank _).trans (inputKeyword_noMatch variable_ ends noKeyword)
      have named : identifier (blanks ++ (variable_.text ++ rest)) = .matched variable_ rest :=
        (preSkip_blanks blank _).trans (identifier_of_name variable_ ends)
      refine ⟨(preSkip_blanks blank _).trans (double_noMatch variable_ ends plain), ?_⟩
      exact (Parser.orElse_of_noMatch (Parser.map_eq_noMatch.mpr noSymbol)).trans
        (Parser.map_of_matched _ named)

/-- A blank behind a token may also stand in front of the next one. -/
theorem Laid.split_blank {token next : Str}
    (laid : Laid ((token ++ [' ']) :: next :: tokens) rest text) :
    Laid (token :: next :: tokens) rest text := by
  obtain ⟨blanks, middle, blank, later, rfl⟩ := laid_cons.mp laid
  rw [List.append_assoc]
  exact .cons token blank (later.blank rfl)

theorem prefixFree_operators (place : Place) : PrefixFree place.operators := by
  cases place <;> (unfold PrefixFree; decide)

theorem prefixFree_selUnaryOp : PrefixFree selUnaryOp := by
  unfold PrefixFree
  decide

theorem tokens_of_primary : (operand_ : SelOperand) → operand_.Fits .primary →
    ∃ token tokens, operand_.tokens .primary = token :: tokens
  | .number value, _ => ⟨value.text, [], rfl⟩
  | .variable_ sv, _ => ⟨sv.text, [], rfl⟩
  | .expression _, _ => ⟨_, _, rfl⟩

/-- What may follow an operand: an operator, or what may follow the operations. -/
def Place.ends : Place → Str
  | .summand => "+-,;)".toList
  | .factor | .primary => operandSigns

theorem operator_of_laid {place : Place} {operator_ : SelOptoken}
    (member : operator_ ∈ place.operators.map Prod.snd)
    (laid : Laid ([operator_.sign] :: tokens) rest text) :
    ∃ middle, symbols place.operators text = .matched operator_ middle ∧
      Laid tokens rest middle ∧ middle.length < text.length := by
  have entry : ([operator_.sign], operator_) ∈ place.operators := by
    revert member
    cases place <;> cases operator_ <;> decide
  exact symbols_of_laid (prefixFree_operators place) entry (by cases operator_ <;> rfl) laid

theorem operator_noMatch_of_follows {place : Place} (follows : EndsAt place.behind rest) :
    symbols place.operators rest = .noMatch := by
  cases place with
  | summand =>
      have heads : (selAdditiveOp.all fun entry => entry.1.head?.any "+-".toList.contains) = true :=
        by decide
      exact symbols_noMatch heads (follows.clear (by decide)) (follows.not_starts (by decide))
  | factor =>
      have heads : (selMultiplicativeOp.all fun entry =>
        entry.1.head?.any "*/".toList.contains) = true := by decide
      exact symbols_noMatch heads (follows.clear (by decide)) (follows.not_starts (by decide))
  | primary => exact symbols_eq_noMatch.mpr ⟨follows.clear (by decide), by simp [Place.operators]⟩

/-- A number and a variable are read alike in a product and behind a sign. -/
theorem operandAt_of_primary {place : Place} {operand_ : SelOperand} (inside : place ≠ .summand)
    (reads : selPrimaryExpr (selExpressionUpTo fuel) text = .matched operand_ rest) :
    operandAt fuel place text = .matched operand_ rest := by
  cases place with
  | summand => exact (inside rfl).elim
  | factor => exact Parser.orElse_of_matched reads
  | primary => exact reads

theorem follows_operand {place : Place} (inside : place ≠ .summand)
    (follows : EndsAt place.ends rest) : EndsAt operandSigns rest := by
  cases place with
  | summand => exact (inside rfl).elim
  | factor | primary => exact follows

/-- What stands behind an operand when operations follow. -/
theorem follows_operations {place : Place} {more : SelOperations} (fits : more.Fits place)
    (follows : EndsAt place.behind rest) (laid : Laid (more.tokens place) rest text) :
    EndsAt place.ends text := by
  cases more with
  | nil =>
      cases laid
      exact follows.mono (by cases place <;> decide)
  | cons operator_ operand_ more =>
      have head := Laid.follows laid (by cases operator_ <;> rfl) rfl
      refine head.mono ?_
      have member := fits.1
      revert member
      cases place <;> cases operator_ <;> decide

mutual

/-- An operand is read off a layout of its tokens. -/
theorem operand_of_laid : (operand_ : SelOperand) → ∀ {place fuel rest text},
    operand_.Fits place → text.length ≤ fuel → EndsAt place.ends rest →
      Laid (operand_.tokens place) rest text →
        operandAt fuel place text = .matched operand_ rest
  | .nil, _, _, _, _, fits, _, _, _ => fits.elim
  | .number value, place, fuel, rest, text, ⟨inside, literal⟩, _, follows, laid =>
      operandAt_of_primary inside (Parser.orElse_of_matched (Parser.map_of_matched _
        (number_of_laid literal (follows_operand inside follows) laid)))
  | .variable_ sv, place, fuel, rest, text, ⟨inside, readable⟩, _, follows, laid => by
      obtain ⟨noNumber, reads⟩ := variable_of_laid readable (follows_operand inside follows) laid
      refine operandAt_of_primary inside ?_
      exact (Parser.orElse_of_noMatch (Parser.map_eq_noMatch.mpr noNumber)).trans
        (Parser.orElse_of_matched (Parser.map_of_matched _ reads))
  | .unary operator_ operand_, place, fuel, rest, text, ⟨isFactor, sign, fits⟩, enough, follows,
      laid => by
      subst isFactor
      obtain ⟨token, tokens, made⟩ := tokens_of_primary operand_ fits
      have skipped : ∃ tail, text.dropWhile space = operator_.sign :: ' ' :: tail := by
        obtain ⟨blanks, middle, blank, later, rfl⟩ := laid_cons.mp laid
        refine ⟨middle, (dropWhile_blanks blank _).trans (dropWhile_visible ?_ middle)⟩
        cases operator_ <;> rfl
      obtain ⟨tail, skipped⟩ := skipped
      have isSign : operator_.sign = '+' ∨ operator_.sign = '-' := by
        revert sign
        cases operator_ <;> decide
      rw [SelOperand.tokens, made] at laid
      have entry : ([operator_.sign], operator_) ∈ selUnaryOp := by
        revert sign
        cases operator_ <;> decide
      obtain ⟨middle, isSymbol, later, shorter⟩ := symbols_of_laid prefixFree_selUnaryOp entry
        (by cases operator_ <;> rfl) laid.split_blank
      rw [← made] at later
      have reads := operand_of_laid operand_ fits (shorter.le.trans enough) follows later
      refine (Parser.orElse_of_noMatch (selPrimaryExpr_noMatch skipped isSign)).trans ?_
      rw [Parser.andThen_of_matched isSymbol]
      exact Parser.map_of_matched _ (Parser.expect_of_matched reads)
  | .expression se, .summand, fuel, rest, text, fits, enough, follows, laid =>
      Parser.map_of_matched _ (expression_of_laid se fits (by decide) enough follows laid)
  | .expression se, .factor, fuel, rest, text, fits, enough, _, laid =>
      operandAt_of_primary (by decide) (parenthesis_of_laid se fits enough laid)
  | .expression se, .primary, fuel, rest, text, fits, enough, _, laid =>
      operandAt_of_primary (by decide) (parenthesis_of_laid se fits enough laid)

/-- A sum in parentheses. -/
theorem parenthesis_of_laid : (se : SelExpression) → ∀ {fuel rest text}, se.Fits .summand →
    text.length ≤ fuel → Laid (['('] :: (se.tokens .summand ++ [[')']])) rest text →
      selPrimaryExpr (selExpressionUpTo fuel) text = .matched (.expression se) rest
  | se, fuel, rest, text, fits, enough, laid => by
      obtain ⟨tail, skipped⟩ : ∃ tail, text.dropWhile space = '(' :: tail :=
        ⟨_, List.head?_eq_some_iff.mp (laid.head rfl) |>.choose_spec⟩
      obtain ⟨behind, opened, inside, shorter⟩ := lit_of_laid rfl laid
      obtain ⟨middle, isSum, closing⟩ := laid_append.mp inside
      obtain ⟨after, closed, done, _⟩ := lit_of_laid rfl closing
      cases done
      have noNumber : double_ text = .noMatch := by
        rw [double_, preSkip_cons skipped rfl]
        rfl
      have noVariable := selVariable_noMatch skipped (Or.inl rfl)
      have reads : selExpressionUpTo fuel behind = .matched se middle := by
        cases fuel with
        | zero => exact absurd (shorter.trans_le enough) (Nat.not_lt_zero _)
        | succ fuel =>
            exact expression_of_laid se fits (by decide) (Nat.le_of_lt_succ
              (shorter.trans_le enough)) ((closing.follows rfl rfl).mono (by decide)) isSum
      rw [selPrimaryExpr, Parser.orElse_of_noMatch (Parser.map_eq_noMatch.mpr noNumber),
        Parser.orElse_of_noMatch (Parser.map_eq_noMatch.mpr noVariable),
        Parser.andThen_of_matched opened,
        Parser.andThen_of_matched (Parser.expect_of_matched reads)]
      exact Parser.map_of_matched _ (Parser.expect_of_matched closed)

theorem expression_of_laid : (se : SelExpression) → ∀ {place fuel rest text},
    se.Fits place → place ≠ .primary → text.length ≤ fuel → EndsAt place.behind rest →
      Laid (se.tokens place) rest text →
        selBinaryExpr place.operators (operandAt fuel place) text = .matched se rest
  | .mk first more, place, fuel, rest, text, ⟨fits, others⟩, operators, enough, follows, laid => by
      obtain ⟨middle, isFirst, later⟩ := laid_append.mp laid
      have reads := operand_of_laid first fits enough
        (follows_operations others follows later) isFirst
      have chain := operations_of_laid more others operators (isFirst.length_le.trans enough)
        follows later
      rw [selBinaryExpr, Parser.andThen_of_matched reads]
      refine (Parser.map_of_matched _ (Parser.expect_of_matched
        (Parser.many_of_chain chain))).trans ?_
      rw [operations_toList]

theorem operations_of_laid : (more : SelOperations) → ∀ {place fuel rest text},
    more.Fits place → place ≠ .primary → text.length ≤ fuel → EndsAt place.behind rest →
      Laid (more.tokens place) rest text →
        Parser.Chain ((symbols place.operators).andThen fun op =>
          (operandAt fuel place).expect.map fun right => (op, right)) more.toList text rest
  | .nil, place, fuel, rest, text, _, _, _, follows, laid => by
      cases laid
      exact .nil (Parser.andThen_eq_noMatch_of_noMatch (operator_noMatch_of_follows follows))
  | .cons operator_ operand_ more, place, fuel, rest, text, ⟨isOperator, fits, others⟩, operators,
      enough, follows, laid => by
      obtain ⟨behind, isSymbol, later, shorter⟩ := operator_of_laid isOperator laid
      obtain ⟨middle, isOperand, last⟩ := laid_append.mp later
      have reads := operand_of_laid operand_ fits (shorter.le.trans enough)
        (follows_operations others follows last) isOperand
      have within := isOperand.length_le
      have chain := operations_of_laid more others operators
        (within.trans (shorter.le.trans enough)) follows last
      refine .cons ?_ (within.trans_lt shorter) chain
      rw [Parser.andThen_of_matched isSymbol]
      exact Parser.map_of_matched _ (Parser.expect_of_matched reads)

end

/-- An expression is read off a layout of its tokens. -/
theorem selExpression_of_laid {se : SelExpression} (fits : se.Fits .summand)
    (follows : EndsAt ",;)".toList rest) (laid : Laid (se.tokens .summand) rest text) :
    selExpression text = .matched se rest :=
  expression_of_laid se fits (by decide) (Nat.le_refl _) follows laid

end Reading

/-! ### What is read -/

/-- No parenthesis is opened directly behind. -/
def NoBracket (rest : Str) : Prop := rest.head? ≠ some '('

theorem noBracket_of_skipped {rest tail : Str} {c : Char}
    (skipped : rest.dropWhile space = c :: tail) (other : c ≠ '(') : NoBracket rest := by
  intro first
  obtain ⟨tail, rfl⟩ := List.head?_eq_some_iff.mp first
  exact other (List.cons.inj skipped).1.symm

/-- What a parser reads in front of no parenthesis has a property. -/
def MakesBefore {α : Type} (good : α → Prop) (parser : Parser Char α) : Prop :=
  ∀ ⦃text value rest⦄, parser text = .matched value rest → NoBracket rest → good value

section Made

variable {text rest : Str} {place : Place}

theorem isReadable_of_selVariable {sv : SelVariable} (noNumber : double_ text = .noMatch)
    (reads : selVariable text = .matched sv rest) (behind : NoBracket rest) : sv.IsReadable := by
  rcases Parser.orElse_eq_matched.mp reads with keyword | ⟨noKeyword, named⟩
  · obtain ⟨unir, _, rfl⟩ := Parser.map_eq_matched.mp keyword
    trivial
  · obtain ⟨name, isName, rfl⟩ := Parser.map_eq_matched.mp named
    obtain ⟨skipped, ends⟩ := identifier_eq_matched isName
    constructor
    · intro stored member starts
      obtain ⟨entry, listed, rfl⟩ := List.mem_map.mp member
      refine (symbols_eq_noMatch.mp (Parser.map_eq_noMatch.mp noKeyword)).2 entry listed ?_
      rw [skipped]
      exact starts.trans (List.prefix_append _ _)
    · intro special
      obtain ⟨value, after, matched⟩ := double_matches name special ends behind
      have same : double_ text = double_ (name.text ++ rest) := by
        rw [double_, preSkip, preSkip, skips, skips, skipped, name.skipped]
      rw [← same, noNumber] at matched
      cases matched

theorem fits_of_selPrimaryExpr {inner : Parser Char SelExpression}
    (good : MakesBefore (SelExpression.Fits .summand) inner) (inside : place ≠ .summand) :
    MakesBefore (SelOperand.Fits place) (selPrimaryExpr inner) := by
  intro text operand_ rest reads behind
  rcases Parser.orElse_eq_matched.mp reads with number | ⟨noNumber, reads⟩
  · obtain ⟨value, isNumber, rfl⟩ := Parser.map_eq_matched.mp number
    exact ⟨inside, isLiteral_of_double isNumber⟩
  · rcases Parser.orElse_eq_matched.mp reads with variable_ | ⟨_, reads⟩
    · obtain ⟨sv, isVariable, rfl⟩ := Parser.map_eq_matched.mp variable_
      exact ⟨inside,
        isReadable_of_selVariable (Parser.map_eq_noMatch.mp noNumber) isVariable behind⟩
    · obtain ⟨_, opened, _, reads⟩ := Parser.andThen_eq_matched.mp reads
      obtain ⟨se, middle, isSum, reads⟩ := Parser.andThen_eq_matched.mp reads
      obtain ⟨_, closed, rfl⟩ := Parser.map_eq_matched.mp reads
      have skipped := lit_eq_matched (Parser.expect_eq_matched.mp closed)
      have fits := good (Parser.expect_eq_matched.mp isSum)
        (noBracket_of_skipped skipped (by decide))
      cases place with
      | summand => exact (inside rfl).elim
      | factor | primary => exact fits

theorem noBracket_of_symbols {table : List (Str × SelOptoken)} {op : SelOptoken}
    (heads : (table.all fun entry => entry.1.head?.any fun c => c != '(') = true)
    (reads : symbols table text = .matched op rest) : NoBracket text := by
  obtain ⟨word, member, starts⟩ := symbols_eq_matched reads
  have isHead := List.all_eq_true.mp heads _ member
  cases word with
  | nil => cases isHead
  | cons c word =>
      obtain ⟨tail, whole⟩ := starts
      exact noBracket_of_skipped whole.symm (by simpa using isHead)

/-- Operations, and what stands in front of them. -/
theorem fits_of_manyUpTo {operand_ : Parser Char SelOperand}
    (heads : (place.operators.all fun entry => entry.1.head?.any fun c => c != '(') = true)
    (good : MakesBefore (SelOperand.Fits place) operand_) : ∀ {fuel text rest list},
      ((symbols place.operators).andThen fun op => operand_.expect.map fun right =>
        (op, right)).manyUpTo fuel text = .matched list rest → NoBracket rest →
          (operations list).Fits place ∧ NoBracket text := by
  intro fuel
  induction fuel with
  | zero =>
      intro text rest list reads behind
      cases reads
      exact ⟨trivial, behind⟩
  | succ fuel ih =>
      intro text rest list reads behind
      rcases Parser.manyUpTo_succ_eq_matched.mp reads with
        ⟨_, rfl, rfl⟩ | ⟨_, middle, later, first, others, rfl⟩
      · exact ⟨trivial, behind⟩
      · obtain ⟨op, _, isSymbol, first⟩ := Parser.andThen_eq_matched.mp first
        obtain ⟨right, isRight, rfl⟩ := Parser.map_eq_matched.mp first
        obtain ⟨fits, between⟩ := ih others behind
        obtain ⟨word, member, _⟩ := symbols_eq_matched isSymbol
        exact ⟨⟨List.mem_map_of_mem member, good (Parser.expect_eq_matched.mp isRight) between,
          fits⟩, noBracket_of_symbols heads isSymbol⟩

theorem fits_of_selBinaryExpr {operand_ : Parser Char SelOperand}
    (heads : (place.operators.all fun entry => entry.1.head?.any fun c => c != '(') = true)
    (good : MakesBefore (SelOperand.Fits place) operand_) :
    MakesBefore (SelExpression.Fits place) (selBinaryExpr place.operators operand_) := by
  intro text se rest reads behind
  obtain ⟨first, middle, isFirst, reads⟩ := Parser.andThen_eq_matched.mp reads
  obtain ⟨list, others, rfl⟩ := Parser.map_eq_matched.mp reads
  obtain ⟨fits, between⟩ := fits_of_manyUpTo heads good (Parser.expect_eq_matched.mp others) behind
  exact ⟨good isFirst between, fits⟩

theorem fits_of_selExpressionUpTo (fuel : Nat) :
    MakesBefore (SelExpression.Fits .summand) (selExpressionUpTo fuel) := by
  induction fuel with
  | zero => exact fun _ _ _ reads => nomatch reads
  | succ fuel ih =>
      have factor : MakesBefore (SelOperand.Fits .factor)
          (selUnaryExpr (selExpressionUpTo fuel)) := by
        intro text operand_ rest reads behind
        rcases Parser.orElse_eq_matched.mp reads with primary | ⟨_, reads⟩
        · exact fits_of_selPrimaryExpr ih (by decide) primary behind
        · obtain ⟨op, _, isSign, reads⟩ := Parser.andThen_eq_matched.mp reads
          obtain ⟨inner, isInner, rfl⟩ := Parser.map_eq_matched.mp reads
          obtain ⟨word, member, _⟩ := symbols_eq_matched isSign
          exact ⟨rfl, List.mem_map_of_mem member, fits_of_selPrimaryExpr ih (by decide)
            (Parser.expect_eq_matched.mp isInner) behind⟩
      refine @fits_of_selBinaryExpr .summand _ (by decide) ?_
      intro text operand_ rest reads behind
      obtain ⟨product, isProduct, rfl⟩ := Parser.map_eq_matched.mp reads
      exact @fits_of_selBinaryExpr .factor _ (by decide) factor _ _ _ isProduct behind

/-- An expression that is read is one of the grammar. -/
theorem fits_of_selExpression : MakesBefore (SelExpression.Fits .summand) selExpression :=
  fun _ _ _ reads behind => fits_of_selExpressionUpTo _ reads behind

end Made

end Policer.Parsing
