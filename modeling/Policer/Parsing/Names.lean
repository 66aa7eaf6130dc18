import Mathlib.Data.List.TakeDrop
import Policer.Parsing.FilterGrammar
import Policer.Parsing.FilterRenaming
import Policer.Parsing.SelectorGrammar

/-!
# Names in three lexical rules

A name that `identifier` accepts is read again by the grammar of selectors, which tries its
keywords and `double_` first, and by the scanner of filter bodies, which has letters of its own.
`agrees_iff` says which names both of them read as themselves.
-/

namespace Policer.Parsing

open Policer.Lib.Expectation Policer.Lib.Lexer

/-! ### White space in front -/

section Skipping

variable {α : Type} {parser : Parser Char α} {text rest : Str}

theorem preSkip_of_skips (clear : skips text = true) :
    preSkip parser text = parser (text.dropWhile space) := if_pos clear

theorem preSkip_cons {c : Char} (skipped : text.dropWhile space = c :: rest)
    (ascii : isAscii c = true) : preSkip parser text = parser (c :: rest) := by
  have clear : skips text = true := by
    rw [skips, skipped]
    exact ascii
  rw [preSkip_of_skips clear, skipped]

theorem preSkip_of_not_skips (unclear : ¬ skips text = true) : preSkip parser text = .aborted :=
  if_neg unclear

theorem preSkip_eq_matched {value : α} : preSkip parser text = .matched value rest ↔
    skips text = true ∧ parser (text.dropWhile space) = .matched value rest := by
  by_cases clear : skips text = true
  · simp [preSkip_of_skips clear, clear]
  · simp [preSkip_of_not_skips clear, clear]

theorem preSkip_eq_noMatch : preSkip parser text = .noMatch ↔
    skips text = true ∧ parser (text.dropWhile space) = .noMatch := by
  by_cases clear : skips text = true
  · simp [preSkip_of_skips clear, clear]
  · simp [preSkip_of_not_skips clear, clear]

end Skipping

/-! ### Symbol tables -/

theorem prefixFind_eq_none {α : Type} {table : List (Str × α)} {text : Str} :
    prefixFind table text = none ↔ ∀ entry ∈ table, ¬ entry.1 <+: text := by
  induction table with
  | nil => simp [prefixFind]
  | cons entry table ih =>
      rw [List.forall_mem_cons, ← ih, prefixFind]
      cases prefixFind table text with
      | none => simp
      | some other =>
          simp only [reduceCtorEq, and_false, iff_false]
          split <;> simp

/-- A table matches nothing when no word of it starts the text. -/
theorem symbols_eq_noMatch {α : Type} {table : List (Str × α)} {text : Str} :
    symbols table text = .noMatch ↔
      skips text = true ∧ ∀ entry ∈ table, ¬ entry.1 <+: text.dropWhile space := by
  rw [← prefixFind_eq_none, symbols, preSkip_eq_noMatch]
  cases prefixFind table (text.dropWhile space) <;> simp

/-- It matches something otherwise. -/
theorem symbols_matches {α : Type} {table : List (Str × α)} {text : Str}
    (clear : skips text = true) (starts : ∃ entry ∈ table, entry.1 <+: text.dropWhile space) :
    ∃ value rest, symbols table text = .matched value rest := by
  rw [symbols, preSkip_of_skips clear]
  cases found : prefixFind table (text.dropWhile space) with
  | none =>
      obtain ⟨entry, member, starts⟩ := starts
      exact absurd starts (prefixFind_eq_none.mp found entry member)
  | some entry => exact ⟨entry.2, (text.dropWhile space).drop entry.1.length, rfl⟩

/-! ### Where a name ends -/

/-- What stands behind an item of a selector: `,` or `;`, if anything. -/
def EndsItem (rest : Str) : Prop := ∀ c, (rest.dropWhile space).head? = some c → c = ',' ∨ c = ';'

theorem EndsItem.nil : EndsItem [] := by simp [EndsItem]

theorem EndsItem.skips {rest : Str} (ends : EndsItem rest) : skips rest = true := by
  rw [Parsing.skips]
  cases first : (rest.dropWhile space).head? with
  | none => rfl
  | some c => rcases ends c first with rfl | rfl <;> rfl

theorem EndsItem.head {rest : Str} (ends : EndsItem rest) {c : Char}
    (first : rest.head? = some c) : c ∈ " \t\n\x0b\x0c\r,;".toList := by
  obtain ⟨tail, rfl⟩ := List.head?_eq_some_iff.mp first
  by_cases isSpace : space c = true
  · simp only [space, Bool.or_eq_true, beq_iff_eq] at isSpace
    rcases isSpace with ((((rfl | rfl) | rfl) | rfl) | rfl) | rfl <;> decide
  · have skipped : (c :: tail).dropWhile space = c :: tail := by simp [isSpace]
    rcases ends c (by rw [skipped]; rfl) with rfl | rfl <;> decide

/-- No character of a class stands behind an item when the class has none of these signs. -/
theorem EndsItem.rejects {rest : Str} (ends : EndsItem rest) {cls : Char → Bool}
    (none_ : (" \t\n\x0b\x0c\r,;".toList.all fun c => !cls c) = true) {c : Char}
    (first : rest.head? = some c) : cls c = false := by
  simpa using List.all_eq_true.mp none_ c (ends.head first)

/-- No name goes on behind a name. -/
def EndsName (rest : Str) : Prop := ∀ c, rest.head? = some c → isIdentifierRest c = false

theorem EndsItem.endsName {rest : Str} (ends : EndsItem rest) : EndsName rest :=
  fun _ first => ends.rejects (by decide) first

/-- A word of a table is found in front of a text only as far as the text goes. -/
theorem isPrefix_append_iff {cls : Char → Bool} {rest : Str} :
    (word text : Str) → (∀ c ∈ word, cls c = true) →
    (∀ c, rest.head? = some c → cls c = false) → (word <+: text ++ rest ↔ word <+: text)
  | [], _, _, _ => by simp
  | c :: word, [], chars, ends => by
      simp only [List.nil_append, List.prefix_nil, reduceCtorEq, iff_false]
      rintro ⟨tail, rfl⟩
      have outside := ends c rfl
      rw [chars c (by simp)] at outside
      cases outside
  | c :: word, d :: text, chars, ends => by
      rw [List.cons_append, List.cons_prefix_cons, List.cons_prefix_cons,
        isPrefix_append_iff word text (fun e member => chars e (by simp [member])) ends]

/-- The words `nan` and `inf` likewise. -/
theorem stringParse_append {cls : Char → Bool} {rest : Str} (uppers lowers text : Str)
    (chars : ∀ c ∈ uppers ++ lowers, cls c = true)
    (ends : ∀ c, rest.head? = some c → cls c = false)
    (absent : stringParse uppers lowers text = none) :
    stringParse uppers lowers (text ++ rest) = none := by
  induction uppers, lowers, text using stringParse.induct with
  | case1 | case2 => simp [stringParse] at absent
  | case3 upper uppers lower lowers =>
      cases rest with
      | nil => exact absent
      | cons c rest =>
          have outside := ends c rfl
          have differs : upper ≠ c ∧ lower ≠ c := by
            constructor
            · rintro rfl
              rw [chars upper (by simp)] at outside
              cases outside
            · rintro rfl
              rw [chars lower (by simp)] at outside
              cases outside
          rw [List.nil_append, stringParse, if_pos differs]
  | case4 upper uppers lower lowers c text differs =>
      rw [List.cons_append, stringParse, if_pos differs]
  | case5 upper uppers lower lowers c text same ih =>
      rw [stringParse, if_neg same] at absent
      rw [List.cons_append, stringParse, if_neg same]
      refine ih (fun d member => chars d ?_) absent
      rcases List.mem_append.mp member with inUppers | inLowers
      · simp [inUppers]
      · simp [inLowers]

theorem stringParse_suffix {uppers lowers text rest : Str}
    (found : stringParse uppers lowers text = some rest) : rest <:+ text := by
  induction uppers, lowers, text using stringParse.induct with
  | case1 | case2 =>
      simp only [stringParse, Option.some.injEq] at found
      exact found ▸ List.suffix_refl _
  | case3 => simp [stringParse] at found
  | case4 upper uppers lower lowers c text differs => simp [stringParse, differs] at found
  | case5 upper uppers lower lowers c text same ih =>
      rw [stringParse, if_neg same] at found
      exact (ih found).trans (List.suffix_cons c text)

theorem stringParse_append_of_some {uppers lowers text behind : Str} (rest : Str)
    (found : stringParse uppers lowers text = some behind) :
    stringParse uppers lowers (text ++ rest) = some (behind ++ rest) := by
  induction uppers, lowers, text using stringParse.induct with
  | case1 | case2 =>
      simp only [stringParse, Option.some.injEq] at found
      simp [stringParse, found]
  | case3 => simp [stringParse] at found
  | case4 upper uppers lower lowers c text differs => simp [stringParse, differs] at found
  | case5 upper uppers lower lowers c text same ih =>
      rw [stringParse, if_neg same] at found
      rw [List.cons_append, stringParse, if_neg same]
      exact ih found

/-! ### How a name is read -/

section Reading

variable (name : Identifier) {rest : Str}

/-- Signs and digits start no name. -/
theorem isIdentifierStart_ne {c : Char} (starts : isIdentifierStart c = true) :
    space c = false ∧ c ≠ '"' ∧ c ≠ '+' ∧ c ≠ '-' ∧ c ≠ '.' ∧ c.isDigit = false := by
  have signs : (" \t\n\x0b\x0c\r\"+-.".toList.all fun d => !isIdentifierStart d) = true := by decide
  have differs : ∀ d ∈ " \t\n\x0b\x0c\r\"+-.".toList, c ≠ d := by
    rintro d member rfl
    simpa [starts] using List.all_eq_true.mp signs c member
  refine ⟨?_, differs _ (by decide), differs _ (by decide), differs _ (by decide),
    differs _ (by decide), ?_⟩
  · simp only [space, Bool.or_eq_false_iff, beq_eq_false_iff_ne]
    exact ⟨⟨⟨⟨⟨differs _ (by decide), differs _ (by decide)⟩, differs _ (by decide)⟩,
      differs _ (by decide)⟩, differs _ (by decide)⟩, differs _ (by decide)⟩
  · simp only [isIdentifierStart, Bool.or_eq_true, beq_iff_eq] at starts
    rcases starts with alpha | rfl
    · rw [isAlpha_iff, isUpper_iff_toNat, isLower_iff_toNat] at alpha
      have lastDigit : '9'.val.toNat = 57 := rfl
      simp only [Char.isDigit, Bool.and_eq_false_iff, decide_eq_false_iff_not,
        UInt32.le_iff_toNat_le]
      omega
    · decide

theorem isAscii_of_isDigit {c : Char} (isDigit : c.isDigit = true) : isAscii c = true := by
  simp only [Char.isDigit, Bool.and_eq_true, decide_eq_true_iff, UInt32.le_iff_toNat_le] at isDigit
  have lastDigit : '9'.val.toNat = 57 := rfl
  rw [isAscii, decide_eq_true_iff, Char.toNat]
  omega

theorem isAscii_of_start {c : Char} (starts : isIdentifierStart c = true) : isAscii c = true := by
  simp only [isIdentifierStart, Bool.or_eq_true, beq_iff_eq] at starts
  rcases starts with alpha | rfl
  · rw [isAlpha_iff, isUpper_iff_toNat, isLower_iff_toNat] at alpha
    rw [isAscii, decide_eq_true_iff, Char.toNat]
    omega
  · rfl

theorem isAscii_of_rest {c : Char} (isRest : isIdentifierRest c = true) : isAscii c = true := by
  simp only [isIdentifierRest, Char.isAlphanum, Bool.or_eq_true, beq_iff_eq] at isRest
  rcases isRest with (alpha | digit) | rfl
  · exact isAscii_of_start (by simp [isIdentifierStart, alpha])
  · exact isAscii_of_isDigit digit
  · rfl

theorem Identifier.skipped (rest : Str) :
    (name.text ++ rest).dropWhile space = name.text ++ rest := by
  obtain ⟨c, tail, made, starts, _⟩ := name.exists_cons
  rw [made, List.cons_append,
    List.dropWhile_cons_of_neg (by simp [(isIdentifierStart_ne starts).1])]

theorem Identifier.preSkip {α : Type} (parser : Parser Char α) (rest : Str) :
    preSkip parser (name.text ++ rest) = parser (name.text ++ rest) := by
  have skipped := name.skipped rest
  obtain ⟨c, tail, made, starts, _⟩ := name.exists_cons
  rw [made, List.cons_append] at skipped ⊢
  exact preSkip_cons skipped (isAscii_of_start starts)

theorem Identifier.skips (rest : Str) : skips (name.text ++ rest) = true := by
  have skipped := name.skipped rest
  obtain ⟨c, tail, made, starts, _⟩ := name.exists_cons
  rw [Parsing.skips, skipped, made]
  exact isAscii_of_start starts

theorem identifier_of_name (ends : EndsName rest) :
    identifier (name.text ++ rest) = .matched name rest := by
  have taken : (name.text ++ rest).takeWhile isIdentifierRest = name.text := by
    rw [List.takeWhile_append_of_pos name.isRest, List.append_right_eq_self]
    cases rest with
    | nil => rfl
    | cons c rest => exact List.takeWhile_cons_of_neg (by simp [ends c rfl])
  rw [identifier, name.preSkip]
  simp only [taken, name.valid, ↓reduceDIte, List.drop_left]

/-- The words of a table in front of a name are those that start it. -/
theorem symbols_noMatch_of_name {α : Type} {table : List (Str × α)}
    (chars : (table.all fun entry => entry.1.all isIdentifierRest) = true) (ends : EndsName rest)
    (absent : ∀ stored ∈ table.map Prod.fst, ¬ stored <+: name.text) :
    symbols table (name.text ++ rest) = .noMatch := by
  rw [symbols_eq_noMatch, name.skipped]
  refine ⟨name.skips rest, fun entry member starts => ?_⟩
  rw [isPrefix_append_iff _ _ (List.all_eq_true.mp (List.all_eq_true.mp chars entry member))
    ends] at starts
  exact absent entry.1 (List.mem_map_of_mem member) starts

theorem inputKeyword_noMatch (ends : EndsName rest)
    (noKeyword : ∀ stored ∈ inputKeyword.map Prod.fst, ¬ stored <+: name.text) :
    symbols inputKeyword (name.text ++ rest) = .noMatch :=
  symbols_noMatch_of_name name (by decide) ends noKeyword

/-- The words `double_` knows besides digits. -/
def startsSpecial (text : Str) : Prop :=
  stringParse "nan".toList "NAN".toList text ≠ none ∨
    stringParse "inf".toList "INF".toList text ≠ none

/-- A name has neither sign nor digits in front. -/
theorem unsigned_of_start {text : Str} {c : Char} {tail : Str} (made : text = c :: tail)
    (starts : isIdentifierStart c = true) :
    text.dropWhile space = text ∧ extractSign text = (false, text) ∧ extractDigits text = none := by
  obtain ⟨noSpace, _, noPlus, noMinus, _, noDigit⟩ := isIdentifierStart_ne starts
  refine ⟨?_, ?_, by simp [extractDigits, made, noDigit]⟩
  · rw [made, List.dropWhile_cons_of_neg (by simp [noSpace])]
  · rw [made, extractSign]
    · rintro _ same
      exact noMinus (List.cons.inj same).1
    · rintro _ same
      exact noPlus (List.cons.inj same).1

/-- `double_` does not take a name that starts with neither of its words. -/
theorem double_noMatch (ends : EndsName rest) (plain : ¬ startsSpecial name.text) :
    double_ (name.text ++ rest) = .noMatch := by
  obtain ⟨c, tail, made, starts, _⟩ := name.exists_cons
  simp only [startsSpecial, ne_eq, not_or, not_not] at plain
  have noNan := stringParse_append _ _ _ (List.all_eq_true.mp (by decide)) ends plain.1
  have noInf := stringParse_append _ _ _ (List.all_eq_true.mp (by decide)) ends plain.2
  have noSpecial : parseSpecial false (name.text ++ rest) = (none, name.text ++ rest) := by
    simp only [parseSpecial, parseNan, noNan, parseInf, noInf, Option.map_none]
  have whole : name.text ++ rest = c :: (tail ++ rest) := by rw [made, List.cons_append]
  obtain ⟨skipped, unsigned, noDigits⟩ := unsigned_of_start whole starts
  rw [double_, name.preSkip]
  simp only [extractReal, unsigned, noDigits, noSpecial]
  rw [whole]
  split
  · rename_i found
    cases found
  · rename_i found
    exact absurd (List.cons.inj (Prod.mk.inj found).2).1 (isIdentifierStart_ne starts).2.2.2.2.1
  · rfl

/-- It takes a name that starts with one of them, unless a parenthesis follows. -/
theorem double_matches (special : startsSpecial name.text) (ends : EndsName rest)
    (bracket : rest.head? ≠ some '(') :
    ∃ value behind, double_ (name.text ++ rest) = .matched value behind := by
  obtain ⟨c, tail, made, starts, _⟩ := name.exists_cons
  have whole : name.text ++ rest = c :: (tail ++ rest) := by rw [made, List.cons_append]
  obtain ⟨skipped, unsigned, noDigits⟩ := unsigned_of_start whole starts
  have found : ∃ value behind, parseSpecial false (name.text ++ rest) = (some value, behind) := by
    cases nan : stringParse "nan".toList "NAN".toList name.text with
    | some behind =>
        have noBracket : ∀ more, behind ++ rest ≠ '(' :: more := by
          intro more same
          cases behind with
          | nil => exact bracket (by rw [← List.nil_append rest, same]; rfl)
          | cons d behind =>
              have inside := name.isRest d ((stringParse_suffix nan).subset (by simp))
              rw [(List.cons.inj same).1] at inside
              revert inside
              decide
        have isNan : parseNan (name.text ++ rest) = (true, behind ++ rest) := by
          rw [parseNan, stringParse_append_of_some rest nan]
          split
          · rename_i found
            cases found
          · rename_i found
            exact absurd (Option.some.inj found) (noBracket _)
          · rename_i found
            rw [Option.some.inj found]
        exact ⟨.nan, behind ++ rest, by simp only [parseSpecial, isNan]⟩
    | none =>
        cases inf : stringParse "inf".toList "INF".toList name.text with
        | some behind =>
            have noNan := stringParse_append _ _ _ (List.all_eq_true.mp (by decide)) ends nan
            exact ⟨.infinity false,
              (stringParse "inity".toList "INITY".toList (behind ++ rest)).getD (behind ++ rest), by
              simp only [parseSpecial, parseNan, noNan, parseInf,
                stringParse_append_of_some rest inf, Option.map_some]⟩
        | none => exact (special.elim (· nan) (· inf)).elim
  obtain ⟨value, behind, found⟩ := found
  refine ⟨value, behind, ?_⟩
  rw [double_, name.preSkip]
  simp only [extractReal, unsigned, noDigits, found]

/-- An operand without operators behind it. -/
theorem selBinaryExpr_single {table : List (Str × SelOptoken)} {operand_ : Parser Char SelOperand}
    {text : Str} {first : SelOperand} (reads : operand_ text = .matched first rest)
    (noOperator : symbols table rest = .noMatch) :
    selBinaryExpr table operand_ text = .matched (.mk first .nil) rest := by
  rw [selBinaryExpr, Parser.andThen_of_matched reads]
  exact Parser.map_of_matched _ (Parser.expect_of_matched
    (Parser.many_of_noMatch (Parser.andThen_eq_noMatch_of_noMatch noOperator)))

/-- The first operand of an expression is the one that is read. -/
theorem selBinaryExpr_first {table : List (Str × SelOptoken)} {operand_ : Parser Char SelOperand}
    {text middle : Str} {first : SelOperand} {made : SelExpression}
    (reads : operand_ text = .matched first middle)
    (parsed : selBinaryExpr table operand_ text = .matched made rest) :
    ∃ more, made = .mk first more := by
  rw [selBinaryExpr, Parser.andThen_of_matched reads] at parsed
  obtain ⟨more, _, same⟩ := Parser.map_eq_matched.mp parsed
  exact ⟨operations more, same.symm⟩

theorem operator_noMatch (ends : EndsItem rest) {table : List (Str × SelOptoken)}
    (operators : (table.all fun entry => entry.1.head?.any fun c => c != ',' && c != ';') = true) :
    symbols table rest = .noMatch := by
  rw [symbols_eq_noMatch]
  refine ⟨ends.skips, ?_⟩
  rintro ⟨stored, op⟩ member ⟨tail, whole⟩
  have isOperator := List.all_eq_true.mp operators _ member
  cases stored with
  | nil => cases isOperator
  | cons c stored =>
      simp only [List.head?_cons, Option.any_some, Bool.and_eq_true, bne_iff_ne,
        ne_eq] at isOperator
      rcases ends c (by rw [← whole]; rfl) with rfl | rfl
      · exact isOperator.1 rfl
      · exact isOperator.2 rfl

theorem selExpression_single {text : Str} {operand_ : SelOperand} (ends : EndsItem rest)
    (reads : ∀ inner, selPrimaryExpr inner text = .matched operand_ rest) :
    selExpression text = .matched (.mk (.expression (.mk operand_ .nil)) .nil) rest := by
  have product : selMultiplicativeExpr (selExpressionUpTo text.length) text =
      .matched (.mk operand_ .nil) rest :=
    selBinaryExpr_single (Parser.orElse_of_matched (reads _)) (operator_noMatch ends (by decide))
  exact selBinaryExpr_single (Parser.map_of_matched _ product) (operator_noMatch ends (by decide))

theorem selExpression_first {text middle : Str} {operand_ : SelOperand} {made : SelExpression}
    (reads : ∀ inner, selPrimaryExpr inner text = .matched operand_ middle)
    (parsed : selExpression text = .matched made rest) :
    ∃ more others, made = .mk (.expression (.mk operand_ more)) others := by
  obtain ⟨_, _, product, _⟩ := Parser.andThen_eq_matched.mp parsed
  obtain ⟨_, isProduct, rfl⟩ := Parser.map_eq_matched.mp product
  obtain ⟨more, rfl⟩ := selBinaryExpr_first
    (Parser.orElse_of_matched (reads (selExpressionUpTo text.length))) isProduct
  obtain ⟨others, rfl⟩ := selBinaryExpr_first product parsed
  exact ⟨more, others, rfl⟩

end Reading

/-! ### The scanner of filter bodies -/

/-- The words of the filter language. -/
def reservedWords : List Str :=
  ["and", "or", "not", "exist", "eq", "gt", "lt", "like", "in", "out", "src", "prev", "ingress",
    "dst", "next", "egress", "any"].map String.toList

/-- The rules in front of `ident` take a text of such characters only when it is reserved. -/
theorem reserved_of_keyword {rule : FilterRule} (keyword : rule.isKeyword = true)
    {text : Str} (chars : ∀ c ∈ text, isIdentifierRest c = true) (filled : text ≠ [])
    (accepted : rule.lang text = true) : text ∈ reservedWords := by
  have listed : ∀ candidates : List Str,
      (candidates.all fun word =>
        !word.all isIdentifierRest || reservedWords.contains word) = true →
      text ∈ candidates → text ∈ reservedWords := by
    intro candidates good member
    have isGood := List.all_eq_true.mp good text member
    rw [List.all_eq_true.mpr chars] at isGood
    simpa using isGood
  have noBlank : ∀ c ∈ text, isBlank c = false := by
    intro c member
    have inside := chars c member
    rw [Bool.eq_false_iff]
    intro blank
    simp only [isBlank, Bool.or_eq_true, beq_iff_eq] at blank
    rcases blank with rfl | rfl <;> exact absurd inside (by decide)
  have noBlanks : ∀ blanks, plus isBlank blanks = true → (∀ c ∈ blanks, c ∈ text) → False := by
    intro blanks isBlanks inside
    obtain ⟨some_, isBlank_⟩ := plus_iff.mp isBlanks
    obtain ⟨c, tail, rfl⟩ := List.exists_cons_of_ne_nil some_
    have blank := isBlank_ c (by simp)
    rw [noBlank c (inside c (by simp))] at blank
    cases blank
  have noPair : ∀ first middle last, pairLang first middle last text = true → False := by
    intro first middle last isPair
    obtain ⟨_, _, rfl, _, isPair⟩ := cat_iff.mp isPair
    obtain ⟨blanks, _, rfl, isBlanks, _⟩ := cat_iff.mp isPair
    exact noBlanks blanks isBlanks fun c member => by simp [member]
  cases rule with
  | ident | string | quoted | comment | other => cases keyword
  | exist | any | newline =>
      exact listed [_] (by decide) (List.mem_singleton.mpr (word_iff.mp accepted))
  | «in» =>
      obtain ⟨_, _, rfl, _, accepted⟩ := cat_iff.mp accepted
      obtain ⟨blanks, _, rfl, isBlanks, _⟩ := cat_iff.mp accepted
      exact (noBlanks blanks isBlanks fun c member => by simp [member]).elim
  | pairAnd | pairOr =>
      rcases either_iff.mp accepted with first | second
      · exact (noPair _ _ _ first).elim
      · exact (noPair _ _ _ second).elim
  | blanks => exact (noBlanks text accepted fun _ member => member).elim
  | _ => exact listed _ (by decide) (words_iff.mp accepted)

/-- A name that starts with a letter is one token when it is not reserved. -/
theorem filterTokens_of_name (name : Identifier) {c : Char} {tail : Str}
    (made : name.text = c :: tail) (alpha : c.isAlpha = true) (free : name.text ∉ reservedWords) :
    filterTokens name.text = [.ident name.text] := by
  have filled : name.text ≠ [] := by simp [made]
  have isIdent : FilterRule.ident.lang name.text = true := by
    refine either_iff.mpr (Or.inl (identLang_iff.mpr ⟨c, tail, made, alpha, fun d member => ?_⟩))
    have inside := name.isRest d (by simp [made, member])
    simp only [isIdentifierRest, Bool.or_eq_true] at inside
    rcases inside with alnum | underscore
    · simp [isIdentChar, alnum]
    · simp [isIdentChar, underscore]
  have first : FirstRule filterRules name.text .ident := by
    refine ⟨[.and, .or, .not, .exist, .in, .eq, .gt, .lt, .isset, .bracket, .pairAnd, .pairOr,
      .dir2, .dirSrc, .dirDst, .any].map fun rule => (rule, rule.lang), _, _, rfl, isIdent, ?_⟩
    intro entry member
    obtain ⟨rule, isEarlier, rfl⟩ := List.mem_map.mp member
    have keywords : ∀ rule ∈ [FilterRule.and, .or, .not, .exist, .in, .eq, .gt, .lt, .isset,
        .bracket, .pairAnd, .pairOr, .dir2, .dirSrc, .dirDst, .any],
        rule.isKeyword = true := by decide
    rw [Bool.eq_false_iff]
    exact fun accepted =>
      free (reserved_of_keyword (keywords rule isEarlier) name.isRest filled accepted)
  have wins : Wins filterRules (name.text ++ []) .ident name.text.length := by
    refine wins_append_iff.mpr ⟨filled, first, fun entry member m longer fits => ?_⟩
    rw [List.append_nil] at fits
    omega
  have scanned := lexemes_append wins
  rw [List.append_nil, lexemes_nil] at scanned
  rw [filterTokens, filterLexemes, scanned]
  rfl

/-- A lexeme has the rule that took its text. -/
theorem lang_of_scans {found : List (Lexeme FilterRule Char)} (scans : Scans filterRules found) :
    ∀ lexeme ∈ found, lexeme.rule.lang lexeme.text = true := by
  induction scans with
  | nil => simp
  | cons wins later ih =>
      exact List.forall_mem_cons.mpr ⟨lang_of_firstRule (wins_append_iff.mp wins).2.1, ih⟩

/-- A text that is one identifier starts with a letter or a quote. -/
theorem ident_of_filterTokens {text body : Str} (token : .ident text ∈ filterTokens body) :
    FilterRule.ident.lang text = true := by
  obtain ⟨⟨rule, lexed⟩, member, made⟩ := List.mem_filterMap.mp token
  have accepted := lang_of_scans (scans_lexemes filterRules_total body) _ member
  cases rule <;> cases made
  exact accepted

/-! ### Agreement -/

/-- A name is read as itself as an item of a selector, as the right-hand side of one, and as a
token of a filter that can be read as the name. -/
structure Agrees (name : Identifier) : Prop where
  item : ∀ rest, EndsItem rest →
    selAssignment (name.text ++ rest) = .matched ⟨.name name.text, none⟩ rest
  rightHand : ∀ rest, EndsItem rest → selExpression (name.text ++ rest) =
    .matched (.mk (.expression (.mk (.variable_ (.name name)) .nil)) .nil) rest
  token : filterTokens name.text = [.ident name.text]
  text : copied name.text = some name.text

/-- The name starts with a letter, no keyword and no word of `double_` starts it, and it fits into
the buffer of a token. -/
structure Plain (name : Identifier) : Prop where
  alpha : ∃ c tail, name.text = c :: tail ∧ c.isAlpha = true
  noKeyword : ∀ stored ∈ inputKeyword.map Prod.fst, ¬ stored <+: name.text
  noSpecial : ¬ startsSpecial name.text
  fits : name.text.length ≤ 1022

section Agreement

variable {name : Identifier}

theorem selAssignment_of_name {rest : Str} (ends : EndsItem rest)
    (noKeyword : ∀ stored ∈ inputKeyword.map Prod.fst, ¬ stored <+: name.text) :
    selAssignment (name.text ++ rest) = .matched ⟨.name name.text, none⟩ rest := by
  have output : selOutput (name.text ++ rest) = .matched (.name name.text) rest := by
    obtain ⟨c, tail, made, starts, _⟩ := name.exists_cons
    have noQuote : lit '"' (name.text ++ rest) = .noMatch := by
      rw [lit, name.preSkip, made, List.cons_append]
      exact if_neg (isIdentifierStart_ne starts).2.1
    have noText : quotedText (name.text ++ rest) = .noMatch :=
      Parser.andThen_eq_noMatch_of_noMatch noQuote
    rw [selOutput, Parser.orElse_of_noMatch (Parser.map_eq_noMatch.mpr
      (inputKeyword_noMatch name ends.endsName noKeyword)),
      Parser.orElse_of_noMatch (Parser.map_eq_noMatch.mpr noText)]
    exact Parser.map_of_matched _ (identifier_of_name name ends.endsName)
  have noEquals : lit '=' rest = .noMatch := by
    rw [lit, preSkip_of_skips ends.skips]
    cases skipped : rest.dropWhile space with
    | nil => rfl
    | cons c tail =>
        refine if_neg ?_
        rcases ends c (by rw [skipped]; rfl) with rfl | rfl <;> decide
  rw [selAssignment, Parser.andThen_of_matched output]
  exact Parser.map_of_matched _ (Parser.expect_of_matched (Parser.optional_of_noMatch
    (Parser.andThen_eq_noMatch_of_noMatch noEquals)))

theorem selExpression_of_name {rest : Str} (ends : EndsItem rest) (plain : Plain name) :
    selExpression (name.text ++ rest) =
      .matched (.mk (.expression (.mk (.variable_ (.name name)) .nil)) .nil) rest := by
  refine selExpression_single ends fun inner => ?_
  have variable_ : selVariable (name.text ++ rest) = .matched (.name name) rest := by
    rw [selVariable, Parser.orElse_of_noMatch (Parser.map_eq_noMatch.mpr
      (inputKeyword_noMatch name ends.endsName plain.noKeyword))]
    exact Parser.map_of_matched _ (identifier_of_name name ends.endsName)
  rw [selPrimaryExpr, Parser.orElse_of_noMatch (Parser.map_eq_noMatch.mpr
    (double_noMatch name ends.endsName plain.noSpecial))]
  exact Parser.orElse_of_matched (Parser.map_of_matched _ variable_)

theorem noKeyword_of_item
    (item : selAssignment name.text = .matched ⟨.name name.text, none⟩ []) :
    ∀ stored ∈ inputKeyword.map Prod.fst, ¬ stored <+: name.text := by
  intro stored member starts
  obtain ⟨entry, listed, rfl⟩ := List.mem_map.mp member
  have skipped := name.skipped []
  have clear := name.skips []
  rw [List.append_nil] at skipped clear
  obtain ⟨unir, rest, found⟩ := symbols_matches clear ⟨entry, listed, by rwa [skipped]⟩
  have output : selOutput name.text = .matched (.keyword unir) rest :=
    Parser.orElse_of_matched (Parser.map_of_matched _ found)
  rw [selAssignment, Parser.andThen_of_matched output] at item
  obtain ⟨_, _, same⟩ := Parser.map_eq_matched.mp item
  cases congrArg SelAssignment.output same

theorem noSpecial_of_rightHand
    (rightHand : selExpression name.text =
      .matched (.mk (.expression (.mk (.variable_ (.name name)) .nil)) .nil) []) :
    ¬ startsSpecial name.text := by
  intro special
  obtain ⟨value, rest, found⟩ : ∃ value rest, double_ (name.text ++ []) = .matched value rest :=
    double_matches name special (by simp [EndsName]) (by simp)
  rw [List.append_nil] at found
  obtain ⟨_, _, same⟩ := selExpression_first
    (fun inner => Parser.orElse_of_matched (Parser.map_of_matched SelOperand.number found))
    rightHand
  cases same

theorem alpha_of_token (token : filterTokens name.text = [.ident name.text]) :
    ∃ c tail, name.text = c :: tail ∧ c.isAlpha = true := by
  have listed : .ident name.text ∈ filterTokens name.text := by simp [token]
  have accepted := ident_of_filterTokens listed
  obtain ⟨c, tail, made, starts, _⟩ := name.exists_cons
  rw [made] at accepted
  obtain ⟨_, _, same, alpha, _⟩ :=
    identLang_iff.mp (ident_of_lang (isIdentifierStart_ne starts).2.1 accepted)
  obtain ⟨rfl, rfl⟩ := List.cons.inj same
  exact ⟨c, tail, made, alpha⟩

/-- A variable that is no reserved word can be referred to exactly when its name is plain. -/
theorem agrees_iff (name : Identifier) (free : name.text ∉ reservedWords) :
    Agrees name ↔ Plain name := by
  constructor
  · intro agrees
    have item := agrees.item [] .nil
    have rightHand := agrees.rightHand [] .nil
    rw [List.append_nil] at item rightHand
    exact ⟨alpha_of_token agrees.token, noKeyword_of_item item, noSpecial_of_rightHand rightHand,
      (copied_eq_some.mp agrees.text).1⟩
  · intro plain
    obtain ⟨c, tail, made, alpha⟩ := plain.alpha
    exact ⟨fun _ ends => selAssignment_of_name ends plain.noKeyword,
      fun _ ends => selExpression_of_name ends plain, filterTokens_of_name name made alpha free,
      copied_eq_some.mpr ⟨plain.fits, rfl⟩⟩

/-- The name `sum` is plain. -/
theorem sum_agrees : Agrees ⟨"sum".toList, by decide⟩ := by
  refine (agrees_iff ⟨"sum".toList, by decide⟩ (by decide)).mpr
    ⟨⟨'s', "um".toList, rfl, by decide⟩, by decide, ?_, by decide⟩
  rintro (nan | inf)
  · exact nan rfl
  · exact inf rfl

/-- `PACKETS_SUM` is taken for the keyword that starts it. -/
theorem packetsSum_disagrees :
    "PACKETS_SUM".toList ∉ inputKeyword.map Prod.fst ∧ "PACKETS_SUM".toList ∉ reservedWords ∧
      selAssignment "PACKETS_SUM;".toList = .matched ⟨.keyword .packets, none⟩ "_SUM;".toList ∧
      ¬ Agrees ⟨"PACKETS_SUM".toList, by decide⟩ := by
  have taken : selAssignment "PACKETS_SUM;".toList =
      .matched ⟨.keyword .packets, none⟩ "_SUM;".toList := rfl
  refine ⟨by decide, by decide, taken, fun agrees => ?_⟩
  have read := agrees.item ";".toList fun c first => Or.inr (Option.some.inj first).symm
  cases taken.symm.trans read

end Agreement

end Policer.Parsing
