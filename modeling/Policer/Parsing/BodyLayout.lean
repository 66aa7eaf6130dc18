import Policer.Parsing.ExpressionLayout

/-!
# Layouts of stage bodies

The tokens between `:` and `;` of each stage, how they are read, and what can be read there.
-/

namespace Policer.Parsing

open Policer.Lib.Expectation Rules

/-! ### Lists -/

/-- The tokens of items with commas between them. -/
def listTokens {α : Type} (tokensOf : α → List Str) (first : α) (rest : List α) : List Str :=
  tokensOf first ++ rest.flatMap fun item => [','] :: tokensOf item

section Lists

variable {α : Type} {item : Parser Char α} {tokensOf : α → List Str} {good : α → Prop}
  {rest text : Str}

/-- An item is read in front of a comma and of the end of the list. -/
def ReadsItem (item : Parser Char α) (tokensOf : α → List Str) (good : α → Prop) : Prop :=
  ∀ ⦃value rest text⦄, good value → EndsAt ",;".toList rest → Laid (tokensOf value) rest text →
    item text = .matched value rest

theorem follows_items {list : List α} (follows : EndsAt [';'] rest)
    (laid : Laid (list.flatMap fun item => [','] :: tokensOf item) rest text) :
    EndsAt ",;".toList text := by
  cases list with
  | nil =>
      cases laid
      exact follows.mono (by decide)
  | cons head tail => exact (Laid.follows laid rfl rfl).mono (by decide)

theorem chain_of_laid (reads : ReadsItem item tokensOf good) (follows : EndsAt [';'] rest) :
    (list : List α) → ∀ {text}, (∀ value ∈ list, good value) →
      Laid (list.flatMap fun item => [','] :: tokensOf item) rest text →
        Parser.Chain ((lit ',').andThen fun _ => item.expect) list text rest
  | [], text, _, laid => by
      cases laid
      exact .nil (Parser.andThen_eq_noMatch_of_noMatch (lit_noMatch
        (follows.clear (by decide)) (follows.not_starts (by decide))))
  | head :: tail, text, allGood, laid => by
      rw [List.forall_mem_cons] at allGood
      obtain ⟨behind, comma, later, shorter⟩ := lit_of_laid rfl laid
      obtain ⟨middle, isHead, others⟩ := laid_append.mp later
      refine .cons ?_ (isHead.length_le.trans_lt shorter)
        (chain_of_laid reads follows tail allGood.2 others)
      rw [Parser.andThen_of_matched comma]
      exact Parser.expect_of_matched (reads allGood.1 (follows_items follows others) isHead)

theorem commaList_of_laid (reads : ReadsItem item tokensOf good) {first : α} {list : List α}
    (isGood : good first) (allGood : ∀ value ∈ list, good value)
    (follows : EndsAt [';'] rest) (laid : Laid (listTokens tokensOf first list) rest text) :
    commaList item text = .matched (first, list) rest := by
  obtain ⟨middle, isFirst, others⟩ := laid_append.mp laid
  rw [commaList, Parser.andThen_of_matched (reads isGood (follows_items follows others) isFirst)]
  exact Parser.map_of_matched _ (Parser.expect_of_matched
    (Parser.many_of_chain (chain_of_laid reads follows list allGood others)))

/-- What the items of a list are. -/
theorem commaList_makes (makes : MakesBefore good item) {found : α × List α}
    (reads : commaList item text = .matched found rest) (behind : NoBracket rest) :
    good found.1 ∧ ∀ value ∈ found.2, good value := by
  have inside : ∀ {fuel list text rest},
      ((lit ',').andThen fun _ => item.expect).manyUpTo fuel text =
      .matched list rest → NoBracket rest → (∀ value ∈ list, good value) ∧ NoBracket text := by
    intro fuel
    induction fuel with
    | zero =>
        intro list text rest reads behind
        cases reads
        exact ⟨by simp, behind⟩
    | succ fuel ih =>
        intro list text rest reads behind
        rcases Parser.manyUpTo_succ_eq_matched.mp reads with
          ⟨_, rfl, rfl⟩ | ⟨value, middle, later, first, others, rfl⟩
        · exact ⟨by simp, behind⟩
        · obtain ⟨_, _, comma, first⟩ := Parser.andThen_eq_matched.mp first
          obtain ⟨allGood, between⟩ := ih others behind
          exact ⟨List.forall_mem_cons.mpr
            ⟨makes (Parser.expect_eq_matched.mp first) between, allGood⟩,
            noBracket_of_skipped (lit_eq_matched comma) (by decide)⟩
  obtain ⟨first, middle, isFirst, reads⟩ := Parser.andThen_eq_matched.mp reads
  obtain ⟨list, others, rfl⟩ := Parser.map_eq_matched.mp reads
  obtain ⟨allGood, between⟩ := inside (Parser.expect_eq_matched.mp others) behind
  exact ⟨makes isFirst between, allGood⟩

end Lists

/-! ### Filters -/

/-- A filter body the grammar can make. -/
abbrev IsFilterBody (body : Str) : Prop := UpTo ';' body

theorem filterBody_of_upTo {body rest : Str} (upTo : IsFilterBody body)
    (starts : Starts [';'] rest) : filterBody (body ++ rest) = .matched body rest := by
  obtain ⟨c, tail, rfl, first, others⟩ := charBut_of_starts rfl starts upTo
  rw [filterBody, Parser.andThen_of_matched first]
  exact Parser.map_of_matched _ others

theorem upTo_of_filterBody {body text rest : Str} (reads : filterBody text = .matched body rest)
    (starts : Starts [';'] rest) : IsFilterBody body := by
  obtain ⟨c, middle, first, reads⟩ := Parser.andThen_eq_matched.mp reads
  obtain ⟨tail, others, rfl⟩ := Parser.map_eq_matched.mp reads
  exact upTo_of_charBut rfl starts first others

/-! ### Groupers -/

def GrouperType.tokens : GrouperType → List Str
  | .keys gk => listTokens (fun unir => [stringUnirecEnum unir]) gk.first gk.rest
  | .special .bidirectional => ["_bidirectional_".toList]

theorem grouperBody_of_laid {type : GrouperType} {rest text : Str}
    (follows : EndsAt [';'] rest) (laid : Laid type.tokens rest text) :
    grouperBody text = .matched type rest := by
  cases type with
  | keys gk =>
      have reads : ReadsItem (symbols inputKeyword) (fun unir => [stringUnirecEnum unir])
          fun _ => True := by
        intro unir rest text _ _ laid
        obtain ⟨middle, keyword, done, _⟩ := keyword_of_laid laid
        cases done
        exact keyword
      have keys := commaList_of_laid reads trivial (fun _ _ => trivial) follows laid
      have noCase : symbols grouperCaseKeyword text = .noMatch := by
        have heads : (grouperCaseKeyword.all fun entry =>
            entry.1.head?.any ['_'].contains) = true :=
          by decide
        have visible : isVisible (stringUnirecEnum gk.first) = true := by cases gk.first <;> rfl
        refine symbols_noMatch heads ?_ ?_
        · rw [Clear, skips, Laid.head laid visible]
          cases gk.first <;> rfl
        · rintro ⟨c, member, isHead⟩
          rw [Laid.head laid visible] at isHead
          cases List.mem_singleton.mp member
          revert isHead
          cases gk.first <;> decide
      exact (Parser.orElse_of_noMatch (Parser.map_eq_noMatch.mpr noCase)).trans
        (Parser.map_of_matched _ keys)
  | special mode =>
      cases mode
      have free : PrefixFree grouperCaseKeyword := by
        unfold PrefixFree
        decide
      obtain ⟨middle, special, done, _⟩ := symbols_of_laid free List.mem_cons_self rfl laid
      cases done
      exact Parser.orElse_of_matched (Parser.map_of_matched _ special)

/-! ### Windows -/

/-- The word of a window type. -/
def windowTypeText : WindowType → Str
  | .active => "active".toList
  | .passive => "passive".toList
  | .global => "global".toList
  | .mixed => "mixed".toList

def WindowBody.tokens (body : WindowBody) : List Str :=
  ["type".toList, ['='], windowTypeText body.type, [','], "range".toList, ['='],
    Nat.toDigits 10 body.range.toNat, "seconds".toList]

/-- A number that fits is read, and no other one. -/
theorem uint_of_laid {n : Nat} {tokens : List Str} {rest text : Str}
    (laid : Laid (Nat.toDigits 10 n :: tokens) rest text)
    (ends : ∀ middle, Laid tokens rest middle → ∀ c, middle.head? = some c → c.isDigit = false) :
    ∃ middle, uint_ text = (if n < 2 ^ 32 then .matched (UInt32.ofNat n) middle else .noMatch) ∧
      Laid tokens rest middle := by
  obtain ⟨blanks, middle, blank, later, rfl⟩ := laid_cons.mp laid
  refine ⟨middle, ?_, later⟩
  have visible : isVisible (Nat.toDigits 10 n) = true := by
    obtain ⟨c, tail, made⟩ := List.exists_cons_of_ne_nil (@Nat.toDigits_ne_nil n 10)
    rw [made]
    exact isVisible_of_isDigit (isDigit_toDigits n c (made ▸ List.mem_cons_self))
  have digits := extractDigits_append Nat.toDigits_ne_nil (isDigit_toDigits n) (ends middle later)
  rw [uint_, preSkip_blanks blank, preSkip_visible visible]
  simp only [digits, Nat.ofDigitChars_ten_toDigits]

theorem assigned_of_laid {α : Type} {small capital : Str} {value : Parser Char α}
    {tokens : List Str} {rest text : Str} (visible : isVisible small = true)
    (laid : Laid (small :: ['='] :: tokens) rest text) :
    ∃ middle, assigned small capital value text = value.expect middle ∧
      Laid tokens rest middle := by
  obtain ⟨behind, word, later, _⟩ := litString_of_laid visible laid
  obtain ⟨middle, equals, last, _⟩ := lit_of_laid rfl later
  refine ⟨middle, ?_, last⟩
  rw [assigned, Parser.andThen_of_matched (Parser.orElse_of_matched word),
    Parser.andThen_of_matched (Parser.expect_of_matched equals)]

theorem windowBody_of_laid {body : WindowBody} {rest text : Str}
    (follows : EndsAt [';'] rest) (laid : Laid body.tokens rest text) :
    windowBody text = .matched body rest := by
  have free : PrefixFree windowTypeKeyword := by
    unfold PrefixFree
    decide
  have member : (windowTypeText body.type, body.type) ∈ windowTypeKeyword := by
    cases body.type <;> decide
  have visible : isVisible (windowTypeText body.type) = true := by cases body.type <;> rfl
  obtain ⟨first, typed, later⟩ : ∃ middle,
      windowType text = (symbols windowTypeKeyword).expect middle ∧ Laid _ rest middle :=
    assigned_of_laid rfl laid
  obtain ⟨second, type, later, _⟩ := symbols_of_laid free member visible later
  obtain ⟨third, comma, later, _⟩ := lit_of_laid rfl later
  obtain ⟨fourth, ranged, later⟩ : ∃ middle,
      windowRange third = windowSeconds.expect middle ∧ Laid _ rest middle :=
    assigned_of_laid rfl later
  obtain ⟨fifth, number, later⟩ := uint_of_laid later fun middle laid c first =>
    (laid.follows rfl rfl).rejects (by decide) first
  rw [if_pos body.range.toNat_lt, UInt32.ofNat_toNat] at number
  obtain ⟨sixth, unit, done, _⟩ := litString_of_laid rfl later
  cases done
  have inUnits : inSeconds 1 "seconds".toList "second".toList fourth =
      .matched body.range rest := by
    rw [inSeconds, Parser.andThen_of_matched number]
    refine (Parser.map_of_matched _ (Parser.orElse_of_matched unit)).trans ?_
    rw [UInt32.mul_one]
  have seconds : windowSeconds.expect fourth = .matched body.range rest :=
    Parser.expect_of_matched (Parser.orElse_of_matched inUnits)
  have noComma : ¬ Starts [','] rest := follows.not_starts (by decide)
  have noSlide : ((lit ',').andThen fun _ => windowSlide.expect) rest = .noMatch :=
    Parser.andThen_eq_noMatch_of_noMatch (lit_noMatch (follows.clear (by decide)) noComma)
  rw [windowBody, Parser.andThen_of_matched (typed.trans (Parser.expect_of_matched type)),
    Parser.andThen_of_matched (Parser.expect_of_matched comma),
    Parser.andThen_of_matched (Parser.expect_of_matched (ranged.trans seconds))]
  exact Parser.map_of_matched _ (Parser.expect_of_matched (Parser.optional_of_noMatch noSlide))

/-! ### Aggregators -/

def AggrFuncType.tokens : AggrFuncType → List Str
  | .withParam func =>
      [stringAggrWithParamEnum func.funcName, ['('], stringUnirecEnum func.param, [')']]
  | .withoutParam .count => ["COUNT".toList, ['('], [')']]

def AggrAssignment.tokens (as : AggrAssignment) : List Str :=
  as.variableName.text :: ['='] :: as.funcType.tokens

def AggregatorBody.tokens (body : AggregatorBody) : List Str :=
  listTokens AggrAssignment.tokens body.first body.rest

theorem aggrFuncType_of_laid {funcType : AggrFuncType} {rest text : Str}
    (laid : Laid funcType.tokens rest text) : aggrFuncType text = .matched funcType rest := by
  cases funcType with
  | withParam func =>
      have free : PrefixFree aggrFuncWithParamKeyword := by
        unfold PrefixFree
        decide
      have member : (stringAggrWithParamEnum func.funcName, func.funcName) ∈
          aggrFuncWithParamKeyword := by cases func.funcName <;> decide
      have visible : isVisible (stringAggrWithParamEnum func.funcName) = true := by
        cases func.funcName <;> rfl
      obtain ⟨first, name, later, _⟩ := symbols_of_laid free member visible laid
      obtain ⟨second, opened, later, _⟩ := lit_of_laid rfl later
      obtain ⟨third, param, later, _⟩ := keyword_of_laid later
      obtain ⟨fourth, closed, done, _⟩ := lit_of_laid rfl later
      cases done
      refine Parser.orElse_of_matched (Parser.map_of_matched _ ?_)
      rw [aggrFuncWithParamS, Parser.andThen_of_matched name,
        Parser.andThen_of_matched (Parser.expect_of_matched opened),
        Parser.andThen_of_matched (Parser.expect_of_matched param)]
      exact Parser.map_of_matched _ (Parser.expect_of_matched closed)
  | withoutParam func =>
      cases func
      have free : PrefixFree aggrFuncWithoutParamKeyword := by
        unfold PrefixFree
        decide
      obtain ⟨first, name, later, _⟩ := symbols_of_laid free List.mem_cons_self rfl laid
      have noParam : symbols aggrFuncWithParamKeyword text = .noMatch := by
        obtain ⟨blanks, middle, blank, later, rfl⟩ := laid_cons.mp laid
        have ends : EndsName middle := (later.follows rfl rfl).endsName (by decide)
        exact (preSkip_blanks blank _).trans (symbols_noMatch_of_name ⟨"COUNT".toList, rfl⟩
          (by decide) ends (by decide))
      obtain ⟨second, opened, later, _⟩ := lit_of_laid rfl later
      have parenthesis : EndsAt [')'] second := later.follows rfl rfl
      have noStar : lit '*' second = .noMatch :=
        lit_noMatch (parenthesis.clear (by decide)) (parenthesis.not_starts (by decide))
      obtain ⟨third, closed, done, _⟩ := lit_of_laid rfl later
      cases done
      refine (Parser.orElse_of_noMatch (Parser.map_eq_noMatch.mpr
        (Parser.andThen_eq_noMatch_of_noMatch noParam))).trans (Parser.map_of_matched _ ?_)
      rw [aggrFuncWithoutParam, Parser.andThen_of_matched name,
        Parser.andThen_of_matched (Parser.expect_of_matched opened),
        Parser.andThen_of_matched (Parser.expect_of_matched (Parser.optional_of_noMatch noStar))]
      exact Parser.map_of_matched _ (Parser.expect_of_matched closed)

theorem aggregatorBody_of_laid {body : AggregatorBody} {rest text : Str}
    (follows : EndsAt [';'] rest) (laid : Laid body.tokens rest text) :
    aggregatorBody text = .matched body rest := by
  have reads : ReadsItem aggrAssignment AggrAssignment.tokens fun _ => True := by
    intro as rest text _ _ laid
    obtain ⟨first, name, later, _⟩ := identifier_of_laid laid fun middle laid =>
      (laid.follows rfl rfl).endsName (by decide)
    obtain ⟨second, equals, later, _⟩ := lit_of_laid rfl later
    rw [aggrAssignment, Parser.andThen_of_matched name,
      Parser.andThen_of_matched (Parser.expect_of_matched equals)]
    exact Parser.map_of_matched _ (Parser.expect_of_matched (aggrFuncType_of_laid later))
  exact Parser.map_of_matched _
    (commaList_of_laid reads trivial (fun _ _ => trivial) follows laid)

/-! ### Selectors -/

def SelOutput.tokens : SelOutput → List Str
  | .name text => ['"' :: (text ++ ['"'])]
  | .keyword unir => [stringUnirecEnum unir]

def SelAssignment.tokens (sa : SelAssignment) : List Str :=
  sa.output.tokens ++ sa.selExpression.elim [] fun se => ['='] :: se.tokens .summand

def SelectorBody.tokens (body : SelectorBody) : List Str :=
  listTokens SelAssignment.tokens body.first body.rest

/-- An output the grammar can make. -/
def SelOutput.Fits : SelOutput → Prop
  | .name text => UpTo '"' text
  | .keyword _ => True

/-- An item of a selector the grammar can make. -/
def SelAssignment.Fits (sa : SelAssignment) : Prop :=
  sa.output.Fits ∧ ∀ se ∈ sa.selExpression, se.Fits .summand

def SelectorBody.Fits (body : SelectorBody) : Prop := ∀ sa ∈ body.all, sa.Fits

theorem selOutput_of_laid {output : SelOutput} {tokens : List Str} {rest text : Str}
    (fits : output.Fits) (laid : Laid (output.tokens ++ tokens) rest text) :
    ∃ middle, selOutput text = .matched output middle ∧ Laid tokens rest middle := by
  cases output with
  | keyword unir =>
      obtain ⟨middle, keyword, later, _⟩ := keyword_of_laid laid
      exact ⟨middle, Parser.orElse_of_matched (Parser.map_of_matched _ keyword), later⟩
  | name name =>
      have noKeyword : symbols inputKeyword text = .noMatch := by
        have heads : (inputKeyword.all fun entry =>
          entry.1.head?.any "SDBLTP".toList.contains) = true := by decide
        have quote : EndsAt ['"'] text := laid.follows rfl rfl
        exact symbols_noMatch heads (quote.clear (by decide)) (quote.not_starts (by decide))
      obtain ⟨blanks, middle, blank, later, rfl⟩ := laid_cons.mp laid
      have opened : lit '"' (blanks ++ ('"' :: (name ++ ['"']) ++ middle)) =
          .matched () (name ++ '"' :: middle) := by
        have whole : '"' :: (name ++ ['"']) ++ middle = ['"'] ++ (name ++ '"' :: middle) := by simp
        rw [whole, lit, preSkip_blanks blank, preSkip_visible rfl]
        exact if_pos rfl
      have closed : lit '"' ('"' :: middle) = .matched () middle := by
        rw [lit, preSkip_cons (List.dropWhile_cons_of_neg (by decide)) rfl]
        exact if_pos rfl
      obtain ⟨c, tail, rfl, first, others⟩ := charBut_of_starts rfl (starts_self rfl middle) fits
      have quoted : quotedText (blanks ++ ('"' :: ((c :: tail) ++ ['"']) ++ middle)) =
          .matched (c :: tail) middle := by
        rw [quotedText, Parser.andThen_of_matched opened,
          Parser.andThen_of_matched (Parser.expect_of_matched first),
          Parser.andThen_of_matched others]
        exact Parser.map_of_matched _ (Parser.expect_of_matched closed)
      exact ⟨middle, (Parser.orElse_of_noMatch (Parser.map_eq_noMatch.mpr noKeyword)).trans
        (Parser.orElse_of_matched (Parser.map_of_matched _ quoted)), later⟩

theorem selAssignment_of_laid :
    ReadsItem selAssignment SelAssignment.tokens SelAssignment.Fits := by
  rintro ⟨output, se⟩ rest text ⟨isOutput, isExpression⟩ follows laid
  obtain ⟨middle, isName, later⟩ := selOutput_of_laid isOutput laid
  rw [selAssignment, Parser.andThen_of_matched isName]
  refine Parser.map_of_matched _ (Parser.expect_of_matched ?_)
  cases se with
  | none =>
      cases later
      exact Parser.optional_of_noMatch (Parser.andThen_eq_noMatch_of_noMatch
        (lit_noMatch (follows.clear (by decide)) (follows.not_starts (by decide))))
  | some se =>
      obtain ⟨behind, equals, last, _⟩ := lit_of_laid rfl later
      refine Parser.optional_of_matched ?_
      rw [Parser.andThen_of_matched equals]
      exact Parser.expect_of_matched (selExpression_of_laid (isExpression se rfl)
        (follows.mono (by decide)) last)

theorem selectorBody_of_laid {body : SelectorBody} {rest text : Str} (fits : body.Fits)
    (follows : EndsAt [';'] rest) (laid : Laid body.tokens rest text) :
    selectorBody text = .matched body rest :=
  Parser.map_of_matched _ (commaList_of_laid selAssignment_of_laid (fits _ List.mem_cons_self)
    (fun sa member => fits sa (List.mem_cons_of_mem _ member)) follows laid)

/-! ### What can be read -/

theorem fits_of_selOutput {output : SelOutput} {text rest : Str}
    (reads : selOutput text = .matched output rest) : output.Fits := by
  rcases Parser.orElse_eq_matched.mp reads with keyword | ⟨_, reads⟩
  · obtain ⟨unir, _, rfl⟩ := Parser.map_eq_matched.mp keyword
    trivial
  · rcases Parser.orElse_eq_matched.mp reads with quoted | ⟨_, named⟩
    · obtain ⟨name, isQuoted, rfl⟩ := Parser.map_eq_matched.mp quoted
      obtain ⟨_, _, _, inside⟩ := Parser.andThen_eq_matched.mp isQuoted
      obtain ⟨c, middle, first, later⟩ := Parser.andThen_eq_matched.mp inside
      obtain ⟨tail, behind, others, last⟩ := Parser.andThen_eq_matched.mp later
      obtain ⟨_, closed, rfl⟩ := Parser.map_eq_matched.mp last
      rw [Parser.expect_eq_matched] at first
      have skipped := lit_eq_matched (Parser.expect_eq_matched.mp closed)
      have starts : Starts ['"'] behind :=
        ⟨'"', List.mem_singleton_self _, by rw [skipped]; rfl⟩
      exact upTo_of_charBut rfl starts first others
    · obtain ⟨name, _, rfl⟩ := Parser.map_eq_matched.mp named
      refine ⟨name.text_ne_nil, fun member => ?_, fun c member => ?_, fun c last => ?_⟩
      · have inside := name.isRest _ member
        revert inside
        decide
      · exact isAscii_of_rest (name.isRest c member)
      · have inside := name.isRest c (List.mem_of_getLast? last)
        rw [Bool.eq_false_iff]
        intro isSpace
        simp only [space, Bool.or_eq_true, beq_iff_eq] at isSpace
        rcases isSpace with ((((rfl | rfl) | rfl) | rfl) | rfl) | rfl <;>
          exact absurd inside (by decide)

theorem fits_of_selAssignment : MakesBefore SelAssignment.Fits selAssignment := by
  intro text sa rest reads behind
  obtain ⟨output, middle, isOutput, reads⟩ := Parser.andThen_eq_matched.mp reads
  obtain ⟨se, isExpression, rfl⟩ := Parser.map_eq_matched.mp reads
  refine ⟨fits_of_selOutput isOutput, ?_⟩
  rcases Parser.optional_eq_matched.mp (Parser.expect_eq_matched.mp isExpression) with
    ⟨_, rfl, _⟩ | ⟨made, assigned, rfl⟩
  · simp
  · obtain ⟨_, _, _, isMade⟩ := Parser.andThen_eq_matched.mp assigned
    rintro se ⟨⟩
    exact fits_of_selExpression (Parser.expect_eq_matched.mp isMade) behind

theorem fits_of_selectorBody {body : SelectorBody} {text rest : Str}
    (reads : selectorBody text = .matched body rest) (behind : NoBracket rest) : body.Fits := by
  obtain ⟨found, isList, rfl⟩ := Parser.map_eq_matched.mp reads
  obtain ⟨isFirst, others⟩ := commaList_makes fits_of_selAssignment isList behind
  exact List.forall_mem_cons.mpr ⟨isFirst, others⟩

end Policer.Parsing
