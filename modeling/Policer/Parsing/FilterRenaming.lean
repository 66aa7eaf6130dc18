import Policer.Lib.Tokens
import Policer.Parsing.Assigned

/-!
# Renaming identifiers of a filter body

When whole identifiers of a body are renamed to a word of capital letters and underscores,
and comments are changed in whatever way keeps them comments, the scanner still finds the
same lexemes, each in its place. `Renaming` relates the lexemes before and after; a longer
match behind a lexeme in the new text would give one in the old text.
-/

namespace Policer.Parsing

open Policer.Lib Policer.Lib.Lexer

/-! ### Which characters a match has -/

/-- The characters of keywords, operators and white space. -/
def isKeywordChar (c : Char) : Bool := c.isLower || " \t\n&|!=<>()[],".toList.contains c

/-- The rules whose matches have only such characters. -/
def FilterRule.isKeyword : FilterRule → Bool
  | .ident | .string | .quoted | .comment | .other => false
  | _ => true

theorem isKeywordChar_of_isUpper {c : Char} (isUpper : c.isUpper = true) :
    isKeywordChar c = false := by
  have noLower : c.isLower = false := by
    rw [Bool.eq_false_iff, Ne, isLower_iff_toNat]
    rw [isUpper_iff_toNat] at isUpper
    omega
  have noSign : " \t\n&|!=<>()[],".toList.contains c = false := by
    rw [Bool.eq_false_iff, Ne, List.contains_iff_mem]
    intro member
    have others : (" \t\n&|!=<>()[],".toList.all fun d => !d.isUpper) = true := by decide
    simpa [isUpper] using List.all_eq_true.mp others c member
  rw [isKeywordChar, noLower, noSign]
  rfl

theorem isKeywordChar_of_blanks {text : Str} (blanks : plus isBlank text = true) :
    ∀ c ∈ text, isKeywordChar c = true := by
  intro c member
  have blank := (plus_iff.mp blanks).2 c member
  simp only [isBlank, Bool.or_eq_true, beq_iff_eq] at blank
  rcases blank with rfl | rfl <;> decide

theorem isKeywordChar_of_pair {first middle last text : Str}
    (words : (first ++ middle ++ last).all isKeywordChar = true)
    (accepted : pairLang first middle last text = true) : ∀ c ∈ text, isKeywordChar c = true := by
  obtain ⟨_, _, rfl, isFirst, accepted⟩ := cat_iff.mp accepted
  obtain ⟨_, _, rfl, blanks, accepted⟩ := cat_iff.mp accepted
  obtain ⟨_, _, rfl, isMiddle, accepted⟩ := cat_iff.mp accepted
  obtain ⟨_, _, rfl, blanks', isLast⟩ := cat_iff.mp accepted
  rw [word_iff] at isFirst isMiddle isLast
  subst isFirst isMiddle isLast
  intro c member
  rw [List.all_eq_true] at words
  simp only [List.mem_append] at member words
  rcases member with inFirst | isBlank | inMiddle | isBlank | inLast
  · exact words c (Or.inl (Or.inl inFirst))
  · exact isKeywordChar_of_blanks blanks c isBlank
  · exact words c (Or.inl (Or.inr inMiddle))
  · exact isKeywordChar_of_blanks blanks' c isBlank
  · exact words c (Or.inr inLast)

theorem isKeywordChar_of_words {candidates : List Str} {text : Str}
    (keywords : (candidates.all fun word => word.all isKeywordChar) = true)
    (accepted : words candidates text = true) : ∀ c ∈ text, isKeywordChar c = true :=
  List.all_eq_true.mp (List.all_eq_true.mp keywords text (words_iff.mp accepted))

/-- A match of a keyword rule has only the characters of keywords. -/
theorem isKeywordChar_of_lang {rule : FilterRule} (keyword : rule.isKeyword = true) {text : Str}
    (accepted : rule.lang text = true) : ∀ c ∈ text, isKeywordChar c = true := by
  cases rule with
  | ident | string | quoted | comment | other => cases keyword
  | exist | any | newline =>
      obtain rfl := word_iff.mp accepted
      exact List.all_eq_true.mp (by decide)
  | «in» =>
      obtain ⟨_, _, rfl, isIn, accepted⟩ := cat_iff.mp accepted
      obtain ⟨_, _, rfl, blanks, isBracket⟩ := cat_iff.mp accepted
      rw [word_iff] at isIn isBracket
      subst isIn isBracket
      intro c member
      simp only [List.mem_append] at member
      rcases member with isIn | isBlank | isBracket
      · exact List.all_eq_true.mp (show "in".toList.all isKeywordChar = true by decide) c isIn
      · exact isKeywordChar_of_blanks blanks c isBlank
      · exact List.all_eq_true.mp (show "[".toList.all isKeywordChar = true by decide) c isBracket
  | pairAnd | pairOr =>
      rcases either_iff.mp accepted with first | second
      · exact isKeywordChar_of_pair (by decide) first
      · exact isKeywordChar_of_pair (by decide) second
  | blanks => exact isKeywordChar_of_blanks accepted
  | _ => exact isKeywordChar_of_words (by decide) accepted

/-- A quoted text: quotes around text without quotes. -/
theorem quoted_iff {text : Str} : FilterRule.quoted.lang text = true ↔
    ∃ body, body ≠ [] ∧ '"' ∉ body ∧ text = '"' :: body ++ ['"'] := by
  constructor
  · intro accepted
    obtain ⟨_, _, rfl, isQuote, accepted⟩ := cat_iff.mp accepted
    obtain ⟨body, _, rfl, isBody, isQuote'⟩ := cat_iff.mp accepted
    rw [word_iff] at isQuote isQuote'
    subst isQuote isQuote'
    obtain ⟨nonempty, inside⟩ := plus_iff.mp isBody
    exact ⟨body, nonempty, fun quote => by simpa using inside _ quote, rfl⟩
  · rintro ⟨body, nonempty, noQuote, rfl⟩
    refine cat_iff.mpr ⟨['"'], body ++ ['"'], rfl, by simp,
      cat_iff.mpr ⟨body, ['"'], rfl, ?_, by simp⟩⟩
    refine plus_iff.mpr ⟨nonempty, fun c member => ?_⟩
    simpa using fun same : c = '"' => noQuote (same ▸ member)

theorem identLang_iff {text : Str} : identLang text = true ↔
    ∃ c rest, text = c :: rest ∧ c.isAlpha = true ∧ ∀ d ∈ rest, isIdentChar d = true := by
  cases text with
  | nil => simp [identLang]
  | cons c rest => simp [identLang]

theorem isIdentChar_of_isAlpha {c : Char} (alpha : c.isAlpha = true) : isIdentChar c = true := by
  simp [isIdentChar, isAlphanum_of_isAlpha alpha]

/-- Several identifiers in quotes are a quoted text. -/
theorem quoted_of_quotedIdents {text : Str} (accepted : quotedIdentsLang text = true) :
    FilterRule.quoted.lang text = true := by
  obtain ⟨_, _, rfl, isQuote, accepted⟩ := cat_iff.mp accepted
  obtain ⟨body, _, rfl, isBody, isQuote'⟩ := cat_iff.mp accepted
  rw [word_iff] at isQuote isQuote'
  subst isQuote isQuote'
  simp only [Bool.and_eq_true, decide_eq_true_eq, List.all_eq_true] at isBody
  refine quoted_iff.mpr ⟨body, ?_, fun quote => ?_, rfl⟩
  · rintro rfl
    simp at isBody
  · have joined : [' '].intercalate (body.splitOn ' ') = body := List.intercalate_splitOn ' '
    rw [← joined] at quote
    rcases mem_intercalate quote with isBlank | ⟨name, isName, inside⟩
    · cases isBlank
    · obtain ⟨c, rest, rfl, alpha, chars⟩ := identLang_iff.mp (isBody.2 name isName)
      rcases List.mem_cons.mp inside with rfl | later
      · cases alpha
      · cases chars _ later

/-! ### Renaming -/

/-- A word of capital letters and underscores that starts with a letter. -/
def IsAliasWord (word : Str) : Prop :=
  ∃ c rest, word = c :: rest ∧ c.isUpper = true ∧ ∀ d ∈ rest, isAliasChar d = true

/-- The text of lexemes. -/
def lexemesText (found : List (Lexeme FilterRule Char)) : Str := found.flatMap Lexeme.text

/-- The lexemes `after` are `before` with some identifiers `name` renamed to `alias_` and comments
changed. -/
inductive Renaming (name alias_ : Str) :
    List (Lexeme FilterRule Char) → List (Lexeme FilterRule Char) → Prop where
  | nil : Renaming name alias_ [] []
  | keep {lexeme : Lexeme FilterRule Char} {before after : List (Lexeme FilterRule Char)}
      (nonempty : lexeme.text ≠ []) (rest : Renaming name alias_ before after) :
      Renaming name alias_ (lexeme :: before) (lexeme :: after)
  | rename {before after : List (Lexeme FilterRule Char)}
      (alpha : ∃ c rest, name = c :: rest ∧ c.isAlpha = true)
      (follow : '_' ∉ alias_ → ∀ c, (lexemesText before).head? = some c → c ∉ [':', '/', '.'])
      (rest : Renaming name alias_ before after) :
      Renaming name alias_ (⟨.ident, name⟩ :: before) (⟨.ident, alias_⟩ :: after)
  | comment {text text' : Str} {before after : List (Lexeme FilterRule Char)}
      (isComment : FilterRule.comment.lang text = true)
      (isComment' : FilterRule.comment.lang text' = true) (quotes : '"' ∈ text' → '"' ∈ text)
      (rest : Renaming name alias_ before after) :
      Renaming name alias_ (⟨.comment, text⟩ :: before) (⟨.comment, text'⟩ :: after)

theorem comment_iff {text : Str} : FilterRule.comment.lang text = true ↔
    ∃ rest, text = '#' :: rest ∧ '\n' ∉ rest := by
  cases text with
  | nil => simp [FilterRule.lang]
  | cons c rest =>
      by_cases hash : c = '#'
      · subst hash
        have inside : ∀ d : Char, (d != '\n') = true ↔ d ≠ '\n' := by simp
        simp only [FilterRule.lang, List.all_eq_true, inside]
        constructor
        · intro noBreak
          exact ⟨rest, rfl, fun member => noBreak _ member rfl⟩
        · rintro ⟨_, same, noBreak⟩ d member rfl
          obtain rfl := (List.cons.inj same).2
          exact noBreak member
      · simp [FilterRule.lang, hash]

namespace Renaming

variable {name alias_ : Str} {before after : List (Lexeme FilterRule Char)}

/-- The new text starts as the old one, or with a capital letter in the place of a letter. -/
theorem head (related : Renaming name alias_ before after) (isAlias : IsAliasWord alias_) :
    (lexemesText before).head? = (lexemesText after).head? ∨
      ∃ c d, (lexemesText before).head? = some c ∧ c.isAlpha = true ∧
        (lexemesText after).head? = some d ∧ d.isUpper = true := by
  cases related with
  | nil => exact Or.inl rfl
  | keep nonempty rest =>
      obtain ⟨c, tail, isText⟩ := List.exists_cons_of_ne_nil nonempty
      exact Or.inl (by simp [lexemesText, isText])
  | rename alpha follow rest =>
      obtain ⟨c, tail, rfl, isAlpha⟩ := alpha
      obtain ⟨d, tail', rfl, isUpper, _⟩ := isAlias
      exact Or.inr ⟨c, d, rfl, isAlpha, rfl, isUpper⟩
  | comment isComment isComment' quotes rest =>
      obtain ⟨tail, rfl, _⟩ := comment_iff.mp isComment
      obtain ⟨tail', rfl, _⟩ := comment_iff.mp isComment'
      exact Or.inl rfl

/-- There is a quote in the old text when there is one in the new. -/
theorem quote (related : Renaming name alias_ before after) (isAlias : IsAliasWord alias_)
    (member : '"' ∈ lexemesText after) : '"' ∈ lexemesText before := by
  induction related with
  | nil => exact member
  | keep nonempty rest ih =>
      exact List.mem_append.mpr ((List.mem_append.mp member).imp_right ih)
  | rename alpha follow rest ih =>
      obtain ⟨d, tail, rfl, isUpper, chars⟩ := isAlias
      rcases List.mem_append.mp member with inAlias | later
      · rcases List.mem_cons.mp inAlias with rfl | inTail
        · cases isUpper
        · cases chars _ inTail
      · exact List.mem_append_right _ (ih later)
  | comment isComment isComment' quotes rest ih =>
      exact List.mem_append.mpr ((List.mem_append.mp member).imp quotes ih)

/-- What has only the characters of keywords is not renamed. -/
theorem of_isKeywordChar (related : Renaming name alias_ before after)
    (isAlias : IsAliasWord alias_) {more tail : Str} (split : lexemesText after = more ++ tail)
    (keyword : ∀ c ∈ more, isKeywordChar c = true) :
    ∃ tail', lexemesText before = more ++ tail' := by
  induction related generalizing more with
  | nil =>
      obtain ⟨rfl, _⟩ := List.append_eq_nil_iff.mp split.symm
      exact ⟨[], rfl⟩
  | @keep lexeme before after nonempty rest ih =>
      rcases List.append_eq_append_iff.mp (split : lexeme.text ++ lexemesText after = more ++ tail)
        with ⟨later, rfl, isLater⟩ | ⟨left, isText, _⟩
      · obtain ⟨tail', same⟩ :=
          ih isLater fun c member => keyword c (List.mem_append_right _ member)
        exact ⟨tail', by rw [List.append_assoc, ← same]; rfl⟩
      · exact ⟨left ++ lexemesText before, by rw [← List.append_assoc, ← isText]; rfl⟩
  | @rename before after alpha follow rest ih =>
      obtain ⟨d, word, rfl, isUpper, _⟩ := isAlias
      cases more with
      | nil => exact ⟨_, rfl⟩
      | cons c more =>
          obtain ⟨rfl, _⟩ := List.cons.inj (split : d :: (word ++ lexemesText after) = _)
          have isKeyword := keyword d List.mem_cons_self
          rw [isKeywordChar_of_isUpper isUpper] at isKeyword
          cases isKeyword
  | @comment text text' before after isComment isComment' quotes rest ih =>
      obtain ⟨word, rfl, _⟩ := comment_iff.mp isComment'
      cases more with
      | nil => exact ⟨_, rfl⟩
      | cons c more =>
          obtain ⟨rfl, _⟩ := List.cons.inj (split : '#' :: (word ++ lexemesText after) = _)
          cases keyword '#' List.mem_cons_self

/-- The old text behind a place where the new one goes on. -/
theorem first (related : Renaming name alias_ before after) (isAlias : IsAliasWord alias_)
    {d : Char} {more : Str} (split : lexemesText after = d :: more) :
    ∃ c rest, lexemesText before = c :: rest ∧ (c = d ∨ c.isAlpha = true) := by
  rcases related.head isAlias with same | ⟨c, _, isFirst, alpha, _⟩
  · rw [split] at same
    obtain ⟨rest, isRest⟩ := List.head?_eq_some_iff.mp same
    exact ⟨d, rest, isRest, Or.inl rfl⟩
  · obtain ⟨rest, isRest⟩ := List.head?_eq_some_iff.mp isFirst
    exact ⟨c, rest, isRest, Or.inr alpha⟩

/-- What holds of the characters of a text with the new character behind it holds of those with
the old one. -/
theorem forall_mem_concat {good : Char → Prop} {text more : Str} {c d : Char}
    (inside : ∀ e ∈ text ++ d :: more, good e) (letters : c.isAlpha = true → good c)
    (either : c = d ∨ c.isAlpha = true) : ∀ e ∈ text ++ [c], good e := by
  intro e member
  rcases List.mem_append.mp member with old | new
  · exact inside e (List.mem_append_left _ old)
  · obtain rfl := List.mem_singleton.mp new
    rcases either with rfl | isAlpha
    · exact inside e (by simp)
    · exact letters isAlpha

section Maximal

variable (related : Renaming name alias_ before after) (isAlias : IsAliasWord alias_)
  {first : Char} {rest : Str}
  (rejects : ∀ (rule : FilterRule) (more tail : Str), lexemesText before = more ++ tail →
    more ≠ [] → rule.lang (first :: rest ++ more) = false)

include related isAlias rejects

/-- Where a character more is rejected in front of the old lexemes, it is in front of the new. -/
theorem rejects_concat (rule : FilterRule) {d : Char} {more : Str}
    (split : lexemesText after = d :: more) :
    ¬ ∀ c : Char, c = d ∨ c.isAlpha = true → rule.lang (first :: rest ++ [c]) = true := by
  intro accepts
  obtain ⟨c, old, isOld, either⟩ := related.first isAlias split
  have rejected := rejects rule [c] old isOld (by simp)
  rw [accepts c either] at rejected
  cases rejected

/-- A quotation that is not closed in front of the old lexemes is not in front of the new. -/
theorem rejects_quoted {more tail : Str} (split : lexemesText after = more ++ tail)
    (filled : more ≠ []) : FilterRule.quoted.lang (first :: rest ++ more) = false := by
  rw [Bool.eq_false_iff]
  intro accepted
  obtain ⟨body, some, noQuote, isText⟩ := quoted_iff.mp accepted
  obtain ⟨rfl, inside⟩ := List.cons.inj isText
  obtain ⟨left, rfl, rfl⟩ : ∃ left, body = rest ++ left ∧ more = left ++ ['"'] := by
    rcases List.append_eq_append_iff.mp inside with
      ⟨left, isBody, isMore⟩ | ⟨right, isRest, isQuote⟩
    · exact ⟨left, isBody, isMore⟩
    · cases right with
      | nil => exact ⟨[], by simpa using isRest.symm, isQuote.symm⟩
      | cons c others =>
          obtain ⟨_, none⟩ := List.cons.inj isQuote
          exact absurd (List.append_eq_nil_iff.mp none.symm).2 filled
  have isQuote : '"' ∈ lexemesText before := related.quote isAlias (by simp [split])
  obtain ⟨front, tail', isOld, fresh⟩ := List.eq_append_cons_of_mem isQuote
  have closed : FilterRule.quoted.lang ('"' :: rest ++ (front ++ ['"'])) = true := by
    refine quoted_iff.mpr ⟨rest ++ front, ?_, ?_, by simp⟩
    · rintro none
      obtain ⟨rfl, rfl⟩ := List.append_eq_nil_iff.mp none
      obtain ⟨d, others, rfl⟩ := List.exists_cons_of_ne_nil some
      obtain ⟨c, old, starts, either⟩ := related.first isAlias split
      rw [isOld] at starts
      obtain ⟨rfl, _⟩ := List.cons.inj starts
      rcases either with rfl | isAlpha
      · exact noQuote (by simp)
      · cases isAlpha
    · simp only [List.mem_append, not_or] at noQuote ⊢
      exact ⟨noQuote.1, fresh⟩
  rw [rejects .quoted (front ++ ['"']) tail' (by simp [isOld]) (by simp)] at closed
  cases closed

end Maximal

/-- No rule matches more than a text in front of the new lexemes when none does in front of the
old ones. -/
theorem noneLonger (related : Renaming name alias_ before after) (isAlias : IsAliasWord alias_)
    {text : Str} (nonempty : text ≠ [])
    (maximal : NoneLonger filterRules (text ++ lexemesText before) text.length) :
    NoneLonger filterRules (text ++ lexemesText after) text.length := by
  rw [noneLonger_append_iff] at maximal ⊢
  obtain ⟨first, rest, rfl⟩ := List.exists_cons_of_ne_nil nonempty
  have rejects : ∀ (rule : FilterRule) (more tail : Str), lexemesText before = more ++ tail →
      more ≠ [] → rule.lang (first :: rest ++ more) = false := fun rule more tail =>
    maximal _ (List.mem_map.mpr ⟨rule, by cases rule <;> decide, rfl⟩) more tail
  intro entry member more tail split filled
  obtain ⟨rule, _, rfl⟩ := List.mem_map.mp member
  have noQuoted := related.rejects_quoted isAlias rejects split filled
  rw [Bool.eq_false_iff]
  intro accepted
  dsimp only at accepted
  by_cases keyword : rule.isKeyword = true
  · have chars := isKeywordChar_of_lang keyword accepted
    obtain ⟨tail', same⟩ := related.of_isKeywordChar isAlias split fun c member =>
      chars c (List.mem_append_right _ member)
    rw [rejects rule _ tail' same filled] at accepted
    cases accepted
  obtain ⟨d, more', rfl⟩ := List.exists_cons_of_ne_nil filled
  refine related.rejects_concat isAlias rejects rule split fun c either => ?_
  cases rule with
  | ident =>
      rcases either_iff.mp accepted with isIdent | isQuoted
      · obtain ⟨c', others, same, alpha, chars⟩ := identLang_iff.mp isIdent
        obtain ⟨rfl, rfl⟩ := List.cons.inj same
        refine either_iff.mpr (Or.inl (identLang_iff.mpr ⟨first, rest ++ [c], rfl, alpha, ?_⟩))
        exact forall_mem_concat chars isIdentChar_of_isAlpha either
      · rw [quoted_of_quotedIdents isQuoted] at noQuoted
        cases noQuoted
  | string =>
      obtain ⟨_, chars⟩ := plus_iff.mp accepted
      refine plus_iff.mpr ⟨by simp, forall_mem_concat chars (fun isAlpha => ?_) either⟩
      simp [isStringChar, isAlphanum_of_isAlpha isAlpha]
  | quoted =>
      rw [accepted] at noQuoted
      cases noQuoted
  | comment =>
      obtain ⟨others, same, noBreak⟩ := comment_iff.mp accepted
      obtain ⟨rfl, rfl⟩ := List.cons.inj same
      have breaks : ∀ e ∈ rest ++ d :: more', e ≠ '\n' := by
        rintro e member rfl
        exact noBreak member
      have letter : c.isAlpha = true → c ≠ '\n' := by
        rintro isAlpha rfl
        cases isAlpha
      exact comment_iff.mpr ⟨rest ++ [c], rfl, fun inside =>
        forall_mem_concat breaks letter either _ inside rfl⟩
  | other => simp [FilterRule.lang] at accepted
  | _ => exact absurd rfl keyword

end Renaming

/-! ### The lexemes that are put in -/

theorem keyword_rejects {rule : FilterRule} (keyword : rule.isKeyword = true) {c : Char}
    (foreign : isKeywordChar c = false) (rest : Str) : rule.lang (c :: rest) = false := by
  rw [Bool.eq_false_iff]
  intro accepted
  rw [isKeywordChar_of_lang keyword accepted c List.mem_cons_self] at foreign
  cases foreign

theorem quoted_rejects {c : Char} (noQuote : c ≠ '"') (rest : Str) :
    FilterRule.quoted.lang (c :: rest) = false := by
  rw [Bool.eq_false_iff]
  intro accepted
  obtain ⟨_, _, _, isText⟩ := quoted_iff.mp accepted
  exact noQuote (List.cons.inj isText).1

theorem ident_of_lang {c : Char} (noQuote : c ≠ '"') {rest : Str}
    (accepted : FilterRule.ident.lang (c :: rest) = true) : identLang (c :: rest) = true := by
  rcases either_iff.mp accepted with isIdent | isQuoted
  · exact isIdent
  · have quoted := quoted_of_quotedIdents isQuoted
    rw [quoted_rejects noQuote] at quoted
    cases quoted

theorem alpha_of_isUpper {c : Char} (isUpper : c.isUpper = true) : c.isAlpha = true :=
  isAlpha_iff.mpr (Or.inl isUpper)

theorem isIdentChar_of_isAliasChar {c : Char} (isAlias : isAliasChar c = true) :
    isIdentChar c = true := by
  rcases Bool.or_eq_true_iff.mp isAlias with isUpper | underscore
  · simp [isIdentChar, isAlphanum_of_isAlpha (alpha_of_isUpper isUpper)]
  · simp [isIdentChar, underscore]

/-- An alias is an identifier. -/
theorem firstRule_alias {word : Str} (isAlias : IsAliasWord word) :
    FirstRule filterRules word .ident := by
  obtain ⟨c, rest, rfl, isUpper, chars⟩ := isAlias
  refine ⟨[.and, .or, .not, .exist, .in, .eq, .gt, .lt, .isset, .bracket, .pairAnd, .pairOr, .dir2,
    .dirSrc, .dirDst, .any].map fun rule => (rule, rule.lang), _, _, rfl, ?_, ?_⟩
  · refine either_iff.mpr (Or.inl (identLang_iff.mpr ⟨c, rest, rfl, alpha_of_isUpper isUpper, ?_⟩))
    exact fun d member => isIdentChar_of_isAliasChar (chars d member)
  · intro entry member
    obtain ⟨rule, isEarlier, rfl⟩ := List.mem_map.mp member
    have keywords : ∀ rule ∈ [FilterRule.and, .or, .not, .exist, .in, .eq, .gt, .lt, .isset,
        .bracket, .pairAnd, .pairOr, .dir2, .dirSrc, .dirDst, .any],
        rule.isKeyword = true := by decide
    exact keyword_rejects (keywords rule isEarlier) (isKeywordChar_of_isUpper isUpper) rest

/-- Nothing goes on behind an alias where no character of an identifier follows, and no character of
an address follows a word without underscores. -/
theorem noneLonger_alias {word rest : Str} (isAlias : IsAliasWord word)
    (ends : ∀ c, rest.head? = some c → isIdentChar c = false)
    (follow : '_' ∉ word → ∀ c, rest.head? = some c → c ∉ [':', '/', '.']) :
    NoneLonger filterRules (word ++ rest) word.length := by
  rw [noneLonger_append_iff]
  intro entry member more tail split filled
  obtain ⟨rule, _, rfl⟩ := List.mem_map.mp member
  obtain ⟨d, more, rfl⟩ := List.exists_cons_of_ne_nil filled
  obtain ⟨c, others, rfl, isUpper, chars⟩ := isAlias
  have starts : rest.head? = some d := by simp [split]
  have noQuote : c ≠ '"' := by
    rintro rfl
    cases isUpper
  dsimp only
  by_cases keyword : rule.isKeyword = true
  · exact keyword_rejects keyword (isKeywordChar_of_isUpper isUpper) _
  rw [Bool.eq_false_iff]
  intro accepted
  cases rule with
  | ident =>
      obtain ⟨_, _, same, _, inside⟩ := identLang_iff.mp (ident_of_lang noQuote accepted)
      obtain ⟨_, rfl⟩ := List.cons.inj same
      have isIdent := inside d (by simp)
      rw [ends d starts] at isIdent
      cases isIdent
  | string =>
      obtain ⟨_, inside⟩ := plus_iff.mp accepted
      have noUnderscore : '_' ∉ c :: others := by
        intro underscore
        have isString := inside '_' (List.mem_append_left _ underscore)
        revert isString
        decide
      have isString := inside d (by simp)
      have noIdent := ends d starts
      have noAddress := follow noUnderscore d starts
      simp only [isStringChar, isIdentChar, Bool.or_eq_true, Bool.or_eq_false_iff, beq_iff_eq,
        beq_eq_false_iff_ne, List.mem_cons, List.not_mem_nil, or_false, not_or] at *
      rcases isString with (((alnum | colon) | slash) | dot) | dash
      · rw [alnum] at noIdent
        cases noIdent.1.1
      · exact noAddress.1 colon
      · exact noAddress.2.1 slash
      · exact noAddress.2.2 dot
      · exact noIdent.1.2 dash
  | quoted =>
      rw [List.cons_append, quoted_rejects noQuote] at accepted
      cases accepted
  | comment =>
      obtain ⟨_, same, _⟩ := comment_iff.mp accepted
      obtain ⟨rfl, _⟩ := List.cons.inj same
      cases isUpper
  | other => simp [FilterRule.lang] at accepted
  | _ => exact keyword rfl

theorem hash_rejects {rule : FilterRule} (noComment : rule ≠ .comment) (noOther : rule ≠ .other)
    (rest : Str) : rule.lang ('#' :: rest) = false := by
  by_cases keyword : rule.isKeyword = true
  · exact keyword_rejects keyword (by decide) rest
  rw [Bool.eq_false_iff]
  intro accepted
  cases rule with
  | ident =>
      obtain ⟨_, _, same, alpha, _⟩ := identLang_iff.mp (ident_of_lang (by decide) accepted)
      obtain ⟨rfl, _⟩ := List.cons.inj same
      cases alpha
  | string => cases (plus_iff.mp accepted).2 '#' List.mem_cons_self
  | quoted =>
      rw [quoted_rejects (by decide)] at accepted
      cases accepted
  | comment => exact noComment rfl
  | other => exact noOther rfl
  | _ => exact keyword rfl

theorem firstRule_comment {text : Str} (isComment : FilterRule.comment.lang text = true) :
    FirstRule filterRules text .comment := by
  obtain ⟨rest, rfl, _⟩ := comment_iff.mp isComment
  refine ⟨[.and, .or, .not, .exist, .in, .eq, .gt, .lt, .isset, .bracket, .pairAnd, .pairOr, .dir2,
    .dirSrc, .dirDst, .any, .ident, .string, .quoted].map fun rule => (rule, rule.lang), _, _, rfl,
    isComment, fun entry member => ?_⟩
  obtain ⟨rule, isEarlier, rfl⟩ := List.mem_map.mp member
  refine hash_rejects ?_ ?_ rest <;> rintro rfl <;> revert isEarlier <;> decide

/-- A comment ends at the end of its line. -/
theorem noneLonger_comment {text rest : Str} (isComment : FilterRule.comment.lang text = true)
    (ends : ∀ c, rest.head? = some c → c = '\n') :
    NoneLonger filterRules (text ++ rest) text.length := by
  rw [noneLonger_append_iff]
  intro entry member more tail split filled
  obtain ⟨rule, _, rfl⟩ := List.mem_map.mp member
  obtain ⟨others, rfl, _⟩ := comment_iff.mp isComment
  obtain ⟨d, more, rfl⟩ := List.exists_cons_of_ne_nil filled
  obtain rfl := ends d (by simp [split])
  dsimp only
  by_cases noComment : rule = .comment
  · subst noComment
    rw [Bool.eq_false_iff]
    intro accepted
    obtain ⟨_, same, noBreak⟩ := comment_iff.mp accepted
    obtain ⟨_, rfl⟩ := List.cons.inj same
    exact noBreak (by simp)
  by_cases noOther : rule = .other
  · subst noOther
    simp [FilterRule.lang]
  · exact hash_rejects noComment noOther _

theorem lang_of_firstRule {text : Str} {rule : FilterRule}
    (first : FirstRule filterRules text rule) : rule.lang text = true := by
  obtain ⟨before, p, after, split, accepted, _⟩ := first
  have member : (rule, p) ∈ filterRules := by simp [split]
  obtain ⟨_, _, same⟩ := List.mem_map.mp member
  obtain ⟨rfl, rfl⟩ := Prod.mk.inj same
  exact accepted

/-- What follows a match does not make it longer. -/
theorem follows_of_wins {text rest : Str} {rule : FilterRule}
    (maximal : NoneLonger filterRules (text ++ rest) text.length) {c : Char}
    (next : rest.head? = some c) : rule.lang (text ++ [c]) = false := by
  obtain ⟨tail, rfl⟩ := List.head?_eq_some_iff.mp next
  exact noneLonger_append_iff.mp maximal (rule, rule.lang)
    (List.mem_map.mpr ⟨rule, by cases rule <;> decide, rfl⟩) [c] tail rfl (by simp)

/-- What follows a comment is the end of its line. -/
theorem newline_behind_comment {text rest : Str} (isComment : FilterRule.comment.lang text = true)
    (maximal : NoneLonger filterRules (text ++ rest) text.length) {c : Char}
    (next : rest.head? = some c) : c = '\n' := by
  by_contra noBreak
  obtain ⟨others, rfl, inside⟩ := comment_iff.mp isComment
  have longer : FilterRule.comment.lang ('#' :: others ++ [c]) = true := by
    refine comment_iff.mpr ⟨others ++ [c], rfl, ?_⟩
    simp only [List.mem_append, List.mem_singleton, not_or]
    exact ⟨inside, Ne.symm noBreak⟩
  rw [follows_of_wins maximal next] at longer
  cases longer

/-- The new text goes on as the old one where the old one does not go on with a letter. -/
theorem Renaming.head_of_not_alpha {name alias_ : Str}
    {before after : List (Lexeme FilterRule Char)} (related : Renaming name alias_ before after)
    (isAlias : IsAliasWord alias_)
    (noAlpha : ∀ c, (lexemesText before).head? = some c → c.isAlpha = false) :
    (lexemesText after).head? = (lexemesText before).head? := by
  rcases related.head isAlias with same | ⟨c, _, isFirst, isAlpha, _⟩
  · exact same.symm
  · rw [noAlpha c isFirst] at isAlpha
    cases isAlpha

/-- The scanner finds the renamed lexemes in their text. -/
theorem Renaming.scans {name alias_ : Str} {before after : List (Lexeme FilterRule Char)}
    (related : Renaming name alias_ before after) (isAlias : IsAliasWord alias_)
    (scans : Scans filterRules before) : Scans filterRules after := by
  induction related with
  | nil => exact .nil
  | @keep lexeme before after nonempty rest ih =>
      cases scans with
      | cons wins later =>
          obtain ⟨_, first, maximal⟩ := wins_append_iff.mp wins
          exact .cons
            (wins_append_iff.mpr ⟨nonempty, first, rest.noneLonger isAlias nonempty maximal⟩)
            (ih later)
  | @rename before after alpha follow rest ih =>
      cases scans with
      | cons wins later =>
          obtain ⟨c, word, rfl, isAlpha⟩ := alpha
          obtain ⟨_, first, maximal⟩ := wins_append_iff.mp wins
          have noQuote : c ≠ '"' := by
            rintro rfl
            cases isAlpha
          have isIdent := ident_of_lang noQuote (lang_of_firstRule first)
          obtain ⟨_, _, same, _, chars⟩ := identLang_iff.mp isIdent
          obtain ⟨_, rfl⟩ := List.cons.inj same
          have ends : ∀ d, (lexemesText before).head? = some d → isIdentChar d = false := by
            intro d next
            rw [Bool.eq_false_iff]
            intro isChar
            have longer : FilterRule.ident.lang (c :: word ++ [d]) = true := by
              refine either_iff.mpr (Or.inl (identLang_iff.mpr ⟨c, word ++ [d], rfl, isAlpha, ?_⟩))
              intro e member
              rcases List.mem_append.mp member with old | new
              · exact chars e old
              · exact List.mem_singleton.mp new ▸ isChar
            rw [follows_of_wins maximal next] at longer
            cases longer
          have head := rest.head_of_not_alpha isAlias fun d next => by
            rw [Bool.eq_false_iff]
            intro isLetter
            have isChar := isIdentChar_of_isAlpha isLetter
            rw [ends d next] at isChar
            cases isChar
          have nonempty : alias_ ≠ [] := by
            obtain ⟨_, _, rfl, _⟩ := isAlias
            simp
          refine .cons (wins_append_iff.mpr ⟨nonempty, firstRule_alias isAlias,
            noneLonger_alias isAlias ?_ ?_⟩) (ih later)
          · exact fun d next => ends d (head ▸ next)
          · exact fun plain d next => follow plain d (head ▸ next)
  | @comment text text' before after isComment isComment' quotes rest ih =>
      cases scans with
      | cons wins later =>
          obtain ⟨_, _, maximal⟩ := wins_append_iff.mp wins
          have ends : ∀ d, (lexemesText before).head? = some d → d = '\n' :=
            fun d => newline_behind_comment isComment maximal
          have head := rest.head_of_not_alpha isAlias fun d next => by
            rw [ends d next]
            decide
          have nonempty : text' ≠ [] := by
            obtain ⟨_, rfl, _⟩ := comment_iff.mp isComment'
            simp
          exact .cons (wins_append_iff.mpr ⟨nonempty, firstRule_comment isComment',
            noneLonger_comment isComment' fun d next => ends d (head ▸ next)⟩) (ih later)

end Policer.Parsing
