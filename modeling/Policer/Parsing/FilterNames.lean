import Policer.Parsing.FilterExpressions

/-!
# The names that are recorded for a filter body

`parse_filter_body` gives the names of an expression as long as there are at most
`NUMBER_OF_STRINGS` of them and each fits its buffer.
-/

namespace Policer.Parsing

open Policer.Lib Policer.Lib.Lexer

/-! ### Capacity of the buffers -/

theorem copied_isSome {text : Str} : (copied text).isSome = true ↔ text.length ≤ 1022 := by
  rw [Option.isSome_iff_exists]
  simp [copied_eq_some]

theorem ends_iff {texts : List Str} : ends texts = true ↔ ∀ text ∈ texts, text.length ≤ 1022 := by
  simp [ends, List.all_eq_true, copied_isSome]

/-- The texts that are read up to their ends fit into their buffers: those of the values and those
the names are made of. -/
def FilterExpr.Fits (expr : FilterExpr) : Prop :=
  ∀ leaf ∈ expr.leaves, ∀ text ∈ leaf.readTexts ++ leaf.field.parts, text.length ≤ 1022

theorem mapM_copied {texts : List Str} {whole : List Str} :
    texts.mapM copied = some whole ↔ (∀ text ∈ texts, text.length ≤ 1022) ∧ texts = whole := by
  induction texts generalizing whole with
  | nil => simp [eq_comm]
  | cons head tail ih =>
      rw [List.mapM_cons]
      constructor
      · intro made
        obtain ⟨_, isHead, made⟩ := Option.bind_eq_some_iff.mp made
        obtain ⟨rest, isRest, made⟩ := Option.bind_eq_some_iff.mp made
        obtain ⟨short, rfl⟩ := copied_eq_some.mp isHead
        obtain ⟨others, rfl⟩ := ih.mp isRest
        exact ⟨List.forall_mem_cons.mpr ⟨short, others⟩, Option.some.inj made⟩
      · rintro ⟨short, rfl⟩
        obtain ⟨head, others⟩ := List.forall_mem_cons.mp short
        simp [copied_eq_some.mpr ⟨head, rfl⟩, ih.mpr ⟨others, rfl⟩]

theorem printedAll_eq_some {texts : List Str} {made : Str} :
    printedAll texts = some made ↔
      (∀ text ∈ texts, text.length ≤ 1022) ∧ texts.flatten.take 1022 = made := by
  rw [printedAll, Option.map_eq_some_iff]
  simp only [mapM_copied, printed]
  constructor
  · rintro ⟨_, ⟨short, rfl⟩, made⟩
    exact ⟨short, made⟩
  · rintro ⟨short, made⟩
    exact ⟨texts, ⟨short, rfl⟩, made⟩

theorem FilterField.flatten_parts (field : FilterField) : field.parts.flatten = field.text := by
  cases field <;> simp [parts, text]

/-- A field is recorded when its parts fit, up to the length of a buffer. -/
theorem FilterField.recorded_eq_some {field : FilterField} {made : Str} :
    field.recorded = some made ↔
      (∀ text ∈ field.parts, text.length ≤ 1022) ∧ field.text.take 1022 = made := by
  cases field with
  | ident name =>
      rw [recorded, copied_eq_some, parts, List.forall_mem_singleton, text]
      exact and_congr_right fun short => by rw [List.take_of_length_le short]
  | _ =>
      rw [recorded, printedAll_eq_some, flatten_parts]
      exact fun _ same => FilterField.noConfusion same

theorem FilterLeaf.recorded_eq_some {leaf : FilterLeaf} {made : Str} :
    leaf.recorded = some made ↔
      (∀ text ∈ leaf.readTexts ++ leaf.field.parts, text.length ≤ 1022) ∧
        leaf.field.text.take 1022 = made := by
  rw [List.forall_mem_append, and_assoc, ← FilterField.recorded_eq_some, ← ends_iff, recorded]
  split <;> rename_i ended <;> simp [ended]

theorem mapM_recorded {leaves : List FilterLeaf} {made : List Str} :
    (leaves.map FilterLeaf.recorded).mapM id = some made ↔
      (∀ leaf ∈ leaves, ∀ text ∈ leaf.readTexts ++ leaf.field.parts, text.length ≤ 1022) ∧
        leaves.map (fun leaf => leaf.field.text.take 1022) = made := by
  induction leaves generalizing made with
  | nil => simp [eq_comm]
  | cons head tail ih =>
      rw [List.map_cons, List.mapM_cons, List.forall_mem_cons, List.map_cons]
      constructor
      · intro isMade
        obtain ⟨first, isFirst, isMade⟩ := Option.bind_eq_some_iff.mp isMade
        obtain ⟨rest, isRest, isMade⟩ := Option.bind_eq_some_iff.mp isMade
        obtain ⟨short, rfl⟩ := FilterLeaf.recorded_eq_some.mp isFirst
        obtain ⟨others, rfl⟩ := ih.mp isRest
        exact ⟨⟨short, others⟩, Option.some.inj isMade⟩
      · rintro ⟨⟨short, others⟩, rfl⟩
        simp [FilterLeaf.recorded_eq_some.mpr ⟨short, rfl⟩, ih.mpr ⟨others, rfl⟩]

/-! ### Names of a body -/

/-- The names of a filter that have room in the collector, as far as each has room in a buffer. -/
def FilterExpr.collected (expr : FilterExpr) : List Str :=
  (expr.names.map fun name => name.take 1022).take numberOfStrings

/-- A body that is an expression is accepted with the first names there is room for, if its strings
fit, and otherwise nothing can be said. -/
theorem ff2Init_of_tokens {body : Str} {expr : FilterExpr}
    (lexed : filterTokens (cStr body) = expr.tokens) :
    (expr.Fits ∧ ff2Init body = .names expr.collected) ∨
      (¬ expr.Fits ∧ ff2Init body = .unterminated) := by
  rw [ff2Init, lexed, filterNames_tokens]
  dsimp only
  cases read : expr.recorded.mapM id with
  | none =>
      refine Or.inr ⟨fun fits => ?_, rfl⟩
      have made := mapM_recorded.mpr ⟨fits, rfl⟩
      rw [← FilterExpr.recorded, read] at made
      cases made
  | some names =>
      obtain ⟨fits, rfl⟩ := mapM_recorded.mp read
      refine Or.inl ⟨fits, ?_⟩
      simp [FilterExpr.collected, FilterExpr.names, FilterExpr.fields, Function.comp_def]

theorem names?_of_tokens {body : Str} {expr : FilterExpr}
    (lexed : filterTokens (cStr body) = expr.tokens) {found : List Str} :
    (ff2Init body).names? = some found ↔ expr.Fits ∧ expr.collected = found := by
  rcases ff2Init_of_tokens lexed with ⟨fits, isNames⟩ | ⟨long, lost⟩
  · rw [isNames, Ff2Result.names?, Option.some.injEq, and_iff_right fits]
  · rw [lost]
    exact iff_of_false (by simp [Ff2Result.names?]) fun both => long both.1

/-- What `parse_filter_body` returns are all names of the expression in textual order, and nothing
else that it does depends on what the memory held. A body with more names than the collector holds
is an error. -/
structure NamesKept (expr : FilterExpr) (body path : Str) : Prop where
  returned : ∀ vars, parseFilterBody body path = .ok vars → vars.map VarName.name = expr.names
  defined : parseFilterBody body path ≠ .error .unterminated
  reported : numberOfStrings < expr.names.length →
    ∃ thrown, parseFilterBody body path = .error (.thrown thrown)

theorem parseFilterBody_of_names {body : Str} {found : List Str}
    (read : ff2Init body = .names found) (path : Str) :
    parseFilterBody body path = .ok (found.map fun name => ⟨name, []⟩) := by
  simp [parseFilterBody, readFilterBody, read, Except.map]

/-- A body that is accepted keeps the names it gives. -/
theorem namesKept_of_names {body : Str} {found : List Str} (read : ff2Init body = .names found)
    (expr : FilterExpr) (path : Str) :
    NamesKept expr body path ↔ found = expr.names ∧ expr.names.length ≤ numberOfStrings := by
  have parsed := parseFilterBody_of_names read path
  constructor
  · rintro ⟨returned, _, reported⟩
    refine ⟨by simpa [Function.comp_def] using returned _ parsed, ?_⟩
    by_contra more
    obtain ⟨thrown, refused⟩ := reported (Nat.lt_of_not_le more)
    rw [parsed] at refused
    cases refused
  · rintro ⟨same, few⟩
    refine ⟨fun vars isVars => ?_, by simp [parsed], fun more => absurd few (Nat.not_le.mpr more)⟩
    rw [parsed] at isVars
    cases isVars
    simpa [Function.comp_def] using same

theorem not_namesKept_of_unterminated {body : Str} (lost : ff2Init body = .unterminated)
    (expr : FilterExpr) (path : Str) : ¬ NamesKept expr body path := by
  rintro ⟨_, defined, _⟩
  exact defined (by simp [parseFilterBody, readFilterBody, lost, Except.map])

theorem namesKept_of_malformed {body : Str} (refused : ff2Init body = .malformed)
    (expr : FilterExpr) (path : Str) : NamesKept expr body path := by
  have thrown : parseFilterBody body path = .error (.thrown (.filterBodies path ff2Error)) := by
    simp [parseFilterBody, readFilterBody, refused, Except.map]
  exact ⟨fun vars isVars => by simp [thrown] at isVars, by simp [thrown], fun _ => ⟨_, thrown⟩⟩

/-- All fields of the expression are plain identifiers. -/
def FilterExpr.Plain (expr : FilterExpr) : Prop := ∀ field ∈ expr.fields, field.Plain

theorem FilterExpr.tokens_ne_nil (expr : FilterExpr) : expr.tokens ≠ [] := by
  intro empty
  cases expr with
  | any | not | paren => cases empty
  | and left right | or left right => simp [FilterExpr.tokens] at empty
  | leaf condition =>
      cases condition with
      | compare field | among field =>
          cases field <;>
            simp [FilterExpr.tokens, FilterLeaf.tokens, FilterField.tokens] at empty
      | _ => cases empty

/-- The names of an expression that fits are collected as they stand when there are not too many. -/
theorem FilterExpr.collected_eq_names {expr : FilterExpr} (plain : expr.Plain) (fits : expr.Fits)
    (few : expr.names.length ≤ numberOfStrings) : expr.collected = expr.names := by
  have whole : expr.names.map (fun name => name.take 1022) = expr.names := by
    refine (List.map_congr_left fun name member => ?_).trans (List.map_id _)
    obtain ⟨field, isField, rfl⟩ := List.mem_map.mp member
    obtain ⟨leaf, isLeaf, rfl⟩ := List.mem_map.mp isField
    refine List.take_of_length_le (fits leaf isLeaf _ (List.mem_append_right _ ?_))
    have isPlain := plain _ isField
    generalize leaf.field = field at isPlain
    cases field with
    | ident name => exact List.mem_singleton_self name
    | _ => cases isPlain
  rw [collected, whole, List.take_of_length_le few]

/-- What is left of a body in front of its first zero is no filter, or it fits and has the names. -/
structure SurvivesCut (expr : FilterExpr) (body : Str) : Prop where
  empty : filterTokens (cStr body) = [] → expr.names = []
  left : ∀ read : FilterExpr, filterTokens (cStr body) = read.tokens →
    read.Fits ∧ read.collected = expr.names

/-- The names of a body that is read whole are kept exactly when the collector has room for them
and each string fits its buffer. A body that is cut off by a zero keeps them when what is left gives
the same names. -/
theorem namesKept_iff {expr : FilterExpr} (plain : expr.Plain) (body path : Str) :
    (filterTokens (cStr body) = expr.tokens → (NamesKept expr body path ↔
        expr.names.length ≤ numberOfStrings ∧ expr.Fits)) ∧
      (filterTokens (cStr body) ≠ expr.tokens →
        (NamesKept expr body path ↔ SurvivesCut expr body)) := by
  refine ⟨fun lexed => ?_, fun _ => ?_⟩
  · rcases ff2Init_of_tokens lexed with ⟨fits, read⟩ | ⟨long, lost⟩
    · rw [namesKept_of_names read]
      exact ⟨fun kept => ⟨kept.2, fits⟩,
        fun room => ⟨expr.collected_eq_names plain fits room.1, room.1⟩⟩
    · exact iff_of_false (not_namesKept_of_unterminated lost expr path) fun room => long room.2
  · cases read : filterNames (filterTokens (cStr body)) with
    | none =>
        have refused : ff2Init body = .malformed := by rw [ff2Init, read]
        refine iff_of_true (namesKept_of_malformed refused expr path) ⟨fun empty => ?_, ?_⟩
        · rw [empty] at read
          cases read
        · intro left lexed
          rw [lexed, filterNames_tokens] at read
          cases read
    | some found =>
        obtain ⟨empty, rfl⟩ | ⟨left, lexed, rfl⟩ := filterNames_some read
        · have none : ff2Init body = .names [] := by
            rw [ff2Init, read]
            rfl
          rw [namesKept_of_names none]
          constructor
          · exact fun kept => ⟨fun _ => kept.1.symm,
              fun left lexed => absurd (lexed.symm.trans empty) left.tokens_ne_nil⟩
          · intro survives
            have noNames := survives.empty empty
            simp [noNames]
        · have lexed := lexed.symm
          rcases ff2Init_of_tokens lexed with ⟨fits, isNames⟩ | ⟨long, lost⟩
          · rw [namesKept_of_names isNames]
            constructor
            · rintro ⟨same, _⟩
              refine ⟨fun empty => absurd (lexed.symm.trans empty) left.tokens_ne_nil, ?_⟩
              intro other alike
              have given : other.Fits ∧ other.collected = left.collected :=
                (names?_of_tokens alike).mp (by rw [isNames, Ff2Result.names?])
              exact ⟨given.1, given.2.trans same⟩
            · intro survives
              have same := (survives.left left lexed).2
              refine ⟨same, ?_⟩
              rw [← same]
              exact List.length_take_le ..
          · refine iff_of_false (not_namesKept_of_unterminated lost expr path) fun survives => ?_
            exact long (survives.left left lexed).1

/-- `BYTES`. -/
theorem namesKept_iff_bytes :
    (FilterExpr.leaf (.bare "BYTES".toList)).Plain ∧
      (NamesKept (.leaf (.bare "BYTES".toList)) "BYTES".toList "/main/group-filter".toList ↔
        (FilterExpr.leaf (.bare "BYTES".toList)).names.length ≤ numberOfStrings ∧
          (FilterExpr.leaf (.bare "BYTES".toList)).Fits) := by
  have plain : (FilterExpr.leaf (.bare "BYTES".toList)).Plain := by
    intro field member
    obtain rfl := List.mem_singleton.mp member
    trivial
  exact ⟨plain, (namesKept_iff plain _ _).1 (by decide +kernel)⟩

/-- What stands behind a zero is not read. -/
example : parseFilterBody "A \x00&& B".toList "/main/group-filter".toList =
    .ok [⟨"A".toList, []⟩] := by decide +kernel

/-- `A&&A&&..&&A` with `more + 1` leaves. -/
def manyFields : Nat → FilterExpr
  | 0 => .leaf (.bare ['A'])
  | more + 1 => .and (.leaf (.bare ['A'])) (manyFields more)

/-- Its lexemes. -/
def manyLexemes : Nat → List (Lexeme FilterRule Char)
  | 0 => [⟨.ident, ['A']⟩]
  | more + 1 => ⟨.ident, ['A']⟩ :: ⟨.and, "&&".toList⟩ :: manyLexemes more

theorem manyFields_plain (more : Nat) : (manyFields more).Plain := by
  induction more with
  | zero =>
      intro field member
      obtain rfl := List.mem_singleton.mp member
      trivial
  | succ more ih =>
      intro field member
      rcases List.mem_cons.mp member with rfl | later
      · trivial
      · exact ih field later

theorem fits_manyFields (more : Nat) : (manyFields more).Fits := by
  have single : ∀ text ∈ (FilterLeaf.bare ['A']).readTexts ++ (FilterLeaf.bare ['A']).field.parts,
      text.length ≤ 1022 := by decide
  induction more with
  | zero =>
      intro leaf member
      obtain rfl := List.mem_singleton.mp member
      exact single
  | succ more ih =>
      intro leaf member
      rcases List.mem_cons.mp member with rfl | later
      · exact single
      · exact ih leaf later

theorem length_manyFields (more : Nat) : (manyFields more).names.length = more + 1 := by
  induction more with
  | zero => rfl
  | succ more ih =>
      simp only [FilterExpr.names, FilterExpr.fields, List.length_map] at ih ⊢
      simp [manyFields, FilterExpr.leaves, ih]

theorem tokensOf_manyLexemes (more : Nat) :
    tokensOf (manyLexemes more) = (manyFields more).tokens := by
  induction more with
  | zero => rfl
  | succ more ih =>
      change .ident ['A'] :: .and :: tokensOf (manyLexemes more) = _
      rw [ih]
      rfl

/-- `&&` ends where a capital letter follows. -/
theorem wins_and {rest : Str} (follow : ∀ c, rest.head? = some c → c.isUpper = true) :
    Wins filterRules ("&&".toList ++ rest) .and "&&".toList.length := by
  refine wins_append_iff.mpr ⟨by decide, ⟨[], _, _, rfl, by decide, by simp⟩, ?_⟩
  rw [noneLonger_append_iff]
  rintro entry member more tail rfl filled
  obtain ⟨rule, _, rfl⟩ := List.mem_map.mp member
  obtain ⟨c, more, rfl⟩ := List.exists_cons_of_ne_nil filled
  have foreign := isKeywordChar_of_isUpper (follow c rfl)
  dsimp only
  rw [Bool.eq_false_iff]
  intro accepted
  by_cases keyword : rule.isKeyword = true
  · rw [isKeywordChar_of_lang keyword accepted c (by simp)] at foreign
    cases foreign
  cases rule with
  | ident =>
      obtain ⟨_, _, same, alpha, _⟩ := identLang_iff.mp (ident_of_lang (by decide) accepted)
      obtain ⟨rfl, _⟩ := List.cons.inj same
      cases alpha
  | string => cases (plus_iff.mp accepted).2 '&' (by simp)
  | quoted =>
      obtain ⟨_, _, _, same⟩ := quoted_iff.mp accepted
      cases (List.cons.inj same).1
  | comment =>
      obtain ⟨_, same, _⟩ := comment_iff.mp accepted
      cases (List.cons.inj same).1
  | other => cases accepted
  | _ => exact keyword rfl

theorem scans_manyLexemes (more : Nat) : Scans filterRules (manyLexemes more) := by
  have isAlias : IsAliasWord ['A'] := ⟨'A', [], rfl, rfl, by simp⟩
  have first : FirstRule filterRules ['A'] .ident := firstRule_alias isAlias
  induction more with
  | zero =>
      refine .cons (wins_append_iff.mpr ⟨by simp, first, ?_⟩) .nil
      exact noneLonger_alias isAlias (by simp) (by simp)
  | succ more ih =>
      refine .cons (wins_append_iff.mpr ⟨by simp, first, ?_⟩) (.cons (wins_and ?_) ih)
      · refine noneLonger_alias isAlias ?_ ?_
        · rintro c isNext
          obtain rfl : '&' = c := by simpa using isNext
          rfl
        · rintro _ c isNext
          obtain rfl : '&' = c := by simpa using isNext
          decide
      · intro c isNext
        have starts : ((manyLexemes more).flatMap Lexeme.text).head? = some 'A' := by
          cases more <;> rfl
        obtain rfl : 'A' = c := by simpa [starts] using isNext
        rfl

/-- Its text. -/
def manyText (more : Nat) : Str := lexemesText (manyLexemes more)

theorem filterTokens_manyText (more : Nat) :
    filterTokens (manyText more) = (manyFields more).tokens := by
  rw [filterTokens, filterLexemes, manyText, lexemesText, (scans_manyLexemes more).lexemes_eq,
    tokensOf_manyLexemes]

theorem noZero_manyText (more : Nat) : '\x00' ∉ manyText more := by
  rw [manyText, lexemesText]
  induction more with
  | zero => decide
  | succ more ih =>
      rw [manyLexemes, List.flatMap_cons, List.flatMap_cons]
      simp only [List.mem_append, not_or]
      exact ⟨by decide, by decide, ih⟩

/-- Of 501 names one is dropped, and the body is accepted. -/
theorem manyNames_not_kept :
    (manyFields 500).Plain ∧ filterTokens (cStr (manyText 500)) = (manyFields 500).tokens ∧
      (∃ vars, parseFilterBody (manyText 500) "/main/group-filter".toList = .ok vars) ∧
      ¬ NamesKept (manyFields 500) (manyText 500) "/main/group-filter".toList := by
  have lexed : filterTokens (cStr (manyText 500)) = (manyFields 500).tokens := by
    rw [cStr_eq_self (noZero_manyText 500), filterTokens_manyText]
  rcases ff2Init_of_tokens lexed with ⟨_, read⟩ | ⟨long, _⟩
  · refine ⟨manyFields_plain 500, lexed, ⟨_, parseFilterBody_of_names read _⟩, fun kept => ?_⟩
    have few := ((namesKept_of_names read _ _).mp kept).2
    rw [length_manyFields, numberOfStrings] at few
    omega
  · exact absurd (fits_manyFields 500) long

end Policer.Parsing
