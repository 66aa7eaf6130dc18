import Policer.Backend.SelectorAliases
import Policer.Parsing.FilterRenaming

/-!
# Renaming in group-filter bodies

`apply_aliases` edits the text of a group-filter body, one variable after the other. The
lexemes of the body stay, each at its place, with the aliased identifiers renamed, as long
as no variable occurs anywhere else in the text (`Harmless`).
-/

namespace Policer.Backend

open Policer.Lib Policer.Lib.Lexer Policer.Parsing

/-! ### Lexemes -/

/-- The text of a lexeme of the body behind the variables `pairs`; comments are edited as any
text is. -/
def lexemeText (pairs : List VarName) (lexeme : Lexeme FilterRule Char) : Str :=
  match lexeme.rule with
  | .ident => renameName pairs lexeme.text
  | .comment => applyAliases lexeme.text (some pairs) .groupFilterBody
  | _ => lexeme.text

/-- The lexeme with that text. -/
def renamedLexeme (pairs : List VarName) (lexeme : Lexeme FilterRule Char) :
    Lexeme FilterRule Char :=
  ⟨lexeme.rule, lexemeText pairs lexeme⟩

/-- The text of lexemes behind the variables `pairs`. -/
def bodyText (pairs : List VarName) (found : List (Lexeme FilterRule Char)) : Str :=
  found.flatMap (lexemeText pairs)

/-- An identifier is renamed, any other token stays. -/
def renameToken (pairs : List VarName) : FilterToken → FilterToken
  | .ident text => .ident (renameName pairs text)
  | token => token

/-- The lexeme is renamed by `var` behind the variables `before`. -/
def Renames (before : List VarName) (var : VarName) (lexeme : Lexeme FilterRule Char) : Prop :=
  lexeme = ⟨.ident, var.name⟩ ∧ Fresh before var.name

instance (before : List VarName) (var : VarName) (lexeme : Lexeme FilterRule Char) :
    Decidable (Renames before var lexeme) :=
  inferInstanceAs (Decidable (lexeme = ⟨.ident, var.name⟩ ∧ Fresh before var.name))

/-- Behind the variables `before`, the name of `var` begins nowhere in a lexeme it does not rename,
comments aside, and an alias that could be part of an address stands in front of no other part. -/
def HarmlessAt (before : List VarName) (var : VarName) (lexeme : Lexeme FilterRule Char)
    (behind : Str) : Prop :=
  if lexeme.rule = .comment then True
  else if Renames before var lexeme then
    '_' ∉ var.alias_ → ∀ c ∈ behind.head?, c ∉ [':', '/', '.']
  else
    ∀ start < (lexemeText before lexeme).length,
      ¬ var.name <+: (lexemeText before lexeme).drop start ++ behind

instance (before : List VarName) (var : VarName) (lexeme : Lexeme FilterRule Char) (behind : Str) :
    Decidable (HarmlessAt before var lexeme behind) := by
  have noLetter : Decidable (∀ c ∈ behind.head?, c ∉ [':', '/', '.']) :=
    behind.head?.decidableForallMem
  unfold HarmlessAt
  infer_instance

/-- `var` harms no lexeme. -/
def Harmless (before : List VarName) (var : VarName) : List (Lexeme FilterRule Char) → Prop
  | [] => True
  | lexeme :: rest => HarmlessAt before var lexeme (bodyText before rest) ∧ Harmless before var rest

instance (before : List VarName) (var : VarName) :
    (found : List (Lexeme FilterRule Char)) → Decidable (Harmless before var found)
  | [] => inferInstanceAs (Decidable True)
  | _ :: rest =>
      have : Decidable (Harmless before var rest) := instDecidableHarmless before var rest
      inferInstanceAs (Decidable (_ ∧ _))

/-- No variable of the list does harm, unless its alias is its name. -/
def NoHarm (found : List (Lexeme FilterRule Char)) (pairs : List VarName) : Prop :=
  ∀ before var after, pairs = before ++ var :: after → var.alias_ ≠ [] →
    var.alias_ = var.name ∨ Harmless before var found

theorem lexemesText_renamed (pairs : List VarName) (found : List (Lexeme FilterRule Char)) :
    lexemesText (found.map (renamedLexeme pairs)) = bodyText pairs found := by
  rw [lexemesText, List.flatMap_map]
  rfl

/-- Without variables a lexeme stays as it is. -/
theorem renamedLexeme_nil (lexeme : Lexeme FilterRule Char) : renamedLexeme [] lexeme = lexeme := by
  obtain ⟨rule, text⟩ := lexeme
  cases rule <;> rfl

/-- The tokens of renamed lexemes. -/
theorem tokensOf_renamed (pairs : List VarName) (found : List (Lexeme FilterRule Char)) :
    tokensOf (found.map (renamedLexeme pairs)) = (tokensOf found).map (renameToken pairs) := by
  rw [tokensOf, tokensOf, List.filterMap_map, List.map_filterMap]
  refine List.filterMap_congr fun lexeme _ => ?_
  obtain ⟨rule, text⟩ := lexeme
  cases rule <;> rfl

/-! ### One variable -/

theorem applyAlias_groupFilterBody {var : VarName} (aliased : var.Aliased) (stageBody : Str) :
    applyAlias .groupFilterBody stageBody var = replaceAll var.name var.alias_ stageBody := by
  have isAlias := (plain_alias_of_aliased aliased).nonempty
  rw [applyAlias, if_neg (by simpa using isAlias)]
  exact findAndReplaceAll_eq (plain_name_of_aliased aliased).nonempty _ _

theorem applyAliases_append (stageBody : Str) (before : List VarName) (var : VarName)
    (bodyId : BodyId) :
    applyAliases stageBody (some (before ++ [var])) bodyId =
      applyAlias bodyId (applyAliases stageBody (some before) bodyId) var := by
  simp [applyAliases]

/-- A variable changes the lexemes it does not rename only if they are comments. -/
theorem lexemeText_append {before : List VarName} {var : VarName}
    {lexeme : Lexeme FilterRule Char} (noComment : lexeme.rule ≠ .comment)
    (stays : ¬ Renames before var lexeme) :
    lexemeText (before ++ [var]) lexeme = lexemeText before lexeme := by
  obtain ⟨rule, text⟩ := lexeme
  cases rule with
  | ident =>
      refine (renameName_append before var text).trans (if_neg ?_)
      rintro ⟨fresh, rfl, _⟩
      exact stays ⟨rfl, fresh⟩
  | comment => exact absurd rfl noComment
  | _ => rfl

theorem isAliasWord_of_aliased {var : VarName} (aliased : var.Aliased) :
    IsAliasWord var.alias_ := by
  obtain ⟨as, rfl⟩ := aliased
  obtain ⟨c, rest, isField, isUpper⟩ := field_eq_cons as.funcType
  refine ⟨c, rest, isField, isUpper, fun d member => ?_⟩
  exact isAliasChar_of_mem_field as.funcType d (isField ▸ List.mem_cons_of_mem _ member)

/-- The name of a variable has neither a quote nor a sign of a comment in it. -/
theorem notMem_name_of_aliased {var : VarName} (aliased : var.Aliased) {c : Char}
    (foreign : isIdentifierRest c = false) : c ∉ var.name := by
  obtain ⟨as, rfl⟩ := aliased
  intro member
  rw [as.variableName.isRest c member] at foreign
  cases foreign

theorem notMem_alias_of_aliased {var : VarName} (aliased : var.Aliased) {c : Char}
    (foreign : isAliasChar c = false) : c ∉ var.alias_ := by
  obtain ⟨as, rfl⟩ := aliased
  intro member
  rw [isAliasChar_of_mem_field as.funcType c member] at foreign
  cases foreign

/-- A comment stays a comment. -/
theorem comment_replaceAll {var : VarName} (aliased : var.Aliased) {text : Str}
    (isComment : FilterRule.comment.lang text = true) :
    FilterRule.comment.lang (replaceAll var.name var.alias_ text) = true := by
  obtain ⟨rest, rfl, noBreak⟩ := comment_iff.mp isComment
  have nonempty := (plain_name_of_aliased aliased).nonempty
  have absent : ¬ var.name <+: '#' :: rest := by
    intro here
    obtain ⟨c, tail, isName⟩ := List.exists_cons_of_ne_nil nonempty
    rw [isName, List.cons_prefix_cons] at here
    refine notMem_name_of_aliased aliased (c := '#') (by decide) ?_
    simp [isName, here.1]
  refine comment_iff.mpr ⟨_, replaceAll_cons _ absent, fun member => ?_⟩
  rcases mem_replaceAll _ nonempty member with old | new
  · exact noBreak old
  · exact notMem_alias_of_aliased aliased (by decide) new

/-- The name of an identifier lexeme starts with a letter. -/
theorem alpha_of_ident {var : VarName} (aliased : var.Aliased)
    (accepted : FilterRule.ident.lang var.name = true) :
    ∃ c rest, var.name = c :: rest ∧ c.isAlpha = true := by
  obtain ⟨c, rest, isName⟩ :=
    List.exists_cons_of_ne_nil (plain_name_of_aliased aliased).nonempty
  have noQuote : c ≠ '"' := by
    rintro rfl
    exact notMem_name_of_aliased aliased (by decide) (isName ▸ List.mem_cons_self)
  rw [isName] at accepted
  obtain ⟨d, tail, same, alpha, _⟩ := identLang_iff.mp (ident_of_lang noQuote accepted)
  obtain ⟨rfl, _⟩ := List.cons.inj same
  exact ⟨c, rest, isName, alpha⟩

/-- What is renamed in a comment and behind it. -/
theorem replaceAll_comment {var : VarName} (aliased : var.Aliased) (text : Str) {rest : Str}
    (ends : ∀ c, rest.head? = some c → c = '\n') :
    replaceAll var.name var.alias_ (text ++ rest) =
      replaceAll var.name var.alias_ text ++ replaceAll var.name var.alias_ rest := by
  cases rest with
  | nil => simp
  | cons c tail =>
      obtain rfl := ends c rfl
      exact replaceAll_append_of_notMem _ (plain_name_of_aliased aliased).nonempty
        (notMem_name_of_aliased aliased (by decide)) text tail

/-- A scanned lexeme with what follows it. -/
theorem wins_renamed {pairs : List VarName} {lexeme : Lexeme FilterRule Char}
    {rest : List (Lexeme FilterRule Char)}
    (scans : Scans filterRules ((lexeme :: rest).map (renamedLexeme pairs))) :
    lexemeText pairs lexeme ≠ [] ∧
      FirstRule filterRules (lexemeText pairs lexeme) lexeme.rule ∧
      NoneLonger filterRules (lexemeText pairs lexeme ++ bodyText pairs rest)
        (lexemeText pairs lexeme).length ∧
      Scans filterRules (rest.map (renamedLexeme pairs)) := by
  rw [List.map_cons] at scans
  cases scans with
  | cons wins later =>
      obtain ⟨nonempty, first, maximal⟩ := wins_append_iff.mp wins
      rw [← lexemesText_renamed]
      exact ⟨nonempty, first, maximal, later⟩

/-- One variable renames its identifiers and changes comments, and nothing else. -/
theorem renaming_of_harmless {found : List (Lexeme FilterRule Char)} {before : List VarName}
    {var : VarName} (aliased : var.Aliased)
    (scans : Scans filterRules (found.map (renamedLexeme before)))
    (harmless : Harmless before var found) :
    replaceAll var.name var.alias_ (bodyText before found) = bodyText (before ++ [var]) found ∧
      Renaming var.name var.alias_ (found.map (renamedLexeme before))
        (found.map (renamedLexeme (before ++ [var]))) := by
  have nameNonempty := (plain_name_of_aliased aliased).nonempty
  have isAliased := (plain_alias_of_aliased aliased).nonempty
  induction found with
  | nil => exact ⟨rfl, .nil⟩
  | cons lexeme rest ih =>
      obtain ⟨nonempty, first, maximal, later⟩ := wins_renamed scans
      obtain ⟨text, related⟩ := ih later harmless.2
      have head : bodyText before (lexeme :: rest) =
          lexemeText before lexeme ++ bodyText before rest :=
        List.flatMap_cons ..
      have head' : bodyText (before ++ [var]) (lexeme :: rest) =
          lexemeText (before ++ [var]) lexeme ++ bodyText (before ++ [var]) rest :=
        List.flatMap_cons ..
      rw [head, head', List.map_cons, List.map_cons, ← text]
      by_cases isComment : lexeme.rule = .comment
      · obtain ⟨rule, old⟩ := lexeme
        obtain rfl : rule = .comment := isComment
        have comment := lang_of_firstRule first
        have changed : lexemeText (before ++ [var]) ⟨.comment, old⟩ =
            replaceAll var.name var.alias_ (lexemeText before ⟨.comment, old⟩) :=
          (applyAliases_append ..).trans (applyAlias_groupFilterBody aliased _)
        rw [changed]
        refine ⟨replaceAll_comment aliased _ fun c => newline_behind_comment comment maximal, ?_⟩
        rw [renamedLexeme, renamedLexeme, changed]
        refine .comment comment (comment_replaceAll aliased comment) (fun quote => ?_) related
        exact (mem_replaceAll _ nameNonempty quote).resolve_right
          (notMem_alias_of_aliased aliased (by decide))
      by_cases isRenamed : Renames before var lexeme
      · have follow := harmless.1
        rw [HarmlessAt, if_neg isComment, if_pos isRenamed] at follow
        obtain ⟨rfl, fresh⟩ := isRenamed
        have old : lexemeText before ⟨.ident, var.name⟩ = var.name := renameName_of_fresh fresh
        have new : lexemeText (before ++ [var]) ⟨.ident, var.name⟩ = var.alias_ :=
          (renameName_append ..).trans (if_pos ⟨fresh, rfl, isAliased⟩)
        rw [old] at first
        rw [old, new]
        refine ⟨replaceAll_append _ nameNonempty _, ?_⟩
        rw [renamedLexeme, renamedLexeme, old, new]
        refine .rename (alpha_of_ident aliased (lang_of_firstRule first)) (fun plain c next => ?_)
          related
        rw [lexemesText_renamed] at next
        exact follow plain c next
      · have absent := harmless.1
        rw [HarmlessAt, if_neg isComment, if_neg isRenamed] at absent
        have same := lexemeText_append isComment isRenamed
        refine ⟨?_, ?_⟩
        · rw [same]
          refine replaceAll_append_of_absent _ _ fun left right filled split => ?_
          have inside : left.length < (lexemeText before lexeme).length := by
            have := List.length_pos_iff.mpr filled
            rw [split, List.length_append]
            omega
          have here := absent left.length inside
          rwa [split, List.drop_left] at here
        · have whole : renamedLexeme (before ++ [var]) lexeme = renamedLexeme before lexeme := by
            rw [renamedLexeme, same, renamedLexeme]
          rw [whole]
          exact .keep nonempty related

/-! ### Bodies -/

/-- A variable that changes nothing. -/
theorem applyAlias_idle {var : VarName} (idle : var.alias_ = [] ∨ var.alias_ = var.name)
    (stageBody : Str) : applyAlias .groupFilterBody stageBody var = stageBody := by
  by_cases empty : var.alias_ = []
  · exact if_pos (by simp [empty])
  · have same := idle.resolve_left empty
    have nonempty : var.name ≠ [] := same ▸ empty
    refine (if_neg (by simpa using empty)).trans ?_
    dsimp only
    rw [replaceAliasesInGroupFilterBody, findAndReplaceAll_eq nonempty, same,
      replaceAll_same nonempty]

theorem renamedLexeme_idle {var : VarName} (idle : var.alias_ = [] ∨ var.alias_ = var.name)
    (before : List VarName) (lexeme : Lexeme FilterRule Char) :
    renamedLexeme (before ++ [var]) lexeme = renamedLexeme before lexeme := by
  obtain ⟨rule, text⟩ := lexeme
  cases rule with
  | ident =>
      have same : renameName (before ++ [var]) text = renameName before text := by
        rw [renameName_append]
        split
        · rename_i isAlias
          obtain ⟨fresh, isName, filled⟩ := isAlias
          rw [renameName_of_fresh fresh, ← isName, idle.resolve_left filled]
        · rfl
      simp only [renamedLexeme, lexemeText, same]
  | comment => simp only [renamedLexeme, lexemeText, applyAliases_append, applyAlias_idle idle]
  | _ => rfl

/-- Behind every variable the text holds the renamed lexemes, and the scanner finds them. -/
theorem scans_applyAliases {body : Str} {pairs : List VarName}
    (assigned : ∀ var ∈ pairs, var.Assigned) (clean : NoHarm (filterLexemes body) pairs) :
    applyAliases body (some pairs) .groupFilterBody =
        lexemesText ((filterLexemes body).map (renamedLexeme pairs)) ∧
      Scans filterRules ((filterLexemes body).map (renamedLexeme pairs)) := by
  induction pairs using List.reverseRecOn with
  | nil =>
      have same : (filterLexemes body).map (renamedLexeme []) = filterLexemes body :=
        List.map_id'' renamedLexeme_nil _
      rw [same]
      exact ⟨(filterLexemes_flatten body).symm, scans_lexemes filterRules_total body⟩
  | append_singleton before var ih =>
      obtain ⟨text, scans⟩ := ih (fun other member => assigned other (by simp [member]))
        fun first other after split => clean first other (after ++ [var]) (by simp [split])
      rw [applyAliases_append, text]
      by_cases idle : var.alias_ = [] ∨ var.alias_ = var.name
      · have same := List.map_congr_left fun lexeme (_ : lexeme ∈ filterLexemes body) =>
          renamedLexeme_idle idle before lexeme
        rw [applyAlias_idle idle, same]
        exact ⟨rfl, scans⟩
      · obtain ⟨isAliased, changes⟩ := not_or.mp idle
        have aliased := (assigned var (by simp)).resolve_left isAliased
        have harmless := (clean before var [] rfl isAliased).resolve_left changes
        obtain ⟨replaced, related⟩ := renaming_of_harmless aliased scans harmless
        rw [applyAlias_groupFilterBody aliased, lexemesText_renamed, replaced, lexemesText_renamed]
        exact ⟨rfl, related.scans (isAliasWord_of_aliased aliased) scans⟩

/-- A body reads as the old one with its aliased identifiers renamed when no variable does harm. -/
theorem filterTokens_renamed_of_noHarm {body : Str} {pairs : List VarName}
    (assigned : ∀ var ∈ pairs, var.Assigned) (clean : NoHarm (filterLexemes body) pairs) :
    filterTokens (applyAliases body (some pairs) .groupFilterBody) =
      (filterTokens body).map (renameToken pairs) := by
  obtain ⟨text, scans⟩ := scans_applyAliases assigned clean
  rw [filterTokens, text, filterLexemes, lexemesText, scans.lexemes_eq, tokensOf_renamed,
    filterTokens]

/-- The filter below an aggregator reads its body with the aliases in place of the recorded
variables when none of them does harm. -/
theorem groupFilterOptions_of_noHarm {ast : MainBranches} {data : InterRepr}
    (ran : Parser.run ast = .ok data) {ctx : Context} {pairs : List VarName}
    (recorded : data.groupFilterVars[stageKey .groupFilter ctx.path]? = some pairs) {body : Str}
    (clean : NoHarm (filterLexemes body) pairs) :
    filterTokens (groupFilterOptions data ctx body) =
      (filterTokens body).map (renameToken pairs) := by
  rw [groupFilterOptions, recorded]
  exact filterTokens_renamed_of_noHarm ((assigned_of_run ran).1 _ pairs recorded) clean

/-- Behind every list of variables the pairs start with, `apply_aliases` renames the whole
identifiers of a group-filter body and leaves its other tokens, when no variable does harm. -/
theorem groupFilterBody_renamed {body : Str} {pairs : List VarName}
    (assigned : ∀ var ∈ pairs, var.Assigned) (clean : NoHarm (filterLexemes body) pairs) :
    ∀ before, before <+: pairs →
      filterTokens (applyAliases body (some before) .groupFilterBody) =
        (filterTokens body).map (renameToken before) := by
  rintro before ⟨after, rfl⟩
  refine filterTokens_renamed_of_noHarm (fun var member => assigned var (by simp [member])) ?_
  exact fun first var later split => clean first var (later ++ after) (by simp [split])

/-- `a` with the alias of `SUM(PACKETS)`. -/
def packetsVar : VarName := ⟨"a".toList, "PACKETS".toList⟩

/-- No other token of `a > 5 || b < 9` has the letter. -/
theorem groupFilterBody_renamed_packets :
    (∀ var ∈ [packetsVar], var.Assigned) ∧
      NoHarm (filterLexemes "a > 5 || b < 9".toList) [packetsVar] ∧
      ∀ before, before <+: [packetsVar] →
        filterTokens (applyAliases "a > 5 || b < 9".toList (some before) .groupFilterBody) =
          (filterTokens "a > 5 || b < 9".toList).map (renameToken before) := by
  have assigned : ∀ var ∈ [packetsVar], var.Assigned := by
    intro var member
    obtain rfl := List.mem_singleton.mp member
    exact Or.inr ⟨⟨⟨"a".toList, rfl⟩, .withParam ⟨.sum, .packets⟩⟩, rfl⟩
  have clean : NoHarm (filterLexemes "a > 5 || b < 9".toList) [packetsVar] := by
    intro before var after split _
    obtain ⟨rfl, rfl⟩ : before = [] ∧ var = packetsVar := by
      cases before with
      | nil => exact ⟨rfl, (List.cons.inj split).1.symm⟩
      | cons head tail => simp at split
    exact Or.inr (by decide +kernel)
  exact ⟨assigned, clean, groupFilterBody_renamed assigned clean⟩

/-- `main { aggregator: a = SUM(PACKETS); group-filter: a > 5 and a < 9; selector: a; }`. -/
def packetsBetween : MainBranches where
  first := .mk .main (.stage (.aggregator
    { body := { first := ⟨.a, .withParam ⟨.sum, .packets⟩⟩, rest := [] }
      succ := .stage (.groupFilter
        { body := "a > 5 and a < 9".toList
          succ := .stage ⟨simpleBody (.name .a) []⟩ }) }))
  rest := .nil

/-- The `a` of `and` is replaced as well, and the operator is gone. -/
theorem packetsBetween_not_renamed :
    ∃ data pairs, Accepted packetsBetween data ∧
      data.groupFilterVars[stageKey .groupFilter [⟨"main".toList, rfl⟩]]? = some pairs ∧
      applyAliases "a > 5 and a < 9".toList (some pairs) .groupFilterBody =
        "PACKETS > 5 PACKETSnd PACKETS < 9".toList ∧
      filterTokens (applyAliases "a > 5 and a < 9".toList (some pairs) .groupFilterBody) ≠
        (filterTokens "a > 5 and a < 9".toList).map (renameToken pairs) := by
  obtain ⟨data, accepted, recorded⟩ := accepted_of_accepts packetsBetween
    (fun data => data.groupFilterVars[stageKey .groupFilter [⟨"main".toList, rfl⟩]]? ==
      some [packetsVar, packetsVar]) (by decide +kernel)
  exact ⟨data, [packetsVar, packetsVar], accepted, by simpa using recorded, by decide +kernel,
    by decide +kernel⟩

end Policer.Backend
