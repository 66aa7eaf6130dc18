import Policer.Lib.Lexer
import Policer.Parsing.Ast

/-!
# The scanner of filter bodies

The rules of `ffilter_lex.l` in their order. The copy under `parse_filter_bodies`
and the one of the filter stage differ in nothing but the prefix of their
generated names. `filterTokens` is what the generated scanner hands to either
grammar.
-/

namespace Policer.Parsing

open Policer.Lib.Lexer

/-- `[ \t]`. -/
def isBlank (c : Char) : Bool := c == ' ' || c == '\t'

/-- `[A-Za-z0-9\-_]`. -/
def isIdentChar (c : Char) : Bool := c.isAlphanum || c == '-' || c == '_'

/-- `{letter}|{digit}|{punct}`. -/
def isStringChar (c : Char) : Bool :=
  c.isAlphanum || c == ':' || c == '/' || c == '.' || c == '-'

/-- `{ident}`. -/
def identLang : Lang Char
  | [] => false
  | c :: rest => c.isAlpha && rest.all isIdentChar

/-- `first{ws}+middle{ws}+last`. -/
def pairLang (first middle last : Str) : Lang Char :=
  cat (word first) (cat (plus isBlank) (cat (word middle) (cat (plus isBlank) (word last))))

/-- `\"{ident}([ ]{ident})+\"`. -/
def quotedIdentsLang : Lang Char :=
  cat (word ['"']) (cat (fun body => 2 ≤ (body.splitOn ' ').length &&
    (body.splitOn ' ').all identLang) (word ['"']))

/-- The rules of the scanner. -/
inductive FilterRule where
  | and
  | or
  | not
  | exist
  | in
  | eq
  | gt
  | lt
  | isset
  | bracket
  | pairAnd
  | pairOr
  | dir2
  | dirSrc
  | dirDst
  | any
  | ident
  | string
  | quoted
  | comment
  | blanks
  | newline
  | other
deriving DecidableEq, Repr

/-- The pattern of a rule. -/
def FilterRule.lang : FilterRule → Lang Char
  | .and => words ["and".toList, "&&".toList]
  | .or => words ["or".toList, "||".toList]
  | .not => words ["not".toList, "!".toList]
  | .exist => word "exist".toList
  | .in => cat (word "in".toList) (cat (plus isBlank) (word "[".toList))
  | .eq => words ["=".toList, "==".toList, "eq".toList]
  | .gt => words [">".toList, "gt".toList]
  | .lt => words ["<".toList, "lt".toList]
  | .isset => words ["&".toList, "like".toList]
  | .bracket => words ["(".toList, ")".toList, "[".toList, "]".toList, ",".toList]
  | .pairAnd =>
      either (pairLang "src".toList "and".toList "dst".toList)
        (pairLang "dst".toList "and".toList "src".toList)
  | .pairOr =>
      either (pairLang "src".toList "or".toList "dst".toList)
        (pairLang "dst".toList "or".toList "src".toList)
  | .dir2 => words ["in".toList, "out".toList]
  | .dirSrc => words ["src".toList, "prev".toList, "ingress".toList]
  | .dirDst => words ["dst".toList, "next".toList, "egress".toList]
  | .any => word "any".toList
  | .ident => either identLang quotedIdentsLang
  | .string => plus isStringChar
  | .quoted => cat (word ['"']) (cat (plus (· != '"')) (word ['"']))
  | .comment => fun
      | '#' :: rest => rest.all (· != '\n')
      | _ => false
  | .blanks => plus isBlank
  | .newline => word ['\n']
  | .other => fun
      | [c] => c != '\n'
      | _ => false

/-- The rules in the order of the source. -/
def FilterRule.all : List FilterRule :=
  [.and, .or, .not, .exist, .in, .eq, .gt, .lt, .isset, .bracket, .pairAnd, .pairOr, .dir2,
    .dirSrc, .dirDst, .any, .ident, .string, .quoted, .comment, .blanks, .newline, .other]

/-- The scanner. -/
def filterRules : List (FilterRule × Lang Char) := FilterRule.all.map fun rule => (rule, rule.lang)

/-- Tokens of the filter grammar with the text `yylval` is copied from. -/
inductive FilterToken where
  | and
  | or
  | not
  | exist
  | in
  | eq
  | gt
  | lt
  | isset
  | char (c : Str)
  | pairAnd
  | pairOr
  | dir2 (text : Str)
  | dir (text : Str)
  | any
  | ident (text : Str)
  | string (text : Str)
  | quoted (text : Str)
deriving DecidableEq, Repr

/-- The action of a rule; comments, white space and unknown characters give no token. -/
def FilterRule.token (yytext : Str) : FilterRule → Option FilterToken
  | .and => some .and
  | .or => some .or
  | .not => some .not
  | .exist => some .exist
  | .in => some .in
  | .eq => some .eq
  | .gt => some .gt
  | .lt => some .lt
  | .isset => some .isset
  | .bracket => some (.char yytext)
  | .pairAnd => some .pairAnd
  | .pairOr => some .pairOr
  | .dir2 => some (.dir2 yytext)
  | .dirSrc => some (.dir yytext)
  | .dirDst => some (.dir yytext)
  | .any => some .any
  | .ident => some (.ident yytext)
  | .string => some (.string yytext)
  | .quoted => some (.quoted yytext)
  | .comment => none
  | .blanks => none
  | .newline => none
  | .other => none

/-- The lexemes of a filter body. -/
def filterLexemes (body : Str) : List (Lexeme FilterRule Char) := lexemes filterRules body

/-- The tokens of lexemes. -/
def tokensOf (found : List (Lexeme FilterRule Char)) : List FilterToken :=
  found.filterMap fun lexeme => lexeme.rule.token lexeme.text

/-- The tokens of a filter body. -/
def filterTokens (body : Str) : List FilterToken := tokensOf (filterLexemes body)

/-- The scanner never jams: the last two rules accept any character. -/
theorem filterRules_total : Total filterRules := by
  intro s nonempty nothing
  cases s with
  | nil => exact nonempty rfl
  | cons c rest =>
      have rejects := noneLonger_of_scanOne_none filterRules nothing
      by_cases newline : c = '\n'
      · have fails := rejects (.newline, FilterRule.newline.lang)
          (by simp [filterRules, FilterRule.all])
          1 Nat.one_pos (by simp)
        simp [FilterRule.lang, newline, word] at fails
      · have fails := rejects (.other, FilterRule.other.lang)
          (by simp [filterRules, FilterRule.all])
          1 Nat.one_pos (by simp)
        simp [FilterRule.lang, newline] at fails

/-- The lexemes of a body cover it. -/
theorem filterLexemes_flatten (body : Str) : (filterLexemes body).flatMap Lexeme.text = body :=
  lexemes_flatten filterRules_total body

end Policer.Parsing
