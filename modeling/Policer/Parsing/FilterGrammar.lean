import Policer.Lib.CString
import Policer.Parsing.FilterLexer

/-!
# The grammar of filter bodies

The productions of `ffilter_gram.y` under `parse_filter_bodies`, which keeps only
the field names of the leaves. Precedences do not matter here: they decide how
operators nest and not which texts are filters, so an expression is read as
operands with operators between them and a count of open parentheses.
Strings are copied to buffers that may end up without a terminator; what such a
string is when it is read is not told. `ff2Init` is the call the rule parser makes.
-/

namespace Policer.Parsing

open Policer.Lib

/-- `NUMBER_OF_STRINGS`. -/
def numberOfStrings : Nat := 500

/-- What can be read of a buffer of `FF_MAX_STRING` characters behind
`strncpy(.., FF_MAX_STRING - 1)`: no zero is written behind a text that fills it, and where such a
string ends depends on what the memory held. -/
def copied (text : Str) : Option Str := if text.length < 1023 then some text else none

theorem copied_eq_some {text other : Str} :
    copied text = some other ↔ text.length ≤ 1022 ∧ text = other := by
  rw [copied]
  split
  · rename_i short
    simp [Nat.le_of_lt_succ short]
  · rename_i long
    simp [show ¬ text.length ≤ 1022 by omega]

/-- `snprintf(.., FF_MAX_STRING - 1, ..)`, which also writes the final zero. -/
def printed (text : Str) : Str := text.take 1022

/-- `snprintf` of strings one behind the other. -/
def printedAll (texts : List Str) : Option Str :=
  (texts.mapM copied).map fun whole => printed whole.flatten

/-- `field`: its text and the tokens behind it. -/
def filterField : List FilterToken → Option (Option Str × List FilterToken)
  | .ident name :: rest => some (copied name, rest)
  | .dir d :: .ident name :: rest => some (printedAll [d, name], rest)
  | .dir2 d :: .ident name :: rest => some (printedAll [d, name], rest)
  | .dir2 d :: .dir e :: .ident name :: rest => some (printedAll [d, e, name], rest)
  | .pairOr :: .ident name :: rest => some (printedAll [['|'], name], rest)
  | .pairAnd :: .ident name :: rest => some (printedAll [['&'], name], rest)
  | _ => none

/-- The strings the actions of a value read have their ends. -/
def ends (texts : List Str) : Bool := texts.all fun text => (copied text).isSome

/-- `value`: one or two strings, or a quoted text. One string is only copied. -/
def filterValue : List FilterToken → Option (Bool × List FilterToken)
  | .quoted text :: rest => some (ends [text], rest)
  | .ident first :: .ident second :: rest => some (ends [first, second], rest)
  | .ident first :: .string second :: rest => some (ends [first, second], rest)
  | .string first :: .ident second :: rest => some (ends [first, second], rest)
  | .string first :: .string second :: rest => some (ends [first, second], rest)
  | .ident _ :: rest => some (true, rest)
  | .string _ :: rest => some (true, rest)
  | _ => none

/-- `consistent_val`. -/
def consistentVal : FilterToken → Option Bool
  | .ident _ => some true
  | .string _ => some true
  | .quoted text => some (ends [text])
  | _ => none

/-- `list` up to its closing bracket. -/
def filterList : List FilterToken → Option (Bool × List FilterToken)
  | value :: .char [']'] :: rest => (consistentVal value).map fun here => (here, rest)
  | value :: .char [','] :: rest =>
      (consistentVal value).bind fun here =>
        (filterList rest).map fun (later, rest) => (here && later, rest)
  | value :: rest =>
      (consistentVal value).bind fun here =>
        (filterList rest).map fun (later, rest) => (here && later, rest)
  | [] => none

/-- `cmp value` or `IN list` behind a field; `cmp` may be empty. -/
def filterCondition : List FilterToken → Option (Bool × List FilterToken)
  | .in :: rest => filterList rest
  | .isset :: rest => filterValue rest
  | .eq :: rest => filterValue rest
  | .lt :: rest => filterValue rest
  | .gt :: rest => filterValue rest
  | rest => filterValue rest

/-- A leaf of `expr`: its field, if all its strings have their ends, and the tokens behind it. -/
def filterLeaf : List FilterToken → Option (Option Str × List FilterToken)
  | .exist :: rest => filterField rest
  | tokens =>
      match filterField tokens with
      | none => none
      | some (name, rest) =>
          match filterCondition rest, tokens with
          | some (ended, rest), _ => some (if ended then name else none, rest)
          | none, .ident bare :: rest => some (copied bare, rest)
          | none, _ => none

mutual

/-- The rest of a filter from an operand on, below `depth` open parentheses. -/
def filterOperand : Nat → Nat → List FilterToken → Option (List (Option Str))
  | 0, _, _ => none
  | fuel + 1, depth, .not :: rest => filterOperand fuel depth rest
  | fuel + 1, depth, .char ['('] :: rest => filterOperand fuel (depth + 1) rest
  | fuel + 1, depth, .any :: rest => filterOperator fuel depth rest
  | fuel + 1, depth, tokens =>
      match filterLeaf tokens with
      | none => none
      | some (name, rest) => (filterOperator fuel depth rest).map (name :: ·)

/-- The rest of a filter behind an operand. -/
def filterOperator : Nat → Nat → List FilterToken → Option (List (Option Str))
  | _, 0, [] => some []
  | fuel + 1, depth, .and :: rest => filterOperand fuel depth rest
  | fuel + 1, depth, .or :: rest => filterOperand fuel depth rest
  | fuel + 1, depth + 1, .char [')'] :: rest => filterOperator fuel depth rest
  | _, _, _ => none

end

/-- `filter`: the field names of its leaves in textual order, if it is a filter. -/
def filterNames : List FilterToken → Option (List (Option Str))
  | [] => some []
  | tokens => filterOperand (tokens.length + 1) 0 tokens

/-- How `ff2_init` ends: with the names `ff2_t_get_data` gives, with an error, or somewhere behind
the end of a string. -/
inductive Ff2Result where
  | names (found : List Str)
  | malformed
  | unterminated
deriving DecidableEq, Repr

/-- `ff2_init` on the C string of a body: `ff2_t_append` drops names that do not fit, and the
result is still `FF_OK`. -/
def ff2Init (expr : Str) : Ff2Result :=
  match filterNames (filterTokens (cStr expr)) with
  | none => .malformed
  | some found =>
      match found.mapM id with
      | none => .unterminated
      | some names => .names (names.take numberOfStrings)

/-- The names of a body that is accepted. -/
def Ff2Result.names? : Ff2Result → Option (List Str)
  | .names found => some found
  | .malformed => none
  | .unterminated => none

/-- The text `ff2_error` gives after a failed `ff2_init`. -/
def ff2Error : Str := "syntax error".toList

end Policer.Parsing
