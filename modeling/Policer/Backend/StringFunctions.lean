import Policer.Lib.Substring
import Policer.Lib.Tokens
import Policer.Parsing.Ast

/-!
# Helping functions for strings

The functions of `string_functions.cpp`. Their loops run as long as the source's
do when the searched text is not empty; for an empty one the source's loops
never end, and no caller passes one.
-/

namespace Policer.Backend

open Policer.Lib

/-- The loop of `divide_str`. -/
def divideStrLoop (delimiter : Str) : Nat → Str → List Str → List Str
  | 0, input, output => output ++ [input]
  | fuel + 1, input, output =>
      match findFrom input delimiter 0 with
      | some pos =>
          divideStrLoop delimiter fuel (input.drop (pos + delimiter.length))
            (output ++ [input.take pos])
      | none => output ++ [input]

/-- `divide_str`. -/
def divideStr (input delimiter : Str) : List Str :=
  divideStrLoop delimiter (input.length + 1) input []

/-- The loop of `findAndReplaceAll` at an occurrence, if there is one. -/
def findAndReplaceLoop (searched replaceStr : Str) : Nat → Str → Option Nat → Str
  | fuel + 1, input, some pos =>
      let replaced := input.take pos ++ replaceStr ++ input.drop (pos + searched.length)
      findAndReplaceLoop searched replaceStr fuel replaced
        (findFrom replaced searched (pos + replaceStr.length))
  | _, input, _ => input

/-- `findAndReplaceAll`. -/
def findAndReplaceAll (input searched replaceStr : Str) : Str :=
  findAndReplaceLoop searched replaceStr (input.length + 1) input (findFrom input searched 0)

/-- `vecOfstr2str`: the first character is erased. -/
def vecOfstr2str (vec : List Str) (delimiter : Str) : Str :=
  (vec.flatMap fun item => delimiter ++ item).drop 1

/-- `::isspace` in the C locale. -/
def isspace (c : Char) : Bool :=
  c == ' ' || c == '\t' || c == '\n' || c == '\x0b' || c == '\x0c' || c == '\r'

/-- One item in the loop of `replace_aliases_in_selector_body`. -/
def replaceInItem (searched replaceStr item : Str) : Str :=
  match findFrom item "=".toList 0 with
  | some equalPos =>
      item.take (equalPos + 1) ++
        findAndReplaceAll (item.drop (equalPos + 1)) searched replaceStr
  | none => if (findFrom item searched 0).isSome then replaceStr else item

/-- `replace_aliases_in_selector_body`. -/
def replaceAliasesInSelectorBody (input searched replaceStr : Str) : Str :=
  if input.isEmpty then []
  else
    let input := input.filter fun c => !isspace c
    vecOfstr2str ((divideStr input ",".toList).map (replaceInItem searched replaceStr)) ",".toList

/-- `replace_aliases_in_group_filter_body`. -/
def replaceAliasesInGroupFilterBody (input searched replaceStr : Str) : Str :=
  findAndReplaceAll input searched replaceStr

/-! ### What the loops compute -/

theorem divideStrLoop_eq (c : Char) (fuel : Nat) (input : Str) (output : List Str)
    (enough : input.length < fuel) :
    divideStrLoop [c] fuel input output = output ++ input.splitOn c := by
  induction fuel generalizing input output with
  | zero => omega
  | succ n ih =>
      unfold divideStrLoop
      rw [findFrom_zero]
      by_cases member : c ∈ input
      · obtain ⟨before, rest, rfl, fresh⟩ := List.eq_append_cons_of_mem member
        have shorter : rest.length < n := by
          simp only [List.length_append, List.length_cons] at enough
          omega
        have dropped : (before ++ c :: rest).drop (before.length + [c].length) = rest := by
          rw [← List.drop_drop, List.drop_left]
          rfl
        rw [indexOf?_singleton fresh, List.splitOn_append_cons_self_of_not_mem fresh]
        simp only [dropped, List.take_left]
        rw [ih rest _ shorter, List.append_assoc, List.singleton_append]
      · rw [indexOf?_singleton_eq_none.mpr member, List.splitOn_eq_singleton member]

/-- A string is divided at every delimiter. -/
theorem divideStr_eq (input : Str) (c : Char) : divideStr input [c] = input.splitOn c :=
  divideStrLoop_eq c _ input [] (by omega)

/-- One replacement of the loop: what is done grows by it, and the search goes on behind. -/
theorem replace_occurrence {searched rest : Str} {pos : Nat} (nonempty : searched ≠ [])
    (replaceStr done : Str) (found : indexOf? searched rest = some pos) :
    ∃ before later, rest = before ++ searched ++ later ∧ before.length = pos ∧
      (done ++ rest).take (pos + done.length) ++ replaceStr ++
          (done ++ rest).drop (pos + done.length + searched.length) =
        done ++ before ++ replaceStr ++ later ∧
      pos + done.length + replaceStr.length = (done ++ before ++ replaceStr).length ∧
      replaceAll searched replaceStr rest =
        before ++ replaceStr ++ replaceAll searched replaceStr later := by
  obtain ⟨before, later, rfl, rfl, replaced⟩ := replaceAll_of_indexOf? replaceStr nonempty found
  refine ⟨before, later, rfl, rfl, ?_, by simp only [List.length_append]; omega, replaced⟩
  have taken : (done ++ (before ++ searched ++ later)).take (before.length + done.length) =
      done ++ before := by
    rw [Nat.add_comm, ← List.length_append, List.append_assoc before, ← List.append_assoc done]
    exact List.take_left
  have dropped : (done ++ (before ++ searched ++ later)).drop
      (before.length + done.length + searched.length) = later := by
    have behind : before.length + done.length + searched.length =
        (done ++ before ++ searched).length := by
      simp only [List.length_append]
      omega
    rw [behind, List.append_assoc before, ← List.append_assoc done, ← List.append_assoc]
    exact List.drop_left
  rw [taken, dropped]

theorem findAndReplaceLoop_eq {searched : Str} (nonempty : searched ≠ []) (replaceStr : Str)
    (fuel : Nat) (done rest : Str) (enough : rest.length < fuel) :
    findAndReplaceLoop searched replaceStr fuel (done ++ rest)
        ((indexOf? searched rest).map (· + done.length)) =
      done ++ replaceAll searched replaceStr rest := by
  induction fuel generalizing done rest with
  | zero => omega
  | succ n ih =>
      cases found : indexOf? searched rest with
      | none =>
          rw [replaceAll_of_not_occurs replaceStr (indexOf?_eq_none.mp found)]
          rfl
      | some pos =>
          obtain ⟨before, later, split, _, spliced, next, replaced⟩ :=
            replace_occurrence nonempty replaceStr done found
          have positive := List.length_pos_iff.mpr nonempty
          have shorter : later.length < n := by
            simp only [split, List.length_append] at enough
            omega
          simp only [Option.map_some, findAndReplaceLoop, spliced]
          rw [next, findFrom_append, ih (done ++ before ++ replaceStr) later shorter, replaced]
          simp only [List.append_assoc]

/-- All occurrences of a string are replaced from left to right. -/
theorem findAndReplaceAll_eq {searched : Str} (nonempty : searched ≠ []) (input replaceStr : Str) :
    findAndReplaceAll input searched replaceStr = replaceAll searched replaceStr input := by
  have run := findAndReplaceLoop_eq nonempty replaceStr (input.length + 1) [] input (by omega)
  rw [findAndReplaceAll, findFrom_zero]
  simpa using run

/-- The strings of a vector are joined with the delimiter between them. -/
theorem vecOfstr2str_eq (vec : List Str) (c : Char) :
    vecOfstr2str vec [c] = [c].intercalate vec := by
  cases vec with
  | nil => rfl
  | cons head tail =>
      rw [intercalate_cons_eq]
      rfl

end Policer.Backend
