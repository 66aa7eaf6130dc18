import Policer.Backend.StringFunctions
import Policer.Lib.Loop
import Policer.Lib.Pieces

/-!
# The loops over strings

The loops of `divide_str` and `findAndReplaceAll` as the source has them, without a
bound on their turns. They end for every searched text that is not empty: one leaves
the pieces between the leftmost occurrences, the other the pieces joined with the
replacement. For one character dividing and joining undo each other.
-/

namespace Policer.Backend

open Policer.Lib

/-- One turn of the loop of `divide_str`, over what is left and the output. -/
def divideTurn (delimiter : Str) : Str × List Str → (Str × List Str) ⊕ List Str
  | (input, output) =>
      match findFrom input delimiter 0 with
      | some pos => .inl (input.drop (pos + delimiter.length), output ++ [input.take pos])
      | none => .inr (output ++ [input])

/-- One turn of the loop of `findAndReplaceAll`, over the string and the position. -/
def replaceTurn (searched replaceStr : Str) : Str × Option Nat → (Str × Option Nat) ⊕ Str
  | (input, some pos) =>
      let replaced := input.take pos ++ replaceStr ++ input.drop (pos + searched.length)
      .inl (replaced, findFrom replaced searched (pos + replaceStr.length))
  | (input, none) => .inr input

/-! ### Dividing -/

section Dividing

variable {delimiter input : Str} {output pieces : List Str}

/-- A turn that goes on cuts the input at the leftmost delimiter. -/
theorem divideTurn_goes (nonempty : delimiter ≠ []) {next : Str × List Str}
    (goes : divideTurn delimiter (input, output) = .inl next) :
    ∃ before rest, input = before ++ delimiter ++ rest ∧ next = (rest, output ++ [before]) ∧
      ∀ start < before.length, ¬ delimiter <+: input.drop start := by
  simp only [divideTurn, findFrom_zero] at goes
  split at goes
  · rename_i pos found
    obtain ⟨before, rest, rfl, rfl, _⟩ := replaceAll_of_indexOf? [] nonempty found
    have dropped : (before ++ delimiter ++ rest).drop (before.length + delimiter.length) =
        rest := by
      rw [← List.length_append, List.drop_left]
    have taken : (before ++ delimiter ++ rest).take before.length = before := by
      rw [List.append_assoc, List.take_left]
    rw [dropped, taken] at goes
    exact ⟨before, rest, rfl, (Sum.inl.inj goes).symm, indexOf?_leftmost found⟩
  · cases goes

/-- A turn that leaves has found no delimiter. -/
theorem divideTurn_leaves (left : divideTurn delimiter (input, output) = .inr pieces) :
    ¬ delimiter <:+: input ∧ pieces = output ++ [input] := by
  simp only [divideTurn, findFrom_zero] at left
  split at left
  · cases left
  · rename_i absent
    exact ⟨indexOf?_eq_none.mp absent, (Sum.inr.inj left).symm⟩

/-- What is left and the output give the pieces of the input. -/
def Divides (delimiter input : Str) (state : Str × List Str) : Prop :=
  ∀ pieces, LeftmostPieces delimiter state.1 pieces →
    LeftmostPieces delimiter input (state.2 ++ pieces)

theorem Divides.goes (nonempty : delimiter ≠ []) {state next : Str × List Str}
    (divides : Divides delimiter input state) (goes : divideTurn delimiter state = .inl next) :
    Divides delimiter input next ∧ next.1.length < state.1.length := by
  obtain ⟨text, output⟩ := state
  obtain ⟨before, rest, rfl, rfl, leftmost⟩ := divideTurn_goes nonempty goes
  refine ⟨fun pieces behind => ?_, ?_⟩
  · rw [List.append_assoc]
    exact divides _ (.cut leftmost behind)
  · have positive := List.length_pos_iff.mpr nonempty
    simp only [List.length_append]
    omega

theorem Divides.leaves {state : Str × List Str} (divides : Divides delimiter input state)
    (left : divideTurn delimiter state = .inr pieces) : LeftmostPieces delimiter input pieces := by
  obtain ⟨text, output⟩ := state
  obtain ⟨absent, rfl⟩ := divideTurn_leaves left
  exact divides _ (.last absent)

/-- The loop of `divide_str` ends with the pieces between the leftmost delimiters. -/
theorem divideTurn_ends (nonempty : delimiter ≠ []) (input : Str) :
    ∃ pieces, Ends (divideTurn delimiter) (input, []) pieces ∧
      LeftmostPieces delimiter input pieces := by
  have initial : Divides delimiter input (input, []) := fun _ cut => cut
  exact ends_of_variant (fun state => state.1.length)
    (fun divides goes => divides.goes nonempty goes) (fun divides left => divides.leaves left)
    initial

/-- `divideStr` follows the loop to its end. -/
theorem divideStrLoop_of_ends (nonempty : delimiter ≠ []) {state : Str × List Str}
    (ends : Ends (divideTurn delimiter) state pieces) {fuel : Nat}
    (enough : state.1.length < fuel) :
    divideStrLoop delimiter fuel state.1 state.2 = pieces := by
  induction ends generalizing fuel with
  | @leave state pieces left =>
      obtain ⟨fuel, rfl⟩ := Nat.exists_eq_add_one_of_ne_zero (by omega : fuel ≠ 0)
      obtain ⟨absent, rfl⟩ := divideTurn_leaves left
      rw [divideStrLoop, findFrom_zero, indexOf?_eq_none.mpr absent]
  | @again state next pieces goes _ inductionHypothesis =>
      obtain ⟨fuel, rfl⟩ := Nat.exists_eq_add_one_of_ne_zero (by omega : fuel ≠ 0)
      obtain ⟨before, rest, split, isNext, _⟩ := divideTurn_goes nonempty goes
      have shorter : next.1.length < fuel := by
        have positive := List.length_pos_iff.mpr nonempty
        simp only [isNext]
        simp only [split, List.length_append] at enough
        omega
      rw [← inductionHypothesis shorter]
      simp only [divideTurn] at goes
      split at goes
      · rename_i pos found
        obtain rfl := Sum.inl.inj goes
        simp only [divideStrLoop, found]
      · cases goes

/-- `divide_str` ends, and divides at the leftmost delimiters. -/
theorem divideStr_ends (nonempty : delimiter ≠ []) (input : Str) :
    Ends (divideTurn delimiter) (input, []) (divideStr input delimiter) ∧
      LeftmostPieces delimiter input (divideStr input delimiter) := by
  obtain ⟨pieces, ends, cut⟩ := divideTurn_ends nonempty input
  have follows : divideStr input delimiter = pieces :=
    divideStrLoop_of_ends nonempty ends (Nat.lt_succ_self _)
  exact follows ▸ ⟨ends, cut⟩

end Dividing

/-! ### Replacing -/

section Replacing

variable {searched : Str} (replaceStr : Str)

/-- What is done is not searched again, and the position is the next occurrence behind it. -/
def Rewrites (searched replaceStr input : Str) (state : Str × Option Nat) : Prop :=
  ∃ done rest, state.1 = done ++ rest ∧
    state.2 = (indexOf? searched rest).map (· + done.length) ∧
    done ++ replaceAll searched replaceStr rest = replaceAll searched replaceStr input

/-- What is behind the position. -/
def unread : Str × Option Nat → Nat
  | (input, some pos) => input.length - pos + 1
  | (_, none) => 0

theorem Rewrites.goes (nonempty : searched ≠ []) {input : Str} {state next : Str × Option Nat}
    (rewrites : Rewrites searched replaceStr input state)
    (goes : replaceTurn searched replaceStr state = .inl next) :
    Rewrites searched replaceStr input next ∧ unread next < unread state := by
  obtain ⟨text, pos⟩ := state
  obtain ⟨done, rest, rfl, rfl, whole⟩ := rewrites
  cases found : indexOf? searched rest with
  | none =>
      simp only [found, Option.map_none, replaceTurn] at goes
      cases goes
  | some pos =>
      obtain ⟨before, later, split, length, spliced, behind, replaced⟩ :=
        replace_occurrence nonempty replaceStr done found
      simp only [found, Option.map_some, replaceTurn, spliced] at goes
      obtain rfl := Sum.inl.inj goes
      rw [behind, findFrom_append]
      refine ⟨⟨done ++ before ++ replaceStr, later, rfl, rfl, ?_⟩, ?_⟩
      · rw [← whole, replaced]
        simp only [List.append_assoc]
      · have positive := List.length_pos_iff.mpr nonempty
        have lengths := congrArg List.length split
        simp only [List.length_append] at lengths
        cases indexOf? searched later with
        | none => simp [unread]
        | some next =>
            simp only [unread, Option.map_some, List.length_append]
            omega

theorem Rewrites.leaves {input result : Str} {state : Str × Option Nat}
    (rewrites : Rewrites searched replaceStr input state)
    (left : replaceTurn searched replaceStr state = .inr result) :
    result = replaceAll searched replaceStr input := by
  obtain ⟨text, pos⟩ := state
  obtain ⟨done, rest, rfl, rfl, whole⟩ := rewrites
  cases found : indexOf? searched rest with
  | none =>
      simp only [found, Option.map_none, replaceTurn] at left
      rw [← Sum.inr.inj left, ← whole,
        replaceAll_of_not_occurs replaceStr (indexOf?_eq_none.mp found)]
  | some pos =>
      simp only [found, Option.map_some, replaceTurn] at left
      cases left

/-- `findAndReplaceAll` ends with all occurrences replaced from left to right. -/
theorem findAndReplaceAll_ends (nonempty : searched ≠ []) (input : Str) :
    Ends (replaceTurn searched replaceStr) (input, findFrom input searched 0)
      (findAndReplaceAll input searched replaceStr) := by
  have initial : Rewrites searched replaceStr input (input, findFrom input searched 0) :=
    ⟨[], input, rfl, by simp [findFrom_zero], rfl⟩
  obtain ⟨result, ends, isResult⟩ := ends_of_variant unread
    (fun rewrites goes => rewrites.goes replaceStr nonempty goes)
    (fun rewrites left => rewrites.leaves replaceStr left) initial
  rw [findAndReplaceAll_eq nonempty, ← isResult]
  exact ends

end Replacing

/-- `findAndReplaceAll` ends for every text searched that is not empty, and joins what
`divide_str` leaves between the leftmost occurrences with the replacement. -/
theorem findAndReplaceAll_joins_divideStr (input replaceStr : Str) {searched : Str}
    (nonempty : searched ≠ []) :
    Ends (replaceTurn searched replaceStr) (input, findFrom input searched 0)
        (findAndReplaceAll input searched replaceStr) ∧
      Ends (divideTurn searched) (input, []) (divideStr input searched) ∧
      LeftmostPieces searched input (divideStr input searched) ∧
      findAndReplaceAll input searched replaceStr =
        replaceStr.intercalate (divideStr input searched) := by
  obtain ⟨ends, cut⟩ := divideStr_ends nonempty input
  refine ⟨findAndReplaceAll_ends replaceStr nonempty input, ends, cut, ?_⟩
  rw [findAndReplaceAll_eq nonempty, cut.replaceAll_eq nonempty]

/-- A replacement that has what is searched in it, searched in overlapping occurrences. -/
theorem findAndReplaceAll_joins_divideStr_overlapping :
    findAndReplaceAll "aaabaa".toList "aa".toList "aaa".toList =
      "aaa".toList.intercalate (divideStr "aaabaa".toList "aa".toList) :=
  have nonempty : "aa".toList ≠ [] := by decide
  (findAndReplaceAll_joins_divideStr "aaabaa".toList "aaa".toList nonempty).2.2.2

/-! ### Dividing at one character -/

/-- Dividing at a character and joining with it undo each other. -/
theorem divideStr_vecOfstr2str_inverse (d : Char) :
    (∀ s, vecOfstr2str (divideStr s [d]) [d] = s) ∧
      ∀ list, list ≠ [] → (∀ item ∈ list, d ∉ item) →
        divideStr (vecOfstr2str list [d]) [d] = list := by
  constructor
  · intro s
    rw [vecOfstr2str_eq, divideStr_eq, List.intercalate_splitOn]
  · intro list some clean
    rw [vecOfstr2str_eq, divideStr_eq, List.splitOn_intercalate d clean some]

theorem divideStr_vecOfstr2str_inverse_emptyItems :
    divideStr (vecOfstr2str [[], "x".toList, [], []] ",".toList) ",".toList =
      [[], "x".toList, [], []] :=
  (divideStr_vecOfstr2str_inverse ',').2 _ (by decide) (by decide)

end Policer.Backend
