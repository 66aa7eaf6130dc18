import Policer.Lib.Substring

/-!
# The pieces between occurrences

A list cut at the leftmost occurrences of another that do not overlap. Joined with
something else the pieces are the list with every occurrence replaced.
-/

namespace Policer.Lib

variable {α : Type}

/-- A list is cut at each leftmost occurrence, and what is behind it is cut further. -/
inductive LeftmostPieces (searched : List α) : List α → List (List α) → Prop where
  | last {input : List α} (absent : ¬ searched <:+: input) : LeftmostPieces searched input [input]
  | cut {before rest : List α} {pieces : List (List α)}
      (leftmost : ∀ start < before.length, ¬ searched <+: (before ++ searched ++ rest).drop start)
      (behind : LeftmostPieces searched rest pieces) :
      LeftmostPieces searched (before ++ searched ++ rest) (before :: pieces)

namespace LeftmostPieces

variable {searched input : List α} {pieces : List (List α)}

theorem ne_nil (cut : LeftmostPieces searched input pieces) : pieces ≠ [] := by
  cases cut <;> simp

/-- The pieces joined with something else have it in the place of every occurrence. -/
theorem replaceAll_eq [DecidableEq α] (nonempty : searched ≠ []) (replacement : List α)
    (cut : LeftmostPieces searched input pieces) :
    replaceAll searched replacement input = replacement.intercalate pieces := by
  induction cut with
  | last absent => rw [replaceAll_of_not_occurs replacement absent, List.intercalate_singleton]
  | @cut before rest pieces leftmost behind inductionHypothesis =>
      have kept : replaceAll searched replacement (before ++ (searched ++ rest)) =
          before ++ replaceAll searched replacement (searched ++ rest) := by
        refine replaceAll_append_of_absent replacement _ fun left right some split => ?_
        have inside : left.length < before.length := by
          have := List.length_pos_iff.mpr some
          rw [split, List.length_append]
          omega
        have absent := leftmost left.length inside
        rwa [split, List.append_assoc, List.append_assoc, List.drop_left] at absent
      rw [List.append_assoc, kept, replaceAll_append replacement nonempty, inductionHypothesis,
        List.intercalate_cons_of_ne_nil behind.ne_nil, List.append_assoc]

end LeftmostPieces

/-- Before the first index at which a list occurs it occurs at none. -/
theorem indexOf?_leftmost [DecidableEq α] {searched input : List α} {pos : Nat}
    (found : indexOf? searched input = some pos) :
    ∀ start < pos, ¬ searched <+: input.drop start := by
  induction input generalizing pos with
  | nil =>
      by_cases empty : searched = []
      · obtain rfl : 0 = pos := by simpa [indexOf?, empty] using found
        omega
      · simp [indexOf?, empty] at found
  | cons c rest inductionHypothesis =>
      by_cases here : searched <+: c :: rest
      · obtain rfl : 0 = pos := by simpa [indexOf?, here] using found
        omega
      · simp only [indexOf?, List.isPrefixOf_iff_prefix, here, if_false, Option.map_eq_some_iff]
          at found
        obtain ⟨later, isLater, rfl⟩ := found
        intro start before
        cases start with
        | zero => exact here
        | succ start => exact inductionHypothesis isLater start (by omega)

end Policer.Lib
