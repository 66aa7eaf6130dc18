import Mathlib.Data.List.Basic

/-!
# Tokens between delimiters

The nonempty pieces of a list between the occurrences of a delimiter, as successive
calls of `strtok` give them.
-/

namespace Policer.Lib

variable {α : Type} [DecidableEq α]

/-- The nonempty pieces of `input` between delimiters. -/
def tokens (delimiter : α) (input : List α) : List (List α) :=
  (input.splitOnP (· == delimiter)).filter fun piece => !piece.isEmpty

@[simp] theorem tokens_nil (delimiter : α) : tokens delimiter [] = [] := rfl

/-- A delimiter separates the tokens of both sides. -/
theorem tokens_append_cons (delimiter : α) (before after : List α) :
    tokens delimiter (before ++ delimiter :: after) =
      tokens delimiter before ++ tokens delimiter after := by
  simp [tokens, List.splitOnP_append_cons]

/-- A delimiter in front changes nothing. -/
@[simp] theorem tokens_cons_self (delimiter : α) (input : List α) :
    tokens delimiter (delimiter :: input) = tokens delimiter input :=
  tokens_append_cons delimiter [] input

/-- A nonempty text without delimiters is one token. -/
theorem tokens_word {delimiter : α} {word : List α} (nonempty : word ≠ [])
    (clean : delimiter ∉ word) : tokens delimiter word = [word] := by
  have none : ∀ c ∈ word, (c == delimiter) = false := by
    intro c member
    simp only [beq_eq_false_iff_ne]
    rintro rfl
    exact clean member
  simp [tokens, List.splitOnP_eq_singleton none, nonempty]

/-- A nonempty text without delimiters up to a delimiter is one token. -/
theorem tokens_word_append {delimiter : α} {word : List α} (nonempty : word ≠ [])
    (clean : delimiter ∉ word) (rest : List α) :
    tokens delimiter (word ++ delimiter :: rest) = word :: tokens delimiter rest := by
  rw [tokens_append_cons, tokens_word nonempty clean, List.singleton_append]

/-! ### Joining -/

theorem intercalate_cons_eq {α : Type} (c : α) (head : List α) (tail : List (List α)) :
    [c].intercalate (head :: tail) = head ++ tail.flatMap fun item => [c] ++ item := by
  induction tail generalizing head with
  | nil => simp
  | cons next rest ih =>
      rw [List.intercalate_cons_cons, ih next, List.flatMap_cons]
      simp only [List.append_assoc]

/-- Joined texts are divided where each of them is. -/
theorem splitOn_intercalate_flatMap (c : α) {texts : List (List α)} (some : texts ≠ []) :
    ([c].intercalate texts).splitOn c = texts.flatMap fun text => text.splitOn c := by
  induction texts with
  | nil => exact absurd rfl some
  | cons head tail ih =>
      by_cases last : tail = []
      · simp [last]
      · rw [List.intercalate_cons_of_ne_nil last, List.append_assoc, List.singleton_append,
          List.splitOn_append_cons_self, ih last, List.flatMap_cons]

/-- A part of a divided text has no delimiter in it. -/
theorem of_mem_splitOn {c : α} {text part : List α} (member : part ∈ text.splitOn c) :
    c ∉ part ∧ part ⊆ text := by
  induction text generalizing part with
  | nil =>
      obtain rfl : part = [] := by simpa using member
      simp
  | cons head tail ih =>
      obtain ⟨first, others, split⟩ := List.exists_cons_of_ne_nil (List.splitOn_ne_nil c tail)
      rw [List.splitOn_cons_eq_if_modifyHead, split] at member
      split at member
      · rcases List.mem_cons.mp member with rfl | later
        · simp
        · have inside := ih (split ▸ later)
          exact ⟨inside.1, fun x isIn => List.mem_cons_of_mem _ (inside.2 isIn)⟩
      · rename_i differs
        rcases List.mem_cons.mp member with rfl | later
        · have inside := ih (split ▸ List.mem_cons_self)
          refine ⟨fun isIn => ?_, fun x isIn => ?_⟩
          · rcases List.mem_cons.mp isIn with rfl | rest
            · exact differs (by simp)
            · exact inside.1 rest
          · rcases List.mem_cons.mp isIn with rfl | rest
            · exact List.mem_cons_self
            · exact List.mem_cons_of_mem _ (inside.2 rest)
        · have inside := ih (split ▸ List.mem_cons_of_mem _ later)
          exact ⟨inside.1, fun x isIn => List.mem_cons_of_mem _ (inside.2 isIn)⟩

/-- Parts with a separator behind each are the joined parts with one more behind them. -/
theorem foldl_separator {α : Type} (c : α) (head : List α) (tail : List (List α))
    (front : List α) :
    (head :: tail).foldl (fun output item => output ++ item ++ [c]) front =
      front ++ [c].intercalate (head :: tail) ++ [c] := by
  induction tail generalizing head front with
  | nil => simp
  | cons next rest ih =>
      rw [List.foldl_cons, ih next, List.intercalate_cons_cons]
      simp only [List.append_assoc]

/-- A joined text has the separator and what the parts have. -/
theorem mem_intercalate {α : Type} {separator c : α} {texts : List (List α)}
    (member : c ∈ [separator].intercalate texts) : c = separator ∨ ∃ text ∈ texts, c ∈ text := by
  cases texts with
  | nil => cases member
  | cons head tail =>
      rw [intercalate_cons_eq, List.mem_append, List.mem_flatMap] at member
      rcases member with inHead | ⟨text, inTail, inside⟩
      · exact Or.inr ⟨head, List.mem_cons_self, inHead⟩
      · rcases List.mem_cons.mp inside with isSeparator | inText
        · exact Or.inl isSeparator
        · exact Or.inr ⟨text, List.mem_cons_of_mem _ inTail, inText⟩

end Policer.Lib
