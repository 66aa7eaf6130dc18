import Mathlib.Data.List.Infix
import Mathlib.Data.List.Induction

/-!
# Searching and replacing in lists

The first place where one list occurs in another, from a position on, as
`std::string::find` gives it, and the replacement of all occurrences from left to
right. `replaceAll_induction` is the induction along that replacement.
-/

namespace Policer.Lib

variable {α : Type} [DecidableEq α]

/-! ### Searching -/

/-- The first index at which `searched` occurs. -/
def indexOf? (searched : List α) : List α → Option Nat
  | [] => if searched = [] then some 0 else none
  | c :: rest =>
      if searched.isPrefixOf (c :: rest) then some 0 else (indexOf? searched rest).map (· + 1)

/-- The first index from `pos` on at which `searched` occurs. -/
def findFrom (input searched : List α) (pos : Nat) : Option Nat :=
  if pos ≤ input.length then (indexOf? searched (input.drop pos)).map (· + pos) else none

theorem findFrom_zero (input searched : List α) :
    findFrom input searched 0 = indexOf? searched input := by
  simp [findFrom]

theorem findFrom_append (done rest searched : List α) :
    findFrom (done ++ rest) searched done.length =
      (indexOf? searched rest).map (· + done.length) := by
  simp [findFrom]

/-- A list that occurs nowhere is not found. -/
theorem indexOf?_eq_none {searched input : List α} :
    indexOf? searched input = none ↔ ¬ searched <:+: input := by
  induction input with
  | nil => simp [indexOf?]
  | cons c rest ih =>
      by_cases here : searched <+: c :: rest
      · simp [indexOf?, here, List.infix_cons_iff]
      · simp [indexOf?, here, List.infix_cons_iff, ih]

theorem isSome_indexOf? {searched input : List α} :
    (indexOf? searched input).isSome = true ↔ searched <:+: input := by
  rw [← not_iff_not, ← indexOf?_eq_none]
  simp

/-- One element is found behind a list without it. -/
theorem indexOf?_singleton {c : α} {before : List α} (fresh : c ∉ before) (rest : List α) :
    indexOf? [c] (before ++ c :: rest) = some before.length := by
  induction before with
  | nil => simp [indexOf?]
  | cons head tail ih =>
      simp only [List.mem_cons, not_or] at fresh
      simp [indexOf?, fresh.1, ih fresh.2]

theorem indexOf?_singleton_eq_none {c : α} {input : List α} :
    indexOf? [c] input = none ↔ c ∉ input := by
  rw [indexOf?_eq_none, List.singleton_infix_iff]

/-! ### Replacing -/

/-- All occurrences are replaced, `skip` elements of an occurrence being left. -/
def replaceFrom (searched replacement : List α) : Nat → List α → List α
  | _, [] => []
  | skip + 1, _ :: rest => replaceFrom searched replacement skip rest
  | 0, c :: rest =>
      if searched.isPrefixOf (c :: rest) then
        replacement ++ replaceFrom searched replacement (searched.length - 1) rest
      else c :: replaceFrom searched replacement 0 rest

/-- All occurrences are replaced from left to right. -/
def replaceAll (searched replacement input : List α) : List α :=
  replaceFrom searched replacement 0 input

variable {searched : List α} (replacement : List α)

theorem replaceFrom_eq_drop (skip : Nat) (input : List α) :
    replaceFrom searched replacement skip input =
      replaceAll searched replacement (input.drop skip) := by
  induction input generalizing skip with
  | nil => cases skip <;> rfl
  | cons c rest ih =>
      cases skip with
      | zero => rfl
      | succ n => exact ih n

@[simp] theorem replaceAll_nil : replaceAll searched replacement [] = [] := rfl

/-- What no occurrence starts at is kept. -/
theorem replaceAll_cons {c : α} {rest : List α} (absent : ¬ searched <+: c :: rest) :
    replaceAll searched replacement (c :: rest) = c :: replaceAll searched replacement rest := by
  rw [replaceAll, replaceFrom, if_neg (by simpa using absent)]
  rfl

/-- An occurrence is replaced as a whole. -/
theorem replaceAll_append (nonempty : searched ≠ []) (rest : List α) :
    replaceAll searched replacement (searched ++ rest) =
      replacement ++ replaceAll searched replacement rest := by
  cases searched with
  | nil => exact absurd rfl nonempty
  | cons c tail =>
      have here : (c :: tail).isPrefixOf (c :: (tail ++ rest)) = true := by simp
      rw [replaceAll, List.cons_append, replaceFrom, if_pos here, replaceFrom_eq_drop]
      simp

/-- Induction along the replacement: an occurrence is passed at once. -/
theorem replaceAll_induction {motive : List α → Prop} (nonempty : searched ≠ [])
    (nil : motive [])
    (keep : ∀ c rest, ¬ searched <+: c :: rest → motive rest → motive (c :: rest))
    (replace : ∀ rest, motive rest → motive (searched ++ rest)) (input : List α) :
    motive input := by
  induction size : input.length using Nat.strong_induction_on generalizing input with
  | _ n shorter =>
      cases input with
      | nil => exact nil
      | cons c rest =>
          by_cases here : searched <+: c :: rest
          · obtain ⟨suffix, isSuffix⟩ := here
            have positive := List.length_pos_iff.mpr nonempty
            have lengths := congrArg List.length isSuffix
            rw [List.length_append, size] at lengths
            exact isSuffix ▸ replace suffix (shorter suffix.length (by omega) suffix rfl)
          · simp only [List.length_cons] at size
            exact keep c rest here (shorter rest.length (by omega) rest rfl)

theorem replaceAll_of_not_occurs {input : List α} (absent : ¬ searched <:+: input) :
    replaceAll searched replacement input = input := by
  induction input with
  | nil => rfl
  | cons c rest ih =>
      rw [List.infix_cons_iff, not_or] at absent
      rw [replaceAll_cons replacement absent.1, ih absent.2]

/-- Where no occurrence starts, everything is kept. -/
theorem replaceAll_append_of_absent {front : List α} (rest : List α)
    (absent : ∀ left right, right ≠ [] → front = left ++ right → ¬ searched <+: right ++ rest) :
    replaceAll searched replacement (front ++ rest) =
      front ++ replaceAll searched replacement rest := by
  induction front with
  | nil => rfl
  | cons c tail ih =>
      have here : ¬ searched <+: c :: (tail ++ rest) := absent [] (c :: tail) (by simp) rfl
      rw [List.cons_append, replaceAll_cons replacement here, ih, List.cons_append]
      intro left right some split
      exact absent (c :: left) right some (by rw [split, List.cons_append])

/-- No occurrence goes across an element it does not have. -/
theorem replaceAll_append_of_notMem (nonempty : searched ≠ []) {c : α} (outside : c ∉ searched)
    (front rest : List α) :
    replaceAll searched replacement (front ++ c :: rest) =
      replaceAll searched replacement front ++ replaceAll searched replacement (c :: rest) := by
  induction front using replaceAll_induction nonempty with
  | nil => rfl
  | keep head tail absent ih =>
      have still : ¬ searched <+: head :: (tail ++ c :: rest) := by
        intro here
        have front : head :: tail <+: head :: (tail ++ c :: rest) :=
          List.prefix_append (head :: tail) _
        rcases List.prefix_or_prefix_of_prefix here front with inside | ⟨across, isAcross⟩
        · exact absent inside
        · obtain ⟨behind, whole⟩ := here
          rw [← isAcross, List.append_assoc] at whole
          have later : across ++ behind = c :: rest :=
            List.append_cancel_left (whole.trans (List.cons_append ..).symm)
          cases across with
          | nil => exact absent (by rw [← isAcross, List.append_nil])
          | cons next more =>
              obtain ⟨rfl, _⟩ := List.cons.inj later
              exact outside (by rw [← isAcross]; simp)
      rw [List.cons_append, replaceAll_cons replacement still, ih,
        replaceAll_cons replacement absent,
        List.cons_append]
  | replace tail ih =>
      rw [List.append_assoc, replaceAll_append replacement nonempty, ih,
        replaceAll_append replacement nonempty, List.append_assoc]

theorem replaceAll_self (nonempty : searched ≠ []) :
    replaceAll searched replacement searched = replacement := by
  simpa using replaceAll_append replacement nonempty []

theorem replaceAll_same (nonempty : searched ≠ []) (input : List α) :
    replaceAll searched searched input = input := by
  induction input using replaceAll_induction nonempty with
  | nil => rfl
  | keep head rest absent ih => rw [replaceAll_cons searched absent, ih]
  | replace rest ih => rw [replaceAll_append searched nonempty, ih]

/-- The first occurrence is replaced, and then the others. -/
theorem replaceAll_of_indexOf? (nonempty : searched ≠ []) {input : List α} {pos : Nat}
    (found : indexOf? searched input = some pos) :
    ∃ before rest, input = before ++ searched ++ rest ∧ before.length = pos ∧
      replaceAll searched replacement input =
        before ++ replacement ++ replaceAll searched replacement rest := by
  induction input generalizing pos with
  | nil => simp [indexOf?, nonempty] at found
  | cons c rest ih =>
      by_cases here : searched <+: c :: rest
      · have starts : indexOf? searched (c :: rest) = some 0 :=
          if_pos (List.isPrefixOf_iff_prefix.mpr here)
        obtain rfl : 0 = pos := Option.some.inj (starts.symm.trans found)
        obtain ⟨suffix, isSuffix⟩ := here
        refine ⟨[], suffix, by simp [isSuffix], rfl, ?_⟩
        rw [← isSuffix, replaceAll_append replacement nonempty]
        rfl
      · simp only [indexOf?, List.isPrefixOf_iff_prefix, here, if_false, Option.map_eq_some_iff]
          at found
        obtain ⟨later, isLater, rfl⟩ := found
        obtain ⟨before, suffix, split, length, replaced⟩ := ih isLater
        refine ⟨c :: before, suffix, by simp [split], by simp [length], ?_⟩
        rw [replaceAll_cons replacement here, replaced]
        simp

theorem mem_replaceAll (nonempty : searched ≠ []) {c : α} {input : List α}
    (member : c ∈ replaceAll searched replacement input) : c ∈ input ∨ c ∈ replacement := by
  induction input using replaceAll_induction nonempty with
  | nil => cases member
  | keep head rest absent ih =>
      rw [replaceAll_cons replacement absent] at member
      rcases List.mem_cons.mp member with rfl | later
      · exact Or.inl List.mem_cons_self
      · exact (ih later).imp_left (List.mem_cons_of_mem _)
  | replace rest ih =>
      rw [replaceAll_append replacement nonempty] at member
      rcases List.mem_append.mp member with isNew | later
      · exact Or.inr isNew
      · exact (ih later).imp_left (List.mem_append_right _)

/-- A replacement that is no longer makes nothing longer. -/
theorem length_replaceAll_le (nonempty : searched ≠ [])
    (shorter : replacement.length ≤ searched.length) (input : List α) :
    (replaceAll searched replacement input).length ≤ input.length := by
  induction input using replaceAll_induction nonempty with
  | nil => simp
  | keep head rest absent ih => simpa [replaceAll_cons replacement absent] using ih
  | replace rest ih =>
      rw [replaceAll_append replacement nonempty, List.length_append, List.length_append]
      omega

/-- A replacement that is no shorter makes nothing shorter. -/
theorem le_length_replaceAll (nonempty : searched ≠ [])
    (longer : searched.length ≤ replacement.length) (input : List α) :
    input.length ≤ (replaceAll searched replacement input).length := by
  induction input using replaceAll_induction nonempty with
  | nil => simp
  | keep head rest absent ih => simpa [replaceAll_cons replacement absent] using ih
  | replace rest ih =>
      rw [replaceAll_append replacement nonempty, List.length_append, List.length_append]
      omega

theorem eq_of_replaceAll_eq (nonempty : searched ≠ []) {input : List α}
    (occurs : searched <:+: input) (same : replaceAll searched replacement input = input) :
    replacement = searched := by
  obtain ⟨pos, found⟩ := Option.isSome_iff_exists.mp (isSome_indexOf?.mpr occurs)
  obtain ⟨before, rest, split, _, replaced⟩ := replaceAll_of_indexOf? replacement nonempty found
  rw [same, split, List.append_assoc, List.append_assoc] at replaced
  have tails := List.append_cancel_left replaced
  have lengths := congrArg List.length tails
  simp only [List.length_append] at lengths
  rcases Nat.le_total replacement.length searched.length with shorter | longer
  · have rests := length_replaceAll_le replacement nonempty shorter rest
    exact (List.append_inj_left tails (by omega)).symm
  · have rests := le_length_replaceAll replacement nonempty longer rest
    exact (List.append_inj_left tails (by omega)).symm

/-- A replacement changes nothing when nothing occurs, or the same is put in its place. -/
theorem replaceAll_eq_self_iff (nonempty : searched ≠ []) {input : List α} :
    replaceAll searched replacement input = input ↔
      (searched <:+: input → replacement = searched) := by
  refine ⟨fun same occurs => eq_of_replaceAll_eq replacement nonempty occurs same,
    fun harmless => ?_⟩
  by_cases occurs : searched <:+: input
  · rw [harmless occurs, replaceAll_same nonempty]
  · exact replaceAll_of_not_occurs replacement occurs

end Policer.Lib
