/-!
# Parsers with expectation points

Ordered choice without backtracking into a finished choice, and expectation points: where what is
expected does not match, the whole parse fails and no other choice is tried. A parser that aborts
ends the program it runs in.
-/

namespace Policer.Lib.Expectation

variable {σ α β : Type}

/-- How a parser ends. `failed` is a failure at an expectation point. -/
inductive Outcome (σ α : Type) where
  | noMatch
  | failed
  | aborted
  | matched (value : α) (rest : List σ)
deriving DecidableEq, Repr

/-- A parser reads off the front of a text. -/
abbrev Parser (σ α : Type) := List σ → Outcome σ α

namespace Parser

/-- What is made of a match. -/
def map (f : α → β) (parser : Parser σ α) : Parser σ β := fun text =>
  match parser text with
  | .noMatch => .noMatch
  | .failed => .failed
  | .aborted => .aborted
  | .matched value rest => .matched (f value) rest

/-- Ordered choice. -/
def orElse (first second : Parser σ α) : Parser σ α := fun text =>
  match first text with
  | .noMatch => second text
  | other => other

/-- A match and what is read behind it. -/
def andThen (first : Parser σ α) (second : α → Parser σ β) : Parser σ β := fun text =>
  match first text with
  | .noMatch => .noMatch
  | .failed => .failed
  | .aborted => .aborted
  | .matched value rest => second value rest

/-- An expectation point. -/
def expect (parser : Parser σ α) : Parser σ α := fun text =>
  match parser text with
  | .noMatch => .failed
  | other => other

/-- A match, or nothing. -/
def optional (parser : Parser σ α) : Parser σ (Option α) := fun text =>
  match parser text with
  | .noMatch => .matched none text
  | .failed => .failed
  | .aborted => .aborted
  | .matched value rest => .matched (some value) rest

/-- At most `fuel` matches in a row. -/
def manyUpTo (parser : Parser σ α) : Nat → Parser σ (List α)
  | 0 => fun text => .matched [] text
  | fuel + 1 => fun text =>
      match parser text with
      | .noMatch => .matched [] text
      | .failed => .failed
      | .aborted => .aborted
      | .matched value rest => manyUpTo parser fuel |>.map (value :: ·) <| rest

/-- Matches in a row, each of which reads something. -/
def many (parser : Parser σ α) : Parser σ (List α) := fun text =>
  manyUpTo parser (text.length + 1) text

section Rules

variable {parser first second : Parser σ α} {text rest : List σ} {value : α}

theorem map_of_matched (f : α → β) (reads : parser text = .matched value rest) :
    parser.map f text = .matched (f value) rest := by
  rw [map, reads]

theorem map_eq_matched {f : α → β} {made : β} :
    parser.map f text = .matched made rest ↔
      ∃ value, parser text = .matched value rest ∧ f value = made := by
  unfold map
  cases parser text with
  | noMatch | failed | aborted => simp
  | matched value other =>
      simp only [Outcome.matched.injEq]
      constructor
      · exact fun same => ⟨value, ⟨rfl, same.2⟩, same.1⟩
      · rintro ⟨_, ⟨rfl, same⟩, made⟩
        exact ⟨made, same⟩

theorem map_eq_aborted_of_aborted {f : α → β} (aborts : parser text = .aborted) :
    parser.map f text = .aborted := by
  rw [map, aborts]

theorem map_eq_noMatch {f : α → β} : parser.map f text = .noMatch ↔ parser text = .noMatch := by
  unfold map
  cases parser text <;> simp

theorem orElse_of_noMatch (fails : first text = .noMatch) :
    first.orElse second text = second text := by
  rw [orElse, fails]

theorem orElse_noMatch (fails : second text = .noMatch) :
    first.orElse second text = first text := by
  rw [orElse]
  split
  · rename_i none
    rw [fails, none]
  · rfl

theorem orElse_of_matched (reads : first text = .matched value rest) :
    first.orElse second text = .matched value rest := by
  rw [orElse, reads]

theorem andThen_of_matched {next : α → Parser σ β} (reads : parser text = .matched value rest) :
    parser.andThen next text = next value rest := by
  rw [andThen, reads]

theorem andThen_eq_noMatch_of_noMatch {next : α → Parser σ β} (fails : parser text = .noMatch) :
    parser.andThen next text = .noMatch := by
  rw [andThen, fails]

theorem andThen_eq_aborted_of_aborted {next : α → Parser σ β} (aborts : parser text = .aborted) :
    parser.andThen next text = .aborted := by
  rw [andThen, aborts]

theorem andThen_eq_matched {next : α → Parser σ β} {made : β} :
    parser.andThen next text = .matched made rest ↔
      ∃ value middle, parser text = .matched value middle ∧
        next value middle = .matched made rest := by
  unfold andThen
  cases parser text with
  | noMatch | failed | aborted => simp
  | matched value other =>
      simp only [Outcome.matched.injEq]
      constructor
      · exact fun made => ⟨value, other, ⟨rfl, rfl⟩, made⟩
      · rintro ⟨_, _, ⟨rfl, rfl⟩, made⟩
        exact made

theorem orElse_eq_matched :
    first.orElse second text = .matched value rest ↔
      first text = .matched value rest ∨
        first text = .noMatch ∧ second text = .matched value rest := by
  unfold orElse
  cases first text <;> simp

theorem expect_eq_matched :
    parser.expect text = .matched value rest ↔ parser text = .matched value rest := by
  unfold expect
  cases parser text <;> simp

theorem optional_eq_matched {made : Option α} :
    parser.optional text = .matched made rest ↔
      (parser text = .noMatch ∧ made = none ∧ text = rest) ∨
        ∃ value, parser text = .matched value rest ∧ made = some value := by
  unfold optional
  cases parser text with
  | noMatch | failed | aborted => simp [eq_comm]
  | matched value other =>
      simp only [Outcome.matched.injEq, reduceCtorEq, false_and, false_or]
      constructor
      · rintro ⟨rfl, rfl⟩
        exact ⟨value, ⟨rfl, rfl⟩, rfl⟩
      · rintro ⟨_, ⟨rfl, rfl⟩, rfl⟩
        exact ⟨rfl, rfl⟩

theorem expect_of_matched (reads : parser text = .matched value rest) :
    parser.expect text = .matched value rest := by
  rw [expect, reads]

theorem optional_of_noMatch (fails : parser text = .noMatch) :
    parser.optional text = .matched none text := by
  rw [optional, fails]

theorem optional_of_matched (reads : parser text = .matched value rest) :
    parser.optional text = .matched (some value) rest := by
  rw [optional, reads]

theorem many_of_noMatch (fails : parser text = .noMatch) : parser.many text = .matched [] text := by
  simp only [many, manyUpTo, fails]

end Rules

/-! ### Matches in a row -/

/-- The values of matches in a row, each of which reads something, up to where there is none. -/
inductive Chain (parser : Parser σ α) : List α → List σ → List σ → Prop where
  | nil {text : List σ} (fails : parser text = .noMatch) : Chain parser [] text text
  | cons {value : α} {values : List α} {text middle rest : List σ}
      (reads : parser text = .matched value middle) (shorter : middle.length < text.length)
      (later : Chain parser values middle rest) : Chain parser (value :: values) text rest

section Chain

variable {parser : Parser σ α} {values : List α} {text rest : List σ}

theorem manyUpTo_of_chain (chain : Chain parser values text rest) :
    ∀ fuel, text.length < fuel → parser.manyUpTo fuel text = .matched values rest := by
  induction chain with
  | nil fails =>
      rintro (_ | fuel) enough
      · cases enough
      · simp only [manyUpTo, fails]
  | cons reads shorter later ih =>
      rintro (_ | fuel) enough
      · cases enough
      · simp only [manyUpTo, reads, map, ih fuel (by omega)]

theorem many_of_chain (chain : Chain parser values text rest) :
    parser.many text = .matched values rest :=
  manyUpTo_of_chain chain _ (Nat.lt_succ_self _)

theorem manyUpTo_succ_eq_matched {fuel : Nat} :
    parser.manyUpTo (fuel + 1) text = .matched values rest ↔
      (parser text = .noMatch ∧ values = [] ∧ text = rest) ∨
        ∃ value middle later, parser text = .matched value middle ∧
          parser.manyUpTo fuel middle = .matched later rest ∧ values = value :: later := by
  simp only [manyUpTo]
  cases parser text with
  | noMatch | failed | aborted => simp [eq_comm]
  | matched value middle =>
      rw [map_eq_matched]
      constructor
      · rintro ⟨later, isLater, rfl⟩
        exact Or.inr ⟨value, middle, later, rfl, isLater, rfl⟩
      · rintro (⟨none, _⟩ | ⟨_, _, later, same, isLater, rfl⟩)
        · cases none
        · cases same
          exact ⟨later, isLater, rfl⟩

end Chain

end Parser

end Policer.Lib.Expectation
