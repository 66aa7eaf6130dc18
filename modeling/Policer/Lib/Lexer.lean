import Mathlib.Data.List.Basic
import Mathlib.Data.Nat.Find

/-!
# Longest-match scanning

A scanner given by an ordered list of rules, each a decidable language: at every
position the rule with the longest match wins, and among equals the first one.
`scanOne_eq_some` characterises a match without the search, and
`lexemes_flatten` says that the lexemes cover the text.
-/

namespace Policer.Lib.Lexer

variable {α ρ : Type}

/-- A decidable language over `α`. -/
abbrev Lang (α : Type) := List α → Bool

/-- The language of one word. -/
def word [DecidableEq α] (w : List α) : Lang α := fun s => s == w

/-- The language of the words of a list. -/
def words [DecidableEq α] (ws : List (List α)) : Lang α := fun s => ws.contains s

/-- One or more symbols of a class. -/
def plus (cls : α → Bool) : Lang α := fun s => !s.isEmpty && s.all cls

/-- Concatenation. -/
def cat (p q : Lang α) : Lang α := fun s =>
  (List.range (s.length + 1)).any fun n => p (s.take n) && q (s.drop n)

/-- Union. -/
def either (p q : Lang α) : Lang α := fun s => p s || q s

theorem cat_iff {p q : Lang α} {s : List α} :
    cat p q s = true ↔ ∃ front back, s = front ++ back ∧ p front = true ∧ q back = true := by
  simp only [cat, List.any_eq_true, List.mem_range, Bool.and_eq_true]
  constructor
  · rintro ⟨n, _, front, back⟩
    exact ⟨s.take n, s.drop n, (List.take_append_drop n s).symm, front, back⟩
  · rintro ⟨front, back, rfl, holdsFront, holdsBack⟩
    have inside : front.length < (front ++ back).length + 1 := by
      rw [List.length_append]
      omega
    exact ⟨front.length, inside, by simpa using holdsFront, by simpa using holdsBack⟩

@[simp] theorem word_iff [DecidableEq α] {w s : List α} : word w s = true ↔ s = w := by
  simp [word]

@[simp] theorem words_iff [DecidableEq α] {ws : List (List α)} {s : List α} :
    words ws s = true ↔ s ∈ ws := by
  simp [words]

@[simp] theorem plus_iff {cls : α → Bool} {s : List α} :
    plus cls s = true ↔ s ≠ [] ∧ ∀ c ∈ s, cls c = true := by
  simp [plus]

@[simp] theorem either_iff {p q : Lang α} {s : List α} :
    either p q s = true ↔ p s = true ∨ q s = true := by
  simp [either]

/-- Length of the longest prefix in a language; `0` when no nonempty prefix is. -/
def longest (p : Lang α) (s : List α) : Nat :=
  Nat.findGreatest (fun n => p (s.take n) = true) s.length

/-- The winning rule at the head of a text with the length of its match. -/
def scanOne : List (ρ × Lang α) → List α → Option (ρ × Nat)
  | [], _ => none
  | (rule, p) :: rest, s =>
      match scanOne rest s with
      | none => if longest p s = 0 then none else some (rule, longest p s)
      | some (other, m) => if m ≤ longest p s then some (rule, longest p s) else some (other, m)

/-- No rule of a list accepts a prefix longer than `n`. -/
def NoneLonger (rules : List (ρ × Lang α)) (s : List α) (n : Nat) : Prop :=
  ∀ entry ∈ rules, ∀ m, n < m → m ≤ s.length → entry.2 (s.take m) = false

/-- `n` symbols of `s` are the match of `rule`: nothing matches more, and no earlier
rule matches as much. -/
structure Wins (rules : List (ρ × Lang α)) (s : List α) (rule : ρ) (n : Nat) : Prop where
  pos : 0 < n
  le : n ≤ s.length
  first : ∃ before p after, rules = before ++ (rule, p) :: after ∧ p (s.take n) = true ∧
    ∀ entry ∈ before, entry.2 (s.take n) = false
  maximal : NoneLonger rules s n

theorem longest_le (p : Lang α) (s : List α) : longest p s ≤ s.length :=
  Nat.findGreatest_le s.length

theorem longest_accepts {p : Lang α} {s : List α} (pos : 0 < longest p s) :
    p (s.take (longest p s)) = true :=
  Nat.findGreatest_of_ne_zero (P := fun n => p (s.take n) = true) rfl (Nat.pos_iff_ne_zero.mp pos)

theorem rejects_of_longest_lt {p : Lang α} {s : List α} {m : Nat} (longer : longest p s < m)
    (fits : m ≤ s.length) : p (s.take m) = false := by
  have fails := Nat.findGreatest_is_greatest (P := fun n => p (s.take n) = true) longer fits
  simpa using fails

/-- `scanOne` finds nothing only if no rule matches anything. -/
theorem noneLonger_of_scanOne_none {s : List α} : (rules : List (ρ × Lang α)) →
    scanOne rules s = none → NoneLonger rules s 0
  | [], _ => by simp [NoneLonger]
  | (rule, p) :: rest, found => by
      rw [scanOne] at found
      split at found
      · rename_i nothing
        split at found
        · rename_i zero
          intro entry member m pos fits
          rcases List.mem_cons.mp member with rfl | later
          · exact rejects_of_longest_lt (zero ▸ pos) fits
          · exact noneLonger_of_scanOne_none rest nothing entry later m pos fits
        · cases found
      · split at found <;> cases found

theorem Wins.cons_later {rules : List (ρ × Lang α)} {s : List α} {rule other : ρ} {n : Nat}
    {p : Lang α} (wins : Wins rules s other n) (shorter : longest p s < n) :
    Wins ((rule, p) :: rules) s other n where
  pos := wins.pos
  le := wins.le
  first := by
    obtain ⟨before, q, after, rfl, accepts, earlier⟩ := wins.first
    refine ⟨(rule, p) :: before, q, after, rfl, accepts, ?_⟩
    intro entry member
    rcases List.mem_cons.mp member with rfl | later
    · exact rejects_of_longest_lt shorter wins.le
    · exact earlier entry later
  maximal := by
    intro entry member m longer fits
    rcases List.mem_cons.mp member with rfl | later
    · exact rejects_of_longest_lt (Nat.lt_trans shorter longer) fits
    · exact wins.maximal entry later m longer fits

theorem Wins.cons_here {rules : List (ρ × Lang α)} {s : List α} {rule : ρ} {p : Lang α}
    (pos : 0 < longest p s) (rest : NoneLonger rules s (longest p s)) :
    Wins ((rule, p) :: rules) s rule (longest p s) where
  pos := pos
  le := longest_le p s
  first := ⟨[], p, rules, rfl, longest_accepts pos, by simp⟩
  maximal := by
    intro entry member m longer fits
    rcases List.mem_cons.mp member with rfl | later
    · exact rejects_of_longest_lt longer fits
    · exact rest entry later m longer fits

theorem wins_of_scanOne {s : List α} : (rules : List (ρ × Lang α)) → {rule : ρ} → {n : Nat} →
    scanOne rules s = some (rule, n) → Wins rules s rule n
  | [], _, _, found => by cases found
  | (rule, p) :: rest, _, _, found => by
      rw [scanOne] at found
      split at found
      · rename_i nothing
        split at found
        · cases found
        · rename_i nonzero
          obtain ⟨rfl, rfl⟩ := Prod.mk.inj (Option.some.inj found)
          refine Wins.cons_here (Nat.pos_of_ne_zero nonzero) ?_
          intro entry member m longer fits
          exact noneLonger_of_scanOne_none rest nothing entry member m (by omega) fits
      · rename_i other m later
        have wins := wins_of_scanOne rest later
        have pos := wins.pos
        split at found
        · rename_i atMost
          obtain ⟨rfl, rfl⟩ := Prod.mk.inj (Option.some.inj found)
          refine Wins.cons_here (by omega) ?_
          intro entry member k longer fits
          exact wins.maximal entry member k (by omega) fits
        · rename_i more
          obtain ⟨rfl, rfl⟩ := Prod.mk.inj (Option.some.inj found)
          exact wins.cons_later (by omega)

/-- No rule accepts more than a text when it accepts nothing that goes on behind it. -/
theorem noneLonger_append_iff {rules : List (ρ × Lang α)} {text rest : List α} :
    NoneLonger rules (text ++ rest) text.length ↔
      ∀ entry ∈ rules, ∀ more tail, rest = more ++ tail → more ≠ [] →
        entry.2 (text ++ more) = false := by
  constructor
  · rintro maximal entry member more tail rfl some
    have positive := List.length_pos_iff.mpr some
    have rejects := maximal entry member (text ++ more).length (by simp; omega) (by simp)
    rwa [← List.append_assoc, List.take_left] at rejects
  · intro nothing entry member m longer fits
    have taken : (text ++ rest).take m = text ++ rest.take (m - text.length) := by
      rw [List.take_append, List.take_of_length_le (by omega)]
    rw [taken]
    refine nothing entry member _ _ (List.take_append_drop ..).symm ?_
    rw [List.length_append] at fits
    have filled : 0 < (rest.take (m - text.length)).length := by
      rw [List.length_take]
      omega
    exact List.length_pos_iff.mp filled

/-- The first rule of a list that accepts a text. -/
def FirstRule (rules : List (ρ × Lang α)) (text : List α) (rule : ρ) : Prop :=
  ∃ before p after, rules = before ++ (rule, p) :: after ∧ p text = true ∧
    ∀ entry ∈ before, entry.2 text = false

/-- The match at the head of a text that starts with it. -/
theorem wins_append_iff {rules : List (ρ × Lang α)} {text rest : List α} {rule : ρ} :
    Wins rules (text ++ rest) rule text.length ↔
      text ≠ [] ∧ FirstRule rules text rule ∧ NoneLonger rules (text ++ rest) text.length := by
  constructor
  · rintro ⟨pos, _, first, maximal⟩
    rw [List.take_left] at first
    exact ⟨List.length_pos_iff.mp pos, first, maximal⟩
  · rintro ⟨nonempty, first, maximal⟩
    exact ⟨List.length_pos_iff.mpr nonempty, by simp, by rwa [List.take_left], maximal⟩

/-- A text has one longest match. -/
theorem Wins.length_unique {rules : List (ρ × Lang α)} {s : List α} {rule other : ρ} {n m : Nat}
    (left : Wins rules s rule n) (right : Wins rules s other m) : n = m := by
  have bound : ∀ {rule other : ρ} {n m : Nat}, Wins rules s rule n → Wins rules s other m →
      m ≤ n := by
    intro rule other n m left right
    obtain ⟨before, p, after, split, accepts, _⟩ := right.first
    by_contra longer
    have rejects := left.maximal (other, p) (by simp [split]) m (by omega) right.le
    exact absurd accepts (by simpa using rejects)
  exact Nat.le_antisymm (bound right left) (bound left right)

/-- The first of two rules that accept the same text. -/
theorem Wins.rule_unique {rules : List (ρ × Lang α)} {s : List α} {rule other : ρ} {n m : Nat}
    (left : Wins rules s rule n) (right : Wins rules s other m) : rule = other := by
  obtain rfl := left.length_unique right
  obtain ⟨before, p, after, split, accepts, earlier⟩ := left.first
  obtain ⟨before', p', after', split', accepts', earlier'⟩ := right.first
  rw [split] at split'
  rcases List.append_eq_append_iff.mp split' with ⟨gap, rfl, tail⟩ | ⟨gap, rfl, tail⟩
  · cases gap with
    | nil => exact (Prod.mk.inj (List.cons.inj tail).1).1
    | cons head gap =>
        obtain ⟨rfl, _⟩ := List.cons.inj tail
        exact absurd accepts (by simpa using earlier' (rule, p) (by simp))
  · cases gap with
    | nil => exact (Prod.mk.inj (List.cons.inj tail).1).1.symm
    | cons head gap =>
        obtain ⟨rfl, _⟩ := List.cons.inj tail
        exact absurd accepts' (by simpa using earlier (other, p') (by simp))

/-- A match is found exactly when it wins. -/
theorem scanOne_eq_some {rules : List (ρ × Lang α)} {s : List α} {rule : ρ} {n : Nat} :
    scanOne rules s = some (rule, n) ↔ Wins rules s rule n := by
  refine ⟨wins_of_scanOne rules, fun wins => ?_⟩
  cases found : scanOne rules s with
  | none =>
      obtain ⟨before, p, after, split, accepts, _⟩ := wins.first
      have rejects := noneLonger_of_scanOne_none rules found (rule, p) (by simp [split]) n
        wins.pos wins.le
      exact absurd accepts (by simpa using rejects)
  | some result =>
      obtain ⟨other, m⟩ := result
      have found := wins_of_scanOne rules found
      rw [found.rule_unique wins, found.length_unique wins]

/-- A lexeme: the rule that matched and the text it matched. -/
structure Lexeme (ρ α : Type) where
  rule : ρ
  text : List α
deriving DecidableEq

/-- Scan at most `fuel` lexemes. -/
def lexemesAux (rules : List (ρ × Lang α)) : Nat → List α → List (Lexeme ρ α)
  | 0, _ => []
  | fuel + 1, s =>
      match scanOne rules s with
      | none => []
      | some (rule, n) => ⟨rule, s.take n⟩ :: lexemesAux rules fuel (s.drop n)

/-- The lexemes of a text. -/
def lexemes (rules : List (ρ × Lang α)) (s : List α) : List (Lexeme ρ α) :=
  lexemesAux rules s.length s

theorem lexemesAux_of_le {rules : List (ρ × Lang α)} (fuel : Nat) {s : List α}
    (enough : s.length ≤ fuel) : lexemesAux rules fuel s = lexemes rules s := by
  induction fuel using Nat.strongRecOn generalizing s with
  | ind fuel ih =>
      cases fuel with
      | zero =>
          obtain rfl := List.length_eq_zero_iff.mp (Nat.le_zero.mp enough)
          rfl
      | succ fuel =>
          cases s with
          | nil =>
              have nothing : scanOne rules ([] : List α) = none := by
                cases found : scanOne rules ([] : List α) with
                | none => rfl
                | some result =>
                    have wins := wins_of_scanOne rules found
                    exact absurd wins.le (by simpa using Nat.pos_iff_ne_zero.mp wins.pos)
              simp [lexemesAux, lexemes, nothing]
          | cons c rest =>
              simp only [lexemes, List.length_cons, lexemesAux]
              cases found : scanOne rules (c :: rest) with
              | none => rfl
              | some result =>
                  have wins := wins_of_scanOne rules found
                  have shorter : ((c :: rest).drop result.2).length ≤ rest.length := by
                    have pos := wins.pos
                    simp only [List.length_drop, List.length_cons]
                    omega
                  simp only [List.length_cons] at enough
                  simp only [List.cons.injEq, true_and]
                  rw [ih fuel (by omega) (by omega)]
                  rcases Nat.lt_or_ge rest.length (fuel + 1) with less | more
                  · rw [ih rest.length less shorter]
                  · omega

@[simp] theorem lexemes_nil (rules : List (ρ × Lang α)) : lexemes rules [] = [] := rfl

/-- The lexemes of a text are its first match and the lexemes behind it. -/
theorem lexemes_of_wins {rules : List (ρ × Lang α)} {s : List α} {rule : ρ} {n : Nat}
    (wins : Wins rules s rule n) :
    lexemes rules s = ⟨rule, s.take n⟩ :: lexemes rules (s.drop n) := by
  have shorter : (s.drop n).length ≤ s.length := by simp
  rw [← lexemesAux_of_le s.length shorter, ← lexemesAux_of_le (s.length + 1) (Nat.le_succ _)]
  simp [lexemesAux, scanOne_eq_some.mpr wins]

/-- A match stated on the text it splits. -/
theorem lexemes_append {rules : List (ρ × Lang α)} {text rest : List α} {rule : ρ}
    (wins : Wins rules (text ++ rest) rule text.length) :
    lexemes rules (text ++ rest) = ⟨rule, text⟩ :: lexemes rules rest := by
  simpa using lexemes_of_wins wins

/-- Every nonempty text starts with a match. -/
def Total (rules : List (ρ × Lang α)) : Prop := ∀ s, s ≠ [] → scanOne rules s ≠ none

/-- The lexemes of a total scanner cover the text. -/
theorem lexemes_flatten {rules : List (ρ × Lang α)} (total : Total rules) (s : List α) :
    (lexemes rules s).flatMap Lexeme.text = s := by
  induction size : s.length using Nat.strongRecOn generalizing s with
  | ind size ih =>
      cases found : scanOne rules s with
      | none =>
          by_cases empty : s = []
          · simp [empty]
          · exact absurd found (total s empty)
      | some result =>
          have wins := wins_of_scanOne rules found
          have shorter : (s.drop result.2).length < s.length := by
            have pos := wins.pos
            have le := wins.le
            simp only [List.length_drop]
            omega
          rw [lexemes_of_wins wins, List.flatMap_cons, ih _ (size ▸ shorter) _ rfl,
            List.take_append_drop]

/-- Every lexeme of the list is the match at its place in the text of the list. -/
inductive Scans (rules : List (ρ × Lang α)) : List (Lexeme ρ α) → Prop where
  | nil : Scans rules []
  | cons {lexeme : Lexeme ρ α} {rest : List (Lexeme ρ α)}
      (wins : Wins rules (lexeme.text ++ rest.flatMap Lexeme.text) lexeme.rule lexeme.text.length)
      (later : Scans rules rest) : Scans rules (lexeme :: rest)

/-- Such a list is what the scanner makes of its text. -/
theorem Scans.lexemes_eq {rules : List (ρ × Lang α)} {found : List (Lexeme ρ α)}
    (scans : Scans rules found) : lexemes rules (found.flatMap Lexeme.text) = found := by
  induction scans with
  | nil => rfl
  | cons wins later ih => rw [List.flatMap_cons, lexemes_append wins, ih]

theorem scans_lexemes {rules : List (ρ × Lang α)} (total : Total rules) (s : List α) :
    Scans rules (lexemes rules s) := by
  induction size : s.length using Nat.strongRecOn generalizing s with
  | ind size ih =>
      cases found : scanOne rules s with
      | none =>
          by_cases empty : s = []
          · rw [empty, lexemes_nil]
            exact .nil
          · exact absurd found (total s empty)
      | some result =>
          have wins := wins_of_scanOne rules found
          have shorter : (s.drop result.2).length < s.length := by
            have pos := wins.pos
            have le := wins.le
            simp only [List.length_drop]
            omega
          rw [lexemes_of_wins wins]
          refine .cons ?_ (ih _ (size ▸ shorter) _ rfl)
          rw [lexemes_flatten total, List.take_append_drop, List.length_take_of_le wins.le]
          exact wins

end Policer.Lib.Lexer
