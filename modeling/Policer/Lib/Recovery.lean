import Mathlib.Data.Option.NAry
import Policer.Lib.Expectation

/-!
# Rules with error handlers

A rule may answer the failure of an expectation inside of it: it does not match, or it counts as
matched where it began, without a value, or the failure goes on. `Tolerates` compares parses with
and without answers, and `fix_eq` lets a rule use itself behind what it has read.
-/

namespace Policer.Lib.Expectation

variable {σ α β γ : Type}

/-- What a handler answers to a failure. -/
inductive Answer where
  | fail
  | accept
  | rethrow
deriving DecidableEq, Repr

/-- A parser with handlers. It counts the failures that have been answered; what has been accepted
has no value. -/
abbrev Rule (σ α : Type) := Nat → List σ → Outcome σ (Option α) × Nat

namespace Rule

/-- A parser without handlers. -/
def of (parser : Parser σ α) : Rule σ α := fun answered text => (parser.map some text, answered)

/-- What is made of a match. -/
def map (f : α → β) (rule : Rule σ α) : Rule σ β := fun answered text =>
  match rule answered text with
  | (.noMatch, answered) => (.noMatch, answered)
  | (.failed, answered) => (.failed, answered)
  | (.aborted, answered) => (.aborted, answered)
  | (.matched value rest, answered) => (.matched (value.map f) rest, answered)

/-- Ordered choice. -/
def orElse (first second : Rule σ α) : Rule σ α := fun answered text =>
  match first answered text with
  | (.noMatch, answered) => second answered text
  | other => other

/-- A match and behind it an expected one. -/
def followedBy (f : α → β → γ) (first : Rule σ α) (second : Rule σ β) : Rule σ γ :=
  fun answered text =>
    match first answered text with
    | (.noMatch, answered) => (.noMatch, answered)
    | (.failed, answered) => (.failed, answered)
    | (.aborted, answered) => (.aborted, answered)
    | (.matched value rest, answered) =>
        match second answered rest with
        | (.noMatch, answered) => (.failed, answered)
        | (.failed, answered) => (.failed, answered)
        | (.aborted, answered) => (.aborted, answered)
        | (.matched other rest, answered) => (.matched (Option.map₂ f value other) rest, answered)

/-- At most `fuel` matches in a row. -/
def manyUpTo (rule : Rule σ α) : Nat → Rule σ (List α)
  | 0 => fun answered text => (.matched (some []) text, answered)
  | fuel + 1 => fun answered text =>
      match rule answered text with
      | (.noMatch, answered) => (.matched (some []) text, answered)
      | (.failed, answered) => (.failed, answered)
      | (.aborted, answered) => (.aborted, answered)
      | (.matched value rest, answered) =>
          match manyUpTo rule fuel answered rest with
          | (.noMatch, answered) => (.noMatch, answered)
          | (.failed, answered) => (.failed, answered)
          | (.aborted, answered) => (.aborted, answered)
          | (.matched values rest, answered) =>
              (.matched (Option.map₂ List.cons value values) rest, answered)

/-- Matches in a row, each of which reads something. -/
def many (rule : Rule σ α) : Rule σ (List α) := fun answered text =>
  manyUpTo rule (text.length + 1) answered text

/-- At least one match. -/
def plus (rule : Rule σ α) : Rule σ (List α) := rule.followedBy List.cons rule.many

/-- A rule with a handler for what fails inside of it. -/
def onError (answers : Nat → Answer) (rule : Rule σ α) : Rule σ α := fun answered text =>
  match rule answered text with
  | (.failed, answered) =>
      match answers answered with
      | .fail => (.noMatch, answered + 1)
      | .accept => (.matched none text, answered + 1)
      | .rethrow => (.failed, answered + 1)
  | other => other

/-- A rule that uses itself at most `fuel` times in itself. -/
def fixUpTo (rule : Rule σ α → Rule σ α) : Nat → Rule σ α
  | 0 => fun answered _ => (.noMatch, answered)
  | fuel + 1 => rule (fixUpTo rule fuel)

/-- A rule that uses itself. -/
def fix (rule : Rule σ α → Rule σ α) : Rule σ α := fun answered text =>
  fixUpTo rule (text.length + 1) answered text

/-! ### Matches -/

section Matches

variable {rule first : Rule σ α} {second : Rule σ β} {answered after : Nat} {text rest : List σ}

theorem of_eq_matched {parser : Parser σ α} {made : Option α} :
    of parser answered text = (.matched made rest, after) ↔
      ∃ value, parser text = .matched value rest ∧ some value = made ∧ answered = after := by
  rw [of, Prod.mk.injEq, Parser.map_eq_matched]
  constructor
  · rintro ⟨⟨value, matched, same⟩, counted⟩
    exact ⟨value, matched, same, counted⟩
  · rintro ⟨value, matched, same, counted⟩
    exact ⟨⟨value, matched, same⟩, counted⟩

theorem map_eq_matched {f : α → β} {made : Option β} :
    rule.map f answered text = (.matched made rest, after) ↔
      ∃ value, rule answered text = (.matched value rest, after) ∧ value.map f = made := by
  unfold map
  split <;> rename_i same <;> simp only [same, Prod.mk.injEq, Outcome.matched.injEq, reduceCtorEq,
    false_and, exists_false]
  constructor
  · rintro ⟨⟨made, rests⟩, counted⟩
    exact ⟨_, ⟨⟨rfl, rests⟩, counted⟩, made⟩
  · rintro ⟨_, ⟨⟨rfl, rests⟩, counted⟩, made⟩
    exact ⟨⟨made, rests⟩, counted⟩

theorem orElse_eq_matched {other : Rule σ α} {made : Option α} :
    first.orElse other answered text = (.matched made rest, after) ↔
      first answered text = (.matched made rest, after) ∨
        ∃ between, first answered text = (.noMatch, between) ∧
          other between text = (.matched made rest, after) := by
  unfold orElse
  split
  · rename_i between none
    simp [none]
  · rename_i some
    constructor
    · exact Or.inl
    · rintro (matched | ⟨_, none, _⟩)
      · exact matched
      · exact (some _ none).elim

theorem followedBy_eq_matched {f : α → β → γ} {made : Option γ} :
    first.followedBy f second answered text = (.matched made rest, after) ↔
      ∃ value middle between other, first answered text = (.matched value middle, between) ∧
        second between middle = (.matched other rest, after) ∧
          Option.map₂ f value other = made := by
  unfold followedBy
  split
  · rename_i isFirst
    simp [isFirst]
  · rename_i isFirst
    simp [isFirst]
  · rename_i isFirst
    simp [isFirst]
  · rename_i value middle between isFirst
    split
    · rename_i isSecond
      simp [isFirst, isSecond]
    · rename_i isSecond
      simp [isFirst, isSecond]
    · rename_i isSecond
      simp [isFirst, isSecond]
    · rename_i other rest' after' isSecond
      constructor
      · intro same
        cases same
        exact ⟨_, _, _, _, isFirst, isSecond, rfl⟩
      · rintro ⟨_, _, _, _, first', second', rfl⟩
        cases isFirst.symm.trans first'
        cases isSecond.symm.trans second'
        rfl

theorem manyUpTo_succ_eq_matched {fuel : Nat} {made : Option (List α)} :
    rule.manyUpTo (fuel + 1) answered text = (.matched made rest, after) ↔
      (rule answered text = (.noMatch, after) ∧ some [] = made ∧ text = rest) ∨
        ∃ value middle between values, rule answered text = (.matched value middle, between) ∧
          rule.manyUpTo fuel between middle = (.matched values rest, after) ∧
            Option.map₂ List.cons value values = made := by
  simp only [manyUpTo]
  split
  · rename_i isFirst
    simp only [isFirst, Prod.mk.injEq, Outcome.matched.injEq, true_and, reduceCtorEq, false_and,
      exists_false, or_false]
    exact ⟨fun ⟨⟨made, rests⟩, counted⟩ => ⟨counted, made, rests⟩,
      fun ⟨counted, made, rests⟩ => ⟨⟨made, rests⟩, counted⟩⟩
  · rename_i isFirst
    simp [isFirst]
  · rename_i isFirst
    simp [isFirst]
  · rename_i value middle between isFirst
    split
    · rename_i isRest
      simp [isFirst, isRest]
    · rename_i isRest
      simp [isFirst, isRest]
    · rename_i isRest
      simp [isFirst, isRest]
    · rename_i values rest' after' isRest
      constructor
      · intro same
        cases same
        exact Or.inr ⟨_, _, _, _, isFirst, isRest, rfl⟩
      · rintro (⟨none, _⟩ | ⟨_, _, _, _, first', rest'', rfl⟩)
        · cases isFirst.symm.trans none
        · cases isFirst.symm.trans first'
          cases isRest.symm.trans rest''
          rfl

theorem of_of_matched {parser : Parser σ α} {value : α}
    (reads : parser text = .matched value rest) :
    of parser answered text = (.matched (some value) rest, answered) := by
  rw [of, Parser.map_of_matched some reads]

theorem map_of_matched {f : α → β} {value : α}
    (reads : rule answered text = (.matched (some value) rest, after)) :
    rule.map f answered text = (.matched (some (f value)) rest, after) :=
  map_eq_matched.mpr ⟨some value, reads, rfl⟩

theorem orElse_of_matched {other : Rule σ α} {value : α}
    (reads : first answered text = (.matched (some value) rest, after)) :
    first.orElse other answered text = (.matched (some value) rest, after) :=
  orElse_eq_matched.mpr (Or.inl reads)

theorem orElse_of_noMatch {other : Rule σ α} (fails : first answered text = (.noMatch, answered)) :
    first.orElse other answered text = other answered text := by
  simp only [orElse, fails]

theorem followedBy_of_matched {f : α → β → γ} {value : α} {also : β} {middle : List σ}
    (reads : first answered text = (.matched (some value) middle, answered))
    (behind : second answered middle = (.matched (some also) rest, answered)) :
    first.followedBy f second answered text = (.matched (some (f value also)) rest, answered) :=
  followedBy_eq_matched.mpr ⟨_, _, _, _, reads, behind, rfl⟩

theorem onError_eq_matched {answers : Nat → Answer} {value : α} :
    rule.onError answers answered text = (.matched (some value) rest, after) ↔
      rule answered text = (.matched (some value) rest, after) := by
  unfold onError
  split
  · rename_i between failed
    rw [failed]
    cases answers between <;> simp
  · rfl

/-- The values of matches in a row, up to where there is none. -/
inductive Chain (rule : Rule σ α) (answered : Nat) : List α → List σ → List σ → Prop where
  | nil {text : List σ} (fails : rule answered text = (.noMatch, answered)) :
      Chain rule answered [] text text
  | cons {value : α} {values : List α} {text middle rest : List σ}
      (reads : rule answered text = (.matched (some value) middle, answered))
      (shorter : middle.length < text.length) (later : Chain rule answered values middle rest) :
      Chain rule answered (value :: values) text rest

theorem manyUpTo_of_chain {values : List α} (chain : Chain rule answered values text rest) :
    ∀ fuel, text.length < fuel →
      rule.manyUpTo fuel answered text = (.matched (some values) rest, answered) := by
  induction chain with
  | nil fails =>
      rintro (_ | fuel) enough
      · cases enough
      · exact manyUpTo_succ_eq_matched.mpr (Or.inl ⟨fails, rfl, rfl⟩)
  | cons reads shorter later ih =>
      rintro (_ | fuel) enough
      · cases enough
      · exact manyUpTo_succ_eq_matched.mpr
          (Or.inr ⟨_, _, _, _, reads, ih fuel (by omega), rfl⟩)

theorem many_of_chain {values : List α} (chain : Chain rule answered values text rest) :
    rule.many answered text = (.matched (some values) rest, answered) :=
  manyUpTo_of_chain chain _ (Nat.lt_succ_self _)

theorem plus_of_chain {value : α} {values : List α}
    (chain : Chain rule answered (value :: values) text rest) :
    rule.plus answered text = (.matched (some (value :: values)) rest, answered) := by
  cases chain with
  | cons reads _ later => exact followedBy_of_matched reads (many_of_chain later)

end Matches

end Rule

/-! ### What is read -/

/-- A match reads at least `least` of the text. -/
def Parser.Reads (least : Nat) (parser : Parser σ α) : Prop :=
  ∀ ⦃text value rest⦄, parser text = .matched value rest → rest.length + least ≤ text.length

namespace Parser

section Reads

variable {parser first second : Parser σ α} {least more : Nat}

theorem Reads.any (reads : parser.Reads least) : parser.Reads 0 := by
  intro text value rest matched
  have front := reads matched
  omega

theorem reads_map {f : α → β} (reads : parser.Reads least) : (parser.map f).Reads least := by
  intro text value rest matched
  obtain ⟨_, matched, _⟩ := map_eq_matched.mp matched
  exact reads matched

theorem reads_orElse (reads : first.Reads least) (others : second.Reads least) :
    (first.orElse second).Reads least := by
  intro text value rest matched
  rcases orElse_eq_matched.mp matched with matched | ⟨_, matched⟩
  · exact reads matched
  · exact others matched

theorem reads_andThen {next : α → Parser σ β} (reads : parser.Reads least)
    (behind : ∀ value, (next value).Reads more) : (parser.andThen next).Reads (least + more) := by
  intro text value rest matched
  obtain ⟨_, _, isFirst, isSecond⟩ := andThen_eq_matched.mp matched
  have front := reads isFirst
  have back := behind _ isSecond
  omega

theorem reads_expect (reads : parser.Reads least) : parser.expect.Reads least :=
  fun _ _ _ matched => reads (expect_eq_matched.mp matched)

theorem reads_optional (reads : parser.Reads 0) : parser.optional.Reads 0 := by
  intro text value rest matched
  rcases optional_eq_matched.mp matched with ⟨_, _, rfl⟩ | ⟨_, matched, _⟩
  · exact Nat.le_refl _
  · exact reads matched

theorem reads_manyUpTo (reads : parser.Reads 0) (fuel : Nat) : (parser.manyUpTo fuel).Reads 0 := by
  induction fuel with
  | zero =>
      intro text value rest matched
      cases matched
      exact Nat.le_refl _
  | succ fuel ih =>
      intro text value rest matched
      rcases manyUpTo_succ_eq_matched.mp matched with ⟨_, _, rfl⟩ | ⟨_, _, _, isFirst, isRest, _⟩
      · exact Nat.le_refl _
      · have front := reads isFirst
        have back := ih isRest
        omega

theorem reads_many (reads : parser.Reads 0) : parser.many.Reads 0 :=
  fun _ _ _ matched => reads_manyUpTo reads _ matched

end Reads

end Parser

namespace Rule

/-- A match reads at least `least` of the text. -/
def Reads (least : Nat) (rule : Rule σ α) : Prop :=
  ∀ ⦃answered text value rest after⦄, rule answered text = (.matched value rest, after) →
    rest.length + least ≤ text.length

section Reads

variable {rule first : Rule σ α} {second : Rule σ β} {least more : Nat}

theorem Reads.any (reads : rule.Reads least) : rule.Reads 0 := by
  intro answered text value rest after matched
  have front := reads matched
  omega

theorem reads_of {parser : Parser σ α} (reads : parser.Reads least) : (of parser).Reads least := by
  intro answered text value rest after matched
  obtain ⟨_, matched, _⟩ := of_eq_matched.mp matched
  exact reads matched

theorem reads_map {f : α → β} (reads : rule.Reads least) : (rule.map f).Reads least := by
  intro answered text value rest after matched
  obtain ⟨_, matched, _⟩ := map_eq_matched.mp matched
  exact reads matched

theorem reads_orElse {other : Rule σ α} (reads : first.Reads least) (others : other.Reads least) :
    (first.orElse other).Reads least := by
  intro answered text value rest after matched
  rcases orElse_eq_matched.mp matched with matched | ⟨_, _, matched⟩
  · exact reads matched
  · exact others matched

theorem reads_followedBy {f : α → β → γ} (reads : first.Reads least) (behind : second.Reads more) :
    (first.followedBy f second).Reads (least + more) := by
  intro answered text value rest after matched
  obtain ⟨_, _, _, _, isFirst, isSecond, _⟩ := followedBy_eq_matched.mp matched
  have front := reads isFirst
  have back := behind isSecond
  omega

theorem reads_manyUpTo (reads : rule.Reads 0) (fuel : Nat) : (rule.manyUpTo fuel).Reads 0 := by
  induction fuel with
  | zero =>
      intro answered text value rest after matched
      cases matched
      exact Nat.le_refl _
  | succ fuel ih =>
      intro answered text value rest after matched
      rcases manyUpTo_succ_eq_matched.mp matched with ⟨_, _, rfl⟩ | ⟨_, _, _, _, isFirst, isRest, _⟩
      · exact Nat.le_refl _
      · have front := reads isFirst
        have back := ih isRest
        omega

theorem reads_many (reads : rule.Reads 0) : rule.many.Reads 0 := by
  intro answered text value rest after matched
  exact reads_manyUpTo reads _ matched

theorem reads_plus (reads : rule.Reads 0) : rule.plus.Reads 0 :=
  reads_followedBy reads (reads_many reads)

theorem reads_onError {answers : Nat → Answer} (reads : rule.Reads 0) :
    (rule.onError answers).Reads 0 := by
  intro answered text value rest after matched
  unfold onError at matched
  split at matched
  · split at matched
    · cases matched
    · cases matched
      exact Nat.le_refl _
    · cases matched
  · exact reads matched

end Reads

/-! ### Rules that use themselves -/

/-- Two rules do the same on texts shorter than `bound`. -/
def SameBelow (bound : Nat) (rule other : Rule σ α) : Prop :=
  ∀ answered (text : List σ), text.length < bound → rule answered text = other answered text

/-- A rule uses another one only behind something it has read. -/
structure Guarded (rule : Rule σ α → Rule σ α) : Prop where
  reads : ∀ {inner : Rule σ α}, inner.Reads 0 → (rule inner).Reads 0
  behind : ∀ {inner other : Rule σ α} {text : List σ}, inner.Reads 0 →
    SameBelow text.length inner other → ∀ answered,
      rule inner answered text = rule other answered text

section Guarded

variable {rule : Rule σ α → Rule σ α}

theorem Guarded.reads_fixUpTo (guarded : Guarded rule) : ∀ fuel, (fixUpTo rule fuel).Reads 0
  | 0 => fun _ _ _ _ _ matched => nomatch (Prod.mk.inj matched).1
  | fuel + 1 => guarded.reads (guarded.reads_fixUpTo fuel)

/-- More uses than characters make no difference. -/
theorem Guarded.fixUpTo_eq (guarded : Guarded rule) : ∀ {fuel other answered : Nat} {text : List σ},
    text.length < fuel → text.length < other →
      fixUpTo rule fuel answered text = fixUpTo rule other answered text
  | fuel + 1, other + 1, answered, text, enough, others =>
      guarded.behind (guarded.reads_fixUpTo fuel)
        (fun _ _ shorter => guarded.fixUpTo_eq (by omega) (by omega)) answered

theorem Guarded.reads_fix (guarded : Guarded rule) : (fix rule).Reads 0 :=
  fun _ _ _ _ _ matched => guarded.reads_fixUpTo _ matched

/-- A rule that uses itself is what its definition says. -/
theorem Guarded.fix_eq (guarded : Guarded rule) : rule (fix rule) = fix rule := by
  funext answered text
  exact guarded.behind guarded.reads_fix
    (fun _ _ shorter => guarded.fixUpTo_eq (Nat.lt_succ_self _) shorter) answered

end Guarded

section SameBelow

variable {bound : Nat} {rule other first : Rule σ α} {second third : Rule σ β}

theorem SameBelow.refl (rule : Rule σ α) : SameBelow bound rule rule := fun _ _ _ => rfl

theorem SameBelow.map {f : α → β} (same : SameBelow bound rule other) :
    SameBelow bound (rule.map f) (other.map f) := by
  intro answered text shorter
  simp only [Rule.map, same answered text shorter]

theorem SameBelow.orElse {choice choice' : Rule σ α} (same : SameBelow bound rule other)
    (choices : SameBelow bound choice choice') :
    SameBelow bound (rule.orElse choice) (other.orElse choice') := by
  intro answered text shorter
  simp only [Rule.orElse, same answered text shorter, choices _ text shorter]

theorem SameBelow.manyUpTo (reads : rule.Reads 0) (same : SameBelow bound rule other) (fuel : Nat) :
    SameBelow bound (rule.manyUpTo fuel) (other.manyUpTo fuel) := by
  induction fuel with
  | zero => exact SameBelow.refl _
  | succ fuel ih =>
      intro answered text shorter
      simp only [Rule.manyUpTo, ← same answered text shorter]
      split
      · rfl
      · rfl
      · rfl
      · rename_i middle between isFirst
        have front := reads isFirst
        rw [ih between middle (by omega)]

theorem SameBelow.plus (reads : rule.Reads 0) (same : SameBelow bound rule other) :
    SameBelow bound rule.plus other.plus := by
  intro answered text shorter
  simp only [Rule.plus, followedBy, ← same answered text shorter]
  split
  · rfl
  · rfl
  · rfl
  · rename_i middle between isFirst
    have front := reads isFirst
    simp only [many, SameBelow.manyUpTo reads same _ between middle (by omega)]

theorem followedBy_congr {f : α → β → γ} {answered : Nat} {text : List σ}
    (same : first answered text = other answered text) :
    first.followedBy f second answered text = other.followedBy f second answered text := by
  simp only [followedBy, same]

/-- What stands behind something that has been read stands in front of a shorter text. -/
theorem followedBy_behind {f : α → β → γ} {text : List σ} (reads : first.Reads 1)
    (same : SameBelow text.length second third) (answered : Nat) :
    first.followedBy f second answered text = first.followedBy f third answered text := by
  simp only [followedBy]
  split
  · rfl
  · rfl
  · rfl
  · rename_i middle between isFirst
    have front := reads isFirst
    rw [same between middle (by omega)]

end SameBelow

end Rule

/-! ### What is made -/

/-- The values of a parser have a property. -/
def Parser.Makes (good : α → Prop) (parser : Parser σ α) : Prop :=
  ∀ ⦃text value rest⦄, parser text = .matched value rest → good value

namespace Rule

/-- The values of a rule have a property. -/
def Makes (good : α → Prop) (rule : Rule σ α) : Prop :=
  ∀ ⦃answered text value rest after⦄, rule answered text = (.matched (some value) rest, after) →
    good value

section Makes

variable {good : α → Prop} {also : β → Prop} {rule first : Rule σ α} {second : Rule σ β}

theorem Makes.mono {better : α → Prop} (makes : rule.Makes better)
    (better_good : ∀ value, better value → good value) : rule.Makes good :=
  fun _ _ _ _ _ matched => better_good _ (makes matched)

theorem makes_of {parser : Parser σ α} (makes : parser.Makes good) : (of parser).Makes good := by
  intro answered text value rest after matched
  obtain ⟨_, matched, same, _⟩ := of_eq_matched.mp matched
  cases same
  exact makes matched

theorem makes_map {f : α → β} (makes : rule.Makes fun value => also (f value)) :
    (rule.map f).Makes also := by
  intro answered text value rest after matched
  obtain ⟨_, inside, same⟩ := map_eq_matched.mp matched
  obtain ⟨_, rfl, rfl⟩ := Option.map_eq_some_iff.mp same
  exact makes inside

theorem makes_orElse {other : Rule σ α} (makes : first.Makes good) (others : other.Makes good) :
    (first.orElse other).Makes good := by
  intro answered text value rest after matched
  rcases orElse_eq_matched.mp matched with matched | ⟨_, _, matched⟩
  · exact makes matched
  · exact others matched

theorem makes_followedBy {f : α → β → γ} {whole : γ → Prop} (makes : first.Makes good)
    (behind : second.Makes also) (assemble : ∀ value other, good value → also other →
      whole (f value other)) : (first.followedBy f second).Makes whole := by
  intro answered text value rest after matched
  obtain ⟨_, _, _, _, isFirst, isSecond, same⟩ := followedBy_eq_matched.mp matched
  obtain ⟨_, _, isValue, isOther, rfl⟩ := Option.map₂_eq_some_iff.mp same
  cases isValue
  cases isOther
  exact assemble _ _ (makes isFirst) (behind isSecond)

theorem makes_manyUpTo (makes : rule.Makes good) (fuel : Nat) :
    (rule.manyUpTo fuel).Makes fun values => ∀ value ∈ values, good value := by
  induction fuel with
  | zero =>
      intro answered text values rest after matched
      cases matched
      simp
  | succ fuel ih =>
      intro answered text values rest after matched
      rcases manyUpTo_succ_eq_matched.mp matched with
        ⟨_, same, _⟩ | ⟨_, _, _, _, isFirst, isRest, same⟩
      · cases same
        simp
      · obtain ⟨_, _, isValue, areValues, rfl⟩ := Option.map₂_eq_some_iff.mp same
        cases isValue
        cases areValues
        exact List.forall_mem_cons.mpr ⟨makes isFirst, ih isRest⟩

theorem makes_many (makes : rule.Makes good) :
    rule.many.Makes fun values => ∀ value ∈ values, good value := by
  intro answered text values rest after matched
  exact makes_manyUpTo makes _ matched

theorem makes_plus (makes : rule.Makes good) :
    rule.plus.Makes fun values => values ≠ [] ∧ ∀ value ∈ values, good value :=
  makes_followedBy makes (makes_many makes) fun _ _ isGood others =>
    ⟨List.cons_ne_nil _ _, List.forall_mem_cons.mpr ⟨isGood, others⟩⟩

theorem makes_onError {answers : Nat → Answer} (makes : rule.Makes good) :
    (rule.onError answers).Makes good :=
  fun _ _ _ _ _ matched => makes (onError_eq_matched.mp matched)

theorem makes_fix {rule : Rule σ α → Rule σ α}
    (makes : ∀ {inner : Rule σ α}, inner.Makes good → (rule inner).Makes good) :
    (fix rule).Makes good := by
  have upTo : ∀ fuel, (fixUpTo rule fuel).Makes good := by
    intro fuel
    induction fuel with
    | zero => exact fun _ _ _ _ _ matched => nomatch (Prod.mk.inj matched).1
    | succ fuel ih => exact makes ih
  exact fun _ _ _ _ _ matched => upTo _ matched

end Makes

/-! ### Where a rule can start -/

/-- On texts that have not the property a rule does not match, or it aborts because a text is not
clear. -/
def Leads (clear lead : List σ → Prop) (rule : Rule σ α) : Prop :=
  ∀ answered text, ¬ lead text →
    rule answered text = (.noMatch, answered) ∨
      ¬ clear text ∧ rule answered text = (.aborted, answered)

section Leads

variable {clear lead : List σ → Prop} {rule first : Rule σ α} {second : Rule σ β}

/-- On a clear text the rule does not match. -/
theorem Leads.misses (leads : rule.Leads clear lead) {text : List σ} (isClear : clear text)
    (none : ¬ lead text) (answered : Nat) : rule answered text = (.noMatch, answered) :=
  (leads answered text none).resolve_right fun aborts => aborts.1 isClear

theorem leads_of {parser : Parser σ α}
    (leads : ∀ text, ¬ lead text →
      parser text = .noMatch ∨ ¬ clear text ∧ parser text = .aborted) :
    (of parser).Leads clear lead := by
  intro answered text none
  simp only [of, Parser.map]
  rcases leads text none with misses | ⟨unclear, aborts⟩
  · exact Or.inl (by rw [misses])
  · exact Or.inr ⟨unclear, by rw [aborts]⟩

theorem leads_map {f : α → β} (leads : rule.Leads clear lead) : (rule.map f).Leads clear lead := by
  intro answered text none
  simp only [map]
  rcases leads answered text none with misses | ⟨unclear, aborts⟩
  · exact Or.inl (by rw [misses])
  · exact Or.inr ⟨unclear, by rw [aborts]⟩

theorem leads_orElse {other : Rule σ α} {also : List σ → Prop} (leads : first.Leads clear lead)
    (others : other.Leads clear also) :
    (first.orElse other).Leads clear fun text => lead text ∨ also text := by
  intro answered text none
  simp only [orElse]
  rcases leads answered text fun here => none (Or.inl here) with misses | ⟨unclear, aborts⟩
  · rw [misses]
    exact others answered text fun here => none (Or.inr here)
  · exact Or.inr ⟨unclear, by rw [aborts]⟩

theorem leads_followedBy {f : α → β → γ} (leads : first.Leads clear lead) :
    (first.followedBy f second).Leads clear lead := by
  intro answered text none
  simp only [followedBy]
  rcases leads answered text none with misses | ⟨unclear, aborts⟩
  · exact Or.inl (by rw [misses])
  · exact Or.inr ⟨unclear, by rw [aborts]⟩

theorem leads_onError {answers : Nat → Answer} (leads : rule.Leads clear lead) :
    (rule.onError answers).Leads clear lead := by
  intro answered text none
  simp only [onError]
  rcases leads answered text none with misses | ⟨unclear, aborts⟩
  · exact Or.inl (by rw [misses])
  · exact Or.inr ⟨unclear, by rw [aborts]⟩

end Leads

/-! ### What the answers change -/

/-- How a parse with answers may end where one without them ends: for a failure there may be no
match, or one without a value in front of a rest where nothing goes on. -/
inductive Differs (unmatched : Prop) (stuck : List σ → Prop) :
    Outcome σ (Option α) → Outcome σ (Option α) → Prop where
  | noMatch : Differs unmatched stuck .noMatch .noMatch
  | matched (value : α) (rest : List σ) :
      Differs unmatched stuck (.matched (some value) rest) (.matched (some value) rest)
  | failed : Differs unmatched stuck .failed .failed
  | aborted : Differs unmatched stuck .aborted .aborted
  | unmatched (may : unmatched) : Differs unmatched stuck .failed .noMatch
  | accepted {rest : List σ} (isStuck : stuck rest) :
      Differs unmatched stuck .failed (.matched none rest)

/-- A rule with answers against the same rule without. -/
def Tolerates (lead stuck : List σ → Prop) (plain handled : Rule σ α) : Prop :=
  ∀ answered answered' text,
    Differs (lead text) stuck (plain answered text).1 (handled answered' text).1

/-- The answers make no difference at all. -/
abbrev Agrees (plain handled : Rule σ α) : Prop :=
  Tolerates (fun _ => False) (fun _ => False) plain handled

section Tolerates

variable {clear lead also stuck : List σ → Prop} {plain handled first first' : Rule σ α}
  {second second' : Rule σ β}

theorem Differs.mono {unmatched unmatched' : Prop} {outcome outcome' : Outcome σ (Option α)}
    (differs : Differs unmatched stuck outcome outcome') (may : unmatched → unmatched') :
    Differs unmatched' stuck outcome outcome' := by
  cases differs with
  | noMatch => exact .noMatch
  | matched value rest => exact .matched value rest
  | failed => exact .failed
  | aborted => exact .aborted
  | unmatched here => exact .unmatched (may here)
  | accepted isStuck => exact .accepted isStuck

theorem Differs.sticks {unmatched : Prop} {outcome outcome' : Outcome σ (Option α)}
    (differs : Differs unmatched (fun _ => False) outcome outcome') :
    Differs unmatched stuck outcome outcome' := by
  cases differs with
  | noMatch => exact .noMatch
  | matched value rest => exact .matched value rest
  | failed => exact .failed
  | aborted => exact .aborted
  | unmatched here => exact .unmatched here
  | accepted isStuck => exact isStuck.elim

theorem agrees_of (parser : Parser σ α) : Agrees (of parser) (of parser) := by
  intro answered answered' text
  simp only [of, Parser.map]
  cases parser text with
  | noMatch => exact .noMatch
  | failed => exact .failed
  | aborted => exact .aborted
  | matched value rest => exact .matched value rest

theorem Tolerates.map {f : α → β} (tolerates : Tolerates lead stuck plain handled) :
    Tolerates lead stuck (plain.map f) (handled.map f) := by
  intro answered answered' text
  have here := tolerates answered answered' text
  simp only [Rule.map]
  generalize plain answered text = result at here ⊢
  generalize handled answered' text = result' at here ⊢
  obtain ⟨outcome, _⟩ := result
  obtain ⟨outcome', _⟩ := result'
  cases here with
  | noMatch => exact .noMatch
  | matched value rest => exact .matched (f value) rest
  | failed => exact .failed
  | aborted => exact .aborted
  | unmatched may => exact .unmatched may
  | accepted isStuck => exact .accepted isStuck

/-- A choice that is tried where the first one went without a match finds nothing there. -/
theorem Tolerates.orElse {choice choice' : Rule σ α}
    (tolerates : Tolerates lead stuck plain handled) (choices : Tolerates also stuck choice choice')
    (apart : ∀ text, lead text → ∀ answered, choice' answered text = (.noMatch, answered)) :
    Tolerates (fun text => lead text ∨ also text) stuck (plain.orElse choice)
      (handled.orElse choice') := by
  intro answered answered' text
  have here := tolerates answered answered' text
  simp only [Rule.orElse]
  generalize plain answered text = result at here ⊢
  generalize handled answered' text = result' at here ⊢
  obtain ⟨outcome, middle⟩ := result
  obtain ⟨outcome', middle'⟩ := result'
  cases here with
  | noMatch => exact (choices middle middle' text).mono Or.inr
  | matched value rest => exact .matched value rest
  | failed => exact .failed
  | aborted => exact .aborted
  | unmatched may =>
      simp only [apart text may]
      exact .unmatched (Or.inl may)
  | accepted isStuck => exact .accepted isStuck

/-- Behind what agrees, a rule that goes without a match fails like any expectation. -/
theorem Agrees.followedBy {f : α → β → γ} (agrees : Agrees first first')
    (tolerates : Tolerates lead stuck second second') :
    Tolerates (fun _ => False) stuck (first.followedBy f second) (first'.followedBy f second') := by
  intro answered answered' text
  have front := agrees answered answered' text
  simp only [Rule.followedBy]
  generalize first answered text = result at front ⊢
  generalize first' answered' text = result' at front ⊢
  obtain ⟨outcome, middle⟩ := result
  obtain ⟨outcome', middle'⟩ := result'
  cases front with
  | noMatch => exact .noMatch
  | failed => exact .failed
  | aborted => exact .aborted
  | unmatched may => exact may.elim
  | accepted isStuck => exact isStuck.elim
  | matched value rest =>
      have back := tolerates middle middle' rest
      dsimp only
      generalize second middle rest = result at back ⊢
      generalize second' middle' rest = result' at back ⊢
      obtain ⟨outcome, _⟩ := result
      obtain ⟨outcome', _⟩ := result'
      cases back with
      | noMatch => exact .failed
      | matched other rest => exact .matched (f value other) rest
      | failed => exact .failed
      | aborted => exact .aborted
      | unmatched may => exact .failed
      | accepted isStuck => exact .accepted isStuck

/-- What closes a rule does not stand where nothing goes on. -/
theorem Tolerates.closed {f : α → β → γ} (tolerates : Tolerates (fun _ => False) stuck first first')
    (agrees : Agrees second second')
    (misses : ∀ text, stuck text → ∀ answered, second' answered text = (.noMatch, answered)) :
    Agrees (first.followedBy f second) (first'.followedBy f second') := by
  intro answered answered' text
  have front := tolerates answered answered' text
  simp only [Rule.followedBy]
  generalize first answered text = result at front ⊢
  generalize first' answered' text = result' at front ⊢
  obtain ⟨outcome, middle⟩ := result
  obtain ⟨outcome', middle'⟩ := result'
  cases front with
  | noMatch => exact .noMatch
  | failed => exact .failed
  | aborted => exact .aborted
  | unmatched may => exact may.elim
  | accepted isStuck =>
      simp only [misses _ isStuck]
      exact .failed
  | matched value rest =>
      have back := agrees middle middle' rest
      dsimp only
      generalize second middle rest = result at back ⊢
      generalize second' middle' rest = result' at back ⊢
      obtain ⟨outcome, _⟩ := result
      obtain ⟨outcome', _⟩ := result'
      cases back with
      | noMatch => exact .failed
      | matched other rest => exact .matched (f value other) rest
      | failed => exact .failed
      | aborted => exact .aborted
      | unmatched may => exact may.elim
      | accepted isStuck => exact isStuck.elim

theorem Agrees.manyUpTo (agrees : Agrees plain handled) (fuel : Nat) :
    Agrees (plain.manyUpTo fuel) (handled.manyUpTo fuel) := by
  induction fuel with
  | zero => exact fun _ _ text => .matched [] text
  | succ fuel ih =>
      intro answered answered' text
      have front := agrees answered answered' text
      simp only [Rule.manyUpTo]
      generalize plain answered text = result at front ⊢
      generalize handled answered' text = result' at front ⊢
      obtain ⟨outcome, middle⟩ := result
      obtain ⟨outcome', middle'⟩ := result'
      cases front with
      | noMatch => exact .matched [] text
      | failed => exact .failed
      | aborted => exact .aborted
      | unmatched may => exact may.elim
      | accepted isStuck => exact isStuck.elim
      | matched value rest =>
          have back := ih middle middle' rest
          dsimp only
          generalize plain.manyUpTo fuel middle rest = result at back ⊢
          generalize handled.manyUpTo fuel middle' rest = result' at back ⊢
          obtain ⟨outcome, _⟩ := result
          obtain ⟨outcome', _⟩ := result'
          cases back with
          | noMatch => exact .noMatch
          | matched values rest => exact .matched (value :: values) rest
          | failed => exact .failed
          | aborted => exact .aborted
          | unmatched may => exact may.elim
          | accepted isStuck => exact isStuck.elim

theorem Agrees.many (agrees : Agrees plain handled) : Agrees plain.many handled.many :=
  fun _ _ _ => agrees.manyUpTo _ _ _ _

theorem Agrees.plus (agrees : Agrees plain handled) : Agrees plain.plus handled.plus :=
  agrees.followedBy agrees.many

/-- A rule with a handler whatever the handler answers. -/
theorem Tolerates.onError {answers : Nat → Answer}
    (tolerates : Tolerates (fun _ => False) stuck plain handled) (leads : plain.Leads clear lead)
    (sticks : ∀ text, lead text → stuck text) :
    Tolerates lead stuck (plain.onError fun _ => .rethrow) (handled.onError answers) := by
  intro answered answered' text
  have here := tolerates answered answered' text
  have led := leads answered text
  simp only [Rule.onError]
  generalize plain answered text = result at here led ⊢
  generalize handled answered' text = result' at here ⊢
  obtain ⟨outcome, middle⟩ := result
  obtain ⟨outcome', middle'⟩ := result'
  cases here with
  | noMatch => exact .noMatch
  | matched value rest => exact .matched value rest
  | aborted => exact .aborted
  | unmatched may => exact may.elim
  | accepted isStuck => exact .accepted isStuck
  | failed =>
      have here : lead text := Classical.byContradiction fun none => by
        rcases led none with misses | ⟨_, aborts⟩
        · cases misses
        · cases aborts
      dsimp only
      cases answers middle' with
      | fail => exact .unmatched here
      | accept => exact .accepted (sticks text here)
      | rethrow => exact .failed

theorem agrees_fix {rule rule' : Rule σ α → Rule σ α}
    (leads : ∀ inner, (rule' inner).Leads clear lead)
    (agrees : ∀ {inner inner' : Rule σ α}, inner'.Leads clear lead → Agrees inner inner' →
      Agrees (rule inner) (rule' inner')) : Agrees (fix rule) (fix rule') := by
  have upTo : ∀ fuel, (fixUpTo rule' fuel).Leads clear lead ∧
      Agrees (fixUpTo rule fuel) (fixUpTo rule' fuel) := by
    intro fuel
    induction fuel with
    | zero => exact ⟨fun _ _ _ => Or.inl rfl, fun _ _ _ => .noMatch⟩
    | succ fuel ih => exact ⟨leads _, agrees ih.1 ih.2⟩
  exact fun _ _ _ => (upTo _).2 _ _ _

end Tolerates

end Rule

end Policer.Lib.Expectation
