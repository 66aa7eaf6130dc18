import Policer.Parsing.Layout

/-!
# Numbers of selectors

`double_` reads decimal literals that can be scaled, the infinities and `nan`, and every one of them
has a text that is read as itself.
-/

namespace Policer.Parsing

open Policer.Lib.Expectation Rules

/-! ### Texts of numbers -/

/-- A literal that is read: there are digits, the exponent is an `int`, and `pow10` has the powers
the number is scaled by. -/
structure IsReal (digits fraction : Str) (exponent : Int) : Prop where
  filled : digits ++ fraction ≠ []
  areDigits : ∀ c ∈ digits ++ fraction, c.isDigit = true
  isInt : -2 ^ 31 ≤ exponent ∧ exponent < 2 ^ 31
  scales : -616 < exponent - fraction.length ∧ exponent - fraction.length < 309

/-- A number that has a literal. -/
def Double.IsLiteral : Double → Prop
  | .literal _ digits fraction exponent => IsReal digits fraction exponent
  | .infinity _ | .nan => True

def signText (negative : Bool) : Str := if negative then ['-'] else []

/-- A text for an exponent. -/
def exponentText (exponent : Int) : Str :=
  signText (exponent < 0) ++ Nat.toDigits 10 exponent.natAbs

/-- A text for a number. -/
def Double.text : Double → Str
  | .literal negative digits fraction exponent =>
      signText negative ++ (digits ++ '.' :: (fraction ++ 'e' :: exponentText exponent))
  | .infinity negative => signText negative ++ "inf".toList
  | .nan => "nan".toList

theorem isDigit_toDigits (n : Nat) : ∀ c ∈ Nat.toDigits 10 n, c.isDigit = true :=
  fun _ member => Nat.isDigit_of_mem_toDigits (by decide) (by decide) member

theorem space_of_isDigit {c : Char} (isDigit : c.isDigit = true) : space c = false := by
  rw [Bool.eq_false_iff]
  intro isSpace
  simp only [space, Bool.or_eq_true, beq_iff_eq] at isSpace
  rcases isSpace with ((((rfl | rfl) | rfl) | rfl) | rfl) | rfl <;> cases isDigit

theorem isVisible_of_isDigit {c : Char} {tail : Str} (isDigit : c.isDigit = true) :
    isVisible (c :: tail) = true := by
  simp [isVisible, space_of_isDigit isDigit, isAscii_of_isDigit isDigit]

theorem isVisible_text {number : Double} (literal : number.IsLiteral) :
    isVisible number.text = true := by
  have front : ∀ {negative : Bool} {text : Str}, isVisible text = true →
      isVisible (signText negative ++ text) = true := by
    intro negative text visible
    cases negative with
    | true => rfl
    | false => exact visible
  cases number with
  | literal negative digits fraction exponent =>
      refine front ?_
      cases digits with
      | nil => rfl
      | cons c tail => exact isVisible_of_isDigit (literal.areDigits c (by simp))
  | infinity negative => exact front rfl
  | nan => rfl

/-! ### Reading them -/

section Reading

variable {rest : Str}

/-- Digits in front of something else. -/
theorem extractDigits_append {digits : Str} (filled : digits ≠ [])
    (areDigits : ∀ c ∈ digits, c.isDigit = true)
    (ends : ∀ c, rest.head? = some c → c.isDigit = false) :
    extractDigits (digits ++ rest) = some (digits, rest) := by
  have taken : (digits ++ rest).takeWhile Char.isDigit = digits := by
    rw [List.takeWhile_append_of_pos areDigits, List.append_right_eq_self]
    cases rest with
    | nil => rfl
    | cons c rest => exact List.takeWhile_cons_of_neg (by simp [ends c rfl])
  have dropped : (digits ++ rest).dropWhile Char.isDigit = rest := by
    rw [List.dropWhile_append_of_pos areDigits]
    cases rest with
    | nil => rfl
    | cons c rest => exact List.dropWhile_cons_of_neg (by simp [ends c rfl])
  simp only [extractDigits, taken, dropped]
  simp [filled]

theorem extractSign_signText (negative : Bool) {text : Str}
    (unsigned : ∀ c, text.head? = some c → c ≠ '-' ∧ c ≠ '+') :
    extractSign (signText negative ++ text) = (negative, text) := by
  cases negative with
  | true => rfl
  | false =>
      cases text with
      | nil => rfl
      | cons c text =>
          obtain ⟨noMinus, noPlus⟩ := unsigned c rfl
          change extractSign (c :: text) = _
          rw [extractSign]
          · rintro _ same
            exact noMinus (List.cons.inj same).1
          · rintro _ same
            exact noPlus (List.cons.inj same).1

theorem ne_of_isDigit {c d : Char} (isDigit : c.isDigit = true) (other : d.isDigit = false) :
    c ≠ d := by
  rintro rfl
  rw [isDigit] at other
  cases other

/-- An exponent in front of something else. -/
theorem parseExponent_exponentText {exponent : Int}
    (isInt : -2 ^ 31 ≤ exponent ∧ exponent < 2 ^ 31)
    (ends : ∀ c, rest.head? = some c → c.isDigit = false) :
    parseExponent ('e' :: (exponentText exponent ++ rest)) = some (some exponent, rest) := by
  have digits := extractDigits_append Nat.toDigits_ne_nil (isDigit_toDigits exponent.natAbs) ends
  have unsigned : ∀ c, (Nat.toDigits 10 exponent.natAbs ++ rest).head? = some c →
      c ≠ '-' ∧ c ≠ '+' := by
    obtain ⟨d, tail, made⟩ := List.exists_cons_of_ne_nil (@Nat.toDigits_ne_nil exponent.natAbs 10)
    have isDigit := isDigit_toDigits exponent.natAbs d (made ▸ List.mem_cons_self)
    rw [made]
    rintro c same
    cases same
    exact ⟨ne_of_isDigit isDigit (by decide), ne_of_isDigit isDigit (by decide)⟩
  have signed : (if (decide (exponent < 0)) = true then -(exponent.natAbs : Int)
      else exponent.natAbs) = exponent := by
    simp only [decide_eq_true_iff]
    split <;> omega
  rw [parseExponent, if_pos (Or.inl rfl), exponentText, List.append_assoc]
  simp only [extractInt, extractSign_signText _ unsigned, digits, Option.bind_some,
    Nat.ofDigitChars_ten_toDigits, signed, isInt, and_self, if_true, Option.map_some]

theorem finishReal_exponentText (negative : Bool) {digits fraction : Str} {exponent : Int}
    (real : IsReal digits fraction exponent)
    (ends : ∀ c, rest.head? = some c → c.isDigit = false) :
    finishReal negative digits fraction ('e' :: (exponentText exponent ++ rest)) =
      .matched (.literal negative digits fraction exponent) rest := by
  simp only [finishReal, parseExponent_exponentText real.isInt ends, scale, if_pos real.scales]

/-- A literal is read off its text. -/
theorem extractReal_literal (negative : Bool) {digits fraction : Str} {exponent : Int}
    (real : IsReal digits fraction exponent)
    (ends : ∀ c, rest.head? = some c → c.isDigit = false) :
    extractReal ((Double.literal negative digits fraction exponent).text ++ rest) =
      .matched (.literal negative digits fraction exponent) rest := by
  have areDigits := List.forall_mem_append.mp real.areDigits
  have whole : (Double.literal negative digits fraction exponent).text ++ rest =
      signText negative ++ (digits ++ '.' :: (fraction ++ 'e' :: (exponentText exponent ++ rest)))
      := by simp [Double.text]
  have unsigned : ∀ c, (digits ++ '.' :: (fraction ++ 'e' :: (exponentText exponent ++ rest))).head?
      = some c → c ≠ '-' ∧ c ≠ '+' := by
    cases digits with
    | nil =>
        rintro c same
        cases same
        decide
    | cons d tail =>
        have isDigit := areDigits.1 d List.mem_cons_self
        rintro c same
        cases same
        exact ⟨ne_of_isDigit isDigit (by decide), ne_of_isDigit isDigit (by decide)⟩
  have back : fraction ≠ [] → extractDigits (fraction ++ 'e' :: (exponentText exponent ++ rest)) =
      some (fraction, 'e' :: (exponentText exponent ++ rest)) := fun filled =>
    extractDigits_append filled areDigits.2 (by rintro c same; cases same; decide)
  rw [whole]
  simp only [extractReal, extractSign_signText negative unsigned]
  by_cases filled : digits = []
  · subst filled
    have noDigits : extractDigits ('.' :: (fraction ++ 'e' :: (exponentText exponent ++ rest))) =
        none := rfl
    have noSpecial : parseSpecial negative
        ('.' :: (fraction ++ 'e' :: (exponentText exponent ++ rest))) =
          (none, '.' :: (fraction ++ 'e' :: (exponentText exponent ++ rest))) := rfl
    simp only [List.nil_append, noDigits, noSpecial, back real.filled]
    exact finishReal_exponentText negative real ends
  · have front : extractDigits
        (digits ++ '.' :: (fraction ++ 'e' :: (exponentText exponent ++ rest))) =
          some (digits, '.' :: (fraction ++ 'e' :: (exponentText exponent ++ rest))) :=
      extractDigits_append filled areDigits.1 (by rintro c same; cases same; decide)
    simp only [front]
    by_cases more : fraction = []
    · subst more
      have noFraction : extractDigits ('e' :: (exponentText exponent ++ rest)) = none := rfl
      simp only [List.nil_append, noFraction]
      exact finishReal_exponentText negative real ends
    · simp only [back more]
      exact finishReal_exponentText negative real ends

/-- What may follow an operand of an expression. -/
def operandSigns : Str := "+-*/,;)".toList

/-- No word goes on behind an operand. -/
theorem stringParse_ends {upper lower : Char} {uppers lowers : Str}
    (follows : EndsAt operandSigns rest)
    (noUpper : upper ∉ " \t\n\x0b\x0c\r".toList ++ operandSigns)
    (noLower : lower ∉ " \t\n\x0b\x0c\r".toList ++ operandSigns) :
    stringParse (upper :: uppers) (lower :: lowers) rest = none := by
  cases rest with
  | nil => rfl
  | cons c rest =>
      have other := Ne.symm (follows.ne rfl noUpper)
      rw [stringParse, if_pos ⟨other, Ne.symm (follows.ne rfl noLower)⟩]

/-- A number that has a literal is read off its text. -/
theorem extractReal_text {number : Double} (literal : number.IsLiteral)
    (follows : EndsAt operandSigns rest) :
    extractReal (number.text ++ rest) = .matched number rest := by
  cases number with
  | literal negative digits fraction exponent =>
      exact extractReal_literal negative literal fun c first => follows.rejects (by decide) first
  | infinity negative =>
      have more : stringParse "inity".toList "INITY".toList rest = none :=
        stringParse_ends follows (by decide) (by decide)
      have unsigned := @extractSign_signText negative ("inf".toList ++ rest) (by
        rintro c same
        cases same
        decide)
      have noNan : parseNan ("inf".toList ++ rest) = (false, "inf".toList ++ rest) := rfl
      have inf : stringParse "inf".toList "INF".toList ("inf".toList ++ rest) = some rest := rfl
      have special : parseSpecial negative ("inf".toList ++ rest) =
          (some (.infinity negative), rest) := by
        simp only [parseSpecial, noNan, parseInf, inf, Option.map_some, more, Option.getD_none]
      have noDigits : extractDigits ("inf".toList ++ rest) = none := rfl
      rw [Double.text, List.append_assoc]
      simp only [extractReal, unsigned, noDigits, special]
  | nan =>
      have noBracket : ∀ more, rest ≠ '(' :: more := by
        rintro more rfl
        exact follows.ne rfl (show '(' ∉ _ by decide) rfl
      have isNan : parseNan ("nan".toList ++ rest) = (true, rest) := by
        have nan : stringParse "nan".toList "NAN".toList ("nan".toList ++ rest) = some rest := rfl
        rw [parseNan, nan]
        split
        · rename_i found
          cases found
        · rename_i found
          exact absurd (Option.some.inj found) (noBracket _)
        · rename_i found
          rw [Option.some.inj found]
      have unsigned : extractSign ("nan".toList ++ rest) = (false, "nan".toList ++ rest) := rfl
      have noDigits : extractDigits ("nan".toList ++ rest) = none := rfl
      simp only [Double.text, extractReal, unsigned, noDigits, parseSpecial, isNan]

end Reading

/-! ### What is read -/

section Literals

theorem isDigit_of_extractDigits {text digits rest : Str}
    (found : extractDigits text = some (digits, rest)) :
    digits ≠ [] ∧ ∀ c ∈ digits, c.isDigit = true := by
  rw [extractDigits] at found
  split at found
  · cases found
  · rename_i filled
    cases found
    refine ⟨by simpa using filled, fun c member => ?_⟩
    exact List.mem_takeWhile_imp member

theorem isInt_of_extractInt {text rest : Str} {value : Int}
    (found : extractInt text = some (value, rest)) : -2 ^ 31 ≤ value ∧ value < 2 ^ 31 := by
  rw [extractInt] at found
  generalize extractSign text = signed at found
  obtain ⟨⟨digits, behind⟩, _, found⟩ := Option.bind_eq_some_iff.mp found
  obtain ⟨range, same⟩ := Option.ite_none_right_eq_some.mp found
  have isValue := congrArg Prod.fst (Option.some.inj same)
  dsimp only at isValue
  rwa [isValue] at range

theorem isInt_of_parseExponent {text rest : Str} {exponent : Int}
    (found : parseExponent text = some (some exponent, rest)) :
    -2 ^ 31 ≤ exponent ∧ exponent < 2 ^ 31 := by
  cases text with
  | nil => cases found
  | cons c text =>
      rw [parseExponent] at found
      split at found
      · obtain ⟨⟨made, behind⟩, isInt, same⟩ := Option.map_eq_some_iff.mp found
        cases same
        exact isInt_of_extractInt isInt
      · cases found

theorem isLiteral_of_parseSpecial {negative : Bool} {text rest : Str} {number : Double}
    (reads : parseSpecial negative text = (some number, rest)) : number.IsLiteral := by
  unfold parseSpecial at reads
  split at reads
  · cases reads
    trivial
  · split at reads <;> cases reads
    trivial

theorem scale_eq_matched {negative : Bool} {digits fraction text rest : Str} {exponent : Int}
    {number : Double}
    (reads : scale negative digits fraction exponent text = .matched number rest) :
    (-616 < exponent - fraction.length ∧ exponent - fraction.length < 309) ∧
      number = .literal negative digits fraction exponent ∧ text = rest := by
  unfold scale at reads
  dsimp only at reads
  split at reads
  · rename_i scales
    cases reads
    exact ⟨scales, rfl, rfl⟩
  · cases reads

theorem isLiteral_of_scale {negative : Bool} {digits fraction text rest : Str} {exponent : Int}
    {number : Double} (filled : digits ++ fraction ≠ [])
    (areDigits : ∀ c ∈ digits ++ fraction, c.isDigit = true)
    (isInt : -2 ^ 31 ≤ exponent ∧ exponent < 2 ^ 31)
    (reads : scale negative digits fraction exponent text = .matched number rest) :
    number.IsLiteral := by
  obtain ⟨scales, rfl, _⟩ := scale_eq_matched reads
  exact ⟨filled, areDigits, isInt, scales⟩

theorem isLiteral_of_finishReal {negative : Bool} {digits fraction text rest : Str}
    {number : Double} (filled : digits ++ fraction ≠ [])
    (areDigits : ∀ c ∈ digits ++ fraction, c.isDigit = true)
    (reads : finishReal negative digits fraction text = .matched number rest) :
    number.IsLiteral := by
  unfold finishReal at reads
  split at reads
  · cases reads
  · rename_i found
    exact isLiteral_of_scale filled areDigits (isInt_of_parseExponent found) reads
  · split at reads
    · rename_i one
      have noFraction : fraction = [] := by
        rw [Bool.and_eq_true, List.isEmpty_iff] at one
        exact one.1
      subst noFraction
      split at reads
      · rename_i special
        cases reads
        exact isLiteral_of_parseSpecial special
      · cases reads
        exact ⟨filled, areDigits, by decide, by decide⟩
    · exact isLiteral_of_scale filled areDigits (by decide) reads

/-- What `double_` reads has a literal. -/
theorem isLiteral_of_double {text rest : Str} {number : Double}
    (reads : double_ text = .matched number rest) : number.IsLiteral := by
  obtain ⟨_, reads⟩ := preSkip_eq_matched.mp reads
  generalize text.dropWhile space = text at reads
  simp only [extractReal] at reads
  split at reads
  · rename_i found
    obtain ⟨filled, areDigits⟩ := isDigit_of_extractDigits found
    split at reads
    · rename_i more
      obtain ⟨_, alsoDigits⟩ := isDigit_of_extractDigits more
      exact isLiteral_of_finishReal (List.append_ne_nil_of_left_ne_nil filled _)
        (List.forall_mem_append.mpr ⟨areDigits, alsoDigits⟩) reads
    · exact isLiteral_of_finishReal (by simpa using filled) (by simpa using areDigits) reads
  · rename_i found
    obtain ⟨filled, areDigits⟩ := isDigit_of_extractDigits found
    exact isLiteral_of_finishReal (by simpa using filled) (by simpa using areDigits) reads
  · split at reads
    · rename_i special
      cases reads
      exact isLiteral_of_parseSpecial special
    · split at reads
      · rename_i fraction _ found
        obtain ⟨filled, areDigits⟩ := isDigit_of_extractDigits found
        exact isLiteral_of_finishReal (show [] ++ fraction ≠ [] from filled) areDigits reads
      · cases reads
    · cases reads

end Literals

end Policer.Parsing
