import Mathlib.Data.List.Basic
import Mathlib.Data.List.TakeWhile
import Mathlib.Algebra.Group.Nat.Defs

/-!
# Numbers as C reads them

`strtoull` with base 0, as the C standard describes it: white space, a sign, a prefix that names
the base, and as many digits as there are. `Numeral` says without a reader what a text of digits
denotes, and `strtoull_numeral` that the reader finds just that.
-/

namespace Policer.Lib.CNumber

/-- `isspace` in the C locale. -/
def isSpace (c : Char) : Bool := " \t\n\x0b\x0c\r".toList.contains c

/-- The value of a character as a digit of a base up to 36. -/
def digitValue (c : Char) : Nat :=
  if c.isDigit then c.toNat - '0'.toNat
  else if c.isLower then c.toNat - 'a'.toNat + 10
  else if c.isUpper then c.toNat - 'A'.toNat + 10
  else 36

def isDigit (base : Nat) (c : Char) : Bool := digitValue c < base

/-- The number digits stand for. -/
def numberOf (base : Nat) (digits : List Char) : Nat :=
  digits.foldl (fun number c => number * base + digitValue c) 0

/-- The prefix of base 0: the base and the text from its digits on. -/
def baseOf : List Char → Nat × List Char
  | '0' :: x :: d :: rest =>
      if (x == 'x' || x == 'X') && isDigit 16 d then (16, d :: rest) else (8, '0' :: x :: d :: rest)
  | '0' :: rest => (8, '0' :: rest)
  | text => (10, text)

/-- A sign: whether it is a minus, and the text behind it. -/
def signOf : List Char → Bool × List Char
  | '-' :: rest => (true, rest)
  | '+' :: rest => (false, rest)
  | text => (false, text)

/-- `strtoull(text, &end, 0)`: the number and the text from `end` on; `none` is `ERANGE`. -/
def strtoull (text : List Char) : Option (Nat × List Char) :=
  let signed := signOf (text.dropWhile isSpace)
  let based := baseOf signed.2
  let digits := based.2.takeWhile (isDigit based.1)
  if digits = [] then some (0, text)
  else if 2 ^ 64 ≤ numberOf based.1 digits then none
  else
    some (if signed.1 then (2 ^ 64 - numberOf based.1 digits) % 2 ^ 64
      else numberOf based.1 digits, based.2.dropWhile (isDigit based.1))

/-- `strtoul(text, &end, 10)` with 64 bits: the number and the text from `end` on. -/
def strtoul (text : List Char) : Nat × List Char :=
  let signed := signOf (text.dropWhile isSpace)
  let digits := signed.2.takeWhile (isDigit 10)
  if digits = [] then (0, text)
  else
    (if 2 ^ 64 ≤ numberOf 10 digits then 2 ^ 64 - 1
      else if signed.1 then (2 ^ 64 - numberOf 10 digits) % 2 ^ 64
      else numberOf 10 digits, signed.2.dropWhile (isDigit 10))

/-! ### What is a number -/

/-- A text of digits with the prefix of its base, and the number it denotes. -/
inductive Numeral : List Char → Nat → Prop where
  | decimal {d : Char} {rest : List Char} (first : d ≠ '0')
      (digits : ∀ c ∈ d :: rest, isDigit 10 c = true) :
      Numeral (d :: rest) (numberOf 10 (d :: rest))
  | octal {rest : List Char} (digits : ∀ c ∈ rest, isDigit 8 c = true) :
      Numeral ('0' :: rest) (numberOf 8 ('0' :: rest))
  | hex {x d : Char} {rest : List Char} (isX : x = 'x' ∨ x = 'X')
      (digits : ∀ c ∈ d :: rest, isDigit 16 c = true) :
      Numeral ('0' :: x :: d :: rest) (numberOf 16 (d :: rest))

/-- No digit of any of the bases, and no part of a prefix. -/
def EndsNumeral (text : List Char) : Prop :=
  ∀ c, text.head? = some c → isDigit 16 c = false ∧ c ≠ 'x' ∧ c ≠ 'X'

theorem isDigit_mono {small large : Nat} (le : small ≤ large) {c : Char}
    (digit : isDigit small c = true) : isDigit large c = true := by
  simp only [isDigit, decide_eq_true_eq] at digit ⊢
  omega

/-- The digits in front of a text that ends them. -/
theorem takeWhile_digits {base : Nat} (le : base ≤ 16) {digits rest : List Char}
    (all : ∀ c ∈ digits, isDigit base c = true) (ends : EndsNumeral rest) :
    (digits ++ rest).takeWhile (isDigit base) = digits ∧
      (digits ++ rest).dropWhile (isDigit base) = rest := by
  have stops : rest.takeWhile (isDigit base) = [] ∧ rest.dropWhile (isDigit base) = rest := by
    cases rest with
    | nil => exact ⟨rfl, rfl⟩
    | cons c rest =>
        have noDigit : isDigit base c ≠ true := by
          intro digit
          have other := (ends c rfl).1
          rw [isDigit_mono le digit] at other
          cases other
        exact ⟨List.takeWhile_cons_of_neg noDigit, List.dropWhile_cons_of_neg noDigit⟩
  rw [List.takeWhile_append_of_pos all, List.dropWhile_append_of_pos all, stops.1, stops.2]
  exact ⟨List.append_nil _, rfl⟩

theorem baseOf_zero {rest : List Char}
    (noPrefix : ∀ c, rest.head? = some c → c ≠ 'x' ∧ c ≠ 'X') :
    baseOf ('0' :: rest) = (8, '0' :: rest) := by
  match rest with
  | [] => rfl
  | [_] => rfl
  | x :: d :: rest =>
      obtain ⟨lower, upper⟩ := noPrefix x rfl
      simp [baseOf, lower, upper]

theorem baseOf_nonzero {d : Char} (first : d ≠ '0') (rest : List Char) :
    baseOf (d :: rest) = (10, d :: rest) := by
  unfold baseOf
  split
  · rename_i same
    exact absurd (List.cons.inj same).1 first
  · rename_i same
    exact absurd (List.cons.inj same).1 first
  · rfl

/-- In front of a numeral the reader finds its base and its digits. -/
theorem Numeral.baseOf {text rest : List Char} {number : Nat} (numeral : Numeral text number)
    (ends : EndsNumeral rest) :
    ∃ base digits, CNumber.baseOf (text ++ rest) = (base, digits ++ rest) ∧ base ≤ 16 ∧
      digits ≠ [] ∧ (∀ c ∈ digits, isDigit base c = true) ∧ numberOf base digits = number := by
  cases numeral with
  | @decimal d digits first all =>
      exact ⟨10, d :: digits, baseOf_nonzero first _, by omega, by simp, all, rfl⟩
  | @octal digits all =>
      refine ⟨8, '0' :: digits, baseOf_zero ?_, by omega, by simp, ?_, rfl⟩
      · intro c isNext
        cases digits with
        | nil => exact (ends c isNext).2
        | cons d digits =>
            obtain rfl : d = c := by simpa using isNext
            have digit := all d List.mem_cons_self
            constructor <;>
            · rintro rfl
              revert digit
              decide
      · exact List.forall_mem_cons.mpr ⟨by decide, all⟩
  | @hex x d digits isX all =>
      refine ⟨16, d :: digits, ?_, Nat.le_refl 16, by simp, all, rfl⟩
      have digit := all d List.mem_cons_self
      rcases isX with rfl | rfl <;> simp [CNumber.baseOf, digit]

/-- The first character of a numeral is a digit. -/
theorem Numeral.head {text : List Char} {number : Nat} (numeral : Numeral text number) :
    ∃ c rest, text = c :: rest ∧ isDigit 10 c = true := by
  cases numeral with
  | decimal first all => exact ⟨_, _, rfl, all _ List.mem_cons_self⟩
  | octal all => exact ⟨_, _, rfl, by decide⟩
  | hex isX all => exact ⟨_, _, rfl, by decide⟩

/-- A sign in front of a numeral. -/
inductive Sign where
  | none
  | plus
  | minus

def Sign.text : Sign → List Char
  | .none => []
  | .plus => ['+']
  | .minus => ['-']

def Sign.isMinus : Sign → Bool
  | .minus => true
  | _ => false

/-- A decimal digit is neither white space nor a sign. -/
theorem no_digit {c : Char} (digit : isDigit 10 c = true) :
    isSpace c = false ∧ c ≠ '-' ∧ c ≠ '+' := by
  refine ⟨?_, ?_, ?_⟩
  · rw [Bool.eq_false_iff]
    intro space
    have others : (" \t\n\x0b\x0c\r".toList.all fun d => !isDigit 10 d) = true := by decide
    simpa [digit] using List.all_eq_true.mp others c (List.contains_iff_mem.mp space)
  · rintro rfl
    revert digit
    decide
  · rintro rfl
    revert digit
    decide

/-- What `strtoull` makes of a number: the number or its negative, with the width of 64 bits. -/
theorem strtoull_numeral {spaces text rest : List Char} {sign : Sign} {number : Nat}
    (blank : ∀ c ∈ spaces, isSpace c = true) (numeral : Numeral text number)
    (ends : EndsNumeral rest) (fits : number < 2 ^ 64) :
    strtoull (spaces ++ (sign.text ++ (text ++ rest))) =
      some (if sign.isMinus then (2 ^ 64 - number) % 2 ^ 64 else number, rest) := by
  obtain ⟨c, others, isText, digit⟩ := numeral.head
  obtain ⟨noSpace, noMinus, noPlus⟩ := no_digit digit
  have skipped : (spaces ++ (sign.text ++ (text ++ rest))).dropWhile isSpace =
      sign.text ++ (text ++ rest) := by
    rw [List.dropWhile_append_of_pos blank]
    subst isText
    cases sign with
    | none => exact List.dropWhile_cons_of_neg (by simp [noSpace])
    | plus => rfl
    | minus => rfl
  have signed : signOf (sign.text ++ (text ++ rest)) = (sign.isMinus, text ++ rest) := by
    cases sign with
    | plus => rfl
    | minus => rfl
    | none =>
        subst isText
        change signOf (c :: (others ++ rest)) = _
        unfold signOf
        split
        · rename_i same
          exact absurd (List.cons.inj same).1 noMinus
        · rename_i same
          exact absurd (List.cons.inj same).1 noPlus
        · rfl
  obtain ⟨base, digits, isBased, le, nonempty, all, isNumber⟩ := numeral.baseOf ends
  obtain ⟨taken, dropped⟩ := takeWhile_digits le all ends
  unfold strtoull
  simp only [skipped, signed, isBased, taken, dropped, isNumber, nonempty, ↓reduceIte,
    Nat.not_le.mpr fits]

theorem isDigit_ten {c : Char} (digit : c.isDigit = true) : isDigit 10 c = true := by
  have high : c.toNat ≤ '9'.toNat := (Char.isDigit_iff_toNat.mp digit).2
  rw [isDigit, decide_eq_true_eq, digitValue, if_pos digit]
  change c.toNat ≤ 57 at high
  change c.toNat - 48 < 10
  omega

theorem signOf_digit {c : Char} (digit : isDigit 10 c = true) (rest : List Char) :
    signOf (c :: rest) = (false, c :: rest) := by
  obtain ⟨_, noMinus, noPlus⟩ := no_digit digit
  unfold signOf
  split
  · rename_i same
    exact absurd (List.cons.inj same).1 noMinus
  · rename_i same
    exact absurd (List.cons.inj same).1 noPlus
  · rfl

theorem numberOf_ten {digits : List Char} (all : ∀ c ∈ digits, c.isDigit = true) :
    numberOf 10 digits = Nat.ofDigitChars 10 digits 0 := by
  refine List.foldl_ext _ _ _ fun number c member => ?_
  rw [digitValue, if_pos (all c member), Nat.mul_comm]

/-- `strtoul` reads the digits of a number, and cuts it when it does not fit. -/
theorem strtoul_toDigits (n : Nat) :
    strtoul (Nat.toDigits 10 n) = (min n (2 ^ 64 - 1), []) := by
  have all : ∀ c ∈ Nat.toDigits 10 n, c.isDigit = true :=
    fun c member => Nat.isDigit_of_mem_toDigits (by decide) (by decide) member
  have some : Nat.toDigits 10 n ≠ [] := Nat.toDigits_ne_nil
  have number : numberOf 10 (Nat.toDigits 10 n) = n := by
    rw [numberOf_ten all, Nat.ofDigitChars_ten_toDigits]
  generalize Nat.toDigits 10 n = digits at *
  obtain ⟨c, rest, rfl⟩ := List.exists_cons_of_ne_nil some
  have first := isDigit_ten (all c List.mem_cons_self)
  have noSpace : isSpace c ≠ true := by simp [(no_digit first).1]
  have taken : (c :: rest).takeWhile (isDigit 10) = c :: rest :=
    List.takeWhile_eq_self_iff.mpr fun d member => isDigit_ten (all d member)
  have dropped : (c :: rest).dropWhile (isDigit 10) = [] :=
    List.dropWhile_eq_nil_iff.mpr fun d member => isDigit_ten (all d member)
  simp only [strtoul, List.dropWhile_cons_of_neg noSpace, signOf_digit first, taken, dropped,
    number, if_neg some]
  split
  · rw [Nat.min_eq_right (by omega)]
  · rw [Nat.min_eq_left (by omega)]
    rfl

/-- A number without a minus does not start with one. -/
theorem head_ne_minus {spaces text rest : List Char} {sign : Sign} {number : Nat}
    (blank : ∀ c ∈ spaces, isSpace c = true) (numeral : Numeral text number)
    (noMinus : sign.isMinus = false) :
    (spaces ++ (sign.text ++ (text ++ rest))).head? ≠ some '-' := by
  intro isFirst
  cases spaces with
  | cons c spaces =>
      obtain rfl : c = '-' := by simpa using isFirst
      have space := blank '-' List.mem_cons_self
      revert space
      decide
  | nil =>
      cases sign with
      | minus => cases noMinus
      | plus => cases isFirst
      | none =>
          obtain ⟨c, others, rfl, digit⟩ := numeral.head
          obtain rfl : c = '-' := by simpa [Sign.text] using isFirst
          exact (no_digit digit).2.1 rfl

end Policer.Lib.CNumber
