import Policer.Lib.Expectation
import Policer.Parsing.Ast
import Mathlib.Algebra.Group.Int.Defs

/-!
# The grammar of selectors

The rules of `selector_stage_def.hpp` with what they use of the parser library: a skipper of white
space, symbol tables that match the longest stored prefix, and `double_`. A rule is a parser of
the same name.
-/

namespace Policer.Parsing

open Policer.Lib.Expectation

/-! ### Parsers of the library -/

/-- `ascii::space`. -/
def space (c : Char) : Bool :=
  c == ' ' || c == '\t' || c == '\n' || c == '\x0b' || c == '\x0c' || c == '\r'

/-- What `ascii::isspace` asserts of a character. -/
def isAscii (c : Char) : Bool := c.toNat < 128

/-- Whether `skip_over` stops at the end or at a character `ascii::isspace` may be asked about. -/
def skips (text : Str) : Bool := (text.dropWhile space).head?.all isAscii

/-- `skip_over` in front of a parser. -/
def preSkip {α : Type} (parser : Parser Char α) : Parser Char α := fun text =>
  if skips text then parser (text.dropWhile space) else .aborted

/-- `lit`. -/
def lit (c : Char) : Parser Char Unit := preSkip fun
  | [] => .noMatch
  | d :: rest => if d = c then .matched () rest else .noMatch

/-- The longest stored prefix of a text with its value. -/
def prefixFind {α : Type} : List (Str × α) → Str → Option (Str × α)
  | [], _ => none
  | (stored, value) :: table, text =>
      match prefixFind table text with
      | none => if stored.isPrefixOf text then some (stored, value) else none
      | some other =>
          if stored.isPrefixOf text && other.1.length < stored.length then some (stored, value)
          else some other

/-- `x3::symbols`. -/
def symbols {α : Type} (table : List (Str × α)) : Parser Char α := preSkip fun text =>
  match prefixFind table text with
  | none => .noMatch
  | some (stored, value) => .matched value (text.drop stored.length)

/-- `string_parse` with the word in capitals and in small letters. -/
def stringParse : Str → Str → Str → Option Str
  | [], _, text => some text
  | _, [], text => some text
  | _ :: _, _ :: _, [] => none
  | upper :: uppers, lower :: lowers, c :: text =>
      if upper ≠ c ∧ lower ≠ c then none else stringParse uppers lowers text

/-- `parse_nan` with the place it stops at, which it has moved also when the parenthesis is not
closed. -/
def parseNan (text : Str) : Bool × Str :=
  match stringParse "nan".toList "NAN".toList text with
  | none => (false, text)
  | some ('(' :: rest) =>
      match rest.dropWhile (· != ')') with
      | [] => (false, '(' :: rest)
      | _ :: behind => (true, behind)
  | some rest => (true, rest)

/-- `parse_inf`. -/
def parseInf (text : Str) : Option Str :=
  (stringParse "inf".toList "INF".toList text).map fun rest =>
    (stringParse "inity".toList "INITY".toList rest).getD rest

/-- `parse_nan` or `parse_inf`, and the place they stop at otherwise. -/
def parseSpecial (negative : Bool) (text : Str) : Option Double × Str :=
  match parseNan text with
  | (true, rest) => (some .nan, rest)
  | (false, rest) =>
      match parseInf rest with
      | some behind => (some (.infinity negative), behind)
      | none => (none, rest)

/-- `extract_sign`. -/
def extractSign : Str → Bool × Str
  | '-' :: rest => (true, rest)
  | '+' :: rest => (false, rest)
  | text => (false, text)

/-- `extract_uint` with base 10: the digits, if there are any. -/
def extractDigits (text : Str) : Option (Str × Str) :=
  let digits := text.takeWhile Char.isDigit
  if digits.isEmpty then none else some (digits, text.dropWhile Char.isDigit)

/-- `extract_int`: it fails on a number that does not fit into an `int`. -/
def extractInt (text : Str) : Option (Int × Str) :=
  let (negative, text) := extractSign text
  (extractDigits text).bind fun (digits, rest) =>
    let size : Int := (Nat.ofDigitChars 10 digits 0 : Nat)
    let value := if negative then -size else size
    if -2 ^ 31 ≤ value ∧ value < 2 ^ 31 then some (value, rest) else none

/-- `scale` by a power of ten: `pow10` asserts that the power is in its table, and what lies below
`min_exponent10` is divided twice. -/
def scale (negative : Bool) (digits fraction : Str) (exponent : Int) (rest : Str) :
    Outcome Char Double :=
  let places := exponent - fraction.length
  if -616 < places ∧ places < 309 then .matched (.literal negative digits fraction exponent) rest
  else .aborted

/-- The exponent of a real number: `none` when `e` stands without one. -/
def parseExponent : Str → Option (Option Int × Str)
  | [] => some (none, [])
  | c :: rest =>
      if c = 'e' ∨ c = 'E' then (extractInt rest).map fun (exponent, rest) => (some exponent, rest)
      else some (none, c :: rest)

/-- `extract_real` behind a number or a point: `fraction` are the digits behind the point. -/
def finishReal (negative : Bool) (digits fraction rest : Str) : Outcome Char Double :=
  match parseExponent rest with
  | none => .noMatch
  | some (some exponent, rest) => scale negative digits fraction exponent rest
  | some (none, rest) =>
      -- A number that is one may go on as `1.#INF` in the way of `inf`.
      if fraction.isEmpty && Nat.ofDigitChars 10 digits 0 == 1 then
        match parseSpecial negative rest with
        | (some special, rest) => .matched special rest
        | (none, rest) => .matched (.literal negative digits [] 0) rest
      else scale negative digits fraction 0 rest

/-- `extract_real`. -/
def extractReal (text : Str) : Outcome Char Double :=
  let (negative, rest) := extractSign text
  match extractDigits rest with
  | some (digits, '.' :: rest) =>
      match extractDigits rest with
      | some (fraction, rest) => finishReal negative digits fraction rest
      | none => finishReal negative digits [] rest
  | some (digits, rest) => finishReal negative digits [] rest
  | none =>
      match parseSpecial negative rest with
      | (some special, rest) => .matched special rest
      | (none, '.' :: rest) =>
          match extractDigits rest with
          | some (fraction, rest) => finishReal negative [] fraction rest
          | none => .noMatch
      | (none, _) => .noMatch

/-- `double_`. -/
def double_ : Parser Char Double := preSkip extractReal

/-- `identifier`. -/
def identifier : Parser Char Identifier := preSkip fun text =>
  let name := text.takeWhile isIdentifierRest
  if valid : isIdentifier name = true then .matched ⟨name, valid⟩ (text.drop name.length)
  else .noMatch

/-- `(!(lit(stop))) > no_skip[char_]`: `char_` takes any character. -/
def charBut (stop : Char) : Parser Char Char := fun text =>
  match lit stop text with
  | .noMatch =>
      match text with
      | [] => .failed
      | c :: rest => .matched c rest
  | .aborted => .aborted
  | .failed => .noMatch
  | .matched _ _ => .noMatch

/-! ### Symbol tables -/

/-- `input_keyword` behind `define_input_keywords`. -/
def inputKeyword : List (Str × Unirec) :=
  [("SRC_IP".toList, .srcIP), ("DST_IP".toList, .dstIP), ("BYTES".toList, .bytes),
    ("LINK_BIT_FIELD".toList, .linkBitField), ("TIME_FIRST".toList, .timeFirst),
    ("TIME_LAST".toList, .timeLast), ("PACKETS".toList, .packets), ("SRC_PORT".toList, .srcPort),
    ("DST_PORT".toList, .dstPort), ("DIR_BIT_FIELD".toList, .dirBitField),
    ("PROTOCOL".toList, .protocol), ("TCP_FLAGS".toList, .tcpFlags), ("TOS".toList, .tos),
    ("TTL".toList, .ttl)]

/-- `sel_additive_op`. -/
def selAdditiveOp : List (Str × SelOptoken) := [("+".toList, .plus), ("-".toList, .minus)]

/-- `sel_multiplicative_op`. -/
def selMultiplicativeOp : List (Str × SelOptoken) := [("*".toList, .times), ("/".toList, .divide)]

/-- `sel_unary_op`. -/
def selUnaryOp : List (Str × SelOptoken) := [("+".toList, .positive), ("-".toList, .negative)]

/-! ### Rules -/

/-- `'"' > +((!(lit('"'))) > no_skip[char_]) > '"'`. -/
def quotedText : Parser Char Str :=
  (lit '"').andThen fun _ => (charBut '"').expect.andThen fun first =>
    (charBut '"').many.andThen fun rest => (lit '"').expect.map fun _ => first :: rest

/-- `sel_output`. -/
def selOutput : Parser Char SelOutput :=
  ((symbols inputKeyword).map .keyword).orElse
    ((quotedText.map .name).orElse (identifier.map fun name => .name name.text))

/-- `sel_variable`. -/
def selVariable : Parser Char SelVariable :=
  ((symbols inputKeyword).map .keyword).orElse (identifier.map .name)

/-- `sel_primary_expr` around `sel_expression`. -/
def selPrimaryExpr (selExpression : Parser Char SelExpression) : Parser Char SelOperand :=
  (double_.map .number).orElse ((selVariable.map .variable_).orElse
    ((lit '(').andThen fun _ => selExpression.expect.andThen fun se =>
      (lit ')').expect.map fun _ => .expression se))

/-- `sel_unary_expr`. -/
def selUnaryExpr (selExpression : Parser Char SelExpression) : Parser Char SelOperand :=
  (selPrimaryExpr selExpression).orElse ((symbols selUnaryOp).andThen fun op =>
    (selPrimaryExpr selExpression).expect.map (.unary op))

/-- The operations behind an operand. -/
def operations : List (SelOptoken × SelOperand) → SelOperations
  | [] => .nil
  | (op, operand_) :: rest => .cons op operand_ (operations rest)

/-- An operand and operations with operators of a table: the rules for both precedences. -/
def selBinaryExpr (table : List (Str × SelOptoken)) (operand_ : Parser Char SelOperand) :
    Parser Char SelExpression :=
  operand_.andThen fun first =>
    ((symbols table).andThen fun op => operand_.expect.map fun right => (op, right)).many.expect.map
      fun rest => .mk first (operations rest)

/-- `sel_multiplicative_expr`. -/
def selMultiplicativeExpr (selExpression : Parser Char SelExpression) : Parser Char SelExpression :=
  selBinaryExpr selMultiplicativeOp (selUnaryExpr selExpression)

/-- `sel_additive_expr`. -/
def selAdditiveExpr (selExpression : Parser Char SelExpression) : Parser Char SelExpression :=
  selBinaryExpr selAdditiveOp ((selMultiplicativeExpr selExpression).map .expression)

/-- `sel_expression` in at most `fuel` parentheses. -/
def selExpressionUpTo : Nat → Parser Char SelExpression
  | 0 => fun _ => .failed
  | fuel + 1 => selAdditiveExpr (selExpressionUpTo fuel)

/-- `sel_expression`. Every parenthesis that is opened is a character of the text. -/
def selExpression : Parser Char SelExpression := fun text =>
  selExpressionUpTo (text.length + 1) text

/-- `sel_assignment`. -/
def selAssignment : Parser Char SelAssignment :=
  selOutput.andThen fun output =>
    ((lit '=').andThen fun _ => selExpression.expect).optional.expect.map fun se =>
      ⟨output, se⟩

end Policer.Parsing
