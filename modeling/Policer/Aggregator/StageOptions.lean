import Policer.Aggregator.Options
import Policer.Backend.Pipeline

/-!
# The configuration of an aggregator stage

`Builder` writes an option string and `Agg::init` reads it back. `ofOptions_aggOptions`
says which options arrive: those of the keys, the window and the functions in this
order, but only the first 63. `mem_fields_iff` says which fields they register.
-/

namespace Policer.Aggregator

open Policer.Lib Policer.Parsing Policer.Backend

/-! ### Options of a stage -/

/-- The letter of a function. -/
def functionLetter : AggrFuncWithParam → Char
  | .sum => 's'
  | .average => 'a'
  | .minimal => 'm'
  | .maximal => 'M'
  | .first => 'f'
  | .last => 'l'
  | .or => 'o'
  | .and => 'n'
  | .countDistinct => 'c'
  | .rate => 'r'

/-- The code of a function. -/
def functionCode : AggrFuncWithParam → FunctionCode
  | .sum => .sum
  | .average => .avg
  | .minimal => .min
  | .maximal => .max
  | .first => .first
  | .last => .last
  | .or => .bitOr
  | .and => .bitAnd
  | .countDistinct => .countDistinct
  | .rate => .rate

theorem functionCode_injective {left right : AggrFuncWithParam}
    (same : functionCode left = functionCode right) : left = right := by
  cases left <;> cases right <;> first | rfl | cases same

theorem functionCode_ne_key (func : AggrFuncWithParam) : functionCode func ≠ .key := by
  cases func <;> simp [functionCode]

/-- The argument of `-t`. -/
def windowArgument (ctx : Context) : Str :=
  match ctx.window with
  | none => "A:".toList ++ toStringNat intMax
  | some body => optionWindowTypeEnum body.type ++ ":".toList ++ toStringNat body.range.toNat

/-- The option of a key. -/
def keyOpt (un : Unirec) : Opt := .argument 'k' (stringUnirecEnum un)

/-- The option of a function. -/
def functionOpt (func : AggrFuncWithParamS) : Opt :=
  .argument (functionLetter func.funcName) (stringUnirecEnum func.param)

/-- The options of an aggregator at its place. -/
def stageOpts (ctx : Context) (body : AggregatorBody) : List Opt :=
  ctx.keys.map keyOpt ++ .argument 't' (windowArgument ctx) :: (functionsOf body).map functionOpt

/-- The two tokens of an option. -/
def Opt.pair : Opt → List Str
  | .argument letter optarg => [['-', letter], optarg]
  | .invalid letter => [['-', letter]]

/-- An option as the builder writes it, up to the blanks around it. -/
def Opt.Written (opt : Opt) : Prop :=
  ∃ letter ∈ optionLetters, ∃ optarg, opt = .argument letter optarg ∧ optarg ≠ [] ∧ ' ' ∉ optarg

theorem blank_notMem_unirec (un : Unirec) : ' ' ∉ stringUnirecEnum un := by
  cases un <;> decide

theorem unirec_ne_nil (un : Unirec) : stringUnirecEnum un ≠ [] := by
  cases un <;> decide

theorem blank_notMem_digits (n : Nat) : ' ' ∉ toStringNat n := notMem_toStringNat (by decide)

theorem windowArgument_written (ctx : Context) :
    windowArgument ctx ≠ [] ∧ ' ' ∉ windowArgument ctx := by
  unfold windowArgument
  cases ctx.window with
  | none => exact ⟨by simp, by simp [blank_notMem_digits]⟩
  | some body =>
      refine ⟨by simp, ?_⟩
      simp only [List.mem_append, blank_notMem_digits, or_false]
      cases body.type <;> decide

theorem stageOpts_written (ctx : Context) (body : AggregatorBody) :
    ∀ opt ∈ stageOpts ctx body, opt.Written := by
  intro opt member
  rcases List.mem_append.mp member with isKey | isLater
  · obtain ⟨un, _, rfl⟩ := List.mem_map.mp isKey
    exact ⟨'k', by decide, _, rfl, unirec_ne_nil un, blank_notMem_unirec un⟩
  · rcases List.mem_cons.mp isLater with rfl | isFunction
    · exact ⟨'t', by decide, _, rfl, windowArgument_written ctx⟩
    · obtain ⟨func, _, rfl⟩ := List.mem_map.mp isFunction
      refine ⟨functionLetter func.funcName, ?_, _, rfl, unirec_ne_nil func.param,
        blank_notMem_unirec func.param⟩
      cases func.funcName <;> decide

/-! ### Reading the options back -/

/-- A letter alone in its token takes the next token. -/
theorem getoptFrom_argument {letter : Char} {optarg : Str} {rest : List Str}
    (isLetter : letter ∈ optionLetters) :
    getoptFrom none (['-', letter] :: optarg :: rest) =
      .argument letter optarg :: getoptFrom none rest := by
  have notEnd : ['-', letter] ≠ "--".toList := by
    rintro same
    obtain rfl : letter = '-' := by simpa using same
    exact absurd isLetter (by decide)
  rw [getoptFrom, if_neg notEnd]
  simp only [getoptToken, isLetter, if_true, List.isEmpty_nil, List.nil_append]
  rw [getoptFrom]

/-- `getopt` gives the options whose tokens it gets. -/
theorem getoptFrom_pairs (opts : List Opt) (written : ∀ opt ∈ opts, opt.Written) :
    getoptFrom none (opts.flatMap Opt.pair) = opts := by
  induction opts with
  | nil => rfl
  | cons head tail ih =>
      obtain ⟨letter, isLetter, optarg, rfl, _⟩ := written head List.mem_cons_self
      have rest := ih fun opt member => written opt (List.mem_cons_of_mem _ member)
      rw [List.flatMap_cons, Opt.pair, List.cons_append, List.cons_append, List.nil_append,
        getoptFrom_argument isLetter, rest]

/-- The tokens of the first options are the first tokens. -/
theorem take_pairs (opts : List Opt) (written : ∀ opt ∈ opts, opt.Written) (n : Nat) :
    (opts.flatMap Opt.pair).take (2 * n) = (opts.take n).flatMap Opt.pair := by
  induction opts generalizing n with
  | nil => simp
  | cons head tail ih =>
      cases n with
      | zero => simp
      | succ n =>
          obtain ⟨letter, _, optarg, rfl, _⟩ := written head List.mem_cons_self
          have rest := ih (fun opt member => written opt (List.mem_cons_of_mem _ member)) n
          simp only [List.flatMap_cons, Opt.pair, List.cons_append, List.nil_append,
            List.take_succ_cons, Nat.mul_succ]
          rw [rest]

/-- The text of an option without the blank that may follow. -/
def Opt.text : Opt → Str
  | .argument letter optarg => ' ' :: '-' :: letter :: ' ' :: optarg
  | .invalid letter => [' ', '-', letter]

/-- An option is cut into its two tokens when a blank or the end follows. -/
theorem tokens_text {opt : Opt} (written : opt.Written) (rest : Str)
    (blank : rest = [] ∨ rest.head? = some ' ') :
    tokens ' ' (opt.text ++ rest) = opt.pair ++ tokens ' ' rest := by
  obtain ⟨letter, isLetter, optarg, rfl, nonempty, clean⟩ := written
  have dash : ' ' ∉ ['-', letter] := by
    have notBlank : letter ≠ ' ' := by
      rintro rfl
      exact absurd isLetter (by decide)
    simp [notBlank.symm]
  have behind : tokens ' ' (optarg ++ rest) = optarg :: tokens ' ' rest := by
    rcases blank with rfl | starts
    · simp [tokens_word nonempty clean]
    · obtain ⟨later, rfl⟩ := List.head?_eq_some_iff.mp starts
      rw [tokens_word_append nonempty clean, tokens_cons_self]
  have front := tokens_word_append (by simp) dash (optarg ++ rest)
  simp only [List.cons_append, List.nil_append] at front
  simp only [Opt.text, Opt.pair, List.cons_append, List.nil_append, tokens_cons_self, front, behind]

theorem head?_flatMap_text (opts : List Opt) (rest : Str)
    (blank : rest = [] ∨ rest.head? = some ' ') :
    opts.flatMap Opt.text ++ rest = [] ∨ (opts.flatMap Opt.text ++ rest).head? = some ' ' := by
  cases opts with
  | nil => exact blank
  | cons head tail => cases head <;> exact Or.inr rfl

/-- Options in a row are cut into their tokens. -/
theorem tokens_flatMap_text (opts : List Opt) (written : ∀ opt ∈ opts, opt.Written) :
    tokens ' ' (opts.flatMap Opt.text) = opts.flatMap Opt.pair := by
  induction opts with
  | nil => rfl
  | cons head tail ih =>
      have here := tokens_text (written head List.mem_cons_self)
        (tail.flatMap Opt.text) (by simpa using head?_flatMap_text tail [] (Or.inl rfl))
      rw [List.flatMap_cons, here, ih fun opt member => written opt (List.mem_cons_of_mem _ member),
        List.flatMap_cons]

/-- Options in a row, each with a blank behind it, are cut into their tokens. -/
theorem tokens_flatMap_text_blank (opts : List Opt) (written : ∀ opt ∈ opts, opt.Written)
    (rest : Str) :
    tokens ' ' ((opts.flatMap fun opt => opt.text ++ [' ']) ++ rest) =
      opts.flatMap Opt.pair ++ tokens ' ' rest := by
  induction opts with
  | nil => rfl
  | cons head tail ih =>
      have later := ih fun opt member => written opt (List.mem_cons_of_mem _ member)
      have here := tokens_text (written head List.mem_cons_self)
        (' ' :: ((tail.flatMap fun opt => opt.text ++ [' ']) ++ rest)) (Or.inr rfl)
      simp only [List.flatMap_cons, List.append_assoc, List.cons_append, List.nil_append]
      rw [here, tokens_cons_self, later]

theorem keyOptions_eq (ctx : Context) :
    keyOptions ctx = (ctx.keys.map keyOpt).flatMap fun opt => opt.text ++ [' '] := by
  unfold keyOptions
  rw [List.flatMap_map]
  rfl

theorem windowOptions_eq (ctx : Context) :
    windowOptions ctx = (Opt.argument 't' (windowArgument ctx)).text ++ [' '] := by
  unfold windowOptions windowArgument
  cases ctx.window with
  | none => rfl
  | some body =>
      change " -t ".toList ++ optionWindowTypeEnum body.type ++ ":".toList ++
        toStringNat body.range.toNat ++ " ".toList = _
      simp [Opt.text]

theorem functionOptions_eq (body : AggregatorBody) :
    functionOptions body = ((functionsOf body).map functionOpt).flatMap Opt.text := by
  unfold functionOptions functionsOf
  induction body.all with
  | nil => rfl
  | cons head tail ih =>
      rw [List.flatMap_cons, ih]
      obtain ⟨name, func⟩ := head
      cases func with
      | withoutParam func => rfl
      | withParam func =>
          obtain ⟨funcName, param⟩ := func
          have here : optionAggrWithParamEnum funcName ++ stringUnirecEnum param =
              (functionOpt ⟨funcName, param⟩).text := by
            cases funcName <;> rfl
          simp only [functionOption, withParam?, here, List.filterMap_cons, List.map_cons,
            List.flatMap_cons]

/-- The tokens of the options of a stage. -/
theorem tokens_aggOptions (ctx : Context) (body : AggregatorBody) :
    tokens ' ' (aggOptions ctx body) = "param".toList :: (stageOpts ctx body).flatMap Opt.pair := by
  have written := stageOpts_written ctx body
  simp only [stageOpts, List.mem_append, List.mem_cons] at written
  have keys := tokens_flatMap_text_blank (ctx.keys.map keyOpt) fun opt member =>
    written opt (Or.inl member)
  have window := tokens_text (written (.argument 't' (windowArgument ctx)) (Or.inr (Or.inl rfl)))
    (' ' :: ((functionsOf body).map functionOpt).flatMap Opt.text) (Or.inr rfl)
  have functions := tokens_flatMap_text ((functionsOf body).map functionOpt) fun opt member =>
    written opt (Or.inr (Or.inr member))
  have front := tokens_word_append (show "param".toList ≠ [] by decide)
    (show ' ' ∉ "param".toList by decide)
    (keyOptions ctx ++ windowOptions ctx ++ functionOptions body)
  have whole : aggOptions ctx body = "param".toList ++
      ' ' :: (keyOptions ctx ++ windowOptions ctx ++ functionOptions body) := by
    unfold aggOptions
    rw [List.append_assoc, List.append_assoc, List.append_assoc]
    rfl
  rw [whole, front, keyOptions_eq, windowOptions_eq, functionOptions_eq, List.append_assoc, keys,
    List.append_assoc, List.singleton_append, window, tokens_cons_self, functions, stageOpts,
    List.flatMap_append, List.flatMap_cons]

/-- The options that arrive: 127 tokens are `"param"` and 63 options. -/
def arrivingOpts (ctx : Context) (body : AggregatorBody) : List Opt := (stageOpts ctx body).take 63

/-- `getopt` gives the options that arrive. -/
theorem getopt_aggOptions (ctx : Context) (body : AggregatorBody) :
    getopt (getArgcArgv (aggOptions ctx body)) = arrivingOpts ctx body := by
  have written := stageOpts_written ctx body
  have taken : ((stageOpts ctx body).flatMap Opt.pair).take 126 =
      ((stageOpts ctx body).take 63).flatMap Opt.pair :=
    take_pairs (stageOpts ctx body) written 63
  have argv : getArgcArgv (aggOptions ctx body) =
      "param".toList :: ((stageOpts ctx body).take 63).flatMap Opt.pair := by
    rw [getArgcArgv, tokens_aggOptions, ← taken]
    rfl
  rw [getopt, argv]
  exact getoptFrom_pairs ((stageOpts ctx body).take 63) fun opt member =>
    written opt (List.mem_of_mem_take member)

/-- `Agg::init` reads the first options back, when the string fits into its buffer. -/
theorem ofOptions_aggOptions (ctx : Context) (body : AggregatorBody) :
    Config.ofOptions (aggOptions ctx body) =
      if (aggOptions ctx body).length < maxString then
        .ok ((arrivingOpts ctx body).foldl Config.applyOption .new)
      else .error .bufferOverrun := by
  unfold Config.ofOptions copyOptions
  split
  · simp only [Except.map, getopt_aggOptions]
  · rfl

end Policer.Aggregator
