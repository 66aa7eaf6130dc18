import Policer.Aggregator.Denotation
import Policer.Parsing.BodyLayout
import Mathlib.Data.List.TakeWhile

/-!
# From a window to a timeout

A range is read as seconds in 32-bit arithmetic, written as decimal text by `Builder`
and read back by `set_timeout` as a signed number. `window_kept_iff` says which windows
survive: those between one second and `INT_MAX` seconds that are not mixed.
-/

namespace Policer.Aggregator

open Policer.Lib Policer.Lib.Expectation Policer.Parsing Policer.Backend

/-! ### The grammar of ranges -/

/-- Units of `window_seconds_def`. -/
inductive TimeUnit where
  | seconds
  | minutes
  | hours
deriving DecidableEq, Repr

/-- Seconds in a unit. -/
def TimeUnit.factor : TimeUnit → Nat
  | .seconds => 1
  | .minutes => 60
  | .hours => 3600

/-- `justAssignment`. -/
def justAssignment (attr : UInt32) : Seconds := attr

/-- `minutes2seconds`. -/
def minutes2seconds (attr : UInt32) : Seconds := attr * 60

/-- `hours2seconds`. -/
def hours2seconds (attr : UInt32) : Seconds := attr * 3600

/-- `x3::uint_` on the digits of `n`: a number that does not fit is no match. -/
def uint (n : Nat) : Option UInt32 := if n < 2 ^ 32 then some (UInt32.ofNat n) else none

/-- `window_seconds_def`. -/
def windowSeconds (n : Nat) (unit_ : TimeUnit) : Option Seconds :=
  (uint n).map fun attr =>
    match unit_ with
    | .seconds => justAssignment attr
    | .minutes => minutes2seconds attr
    | .hours => hours2seconds attr

/-- The seconds that are left of a range. -/
theorem windowSeconds_toNat {n : Nat} {unit_ : TimeUnit} {range : Seconds}
    (read : windowSeconds n unit_ = some range) :
    range.toNat = n * unit_.factor % 2 ^ 32 := by
  unfold windowSeconds uint at read
  split at read
  · rename_i small
    obtain rfl := Option.some.inj read
    cases unit_ <;>
      simp [justAssignment, minutes2seconds, hours2seconds, TimeUnit.factor, UInt32.toNat_mul]
  · cases read

/-- The word of a unit. -/
def TimeUnit.text : TimeUnit → Str
  | .seconds => "seconds".toList
  | .minutes => "minutes".toList
  | .hours => "hours".toList

section Laid

variable {n : Nat} {unit_ : TimeUnit} {rest text : Str}

/-- An alternative of `window_seconds` reads the number first. -/
theorem inSeconds_of_laid (seconds : Seconds) (plural singular : Str)
    (laid : Laid [Nat.toDigits 10 n, unit_.text] rest text) :
    ∃ middle, Laid [unit_.text] rest middle ∧
      Rules.inSeconds seconds plural singular text = if n < 2 ^ 32 then
        ((Rules.litString plural).orElse (Rules.litString singular)).map
          (fun _ => UInt32.ofNat n * seconds) middle
        else .noMatch := by
  obtain ⟨middle, number, later⟩ := uint_of_laid laid fun middle laid c first => by
    have ends : EndsAt (unit_.text.take 1) middle := by
      cases unit_ <;> exact laid.follows rfl rfl
    exact ends.rejects (by cases unit_ <;> decide) first
  refine ⟨middle, later, ?_⟩
  by_cases small : n < 2 ^ 32
  · rw [if_pos small] at number ⊢
    exact Parser.andThen_of_matched number
  · rw [if_neg small] at number ⊢
    exact Parser.andThen_eq_noMatch_of_noMatch number

theorem inSeconds_hits (seconds : Seconds) (singular : Str)
    (laid : Laid [Nat.toDigits 10 n, unit_.text] rest text) :
    Rules.inSeconds seconds unit_.text singular text =
      if n < 2 ^ 32 then .matched (UInt32.ofNat n * seconds) rest else .noMatch := by
  obtain ⟨middle, later, reads⟩ := inSeconds_of_laid seconds unit_.text singular laid
  obtain ⟨behind, word, done, _⟩ := litString_of_laid (by cases unit_ <;> rfl) later
  cases done
  rw [reads, Parser.map_of_matched _ (Parser.orElse_of_matched word)]

theorem inSeconds_misses (seconds : Seconds) (c : Char) (plural singular : Str)
    (disjoint : Rules.areApart (unit_.text.take 1) [c] = true)
    (laid : Laid [Nat.toDigits 10 n, unit_.text] rest text) :
    Rules.inSeconds seconds (c :: plural) (c :: singular) text = .noMatch := by
  obtain ⟨middle, later, reads⟩ := inSeconds_of_laid seconds (c :: plural) (c :: singular) laid
  have ends : EndsAt (unit_.text.take 1) middle := by
    cases unit_ <;> exact later.follows rfl rfl
  have clear : Rules.Clear middle := ends.clear (by cases unit_ <;> rfl)
  have missed : ((Rules.litString (c :: plural)).orElse (Rules.litString (c :: singular))) middle =
      .noMatch :=
    (Parser.orElse_of_noMatch (Rules.litString_noMatch clear (ends.not_starts disjoint))).trans
      (Rules.litString_noMatch clear (ends.not_starts disjoint))
  rw [reads, Parser.map_eq_noMatch.mpr missed, ite_self]

/-- `window_seconds` on a text of a number and a unit. -/
theorem windowSeconds_of_laid (laid : Laid [Nat.toDigits 10 n, unit_.text] rest text) :
    Rules.windowSeconds text =
      (windowSeconds n unit_).elim .noMatch fun range => .matched range rest := by
  have seconds := fun apart => inSeconds_misses 1 's' "econds".toList "econd".toList apart laid
  have minutes := fun apart => inSeconds_misses 60 'm' "inutes".toList "inute".toList apart laid
  have hours := fun apart => inSeconds_misses 3600 'h' "ours".toList "our".toList apart laid
  have read : windowSeconds n unit_ =
      if n < 2 ^ 32 then some (UInt32.ofNat n * UInt32.ofNat unit_.factor) else none := by
    unfold windowSeconds uint
    split
    · cases unit_ <;> simp [justAssignment, minutes2seconds, hours2seconds, TimeUnit.factor]
    · rfl
  have hits : ∀ singular, Rules.inSeconds (UInt32.ofNat unit_.factor) unit_.text singular text =
      (windowSeconds n unit_).elim .noMatch fun range => .matched range rest := by
    intro singular
    rw [inSeconds_hits _ singular laid, read]
    split <;> rfl
  unfold Rules.windowSeconds
  cases unit_ with
  | seconds =>
      have later : ((Rules.inSeconds 60 "minutes".toList "minute".toList).orElse
          (Rules.inSeconds 3600 "hours".toList "hour".toList)) text = .noMatch :=
        (Parser.orElse_of_noMatch (minutes (by decide))).trans (hours (by decide))
      exact (Parser.orElse_noMatch later).trans (hits _)
  | minutes =>
      exact (Parser.orElse_of_noMatch (seconds (by decide))).trans
        ((Parser.orElse_noMatch (hours (by decide))).trans (hits _))
  | hours =>
      exact (Parser.orElse_of_noMatch (seconds (by decide))).trans
        ((Parser.orElse_of_noMatch (minutes (by decide))).trans (hits _))

end Laid

/-! ### The text of a range read back -/

/-- The text of a number starts with a digit. -/
theorem toStringNat_starts (n : Nat) :
    ∃ head tail, toStringNat n = head :: tail ∧ head.isDigit = true ∧ isspace head = false := by
  obtain ⟨head, tail, digits⟩ := List.exists_cons_of_ne_nil (toStringNat_ne_nil n)
  have isHead : head.isDigit = true := isDigit_of_mem (n := n) (by simp [digits])
  refine ⟨head, tail, digits, isHead, ?_⟩
  unfold isspace
  have differ : ∀ c : Char, c.isDigit = false → (head == c) = false := by
    intro c other
    simp only [beq_eq_false_iff_ne]
    rintro rfl
    rw [isHead] at other
    cases other
  simp [differ ' ' (by decide), differ '\t' (by decide), differ '\n' (by decide),
    differ '\x0b' (by decide), differ '\x0c' (by decide), differ '\r' (by decide)]

theorem dropWhile_isspace_toStringNat (n : Nat) :
    (toStringNat n).dropWhile isspace = toStringNat n := by
  obtain ⟨head, tail, digits, _, noSpace⟩ := toStringNat_starts n
  rw [digits, List.dropWhile_cons_of_neg (by simp [noSpace])]

theorem strtol_toStringNat (n : Nat) :
    Timeouts.strtol (toStringNat n) = min (n : Int) (2 ^ 63 - 1) := by
  have all : ∀ c ∈ toStringNat n, c.isDigit = true := fun c => isDigit_of_mem
  have whole : (toStringNat n).takeWhile Char.isDigit = toStringNat n :=
    List.takeWhile_eq_self_iff.mpr all
  have value : Nat.ofDigitChars 10 (toStringNat n) 0 = n := Nat.ofDigitChars_ten_toDigits
  unfold Timeouts.strtol
  simp only [dropWhile_isspace_toStringNat]
  split
  · rename_i rest starts
    exact absurd (List.mem_cons_self ..)
      (starts ▸ notMem_toStringNat (n := n) (c := '-') (by decide))
  · rename_i rest starts
    exact absurd (List.mem_cons_self ..)
      (starts ▸ notMem_toStringNat (n := n) (c := '+') (by decide))
  · rw [whole, value]
    omega

/-- A number past `INT_MAX` comes back negative. -/
theorem atoi_toStringNat {n : Nat} (small : n < 2 ^ 32) :
    Timeouts.atoi (toStringNat n) = if n < 2 ^ 31 then (n : Int) else (n : Int) - 2 ^ 32 := by
  have small : min (n : Int) (2 ^ 63 - 1) = n := by omega
  rw [Timeouts.atoi, strtol_toStringNat, small, Int.bmod_def]
  split <;> split <;> omega

/-! ### The timeout of a window -/

/-- The timeout type a window type asks for. -/
def writtenType : WindowType → TimeoutType
  | .active => .active
  | .passive => .passive
  | .global => .global
  | .mixed => .activePassive

/-- The timeouts a window leaves behind when its option arrives. -/
def windowTimeouts (body : WindowBody) : Timeouts where
  timeoutType := if body.type = .mixed then .active else writtenType body.type
  timeout :=
    if body.type = .mixed then fun _ => defaultTimeout
    else
      Function.update (fun _ => defaultTimeout) (writtenType body.type)
        (if 1 ≤ body.range.toNat ∧ body.range.toNat < 2 ^ 31 then body.range.toNat
          else defaultTimeout)

/-- A type letter and digits behind a colon are taken apart. -/
theorem readDefinition_letter (self : Timeouts) {letter : Char} (other : letter ≠ ':') (n : Nat) :
    self.readDefinition (letter :: ':' :: toStringNat n) =
      Timeouts.readValues
        { self with timeoutType := (Timeouts.timeoutTypeOf letter).getD self.timeoutType }
        (toStringNat n) := by
  have digits : tokens ':' (toStringNat n) = [toStringNat n] :=
    tokens_word (toStringNat_ne_nil n) (notMem_toStringNat (by decide))
  have front := tokens_word_append (show [letter] ≠ [] by simp)
    (show ':' ∉ [letter] by simpa using other.symm) (toStringNat n)
  rw [digits] at front
  simp only [List.cons_append, List.nil_append] at front
  simp [Timeouts.readDefinition, front]

/-- Digits without a comma are one value, which the mixed type does not take. -/
theorem readValues_digits (self : Timeouts) {n : Nat} (small : n < 2 ^ 32) :
    self.readValues (toStringNat n) =
      if self.timeoutType = .activePassive then { self with timeoutType := .active }
      else self.setOf self.timeoutType (if n < 2 ^ 31 then (n : Int) else (n : Int) - 2 ^ 32) := by
  have noComma : tokens ',' (toStringNat n) = [toStringNat n] :=
    tokens_word (toStringNat_ne_nil n) (notMem_toStringNat (by decide))
  simp only [Timeouts.readValues, noComma, atoi_toStringNat small]

/-- The value of the current type is replaced when it is not positive. -/
theorem checkValues_setOf (self : Timeouts) (single : self.timeoutType ≠ .activePassive)
    (value : Int) :
    (self.setOf self.timeoutType value).checkValues =
      self.setOf self.timeoutType (if value ≤ 0 then defaultTimeout else value) := by
  by_cases low : value ≤ 0 <;> simp [Timeouts.checkValues, Timeouts.setOf, single, low]

/-- `set_timeout` reads the option of a window. -/
theorem set_window {ctx : Context} {body : WindowBody} (window : ctx.window = some body) :
    Config.new.timeouts.set (windowArgument ctx) = windowTimeouts body := by
  obtain ⟨type, range⟩ := body
  have small : range.toNat < 2 ^ 32 := range.toNat_lt
  have digits : (toStringNat range.toNat).length ≤ 10 :=
    (Nat.length_toDigits_le_iff (by decide) (by decide)).mpr (by omega)
  have short : ∀ letter : Char, ¬ 21 < (letter :: ':' :: toStringNat range.toNat).length := by
    intro letter
    simp only [List.length_cons]
    omega
  have positive : (if (if range.toNat < 2 ^ 31 then (range.toNat : Int)
      else (range.toNat : Int) - 2 ^ 32) ≤ 0 then defaultTimeout
      else if range.toNat < 2 ^ 31 then (range.toNat : Int) else (range.toNat : Int) - 2 ^ 32) =
        if 1 ≤ range.toNat ∧ range.toNat < 2 ^ 31 then (range.toNat : Int) else defaultTimeout := by
    split_ifs <;> omega
  -- the three types with one value
  have single : ∀ (letter : Char) (type' : TimeoutType), letter ≠ ':' →
      Timeouts.timeoutTypeOf letter = some type' → type' ≠ .activePassive →
        Config.new.timeouts.set (letter :: ':' :: toStringNat range.toNat) =
          ⟨Function.update (fun _ => defaultTimeout) type'
            (if 1 ≤ range.toNat ∧ range.toNat < 2 ^ 31 then (range.toNat : Int)
              else defaultTimeout), type'⟩ := by
    intro letter type' other read notBoth
    let chosen : Timeouts := { Config.new.timeouts with timeoutType := type' }
    have checked := checkValues_setOf chosen notBoth
      (if range.toNat < 2 ^ 31 then (range.toNat : Int) else (range.toNat : Int) - 2 ^ 32)
    rw [Timeouts.set, if_neg (short letter), readDefinition_letter _ other, read, Option.getD_some,
      readValues_digits _ small, if_neg notBoth, checked, positive]
    rfl
  simp only [windowArgument, window]
  cases type with
  | active => exact single 'A' .active (by decide) rfl (by decide)
  | passive => exact single 'P' .passive (by decide) rfl (by decide)
  | global => exact single 'G' .global (by decide) rfl (by decide)
  | mixed =>
      change Timeouts.set _ ('M' :: ':' :: toStringNat range.toNat) = _
      rw [Timeouts.set, if_neg (short 'M'), readDefinition_letter _ (by decide),
        readValues_digits _ small]
      rfl

/-- The options that are not `-t` leave the timeouts alone. -/
theorem timeouts_applyOption {config : Config} {opt : Opt} {field : ConfigField}
    (asks : opt.asks = some field) : (config.applyOption opt).timeouts = config.timeouts := by
  have pushed : ∀ func name, (config.addMember func name).timeouts = config.timeouts := by
    intro func name
    unfold Config.addMember
    split_ifs <;> rfl
  cases opt with
  | invalid letter => rfl
  | argument letter optarg =>
      by_cases isWindow : letter = 't'
      · subst isWindow
        cases asks
      by_cases isCount : letter = 'c'
      · subst isCount
        change (config.addPtrMember optarg).timeouts = _
        unfold Config.addPtrMember
        dsimp only
        split_ifs <;> rfl
      simp only [Config.applyOption]
      cases memberFunction letter with
      | none => rfl
      | some func => exact pushed func optarg

theorem timeouts_foldl (opts : List Opt) (ask : ∀ opt ∈ opts, ∃ field, opt.asks = some field)
    (config : Config) : (opts.foldl Config.applyOption config).timeouts = config.timeouts := by
  induction opts generalizing config with
  | nil => rfl
  | cons head tail ih =>
      obtain ⟨field, asks⟩ := ask head List.mem_cons_self
      rw [List.foldl_cons, ih fun opt member => ask opt (List.mem_cons_of_mem _ member),
        timeouts_applyOption asks]

/-- The timeouts of a stage: its window, unless the keys before it use up all options. -/
theorem stageConfig_timeouts {ctx : Context} {window : WindowBody}
    (above : ctx.window = some window)
    (body : AggregatorBody) :
    (stageConfig ctx body).timeouts =
      if ctx.keys.length ≤ 62 then windowTimeouts window else Config.new.timeouts := by
  have keysAsk : ∀ opt ∈ (ctx.keys.map keyOpt).take 63, ∃ field, opt.asks = some field := by
    intro opt member
    obtain ⟨un, _, rfl⟩ := List.mem_map.mp (List.mem_of_mem_take member)
    exact ⟨_, asks_keyOpt un⟩
  have functionsAsk : ∀ n, ∀ opt ∈ ((functionsOf body).map functionOpt).take n,
      ∃ field, opt.asks = some field := by
    intro n opt member
    obtain ⟨func, _, rfl⟩ := List.mem_map.mp (List.mem_of_mem_take member)
    exact ⟨_, asks_functionOpt func⟩
  unfold stageConfig arrivingOpts stageOpts
  rw [List.take_append, List.foldl_append, List.length_map]
  split_ifs with room
  · obtain ⟨n, gap⟩ : ∃ n, 63 - ctx.keys.length = n + 1 := ⟨62 - ctx.keys.length, by omega⟩
    rw [gap, List.take_succ_cons, List.foldl_cons, timeouts_foldl _ (functionsAsk n)]
    change Timeouts.set _ _ = _
    rw [timeouts_foldl _ keysAsk, set_window above]
  · have gap : 63 - ctx.keys.length = 0 := by omega
    rw [gap, List.take_zero, List.foldl_nil, timeouts_foldl _ keysAsk]

/-! ### Which windows survive -/

/-- The timeouts are those of a window of `total` seconds. -/
def Timeouts.Meets (self : Timeouts) (type : WindowType) (total : Nat) : Prop :=
  self.timeoutType = writtenType type ∧
    match type with
    | .active => self.timeout .active = total
    | .passive => self.timeout .passive = total
    | .global => self.timeout .global = total
    | .mixed => self.timeout .active = total ∧ self.timeout .passive = total

theorem windowTimeouts_meets_iff {type : WindowType} {range : Seconds} {total : Nat}
    (left : range.toNat = total % 2 ^ 32) :
    (windowTimeouts ⟨type, range⟩).Meets type total ↔
      type ≠ .mixed ∧ 1 ≤ total ∧ total < 2 ^ 31 := by
  have kept : ((if 1 ≤ range.toNat ∧ range.toNat < 2 ^ 31 then (range.toNat : Int)
      else defaultTimeout) = total) ↔ 1 ≤ total ∧ total < 2 ^ 31 := by
    rw [left, defaultTimeout]
    split_ifs <;> omega
  cases type with
  | mixed => simp [Timeouts.Meets, windowTimeouts, writtenType]
  | _ => simpa [Timeouts.Meets, windowTimeouts, writtenType] using kept

theorem new_meets_iff {type : WindowType} {total : Nat} :
    Config.new.timeouts.Meets type total ↔ type = .active ∧ total = 10 := by
  cases type with
  | active =>
      simp only [Timeouts.Meets, Config.new, writtenType, defaultTimeout, true_and]
      omega
  | _ => simp [Timeouts.Meets, Config.new, writtenType]

/-- An aggregator with these options works with the window as it is written. -/
def KeepsWindow (options : Str) (type : WindowType) (total : Nat) : Prop :=
  ∃ config, Config.ofOptions options = .ok config ∧ config.timeouts.Meets type total

/-- A window the aggregator below works with: its value fits, its type has one value, and its
option arrives unless it says what the default says. -/
structure Representable (ctx : Context) (body : AggregatorBody) (type : WindowType) (total : Nat) :
    Prop where
  fits : (aggOptions ctx body).length < maxString
  single : type ≠ .mixed
  positive : 1 ≤ total
  small : total < 2 ^ 31
  arrives : ctx.keys.length ≤ 62 ∨ type = .active ∧ total = 10

theorem keepsWindow_iff {ctx : Context} {body : AggregatorBody} {type : WindowType} {total : Nat}
    {range : Seconds} (left : range.toNat = total % 2 ^ 32)
    (above : ctx.window = some ⟨type, range⟩) :
    KeepsWindow (aggOptions ctx body) type total ↔ Representable ctx body type total := by
  have timeouts := stageConfig_timeouts above body
  have meets : (stageConfig ctx body).timeouts.Meets type total ↔
      type ≠ .mixed ∧ 1 ≤ total ∧ total < 2 ^ 31 ∧
        (ctx.keys.length ≤ 62 ∨ type = .active ∧ total = 10) := by
    rw [timeouts]
    split_ifs with room
    · rw [windowTimeouts_meets_iff left]
      simp [room]
    · rw [new_meets_iff]
      constructor
      · rintro ⟨rfl, rfl⟩
        simp
      · rintro ⟨_, _, _, arrives⟩
        exact arrives.resolve_left room
  constructor
  · rintro ⟨config, isConfig, kept⟩
    obtain ⟨fits, rfl⟩ := ofOptions_eq_stageConfig isConfig
    obtain ⟨single, positive, small, arrives⟩ := meets.mp kept
    exact ⟨fits, single, positive, small, arrives⟩
  · rintro ⟨fits, single, positive, small, arrives⟩
    refine ⟨stageConfig ctx body, ?_, meets.mpr ⟨single, positive, small, arrives⟩⟩
    rw [ofOptions_aggOptions, if_pos fits]
    rfl

/-- Every aggregator below a window works with the window as it is written exactly when it is
representable. -/
theorem window_kept_iff {ast : MainBranches} {data : InterRepr} (ran : Parser.run ast = .ok data)
    {number : Nat} {root : BuilderVec} (built : buildRoot data number = .ok root)
    {type : WindowType} {n : Nat} {unit_ : TimeUnit} {range : Seconds}
    (read : windowSeconds n unit_ = some range) :
    aggOptionsOf root = (aggregatorsOf ast.occurrences).map (fun occ => aggOptions occ.1 occ.2) ∧
      ∀ occ ∈ aggregatorsOf ast.occurrences, occ.1.window = some ⟨type, range⟩ →
        (KeepsWindow (aggOptions occ.1 occ.2) type (n * unit_.factor) ↔
          Representable occ.1 occ.2 type (n * unit_.factor)) :=
  ⟨aggOptionsOf_root ran built, fun _ _ above => keepsWindow_iff (windowSeconds_toNat read) above⟩

/-- `main { window: type = mixed, range = 60 seconds; aggregator: v = SUM(PACKETS);
selector: v; }`. -/
def mixedWindow : MainBranches where
  first := .mk .main (.stage (.window
    { body := ⟨.mixed, 60⟩
      succ := .stage (.aggregator
        { body := ⟨⟨.v, .withParam ⟨.sum, .packets⟩⟩, []⟩
          succ := .stage (.selector ⟨⟨.name "v".toList, none⟩, []⟩) }) }))
  rest := .nil

theorem mixedWindow_run : ∃ data, Parser.run mixedWindow = .ok data :=
  exists_ok_of_isOk (by decide +kernel)

theorem window_kept_iff_mixedWindow :
    ∃ data root, Parser.run mixedWindow = .ok data ∧ buildRoot data 0 = .ok root ∧
      ∀ occ ∈ aggregatorsOf mixedWindow.occurrences, occ.1.window = some ⟨.mixed, 60⟩ →
        (KeepsWindow (aggOptions occ.1 occ.2) .mixed (1 * 60) ↔
          Representable occ.1 occ.2 .mixed (1 * 60)) := by
  obtain ⟨data, ran⟩ := mixedWindow_run
  have built := buildRoot_of_run ran 0
  have read : windowSeconds 1 .minutes = some 60 := by decide
  exact ⟨data, _, ran, built, (window_kept_iff ran built read).2⟩

/-- A mixed window becomes an active one of ten seconds. -/
theorem mixedWindow_not_kept :
    ∃ data root, Parser.run mixedWindow = .ok data ∧ buildRoot data 0 = .ok root ∧
      windowSeconds 60 .seconds = some 60 ∧
        ∃ occ ∈ aggregatorsOf mixedWindow.occurrences, occ.1.window = some ⟨.mixed, 60⟩ ∧
          ¬ KeepsWindow (aggOptions occ.1 occ.2) .mixed 60 := by
  obtain ⟨data, ran⟩ := mixedWindow_run
  refine ⟨data, _, ran, buildRoot_of_run ran 0, by decide, _, List.mem_cons_self, rfl, ?_⟩
  intro kept
  have left : (60 : Seconds).toNat = 60 % 2 ^ 32 := rfl
  exact ((keepsWindow_iff left rfl).mp kept).single rfl

end Policer.Aggregator
