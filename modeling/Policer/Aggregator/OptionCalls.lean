import Policer.Aggregator.Denotation

/-!
# The calls behind an option string

`Agg::init` turns its option string into calls of `Config`. `options_read_iff` says for
which keys, windows and functions the string fits into the buffers of the reader, so that
every item comes back as one call.
-/

namespace Policer.Aggregator

open Policer.Lib Policer.Parsing Policer.Backend

/-! ### Calls -/

/-- A call the loop of `Agg::init` makes. -/
inductive Call where
  | addMember (func : FunctionCode) (fieldName : Str)
  | setTimeout (input : Str)
  | addPtrMember (fieldName : Str)
deriving DecidableEq

/-- The effect of a call. -/
def Call.apply (config : Config) : Call → Config
  | .addMember func fieldName => config.addMember func fieldName
  | .setTimeout input => config.setTimeout input
  | .addPtrMember fieldName => config.addPtrMember fieldName

/-- The call for one result of `getopt`. -/
def Opt.call? : Opt → Option Call
  | .argument 't' optarg => some (.setTimeout optarg)
  | .argument 'c' optarg => some (.addPtrMember optarg)
  | .argument letter optarg => (memberFunction letter).map fun func => .addMember func optarg
  | .invalid _ => none

/-- The calls `Agg::init` makes for an option string. -/
def initCalls (options : Str) : Except Fault (List Call) :=
  (copyOptions options).map fun text => (getopt (getArgcArgv text)).filterMap Opt.call?

theorem applyOption_eq (config : Config) (opt : Opt) :
    config.applyOption opt = opt.call?.elim config (Call.apply config) := by
  cases opt with
  | invalid letter => rfl
  | argument letter optarg =>
      by_cases isWindow : letter = 't'
      · subst isWindow
        rfl
      by_cases isCount : letter = 'c'
      · subst isCount
        rfl
      simp only [Config.applyOption, Opt.call?]
      cases memberFunction letter <;> rfl

theorem foldl_applyOption (opts : List Opt) (config : Config) :
    opts.foldl Config.applyOption config = (opts.filterMap Opt.call?).foldl Call.apply config := by
  induction opts generalizing config with
  | nil => rfl
  | cons head tail ih =>
      rw [List.foldl_cons, ih, applyOption_eq, List.filterMap_cons]
      cases head.call? <;> rfl

/-- The configuration is what the calls make of the empty one. -/
theorem ofOptions_eq_calls (options : Str) :
    Config.ofOptions options =
      (initCalls options).map fun calls => calls.foldl Call.apply .new := by
  unfold Config.ofOptions initCalls
  cases copyOptions options with
  | error fault => rfl
  | ok text => exact congrArg Except.ok (foldl_applyOption ..)

/-! ### The calls of a stage -/

/-- The call of a key. -/
def keyCall (un : Unirec) : Call := .addMember .key (stringUnirecEnum un)

/-- The call of a function with a parameter. -/
def functionCall (func : AggrFuncWithParamS) : Call :=
  if func.funcName = .countDistinct then .addPtrMember (stringUnirecEnum func.param)
  else .addMember (functionCode func.funcName) (stringUnirecEnum func.param)

/-- The calls of the keys, the window and the functions in the written order. -/
def itemCalls (ctx : Context) (body : AggregatorBody) : List Call :=
  ctx.keys.map keyCall ++ .setTimeout (windowArgument ctx) :: (functionsOf body).map functionCall

@[simp] theorem call?_keyOpt (un : Unirec) : (keyOpt un).call? = some (keyCall un) := rfl

@[simp] theorem call?_window (optarg : Str) :
    (Opt.argument 't' optarg).call? = some (.setTimeout optarg) := rfl

@[simp] theorem call?_functionOpt (func : AggrFuncWithParamS) :
    (functionOpt func).call? = some (functionCall func) := by
  obtain ⟨funcName, param⟩ := func
  cases funcName <;> rfl

theorem filterMap_of_map_some {α β : Type} {f : α → Option β} {source : List α}
    {target : List β} (each : source.map f = target.map some) : source.filterMap f = target := by
  have collected := congrArg (List.filterMap id) each
  simpa [List.filterMap_map] using collected

/-- Every option of a stage is one call. -/
theorem filterMap_call? (ctx : Context) (body : AggregatorBody) :
    (arrivingOpts ctx body).filterMap Opt.call? = (itemCalls ctx body).take 63 := by
  have each : (stageOpts ctx body).map Opt.call? = (itemCalls ctx body).map some := by
    simp [stageOpts, itemCalls, Function.comp_def]
  refine filterMap_of_map_some ?_
  rw [arrivingOpts, List.map_take, List.map_take, each]

/-- The calls for the options of a stage are those of its first items. -/
theorem initCalls_aggOptions (ctx : Context) (body : AggregatorBody) :
    initCalls (aggOptions ctx body) =
      if (aggOptions ctx body).length < maxString then .ok ((itemCalls ctx body).take 63)
      else .error .bufferOverrun := by
  unfold initCalls copyOptions
  split
  · simp only [Except.map, getopt_aggOptions, filterMap_call?]
  · rfl

/-! ### Lengths -/

/-- The characters of the option string. -/
def optionsLength (ctx : Context) (body : AggregatorBody) : Nat :=
  "param ".toList.length + (ctx.keys.map fun un => (stringUnirecEnum un).length + 5).sum +
    ((windowArgument ctx).length + 5) +
      ((functionsOf body).map fun func => (stringUnirecEnum func.param).length + 4).sum

theorem length_text (letter : Char) (optarg : Str) :
    (Opt.argument letter optarg).text.length = optarg.length + 4 := rfl

theorem length_text_blank (letter : Char) (optarg : Str) :
    ((Opt.argument letter optarg).text ++ [' ']).length = optarg.length + 5 := by
  rw [List.length_append, length_text, List.length_singleton]

theorem length_aggOptions (ctx : Context) (body : AggregatorBody) :
    (aggOptions ctx body).length = optionsLength ctx body := by
  have keys : (keyOptions ctx).length =
      (ctx.keys.map fun un => (stringUnirecEnum un).length + 5).sum := by
    rw [keyOptions_eq, List.flatMap_map, List.length_flatMap]
    simp only [keyOpt, length_text_blank]
  have functions : (functionOptions body).length =
      ((functionsOf body).map fun func => (stringUnirecEnum func.param).length + 4).sum := by
    rw [functionOptions_eq, List.flatMap_map, List.length_flatMap]
    simp only [functionOpt, length_text]
  have window : (windowOptions ctx).length = (windowArgument ctx).length + 5 := by
    rw [windowOptions_eq]
    exact length_text_blank ..
  unfold aggOptions optionsLength
  simp only [List.length_append, keys, window, functions]

theorem length_tokens_aggOptions (ctx : Context) (body : AggregatorBody) :
    (tokens ' ' (aggOptions ctx body)).length =
      2 * (ctx.keys.length + (functionsOf body).length) + 3 := by
  have pairs : ∀ opts : List Opt, (∀ opt ∈ opts, opt.Written) →
      (opts.flatMap Opt.pair).length = 2 * opts.length := by
    intro opts written
    induction opts with
    | nil => rfl
    | cons head tail ih =>
        obtain ⟨_, _, _, rfl, _⟩ := written head List.mem_cons_self
        rw [List.flatMap_cons, List.length_append, List.length_cons,
          ih fun opt member => written opt (List.mem_cons_of_mem _ member)]
        simp only [Opt.pair, List.length_cons, List.length_nil]
        omega
  rw [tokens_aggOptions, List.length_cons, pairs _ (stageOpts_written ctx body), stageOpts,
    List.length_append, List.length_cons, List.length_map, List.length_map]
  omega

/-! ### Reading back -/

/-- The option string of a stage fits, and reading it back makes the calls of its items. -/
structure ReadBack (ctx : Context) (body : AggregatorBody) : Prop where
  short : (aggOptions ctx body).length < maxString
  few : (tokens ' ' (aggOptions ctx body)).length ≤ maxArgs - 1
  calls : initCalls (aggOptions ctx body) = .ok (itemCalls ctx body)

theorem readBack_iff (ctx : Context) (body : AggregatorBody) :
    ReadBack ctx body ↔ optionsLength ctx body < maxString ∧
      ctx.keys.length + (functionsOf body).length ≤ 62 := by
  have count := length_tokens_aggOptions ctx body
  constructor
  · rintro ⟨short, few, _⟩
    refine ⟨length_aggOptions ctx body ▸ short, ?_⟩
    rw [count, maxArgs] at few
    omega
  · rintro ⟨short, few⟩
    have fits : (aggOptions ctx body).length < maxString := by rwa [length_aggOptions]
    have taken : (itemCalls ctx body).take 63 = itemCalls ctx body := by
      refine List.take_of_length_le ?_
      rw [itemCalls, List.length_append, List.length_cons, List.length_map, List.length_map]
      omega
    refine ⟨fits, ?_, ?_⟩
    · rw [count, maxArgs]
      omega
    · rw [initCalls_aggOptions, if_pos fits, taken]

/-- `Builder` gives each aggregator its option string. `Agg::init` reads every item of it back
as one call, in the written order, just when the string has less than 1024 characters and there
are at most 62 keys and functions. -/
theorem options_read_iff {ast : MainBranches} {data : InterRepr} (accepted : Accepted ast data)
    {number : Nat} {root : BuilderVec} (built : buildRoot data number = .ok root) :
    aggOptionsOf root = (aggregatorsOf ast.occurrences).map (fun occ => aggOptions occ.1 occ.2) ∧
      ∀ occ ∈ aggregatorsOf ast.occurrences,
        (ReadBack occ.1 occ.2 ↔ optionsLength occ.1 occ.2 < maxString ∧
          occ.1.keys.length + (functionsOf occ.2).length ≤ 62) :=
  ⟨aggOptionsOf_root accepted.run built, fun occ _ => readBack_iff occ.1 occ.2⟩

theorem options_read_iff_sumAndMax :
    ∃ data root, Accepted sumAndMax data ∧ buildRoot data 0 = .ok root ∧
      ∀ occ ∈ aggregatorsOf sumAndMax.occurrences, ReadBack occ.1 occ.2 := by
  obtain ⟨data, accepted⟩ := sumAndMax_accepted
  have built := buildRoot_of_run accepted.run 0
  refine ⟨data, _, accepted, built, fun occ member => ?_⟩
  refine ((options_read_iff accepted built).2 occ member).mpr ?_
  revert occ
  decide

/-- `main { aggregator: v = SUM(PACKETS), w = SUM(PACKETS), …; selector: v, w; }` with 63
functions. -/
def manySums : MainBranches where
  first := .mk .main (.stage (.aggregator
    { body :=
        { first := ⟨.v, .withParam ⟨.sum, .packets⟩⟩
          rest := List.replicate 62 ⟨.w, .withParam ⟨.sum, .packets⟩⟩ }
      succ := .stage (.selector
        ⟨⟨.name "v".toList, none⟩, [⟨.name "w".toList, none⟩]⟩) }))
  rest := .nil

theorem manySums_accepted : ∃ data, Accepted manySums data := by
  obtain ⟨data, accepted, _⟩ := accepted_of_accepts manySums (fun _ => true) (by decide +kernel)
  exact ⟨data, accepted⟩

/-- The call of the last function is missing. -/
theorem manySums_notRead :
    ∃ data root, Accepted manySums data ∧ buildRoot data 0 = .ok root ∧
      ∃ occ ∈ aggregatorsOf manySums.occurrences,
        ¬ (tokens ' ' (aggOptions occ.1 occ.2)).length ≤ maxArgs - 1 ∧
          initCalls (aggOptions occ.1 occ.2) ≠ .ok (itemCalls occ.1 occ.2) := by
  obtain ⟨data, accepted⟩ := manySums_accepted
  refine ⟨data, _, accepted, buildRoot_of_run accepted.run 0, _, List.mem_cons_self, ?_, ?_⟩
  · rw [length_tokens_aggOptions]
    decide
  · rw [initCalls_aggOptions]
    decide +kernel

end Policer.Aggregator
