import Policer.Aggregator.StageOptions
import Mathlib.Data.List.Perm.Subperm

/-!
# The fields an aggregator registers

Every option asks for a field; a name is registered by the first option that asks
for it, unless it is a time. No more than 28 names can be asked for, so the arrays of
`Config` never fill up. `mem_fields_iff` is the description every later result uses.
-/

namespace Policer.Aggregator

open Policer.Lib Policer.Parsing Policer.Backend

/-! ### Fields an option asks for -/

/-- The field a function writes: its parameter, or a counter of its own. -/
def outputField (func : AggrFuncWithParamS) : Field :=
  if func.funcName = .countDistinct then .countDistinctOf func.param else .unirec func.param

/-- The field a function asks for. -/
def functionField (func : AggrFuncWithParamS) : ConfigField where
  function := functionCode func.funcName
  name := (outputField func).name
  associatedWithId :=
    if func.funcName = .countDistinct then some (.unirec func.param) else none

/-- The field a key asks for. -/
def keyField (un : Unirec) : ConfigField := ⟨.key, stringUnirecEnum un, none⟩

/-- The field an option asks for. -/
def Opt.asks : Opt → Option ConfigField
  | .argument 't' _ => none
  | .argument 'c' optarg =>
      some ⟨.countDistinct, "COUNT_DISTINCT".toList ++ "_".toList ++ optarg, urGetIdByName optarg⟩
  | .argument letter optarg => (memberFunction letter).map fun func => ⟨func, optarg, none⟩
  | .invalid _ => none

@[simp] theorem asks_keyOpt (un : Unirec) : (keyOpt un).asks = some (keyField un) := rfl

@[simp] theorem asks_window (optarg : Str) : (Opt.argument 't' optarg).asks = none := rfl

@[simp] theorem asks_functionOpt (func : AggrFuncWithParamS) :
    (functionOpt func).asks = some (functionField func) := by
  obtain ⟨funcName, param⟩ := func
  cases funcName with
  | countDistinct =>
      have known : urGetIdByName (stringUnirecEnum param) = some (.unirec param) :=
        urGetIdByName_name (.unirec param)
      change some (ConfigField.mk _ _ (urGetIdByName (stringUnirecEnum param))) = _
      rw [known]
      rfl
  | _ => rfl

namespace Config

theorem addMember_fields (config : Config) (func : FunctionCode) (name : Str)
    (room : config.fields.length < maxKeyFields) :
    (config.addMember func name).fields =
      if config.verifyField name = true then config.fields ++ [⟨func, name, none⟩]
      else config.fields := by
  unfold addMember
  by_cases verified : config.verifyField name = true <;> simp [room, verified]

theorem addPtrMember_fields (config : Config) (name : Str)
    (room : config.fields.length + 1 < maxKeyFields) :
    (config.addPtrMember name).fields =
      if config.verifyField ("COUNT_DISTINCT".toList ++ "_".toList ++ name) = true then
        config.fields ++ [⟨.countDistinct, "COUNT_DISTINCT".toList ++ "_".toList ++ name,
          urGetIdByName name⟩]
      else config.fields := by
  unfold addPtrMember
  by_cases verified : config.verifyField ("COUNT_DISTINCT".toList ++ "_".toList ++ name) = true <;>
    simp only [room, verified, dite_true, dite_false, if_true, Bool.false_eq_true, if_false,
      fields_push]

/-- An option registers what it asks for when the name is free. -/
theorem applyOption_fields (config : Config) (opt : Opt)
    (room : config.fields.length + 1 < maxKeyFields) :
    (config.applyOption opt).fields =
      match opt.asks with
      | some field => if config.verifyField field.name = true then config.fields ++ [field]
          else config.fields
      | none => config.fields := by
  cases opt with
  | invalid letter => rfl
  | argument letter optarg =>
      by_cases isWindow : letter = 't'
      · subst isWindow
        rfl
      by_cases isCount : letter = 'c'
      · subst isCount
        exact config.addPtrMember_fields optarg room
      simp only [applyOption, Opt.asks]
      cases memberFunction letter with
      | none => rfl
      | some func => exact config.addMember_fields func optarg (by omega)

/-! ### The first option wins -/

/-- The names a stage can ask for. -/
def askedNames : List Str :=
  Field.keywords.map stringUnirecEnum ++
    Field.keywords.map fun param => (Field.countDistinctOf param).name

/-- Fewer names can be asked for than the arrays hold. -/
theorem room_of_asked {config : Config}
    (asked : ∀ field ∈ config.fields, field.name ∈ askedNames) :
    config.fields.length + 1 < maxKeyFields := by
  have subset : config.fields.map ConfigField.name ⊆ askedNames := by
    intro name member
    obtain ⟨field, registered, rfl⟩ := List.mem_map.mp member
    exact asked field registered
  have few := (config.distinct.subperm subset).length_le
  have count : askedNames.length = 28 := rfl
  rw [List.length_map, count] at few
  simp only [maxKeyFields]
  omega

/-- An option asks only for names a stage can ask for. -/
def AsksKnown (opt : Opt) : Prop := ∀ field, opt.asks = some field → field.name ∈ askedNames

theorem asked_applyOption {config : Config} {opt : Opt}
    (asked : ∀ field ∈ config.fields, field.name ∈ askedNames) (known : AsksKnown opt) :
    ∀ field ∈ (config.applyOption opt).fields, field.name ∈ askedNames := by
  intro field member
  rw [applyOption_fields config opt (room_of_asked asked)] at member
  cases asks : opt.asks with
  | none => exact asked field (by simpa [asks] using member)
  | some new =>
      simp only [asks] at member
      split at member
      · rcases List.mem_append.mp member with before | added
        · exact asked field before
        · rw [List.mem_singleton.mp added]
          exact known new asks
      · exact asked field member

/-- The field a name is registered with. -/
def find (config : Config) (name : Str) : Option ConfigField :=
  config.fields.find? fun field => field.name == name

/-- A field is registered with its name and no other field is. -/
theorem mem_fields_iff_find (config : Config) (field : ConfigField) :
    field ∈ config.fields ↔ config.find field.name = some field := by
  constructor
  · intro member
    have found : (config.find field.name).isSome = true :=
      List.find?_isSome.mpr ⟨field, member, by simp⟩
    obtain ⟨other, isOther⟩ := Option.isSome_iff_exists.mp found
    have same : other.name = field.name := by simpa using List.find?_some isOther
    rw [isOther, List.inj_on_of_nodup_map config.distinct (List.mem_of_find?_eq_some isOther)
      member same]
  · exact List.mem_of_find?_eq_some

/-- A registered name keeps its field, a free one gets the field it is asked with. -/
theorem find_applyOption {config : Config} {opt : Opt}
    (asked : ∀ field ∈ config.fields, field.name ∈ askedNames) (name : Str) :
    (config.applyOption opt).find name =
      (config.find name).or
        (if isTimeName name then none else opt.asks.filter fun field => field.name == name) := by
  unfold find
  rw [applyOption_fields config opt (room_of_asked asked)]
  cases asks : opt.asks with
  | none => simp
  | some new =>
      by_cases verified : config.verifyField new.name = true
      · simp only [verified, if_true, List.find?_append]
        congr 1
        by_cases same : new.name = name
        · subst same
          have allowed : isTimeName new.name = false := by
            simp only [verifyField, Bool.and_eq_true, Bool.not_eq_true'] at verified
            exact verified.1
          simp [allowed, Option.filter_some]
        · simp [same, Option.filter_some]
      · simp only [verified, Bool.false_eq_true, if_false]
        by_cases same : new.name = name
        · subst same
          by_cases time : isTimeName new.name = true
          · simp [time]
          · simp only [verifyField, time, Bool.not_false, Bool.true_and, Bool.not_eq_true',
              Bool.not_eq_false] at verified
            have found :
                (config.fields.find? fun field => field.name == new.name).isSome = true := by
              obtain ⟨field, member, same⟩ := List.mem_map.mp (List.contains_iff_mem.mp verified)
              exact List.find?_isSome.mpr ⟨field, member, by simp [same]⟩
            obtain ⟨field, isField⟩ := Option.isSome_iff_exists.mp found
            simp [isField]
        · simp [same, Option.filter_some]

/-- A name is registered by the first option that asks for it. -/
theorem find_foldl (opts : List Opt) (known : ∀ opt ∈ opts, AsksKnown opt) {config : Config}
    (asked : ∀ field ∈ config.fields, field.name ∈ askedNames) (name : Str) :
    (opts.foldl applyOption config).find name =
      (config.find name).or
        (if isTimeName name then none
          else (opts.filterMap Opt.asks).find? fun field => field.name == name) := by
  induction opts generalizing config with
  | nil => simp
  | cons head tail ih =>
      have later := ih (fun opt member => known opt (List.mem_cons_of_mem _ member))
        (asked_applyOption asked (known head List.mem_cons_self))
      rw [List.foldl_cons, later, find_applyOption asked]
      cases isTimeName name with
      | true => simp
      | false =>
          cases asks : head.asks with
          | none => simp [asks]
          | some field =>
              by_cases same : field.name = name <;>
                simp [asks, same, Option.filter_some]

end Config

/-! ### Fields of a stage -/

/-- The functions whose options arrive. -/
def arrivingFunctions (ctx : Context) (body : AggregatorBody) : List AggrFuncWithParamS :=
  (functionsOf body).take (62 - ctx.keys.length)

/-- The fields the options of a stage ask for. -/
def stageAsks (ctx : Context) (body : AggregatorBody) : List ConfigField :=
  (ctx.keys.take 63).map keyField ++ (arrivingFunctions ctx body).map functionField

theorem filterMap_asks_arrivingOpts (ctx : Context) (body : AggregatorBody) :
    (arrivingOpts ctx body).filterMap Opt.asks = stageAsks ctx body := by
  have keys : ∀ items : List Unirec,
      (items.map keyOpt).filterMap Opt.asks = items.map keyField := by
    intro items
    rw [List.filterMap_map, ← List.filterMap_eq_map]
    rfl
  have functions : ∀ items : List AggrFuncWithParamS,
      (items.map functionOpt).filterMap Opt.asks = items.map functionField := by
    intro items
    rw [List.filterMap_map, ← List.filterMap_eq_map]
    exact List.filterMap_congr fun func _ => asks_functionOpt func
  unfold arrivingOpts stageOpts stageAsks arrivingFunctions
  rw [List.take_append, List.filterMap_append, ← List.map_take, keys, List.length_map]
  congr 1
  cases gap : 63 - ctx.keys.length with
  | zero =>
      have none : 62 - ctx.keys.length = 0 := by omega
      simp [none]
  | succ n =>
      have some : 62 - ctx.keys.length = n := by omega
      rw [List.take_succ_cons, List.filterMap_cons_none (asks_window _), some, ← List.map_take,
        functions]

theorem stageOpts_known (ctx : Context) (body : AggregatorBody) :
    ∀ opt ∈ stageOpts ctx body, Config.AsksKnown opt := by
  intro opt member field asks
  rcases List.mem_append.mp member with isKey | isLater
  · obtain ⟨un, _, rfl⟩ := List.mem_map.mp isKey
    obtain rfl := Option.some.inj asks
    exact List.mem_append_left _ (List.mem_map_of_mem (Field.mem_keywords un))
  · rcases List.mem_cons.mp isLater with rfl | isFunction
    · cases asks
    · obtain ⟨func, _, rfl⟩ := List.mem_map.mp isFunction
      rw [asks_functionOpt] at asks
      obtain rfl := Option.some.inj asks
      unfold functionField outputField
      dsimp only
      split
      · exact List.mem_append_right _ (List.mem_map.mpr ⟨_, Field.mem_keywords _, rfl⟩)
      · exact List.mem_append_left _ (List.mem_map_of_mem (Field.mem_keywords _))

/-- The configuration of an aggregator at its place. -/
def stageConfig (ctx : Context) (body : AggregatorBody) : Config :=
  (arrivingOpts ctx body).foldl Config.applyOption .new

/-- A stage registers the first field that is asked for under each name that is no time. -/
theorem mem_fields_iff (ctx : Context) (body : AggregatorBody) (field : ConfigField) :
    field ∈ (stageConfig ctx body).fields ↔
      isTimeName field.name = false ∧
        ((stageAsks ctx body).find? fun other => other.name == field.name) = some field := by
  have known : ∀ opt ∈ arrivingOpts ctx body, Config.AsksKnown opt := fun opt member =>
    stageOpts_known ctx body opt (List.mem_of_mem_take member)
  rw [Config.mem_fields_iff_find, stageConfig,
    Config.find_foldl (arrivingOpts ctx body) known (by simp [Config.new]),
    filterMap_asks_arrivingOpts]
  cases isTimeName field.name <;> simp [Config.find, Config.new]

/-! ### Registered functions -/

theorem isTimeName_name (field : Field) :
    isTimeName field.name = true ↔ field = .unirec .timeLast ∨ field = .unirec .timeFirst := by
  have last : "TIME_LAST".toList = (Field.unirec .timeLast).name := rfl
  have first : "TIME_FIRST".toList = (Field.unirec .timeFirst).name := rfl
  have named : ∀ other : Field, field.name = other.name ↔ field = other := fun other =>
    ⟨Field.name_injective, congrArg Field.name⟩
  unfold isTimeName
  rw [last, first, Bool.or_eq_true, beq_iff_eq, beq_iff_eq, named, named]

/-- A function is registered when it arrives and no time, no key and no function before it has
the name of its field. -/
structure Registers (ctx : Context) (body : AggregatorBody) (func : AggrFuncWithParamS) : Prop where
  first : ((arrivingFunctions ctx body).find? fun other => outputField other = outputField func) =
    some func
  noTime : outputField func ≠ .unirec .timeLast ∧ outputField func ≠ .unirec .timeFirst
  noKey : ∀ un ∈ ctx.keys.take 63, outputField func ≠ .unirec un

theorem find?_functionField (functions : List AggrFuncWithParamS) (field : Field) :
    ((functions.map functionField).find? fun other => other.name == field.name) =
      (functions.find? fun other => outputField other = field).map functionField := by
  rw [List.find?_map]
  congr 2
  funext other
  by_cases same : outputField other = field
  · simp [functionField, same]
  · have different : (outputField other).name ≠ field.name := mt Field.name_injective same
    simp [functionField, same, different]

theorem find?_keyField (keys : List Unirec) (field : Field) :
    ((keys.map keyField).find? fun other => other.name == field.name) =
      (keys.find? fun un => field = .unirec un).map keyField := by
  rw [List.find?_map]
  congr 2
  funext un
  have named : (keyField un).name = (Field.unirec un).name := rfl
  by_cases same : field = .unirec un
  · simp [named, same]
  · have different : (Field.unirec un).name ≠ field.name := fun names =>
      same (Field.name_injective names).symm
    simp [named, same, different]

/-- A stage registers its keys and the functions with names of their own. -/
theorem mem_stageConfig_fields (ctx : Context) (body : AggregatorBody) (field : ConfigField) :
    field ∈ (stageConfig ctx body).fields ↔
      (∃ un ∈ ctx.keys.take 63, un ≠ .timeLast ∧ un ≠ .timeFirst ∧ field = keyField un) ∨
        ∃ func, Registers ctx body func ∧ field = functionField func := by
  have time : ∀ id : Field, isTimeName id.name = false ↔
      id ≠ .unirec .timeLast ∧ id ≠ .unirec .timeFirst := by
    intro id
    rw [Bool.eq_false_iff, Ne, isTimeName_name, not_or]
  rw [mem_fields_iff, stageAsks, List.find?_append]
  constructor
  · rintro ⟨noTime, found⟩
    have asked : field ∈ stageAsks ctx body := by
      rcases Option.or_eq_some_iff.mp found with isKey | ⟨_, isFunction⟩
      · exact List.mem_append_left _ (List.mem_of_find?_eq_some isKey)
      · exact List.mem_append_right _ (List.mem_of_find?_eq_some isFunction)
    obtain ⟨id, named⟩ : ∃ id : Field, field.name = id.name := by
      rcases List.mem_append.mp asked with isKey | isFunction
      · obtain ⟨un, _, rfl⟩ := List.mem_map.mp isKey
        exact ⟨.unirec un, rfl⟩
      · obtain ⟨func, _, rfl⟩ := List.mem_map.mp isFunction
        exact ⟨outputField func, rfl⟩
    rw [named, time] at noTime
    rw [named, find?_keyField, find?_functionField] at found
    rcases Option.or_eq_some_iff.mp found with isKey | ⟨noKey, isFunction⟩
    · obtain ⟨un, isUn, rfl⟩ := Option.map_eq_some_iff.mp isKey
      obtain rfl : id = .unirec un := by simpa using List.find?_some isUn
      exact Or.inl ⟨un, List.mem_of_find?_eq_some isUn, by simpa using noTime.1,
        by simpa using noTime.2, rfl⟩
    · obtain ⟨func, isFunc, rfl⟩ := Option.map_eq_some_iff.mp isFunction
      obtain rfl : outputField func = id := by simpa using List.find?_some isFunc
      refine Or.inr ⟨func, ⟨isFunc, noTime, fun un isKey => ?_⟩, rfl⟩
      have absent := List.find?_eq_none.mp (Option.map_eq_none_iff.mp noKey) un isKey
      simpa using absent
  · rintro (⟨un, isKey, notLast, notFirst, rfl⟩ | ⟨func, registers, rfl⟩)
    · have named : (keyField un).name = (Field.unirec un).name := rfl
      rw [named, time, find?_keyField]
      refine ⟨by simp [notLast, notFirst], ?_⟩
      have here : ((ctx.keys.take 63).find? fun other => Field.unirec un = .unirec other) =
          some un := by
        have found : ((ctx.keys.take 63).find? fun other =>
            Field.unirec un = .unirec other).isSome = true :=
          List.find?_isSome.mpr ⟨un, isKey, by simp⟩
        obtain ⟨other, isOther⟩ := Option.isSome_iff_exists.mp found
        obtain rfl : un = other := by simpa using List.find?_some isOther
        exact isOther
      rw [here]
      rfl
    · have named : (functionField func).name = (outputField func).name := rfl
      rw [named, time, find?_keyField, find?_functionField, registers.first]
      refine ⟨registers.noTime, ?_⟩
      have noKey : ((ctx.keys.take 63).find? fun un => outputField func = .unirec un) = none :=
        List.find?_eq_none.mpr fun un isKey => by simpa using registers.noKey un isKey
      rw [noKey]
      rfl

end Policer.Aggregator
