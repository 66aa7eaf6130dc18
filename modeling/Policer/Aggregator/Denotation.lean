import Policer.Aggregator.Registration

/-!
# What variables of an aggregator denote

`Alias4variables` gives a variable the field of its function, and the aggregator below
`Builder` registers fields. `variables_denote_iff` says when the two agree: two
functions over one parameter, a key or a time as a parameter, and too many options
each break it.
-/

namespace Policer.Aggregator

open Policer.Lib Policer.Parsing Policer.Backend

/-! ### Aggregators of the forest -/

/-- An aggregator with its context. -/
def aggregator? : Context × Node → Option (Context × AggregatorBody)
  | (ctx, .inner (.aggregator body)) => some (ctx, body)
  | _ => none

/-- The aggregators of a list of stages in textual order. -/
def aggregatorsOf (stages : List (Context × Node)) : List (Context × AggregatorBody) :=
  stages.filterMap aggregator?

theorem mem_aggregatorsOf {stages : List (Context × Node)} {occ : Context × AggregatorBody} :
    occ ∈ aggregatorsOf stages ↔ (occ.1, .inner (.aggregator occ.2)) ∈ stages := by
  constructor
  · intro member
    obtain ⟨⟨ctx, found⟩, inside, isOcc⟩ := List.mem_filterMap.mp member
    cases found with
    | selector body => cases isOcc
    | inner st =>
        cases st with
        | aggregator body =>
            obtain rfl := Option.some.inj isOcc
            exact inside
        | _ => cases isOcc
  · intro member
    exact List.mem_filterMap.mpr ⟨_, member, rfl⟩

mutual

/-- The option strings of the aggregators below a builder, the outer ones first. -/
def aggOptionsIn : BuilderStage → List Str
  | .mk .agg options next => options :: aggOptionsOf next
  | .mk _ _ next => aggOptionsOf next

/-- The option strings of the aggregators in a forest. -/
def aggOptionsOf : List BuilderStage → List Str
  | [] => []
  | head :: tail => aggOptionsIn head ++ aggOptionsOf tail

end

theorem aggOptionsOf_append (first second : BuilderVec) :
    aggOptionsOf (first ++ second) = aggOptionsOf first ++ aggOptionsOf second := by
  induction first with
  | nil => rfl
  | cons head tail ih => simp [aggOptionsOf, ih]

mutual

/-- The aggregators of the translation are those of the tree, each with its own options. -/
theorem aggOptionsOf_translateTree {data : InterRepr} {ctx : Context} : (t : Tree) → ∀ number,
    aggOptionsOf (translateTree data ctx t number).1 =
      (aggregatorsOf (t.occurrences ctx)).map fun occ => aggOptions occ.1 occ.2
  | .selector _, _ => rfl
  | .stage st next, number => by
      have below := @aggOptionsOf_translateTree data (ctx.enter st) next number
      cases st with
      | filter body => exact (List.append_nil _).trans below
      | groupFilter body => exact (List.append_nil _).trans below
      | grouper type => exact below
      | window body => exact below
      | aggregator body =>
          exact (List.append_nil _).trans (congrArg (aggOptions ctx body :: ·) below)
  | .branches _ items, number => aggOptionsOf_translateBranches items number

theorem aggOptionsOf_translateBranches {data : InterRepr} {ctx : Context} : (items : Branches) →
    ∀ number, aggOptionsOf (translateBranches data ctx items number).1 =
      (aggregatorsOf (items.occurrences ctx)).map fun occ => aggOptions occ.1 occ.2
  | .nil, _ => rfl
  | .cons name tree rest, number => by
      rw [translateBranches, aggOptionsOf_append, aggOptionsOf_translateTree tree,
        aggOptionsOf_translateBranches rest, ← List.map_append]
      simp [Branches.occurrences, aggregatorsOf]

end

/-- `Builder` leaves one aggregator for each of the rule file, with the options of its place. -/
theorem aggOptionsOf_root {ast : MainBranches} {data : InterRepr} (ran : Parser.run ast = .ok data)
    {number : Nat} {root : BuilderVec} (built : buildRoot data number = .ok root) :
    aggOptionsOf root =
      (aggregatorsOf ast.occurrences).map fun occ => aggOptions occ.1 occ.2 := by
  rw [← Except.ok.inj ((buildRoot_of_run ran number).symm.trans built)]
  exact aggOptionsOf_translateTree ast.tree number

/-! ### Recorded aliases -/

theorem mem_aggrVars_step {abs : Aliases} {occ : Context × Node} {key : Str} {var : VarName}
    (recorded : var ∈ (abs.aggrVars[key]?).getD []) :
    var ∈ ((abs.step occ.1 occ.2).aggrVars[key]?).getD [] := by
  obtain ⟨ctx, found⟩ := occ
  cases found with
  | selector body => exact recorded
  | inner st =>
      cases st with
      | aggregator body =>
          simp only [Aliases.step, getElem?_addAll]
          split
          · rename_i here
            obtain ⟨rfl, _⟩ := here
            exact List.mem_append_left _ recorded
          · exact recorded
      | _ => exact recorded

/-- Every assignment of an aggregator is recorded with its field. -/
theorem mem_aggrVars_fold {ctx : Context} {body : AggregatorBody} {as : AggrAssignment}
    (inBody : as ∈ body.all) : (stages : List (Context × Node)) → (abs : Aliases) →
      (ctx, .inner (.aggregator body)) ∈ stages ∨
        as.var ∈ (abs.aggrVars[stageKey .aggregator ctx.path]?).getD [] →
      as.var ∈ ((Aliases.fold stages abs).aggrVars[stageKey .aggregator ctx.path]?).getD []
  | [], _, recorded => recorded.resolve_left (by simp)
  | occ :: rest, abs, found => by
      refine mem_aggrVars_fold inBody rest (abs.step occ.1 occ.2) ?_
      rcases found with member | recorded
      · rcases List.mem_cons.mp member with rfl | later
        · refine Or.inr ?_
          simp only [Aliases.step, getElem?_addAll, true_and]
          split
          · exact List.mem_append_right _ (List.mem_map_of_mem inBody)
          · rename_i empty
            simp [AggregatorBody.all] at empty
        · exact Or.inl later
      · exact Or.inr (mem_aggrVars_step recorded)

theorem recorded_of_run {ast : MainBranches} {data : InterRepr} (ran : Parser.run ast = .ok data)
    {occ : Context × AggregatorBody} (member : occ ∈ aggregatorsOf ast.occurrences)
    {as : AggrAssignment} (inBody : as ∈ occ.2.all) :
    as.var ∈ (data.aggrVars[stageKey .aggregator occ.1.path]?).getD [] := by
  obtain ⟨parsed, parsedOk, _, aliased⟩ := Parser.run_ok.mp ran
  obtain ⟨_, rfl⟩ := addAliases_ok.mp aliased
  obtain rfl := (Parser.parse_ok parsedOk).ast_eq
  exact mem_aggrVars_fold inBody parsed.ast.occurrences _ (Or.inl (mem_aggregatorsOf.mp member))

/-! ### Aliases against registered fields -/

/-- The alias of a function names the field the function asks for. -/
theorem functionField_name (func : AggrFuncWithParamS) :
    (functionField func).name = (AggrFuncType.withParam func).field := by
  obtain ⟨funcName, param⟩ := func
  cases funcName <;> rfl

/-- Functions ask for one field when they have one parameter and count both or neither. -/
theorem outputField_eq_iff {left right : AggrFuncWithParamS} :
    outputField left = outputField right ↔
      left.param = right.param ∧
        (left.funcName = .countDistinct ↔ right.funcName = .countDistinct) := by
  unfold outputField
  by_cases leftCounts : left.funcName = .countDistinct <;>
    by_cases rightCounts : right.funcName = .countDistinct <;> simp [leftCounts, rightCounts]

/-- A function is denoted when the aggregator with these options registers the alias of the
function with the code of the function. -/
def Denotes (options : Str) (func : AggrFuncWithParamS) : Prop :=
  ∃ config, Config.ofOptions options = .ok config ∧
    ∃ field ∈ config.fields,
      field.name = (AggrFuncType.withParam func).field ∧
        field.function = functionCode func.funcName

/-- All functions of an aggregator keep their meaning. -/
structure Separable (ctx : Context) (body : AggregatorBody) : Prop where
  fits : (aggOptions ctx body).length < maxString
  arrives : ∀ func ∈ functionsOf body, func ∈ arrivingFunctions ctx body
  noTime : ∀ func ∈ functionsOf body, func.funcName ≠ .countDistinct →
    func.param ≠ .timeFirst ∧ func.param ≠ .timeLast
  noKey : ∀ func ∈ functionsOf body, func.funcName ≠ .countDistinct → func.param ∉ ctx.keys
  agree : ∀ func ∈ functionsOf body, ∀ other ∈ functionsOf body,
    func.funcName ≠ .countDistinct → other.funcName ≠ .countDistinct →
      func.param = other.param → func.funcName = other.funcName

/-- The configuration of a stage whose options fit. -/
theorem ofOptions_eq_stageConfig {ctx : Context} {body : AggregatorBody} {config : Config}
    (read : Config.ofOptions (aggOptions ctx body) = .ok config) :
    (aggOptions ctx body).length < maxString ∧ config = stageConfig ctx body := by
  rw [ofOptions_aggOptions] at read
  split at read
  · rename_i fits
    exact ⟨fits, (Except.ok.inj read).symm⟩
  · cases read

/-- A function that is denoted is the first to ask for its field. -/
theorem first_of_denotes {ctx : Context} {body : AggregatorBody} {func : AggrFuncWithParamS}
    (denotes : Denotes (aggOptions ctx body) func) :
    func ∈ arrivingFunctions ctx body ∧ isTimeName (outputField func).name = false ∧
      ((stageAsks ctx body).find? fun other => other.name == (outputField func).name) =
        some (functionField func) := by
  obtain ⟨config, read, field, member, name, code⟩ := denotes
  obtain ⟨_, rfl⟩ := ofOptions_eq_stageConfig read
  obtain ⟨noTime, found⟩ := (mem_fields_iff ctx body field).mp member
  rw [← functionField_name] at name
  have asked := List.mem_of_find?_eq_some found
  rcases List.mem_append.mp asked with isKey | isFunction
  · obtain ⟨un, _, rfl⟩ := List.mem_map.mp isKey
    exact absurd code.symm (functionCode_ne_key func.funcName)
  · obtain ⟨other, arrives, rfl⟩ := List.mem_map.mp isFunction
    have sameName : other.funcName = func.funcName := functionCode_injective code
    have sameParam := (outputField_eq_iff.mp (Field.name_injective name)).1
    obtain rfl : other = func := by
      obtain ⟨otherName, otherParam⟩ := other
      obtain ⟨funcName, param⟩ := func
      simp only at sameName sameParam
      rw [sameName, sameParam]
    exact ⟨arrives, noTime, found⟩

/-- A function that arrives asks in vain for a name only behind another request for it. -/
theorem denotes_of_first {ctx : Context} {body : AggregatorBody} {func : AggrFuncWithParamS}
    (fits : (aggOptions ctx body).length < maxString)
    (noTime : isTimeName (outputField func).name = false)
    (first : ((stageAsks ctx body).find? fun other => other.name == (outputField func).name) =
      some (functionField func)) : Denotes (aggOptions ctx body) func := by
  refine ⟨stageConfig ctx body, ?_, functionField func, ?_, functionField_name func, rfl⟩
  · rw [ofOptions_aggOptions, if_pos fits]
    rfl
  · exact (mem_fields_iff ctx body _).mpr ⟨noTime, first⟩

/-- A key asks for the field of a function with the same name before the function does. -/
theorem keyField_name_eq_iff {un : Unirec} {func : AggrFuncWithParamS} :
    (keyField un).name = (outputField func).name ↔
      func.funcName ≠ .countDistinct ∧ func.param = un := by
  have named : (keyField un).name = (Field.unirec un).name := rfl
  rw [named]
  constructor
  · intro same
    have fields := Field.name_injective same
    unfold outputField at fields
    split at fields
    · cases fields
    · rename_i plain
      exact ⟨plain, (Field.unirec.inj fields).symm⟩
  · rintro ⟨plain, rfl⟩
    simp [outputField, plain]

/-- Of separable functions each is the first to ask for its field. -/
theorem Separable.denotes {ctx : Context} {body : AggregatorBody} (separable : Separable ctx body)
    {func : AggrFuncWithParamS} (member : func ∈ functionsOf body) :
    Denotes (aggOptions ctx body) func := by
  have noTime : isTimeName (outputField func).name = false := by
    rw [Bool.eq_false_iff, Ne, isTimeName_name]
    unfold outputField
    split
    · simp
    · rename_i plain
      simpa using (separable.noTime func member plain).symm
  refine denotes_of_first separable.fits noTime ?_
  have noKeys : (((ctx.keys.take 63).map keyField).find? fun other =>
      other.name == (outputField func).name) = none := by
    refine List.find?_eq_none.mpr ?_
    intro field isKey
    obtain ⟨un, key, rfl⟩ := List.mem_map.mp isKey
    simp only [beq_iff_eq, keyField_name_eq_iff]
    rintro ⟨plain, rfl⟩
    exact separable.noKey func member plain (List.mem_of_mem_take key)
  have arrives : functionField func ∈ (arrivingFunctions ctx body).map functionField :=
    List.mem_map_of_mem (separable.arrives func member)
  have asked : (((arrivingFunctions ctx body).map functionField).find? fun other =>
      other.name == (outputField func).name).isSome = true :=
    List.find?_isSome.mpr ⟨_, arrives, by simp [functionField]⟩
  obtain ⟨found, isFound⟩ := Option.isSome_iff_exists.mp asked
  obtain ⟨other, inArriving, rfl⟩ := List.mem_map.mp (List.mem_of_find?_eq_some isFound)
  have sameName : (functionField other).name = (outputField func).name := by
    simpa using List.find?_some isFound
  have otherMember : other ∈ functionsOf body := List.mem_of_mem_take inArriving
  obtain ⟨sameParam, sameKind⟩ := outputField_eq_iff.mp (Field.name_injective sameName)
  have sameFunc : other.funcName = func.funcName := by
    by_cases counts : func.funcName = .countDistinct
    · rw [counts, sameKind.mpr counts]
    · exact separable.agree other otherMember func member (mt sameKind.mp counts) counts sameParam
  obtain rfl : other = func := by
    obtain ⟨otherName, otherParam⟩ := other
    obtain ⟨funcName, param⟩ := func
    simp only at sameFunc sameParam
    rw [sameFunc, sameParam]
  rw [stageAsks, List.find?_append, noKeys, isFound, Option.none_or]

/-- The functions of an aggregator are all denoted exactly when they are separable. -/
theorem denotes_iff_separable {ctx : Context} {body : AggregatorBody}
    (withParam : functionsOf body ≠ []) :
    (∀ func ∈ functionsOf body, Denotes (aggOptions ctx body) func) ↔ Separable ctx body := by
  refine ⟨fun denotes => ?_, fun separable func member => separable.denotes member⟩
  have firsts := fun func member => first_of_denotes (denotes func member)
  obtain ⟨some, someMember⟩ := List.exists_mem_of_ne_nil _ withParam
  have fewKeys : ctx.keys.length < 62 := by
    have arrives := (firsts some someMember).1
    by_contra many
    have none : 62 - ctx.keys.length = 0 := by omega
    simp [arrivingFunctions, none] at arrives
  refine ⟨?_, fun func member => (firsts func member).1, ?_, ?_, ?_⟩
  · obtain ⟨config, read, _⟩ := denotes some someMember
    exact (ofOptions_eq_stageConfig read).1
  · intro func member plain
    have noTime := (firsts func member).2.1
    rw [Bool.eq_false_iff, Ne, isTimeName_name, outputField, if_neg plain] at noTime
    simpa [not_or, and_comm] using noTime
  · intro func member plain isKey
    have found := (firsts func member).2.2
    have taken : ctx.keys.take 63 = ctx.keys := List.take_of_length_le (by omega)
    have keyFound : ((ctx.keys.map keyField).find? fun other =>
        other.name == (outputField func).name).isSome = true :=
      List.find?_isSome.mpr ⟨keyField func.param, List.mem_map_of_mem isKey, by
        simpa using keyField_name_eq_iff.mpr ⟨plain, rfl⟩⟩
    obtain ⟨key, isFirst⟩ := Option.isSome_iff_exists.mp keyFound
    obtain ⟨un, _, rfl⟩ := List.mem_map.mp (List.mem_of_find?_eq_some isFirst)
    rw [stageAsks, taken, List.find?_append, isFirst, Option.some_or] at found
    have code := congrArg ConfigField.function (Option.some.inj found)
    exact functionCode_ne_key func.funcName code.symm
  · intro func member other otherMember plain otherPlain sameParam
    have same : outputField func = outputField other :=
      outputField_eq_iff.mpr ⟨sameParam, by simp [plain, otherPlain]⟩
    have found := (firsts func member).2.2
    rw [same, (firsts other otherMember).2.2] at found
    exact functionCode_injective (congrArg ConfigField.function (Option.some.inj found)).symm

/-- After `Builder` every variable of an aggregator denotes its own function exactly when no
function has a parameter or the functions are separable. -/
theorem variables_denote_iff {ast : MainBranches} {data : InterRepr} (accepted : Accepted ast data)
    {number : Nat} {root : BuilderVec} (built : buildRoot data number = .ok root) :
    aggOptionsOf root = (aggregatorsOf ast.occurrences).map (fun occ => aggOptions occ.1 occ.2) ∧
      ∀ occ ∈ aggregatorsOf ast.occurrences,
        (∀ as ∈ occ.2.all, as.var ∈ (data.aggrVars[stageKey .aggregator occ.1.path]?).getD []) ∧
          ((∀ func ∈ functionsOf occ.2, Denotes (aggOptions occ.1 occ.2) func) ↔
            functionsOf occ.2 = [] ∨ Separable occ.1 occ.2) := by
  refine ⟨aggOptionsOf_root accepted.run built, fun occ member =>
    ⟨fun as inBody => recorded_of_run accepted.run member inBody, ?_⟩⟩
  by_cases withParam : functionsOf occ.2 = []
  · simp [withParam]
  · simp only [denotes_iff_separable withParam, withParam, false_or]

/-- `main { aggregator: v = SUM(PACKETS), w = MAX(PACKETS); selector: v, w; }`. -/
def sumAndMax : MainBranches where
  first := .mk .main (.stage (.aggregator
    { body :=
        { first := ⟨.v, .withParam ⟨.sum, .packets⟩⟩
          rest := [⟨.w, .withParam ⟨.maximal, .packets⟩⟩] }
      succ := .stage (.selector
        ⟨⟨.name "v".toList, none⟩, [⟨.name "w".toList, none⟩]⟩) }))
  rest := .nil

theorem sumAndMax_accepted : ∃ data, Accepted sumAndMax data := by
  obtain ⟨data, accepted, _⟩ := accepted_of_accepts sumAndMax (fun _ => true) (by decide +kernel)
  exact ⟨data, accepted⟩

theorem variables_denote_iff_sumAndMax :
    ∃ data root, Accepted sumAndMax data ∧ buildRoot data 0 = .ok root ∧
      ∀ occ ∈ aggregatorsOf sumAndMax.occurrences,
        (∀ func ∈ functionsOf occ.2, Denotes (aggOptions occ.1 occ.2) func) ↔
          functionsOf occ.2 = [] ∨ Separable occ.1 occ.2 := by
  obtain ⟨data, accepted⟩ := sumAndMax_accepted
  have built := buildRoot_of_run accepted.run 0
  exact ⟨data, _, accepted, built, fun occ member =>
    ((variables_denote_iff accepted built).2 occ member).2⟩

/-- `w` is recorded with the field `PACKETS`, which is registered with `SUM`. -/
theorem sumAndMax_not_denoted :
    ∃ data root, Accepted sumAndMax data ∧ buildRoot data 0 = .ok root ∧
      ∃ occ ∈ aggregatorsOf sumAndMax.occurrences, ∃ func ∈ functionsOf occ.2,
        ¬ Denotes (aggOptions occ.1 occ.2) func := by
  obtain ⟨data, accepted⟩ := sumAndMax_accepted
  refine ⟨data, _, accepted, buildRoot_of_run accepted.run 0, _, List.mem_cons_self,
    ⟨.maximal, .packets⟩, by decide, fun denotes => ?_⟩
  have first := (first_of_denotes denotes).2.2
  exact absurd first (by decide)

end Policer.Aggregator
