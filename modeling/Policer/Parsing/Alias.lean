import Policer.Parsing.Variables

/-!
# Aliases of variables

`Alias4variables` records the variables of every aggregator and selector and
gives each name used below an aggregator the field its variable stands for. The
abstract reading is `aliasAbove`: the field of the last assignment of the name
in the aggregator above, which is how lexical scoping would define it.
-/

namespace Policer.Parsing

open Policer.Lib

/-- `put_together_function_alias`. -/
def putTogetherFunctionAlias (funcName : AggrFuncWithParam) (param : Unirec) : Str :=
  stringAggrWithParamEnum funcName ++ "_".toList ++ stringUnirecEnum param

/-- Members of `Alias4variables`. The pointer `lastAggr` into `aggrVars` is the key of the
entry it points to. The alias of a `COUNT_DISTINCT` is also handed to UniRec as a new
field name (`define_new_unirec_field`), which leaves these members alone. -/
structure Alias4variables where
  filterVars : VarsMap
  groupFilterVars : VarsMap
  aggrVars : VarsMap
  selVars : VarsMap
  aggIsPresent : Bool
  selDive : Bool
  lastAggr : Option Str
  lastAggrVar : VarName

namespace Alias4variables

/-- The constructor. -/
def new (filterVars groupFilterVars : VarsMap) : Alias4variables where
  filterVars := filterVars
  groupFilterVars := groupFilterVars
  aggrVars := ∅
  selVars := ∅
  aggIsPresent := true
  selDive := false
  lastAggr := none
  lastAggrVar := ⟨[], []⟩

/-- The names `lastAggr` points to. -/
def agVec (self : Alias4variables) : Option (List VarName) :=
  self.lastAggr.bind fun key => self.aggrVars[key]?

/-- The inner loops of `operator()(group_filter_stage)` and `operator()(selector_stage)`. -/
def giveAlias (agVec : List VarName) (item : VarName) : VarName :=
  agVec.foldl
    (fun item ag => if item.name = ag.name then { item with alias_ := ag.alias_ } else item) item

/-- `vec`, which points into a map, with the aliases from `agVec`; NULL when either is. -/
def giveAliases (map : VarsMap) (key : Str) (agVec : Option (List VarName)) : VarsMap :=
  match map[key]?, agVec with
  | some vec, some ag => map.insert key (vec.map (giveAlias ag))
  | _, _ => map

/-- `operator()(aggr_func_with_param_s)`. -/
def aggrFuncWithParamS (as : AggrFuncWithParamS) : Method (Located Alias4variables) :=
  Located.updateSelf fun self =>
    { self with
      lastAggrVar := { self.lastAggrVar with
        alias_ :=
          if as.funcName = .countDistinct then putTogetherFunctionAlias as.funcName as.param
          else stringUnirecEnum as.param } }

/-- `operator()(aggr_func_without_param)`. -/
def aggrFuncWithoutParam : AggrFuncWithoutParam → Method (Located Alias4variables)
  | .count => Located.updateSelf fun self =>
      { self with lastAggrVar := { self.lastAggrVar with alias_ := "COUNT".toList } }

/-- `operator()(aggr_assignment)`. -/
def aggrAssignment (as : AggrAssignment) (funcType : Method (Located Alias4variables)) :
    Method (Located Alias4variables) :=
  (Located.updateSelf fun self =>
    { self with lastAggrVar := { self.lastAggrVar with name := as.variableName.text } }) >=>
  funcType >=>
  Action.update fun state =>
    { state with self := { state.self with
      aggrVars := state.addVar state.self.aggrVars .aggregator state.self.lastAggrVar } }

/-- `operator()(aggregator_stage)`. -/
def aggregatorStage (body succ : Method (Located Alias4variables)) :
    Method (Located Alias4variables) :=
  (Located.updateSelf fun self => { self with aggIsPresent := true }) >=>
  body >=>
  (Action.update fun state =>
    { state with self := { state.self with
      lastAggr :=
        (state.getVars state.self.aggrVars .aggregator).map fun _ =>
          state.getStagePath .aggregator } }) >=>
  succ >=>
  Located.updateSelf fun self => { self with lastAggr := none, aggIsPresent := false }

/-- `operator()(group_filter_stage)`. -/
def groupFilterStage (succ : Method (Located Alias4variables)) :
    Method (Located Alias4variables) :=
  (Action.update fun state =>
    { state with self := { state.self with
      groupFilterVars := giveAliases state.self.groupFilterVars (state.getStagePath .groupFilter)
        state.self.agVec } }) >=>
  succ

/-- `operator()(selector_stage)`. -/
def selectorStage (body : Method (Located Alias4variables)) : Method (Located Alias4variables) :=
  body >=>
  Action.update fun state =>
    { state with self := { state.self with
      selVars := giveAliases state.self.selVars (state.getStagePath .selector) state.self.agVec } }

/-- `add_var(selVars, "selector", var)` for a name without alias. -/
def recordName (name : Str) : Method (Located Alias4variables) :=
  Action.update fun state =>
    { state with self := { state.self with
      selVars := state.addVar state.self.selVars .selector ⟨name, []⟩ } }

/-- `operator()(std::string)`. -/
def string (str : Str) : Method (Located Alias4variables) := fun state =>
  if state.self.selDive then recordName str state else .ok state

/-- `operator()(sel_assignment)` between setting and clearing `selDive`. -/
def selItem (sa : SelAssignment) (expression : Method (Located Alias4variables)) :
    Method (Located Alias4variables) := fun state =>
  match sa.output, sa.selExpression with
  | .name _, some _ => expression state
  | .name pointer, none =>
      if state.self.aggIsPresent && pointer == "COUNT".toList then .ok state
      else recordName pointer state
  | .keyword _, _ => .ok state

/-- `operator()(sel_assignment)`. -/
def selAssignment (sa : SelAssignment) (expression : Method (Located Alias4variables)) :
    Method (Located Alias4variables) :=
  (Located.updateSelf fun self => { self with selDive := true }) >=>
  selItem sa expression >=>
  Located.updateSelf fun self => { self with selDive := false }

end Alias4variables

/-- The visitor `Alias4variables`. -/
def alias4variables : Visitor (Located Alias4variables) :=
  Visitor.overBranchNames
    { string := Alias4variables.string
      aggrFuncWithParamS := Alias4variables.aggrFuncWithParamS
      aggrFuncWithoutParam := Alias4variables.aggrFuncWithoutParam
      aggrAssignment := Alias4variables.aggrAssignment
      aggregatorStage := fun _ body succ => Alias4variables.aggregatorStage body succ
      groupFilterStage := fun _ succ => Alias4variables.groupFilterStage succ
      selectorStage := fun _ body => Alias4variables.selectorStage body
      selAssignment := fun sa _ expression => Alias4variables.selAssignment sa expression }

/-! ### Scoping -/

/-- The field a function of an aggregator is recorded under. -/
def AggrFuncType.field : AggrFuncType → Str
  | .withParam func =>
      if func.funcName = .countDistinct then putTogetherFunctionAlias func.funcName func.param
      else stringUnirecEnum func.param
  | .withoutParam .count => "COUNT".toList

/-- The variable an assignment defines with its field. -/
def AggrAssignment.var (as : AggrAssignment) : VarName :=
  ⟨as.variableName.text, as.funcType.field⟩

/-- The field of the last assignment of a name. -/
def AggregatorBody.lastField (body : AggregatorBody) (name : Str) : Option Str :=
  (body.all.reverse.find? fun as => as.variableName.text == name).map (·.funcType.field)

/-- The field a name stands for below the stages of a context; empty when no aggregator
above defines it. -/
def Context.aliasAbove (ctx : Context) (name : Str) : Str :=
  (ctx.aggregator.bind fun above => above.2.lastField name).getD []

end Policer.Parsing
