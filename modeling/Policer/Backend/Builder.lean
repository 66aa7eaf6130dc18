import Policer.Backend.StringFunctions
import Policer.Parsing.Parser

/-!
# Building the pipeline

`Builder` walks over the syntax tree once and leaves a forest of stages, each with
the option string its `init` gets. `b_stack` collects the successors of the stages
above, `gro_opt`, `win_opt` and `agg_opt` the options an aggregator below will need.
-/

namespace Policer.Backend

open Policer.Lib Policer.Parsing

/-- The component a builder manages. -/
inductive StageKind where
  | filter
  | agg
  | selector
deriving DecidableEq, Repr

/-- `Builder_stage<T>`: its component, its options and its successors. -/
inductive BuilderStage where
  | mk (kind : StageKind) (options : Str) (nextBuilders : List BuilderStage)

/-- `builderVec`. -/
abbrev BuilderVec := List BuilderStage

/-- `std::to_string` of a number that is not negative. -/
def toStringNat (n : Nat) : Str := Nat.toDigits 10 n

theorem isDigit_of_mem {n : Nat} {c : Char} (member : c ∈ toStringNat n) : c.isDigit = true :=
  Nat.isDigit_of_mem_toDigits (by decide) (by decide) member

theorem notMem_toStringNat {n : Nat} {c : Char} (other : c.isDigit = false) :
    c ∉ toStringNat n := by
  intro member
  rw [isDigit_of_mem member] at other
  cases other

theorem toStringNat_ne_nil (n : Nat) : toStringNat n ≠ [] := Nat.toDigits_ne_nil

/-- `option_windowTypeEnum`. -/
def optionWindowTypeEnum : WindowType → Str
  | .active => "A".toList
  | .passive => "P".toList
  | .global => "G".toList
  | .mixed => "M".toList

/-- `option_aggrWithParamEnum`. -/
def optionAggrWithParamEnum : AggrFuncWithParam → Str
  | .sum => " -s ".toList
  | .average => " -a ".toList
  | .minimal => " -m ".toList
  | .maximal => " -M ".toList
  | .first => " -f ".toList
  | .last => " -l ".toList
  | .or => " -o ".toList
  | .and => " -n ".toList
  | .countDistinct => " -c ".toList
  | .rate => " -r ".toList

/-- `std::numeric_limits<int>::max()`. -/
def intMax : Nat := 2147483647

/-- `get_max_window`. -/
def getMaxWindow : Str := " -t A:".toList ++ toStringNat intMax ++ " ".toList

/-- The stage whose body `apply_aliases` edits. -/
inductive BodyId where
  | selectorBody
  | groupFilterBody

/-- One pair of the loop of `apply_aliases`. -/
def applyAlias (bodyId : BodyId) (stageBody : Str) (item : VarName) : Str :=
  if item.alias_.isEmpty then stageBody
  else
    match bodyId with
    | .selectorBody => replaceAliasesInSelectorBody stageBody item.name item.alias_
    | .groupFilterBody => replaceAliasesInGroupFilterBody stageBody item.name item.alias_

/-- `apply_aliases`. -/
def applyAliases (stageBody : Str) (aliases : Option (List VarName)) (bodyId : BodyId) : Str :=
  match aliases with
  | none => stageBody
  | some aliases => aliases.foldl (applyAlias bodyId) stageBody

/-- Members of `Builder`. `bStack` has the innermost vector last; `interfaceCounter` is
the static variable of the method for selectors. -/
structure Builder where
  groupFilterVars : VarsMap
  selVars : VarsMap
  bStack : List BuilderVec
  root : BuilderVec
  groOpt : Str
  groDive : Bool
  winOpt : Str
  aggOpt : Str
  selOpt : Str
  selDive : Bool
  interfaceCounter : Nat

namespace Builder

/-- The constructor, with the value of the static counter. -/
def new (interRepr : InterRepr) (interfaceCounter : Nat) : Builder where
  groupFilterVars := interRepr.groupFilterVars
  selVars := interRepr.selVars
  bStack := []
  root := []
  groOpt := []
  groDive := false
  winOpt := []
  aggOpt := []
  selOpt := []
  selDive := false
  interfaceCounter := interfaceCounter

/-- `b_stack.push_back(my_vec)` for a new vector. -/
def pushVec : Method (Located Builder) :=
  Located.updateSelf fun self => { self with bStack := self.bStack ++ [[]] }

/-- `b_stack.pop_back()`. -/
def popVec : Method (Located Builder) :=
  Located.updateSelf fun self => { self with bStack := self.bStack.dropLast }

/-- `b_stack.back()->push_back(my_builder)`. -/
def pushBuilder (myBuilder : BuilderStage) (self : Builder) : Builder :=
  { self with bStack := self.bStack.modify (self.bStack.length - 1) (· ++ [myBuilder]) }

/-- The body shared by the methods for filters, group-filters and aggregators: the
successors are collected in a new vector and become those of a new builder. -/
def collect (succ : Method (Located Builder)) (kind : StageKind)
    (options : Located Builder → Str) : Method (Located Builder) := fun state =>
  let myVec := state.self.bStack.length
  match (pushVec >=> succ) state with
  | .error thrown => .error thrown
  | .ok state =>
      let successors := (state.self.bStack[myVec]?).getD []
      (popVec >=> fun state =>
        .ok { state with
          self := pushBuilder (.mk kind (options state) successors) state.self }) state

/-- `unpack_main_branch`: the vector stays on `b_stack`, where nothing reads it again. -/
def unpackMainBranch (mbm : Method (Located Builder)) : Method (Located Builder) := fun state =>
  let myVec := state.self.bStack.length
  match (pushVec >=> mbm) state with
  | .error thrown => .error thrown
  | .ok state =>
      .ok { state with self := { state.self with
        root := state.self.root ++ (state.self.bStack[myVec]?).getD [] } }

/-- `operator()(main_branch)`. -/
def mainBranch (mbm : Method (Located Builder)) : Method (Located Builder) := fun state =>
  if state.getDepth = 1 then unpackMainBranch mbm state else mbm state

/-- `operator()(grouper_stage)`. -/
def grouperStage (type succ : Method (Located Builder)) : Method (Located Builder) :=
  (Located.updateSelf fun self => { self with groDive := true }) >=> type >=>
  (Located.updateSelf fun self => { self with groDive := false }) >=> succ >=>
  Located.updateSelf fun self => { self with groOpt := [] }

/-- The text `operator()(window_stage)` appends to `win_opt`. -/
def windowOption (body : WindowBody) : Str :=
  " -t ".toList ++ optionWindowTypeEnum body.type ++ ":".toList ++
    toStringNat body.range.toNat ++ " ".toList

/-- `operator()(window_stage)`. -/
def windowStage (body : WindowBody) (succ : Method (Located Builder)) : Method (Located Builder) :=
  (Located.updateSelf fun self => { self with winOpt := self.winOpt ++ windowOption body }) >=>
  succ >=>
  Located.updateSelf fun self => { self with winOpt := [] }

/-- The options of an aggregator. -/
def aggregatorOptions (groOpt winOpt aggOpt : Str) : Str :=
  "param ".toList ++ groOpt ++ (if winOpt.isEmpty then getMaxWindow else winOpt) ++ aggOpt

/-- `operator()(aggregator_stage)`. -/
def aggregatorStage (body succ : Method (Located Builder)) : Method (Located Builder) :=
  body >=>
  collect succ .agg (fun state =>
    aggregatorOptions state.self.groOpt state.self.winOpt state.self.aggOpt) >=>
  Located.updateSelf fun self => { self with aggOpt := [] }

/-- `operator()(aggr_func_with_param_s)`. -/
def aggrFuncWithParamS (agf : AggrFuncWithParamS) : Method (Located Builder) :=
  Located.updateSelf fun self =>
    { self with
      aggOpt := self.aggOpt ++ optionAggrWithParamEnum agf.funcName ++ stringUnirecEnum agf.param }

/-- `operator()(group_filter_stage)`. -/
def groupFilterStage (body : Str) (succ : Method (Located Builder)) : Method (Located Builder) :=
  collect succ .filter fun state =>
    applyAliases body (state.getVars state.self.groupFilterVars .groupFilter) .groupFilterBody

/-- `operator()(selector_stage)`. -/
def selectorStage (body : Method (Located Builder)) : Method (Located Builder) :=
  (Located.updateSelf fun self => { self with selDive := true }) >=> body >=>
  (Located.updateSelf fun self => { self with selDive := false }) >=>
  fun state =>
    let options := toStringNat state.self.interfaceCounter ++ ":".toList ++
      applyAliases state.self.selOpt (state.getVars state.self.selVars .selector) .selectorBody
    let self := { state.self with interfaceCounter := state.self.interfaceCounter + 1 }
    .ok { state with self := { pushBuilder (.mk .selector options []) self with selOpt := [] } }

/-- Append to `sel_opt`. -/
def appendSelOpt (text : Str) : Method (Located Builder) :=
  Located.updateSelf fun self => { self with selOpt := self.selOpt ++ text }

/-- `operator()(sel_assignment)`. -/
def selAssignment (sa : SelAssignment) (expression : Method (Located Builder)) :
    Method (Located Builder) :=
  (Located.updateSelf fun self =>
    { self with selOpt := if self.selOpt.isEmpty then [] else self.selOpt ++ ",".toList }) >=>
  match sa.output, sa.selExpression with
  | .name str, some _ => appendSelOpt str >=> appendSelOpt "=".toList >=> expression
  | .name str, none => appendSelOpt str
  | .keyword unir, _ => appendSelOpt (stringUnirecEnum unir)

/-- `operator()(std::string)`. -/
def string (str : Str) : Method (Located Builder) := fun state =>
  if state.self.selDive then appendSelOpt str state else .ok state

/-- The text `operator()(unirec)` appends to `gro_opt`. -/
def keyOption (un : Unirec) : Str := " -k ".toList ++ stringUnirecEnum un ++ " ".toList

/-- `operator()(unirec)`. -/
def unirec (un : Unirec) : Method (Located Builder) :=
  (fun state =>
    if state.self.selDive then appendSelOpt (stringUnirecEnum un) state else .ok state) >=>
  Located.updateSelf fun self =>
    if self.groDive then { self with groOpt := self.groOpt ++ keyOption un } else self

end Builder

/-- The visitor `Builder`. -/
def builder : Visitor (Located Builder) :=
  Visitor.overBranchNames
    { string := Builder.string
      unirec := Builder.unirec
      aggrFuncWithParamS := Builder.aggrFuncWithParamS
      selAssignment := fun sa _ expression => Builder.selAssignment sa expression
      filterStage := fun body succ => Builder.collect succ .filter fun _ => body
      grouperStage := fun _ type succ => Builder.grouperStage type succ
      windowStage := Builder.windowStage
      aggregatorStage := fun _ body succ => Builder.aggregatorStage body succ
      groupFilterStage := Builder.groupFilterStage
      selectorStage := fun _ body => Builder.selectorStage body
      mainBranch := fun _ mbm => Builder.mainBranch mbm }

/-- The forest `Builder` leaves in `root`, with the value of the static counter before. -/
def buildRoot (interRepr : InterRepr) (interfaceCounter : Nat) : Except Failure BuilderVec :=
  (builder.visit interRepr.ast ⟨[], Builder.new interRepr interfaceCounter⟩).map (·.self.root)

end Policer.Backend
