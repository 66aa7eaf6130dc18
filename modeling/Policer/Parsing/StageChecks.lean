import Policer.Parsing.Variables

/-!
# Semantic checks of stages

`Check_seq_stages`, `Check_grouper` and `Check_selector`. `checkSelectorCrawl`
says what the last one demands of a selector at its place: a keyword used as an
output is a grouper key, an aggregate parameter or a time, unless there are no
keys and no parameters above.
-/

namespace Policer.Parsing

open Policer.Lib

/-! ### Order of stages -/

/-- Abbreviations for the stages (`stage_type`). -/
inductive StageType where
  | fi
  | gr
  | wi
  | ag
  | gf
  | se
deriving DecidableEq, Repr

namespace CheckSeqStages

open StageType

/-- `allowedComb`. -/
def allowedComb : List (List StageType) :=
  [[fi, gr, wi, ag, gf, se],
    [gr, wi, ag, gf, se],
    [fi, wi, ag, gf, se],
    [wi, ag, gf, se],
    [fi, gr, ag, gf, se],
    [gr, ag, gf, se],
    [fi, ag, gf, se],
    [ag, gf, se],
    [fi, gr, wi, gf, se],
    [gr, wi, gf, se],
    [fi, gr, gf, se],
    [gr, gf, se],
    [fi, gr, wi, ag, se],
    [gr, wi, ag, se],
    [fi, wi, ag, se],
    [wi, ag, se],
    [fi, gr, ag, se],
    [gr, ag, se],
    [fi, ag, se],
    [ag, se],
    [fi, gr, wi, se],
    [gr, wi, se],
    [fi, gr, se],
    [gr, se],
    [fi, se],
    [se]]

/-- One item of `stage_types2string`. -/
def itemText : StageType → Str
  | fi => "filter->".toList
  | gr => "grouper->".toList
  | wi => "window->".toList
  | ag => "aggregator->".toList
  | gf => "group-filter->".toList
  | se => "selector ".toList

/-- `stage_types2string`. -/
def stageTypes2string (vec : List StageType) : Str := vec.flatMap itemText

end CheckSeqStages

/-- Members of `Check_seq_stages`. -/
structure CheckSeqStages where
  stack : List StageType
  actualMainBranch : Str

namespace CheckSeqStages

/-- `check`. -/
def check (foundComb : List StageType) : Method CheckSeqStages := fun state =>
  if foundComb ∈ allowedComb then .ok state
  else .error (.thrown (.checkSeqStages state.actualMainBranch (stageTypes2string foundComb)))

/-- The body shared by the methods for stages: push, go on, pop. -/
def within (item : StageType) (succ : Method CheckSeqStages) : Method CheckSeqStages :=
  (Action.update fun state => { state with stack := state.stack ++ [item] }) >=> succ >=>
    Action.update fun state => { state with stack := state.stack.dropLast }

end CheckSeqStages

/-- The visitor `Check_seq_stages`. -/
def checkSeqStages : Visitor CheckSeqStages where
  mainBranch name mbm :=
    (Action.update fun state => { state with actualMainBranch := name.text }) >=> mbm
  filterStage _ succ := CheckSeqStages.within .fi succ
  grouperStage _ _ succ := CheckSeqStages.within .gr succ
  windowStage _ succ := CheckSeqStages.within .wi succ
  aggregatorStage _ _ succ := CheckSeqStages.within .ag succ
  groupFilterStage _ succ := CheckSeqStages.within .gf succ
  selectorStage _ _ := CheckSeqStages.within .se fun state => CheckSeqStages.check state.stack state

/-! ### Grouper keys -/

/-- Members of `Check_grouper`. -/
structure CheckGrouper where
  keys : List Str
  aggParams : List Str
  groDiv : Bool
  aggDiv : Bool

namespace CheckGrouper

/-- `check_keys1`. -/
def checkKeys1 : Method (Located CheckGrouper) := fun state =>
  match state.self.keys.find? fun item =>
      item == "COUNT".toList || item == "TIME_FIRST".toList || item == "TIME_LAST".toList with
  | none => .ok state
  | some item => .error (.thrown (.checkGrouper1 (state.getStagePath .grouper) item))

/-- `check_keys2`. -/
def checkKeys2 : Method (Located CheckGrouper) := fun state =>
  match state.self.aggParams.find? fun item => state.self.keys.contains item with
  | none => .ok state
  | some item => .error (.thrown (.checkGrouper2 state.getBranchPath item))

/-- `operator()(unirec)`: the flags are cleared by the first keyword. -/
def unirec (unir : Unirec) : Method (Located CheckGrouper) :=
  (Located.updateSelf fun self =>
    if self.groDiv then
      { self with groDiv := false, keys := self.keys ++ [stringUnirecEnum unir] }
    else self) >=>
  Located.updateSelf fun self =>
    if self.aggDiv then
      { self with aggDiv := false, aggParams := self.aggParams ++ [stringUnirecEnum unir] }
    else self

end CheckGrouper

/-- The visitor `Check_grouper`. -/
def checkGrouper : Visitor (Located CheckGrouper) :=
  Visitor.overBranchNames
    { unirec := CheckGrouper.unirec
      grouperStage := fun _ type succ =>
        (Located.updateSelf fun self => { self with groDiv := true }) >=> type >=>
          (Located.updateSelf fun self => { self with groDiv := false }) >=>
          CheckGrouper.checkKeys1 >=> succ >=>
          Located.updateSelf fun self => { self with keys := [] }
      aggregatorStage := fun _ body succ =>
        (Located.updateSelf fun self => { self with aggDiv := true }) >=> body >=>
          (Located.updateSelf fun self => { self with aggDiv := false }) >=>
          CheckGrouper.checkKeys2 >=> succ >=>
          Located.updateSelf fun self => { self with aggParams := [] } }

/-! ### Selector outputs -/

/-- Members of `Check_selector`; a `std::set` of names is a list without repetitions. -/
structure CheckSelector where
  groDiv : Bool
  aggDiv : Bool
  selDiv : Bool
  groInputKeywords : List Str
  aggInputKeywords : List Str

namespace CheckSelector

/-- The check of a keyword used as an output. -/
def allowed (groInputKeywords aggInputKeywords : List Str) (unir : Unirec) : Bool :=
  (groInputKeywords.isEmpty && aggInputKeywords.isEmpty) ||
    unir == .timeFirst || unir == .timeLast ||
    (groInputKeywords ++ aggInputKeywords).contains (stringUnirecEnum unir)

/-- `operator()(unirec)`. -/
def unirec (unir : Unirec) : Method (Located CheckSelector) := fun state =>
  if state.self.groDiv then
    .ok { state with self := { state.self with
      groInputKeywords := state.self.groInputKeywords.insert (stringUnirecEnum unir) } }
  else if state.self.aggDiv then
    .ok { state with self := { state.self with
      aggInputKeywords := state.self.aggInputKeywords.insert (stringUnirecEnum unir) } }
  else if state.self.selDiv then
    if allowed state.self.groInputKeywords state.self.aggInputKeywords unir then .ok state
    else .error (.thrown (.checkSelector (state.getStagePath .selector) (stringUnirecEnum unir)))
  else .ok state

end CheckSelector

/-- The visitor `Check_selector`. -/
def checkSelector : Visitor (Located CheckSelector) :=
  Visitor.overBranchNames
    { unirec := CheckSelector.unirec
      grouperStage := fun _ type succ =>
        (Located.updateSelf fun self => { self with groDiv := true }) >=> type >=>
          (Located.updateSelf fun self => { self with groDiv := false }) >=> succ >=>
          Located.updateSelf fun self => { self with groInputKeywords := [] }
      aggregatorStage := fun _ body succ =>
        (Located.updateSelf fun self => { self with aggDiv := true }) >=> body >=>
          (Located.updateSelf fun self => { self with aggDiv := false }) >=> succ >=>
          Located.updateSelf fun self => { self with aggInputKeywords := [] }
      selectorStage := fun _ body =>
        (Located.updateSelf fun self => { self with selDiv := true }) >=> body >=>
          Located.updateSelf fun self => { self with selDiv := false } }

end Policer.Parsing
