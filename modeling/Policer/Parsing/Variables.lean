import Policer.Parsing.Crawl
import Std.Data.ExtTreeMap

/-!
# Variables and their aliases

`Variables` maps the path of a stage to the names recorded there, each with its
alias. The keys are texts; `stageKey_injective` says that stages of one kind at
different paths have different keys.
-/

namespace Policer.Parsing

open Policer.Lib

/-- `varNameT`. -/
structure VarName where
  name : Str
  alias_ : Str
deriving DecidableEq, Repr

/-- `varsMapT`. -/
abbrev VarsMap := Std.ExtTreeMap Str (List VarName) compare

/-- The name of a stage in a path. -/
inductive StageName where
  | filter
  | grouper
  | aggregator
  | groupFilter
  | selector

/-- The text of a stage name. -/
def StageName.text : StageName → Str
  | .filter => "filter".toList
  | .grouper => "grouper".toList
  | .aggregator => "aggregator".toList
  | .groupFilter => "group-filter".toList
  | .selector => "selector".toList

/-- `get_branchPath(act_stage)`. -/
def Located.getStagePath {τ : Type} (state : Located τ) (actStage : StageName) : Str :=
  state.getBranchPath ++ "/".toList ++ actStage.text

/-- `get_vars`: the names recorded at the current stage, if there are any. -/
def Located.getVars {τ : Type} (state : Located τ) (map : VarsMap) (actStage : StageName) :
    Option (List VarName) :=
  map[state.getStagePath actStage]?

/-- `add_vars`: `insert` leaves a key that is present alone. -/
def addVars (map : VarsMap) (key : Str) (vars : List VarName) : VarsMap :=
  map.insertIfNew key vars

/-- `add_var` at a key. -/
def addVarAt (map : VarsMap) (key : Str) (var : VarName) : VarsMap :=
  match map[key]? with
  | some vars => map.insert key (vars ++ [var])
  | none => map.insert key [var]

/-- `add_var`. -/
def Located.addVar {τ : Type} (state : Located τ) (map : VarsMap) (actStage : StageName)
    (var : VarName) : VarsMap :=
  addVarAt map (state.getStagePath actStage) var

/-- The key of a stage at a path. -/
def stageKey (stage : StageName) (path : List Identifier) : Str :=
  makePath (names path) ++ "/".toList ++ stage.text

theorem stageKey_injective {stage : StageName} {left right : List Identifier}
    (same : stageKey stage left = stageKey stage right) : left = right :=
  makePath_injective (List.append_cancel_right (List.append_cancel_right same))

theorem getStagePath_eq {τ : Type} {state : Located τ} {path : List Identifier}
    (stack : state.stack = names path) (stage : StageName) :
    state.getStagePath stage = stageKey stage path := by
  simp [Located.getStagePath, Located.getBranchPath, stack, stageKey]

@[simp] theorem getElem?_addVars (map : VarsMap) (key other : Str) (vars : List VarName) :
    (addVars map key vars)[other]? =
      if key = other ∧ map[key]? = none then some vars else map[other]? := by
  simp only [addVars, Std.ExtTreeMap.getElem?_insertIfNew, Std.LawfulEqCmp.compare_eq_iff_eq]
  by_cases same : key = other
  · subst same
    by_cases fresh : key ∈ map <;> simp [fresh]
  · simp [same]

@[simp] theorem getElem?_addVarAt (map : VarsMap) (key other : Str) (var : VarName) :
    (addVarAt map key var)[other]? =
      if key = other then some ((map[key]?).getD [] ++ [var]) else map[other]? := by
  unfold addVarAt
  cases found : map[key]? <;>
    simp [Std.ExtTreeMap.getElem?_insert, Std.LawfulEqCmp.compare_eq_iff_eq]

/-- Record names one after the other. -/
def addAll (map : VarsMap) (key : Str) (vars : List VarName) : VarsMap :=
  vars.foldl (fun current var => addVarAt current key var) map

theorem getElem?_addAll (map : VarsMap) (key other : Str) (vars : List VarName) :
    (addAll map key vars)[other]? =
      if key = other ∧ vars ≠ [] then some ((map[key]?).getD [] ++ vars) else map[other]? := by
  induction vars generalizing map with
  | nil => simp [addAll]
  | cons var rest ih =>
      have step : addAll map key (var :: rest) = addAll (addVarAt map key var) key rest := rfl
      rw [step, ih]
      by_cases same : key = other
      · subst same
        by_cases empty : rest = [] <;> simp [empty]
      · simp [same]

end Policer.Parsing
