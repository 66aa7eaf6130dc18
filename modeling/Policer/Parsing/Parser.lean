import Policer.Parsing.Alias
import Policer.Parsing.FilterBodies
import Policer.Parsing.StageChecks

/-!
# The rule parser behind its grammar

`Parser` from the point where Spirit has built the syntax tree: the filter bodies
are parsed, the semantic checks run one after the other and the aliases are
added. `checkInterRepr` is the last check `main` makes before the backend.
-/

namespace Policer.Parsing

open Policer.Lib

/-- `Inter_repr`. -/
structure InterRepr where
  ast : MainBranches
  filterVars : VarsMap
  groupFilterVars : VarsMap
  aggrVars : VarsMap
  selVars : VarsMap

namespace Parser

/-- `parse`, with the tree `phrase_parse` has built. -/
def parse (ast : MainBranches) : Except Failure InterRepr :=
  (parseFilterBodies.visit ast ⟨[], ⟨∅, ∅⟩⟩).map fun filters =>
    ⟨ast, filters.self.filterVars, filters.self.groupFilterVars, ∅, ∅⟩

/-- `semantic_check`. -/
def semanticCheck (data : InterRepr) : Except Failure Unit := do
  let _ ← checkSeqStages.visit data.ast ⟨[], []⟩
  let _ ← checkBranchNames.visit data.ast ⟨[], ()⟩
  let _ ← checkGrouper.visit data.ast ⟨[], ⟨[], [], false, false⟩⟩
  let _ ← checkSelector.visit data.ast ⟨[], ⟨false, false, false, [], []⟩⟩
  let _ ← checkFilterBodies.visit data.ast ⟨[], ⟨data.filterVars, data.groupFilterVars, []⟩⟩
  return ()

/-- `add_aliases`. -/
def addAliases (data : InterRepr) : Except Failure InterRepr :=
  (alias4variables.visit data.ast
      ⟨[], Alias4variables.new data.filterVars data.groupFilterVars⟩).map fun alv =>
    { data with
      filterVars := alv.self.filterVars
      groupFilterVars := alv.self.groupFilterVars
      aggrVars := alv.self.aggrVars
      selVars := alv.self.selVars }

/-- `run`. -/
def run (ast : MainBranches) : Except Failure InterRepr := do
  let data ← parse ast
  semanticCheck data
  addAliases data

end Parser

/-- A variable that `check_items` reports. -/
def uninitialized (item : VarName) : Bool := item.alias_.isEmpty && !stringIsUnirec item.name

/-- `check_items`. -/
def checkItems (vm : VarsMap) : Int :=
  if vm.toList.any fun mapItem => mapItem.2.any uninitialized then -1 else 0

/-- `check_inter_repr`. -/
def checkInterRepr (data : InterRepr) : Int :=
  if checkItems data.filterVars = 0 ∧ checkItems data.groupFilterVars = 0 ∧
      checkItems data.aggrVars = 0 ∧ checkItems data.selVars = 0 then 0
  else -1

/-- What `main` demands of a rule file before it builds the backend. -/
structure Accepted (ast : MainBranches) (data : InterRepr) : Prop where
  run : Parser.run ast = .ok data
  initialized : checkInterRepr data = 0

/-- The rule file passes all of it, and what is left behind passes `check`. -/
def accepts (ast : MainBranches) (check : InterRepr → Bool) : Bool :=
  match Parser.run ast with
  | .ok data => checkInterRepr data == 0 && check data
  | .error _ => false

theorem accepted_of_accepts (ast : MainBranches) (check : InterRepr → Bool)
    (finished : accepts ast check = true) : ∃ data, Accepted ast data ∧ check data = true := by
  unfold accepts at finished
  split at finished
  · rename_i data ran
    simp only [Bool.and_eq_true, beq_iff_eq] at finished
    exact ⟨data, ⟨ran, finished.1⟩, finished.2⟩
  · cases finished

/-! ### Taking a run apart -/

namespace Parser

/-- A finished run finished each of its parts. -/
theorem run_ok {ast : MainBranches} {data : InterRepr} :
    run ast = .ok data ↔
      ∃ parsed, parse ast = .ok parsed ∧ semanticCheck parsed = .ok () ∧
        addAliases parsed = .ok data := by
  constructor
  · intro ran
    obtain ⟨parsed, parsedOk, rest⟩ := bind_ok.mp ran
    obtain ⟨⟨⟩, checked, aliased⟩ := bind_ok.mp rest
    exact ⟨parsed, parsedOk, checked, aliased⟩
  · rintro ⟨parsed, parsedOk, checked, aliased⟩
    exact bind_ok.mpr ⟨parsed, parsedOk, bind_ok.mpr ⟨(), checked, aliased⟩⟩

theorem parse_ast {ast : MainBranches} {parsed : InterRepr} (ran : parse ast = .ok parsed) :
    parsed.ast = ast := by
  obtain ⟨filters, _, rfl⟩ := map_ok.mp ran
  rfl

theorem addAliases_ast {data final : InterRepr} (ran : addAliases data = .ok final) :
    final.ast = data.ast := by
  obtain ⟨alv, _, rfl⟩ := map_ok.mp ran
  rfl

theorem run_ast {ast : MainBranches} {data : InterRepr} (ran : run ast = .ok data) :
    data.ast = ast := by
  obtain ⟨parsed, parsedOk, _, aliased⟩ := run_ok.mp ran
  rw [addAliases_ast aliased, parse_ast parsedOk]

/-- What `parse` leaves behind. -/
structure Parsed (ast : MainBranches) (data : InterRepr) : Prop where
  ast_eq : data.ast = ast
  /-- No class overrides the method for filters, so this map stays empty. -/
  filterVars : data.filterVars = ∅
  aggrVars : data.aggrVars = ∅
  selVars : data.selVars = ∅
  noRepeats : NoRepeats (ast.tree.events notGroupFilter .root)
  bodies : ∀ occ ∈ ast.occurrences, ¬ ParseFilterBodies.Unparsed occ
  groupFilterVars : ∀ key, data.groupFilterVars[key]? =
    (ast.occurrences.filterMap (ParseFilterBodies.namesAt key)).head?

theorem parse_ok {ast : MainBranches} {data : InterRepr} (ran : parse ast = .ok data) :
    Parsed ast data := by
  obtain ⟨filters, visited, rfl⟩ := map_ok.mp ran
  obtain ⟨map, events, ⟨_, self⟩⟩ := ((parseFilterBodiesCrawl ∅).run ast ∅ ⟨[], ⟨∅, ∅⟩⟩
    ⟨rfl, rfl⟩).of_run_ok visited
  obtain ⟨noRepeats, ran⟩ := (Located.runEvents_ok _).mp events
  obtain ⟨parsed, entries⟩ := ParseFilterBodies.runStages_ok _ ran
  simp only [ParseFilterBodies.inner] at self
  refine ⟨rfl, by simp [self], rfl, rfl, noRepeats, ?_, fun key => ?_⟩
  · rintro ⟨ctx, found⟩ member unparsed
    cases found with
    | selector body => exact unparsed
    | inner st =>
        cases st with
        | groupFilter body =>
            exact parsed _ (inner_mem_stagesOf_iff.mpr member) unparsed
        | _ => exact unparsed
  · have same := ast.tree.stagesOf_notGroupFilter (ParseFilterBodies.namesAt key)
      (fun _ _ => rfl) .root ast.tree_ordered
    simp only [self, entries key]
    simp [MainBranches.occurrences, ← same, parseFilterBodiesCrawl]

end Parser

end Policer.Parsing
