import Policer.Parsing.FilterGrammar
import Policer.Parsing.Variables

/-!
# Filter and group-filter bodies

`Parse_filter_bodies` records the field names of every group-filter body under
the path of its stage, and `Check_filter_bodies` refuses names that are neither
variables of the aggregator above nor UniRec keywords. Neither goes on below a
group-filter.
-/

namespace Policer.Parsing

open Policer.Lib

/-- `ff2_init` and the exception behind it. -/
def readFilterBody (str path : Str) : Except Failure (List Str) :=
  match ff2Init str with
  | .names found => .ok found
  | .malformed => .error (.thrown (.filterBodies path ff2Error))
  | .unterminated => .error .unterminated

theorem readFilterBody_ok {str path : Str} {found : List Str} :
    readFilterBody str path = .ok found ↔ (ff2Init str).names? = some found := by
  rw [readFilterBody]
  cases ff2Init str <;> simp [Ff2Result.names?]

/-- `parse_filter_body`. -/
def parseFilterBody (str path : Str) : Except Failure (List VarName) :=
  (readFilterBody str path).map (List.map fun name => ⟨name, []⟩)

/-- Members of `Parse_filter_bodies`. -/
structure ParseFilterBodies where
  filterVars : VarsMap
  groupFilterVars : VarsMap

/-- `Parse_filter_bodies::operator()(group_filter_stage)`. -/
def ParseFilterBodies.groupFilterStage (body : Str) (state : Located ParseFilterBodies) :
    Except Failure (Located ParseFilterBodies) :=
  let key := state.getStagePath .groupFilter
  match parseFilterBody body key with
  | .error thrown => .error thrown
  | .ok vars =>
      .ok { state with
        self := { state.self with groupFilterVars := addVars state.self.groupFilterVars key vars } }

/-- The visitor `Parse_filter_bodies`. -/
def parseFilterBodies : Visitor (Located ParseFilterBodies) :=
  Visitor.overBranchNames
    { groupFilterStage := fun body _ => ParseFilterBodies.groupFilterStage body }

/-- Members of `Check_filter_bodies`. -/
structure CheckFilterBodies where
  filterVars : VarsMap
  groupFilterVars : VarsMap
  aggrVars : List Str

namespace CheckFilterBodies

/-- `Check_filter_bodies::operator()(filter_stage)`, the check of the body. -/
def filterBody (body : Str) (state : Located CheckFilterBodies) :
    Except Failure (Located CheckFilterBodies) :=
  (readFilterBody body (state.getStagePath .filter)).map fun _ => state

/-- `Check_filter_bodies::operator()(aggr_assignment)`. -/
def aggrAssignment (as : AggrAssignment) : Method (Located CheckFilterBodies) :=
  Located.updateSelf fun self => { self with aggrVars := self.aggrVars ++ [as.variableName.text] }

/-- The loop of `Check_filter_bodies::operator()(group_filter_stage)`: the first name
that is neither a variable nor a keyword. -/
def unknownName (aggrVars : List Str) (vars : List VarName) : Option VarName :=
  vars.find? fun item => !aggrVars.contains item.name && !stringIsUnirec item.name

/-- `Check_filter_bodies::operator()(group_filter_stage)`. -/
def groupFilterStage (state : Located CheckFilterBodies) :
    Except Failure (Located CheckFilterBodies) :=
  match state.getVars state.self.groupFilterVars .groupFilter with
  | none => .ok state
  | some vars =>
      match unknownName state.self.aggrVars vars with
      | none => .ok state
      | some item =>
          .error (.thrown (.checkFilterVarname (state.getStagePath .groupFilter) item.name))

end CheckFilterBodies

/-- The visitor `Check_filter_bodies`. -/
def checkFilterBodies : Visitor (Located CheckFilterBodies) :=
  Visitor.overBranchNames
    { filterStage := fun body succ => CheckFilterBodies.filterBody body >=> succ
      aggregatorStage := fun _ body succ =>
        body >=> succ >=> Located.updateSelf fun self => { self with aggrVars := [] }
      aggrAssignment := fun as _ => CheckFilterBodies.aggrAssignment as
      groupFilterStage := fun _ _ => CheckFilterBodies.groupFilterStage }

/-- All stages but a group-filter. -/
def notGroupFilter : InnerStage → Bool
  | .groupFilter _ => false
  | _ => true

/-! ### What the visitors do, stage by stage -/

namespace ParseFilterBodies

/-- What `Parse_filter_bodies` does at a stage, told on its map of group-filters. -/
def step (ctx : Context) : Node → Method VarsMap
  | .inner (.groupFilter body) => fun map =>
      match parseFilterBody body (stageKey .groupFilter ctx.path) with
      | .error thrown => .error thrown
      | .ok vars => .ok (addVars map (stageKey .groupFilter ctx.path) vars)
  | _ => Action.skip

/-- The map of filters stays as it is. -/
def inner (filterVars : VarsMap) (_ : Context) (map : VarsMap) (con : ParseFilterBodies) : Prop :=
  con = ⟨filterVars, map⟩

end ParseFilterBodies

/-- `Parse_filter_bodies` stage by stage. -/
def parseFilterBodiesCrawl (filterVars : VarsMap) : Crawl parseFilterBodies VarsMap where
  shows := Located.shows (ParseFilterBodies.inner filterVars)
  descends := notGroupFilter
  step := Located.step ParseFilterBodies.step
  enter
    | .groupFilter body => ParseFilterBodies.groupFilterStage body
    | _ => Action.skip
  leave _ state := state
  splits st succ := by
    have silentKeys : ∀ type, parseFilterBodies.grouperType type = Action.skip :=
      parseFilterBodies.grouperType_skip fun _ => rfl
    have silentBody : ∀ body, parseFilterBodies.aggregatorBody body = Action.skip :=
      parseFilterBodies.aggregatorBody_skip fun ⟨_, func⟩ => by cases func <;> rfl
    rw [Action.seq_update_id]
    cases st with
    | filter body => rfl
    | grouper type =>
        change (parseFilterBodies.grouperType type >=> succ) = (Action.skip >=> succ)
        rw [silentKeys]
    | window body => rfl
    | aggregator body =>
        change (parseFilterBodies.aggregatorBody body >=> succ) = (Action.skip >=> succ)
        rw [silentBody]
    | groupFilter body => exact (Action.seq_skip _).symm
  selector ctx body := by
    have silent : parseFilterBodies.selectorBody body = Action.skip :=
      parseFilterBodies.selectorBody_skip (fun ⟨output, _⟩ => by cases output <;> rfl) body
    exact silent ▸ Tracks.skip _
  enters := by
    intro ctx lo st _ _
    rw [Located.shows_enter rfl]
    cases st with
    | groupFilter body =>
        rintro map con ⟨stackEq, selfEq⟩
        simp only [Located.step, ParseFilterBodies.step, ParseFilterBodies.groupFilterStage,
          getStagePath_eq stackEq]
        cases parseFilterBody body (stageKey .groupFilter ctx.path) with
        | error thrown => exact .error
        | ok vars => exact .ok ⟨stackEq, by rw [selfEq]; rfl⟩
    | _ => exact Tracks.skip _
  leaves := by
    intro ctx lo st _ _ abs con related
    rwa [Located.shows_enter rfl] at related
  siblings := Located.siblings_tracks (fun _ _ => rfl) (fun _ _ => rfl)

namespace CheckFilterBodies

/-- Variables of the aggregator above. -/
def variablesAbove (ctx : Context) : List Str :=
  ctx.aggregator.elim [] fun above => above.2.all.map (·.variableName.text)

/-- What `Check_filter_bodies` does at a stage; it gathers nothing. -/
def step (groupFilterVars : VarsMap) (ctx : Context) : Node → Method Unit
  | .inner (.filter body) => fun gathered =>
      (readFilterBody body (stageKey .filter ctx.path)).map fun _ => gathered
  | .inner (.groupFilter _) =>
      match unknownName (variablesAbove ctx)
          ((groupFilterVars[stageKey .groupFilter ctx.path]?).getD []) with
      | none => Action.skip
      | some item =>
          Action.throw (.thrown (.checkFilterVarname (stageKey .groupFilter ctx.path) item.name))
  | _ => Action.skip

/-- The maps stay as they are; `aggrVars` holds the variables of the aggregator above. -/
def inner (filterVars groupFilterVars : VarsMap) (ctx : Context) (_ : Unit)
    (con : CheckFilterBodies) : Prop :=
  con = ⟨filterVars, groupFilterVars, variablesAbove ctx⟩

theorem aggregatorBody_eq (body : AggregatorBody) (state : Located CheckFilterBodies) :
    checkFilterBodies.aggregatorBody body state = .ok { state with
      self := { state.self with
        aggrVars := state.self.aggrVars ++ body.all.map (·.variableName.text) } } := by
  have run : ∀ (items : List AggrAssignment) (state : Located CheckFilterBodies),
      Action.sequence (items.map aggrAssignment) state = .ok { state with
        self := { state.self with
          aggrVars := state.self.aggrVars ++ items.map (·.variableName.text) } } := by
    intro items
    induction items with
    | nil => intro state; simp
    | cons head tail ih =>
        intro state
        have first : aggrAssignment head state = .ok { state with
            self := { state.self with
              aggrVars := state.self.aggrVars ++ [head.variableName.text] } } := rfl
        rw [List.map_cons, Action.sequence_cons, Action.seq_of_ok first, ih]
        simp
  exact run body.all state

end CheckFilterBodies

/-- `Check_filter_bodies` stage by stage. -/
def checkFilterBodiesCrawl (filterVars groupFilterVars : VarsMap) :
    Crawl checkFilterBodies Unit where
  shows := Located.shows (CheckFilterBodies.inner filterVars groupFilterVars)
  descends := notGroupFilter
  step := Located.step (CheckFilterBodies.step groupFilterVars)
  enter
    | .filter body => CheckFilterBodies.filterBody body
    | .aggregator body => checkFilterBodies.aggregatorBody body
    | .groupFilter _ => CheckFilterBodies.groupFilterStage
    | _ => Action.skip
  leave
    | .aggregator _, state => { state with self := { state.self with aggrVars := [] } }
    | _, state => state
  splits st succ := by
    have silentKeys : ∀ type, checkFilterBodies.grouperType type = Action.skip :=
      checkFilterBodies.grouperType_skip fun _ => rfl
    cases st with
    | filter body => exact congrArg _ (Action.seq_update_id succ).symm
    | grouper type =>
        change (checkFilterBodies.grouperType type >=> succ) =
          (Action.skip >=> succ >=> Action.update fun state => state)
        rw [silentKeys, Action.seq_update_id]
    | window body => exact (Action.seq_update_id succ).symm
    | aggregator body => rfl
    | groupFilter body => exact (Action.seq_update_id _).symm
  selector ctx body := by
    have silent : checkFilterBodies.selectorBody body = Action.skip :=
      checkFilterBodies.selectorBody_skip (fun ⟨output, _⟩ => by cases output <;> rfl) body
    exact silent ▸ Tracks.skip _
  enters := by
    intro ctx lo st fits above
    cases st with
    | filter body =>
        rintro ⟨⟩ con ⟨stackEq, selfEq⟩
        simp only [Located.step, CheckFilterBodies.step, CheckFilterBodies.filterBody,
          getStagePath_eq stackEq]
        cases readFilterBody body (stageKey .filter ctx.path) with
        | error thrown => exact .error
        | ok found => exact .ok ⟨stackEq, selfEq⟩
    | aggregator body =>
        rintro ⟨⟩ con ⟨stackEq, selfEq⟩
        have empty : CheckFilterBodies.variablesAbove ctx = [] := by
          simp [CheckFilterBodies.variablesAbove, fits.aggregator above]
        have run := CheckFilterBodies.aggregatorBody_eq body con
        rw [selfEq, empty, List.nil_append] at run
        change Related _ _ (checkFilterBodies.aggregatorBody body con)
        rw [run]
        exact .ok ⟨stackEq, rfl⟩
    | groupFilter body =>
        rintro ⟨⟩ con ⟨stackEq, selfEq⟩
        have after : Located.shows (CheckFilterBodies.inner filterVars groupFilterVars)
            (ctx.enter (.groupFilter body)) () con := ⟨stackEq, selfEq⟩
        simp only [Located.step, CheckFilterBodies.step, CheckFilterBodies.groupFilterStage,
          Located.getVars, getStagePath_eq stackEq]
        rw [selfEq]
        cases groupFilterVars[stageKey .groupFilter ctx.path]? with
        | none => exact .ok after
        | some vars =>
            simp only [Option.getD_some]
            cases CheckFilterBodies.unknownName (CheckFilterBodies.variablesAbove ctx) vars with
            | none => exact .ok after
            | some item => exact .error
    | grouper type => exact Tracks.skip _
    | window body => exact Tracks.skip _
  leaves := by
    intro ctx lo st fits above abs con related
    cases st with
    | aggregator body =>
        obtain ⟨stackEq, selfEq⟩ := related
        have empty : CheckFilterBodies.variablesAbove ctx = [] := by
          simp [CheckFilterBodies.variablesAbove, fits.aggregator above]
        refine ⟨stackEq, ?_⟩
        simp only [CheckFilterBodies.inner] at selfEq ⊢
        simp [selfEq, empty]
    | _ => exact related
  siblings := Located.siblings_tracks (fun _ _ => rfl) (fun _ _ => rfl)

/-! ### The recorded names -/

mutual

/-- A visit that stops at group-filters misses only selectors. -/
theorem Tree.stagesOf_notGroupFilter {β : Type} (f : Context × Node → Option β)
    (noSelector : ∀ ctx body, f (ctx, .selector body) = none) (ctx : Context) {lo : Nat} :
    (t : Tree) → t.Ordered lo →
      (stagesOf (t.events notGroupFilter ctx)).filterMap f = (t.occurrences ctx).filterMap f
  | .selector _, _ => rfl
  | .stage st next, ordered => by
      have below := next.stagesOf_notGroupFilter f noSelector (ctx.enter st) ordered.2
      have same : (stagesOf (if notGroupFilter st then next.events notGroupFilter (ctx.enter st)
          else [])).filterMap f = (next.occurrences (ctx.enter st)).filterMap f := by
        by_cases goesOn : notGroupFilter st = true
        · simpa [goesOn] using below
        · have last : st.rank = 5 := by cases st <;> simp_all [notGroupFilter, InnerStage.rank]
          have onlySelectors : (next.occurrences (ctx.enter st)).filterMap f = [] := by
            refine List.filterMap_eq_nil_iff.mpr fun occ member => ?_
            have higher := next.rank_gt ordered.2 st.rank_lt member
            obtain ⟨below, found⟩ := occ
            cases found with
            | selector body => exact noSelector below body
            | inner other =>
              exact absurd other.rank_lt (by simp only [Node.rank_inner] at higher; omega)
          simp [goesOn, stagesOf, onlySelectors]
      simp only [Tree.events, Tree.occurrences, stagesOf, List.filterMap_cons,
        Event.node?] at same ⊢
      rw [same]
  | .branches level items, ordered =>
      items.stagesOf_notGroupFilter f noSelector ctx level [] ordered

theorem Branches.stagesOf_notGroupFilter {β : Type} (f : Context × Node → Option β)
    (noSelector : ∀ ctx body, f (ctx, .selector body) = none) (ctx : Context) {lo : Nat}
    (level : BranchLevel) (seen : List Identifier) :
    (items : Branches) → items.Ordered lo →
      (stagesOf (items.events notGroupFilter ctx level seen)).filterMap f =
        (items.occurrences ctx).filterMap f
  | .nil, _ => rfl
  | .cons name tree rest, ordered => by
      have here := tree.stagesOf_notGroupFilter f noSelector (ctx.push name) ordered.1
      have later := rest.stagesOf_notGroupFilter f noSelector ctx level (seen ++ [name])
        ordered.2
      simp only [stagesOf] at here later
      by_cases repeated : level ≠ .nested ∧ name ∈ seen <;>
        simp [Branches.events, Branches.occurrences, stagesOf, repeated, Event.node?,
          List.filterMap_cons, here, later]

end

/-- A visit that stops at group-filters meets every stage but selectors. -/
theorem inner_mem_stagesOf_iff {ast : MainBranches} {ctx : Context} {st : InnerStage} :
    (ctx, .inner st) ∈ stagesOf (ast.tree.events notGroupFilter .root) ↔
      (ctx, .inner st) ∈ ast.occurrences := by
  have listed : ∀ stages : List (Context × Node), (ctx, .inner st) ∈ stages ↔
      (ctx, st) ∈ stages.filterMap fun occ => occ.2.inner?.map (Prod.mk occ.1) := by
    intro stages
    rw [List.mem_filterMap]
    constructor
    · exact fun member => ⟨_, member, rfl⟩
    · rintro ⟨⟨place, found⟩, member, same⟩
      cases found with
      | selector body => cases same
      | inner other =>
          obtain ⟨rfl, rfl⟩ := Prod.mk.inj (Option.some.inj same)
          exact member
  rw [listed, listed, MainBranches.occurrences,
    ast.tree.stagesOf_notGroupFilter _ (fun _ _ => rfl) .root ast.tree_ordered]

namespace ParseFilterBodies

/-- The names of a group-filter with a given key. -/
def namesAt (key : Str) : Context × Node → Option (List VarName)
  | (ctx, .inner (.groupFilter body)) =>
      if stageKey .groupFilter ctx.path = key then
        (ff2Init body).names?.map (List.map fun name => ⟨name, []⟩)
      else none
  | _ => none

/-- A body that is no filter. -/
def Unparsed : Context × Node → Prop
  | (_, .inner (.groupFilter body)) => (ff2Init body).names? = none
  | _ => False

/-- A finished run has parsed every body, and the first group-filter with a key gave
the names at the key. -/
theorem runStages_ok {map final : VarsMap} : (stages : List (Context × Node)) →
    runStages step stages map = .ok final →
      (∀ occ ∈ stages, ¬ Unparsed occ) ∧
        ∀ key, final[key]? = (map[key]?).or (stages.filterMap (namesAt key)).head?
  | [], ran => by
      obtain rfl : map = final := by simpa [runStages] using ran
      exact ⟨by simp, by simp⟩
  | (ctx, found) :: rest, ran => by
      obtain ⟨middle, first, ran⟩ := Action.seq_ok.mp ran
      obtain ⟨parsed, entries⟩ := runStages_ok rest ran
      have skipped : (∀ key, namesAt key (ctx, found) = none) → ¬ Unparsed (ctx, found) →
          step ctx found map = .ok map → (∀ occ ∈ (ctx, found) :: rest, ¬ Unparsed occ) ∧
            ∀ key, final[key]? =
              (map[key]?).or (((ctx, found) :: rest).filterMap (namesAt key)).head? := by
        intro nothing here skip
        obtain rfl : map = middle := by simpa [skip] using first
        refine ⟨by simpa [here] using parsed, fun key => ?_⟩
        rw [entries key, List.filterMap_cons, nothing key]
      cases found with
      | selector body => exact skipped (fun _ => rfl) id rfl
      | inner st =>
          cases st with
          | groupFilter body =>
              cases parsedBody : parseFilterBody body (stageKey .groupFilter ctx.path) with
              | error thrown => simp [step, parsedBody] at first
              | ok vars =>
                  obtain ⟨found, read, rfl⟩ := map_ok.mp parsedBody
                  have names := readFilterBody_ok.mp read
                  simp only [step, parsedBody, Except.ok.injEq] at first
                  refine ⟨by simpa [Unparsed, names] using parsed, fun key => ?_⟩
                  rw [entries key, ← first, getElem?_addVars, List.filterMap_cons]
                  by_cases same : stageKey .groupFilter ctx.path = key
                  · subst same
                    cases map[stageKey .groupFilter ctx.path]? <;> simp [namesAt, names]
                  · simp [namesAt, same]
          | _ => exact skipped (fun _ => rfl) id rfl

end ParseFilterBodies

end Policer.Parsing
