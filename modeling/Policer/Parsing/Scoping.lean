import Policer.Parsing.Keywords
import Policer.Parsing.Parser

/-!
# Scoping of variables

`Alias4variables` gives every recorded name the field that lexical scoping gives
it: `addAliases_scoped`. The visit is first reduced to a fold over the stages in
textual order (`alias4variablesCrawl`); since stages of one kind have different
keys, each entry of the maps is then written by one stage only.
-/

namespace Policer.Parsing

open Policer.Lib

/-! ### Names a selector records -/

/-- The names a selector item records. -/
def SelAssignment.recorded (aggIsPresent : Bool) (sa : SelAssignment) : List Str :=
  match sa.output, sa.selExpression with
  | .name _, some se => se.reached.filterMap SelVariable.name?
  | .name pointer, none => if aggIsPresent && pointer == "COUNT".toList then [] else [pointer]
  | .keyword _, _ => []

/-- The names a selector records. -/
def SelectorBody.recorded (aggIsPresent : Bool) (body : SelectorBody) : List Str :=
  body.all.flatMap (SelAssignment.recorded aggIsPresent)

/-- Names without an alias. -/
def unaliased (found : List Str) : List VarName := found.map fun name => ⟨name, []⟩

namespace Alias4variables

/-- The state with `found` recorded for the current selector. -/
def record (state : Located Alias4variables) (found : List Str) : Located Alias4variables :=
  { state with self := { state.self with
    selVars := addAll state.self.selVars (state.getStagePath .selector) (unaliased found) } }

@[simp] theorem record_nil (state : Located Alias4variables) : record state [] = state := rfl

theorem record_append (state : Located Alias4variables) (first second : List Str) :
    record state (first ++ second) = record (record state first) second := by
  simp [record, addAll, unaliased, Located.getStagePath, Located.getBranchPath]

/-- A visit of an expression records its names. -/
theorem selExpression_run (se : SelExpression) (state : Located Alias4variables)
    (diving : state.self.selDive = true) :
    alias4variables.selExpression se state =
      .ok (record state (se.reached.filterMap SelVariable.name?)) := by
  rw [Visitor.selExpression_eq]
  induction se.reached generalizing state with
  | nil => rfl
  | cons head tail ih =>
      cases head with
      | keyword unir =>
          have first : alias4variables.selVariable (.keyword unir) state = .ok state := rfl
          rw [List.map_cons, Action.sequence_cons, Action.seq_of_ok first, ih state diving]
          rfl
      | name variable_ =>
          have first : alias4variables.selVariable (.name variable_) state =
              .ok (record state [variable_.text]) := by
            change string variable_.text state = _
            simp only [string, diving]
            rfl
          rw [List.map_cons, Action.sequence_cons, Action.seq_of_ok first,
            ih (record state [variable_.text]) diving, ← record_append]
          rfl

/-- A visit of a selector item records its names. -/
theorem selAssignment_run (sa : SelAssignment) (state : Located Alias4variables)
    (surface : state.self.selDive = false) :
    alias4variables.visitSelAssignment sa state =
      .ok (record state (sa.recorded state.self.aggIsPresent)) := by
  obtain ⟨stack, self⟩ := state
  obtain ⟨filterVars, groupFilterVars, aggrVars, selVars, aggIsPresent, selDive, lastAggr, last⟩ :=
    self
  obtain rfl : selDive = false := surface
  let dived : Located Alias4variables :=
    ⟨stack, filterVars, groupFilterVars, aggrVars, selVars, aggIsPresent, true, lastAggr, last⟩
  have item : selItem sa (alias4variables.optionalExpression sa.selExpression) dived =
      .ok (record dived (sa.recorded aggIsPresent)) := by
    obtain ⟨output, selExpression⟩ := sa
    cases output with
    | keyword unir => cases selExpression <;> rfl
    | name pointer =>
        cases selExpression with
        | some se => exact selExpression_run se dived rfl
        | none =>
            simp only [selItem, SelAssignment.recorded, dived]
            split <;> rfl
  have enter : selAssignment sa (alias4variables.optionalExpression sa.selExpression)
      ⟨stack, filterVars, groupFilterVars, aggrVars, selVars, aggIsPresent, false, lastAggr, last⟩ =
      (selItem sa (alias4variables.optionalExpression sa.selExpression) >=>
        Located.updateSelf fun self => { self with selDive := false }) dived := rfl
  change selAssignment sa (alias4variables.optionalExpression sa.selExpression) _ = _
  rw [enter, Action.seq_of_ok item]
  rfl

/-- A visit of a selector body records the names of its items. -/
theorem selectorBody_run (body : SelectorBody) (state : Located Alias4variables)
    (surface : state.self.selDive = false) :
    alias4variables.selectorBody body state =
      .ok (record state (body.recorded state.self.aggIsPresent)) := by
  unfold Visitor.selectorBody SelectorBody.recorded
  induction body.all generalizing state with
  | nil => rfl
  | cons head tail ih =>
      rw [List.map_cons, Action.sequence_cons,
        Action.seq_of_ok (selAssignment_run head state surface),
        ih (record state (head.recorded state.self.aggIsPresent)) surface, ← record_append]
      rfl

/-- The state with the variables of `items` recorded for the current aggregator. -/
def define (state : Located Alias4variables) (items : List AggrAssignment) (last : VarName) :
    Located Alias4variables :=
  { state with self := { state.self with
    aggrVars := addAll state.self.aggrVars (state.getStagePath .aggregator)
      (items.map AggrAssignment.var)
    lastAggrVar := last } }

/-- A visit of an assignment records its variable. -/
theorem aggrAssignment_run (as : AggrAssignment) (state : Located Alias4variables) :
    alias4variables.aggrAssignment as (alias4variables.aggrFuncType as.funcType) state =
      .ok (define state [as] as.var) := by
  obtain ⟨name, func⟩ := as
  cases func with
  | withParam func => rfl
  | withoutParam func => cases func; rfl

/-- A visit of an aggregator body records its variables. -/
theorem aggregatorBody_run (body : AggregatorBody) (state : Located Alias4variables) :
    ∃ last, alias4variables.aggregatorBody body state = .ok (define state body.all last) := by
  unfold Visitor.aggregatorBody
  have run : ∀ (items : List AggrAssignment) (state : Located Alias4variables),
      ∃ last, Action.sequence (items.map fun as =>
        alias4variables.aggrAssignment as (alias4variables.aggrFuncType as.funcType)) state =
          .ok (define state items last) := by
    intro items
    induction items with
    | nil => exact fun state => ⟨state.self.lastAggrVar, rfl⟩
    | cons head tail ih =>
        intro state
        obtain ⟨last, rest⟩ := ih (define state [head] head.var)
        refine ⟨last, ?_⟩
        rw [List.map_cons, Action.sequence_cons, Action.seq_of_ok (aggrAssignment_run head state),
          rest]
        rfl
  exact run body.all state

end Alias4variables

/-! ### The visit as a fold -/

/-- What `Alias4variables` gathers. -/
structure Aliases where
  groupFilterVars : VarsMap
  aggrVars : VarsMap
  selVars : VarsMap
  /-- An aggregator has been met. -/
  seen : Bool

namespace Aliases

/-- The variables of the aggregator above. -/
def agVec (abs : Aliases) (above : Option (List Identifier × AggregatorBody)) :
    Option (List VarName) :=
  above.bind fun found => abs.aggrVars[stageKey .aggregator found.1]?

/-- `aggIsPresent` at a place of the tree: it stays set until an aggregator has ended. -/
def aggIsPresent (abs : Aliases) (above : Option (List Identifier × AggregatorBody)) : Bool :=
  above.isSome || !abs.seen

/-- What `Alias4variables` does at a stage. -/
def step (ctx : Context) (abs : Aliases) : Node → Aliases
  | .inner (.aggregator body) =>
      { abs with
        aggrVars := addAll abs.aggrVars (stageKey .aggregator ctx.path)
          (body.all.map AggrAssignment.var)
        seen := true }
  | .inner (.groupFilter _) =>
      { abs with
        groupFilterVars := Alias4variables.giveAliases abs.groupFilterVars
          (stageKey .groupFilter ctx.path) (abs.agVec ctx.aggregator) }
  | .inner _ => abs
  | .selector body =>
      { abs with
        selVars := Alias4variables.giveAliases
          (addAll abs.selVars (stageKey .selector ctx.path)
            (unaliased (body.recorded (abs.aggIsPresent ctx.aggregator))))
          (stageKey .selector ctx.path) (abs.agVec ctx.aggregator) }

/-- The members of `Alias4variables` below the aggregator `above`, if there is one. -/
structure Shows (filterVars : VarsMap) (above : Option (List Identifier × AggregatorBody))
    (abs : Aliases) (con : Alias4variables) : Prop where
  filterVars : con.filterVars = filterVars
  groupFilterVars : con.groupFilterVars = abs.groupFilterVars
  aggrVars : con.aggrVars = abs.aggrVars
  selVars : con.selVars = abs.selVars
  aggIsPresent : con.aggIsPresent = abs.aggIsPresent above
  surface : con.selDive = false
  lastAggr : con.lastAggr = above.map fun found => stageKey .aggregator found.1
  seen : above.isSome = true → abs.seen = true

theorem Shows.agVec {filterVars : VarsMap} {above : Option (List Identifier × AggregatorBody)}
    {abs : Aliases} {con : Alias4variables} (shows_ : Shows filterVars above abs con) :
    con.agVec = abs.agVec above := by
  rw [Alias4variables.agVec, shows_.lastAggr, shows_.aggrVars, Aliases.agVec]
  cases above <;> rfl

end Aliases

namespace Alias4variables

/-- What `operator()(aggregator_stage)` does before the stages that follow. -/
def enterAggregator (body : AggregatorBody) : Method (Located Alias4variables) :=
  (Located.updateSelf fun self => { self with aggIsPresent := true }) >=>
  alias4variables.aggregatorBody body >=>
  Action.update fun state =>
    { state with self := { state.self with
      lastAggr := (state.getVars state.self.aggrVars .aggregator).map fun _ =>
        state.getStagePath .aggregator } }

/-- After its body an aggregator's variables are recorded and `lastAggr` points to them. -/
theorem enterAggregator_run (body : AggregatorBody) {state : Located Alias4variables}
    {path : List Identifier} (stack : state.stack = names path) :
    ∃ last, enterAggregator body state = .ok { state with
      self := { state.self with
        aggrVars := addAll state.self.aggrVars (stageKey .aggregator path)
          (body.all.map AggrAssignment.var)
        aggIsPresent := true
        lastAggr := some (stageKey .aggregator path)
        lastAggrVar := last } } := by
  obtain ⟨last, ran⟩ := aggregatorBody_run body
    { state with self := { state.self with aggIsPresent := true } }
  refine ⟨last, ?_⟩
  have found : (addAll state.self.aggrVars (stageKey .aggregator path)
      (body.all.map AggrAssignment.var))[stageKey .aggregator path]? ≠ none := by
    simp [getElem?_addAll, AggregatorBody.all]
  have key : ∀ (other : Located Alias4variables), other.stack = state.stack →
      other.getStagePath .aggregator = stageKey .aggregator path :=
    fun other same => getStagePath_eq (same.trans stack) .aggregator
  rw [enterAggregator, Located.updateSelf, Action.update_seq, Action.seq_of_ok ran]
  simp only [define, Action.update_apply, Located.getVars, key]
  cases entry : (addAll state.self.aggrVars (stageKey .aggregator path)
      (body.all.map AggrAssignment.var))[stageKey .aggregator path]? with
  | none => exact absurd entry found
  | some vars => rfl

end Alias4variables

/-- `Alias4variables` stage by stage. -/
def alias4variablesCrawl (filterVars : VarsMap) : Crawl alias4variables Aliases where
  shows := Located.shows fun ctx => Aliases.Shows filterVars ctx.aggregator
  descends _ := true
  step := Located.step fun ctx found => Action.update fun abs => abs.step ctx found
  enter
    | .aggregator body => Alias4variables.enterAggregator body
    | .groupFilter _ => Alias4variables.groupFilterStage Action.skip
    | _ => Action.skip
  leave
    | .aggregator _, state =>
        { state with self := { state.self with lastAggr := none, aggIsPresent := false } }
    | _, state => state
  splits st succ := by
    have silentKeys : ∀ type, alias4variables.grouperType type = Action.skip :=
      alias4variables.grouperType_skip fun _ => rfl
    cases st with
    | filter body => exact (Action.seq_update_id succ).symm
    | grouper type =>
        change (alias4variables.grouperType type >=> succ) =
          (Action.skip >=> succ >=> Action.update fun state => state)
        rw [silentKeys, Action.seq_update_id]
    | window body => exact (Action.seq_update_id succ).symm
    | aggregator body =>
        simp only [↓reduceIte, Alias4variables.enterAggregator, Action.seq_assoc]
        rfl
    | groupFilter body => exact (Action.seq_update_id _).symm
  selector ctx body := by
    rintro abs con ⟨stackEq, selfEq⟩
    have run := Alias4variables.selectorBody_run body con selfEq.surface
    change Related _ _ (Alias4variables.selectorStage (alias4variables.selectorBody body) con)
    rw [Alias4variables.selectorStage, Action.seq_of_ok run]
    refine .ok ⟨stackEq, selfEq.filterVars, selfEq.groupFilterVars, selfEq.aggrVars, ?_,
      selfEq.aggIsPresent, selfEq.surface, selfEq.lastAggr, selfEq.seen⟩
    let recorded := Alias4variables.record con (body.recorded con.self.aggIsPresent)
    have key : recorded.getStagePath .selector = stageKey .selector ctx.path :=
      getStagePath_eq stackEq .selector
    have above : recorded.self.agVec = abs.agVec ctx.aggregator := selfEq.agVec
    change Alias4variables.giveAliases recorded.self.selVars (recorded.getStagePath .selector)
      recorded.self.agVec = _
    rw [key, above]
    simp only [recorded]
    simp only [Alias4variables.record, getStagePath_eq stackEq, selfEq.selVars,
      selfEq.aggIsPresent, Aliases.step]
  enters := by
    intro ctx lo st fits above
    cases st with
    | aggregator body =>
        rintro abs con ⟨stackEq, selfEq⟩
        obtain ⟨last, ran⟩ := Alias4variables.enterAggregator_run body stackEq
        change Related _ _ (Alias4variables.enterAggregator body con)
        rw [ran]
        exact .ok ⟨stackEq, selfEq.filterVars, selfEq.groupFilterVars,
          by simp [selfEq.aggrVars, Aliases.step],
          selfEq.selVars, by simp [Aliases.aggIsPresent, Context.enter], selfEq.surface,
          by simp [Context.enter], fun _ => rfl⟩
    | groupFilter body =>
        rintro abs con ⟨stackEq, selfEq⟩
        refine .ok ⟨stackEq, selfEq.filterVars, ?_, selfEq.aggrVars, selfEq.selVars,
          selfEq.aggIsPresent, selfEq.surface, selfEq.lastAggr, selfEq.seen⟩
        simp only [Aliases.step, getStagePath_eq stackEq, selfEq.groupFilterVars, selfEq.agVec]
    | _ => exact Tracks.skip _
  leaves := by
    intro ctx lo st fits above abs con related
    cases st with
    | aggregator body =>
        obtain ⟨stackEq, selfEq⟩ := related
        have outside := fits.aggregator above
        refine ⟨stackEq, selfEq.filterVars, selfEq.groupFilterVars, selfEq.aggrVars,
          selfEq.selVars, ?_, selfEq.surface, by simp [outside], by simp [outside]⟩
        simp [Aliases.aggIsPresent, outside, selfEq.seen rfl]
    | _ => exact related
  siblings := Located.siblings_tracks (fun _ _ => rfl) (fun _ _ => rfl)

/-! ### Lexical scoping -/

namespace Alias4variables

theorem giveAlias_append (first second : List VarName) (item : VarName) :
    giveAlias (first ++ second) item = giveAlias second (giveAlias first item) :=
  List.foldl_append

/-- Giving aliases from the assignments of a body gives the field of the last one. -/
theorem giveAlias_body (body : AggregatorBody) (item : VarName) :
    giveAlias (body.all.map AggrAssignment.var) item =
      { item with alias_ := (body.lastField item.name).getD item.alias_ } := by
  have run : ∀ items : List AggrAssignment,
      giveAlias (items.map AggrAssignment.var) item =
        { item with alias_ :=
          ((items.reverse.find? fun as => as.variableName.text == item.name).map
            (·.funcType.field)).getD item.alias_ } := by
    intro items
    induction items using List.reverseRecOn with
    | nil => rfl
    | append_singleton items last ih =>
        rw [List.map_append, giveAlias_append, ih]
        by_cases same : item.name = last.variableName.text
        · simp [giveAlias, AggrAssignment.var, same]
        · simp [giveAlias, AggrAssignment.var, same, Ne.symm same]
  exact run body.all

theorem getElem?_giveAliases (map : VarsMap) (key other : Str) (agVec : Option (List VarName)) :
    (giveAliases map key agVec)[other]? =
      if key = other then
        (map[key]?).map fun vec => agVec.elim vec fun ag => vec.map (giveAlias ag)
      else map[other]? := by
  unfold giveAliases
  by_cases same : key = other
  · subst same
    cases agVec <;> cases found : map[key]? <;> simp [found]
  · cases agVec <;> cases map[key]? <;>
      simp [same, Std.ExtTreeMap.getElem?_insert, Std.LawfulEqCmp.compare_eq_iff_eq]

end Alias4variables

namespace Aliases

/-- The entry of the maps a stage writes. -/
def entry (abs : Aliases) : Context × Node → Option (List VarName)
  | (ctx, .inner (.aggregator _)) => abs.aggrVars[stageKey .aggregator ctx.path]?
  | (ctx, .inner (.groupFilter _)) => abs.groupFilterVars[stageKey .groupFilter ctx.path]?
  | (ctx, .selector _) => abs.selVars[stageKey .selector ctx.path]?
  | _ => none

/-- Run the stages of a list. -/
def fold (stages : List (Context × Node)) (abs : Aliases) : Aliases :=
  stages.foldl (fun current occ => current.step occ.1 occ.2) abs

/-- A stage at another path leaves the entry of a stage alone. -/
theorem entry_step (abs : Aliases) {occ other : Context × Node}
    (apart : other.2.rank = occ.2.rank → other.1.path ≠ occ.1.path) :
    (abs.step other.1 other.2).entry occ = abs.entry occ := by
  obtain ⟨ctx, found⟩ := occ
  obtain ⟨ctx', found'⟩ := other
  have keys : ∀ stage : StageName, ctx'.path ≠ ctx.path →
      stageKey stage ctx'.path ≠ stageKey stage ctx.path :=
    fun _ differ same => differ (stageKey_injective same)
  cases found' with
  | selector body' =>
      cases found with
      | selector body =>
          simp [entry, step, Alias4variables.getElem?_giveAliases, getElem?_addAll,
            keys .selector (apart rfl)]
      | inner st => cases st <;> rfl
  | inner st' =>
      cases st' with
      | aggregator body' =>
          cases found with
          | selector body => rfl
          | inner st =>
              cases st with
              | aggregator body =>
                  simp [entry, step, getElem?_addAll, keys .aggregator (apart rfl)]
              | _ => rfl
      | groupFilter body' =>
          cases found with
          | selector body => rfl
          | inner st =>
              cases st with
              | groupFilter body =>
                  simp [entry, step, Alias4variables.getElem?_giveAliases,
                    keys .groupFilter (apart rfl)]
              | _ => rfl
      | _ => cases found with
        | selector body => rfl
        | inner st => rfl

theorem fold_append (abs : Aliases) (first second : List (Context × Node)) :
    fold (first ++ second) abs = fold second (fold first abs) :=
  List.foldl_append

/-- Stages at other paths leave the entry of a stage alone. -/
theorem entry_fold {occ : Context × Node} : (stages : List (Context × Node)) → (abs : Aliases) →
    (∀ other ∈ stages, other.2.rank = occ.2.rank → other.1.path ≠ occ.1.path) →
      (fold stages abs).entry occ = abs.entry occ
  | [], _, _ => rfl
  | head :: tail, abs, apart => by
      have rest := entry_fold tail (abs.step head.1 head.2)
        fun other member => apart other (List.mem_cons_of_mem _ member)
      exact rest.trans (entry_step abs (apart head List.mem_cons_self))

/-- Where stages of one kind have different paths, the entry of a stage is what that stage
made of the initial entry. -/
theorem entry_split {before after : List (Context × Node)} {occ : Context × Node}
    (apart : (before ++ occ :: after).Pairwise ApartByPath) (abs : Aliases) :
    (fold before abs).entry occ = abs.entry occ ∧
      (fold (before ++ occ :: after) abs).entry occ =
        ((fold before abs).step occ.1 occ.2).entry occ := by
  obtain ⟨_, tail, cross⟩ := List.pairwise_append.mp apart
  have later := (List.pairwise_cons.mp tail).1
  constructor
  · exact entry_fold before abs fun other member => cross other member occ List.mem_cons_self
  · rw [fold_append]
    refine entry_fold after _ fun other member sameRank => ?_
    exact (later other member sameRank.symm).symm

/-- The variables of the aggregator above, as the text of the rule file has them. -/
def variablesAbove (ctx : Context) : Option (List VarName) :=
  ctx.aggregator.map fun above => above.2.all.map AggrAssignment.var

/-- At a stage below an aggregator the aggregator's variables are recorded. -/
theorem agVec_before {ast : MainBranches} (distinct : ast.SiblingsDistinct)
    {before after : List (Context × Node)} {occ : Context × Node}
    (split : ast.occurrences = before ++ occ :: after) {abs : Aliases} (empty : abs.aggrVars = ∅) :
    (fold before abs).agVec occ.1.aggregator = variablesAbove occ.1 := by
  have apart : (before ++ occ :: after).Pairwise ApartByPath :=
    split ▸ ast.tree.occurrences_pairwise ast.tree_ordered distinct
  rcases ast.tree.aggregatorMet split with outside | ⟨above, member, body, isAggregator, found⟩
  · have none : occ.1.aggregator = none := outside
    simp [none, agVec, variablesAbove]
  · obtain ⟨first, second, rfl⟩ := List.mem_iff_append.mp member
    have entry := entry_split (List.Pairwise.sublist (List.sublist_append_left _ _) apart) abs
    obtain ⟨ctx, node⟩ := above
    simp only at isAggregator found
    subst isAggregator
    obtain ⟨initial, final⟩ := entry
    simp only [Aliases.entry] at initial final
    rw [found, agVec, Option.bind_some, final, variablesAbove, found]
    simp [step, getElem?_addAll, initial, empty, AggregatorBody.all]

end Aliases

/-- `data` with the maps a visit has filled. -/
def InterRepr.withAliases (data : InterRepr) (abs : Aliases) : InterRepr :=
  { data with
    groupFilterVars := abs.groupFilterVars
    aggrVars := abs.aggrVars
    selVars := abs.selVars }

/-- The result of the fold over the stages. -/
def InterRepr.aliases (data : InterRepr) : Aliases :=
  Aliases.fold data.ast.occurrences ⟨data.groupFilterVars, ∅, ∅, false⟩

/-- `add_aliases` ends normally exactly when no sibling repeats a name, and then it is the
fold over the stages. -/
theorem addAliases_ok {data final : InterRepr} :
    Parser.addAliases data = .ok final ↔
      NoRepeats (data.ast.tree.events (fun _ => true) .root) ∧
        final = data.withAliases data.aliases := by
  let start : Aliases := ⟨data.groupFilterVars, ∅, ∅, false⟩
  let members : Located Alias4variables :=
    ⟨[], Alias4variables.new data.filterVars data.groupFilterVars⟩
  have shown : Located.shows (fun ctx => Aliases.Shows data.filterVars ctx.aggregator)
      .root start members :=
    ⟨rfl, rfl, rfl, rfl, rfl, rfl, rfl, rfl, by simp [Context.root]⟩
  have tracks := (alias4variablesCrawl data.filterVars).run data.ast start members shown
  have stages : runStages (fun ctx found => Action.update fun abs : Aliases => abs.step ctx found)
      (stagesOf (data.ast.tree.events (fun _ => true) .root)) start = .ok data.aliases := by
    rw [Tree.stagesOf_events]
    exact Action.sequence_update (fun occ abs => abs.step occ.1 occ.2) data.ast.occurrences start
  have result : ∀ {abs : Aliases} {con : Located Alias4variables},
      Located.shows (fun ctx => Aliases.Shows data.filterVars ctx.aggregator) .root abs con →
      { data with
        filterVars := con.self.filterVars
        groupFilterVars := con.self.groupFilterVars
        aggrVars := con.self.aggrVars
        selVars := con.self.selVars } = data.withAliases abs := by
    rintro abs con ⟨_, self⟩
    rw [self.filterVars, self.groupFilterVars, self.aggrVars, self.selVars]
    rfl
  constructor
  · intro ran
    obtain ⟨alv, visited, rfl⟩ := map_ok.mp ran
    obtain ⟨abs, events, related⟩ := tracks.of_run_ok visited
    obtain ⟨clean, ran⟩ := (Located.runEvents_ok _).mp events
    obtain rfl := Except.ok.inj (stages.symm.trans ran)
    exact ⟨clean, result related⟩
  · rintro ⟨clean, rfl⟩
    obtain ⟨con, ran, related⟩ := tracks.of_spec_ok ((Located.runEvents_ok _).mpr ⟨clean, stages⟩)
    exact map_ok.mpr ⟨con, ran, result related⟩

/-- Every recorded name has the field that lexical scoping gives it, and every entry belongs
to a stage of the rule file. -/
structure Scoped (ast : MainBranches) (data : InterRepr) : Prop where
  groupFilter : ∀ ctx body, (ctx, .inner (.groupFilter body)) ∈ ast.occurrences →
    ∃ found, (ff2Init body).names? = some found ∧
      data.groupFilterVars[stageKey .groupFilter ctx.path]? =
        some (found.map fun name => ⟨name, ctx.aliasAbove name⟩)
  selector : ∀ ctx body, (ctx, .selector body) ∈ ast.occurrences →
    ∃ aggIsPresent, (data.selVars[stageKey .selector ctx.path]?).getD [] =
      (body.recorded aggIsPresent).map fun name => ⟨name, ctx.aliasAbove name⟩
  groupFilterOnly : ∀ key vars, data.groupFilterVars[key]? = some vars →
    ∃ ctx body, (ctx, .inner (.groupFilter body)) ∈ ast.occurrences ∧
      key = stageKey .groupFilter ctx.path
  selectorOnly : ∀ key vars, data.selVars[key]? = some vars →
    ∃ ctx body, (ctx, .selector body) ∈ ast.occurrences ∧ key = stageKey .selector ctx.path

namespace Aliases

/-- Names without alias that get their aliases below the aggregator on the path. -/
theorem map_giveAlias_unaliased (ctx : Context) (found : List Str) :
    (ctx.aggregator.map fun above => above.2.all.map AggrAssignment.var).elim (unaliased found)
        (fun ag => (unaliased found).map (Alias4variables.giveAlias ag)) =
      found.map fun name => ⟨name, ctx.aliasAbove name⟩ := by
  cases above : ctx.aggregator with
  | none => simp [unaliased, Context.aliasAbove, above]
  | some found' =>
      simp [unaliased, Context.aliasAbove, above, Alias4variables.giveAlias_body]

/-- A selector records its names with the aliases of the aggregator above. -/
theorem step_selector {abs : Aliases} {ctx : Context} (body : SelectorBody)
    (fresh : abs.selVars[stageKey .selector ctx.path]? = none)
    (above : abs.agVec ctx.aggregator = variablesAbove ctx) :
    ((abs.step ctx (.selector body)).selVars[stageKey .selector ctx.path]?).getD [] =
      (body.recorded (abs.aggIsPresent ctx.aggregator)).map fun name =>
        ⟨name, ctx.aliasAbove name⟩ := by
  rw [← map_giveAlias_unaliased]
  simp only [step, Alias4variables.getElem?_giveAliases, getElem?_addAll, fresh, above,
    variablesAbove, ↓reduceIte, Option.getD_none, List.nil_append, true_and]
  generalize unaliased (body.recorded (abs.aggIsPresent ctx.aggregator)) = found
  cases found <;> cases ctx.aggregator <;> simp

/-- A group-filter gives its names the aliases of the aggregator above. -/
theorem step_groupFilter {abs : Aliases} {ctx : Context} {body : Str} {found : List Str}
    (own : abs.groupFilterVars[stageKey .groupFilter ctx.path]? = some (unaliased found))
    (above : abs.agVec ctx.aggregator = variablesAbove ctx) :
    (abs.step ctx (.inner (.groupFilter body))).groupFilterVars[stageKey .groupFilter ctx.path]? =
      some (found.map fun name => ⟨name, ctx.aliasAbove name⟩) := by
  rw [← map_giveAlias_unaliased]
  simp only [step, Alias4variables.getElem?_giveAliases, own, above, variablesAbove, ↓reduceIte,
    Option.map_some]

/-- An entry of the group-filters was there before. -/
theorem groupFilterVars_fold {key : Str} : (stages : List (Context × Node)) → (abs : Aliases) →
    (fold stages abs).groupFilterVars[key]? ≠ none → abs.groupFilterVars[key]? ≠ none
  | [], _, present => present
  | head :: tail, abs, present => by
      have before := groupFilterVars_fold tail (abs.step head.1 head.2) present
      intro absent
      refine before ?_
      obtain ⟨ctx, found⟩ := head
      cases found with
      | selector body => exact absent
      | inner st =>
          cases st with
          | groupFilter body =>
              simp only [step, Alias4variables.getElem?_giveAliases]
              split
              · rename_i same
                simp [same, absent]
              · exact absent
          | _ => exact absent

/-- An entry of the selectors was there before or belongs to a selector. -/
theorem selVars_fold {key : Str} : (stages : List (Context × Node)) → (abs : Aliases) →
    (fold stages abs).selVars[key]? ≠ none → abs.selVars[key]? ≠ none ∨
      ∃ ctx body, (ctx, .selector body) ∈ stages ∧ key = stageKey .selector ctx.path
  | [], _, present => Or.inl present
  | (ctx, found) :: tail, abs, present => by
      rcases selVars_fold tail (abs.step ctx found) present with before | ⟨ctx', body, member, same⟩
      · cases found with
        | selector body =>
            by_cases same : stageKey .selector ctx.path = key
            · exact Or.inr ⟨ctx, body, List.mem_cons_self, same.symm⟩
            · left
              simpa [step, Alias4variables.getElem?_giveAliases, getElem?_addAll, same] using before
        | inner st => cases st <;> exact Or.inl before
      · exact Or.inr ⟨ctx', body, List.mem_cons_of_mem _ member, same⟩

end Aliases

/-- With distinct sibling names a group-filter finds its own names. -/
theorem Parser.Parsed.ownNames {ast : MainBranches} {data : InterRepr}
    (parsed : Parser.Parsed ast data) (distinct : ast.SiblingsDistinct) {ctx : Context} {body : Str}
    (member : (ctx, .inner (.groupFilter body)) ∈ ast.occurrences) :
    ∃ found, (ff2Init body).names? = some found ∧
      data.groupFilterVars[stageKey .groupFilter ctx.path]? = some (unaliased found) := by
  have filter := parsed.bodies _ member
  cases names : (ff2Init body).names? with
  | none => exact absurd names filter
  | some found =>
      refine ⟨found, rfl, ?_⟩
      obtain ⟨first, second, split⟩ := List.mem_iff_append.mp member
      have apart : (first ++ (ctx, .inner (.groupFilter body)) :: second).Pairwise ApartByPath :=
        split ▸ ast.tree.occurrences_pairwise ast.tree_ordered distinct
      have others : first.filterMap
          (ParseFilterBodies.namesAt (stageKey .groupFilter ctx.path)) = [] := by
        refine List.filterMap_eq_nil_iff.mpr ?_
        rintro ⟨ctx', found'⟩ earlier
        have differ := (List.pairwise_append.mp apart).2.2 _ earlier _ List.mem_cons_self
        cases found' with
        | selector body => rfl
        | inner st =>
            cases st with
            | groupFilter body' =>
                have keys : stageKey .groupFilter ctx'.path ≠ stageKey .groupFilter ctx.path :=
                  fun same => differ rfl (stageKey_injective same)
                simp [ParseFilterBodies.namesAt, keys]
            | _ => rfl
      rw [parsed.groupFilterVars, split, List.filterMap_append, others]
      simp [ParseFilterBodies.namesAt, names, unaliased]

/-- An entry that `parse` has made belongs to a group-filter. -/
theorem Parser.Parsed.groupFilterOnly {ast : MainBranches} {data : InterRepr}
    (parsed : Parser.Parsed ast data) {key : Str} (present : data.groupFilterVars[key]? ≠ none) :
    ∃ ctx body, (ctx, .inner (.groupFilter body)) ∈ ast.occurrences ∧
      key = stageKey .groupFilter ctx.path := by
  rw [parsed.groupFilterVars key] at present
  obtain ⟨head, isHead⟩ := Option.ne_none_iff_exists'.mp present
  obtain ⟨⟨ctx, found⟩, member, named⟩ := List.mem_filterMap.mp (List.mem_of_head? isHead)
  cases found with
  | selector body => cases named
  | inner st =>
      cases st with
      | groupFilter body =>
          refine ⟨ctx, body, member, ?_⟩
          by_contra differ
          simp [ParseFilterBodies.namesAt, Ne.symm differ] at named
      | _ => cases named

/-- With distinct sibling names `add_aliases` resolves variables by lexical scoping. -/
theorem addAliases_scoped {ast : MainBranches} {data : InterRepr} (distinct : ast.SiblingsDistinct)
    (parsed : Parser.parse ast = .ok data) :
    ∃ final, Parser.addAliases data = .ok final ∧ Scoped ast final := by
  have before := Parser.parse_ok parsed
  obtain rfl := before.ast_eq
  have apart : data.ast.occurrences.Pairwise ApartByPath :=
    data.ast.tree.occurrences_pairwise data.ast.tree_ordered distinct
  let start : Aliases := ⟨data.groupFilterVars, ∅, ∅, false⟩
  refine ⟨_, addAliases_ok.mpr ⟨data.ast.tree.noRepeats distinct, rfl⟩, ?_, ?_, ?_, ?_⟩
  · intro ctx body member
    obtain ⟨found, names, own⟩ := before.ownNames distinct member
    obtain ⟨first, second, split⟩ := List.mem_iff_append.mp member
    obtain ⟨initial, final⟩ := Aliases.entry_split (split ▸ apart) start
    have above := Aliases.agVec_before distinct split (show start.aggrVars = ∅ from rfl)
    rw [← split] at final
    exact ⟨found, names, final.trans (Aliases.step_groupFilter (initial.trans own) above)⟩
  · intro ctx body member
    obtain ⟨first, second, split⟩ := List.mem_iff_append.mp member
    obtain ⟨initial, final⟩ := Aliases.entry_split (split ▸ apart) start
    have above := Aliases.agVec_before distinct split (show start.aggrVars = ∅ from rfl)
    rw [← split] at final
    refine ⟨(Aliases.fold first start).aggIsPresent ctx.aggregator, ?_⟩
    have recorded := Aliases.step_selector body (initial.trans rfl) above
    exact (congrArg (Option.getD · []) final).trans recorded
  · intro key vars present
    have kept := Aliases.groupFilterVars_fold data.ast.occurrences
      ⟨data.groupFilterVars, ∅, ∅, false⟩
      fun absent => Option.some_ne_none vars (present.symm.trans absent)
    exact before.groupFilterOnly kept
  · intro key vars present
    rcases Aliases.selVars_fold data.ast.occurrences ⟨data.groupFilterVars, ∅, ∅, false⟩
        fun absent => Option.some_ne_none vars (present.symm.trans absent) with kept | found
    · exact absurd rfl kept
    · exact found

/-- `main { aggregator: v = SUM(BYTES), v = MAX(PACKETS); branch one { group-filter: v > 5;
selector: v; } branch two { selector: v; } }`. -/
def twoBranches : MainBranches where
  first := .mk .main (.stage (.aggregator
    { body :=
        { first := ⟨.v, .withParam ⟨.sum, .bytes⟩⟩
          rest := [⟨.v, .withParam ⟨.maximal, .packets⟩⟩] }
      succ := .branches
        { first := .stage .one (.groupFilter
            { body := "v > 5".toList
              succ := .stage ⟨⟨.name "v".toList, none⟩, []⟩ })
          rest := [.stage .two (.selector ⟨⟨.name "v".toList, none⟩, []⟩)] } }))
  rest := .nil

theorem addAliases_scoped_twoBranches :
    ∃ data final, Parser.parse twoBranches = .ok data ∧ Parser.addAliases data = .ok final ∧
      Scoped twoBranches final := by
  have distinct : twoBranches.SiblingsDistinct := by
    refine ⟨by decide, ⟨by decide, trivial, trivial, trivial⟩, trivial⟩
  obtain ⟨data, parsed⟩ : ∃ data, Parser.parse twoBranches = .ok data :=
    exists_ok_of_isOk (by decide +kernel)
  obtain ⟨final, aliased, scoping⟩ := addAliases_scoped distinct parsed
  exact ⟨data, final, parsed, aliased, scoping⟩

end Policer.Parsing
