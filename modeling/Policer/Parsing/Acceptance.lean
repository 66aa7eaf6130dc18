import Policer.Parsing.SelectorCheck

/-!
# What the semantic checks demand

Each check accepts a rule file when every stage, or every path of stages, meets a demand of its
own, and leaves its members as it has found them. `semanticCheck_ok` puts the demands together;
none of them speaks of the order of branches.
-/

namespace Policer.Parsing

open Policer.Lib

/-! ### Branch names -/

/-- `Check_branch_names` stage by stage: it looks at the names of branches only. -/
def checkBranchNamesCrawl : Crawl checkBranchNames Unit where
  shows := Located.shows fun _ _ _ => True
  descends _ := true
  step := Located.step fun _ _ => Action.skip
  enter _ := Action.skip
  leave _ state := state
  splits st succ := by
    have silentKeys : ∀ type, checkBranchNames.grouperType type = Action.skip :=
      checkBranchNames.grouperType_skip fun _ => rfl
    have silentBody : ∀ body, checkBranchNames.aggregatorBody body = Action.skip :=
      checkBranchNames.aggregatorBody_skip fun ⟨_, func⟩ => by cases func <;> rfl
    rw [Action.seq_update_id]
    cases st with
    | grouper type => exact congrArg (· >=> succ) (silentKeys type)
    | aggregator body => exact congrArg (· >=> succ) (silentBody body)
    | _ => rfl
  selector ctx body := by
    have silent : checkBranchNames.selectorBody body = Action.skip :=
      checkBranchNames.selectorBody_skip (fun ⟨output, _⟩ => by cases output <;> rfl) body
    exact silent ▸ Tracks.skip _
  enters := by
    intro ctx lo st _ _
    rw [Located.shows_enter rfl]
    exact Tracks.skip _
  leaves := by
    intro ctx lo st _ _ abs con related
    rwa [Located.shows_enter rfl] at related
  siblings := Located.siblings_tracks (fun _ _ => rfl) (fun _ _ => rfl)

/-! ### Grouper keys -/

namespace CheckGrouper

/-- The keys that are compared: the method for keywords clears its flag at the first one. -/
def keysOf (type : GrouperType) : List Str := (type.all.take 1).map stringUnirecEnum

/-- The parameters that are compared. -/
def paramsOf (body : AggregatorBody) : List Str :=
  (((functionsOf body).map AggrFuncWithParamS.param).take 1).map stringUnirecEnum

/-- The members below the stages of a context. -/
def above (ctx : Context) : CheckGrouper where
  keys := ctx.grouper.elim [] keysOf
  aggParams := ctx.aggregator.elim [] fun found => paramsOf found.2
  groDiv := false
  aggDiv := false

theorem runKeywords_idle (keywords : List Unirec) (state : Located CheckGrouper)
    (idle : state.self.groDiv = false ∧ state.self.aggDiv = false) :
    runKeywords unirec keywords state = .ok state := by
  induction keywords with
  | nil => rfl
  | cons head tail ih =>
      have first : unirec head state = .ok state := by
        change Except.ok _ = _
        simp only [idle.1, idle.2, Bool.false_eq_true, ↓reduceIte]
      rw [runKeywords, List.map_cons, Action.sequence_cons, Action.seq_of_ok first]
      exact ih

/-- Below a grouper the first keyword is gathered. -/
theorem runKeywords_grouper (keywords : List Unirec) (stack : List Str) (params : List Str) :
    ∃ groDiv, runKeywords unirec keywords ⟨stack, [], params, true, false⟩ =
      .ok ⟨stack, (keywords.take 1).map stringUnirecEnum, params, groDiv, false⟩ := by
  cases keywords with
  | nil => exact ⟨true, rfl⟩
  | cons head tail =>
      refine ⟨false, ?_⟩
      have first : unirec head ⟨stack, [], params, true, false⟩ =
          .ok ⟨stack, [stringUnirecEnum head], params, false, false⟩ := rfl
      rw [runKeywords, List.map_cons, Action.sequence_cons, Action.seq_of_ok first]
      exact runKeywords_idle tail _ ⟨rfl, rfl⟩

/-- Below an aggregator the first parameter is gathered. -/
theorem runKeywords_aggregator (keywords : List Unirec) (stack : List Str) (keys : List Str) :
    ∃ aggDiv, runKeywords unirec keywords ⟨stack, keys, [], false, true⟩ =
      .ok ⟨stack, keys, (keywords.take 1).map stringUnirecEnum, false, aggDiv⟩ := by
  cases keywords with
  | nil => exact ⟨true, rfl⟩
  | cons head tail =>
      refine ⟨false, ?_⟩
      have first : unirec head ⟨stack, keys, [], false, true⟩ =
          .ok ⟨stack, keys, [stringUnirecEnum head], false, false⟩ := rfl
      rw [runKeywords, List.map_cons, Action.sequence_cons, Action.seq_of_ok first]
      exact runKeywords_idle tail _ ⟨rfl, rfl⟩

/-- What `Check_grouper` does at a stage. -/
def step (ctx : Context) : Node → Method Unit
  | .inner (.grouper type) =>
      match (keysOf type).find? fun item =>
          item == "COUNT".toList || item == "TIME_FIRST".toList || item == "TIME_LAST".toList with
      | none => Action.skip
      | some item => Action.throw (.thrown (.checkGrouper1 (stageKey .grouper ctx.path) item))
  | .inner (.aggregator body) =>
      match (paramsOf body).find? fun item => (above ctx).keys.contains item with
      | none => Action.skip
      | some item => Action.throw (.thrown (.checkGrouper2 (makePath (names ctx.path)) item))
  | _ => Action.skip

end CheckGrouper

/-- `Check_grouper` stage by stage. -/
def checkGrouperCrawl : Crawl checkGrouper Unit where
  shows := Located.shows fun ctx _ con => con = CheckGrouper.above ctx
  descends _ := true
  step := Located.step CheckGrouper.step
  enter
    | .grouper type =>
        (Located.updateSelf fun self => { self with groDiv := true }) >=>
          checkGrouper.grouperType type >=>
          (Located.updateSelf fun self => { self with groDiv := false }) >=>
          CheckGrouper.checkKeys1
    | .aggregator body =>
        (Located.updateSelf fun self => { self with aggDiv := true }) >=>
          checkGrouper.aggregatorBody body >=>
          (Located.updateSelf fun self => { self with aggDiv := false }) >=>
          CheckGrouper.checkKeys2
    | _ => Action.skip
  leave
    | .grouper _, state => { state with self := { state.self with keys := [] } }
    | .aggregator _, state => { state with self := { state.self with aggParams := [] } }
    | _, state => state
  splits st succ := by
    cases st with
    | grouper type =>
        simp only [↓reduceIte, Action.seq_assoc]
        rfl
    | aggregator body =>
        simp only [↓reduceIte, Action.seq_assoc]
        rfl
    | _ => exact (Action.seq_update_id succ).symm
  selector ctx body := by
    rintro ⟨⟩ con ⟨stackEq, selfEq⟩
    have run : checkGrouper.selectorBody body con = .ok con :=
      (congrFun (keywordVisitor_selectorBody CheckGrouper.unirec body) con).trans
        (CheckGrouper.runKeywords_idle body.outputs con (by simp [selfEq, CheckGrouper.above]))
    change Related _ _ (checkGrouper.selectorBody body con)
    rw [run]
    exact .ok ⟨stackEq, selfEq⟩
  enters := by
    intro ctx lo st fits low
    cases st with
    | grouper type =>
        rintro ⟨⟩ ⟨stack, _⟩ ⟨stackEq, rfl⟩
        let params := (CheckGrouper.above ctx).aggParams
        have start : CheckGrouper.above ctx = ⟨[], params, false, false⟩ := by
          simp [CheckGrouper.above, fits.grouper low, params]
        obtain ⟨groDiv, run⟩ := CheckGrouper.runKeywords_grouper type.all stack params
        change Related _ _ ((checkGrouper.grouperType type >=>
          (Located.updateSelf fun self => { self with groDiv := false }) >=>
          CheckGrouper.checkKeys1) ⟨stack, { CheckGrouper.above ctx with groDiv := true }⟩)
        rw [start, Action.seq_of_ok (show checkGrouper.grouperType type _ = _ from run)]
        let gathered : Located CheckGrouper :=
          ⟨stack, CheckGrouper.keysOf type, params, false, false⟩
        have path : gathered.getStagePath .grouper = stageKey .grouper ctx.path :=
          getStagePath_eq stackEq .grouper
        change Related _ _ (CheckGrouper.checkKeys1 gathered)
        simp only [Located.step, CheckGrouper.step, CheckGrouper.checkKeys1, path, gathered]
        cases (CheckGrouper.keysOf type).find? _ with
        | none => exact .ok ⟨stackEq, rfl⟩
        | some item => exact .error
    | aggregator body =>
        rintro ⟨⟩ ⟨stack, _⟩ ⟨stackEq, rfl⟩
        let keys := (CheckGrouper.above ctx).keys
        have start : CheckGrouper.above ctx = ⟨keys, [], false, false⟩ := by
          simp [CheckGrouper.above, fits.aggregator low, keys]
        obtain ⟨aggDiv, run⟩ := CheckGrouper.runKeywords_aggregator
          ((functionsOf body).map AggrFuncWithParamS.param) stack keys
        have run : checkGrouper.aggregatorBody body ⟨stack, keys, [], false, true⟩ = _ :=
          (congrFun (keywordVisitor_aggregatorBody CheckGrouper.unirec body) _).trans run
        change Related _ _ ((checkGrouper.aggregatorBody body >=>
          (Located.updateSelf fun self => { self with aggDiv := false }) >=>
          CheckGrouper.checkKeys2) ⟨stack, { CheckGrouper.above ctx with aggDiv := true }⟩)
        rw [start, Action.seq_of_ok run]
        change Related _ _ (CheckGrouper.checkKeys2
          ⟨stack, keys, CheckGrouper.paramsOf body, false, false⟩)
        obtain rfl : stack = names ctx.path := stackEq
        simp only [Located.step, CheckGrouper.step, CheckGrouper.checkKeys2, Located.getBranchPath]
        cases (CheckGrouper.paramsOf body).find? _ with
        | none => exact .ok ⟨rfl, rfl⟩
        | some item => exact .error
    | _ => exact Tracks.skip _
  leaves := by
    intro ctx lo st fits low abs con related
    cases st with
    | grouper type =>
        obtain ⟨stackEq, selfEq⟩ := related
        refine ⟨stackEq, ?_⟩
        simp [selfEq, CheckGrouper.above, fits.grouper low, Context.enter]
    | aggregator body =>
        obtain ⟨stackEq, selfEq⟩ := related
        refine ⟨stackEq, ?_⟩
        simp [selfEq, CheckGrouper.above, fits.aggregator low, Context.enter]
    | _ => exact related
  siblings := Located.siblings_tracks (fun _ _ => rfl) (fun _ _ => rfl)

/-! ### Sequences of stages -/

/-- The abbreviation of a stage. -/
def InnerStage.stageType : InnerStage → StageType
  | .filter _ => .fi
  | .grouper _ => .gr
  | .window _ => .wi
  | .aggregator _ => .ag
  | .groupFilter _ => .gf

mutual

/-- The stages on each path from here to a selector. -/
def Tree.sequences : Tree → List (List StageType)
  | .selector _ => [[.se]]
  | .stage st next => next.sequences.map (st.stageType :: ·)
  | .branches _ items => items.sequences

def Branches.sequences : Branches → List (List StageType)
  | .nil => []
  | .cons _ tree rest => tree.sequences ++ rest.sequences

end

namespace CheckSeqStages

/-- The method leaves the stack as it was, and ends normally exactly when the stack is allowed with
each of `sequences` behind it. -/
structure Demands (visit : Method CheckSeqStages) (sequences : List (List StageType)) : Prop where
  keeps : ∀ {state final : CheckSeqStages}, visit state = .ok final → final.stack = state.stack
  passes : ∀ state : CheckSeqStages, (∃ final, visit state = .ok final) ↔
    ∀ found ∈ sequences, state.stack ++ found ∈ allowedComb

namespace Demands

variable {visit other : Method CheckSeqStages} {sequences others : List (List StageType)}

theorem skip : Demands Action.skip [] where
  keeps ran := by cases ran; rfl
  passes state := by simp

theorem seq (first : Demands visit sequences) (second : Demands other others) :
    Demands (visit >=> other) (sequences ++ others) where
  keeps ran := by
    obtain ⟨middle, ranFirst, ranSecond⟩ := Action.seq_ok.mp ran
    rw [second.keeps ranSecond, first.keeps ranFirst]
  passes state := by
    rw [List.forall_mem_append, ← first.passes state]
    constructor
    · rintro ⟨final, ran⟩
      obtain ⟨middle, ranFirst, ranSecond⟩ := Action.seq_ok.mp ran
      refine ⟨⟨middle, ranFirst⟩, ?_⟩
      rw [← first.keeps ranFirst]
      exact (second.passes middle).mp ⟨final, ranSecond⟩
    · rintro ⟨⟨middle, ranFirst⟩, allowed⟩
      rw [← first.keeps ranFirst] at allowed
      obtain ⟨final, ranSecond⟩ := (second.passes middle).mpr allowed
      exact ⟨final, Action.seq_ok.mpr ⟨middle, ranFirst, ranSecond⟩⟩

/-- A stage stands in front of what follows it. -/
theorem within (item : StageType) (below : Demands visit sequences) :
    Demands (CheckSeqStages.within item visit) (sequences.map (item :: ·)) where
  keeps {state final} ran := by
    obtain ⟨middle, ranBelow, rfl⟩ := map_ok.mp
      (show (visit { state with stack := state.stack ++ [item] }).map
        (fun state => { state with stack := state.stack.dropLast }) = .ok final from ran)
    simp [below.keeps ranBelow]
  passes state := by
    have same := below.passes { state with stack := state.stack ++ [item] }
    rw [List.forall_mem_map]
    simp only [List.append_assoc, List.singleton_append] at same
    rw [← same]
    constructor
    · rintro ⟨final, ran⟩
      obtain ⟨_, entered, rest⟩ := Action.seq_ok.mp ran
      obtain rfl := Except.ok.inj entered
      obtain ⟨middle, ranBelow, _⟩ := Action.seq_ok.mp rest
      exact ⟨middle, ranBelow⟩
    · rintro ⟨middle, ranBelow⟩
      exact ⟨_, Action.seq_ok.mpr ⟨_, rfl, Action.seq_ok.mpr ⟨middle, ranBelow, rfl⟩⟩⟩

theorem check : Demands (fun state => CheckSeqStages.check state.stack state) [[]] where
  keeps ran := by
    unfold CheckSeqStages.check at ran
    split at ran <;> cases ran
    rfl
  passes state := by
    simp only [List.mem_singleton, forall_eq, List.append_nil, CheckSeqStages.check]
    split <;> simp_all

theorem mainBranch (name : Identifier) (below : Demands visit sequences) :
    Demands (checkSeqStages.mainBranch name visit) sequences where
  keeps ran := by
    obtain ⟨_, entered, rest⟩ := Action.seq_ok.mp ran
    obtain rfl := Except.ok.inj entered
    have kept := below.keeps rest
    exact kept
  passes state := below.passes { state with actualMainBranch := name.text }

end Demands

theorem siblings_eq (level : BranchLevel) (items : List (Identifier × Method CheckSeqStages)) :
    checkSeqStages.siblings level items = Action.sequence (items.map Prod.snd) := by
  cases level <;> cases items <;> rfl

mutual

/-- A tree demands that the sequence on each of its paths is allowed. -/
theorem demands_tree : (t : Tree) → Demands (checkSeqStages.tree t) t.sequences
  | .selector body => Demands.check.within .se
  | .stage st next => by
      have below := (demands_tree next).within st.stageType
      cases st <;> exact below
  | .branches level items => by
      rw [Visitor.tree, siblings_eq]
      exact demands_branches level items

theorem demands_branches (level : BranchLevel) : (items : Branches) →
    Demands (Action.sequence ((checkSeqStages.branches level items).map Prod.snd)) items.sequences
  | .nil => .skip
  | .cons name tree rest => by
      have here : Demands (checkSeqStages.branchItem level name (checkSeqStages.tree tree))
          tree.sequences := by
        cases level with
        | after => exact demands_tree tree
        | _ => exact (demands_tree tree).mainBranch name
      exact here.seq (demands_branches level rest)

end

end CheckSeqStages

/-! ### The checks together -/

/-- What `semantic_check` demands of a rule file. -/
structure Demanded (data : InterRepr) : Prop where
  seqStages : ∀ found ∈ data.ast.tree.sequences, found ∈ CheckSeqStages.allowedComb
  branchNames : ∀ event ∈ data.ast.tree.events (fun _ => true) .root,
    checkBranchNamesCrawl.step event () = .ok ()
  grouper : ∀ event ∈ data.ast.tree.events (fun _ => true) .root,
    checkGrouperCrawl.step event () = .ok ()
  selector : ∀ event ∈ data.ast.tree.events (fun _ => true) .root,
    checkSelectorCrawl.step event () = .ok ()
  filterBodies : ∀ event ∈ data.ast.tree.events notGroupFilter .root,
    (checkFilterBodiesCrawl data.filterVars data.groupFilterVars).step event () = .ok ()

/-- `semantic_check` ends normally exactly when every check finds what it demands. -/
theorem semanticCheck_ok {data : InterRepr} :
    Parser.semanticCheck data = .ok () ↔ Demanded data := by
  have seqStages := (CheckSeqStages.demands_tree data.ast.tree).passes ⟨[], []⟩
  rw [← Visitor.visit_eq_tree] at seqStages
  have branchNames := checkBranchNamesCrawl.visit_unit ⟨[], ()⟩ ⟨rfl, trivial⟩ data.ast
  have grouper := checkGrouperCrawl.visit_unit ⟨[], ⟨[], [], false, false⟩⟩ ⟨rfl, rfl⟩ data.ast
  have selector := checkSelectorCrawl.visit_unit ⟨[], ⟨false, false, false, [], []⟩⟩ ⟨rfl, rfl⟩
    data.ast
  have filterBodies := (checkFilterBodiesCrawl data.filterVars data.groupFilterVars).visit_unit
    ⟨[], ⟨data.filterVars, data.groupFilterVars, []⟩⟩ ⟨rfl, rfl⟩ data.ast
  constructor
  · intro checked
    obtain ⟨_, first, checked⟩ := bind_ok.mp checked
    obtain ⟨_, second, checked⟩ := bind_ok.mp checked
    obtain ⟨_, third, checked⟩ := bind_ok.mp checked
    obtain ⟨_, fourth, checked⟩ := bind_ok.mp checked
    obtain ⟨_, fifth, _⟩ := bind_ok.mp checked
    exact ⟨seqStages.mp ⟨_, first⟩, branchNames.mp ⟨_, second⟩, grouper.mp ⟨_, third⟩,
      selector.mp ⟨_, fourth⟩, filterBodies.mp ⟨_, fifth⟩⟩
  · intro demanded
    obtain ⟨_, first⟩ := seqStages.mpr demanded.seqStages
    obtain ⟨_, second⟩ := branchNames.mpr demanded.branchNames
    obtain ⟨_, third⟩ := grouper.mpr demanded.grouper
    obtain ⟨_, fourth⟩ := selector.mpr demanded.selector
    obtain ⟨_, fifth⟩ := filterBodies.mpr demanded.filterBodies
    exact bind_ok.mpr ⟨_, first, bind_ok.mpr ⟨_, second, bind_ok.mpr ⟨_, third,
      bind_ok.mpr ⟨_, fourth, bind_ok.mpr ⟨_, fifth, rfl⟩⟩⟩⟩⟩

/-- In a rule file that passes the checks, every output of a selector is allowed. -/
theorem outputs_allowed_of_run {ast : MainBranches} {data : InterRepr}
    (ran : Parser.run ast = .ok data) {ctx : Context} {body : SelectorBody}
    (member : (ctx, .selector body) ∈ ast.occurrences) :
    ∀ un ∈ body.outputs, (ctx.keys = [] ∧ ctx.params = []) ∨ un = .timeFirst ∨ un = .timeLast ∨
      un ∈ ctx.keys ∨ un ∈ ctx.params := by
  obtain ⟨parsed, parsedOk, checks, _⟩ := Parser.run_ok.mp ran
  obtain rfl := Parser.parse_ast parsedOk
  have passed : CheckSelector.step ctx (.selector body) () = .ok () := by
    rw [MainBranches.occurrences, ← Tree.stagesOf_events] at member
    obtain ⟨event, met, isStage⟩ := List.mem_filterMap.mp member
    have passed := (semanticCheck_ok.mp checks).selector event met
    cases event with
    | repeated place name => cases isStage
    | node place found =>
        obtain ⟨rfl, rfl⟩ := Prod.mk.inj (Option.some.inj isStage)
        exact passed
  intro un isOutput
  have accepted : CheckSelector.allowed (CheckSelector.gather ctx.keys)
      (CheckSelector.gather ctx.params) un = true := by
    cases refused : CheckSelector.refused? (CheckSelector.gather ctx.keys)
        (CheckSelector.gather ctx.params) body.outputs with
    | none => simpa using List.find?_eq_none.mp refused un isOutput
    | some other =>
        simp only [CheckSelector.step, refused] at passed
        cases passed
  simp only [CheckSelector.allowed, Bool.or_eq_true, Bool.and_eq_true, List.isEmpty_iff,
    CheckSelector.gather_eq_nil, beq_iff_eq, List.contains_iff_mem, List.mem_append,
    CheckSelector.mem_gather] at accepted
  have exact_ : ∀ {keywords : List Unirec},
      (∃ other ∈ keywords, stringUnirecEnum other = stringUnirecEnum un) → un ∈ keywords := by
    rintro keywords ⟨other, member, same⟩
    exact stringUnirecEnum_injective same ▸ member
  rcases accepted with ((nothing | first) | last) | isKey | isParam
  · exact Or.inl nothing
  · exact Or.inr (Or.inl first)
  · exact Or.inr (Or.inr (Or.inl last))
  · exact Or.inr (Or.inr (Or.inr (Or.inl (exact_ isKey))))
  · exact Or.inr (Or.inr (Or.inr (Or.inr (exact_ isParam))))

end Policer.Parsing
