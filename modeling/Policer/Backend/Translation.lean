import Policer.Backend.Builder
import Policer.Parsing.Scoping

/-!
# The forest the builder leaves

`Tree.translate` reads the forest off the syntax tree without any state: a stage
becomes a node over the nodes of what follows it, and an aggregator takes its
options from its own path. `buildRoot_eq_translate` says that the stateful visit of
`Builder` leaves exactly this forest. The induction carries `Builder.at`: at every
place of the tree the option strings are those of the path and the vectors below
the current one are untouched.
-/

namespace Policer.Backend

open Policer.Lib Policer.Parsing

/-! ### The translation -/

/-- Options for the keys of the grouper above. -/
def keyOptions (ctx : Context) : Str := ctx.keys.flatMap Builder.keyOption

/-- Option for the window above. -/
def windowOptions (ctx : Context) : Str := ctx.window.elim getMaxWindow Builder.windowOption

/-- Option for one function. -/
def functionOption (as : AggrAssignment) : Str :=
  match as.funcType with
  | .withParam func => optionAggrWithParamEnum func.funcName ++ stringUnirecEnum func.param
  | .withoutParam _ => []

/-- Options for the functions of an aggregator. -/
def functionOptions (body : AggregatorBody) : Str := body.all.flatMap functionOption

/-- The options of an aggregator at its place. -/
def aggOptions (ctx : Context) (body : AggregatorBody) : Str :=
  "param ".toList ++ keyOptions ctx ++ windowOptions ctx ++ functionOptions body

/-- The text of a variable in a selector body. -/
def variableText : SelVariable → Str
  | .keyword unir => stringUnirecEnum unir
  | .name variable_ => variable_.text

/-- The text of a selector item. -/
def itemText (sa : SelAssignment) : Str :=
  match sa.output, sa.selExpression with
  | .name str, some se => str ++ "=".toList ++ se.reached.flatMap variableText
  | .name str, none => str
  | .keyword unir, _ => stringUnirecEnum unir

/-- One more item behind the text of a selector body. -/
def appendItem (text : Str) (sa : SelAssignment) : Str :=
  (if text.isEmpty then [] else text ++ ",".toList) ++ itemText sa

/-- The text of a selector body. -/
def selectorText (body : SelectorBody) : Str := body.all.foldl appendItem []

/-- The options of a selector at its place, given its interface number. -/
def selectorOptions (data : InterRepr) (ctx : Context) (body : SelectorBody) (number : Nat) : Str :=
  toStringNat number ++ ":".toList ++
    applyAliases (selectorText body) data.selVars[stageKey .selector ctx.path]? .selectorBody

/-- Where no name is recorded the body of a selector is written as it is. -/
theorem selectorOptions_of_none {data : InterRepr} {ctx : Context} {body : SelectorBody}
    {number : Nat}
    (unnamed : data.selVars[stageKey .selector ctx.path]? = none) :
    selectorOptions data ctx body number =
      toStringNat number ++ ":".toList ++ selectorText body := by
  simp only [selectorOptions, unnamed, applyAliases]

/-- The options of a group-filter at its place. -/
def groupFilterOptions (data : InterRepr) (ctx : Context) (body : Str) : Str :=
  applyAliases body data.groupFilterVars[stageKey .groupFilter ctx.path]? .groupFilterBody

/-- The nodes of a stage over those of what follows it. -/
def translateStage (data : InterRepr) (ctx : Context) (next : BuilderVec) : InnerStage → BuilderVec
  | .filter body => [.mk .filter body next]
  | .grouper _ => next
  | .window _ => next
  | .aggregator body => [.mk .agg (aggOptions ctx body) next]
  | .groupFilter body => [.mk .filter (groupFilterOptions data ctx body) next]

mutual

/-- The forest of a tree and the next free interface number. -/
def translateTree (data : InterRepr) (ctx : Context) : Tree → Nat → BuilderVec × Nat
  | .selector body, number =>
      ([.mk .selector (selectorOptions data ctx body number) []], number + 1)
  | .stage st next, number =>
      let below := translateTree data (ctx.enter st) next number
      (translateStage data ctx below.1 st, below.2)
  | .branches _ items, number => translateBranches data ctx items number

def translateBranches (data : InterRepr) (ctx : Context) : Branches → Nat → BuilderVec × Nat
  | .nil, number => ([], number)
  | .cons name tree rest, number =>
      let here := translateTree data (ctx.push name) tree number
      let later := translateBranches data ctx rest here.2
      (here.1 ++ later.1, later.2)

end

/-! ### The state at a place of the tree -/

namespace Builder

/-- The members of the builder at a place of the tree: `below` are the vectors under the
current one, which holds `top`. -/
def atPlace (data : InterRepr) (ctx : Context) (root : BuilderVec) (below : List BuilderVec)
    (top : BuilderVec) (number : Nat) : Located Builder where
  stack := names ctx.path
  self :=
    { groupFilterVars := data.groupFilterVars
      selVars := data.selVars
      bStack := below ++ [top]
      root := root
      groOpt := keyOptions ctx
      groDive := false
      winOpt := ctx.window.elim [] windowOption
      aggOpt := ctx.aggregator.elim [] fun above => functionOptions above.2
      selOpt := []
      selDive := false
      interfaceCounter := number }

theorem modify_last {α : Type} (f : α → α) (below : List α) (top : α) :
    (below ++ [top]).modify below.length f = below ++ [f top] := by
  induction below with
  | nil => rfl
  | cons head below ih => simp [ih]

/-- A new builder joins the current vector. -/
theorem pushBuilder_atPlace (data : InterRepr) (ctx : Context) (root : BuilderVec)
    (below : List BuilderVec) (top : BuilderVec) (number : Nat) (made : BuilderStage) :
    pushBuilder made (atPlace data ctx root below top number).self =
      (atPlace data ctx root below (top ++ [made]) number).self := by
  simp [pushBuilder, atPlace, modify_last]

/-- `collect` makes a node over what the stages that follow leave in the new vector. -/
theorem collect_run {data : InterRepr} {ctx : Context} {root : BuilderVec} {below : List BuilderVec}
    {top next : BuilderVec} {number number' : Nat} {succ : Method (Located Builder)}
    (kind : StageKind) (options : Located Builder → Str)
    (ran : succ (atPlace data ctx root (below ++ [top]) [] number) =
      .ok (atPlace data ctx root (below ++ [top]) next number')) :
    collect succ kind options (atPlace data ctx root below top number) =
      .ok (atPlace data ctx root below
        (top ++ [.mk kind (options (atPlace data ctx root below top number')) next]) number') := by
  have pushed : (pushVec >=> succ) (atPlace data ctx root below top number) =
      .ok (atPlace data ctx root (below ++ [top]) next number') := ran
  have popped : (popVec : Method (Located Builder))
      (atPlace data ctx root (below ++ [top]) next number') =
        .ok (atPlace data ctx root below top number') := by
    simp [popVec, atPlace]
  have found : (((atPlace data ctx root (below ++ [top]) next number').self.bStack[(atPlace data
      ctx root below top number).self.bStack.length]?).getD []) = next := by
    simp [atPlace]
  simp only [collect, pushed, found]
  rw [Action.seq_of_ok popped, pushBuilder_atPlace]
  rfl

/-- The state with the current option for keys replaced. -/
def withGroOpt (state : Located Builder) (text : Str) : Located Builder :=
  { state with self := { state.self with groOpt := text } }

/-- The state with the current option for functions replaced. -/
def withAggOpt (state : Located Builder) (text : Str) : Located Builder :=
  { state with self := { state.self with aggOpt := text } }

/-- The state with the text of the current selector body replaced. -/
def withSelOpt (state : Located Builder) (text : Str) : Located Builder :=
  { state with self := { state.self with selOpt := text } }

/-- A visit of a grouper body appends its key options. -/
theorem grouperType_run (type : GrouperType) (state : Located Builder)
    (dive : state.self.groDive = true) (surface : state.self.selDive = false) :
    builder.grouperType type state =
      .ok (withGroOpt state (state.self.groOpt ++ type.all.flatMap keyOption)) := by
  unfold Visitor.grouperType
  induction type.all generalizing state with
  | nil => simp [withGroOpt]
  | cons head tail ih =>
      have first : builder.unirec head state =
          .ok (withGroOpt state (state.self.groOpt ++ keyOption head)) := by
        change unirec head state = _
        have silent : (if state.self.selDive then appendSelOpt (stringUnirecEnum head) state
            else .ok state) = .ok state := by simp [surface]
        rw [unirec, Action.seq_of_ok silent]
        simp [dive, withGroOpt]
      rw [List.map_cons, Action.sequence_cons, Action.seq_of_ok first,
        ih (withGroOpt state (state.self.groOpt ++ keyOption head)) dive surface]
      simp [withGroOpt]

/-- A visit of an aggregator body appends its function options. -/
theorem aggregatorBody_run (body : AggregatorBody) (state : Located Builder) :
    builder.aggregatorBody body state =
      .ok (withAggOpt state (state.self.aggOpt ++ functionOptions body)) := by
  unfold Visitor.aggregatorBody functionOptions
  induction body.all generalizing state with
  | nil => simp [withAggOpt]
  | cons head tail ih =>
      have first : builder.aggrAssignment head (builder.aggrFuncType head.funcType) state =
          .ok (withAggOpt state (state.self.aggOpt ++ functionOption head)) := by
        obtain ⟨name, func⟩ := head
        cases func with
        | withParam func =>
            simp only [functionOption, ← List.append_assoc]
            rfl
        | withoutParam func =>
            simp only [functionOption, List.append_nil]
            rfl
      rw [List.map_cons, Action.sequence_cons, Action.seq_of_ok first,
        ih (withAggOpt state (state.self.aggOpt ++ functionOption head))]
      simp [withAggOpt]

/-- A visit of an expression appends its variables. -/
theorem selExpression_run (se : SelExpression) (state : Located Builder)
    (dive : state.self.selDive = true) (surface : state.self.groDive = false) :
    builder.selExpression se state =
      .ok (withSelOpt state (state.self.selOpt ++ se.reached.flatMap variableText)) := by
  rw [Visitor.selExpression_eq]
  induction se.reached generalizing state with
  | nil => simp [withSelOpt]
  | cons head tail ih =>
      have first : builder.selVariable head state =
          .ok (withSelOpt state (state.self.selOpt ++ variableText head)) := by
        cases head with
        | keyword unir =>
            change unirec unir state = _
            have appended : (if state.self.selDive then appendSelOpt (stringUnirecEnum unir) state
                else .ok state) =
                .ok (withSelOpt state (state.self.selOpt ++ stringUnirecEnum unir)) := by
              simp only [dive, ↓reduceIte]
              rfl
            rw [unirec, Action.seq_of_ok appended]
            simp [withSelOpt, surface, variableText]
        | name variable_ =>
            change string variable_.text state = _
            simp only [string, dive]
            rfl
      rw [List.map_cons, Action.sequence_cons, Action.seq_of_ok first,
        ih (withSelOpt state (state.self.selOpt ++ variableText head)) dive surface]
      simp [withSelOpt]

/-- A visit of a selector item appends it. -/
theorem selAssignment_run (sa : SelAssignment) (state : Located Builder)
    (dive : state.self.selDive = true) (surface : state.self.groDive = false) :
    builder.visitSelAssignment sa state =
      .ok (withSelOpt state (appendItem state.self.selOpt sa)) := by
  obtain ⟨output, selExpression⟩ := sa
  cases output with
  | keyword unir => cases selExpression <;> rfl
  | name str =>
      cases selExpression with
      | none => rfl
      | some se =>
          let opened := withSelOpt state
            ((if state.self.selOpt.isEmpty then [] else state.self.selOpt ++ ",".toList) ++
              str ++ "=".toList)
          have run := selExpression_run se opened dive surface
          have enter : builder.visitSelAssignment ⟨.name str, some se⟩ state =
              builder.selExpression se opened := rfl
          rw [enter, run]
          simp [opened, withSelOpt, appendItem, itemText]

/-- A visit of a selector body appends its items. -/
theorem selectorBody_run (body : SelectorBody) (state : Located Builder)
    (dive : state.self.selDive = true) (surface : state.self.groDive = false) :
    builder.selectorBody body state =
      .ok (withSelOpt state (body.all.foldl appendItem state.self.selOpt)) := by
  unfold Visitor.selectorBody
  induction body.all generalizing state with
  | nil => rfl
  | cons head tail ih =>
      rw [List.map_cons, Action.sequence_cons,
        Action.seq_of_ok (selAssignment_run head state dive surface),
        ih (withSelOpt state (appendItem state.self.selOpt head)) dive surface]
      rfl

variable {data : InterRepr} {ctx : Context} {root : BuilderVec}

/-- The visit of a selector adds its node. -/
theorem selectorStage_run (body : SelectorBody) (below : List BuilderVec) (top : BuilderVec)
    (number : Nat) :
    builder.tree (.selector body) (atPlace data ctx root below top number) =
      .ok (atPlace data ctx root below
        (top ++ [.mk .selector (selectorOptions data ctx body number) []]) (number + 1)) := by
  let diving : Located Builder := { atPlace data ctx root below top number with
    self := { (atPlace data ctx root below top number).self with selDive := true } }
  have run := selectorBody_run body diving rfl rfl
  change selectorStage (builder.selectorBody body) _ = _
  rw [selectorStage, Located.updateSelf, Action.update_seq, Action.seq_of_ok run]
  simp [Located.updateSelf, diving, withSelOpt, atPlace, pushBuilder, modify_last,
    Located.getVars, Located.getStagePath, Located.getBranchPath, selectorOptions, selectorText,
    stageKey]

/-- The option of a window is never empty, so a missing window is told from a present one. -/
theorem aggregatorOptions_eq (ctx : Context) (body : AggregatorBody) :
    aggregatorOptions (keyOptions ctx) (ctx.window.elim [] windowOption) (functionOptions body) =
      aggOptions ctx body := by
  unfold aggregatorOptions aggOptions windowOptions
  cases ctx.window with
  | none => rfl
  | some body =>
      have written : (windowOption body).isEmpty = false := rfl
      simp [written]

/-- The visit of a stage makes its nodes over those of what follows. -/
theorem innerStage_run {lo : Nat} {st : InnerStage} (fits : ctx.Fits lo) (above : lo < st.rank)
    {succ : Method (Located Builder)} {next : BuilderVec} {number number' : Nat}
    (ran : ∀ below top, succ (atPlace data (ctx.enter st) root below top number) =
      .ok (atPlace data (ctx.enter st) root below (top ++ next) number'))
    (below : List BuilderVec) (top : BuilderVec) :
    builder.innerStage st succ (atPlace data ctx root below top number) =
      .ok (atPlace data ctx root below (top ++ translateStage data ctx next st) number') := by
  have inside := ran (below ++ [top]) []
  cases st with
  | filter body => exact collect_run .filter (fun _ => body) inside
  | groupFilter body => exact collect_run .filter _ inside
  | grouper type =>
      have empty : ctx.grouper = none := fits.grouper above
      let diving : Located Builder := { atPlace data ctx root below top number with
        self := { (atPlace data ctx root below top number).self with groDive := true } }
      have keys := grouperType_run type diving rfl rfl
      have entered : { withGroOpt diving (diving.self.groOpt ++ type.all.flatMap keyOption) with
          self := { (withGroOpt diving (diving.self.groOpt ++
            type.all.flatMap keyOption)).self with groDive := false } } =
          atPlace data (ctx.enter (.grouper type)) root below top number := by
        simp [diving, withGroOpt, atPlace, keyOptions, empty, Context.enter, Context.keys]
      change grouperStage (builder.grouperType type) succ _ = _
      rw [grouperStage, Located.updateSelf, Action.update_seq, Action.seq_of_ok keys,
        Located.updateSelf, Action.update_seq, entered, Action.seq_of_ok (ran below top)]
      simp [atPlace, keyOptions, empty, Context.enter, Context.keys, translateStage]
  | window body =>
      have empty : ctx.window = none := fits.window above
      have entered : { atPlace data ctx root below top number with
          self := { (atPlace data ctx root below top number).self with
            winOpt :=
              (atPlace data ctx root below top number).self.winOpt ++ windowOption body } } =
          atPlace data (ctx.enter (.window body)) root below top number := by
        simp [atPlace, empty, Context.enter, keyOptions, Context.keys]
      change windowStage body succ _ = _
      rw [windowStage, Located.updateSelf, Action.update_seq, entered,
        Action.seq_of_ok (ran below top)]
      simp [atPlace, empty, Context.enter, keyOptions, Context.keys, translateStage]
  | aggregator body =>
      have empty : ctx.aggregator = none := fits.aggregator above
      have entered : withAggOpt (atPlace data ctx root below top number)
          ((atPlace data ctx root below top number).self.aggOpt ++ functionOptions body) =
          atPlace data (ctx.enter (.aggregator body)) root below top number := by
        simp [withAggOpt, atPlace, empty, Context.enter, keyOptions, Context.keys]
      have collected := collect_run .agg
        (fun state =>
          aggregatorOptions state.self.groOpt state.self.winOpt state.self.aggOpt) inside
      change aggregatorStage (builder.aggregatorBody body) succ _ = _
      rw [aggregatorStage, Action.seq_of_ok (aggregatorBody_run body _), entered,
        Action.seq_of_ok collected]
      have options : aggregatorOptions (keyOptions (ctx.enter (.aggregator body)))
          ((ctx.enter (.aggregator body)).window.elim [] windowOption) (functionOptions body) =
            aggOptions ctx body := aggregatorOptions_eq ctx body
      simp only [Located.updateSelf_apply, translateStage, ← options]
      simp [atPlace, empty, Context.enter, keyOptions, Context.keys]

/-- What the visit of `t` leaves at a place: the nodes of the tree behind those before. -/
def Translates (data : InterRepr) (root : BuilderVec) (ctx : Context) (t : Tree)
    (visit : Method (Located Builder)) : Prop :=
  ∀ below top number, visit (atPlace data ctx root below top number) =
    .ok (atPlace data ctx root below (top ++ (translateTree data ctx t number).1)
      (translateTree data ctx t number).2)

/-- A branch below a main branch is visited with its name on the stack. -/
theorem inBranch_run (level : BranchLevel) {name : Identifier} {t : Tree} (nested : ctx.path ≠ [])
    (translates : Translates data root (ctx.push name) t (builder.tree t)) (below : List BuilderVec)
    (top : BuilderVec) (number : Nat) :
    Located.inBranch (name, builder.branchItem level name (builder.tree t))
        (atPlace data ctx root below top number) =
      .ok (atPlace data ctx root below (top ++ (translateTree data (ctx.push name) t number).1)
        (translateTree data (ctx.push name) t number).2) := by
  have pushed : (Located.push name : Method (Located Builder))
      (atPlace data ctx root below top number) =
        .ok (atPlace data (ctx.push name) root below top number) := by
    simp [Located.push, atPlace, keyOptions, Context.keys]
  have deep : (atPlace data (ctx.push name) root below top number).getDepth ≠ 1 := by
    have long : 0 < ctx.path.length := List.length_pos_of_ne_nil nested
    simp only [Located.getDepth, atPlace, names, Context.path_push, List.length_map,
      List.length_append, List.length_singleton]
    omega
  have visited : builder.branchItem level name (builder.tree t)
      (atPlace data (ctx.push name) root below top number) =
        builder.tree t (atPlace data (ctx.push name) root below top number) := by
    cases level with
    | main => exact if_neg deep
    | nested => exact if_neg deep
    | after => rfl
  rw [Located.inBranch, Action.seq_of_ok pushed,
    Action.seq_of_ok (visited.trans (translates below top number))]
  simp [Located.pop, atPlace, keyOptions, Context.keys]

mutual

/-- The visit of a tree below a main branch adds its nodes. -/
theorem tree_run {ctx : Context} {lo : Nat} :
    (t : Tree) → t.Ordered lo → ctx.Fits lo → ctx.path ≠ [] →
    NoRepeats (t.events (fun _ => true) ctx) → Translates data root ctx t (builder.tree t)
  | .selector body, _, _, _, _ => selectorStage_run body
  | .stage st next, ordered, fits, nested, clean => by
      have nested' : (ctx.enter st).path ≠ [] := by simpa using nested
      have clean' : NoRepeats (next.events (fun _ => true) (ctx.enter st)) :=
        fun event member => clean event (List.mem_cons_of_mem _ member)
      have next_run := tree_run next ordered.2 (fits.enter ordered.1) nested' clean'
      intro below top number
      exact innerStage_run fits ordered.1 (fun below top => next_run below top number) below top
  | .branches level items, ordered, fits, nested, clean => by
      intro below top number
      have whole := branches_run items ordered fits nested level [] clean below top number
      cases level with
      | nested => exact whole
      | main => cases items <;> exact whole
      | after => cases items <;> exact whole

theorem branches_run {ctx : Context} {lo : Nat} :
    (items : Branches) → items.Ordered lo → ctx.Fits lo →
    ctx.path ≠ [] → ∀ level seen, NoRepeats (items.events (fun _ => true) ctx level seen) →
      ∀ below top number,
        (if level = .nested then Located.mainBranchVec (builder.branches level items)
          else Located.checkRest (names seen) (builder.branches level items))
          (atPlace data ctx root below top number) =
        .ok (atPlace data ctx root below (top ++ (translateBranches data ctx items number).1)
          (translateBranches data ctx items number).2)
  | .nil, _, _, _, level, _, _ => by
      intro below top number
      cases level <;> simp [Visitor.branches, Located.mainBranchVec, Located.checkRest,
        translateBranches]
  | .cons name tree rest, ordered, fits, nested, level, seen, clean => by
      intro below top number
      have parts := NoRepeats.append.mp clean
      have inside := NoRepeats.append.mp parts.2
      have nested' : (ctx.push name).path ≠ [] := by simp
      have here := inBranch_run level nested
        (tree_run tree ordered.1 (fits.push name) nested' inside.1) below top number
      have later := branches_run rest ordered.2 fits nested level (seen ++ [name]) inside.2 below
        (top ++ (translateTree data (ctx.push name) tree number).1)
        (translateTree data (ctx.push name) tree number).2
      by_cases isNested : level = .nested
      · subst isNested
        simp only [↓reduceIte] at later ⊢
        rw [Visitor.branches, Located.mainBranchVec, List.map_cons, Action.sequence_cons,
          Action.seq_of_ok here]
        simpa [translateBranches, Located.mainBranchVec] using later
      · have fresh : name ∉ seen := by
          intro repeated
          have event := parts.1 (.repeated ctx name) (by simp [isNested, repeated])
          exact event rfl
        have passed : Located.checkAndPush (names seen) name.text
            (atPlace data ctx root below top number) = .ok (names (seen ++ [name])) := by
          simp [Located.checkAndPush, Located.mem_names, fresh]
        simp only [isNested, ↓reduceIte] at later ⊢
        simp only [Visitor.branches, Located.checkRest, passed]
        rw [Action.seq_of_ok here]
        simpa [translateBranches] using later

end

/-! ### Main branches -/

/-- The members of the builder between main branches; `stale` are the vectors of the main
branches before, which stay on the stack. -/
def atRoot (data : InterRepr) (root : BuilderVec) (stale : List BuilderVec) (number : Nat) :
    Located Builder :=
  { atPlace data .root root [] [] number with
    self := { (atPlace data .root root [] [] number).self with bStack := stale } }

/-- A main branch adds its nodes to `root`. -/
theorem mainBranch_run {name : Identifier} {t : Tree}
    (translates : ∀ root, Translates data root (Context.root.push name) t (builder.tree t))
    (root : BuilderVec) (stale : List BuilderVec) (number : Nat) :
    ∃ stale', Located.inBranch (name, builder.branchItem .main name (builder.tree t))
        (atRoot data root stale number) =
      .ok (atRoot data (root ++ (translateTree data (Context.root.push name) t number).1) stale'
        (translateTree data (Context.root.push name) t number).2) := by
  let below : Located Builder :=
    { atRoot data root stale number with stack := [name.text] }
  have pushed : (Located.push name : Method (Located Builder)) (atRoot data root stale number) =
      .ok below := rfl
  have opened : (pushVec >=> builder.tree t) below =
      builder.tree t (atPlace data (Context.root.push name) root stale [] number) := rfl
  have inside := opened.trans (translates root stale [] number)
  refine ⟨stale ++ [(translateTree data (Context.root.push name) t number).1], ?_⟩
  have visited : builder.branchItem .main name (builder.tree t) below =
      unpackMainBranch (builder.tree t) below := rfl
  have unpacked : unpackMainBranch (builder.tree t) below = .ok
      { atPlace data (Context.root.push name) root stale
          (translateTree data (Context.root.push name) t number).1
          (translateTree data (Context.root.push name) t number).2 with
        self := { (atPlace data (Context.root.push name) root stale
          (translateTree data (Context.root.push name) t number).1
          (translateTree data (Context.root.push name) t number).2).self with
          root := root ++ (translateTree data (Context.root.push name) t number).1 } } := by
    simp only [unpackMainBranch, inside]
    simp [atPlace, below, atRoot]
  rw [Located.inBranch, Action.seq_of_ok pushed, Action.seq_of_ok (visited.trans unpacked)]
  rfl

/-- The main branches add their nodes to `root` in textual order. -/
theorem mainBranches_run : (items : Branches) → items.Ordered 0 → ∀ seen,
    NoRepeats (items.events (fun _ => true) .root .main seen) → ∀ root stale number,
      ∃ stale', Located.checkRest (names seen) (builder.branches .main items)
          (atRoot data root stale number) =
        .ok (atRoot data (root ++ (translateBranches data .root items number).1) stale'
          (translateBranches data .root items number).2)
  | .nil, _, _, _ => by
      intro root stale number
      exact ⟨stale, by simp [Visitor.branches, Located.checkRest, translateBranches]⟩
  | .cons name tree rest, ordered, seen, clean => by
      intro root stale number
      have parts := NoRepeats.append.mp clean
      have inside := NoRepeats.append.mp parts.2
      have translates : ∀ root, Translates data root (Context.root.push name) tree
          (builder.tree tree) := fun root =>
        tree_run tree ordered.1 (Context.root_fits.push name) (by simp) inside.1
      obtain ⟨middle, here⟩ := mainBranch_run translates root stale number
      obtain ⟨stale', later⟩ := mainBranches_run rest ordered.2 (seen ++ [name]) inside.2
        (root ++ (translateTree data (Context.root.push name) tree number).1) middle
        (translateTree data (Context.root.push name) tree number).2
      have fresh : name ∉ seen := by
        intro repeated
        have event := parts.1 (.repeated .root name) (by simp [repeated])
        exact event rfl
      have passed : Located.checkAndPush (names seen) name.text (atRoot data root stale number) =
          .ok (names (seen ++ [name])) := by
        simp [Located.checkAndPush, Located.mem_names, fresh]
      refine ⟨stale', ?_⟩
      simp only [Visitor.branches, Located.checkRest, passed]
      rw [Action.seq_of_ok here]
      simpa [translateBranches] using later

end Builder

/-- `Builder` leaves the translation of the rule file. -/
theorem buildRoot_eq_translate {data : InterRepr} (number : Nat)
    (clean : NoRepeats (data.ast.tree.events (fun _ => true) .root)) :
    buildRoot data number = .ok (translateTree data .root data.ast.tree number).1 := by
  let items : Branches := .cons data.ast.first.name data.ast.first.tree data.ast.rest.items
  obtain ⟨stale, ran⟩ := @Builder.mainBranches_run data items data.ast.tree_ordered []
    clean [] [] number
  have visited : builder.visit data.ast ⟨[], Builder.new data number⟩ =
      .ok (Builder.atRoot data (translateTree data .root data.ast.tree number).1 stale
        (translateTree data .root data.ast.tree number).2) := by
    rw [Visitor.visit_eq_tree]
    exact ran
  rw [buildRoot, visited]
  rfl

/-- `Builder` leaves the translation of every rule file that is accepted. -/
theorem buildRoot_of_run {ast : MainBranches} {data : InterRepr} (ran : Parser.run ast = .ok data)
    (number : Nat) : buildRoot data number = .ok (translateTree data .root ast.tree number).1 := by
  obtain ⟨parsed, parsedOk, _, aliased⟩ := Parser.run_ok.mp ran
  obtain ⟨clean, rfl⟩ := addAliases_ok.mp aliased
  obtain rfl := (Parser.parse_ok parsedOk).ast_eq
  exact buildRoot_eq_translate number clean

end Policer.Backend
