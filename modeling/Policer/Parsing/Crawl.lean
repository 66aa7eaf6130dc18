import Policer.Parsing.BranchNames

/-!
# What a visitor does, stage by stage

A `Crawl` says how one visitor treats one stage: what its members mean at a
place of the tree (`shows`) and what it does there (`step`). `Crawl.run` turns
that into the meaning of the whole visit, a run of `step` over the stages in
textual order. This is the one induction over syntax trees the visitors need.
-/

namespace Policer.Parsing

open Policer.Lib

/-- What a visitor meets on its way: a stage, or a sibling that repeats a name. -/
inductive Event where
  | node (ctx : Context) (node : Node)
  | repeated (ctx : Context) (name : Identifier)

mutual

/-- The events of a visit that descends below the stages in `descends`. -/
def Tree.events (descends : InnerStage → Bool) (ctx : Context) : Tree → List Event
  | .selector body => [.node ctx (.selector body)]
  | .stage st next =>
      .node ctx (.inner st) ::
        if descends st then next.events descends (ctx.enter st) else []
  | .branches level items => items.events descends ctx level []

/-- The events of sibling branches behind siblings called `seen`. -/
def Branches.events (descends : InnerStage → Bool) (ctx : Context) (level : BranchLevel)
    (seen : List Identifier) : Branches → List Event
  | .nil => []
  | .cons name tree rest =>
      (if level ≠ .nested ∧ name ∈ seen then [.repeated ctx name] else []) ++
        (tree.events descends (ctx.push name) ++
          rest.events descends ctx level (seen ++ [name]))

end

/-- `property` holds of every branch and its name. -/
def Branches.Forall (property : Identifier → Tree → Prop) : Branches → Prop
  | .nil => True
  | .cons name tree rest => property name tree ∧ rest.Forall property

/-- Run a step for each event. -/
def runEvents {α : Type} (step : Event → Method α) (events : List Event) : Method α :=
  Action.sequence (events.map step)

@[simp] theorem runEvents_nil {α : Type} (step : Event → Method α) :
    runEvents step [] = Action.skip := rfl

@[simp] theorem runEvents_cons {α : Type} (step : Event → Method α) (event : Event)
    (rest : List Event) : runEvents step (event :: rest) = (step event >=> runEvents step rest) :=
  rfl

theorem runEvents_append {α : Type} (step : Event → Method α) (first second : List Event) :
    runEvents step (first ++ second) = (runEvents step first >=> runEvents step second) := by
  simp [runEvents, Action.sequence_append]

/-- A run of checks that gather nothing passes exactly when each of them does. -/
theorem runEvents_unit {step : Event → Method Unit} {events : List Event} :
    runEvents step events () = .ok () ↔ ∀ event ∈ events, step event () = .ok () := by
  induction events with
  | nil => simp
  | cons event rest ih =>
      rw [runEvents_cons, Action.seq_ok, List.forall_mem_cons, ← ih]
      constructor
      · rintro ⟨⟨⟩, first, later⟩
        exact ⟨first, later⟩
      · rintro ⟨first, later⟩
        exact ⟨(), first, later⟩

/-- How a visitor treats one stage, told on states of type `α`. -/
structure Crawl {σ : Type} (v : Visitor σ) (α : Type) where
  /-- The members `con` of the visitor at a place of the tree, having gathered `abs`. -/
  shows : Context → α → σ → Prop
  /-- The stages below which the visitor goes on. -/
  descends : InnerStage → Bool
  /-- What the visitor does at an event, told on `α`. -/
  step : Event → Method α
  /-- What the visitor does before and behind the stages that follow. -/
  enter : InnerStage → Method σ
  leave : InnerStage → σ → σ
  splits : ∀ st succ, v.innerStage st succ =
    (enter st >=> (if descends st then succ else Action.skip) >=> Action.update (leave st))
  selector : ∀ ctx body, Tracks (shows ctx) (shows ctx)
    (step (.node ctx (.selector body))) (v.selectorStage body (v.selectorBody body))
  enters : ∀ {ctx : Context} {lo : Nat} {st : InnerStage}, ctx.Fits lo → lo < st.rank →
    Tracks (shows ctx) (shows (ctx.enter st)) (step (.node ctx (.inner st))) (enter st)
  leaves : ∀ {ctx : Context} {lo : Nat} {st : InnerStage}, ctx.Fits lo → lo < st.rank →
    ∀ abs con, shows (ctx.enter st) abs con → shows ctx abs (leave st con)
  siblings : ∀ {ctx : Context} {level : BranchLevel} {items : Branches},
    items.Forall (fun name tree => Tracks (shows (ctx.push name)) (shows (ctx.push name))
      (runEvents step (tree.events descends (ctx.push name))) (v.tree tree)) →
      Tracks (shows ctx) (shows ctx) (runEvents step (items.events descends ctx level []))
        (v.siblings level (v.branches level items))

namespace Crawl

variable {σ α : Type} {v : Visitor σ} (crawl : Crawl v α)

mutual

/-- A visit of a tree is the run of its events. -/
theorem run_tree {ctx : Context} {lo : Nat} : (t : Tree) → t.Ordered lo → ctx.Fits lo →
    Tracks (crawl.shows ctx) (crawl.shows ctx)
      (runEvents crawl.step (t.events crawl.descends ctx)) (v.tree t)
  | .selector body, _, _ => by
      have unit : (crawl.step (.node ctx (.selector body)) >=> Action.skip) =
          crawl.step (.node ctx (.selector body)) := fish_pure _
      simpa [Tree.events, Visitor.tree, unit] using crawl.selector ctx body
  | .stage st next, ordered, fits => by
      have below := run_tree next ordered.2 (fits.enter ordered.1)
      have inside : Tracks (crawl.shows (ctx.enter st)) (crawl.shows (ctx.enter st))
          (runEvents crawl.step
            (if crawl.descends st then next.events crawl.descends (ctx.enter st) else []))
          (if crawl.descends st then v.tree next else Action.skip) := by
        cases crawl.descends st with
        | true => exact below
        | false => exact Tracks.skip _
      rw [Tree.events, Visitor.tree, crawl.splits, runEvents_cons]
      exact (crawl.enters fits ordered.1).seq
        (inside.silent_after (crawl.leaves fits ordered.1))
  | .branches level items, ordered, fits => by
      simpa [Tree.events, Visitor.tree] using crawl.siblings (run_branches items ordered fits)

theorem run_branches {ctx : Context} {lo : Nat} : (items : Branches) → items.Ordered lo →
    ctx.Fits lo → items.Forall fun name tree =>
      Tracks (crawl.shows (ctx.push name)) (crawl.shows (ctx.push name))
        (runEvents crawl.step (tree.events crawl.descends (ctx.push name))) (v.tree tree)
  | .nil, _, _ => trivial
  | .cons name tree rest, ordered, fits =>
      ⟨run_tree tree ordered.1 (fits.push name), run_branches rest ordered.2 fits⟩

end

/-- A visit of a rule file is the run of its events. -/
theorem run (ast : MainBranches) :
    Tracks (crawl.shows .root) (crawl.shows .root)
      (runEvents crawl.step (ast.tree.events crawl.descends .root)) (v.visit ast) := by
  rw [v.visit_eq_tree]
  exact crawl.run_tree ast.tree ast.tree_ordered Context.root_fits

/-- A visit that gathers nothing ends normally exactly when every event passes. -/
theorem visit_unit (crawl : Crawl v Unit) (con : σ)
    (shown : crawl.shows .root () con) (ast : MainBranches) :
    (∃ final, v.visit ast con = .ok final) ↔
      ∀ event ∈ ast.tree.events crawl.descends .root, crawl.step event () = .ok () := by
  have tracks := crawl.run ast () con shown
  rw [← runEvents_unit]
  constructor
  · rintro ⟨final, visited⟩
    obtain ⟨⟨⟩, events, _⟩ := tracks.of_run_ok visited
    exact events
  · intro events
    obtain ⟨final, visited, _⟩ := tracks.of_spec_ok events
    exact ⟨final, visited⟩

end Crawl

/-! ### The stages among the events -/

/-- The stage of an event. -/
def Event.node? : Event → Option (Context × Node)
  | .node ctx found => some (ctx, found)
  | .repeated _ _ => none

/-- The stages a visit meets. -/
def stagesOf (events : List Event) : List (Context × Node) := events.filterMap Event.node?

/-- Run a step for each stage. -/
def runStages {α : Type} (onNode : Context → Node → Method α) (stages : List (Context × Node)) :
    Method α :=
  Action.sequence (stages.map fun stage => onNode stage.1 stage.2)

/-- No sibling repeats a name. -/
def NoRepeats (events : List Event) : Prop := ∀ event ∈ events, event.node? ≠ none

theorem NoRepeats.append {first second : List Event} :
    NoRepeats (first ++ second) ↔ NoRepeats first ∧ NoRepeats second :=
  List.forall_mem_append

mutual

/-- A visit that descends everywhere meets every stage. -/
theorem Tree.stagesOf_events {ctx : Context} : (t : Tree) →
    stagesOf (t.events (fun _ => true) ctx) = t.occurrences ctx
  | .selector _ => rfl
  | .stage st next => by
      have below := @Tree.stagesOf_events (ctx.enter st) next
      simpa [Tree.events, Tree.occurrences, stagesOf, Event.node?] using below
  | .branches level items => by simpa [Tree.events, Tree.occurrences] using items.stagesOf_events

theorem Branches.stagesOf_events {ctx : Context} {level : BranchLevel} {seen : List Identifier} :
    (items : Branches) →
      stagesOf (items.events (fun _ => true) ctx level seen) = items.occurrences ctx
  | .nil => rfl
  | .cons name tree rest => by
      have here := @Tree.stagesOf_events (ctx.push name) tree
      have later := @Branches.stagesOf_events ctx level (seen ++ [name]) rest
      simp only [stagesOf] at here later
      by_cases repeated : level ≠ .nested ∧ name ∈ seen <;>
        simp [Branches.events, Branches.occurrences, stagesOf, repeated, Event.node?,
          List.filterMap_cons, here, later]

end

mutual

/-- Distinct sibling names never repeat. -/
theorem Tree.noRepeats {descends : InnerStage → Bool} {ctx : Context} :
    (t : Tree) → t.SiblingsDistinct → NoRepeats (t.events descends ctx)
  | .selector _, _ => by simp [Tree.events, NoRepeats, Event.node?]
  | .stage st next, distinct => by
      intro event member
      rcases List.mem_cons.mp member with rfl | below
      · simp [Event.node?]
      · split at below
        · exact next.noRepeats distinct event below
        · cases below
  | .branches level items, distinct => items.noRepeats distinct.1 (by simp) distinct.2

theorem Branches.noRepeats {descends : InnerStage → Bool} {ctx : Context} {level : BranchLevel}
    {seen : List Identifier} : (items : Branches) → items.names.Nodup →
      (∀ name ∈ items.names, name ∉ seen) → items.SiblingsDistinct →
        NoRepeats (items.events descends ctx level seen)
  | .nil, _, _, _ => by simp [Branches.events, NoRepeats]
  | .cons name tree rest, nodup, fresh, distinct => by
      have parts := List.nodup_cons.mp nodup
      have unseen : name ∉ seen := fresh name List.mem_cons_self
      have freshRest : ∀ other ∈ rest.names, other ∉ seen ++ [name] := by
        intro other member
        have different : other ≠ name := by
          rintro rfl
          exact parts.1 member
        simpa [different] using fresh other (List.mem_cons_of_mem _ member)
      simp only [Branches.events, unseen, and_false, ↓reduceIte, List.nil_append,
        NoRepeats.append]
      exact ⟨tree.noRepeats distinct.1, rest.noRepeats parts.2 freshRest distinct.2⟩

end

/-! ### Classes derived from `Check_branch_names` -/

namespace Located

variable {τ α : Type}

/-- The stack holds the path; `inner` relates the derived class's members. -/
def shows (inner : Context → α → τ → Prop) (ctx : Context) (abs : α) (con : Located τ) : Prop :=
  con.stack = names ctx.path ∧ inner ctx abs con.self

/-- A step for stages, extended by the error for a repeated name. -/
def step (onNode : Context → Node → Method α) : Event → Method α
  | .node ctx found => onNode ctx found
  | .repeated ctx name =>
      Action.throw (.thrown (.checkBranchNames (makePath (names ctx.path)) name.text))

/-- A visit ends normally exactly when no name repeats and the stages are passed. -/
theorem runEvents_ok {onNode : Context → Node → Method α} {abs final : α} (events : List Event) :
    runEvents (step onNode) events abs = .ok final ↔
      NoRepeats events ∧ runStages onNode (stagesOf events) abs = .ok final := by
  induction events generalizing abs with
  | nil => simp [NoRepeats, stagesOf, runStages]
  | cons event rest ih =>
      cases event with
      | repeated ctx name => simp [NoRepeats, Event.node?, step]
      | node ctx found =>
          have head : NoRepeats (.node ctx found :: rest) ↔ NoRepeats rest := by
            simp [NoRepeats, Event.node?]
          simp only [runEvents_cons, Action.seq_ok, ih, step, head]
          simp only [stagesOf, runStages, Event.node?, List.filterMap_cons, List.map_cons,
            Action.sequence_cons, Action.seq_ok]
          constructor
          · rintro ⟨middle, first, clean, ran⟩
            exact ⟨clean, middle, first, ran⟩
          · rintro ⟨clean, middle, first, ran⟩
            exact ⟨middle, first, clean, ran⟩

variable {inner : Context → α → τ → Prop} {ctx : Context}

/-- Only the path changes at a branch. -/
def PathFree (inner : Context → α → τ → Prop) : Prop :=
  ∀ ctx name, inner (ctx.push name) = inner ctx

/-- A stage that does not matter to the derived class leaves the meaning of its members. -/
theorem shows_enter {st : InnerStage} (same : inner (ctx.enter st) = inner ctx) :
    shows inner (ctx.enter st) = shows inner ctx := by
  funext abs con
  simp [shows, same]

theorem inBranch_tracks (pathFree : PathFree inner) {name : Identifier} {spec : Method α}
    {visit : Method (Located τ)}
    (tracks : Tracks (shows inner (ctx.push name)) (shows inner (ctx.push name)) spec visit) :
    Tracks (shows inner ctx) (shows inner ctx) spec (inBranch (name, visit)) := by
  refine Tracks.silent_before ?_
    (tracks.silent_after ?_)
  · rintro abs con ⟨stack, own⟩
    exact ⟨by simp [stack], by rw [pathFree]; exact own⟩
  · rintro abs con ⟨stack, own⟩
    refine ⟨by simp [stack], ?_⟩
    rw [pathFree] at own
    exact own

/-- Members of a derived class that leaves single branches to `Check_branch_names`. -/
def PlainBranches (v : Visitor (Located τ)) : Prop := ∀ name visit, v.mainBranch name visit = visit

variable {v : Visitor (Located τ)} {descends : InnerStage → Bool}
  {onNode : Context → Node → Method α}

theorem branchItem_eq (plain : PlainBranches v) (level : BranchLevel) (name : Identifier)
    (visit : Method (Located τ)) : v.branchItem level name visit = visit := by
  cases level <;> simp [Visitor.branchItem, plain name visit]

theorem mem_names {seen : List Identifier} {name : Identifier} :
    name.text ∈ names seen ↔ name ∈ seen :=
  List.mem_map_of_injective Identifier.text_injective

theorem checkRest_tracks (pathFree : PathFree inner) (plain : PlainBranches v)
    {level : BranchLevel} (checked : level ≠ .nested) :
    (seen : List Identifier) → (items : Branches) →
    items.Forall (fun name tree =>
      Tracks (shows inner (ctx.push name)) (shows inner (ctx.push name))
        (runEvents (step onNode) (tree.events descends (ctx.push name))) (v.tree tree)) →
    Tracks (shows inner ctx) (shows inner ctx)
      (runEvents (step onNode) (items.events descends ctx level seen))
      (checkRest (names seen) (v.branches level items))
  | _, .nil, _ => Tracks.skip _
  | seen, .cons name tree rest, ⟨here, later⟩ => by
      have one := inBranch_tracks pathFree here
      have more := checkRest_tracks pathFree plain checked (seen ++ [name]) rest later
      intro abs con related
      by_cases repeated : name ∈ seen
      · have threw : checkAndPush (names seen) name.text con =
            .error (.thrown (.checkBranchNames (makePath (names ctx.path)) name.text)) := by
          simp [checkAndPush, mem_names, repeated, getBranchPath, related.1]
        simp only [Branches.events, Visitor.branches, checked, ne_eq, not_false_eq_true, repeated,
          and_self, ↓reduceIte, List.cons_append, List.nil_append, runEvents_cons, checkRest, threw]
        exact .error
      · have passed : checkAndPush (names seen) name.text con = .ok (names (seen ++ [name])) := by
          simp [checkAndPush, mem_names, repeated]
        simp only [Branches.events, Visitor.branches, repeated, and_false, ↓reduceIte,
          List.nil_append, runEvents_append, checkRest, passed, branchItem_eq plain]
        exact one.seq more abs con related

theorem mainBranchVec_tracks (pathFree : PathFree inner) (plain : PlainBranches v) :
    (seen : List Identifier) → (items : Branches) →
    items.Forall (fun name tree =>
      Tracks (shows inner (ctx.push name)) (shows inner (ctx.push name))
        (runEvents (step onNode) (tree.events descends (ctx.push name))) (v.tree tree)) →
    Tracks (shows inner ctx) (shows inner ctx)
      (runEvents (step onNode) (items.events descends ctx .nested seen))
      (mainBranchVec (v.branches .nested items))
  | _, .nil, _ => Tracks.skip _
  | seen, .cons name tree rest, ⟨here, later⟩ => by
      have one := inBranch_tracks pathFree here
      have more := mainBranchVec_tracks pathFree plain (seen ++ [name]) rest later
      simp only [Branches.events, Visitor.branches, ne_eq, not_true_eq_false, false_and,
        ↓reduceIte, List.nil_append, runEvents_append, branchItem_eq plain]
      exact one.seq more

/-- The law of sibling branches for classes derived from `Check_branch_names`. -/
theorem siblings_tracks (pathFree : PathFree inner) (plain : PlainBranches v)
    {level : BranchLevel} {items : Branches}
    (each : items.Forall fun name tree =>
      Tracks (shows inner (ctx.push name)) (shows inner (ctx.push name))
        (runEvents (step onNode) (tree.events descends (ctx.push name)))
        (v.overBranchNames.tree tree)) :
    Tracks (shows inner ctx) (shows inner ctx)
      (runEvents (step onNode) (items.events descends ctx level []))
      (v.overBranchNames.siblings level (v.overBranchNames.branches level items)) := by
  have plain' : PlainBranches v.overBranchNames := plain
  cases level with
  | nested => exact mainBranchVec_tracks pathFree plain' [] items each
  | main =>
      have whole := checkRest_tracks pathFree plain' (show BranchLevel.main ≠ .nested by simp) []
        items each
      cases items with
      | nil => exact whole
      | cons name tree rest => exact whole
  | after =>
      have whole := checkRest_tracks pathFree plain' (show BranchLevel.after ≠ .nested by simp) []
        items each
      cases items with
      | nil => exact whole
      | cons name tree rest => exact whole

end Located

end Policer.Parsing
