import Policer.Parsing.Visitor

/-!
# One tree for all stage families

The successor types of the syntax tree restrict which stage may follow which,
but a visitor treats a stage alike wherever it stands. `Tree` forgets the
families, `Tree.Ordered` keeps what they guaranteed, and `Visitor.visit_eq_tree`
says that visiting a rule file is visiting its tree. Every later argument about
a visitor is one induction over `Tree`.
-/

namespace Policer.Parsing

open Policer.Lib

/-- A stage that other stages follow. -/
inductive InnerStage where
  | filter (body : Str)
  | grouper (type : GrouperType)
  | window (body : WindowBody)
  | aggregator (body : AggregatorBody)
  | groupFilter (body : Str)

/-- The method that walks over a list of sibling branches: `main_branches`,
`main_branch_vec` or one of the `branch_after` lists. -/
inductive BranchLevel where
  | main
  | nested
  | after
deriving DecidableEq

mutual

/-- A selector, a stage with what follows it, or sibling branches. -/
inductive Tree where
  | selector (body : SelectorBody)
  | stage (st : InnerStage) (next : Tree)
  | branches (level : BranchLevel) (items : Branches)

/-- Sibling branches in textual order. -/
inductive Branches where
  | nil
  | cons (name : Identifier) (tree : Tree) (rest : Branches)

end

/-- Names of sibling branches in textual order. -/
def Branches.names : Branches → List Identifier
  | .nil => []
  | .cons name _ rest => name :: rest.names

/-! ### Forgetting the stage families -/

section Forget

variable {τ : Type}

/-- The tree of a branch after a stage; the names of single nested branches are dropped. -/
def BranchAfter.tree (forget : τ → Tree) : BranchAfter τ → Tree
  | .stage _ succ => forget succ
  | .branch _ inner => inner.tree forget

/-- A list of branches after a stage. -/
def branchesOf (forget : τ → Tree) : List (BranchAfter τ) → Branches
  | [] => .nil
  | branch :: rest => .cons branch.name (branch.tree forget) (branchesOf forget rest)

/-- The tree of a successor. -/
def Successor.tree (forget : τ → Tree) : Successor τ → Tree
  | .stage succ => forget succ
  | .branches items => .branches .after (branchesOf forget (items.first :: items.rest))

end Forget

def SelectorStage.tree (ss : SelectorStage) : Tree := .selector ss.body

def GroupFilterStage.tree (gfs : GroupFilterStage) : Tree :=
  .stage (.groupFilter gfs.body) (gfs.succ.tree SelectorStage.tree)

def AgStageSucc.tree : AgStageSucc → Tree
  | .groupFilter gfs => gfs.tree
  | .selector ss => ss.tree

def AggregatorStage.tree (as : AggregatorStage) : Tree :=
  .stage (.aggregator as.body) (as.succ.tree AgStageSucc.tree)

def WiStageSucc.tree : WiStageSucc → Tree
  | .aggregator as => as.tree
  | .groupFilter gfs => gfs.tree
  | .selector ss => ss.tree

def WindowStage.tree (ws : WindowStage) : Tree :=
  .stage (.window ws.body) (ws.succ.tree WiStageSucc.tree)

def GrStageSucc.tree : GrStageSucc → Tree
  | .window ws => ws.tree
  | .aggregator as => as.tree
  | .groupFilter gfs => gfs.tree
  | .selector ss => ss.tree

def GrouperStage.tree (gs : GrouperStage) : Tree :=
  .stage (.grouper gs.body) (gs.succ.tree GrStageSucc.tree)

def FiStageSucc.tree : FiStageSucc → Tree
  | .grouper gs => gs.tree
  | .window ws => ws.tree
  | .aggregator as => as.tree
  | .selector ss => ss.tree

def FilterStage.tree (fs : FilterStage) : Tree :=
  .stage (.filter fs.body) (fs.succ.tree FiStageSucc.tree)

def Stage.tree : Stage → Tree
  | .filter fs => fs.tree
  | .grouper gs => gs.tree
  | .window ws => ws.tree
  | .aggregator as => as.tree
  | .selector ss => ss.tree

mutual

def MainBranch.name : MainBranch → Identifier
  | .mk name _ => name

def MainBranch.tree : MainBranch → Tree
  | .mk _ mbm => mbm.tree

def MainBranchBody.tree : MainBranchBody → Tree
  | .stage stg => stg.tree
  | .branches mbv => .branches .nested mbv.items

def MainBranchVec.items : MainBranchVec → Branches
  | .nil => .nil
  | .cons first rest => .cons first.name first.tree rest.items

end

/-- The tree of a rule file. -/
def MainBranches.tree (ast : MainBranches) : Tree :=
  .branches .main (.cons ast.first.name ast.first.tree ast.rest.items)

/-! ### Visiting a tree -/

namespace Visitor

variable {σ : Type} (v : Visitor σ)

/-- The method for a stage that has a successor. -/
def innerStage (st : InnerStage) (succ : Method σ) : Method σ :=
  match st with
  | .filter body => v.filterStage body succ
  | .grouper type => v.grouperStage type (v.grouperType type) succ
  | .window body => v.windowStage body succ
  | .aggregator body => v.aggregatorStage body (v.aggregatorBody body) succ
  | .groupFilter body => v.groupFilterStage body succ

/-- The method for one branch of a list. -/
def branchItem (level : BranchLevel) (name : Identifier) (visit : Method σ) : Method σ :=
  match level with
  | .main => v.mainBranch name visit
  | .nested => v.mainBranch name visit
  | .after => visit

/-- The method for a list of branches. -/
def siblings : BranchLevel → List (Identifier × Method σ) → Method σ
  | .nested, items => v.mainBranchVec items
  | .main, first :: rest => v.mainBranches first rest
  | .after, first :: rest => v.branchAfterS first rest
  | .main, [] => Action.skip
  | .after, [] => Action.skip

mutual

def tree : Tree → Method σ
  | .selector body => v.selectorStage body (v.selectorBody body)
  | .stage st next => v.innerStage st (tree next)
  | .branches level items => v.siblings level (branches level items)

def branches (level : BranchLevel) : Branches → List (Identifier × Method σ)
  | .nil => []
  | .cons name next rest => (name, v.branchItem level name (tree next)) :: branches level rest

end

section Agreement

variable {τ : Type} {visit : τ → Method σ} {forget : τ → Tree}

theorem branchAfter_eq_tree (agree : ∀ succ, visit succ = v.tree (forget succ))
    (branch : BranchAfter τ) : branchAfter visit branch = v.tree (branch.tree forget) := by
  induction branch with
  | stage name succ => simpa [branchAfter, BranchAfter.tree] using agree succ
  | branch name inner ih => simpa [branchAfter, BranchAfter.tree] using ih

theorem namedBranches_eq_tree (agree : ∀ succ, visit succ = v.tree (forget succ))
    (items : List (BranchAfter τ)) :
    items.map (namedBranch visit) = v.branches .after (branchesOf forget items) := by
  induction items with
  | nil => simp [branchesOf, branches]
  | cons branch rest ih =>
      simp [branchesOf, branches, branchItem, namedBranch, ih, branchAfter_eq_tree v agree]

theorem successor_eq_tree (agree : ∀ succ, visit succ = v.tree (forget succ))
    (succ : Successor τ) : v.successor visit succ = v.tree (succ.tree forget) := by
  cases succ with
  | stage succ => simpa [successor, Successor.tree] using agree succ
  | branches items =>
      have heads := namedBranches_eq_tree v agree (items.first :: items.rest)
      rw [List.map_cons] at heads
      simp [successor, Successor.tree, tree, ← heads, siblings]

end Agreement

theorem visitSelectorStage_eq_tree (ss : SelectorStage) :
    v.visitSelectorStage ss = v.tree ss.tree := by
  simp [visitSelectorStage, SelectorStage.tree, tree]

theorem visitGroupFilterStage_eq_tree (gfs : GroupFilterStage) :
    v.visitGroupFilterStage gfs = v.tree gfs.tree := by
  simp [visitGroupFilterStage, GroupFilterStage.tree, tree, innerStage,
    successor_eq_tree v v.visitSelectorStage_eq_tree]

theorem agStageSucc_eq_tree (succ : AgStageSucc) : v.agStageSucc succ = v.tree succ.tree := by
  cases succ with
  | groupFilter gfs => exact v.visitGroupFilterStage_eq_tree gfs
  | selector ss => exact v.visitSelectorStage_eq_tree ss

theorem visitAggregatorStage_eq_tree (as : AggregatorStage) :
    v.visitAggregatorStage as = v.tree as.tree := by
  simp [visitAggregatorStage, AggregatorStage.tree, tree, innerStage,
    successor_eq_tree v v.agStageSucc_eq_tree]

theorem wiStageSucc_eq_tree (succ : WiStageSucc) : v.wiStageSucc succ = v.tree succ.tree := by
  cases succ with
  | aggregator as => exact v.visitAggregatorStage_eq_tree as
  | groupFilter gfs => exact v.visitGroupFilterStage_eq_tree gfs
  | selector ss => exact v.visitSelectorStage_eq_tree ss

theorem visitWindowStage_eq_tree (ws : WindowStage) :
    v.visitWindowStage ws = v.tree ws.tree := by
  simp [visitWindowStage, WindowStage.tree, tree, innerStage,
    successor_eq_tree v v.wiStageSucc_eq_tree]

theorem grStageSucc_eq_tree (succ : GrStageSucc) : v.grStageSucc succ = v.tree succ.tree := by
  cases succ with
  | window ws => exact v.visitWindowStage_eq_tree ws
  | aggregator as => exact v.visitAggregatorStage_eq_tree as
  | groupFilter gfs => exact v.visitGroupFilterStage_eq_tree gfs
  | selector ss => exact v.visitSelectorStage_eq_tree ss

theorem visitGrouperStage_eq_tree (gs : GrouperStage) :
    v.visitGrouperStage gs = v.tree gs.tree := by
  simp [visitGrouperStage, GrouperStage.tree, tree, innerStage,
    successor_eq_tree v v.grStageSucc_eq_tree]

theorem fiStageSucc_eq_tree (succ : FiStageSucc) : v.fiStageSucc succ = v.tree succ.tree := by
  cases succ with
  | grouper gs => exact v.visitGrouperStage_eq_tree gs
  | window ws => exact v.visitWindowStage_eq_tree ws
  | aggregator as => exact v.visitAggregatorStage_eq_tree as
  | selector ss => exact v.visitSelectorStage_eq_tree ss

theorem visitFilterStage_eq_tree (fs : FilterStage) :
    v.visitFilterStage fs = v.tree fs.tree := by
  simp [visitFilterStage, FilterStage.tree, tree, innerStage,
    successor_eq_tree v v.fiStageSucc_eq_tree]

theorem stage_eq_tree (stg : Stage) : v.stage stg = v.tree stg.tree := by
  cases stg with
  | filter fs => exact v.visitFilterStage_eq_tree fs
  | grouper gs => exact v.visitGrouperStage_eq_tree gs
  | window ws => exact v.visitWindowStage_eq_tree ws
  | aggregator as => exact v.visitAggregatorStage_eq_tree as
  | selector ss => exact v.visitSelectorStage_eq_tree ss

mutual

theorem visitMainBranch_eq_tree : (mb : MainBranch) →
    v.visitMainBranch mb = (mb.name, v.mainBranch mb.name (v.tree mb.tree))
  | .mk name mbm => by
      simp [visitMainBranch, MainBranch.name, MainBranch.tree, visitMainBranchBody_eq_tree mbm]

theorem visitMainBranchBody_eq_tree : (mbm : MainBranchBody) →
    v.visitMainBranchBody mbm = v.tree mbm.tree
  | .stage stg => by simp [visitMainBranchBody, MainBranchBody.tree, v.stage_eq_tree stg]
  | .branches mbv => by
      simp [visitMainBranchBody, MainBranchBody.tree, tree, siblings,
        visitMainBranchVec_eq_tree .nested (Or.inr rfl) mbv]

theorem visitMainBranchVec_eq_tree (level : BranchLevel)
    (isMain : level = .main ∨ level = .nested) : (mbv : MainBranchVec) →
    v.visitMainBranchVec mbv = v.branches level mbv.items
  | .nil => by simp [visitMainBranchVec, MainBranchVec.items, branches]
  | .cons first rest => by
      simp only [visitMainBranchVec, MainBranchVec.items, branches,
        visitMainBranch_eq_tree first, visitMainBranchVec_eq_tree level isMain rest]
      rcases isMain with rfl | rfl <;> rfl

end

/-- Visiting a rule file is visiting its tree. -/
theorem visit_eq_tree (ast : MainBranches) : v.visit ast = v.tree ast.tree := by
  simp [visit, MainBranches.tree, tree, branches, siblings, branchItem,
    v.visitMainBranch_eq_tree, v.visitMainBranchVec_eq_tree .main (Or.inl rfl)]

end Visitor

end Policer.Parsing
