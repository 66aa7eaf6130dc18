import Policer.Parsing.Tree
import Mathlib.Data.List.Infix

/-!
# Stages in their context

`Tree.occurrences` lists the stages of a tree in textual order, each with the
`Context` above it: the branch names on the way from the root, the filter
bodies, the grouper, the window and the aggregator on the path. It is the
vocabulary in which the visitors' results are stated; nothing in the source
computes it. `Tree.occurrences_pairwise` says that sibling branches with
distinct names tell stages of one kind apart by their path.
-/

namespace Policer.Parsing

/-- Any stage. -/
inductive Node where
  | inner (st : InnerStage)
  | selector (body : SelectorBody)

/-- The stage of a branch, unless it is a selector. -/
def Node.inner? : Node → Option InnerStage
  | .inner st => some st
  | .selector _ => none

/-- Position of a stage kind in the order the grammar prescribes. -/
def InnerStage.rank : InnerStage → Nat
  | .filter _ => 1
  | .grouper _ => 2
  | .window _ => 3
  | .aggregator _ => 4
  | .groupFilter _ => 5

theorem InnerStage.rank_lt (st : InnerStage) : st.rank < 6 := by
  cases st <;> simp [InnerStage.rank]

def Node.rank : Node → Nat
  | .inner st => st.rank
  | .selector _ => 6

@[simp] theorem Node.rank_inner (st : InnerStage) : (Node.inner st).rank = st.rank := rfl

@[simp] theorem Node.rank_selector (body : SelectorBody) : (Node.selector body).rank = 6 := rfl

/-- What lies between the root and a stage. -/
structure Context where
  path : List Identifier
  filters : List Str
  grouper : Option GrouperType
  window : Option WindowBody
  /-- The aggregator above with the path it stands at. -/
  aggregator : Option (List Identifier × AggregatorBody)

namespace Context

/-- The context of a rule file. -/
def root : Context := ⟨[], [], none, none, none⟩

/-- The context below a branch. -/
def push (ctx : Context) (name : Identifier) : Context := { ctx with path := ctx.path ++ [name] }

/-- The context below a stage. -/
def enter (ctx : Context) : InnerStage → Context
  | .filter body => { ctx with filters := ctx.filters ++ [body] }
  | .grouper type => { ctx with grouper := some type }
  | .window body => { ctx with window := some body }
  | .aggregator body => { ctx with aggregator := some (ctx.path, body) }
  | .groupFilter body => { ctx with filters := ctx.filters ++ [body] }

/-- The keys of the grouper above; none when there is no grouper. -/
def keys (ctx : Context) : List Unirec := ctx.grouper.elim [] GrouperType.all

@[simp] theorem path_root : root.path = [] := rfl

@[simp] theorem path_push (ctx : Context) (name : Identifier) :
    (ctx.push name).path = ctx.path ++ [name] := rfl

@[simp] theorem path_enter (ctx : Context) (st : InnerStage) : (ctx.enter st).path = ctx.path := by
  cases st <;> rfl

@[simp] theorem grouper_push (ctx : Context) (name : Identifier) :
    (ctx.push name).grouper = ctx.grouper := rfl

@[simp] theorem window_push (ctx : Context) (name : Identifier) :
    (ctx.push name).window = ctx.window := rfl

@[simp] theorem aggregator_push (ctx : Context) (name : Identifier) :
    (ctx.push name).aggregator = ctx.aggregator := rfl

@[simp] theorem filters_push (ctx : Context) (name : Identifier) :
    (ctx.push name).filters = ctx.filters := rfl

/-- No stage above has rank `lo` or more than `lo` allows. -/
structure Fits (ctx : Context) (lo : Nat) : Prop where
  grouper : lo < 2 → ctx.grouper = none
  window : lo < 3 → ctx.window = none
  aggregator : lo < 4 → ctx.aggregator = none

theorem root_fits : root.Fits 0 := ⟨fun _ => rfl, fun _ => rfl, fun _ => rfl⟩

theorem Fits.push {ctx : Context} {lo : Nat} (fits : ctx.Fits lo) (name : Identifier) :
    (ctx.push name).Fits lo := ⟨fits.grouper, fits.window, fits.aggregator⟩

/-- Below a stage of higher rank only that stage has been added. -/
theorem Fits.enter {ctx : Context} {lo : Nat} (fits : ctx.Fits lo) {st : InnerStage}
    (above : lo < st.rank) : (ctx.enter st).Fits st.rank := by
  cases st <;> constructor <;> intro low <;> simp only [InnerStage.rank] at above low <;>
    first
      | omega
      | exact fits.grouper (by omega)
      | exact fits.window (by omega)
      | exact fits.aggregator (by omega)

end Context

mutual

/-- Stages in textual order with the context above each. -/
def Tree.occurrences (ctx : Context) : Tree → List (Context × Node)
  | .selector body => [(ctx, .selector body)]
  | .stage st next => (ctx, .inner st) :: next.occurrences (ctx.enter st)
  | .branches _ items => items.occurrences ctx

def Branches.occurrences (ctx : Context) : Branches → List (Context × Node)
  | .nil => []
  | .cons name tree rest => tree.occurrences (ctx.push name) ++ rest.occurrences ctx

end

mutual

/-- Every stage has a higher rank than the stages above it. -/
def Tree.Ordered (lo : Nat) : Tree → Prop
  | .selector _ => True
  | .stage st next => lo < st.rank ∧ next.Ordered st.rank
  | .branches _ items => items.Ordered lo

def Branches.Ordered (lo : Nat) : Branches → Prop
  | .nil => True
  | .cons _ tree rest => tree.Ordered lo ∧ rest.Ordered lo

end

mutual

/-- Sibling branches have distinct names at every nesting level. -/
def Tree.SiblingsDistinct : Tree → Prop
  | .selector _ => True
  | .stage _ next => next.SiblingsDistinct
  | .branches _ items => items.names.Nodup ∧ items.SiblingsDistinct

def Branches.SiblingsDistinct : Branches → Prop
  | .nil => True
  | .cons _ tree rest => tree.SiblingsDistinct ∧ rest.SiblingsDistinct

end

/-- The stages of a rule file in textual order. -/
def MainBranches.occurrences (ast : MainBranches) : List (Context × Node) :=
  ast.tree.occurrences .root

/-- Sibling branches of a rule file have distinct names at every nesting level. -/
def MainBranches.SiblingsDistinct (ast : MainBranches) : Prop := ast.tree.SiblingsDistinct

/-! ### The grammar orders the stages -/

section Ordered

variable {τ : Type} {forget : τ → Tree} {lo : Nat}

theorem BranchAfter.tree_ordered (ordered : ∀ succ, (forget succ).Ordered lo)
    (branch : BranchAfter τ) : (branch.tree forget).Ordered lo := by
  induction branch with
  | stage name succ => exact ordered succ
  | branch name inner ih => exact ih

theorem branchesOf_ordered (ordered : ∀ succ, (forget succ).Ordered lo)
    (items : List (BranchAfter τ)) : (branchesOf forget items).Ordered lo := by
  induction items with
  | nil => exact trivial
  | cons branch rest ih => exact ⟨branch.tree_ordered ordered, ih⟩

theorem Successor.tree_ordered (ordered : ∀ succ, (forget succ).Ordered lo)
    (succ : Successor τ) : (succ.tree forget).Ordered lo := by
  cases succ with
  | stage succ => exact ordered succ
  | branches items => exact branchesOf_ordered ordered (items.first :: items.rest)

end Ordered

theorem SelectorStage.tree_ordered (lo : Nat) (ss : SelectorStage) : ss.tree.Ordered lo := trivial

theorem GroupFilterStage.tree_ordered {lo : Nat} (below : lo < 5) (gfs : GroupFilterStage) :
    gfs.tree.Ordered lo :=
  ⟨below, Successor.tree_ordered (SelectorStage.tree_ordered 5) gfs.succ⟩

theorem AgStageSucc.tree_ordered (succ : AgStageSucc) : succ.tree.Ordered 4 := by
  cases succ with
  | groupFilter gfs => exact gfs.tree_ordered (by omega)
  | selector ss => exact ss.tree_ordered 4

theorem AggregatorStage.tree_ordered {lo : Nat} (below : lo < 4) (as : AggregatorStage) :
    as.tree.Ordered lo :=
  ⟨below, Successor.tree_ordered AgStageSucc.tree_ordered as.succ⟩

theorem WiStageSucc.tree_ordered (succ : WiStageSucc) : succ.tree.Ordered 3 := by
  cases succ with
  | aggregator as => exact as.tree_ordered (by omega)
  | groupFilter gfs => exact gfs.tree_ordered (by omega)
  | selector ss => exact ss.tree_ordered 3

theorem WindowStage.tree_ordered {lo : Nat} (below : lo < 3) (ws : WindowStage) :
    ws.tree.Ordered lo :=
  ⟨below, Successor.tree_ordered WiStageSucc.tree_ordered ws.succ⟩

theorem GrStageSucc.tree_ordered (succ : GrStageSucc) : succ.tree.Ordered 2 := by
  cases succ with
  | window ws => exact ws.tree_ordered (by omega)
  | aggregator as => exact as.tree_ordered (by omega)
  | groupFilter gfs => exact gfs.tree_ordered (by omega)
  | selector ss => exact ss.tree_ordered 2

theorem GrouperStage.tree_ordered {lo : Nat} (below : lo < 2) (gs : GrouperStage) :
    gs.tree.Ordered lo :=
  ⟨below, Successor.tree_ordered GrStageSucc.tree_ordered gs.succ⟩

theorem FiStageSucc.tree_ordered (succ : FiStageSucc) : succ.tree.Ordered 1 := by
  cases succ with
  | grouper gs => exact gs.tree_ordered (by omega)
  | window ws => exact ws.tree_ordered (by omega)
  | aggregator as => exact as.tree_ordered (by omega)
  | selector ss => exact ss.tree_ordered 1

theorem Stage.tree_ordered (stg : Stage) : stg.tree.Ordered 0 := by
  cases stg with
  | filter fs => exact ⟨Nat.zero_lt_one, Successor.tree_ordered FiStageSucc.tree_ordered fs.succ⟩
  | grouper gs => exact gs.tree_ordered (by omega)
  | window ws => exact ws.tree_ordered (by omega)
  | aggregator as => exact as.tree_ordered (by omega)
  | selector ss => exact ss.tree_ordered 0

mutual

theorem MainBranch.tree_ordered : (mb : MainBranch) → mb.tree.Ordered 0
  | .mk _ mbm => mbm.tree_ordered

theorem MainBranchBody.tree_ordered : (mbm : MainBranchBody) → mbm.tree.Ordered 0
  | .stage stg => stg.tree_ordered
  | .branches mbv => mbv.items_ordered

theorem MainBranchVec.items_ordered : (mbv : MainBranchVec) → mbv.items.Ordered 0
  | .nil => trivial
  | .cons first rest => ⟨first.tree_ordered, rest.items_ordered⟩

end

/-- A rule file keeps the stage order on every path. -/
theorem MainBranches.tree_ordered (ast : MainBranches) : ast.tree.Ordered 0 :=
  ⟨ast.first.tree_ordered, ast.rest.items_ordered⟩

/-! ### Facts about every occurrence -/

mutual

/-- Occurrences lie below the context's path. -/
theorem Tree.path_prefix {ctx : Context} {occ : Context × Node} :
    (t : Tree) → occ ∈ t.occurrences ctx → ctx.path <+: occ.1.path
  | .selector _, member => by
      obtain rfl := List.mem_singleton.mp member
      exact List.prefix_refl _
  | .stage st next, member => by
      rcases List.mem_cons.mp member with rfl | below
      · exact List.prefix_refl _
      · simpa using next.path_prefix below
  | .branches _ items, member => by
      obtain ⟨name, _, extends_⟩ := items.path_prefix member
      exact (List.prefix_append _ _).trans extends_

theorem Branches.path_prefix {ctx : Context} {occ : Context × Node} :
    (items : Branches) → occ ∈ items.occurrences ctx →
      ∃ name ∈ items.names, (ctx.path ++ [name]) <+: occ.1.path
  | .cons name tree rest, member => by
      rcases List.mem_append.mp member with here | later
      · exact ⟨name, List.mem_cons_self, tree.path_prefix here⟩
      · obtain ⟨other, named, extends_⟩ := rest.path_prefix later
        exact ⟨other, List.mem_cons_of_mem _ named, extends_⟩

end

mutual

/-- Occurrences have a higher rank than everything above the tree. -/
theorem Tree.rank_gt {ctx : Context} {lo : Nat} {occ : Context × Node} :
    (t : Tree) → t.Ordered lo → lo < 6 → occ ∈ t.occurrences ctx → lo < occ.2.rank
  | .selector _, _, small, member => by
      obtain rfl := List.mem_singleton.mp member
      exact small
  | .stage st next, ordered, _, member => by
      rcases List.mem_cons.mp member with rfl | below
      · exact ordered.1
      · exact ordered.1.trans (next.rank_gt ordered.2 st.rank_lt below)
  | .branches _ items, ordered, small, member => items.rank_gt ordered small member

theorem Branches.rank_gt {ctx : Context} {lo : Nat} {occ : Context × Node} :
    (items : Branches) → items.Ordered lo → lo < 6 → occ ∈ items.occurrences ctx →
      lo < occ.2.rank
  | .cons _ tree rest, ordered, small, member => by
      rcases List.mem_append.mp member with here | later
      · exact tree.rank_gt ordered.1 small here
      · exact rest.rank_gt ordered.2 small later

end

/-- Two stages of one kind stand at different paths. -/
def ApartByPath (left right : Context × Node) : Prop :=
  left.2.rank = right.2.rank → left.1.path ≠ right.1.path

/-- Paths that continue different sibling names differ. -/
theorem path_ne_of_siblings {above left right : List Identifier} {first second : Identifier}
    (different : first ≠ second) (leftBelow : (above ++ [first]) <+: left)
    (rightBelow : (above ++ [second]) <+: right) : left ≠ right := by
  rintro rfl
  have same := (List.prefix_of_prefix_length_le leftBelow rightBelow (by simp)).eq_of_length
    (by simp)
  simp only [List.append_cancel_left_eq, List.cons.injEq, and_true] at same
  exact different same

mutual

/-- Distinct sibling names tell stages of one kind apart. -/
theorem Tree.occurrences_pairwise {ctx : Context} {lo : Nat} :
    (t : Tree) → t.Ordered lo → t.SiblingsDistinct →
      (t.occurrences ctx).Pairwise ApartByPath
  | .selector _, _, _ => List.pairwise_singleton _ _
  | .stage st next, ordered, distinct => by
      refine List.pairwise_cons.mpr ⟨fun occ below sameRank => ?_,
        next.occurrences_pairwise ordered.2 distinct⟩
      have higher := next.rank_gt ordered.2 st.rank_lt below
      rw [← sameRank, Node.rank_inner] at higher
      exact absurd higher (Nat.lt_irrefl _)
  | .branches _ items, ordered, distinct =>
      items.occurrences_pairwise ordered distinct.1 distinct.2

theorem Branches.occurrences_pairwise {ctx : Context} {lo : Nat} :
    (items : Branches) → items.Ordered lo → items.names.Nodup → items.SiblingsDistinct →
      (items.occurrences ctx).Pairwise ApartByPath
  | .nil, _, _, _ => List.Pairwise.nil
  | .cons name tree rest, ordered, names, distinct => by
      have fresh := (List.nodup_cons.mp names)
      refine List.pairwise_append.mpr ⟨tree.occurrences_pairwise ordered.1 distinct.1,
        rest.occurrences_pairwise ordered.2 fresh.2 distinct.2, ?_⟩
      intro left here right later _
      obtain ⟨other, named, rightBelow⟩ := rest.path_prefix later
      have different : name ≠ other := by
        rintro rfl
        exact fresh.1 named
      exact path_ne_of_siblings different (tree.path_prefix here) rightBelow

end

/-! ### The aggregator above has been met -/

/-- The aggregator above `occ` is the one above the tree or one of `before`. -/
def AggregatorMet (ctx : Context) (before : List (Context × Node)) (occ : Context × Node) : Prop :=
  occ.1.aggregator = ctx.aggregator ∨
    ∃ above ∈ before, ∃ body, above.2 = .inner (.aggregator body) ∧
      occ.1.aggregator = some (above.1.path, body)

theorem AggregatorMet.mono {ctx : Context} {before more : List (Context × Node)}
    {occ : Context × Node} (met : AggregatorMet ctx before occ) (subset : before ⊆ more) :
    AggregatorMet ctx more occ := by
  rcases met with outside | ⟨above, member, found⟩
  · exact Or.inl outside
  · exact Or.inr ⟨above, subset member, found⟩

mutual

theorem Tree.aggregatorMet {ctx : Context} {before after : List (Context × Node)}
    {occ : Context × Node} : (t : Tree) → t.occurrences ctx = before ++ occ :: after →
      AggregatorMet ctx before occ
  | .selector _, split => by
      cases before with
      | nil =>
          obtain rfl := (List.cons.inj split).1
          exact Or.inl rfl
      | cons head before => simp [Tree.occurrences] at split
  | .stage st next, split => by
      cases before with
      | nil =>
          obtain rfl := (List.cons.inj split).1
          exact Or.inl rfl
      | cons head before =>
          obtain ⟨rfl, below⟩ := List.cons.inj split
          rcases next.aggregatorMet below with outside | ⟨above, member, found⟩
          · cases st with
            | aggregator body =>
                exact Or.inr ⟨_, List.mem_cons_self, body, rfl, outside⟩
            | _ => exact Or.inl outside
          · exact Or.inr ⟨above, List.mem_cons_of_mem _ member, found⟩
  | .branches _ items, split => items.aggregatorMet split

theorem Branches.aggregatorMet {ctx : Context} {before after : List (Context × Node)}
    {occ : Context × Node} : (items : Branches) →
      items.occurrences ctx = before ++ occ :: after → AggregatorMet ctx before occ
  | .nil, split => by simp [Branches.occurrences] at split
  | .cons name tree rest, split => by
      rcases List.append_eq_append_iff.mp split with ⟨gap, rfl, later⟩ | ⟨gap, here, later⟩
      · exact (rest.aggregatorMet later).mono (List.subset_append_right _ _)
      · cases gap with
        | nil =>
            have later : rest.occurrences ctx = [] ++ occ :: after := later.symm
            exact (rest.aggregatorMet later).mono (List.nil_subset _)
        | cons head gap =>
            obtain ⟨rfl, _⟩ := List.cons.inj later
            exact @Tree.aggregatorMet (ctx.push name) _ _ _ tree here

end

mutual

/-- Below an aggregator nothing adds a grouper, a window or another aggregator. -/
theorem Tree.below_aggregator {ctx : Context} {lo : Nat} {occ : Context × Node} :
    (t : Tree) → t.Ordered lo → 4 ≤ lo → occ ∈ t.occurrences ctx →
      occ.1.grouper = ctx.grouper ∧ occ.1.window = ctx.window ∧ occ.1.aggregator = ctx.aggregator
  | .selector _, _, _, member => by
      obtain rfl := List.mem_singleton.mp member
      exact ⟨rfl, rfl, rfl⟩
  | .stage st next, ordered, low, member => by
      rcases List.mem_cons.mp member with rfl | below
      · exact ⟨rfl, rfl, rfl⟩
      · have high := low.trans (Nat.le_of_lt ordered.1)
        have same := next.below_aggregator ordered.2 high below
        have last : 4 < st.rank := Nat.lt_of_le_of_lt low ordered.1
        cases st with
        | groupFilter body => exact same
        | _ => exact absurd last (by simp [InnerStage.rank])
  | .branches _ items, ordered, low, member => items.below_aggregator ordered low member

theorem Branches.below_aggregator {ctx : Context} {lo : Nat} {occ : Context × Node} :
    (items : Branches) → items.Ordered lo → 4 ≤ lo → occ ∈ items.occurrences ctx →
      occ.1.grouper = ctx.grouper ∧ occ.1.window = ctx.window ∧ occ.1.aggregator = ctx.aggregator
  | .cons name tree rest, ordered, low, member => by
      rcases List.mem_append.mp member with here | later
      · have same := tree.below_aggregator ordered.1 low here
        exact same
      · exact rest.below_aggregator ordered.2 low later

end

/-- The aggregator above `occ`, if it is not above the tree, stands in `stages` below the same
grouper and window. -/
def AggregatorIn (ctx : Context) (stages : List (Context × Node)) (occ : Context × Node) : Prop :=
  occ.1.aggregator = ctx.aggregator ∨
    ∃ above body, (above, .inner (.aggregator body)) ∈ stages ∧
      occ.1.aggregator = some (above.path, body) ∧
      occ.1.grouper = above.grouper ∧ occ.1.window = above.window

theorem AggregatorIn.mono {ctx : Context} {stages more : List (Context × Node)}
    {occ : Context × Node} (found : AggregatorIn ctx stages occ) (subset : stages ⊆ more) :
    AggregatorIn ctx more occ := by
  rcases found with outside | ⟨above, body, member, same⟩
  · exact Or.inl outside
  · exact Or.inr ⟨above, body, subset member, same⟩

mutual

theorem Tree.aggregatorIn {ctx : Context} {lo : Nat} {occ : Context × Node} :
    (t : Tree) → t.Ordered lo → occ ∈ t.occurrences ctx → AggregatorIn ctx (t.occurrences ctx) occ
  | .selector _, _, member => by
      obtain rfl := List.mem_singleton.mp member
      exact Or.inl rfl
  | .stage st next, ordered, member => by
      rcases List.mem_cons.mp member with rfl | below
      · exact Or.inl rfl
      · have found := next.aggregatorIn ordered.2 below
        cases st with
        | aggregator body =>
            obtain ⟨grouper, window, aggregator⟩ :=
              next.below_aggregator ordered.2 (Nat.le_refl 4) below
            exact Or.inr ⟨ctx, body, List.mem_cons_self, aggregator, grouper, window⟩
        | _ => exact found.mono (List.subset_cons_self ..)
  | .branches _ items, ordered, member => items.aggregatorIn ordered member

theorem Branches.aggregatorIn {ctx : Context} {lo : Nat} {occ : Context × Node} :
    (items : Branches) → items.Ordered lo → occ ∈ items.occurrences ctx →
      AggregatorIn ctx (items.occurrences ctx) occ
  | .cons name tree rest, ordered, member => by
      rcases List.mem_append.mp member with here | later
      · have found := tree.aggregatorIn ordered.1 here
        exact found.mono (List.subset_append_left ..)
      · exact (rest.aggregatorIn ordered.2 later).mono (List.subset_append_right ..)

end

/-- The aggregator above a stage of a rule file stands in it, below the same grouper and window. -/
theorem MainBranches.aggregator_above {ast : MainBranches} {ctx : Context} {node : Node}
    (member : (ctx, node) ∈ ast.occurrences) {path : List Identifier} {body : AggregatorBody}
    (above : ctx.aggregator = some (path, body)) :
    ∃ place, (place, .inner (.aggregator body)) ∈ ast.occurrences ∧ place.path = path ∧
      ctx.grouper = place.grouper ∧ ctx.window = place.window := by
  rcases ast.tree.aggregatorIn ast.tree_ordered member with outside | ⟨place, other, inside, found⟩
  · exact absurd (above.symm.trans outside) (by simp [Context.root])
  · obtain ⟨same, places⟩ := found
    obtain ⟨rfl, rfl⟩ := Prod.mk.inj (Option.some.inj (above.symm.trans same))
    exact ⟨place, inside, rfl, places⟩

end Policer.Parsing
