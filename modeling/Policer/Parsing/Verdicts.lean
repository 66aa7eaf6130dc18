import Policer.Parsing.Acceptance
import Mathlib.Data.List.Sublists

/-!
# Which rule files the stage checks accept

The verdicts of `Check_seq_stages`, `Check_branch_names` and `Check_grouper` in terms of the rule
file alone. The table of sequences is the rule that a window and a group-filter need a grouper or
an aggregator. The names of nested main branches are compared by no one, and of the keys and
parameters only the first ones are.
-/

namespace Policer.Parsing

open Policer.Lib

/-! ### Sequences of stages -/

/-- Whenever a window or a group-filter occurs, a grouper or an aggregator occurs as well. -/
def Grouped (found : List StageType) : Prop :=
  .wi ∈ found ∨ .gf ∈ found → .gr ∈ found ∨ .ag ∈ found

instance (found : List StageType) : Decidable (Grouped found) :=
  inferInstanceAs (Decidable (.wi ∈ found ∨ .gf ∈ found → .gr ∈ found ∨ .ag ∈ found))

/-- The stages in front of a selector in the order of the grammar. -/
def stageOrder : List StageType := [.fi, .gr, .wi, .ag, .gf]

theorem InnerStage.drop_stageOrder (st : InnerStage) :
    stageOrder.drop (st.rank - 1) = st.stageType :: stageOrder.drop st.rank := by
  cases st <;> rfl

/-- A sequence of stages that keeps the order of the grammar and ends with a selector. -/
def InOrder (lo : Nat) (found : List StageType) : Prop :=
  ∃ inner, inner.Sublist (stageOrder.drop lo) ∧ found = inner ++ [.se]

mutual

theorem Tree.sequences_inOrder {lo : Nat} : (t : Tree) → t.Ordered lo →
    ∀ found ∈ t.sequences, InOrder lo found
  | .selector _, _, found, member => by
      obtain rfl := List.mem_singleton.mp member
      exact ⟨[], List.nil_sublist _, rfl⟩
  | .stage st next, ordered, found, member => by
      obtain ⟨later, inside, rfl⟩ := List.mem_map.mp member
      obtain ⟨inner, sub, rfl⟩ := next.sequences_inOrder ordered.2 later inside
      refine ⟨st.stageType :: inner, ?_, rfl⟩
      have here : (st.stageType :: inner).Sublist (stageOrder.drop (st.rank - 1)) := by
        rw [st.drop_stageOrder]
        exact sub.cons_cons _
      exact here.trans (List.drop_sublist_drop_left _ (Nat.le_sub_one_of_lt ordered.1))
  | .branches _ items, ordered, found, member => items.sequences_inOrder ordered found member

theorem Branches.sequences_inOrder {lo : Nat} : (items : Branches) → items.Ordered lo →
    ∀ found ∈ items.sequences, InOrder lo found
  | .nil, _, found, member => by cases member
  | .cons _ tree rest, ordered, found, member => by
      rcases List.mem_append.mp member with here | later
      · exact tree.sequences_inOrder ordered.1 found here
      · exact rest.sequences_inOrder ordered.2 found later

end

/-- The table of sequences has no missing and no extra row. -/
theorem mem_allowedComb_iff {found : List StageType} (inOrder : InOrder 0 found) :
    found ∈ CheckSeqStages.allowedComb ↔ Grouped found := by
  obtain ⟨inner, sub, rfl⟩ := inOrder
  have table : ∀ inner ∈ stageOrder.sublists,
      (inner ++ [.se] ∈ CheckSeqStages.allowedComb ↔ Grouped (inner ++ [.se])) := by
    decide +kernel
  exact table inner (List.mem_sublists.mpr sub)

/-- `Check_seq_stages` accepts a rule file exactly when on every path to a selector a window or a
group-filter comes with a grouper or an aggregator. -/
theorem checkSeqStages_iff (ast : MainBranches) :
    (∃ final, checkSeqStages.visit ast ⟨[], []⟩ = .ok final) ↔
      ∀ found ∈ ast.tree.sequences, Grouped found := by
  rw [Visitor.visit_eq_tree, (CheckSeqStages.demands_tree ast.tree).passes]
  refine forall₂_congr fun found member => ?_
  exact mem_allowedComb_iff (ast.tree.sequences_inOrder ast.tree_ordered found member)

/-! ### Names of sibling branches -/

mutual

/-- Siblings have distinct names at the levels `check_branches` walks over: the main branches and
the branches after a stage. -/
def Tree.CheckedDistinct : Tree → Prop
  | .selector _ => True
  | .stage _ next => next.CheckedDistinct
  | .branches level items => (level ≠ .nested → items.names.Nodup) ∧ items.CheckedDistinct

def Branches.CheckedDistinct : Branches → Prop
  | .nil => True
  | .cons _ tree rest => tree.CheckedDistinct ∧ rest.CheckedDistinct

end

mutual

/-- Siblings have distinct names in every list of main branches inside a main branch. -/
def Tree.NestedDistinct : Tree → Prop
  | .selector _ => True
  | .stage _ next => next.NestedDistinct
  | .branches level items => (level = .nested → items.names.Nodup) ∧ items.NestedDistinct

def Branches.NestedDistinct : Branches → Prop
  | .nil => True
  | .cons _ tree rest => tree.NestedDistinct ∧ rest.NestedDistinct

end

mutual

theorem Tree.siblingsDistinct_iff : (t : Tree) →
    (t.SiblingsDistinct ↔ t.CheckedDistinct ∧ t.NestedDistinct)
  | .selector _ => (iff_of_eq (and_true True)).symm
  | .stage _ next => next.siblingsDistinct_iff
  | .branches level items => by
      have below := items.siblingsDistinct_iff
      have split : items.names.Nodup ↔
          (level ≠ .nested → items.names.Nodup) ∧ (level = .nested → items.names.Nodup) := by
        by_cases nested : level = .nested <;> simp [nested]
      exact (and_congr split below).trans and_and_and_comm

theorem Branches.siblingsDistinct_iff : (items : Branches) →
    (items.SiblingsDistinct ↔ items.CheckedDistinct ∧ items.NestedDistinct)
  | .nil => (iff_of_eq (and_true True)).symm
  | .cons _ tree rest => by
      have here := tree.siblingsDistinct_iff
      have later := rest.siblingsDistinct_iff
      simp only [Branches.SiblingsDistinct, Branches.CheckedDistinct, Branches.NestedDistinct, here,
        later]
      exact and_and_and_comm

end

mutual

/-- A visit meets no repeated name exactly when the checked siblings are distinct. -/
theorem Tree.noRepeats_iff {ctx : Context} : (t : Tree) →
    (NoRepeats (t.events (fun _ => true) ctx) ↔ t.CheckedDistinct)
  | .selector _ => by simp [Tree.events, NoRepeats, Event.node?, Tree.CheckedDistinct]
  | .stage st next => by
      have below := @Tree.noRepeats_iff (ctx.enter st) next
      rw [Tree.CheckedDistinct, ← below]
      simp [Tree.events, NoRepeats, Event.node?]
  | .branches level items => by
      have below := @Branches.noRepeats_iff ctx level [] items
      simpa [Tree.events, Tree.CheckedDistinct, Branches.names] using below

theorem Branches.noRepeats_iff {ctx : Context} {level : BranchLevel} {seen : List Identifier} :
    (items : Branches) → (NoRepeats (items.events (fun _ => true) ctx level seen) ↔
      (level ≠ .nested → items.names.Nodup ∧ ∀ name ∈ items.names, name ∉ seen) ∧
        items.CheckedDistinct)
  | .nil => by
      simp [Branches.events, NoRepeats, Branches.CheckedDistinct, Branches.names]
  | .cons name tree rest => by
      have here := @Tree.noRepeats_iff (ctx.push name) tree
      have later := @Branches.noRepeats_iff ctx level (seen ++ [name]) rest
      have head : NoRepeats (if level ≠ .nested ∧ name ∈ seen then [.repeated ctx name] else []) ↔
          (level ≠ .nested → name ∉ seen) := by
        by_cases repeated : level ≠ .nested ∧ name ∈ seen
        · simp [repeated, NoRepeats, Event.node?]
        · rw [if_neg repeated]
          simpa [NoRepeats] using repeated
      rw [Branches.events, NoRepeats.append, NoRepeats.append, head, here, later,
        Branches.names, Branches.CheckedDistinct, List.nodup_cons, List.forall_mem_cons]
      have split : (∀ other ∈ rest.names, other ∉ seen ++ [name]) ↔
          (∀ other ∈ rest.names, other ∉ seen) ∧ name ∉ rest.names := by
        simp only [List.mem_append, List.mem_singleton, not_or, forall_and]
        refine and_congr_right fun _ => ?_
        exact ⟨fun other member => other name member rfl, fun absent other member same =>
          absent (same ▸ member)⟩
      rw [split]
      constructor
      · rintro ⟨unseen, inTree, distinct, inRest⟩
        refine ⟨fun level => ?_, inTree, inRest⟩
        obtain ⟨nodup, others, absent⟩ := distinct level
        exact ⟨⟨absent, nodup⟩, unseen level, others⟩
      · rintro ⟨distinct, inTree, inRest⟩
        refine ⟨fun level => (distinct level).2.1, inTree, fun level => ?_, inRest⟩
        obtain ⟨⟨absent, nodup⟩, _, others⟩ := distinct level
        exact ⟨nodup, others, absent⟩

end

/-- `Check_branch_names` looks at the checked siblings only. -/
theorem checkBranchNames_iff (ast : MainBranches) :
    (∃ final, checkBranchNames.visit ast ⟨[], ()⟩ = .ok final) ↔ ast.tree.CheckedDistinct := by
  rw [checkBranchNamesCrawl.visit_unit ⟨[], ()⟩ ⟨rfl, trivial⟩ ast, ← ast.tree.noRepeats_iff]
  refine forall₂_congr fun event _ => ?_
  cases event with
  | node ctx found => simp [checkBranchNamesCrawl, Located.step, Event.node?]
  | repeated ctx name => simp [checkBranchNamesCrawl, Located.step, Event.node?]

/-- The name under which the variables of a stage are recorded. -/
def Node.keyed? : Node → Option StageName
  | .inner (.aggregator _) => some .aggregator
  | .inner (.groupFilter _) => some .groupFilter
  | .inner _ => none
  | .selector _ => some .selector

/-- Different stages of one kind have different path keys. -/
def KeysApart (stages : List (Context × Node)) : Prop :=
  stages.Pairwise fun left right => ∀ stage, left.2.keyed? = some stage →
    right.2.keyed? = some stage → stageKey stage left.1.path ≠ stageKey stage right.1.path

theorem Node.rank_eq_of_keyed? {left right : Node} {stage : StageName}
    (first : left.keyed? = some stage) (second : right.keyed? = some stage) :
    left.rank = right.rank := by
  cases left with
  | selector body =>
      cases first
      cases right with
      | selector other => rfl
      | inner st => cases st <;> cases second
  | inner st =>
      cases right with
      | selector body =>
          cases second
          cases st <;> cases first
      | inner other => cases st <;> cases first <;> cases other <;> cases second <;> rfl

/-- Distinct siblings give different keys. -/
theorem keysApart_of_distinct {ast : MainBranches} (distinct : ast.SiblingsDistinct) :
    KeysApart ast.occurrences := by
  refine (ast.tree.occurrences_pairwise ast.tree_ordered distinct).imp ?_
  intro left right apart stage first second same
  exact apart (Node.rank_eq_of_keyed? first second) (stageKey_injective same)

/-- `Check_branch_names` accepts the files with distinct siblings, in which no two stages share a
key. -/
def NamesSettled (ast : MainBranches) : Prop :=
  ((∃ final, checkBranchNames.visit ast ⟨[], ()⟩ = .ok final) ↔ ast.SiblingsDistinct) ∧
    ((∃ final, checkBranchNames.visit ast ⟨[], ()⟩ = .ok final) → KeysApart ast.occurrences)

/-- The check is right about a file whose nested main branches repeat no name, or repeat one
beside other siblings that do. -/
theorem namesSettled_iff (ast : MainBranches) :
    NamesSettled ast ↔ (ast.tree.CheckedDistinct → ast.tree.NestedDistinct) := by
  have split := ast.tree.siblingsDistinct_iff
  rw [NamesSettled, checkBranchNames_iff]
  constructor
  · rintro ⟨accepts, _⟩ checked
    exact (split.mp (accepts.mp checked)).2
  · intro nested
    have distinct : ast.tree.CheckedDistinct ↔ ast.SiblingsDistinct :=
      ⟨fun checked => split.mpr ⟨checked, nested checked⟩, fun all => (split.mp all).1⟩
    exact ⟨distinct, fun checked => keysApart_of_distinct (distinct.mp checked)⟩

/-- `branch main { branch a { selector: BYTES; } branch a { selector: PACKETS; } }`. -/
def twiceA : MainBranches where
  first := .mk .main (.branches
    (.cons (.mk .a (.stage (.selector ⟨⟨⟨.keyword .bytes, none⟩, []⟩⟩)))
      (.cons (.mk .a (.stage (.selector ⟨⟨⟨.keyword .packets, none⟩, []⟩⟩)))
        .nil)))
  rest := .nil

/-- Both branches are called `a`, and both selectors have the key `/main/a/selector`. -/
theorem twiceA_not_settled :
    (∃ final, checkBranchNames.visit twiceA ⟨[], ()⟩ = .ok final) ∧
      ¬ twiceA.SiblingsDistinct ∧ ¬ KeysApart twiceA.occurrences ∧ ¬ NamesSettled twiceA := by
  have checked : ∃ final, checkBranchNames.visit twiceA ⟨[], ()⟩ = .ok final := ⟨_, rfl⟩
  have shared : ¬ KeysApart twiceA.occurrences := by
    intro apart
    exact (List.pairwise_cons.mp apart).1 _ List.mem_cons_self .selector rfl rfl rfl
  have repeated : ¬ twiceA.SiblingsDistinct := fun distinct =>
    shared (keysApart_of_distinct distinct)
  exact ⟨checked, repeated, shared, fun settled => shared (settled.2 checked)⟩

/-! ### Grouper keys -/

/-- No key of a grouper is a time, and no parameter of an aggregator below it is a key, as far as
`read` picks keys and parameters. -/
structure KeysLawful (read : List Unirec → List Unirec) (ast : MainBranches) : Prop where
  noTime : ∀ ctx type, (ctx, .inner (.grouper type)) ∈ ast.occurrences →
    ∀ key ∈ read type.all, key ≠ .timeFirst ∧ key ≠ .timeLast
  noKey : ∀ ctx body, (ctx, .inner (.aggregator body)) ∈ ast.occurrences →
    ∀ param ∈ read ((functionsOf body).map AggrFuncWithParamS.param), param ∉ read ctx.keys

/-- What holds of all keys and parameters holds of the first ones. -/
theorem KeysLawful.first {ast : MainBranches} (lawful : KeysLawful id ast) :
    KeysLawful (List.take 1) ast where
  noTime ctx type member key isKey :=
    lawful.noTime ctx type member key (List.mem_of_mem_take isKey)
  noKey ctx body member param isParam isKey :=
    lawful.noKey ctx body member param (List.mem_of_mem_take isParam) (List.mem_of_mem_take isKey)

namespace CheckGrouper

/-- The keywords `check_keys1` refuses. -/
theorem refused_iff (un : Unirec) :
    (stringUnirecEnum un == "COUNT".toList || stringUnirecEnum un == "TIME_FIRST".toList ||
        stringUnirecEnum un == "TIME_LAST".toList) = true ↔
      un = .timeFirst ∨ un = .timeLast := by
  cases un <;> decide

/-- A grouper passes when its first key is no time. -/
theorem step_grouper_iff {ctx : Context} {type : GrouperType} :
    step ctx (.inner (.grouper type)) () = .ok () ↔
      ∀ key ∈ type.all.take 1, key ≠ .timeFirst ∧ key ≠ .timeLast := by
  have passes : step ctx (.inner (.grouper type)) () = .ok () ↔
      (keysOf type).find? (fun item =>
        item == "COUNT".toList || item == "TIME_FIRST".toList || item == "TIME_LAST".toList) =
          none := by
    simp only [step]
    cases (keysOf type).find? _ <;> simp
  rw [passes, List.find?_eq_none, keysOf, List.forall_mem_map]
  refine forall₂_congr fun key _ => ?_
  rw [refused_iff, not_or]

/-- An aggregator passes when its first parameter is not the first key above. -/
theorem step_aggregator_iff {ctx : Context} {body : AggregatorBody} :
    step ctx (.inner (.aggregator body)) () = .ok () ↔
      ∀ param ∈ ((functionsOf body).map AggrFuncWithParamS.param).take 1,
        param ∉ ctx.keys.take 1 := by
  have passes : step ctx (.inner (.aggregator body)) () = .ok () ↔
      (paramsOf body).find? (fun item => (above ctx).keys.contains item) = none := by
    simp only [step]
    cases (paramsOf body).find? _ <;> simp
  have keys : (above ctx).keys = (ctx.keys.take 1).map stringUnirecEnum := by
    cases grouper : ctx.grouper <;> simp [above, Context.keys, grouper, keysOf]
  rw [passes, List.find?_eq_none, paramsOf, List.forall_mem_map, keys]
  refine forall₂_congr fun param _ => ?_
  rw [List.contains_iff_mem, List.mem_map_of_injective fun _ _ => stringUnirecEnum_injective]

end CheckGrouper

/-- `Check_grouper` accepts a file with distinct siblings when the first keys and parameters are
lawful. -/
theorem checkGrouper_iff (ast : MainBranches) :
    (∃ final, checkGrouper.visit ast ⟨[], ⟨[], [], false, false⟩⟩ = .ok final) ↔
      ast.tree.CheckedDistinct ∧ KeysLawful (List.take 1) ast := by
  rw [checkGrouperCrawl.visit_unit ⟨[], ⟨[], [], false, false⟩⟩ ⟨rfl, rfl⟩ ast,
    ← ast.tree.noRepeats_iff]
  have met : ∀ ctx found, (ctx, found) ∈ ast.occurrences ↔
      .node ctx found ∈ ast.tree.events (fun _ => true) .root := by
    intro ctx found
    rw [MainBranches.occurrences, ← Tree.stagesOf_events, stagesOf, List.mem_filterMap]
    constructor
    · rintro ⟨event, member, isStage⟩
      cases event with
      | repeated place name => cases isStage
      | node place other =>
          obtain ⟨rfl, rfl⟩ := Prod.mk.inj (Option.some.inj isStage)
          exact member
    · exact fun member => ⟨_, member, rfl⟩
  constructor
  · intro passes
    refine ⟨?_, ⟨fun ctx type member => ?_, fun ctx body member => ?_⟩⟩
    · intro event member repeated
      cases event with
      | node ctx found => cases repeated
      | repeated ctx name => cases passes _ member
    · exact CheckGrouper.step_grouper_iff.mp (passes _ ((met ..).mp member))
    · exact CheckGrouper.step_aggregator_iff.mp (passes _ ((met ..).mp member))
  · rintro ⟨clean, lawful⟩ event member
    cases event with
    | repeated ctx name => exact absurd rfl (clean _ member)
    | node ctx found =>
        cases found with
        | selector body => rfl
        | inner st =>
            have inside := (met ..).mpr member
            cases st with
            | grouper type =>
                exact CheckGrouper.step_grouper_iff.mpr (lawful.noTime ctx type inside)
            | aggregator body =>
                exact CheckGrouper.step_aggregator_iff.mpr (lawful.noKey ctx body inside)
            | _ => rfl

/-- `Check_grouper` accepts exactly the files with lawful keys and parameters. -/
def GrouperSettled (ast : MainBranches) : Prop :=
  (∃ final, checkGrouper.visit ast ⟨[], ⟨[], [], false, false⟩⟩ = .ok final) ↔
    KeysLawful id ast

/-- The check is right about a file with distinct siblings when an unlawful key or parameter stands
at a first place as well, and about one that repeats a name when it has an unlawful one. -/
theorem grouperSettled_iff (ast : MainBranches) :
    GrouperSettled ast ↔
      (ast.tree.CheckedDistinct → KeysLawful (List.take 1) ast → KeysLawful id ast) ∧
        (KeysLawful id ast → ast.tree.CheckedDistinct) := by
  rw [GrouperSettled, checkGrouper_iff]
  constructor
  · intro settled
    exact ⟨fun checked first => settled.mp ⟨checked, first⟩, fun lawful => (settled.mpr lawful).1⟩
  · rintro ⟨enough, distinct⟩
    exact ⟨fun accepted => enough accepted.1 accepted.2,
      fun lawful => ⟨distinct lawful, lawful.first⟩⟩

/-- `branch main { grouper: SRC_IP, TIME_FIRST; selector: SRC_IP; }`. -/
def groupedByTime : MainBranches where
  first := .mk .main (.stage (.grouper
    { body := .keys ⟨.srcIP, [.timeFirst]⟩
      succ := .stage (.selector ⟨⟨⟨.keyword .srcIP, none⟩, []⟩⟩) }))
  rest := .nil

/-- The second key is a time and the file is accepted. -/
theorem groupedByTime_not_settled :
    (∃ final, checkGrouper.visit groupedByTime ⟨[], ⟨[], [], false, false⟩⟩ = .ok final) ∧
      ¬ KeysLawful id groupedByTime ∧ ¬ GrouperSettled groupedByTime := by
  have accepted : ∃ final,
      checkGrouper.visit groupedByTime ⟨[], ⟨[], [], false, false⟩⟩ = .ok final := ⟨_, rfl⟩
  have unlawful : ¬ KeysLawful id groupedByTime := by
    intro lawful
    have noTime := lawful.noTime _ _ List.mem_cons_self .timeFirst (by decide)
    exact noTime.1 rfl
  exact ⟨accepted, unlawful, fun settled => unlawful (settled.mp accepted)⟩

end Policer.Parsing
