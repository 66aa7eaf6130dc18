import Policer.Parsing.Acceptance

/-!
# Reordered main branches

The stages, events and paths of a rule file, main branch by main branch. `Reordered` relates two
files with the same main branches in different orders; `parse` and the checks of `semantic_check`
look at each branch by itself and do not tell them apart.
-/

namespace Policer.Parsing

open Policer.Lib

/-! ### Main branches one by one -/

/-- The items of a vector. -/
def MainBranchVec.toList : MainBranchVec → List MainBranch
  | .nil => []
  | .cons first rest => first :: rest.toList

/-- The main branches in textual order. -/
def MainBranches.all (ast : MainBranches) : List MainBranch := ast.first :: ast.rest.toList

namespace MainBranch

/-- The stages of a main branch. -/
def occurrences (mb : MainBranch) : List (Context × Node) :=
  mb.tree.occurrences (Context.root.push mb.name)

/-- The events of a visit of a main branch. -/
def events (descends : InnerStage → Bool) (mb : MainBranch) : List Event :=
  mb.tree.events descends (Context.root.push mb.name)

end MainBranch

theorem MainBranchVec.items_occurrences (mbv : MainBranchVec) :
    mbv.items.occurrences .root = mbv.toList.flatMap MainBranch.occurrences := by
  cases mbv with
  | nil => rfl
  | cons first rest =>
      rw [items, Branches.occurrences, toList, List.flatMap_cons, items_occurrences rest]
      rfl

theorem MainBranches.occurrences_eq (ast : MainBranches) :
    ast.occurrences = ast.all.flatMap MainBranch.occurrences := by
  have rest := ast.rest.items_occurrences
  rw [all, List.flatMap_cons, ← rest]
  rfl

theorem MainBranchVec.items_sequences (mbv : MainBranchVec) :
    mbv.items.sequences = mbv.toList.flatMap fun mb => mb.tree.sequences := by
  cases mbv with
  | nil => rfl
  | cons first rest =>
      rw [items, Branches.sequences, toList, List.flatMap_cons, items_sequences rest]

theorem MainBranches.sequences_eq (ast : MainBranches) :
    ast.tree.sequences = ast.all.flatMap fun mb => mb.tree.sequences := by
  have rest := ast.rest.items_sequences
  rw [all, List.flatMap_cons, ← rest]
  rfl

/-- Main branches with distinct names repeat none. -/
theorem MainBranchVec.items_events (descends : InnerStage → Bool) : (mbv : MainBranchVec) →
    (seen : List Identifier) → (mbv.toList.map MainBranch.name).Nodup →
    (∀ mb ∈ mbv.toList, mb.name ∉ seen) →
      mbv.items.events descends .root .main seen =
        mbv.toList.flatMap (MainBranch.events descends)
  | .nil, _, _, _ => rfl
  | .cons first rest, seen, nodup, fresh => by
      obtain ⟨different, nodup⟩ := List.nodup_cons.mp nodup
      have unseen : first.name ∉ seen := fresh first List.mem_cons_self
      have later : ∀ mb ∈ rest.toList, mb.name ∉ seen ++ [first.name] := by
        intro mb member inside
        rcases List.mem_append.mp inside with before | here
        · exact fresh mb (List.mem_cons_of_mem _ member) before
        · exact different (List.mem_map.mpr ⟨mb, member, List.mem_singleton.mp here⟩)
      rw [items, Branches.events, toList, List.flatMap_cons,
        items_events descends rest _ nodup later]
      simp only [unseen, and_false, ↓reduceIte, List.nil_append]
      rfl

theorem MainBranches.events_eq {ast : MainBranches} (distinct : (ast.all.map MainBranch.name).Nodup)
    (descends : InnerStage → Bool) :
    ast.tree.events descends .root = ast.all.flatMap (MainBranch.events descends) := by
  obtain ⟨different, nodup⟩ := List.nodup_cons.mp distinct
  have later : ∀ mb ∈ ast.rest.toList, mb.name ∉ [ast.first.name] := by
    intro mb member inside
    exact different (List.mem_map.mpr ⟨mb, member, List.mem_singleton.mp inside⟩)
  have rest := MainBranchVec.items_events descends ast.rest [ast.first.name] nodup later
  rw [all, List.flatMap_cons, ← rest]
  simp only [tree, Tree.events, Branches.events, List.not_mem_nil, and_false, ↓reduceIte,
    List.nil_append]
  rfl

namespace MainBranch

variable {mb : MainBranch} {occ : Context × Node}

/-- The stages of a main branch stand below its name. -/
theorem path_head (member : occ ∈ mb.occurrences) : occ.1.path.head? = some mb.name := by
  obtain ⟨more, path⟩ := mb.tree.path_prefix member
  rw [← path]
  rfl

/-- So does the aggregator above one of them. -/
theorem aggregator_head (member : occ ∈ mb.occurrences) :
    ∀ above ∈ occ.1.aggregator, above.1.head? = some mb.name := by
  rintro ⟨path, body⟩ above
  rcases mb.tree.aggregatorIn mb.tree_ordered member with outside | ⟨place, _, inside, found, _⟩
  · exact absurd (above.symm.trans outside) (by simp [Context.root])
  · obtain ⟨rfl, _⟩ := Prod.mk.inj (Option.some.inj (above.symm.trans found))
    exact path_head inside

end MainBranch

/-! ### Reordered main branches -/

/-- Where all but one item of a list contribute nothing, their order does not matter. -/
theorem flatMap_eq_of_perm {α β : Type} {f : α → List β} {left right : List α}
    (perm : left.Perm right) (alone : left.Pairwise fun a b => f a = [] ∨ f b = []) :
    left.flatMap f = right.flatMap f := by
  induction perm with
  | nil => rfl
  | cons a _ ih => rw [List.flatMap_cons, List.flatMap_cons, ih (List.pairwise_cons.mp alone).2]
  | swap a b rest =>
      rcases (List.pairwise_cons.mp alone).1 a List.mem_cons_self with empty | empty <;>
        simp [empty]
  | trans first _ ihFirst ihSecond =>
      exact (ihFirst alone).trans (ihSecond (first.pairwise alone fun h => h.symm))

/-- The same main branches, which have distinct names, in another order. -/
structure Reordered (ast other : MainBranches) : Prop where
  perm : ast.all.Perm other.all
  distinct : (ast.all.map MainBranch.name).Nodup

namespace Reordered

variable {ast other : MainBranches} (reordered : Reordered ast other)

include reordered

theorem symm : Reordered other ast where
  perm := reordered.perm.symm
  distinct := (reordered.perm.map MainBranch.name).nodup_iff.mp reordered.distinct

theorem mem_events (descends : InnerStage → Bool) (event : Event) :
    event ∈ ast.tree.events descends .root ↔ event ∈ other.tree.events descends .root := by
  rw [MainBranches.events_eq reordered.distinct, MainBranches.events_eq reordered.symm.distinct]
  exact (reordered.perm.flatMap_right _).mem_iff

theorem mem_occurrences (occ : Context × Node) :
    occ ∈ ast.occurrences ↔ occ ∈ other.occurrences := by
  rw [MainBranches.occurrences_eq, MainBranches.occurrences_eq]
  exact (reordered.perm.flatMap_right _).mem_iff

theorem mem_sequences (found : List StageType) :
    found ∈ ast.tree.sequences ↔ found ∈ other.tree.sequences := by
  rw [MainBranches.sequences_eq, MainBranches.sequences_eq]
  exact (reordered.perm.flatMap_right _).mem_iff

/-- A key belongs to one main branch. -/
theorem namesAt_eq (key : Str) :
    ast.occurrences.filterMap (ParseFilterBodies.namesAt key) =
      other.occurrences.filterMap (ParseFilterBodies.namesAt key) := by
  rw [MainBranches.occurrences_eq, MainBranches.occurrences_eq, List.filterMap_flatMap,
    List.filterMap_flatMap]
  refine flatMap_eq_of_perm reordered.perm ?_
  refine (List.pairwise_map.mp reordered.distinct).imp fun {first second} different => ?_
  by_contra both
  obtain ⟨inFirst, inSecond⟩ := not_or.mp both
  have named : ∀ mb : MainBranch,
      mb.occurrences.filterMap (ParseFilterBodies.namesAt key) ≠ [] →
        ∃ path, key = stageKey .groupFilter path ∧ path.head? = some mb.name := by
    intro mb filled
    obtain ⟨vars, listed⟩ := List.exists_mem_of_ne_nil _ filled
    obtain ⟨⟨ctx, found⟩, member, isNames⟩ := List.mem_filterMap.mp listed
    cases found with
    | selector body => cases isNames
    | inner st =>
        cases st with
        | groupFilter body =>
            change (if _ then _ else none) = some vars at isNames
            split at isNames
            · rename_i same
              exact ⟨ctx.path, same.symm, MainBranch.path_head member⟩
            · cases isNames
        | _ => cases isNames
  obtain ⟨path, rfl, head⟩ := named first inFirst
  obtain ⟨path', same, head'⟩ := named second inSecond
  obtain rfl := stageKey_injective same
  exact different (Option.some.inj (head.symm.trans head'))

end Reordered

/-! ### Parsing and checking -/

namespace ParseFilterBodies

/-- A run over bodies that are filters ends normally. -/
theorem exists_runStages : (stages : List (Context × Node)) → (∀ occ ∈ stages, ¬ Unparsed occ) →
    (map : VarsMap) → ∃ final, runStages step stages map = .ok final
  | [], _, map => ⟨map, rfl⟩
  | (ctx, found) :: rest, parsed, map => by
      obtain ⟨here, later⟩ := List.forall_mem_cons.mp parsed
      obtain ⟨middle, first⟩ : ∃ middle, step ctx found map = .ok middle := by
        cases found with
        | selector body => exact ⟨map, rfl⟩
        | inner st =>
            cases st with
            | groupFilter body =>
                obtain ⟨names, isFilter⟩ := Option.ne_none_iff_exists'.mp here
                refine ⟨addVars map (stageKey .groupFilter ctx.path)
                  (names.map fun name => ⟨name, []⟩), ?_⟩
                rw [step, parseFilterBody, readFilterBody_ok.mpr isFilter]
                rfl
            | _ => exact ⟨map, rfl⟩
      obtain ⟨final, ran⟩ := exists_runStages rest later middle
      exact ⟨final, Action.seq_ok.mpr ⟨middle, first, ran⟩⟩

end ParseFilterBodies

/-- `parse` ends normally exactly when no sibling repeats a name and every body is a filter. -/
theorem Parser.exists_parse {ast : MainBranches} :
    (∃ data, Parser.parse ast = .ok data) ↔
      ∀ event ∈ ast.tree.events notGroupFilter .root,
        event.node? ≠ none ∧ ∀ occ ∈ event.node?, ¬ ParseFilterBodies.Unparsed occ := by
  have tracks := (parseFilterBodiesCrawl ∅).run ast ∅ ⟨[], ⟨∅, ∅⟩⟩ ⟨rfl, rfl⟩
  constructor
  · rintro ⟨data, ran⟩
    obtain ⟨filters, visited, _⟩ := map_ok.mp ran
    obtain ⟨map, events, _⟩ := tracks.of_run_ok visited
    obtain ⟨clean, ran⟩ := (Located.runEvents_ok _).mp events
    obtain ⟨parsed, _⟩ := ParseFilterBodies.runStages_ok _ ran
    exact fun event member => ⟨clean event member, fun occ isOcc =>
      parsed occ (List.mem_filterMap.mpr ⟨event, member, isOcc⟩)⟩
  · intro passes
    obtain ⟨map, ran⟩ := ParseFilterBodies.exists_runStages
      (stagesOf (ast.tree.events notGroupFilter .root)) (fun occ member => by
        obtain ⟨event, inside, isOcc⟩ := List.mem_filterMap.mp member
        exact (passes event inside).2 occ isOcc) ∅
    obtain ⟨filters, visited, _⟩ := tracks.of_spec_ok ((Located.runEvents_ok _).mpr
      ⟨fun event member => (passes event member).1, ran⟩)
    exact ⟨_, map_ok.mpr ⟨filters, visited, rfl⟩⟩

namespace Reordered

variable {ast other : MainBranches} (reordered : Reordered ast other)

include reordered

/-- What `parse` makes of the reordered file. -/
theorem parse {data : InterRepr} (ran : Parser.parse ast = .ok data) :
    Parser.parse other = .ok { data with ast := other } := by
  have passes := Parser.exists_parse.mp ⟨data, ran⟩
  obtain ⟨data', ran'⟩ := Parser.exists_parse.mpr fun event member =>
    passes event ((reordered.mem_events notGroupFilter event).mpr member)
  have first := Parser.parse_ok ran
  have second := Parser.parse_ok ran'
  have groupFilterVars : data'.groupFilterVars = data.groupFilterVars := by
    refine Std.ExtTreeMap.ext_getElem? fun key => ?_
    rw [second.groupFilterVars, first.groupFilterVars, reordered.namesAt_eq]
  rw [ran']
  obtain ⟨⟩ := data
  obtain ⟨⟩ := data'
  exact congrArg _ (InterRepr.mk.injEq .. ▸ ⟨second.ast_eq,
    second.filterVars.trans first.filterVars.symm, groupFilterVars,
    second.aggrVars.trans first.aggrVars.symm, second.selVars.trans first.selVars.symm⟩)

/-- The checks find what they demand in both files or in neither. -/
theorem semanticCheck {data : InterRepr} (isAst : data.ast = ast)
    (checked : Parser.semanticCheck data = .ok ()) :
    Parser.semanticCheck { data with ast := other } = .ok () := by
  subst isAst
  have demanded := semanticCheck_ok.mp checked
  exact semanticCheck_ok.mpr
    { seqStages := fun found member =>
        demanded.seqStages found ((reordered.mem_sequences found).mpr member)
      branchNames := fun event member =>
        demanded.branchNames event ((reordered.mem_events _ event).mpr member)
      grouper := fun event member =>
        demanded.grouper event ((reordered.mem_events _ event).mpr member)
      selector := fun event member =>
        demanded.selector event ((reordered.mem_events _ event).mpr member)
      filterBodies := fun event member =>
        demanded.filterBodies event ((reordered.mem_events _ event).mpr member) }

end Reordered

end Policer.Parsing
