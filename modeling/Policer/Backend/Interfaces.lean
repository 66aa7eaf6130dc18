import Policer.Backend.Pipeline

/-!
# Output interfaces

Two visitors number the selectors of a rule file. `Count_output_interfaces` counts them for
the command line; `Builder` writes the next number into the options of each. `interface_numbers`
says that the numbers written are those that were counted, in textual order.
-/

namespace Policer.Backend

open Policer.Lib Policer.Parsing

/-! ### Counting -/

/-- The visitor `Count_output_interfaces`. -/
def countOutputInterfaces : Visitor Nat where
  selectorStage _ _ := Action.update (· + 1)

/-- `get_number_of_output_interfaces`. -/
def getNumberOfOutputInterfaces (data : InterRepr) : Except Failure Nat :=
  countOutputInterfaces.visit data.ast 0

theorem countOutputInterfaces_siblings (level : BranchLevel)
    (items : List (Identifier × Method Nat)) :
    countOutputInterfaces.siblings level items = Action.sequence (items.map Prod.snd) := by
  cases level <;> cases items <;> rfl

mutual

/-- A visit counts the selectors of a tree. -/
theorem countOutputInterfaces_tree (ctx : Context) : (t : Tree) → ∀ number,
    countOutputInterfaces.tree t number =
      .ok (number + (selectorsOf (t.occurrences ctx)).length)
  | .selector _, _ => rfl
  | .stage st next, number => by
      have below := countOutputInterfaces_tree (ctx.enter st) next number
      cases st with
      | aggregator body =>
          have quiet := countOutputInterfaces.aggregatorBody_skip
            (fun as => by obtain ⟨_, func⟩ := as; cases func <;> rfl) body
          change (countOutputInterfaces.aggregatorBody body >=> _) number = _
          rw [quiet, Action.skip_seq]
          exact below
      | grouper type =>
          have quiet := countOutputInterfaces.grouperType_skip (fun _ => rfl) type
          change (countOutputInterfaces.grouperType type >=> _) number = _
          rw [quiet, Action.skip_seq]
          exact below
      | _ => exact below
  | .branches level items, number => by
      rw [Visitor.tree, countOutputInterfaces_siblings]
      exact countOutputInterfaces_branches ctx level items number

theorem countOutputInterfaces_branches (ctx : Context) (level : BranchLevel) :
    (items : Branches) → ∀ number,
      Action.sequence ((countOutputInterfaces.branches level items).map Prod.snd) number =
        .ok (number + (selectorsOf (items.occurrences ctx)).length)
  | .nil, _ => rfl
  | .cons name tree rest, number => by
      have here := countOutputInterfaces_tree (ctx.push name) tree number
      have item : countOutputInterfaces.branchItem level name (countOutputInterfaces.tree tree) =
          countOutputInterfaces.tree tree := by
        cases level <;> rfl
      rw [Visitor.branches, List.map_cons, Action.sequence_cons, item, Action.seq_of_ok here,
        countOutputInterfaces_branches ctx level rest, Branches.occurrences, selectorsOf_append,
        List.length_append, Nat.add_assoc]

end

theorem getNumberOfOutputInterfaces_eq (data : InterRepr) :
    getNumberOfOutputInterfaces data = .ok (selectorsOf data.ast.occurrences).length := by
  rw [getNumberOfOutputInterfaces, Visitor.visit_eq_tree,
    countOutputInterfaces_tree .root data.ast.tree 0, Nat.zero_add]
  rfl

/-! ### Numbering -/

mutual

/-- The option strings of the selectors below a builder, in textual order. -/
def selectorOptionsIn : BuilderStage → List Str
  | .mk .selector options _ => [options]
  | .mk _ _ next => selectorOptionsOf next

/-- The option strings of the selectors in a forest. -/
def selectorOptionsOf : List BuilderStage → List Str
  | [] => []
  | head :: tail => selectorOptionsIn head ++ selectorOptionsOf tail

end

theorem selectorOptionsOf_append (first second : BuilderVec) :
    selectorOptionsOf (first ++ second) = selectorOptionsOf first ++ selectorOptionsOf second := by
  induction first with
  | nil => rfl
  | cons head tail ih => simp [selectorOptionsOf, ih]

/-- The options of selectors that are numbered from `number` on. -/
def numberedOptions (data : InterRepr) (number : Nat) (selectors : List (Context × SelectorBody)) :
    List Str :=
  (selectors.zipIdx number).map fun ((ctx, body), k) => selectorOptions data ctx body k

theorem numberedOptions_append (data : InterRepr) (number : Nat)
    (first second : List (Context × SelectorBody)) :
    numberedOptions data number (first ++ second) =
      numberedOptions data number first ++
        numberedOptions data (number + first.length) second := by
  simp [numberedOptions, List.zipIdx_append]

mutual

/-- The selectors of a translation are those of the tree, numbered one after the other. -/
theorem selectorOptionsOf_translateTree {data : InterRepr} (ctx : Context) : (t : Tree) →
    ∀ number, selectorOptionsOf (translateTree data ctx t number).1 =
      numberedOptions data number (selectorsOf (t.occurrences ctx))
  | .selector _, _ => rfl
  | .stage st next, number => by
      have below := @selectorOptionsOf_translateTree data (ctx.enter st) next number
      cases st with
      | grouper type => exact below
      | window body => exact below
      | _ => exact (List.append_nil _).trans below
  | .branches _ items, number => selectorOptionsOf_translateBranches ctx items number

theorem selectorOptionsOf_translateBranches {data : InterRepr} (ctx : Context) :
    (items : Branches) → ∀ number,
      selectorOptionsOf (translateBranches data ctx items number).1 =
        numberedOptions data number (selectorsOf (items.occurrences ctx))
  | .nil, _ => rfl
  | .cons name tree rest, number => by
      rw [translateBranches, selectorOptionsOf_append,
        selectorOptionsOf_translateTree (ctx.push name) tree,
        selectorOptionsOf_translateBranches ctx rest, translateTree_number, Branches.occurrences,
        selectorsOf_append, numberedOptions_append]

end

/-- `Builder` leaves one selector for each of the rule file, with the options of its place. -/
theorem selectorOptionsOf_root {ast : MainBranches} {data : InterRepr}
    (ran : Parser.run ast = .ok data) {number : Nat} {root : BuilderVec}
    (built : buildRoot data number = .ok root) :
    selectorOptionsOf root = numberedOptions data number (selectorsOf ast.occurrences) := by
  rw [← Except.ok.inj ((buildRoot_of_run ran number).symm.trans built)]
  exact selectorOptionsOf_translateTree .root ast.tree number

/-- The interface number in the options of a selector. -/
def numberText (options : Str) : Str := options.takeWhile (· != ':')

theorem numberText_selectorOptions (data : InterRepr) (ctx : Context) (body : SelectorBody)
    (number : Nat) : numberText (selectorOptions data ctx body number) = toStringNat number := by
  have digits : ∀ c ∈ toStringNat number, (c != ':') = true := by
    intro c member
    rw [bne_iff_ne]
    rintro rfl
    exact notMem_toStringNat (by decide) member
  rw [numberText, selectorOptions, List.append_assoc, List.takeWhile_append_of_pos digits]
  simp

theorem numberText_numberedOptions (data : InterRepr) (number : Nat)
    (selectors : List (Context × SelectorBody)) :
    (numberedOptions data number selectors).map numberText =
      (List.range' number selectors.length).map toStringNat := by
  induction selectors generalizing number with
  | nil => rfl
  | cons head tail ih =>
      simp only [numberedOptions, List.zipIdx_cons, List.map_cons, List.length_cons,
        List.range'_succ, numberText_selectorOptions]
      exact congrArg (toStringNat number :: ·) (ih (number + 1))

/-- The first `Builder` gives the selectors the interface numbers `0` to `n - 1` in textual
order, where `n` is what `Count_output_interfaces` counts. -/
theorem interface_numbers {ast : MainBranches} {data : InterRepr}
    (ran : Parser.run ast = .ok data) :
    ∃ root n, buildRoot data 0 = .ok root ∧ getNumberOfOutputInterfaces data = .ok n ∧
      selectorOptionsOf root = numberedOptions data 0 (selectorsOf ast.occurrences) ∧
      (selectorOptionsOf root).map numberText = (List.range n).map toStringNat := by
  have built := buildRoot_of_run ran 0
  have options := selectorOptionsOf_root ran built
  have counted := getNumberOfOutputInterfaces_eq data
  rw [Parser.run_ast ran] at counted
  refine ⟨_, _, built, counted, options, ?_⟩
  rw [options, numberText_numberedOptions, List.range_eq_range']

theorem interface_numbers_filteredBranches :
    ∃ data root n, Parser.run filteredBranches = .ok data ∧ buildRoot data 0 = .ok root ∧
      getNumberOfOutputInterfaces data = .ok n ∧
      (selectorOptionsOf root).map numberText = (List.range n).map toStringNat := by
  obtain ⟨data, ran⟩ : ∃ data, Parser.run filteredBranches = .ok data :=
    exists_ok_of_isOk (by decide +kernel)
  obtain ⟨root, n, built, counted, _, numbers⟩ := interface_numbers ran
  exact ⟨data, root, n, ran, built, counted, numbers⟩

end Policer.Backend
