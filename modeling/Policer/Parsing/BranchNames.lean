import Policer.Lib.Simulation
import Policer.Parsing.Occurrence

/-!
# Branch names and paths

`Check_branch_names` keeps the names of the branches above the current stage in
a stack and refuses repeated names among siblings. Most visitors derive from
it, so its members stand in `Located` beside the members of the derived class.
`makePath_injective` is why the path text can serve as a map key.
-/

namespace Policer.Parsing

open Policer.Lib

/-- Members of a class derived from `Check_branch_names`: its `stack`, with the
innermost branch last, and the derived class's own members. -/
structure Located (τ : Type) where
  stack : List Str
  self : τ

/-- `make_path`. -/
def makePath : List Str → Str
  | [] => "/".toList
  | item :: rest => (item :: rest).flatMap fun name => "/".toList ++ name

namespace Located

variable {τ : Type}

/-- `get_branchPath`. -/
def getBranchPath (state : Located τ) : Str := makePath state.stack

/-- `get_depth`. -/
def getDepth (state : Located τ) : Nat := state.stack.length

/-- `stack.push_back`. -/
def push (name : Identifier) : Method (Located τ) :=
  Action.update fun state => { state with stack := state.stack ++ [name.text] }

/-- `stack.pop_back`. -/
def pop : Method (Located τ) :=
  Action.update fun state => { state with stack := state.stack.dropLast }

/-- Visit one branch with its name on the stack. -/
def inBranch (item : Identifier × Method (Located τ)) : Method (Located τ) :=
  push item.1 >=> item.2 >=> pop

/-- `check_and_push`: the names so far with `elem` behind them. -/
def checkAndPush (vec : List Str) (elem : Str) (state : Located τ) :
    Except Failure (List Str) :=
  if elem ∈ vec then .error (.thrown (.checkBranchNames state.getBranchPath elem))
  else .ok (vec ++ [elem])

/-- The loop of `check_branches`. -/
def checkRest (names : List Str) :
    List (Identifier × Method (Located τ)) → Method (Located τ)
  | [] => Action.skip
  | item :: more => fun state =>
      match checkAndPush names item.1.text state with
      | .error thrown => .error thrown
      | .ok names => (inBranch item >=> checkRest names more) state

/-- `check_branches`. -/
def checkBranches (one : Identifier × Method (Located τ))
    (more : List (Identifier × Method (Located τ))) : Method (Located τ) :=
  inBranch one >=> checkRest [one.1.text] more

/-- The method for `main_branch_vec`, which compares no names. -/
def mainBranchVec (items : List (Identifier × Method (Located τ))) : Method (Located τ) :=
  Action.sequence (items.map inBranch)

/-- Change the members of the derived class. -/
def updateSelf (f : τ → τ) : Method (Located τ) :=
  Action.update fun state => { state with self := f state.self }

@[simp] theorem updateSelf_apply (f : τ → τ) (state : Located τ) :
    updateSelf f state = .ok { state with self := f state.self } := rfl

end Located

/-- The methods `Check_branch_names` overrides, over the methods of a derived class. -/
def Visitor.overBranchNames {τ : Type} (v : Visitor (Located τ)) : Visitor (Located τ) :=
  { v with
    mainBranches := Located.checkBranches
    mainBranchVec := Located.mainBranchVec
    branchAfterS := Located.checkBranches }

/-- `Check_branch_names` itself. -/
def checkBranchNames : Visitor (Located Unit) := Visitor.overBranchNames {}

/-! ### Paths as keys -/

/-- The stack of names below a path. -/
def names (path : List Identifier) : List Str := path.map Identifier.text

@[simp] theorem names_nil : names [] = [] := rfl

@[simp] theorem names_append (path : List Identifier) (name : Identifier) :
    names (path ++ [name]) = names path ++ [name.text] := by
  simp [names]

theorem Identifier.slash_free (name : Identifier) : '/' ∉ name.text := by
  intro member
  have rest := name.isRest _ member
  revert rest
  decide

/-- The part of a path below its first name: nothing, or a slash and more. -/
theorem flatMap_slash_cases (path : List Identifier) :
    (names path).flatMap (fun name => "/".toList ++ name) = [] ∨
      ∃ more, (names path).flatMap (fun name => "/".toList ++ name) = '/' :: more := by
  cases path with
  | nil => exact Or.inl rfl
  | cons name rest => exact Or.inr ⟨_, rfl⟩

theorem takeWhile_name (name : Identifier) {rest : Str}
    (slash : rest = [] ∨ ∃ more, rest = '/' :: more) :
    (name.text ++ rest).takeWhile (· ≠ '/') = name.text := by
  rw [List.takeWhile_append_of_pos]
  · rcases slash with rfl | ⟨more, rfl⟩ <;> simp
  · intro c member
    have different : c ≠ '/' := by
      rintro rfl
      exact name.slash_free member
    simpa using different

theorem flatMap_slash_injective : (left right : List Identifier) →
    (names left).flatMap (fun name => "/".toList ++ name) =
      (names right).flatMap (fun name => "/".toList ++ name) → left = right
  | [], [], _ => rfl
  | [], name :: rest, same => by simp [names] at same
  | name :: rest, [], same => by simp [names] at same
  | first :: left, second :: right, same => by
      have tails : first.text ++ (names left).flatMap (fun name => "/".toList ++ name) =
          second.text ++ (names right).flatMap (fun name => "/".toList ++ name) := by
        simpa [names] using same
      have texts : first.text = second.text := by
        rw [← takeWhile_name first (flatMap_slash_cases left),
          ← takeWhile_name second (flatMap_slash_cases right), tails]
      rw [texts] at tails
      rw [Identifier.text_injective texts,
        flatMap_slash_injective left right (List.append_cancel_left tails)]

/-- Different paths have different texts. -/
theorem makePath_injective {left right : List Identifier}
    (same : makePath (names left) = makePath (names right)) : left = right := by
  cases left with
  | nil =>
      cases right with
      | nil => rfl
      | cons name rest =>
          have empty : name.text ++ (names rest).flatMap (fun item => "/".toList ++ item) = [] := by
            simpa [names, makePath] using same
          exact absurd (List.append_eq_nil_iff.mp empty).1 name.text_ne_nil
  | cons first left =>
      cases right with
      | nil =>
          have empty :
              first.text ++ (names left).flatMap (fun item => "/".toList ++ item) = [] := by
            simpa [names, makePath] using same
          exact absurd (List.append_eq_nil_iff.mp empty).1 first.text_ne_nil
      | cons second right => exact flatMap_slash_injective _ _ same

end Policer.Parsing
