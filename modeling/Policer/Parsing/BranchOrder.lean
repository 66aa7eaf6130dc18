import Policer.Parsing.Reordered
import Policer.Parsing.Scoping

/-!
# The order of main branches

`Alias4variables` writes below the name of the main branch it is in and reads what it has written
there, but for `aggIsPresent`, which is set until the first aggregator of the file has ended. So
the order of main branches matters where a selector has the item `COUNT` in front of every
aggregator of its branch, and nowhere else: `orderFree_sameExposure`.
-/

namespace Policer.Parsing

open Policer.Lib

/-! ### Aliases below one main branch -/

/-- The item `COUNT` without an expression. -/
def SelAssignment.isBareCount (sa : SelAssignment) : Bool := sa.bareName? == some "COUNT".toList

/-- A selector has the item `COUNT`. -/
def SelectorBody.hasBareCount (body : SelectorBody) : Bool :=
  body.all.any SelAssignment.isBareCount

/-- Whether `COUNT` is recorded depends on `aggIsPresent`, and nothing else does. -/
theorem SelAssignment.recorded_eq {sa : SelAssignment} (other : sa.isBareCount = false)
    (first second : Bool) : sa.recorded first = sa.recorded second := by
  obtain ⟨output, selExpression⟩ := sa
  cases output with
  | keyword unir => cases selExpression <;> rfl
  | name pointer =>
      cases selExpression with
      | some se => rfl
      | none =>
          have noCount : (pointer == "COUNT".toList) = false := other
          simp only [recorded, noCount, Bool.and_false]

theorem SelectorBody.recorded_eq {body : SelectorBody} (other : body.hasBareCount = false)
    (first second : Bool) : body.recorded first = body.recorded second := by
  refine List.flatMap_congr fun sa member => SelAssignment.recorded_eq ?_ first second
  simpa using List.any_eq_false.mp other sa member

/-- An aggregator stands among the stages. -/
def hasAggregator (stages : List (Context × Node)) : Bool :=
  stages.any fun occ => match occ.2 with
    | .inner (.aggregator _) => true
    | _ => false

/-- A selector with the item `COUNT` stands in front of every aggregator. -/
def exposed : List (Context × Node) → Bool
  | [] => false
  | (_, .selector body) :: rest => body.hasBareCount || exposed rest
  | (_, .inner (.aggregator _)) :: _ => false
  | (_, .inner _) :: rest => exposed rest

namespace Aliases

/-- The maps have the same entries below a main branch. -/
structure AgreeBelow (name : Identifier) (abs other : Aliases) : Prop where
  groupFilterVars : ∀ path : List Identifier, path.head? = some name →
    abs.groupFilterVars[stageKey .groupFilter path]? =
      other.groupFilterVars[stageKey .groupFilter path]?
  aggrVars : ∀ path : List Identifier, path.head? = some name →
    abs.aggrVars[stageKey .aggregator path]? = other.aggrVars[stageKey .aggregator path]?
  selVars : ∀ path : List Identifier, path.head? = some name →
    abs.selVars[stageKey .selector path]? = other.selVars[stageKey .selector path]?

namespace AgreeBelow

variable {name : Identifier} {abs other third : Aliases}

theorem refl (name : Identifier) (abs : Aliases) : AgreeBelow name abs abs :=
  ⟨fun _ _ => rfl, fun _ _ => rfl, fun _ _ => rfl⟩

theorem symm (agree : AgreeBelow name abs other) : AgreeBelow name other abs :=
  ⟨fun path head => (agree.groupFilterVars path head).symm,
    fun path head => (agree.aggrVars path head).symm,
    fun path head => (agree.selVars path head).symm⟩

theorem trans (first : AgreeBelow name abs other) (second : AgreeBelow name other third) :
    AgreeBelow name abs third :=
  ⟨fun path head => (first.groupFilterVars path head).trans (second.groupFilterVars path head),
    fun path head => (first.aggrVars path head).trans (second.aggrVars path head),
    fun path head => (first.selVars path head).trans (second.selVars path head)⟩

/-- A stage of another main branch writes elsewhere. -/
theorem step_outside (abs : Aliases) {ctx : Context} (found : Node)
    (outside : ctx.path.head? ≠ some name) : AgreeBelow name (abs.step ctx found) abs := by
  have keys : ∀ (stage : StageName) (path : List Identifier), path.head? = some name →
      stageKey stage ctx.path ≠ stageKey stage path := by
    intro stage path head same
    rw [stageKey_injective same] at outside
    exact outside head
  cases found with
  | selector body =>
      refine ⟨fun _ _ => rfl, fun _ _ => rfl, fun path head => ?_⟩
      simp [step, Alias4variables.getElem?_giveAliases, getElem?_addAll, keys .selector path head]
  | inner st =>
      cases st with
      | aggregator body =>
          refine ⟨fun _ _ => rfl, fun path head => ?_, fun _ _ => rfl⟩
          simp [step, getElem?_addAll, keys .aggregator path head]
      | groupFilter body =>
          refine ⟨fun path head => ?_, fun _ _ => rfl, fun _ _ => rfl⟩
          simp [step, Alias4variables.getElem?_giveAliases, keys .groupFilter path head]
      | _ => exact refl name abs

theorem fold_outside (abs : Aliases) (stages : List (Context × Node))
    (outside : ∀ occ ∈ stages, occ.1.path.head? ≠ some name) :
    AgreeBelow name (fold stages abs) abs := by
  induction stages generalizing abs with
  | nil => exact refl name abs
  | cons head tail ih =>
      obtain ⟨here, later⟩ := List.forall_mem_cons.mp outside
      exact (ih (abs.step head.1 head.2) later).trans (step_outside abs head.2 here)

theorem agVec (agree : AgreeBelow name abs other)
    {above : Option (List Identifier × AggregatorBody)}
    (inside : ∀ found ∈ above, found.1.head? = some name) :
    abs.agVec above = other.agVec above := by
  cases above with
  | none => rfl
  | some found => exact agree.aggrVars found.1 (inside found rfl)

/-- A stage of the main branch writes the same in both when it records the same names. -/
theorem step_inside (agree : AgreeBelow name abs other) {ctx : Context} {found : Node}
    (above : ∀ found ∈ ctx.aggregator, found.1.head? = some name)
    (path : ctx.path.head? = some name)
    (same : ∀ body, found = .selector body →
      body.recorded (abs.aggIsPresent ctx.aggregator) =
        body.recorded (other.aggIsPresent ctx.aggregator)) :
    AgreeBelow name (abs.step ctx found) (other.step ctx found) := by
  have vars := agree.agVec above
  cases found with
  | selector body =>
      refine ⟨agree.groupFilterVars, agree.aggrVars, fun other head => ?_⟩
      simp only [step, Alias4variables.getElem?_giveAliases, getElem?_addAll, vars,
        same body rfl, agree.selVars ctx.path path, agree.selVars other head]
  | inner st =>
      cases st with
      | aggregator body =>
          refine ⟨agree.groupFilterVars, fun other head => ?_, agree.selVars⟩
          simp only [step, getElem?_addAll, agree.aggrVars ctx.path path,
            agree.aggrVars other head]
      | groupFilter body =>
          refine ⟨fun other head => ?_, agree.aggrVars, agree.selVars⟩
          simp only [step, Alias4variables.getElem?_giveAliases, vars,
            agree.groupFilterVars ctx.path path, agree.groupFilterVars other head]
      | _ => exact agree

/-- The stages of the main branch write the same when the flag is the same in both or does not
matter. -/
theorem fold_inside (agree : AgreeBelow name abs other) (stages : List (Context × Node))
    (inside : ∀ occ ∈ stages, occ.1.path.head? = some name ∧
      ∀ above ∈ occ.1.aggregator, above.1.head? = some name)
    (same : abs.seen = other.seen ∨ exposed stages = false) :
    AgreeBelow name (fold stages abs) (fold stages other) := by
  induction stages generalizing abs other with
  | nil => exact agree
  | cons head tail ih =>
      obtain ⟨ctx, found⟩ := head
      obtain ⟨⟨path, above⟩, later⟩ := List.forall_mem_cons.mp inside
      refine ih (agree.step_inside above path ?_) later ?_
      · rintro body rfl
        rcases same with same | same
        · simp only [aggIsPresent, same]
        · exact SelectorBody.recorded_eq (Bool.or_eq_false_iff.mp same).1 _ _
      · cases found with
        | selector body =>
            exact same.imp_right fun hidden => (Bool.or_eq_false_iff.mp hidden).2
        | inner st =>
            cases st with
            | aggregator body => exact Or.inl rfl
            | _ => exact same

end AgreeBelow

/-- The flag is set once an aggregator has been met. -/
theorem seen_fold (stages : List (Context × Node)) (abs : Aliases) :
    (fold stages abs).seen = (abs.seen || hasAggregator stages) := by
  induction stages generalizing abs with
  | nil => exact (Bool.or_false _).symm
  | cons head tail ih =>
      obtain ⟨ctx, found⟩ := head
      refine (ih (abs.step ctx found)).trans ?_
      cases found with
      | selector body => rfl
      | inner st =>
          cases st with
          | aggregator body => simp [step, hasAggregator]
          | _ => rfl

/-- An entry of the aggregators was there before or belongs to an aggregator. -/
theorem aggrVars_fold {key : Str} : (stages : List (Context × Node)) → (abs : Aliases) →
    (fold stages abs).aggrVars[key]? ≠ none → abs.aggrVars[key]? ≠ none ∨
      ∃ ctx body, (ctx, .inner (.aggregator body)) ∈ stages ∧ key = stageKey .aggregator ctx.path
  | [], _, present => Or.inl present
  | (ctx, found) :: tail, abs, present => by
      rcases aggrVars_fold tail (abs.step ctx found) present with
        before | ⟨place, body, member, same⟩
      · cases found with
        | selector body => exact Or.inl before
        | inner st =>
            cases st with
            | aggregator body =>
                by_cases same : stageKey .aggregator ctx.path = key
                · exact Or.inr ⟨ctx, body, List.mem_cons_self, same.symm⟩
                · left
                  simpa [step, getElem?_addAll, same] using before
            | _ => exact Or.inl before
      · exact Or.inr ⟨place, body, List.mem_cons_of_mem _ member, same⟩

end Aliases

/-- The main branches in front of the one with a name. -/
def inFront (branches : List MainBranch) (name : Identifier) : List MainBranch :=
  branches.takeWhile fun mb => mb.name ≠ name

/-- A list with its branch of a name taken out. -/
theorem inFront_split {branches : List MainBranch} {mb : MainBranch}
    (distinct : (branches.map MainBranch.name).Nodup) (member : mb ∈ branches) :
    ∃ behind, branches = inFront branches mb.name ++ mb :: behind ∧
      (∀ other ∈ inFront branches mb.name, other.name ≠ mb.name) ∧
      ∀ other ∈ behind, other.name ≠ mb.name := by
  induction branches with
  | nil => cases member
  | cons head tail ih =>
      obtain ⟨different, distinct⟩ := List.nodup_cons.mp distinct
      by_cases same : head.name = mb.name
      · have isHead : mb = head := by
          rcases List.mem_cons.mp member with isHead | later
          · exact isHead
          · exact absurd (List.mem_map.mpr ⟨mb, later, same.symm⟩) different
        subst isHead
        refine ⟨tail, by simp [inFront], by simp [inFront], ?_⟩
        rintro other later same
        exact different (List.mem_map.mpr ⟨other, later, same⟩)
      · have later : mb ∈ tail := by
          rcases List.mem_cons.mp member with rfl | later
          · exact absurd rfl same
          · exact later
        obtain ⟨behind, split, front, back⟩ := ih distinct later
        have step : inFront (head :: tail) mb.name = head :: inFront tail mb.name :=
          List.takeWhile_cons_of_pos (by simpa using same)
        refine ⟨behind, ?_, ?_, back⟩
        · rw [step, List.cons_append, ← split]
        · rw [step]
          exact List.forall_mem_cons.mpr ⟨same, front⟩

namespace MainBranches

/-- An aggregator stands in a main branch in front of the one with a name. -/
def aggregatorInFront (ast : MainBranches) (name : Identifier) : Bool :=
  (inFront ast.all name).any fun mb => hasAggregator mb.occurrences

/-- Below a main branch the whole file records what the branch alone records with the flag of the
branches in front of it. -/
theorem aliases_below {ast : MainBranches} (distinct : (ast.all.map MainBranch.name).Nodup)
    {mb : MainBranch} (member : mb ∈ ast.all) (groupFilterVars : VarsMap) :
    Aliases.AgreeBelow mb.name
      (Aliases.fold ast.occurrences ⟨groupFilterVars, ∅, ∅, false⟩)
      (Aliases.fold mb.occurrences ⟨groupFilterVars, ∅, ∅, ast.aggregatorInFront mb.name⟩) := by
  obtain ⟨behind, split, front, back⟩ := inFront_split distinct member
  have outside : ∀ branches : List MainBranch, (∀ other ∈ branches, other.name ≠ mb.name) →
      ∀ occ ∈ branches.flatMap MainBranch.occurrences, occ.1.path.head? ≠ some mb.name := by
    intro branches differ occ inside
    obtain ⟨other, listed, inside⟩ := List.mem_flatMap.mp inside
    rw [MainBranch.path_head inside]
    exact fun same => differ other listed (Option.some.inj same)
  have met : hasAggregator ((inFront ast.all mb.name).flatMap MainBranch.occurrences) =
      ast.aggregatorInFront mb.name := by
    rw [hasAggregator, List.any_flatMap]
    rfl
  rw [occurrences_eq, split, List.flatMap_append, List.flatMap_cons, Aliases.fold_append,
    Aliases.fold_append]
  refine (Aliases.AgreeBelow.fold_outside _ _ (outside _ back)).trans ?_
  have before := Aliases.AgreeBelow.fold_outside ⟨groupFilterVars, ∅, ∅, false⟩ _ (outside _ front)
  have start : Aliases.AgreeBelow mb.name
      (Aliases.fold ((inFront ast.all mb.name).flatMap MainBranch.occurrences)
        ⟨groupFilterVars, ∅, ∅, false⟩)
      ⟨groupFilterVars, ∅, ∅, ast.aggregatorInFront mb.name⟩ :=
    ⟨before.groupFilterVars, before.aggrVars, before.selVars⟩
  refine start.fold_inside _
    (fun occ inside => ⟨MainBranch.path_head inside, MainBranch.aggregator_head inside⟩)
    (Or.inl ?_)
  rw [Aliases.seen_fold, met]
  rfl

end MainBranches

/-- Maps are the same when they have the same entries at the keys they have entries at. -/
theorem map_eq_of_entries {left right : VarsMap} {IsKey : Str → Prop}
    (same : ∀ key, IsKey key → left[key]? = right[key]?)
    (isLeft : ∀ key, left[key]? ≠ none → IsKey key)
    (isRight : ∀ key, right[key]? ≠ none → IsKey key) : left = right := by
  refine Std.ExtTreeMap.ext_getElem? fun key => ?_
  cases entry : left[key]? with
  | some _ => exact entry ▸ same key (isLeft key (by simp [entry]))
  | none =>
      cases entry' : right[key]? with
      | some _ => exact entry ▸ entry' ▸ same key (isRight key (by simp [entry']))
      | none => rfl

/-- Every main branch with an exposed `COUNT` stands behind an aggregator in both files or in
neither. -/
def SameExposure (ast other : MainBranches) : Prop :=
  ∀ mb ∈ ast.all, exposed mb.occurrences = true →
    ast.aggregatorInFront mb.name = other.aggregatorInFront mb.name

namespace Reordered

variable {ast other : MainBranches} (reordered : Reordered ast other)

include reordered

theorem sameExposure_symm (same : SameExposure ast other) : SameExposure other ast := by
  intro mb member isExposed
  exact (same mb (reordered.perm.mem_iff.mpr member) isExposed).symm

/-- Below every main branch both files record the same. -/
theorem agreeBelow (same : SameExposure ast other) (groupFilterVars : VarsMap) {mb : MainBranch}
    (member : mb ∈ ast.all) :
    Aliases.AgreeBelow mb.name
      (Aliases.fold ast.occurrences ⟨groupFilterVars, ∅, ∅, false⟩)
      (Aliases.fold other.occurrences ⟨groupFilterVars, ∅, ∅, false⟩) := by
  have first := MainBranches.aliases_below reordered.distinct member groupFilterVars
  have second := MainBranches.aliases_below reordered.symm.distinct
    (reordered.perm.mem_iff.mp member) groupFilterVars
  have start : Aliases.AgreeBelow mb.name
      ⟨groupFilterVars, ∅, ∅, ast.aggregatorInFront mb.name⟩
      ⟨groupFilterVars, ∅, ∅, other.aggregatorInFront mb.name⟩ :=
    ⟨fun _ _ => rfl, fun _ _ => rfl, fun _ _ => rfl⟩
  have middle := start.fold_inside mb.occurrences
    (fun occ inside => ⟨MainBranch.path_head inside, MainBranch.aggregator_head inside⟩) ?_
  · exact (first.trans middle).trans second.symm
  · cases isExposed : exposed mb.occurrences with
    | false => exact Or.inr rfl
    | true => exact Or.inl (same mb member isExposed)

/-- So the maps are the same: every entry belongs to a stage below some main branch. -/
theorem aliases_eq (same : SameExposure ast other) {data : InterRepr}
    (parsed : Parser.Parsed ast data) :
    let abs := Aliases.fold ast.occurrences ⟨data.groupFilterVars, ∅, ∅, false⟩
    let abs' := Aliases.fold other.occurrences ⟨data.groupFilterVars, ∅, ∅, false⟩
    abs.groupFilterVars = abs'.groupFilterVars ∧ abs.aggrVars = abs'.aggrVars ∧
      abs.selVars = abs'.selVars := by
  intro abs abs'
  have below : ∀ ctx found, (ctx, found) ∈ ast.occurrences →
      ∃ name, ctx.path.head? = some name ∧ Aliases.AgreeBelow name abs abs' := by
    intro ctx found member
    rw [MainBranches.occurrences_eq] at member
    obtain ⟨mb, listed, inside⟩ := List.mem_flatMap.mp member
    exact ⟨mb.name, MainBranch.path_head inside,
      reordered.agreeBelow same data.groupFilterVars listed⟩
  have groupFilters : ∀ key, (∃ ctx body, (ctx, .inner (.groupFilter body)) ∈ ast.occurrences ∧
      key = stageKey .groupFilter ctx.path) →
      abs.groupFilterVars[key]? = abs'.groupFilterVars[key]? := by
    rintro key ⟨ctx, body, member, rfl⟩
    obtain ⟨name, head, agree⟩ := below ctx _ member
    exact agree.groupFilterVars ctx.path head
  have aggregators : ∀ key, (∃ ctx body, (ctx, .inner (.aggregator body)) ∈ ast.occurrences ∧
      key = stageKey .aggregator ctx.path) → abs.aggrVars[key]? = abs'.aggrVars[key]? := by
    rintro key ⟨ctx, body, member, rfl⟩
    obtain ⟨name, head, agree⟩ := below ctx _ member
    exact agree.aggrVars ctx.path head
  have selectors : ∀ key, (∃ ctx body, (ctx, .selector body) ∈ ast.occurrences ∧
      key = stageKey .selector ctx.path) → abs.selVars[key]? = abs'.selVars[key]? := by
    rintro key ⟨ctx, body, member, rfl⟩
    obtain ⟨name, head, agree⟩ := below ctx _ member
    exact agree.selVars ctx.path head
  refine ⟨?_, ?_, ?_⟩
  · exact map_eq_of_entries groupFilters
      (fun key present => parsed.groupFilterOnly (Aliases.groupFilterVars_fold _ _ present))
      (fun key present => parsed.groupFilterOnly (Aliases.groupFilterVars_fold _ _ present))
  · refine map_eq_of_entries aggregators (fun key present => ?_) (fun key present => ?_)
    · exact (Aliases.aggrVars_fold _ _ present).resolve_left (absurd rfl)
    · obtain ⟨ctx, body, member, isKey⟩ :=
        (Aliases.aggrVars_fold _ _ present).resolve_left (absurd rfl)
      exact ⟨ctx, body, (reordered.mem_occurrences _).mpr member, isKey⟩
  · refine map_eq_of_entries selectors (fun key present => ?_) (fun key present => ?_)
    · exact (Aliases.selVars_fold _ _ present).resolve_left (absurd rfl)
    · obtain ⟨ctx, body, member, isKey⟩ :=
        (Aliases.selVars_fold _ _ present).resolve_left (absurd rfl)
      exact ⟨ctx, body, (reordered.mem_occurrences _).mpr member, isKey⟩

/-- A file that passes in one order passes in the other with the same maps. -/
theorem run (same : SameExposure ast other) {data : InterRepr} (ran : Parser.run ast = .ok data) :
    Parser.run other = .ok { data with ast := other } := by
  obtain ⟨parsed, parsedOk, checked, aliased⟩ := Parser.run_ok.mp ran
  have isAst := Parser.parse_ast parsedOk
  obtain ⟨clean, rfl⟩ := addAliases_ok.mp aliased
  rw [isAst] at clean
  obtain ⟨groupFilterVars, aggrVars, selVars⟩ :=
    reordered.aliases_eq same (Parser.parse_ok parsedOk)
  refine Parser.run_ok.mpr ⟨_, reordered.parse parsedOk, reordered.semanticCheck isAst checked,
    addAliases_ok.mpr ⟨fun event member => clean event ((reordered.mem_events _ event).mpr member),
      ?_⟩⟩
  subst isAst
  simp only [InterRepr.withAliases, InterRepr.aliases, groupFilterVars, aggrVars, selVars]

end Reordered

/-! ### How many names a selector records -/

/-- With the flag set a selector records no more, and less when it has the item `COUNT`. -/
theorem SelAssignment.recorded_length (sa : SelAssignment) :
    (sa.recorded false).length = (sa.recorded true).length + sa.isBareCount.toNat := by
  obtain ⟨output, selExpression⟩ := sa
  cases output with
  | keyword unir => cases selExpression <;> rfl
  | name pointer =>
      cases selExpression with
      | some se => rfl
      | none =>
          have bare : isBareCount ⟨.name pointer, none⟩ = (pointer == "COUNT".toList) := rfl
          simp only [recorded, bare, Bool.true_and, Bool.false_and]
          cases pointer == "COUNT".toList <;> rfl

theorem SelectorBody.recorded_length (body : SelectorBody) :
    (body.recorded true).length ≤ (body.recorded false).length ∧
      (body.hasBareCount = true →
        (body.recorded true).length < (body.recorded false).length) := by
  unfold recorded hasBareCount
  induction body.all with
  | nil => simp
  | cons head tail ih =>
      have item := head.recorded_length
      simp only [List.flatMap_cons, List.length_append, List.any_cons, Bool.or_eq_true]
      refine ⟨by omega, ?_⟩
      rintro (here | later)
      · simp only [here, Bool.toNat_true] at item
        omega
      · have more := ih.2 later
        omega

namespace Aliases

/-- The number of names recorded for the selector at a path. -/
def selCount (path : List Identifier) (abs : Aliases) : Nat :=
  ((abs.selVars[stageKey .selector path]?).getD []).length

/-- The number of names a stage adds. -/
def added (path : List Identifier) (abs : Aliases) (ctx : Context) : Node → Nat
  | .selector body =>
      if ctx.path = path then (body.recorded (abs.aggIsPresent ctx.aggregator)).length else 0
  | .inner _ => 0

theorem selCount_step (path : List Identifier) (abs : Aliases) (ctx : Context) (found : Node) :
    (abs.step ctx found).selCount path = abs.selCount path + abs.added path ctx found := by
  cases found with
  | inner st => cases st <;> rfl
  | selector body =>
      simp only [selCount, step, added, Alias4variables.getElem?_giveAliases, getElem?_addAll]
      generalize agVec abs ctx.aggregator = ag
      by_cases same : ctx.path = path
      · subst same
        generalize body.recorded (abs.aggIsPresent ctx.aggregator) = found
        cases found <;> cases abs.selVars[stageKey .selector ctx.path]? <;> cases ag <;>
          simp [unaliased]
      · have key : stageKey .selector ctx.path ≠ stageKey .selector path :=
          fun equal => same (stageKey_injective equal)
        simp [same, key]

/-- The flag of the first is set only when that of the second is. -/
def SeenLe (abs other : Aliases) : Prop := abs.seen = true → other.seen = true

theorem SeenLe.step {abs other : Aliases} (le : SeenLe abs other) (ctx : Context) (found : Node) :
    SeenLe (abs.step ctx found) (other.step ctx found) := by
  cases found with
  | selector body => exact le
  | inner st =>
      cases st with
      | aggregator body => exact fun _ => rfl
      | _ => exact le

/-- Where the flag has been cleared for sure no less is added. -/
theorem SeenLe.added {abs other : Aliases} (le : SeenLe abs other) (path : List Identifier)
    (ctx : Context) (found : Node) :
    abs.added path ctx found ≤ other.added path ctx found := by
  cases found with
  | inner st => exact Nat.le_refl 0
  | selector body =>
      simp only [Aliases.added]
      split
      · have fewer := body.recorded_length.1
        cases above : ctx.aggregator.isSome with
        | true => simp [aggIsPresent, above]
        | false =>
            simp only [aggIsPresent, above, Bool.false_or]
            cases first : abs.seen with
            | true => simp [le first]
            | false => cases other.seen <;> simp [fewer]
      · exact Nat.le_refl 0

/-- A lead in the number of names is kept. -/
theorem SeenLe.selCount_fold {abs other : Aliases} {path : List Identifier} {lead : Nat} :
    (stages : List (Context × Node)) → SeenLe abs other →
    abs.selCount path + lead ≤ other.selCount path →
      (fold stages abs).selCount path + lead ≤ (fold stages other).selCount path
  | [], _, ahead => ahead
  | (ctx, found) :: rest, le, ahead => by
      refine SeenLe.selCount_fold rest (le.step ctx found) ?_
      have more := le.added path ctx found
      simp only [selCount_step]
      omega

end Aliases

/-- The place of an exposed `COUNT`. -/
theorem exists_of_exposed {stages : List (Context × Node)} (isExposed : exposed stages = true) :
    ∃ before ctx body after, stages = before ++ (ctx, .selector body) :: after ∧
      hasAggregator before = false ∧ body.hasBareCount = true := by
  induction stages with
  | nil => cases isExposed
  | cons head tail ih =>
      obtain ⟨ctx, found⟩ := head
      have later : exposed tail = true → hasAggregator [(ctx, found)] = false →
          ∃ before place body after, (ctx, found) :: tail =
            before ++ (place, .selector body) :: after ∧ hasAggregator before = false ∧
            body.hasBareCount = true := by
        intro inTail plain
        obtain ⟨before, place, body, after, rfl, clean, bare⟩ := ih inTail
        refine ⟨(ctx, found) :: before, place, body, after, rfl, ?_, bare⟩
        have split : hasAggregator ((ctx, found) :: before) =
            (hasAggregator [(ctx, found)] || hasAggregator before) := by simp [hasAggregator]
        rw [split, plain, clean]
        rfl
      cases found with
      | selector body =>
          cases bare : body.hasBareCount with
          | true => exact ⟨[], ctx, body, tail, rfl, rfl, bare⟩
          | false =>
              rw [exposed, bare, Bool.false_or] at isExposed
              exact later isExposed rfl
      | inner st =>
          cases st with
          | aggregator body => cases isExposed
          | _ => exact later isExposed rfl

/-- With the flag cleared in front of it a branch with an exposed `COUNT` records more names. -/
theorem MainBranch.selCount_lt {mb : MainBranch} (isExposed : exposed mb.occurrences = true)
    (groupFilterVars : VarsMap) : ∃ path : List Identifier, path.head? = some mb.name ∧
      (Aliases.fold mb.occurrences ⟨groupFilterVars, ∅, ∅, false⟩).selCount path <
        (Aliases.fold mb.occurrences ⟨groupFilterVars, ∅, ∅, true⟩).selCount path := by
  obtain ⟨before, ctx, body, after, split, clean, bare⟩ := exists_of_exposed isExposed
  have member : (ctx, .selector body) ∈ mb.occurrences := by simp [split]
  have noAggregator : ctx.aggregator = none := by
    rcases mb.tree.aggregatorMet split with outside | ⟨above, inside, body', isAggregator, _⟩
    · exact outside
    · have found := List.any_eq_false.mp clean above inside
      simp [isAggregator] at found
  refine ⟨ctx.path, path_head member, ?_⟩
  let cleared := Aliases.fold before ⟨groupFilterVars, ∅, ∅, false⟩
  let set := Aliases.fold before ⟨groupFilterVars, ∅, ∅, true⟩
  have isCleared : cleared.seen = false := by rw [Aliases.seen_fold, clean]; rfl
  have isSet : set.seen = true := by rw [Aliases.seen_fold, clean]; rfl
  have seenLe : Aliases.SeenLe cleared set := fun _ => isSet
  have start : cleared.selCount ctx.path + 0 ≤ set.selCount ctx.path :=
    Aliases.SeenLe.selCount_fold before (fun seen => nomatch seen) (Nat.le_refl _)
  have more := body.recorded_length.2 bare
  have step : (cleared.step ctx (.selector body)).selCount ctx.path + 1 ≤
      (set.step ctx (.selector body)).selCount ctx.path := by
    simp only [Aliases.selCount_step, Aliases.added, ↓reduceIte, Aliases.aggIsPresent, noAggregator,
      isCleared, isSet, Option.isSome_none, Bool.false_or, Bool.not_false, Bool.not_true]
    omega
  have final := Aliases.SeenLe.selCount_fold after (seenLe.step ctx (.selector body)) step
  rw [split, Aliases.fold_append, Aliases.fold_append]
  exact final

theorem Aliases.AgreeBelow.selCount_eq {name : Identifier} {abs other : Aliases}
    (agree : AgreeBelow name abs other) {path : List Identifier} (head : path.head? = some name) :
    abs.selCount path = other.selCount path := by
  rw [selCount, selCount, agree.selVars path head]

namespace Reordered

variable {ast other : MainBranches} (reordered : Reordered ast other)

include reordered

/-- Where the same names are recorded for selectors the flags are the same. -/
theorem sameExposure_of_selVars {groupFilterVars : VarsMap}
    (same : (Aliases.fold ast.occurrences ⟨groupFilterVars, ∅, ∅, false⟩).selVars =
      (Aliases.fold other.occurrences ⟨groupFilterVars, ∅, ∅, false⟩).selVars) :
    SameExposure ast other := by
  intro mb member isExposed
  have first := MainBranches.aliases_below reordered.distinct member groupFilterVars
  have second := MainBranches.aliases_below reordered.symm.distinct
    (reordered.perm.mem_iff.mp member) groupFilterVars
  obtain ⟨path, head, fewer⟩ := MainBranch.selCount_lt isExposed groupFilterVars
  have counts := (first.selCount_eq head).symm.trans
    ((show Aliases.selCount path _ = Aliases.selCount path _ by
      rw [Aliases.selCount, same, Aliases.selCount]).trans (second.selCount_eq head))
  cases flag : ast.aggregatorInFront mb.name <;>
    cases flag' : other.aggregatorInFront mb.name <;>
    simp only [flag, flag'] at counts
  · rfl
  · omega
  · omega
  · rfl

end Reordered

/-! ### Order of main branches -/

/-- The analysis accepts both files or neither, and records the same for both. -/
structure OrderFree (ast other : MainBranches) : Prop where
  accepted : (∃ data, Accepted ast data) ↔ ∃ data, Accepted other data
  maps : ∀ data data', Accepted ast data → Accepted other data' →
    data.filterVars = data'.filterVars ∧ data.groupFilterVars = data'.groupFilterVars ∧
      data.aggrVars = data'.aggrVars ∧ data.selVars = data'.selVars

/-- The maps of a file that passes are those of the fold over its stages. -/
theorem selVars_of_run {ast : MainBranches} {data : InterRepr} (ran : Parser.run ast = .ok data) :
    ∃ parsed, Parser.parse ast = .ok parsed ∧ data.selVars =
      (Aliases.fold ast.occurrences ⟨parsed.groupFilterVars, ∅, ∅, false⟩).selVars := by
  obtain ⟨parsed, parsedOk, _, aliased⟩ := Parser.run_ok.mp ran
  obtain ⟨_, rfl⟩ := addAliases_ok.mp aliased
  obtain rfl := Parser.parse_ast parsedOk
  exact ⟨parsed, parsedOk, rfl⟩

/-- The order of main branches does not matter when every exposed `COUNT` stands behind an
aggregator in both files or in neither, and where a file is accepted it does not matter only
then. -/
theorem orderFree_sameExposure {ast other : MainBranches}
    (reordered : Reordered ast other) :
    (SameExposure ast other → OrderFree ast other) ∧
      ((∃ data, Accepted ast data ∨ Accepted other data) →
        OrderFree ast other → SameExposure ast other) := by
  constructor
  · intro same
    have forth : ∀ data, Accepted ast data → Accepted other { data with ast := other } :=
      fun data accepted => ⟨reordered.run same accepted.run, accepted.initialized⟩
    have back : ∀ data, Accepted other data → Accepted ast { data with ast := ast } :=
      fun data accepted => ⟨reordered.symm.run (reordered.sameExposure_symm same) accepted.run,
        accepted.initialized⟩
    refine ⟨⟨fun ⟨data, accepted⟩ => ⟨_, forth data accepted⟩,
      fun ⟨data, accepted⟩ => ⟨_, back data accepted⟩⟩, fun data data' accepted accepted' => ?_⟩
    obtain rfl := Except.ok.inj ((forth data accepted).run.symm.trans accepted'.run)
    exact ⟨rfl, rfl, rfl, rfl⟩
  · rintro ⟨data, either⟩ free
    obtain ⟨⟨data, accepted⟩, ⟨data', accepted'⟩⟩ :
        (∃ data, Accepted ast data) ∧ ∃ data, Accepted other data := by
      rcases either with accepted | accepted
      · exact ⟨⟨data, accepted⟩, free.accepted.mp ⟨data, accepted⟩⟩
      · exact ⟨free.accepted.mpr ⟨data, accepted⟩, ⟨data, accepted⟩⟩
    obtain ⟨_, _, _, selVars⟩ := free.maps data data' accepted accepted'
    obtain ⟨parsed, parsedOk, recorded⟩ := selVars_of_run accepted.run
    obtain ⟨parsed', parsedOk', recorded'⟩ := selVars_of_run accepted'.run
    obtain rfl := Except.ok.inj ((reordered.parse parsedOk).symm.trans parsedOk')
    exact reordered.sameExposure_of_selVars (recorded.symm.trans (selVars.trans recorded'))

/-- `one { selector: COUNT; }`. -/
def bareCount : MainBranch :=
  .mk .one (.stage (.selector ⟨⟨.name "COUNT".toList, none⟩, []⟩))

/-- `two { aggregator: c = COUNT(); selector: c; }`. -/
def counted : MainBranch :=
  .mk .two (.stage (.aggregator
    { body := ⟨⟨⟨"c".toList, rfl⟩, .withoutParam .count⟩, []⟩
      succ := .stage (.selector ⟨⟨⟨.name "c".toList, none⟩, []⟩⟩) }))

/-- `three { selector: BYTES; }`. -/
def plainBytes : MainBranch :=
  .mk ⟨"three".toList, rfl⟩ (.stage (.selector ⟨⟨.keyword .bytes, none⟩, []⟩))

theorem orderFree_sameExposure_plainBytes :
    (∃ data, Accepted ⟨bareCount, .cons counted (.cons plainBytes .nil)⟩ data) ∧
      OrderFree ⟨bareCount, .cons counted (.cons plainBytes .nil)⟩
        ⟨bareCount, .cons plainBytes (.cons counted .nil)⟩ := by
  have reordered : Reordered ⟨bareCount, .cons counted (.cons plainBytes .nil)⟩
      ⟨bareCount, .cons plainBytes (.cons counted .nil)⟩ :=
    ⟨.cons _ (.swap _ _ _), by decide⟩
  have same : SameExposure ⟨bareCount, .cons counted (.cons plainBytes .nil)⟩
      ⟨bareCount, .cons plainBytes (.cons counted .nil)⟩ := by
    intro mb member isExposed
    rcases List.mem_cons.mp member with rfl | later
    · rfl
    rcases List.mem_cons.mp later with rfl | last
    · cases isExposed
    · obtain rfl := List.mem_singleton.mp last
      cases isExposed
  obtain ⟨data, accepted, _⟩ := accepted_of_accepts
    ⟨bareCount, .cons counted (.cons plainBytes .nil)⟩ (fun _ => true) (by decide +kernel)
  exact ⟨⟨data, accepted⟩, (orderFree_sameExposure reordered).1 same⟩

/-- `COUNT` without an aggregator passes in front of an aggregator and not behind it. -/
theorem bareCount_not_orderFree :
    Reordered ⟨bareCount, .cons counted .nil⟩ ⟨counted, .cons bareCount .nil⟩ ∧
      (∃ data, Accepted ⟨bareCount, .cons counted .nil⟩ data) ∧
      ¬ OrderFree ⟨bareCount, .cons counted .nil⟩ ⟨counted, .cons bareCount .nil⟩ := by
  obtain ⟨data, accepted, _⟩ := accepted_of_accepts ⟨bareCount, .cons counted .nil⟩ (fun _ => true)
    (by decide +kernel)
  refine ⟨⟨.swap _ _ _, by decide⟩, ⟨data, accepted⟩, fun free => ?_⟩
  obtain ⟨data', accepted'⟩ := free.accepted.mp ⟨data, accepted⟩
  have refused : accepts ⟨counted, .cons bareCount .nil⟩ (fun _ => true) = false := by
    decide +kernel
  simp [accepts, accepted'.run, accepted'.initialized] at refused

end Policer.Parsing
