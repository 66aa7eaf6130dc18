import Policer.Parsing.Scoping

/-!
# Variables with an alias

Whatever `Parser` has recorded for a group-filter or a selector either has no alias or
is a variable some aggregator assigns, with the field of that assignment. So the name is
an identifier, and the alias is written in capital letters and underscores.
-/

namespace Policer.Parsing

open Policer.Lib

/-- The variable has the name and the field of an assignment. -/
def VarName.Aliased (var : VarName) : Prop := ∃ as : AggrAssignment, var = as.var

/-- The variable has no alias, or that of an assignment. -/
def VarName.Assigned (var : VarName) : Prop := var.alias_ = [] ∨ var.Aliased

/-- All variables of a map are assigned. -/
def AllAssigned (map : VarsMap) : Prop :=
  ∀ (key : Str) (vars : List VarName), map[key]? = some vars → ∀ var ∈ vars, var.Assigned

/-- All variables of a map are those of assignments. -/
def AllAssignments (map : VarsMap) : Prop :=
  ∀ (key : Str) (vars : List VarName), map[key]? = some vars →
    ∀ var ∈ vars, var.Aliased

/-- The characters of aliases. -/
def isAliasChar (c : Char) : Bool := c.isUpper || c == '_'

theorem isAliasChar_of_mem_unirec (un : Unirec) :
    ∀ c ∈ stringUnirecEnum un, isAliasChar c = true := by
  rw [← List.all_eq_true]
  cases un <;> decide

theorem isAliasChar_of_mem_field (func : AggrFuncType) :
    ∀ c ∈ func.field, isAliasChar c = true := by
  cases func with
  | withoutParam func =>
      cases func
      exact List.all_eq_true.mp (by decide)
  | withParam func =>
      obtain ⟨funcName, param⟩ := func
      unfold AggrFuncType.field
      dsimp only
      split
      · rename_i isCount
        subst isCount
        rw [← List.all_eq_true]
        cases param <;> decide
      · exact isAliasChar_of_mem_unirec param

/-- A field starts with a capital letter. -/
theorem field_eq_cons (func : AggrFuncType) :
    ∃ c rest, func.field = c :: rest ∧ c.isUpper = true := by
  have starts : func.field.head?.any Char.isUpper = true := by
    cases func with
    | withoutParam func =>
        cases func
        decide
    | withParam func =>
        obtain ⟨funcName, param⟩ := func
        unfold AggrFuncType.field
        dsimp only
        split
        · rename_i isCount
          subst isCount
          cases param <;> decide
        · cases param <;> decide
  cases text : func.field with
  | nil =>
      rw [text] at starts
      cases starts
  | cons c rest =>
      rw [text] at starts
      exact ⟨c, rest, rfl, starts⟩

theorem field_ne_nil (func : AggrFuncType) : func.field ≠ [] := by
  obtain ⟨c, rest, isField, _⟩ := field_eq_cons func
  rw [isField]
  exact List.cons_ne_nil c rest

theorem VarName.Assigned.giveAlias {agVec : List VarName}
    (assignments : ∀ ag ∈ agVec, ag.Aliased) {item : VarName}
    (assigned : item.Assigned) : (Alias4variables.giveAlias agVec item).Assigned := by
  unfold Alias4variables.giveAlias
  induction agVec generalizing item with
  | nil => exact assigned
  | cons head tail ih =>
      refine ih (fun ag member => assignments ag (List.mem_cons_of_mem _ member)) ?_
      dsimp only
      split
      · rename_i same
        obtain ⟨as, isVar⟩ := assignments head List.mem_cons_self
        refine Or.inr ⟨as, ?_⟩
        rw [same, ← isVar]
      · exact assigned

theorem AllAssigned.giveAliases {map : VarsMap} (assigned : AllAssigned map) (key : Str)
    {agVec : Option (List VarName)}
    (assignments : ∀ vars, agVec = some vars → ∀ ag ∈ vars, ag.Aliased) :
    AllAssigned (Alias4variables.giveAliases map key agVec) := by
  intro other vars found
  rw [Alias4variables.getElem?_giveAliases] at found
  split at found
  · obtain ⟨vec, isVec, rfl⟩ := Option.map_eq_some_iff.mp found
    cases agVec with
    | none => exact assigned key vec isVec
    | some ag =>
        intro var member
        obtain ⟨item, inVec, rfl⟩ := List.mem_map.mp member
        exact VarName.Assigned.giveAlias (assignments ag rfl) (assigned key vec isVec item inVec)
  · exact assigned other vars found

theorem AllAssigned.addAll {map : VarsMap} (assigned : AllAssigned map) (key : Str)
    (found : List Str) : AllAssigned (addAll map key (unaliased found)) := by
  intro other vars isVars
  rw [getElem?_addAll] at isVars
  split at isVars
  · obtain rfl := Option.some.inj isVars
    intro var member
    rcases List.mem_append.mp member with before | new
    · cases entry : map[key]? with
      | none => simp [entry] at before
      | some vec => exact assigned key vec entry var (by simpa [entry] using before)
    · obtain ⟨name, _, rfl⟩ := List.mem_map.mp new
      exact Or.inl rfl
  · exact assigned other vars isVars

/-- What is recorded while the aliases are added. -/
structure Aliases.Assigned (abs : Aliases) : Prop where
  groupFilterVars : AllAssigned abs.groupFilterVars
  selVars : AllAssigned abs.selVars
  aggrVars : AllAssignments abs.aggrVars

namespace Aliases.Assigned

variable {abs : Aliases}

theorem agVec (assigned : abs.Assigned) (above : Option (List Identifier × AggregatorBody)) :
    ∀ vars, abs.agVec above = some vars → ∀ ag ∈ vars, ag.Aliased := by
  intro vars found
  obtain ⟨place, _, entry⟩ := Option.bind_eq_some_iff.mp found
  exact assigned.aggrVars _ vars entry

/-- One stage keeps the variables assigned. -/
theorem step (assigned : abs.Assigned) (ctx : Context) (found : Node) :
    (abs.step ctx found).Assigned := by
  cases found with
  | selector body =>
      exact ⟨assigned.groupFilterVars,
        (assigned.selVars.addAll _ _).giveAliases _ (assigned.agVec ctx.aggregator),
        assigned.aggrVars⟩
  | inner st =>
      cases st with
      | aggregator body =>
          refine ⟨assigned.groupFilterVars, assigned.selVars, fun key vars entry => ?_⟩
          simp only [Aliases.step, getElem?_addAll] at entry
          split at entry
          · obtain rfl := Option.some.inj entry
            intro var member
            rcases List.mem_append.mp member with before | new
            · cases old : abs.aggrVars[stageKey .aggregator ctx.path]? with
              | none => simp [old] at before
              | some vec => exact assigned.aggrVars _ vec old var (by simpa [old] using before)
            · obtain ⟨as, _, rfl⟩ := List.mem_map.mp new
              exact ⟨as, rfl⟩
          · exact assigned.aggrVars key vars entry
      | groupFilter body =>
          exact ⟨assigned.groupFilterVars.giveAliases _ (assigned.agVec ctx.aggregator),
            assigned.selVars, assigned.aggrVars⟩
      | _ => exact assigned

/-- All stages keep the variables assigned. -/
theorem fold (stages : List (Context × Node)) (assigned : abs.Assigned) :
    (Aliases.fold stages abs).Assigned := by
  induction stages generalizing abs with
  | nil => exact assigned
  | cons head tail ih => exact ih (assigned.step head.1 head.2)

end Aliases.Assigned

/-- Every variable a run has recorded is assigned. -/
theorem assigned_of_run {ast : MainBranches} {data : InterRepr} (ran : Parser.run ast = .ok data) :
    AllAssigned data.groupFilterVars ∧ AllAssigned data.selVars := by
  obtain ⟨parsed, parsedOk, _, aliased⟩ := Parser.run_ok.mp ran
  obtain ⟨_, rfl⟩ := addAliases_ok.mp aliased
  have before := Parser.parse_ok parsedOk
  have start : Aliases.Assigned ⟨parsed.groupFilterVars, ∅, ∅, false⟩ := by
    refine ⟨fun key vars entry var member => ?_, fun key vars entry => by simp at entry,
      fun key vars entry => by simp at entry⟩
    rw [before.groupFilterVars] at entry
    obtain ⟨⟨ctx, found⟩, _, names⟩ := List.mem_filterMap.mp (List.mem_of_head? entry)
    cases found with
    | selector body => cases names
    | inner st =>
        cases st with
        | groupFilter body =>
            change (if _ then _ else none) = some vars at names
            split at names
            · obtain ⟨parsedNames, _, rfl⟩ := Option.map_eq_some_iff.mp names
              obtain ⟨name, _, rfl⟩ := List.mem_map.mp member
              exact Or.inl rfl
            · cases names
        | _ => cases names
  have final := start.fold parsed.ast.occurrences
  exact ⟨final.groupFilterVars, final.selVars⟩

end Policer.Parsing
