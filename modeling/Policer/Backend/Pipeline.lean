import Policer.Backend.Translation

/-!
# Feeding the pipeline

A record runs from the roots of the forest down to the selectors: a filter passes
it on when its body matches, an aggregator sends records of its own and a selector
emits. `buildRoot_translates` joins the shape of the forest to what it does: without
aggregators exactly the selectors emit whose filters all match.
-/

namespace Policer.Backend

open Policer.Lib Policer.Parsing

/-- What the stages do with a record. `ff3Eval` is the verdict of the filter compiled from
an option text, `aggSends` the records an aggregator sends on. -/
structure Components (ρ : Type) where
  ff3Eval : Str → ρ → Int
  aggSends : Str → ρ → List ρ

section Feed

variable {ρ : Type} (components : Components ρ)

mutual

/-- `eval` of a stage: the selectors that emit, each with the record it emits. -/
def BuilderStage.eval (record : ρ) : BuilderStage → List (Str × ρ)
  | .mk .filter options next =>
      if components.ff3Eval options record ≠ 0 then send record next else []
  | .mk .agg options next => (components.aggSends options record).flatMap fun out => send out next
  | .mk .selector options _ => [(options, record)]

/-- `Stage_intf::send`, which is also the loop of the backend over the main pipelines. -/
def send (record : ρ) : List BuilderStage → List (Str × ρ)
  | [] => []
  | successor :: rest => successor.eval record ++ send record rest

end

theorem send_append (record : ρ) (first second : BuilderVec) :
    send components record (first ++ second) =
      send components record first ++ send components record second := by
  induction first with
  | nil => simp [send]
  | cons head tail ih => simp [send, ih]

end Feed

/-! ### Selectors on their paths -/

/-- A selector with its context. -/
def selector? : Context × Node → Option (Context × SelectorBody)
  | (ctx, .selector body) => some (ctx, body)
  | _ => none

/-- The selectors of a tree in textual order. -/
def selectorsOf (stages : List (Context × Node)) : List (Context × SelectorBody) :=
  stages.filterMap selector?

theorem selectorsOf_append (first second : List (Context × Node)) :
    selectorsOf (first ++ second) = selectorsOf first ++ selectorsOf second :=
  List.filterMap_append

/-- All filter bodies above match. -/
def Passes {ρ : Type} (components : Components ρ) (record : ρ) (ctx : Context) : Prop :=
  ∀ body ∈ ctx.filters, components.ff3Eval body record ≠ 0

instance {ρ : Type} (components : Components ρ) (record : ρ) (ctx : Context) :
    Decidable (Passes components record ctx) :=
  inferInstanceAs (Decidable (∀ body ∈ ctx.filters, components.ff3Eval body record ≠ 0))

/-- What the selectors emit whose filters match, with interface numbers from `number` on. -/
def emissions {ρ : Type} (components : Components ρ) (record : ρ) (number : Nat)
    (selectors : List (Context × SelectorBody)) : List (Str × ρ) :=
  (selectors.zipIdx number).filterMap fun ((ctx, body), k) =>
    if Passes components record ctx then
      some (toStringNat k ++ ":".toList ++ selectorText body, record)
    else none

/-- No aggregator stands in a tree. -/
def WithoutAggregators (stages : List (Context × Node)) : Prop :=
  ∀ stage ∈ stages, ∀ body, stage.2 ≠ .inner (.aggregator body)

/-- No name of a map has an alias. -/
def Unaliased (map : VarsMap) : Prop :=
  ∀ (key : Str) (vars : List VarName), map[key]? = some vars → ∀ item ∈ vars, item.alias_ = []

/-- Names without aliases rename nothing. -/
theorem applyAliases_unaliased {map : VarsMap} (unaliased : Unaliased map) (stageBody key : Str)
    (bodyId : BodyId) : applyAliases stageBody map[key]? bodyId = stageBody := by
  have run : ∀ vars : List VarName, (∀ item ∈ vars, item.alias_ = []) →
      vars.foldl (applyAlias bodyId) stageBody = stageBody := by
    intro vars plain
    induction vars with
    | nil => rfl
    | cons head tail ih =>
        have first : applyAlias bodyId stageBody head = stageBody := by
          simp [applyAlias, plain head List.mem_cons_self]
        rw [List.foldl_cons, first]
        exact ih fun item member => plain item (List.mem_cons_of_mem _ member)
  cases found : map[key]? with
  | none => rfl
  | some vars => exact run vars (unaliased key vars found)

/-! ### Emissions of the translation -/

section Emissions

variable {ρ : Type} (components : Components ρ) (record : ρ)

theorem emissions_append (number : Nat) (first second : List (Context × SelectorBody)) :
    emissions components record number (first ++ second) =
      emissions components record number first ++
        emissions components record (number + first.length) second := by
  simp [emissions, List.zipIdx_append, List.filterMap_append]

/-- Below a filter that does not match nothing is emitted. -/
theorem emissions_blocked {number : Nat} {selectors : List (Context × SelectorBody)}
    (blocked : ∀ selector ∈ selectors, ¬ Passes components record selector.1) :
    emissions components record number selectors = [] := by
  refine List.filterMap_eq_nil_iff.mpr ?_
  rintro ⟨⟨ctx, body⟩, k⟩ member
  have fails := blocked (ctx, body) (List.fst_mem_of_mem_zipIdx member)
  simp [fails]

mutual

/-- Filters above a tree are above all its stages. -/
theorem filters_subset {ctx : Context} {occ : Context × Node} : (t : Tree) →
    occ ∈ t.occurrences ctx → ctx.filters ⊆ occ.1.filters
  | .selector _, member => by
      obtain rfl := List.mem_singleton.mp member
      exact List.Subset.refl _
  | .stage st next, member => by
      rcases List.mem_cons.mp member with rfl | below
      · exact List.Subset.refl _
      · refine List.Subset.trans ?_ (filters_subset next below)
        cases st <;> simp [Context.enter]
  | .branches _ items, member => filters_subset_branches items member

theorem filters_subset_branches {ctx : Context} {occ : Context × Node} : (items : Branches) →
    occ ∈ items.occurrences ctx → ctx.filters ⊆ occ.1.filters
  | .cons name tree rest, member => by
      rcases List.mem_append.mp member with here | later
      · exact @filters_subset (ctx.push name) occ tree here
      · exact filters_subset_branches rest later

end

/-- No selector below a filter that does not match passes. -/
theorem blocked_below {ctx : Context} {body : Str} {next : Tree} (inFilters : body ∈ ctx.filters)
    (rejects : components.ff3Eval body record = 0) :
    ∀ selector ∈ selectorsOf (next.occurrences ctx), ¬ Passes components record selector.1 := by
  rintro ⟨ctx', selector⟩ member passes
  obtain ⟨⟨_, found⟩, inside, isSelector⟩ := List.mem_filterMap.mp member
  cases found with
  | inner st => cases isSelector
  | selector found =>
      simp only [selector?, Option.some.injEq, Prod.mk.injEq] at isSelector
      obtain ⟨rfl, rfl⟩ := isSelector
      exact passes body (filters_subset next inside inFilters) rejects

end Emissions

section Translation

variable {data : InterRepr}

mutual

/-- Interface numbers advance by the number of selectors. -/
theorem translateTree_number {ctx : Context} : (t : Tree) → ∀ number,
    (translateTree data ctx t number).2 = number + (selectorsOf (t.occurrences ctx)).length
  | .selector _, _ => rfl
  | .stage _ next, number => translateTree_number next number
  | .branches _ items, number => translateBranches_number items number

theorem translateBranches_number {ctx : Context} : (items : Branches) → ∀ number,
    (translateBranches data ctx items number).2 =
      number + (selectorsOf (items.occurrences ctx)).length
  | .nil, _ => rfl
  | .cons name tree rest, number => by
      rw [translateBranches, translateBranches_number rest, translateTree_number tree,
        Branches.occurrences, selectorsOf_append, List.length_append, Nat.add_assoc]

end

variable {ρ : Type} (components : Components ρ) (record : ρ)

/-- A filter node whose body is above everything below it. -/
theorem send_filter {ctx : Context} {body : Str} {next : Tree} {below : BuilderVec} {number : Nat}
    (inFilters : body ∈ (ctx.enter (.filter body)).filters)
    (passesAbove : Passes components record ctx)
    (sends : Passes components record (ctx.enter (.filter body)) →
      send components record below = emissions components record number
        (selectorsOf (next.occurrences (ctx.enter (.filter body))))) :
    send components record [.mk .filter body below] =
      emissions components record number
        (selectorsOf (next.occurrences (ctx.enter (.filter body)))) := by
  by_cases rejects : components.ff3Eval body record = 0
  · rw [emissions_blocked components record (blocked_below components record inFilters rejects)]
    simp [send, BuilderStage.eval, rejects]
  · have passes : Passes components record (ctx.enter (.filter body)) := by
      intro other member
      rcases List.mem_append.mp member with above | here
      · exact passesAbove other above
      · rw [List.mem_singleton.mp here]
        exact rejects
    simp [send, BuilderStage.eval, rejects, sends passes]

mutual

/-- Where the filters above match, a tree without aggregators emits what its paths allow. -/
theorem send_translateTree (filters : Unaliased data.groupFilterVars)
    (selectors : Unaliased data.selVars) (ctx : Context) : (t : Tree) →
    WithoutAggregators (t.occurrences ctx) → Passes components record ctx → ∀ number,
      send components record (translateTree data ctx t number).1 =
        emissions components record number (selectorsOf (t.occurrences ctx))
  | .selector body, _, passes, number => by
      simp [translateTree, send, BuilderStage.eval, selectorOptions,
        applyAliases_unaliased selectors, emissions, selectorsOf, selector?, Tree.occurrences,
          passes]
  | .stage st next, without, passes, number => by
      have without' : WithoutAggregators (next.occurrences (ctx.enter st)) :=
        fun stage member => without stage (List.mem_cons_of_mem _ member)
      have below : Passes components record (ctx.enter st) → send components record
          (translateTree data (ctx.enter st) next number).1 =
            emissions components record number (selectorsOf (next.occurrences (ctx.enter st))) :=
        fun passes => send_translateTree filters selectors _ next without' passes number
      have same : selectorsOf ((Tree.stage st next).occurrences ctx) =
          selectorsOf (next.occurrences (ctx.enter st)) := rfl
      rw [same]
      cases st with
      | filter body =>
          exact send_filter components record (by simp [Context.enter]) passes below
      | groupFilter body =>
          simp only [translateTree, translateStage, groupFilterOptions,
            applyAliases_unaliased filters]
          exact send_filter components record (by simp [Context.enter]) passes below
      | grouper type => exact below passes
      | window body => exact below passes
      | aggregator body =>
          exact absurd rfl (without (ctx, .inner (.aggregator body)) List.mem_cons_self body)
  | .branches _ items, without, passes, number =>
      send_translateBranches filters selectors items without passes number

theorem send_translateBranches (filters : Unaliased data.groupFilterVars)
    (selectors : Unaliased data.selVars) {ctx : Context} : (items : Branches) →
    WithoutAggregators (items.occurrences ctx) → Passes components record ctx → ∀ number,
      send components record (translateBranches data ctx items number).1 =
        emissions components record number (selectorsOf (items.occurrences ctx))
  | .nil, _, _, _ => by simp [translateBranches, send, emissions, selectorsOf, Branches.occurrences]
  | .cons name tree rest, without, passes, number => by
      have here := send_translateTree filters selectors (ctx.push name) tree
        (fun stage member => without stage (List.mem_append_left _ member)) passes number
      have later := send_translateBranches filters selectors rest
        (fun stage member => without stage (List.mem_append_right _ member)) passes
        (translateTree data (ctx.push name) tree number).2
      rw [translateBranches, send_append, here, later, Branches.occurrences, selectorsOf_append,
        emissions_append, translateTree_number]

end

end Translation

/-! ### Rule files without aggregators -/

/-- Below no aggregator the context has none. -/
theorem aggregator_none {ast : MainBranches} (without : WithoutAggregators ast.occurrences)
    {occ : Context × Node} (member : occ ∈ ast.occurrences) : occ.1.aggregator = none := by
  obtain ⟨before, after, split⟩ := List.mem_iff_append.mp member
  rcases ast.tree.aggregatorMet split with outside | ⟨above, earlier, body, isAggregator, _⟩
  · exact outside
  · have inside : above ∈ ast.occurrences := split ▸ List.mem_append_left _ earlier
    exact absurd isAggregator (without above inside body)

/-- Without aggregators no name gets an alias. -/
theorem unaliased_fold : (stages : List (Context × Node)) → (abs : Aliases) →
    WithoutAggregators stages → (∀ occ ∈ stages, occ.1.aggregator = none) →
      Unaliased abs.groupFilterVars → Unaliased abs.selVars →
        Unaliased (Aliases.fold stages abs).groupFilterVars ∧
          Unaliased (Aliases.fold stages abs).selVars
  | [], _, _, _, filters, selectors => ⟨filters, selectors⟩
  | (ctx, found) :: rest, abs, without, outside, filters, selectors => by
      have none : ctx.aggregator = none := outside _ List.mem_cons_self
      have kept : ∀ (map : VarsMap) key,
          Alias4variables.giveAliases map key (abs.agVec ctx.aggregator) = map := by
        intro map key
        rw [none]
        cases found : map[key]? <;> simp [Alias4variables.giveAliases, Aliases.agVec, found]
      have step : Unaliased (abs.step ctx found).groupFilterVars ∧
          Unaliased (abs.step ctx found).selVars := by
        cases found with
        | selector body =>
            refine ⟨filters, ?_⟩
            intro key vars present item member
            simp only [Aliases.step, kept, getElem?_addAll] at present
            split at present
            · rename_i here
              obtain rfl := Option.some.inj present
              rcases List.mem_append.mp member with before | added
              · cases entry : abs.selVars[stageKey .selector ctx.path]? with
                | none => simp [entry] at before
                | some vars => exact selectors _ _ entry item (by simpa [entry] using before)
              · obtain ⟨name, _, rfl⟩ := List.mem_map.mp added
                rfl
            · exact selectors key vars present item member
        | inner st =>
            cases st with
            | aggregator body => exact absurd rfl (without _ List.mem_cons_self body)
            | groupFilter body => exact ⟨by simpa [Aliases.step, kept] using filters, selectors⟩
            | _ => exact ⟨filters, selectors⟩
      exact unaliased_fold rest (abs.step ctx found)
        (fun stage member => without stage (List.mem_cons_of_mem _ member))
        (fun occ member => outside occ (List.mem_cons_of_mem _ member)) step.1 step.2

/-- The parser records names without aliases. -/
theorem Parsed.unaliased {ast : MainBranches} {data : InterRepr}
    (parsed : Parser.Parsed ast data) : Unaliased data.groupFilterVars := by
  intro key vars present item member
  rw [parsed.groupFilterVars key] at present
  obtain ⟨⟨ctx, found⟩, _, named⟩ := List.mem_filterMap.mp (List.mem_of_head? present)
  cases found with
  | selector body => cases named
  | inner st =>
      cases st with
      | groupFilter body =>
          simp only [ParseFilterBodies.namesAt] at named
          split at named
          · obtain ⟨names, _, rfl⟩ := Option.map_eq_some_iff.mp named
            obtain ⟨name, _, rfl⟩ := List.mem_map.mp member
            rfl
          · cases named
      | _ => cases named

/-- The forest of an accepted rule file is its structural translation, and without aggregators
a record makes exactly those selectors emit whose filters all match, each once. -/
theorem buildRoot_translates {ast : MainBranches} {data : InterRepr}
    (ran : Parser.run ast = .ok data) (number : Nat) :
    buildRoot data number = .ok (translateTree data .root ast.tree number).1 ∧
      (WithoutAggregators ast.occurrences → ∀ (ρ : Type) (components : Components ρ) (record : ρ),
        send components record (translateTree data .root ast.tree number).1 =
          emissions components record number (selectorsOf ast.occurrences)) := by
  refine ⟨buildRoot_of_run ran number, fun without ρ components record => ?_⟩
  obtain ⟨parsed, parsedOk, _, aliased⟩ := Parser.run_ok.mp ran
  have before := Parser.parse_ok parsedOk
  obtain ⟨_, rfl⟩ := addAliases_ok.mp aliased
  obtain rfl := before.ast_eq
  have empty : Unaliased parsed.selVars := by
    intro key vars present
    rw [before.selVars] at present
    simp at present
  obtain ⟨filters, selectors⟩ := unaliased_fold parsed.ast.occurrences
    ⟨parsed.groupFilterVars, ∅, ∅, false⟩ without (fun _ => aggregator_none without)
    (Parsed.unaliased before) (before.selVars ▸ empty)
  exact send_translateTree components record filters selectors .root parsed.ast.tree without
    (by simp [Passes, Context.root]) number

/-- `main { filter: TTL > 64; branch one { grouper: DST_IP; window: type = active, range = 60
seconds; group-filter: PACKETS > 5; selector: DST_IP; } branch two { selector: SRC_PORT; } }`. -/
def filteredBranches : MainBranches where
  first := .mk .main (.stage (.filter
    { body := "TTL > 64".toList
      succ := .branches
        { first := .stage .one (.grouper
            { body := .keys ⟨.dstIP, []⟩
              succ := .stage (.window
                { body := ⟨.active, 60⟩
                  succ := .stage (.groupFilter
                    { body := "PACKETS > 5".toList
                      succ := .stage ⟨⟨.keyword .dstIP, none⟩, []⟩ }) }) })
          rest := [.stage .two (.selector ⟨⟨.keyword .srcPort, none⟩, []⟩)] } }))
  rest := .nil

theorem buildRoot_translates_filteredBranches :
    ∃ data, Parser.run filteredBranches = .ok data ∧
      buildRoot data 0 = .ok (translateTree data .root filteredBranches.tree 0).1 ∧
        ∀ (components : Components Nat) (record : Nat),
          send components record (translateTree data .root filteredBranches.tree 0).1 =
            emissions components record 0 (selectorsOf filteredBranches.occurrences) := by
  have without : WithoutAggregators filteredBranches.occurrences := by
    intro stage member body isAggregator
    have stages : filteredBranches.occurrences.map Prod.snd =
        [.inner (.filter "TTL > 64".toList), .inner (.grouper (.keys ⟨.dstIP, []⟩)),
          .inner (.window ⟨.active, 60⟩), .inner (.groupFilter "PACKETS > 5".toList),
          .selector ⟨⟨.keyword .dstIP, none⟩, []⟩, .selector ⟨⟨.keyword .srcPort, none⟩, []⟩] := rfl
    have named := List.mem_map_of_mem (f := Prod.snd) member
    rw [stages, isAggregator] at named
    simp at named
  obtain ⟨data, ran⟩ : ∃ data, Parser.run filteredBranches = .ok data :=
    exists_ok_of_isOk (by decide +kernel)
  obtain ⟨built, sends⟩ := buildRoot_translates ran 0
  exact ⟨data, ran, built, fun components record => sends without Nat components record⟩

end Policer.Backend
