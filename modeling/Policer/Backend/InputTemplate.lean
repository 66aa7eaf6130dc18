import Policer.Backend.StringFunctions
import Policer.Parsing.Scoping
import Std.Data.ExtTreeSet

/-!
# The template of the input

`Unirec_input_template_fields` gathers the keywords it meets in the syntax tree. The stages
read more: the bodies of filters and the expressions of selectors are not visited.
`inputTemplate_complete_iff` says when the gathered names cover what is read.
-/

namespace Policer.Backend

open Policer.Lib Policer.Parsing

/-! ### Gathering -/

/-- `std::set<std::string>`. -/
abbrev NameSet := Std.ExtTreeSet Str compare

/-- The visitor `Unirec_input_template_fields`. -/
def unirecInputTemplateFields : Visitor NameSet :=
  keywordVisitor fun unir => Action.update fun names => names.insert (stringUnirecEnum unir)

/-- `prepare_fields`, which the constructor runs. -/
def prepareFields (interRepr : InterRepr) : Except Failure NameSet :=
  unirecInputTemplateFields.visit interRepr.ast ∅

/-- The names of `filterVars` are inserted. -/
def insertFilterVars (filterVars : VarsMap) (names : NameSet) : NameSet :=
  filterVars.toList.foldl
    (fun names irItem => irItem.2.foldl (fun names item => names.insert item.name) names) names

/-- `get_input_template_fields`. -/
def getInputTemplateFields (interRepr : InterRepr) (names : NameSet) : Str :=
  let names := insertFilterVars interRepr.filterVars names
  let names := (names.insert "TIME_FIRST".toList).insert "TIME_LAST".toList
  (names.toList.foldl (fun output item => output ++ item ++ ",".toList) []).dropLast

/-- What `get_input_template_fields` of a new object gives. -/
def inputTemplateFields (interRepr : InterRepr) : Except Failure Str :=
  (prepareFields interRepr).map (getInputTemplateFields interRepr)

/-! ### What is gathered -/

theorem foldl_insert_mem (keywords : List Unirec) (names : NameSet) (name : Str) :
    name ∈ keywords.foldl (fun names un => names.insert (stringUnirecEnum un)) names ↔
      name ∈ names ∨ ∃ un ∈ keywords, stringUnirecEnum un = name := by
  induction keywords generalizing names with
  | nil => simp
  | cons head tail ih =>
      rw [List.foldl_cons, ih, Std.ExtTreeSet.mem_insert, Std.LawfulEqCmp.compare_eq_iff_eq]
      simp only [List.mem_cons, exists_eq_or_imp]
      tauto

/-- The constructor leaves the keywords of a visit. -/
theorem prepareFields_eq (interRepr : InterRepr) :
    prepareFields interRepr = .ok (interRepr.ast.visited.foldl
      (fun names un => names.insert (stringUnirecEnum un)) ∅) := by
  unfold prepareFields unirecInputTemplateFields
  rw [keywordVisitor_visit]
  exact Action.sequence_update (fun un (names : NameSet) => names.insert (stringUnirecEnum un)) _ _

/-- Names with commas behind them are joined with commas when the last comma is dropped. -/
theorem dropLast_foldl_comma (names : List Str) :
    (names.foldl (fun output item => output ++ item ++ ",".toList) []).dropLast =
      ",".toList.intercalate names := by
  cases names with
  | nil => rfl
  | cons head tail =>
      have comma : ",".toList = [','] := rfl
      rw [comma, foldl_separator, List.nil_append, List.dropLast_concat]

theorem comma_notMem_unirec (un : Unirec) : ',' ∉ stringUnirecEnum un := by
  cases un <;> decide

/-- The list holds the times and the keywords of a visit. -/
theorem inputTemplateFields_ok {interRepr : InterRepr} (noFilterVars : interRepr.filterVars = ∅) :
    ∃ fields, inputTemplateFields interRepr = .ok fields ∧
      ∀ name, name ∈ fields.splitOn ',' ↔
        ∃ un, (un = .timeFirst ∨ un = .timeLast ∨ un ∈ interRepr.ast.visited) ∧
          stringUnirecEnum un = name := by
  let gathered : NameSet := interRepr.ast.visited.foldl
    (fun names un => names.insert (stringUnirecEnum un)) ∅
  let names : NameSet := (gathered.insert "TIME_FIRST".toList).insert "TIME_LAST".toList
  have mem_names : ∀ name, name ∈ names.toList ↔
      ∃ un, (un = .timeFirst ∨ un = .timeLast ∨ un ∈ interRepr.ast.visited) ∧
        stringUnirecEnum un = name := by
    intro name
    have first : "TIME_FIRST".toList = stringUnirecEnum .timeFirst := rfl
    have last : "TIME_LAST".toList = stringUnirecEnum .timeLast := rfl
    rw [Std.ExtTreeSet.mem_toList]
    simp only [names, gathered, Std.ExtTreeSet.mem_insert, Std.LawfulEqCmp.compare_eq_iff_eq,
      foldl_insert_mem, first, last, Std.ExtTreeSet.not_mem_empty, false_or]
    constructor
    · rintro (isLast | isFirst | ⟨un, member, same⟩)
      · exact ⟨.timeLast, Or.inr (Or.inl rfl), isLast⟩
      · exact ⟨.timeFirst, Or.inl rfl, isFirst⟩
      · exact ⟨un, Or.inr (Or.inr member), same⟩
    · rintro ⟨un, rfl | rfl | member, same⟩
      · exact Or.inr (Or.inl same)
      · exact Or.inl same
      · exact Or.inr (Or.inr ⟨un, member, same⟩)
  refine ⟨",".toList.intercalate names.toList, ?_, fun name => ?_⟩
  · rw [inputTemplateFields, prepareFields_eq]
    refine congrArg Except.ok ?_
    rw [getInputTemplateFields, noFilterVars]
    exact dropLast_foldl_comma names.toList
  · have some : names.toList ≠ [] :=
      List.ne_nil_of_mem ((mem_names _).mpr ⟨.timeFirst, Or.inl rfl, rfl⟩)
    have comma : ",".toList = [','] := rfl
    rw [← mem_names, comma, List.splitOn_intercalate ',' ?_ some]
    intro text isText
    obtain ⟨un, _, rfl⟩ := (mem_names text).mp isText
    exact comma_notMem_unirec un

/-! ### What is read -/

/-- The stage reads the keyword from the records of the input; below an aggregator a group-filter
and a selector read what it sends. -/
def ReadsInput : Context × Node → Unirec → Prop
  | (_, .inner (.filter body)), un => NamedIn body (stringUnirecEnum un)
  | (_, .inner (.grouper type)), un => un ∈ type.all
  | (_, .inner (.window _)), _ => False
  | (_, .inner (.aggregator body)), un => un ∈ (functionsOf body).map AggrFuncWithParamS.param
  | (ctx, .inner (.groupFilter body)), un =>
      ctx.aggregator = none ∧ NamedIn body (stringUnirecEnum un)
  | (ctx, .selector body), un =>
      ctx.aggregator = none ∧
        (un ∈ body.outputs ∨ un ∈ body.inExpressions ∨ stringUnirecEnum un ∈ body.names)

/-- The stage reads the keyword where the visit does not find it: in the body of a filter, in an
expression or as a quoted text. -/
def ReadsUnvisited : Context × Node → Unirec → Prop
  | (_, .inner (.filter body)), un => NamedIn body (stringUnirecEnum un)
  | (ctx, .inner (.groupFilter body)), un =>
      ctx.aggregator = none ∧ NamedIn body (stringUnirecEnum un)
  | (ctx, .selector body), un =>
      ctx.aggregator = none ∧ (un ∈ body.inExpressions ∨ stringUnirecEnum un ∈ body.names)
  | _, _ => False

/-- The keyword is a time, or some stage has it where the visit goes: as a key, a parameter or an
output. -/
def Gathered (ast : MainBranches) (un : Unirec) : Prop :=
  un = .timeFirst ∨ un = .timeLast ∨ ∃ occ ∈ ast.occurrences, un ∈ occ.2.visited

theorem visited_or_unvisited {occ : Context × Node} {un : Unirec} (reads : ReadsInput occ un) :
    un ∈ occ.2.visited ∨ ReadsUnvisited occ un := by
  obtain ⟨ctx, found⟩ := occ
  cases found with
  | selector body =>
      obtain ⟨free, isOutput | inside⟩ := reads
      · exact Or.inl isOutput
      · exact Or.inr ⟨free, inside⟩
  | inner st =>
      cases st with
      | filter body => exact Or.inr reads
      | groupFilter body => exact Or.inr reads
      | window body => cases reads
      | grouper type => exact Or.inl reads
      | aggregator body => exact Or.inl reads

theorem reads_of_unvisited {occ : Context × Node} {un : Unirec} (reads : ReadsUnvisited occ un) :
    ReadsInput occ un := by
  obtain ⟨ctx, found⟩ := occ
  cases found with
  | selector body => exact ⟨reads.1, Or.inr reads.2⟩
  | inner st =>
      cases st with
      | filter body => exact reads
      | groupFilter body => exact reads
      | _ => cases reads

/-- No class records variables of filters. -/
theorem noFilterVars_of_run {ast : MainBranches} {data : InterRepr}
    (ran : Parser.run ast = .ok data) : data.filterVars = ∅ := by
  obtain ⟨parsed, parsedOk, _, aliased⟩ := Parser.run_ok.mp ran
  obtain ⟨_, rfl⟩ := addAliases_ok.mp aliased
  exact (Parser.parse_ok parsedOk).filterVars

/-- The list of input fields covers what is read exactly when every keyword in the body of a
filter, in an expression over the input or in quotes is gathered elsewhere. -/
theorem inputTemplate_complete_iff {ast : MainBranches} {data : InterRepr}
    (ran : Parser.run ast = .ok data) :
    ∃ fields, inputTemplateFields data = .ok fields ∧
      ((∀ occ ∈ ast.occurrences, ∀ un, ReadsInput occ un →
          stringUnirecEnum un ∈ fields.splitOn ',') ↔
        ∀ occ ∈ ast.occurrences, ∀ un, ReadsUnvisited occ un → Gathered ast un) := by
  obtain ⟨fields, made, members⟩ := inputTemplateFields_ok (noFilterVars_of_run ran)
  have listed : ∀ un, stringUnirecEnum un ∈ fields.splitOn ',' ↔ Gathered ast un := by
    intro un
    rw [members, Parser.run_ast ran, Gathered, MainBranches.visited]
    constructor
    · rintro ⟨other, gathered, same⟩
      obtain rfl := stringUnirecEnum_injective same
      simpa using gathered
    · intro gathered
      exact ⟨un, by simpa using gathered, rfl⟩
  refine ⟨fields, made, ?_⟩
  simp only [listed]
  constructor
  · exact fun covered occ member un reads => covered occ member un (reads_of_unvisited reads)
  · intro covered occ member un reads
    rcases visited_or_unvisited reads with visited | unvisited
    · exact Or.inr (Or.inr ⟨occ, member, visited⟩)
    · exact covered occ member un unvisited

/-- `main { filter: PACKETS > 5; selector: SRC_IP; }`. -/
def filteredSources : MainBranches where
  first := .mk .main (.stage (.filter
    { body := "PACKETS > 5".toList
      succ := .stage (.selector ⟨⟨⟨.keyword .srcIP, none⟩, []⟩⟩) }))
  rest := .nil

theorem inputTemplate_complete_iff_filteredSources :
    ∃ data fields, Parser.run filteredSources = .ok data ∧ inputTemplateFields data = .ok fields ∧
      ((∀ occ ∈ filteredSources.occurrences, ∀ un, ReadsInput occ un →
          stringUnirecEnum un ∈ fields.splitOn ',') ↔
        ∀ occ ∈ filteredSources.occurrences, ∀ un,
          ReadsUnvisited occ un → Gathered filteredSources un) := by
  obtain ⟨data, accepted, _⟩ :=
    accepted_of_accepts filteredSources (fun _ => true) (by decide +kernel)
  obtain ⟨fields, made, covers⟩ := inputTemplate_complete_iff accepted.run
  exact ⟨data, fields, accepted.run, made, covers⟩

/-- `PACKETS` is read by the filter and is not among the fields. -/
theorem filteredSources_incomplete :
    ∃ data fields, Accepted filteredSources data ∧ inputTemplateFields data = .ok fields ∧
      fields = "SRC_IP,TIME_FIRST,TIME_LAST".toList ∧
      ∃ occ ∈ filteredSources.occurrences,
        ReadsInput occ .packets ∧ stringUnirecEnum .packets ∉ fields.splitOn ',' := by
  obtain ⟨data, accepted, listed⟩ := accepted_of_accepts filteredSources
    (fun data => match inputTemplateFields data with
      | .ok fields => fields == "SRC_IP,TIME_FIRST,TIME_LAST".toList
      | .error _ => false) (by decide +kernel)
  split at listed
  · rename_i fields made
    refine ⟨data, fields, accepted, made, by simpa using listed, _, List.mem_cons_self, ?_, ?_⟩
    · exact ⟨[some "PACKETS".toList], by decide +kernel, by decide⟩
    · rw [beq_iff_eq.mp listed]
      decide
  · cases listed

end Policer.Backend
