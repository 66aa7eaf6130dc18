import Policer.Aggregator.Denotation
import Policer.Aggregator.Template
import Policer.Parsing.Acceptance

/-!
# What the stages below an aggregator find in its records

A group-filter or a selector below an aggregator reads fields of the records it sends. The
semantic checks look at the outputs of selectors only, and they count the parameter of
`COUNT_DISTINCT` among the fields. `fields_sent_iff` says when all fields that are read are
sent.
-/

namespace Policer.Aggregator

open Policer.Lib Policer.Parsing Policer.Backend

/-! ### The records an aggregator sends -/

/-- An aggregator with these options sends records with a field of this name. -/
def Sends (options name : Str) : Prop :=
  ∃ config ids, Config.ofOptions options = .ok config ∧
    urCreateTemplate config.returnTemplateDef = some ids ∧ name ∈ ids.map Field.name

/-- `TIME_FIRST`, `TIME_LAST` or `COUNT`. -/
def IsStatic (name : Str) : Prop := name ∈ staticIds.map Field.name

instance (name : Str) : Decidable (IsStatic name) :=
  inferInstanceAs (Decidable (name ∈ staticIds.map Field.name))

/-- The name is that of a key or of the field of a function. -/
def Asked (keys : List Unirec) (functions : List AggrFuncWithParamS) (name : Str) : Prop :=
  (∃ un ∈ keys, stringUnirecEnum un = name) ∨ ∃ func ∈ functions, (outputField func).name = name

theorem isStatic_of_isTimeName {name : Str} (time : isTimeName name = true) : IsStatic name := by
  simp only [isTimeName, Bool.or_eq_true, beq_iff_eq] at time
  rcases time with rfl | rfl <;> decide

/-- The names a stage registers are those it asks for, without the times. -/
theorem registered_iff (ctx : Context) (body : AggregatorBody) (name : Str) :
    (∃ field ∈ (stageConfig ctx body).fields, field.name = name) ↔
      isTimeName name = false ∧ Asked (ctx.keys.take 63) (arrivingFunctions ctx body) name := by
  constructor
  · rintro ⟨field, member, rfl⟩
    obtain ⟨noTime, found⟩ := (mem_fields_iff ctx body field).mp member
    refine ⟨noTime, ?_⟩
    rcases List.mem_append.mp (List.mem_of_find?_eq_some found) with isKey | isFunction
    · obtain ⟨un, inKeys, rfl⟩ := List.mem_map.mp isKey
      exact Or.inl ⟨un, inKeys, rfl⟩
    · obtain ⟨func, arrives, rfl⟩ := List.mem_map.mp isFunction
      exact Or.inr ⟨func, arrives, rfl⟩
  · rintro ⟨noTime, asked⟩
    have inAsks : ∃ field ∈ stageAsks ctx body, field.name = name := by
      rcases asked with ⟨un, isKey, rfl⟩ | ⟨func, arrives, rfl⟩
      · exact ⟨keyField un, List.mem_append_left _ (List.mem_map_of_mem isKey), rfl⟩
      · exact ⟨functionField func, List.mem_append_right _ (List.mem_map_of_mem arrives), rfl⟩
    obtain ⟨field, inside, isName⟩ := inAsks
    have found : ((stageAsks ctx body).find? fun other => other.name == name).isSome = true :=
      List.find?_isSome.mpr ⟨field, inside, by simp [isName]⟩
    obtain ⟨first, isFirst⟩ := Option.isSome_iff_exists.mp found
    have same : first.name = name := by simpa using List.find?_some isFirst
    subst same
    exact ⟨first, (mem_fields_iff ctx body first).mpr ⟨noTime, isFirst⟩, rfl⟩

/-- The template of a stage: the static fields, the keys and the fields of its functions, as far as
their options arrive. -/
theorem sends_iff (ctx : Context) (body : AggregatorBody) (name : Str) :
    Sends (aggOptions ctx body) name ↔
      (aggOptions ctx body).length < maxString ∧
        (IsStatic name ∨ Asked (ctx.keys.take 63) (arrivingFunctions ctx body) name) := by
  have known := known_stageConfig ctx body
  have template := urCreateTemplate_of_known known
  have names : ∀ name, name ∈ (configIds (stageConfig ctx body) ++ staticIds).map Field.name ↔
      (∃ field ∈ (stageConfig ctx body).fields, field.name = name) ∨ IsStatic name := by
    intro name
    rw [List.map_append, List.mem_append, configIds, names_of_known known, List.mem_map]
    rfl
  constructor
  · rintro ⟨config, ids, read, created, member⟩
    obtain ⟨fits, rfl⟩ := ofOptions_eq_stageConfig read
    obtain rfl := Option.some.inj (template.symm.trans created)
    refine ⟨fits, ?_⟩
    rcases (names name).mp member with registered | isStatic
    · exact Or.inr ((registered_iff ctx body name).mp registered).2
    · exact Or.inl isStatic
  · rintro ⟨fits, isField⟩
    refine ⟨stageConfig ctx body, _, (ofOptions_aggOptions ctx body).trans (if_pos fits), template,
      (names name).mpr ?_⟩
    rcases isField with isStatic | asked
    · exact Or.inr isStatic
    · by_cases time : isTimeName name = true
      · exact Or.inr (isStatic_of_isTimeName time)
      · exact Or.inl ((registered_iff ctx body name).mpr ⟨by simpa using time, asked⟩)

/-! ### The fields a stage reads -/

/-- A name stands for the field of the variable above, and else for the field it spells. -/
def Resolves (ctx : Context) (name field : Str) : Prop :=
  (ctx.aliasAbove name ≠ [] ∧ field = ctx.aliasAbove name) ∨
    (ctx.aliasAbove name = [] ∧ field = name ∧
      (name = "COUNT".toList ∨ ∃ un, stringUnirecEnum un = name))

/-- The stage reads the field: as an output, in an expression, or by a name. -/
def ReadsField (ctx : Context) (node : Node) (field : Str) : Prop :=
  (∃ un, (un ∈ node.outputs ∨ un ∈ node.inExpressions) ∧ field = stringUnirecEnum un) ∨
    ∃ name, node.Names name ∧ Resolves ctx name field

/-- The stage reads the keyword where no check looks at it: in an expression, in the body of a
group-filter or as a quoted text. -/
def ReadsUnchecked (ctx : Context) (node : Node) (un : Unirec) : Prop :=
  un ∈ node.inExpressions ∨
    (node.Names (stringUnirecEnum un) ∧ ctx.aliasAbove (stringUnirecEnum un) = [])

/-- The keyword is a time, a key, or the parameter of a function that does not count. -/
def Requested (ctx : Context) (body : AggregatorBody) (un : Unirec) : Prop :=
  un = .timeFirst ∨ un = .timeLast ∨ un ∈ ctx.keys ∨
    ∃ func ∈ functionsOf body, func.funcName ≠ .countDistinct ∧ func.param = un

/-- The stage reads nothing that the checks let through in vain. -/
structure Supplied (ctx : Context) (body : AggregatorBody) (node : Node) : Prop where
  /-- The options fit into the buffer of the aggregator. -/
  fits : (∃ field, ReadsField ctx node field) → (aggOptions ctx body).length < maxString
  /-- What is asked for is asked for among the first options. -/
  arrives : ∀ field, ReadsField ctx node field → Asked ctx.keys (functionsOf body) field →
    IsStatic field ∨ Asked (ctx.keys.take 63) (arrivingFunctions ctx body) field
  unchecked : ∀ un, ReadsUnchecked ctx node un → Requested ctx body un
  /-- With neither keys nor parameters the check is off. -/
  checked : ∀ un ∈ node.outputs, un = .timeFirst ∨ un = .timeLast ∨
    ctx.keys ≠ [] ∨ functionsOf body ≠ []
  /-- The check takes what is only counted for a field. -/
  counted : ∀ un ∈ node.outputs, ⟨.countDistinct, un⟩ ∈ functionsOf body → Requested ctx body un

/-- A keyword is requested when the whole stage asks for a field of its name. -/
theorem requested_iff {ctx : Context} {body : AggregatorBody} {un : Unirec} :
    Requested ctx body un ↔
      IsStatic (stringUnirecEnum un) ∨ Asked ctx.keys (functionsOf body) (stringUnirecEnum un) := by
  have isStatic : IsStatic (stringUnirecEnum un) ↔ un = .timeFirst ∨ un = .timeLast := by
    cases un <;> decide
  have asked : Asked ctx.keys (functionsOf body) (stringUnirecEnum un) ↔
      un ∈ ctx.keys ∨
        ∃ func ∈ functionsOf body, func.funcName ≠ .countDistinct ∧ func.param = un := by
    refine or_congr ⟨?_, fun isKey => ⟨un, isKey, rfl⟩⟩
      (exists_congr fun func => and_congr_right fun _ => ?_)
    · rintro ⟨other, isKey, same⟩
      exact stringUnirecEnum_injective same ▸ isKey
    · have named := @keyField_name_eq_iff un func
      exact eq_comm.trans named
  rw [Requested, isStatic, asked, or_assoc]

theorem Asked.of_arriving {ctx : Context} {body : AggregatorBody} {name : Str}
    (asked : Asked (ctx.keys.take 63) (arrivingFunctions ctx body) name) :
    Asked ctx.keys (functionsOf body) name := by
  rcases asked with ⟨un, isKey, same⟩ | ⟨func, arrives, same⟩
  · exact Or.inl ⟨un, List.mem_of_mem_take isKey, same⟩
  · exact Or.inr ⟨func, List.mem_of_mem_take arrives, same⟩

/-- An alias names a static field or the field of a function. -/
theorem alias_asked {ctx : Context} {path : List Identifier} {body : AggregatorBody}
    (above : ctx.aggregator = some (path, body)) {name : Str}
    (isAliased : ctx.aliasAbove name ≠ []) :
    IsStatic (ctx.aliasAbove name) ∨ Asked ctx.keys (functionsOf body) (ctx.aliasAbove name) := by
  have isField : ctx.aliasAbove name = (body.lastField name).getD [] := by
    simp [Context.aliasAbove, above]
  cases found : body.lastField name with
  | none => simp [isField, found] at isAliased
  | some field =>
      rw [isField, found, Option.getD_some]
      obtain ⟨as, isLast, rfl⟩ := Option.map_eq_some_iff.mp found
      have member : as ∈ body.all := List.mem_reverse.mp (List.mem_of_find?_eq_some isLast)
      obtain ⟨variableName, func⟩ := as
      cases func with
      | withoutParam func =>
          cases func
          exact Or.inl (show IsStatic "COUNT".toList by decide)
      | withParam func =>
          refine Or.inr (Or.inr ⟨func, List.mem_filterMap.mpr ⟨_, member, rfl⟩, ?_⟩)
          exact functionField_name func

/-- An output that passes the check is requested, unless the check is off or the output is only
counted. -/
theorem requested_of_output {ast : MainBranches} {data : InterRepr}
    (ran : Parser.run ast = .ok data) {ctx : Context} {node : Node}
    (member : (ctx, node) ∈ ast.occurrences) {path : List Identifier} {body : AggregatorBody}
    (above : ctx.aggregator = some (path, body)) (supplied : Supplied ctx body node) {un : Unirec}
    (isOutput : un ∈ node.outputs) : Requested ctx body un := by
  have params : ctx.params = (functionsOf body).map AggrFuncWithParamS.param := by
    simp [Context.params, above]
  cases node with
  | inner st => cases isOutput
  | selector items =>
      rcases outputs_allowed_of_run ran member un isOutput with
        ⟨noKeys, noParams⟩ | first | last | isKey | isParam
      · rw [params, List.map_eq_nil_iff] at noParams
        rcases supplied.checked un isOutput with first | last | someKeys | someFunctions
        · exact Or.inl first
        · exact Or.inr (Or.inl last)
        · exact absurd noKeys someKeys
        · exact absurd noParams someFunctions
      · exact Or.inl first
      · exact Or.inr (Or.inl last)
      · exact Or.inr (Or.inr (Or.inl isKey))
      · rw [params] at isParam
        obtain ⟨⟨funcName, param⟩, isFunction, rfl⟩ := List.mem_map.mp isParam
        by_cases counts : funcName = .countDistinct
        · subst counts
          exact supplied.counted _ isOutput isFunction
        · exact Or.inr (Or.inr (Or.inr ⟨_, isFunction, counts, rfl⟩))

/-- The stages below an aggregator find all fields they read exactly when they are supplied. -/
theorem sends_iff_supplied {ast : MainBranches} {data : InterRepr} (ran : Parser.run ast = .ok data)
    {ctx : Context} {node : Node} (member : (ctx, node) ∈ ast.occurrences)
    {path : List Identifier} {body : AggregatorBody} (above : ctx.aggregator = some (path, body)) :
    (∀ field, ReadsField ctx node field → Sends (aggOptions ctx body) field) ↔
      Supplied ctx body node := by
  simp only [sends_iff]
  have readsOutput : ∀ un ∈ node.outputs, ReadsField ctx node (stringUnirecEnum un) :=
    fun un isOutput => Or.inl ⟨un, Or.inl isOutput, rfl⟩
  constructor
  · intro sent
    have requested : ∀ un, ReadsField ctx node (stringUnirecEnum un) → Requested ctx body un :=
      fun un reads => requested_iff.mpr ((sent _ reads).2.imp_right Asked.of_arriving)
    refine ⟨fun ⟨field, reads⟩ => (sent field reads).1, fun field reads _ => (sent field reads).2,
      ?_, ?_, fun un isOutput _ => requested un (readsOutput un isOutput)⟩
    · rintro un (inside | ⟨named, noAlias⟩)
      · exact requested un (Or.inl ⟨un, Or.inr inside, rfl⟩)
      · exact requested un (Or.inr ⟨_, named, Or.inr ⟨noAlias, rfl, Or.inr ⟨un, rfl⟩⟩⟩)
    · intro un isOutput
      rcases requested un (readsOutput un isOutput) with
        first | last | isKey | ⟨func, isFunction, _⟩
      · exact Or.inl first
      · exact Or.inr (Or.inl last)
      · exact Or.inr (Or.inr (Or.inl (List.ne_nil_of_mem isKey)))
      · exact Or.inr (Or.inr (Or.inr (List.ne_nil_of_mem isFunction)))
  · intro supplied field reads
    refine ⟨supplied.fits ⟨field, reads⟩, ?_⟩
    have whole : IsStatic field ∨ Asked ctx.keys (functionsOf body) field := by
      rcases reads with ⟨un, isOutput | inside, rfl⟩ | ⟨name, named, resolved⟩
      · exact requested_iff.mp (requested_of_output ran member above supplied isOutput)
      · exact requested_iff.mp (supplied.unchecked un (Or.inl inside))
      · rcases resolved with ⟨isAliased, rfl⟩ | ⟨noAlias, rfl, rfl | ⟨un, rfl⟩⟩
        · exact alias_asked above isAliased
        · exact Or.inl (by decide)
        · exact requested_iff.mp (supplied.unchecked un (Or.inr ⟨named, noAlias⟩))
    rcases whole with isStatic | asked
    · exact Or.inl isStatic
    · exact supplied.arrives field reads asked

/-- The options depend on the grouper and the window above. -/
theorem aggOptions_congr {ctx place : Context} (grouper : place.grouper = ctx.grouper)
    (window : place.window = ctx.window) (body : AggregatorBody) :
    aggOptions place body = aggOptions ctx body := by
  have keys : keyOptions place = keyOptions ctx := by
    rw [keyOptions, keyOptions, Context.keys, Context.keys, grouper]
  have windows : windowOptions place = windowOptions ctx := by
    rw [windowOptions, windowOptions, window]
  exact congrArg₂ (fun front middle => "param ".toList ++ front ++ middle ++ functionOptions body)
    keys windows

/-- Below each aggregator of a rule file that passes the checks, a stage reads only fields of the
records the aggregator sends exactly when it is supplied. -/
theorem fields_sent_iff {ast : MainBranches} {data : InterRepr} (accepted : Accepted ast data)
    {ctx : Context} {node : Node} (member : (ctx, node) ∈ ast.occurrences)
    {path : List Identifier} {body : AggregatorBody} (above : ctx.aggregator = some (path, body)) :
    (∃ place, (place, .inner (.aggregator body)) ∈ ast.occurrences ∧ place.path = path ∧
        aggOptions place body = aggOptions ctx body) ∧
      ((∀ field, ReadsField ctx node field → Sends (aggOptions ctx body) field) ↔
        Supplied ctx body node) := by
  refine ⟨?_, sends_iff_supplied accepted.run member above⟩
  obtain ⟨place, inside, isPath, grouper, window⟩ := MainBranches.aggregator_above member above
  refine ⟨place, inside, isPath, ?_⟩
  exact aggOptions_congr grouper.symm window.symm body

/-- `main { aggregator: v = SUM(PACKETS); group-filter: TTL > 5; selector: v; }`. -/
def filteredByTtl : MainBranches where
  first := .mk .main (.stage (.aggregator
    { body := { first := ⟨.v, .withParam ⟨.sum, .packets⟩⟩, rest := [] }
      succ := .stage (.groupFilter
        { body := "TTL > 5".toList
          succ := .stage ⟨⟨⟨.name "v".toList, none⟩, []⟩⟩ }) }))
  rest := .nil

theorem filteredByTtl_accepted : ∃ data, Accepted filteredByTtl data := by
  obtain ⟨data, accepted, _⟩ :=
    accepted_of_accepts filteredByTtl (fun _ => true) (by decide +kernel)
  exact ⟨data, accepted⟩

theorem fields_sent_iff_filteredByTtl :
    ∃ data, Accepted filteredByTtl data ∧ ∃ occ ∈ filteredByTtl.occurrences, ∃ path body,
      occ.1.aggregator = some (path, body) ∧
        ((∀ field, ReadsField occ.1 occ.2 field → Sends (aggOptions occ.1 body) field) ↔
          Supplied occ.1 body occ.2) := by
  obtain ⟨data, accepted⟩ := filteredByTtl_accepted
  refine ⟨data, accepted, _, List.mem_cons_of_mem _ List.mem_cons_self, _, _, rfl, ?_⟩
  exact (fields_sent_iff accepted (List.mem_cons_of_mem _ List.mem_cons_self) rfl).2

/-- The group-filter reads `TTL`, which the aggregator does not send. -/
theorem filteredByTtl_not_sent :
    ∃ data, Accepted filteredByTtl data ∧ ∃ occ ∈ filteredByTtl.occurrences, ∃ path body,
      occ.1.aggregator = some (path, body) ∧ ReadsField occ.1 occ.2 "TTL".toList ∧
        ¬ Sends (aggOptions occ.1 body) "TTL".toList := by
  obtain ⟨data, accepted⟩ := filteredByTtl_accepted
  refine ⟨data, accepted, _, List.mem_cons_of_mem _ List.mem_cons_self, _, _, rfl, ?_, ?_⟩
  · exact Or.inr ⟨_, ⟨["TTL".toList], by decide +kernel, List.mem_cons_self⟩,
      Or.inr ⟨by decide +kernel, rfl, Or.inr ⟨.ttl, rfl⟩⟩⟩
  · rw [sends_iff]
    rintro ⟨_, isStatic | ⟨un, isKey, _⟩ | ⟨func, arrives, same⟩⟩
    · exact absurd isStatic (by decide)
    · cases isKey
    · have only : func = ⟨.sum, .packets⟩ := List.mem_singleton.mp arrives
      subst only
      exact absurd same (by decide)

end Policer.Aggregator
