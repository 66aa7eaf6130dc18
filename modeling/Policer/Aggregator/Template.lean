import Policer.Aggregator.Agg
import Policer.Aggregator.Registration

/-!
# The templates `Agg::init` fills

For a configuration whose names are known, `init_eq` gives the members of the new
aggregator in closed form: the keys, the plain fields and the counters in the order of
registration, and an output template of all of them behind which the static fields come.
-/

namespace Policer.Aggregator

open Policer.Lib Policer.Parsing Policer.Backend

/-! ### The output template -/

theorem comma_notMem_name (field : Field) : ',' ∉ field.name := by
  have clean : ∀ un, ',' ∉ stringUnirecEnum un := by
    intro un
    cases un <;> decide
  cases field with
  | unirec un => exact clean un
  | countDistinctOf param => cases param <;> decide
  | _ => decide

theorem name_ne_nil (field : Field) : field.name ≠ [] := by
  cases field with
  | unirec un => exact unirec_ne_nil un
  | countDistinctOf param => cases param <;> decide
  | _ => decide

/-- The fields every aggregator sends. -/
def staticIds : List Field := [.unirec .timeFirst, .unirec .timeLast, .count]

theorem tokens_staticFields : tokens ',' Config.staticFields = staticIds.map Field.name := by
  decide

/-- A list of names with commas behind them is cut into the names. -/
theorem tokens_names (ids : List Field) (rest : Str) :
    tokens ',' ((ids.flatMap fun id => id.name ++ ",".toList) ++ rest) =
      ids.map Field.name ++ tokens ',' rest := by
  induction ids with
  | nil => rfl
  | cons head tail ih =>
      have word := tokens_word_append (name_ne_nil head) (comma_notMem_name head)
        ((tail.flatMap fun id => id.name ++ ",".toList) ++ rest)
      simp only [List.flatMap_cons, List.append_assoc, List.map_cons, List.cons_append]
      exact word.trans (congrArg (head.name :: ·) ih)

theorem mapM_urGetIdByName (ids : List Field) :
    (ids.map Field.name).mapM urGetIdByName = some ids := by
  induction ids with
  | nil => rfl
  | cons head tail ih => simp [ih]

/-- The ids of the registered fields. -/
def configIds (config : Config) : List Field :=
  config.fields.filterMap fun field => urGetIdByName field.name

/-- Every name is known, and so is the field behind every counter. -/
def Known (field : ConfigField) : Prop :=
  (urGetIdByName field.name).isSome ∧
    (field.function = .countDistinct → field.associatedWithId.isSome)

theorem names_of_known {fields : List ConfigField} (known : ∀ field ∈ fields, Known field) :
    (fields.filterMap fun field => urGetIdByName field.name).map Field.name =
      fields.map ConfigField.name := by
  induction fields with
  | nil => rfl
  | cons head tail ih =>
      obtain ⟨id, isId⟩ := Option.isSome_iff_exists.mp (known head List.mem_cons_self).1
      have rest := ih fun field member => known field (List.mem_cons_of_mem _ member)
      simp only [List.filterMap_cons, isId, List.map_cons, name_of_urGetIdByName isId, rest]

/-- The output template has the registered fields and the static ones. -/
theorem urCreateTemplate_of_known {config : Config} (known : ∀ field ∈ config.fields, Known field) :
    urCreateTemplate config.returnTemplateDef = some (configIds config ++ staticIds) := by
  have names := names_of_known known
  have definition : config.returnTemplateDef =
      ((configIds config).flatMap fun id => id.name ++ ",".toList) ++ Config.staticFields := by
    have flat := congrArg (List.flatMap fun name => name ++ ",".toList) names
    simp only [List.flatMap_map] at flat
    rw [Config.returnTemplateDef, configIds, flat]
  rw [urCreateTemplate, definition, tokens_names, tokens_staticFields, ← List.map_append,
    mapM_urGetIdByName]

/-! ### The three kinds of fields -/

/-- The key a field adds. -/
def keyOf? (field : ConfigField) : Option Field :=
  if field.function = .key then urGetIdByName field.name else none

/-- The plain field a field adds. -/
def plainOf? (field : ConfigField) : Option PlainField :=
  if field.function = .key ∨ field.function = .countDistinct then none
  else
    (urGetIdByName field.name).map fun id =>
      { record := id
        process := getFunctionPtr field.function id.type
        avgField := if field.function = .avg then getAvgPtr field.function id.type else none
        rateField := if field.function = .rate then getAvgPtr field.function id.type else none }

theorem record_of_plainOf? {field : ConfigField} {plain : PlainField}
    (isField : plainOf? field = some plain) : urGetIdByName field.name = some plain.record := by
  unfold plainOf? at isField
  split at isField
  · cases isField
  · obtain ⟨id, isId, rfl⟩ := Option.map_eq_some_iff.mp isField
    exact isId

/-- The counter a field adds. -/
def ptrOf? (field : ConfigField) : Option PtrField :=
  if field.function = .countDistinct then
    (urGetIdByName field.name).bind fun id =>
      field.associatedWithId.map fun target =>
        { record := id
          target := target
          alloc := getAllocPtr .countDistinct target.type
          process := getFunctionPtr .countDistinct target.type
          make := getFinalMakePtr .countDistinct target.type
          dealloc := getDeallocPtr .countDistinct target.type }
  else none

/-- What is made of fields with names of their own has fields of its own. -/
theorem nodup_targets {β : Type} {fields : List ConfigField}
    (distinct : (fields.map ConfigField.name).Nodup) {pick : ConfigField → Option β}
    {target : β → Field}
    (named : ∀ field made, pick field = some made → urGetIdByName field.name = some (target made)) :
    ((fields.filterMap pick).map target).Nodup := by
  have names : (((fields.filterMap pick).map target).map Field.name).Sublist
      (fields.map ConfigField.name) := by
    clear distinct
    induction fields with
    | nil => simp
    | cons head tail ih =>
        cases picked : pick head with
        | none =>
            rw [List.filterMap_cons_none picked]
            exact ih.trans (List.sublist_cons_self ..)
        | some made =>
            rw [List.filterMap_cons_some picked, List.map_cons, List.map_cons, List.map_cons,
              name_of_urGetIdByName (named head made picked)]
            exact ih.cons_cons _
  exact List.Nodup.of_map _ (distinct.sublist names)

/-- The field has a function that is completed before sending. -/
def averages (field : ConfigField) : Bool := field.function = .avg || field.function = .rate

/-- What the loop of `init` makes of the templates. -/
def addFields (templates : List Field × OutputTemplate) (fields : List ConfigField) :
    List Field × OutputTemplate :=
  (templates.1 ++ fields.filterMap keyOf?,
    { templates.2 with
      fields := templates.2.fields ++ fields.filterMap plainOf?
      fieldsLikePtr := templates.2.fieldsLikePtr ++ fields.filterMap ptrOf?
      prepareToSend := templates.2.prepareToSend || fields.any averages ||
        fields.any fun field => field.function = .countDistinct
      avgPostprocessing := templates.2.avgPostprocessing || fields.any averages })

theorem addConfigField_eq (templates : List Field × OutputTemplate) {field : ConfigField}
    (known : Known field) :
    Agg.addConfigField templates field = some (addFields templates [field]) := by
  obtain ⟨id, isId⟩ := Option.isSome_iff_exists.mp known.1
  obtain ⟨function, name, associated⟩ := field
  simp only at isId
  cases function with
  | countDistinct =>
      obtain ⟨target, rfl⟩ := Option.isSome_iff_exists.mp (known.2 rfl)
      simp [Agg.addConfigField, isId, addFields, keyOf?, plainOf?, ptrOf?, averages,
        OutputTemplate.addPtrField]
  | _ =>
      simp [Agg.addConfigField, isId, addFields, keyOf?, plainOf?, ptrOf?, averages,
        OutputTemplate.addField]

theorem addFields_append (templates : List Field × OutputTemplate)
    (first second : List ConfigField) :
    addFields templates (first ++ second) = addFields (addFields templates first) second := by
  simp [addFields, Bool.or_assoc, Bool.or_left_comm]

theorem foldlM_addConfigField (fields : List ConfigField) (known : ∀ field ∈ fields, Known field)
    (templates : List Field × OutputTemplate) :
    fields.foldlM Agg.addConfigField templates = some (addFields templates fields) := by
  induction fields generalizing templates with
  | nil => simp [addFields]
  | cons head tail ih =>
      rw [List.foldlM_cons, addConfigField_eq templates (known head List.mem_cons_self)]
      have rest := ih (fun field member => known field (List.mem_cons_of_mem _ member))
        (addFields templates [head])
      rw [← addFields_append] at rest
      exact rest

/-- The members of a new aggregator. -/
theorem init_eq {unirec : Libunirec} {config : Config}
    (known : ∀ field ∈ config.fields, Known field) (now : Int) (once stop : Bool) :
    Agg.init unirec config now once stop = some
      { config := config
        keyTemp := config.fields.filterMap keyOf?
        outputTemp :=
          { unirec := unirec
            outTmplt := configIds config ++ staticIds
            fields := config.fields.filterMap plainOf?
            fieldsLikePtr := config.fields.filterMap ptrOf?
            prepareToSend := config.fields.any averages ||
              config.fields.any fun field => field.function = .countDistinct
            avgPostprocessing := config.fields.any averages }
        storage := ∅
        timeLastFromRecord := now
        once := once
        stop := stop
        sent := [] } := by
  simp [Agg.init, foldlM_addConfigField config.fields known, urCreateTemplate_of_known known,
    addFields, OutputTemplate.new]

/-- `init` fails on a name that is not known. -/
theorem known_of_init {unirec : Libunirec} {config : Config} {now : Int} {once stop : Bool}
    {agg : Agg} (initial : Agg.init unirec config now once stop = some agg) :
    ∀ field ∈ config.fields, Known field := by
  obtain ⟨templates, added, _⟩ := Option.bind_eq_some_iff.mp initial
  clear initial
  generalize ([], OutputTemplate.new unirec) = start, config.fields = fields at added
  induction fields generalizing start with
  | nil => simp
  | cons head tail ih =>
      rw [List.foldlM_cons] at added
      obtain ⟨middle, first, rest⟩ := Option.bind_eq_some_iff.mp added
      refine List.forall_mem_cons.mpr ⟨?_, ih middle rest⟩
      obtain ⟨id, isId, adds⟩ := Option.bind_eq_some_iff.mp first
      refine ⟨by rw [isId]; rfl, fun counts => ?_⟩
      rw [counts] at adds
      obtain ⟨target, isTarget, _⟩ := Option.map_eq_some_iff.mp adds
      rw [isTarget]
      rfl

/-- The functions of the output template call the library `init` finds. -/
theorem unirec_of_init {unirec : Libunirec} {config : Config} {now : Int} {once stop : Bool}
    {agg : Agg} (initial : Agg.init unirec config now once stop = some agg) :
    agg.outputTemp.unirec = unirec := by
  rw [init_eq (known_of_init initial)] at initial
  obtain rfl := Option.some.inj initial
  rfl

/-- The output template is that of a configuration. -/
structure OfConfig (config : Config) (agg : Agg) : Prop where
  fields : agg.outputTemp.fields = config.fields.filterMap plainOf?
  fieldsLikePtr : agg.outputTemp.fieldsLikePtr = config.fields.filterMap ptrOf?
  outTmplt : agg.outputTemp.outTmplt = configIds config ++ staticIds
  prepareToSend : agg.outputTemp.prepareToSend =
    (config.fields.any averages || config.fields.any fun field => field.function = .countDistinct)
  avgPostprocessing : agg.outputTemp.avgPostprocessing = config.fields.any averages

theorem ofConfig_of_init {unirec : Libunirec} {config : Config} {now : Int} {once stop : Bool}
    {agg : Agg} (initial : Agg.init unirec config now once stop = some agg) :
    OfConfig config agg := by
  rw [init_eq (known_of_init initial)] at initial
  obtain rfl := Option.some.inj initial
  exact ⟨rfl, rfl, rfl, rfl, rfl⟩

namespace OfConfig

variable {config : Config} {agg : Agg}

/-- A plain field is that of a registered name. -/
theorem plain (made : OfConfig config agg) {field : PlainField}
    (member : field ∈ agg.outputTemp.fields) :
    ∃ configured ∈ config.fields, plainOf? configured = some field ∧
      urGetIdByName configured.name = some field.record := by
  rw [made.fields] at member
  obtain ⟨configured, inConfig, isField⟩ := List.mem_filterMap.mp member
  exact ⟨configured, inConfig, isField, record_of_plainOf? isField⟩

/-- Each plain field has a field of its own. -/
theorem distinct (made : OfConfig config agg) :
    (agg.outputTemp.fields.map PlainField.record).Nodup := by
  rw [made.fields]
  exact nodup_targets config.distinct fun field plain => record_of_plainOf?

/-- No plain field is a time. -/
theorem noTime (made : OfConfig config agg) {field : PlainField}
    (member : field ∈ agg.outputTemp.fields) :
    field.record ≠ .unirec .timeFirst ∧ field.record ≠ .unirec .timeLast := by
  obtain ⟨configured, inConfig, _, isId⟩ := made.plain member
  have noTime := config.noTimes configured inConfig
  have name := name_of_urGetIdByName isId
  constructor <;> intro isTime
  all_goals
    rw [isTime] at name
    rw [← name] at noTime
    revert noTime
    decide

theorem inTemplate (made : OfConfig config agg) {field : PlainField}
    (member : field ∈ agg.outputTemp.fields) : field.record ∈ agg.outputTemp.outTmplt := by
  obtain ⟨configured, inConfig, _, isId⟩ := made.plain member
  rw [made.outTmplt, configIds]
  exact List.mem_append_left _ (List.mem_filterMap.mpr ⟨configured, inConfig, isId⟩)

theorem static_inTemplate (made : OfConfig config agg) {field : Field}
    (static : field ∈ staticIds) : field ∈ agg.outputTemp.outTmplt := by
  rw [made.outTmplt]
  exact List.mem_append_right _ static

theorem processFields_of_mem (made : OfConfig config agg) {field : PlainField}
    (member : field ∈ agg.outputTemp.fields) (src dst : Record) :
    agg.processFields src dst field.record =
      field.process.apply agg.outputTemp.unirec (src field.record) (dst field.record) :=
  Record.setAll_of_mem PlainField.record
    (fun field => field.process.apply agg.outputTemp.unirec (src field.record)) made.distinct
    member dst

end OfConfig

/-- A field without a function is not touched. -/
theorem processFields_other {agg : Agg} {field : Field}
    (other : field ∉ agg.outputTemp.fields.map PlainField.record) (src dst : Record) :
    agg.processFields src dst field = dst field :=
  Record.setAll_other PlainField.record
    (fun field => field.process.apply agg.outputTemp.unirec (src field.record)) other dst

/-- The second loop of `prepare_to_send` sets the field of every counter. -/
theorem foldlM_makeField {counters : List (PtrField × List Nat)} {record out : Record}
    (made : counters.foldlM Agg.makeField record = .ok out) :
    out = Record.setAll (fun counter => counter.1.record)
      (fun counter _ => BitVec.ofNat _ counter.2.length) counters record := by
  induction counters generalizing record with
  | nil =>
      cases made
      rfl
  | cons head tail ih =>
      rw [List.foldlM_cons] at made
      obtain ⟨middle, first, rest⟩ := bind_ok.mp made
      rw [ih rest]
      unfold Agg.makeField at first
      split at first
      · cases first
        rfl
      · cases first

/-! ### Templates of a stage -/

theorem functionField_known (func : AggrFuncWithParamS) :
    urGetIdByName (functionField func).name = some (outputField func) :=
  urGetIdByName_name (outputField func)

/-- The fields of a stage have known names. -/
theorem known_stageConfig (ctx : Context) (body : AggregatorBody) :
    ∀ field ∈ (stageConfig ctx body).fields, Known field := by
  intro field member
  rcases (mem_stageConfig_fields ctx body field).mp member with
    ⟨un, _, _, _, rfl⟩ | ⟨func, _, rfl⟩
  · have isId : urGetIdByName (keyField un).name = some (.unirec un) :=
      urGetIdByName_name (.unirec un)
    exact ⟨by rw [isId]; rfl, fun counts => by cases counts⟩
  · refine ⟨by rw [functionField_known]; rfl, fun counts => ?_⟩
    have isCount : func.funcName = .countDistinct := functionCode_injective counts
    simp [functionField, isCount]

end Policer.Aggregator
