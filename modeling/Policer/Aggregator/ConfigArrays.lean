import Policer.Aggregator.Template
import Policer.Lib.CString
import Policer.Lib.FirstOccurrences

/-!
# The arrays of a configuration

`Config` keeps its members in three arrays with one counter. For calls whose names are
keywords the arrays hold the fields of the model, which are the first ones asked for
under their names, the branch for full arrays is never taken, and the template is
written into exactly the characters that are allocated for it.
-/

namespace Policer.Aggregator

open Policer.Lib Policer.Parsing

/-! ### Members and calls -/

/-- Members of `Config` that describe fields. `associated_with_id` is written for counters only. -/
structure ConfigArrays where
  functions : Buffer FunctionCode
  fieldNames : Buffer Str
  associatedWithId : Buffer (Option Field)
  usedFields : Nat

/-- What a call prints instead of registering a field: the maximum number of assigned fields is
reached, the name is already used or cannot be assigned, or the aggregation is not known. -/
inductive Refusal where
  | maximumNumber (name : Str)
  | cannotBeAssigned (name : Str)
  | internalError (aggName : Str)
deriving DecidableEq, Repr

namespace ConfigArrays

/-- The constructor. -/
def new : ConfigArrays :=
  ⟨Buffer.alloc maxKeyFields, Buffer.alloc maxKeyFields, Buffer.alloc maxKeyFields, 0⟩

/-- `verify_field`. -/
def verifyField (self : ConfigArrays) (fieldName : Str) : Except BufferError Bool := do
  if isTimeName fieldName then return false
  else
    let names ← self.fieldNames.read self.usedFields
    return !names.contains fieldName

/-- `add_member`. -/
def addMember (self : ConfigArrays) (func : FunctionCode) (fieldName : Str) :
    Except BufferError (ConfigArrays × Option Refusal) := do
  if ¬ self.usedFields < maxKeyFields then return (self, some (.maximumNumber fieldName))
  else if !(← self.verifyField fieldName) then
    return (self, some (.cannotBeAssigned fieldName))
  else
    let fieldNames ← self.fieldNames.put self.usedFields fieldName
    let functions ← self.functions.put self.usedFields func
    return (⟨functions, fieldNames, self.associatedWithId, self.usedFields + 1⟩, none)

/-- `add_ptr_member`. -/
def addPtrMember (self : ConfigArrays) (aggName fieldName : Str) :
    Except BufferError (ConfigArrays × Option Refusal) := do
  let expandedAggName := aggName ++ "_".toList ++ fieldName
  if aggName ≠ "COUNT_DISTINCT".toList then return (self, some (.internalError aggName))
  else if ¬ self.usedFields + 1 < maxKeyFields then
    return (self, some (.maximumNumber expandedAggName))
  else if !(← self.verifyField expandedAggName) then
    return (self, some (.cannotBeAssigned expandedAggName))
  else
    let fieldNames ← self.fieldNames.put self.usedFields expandedAggName
    let associatedWithId ← self.associatedWithId.put self.usedFields (urGetIdByName fieldName)
    let functions ← self.functions.put self.usedFields .countDistinct
    return (⟨functions, fieldNames, associatedWithId, self.usedFields + 1⟩, none)

/-- `return_template_def`. -/
def returnTemplateDef (self : ConfigArrays) : Except BufferError (Buffer Char) := do
  let names ← self.fieldNames.read self.usedFields
  let len := names.foldl (fun len name => len + (name.length + 1)) (Config.staticFields.length + 1)
  let tmpltDef ← (Buffer.alloc len).put 0 '\x00'
  let tmpltDef ← names.foldlM
    (fun tmpltDef name => tmpltDef.strcat name >>= fun tmpltDef => tmpltDef.strcat ",".toList)
    tmpltDef
  tmpltDef.strcat Config.staticFields

end ConfigArrays

/-- A call with the name of a keyword. -/
inductive MemberCall where
  | member (func : FunctionCode) (un : Unirec)
  | ptrMember (un : Unirec)
deriving DecidableEq

namespace MemberCall

/-- The field a call asks for. -/
def asks : MemberCall → ConfigField
  | .member func un => ⟨func, stringUnirecEnum un, none⟩
  | .ptrMember un =>
      ⟨.countDistinct, (Field.countDistinctOf un).name, urGetIdByName (stringUnirecEnum un)⟩

/-- The effect of a call on the arrays. -/
def apply (arrays : ConfigArrays) : MemberCall → Except BufferError (ConfigArrays × Option Refusal)
  | .member func un => arrays.addMember func (stringUnirecEnum un)
  | .ptrMember un => arrays.addPtrMember "COUNT_DISTINCT".toList (stringUnirecEnum un)

/-- The effect of a call on the configuration. -/
def applyTo (config : Config) : MemberCall → Config
  | .member func un => config.addMember func (stringUnirecEnum un)
  | .ptrMember un => config.addPtrMember (stringUnirecEnum un)

/-- One call after the other, with what each of them prints. -/
def run (calls : List MemberCall) (arrays : ConfigArrays) :
    Except BufferError (ConfigArrays × List (Option Refusal)) :=
  calls.foldlM (fun state call => (call.apply state.1).map fun next =>
    (next.1, state.2 ++ [next.2])) (arrays, [])

/-- The configuration the calls make. -/
def config (calls : List MemberCall) : Config := calls.foldl applyTo .new

/-! ### The fields of the configuration -/

theorem asks_name_mem (call : MemberCall) : call.asks.name ∈ Config.askedNames := by
  cases call with
  | member _ un => exact List.mem_append_left _ (List.mem_map_of_mem (Field.mem_keywords un))
  | ptrMember un =>
      exact List.mem_append_right _ (List.mem_map.mpr ⟨un, Field.mem_keywords un, rfl⟩)

theorem applyTo_fields {config : Config} (room : config.fields.length + 1 < maxKeyFields)
    (call : MemberCall) :
    (call.applyTo config).fields =
      if config.verifyField call.asks.name = true then config.fields ++ [call.asks]
      else config.fields := by
  cases call with
  | member func un => exact config.addMember_fields func _ (by omega)
  | ptrMember un => exact config.addPtrMember_fields _ room

theorem asked_applyTo {config : Config}
    (asked : ∀ field ∈ config.fields, field.name ∈ Config.askedNames) (call : MemberCall) :
    ∀ field ∈ (call.applyTo config).fields, field.name ∈ Config.askedNames := by
  intro field member
  rw [applyTo_fields (Config.room_of_asked asked)] at member
  split at member
  · rcases List.mem_append.mp member with before | added
    · exact asked field before
    · rw [List.mem_singleton.mp added]
      exact call.asks_name_mem
  · exact asked field member

theorem config_append_singleton (calls : List MemberCall) (call : MemberCall) :
    config (calls ++ [call]) = call.applyTo (config calls) := by
  simp [config, List.foldl_append]

theorem asked_config (calls : List MemberCall) :
    ∀ field ∈ (config calls).fields, field.name ∈ Config.askedNames := by
  induction calls using List.reverseRecOn with
  | nil => simp [config, Config.new]
  | append_singleton calls call inductionHypothesis =>
      rw [config_append_singleton]
      exact asked_applyTo inductionHypothesis call

/-- The arrays have room for another call. -/
theorem room (calls : List MemberCall) : (config calls).fields.length + 1 < maxKeyFields :=
  Config.room_of_asked (asked_config calls)

/-- The fields are the first ones asked for under names that are no times. -/
theorem config_fields (calls : List MemberCall) :
    (config calls).fields = firstsBy ConfigField.name
      ((calls.map asks).filter fun field => !isTimeName field.name) := by
  induction calls using List.reverseRecOn with
  | nil => rfl
  | append_singleton calls call inductionHypothesis =>
      rw [config_append_singleton, applyTo_fields (room calls), List.map_append,
        List.filter_append, List.map_singleton, Config.verifyField, inductionHypothesis]
      cases time : isTimeName call.asks.name with
      | true => simp [time]
      | false =>
          have last : ([call.asks].filter fun field => !isTimeName field.name) = [call.asks] := by
            simp [time]
          rw [last, firstsBy_append_singleton]
          generalize ((calls.map asks).filter fun field => !isTimeName field.name) = asked
          by_cases used : call.asks.name ∈ asked.map ConfigField.name
          · have contained := List.contains_iff_mem.mpr
              ((mem_map_firstsBy ConfigField.name).mpr used)
            rw [if_pos used, contained]
            rfl
          · have fresh := mt (mem_map_firstsBy ConfigField.name).mp used
            rw [if_neg used, Bool.eq_false_iff.mpr (mt List.contains_iff_mem.mp fresh)]
            rfl

end MemberCall

/-! ### What the arrays hold -/

namespace ConfigArrays

/-- The arrays hold the fields at the indexes below the counter. -/
structure Holds (arrays : ConfigArrays) (fields : List ConfigField) : Prop where
  usedFields : arrays.usedFields = fields.length
  functions : arrays.functions.Lists (fields.map ConfigField.function)
  fieldNames : arrays.fieldNames.Lists (fields.map ConfigField.name)
  associated : ∀ index (inside : index < fields.length), fields[index].associatedWithId.isSome →
    arrays.associatedWithId.get index = .ok fields[index].associatedWithId
  sizes : arrays.functions.length = maxKeyFields ∧ arrays.fieldNames.length = maxKeyFields ∧
    arrays.associatedWithId.length = maxKeyFields

variable {arrays : ConfigArrays} {config : Config}

theorem Holds.new : new.Holds Config.new.fields where
  usedFields := rfl
  functions := fun _ inside => by cases inside
  fieldNames := fun _ inside => by cases inside
  associated := fun _ inside => by cases inside
  sizes := ⟨List.length_replicate, List.length_replicate, List.length_replicate⟩

theorem Holds.read (holds : arrays.Holds config.fields) :
    arrays.fieldNames.read arrays.usedFields = .ok (config.fields.map ConfigField.name) := by
  have names := holds.fieldNames.read
  rwa [List.length_map, ← holds.usedFields] at names

theorem Holds.verifyField (holds : arrays.Holds config.fields) (name : Str) :
    arrays.verifyField name = .ok (config.verifyField name) := by
  cases time : isTimeName name with
  | true => simp [ConfigArrays.verifyField, Config.verifyField, time, pure, Except.pure]
  | false =>
      rw [ConfigArrays.verifyField, holds.read]
      simp [Config.verifyField, time, bind, Except.bind, pure, Except.pure]

/-- A field without a counter is written behind the others. -/
theorem Holds.push (holds : arrays.Holds config.fields)
    (room : config.fields.length < maxKeyFields) (func : FunctionCode) (name : Str) :
    Holds ⟨arrays.functions.set arrays.usedFields (some func),
        arrays.fieldNames.set arrays.usedFields (some name), arrays.associatedWithId,
        arrays.usedFields + 1⟩
      (config.fields ++ [⟨func, name, none⟩]) := by
  obtain ⟨used, functions, names, associated, sizes⟩ := holds
  refine ⟨by simp [used], ?_, ?_, ?_, by simpa using sizes⟩
  · have pushed := functions.set (by rw [List.length_map, sizes.1]; exact room) func
    rw [List.length_map, ← used] at pushed
    rwa [List.map_append]
  · have pushed := names.set (by rw [List.length_map, sizes.2.1]; exact room) name
    rw [List.length_map, ← used] at pushed
    rwa [List.map_append]
  · intro index inside isSome
    by_cases before : index < config.fields.length
    · rw [List.getElem_append_left before] at isSome ⊢
      exact associated index before isSome
    · rw [List.length_append, List.length_singleton] at inside
      obtain rfl : index = config.fields.length := by omega
      rw [List.getElem_concat_length rfl] at isSome
      cases isSome

/-- A counter is written behind the others. -/
theorem Holds.pushPtr (holds : arrays.Holds config.fields)
    (room : config.fields.length < maxKeyFields) (name : Str) (id : Option Field) :
    Holds ⟨arrays.functions.set arrays.usedFields (some .countDistinct),
        arrays.fieldNames.set arrays.usedFields (some name),
        arrays.associatedWithId.set arrays.usedFields (some id), arrays.usedFields + 1⟩
      (config.fields ++ [⟨.countDistinct, name, id⟩]) := by
  have plain := holds.push room .countDistinct name
  obtain ⟨used, _, _, associated, sizes⟩ := holds
  refine ⟨by simp [used], by simpa using plain.functions, by simpa using plain.fieldNames, ?_,
    by simpa using sizes⟩
  intro index inside isSome
  by_cases before : index < config.fields.length
  · rw [List.getElem_append_left before] at isSome ⊢
    rw [Buffer.get_set_other (by omega)]
    exact associated index before isSome
  · rw [List.length_append, List.length_singleton] at inside
    obtain rfl : index = config.fields.length := by omega
    rw [List.getElem_concat_length rfl, ← used,
      Buffer.get_set_self (by rw [sizes.2.2, used]; exact room)]

/-- `add_member` writes what it registers in the configuration. -/
theorem Holds.addMember (holds : arrays.Holds config.fields)
    (room : config.fields.length < maxKeyFields) (func : FunctionCode) (name : Str) :
    ∃ next refusal, arrays.addMember func name = .ok (next, refusal) ∧
      next.Holds (config.addMember func name).fields ∧
      ∀ other, refusal ≠ some (.maximumNumber other) := by
  have notFull : ¬ ¬ arrays.usedFields < maxKeyFields := by
    rw [holds.usedFields]
    exact not_not.mpr room
  have inNames : arrays.usedFields < arrays.fieldNames.length := by
    rw [holds.sizes.2.1, holds.usedFields]
    exact room
  have inFunctions : arrays.usedFields < arrays.functions.length := by
    rw [holds.sizes.1, holds.usedFields]
    exact room
  rw [config.addMember_fields func name room, ConfigArrays.addMember, if_neg notFull,
    holds.verifyField name]
  cases free : config.verifyField name with
  | false => exact ⟨arrays, some (.cannotBeAssigned name), rfl, by simpa using holds, by simp⟩
  | true =>
      have pushed := holds.push room func name
      refine ⟨_, none, ?_, by simpa using pushed, by simp⟩
      simp only [bind, Except.bind, Bool.not_true, Bool.false_eq_true, if_false,
        Buffer.put_of_lt inNames, Buffer.put_of_lt inFunctions]
      rfl

/-- `add_ptr_member` writes what it registers in the configuration. -/
theorem Holds.addPtrMember (holds : arrays.Holds config.fields)
    (room : config.fields.length + 1 < maxKeyFields) (name : Str) :
    ∃ next refusal, arrays.addPtrMember "COUNT_DISTINCT".toList name = .ok (next, refusal) ∧
      next.Holds (config.addPtrMember name).fields ∧
      ∀ other, refusal ≠ some (.maximumNumber other) := by
  have space : config.fields.length < maxKeyFields := by omega
  have notFull : ¬ ¬ arrays.usedFields + 1 < maxKeyFields := by
    rw [holds.usedFields]
    exact not_not.mpr room
  have inNames : arrays.usedFields < arrays.fieldNames.length := by
    rw [holds.sizes.2.1, holds.usedFields]
    exact space
  have inIds : arrays.usedFields < arrays.associatedWithId.length := by
    rw [holds.sizes.2.2, holds.usedFields]
    exact space
  have inFunctions : arrays.usedFields < arrays.functions.length := by
    rw [holds.sizes.1, holds.usedFields]
    exact space
  rw [config.addPtrMember_fields name room, ConfigArrays.addPtrMember]
  simp only [ne_eq, not_true_eq_false, if_false, if_neg notFull, holds.verifyField]
  generalize "COUNT_DISTINCT".toList ++ "_".toList ++ name = expanded
  cases free : config.verifyField expanded with
  | false =>
      exact ⟨arrays, some (.cannotBeAssigned expanded), rfl, by simpa using holds, by simp⟩
  | true =>
      have pushed := holds.pushPtr space expanded (urGetIdByName name)
      refine ⟨_, none, ?_, by simpa using pushed, by simp⟩
      simp only [bind, Except.bind, Bool.not_true, Bool.false_eq_true, if_false,
        Buffer.put_of_lt inNames, Buffer.put_of_lt inIds, Buffer.put_of_lt inFunctions]
      rfl

end ConfigArrays

namespace MemberCall

/-- The arrays hold the fields of the configuration after every run of calls, and no call finds
them full. -/
theorem run_holds (calls : List MemberCall) :
    ∃ arrays refusals, run calls .new = .ok (arrays, refusals) ∧
      arrays.Holds (config calls).fields ∧
      ∀ name, some (.maximumNumber name) ∉ refusals := by
  induction calls using List.reverseRecOn with
  | nil => exact ⟨.new, [], rfl, .new, by simp⟩
  | append_singleton calls call inductionHypothesis =>
      obtain ⟨arrays, refusals, ran, holds, noMaximum⟩ := inductionHypothesis
      have stepped : ∃ next refusal, call.apply arrays = .ok (next, refusal) ∧
          next.Holds (call.applyTo (config calls)).fields ∧
          ∀ name, refusal ≠ some (.maximumNumber name) := by
        have space := room calls
        cases call with
        | member func un => exact holds.addMember (by omega) func _
        | ptrMember un => exact holds.addPtrMember space _
      obtain ⟨next, refusal, applied, nextHolds, notFull⟩ := stepped
      refine ⟨next, refusals ++ [refusal], ?_, ?_, fun name => ?_⟩
      · rw [run, List.foldlM_append]
        refine bind_ok.mpr ⟨_, ran, ?_⟩
        rw [List.foldlM_cons, applied]
        rfl
      · rw [config_append_singleton]
        exact nextHolds
      · rw [List.mem_append, List.mem_singleton, not_or]
        exact ⟨noMaximum name, (notFull name).symm⟩

end MemberCall

/-! ### The template definition -/

/-- The names of the output template in order. -/
def Config.templateNames (config : Config) : List Str :=
  config.fields.map ConfigField.name ++
    ["TIME_FIRST".toList, "TIME_LAST".toList, "COUNT".toList]

theorem Config.returnTemplateDef_eq (config : Config) :
    config.returnTemplateDef = ",".toList.intercalate config.templateNames := by
  rw [Config.returnTemplateDef, Config.templateNames]
  induction config.fields with
  | nil => rfl
  | cons head tail inductionHypothesis =>
      rw [List.flatMap_cons, List.append_assoc, inductionHypothesis, List.map_cons,
        List.cons_append, List.intercalate_cons_of_ne_nil (by simp)]

/-- `COUNT` and the times are no names a field is registered with. -/
theorem MemberCall.templateNames_nodup (calls : List MemberCall) :
    (config calls).templateNames.Nodup := by
  refine List.nodup_append.mpr ⟨(config calls).distinct, by decide, ?_⟩
  rintro name member other static rfl
  obtain ⟨field, registered, rfl⟩ := List.mem_map.mp member
  have noTime := (config calls).noTimes field registered
  have asked := asked_config calls field registered
  simp only [List.mem_cons, List.not_mem_nil, or_false] at static
  rcases static with isFirst | isLast | isCount
  · rw [isFirst] at noTime
    revert noTime
    decide
  · rw [isLast] at noTime
    revert noTime
    decide
  · rw [isCount] at asked
    revert asked
    decide

/-- The texts `return_template_def` appends. -/
def templateTexts (names : List Str) : List Str :=
  (names.flatMap fun name => [name, ",".toList]) ++ [Config.staticFields]

/-- The appended texts one after the other. -/
theorem foldlM_templateTexts {β ε : Type} (step : β → Str → Except ε β) (names : List Str)
    (initial : β) :
    (names.foldlM (fun state name => step state name >>= fun state => step state ",".toList)
        initial >>= fun state => step state Config.staticFields) =
      (templateTexts names).foldlM step initial := by
  induction names generalizing initial with
  | nil => simp [templateTexts]
  | cons head tail inductionHypothesis =>
      simp only [templateTexts, List.flatMap_cons, List.cons_append, List.nil_append,
        List.foldlM_cons, bind_assoc] at inductionHypothesis ⊢
      simp only [inductionHypothesis]

theorem foldl_length_names (names : List Str) (initial : Nat) :
    names.foldl (fun len name => len + (name.length + 1)) (Config.staticFields.length + initial) =
      (templateTexts names).flatten.length + initial := by
  induction names generalizing initial with
  | nil => rfl
  | cons head tail inductionHypothesis =>
      rw [List.foldl_cons, Nat.add_assoc, inductionHypothesis]
      simp only [templateTexts, List.flatMap_cons, List.cons_append, List.nil_append,
        List.flatten_cons, List.length_append]
      simp
      omega

/-- The definition and its NUL are written into all characters that are allocated. -/
theorem ConfigArrays.Holds.returnTemplateDef {arrays : ConfigArrays} {config : Config}
    (holds : arrays.Holds config.fields) (clean : ∀ field ∈ config.fields, '\x00' ∉ field.name) :
    arrays.returnTemplateDef = .ok ((config.returnTemplateDef ++ ['\x00']).map some) := by
  have flat : (templateTexts (config.fields.map ConfigField.name)).flatten =
      config.returnTemplateDef := by
    simp [templateTexts, Config.returnTemplateDef, List.flatMap, List.flatten_flatten,
      Function.comp_def]
  have noNul : ∀ src ∈ templateTexts (config.fields.map ConfigField.name), '\x00' ∉ src := by
    intro src member
    rcases List.mem_append.mp member with named | static
    · obtain ⟨name, isName, here⟩ := List.mem_flatMap.mp named
      obtain ⟨field, registered, rfl⟩ := List.mem_map.mp isName
      rcases List.mem_pair.mp here with rfl | rfl
      · exact clean field registered
      · decide
    · rw [List.mem_singleton.mp static]
      decide
  have written := Buffer.foldlM_strcat_cString List.not_mem_nil noNul le_rfl
  rw [← foldlM_templateTexts, flat, Nat.sub_self] at written
  rw [ConfigArrays.returnTemplateDef, holds.read]
  refine bind_ok.mpr ⟨_, rfl, ?_⟩
  rw [foldl_length_names, flat]
  refine bind_ok.mpr ⟨_, Buffer.put_alloc_zero _, written.trans ?_⟩
  simp [Buffer.cString, Buffer.alloc]

/-! ### The templates of the aggregator -/

/-- Every member is one of the keys, the counters and the plain fields, by its function, and each
of the three has its members in the order of registration. -/
structure Distributes (fields : List ConfigField) (agg : Agg) : Prop where
  keys : agg.keyTemp.map Field.name =
    (fields.filter fun field => field.function = .key).map ConfigField.name
  counters : agg.outputTemp.fieldsLikePtr.map (fun counter => (counter.record.name,
      some counter.target)) =
    (fields.filter fun field => field.function = .countDistinct).map fun field =>
      (field.name, field.associatedWithId)
  plain : agg.outputTemp.fields.map (fun plain => plain.record.name) =
    (fields.filter fun field =>
      ¬ (field.function = .key ∨ field.function = .countDistinct)).map ConfigField.name

/-- What is picked from some of the fields, by what it keeps of them. -/
theorem map_filterMap_eq {β γ : Type} {fields : List ConfigField} {pick : ConfigField → Option β}
    {kept : β → γ} {of : ConfigField → γ} {picks : ConfigField → Bool}
    (each : ∀ field ∈ fields,
      (pick field).map kept = if picks field then some (of field) else none) :
    (fields.filterMap pick).map kept = (fields.filter picks).map of := by
  induction fields with
  | nil => rfl
  | cons head tail inductionHypothesis =>
      obtain ⟨here, later⟩ := List.forall_mem_cons.mp each
      have rest := inductionHypothesis later
      by_cases picked : picks head = true
      · obtain ⟨made, isMade, keeps⟩ := Option.map_eq_some_iff.mp (here.trans (if_pos picked))
        rw [List.filterMap_cons_some isMade, List.filter_cons_of_pos picked, List.map_cons,
          List.map_cons, keeps, rest]
      · have none := Option.map_eq_none_iff.mp (here.trans (if_neg picked))
        rw [List.filterMap_cons_none none, List.filter_cons_of_neg picked, rest]

/-- Known fields are distributed by `init`. -/
theorem init_distributes {config : Config} (known : ∀ field ∈ config.fields, Known field)
    (unirec : Libunirec) (now : Int) (once stop : Bool) :
    ∃ agg, Agg.init unirec config now once stop = some agg ∧ Distributes config.fields agg := by
  refine ⟨_, init_eq known now once stop, ⟨?_, ?_, ?_⟩⟩
  · refine map_filterMap_eq fun field member => ?_
    obtain ⟨id, isId⟩ := Option.isSome_iff_exists.mp (known field member).1
    by_cases isKey : field.function = .key
    · simp [keyOf?, isKey, isId, name_of_urGetIdByName isId]
    · simp [keyOf?, isKey]
  · refine map_filterMap_eq fun field member => ?_
    obtain ⟨id, isId⟩ := Option.isSome_iff_exists.mp (known field member).1
    by_cases counts : field.function = .countDistinct
    · obtain ⟨target, isTarget⟩ := Option.isSome_iff_exists.mp ((known field member).2 counts)
      simp [ptrOf?, counts, isId, isTarget, name_of_urGetIdByName isId]
    · simp [ptrOf?, counts]
  · refine map_filterMap_eq fun field member => ?_
    obtain ⟨id, isId⟩ := Option.isSome_iff_exists.mp (known field member).1
    by_cases other : field.function = .key ∨ field.function = .countDistinct
    · simp [plainOf?, other]
    · simp [plainOf?, other, isId, name_of_urGetIdByName isId]

/-- The names of keywords are known, and a counter has a keyword behind it. -/
theorem MemberCall.known {calls : List MemberCall}
    (plain : ∀ un, MemberCall.member .countDistinct un ∉ calls) :
    ∀ field ∈ (config calls).fields, Known field := by
  intro field registered
  rw [config_fields] at registered
  have asked := List.mem_of_mem_filter (mem_of_mem_firstsBy _ registered)
  obtain ⟨call, member, rfl⟩ := List.mem_map.mp asked
  cases call with
  | member func un =>
      have isId : urGetIdByName (stringUnirecEnum un) = some (.unirec un) :=
        urGetIdByName_name (.unirec un)
      refine ⟨by rw [asks, isId]; rfl, fun counts => ?_⟩
      obtain rfl : func = .countDistinct := counts
      exact absurd member (plain un)
  | ptrMember un =>
      have isId : urGetIdByName (stringUnirecEnum un) = some (.unirec un) :=
        urGetIdByName_name (.unirec un)
      exact ⟨by rw [asks, urGetIdByName_name]; rfl, fun _ => by rw [asks, isId]; rfl⟩

/-- The configuration of any sequence of calls with keywords is well formed: the arrays are never
full and hold the first fields asked for, the template definition has their names and the static
ones and fits its array, and `init` distributes the members. -/
theorem config_wellFormed (calls : List MemberCall) :
    ∃ arrays refusals, MemberCall.run calls .new = .ok (arrays, refusals) ∧
      arrays.usedFields < maxKeyFields ∧
      (∀ name, some (.maximumNumber name) ∉ refusals) ∧
      arrays.Holds (MemberCall.config calls).fields ∧
      (MemberCall.config calls).fields = firstsBy ConfigField.name
        ((calls.map MemberCall.asks).filter fun field => !isTimeName field.name) ∧
      ((MemberCall.config calls).fields.map ConfigField.name).Nodup ∧
      (∀ field ∈ (MemberCall.config calls).fields, isTimeName field.name = false) ∧
      arrays.returnTemplateDef = .ok
        ((",".toList.intercalate (MemberCall.config calls).templateNames ++ ['\x00']).map some) ∧
      (MemberCall.config calls).templateNames.Nodup ∧
      ((∀ un, MemberCall.member .countDistinct un ∉ calls) → ∀ unirec now once stop,
        ∃ agg, Agg.init unirec (MemberCall.config calls) now once stop = some agg ∧
          Distributes (MemberCall.config calls).fields agg) := by
  obtain ⟨arrays, refusals, ran, holds, noMaximum⟩ := MemberCall.run_holds calls
  have room := MemberCall.room calls
  have clean : ∀ field ∈ (MemberCall.config calls).fields, '\x00' ∉ field.name := by
    have each : ∀ name ∈ Config.askedNames, '\x00' ∉ name := by decide
    exact fun field registered => each _ (MemberCall.asked_config calls field registered)
  refine ⟨arrays, refusals, ran, by rw [holds.usedFields]; omega, noMaximum, holds,
    MemberCall.config_fields calls, (MemberCall.config calls).distinct,
    (MemberCall.config calls).noTimes, ?_, MemberCall.templateNames_nodup calls,
    fun plain => init_distributes (MemberCall.known plain)⟩
  rw [← Config.returnTemplateDef_eq]
  exact holds.returnTemplateDef clean

/-- A name that comes twice, a time and a counter. -/
theorem config_wellFormed_sumAndCount :
    ∃ agg, Agg.init .plain (MemberCall.config [.member .key .dstIP, .member .sum .packets,
        .member .max .packets, .member .min .timeFirst, .ptrMember .srcIP]) 0 true false =
          some agg ∧
      Distributes [⟨.key, "DST_IP".toList, none⟩, ⟨.sum, "PACKETS".toList, none⟩,
        ⟨.countDistinct, "COUNT_DISTINCT_SRC_IP".toList, some (.unirec .srcIP)⟩] agg := by
  obtain ⟨_, _, _, _, _, _, fields, _, _, _, _, distributes⟩ := config_wellFormed
    [.member .key .dstIP, .member .sum .packets, .member .max .packets, .member .min .timeFirst,
      .ptrMember .srcIP]
  obtain ⟨agg, isAgg, distributed⟩ := distributes (by simp) .plain 0 true false
  rw [fields] at distributed
  exact ⟨agg, isAgg, distributed⟩

end Policer.Aggregator
