import Policer.Aggregator.Counters

/-!
# Windows without an order

The functions that give the same value for every order of the records. Such an
aggregator sends the same record for two windows with the same records, whichever of
them came first and was copied.
-/

namespace Policer.Aggregator

open Policer.Lib Policer.Parsing

/-! ### Values without an order -/

/-- The folds whose value does not depend on the order of arrival. -/
def Commutes : FunctionCode → Bool
  | .sum | .min | .max | .bitOr | .bitAnd => true
  | _ => false

theorem isFold_of_commutes {code : FunctionCode} (commutes : Commutes code) : IsFold code := by
  cases code with
  | sum | min | max | bitOr | bitAnd => rfl
  | _ => cases commutes

/-- Values in another order aggregate to the same. -/
theorem Aggregates.eq_of_perm {w : Nat} {code : FunctionCode} (commutes : Commutes code)
    {values others : List (BitVec w)} (reordered : values.Perm others) {out out' : BitVec w}
    (here : Aggregates code values out) (there : Aggregates code others out') : out = out' := by
  cases code with
  | sum =>
      simp only [Aggregates] at here there
      rw [here, there, (reordered.map BitVec.toNat).sum_nat]
  | min =>
      exact BitVec.le_antisymm (here.2 out' (reordered.mem_iff.mpr there.1))
        (there.2 out (reordered.mem_iff.mp here.1))
  | max =>
      exact BitVec.le_antisymm (there.2 out (reordered.mem_iff.mp here.1))
        (here.2 out' (reordered.mem_iff.mpr there.1))
  | bitOr =>
      refine BitVec.eq_of_getLsbD_eq fun index _ => ?_
      rw [here index, there index, Bool.eq_iff_iff, List.any_eq_true, List.any_eq_true]
      simp only [reordered.mem_iff]
  | bitAnd =>
      refine BitVec.eq_of_getLsbD_eq fun index _ => ?_
      rw [here index, there index, Bool.eq_iff_iff, List.all_eq_true, List.all_eq_true]
      simp only [reordered.mem_iff]
  | _ => cases commutes

/-- Records in another order have as many values. -/
theorem distinctValues_eq_of_perm (target : Field) {group others : List Record}
    (reordered : group.Perm others) :
    distinctValues target group = distinctValues target others := by
  rw [distinctValues, distinctValues, List.toFinset_eq_of_perm _ _ (reordered.map _)]

/-! ### What a stored record keeps -/

section Stored

variable {config : Config} {agg : Agg} {group : List Record} {stored : Stored}

/-- A field without a function keeps the value all records have. -/
theorem OfConfig.keeps_value {field : Field} (inTemplate : field ∈ agg.outputTemp.outTmplt)
    (noStatic : field ∉ staticIds) (noPlain : field ∉ agg.outputTemp.fields.map PlainField.record)
    (stands : agg.StandsFor group stored) {value : Value field}
    (same : ∀ inRec ∈ group, inRec field = value) : stored.record field = value := by
  have noCount : field ≠ .count := by
    rintro rfl
    exact noStatic (by simp [staticIds])
  induction stands with
  | @first inRec dst fresh made =>
      obtain ⟨vectors, _, rfl⟩ := map_ok.mp made
      exact (copied_record inTemplate noCount inRec dst).trans (same inRec (by simp))
  | @next group stored _ inRec inductionHypothesis =>
      have kept : (agg.processAggFunctions inRec stored).record field = stored.record field :=
        (processFields_other noPlain inRec _).trans
          (Folding.updateStatics_other noStatic inRec stored.record)
      rw [kept]
      exact inductionHypothesis fun other member => same other (List.mem_append_left _ member)

/-- A field with a fold has the value the fold makes of the window. -/
theorem OfConfig.keeps_fold (made : OfConfig config agg) {plain : PlainField}
    (member : plain ∈ agg.outputTemp.fields) {code : FunctionCode} (fold : IsFold code)
    (process : plain.process = getFunctionPtr code plain.record.type)
    (isUInt : plain.record.type.isUInt) (noCount : plain.record ≠ .count)
    (stands : agg.StandsFor group stored) :
    Aggregates code (group.map fun record => record plain.record) (stored.record plain.record) := by
  obtain ⟨noFirst, noLast⟩ := made.noTime member
  have noStatic : plain.record ∉ staticIds := by simp [staticIds, noFirst, noLast, noCount]
  induction stands with
  | @first inRec dst fresh isFresh =>
      obtain ⟨vectors, _, rfl⟩ := map_ok.mp isFresh
      have copied := copied_record (made.inTemplate member) noCount inRec dst
      change Aggregates code [inRec plain.record]
        (((urCopyFields agg.outputTemp.outTmplt dst inRec).set .count 1) plain.record)
      rw [copied]
      exact aggregates_singleton fold _
  | @next group stored _ inRec inductionHypothesis =>
      have value : (agg.processAggFunctions inRec stored).record plain.record =
          combine code (inRec plain.record) (stored.record plain.record) := by
        refine (made.processFields_of_mem member inRec _).trans ?_
        have static := Folding.updateStatics_other noStatic inRec stored.record
        rw [process, apply_of_isUInt code isUInt]
        exact congrArg (combine code (inRec plain.record)) static
      rw [List.map_append, value]
      exact inductionHypothesis.append (inRec plain.record)

/-- What is sent has the stored value of a field that is no counter. -/
theorem sendRecordOut_other (slots : Slots agg.outputTemp) {out : Record}
    (sends : agg.sendRecordOut stored = .ok out) {field : Field}
    (noCounter : field ∉ agg.outputTemp.fieldsLikePtr.map PtrField.record) :
    out field = stored.record field := by
  unfold Agg.sendRecordOut at sends
  split at sends
  · rw [Agg.prepareToSend, slots.noDivision] at sends
    rw [foldlM_makeField sends]
    refine Record.setAll_other _ _ (fun member => noCounter ?_) _
    obtain ⟨counter, inZip, rfl⟩ := List.mem_map.mp member
    exact List.mem_map_of_mem (List.of_mem_zip inZip).1
  · rw [← Except.ok.inj sends]

end Stored

/-! ### Configurations without an order -/

/-- The field is a key, a fold without an order over an unsigned field, or a counter of an
unsigned keyword. `COUNT` is reserved. -/
def OrderFree (field : ConfigField) : Prop :=
  ∃ id, urGetIdByName field.name = some id ∧ id ≠ .count ∧
    (field.function = .key ∨ Commutes field.function ∧ id.type.isUInt ∨
      ∃ param, field.function = .countDistinct ∧ id = .countDistinctOf param ∧
        field.associatedWithId = some (.unirec param) ∧ (unirecType param).isUInt)

theorem OrderFree.noAverages {field : ConfigField} (orderFree : OrderFree field) :
    field.function ≠ .avg ∧ field.function ≠ .rate := by
  obtain ⟨_, _, _, isKey | ⟨commutes, _⟩ | ⟨_, counts, _⟩⟩ := orderFree
  · simp [isKey]
  · exact (IsFold.ne (isFold_of_commutes commutes)).2.2
  · simp [counts]

theorem OrderFree.named {field : ConfigField} (orderFree : OrderFree field)
    (counts : field.function = .countDistinct) : ∃ name,
      field.name = counterPrefix ++ name ∧ field.associatedWithId = urGetIdByName name := by
  obtain ⟨id, isId, _, isKey | ⟨commutes, _⟩ | ⟨param, _, rfl, isTarget, _⟩⟩ := orderFree
  · rw [isKey] at counts
    cases counts
  · exact absurd counts (IsFold.ne (isFold_of_commutes commutes)).2.1
  · have known : urGetIdByName (stringUnirecEnum param) = some (.unirec param) :=
      urGetIdByName_name (.unirec param)
    exact ⟨stringUnirecEnum param, (name_of_urGetIdByName isId).symm, isTarget.trans known.symm⟩

section Configured

variable {config : Config} {agg : Agg}

theorem countsDistinct_of_orderFree {unirec : Libunirec}
    (orderFree : ∀ field ∈ config.fields, OrderFree field)
    {now : Int} {once stop : Bool} (initial : Agg.init unirec config now once stop = some agg) :
    CountsDistinct config agg where
  made := ofConfig_of_init initial
  named field member counts := (orderFree field member).named counts
  known := known_of_init initial
  noAverages field member := (orderFree field member).noAverages

/-- A field has one configured field. -/
theorem configured_unique {first second : ConfigField} (inConfig : first ∈ config.fields)
    (inConfigToo : second ∈ config.fields) {id : Field} (isId : urGetIdByName first.name = some id)
    (isIdToo : urGetIdByName second.name = some id) : first = second :=
  List.inj_on_of_nodup_map config.distinct inConfig inConfigToo
    ((name_of_urGetIdByName isId).symm.trans (name_of_urGetIdByName isIdToo))

/-- A plain field is the one its configured field makes. -/
theorem OfConfig.plainOf?_of_mem (made : OfConfig config agg) {configured : ConfigField}
    (inConfig : configured ∈ config.fields) {plain : PlainField}
    (isId : urGetIdByName configured.name = some plain.record)
    (member : plain ∈ agg.outputTemp.fields) : plainOf? configured = some plain := by
  obtain ⟨other, inConfigToo, isPlain, isIdToo⟩ := made.plain member
  obtain rfl := configured_unique inConfig inConfigToo isId isIdToo
  exact isPlain

/-- A counter is the one its configured field makes. -/
theorem OfConfig.ptrOf?_of_mem (made : OfConfig config agg) {configured : ConfigField}
    (inConfig : configured ∈ config.fields) {counter : PtrField}
    (isId : urGetIdByName configured.name = some counter.record)
    (member : counter ∈ agg.outputTemp.fieldsLikePtr) : ptrOf? configured = some counter := by
  rw [made.fieldsLikePtr] at member
  obtain ⟨other, inConfigToo, isCounter⟩ := List.mem_filterMap.mp member
  have isIdToo : urGetIdByName other.name = some counter.record := by
    unfold ptrOf? at isCounter
    split at isCounter
    · obtain ⟨id, named, isCounter⟩ := Option.bind_eq_some_iff.mp isCounter
      obtain ⟨target, _, rfl⟩ := Option.map_eq_some_iff.mp isCounter
      exact named
    · cases isCounter
  obtain rfl := configured_unique inConfig inConfigToo isId isIdToo
  exact isCounter

/-! ### One window in two orders -/

section Sends

variable {group others : List Record} {out out' : Record}

theorem exists_of_standsFor {stored : Stored} (stands : agg.StandsFor group stored) :
    ∃ inRec, inRec ∈ group := by
  cases stands with
  | @first inRec _ _ _ => exact ⟨inRec, by simp⟩
  | next _ inRec => exact ⟨inRec, by simp⟩

/-- A configured field is no time and not `COUNT`. -/
theorem notStatic_of_configured {configured : ConfigField} (inConfig : configured ∈ config.fields)
    {id : Field} (isId : urGetIdByName configured.name = some id) (noCount : id ≠ .count) :
    id ∉ staticIds := by
  have noTime := config.noTimes configured inConfig
  rw [← name_of_urGetIdByName isId, Bool.eq_false_iff, Ne, isTimeName_name, not_or] at noTime
  simp [staticIds, noTime.1, noTime.2, noCount]

variable (counting : CountsDistinct config agg)
  (orderFree : ∀ field ∈ config.fields, OrderFree field) (reordered : group.Perm others)
  (here : agg.Sends group out) (there : agg.Sends others out')

include counting here in
/-- What is sent for a window is stored for it, counters apart. -/
theorem stored_of_sends : ∃ stored, agg.StandsFor group stored ∧
    ∀ field, field ∉ agg.outputTemp.fieldsLikePtr.map PtrField.record →
      out field = stored.record field := by
  obtain ⟨stored, stands, sends⟩ := here
  exact ⟨stored, stands, fun field => sendRecordOut_other counting.slots sends⟩

include counting orderFree reordered here there in
/-- The static fields do not depend on the order. -/
theorem sends_static {field : Field} (static : field ∈ staticIds) : out field = out' field := by
  have noCounter : field ∉ agg.outputTemp.fieldsLikePtr.map PtrField.record := by
    intro member
    obtain ⟨counter, inCounters, rfl⟩ := List.mem_map.mp member
    exact (counting.slots.apart counter inCounters).1 static
  obtain ⟨stored, stands, isOut⟩ := stored_of_sends counting here
  obtain ⟨stored', stands', isOut'⟩ := stored_of_sends counting there
  rw [isOut field noCounter, isOut' field noCounter]
  simp only [staticIds, List.mem_cons, List.not_mem_nil, or_false] at static
  rcases static with rfl | rfl | rfl
  · exact (counting.made.timeFirst stands).eq_of_perm rfl (reordered.map _)
      (counting.made.timeFirst stands')
  · exact (counting.made.timeLast stands).eq_of_perm rfl (reordered.map _)
      (counting.made.timeLast stands')
  · have noCount : Field.count ∉ agg.outputTemp.fields.map PlainField.record := by
      intro member
      obtain ⟨plain, inFields, isCount⟩ := List.mem_map.mp member
      obtain ⟨configured, inConfig, _, isId⟩ := counting.made.plain inFields
      obtain ⟨id, isIdToo, notCount, _⟩ := orderFree configured inConfig
      rw [isCount, isIdToo] at isId
      exact notCount (Option.some.inj isId)
    have counts := (stands.count noCount).trans
      (reordered.length_eq ▸ (stands'.count noCount).symm)
    exact counts

include counting reordered here there in
/-- The keys do not depend on the order. -/
theorem sends_key {key : Key} (sameKey : ∀ inRec ∈ group, recKey (keysOf config) inRec = key)
    {configured : ConfigField} (inConfig : configured ∈ config.fields) {id : Field}
    (isId : urGetIdByName configured.name = some id) (noCount : id ≠ .count)
    (isKey : configured.function = .key) : out id = out' id := by
  have inKeys : id ∈ keysOf config :=
    List.mem_filterMap.mpr ⟨configured, inConfig, by simp [keyOf?, isKey, isId]⟩
  have inTemplate : id ∈ agg.outputTemp.outTmplt := by
    rw [counting.made.outTmplt]
    exact List.mem_append_left _ (List.mem_filterMap.mpr ⟨configured, inConfig, isId⟩)
  have noPlain : id ∉ agg.outputTemp.fields.map PlainField.record := by
    intro member
    obtain ⟨plain, inFields, rfl⟩ := List.mem_map.mp member
    have isPlain := counting.made.plainOf?_of_mem inConfig isId inFields
    simp [plainOf?, isKey] at isPlain
  have noCounter : id ∉ agg.outputTemp.fieldsLikePtr.map PtrField.record := by
    intro member
    obtain ⟨counter, inCounters, rfl⟩ := List.mem_map.mp member
    have isCounter := counting.made.ptrOf?_of_mem inConfig isId inCounters
    simp [ptrOf?, isKey] at isCounter
  have noStatic := notStatic_of_configured inConfig isId noCount
  obtain ⟨stored, stands, isOut⟩ := stored_of_sends counting here
  obtain ⟨stored', stands', isOut'⟩ := stored_of_sends counting there
  obtain ⟨first, isFirst⟩ := exists_of_standsFor stands
  have same : ∀ inRec ∈ group, inRec id = first id := fun inRec member =>
    (recKey_eq_iff _ _ _).mp ((sameKey inRec member).trans (sameKey first isFirst).symm) id inKeys
  rw [isOut id noCounter, isOut' id noCounter,
    OfConfig.keeps_value inTemplate noStatic noPlain stands same,
    OfConfig.keeps_value inTemplate noStatic noPlain stands' fun inRec member =>
      same inRec (reordered.mem_iff.mpr member)]

include counting reordered here there in
/-- The folds do not depend on the order. -/
theorem sends_fold {configured : ConfigField} (inConfig : configured ∈ config.fields) {id : Field}
    (isId : urGetIdByName configured.name = some id) (noCount : id ≠ .count)
    (commutes : Commutes configured.function) (isUInt : id.type.isUInt) : out id = out' id := by
  have fold := isFold_of_commutes commutes
  obtain ⟨notKey, notCounter, notAvg, notRate⟩ := IsFold.ne fold
  have isPlain : plainOf? configured =
      some ⟨id, getFunctionPtr configured.function id.type, none, none⟩ := by
    simp [plainOf?, notKey, notCounter, notAvg, notRate, isId]
  have inFields : (⟨id, getFunctionPtr configured.function id.type, none, none⟩ : PlainField) ∈
      agg.outputTemp.fields := by
    rw [counting.made.fields]
    exact List.mem_filterMap.mpr ⟨configured, inConfig, isPlain⟩
  have noCounter : id ∉ agg.outputTemp.fieldsLikePtr.map PtrField.record := by
    intro member
    obtain ⟨counter, inCounters, rfl⟩ := List.mem_map.mp member
    have isCounter := counting.made.ptrOf?_of_mem inConfig isId inCounters
    simp [ptrOf?, notCounter] at isCounter
  obtain ⟨stored, stands, isOut⟩ := stored_of_sends counting here
  obtain ⟨stored', stands', isOut'⟩ := stored_of_sends counting there
  rw [isOut id noCounter, isOut' id noCounter]
  exact (counting.made.keeps_fold inFields fold rfl isUInt noCount stands).eq_of_perm commutes
    (reordered.map _) (counting.made.keeps_fold inFields fold rfl isUInt noCount stands')

include counting orderFree reordered here there in
/-- What is sent for a window does not depend on the order of its records. -/
theorem sends_eq_of_perm {key : Key}
    (sameKey : ∀ inRec ∈ group, recKey (keysOf config) inRec = key) {field : Field}
    (inTemplate : field ∈ agg.outputTemp.outTmplt) : out field = out' field := by
  rw [counting.made.outTmplt] at inTemplate
  rcases List.mem_append.mp inTemplate with registered | static
  · obtain ⟨configured, inConfig, isField⟩ := List.mem_filterMap.mp registered
    obtain ⟨id, isId, noCount, kind⟩ := orderFree configured inConfig
    obtain rfl := Option.some.inj (isField.symm.trans isId)
    rcases kind with isKey | ⟨commutes, isUInt⟩ | ⟨param, counts, rfl, _, isUInt⟩
    · exact sends_key counting reordered here there sameKey inConfig isId noCount isKey
    · exact sends_fold counting reordered here there inConfig isId noCount commutes isUInt
    · have counted : config.Counts param :=
        ⟨configured, inConfig, counts, (name_of_urGetIdByName isId).symm⟩
      have countable : (unirecType param).countable = true := by
        simp [FieldType.countable, isUInt]
      rw [counting.sends_distinct here counted countable,
        counting.sends_distinct there counted countable, distinctValues_eq_of_perm _ reordered]
  · exact sends_static counting orderFree reordered here there static

end Sends

end Configured

end Policer.Aggregator
