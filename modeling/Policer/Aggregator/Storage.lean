import Policer.Aggregator.Refinement

/-!
# Aggregators that fold unsigned fields

For a configuration of keys and folds `Agg::init` sets up a `Folding` aggregator, so that
every run of it is a run of its windows. Keys are equal exactly for records that agree on
the key fields.
-/

namespace Policer.Aggregator

open Policer.Lib Policer.Parsing

/-! ### Keys -/

theorem bytes_injective {w : Nat} (whole : 8 ∣ w) {first second : BitVec w}
    (same : bytes first = bytes second) : first = second := by
  have chunk : ∀ index < w / 8,
      first.extractLsb' (8 * index) 8 = second.extractLsb' (8 * index) 8 := by
    intro index inside
    exact List.map_inj_left.mp same index (List.mem_range.mpr inside)
  refine BitVec.eq_of_getLsbD_eq fun index inside => ?_
  have bit := congrArg (fun byte => byte.getLsbD (index % 8)) (chunk (index / 8) (by omega))
  have position : 8 * (index / 8) + index % 8 = index := Nat.div_add_mod index 8
  have low : index % 8 < 8 := Nat.mod_lt index (by decide)
  simpa [low, position] using bit

theorem length_bytes {w : Nat} (value : BitVec w) : (bytes value).length = w / 8 := by
  simp [bytes]

theorem recKey_cons (head : Field) (tail : List Field) (inRec : Record) :
    recKey (head :: tail) inRec = bytes (inRec head) ++ recKey tail inRec := by
  have prefixed : ∀ (fields : List Field) (data : Key),
      fields.foldl (fun data field => addKeyField data (inRec field)) data =
        data ++ recKey fields inRec := by
    intro fields
    induction fields with
    | nil => simp [recKey]
    | cons field rest ih =>
        intro data
        rw [recKey, List.foldl_cons, List.foldl_cons, ih, ih (addKeyField [] _)]
        simp [addKeyField]
  rw [recKey, List.foldl_cons, prefixed]
  rfl

/-- Two records have the same key when they agree on the key fields. -/
theorem recKey_eq_iff (keyTemp : List Field) (first second : Record) :
    recKey keyTemp first = recKey keyTemp second ↔
      ∀ field ∈ keyTemp, first field = second field := by
  induction keyTemp with
  | nil => simp [recKey]
  | cons head tail ih =>
      rw [recKey_cons, recKey_cons, List.forall_mem_cons, ← ih]
      constructor
      · intro same
        obtain ⟨here, later⟩ := List.append_inj same (by rw [length_bytes, length_bytes])
        have whole : 8 ∣ head.type.bits := by cases head.type <;> decide
        exact ⟨bytes_injective whole here, later⟩
      · rintro ⟨here, later⟩
        rw [here, later]

/-! ### The configuration -/

/-- The field is a key, or a fold over an unsigned field. `COUNT` is reserved. -/
def Folds (field : ConfigField) : Prop :=
  ∃ id, urGetIdByName field.name = some id ∧
    (field.function = .key ∨ IsFold field.function ∧ id.type.isUInt ∧ id ≠ .count)

/-- The fold a field stands for. -/
def foldOf? (field : ConfigField) : Option (Field × FunctionCode) :=
  if field.function = .key then none
  else (urGetIdByName field.name).map fun id => (id, field.function)

/-- The folds of a configuration. -/
def foldsOf (config : Config) : List (Field × FunctionCode) := config.fields.filterMap foldOf?

/-- The key fields of a configuration. -/
def keysOf (config : Config) : List Field := config.fields.filterMap keyOf?

theorem IsFold.ne {code : FunctionCode} (fold : IsFold code) :
    code ≠ .key ∧ code ≠ .countDistinct ∧ code ≠ .avg ∧ code ≠ .rate := by
  cases code <;> simp_all [IsFold]

theorem Folds.known {field : ConfigField} (folds : Folds field) : Known field := by
  obtain ⟨id, isId, kind⟩ := folds
  refine ⟨by simp [isId], fun counts => ?_⟩
  rcases kind with isKey | ⟨fold, _⟩
  · rw [isKey] at counts
    cases counts
  · exact absurd counts (IsFold.ne fold).2.1

theorem Folds.plainOf?_eq {field : ConfigField} (folds : Folds field) :
    plainOf? field = (foldOf? field).map fun fold =>
      ⟨fold.1, getFunctionPtr fold.2 fold.1.type, none, none⟩ := by
  obtain ⟨id, isId, isKey | ⟨fold, _⟩⟩ := folds
  · simp [plainOf?, foldOf?, isKey]
  · obtain ⟨notKey, notDistinct, notAvg, notRate⟩ := IsFold.ne fold
    simp [plainOf?, foldOf?, isId, notKey, notDistinct, notAvg, notRate]

theorem mem_foldsOf {config : Config} {fold : Field × FunctionCode}
    (member : fold ∈ foldsOf config) : ∃ field ∈ config.fields, field.function ≠ .key ∧
      urGetIdByName field.name = some fold.1 ∧ field.function = fold.2 := by
  obtain ⟨field, registered, isFold⟩ := List.mem_filterMap.mp member
  unfold foldOf? at isFold
  split at isFold
  · cases isFold
  · rename_i notKey
    obtain ⟨id, isId, rfl⟩ := Option.map_eq_some_iff.mp isFold
    exact ⟨field, registered, notKey, isId, rfl⟩

/-- A folded field is folded once. -/
theorem nodup_foldsOf (config : Config) : ((foldsOf config).map Prod.fst).Nodup := by
  refine nodup_targets config.distinct fun field fold isFold => ?_
  unfold foldOf? at isFold
  split at isFold
  · cases isFold
  · obtain ⟨id, isId, rfl⟩ := Option.map_eq_some_iff.mp isFold
    exact isId

/-- What `init` makes of keys and folds. -/
theorem init_folding {config : Config} (folds : ∀ field ∈ config.fields, Folds field)
    (unirec : Libunirec) (now : Int) (once : Bool) :
    ∃ agg, Agg.init unirec config now once false = some agg ∧
      Tracks (foldsOf config) (keysOf config) config.timeouts agg (.start now once) := by
  have plain : config.fields.filterMap plainOf? = (foldsOf config).map fun fold =>
      ⟨fold.1, getFunctionPtr fold.2 fold.1.type, none, none⟩ := by
    rw [foldsOf, List.map_filterMap]
    exact List.filterMap_congr fun field member => (folds field member).plainOf?_eq
  have ptrs : config.fields.filterMap ptrOf? = [] := by
    refine List.filterMap_eq_nil_iff.mpr fun field member => ?_
    obtain ⟨_, _, isKey | ⟨fold, _⟩⟩ := folds field member
    · simp [ptrOf?, isKey]
    · simp [ptrOf?, (IsFold.ne fold).2.1]
  have completed : (config.fields.any averages ||
      config.fields.any fun field => field.function = .countDistinct) = false := by
    simp only [Bool.or_eq_false_iff, List.any_eq_false]
    constructor <;> intro field member
    all_goals
      obtain ⟨_, _, isKey | ⟨fold, _⟩⟩ := folds field member
      · simp [averages, isKey]
      · simp [averages, (IsFold.ne fold).2]
  refine ⟨_, init_eq (fun field member => (folds field member).known) now once false, ?_, ?_, rfl,
    rfl⟩
  · exact ⟨fun key stored found => by simp at found, fun _ _ => rfl, .nil, rfl, rfl, rfl⟩
  · have kind : ∀ fold ∈ foldsOf config, IsFold fold.2 ∧ fold.1.type.isUInt ∧ fold.1 ≠ .count := by
      rintro ⟨id, code⟩ member
      obtain ⟨field, registered, notKey, isId, rfl⟩ := mem_foldsOf member
      obtain ⟨other, isOther, isKey | ⟨isFold, isUInt, notCount⟩⟩ := folds field registered
      · exact absurd isKey notKey
      · obtain rfl : id = other := Option.some.inj (isId.symm.trans isOther)
        exact ⟨isFold, isUInt, notCount⟩
    refine ⟨plain, ptrs, completed, List.subset_append_right .., fun fold member => ?_,
      nodup_foldsOf config, fun fold member => (kind fold member).1,
      fun fold member => (kind fold member).2.1, fun fold member => (kind fold member).2.2⟩
    obtain ⟨field, registered, _, isId, _⟩ := mem_foldsOf member
    exact List.mem_append_left _ (List.mem_filterMap.mpr ⟨field, registered, isId⟩)

/-! ### Every run -/

variable {folds : List (Field × FunctionCode)} {keyTemp : List Field} {timeouts : Timeouts}
  {agg : Agg} {state : Aggregation}

/-- A record that finds an entry has it sent when it comes more than the active timeout after
the first time of the entry, and is merged otherwise. -/
theorem Tracks.sent_eval (tracks : Tracks folds keyTemp timeouts agg state) {inRec : Record}
    {stored : Stored} {next : Agg} (running : agg.stop = false)
    (found : agg.storage.lookup (recKey keyTemp inRec) = some stored)
    (evaluates : agg.eval inRec = .ok next) :
    next.sent = if timeouts.timeoutType.hasActive ∧
        urTimeGetSec stored.record.timeFirst + timeouts.timeout .active <
          urTimeGetSec inRec.timeFirst
      then agg.sent ++ [stored.record] else agg.sent := by
  have noted := tracks.of_sameSetup (.noteFirstRecord agg inRec)
    (represents_iff_mirrors.mpr ((represents_iff_mirrors.mp tracks.represents).note inRec))
  rw [Agg.eval_of_running running] at evaluates
  rw [← noted.keyTemp, ← Agg.storage_noteFirstRecord agg inRec] at found
  simp only [Agg.store, found, Agg.newTimeWindow, noted.timeouts] at evaluates
  by_cases late : timeouts.timeoutType.hasActive ∧
      urTimeGetSec stored.record.timeFirst + timeouts.timeout .active <
        urTimeGetSec inRec.timeFirst
  · rw [if_pos (by simpa using late), noted.folding.sendRecordOut_eq] at evaluates
    rw [if_pos late, ← Agg.sent_noteFirstRecord agg inRec]
    change ((agg.noteFirstRecord inRec).initRecordData inRec stored.record).bind _ = _ at evaluates
    rw [noted.folding.initRecordData_eq] at evaluates
    cases evaluates
    rfl
  · rw [if_neg (by simpa using late)] at evaluates
    rw [if_neg late, ← Agg.sent_noteFirstRecord agg inRec]
    cases evaluates
    rfl

/-- For keys and folds, every run of the aggregator is a run of its windows: no step fails, each
open window is represented by one stored record and each closed one by a record that was sent,
and the windows of a key hold the accepted records of that key in the order of arrival. -/
theorem storage_refines_windows {config : Config} (folds : ∀ field ∈ config.fields, Folds field)
    (unirec : Libunirec) (now : Int) (once : Bool) :
    ∃ agg, Agg.init unirec config now once false = some agg ∧
      ∀ labels agg', aggSystem.Steps agg labels agg' →
        (∀ label outcome, agg'.Leads label outcome → ∃ next, outcome = .ok next) ∧
        (∀ inRec stored next, agg'.stop = false →
          agg'.storage.lookup (recKey (keysOf config) inRec) = some stored →
          agg'.eval inRec = .ok next →
          next.sent = if config.timeouts.timeoutType.hasActive ∧
              urTimeGetSec stored.record.timeFirst + config.timeouts.timeout .active <
                urTimeGetSec inRec.timeFirst
            then agg'.sent ++ [stored.record] else agg'.sent) ∧
        ∃ state, (Aggregation.system (keysOf config) config.timeouts).Steps
            (Aggregation.start now once) labels state ∧
          Represents (foldsOf config) agg' state ∧
          (∀ key, state.windows.history key =
            (Aggregation.accepted labels).filter fun inRec => recKey (keysOf config) inRec = key) ∧
          (∀ first second, recKey (keysOf config) first = recKey (keysOf config) second ↔
            ∀ field ∈ keysOf config, first field = second field) := by
  obtain ⟨agg, isAgg, initial⟩ := init_folding folds unirec now once
  refine ⟨agg, isAgg, fun labels agg' run => ?_⟩
  obtain ⟨state, reached, tracks⟩ :=
    (simulation (foldsOf config) (keysOf config) config.timeouts).steps initial run
  have succeeds : ∀ label outcome, agg'.Leads label outcome → ∃ next, outcome = .ok next := by
    intro label outcome leads
    obtain ⟨next, _, isNext, _⟩ := Tracks.leads tracks leads
    exact ⟨next, isNext⟩
  exact ⟨succeeds, fun inRec stored next => Tracks.sent_eval tracks, state, reached,
    tracks.represents, (Aggregation.partitions_of_steps reached).history, recKey_eq_iff _⟩

/-- The sum of `PACKETS` for every `DST_IP`. -/
def packetsByDstIP : Config :=
  (Config.new.addMember .key "DST_IP".toList).addMember .sum "PACKETS".toList

theorem packetsByDstIP_fields : packetsByDstIP.fields =
    [⟨.key, "DST_IP".toList, none⟩, ⟨.sum, "PACKETS".toList, none⟩] := by
  decide

/-- A record with the lowest bit of every field set. -/
def onesRecord : Record := fun _ => 1

/-- A record that is stored and sent at the end is the only one of its key. -/
theorem storage_refines_windows_packetsByDstIP :
    ∃ agg agg' state, Agg.init .plain packetsByDstIP 0 true false = some agg ∧
      aggSystem.Steps agg [.eval onesRecord, .destroy] agg' ∧
      Represents (foldsOf packetsByDstIP) agg' state ∧
      state.windows.history (recKey (keysOf packetsByDstIP) onesRecord) = [onesRecord] := by
  have folds : ∀ field ∈ packetsByDstIP.fields, Folds field := by
    intro field member
    rw [packetsByDstIP_fields] at member
    rcases List.mem_pair.mp member with rfl | rfl
    · exact ⟨.unirec .dstIP, by decide, .inl rfl⟩
    · exact ⟨.unirec .packets, by decide, .inr ⟨rfl, rfl, by decide⟩⟩
  obtain ⟨agg, isAgg, runs⟩ := storage_refines_windows folds .plain 0 true
  obtain ⟨stored, isStored⟩ := (runs [] agg .refl).1 _ _ (.eval onesRecord)
  have evaluates : agg.Leads (.eval onesRecord) (.ok stored) := isStored ▸ .eval onesRecord
  have first : aggSystem.Steps agg [.eval onesRecord] stored := .step .refl evaluates
  obtain ⟨flushed, isFlushed⟩ := (runs _ stored first).1 _ _ .destroy
  have destroys : stored.Leads .destroy (.ok flushed) := isFlushed ▸ .destroy
  have second : aggSystem.Steps agg [.eval onesRecord, .destroy] flushed := .step first destroys
  obtain ⟨-, -, state, -, represents, history, -⟩ := runs _ flushed second
  exact ⟨agg, flushed, state, isAgg, second, represents, by
    rw [history]
    simp [Aggregation.accepted, Aggregation.stops, Aggregation.record?]⟩

end Policer.Aggregator
