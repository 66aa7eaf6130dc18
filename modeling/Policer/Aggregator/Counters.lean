import Policer.Aggregator.OwnedRecords
import Policer.Aggregator.Runs
import Mathlib.Data.Finset.Card

/-!
# What a counter collects

The counters of an aggregator set up by options have fields no other option can name. The vector
of a stored record has the values a field takes in its window, each of them once, and what is
sent is their number.
-/

namespace Policer.Aggregator

open Policer.Lib Policer.Parsing

/-! ### Counters of a configuration -/

/-- The names `add_ptr_member` gives to counters. -/
def counterPrefix : Str := "COUNT_DISTINCT".toList ++ "_".toList

/-- Counters have the names `add_ptr_member` gives them. -/
def CountersNamed (config : Config) : Prop :=
  ∀ field ∈ config.fields, field.function = .countDistinct → ∃ name,
    field.name = counterPrefix ++ name ∧ field.associatedWithId = urGetIdByName name

theorem CountersNamed.push {config : Config} (named : CountersNamed config) {field : ConfigField}
    {room : config.fields.length < maxKeyFields}
    {verified : config.verifyField field.name = true}
    (isNamed : field.function = .countDistinct → ∃ name,
      field.name = counterPrefix ++ name ∧ field.associatedWithId = urGetIdByName name) :
    CountersNamed (config.push field room verified) := by
  intro other member counts
  rcases List.mem_append.mp member with before | added
  · exact named other before counts
  · obtain rfl := List.mem_singleton.mp added
    exact isNamed counts

theorem CountersNamed.applyOption {config : Config} (named : CountersNamed config) (opt : Opt) :
    CountersNamed (config.applyOption opt) := by
  unfold Config.applyOption
  split
  · exact named
  · unfold Config.addPtrMember
    dsimp only
    split
    · split
      · exact named.push fun _ => ⟨_, rfl, rfl⟩
      · exact named
    · exact named
  · rename_i letter optarg _ _
    split
    · rename_i func isFunc
      have plain : func ≠ .countDistinct := by
        rintro rfl
        unfold memberFunction at isFunc
        split at isFunc <;> cases isFunc
      unfold Config.addMember
      split
      · split
        · exact named.push fun counts => absurd counts plain
        · exact named
      · exact named
    · exact named
  · exact named

theorem countersNamed_of_ofOptions {options : Str} {config : Config}
    (read : Config.ofOptions options = .ok config) : CountersNamed config := by
  obtain ⟨text, _, rfl⟩ := map_ok.mp read
  have start : CountersNamed .new := by
    intro field member
    cases member
  generalize Config.new = first, getopt (getArgcArgv text) = opts at start
  induction opts generalizing first with
  | nil => exact start
  | cons head tail ih => exact ih _ (start.applyOption head)

/-- The counter of a keyword. -/
def counterOf (param : Unirec) : PtrField where
  record := .countDistinctOf param
  target := .unirec param
  alloc := getAllocPtr .countDistinct (unirecType param)
  process := getFunctionPtr .countDistinct (unirecType param)
  make := getFinalMakePtr .countDistinct (unirecType param)
  dealloc := getDeallocPtr .countDistinct (unirecType param)

/-- A configuration counts the values of a keyword. -/
def Config.Counts (config : Config) (param : Unirec) : Prop :=
  ∃ field ∈ config.fields, field.function = .countDistinct ∧
    field.name = (Field.countDistinctOf param).name

/-- Only a counter has the name of a counter. -/
theorem counter_of_name {id target : Field} (isName : id.name = counterPrefix ++ target.name) :
    ∃ param, id = .countDistinctOf param ∧ target = .unirec param := by
  have isPrefix : counterPrefix.isPrefixOf id.name = true :=
    List.isPrefixOf_iff_prefix.mpr ⟨target.name, isName.symm⟩
  cases id with
  | countDistinctOf param =>
      have same : target.name = (Field.unirec param).name := List.append_cancel_left isName.symm
      exact ⟨param, rfl, Field.name_injective same⟩
  | unirec un =>
      have other : counterPrefix.isPrefixOf (Field.unirec un).name = false := by
        cases un <;> decide
      rw [other] at isPrefix
      cases isPrefix
  | _ => exact absurd isPrefix (by decide)

section Templates

variable {config : Config} {agg : Agg}

theorem ptrOf?_eq (named : CountersNamed config) {configured : ConfigField}
    (inConfig : configured ∈ config.fields) {field : PtrField}
    (isField : ptrOf? configured = some field) :
    ∃ param, field = counterOf param ∧ configured.function = .countDistinct ∧
      configured.name = (Field.countDistinctOf param).name := by
  unfold ptrOf? at isField
  split at isField
  · rename_i counts
    obtain ⟨id, isId, isField⟩ := Option.bind_eq_some_iff.mp isField
    obtain ⟨target, isTarget, rfl⟩ := Option.map_eq_some_iff.mp isField
    obtain ⟨name, isName, associated⟩ := named configured inConfig counts
    have targetName := name_of_urGetIdByName (associated.symm.trans isTarget)
    have idName := name_of_urGetIdByName isId
    rw [← targetName] at isName
    obtain ⟨param, rfl, rfl⟩ := counter_of_name (idName.trans isName)
    exact ⟨param, rfl, counts, idName.symm⟩
  · cases isField

/-- The counters of the template are those of the configuration. -/
theorem OfConfig.mem_fieldsLikePtr (made : OfConfig config agg) (named : CountersNamed config)
    (known : ∀ field ∈ config.fields, Known field) {field : PtrField} :
    field ∈ agg.outputTemp.fieldsLikePtr ↔
      ∃ param, config.Counts param ∧ field = counterOf param := by
  rw [made.fieldsLikePtr, List.mem_filterMap]
  constructor
  · rintro ⟨configured, inConfig, isField⟩
    obtain ⟨param, rfl, counts, isName⟩ := ptrOf?_eq named inConfig isField
    exact ⟨param, ⟨configured, inConfig, counts, isName⟩, rfl⟩
  · rintro ⟨param, ⟨configured, inConfig, counts, isName⟩, rfl⟩
    obtain ⟨isId, isTarget⟩ := known configured inConfig
    obtain ⟨id, isId⟩ := Option.isSome_iff_exists.mp isId
    obtain ⟨target, isTarget⟩ := Option.isSome_iff_exists.mp (isTarget counts)
    have some : (ptrOf? configured).isSome = true := by
      simp [ptrOf?, counts, isId, isTarget]
    obtain ⟨field, isField⟩ := Option.isSome_iff_exists.mp some
    obtain ⟨other, rfl, _, otherName⟩ := ptrOf?_eq named inConfig isField
    cases Field.name_injective (otherName.symm.trans isName)
    exact ⟨configured, inConfig, isField⟩

/-- Counters have fields of their own. -/
theorem OfConfig.counterSlots (made : OfConfig config agg) (named : CountersNamed config)
    (known : ∀ field ∈ config.fields, Known field) : CounterSlots agg.outputTemp where
  distinct := by
    rw [made.fieldsLikePtr]
    refine nodup_targets config.distinct fun configured field isField => ?_
    unfold ptrOf? at isField
    split at isField
    · obtain ⟨id, isId, isField⟩ := Option.bind_eq_some_iff.mp isField
      obtain ⟨target, _, rfl⟩ := Option.map_eq_some_iff.mp isField
      exact isId
    · cases isField
  apart := by
    intro field member
    obtain ⟨param, ⟨configured, inConfig, counts, isName⟩, rfl⟩ :=
      (made.mem_fieldsLikePtr named known).mp member
    refine ⟨by simp [counterOf, staticIds], fun isPlain => ?_⟩
    obtain ⟨plain, inFields, same⟩ := List.mem_map.mp isPlain
    obtain ⟨other, inConfigToo, isField, isId⟩ := made.plain inFields
    have names : other.name = configured.name := by
      rw [isName, ← name_of_urGetIdByName isId, same]
      rfl
    obtain rfl := List.inj_on_of_nodup_map config.distinct inConfigToo inConfig names
    rw [plainOf?, if_pos (.inr counts)] at isField
    cases isField
  prepares := by
    intro counters
    obtain ⟨field, member⟩ := List.exists_mem_of_ne_nil _ counters
    obtain ⟨param, ⟨configured, inConfig, counts, _⟩, rfl⟩ :=
      (made.mem_fieldsLikePtr named known).mp member
    rw [made.prepareToSend, Bool.or_eq_true]
    exact .inr (List.any_eq_true.mpr ⟨configured, inConfig, by simp [counts]⟩)

/-- The aggregator is set up by options that ask for no averages. -/
structure CountsDistinct (config : Config) (agg : Agg) : Prop where
  made : OfConfig config agg
  named : CountersNamed config
  known : ∀ field ∈ config.fields, Known field
  noAverages : ∀ field ∈ config.fields, field.function ≠ .avg ∧ field.function ≠ .rate

theorem counting_of_init {unirec : Libunirec} {options : Str}
    (read : Config.ofOptions options = .ok config)
    (noAverages : ∀ field ∈ config.fields, field.function ≠ .avg ∧ field.function ≠ .rate)
    {now : Int} {once stop : Bool} (initial : Agg.init unirec config now once stop = some agg) :
    CountsDistinct config agg :=
  ⟨ofConfig_of_init initial, countersNamed_of_ofOptions read, known_of_init initial, noAverages⟩

theorem CountsDistinct.mem_fieldsLikePtr (counting : CountsDistinct config agg) {field : PtrField} :
    field ∈ agg.outputTemp.fieldsLikePtr ↔
      ∃ param, config.Counts param ∧ field = counterOf param :=
  counting.made.mem_fieldsLikePtr counting.named counting.known

/-- Counters have fields of their own, and without averages nothing is divided. -/
theorem CountsDistinct.slots (counting : CountsDistinct config agg) : Slots agg.outputTemp where
  toCounterSlots := counting.made.counterSlots counting.named counting.known
  noDivision := by
    rw [counting.made.avgPostprocessing, List.any_eq_false]
    intro field member
    simp [averages, counting.noAverages field member]

end Templates

/-! ### Collected values -/

/-- How many values a field takes in a window. -/
def distinctValues (target : Field) (group : List Record) : Nat :=
  (group.map fun inRec => inRec target).toFinset.card

/-- A vector has every value a field takes in a window once. -/
structure Collects (target : Field) (group : List Record) (vector : List Nat) : Prop where
  nodup : vector.Nodup
  mem_iff : ∀ value, value ∈ vector ↔ ∃ inRec ∈ group, (inRec target).toNat = value

namespace Collects

variable {target : Field} {group : List Record} {vector : List Nat}

theorem first (target : Field) (inRec : Record) :
    Collects target [inRec] [(inRec target).toNat] :=
  ⟨List.nodup_singleton _, fun value => by simp [eq_comm]⟩

/-- A value that is not there yet comes last. -/
theorem next (collects : Collects target group vector) (inRec : Record) :
    Collects target (group ++ [inRec])
      (if vector.contains (inRec target).toNat then vector
        else vector ++ [(inRec target).toNat]) := by
  have later : ∀ value, (∃ other ∈ group ++ [inRec], (other target).toNat = value) ↔
      value ∈ vector ∨ (inRec target).toNat = value := by
    intro value
    rw [collects.mem_iff]
    simp [or_and_right, exists_or]
  split
  · rename_i found
    refine ⟨collects.nodup, fun value => ?_⟩
    rw [later, iff_self_or]
    rintro rfl
    exact List.contains_iff_mem.mp found
  · rename_i fresh
    have nodup := collects.nodup.concat fun member => fresh (List.contains_iff_mem.mpr member)
    rw [List.concat_eq_append] at nodup
    refine ⟨nodup, fun value => ?_⟩
    rw [later, List.mem_append, List.mem_singleton, eq_comm (a := value)]

/-- A vector is as long as there are values. -/
theorem length (collects : Collects target group vector) :
    vector.length = distinctValues target group := by
  have image : vector.toFinset =
      (group.map fun inRec => inRec target).toFinset.image BitVec.toNat := by
    ext value
    simp [collects.mem_iff]
  rw [← List.toFinset_card_of_nodup collects.nodup, image, Finset.card_image_of_injective]
  · rfl
  · exact fun _ _ => BitVec.eq_of_toNat_eq

end Collects

/-! ### Vectors of a stored record -/

theorem forall₂_map_zip {α β : Type} {before after : α → β → Prop} {items : List α}
    {values : List β} (related : List.Forall₂ before items values) {f : α × β → β}
    (step : ∀ item ∈ items, ∀ value, before item value → after item (f (item, value))) :
    List.Forall₂ after items ((items.zip values).map f) := by
  induction related with
  | nil => exact .nil
  | @cons item value items values here _ ih =>
      exact .cons (step item List.mem_cons_self value here)
        (ih fun item member => step item (List.mem_cons_of_mem _ member))

theorem applyPtr_counterOf {param : Unirec} (countable : (unirecType param).countable = true)
    (src : Nat) (vector : List Nat) :
    (counterOf param).process.applyPtr src vector =
      if vector.contains src then vector else vector ++ [src] := by
  unfold counterOf
  generalize unirecType param = type at countable ⊢
  cases type with
  | time => cases countable
  | _ => rfl

section Vectors

variable {config : Config} {agg : Agg} {group : List Record}

/-- Each vector has the values of the field its counter counts. -/
theorem CountsDistinct.collects (counting : CountsDistinct config agg) {stored : Stored}
    (stands : agg.StandsFor group stored) :
    List.Forall₂
      (fun field vector => field.target.type.countable → Collects field.target group vector)
      agg.outputTemp.fieldsLikePtr stored.vectors := by
  induction stands with
  | @first inRec dst fresh isFresh =>
      obtain ⟨vectors, inits, rfl⟩ := map_ok.mp isFresh
      refine (forall₂_of_mapM inits fun field _ vector isVector => ?_).flip
      unfold Agg.initVector at isVector
      split at isVector
      · cases isVector
        exact fun _ => .first field.target inRec
      · cases isVector
  | @next group stored _ inRec ih =>
      refine forall₂_map_zip ih fun field member vector collects countable => ?_
      obtain ⟨param, _, rfl⟩ := counting.mem_fieldsLikePtr.mp member
      have after := (collects countable).next inRec
      rw [← applyPtr_counterOf countable] at after
      exact after

/-- The number of values is sent. -/
theorem CountsDistinct.sends_distinct (counting : CountsDistinct config agg) {out : Record}
    (sends : agg.Sends group out) {param : Unirec} (counts : config.Counts param)
    (countable : (unirecType param).countable = true) :
    out (.countDistinctOf param) = BitVec.ofNat _ (distinctValues (.unirec param) group) := by
  obtain ⟨stored, stands, isSent⟩ := sends
  have slots := counting.slots
  have collects := counting.collects stands
  have member := counting.mem_fieldsLikePtr.mpr ⟨param, counts, rfl⟩
  have prepares := slots.prepares (List.ne_nil_of_mem member)
  have counters : (agg.outputTemp.fieldsLikePtr.zip stored.vectors).map Prod.fst =
      agg.outputTemp.fieldsLikePtr := List.map_fst_zip collects.length_eq.le
  have distinct : ((agg.outputTemp.fieldsLikePtr.zip stored.vectors).map
      fun counter => counter.1.record).Nodup := by
    have own := slots.distinct
    rw [← counters, List.map_map] at own
    exact own
  obtain ⟨⟨_, vector⟩, inZip, rfl⟩ := List.mem_map.mp (counters.symm ▸ member)
  rw [Agg.sendRecordOut, if_pos prepares, Agg.prepareToSend, slots.noDivision] at isSent
  rw [foldlM_makeField isSent]
  have value := Record.setAll_of_mem (fun counter : PtrField × List Nat => counter.1.record)
    (fun counter _ => BitVec.ofNat _ counter.2.length) distinct inZip stored.record
  have isCollected : Collects (.unirec param) group vector :=
    (List.forall₂_iff_zip.mp collects).2 inZip countable
  rw [← isCollected.length]
  exact value

end Vectors

end Policer.Aggregator
