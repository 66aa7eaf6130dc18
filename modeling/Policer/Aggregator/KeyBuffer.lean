import Policer.Aggregator.Storage
import Policer.Lib.Buffer

/-!
# Keys in memory

`KeyTemplate` and `Key` of `key.cpp` with their arrays: a field is registered behind the
others, a key is built field by field in an array that the sum of the sizes allocates,
and keys are compared and hashed over the written bytes. The fields are those of any
table with fixed lengths, and `SuperFastHash` is any function of the bytes and the length.
-/

namespace Policer.Aggregator

open Policer.Lib

/-- Fields of a fixed length. `ur_get_size` is a `short`. -/
structure FieldSizes (Id : Type) where
  urGetSize : Id → Nat
  short : ∀ id, urGetSize id < 2 ^ 15

/-- A record as `ur_get_ptr_by_id` gives it: the bytes of every field. -/
structure RawRecord {Id : Type} (table : FieldSizes Id) where
  urGetPtrById : Id → List (BitVec 8)
  length : ∀ id, (urGetPtrById id).length = table.urGetSize id

/-! ### Templates -/

/-- Members of `KeyTemplate`. -/
structure KeyTemplate (Id : Type) where
  indexesToRecord : Buffer Id
  usedFields : Nat
  keySize : BitVec 32

namespace KeyTemplate

variable {Id : Type}

/-- A template without fields. -/
def new : KeyTemplate Id := ⟨Buffer.alloc maxKeyFields, 0, 0⟩

/-- `KeyTemplate::add_field`. The array of the source has no check of its own. -/
def addField (self : KeyTemplate Id) (recordId : Id) (size : Nat) :
    Except BufferError (KeyTemplate Id) := do
  let indexesToRecord ← self.indexesToRecord.write self.usedFields [some recordId]
  return ⟨indexesToRecord, self.usedFields + 1, self.keySize + BitVec.ofNat 32 size⟩

/-- `KeyTemplate::reset`. -/
def reset (self : KeyTemplate Id) : KeyTemplate Id := { self with usedFields := 0, keySize := 0 }

/-- `Agg::init` registers the key fields one after the other. -/
def addFields (table : FieldSizes Id) (self : KeyTemplate Id) (fields : List Id) :
    Except BufferError (KeyTemplate Id) :=
  fields.foldlM (fun template id => template.addField id (table.urGetSize id)) self

end KeyTemplate

/-! ### Keys -/

/-- Members of `Key`. -/
structure KeyData where
  data : Buffer (BitVec 8)
  dataLength : Nat

namespace KeyData

/-- The constructor. -/
def new (keySize : BitVec 32) : KeyData := ⟨Buffer.alloc (keySize + 1).toNat, 0⟩

/-- `Key::add_field`. -/
def addField (self : KeyData) (src : List (BitVec 8)) (size : Nat) :
    Except BufferError KeyData := do
  let cells ← Buffer.read (src.map some) size
  let data ← self.data.write self.dataLength (cells.map some)
  return ⟨data, self.dataLength + size⟩

/-- The copy constructor. -/
def copy (other : KeyData) : Except BufferError KeyData := do
  let cells ← other.data.read other.dataLength
  let data ← (Buffer.alloc (other.dataLength + 1)).write 0 (cells.map some)
  return ⟨data, other.dataLength⟩

/-- `operator==`: `memcmp` over the length of the first key. -/
def equal (a b : KeyData) : Except BufferError Bool := do
  let here ← a.data.read a.dataLength
  let there ← b.data.read a.dataLength
  return here == there

/-- `std::hash<Key>`. -/
def hash (superFastHash : List (BitVec 8) → Nat → BitVec 32) (self : KeyData) :
    Except BufferError (BitVec 32) := do
  let cells ← self.data.read self.dataLength
  return superFastHash cells self.dataLength

/-- The key `Agg::eval` generates for a record. -/
def generate {Id : Type} {table : FieldSizes Id} (template : KeyTemplate Id)
    (inRec : RawRecord table) : Except BufferError KeyData :=
  (List.range template.usedFields).foldlM
    (fun key i => template.indexesToRecord.get i >>= fun recordId =>
      key.addField (inRec.urGetPtrById recordId) (table.urGetSize recordId))
    (new template.keySize)

end KeyData

/-! ### The storage -/

/-- A key is looked up by its hash first, and then by `operator==`. -/
def KeyData.matches (superFastHash : List (BitVec 8) → Nat → BitVec 32) (key stored : KeyData) :
    Except BufferError Bool := do
  let hashOfKey ← key.hash superFastHash
  let hashOfStored ← stored.hash superFastHash
  if hashOfKey = hashOfStored then key.equal stored else return false

/-- `storage.find`: the place of the entry with a key. -/
def findKey {Entry : Type} (superFastHash : List (BitVec 8) → Nat → BitVec 32) (key : KeyData) :
    List (KeyData × Entry) → Except BufferError (Option Nat)
  | [] => return none
  | (stored, _) :: rest => do
      if ← key.matches superFastHash stored then return some 0
      else return (← findKey superFastHash key rest).map (· + 1)

/-- `storage.insert(std::make_pair(rec_key, entry))`: the place of the entry with the key,
a copy of the key being stored when there is none. -/
def insertKey {Entry : Type} (superFastHash : List (BitVec 8) → Nat → BitVec 32)
    (storage : List (KeyData × Entry)) (recKey : KeyData) (entry : Entry) :
    Except BufferError (Nat × List (KeyData × Entry)) := do
  let pair ← recKey.copy
  match ← findKey superFastHash pair storage with
  | some place => return (place, storage)
  | none => return (storage.length, storage ++ [(← pair.copy, entry)])

/-! ### What a template holds -/

namespace KeyTemplate

variable {Id : Type} {table : FieldSizes Id} {fields : List Id} {template : KeyTemplate Id}

/-- The fields are registered in the template. -/
structure Registers (table : FieldSizes Id) (template : KeyTemplate Id) (fields : List Id) :
    Prop where
  indexes : ∃ rest, template.indexesToRecord = fields.map some ++ rest ∧
    fields.length + rest.length = maxKeyFields
  usedFields : template.usedFields = fields.length
  keySize : template.keySize.toNat = (fields.map table.urGetSize).sum

theorem Registers.new (table : FieldSizes Id) : Registers table .new [] :=
  ⟨⟨Buffer.alloc maxKeyFields, rfl, by simp [Buffer.alloc]⟩, rfl, rfl⟩

/-- What a reset leaves is used as a new template. -/
theorem Registers.reset (registers : Registers table template fields) :
    Registers table template.reset [] := by
  obtain ⟨rest, isRest, room⟩ := registers.indexes
  exact ⟨⟨template.indexesToRecord, rfl, by simp [isRest, room]⟩, rfl, rfl⟩

theorem sum_urGetSize_le (table : FieldSizes Id) (fields : List Id) :
    (fields.map table.urGetSize).sum ≤ fields.length * 2 ^ 15 := by
  induction fields with
  | nil => simp
  | cons head tail ih =>
      have here := table.short head
      rw [List.map_cons, List.sum_cons, List.length_cons]
      omega

/-- The sizes of the fields an array holds do not wrap. -/
theorem sum_urGetSize_lt (table : FieldSizes Id) {fields : List Id}
    (fits : fields.length ≤ maxKeyFields) : (fields.map table.urGetSize).sum + 1 < 2 ^ 32 := by
  have bound := sum_urGetSize_le table fields
  have most : fields.length ≤ 32 := fits
  omega

/-- A field is registered as long as the array has room. -/
theorem Registers.addField (registers : Registers table template fields) {id : Id}
    {next : KeyTemplate Id} (added : template.addField id (table.urGetSize id) = .ok next) :
    Registers table next (fields ++ [id]) := by
  obtain ⟨rest, isRest, room⟩ := registers.indexes
  obtain ⟨indexes, written, isNext⟩ := bind_ok.mp added
  rw [isRest, registers.usedFields] at written
  have space : [id].length ≤ rest.length := by
    by_contra full
    rw [List.length_singleton] at full
    have overrun : (fields.map some ++ rest).length < fields.length + [some id].length := by
      rw [List.length_append, List.length_map, List.length_singleton]
      omega
    rw [Buffer.write_overrun overrun] at written
    cases written
  have cells := Buffer.write_filled fields [id] space
  obtain rfl := Except.ok.inj (cells.symm.trans written)
  obtain rfl := Except.ok.inj isNext
  rw [List.length_singleton] at space
  have more : (fields ++ [id]).length ≤ maxKeyFields := by
    rw [List.length_append, List.length_singleton]
    omega
  have sums : ((fields ++ [id]).map table.urGetSize).sum =
      (fields.map table.urGetSize).sum + table.urGetSize id := by
    simp
  have bound := sum_urGetSize_lt table more
  refine ⟨⟨rest.drop 1, rfl, ?_⟩, by simp [registers.usedFields], ?_⟩
  · rw [List.length_append, List.length_singleton, List.length_drop]
    omega
  · rw [sums] at bound ⊢
    rw [BitVec.toNat_add, BitVec.toNat_ofNat, registers.keySize, Nat.add_mod_mod,
      Nat.mod_eq_of_lt (by omega)]

theorem Registers.addFields {earlier : List Id} (registers : Registers table template earlier)
    {next : KeyTemplate Id} (added : template.addFields table fields = .ok next) :
    Registers table next (earlier ++ fields) := by
  induction fields generalizing template earlier with
  | nil =>
      obtain rfl := Except.ok.inj added
      simpa using registers
  | cons head tail ih =>
      rw [KeyTemplate.addFields, List.foldlM_cons] at added
      obtain ⟨middle, first, rest⟩ := bind_ok.mp added
      simpa using ih (registers.addField first) rest

/-- As many fields as the array holds can be registered. -/
theorem addFields_of_fits {earlier : List Id} (registers : Registers table template earlier)
    (fits : earlier.length + fields.length ≤ maxKeyFields) :
    ∃ next, template.addFields table fields = .ok next := by
  induction fields generalizing template earlier with
  | nil => exact ⟨template, rfl⟩
  | cons head tail ih =>
      obtain ⟨rest, isRest, room⟩ := registers.indexes
      rw [List.length_cons] at fits
      have space : [head].length ≤ rest.length := by
        rw [List.length_singleton]
        omega
      have cells := Buffer.write_filled earlier [head] space
      obtain ⟨middle, first⟩ : ∃ middle,
          template.addField head (table.urGetSize head) = .ok middle := by
        rw [KeyTemplate.addField, isRest, registers.usedFields]
        exact ⟨_, bind_ok.mpr ⟨_, cells, rfl⟩⟩
      obtain ⟨next, later⟩ := ih (registers.addField first) (by
        rw [List.length_append, List.length_singleton]
        omega)
      exact ⟨next, bind_ok.mpr ⟨middle, first, later⟩⟩

end KeyTemplate

/-! ### What a key holds -/

namespace KeyData

/-- The cells are written one behind the other, and `room` cells are not written. -/
structure Holds (key : KeyData) (cells : List (BitVec 8)) (room : Nat) : Prop where
  data : key.data = cells.map some ++ Buffer.alloc room
  dataLength : key.dataLength = cells.length

variable {key a b : KeyData} {cells first second : List (BitVec 8)} {room : Nat}

theorem Holds.new (keySize : BitVec 32) : (new keySize).Holds [] (keySize + 1).toNat :=
  ⟨rfl, rfl⟩

theorem Holds.read (holds : key.Holds cells room) : key.data.read key.dataLength = .ok cells := by
  rw [holds.data, holds.dataLength, Buffer.read_filled]

/-- A field is written behind the others as long as there is room. -/
theorem Holds.addField (holds : key.Holds cells room) {src : List (BitVec 8)} {size : Nat}
    (length : src.length = size) (fits : size ≤ room) :
    ∃ next, key.addField src size = .ok next ∧ next.Holds (cells ++ src) (room - size) := by
  subst length
  have space : src.length ≤ (Buffer.alloc room : Buffer (BitVec 8)).length := by
    simpa [Buffer.alloc] using fits
  have source : Buffer.read (src.map some) src.length = .ok src := by
    simpa using Buffer.read_filled src []
  have written := Buffer.write_filled cells src space
  rw [← holds.data, ← holds.dataLength] at written
  refine ⟨_, bind_ok.mpr ⟨src, source, bind_ok.mpr ⟨_, written, rfl⟩⟩, ?_, ?_⟩
  · simp [Buffer.alloc]
  · simp [holds.dataLength]

/-- A copy holds the same cells. -/
theorem Holds.copy (holds : key.Holds cells room) :
    ∃ copied, key.copy = .ok copied ∧ copied.Holds cells 1 := by
  have space : cells.length ≤ (Buffer.alloc (key.dataLength + 1) : Buffer (BitVec 8)).length := by
    simp [Buffer.alloc, holds.dataLength]
  have written := Buffer.write_filled [] cells space
  refine ⟨_, bind_ok.mpr ⟨cells, holds.read, bind_ok.mpr ⟨_, written, rfl⟩⟩, ?_,
    holds.dataLength⟩
  simp [Buffer.alloc, holds.dataLength]

/-- Keys of one length are equal when they hold the same cells. -/
theorem Holds.equal {others : Nat} (here : a.Holds first room) (there : b.Holds second others)
    (lengths : first.length = second.length) : a.equal b = .ok (first == second) := by
  have later : b.data.read a.dataLength = .ok second := by
    rw [here.dataLength, lengths, ← there.dataLength]
    exact there.read
  exact bind_ok.mpr ⟨first, here.read, bind_ok.mpr ⟨second, later, rfl⟩⟩

theorem Holds.hash (holds : key.Holds cells room)
    (superFastHash : List (BitVec 8) → Nat → BitVec 32) :
    key.hash superFastHash = .ok (superFastHash cells cells.length) := by
  rw [KeyData.hash, holds.read, holds.dataLength]
  rfl

end KeyData

section Records

variable {Id : Type} {table : FieldSizes Id}

/-- The bytes of the key fields of a record. -/
def RawRecord.keyBytes (inRec : RawRecord table) (fields : List Id) : List (BitVec 8) :=
  fields.flatMap inRec.urGetPtrById

theorem RawRecord.length_keyBytes (inRec : RawRecord table) (fields : List Id) :
    (inRec.keyBytes fields).length = (fields.map table.urGetSize).sum := by
  simp [RawRecord.keyBytes, inRec.length, List.length_flatMap]

/-- The bytes of two records are the same when each of the key fields is. -/
theorem RawRecord.keyBytes_eq_iff (first second : RawRecord table) (fields : List Id) :
    first.keyBytes fields = second.keyBytes fields ↔
      ∀ id ∈ fields, first.urGetPtrById id = second.urGetPtrById id := by
  induction fields with
  | nil => simp [keyBytes]
  | cons head tail ih =>
      rw [List.forall_mem_cons, ← ih]
      simp only [keyBytes, List.flatMap_cons]
      have lengths : (first.urGetPtrById head).length = (second.urGetPtrById head).length := by
        rw [first.length, second.length]
      constructor
      · exact fun same => List.append_inj same lengths
      · rintro ⟨here, later⟩
        rw [here, later]

/-- The fields are written one after the other as long as there is room. -/
theorem KeyData.Holds.addFields (inRec : RawRecord table) (fields : List Id) {key : KeyData}
    {cells : List (BitVec 8)} {room : Nat} (holds : key.Holds cells room)
    (fits : (fields.map table.urGetSize).sum ≤ room) :
    ∃ next, fields.foldlM (fun key recordId =>
        key.addField (inRec.urGetPtrById recordId) (table.urGetSize recordId)) key = .ok next ∧
      next.Holds (cells ++ inRec.keyBytes fields) (room - (fields.map table.urGetSize).sum) := by
  induction fields generalizing key cells room with
  | nil => exact ⟨key, rfl, by simpa [RawRecord.keyBytes] using holds⟩
  | cons head tail ih =>
      rw [List.map_cons, List.sum_cons] at fits
      obtain ⟨middle, first, added⟩ := holds.addField (inRec.length head) (by omega)
      obtain ⟨next, later, written⟩ := ih added (by omega)
      refine ⟨next, ?_, ?_⟩
      · rw [List.foldlM_cons]
        exact bind_ok.mpr ⟨middle, first, later⟩
      · rw [List.map_cons, List.sum_cons, ← Nat.sub_sub]
        simpa [RawRecord.keyBytes] using written

/-- The key of a record holds the bytes of its key fields, and one cell is left. -/
theorem KeyTemplate.Registers.generate {template : KeyTemplate Id} {fields : List Id}
    (registers : template.Registers table fields) (inRec : RawRecord table) :
    ∃ key, KeyData.generate template inRec = .ok key ∧ key.Holds (inRec.keyBytes fields) 1 := by
  obtain ⟨rest, isRest, room⟩ := registers.indexes
  have most : fields.length ≤ maxKeyFields := by omega
  have small := KeyTemplate.sum_urGetSize_lt table most
  have allocated : (template.keySize + 1).toNat = (fields.map table.urGetSize).sum + 1 := by
    rw [BitVec.toNat_add, registers.keySize]
    exact Nat.mod_eq_of_lt small
  obtain ⟨key, built, holds⟩ :=
    (KeyData.Holds.new template.keySize).addFields inRec fields (by omega)
  refine ⟨key, ?_, ?_⟩
  · rw [KeyData.generate, isRest, registers.usedFields, Buffer.foldlM_get_filled]
    exact built
  · rw [allocated, Nat.add_sub_cancel_left] at holds
    exact holds

end Records

/-! ### Entries of the storage -/

section Entries

variable {Entry : Type} {size : Nat} {storage : List (KeyData × Entry)}
  (superFastHash : List (BitVec 8) → Nat → BitVec 32)

/-- The written bytes of a key. -/
def KeyData.written (key : KeyData) : List (BitVec 8) := key.data.filterMap id

theorem KeyData.Holds.written_eq {key : KeyData} {cells : List (BitVec 8)} {room : Nat}
    (holds : key.Holds cells room) : key.written = cells := by
  simp [KeyData.written, holds.data, Buffer.alloc, List.filterMap_append, List.filterMap_map]

/-- Every key of the storage is written up to its last cell, and all have one length. -/
def StoresKeys (size : Nat) (storage : List (KeyData × Entry)) : Prop :=
  ∀ entry ∈ storage, entry.1.Holds entry.1.written 1 ∧ entry.1.written.length = size

/-- Keys of one length match when they hold the same cells. -/
theorem KeyData.Holds.matches {a b : KeyData} {first second : List (BitVec 8)} {room others : Nat}
    (here : a.Holds first room) (there : b.Holds second others)
    (lengths : first.length = second.length) :
    a.matches superFastHash b = .ok (second == first) := by
  refine bind_ok.mpr ⟨_, here.hash superFastHash, bind_ok.mpr ⟨_, there.hash superFastHash, ?_⟩⟩
  rw [Bool.beq_comm]
  split
  · exact here.equal there lengths
  · rename_i differs
    have distinct : first ≠ second := fun same => differs (by rw [same])
    rw [beq_eq_false_iff_ne.mpr distinct]
    rfl

/-- An entry is found by the bytes of its key. -/
theorem StoresKeys.findKey (stores : StoresKeys size storage) {key : KeyData}
    {cells : List (BitVec 8)} {room : Nat} (holds : key.Holds cells room)
    (length : cells.length = size) :
    findKey superFastHash key storage =
      .ok ((storage.map fun entry => entry.1.written).idxOf? cells) := by
  induction storage with
  | nil => rfl
  | cons head tail ih =>
      obtain ⟨⟨stored, isLength⟩, others⟩ := List.forall_mem_cons.mp stores
      have matched := holds.matches superFastHash stored (length.trans isLength.symm)
      rw [Aggregator.findKey, matched, ih others, List.map_cons, List.idxOf?_cons]
      simp only [bind, Except.bind, pure, Except.pure]
      split <;> rfl

/-- The storage after a key was inserted: it has an entry for the key, at the place that is
given back, and the earlier entries are where they were. -/
theorem StoresKeys.insertKey (stores : StoresKeys size storage) {key : KeyData}
    {cells : List (BitVec 8)} {room : Nat} (holds : key.Holds cells room)
    (length : cells.length = size) (entry : Entry) :
    ∃ place next, insertKey superFastHash storage key entry = .ok (place, next) ∧
      StoresKeys size next ∧ storage <+: next ∧
      (next.map fun entry => entry.1.written).idxOf? cells = some place := by
  obtain ⟨pair, isPair, pairHolds⟩ := holds.copy
  have found := stores.findKey superFastHash pairHolds length
  cases there : (storage.map fun entry => entry.1.written).idxOf? cells with
  | some place =>
      rw [there] at found
      exact ⟨place, storage, bind_ok.mpr ⟨pair, isPair, bind_ok.mpr ⟨_, found, rfl⟩⟩, stores,
        List.prefix_rfl, there⟩
  | none =>
      rw [there] at found
      obtain ⟨node, isNode, nodeHolds⟩ := pairHolds.copy
      refine ⟨storage.length, storage ++ [(node, entry)],
        bind_ok.mpr ⟨pair, isPair, bind_ok.mpr ⟨_, found, bind_ok.mpr ⟨node, isNode, rfl⟩⟩⟩, ?_,
        List.prefix_append .., ?_⟩
      · intro stored member
        rcases List.mem_append.mp member with before | added
        · exact stores stored before
        · obtain rfl := List.mem_singleton.mp added
          simpa [nodeHolds.written_eq] using ⟨nodeHolds, length⟩
      · rw [List.idxOf?] at there ⊢
        rw [List.map_append, List.map_singleton, List.findIdx?_append, there]
        simp [nodeHolds.written_eq]

/-- The storages of an aggregator: entries are inserted for records, and erased. -/
inductive KeyStorage {Id : Type} (table : FieldSizes Id) (template : KeyTemplate Id) :
    List (KeyData × Entry) → Prop where
  | empty : KeyStorage table template []
  | insert {storage next : List (KeyData × Entry)} {inRec : RawRecord table} {recKey : KeyData}
      {entry : Entry} {place : Nat} (filled : KeyStorage table template storage)
      (generated : KeyData.generate template inRec = .ok recKey)
      (inserted : Aggregator.insertKey superFastHash storage recKey entry = .ok (place, next)) :
      KeyStorage table template next
  | erase {storage kept : List (KeyData × Entry)} (filled : KeyStorage table template storage)
      (fewer : kept.Sublist storage) : KeyStorage table template kept

theorem KeyStorage.storesKeys {Id : Type} {table : FieldSizes Id} {template : KeyTemplate Id}
    {fields : List Id} (registers : template.Registers table fields)
    (filled : KeyStorage superFastHash table template storage) :
    StoresKeys template.keySize.toNat storage := by
  induction filled with
  | empty => exact fun _ member => by cases member
  | @insert storage next inRec recKey entry place _ generated inserted inductionHypothesis =>
      obtain ⟨key, isKey, holds⟩ := registers.generate inRec
      obtain rfl := Except.ok.inj (generated.symm.trans isKey)
      have length : (inRec.keyBytes fields).length = template.keySize.toNat := by
        rw [inRec.length_keyBytes, registers.keySize]
      obtain ⟨_, _, isNext, stores, _⟩ :=
        inductionHypothesis.insertKey superFastHash holds length entry
      obtain ⟨rfl, rfl⟩ := Prod.mk.inj (Except.ok.inj (inserted.symm.trans isNext))
      exact stores
  | erase _ fewer inductionHypothesis =>
      exact fun entry member => inductionHypothesis entry (fewer.subset member)

/-- Two keys that are inserted have one entry when they hold the same bytes. -/
theorem StoresKeys.insert_both (stores : StoresKeys size storage) {a b : KeyData}
    {first second : List (BitVec 8)} {room others : Nat} (here : a.Holds first room)
    (there : b.Holds second others) (length : first.length = size)
    (isLength : second.length = size) (entry other : Entry) :
    ∃ place middle place' last,
      Aggregator.insertKey superFastHash storage a entry = .ok (place, middle) ∧
      Aggregator.insertKey superFastHash middle b other = .ok (place', last) ∧
      (place = place' ↔ first = second) := by
  obtain ⟨place, middle, inserted, stores, _, isPlace⟩ :=
    stores.insertKey superFastHash here length entry
  obtain ⟨place', last, later, _, ⟨added, rfl⟩, isPlace'⟩ :=
    stores.insertKey superFastHash there isLength other
  refine ⟨place, middle, place', _, inserted, later, ?_⟩
  obtain ⟨inside, isFirst, _⟩ := List.idxOf?_eq_some_iff.mp isPlace
  obtain ⟨inside', isSecond, _⟩ := List.idxOf?_eq_some_iff.mp isPlace'
  constructor
  · rintro rfl
    rw [← isFirst, ← isSecond]
    simp only [List.map_append]
    rw [List.getElem_append_left]
  · rintro rfl
    rw [List.idxOf?] at isPlace isPlace'
    rw [List.map_append, List.findIdx?_append, isPlace] at isPlace'
    exact Option.some.inj isPlace'

end Entries

/-! ### The keys of the aggregator -/

/-- The sizes of the fields of the program. -/
def unirecSizes : FieldSizes Field where
  urGetSize field := field.type.bits / 8
  short field := by cases field.type <;> decide

/-- The bytes of a record of the program. -/
def Record.raw (record : Record) : RawRecord unirecSizes where
  urGetPtrById field := bytes (record field)
  length field := length_bytes (record field)

theorem keyBytes_raw (record : Record) (fields : List Field) :
    record.raw.keyBytes fields = recKey fields record := by
  induction fields with
  | nil => rfl
  | cons head tail ih =>
      rw [recKey_cons, ← ih]
      rfl

/-- The key fields of an aggregator are registered in a template, and the keys that are built
from it hold the bytes its storage is indexed by. -/
theorem Agg.generates {unirec : Libunirec} {config : Config} {now : Int} {once stop : Bool}
    {agg : Agg} (initial : Agg.init unirec config now once stop = some agg) :
    ∃ template, KeyTemplate.new.addFields unirecSizes agg.keyTemp = .ok template ∧
      ∀ inRec : Record, ∃ key, KeyData.generate template inRec.raw = .ok key ∧
        key.written = recKey agg.keyTemp inRec := by
  have keys : agg.keyTemp = config.fields.filterMap keyOf? := by
    rw [init_eq (known_of_init initial)] at initial
    obtain rfl := Option.some.inj initial
    rfl
  have fits : ([] : List Field).length + agg.keyTemp.length ≤ maxKeyFields := by
    rw [keys, List.length_nil, Nat.zero_add]
    exact (List.length_filterMap_le _ _).trans config.fits
  obtain ⟨template, registered⟩ :=
    KeyTemplate.addFields_of_fits (KeyTemplate.Registers.new unirecSizes) fits
  refine ⟨template, registered, fun inRec => ?_⟩
  have registers := (KeyTemplate.Registers.new unirecSizes).addFields registered
  obtain ⟨key, isKey, holds⟩ := registers.generate inRec.raw
  exact ⟨key, isKey, by rw [holds.written_eq, List.nil_append, keyBytes_raw]⟩

/-! ### Which records share an entry -/

/-- A record writes `key_size` bytes of the allocated array, and nothing behind them. -/
def KeyData.Fills (key : KeyData) (keySize : BitVec 32) : Prop :=
  key.dataLength = keySize.toNat ∧
    ∃ cells : List (BitVec 8), key.data = cells.map some ++ [none] ∧ cells.length = keySize.toNat

/-- Keys are built within their arrays and are equal exactly when the records agree on every key
field, copies are equal and hash the same bytes, and two records have one entry of the storage
exactly when their key fields agree. -/
theorem keys_agree {Id : Type} {table : FieldSizes Id} {fields : List Id}
    {template : KeyTemplate Id} (registered : KeyTemplate.new.addFields table fields = .ok template)
    (first second : RawRecord table) :
    ∃ a b same copied, KeyData.generate template first = .ok a ∧
      KeyData.generate template second = .ok b ∧
      a.Fills template.keySize ∧ b.Fills template.keySize ∧
      a.equal b = .ok same ∧
      (same = true ↔ ∀ id ∈ fields, first.urGetPtrById id = second.urGetPtrById id) ∧
      a.copy = .ok copied ∧ a.equal copied = .ok true ∧ copied.equal a = .ok true ∧
      copied.dataLength = a.dataLength ∧
      copied.data.read copied.dataLength = a.data.read a.dataLength ∧
      ∀ superFastHash, copied.hash superFastHash = a.hash superFastHash ∧
        ∀ (Entry : Type) (storage : List (KeyData × Entry)) (entry other : Entry),
          KeyStorage superFastHash table template storage →
          ∃ place middle place' last,
            insertKey superFastHash storage a entry = .ok (place, middle) ∧
            insertKey superFastHash middle b other = .ok (place', last) ∧
            (place = place' ↔ ∀ id ∈ fields, first.urGetPtrById id = second.urGetPtrById id) := by
  have registers : template.Registers table fields :=
    (KeyTemplate.Registers.new table).addFields registered
  obtain ⟨a, isA, here⟩ := registers.generate first
  obtain ⟨b, isB, there⟩ := registers.generate second
  obtain ⟨copied, isCopy, copyHolds⟩ := here.copy
  have size : ∀ inRec : RawRecord table,
      (inRec.keyBytes fields).length = template.keySize.toNat := by
    intro inRec
    rw [inRec.length_keyBytes, registers.keySize]
  have agree := first.keyBytes_eq_iff second fields
  refine ⟨a, b, _, copied, isA, isB, ?_, ?_, here.equal there ((size _).trans (size _).symm), ?_,
    isCopy, ?_, ?_, ?_, ?_, fun superFastHash => ⟨?_, ?_⟩⟩
  · exact ⟨here.dataLength.trans (size first), _, here.data, size first⟩
  · exact ⟨there.dataLength.trans (size second), _, there.data, size second⟩
  · rw [beq_iff_eq, agree]
  · rw [here.equal copyHolds rfl, beq_self_eq_true]
  · rw [copyHolds.equal here rfl, beq_self_eq_true]
  · rw [copyHolds.dataLength, here.dataLength]
  · rw [copyHolds.read, here.read]
  · rw [copyHolds.hash, here.hash]
  · intro Entry storage entry other filled
    have stores := filled.storesKeys superFastHash registers
    rw [← agree]
    exact stores.insert_both superFastHash here there (size first) (size second) entry other

/-- A port that is no key is not part of the key. -/
theorem keys_agree_dstIP : ∃ template,
    KeyTemplate.new.addFields unirecSizes [.unirec .dstIP, .unirec .protocol] = .ok template ∧
      template.keySize = 17 ∧
      ∃ a b, KeyData.generate template onesRecord.raw = .ok a ∧
        KeyData.generate template (onesRecord.set (.unirec .dstPort) 7).raw = .ok b ∧
        a.Fills template.keySize ∧ a.equal b = .ok true := by
  have fits : ([] : List Field).length + [Field.unirec .dstIP, .unirec .protocol].length ≤
      maxKeyFields := by decide
  obtain ⟨template, registered⟩ :=
    KeyTemplate.addFields_of_fits (KeyTemplate.Registers.new unirecSizes) fits
  obtain ⟨a, b, same, _, isA, isB, fills, _, equal, agree, _⟩ :=
    keys_agree registered onesRecord.raw (onesRecord.set (.unirec .dstPort) 7).raw
  have registers := (KeyTemplate.Registers.new unirecSizes).addFields registered
  have size : template.keySize = 17 := BitVec.eq_of_toNat_eq (registers.keySize.trans (by decide))
  have isSame : same = true := by
    refine agree.mpr fun id member => ?_
    have other : id ≠ .unirec .dstPort := by
      rcases List.mem_pair.mp member with rfl | rfl <;> decide
    exact congrArg bytes (Record.set_other other ..).symm
  exact ⟨template, registered, size, a, b, isA, isB, fills, isSame ▸ equal⟩

end Policer.Aggregator
