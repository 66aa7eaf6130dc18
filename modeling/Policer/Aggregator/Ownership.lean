import Policer.Aggregator.Containers
import Policer.Aggregator.Summary
import Policer.Lib.Outcome

/-!
# Every vector has one owner

A stored record owns the vectors its counters point to. The loops over the counters of a
template keep this: `init_ptr_field` makes the record the owner of new vectors,
`process_agg_functions` changes the vectors it owns, and `prepare_to_send` releases them. The
vectors of other owners keep their contents.
-/

namespace Policer.Aggregator

open Policer.Lib Policer.Parsing

/-! ### Owned vectors -/

/-- The owners have all live vectors, none of which is too long. -/
structure Held (heap : Vectors) (owners : List Nat) : Prop where
  owned : heap.Owned owners
  short : ∀ block ∈ owners, ∀ vector, heap.contents block = some vector →
    vector.length ≤ maxSize

namespace Held

variable {heap heap' : Vectors} {owners others : List Nat} {block : Nat}

theorem perm (held : Held heap owners) (reordered : owners.Perm others) : Held heap others :=
  ⟨held.owned.perm reordered, fun block member =>
    held.short block (reordered.mem_iff.mpr member)⟩

/-- Vectors that have not changed are still short. -/
theorem of_same (owned : heap'.Owned others) (held : Held heap owners) (subset : others ⊆ owners)
    (same : heap.Same heap' others) : Held heap' others :=
  ⟨owned, fun block member vector holds =>
    held.short block (subset member) vector ((same block member).symm.trans holds)⟩

theorem cons (owned : heap'.Owned (block :: others)) (held : Held heap owners)
    (subset : others ⊆ owners) (same : heap.Same heap' others) {vector : List Nat}
    (holds : heap'.contents block = some vector) (short : vector.length ≤ maxSize) :
    Held heap' (block :: others) := by
  refine ⟨owned, fun other member found isVector => ?_⟩
  rcases List.mem_cons.mp member with rfl | isOther
  · rw [holds] at isVector
    exact Option.some.inj isVector ▸ short
  · exact held.short other (subset isOther) found ((same other isOther).symm.trans isVector)

end Held

/-- The vector behind a field. -/
def vectorAt (heap : Vectors) (stored : HeapRecord) (field : Field) : List Nat :=
  ((stored.address field).bind heap.contents).getD []

theorem vectorAt_eq {heap : Vectors} {stored : HeapRecord} {field : Field} {block : Nat}
    {vector : List Nat} (isBlock : stored.address field = some block)
    (holds : heap.contents block = some vector) : vectorAt heap stored field = vector := by
  simp [vectorAt, isBlock, holds]

/-- The vectors behind some counters. -/
def blocksOf (items : List PtrField) (stored : HeapRecord) : List Nat :=
  items.filterMap fun field => stored.address field.record

theorem blocksOf_cons {head : PtrField} {stored : HeapRecord} {block : Nat}
    (isBlock : stored.address head.record = some block) (tail : List PtrField) :
    blocksOf (head :: tail) stored = block :: blocksOf tail stored :=
  List.filterMap_cons_some isBlock

theorem vectorAt_congr {heap heap' : Vectors} {stored : HeapRecord} {items : List PtrField}
    (same : heap.Same heap' (blocksOf items stored)) {field : PtrField} (member : field ∈ items) :
    vectorAt heap' stored field.record = vectorAt heap stored field.record := by
  cases isBlock : stored.address field.record with
  | none => simp [vectorAt, isBlock]
  | some block =>
      have here := same block (List.mem_filterMap.mpr ⟨field, member, isBlock⟩)
      simp [vectorAt, isBlock, here]

/-- All counters point to vectors. -/
def Filled (items : List PtrField) (stored : HeapRecord) : Prop :=
  ∀ field ∈ items, ∃ block, stored.address field.record = some block

/-! ### One more value -/

theorem countDistinctBy_meets {same : Nat → Nat → Bool} (isSame : ∀ a b, same a b = (a == b))
    (srcVal : Nat) {vector : List Nat} (short : vector.length ≤ maxSize) :
    Meets (countDistinctBy same srcVal vector)
      (fun updated => updated = (if vector.contains srcVal then vector else vector ++ [srcVal]) ∧
        updated.length ≤ maxSize) (· = .lengthError) := by
  have found : (vector.any fun item => same item srcVal) = vector.contains srcVal := by
    simp only [isSame, List.contains_eq_any_beq, BEq.comm]
  unfold countDistinctBy pushBack
  rw [found]
  split
  · exact .ok ⟨rfl, short⟩
  · split
    · exact .ok ⟨rfl, by simpa using by omega⟩
    · exact .error rfl

/-- A function that keeps a vector short runs on the vector behind a pointer. -/
theorem updateVector_meets {heap : Vectors} {stored : HeapRecord} {field : Field} {block : Nat}
    (isBlock : stored.address field = some block) {others : List Nat}
    (held : Held heap (block :: others)) {func : List Nat → Except MemoryFault (List Nat)}
    {result : List Nat → List Nat} (meets : ∀ vector, vector.length ≤ maxSize →
      Meets (func vector) (fun updated => updated = result vector ∧ updated.length ≤ maxSize)
        (· = .lengthError)) :
    Meets (updateVector heap stored field func)
      (fun heap' => Held heap' (block :: others) ∧ heap.Same heap' others ∧
        heap'.released = heap.released ∧
        vectorAt heap' stored field = result (vectorAt heap stored field))
      (· = .lengthError) := by
  obtain ⟨vector, reads, holds⟩ := held.owned.read
  have short := held.short block List.mem_cons_self vector holds
  have unfolds : updateVector heap stored field func =
      (func vector >>= fun updated => (heap.write block updated).mapError .heap) := by
    unfold updateVector HeapRecord.vecPtr
    rw [isBlock]
    change ((heap.read block).mapError MemoryFault.heap >>= _) = _
    rw [reads]
    rfl
  rw [unfolds]
  refine (meets vector short).bind fun updated isUpdated => ?_
  obtain ⟨heap', writes, owned, now, same, released⟩ := held.owned.write updated
  rw [writes]
  refine .ok ⟨.cons owned held (List.subset_cons_self ..) same now isUpdated.2, same, released, ?_⟩
  rw [vectorAt_eq isBlock now, vectorAt_eq isBlock holds, isUpdated.1]

/-- What `process_ptr` makes of the vector of a counter. -/
theorem processPtrField_meets {ipCmp : Nat → Nat → Int} (isCmp : ∀ a b, ipCmp a b = 0 ↔ a = b)
    (src : Record) {dst : HeapRecord} {field : PtrField} {block : Nat}
    (isBlock : dst.address field.record = some block) {heap : Vectors} {others : List Nat}
    (held : Held heap (block :: others)) :
    Meets (processPtrField ipCmp src dst heap field)
      (fun heap' => Held heap' (block :: others) ∧ heap.Same heap' others ∧
        heap'.released = heap.released ∧
        vectorAt heap' dst field.record =
          field.process.applyPtr (src field.target).toNat (vectorAt heap dst field.record))
      (· = .lengthError) := by
  unfold processPtrField
  cases field.process with
  | countDistinct =>
      refine updateVector_meets isBlock held fun vector short => ?_
      exact countDistinctBy_meets (fun _ _ => rfl) _ short
  | countDistinctIp =>
      refine updateVector_meets isBlock held fun vector short => ?_
      refine countDistinctBy_meets (fun a b => ?_) _ short
      rw [Bool.eq_iff_iff, beq_iff_eq, beq_iff_eq, isCmp]
  | _ => exact .ok ⟨held, .refl _ _, rfl, rfl⟩

/-- The last loop of `process_agg_functions` updates the vectors of the stored record. -/
theorem processPtrFields_meets {ipCmp : Nat → Nat → Int} (isCmp : ∀ a b, ipCmp a b = 0 ↔ a = b)
    (src : Record) {dst : HeapRecord} {items : List PtrField} (filled : Filled items dst)
    {heap : Vectors} {others : List Nat} (held : Held heap (blocksOf items dst ++ others)) :
    Meets (items.foldlM (processPtrField ipCmp src dst) heap)
      (fun heap' => Held heap' (blocksOf items dst ++ others) ∧ heap.Same heap' others ∧
        heap'.released = heap.released ∧
        ∀ field ∈ items, vectorAt heap' dst field.record =
          field.process.applyPtr (src field.target).toNat (vectorAt heap dst field.record))
      (· = .lengthError) := by
  induction items generalizing heap others with
  | nil => exact .ok ⟨held, .refl _ _, rfl, fun _ member => by cases member⟩
  | cons head tail ih =>
      obtain ⟨block, isBlock⟩ := filled head List.mem_cons_self
      rw [List.foldlM_cons, blocksOf_cons isBlock] at *
      refine (processPtrField_meets isCmp src isBlock held).bind fun middle first => ?_
      obtain ⟨held', same, released, updated⟩ := first
      have moved := held'.perm List.perm_middle.symm
      refine (ih (fun field member => filled field (List.mem_cons_of_mem _ member)) moved).imp ?_
      rintro heap' ⟨held'', same', released', each⟩
      refine ⟨held''.perm List.perm_middle,
        (same.subset (List.subset_append_right ..)).trans (same'.subset (List.subset_cons_self ..)),
        released'.trans released, ?_⟩
      intro field member
      rcases List.mem_cons.mp member with rfl | later
      · have here := same' block List.mem_cons_self
        rw [← updated]
        simp [vectorAt, isBlock, here]
      · rw [each field later, vectorAt_congr (same.subset (List.subset_append_left ..)) later]

/-! ### New vectors -/

/-- What `init_ptr_field` does for some counters. -/
structure Initialised (items : List PtrField) (src : Record) (before : HeapRecord × Vectors)
    (others : List Nat) (after : HeapRecord × Vectors) : Prop where
  held : Held after.2 (blocksOf items after.1 ++ others)
  same : before.2.Same after.2 others
  released : after.2.released = before.2.released
  record : after.1.record = before.1.record
  filled : Filled items after.1
  frame : ∀ field, field ∉ items.map PtrField.record →
    after.1.address field = before.1.address field
  vectors : items.mapM (Agg.initVector src) =
    .ok (items.map fun field => vectorAt after.2 after.1 field.record)

theorem initSlots_meets {items : List PtrField} (distinct : (items.map PtrField.record).Nodup)
    (src : Record) {state : HeapRecord × Vectors} {others : List Nat}
    (held : Held state.2 others) :
    Meets (items.foldlM (initSlot src) state) (Initialised items src state others)
      fun fault => fault = .fault .nullFunction ∧ ∃ field ∈ items, field.alloc = none := by
  induction items generalizing state others with
  | nil =>
      exact .ok ⟨held, .refl _ _, rfl, rfl, fun _ member => (by cases member), fun _ _ => rfl, rfl⟩
  | cons head tail ih =>
      obtain ⟨fresh, distinct⟩ := List.nodup_cons.mp distinct
      rw [List.foldlM_cons]
      cases alloc : head.alloc with
      | none =>
          have fails : initSlot src state head = .error (.fault .nullFunction) := by
            rw [initSlot, alloc]
          rw [fails]
          exact .error ⟨rfl, head, List.mem_cons_self, alloc⟩
      | some func =>
          let value := (src head.target).toNat
          let middle : HeapRecord × Vectors :=
            (state.1.setAddress head.record state.2.next, state.2.alloc [value])
          have allocates : initSlot src state head = .ok middle := by
            rw [initSlot, alloc]
          obtain ⟨owned, same⟩ := held.owned.alloc [value]
          have now : middle.2.contents state.2.next = some [value] :=
            Heap.contents_alloc_next ..
          have held' : Held middle.2 (state.2.next :: others) :=
            .cons owned held (List.Subset.refl _) same now (by simp [maxSize])
          rw [allocates]
          change Meets (tail.foldlM (initSlot src) middle) _ _
          refine (ih distinct held').mono (fun after made => ?_) ?_
          · have isBlock : after.1.address head.record = some state.2.next := by
              rw [made.frame head.record fresh]
              exact Function.update_self ..
            have isVector : vectorAt after.2 after.1 head.record = [value] :=
              vectorAt_eq isBlock ((made.same _ List.mem_cons_self).trans now)
            have isInit : Agg.initVector src head = .ok [value] := by
              rw [Agg.initVector, alloc]
            refine ⟨?_, same.trans (made.same.subset (List.subset_cons_self ..)), made.released,
              made.record, List.forall_mem_cons.mpr ⟨⟨_, isBlock⟩, made.filled⟩,
              fun field other => ?_, ?_⟩
            · rw [blocksOf_cons isBlock]
              exact made.held.perm List.perm_middle
            · rw [List.map_cons, List.mem_cons, not_or] at other
              rw [made.frame field other.2]
              exact Function.update_of_ne other.1 ..
            · rw [List.mapM_cons, isInit, made.vectors, List.map_cons, isVector]
              rfl
          · rintro fault ⟨isNull, field, member, lacks⟩
            exact ⟨isNull, field, List.mem_cons_of_mem _ member, lacks⟩

/-! ### Vectors that are released -/

/-- What the second loop of `prepare_to_send` does for some counters. -/
structure Finalised (items : List PtrField) (before : HeapRecord × Vectors) (others : List Nat)
    (after : HeapRecord × Vectors) : Prop where
  held : Held after.2 others
  same : before.2.Same after.2 others
  released : after.2.released = before.2.released ++ blocksOf items before.1
  record : (items.zip (items.map fun field => vectorAt before.2 before.1 field.record)).foldlM
    Agg.makeField before.1.record = .ok after.1.record

/-- A counter without one of its pointers. -/
theorem makeSlot_null {field : PtrField} (lacks : field.make = none ∨ field.dealloc = none)
    (state : HeapRecord × Vectors) : makeSlot state field = .error (.fault .nullFunction) := by
  rcases lacks with make | dealloc
  · rw [makeSlot, make]
  · rw [makeSlot, dealloc]
    cases field.make <;> rfl

/-- A counter with its pointers reads its vector and releases it. -/
theorem makeSlot_ok {field : PtrField} (complete : ¬ (field.make = none ∨ field.dealloc = none))
    {state : HeapRecord × Vectors} {block : Nat}
    (isBlock : state.1.address field.record = some block) {vector : List Nat}
    (reads : state.2.read block = .ok vector) {heap : Vectors}
    (releases : state.2.release block = .ok heap) :
    makeSlot state field =
      .ok (state.1.set field.record (BitVec.ofNat _ vector.length), heap) ∧
    Agg.makeField state.1.record (field, vector) =
      .ok (state.1.set field.record (BitVec.ofNat _ vector.length)).record := by
  rw [not_or] at complete
  obtain ⟨func, make⟩ := Option.ne_none_iff_exists'.mp complete.1
  obtain ⟨free, dealloc⟩ := Option.ne_none_iff_exists'.mp complete.2
  constructor
  · rw [makeSlot, make, dealloc]
    change (state.1.vecPtr field.record >>= _) = _
    rw [HeapRecord.vecPtr, isBlock]
    change ((state.2.read block).mapError MemoryFault.heap >>= _) = _
    rw [reads]
    change ((state.2.release block).mapError MemoryFault.heap >>= _) = _
    rw [releases]
    rfl
  · rw [Agg.makeField, make, dealloc]
    rfl

theorem makeSlots_meets {items : List PtrField} (distinct : (items.map PtrField.record).Nodup)
    {state : HeapRecord × Vectors} (filled : Filled items state.1) {others : List Nat}
    (held : Held state.2 (blocksOf items state.1 ++ others)) :
    Meets (items.foldlM makeSlot state) (Finalised items state others)
      fun fault => fault = .fault .nullFunction ∧
        ∃ field ∈ items, field.make = none ∨ field.dealloc = none := by
  induction items generalizing state others with
  | nil => exact .ok ⟨held, .refl _ _, (List.append_nil _).symm, rfl⟩
  | cons head tail ih =>
      obtain ⟨fresh, distinct⟩ := List.nodup_cons.mp distinct
      obtain ⟨block, isBlock⟩ := filled head List.mem_cons_self
      rw [List.foldlM_cons]
      by_cases lacks : head.make = none ∨ head.dealloc = none
      · rw [makeSlot_null lacks]
        exact .error ⟨rfl, head, List.mem_cons_self, lacks⟩
      rw [blocksOf_cons isBlock] at held
      obtain ⟨vector, reads, holds⟩ := held.owned.read
      obtain ⟨heap', releases, owned, same, released⟩ := held.owned.release
      obtain ⟨completes, isMade⟩ := makeSlot_ok lacks isBlock reads releases
      let middle : HeapRecord × Vectors :=
        (state.1.set head.record (BitVec.ofNat _ vector.length), heap')
      have kept : ∀ field ∈ tail,
          middle.1.address field.record = state.1.address field.record := by
        intro field member
        refine Function.update_of_ne (fun same => fresh ?_) ..
        exact same ▸ List.mem_map_of_mem member
      have blocks : blocksOf tail middle.1 = blocksOf tail state.1 :=
        List.filterMap_congr kept
      have filled' : Filled tail middle.1 := fun field member =>
        kept field member ▸ filled field (List.mem_cons_of_mem _ member)
      have held' : Held middle.2 (blocksOf tail middle.1 ++ others) :=
        blocks ▸ held.of_same owned (List.subset_cons_self ..) same
      have vectors : ∀ field ∈ tail, vectorAt middle.2 middle.1 field.record =
          vectorAt state.2 state.1 field.record := by
        intro field member
        rw [← vectorAt_congr (same.subset (List.subset_append_left ..)) member, vectorAt,
          vectorAt, kept field member]
      rw [completes]
      change Meets (tail.foldlM makeSlot middle) _ _
      refine (ih distinct filled' held').mono (fun after made => ?_) ?_
      · refine ⟨made.held, (same.subset (List.subset_append_right ..)).trans made.same, ?_, ?_⟩
        · rw [made.released, blocks, blocksOf_cons isBlock]
          change heap'.released ++ _ = _
          rw [released, List.append_assoc]
          rfl
        · rw [List.map_cons, vectorAt_eq isBlock holds, List.zip_cons_cons, List.foldlM_cons,
            isMade, ← List.map_congr_left vectors]
          exact made.record
      · rintro fault ⟨isNull, field, member, lacks⟩
        exact ⟨isNull, field, List.mem_cons_of_mem _ member, lacks⟩

end Policer.Aggregator
