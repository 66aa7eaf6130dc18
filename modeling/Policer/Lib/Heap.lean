import Mathlib.Data.List.Nodup
import Mathlib.Data.List.Perm.Basic
import Mathlib.Data.List.Range

/-!
# A heap whose blocks have owners

Blocks are numbered in the order of allocation and a number is never used again, so what
is left of a released block is recognised: to read it or to release it once more is an
error. `Owned` is the accounting of a program that keeps the numbers of its live blocks:
every block has one owner or has been released once. The rules say what allocation,
writing and release make of it, and which contents they keep.
-/

namespace Policer.Lib

/-- Use of a block that is not live. -/
inductive HeapError where
  | dangling
  | doubleRelease
deriving DecidableEq, Repr

/-- The contents of the live blocks, and the released ones in the order of release. -/
structure Heap (α : Type) where
  blocks : List (Option α)
  released : List Nat

namespace Heap

variable {α : Type}

/-- No blocks. -/
def empty : Heap α := ⟨[], []⟩

/-- The contents of a live block. -/
def contents (heap : Heap α) (block : Nat) : Option α := (heap.blocks[block]?).join

/-- The number of the next block. -/
def next (heap : Heap α) : Nat := heap.blocks.length

/-- A new block. -/
def alloc (heap : Heap α) (value : α) : Heap α :=
  { heap with blocks := heap.blocks ++ [some value] }

/-- Read a block. -/
def read (heap : Heap α) (block : Nat) : Except HeapError α :=
  match heap.contents block with
  | some value => .ok value
  | none => .error .dangling

/-- Write a block. -/
def write (heap : Heap α) (block : Nat) (value : α) : Except HeapError (Heap α) :=
  match heap.contents block with
  | some _ => .ok { heap with blocks := heap.blocks.set block (some value) }
  | none => .error .dangling

/-- Release a block. -/
def release (heap : Heap α) (block : Nat) : Except HeapError (Heap α) :=
  match heap.contents block with
  | some _ =>
      .ok { blocks := heap.blocks.set block none, released := heap.released ++ [block] }
  | none => .error .doubleRelease

/-! ### Contents -/

theorem lt_of_contents {heap : Heap α} {block : Nat} {value : α}
    (holds : heap.contents block = some value) : block < heap.next := by
  have found := Option.join_eq_some_iff.mp holds
  exact (List.getElem?_eq_some_iff.mp found).1

theorem contents_alloc_next (heap : Heap α) (value : α) :
    (heap.alloc value).contents heap.next = some value := by
  simp [contents, alloc, next]

theorem contents_alloc {heap : Heap α} {block : Nat} (old : block < heap.next) (value : α) :
    (heap.alloc value).contents block = heap.contents block := by
  rw [contents, alloc, List.getElem?_append_left old, contents]

theorem contents_set {heap : Heap α} {block : Nat} (inside : block < heap.next)
    (value : Option α) (released : List Nat) :
    (Heap.mk (heap.blocks.set block value) released).contents block = value := by
  rw [contents, List.getElem?_set_self inside]
  rfl

theorem contents_set_other {heap : Heap α} {block other : Nat} (different : other ≠ block)
    (value : Option α) (released : List Nat) :
    (Heap.mk (heap.blocks.set block value) released).contents other = heap.contents other := by
  rw [contents, List.getElem?_set_ne different.symm, contents]

/-- Both heaps have the same contents in some blocks. -/
def Same (heap heap' : Heap α) (blocks : List Nat) : Prop :=
  ∀ block ∈ blocks, heap'.contents block = heap.contents block

theorem Same.refl (heap : Heap α) (blocks : List Nat) : Same heap heap blocks := fun _ _ => rfl

theorem Same.trans {first second third : Heap α} {blocks : List Nat}
    (before : Same first second blocks) (after : Same second third blocks) :
    Same first third blocks :=
  fun block member => (after block member).trans (before block member)

theorem Same.subset {heap heap' : Heap α} {blocks others : List Nat}
    (same : Same heap heap' blocks) (fewer : others ⊆ blocks) : Same heap heap' others :=
  fun block member => same block (fewer member)

/-! ### Owners -/

/-- The live blocks are those of the owners, and every block has one owner or has been released
once. -/
structure Owned (heap : Heap α) (owners : List Nat) : Prop where
  once : (owners ++ heap.released).Perm (List.range heap.next)
  live : ∀ block ∈ owners, ∃ value, heap.contents block = some value

namespace Owned

variable {heap heap' : Heap α} {owners others : List Nat} {block : Nat}

theorem empty : Owned (Heap.empty : Heap α) [] :=
  ⟨List.Perm.refl _, fun _ member => by cases member⟩

theorem perm (owned : Owned heap owners) (reordered : owners.Perm others) : Owned heap others :=
  ⟨(reordered.symm.append_right _).trans owned.once,
    fun block member => owned.live block (reordered.mem_iff.mpr member)⟩

/-- No block has two owners, and none that has been released has one. -/
theorem nodup (owned : Owned heap owners) : (owners ++ heap.released).Nodup :=
  owned.once.nodup_iff.mpr List.nodup_range

theorem lt_next (owned : Owned heap owners) (member : block ∈ owners) : block < heap.next := by
  obtain ⟨value, holds⟩ := owned.live block member
  exact lt_of_contents holds

theorem ne_of_mem (owned : Owned heap (block :: owners)) {other : Nat} (member : other ∈ owners) :
    other ≠ block := by
  rintro rfl
  exact (List.nodup_cons.mp (List.nodup_append.mp owned.nodup).1).1 member

/-- A new block gets an owner. -/
theorem alloc (owned : Owned heap owners) (value : α) :
    Owned (heap.alloc value) (heap.next :: owners) ∧ Same heap (heap.alloc value) owners := by
  have old : Same heap (heap.alloc value) owners := fun block member =>
    contents_alloc (owned.lt_next member) value
  refine ⟨⟨?_, fun block member => ?_⟩, old⟩
  · have range : List.range (heap.alloc value).next = List.range heap.next ++ [heap.next] := by
      rw [next, Heap.alloc, List.length_append, List.length_singleton, List.range_succ]
      rfl
    rw [range, List.cons_append]
    exact (owned.once.cons heap.next).trans (List.perm_append_singleton ..).symm
  · rcases List.mem_cons.mp member with rfl | isOld
    · exact ⟨value, contents_alloc_next heap value⟩
    · rw [old block isOld]
      exact owned.live block isOld

/-- A block with an owner can be read. -/
theorem read (owned : Owned heap (block :: owners)) :
    ∃ value, heap.read block = .ok value ∧ heap.contents block = some value := by
  obtain ⟨value, holds⟩ := owned.live block List.mem_cons_self
  exact ⟨value, by rw [Heap.read, holds], holds⟩

/-- A block with an owner can be written, and the others keep their contents. -/
theorem write (owned : Owned heap (block :: owners)) (value : α) :
    ∃ heap', heap.write block value = .ok heap' ∧ Owned heap' (block :: owners) ∧
      heap'.contents block = some value ∧ Same heap heap' owners ∧
      heap'.released = heap.released := by
  obtain ⟨old, holds⟩ := owned.live block List.mem_cons_self
  have inside := owned.lt_next List.mem_cons_self
  let heap' : Heap α := { heap with blocks := heap.blocks.set block (some value) }
  have here : heap'.contents block = some value := contents_set inside _ _
  have others : Same heap heap' owners := fun other member =>
    contents_set_other (owned.ne_of_mem member) _ _
  have next : heap'.next = heap.next := List.length_set
  refine ⟨heap', by rw [Heap.write, holds], ⟨by rw [next]; exact owned.once, ?_⟩, here, others, rfl⟩
  intro other member
  rcases List.mem_cons.mp member with rfl | isOther
  · exact ⟨value, here⟩
  · rw [others other isOther]
    exact owned.live other member

/-- An owner can release its block, and the others keep their contents. -/
theorem release (owned : Owned heap (block :: owners)) :
    ∃ heap', heap.release block = .ok heap' ∧ Owned heap' owners ∧ Same heap heap' owners ∧
      heap'.released = heap.released ++ [block] := by
  obtain ⟨old, holds⟩ := owned.live block List.mem_cons_self
  let heap' : Heap α :=
    { blocks := heap.blocks.set block none, released := heap.released ++ [block] }
  have others : Same heap heap' owners := fun other member =>
    contents_set_other (owned.ne_of_mem member) _ _
  have next : heap'.next = heap.next := List.length_set
  refine ⟨heap', by rw [Heap.release, holds], ⟨?_, fun other member => ?_⟩, others, rfl⟩
  · rw [next, ← List.append_assoc]
    exact List.perm_append_comm.trans owned.once
  · rw [others other member]
    exact owned.live other (List.mem_cons_of_mem _ member)

end Owned

end Heap

end Policer.Lib
