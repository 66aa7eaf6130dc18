import Mathlib.Data.BitVec
import Mathlib.Algebra.Group.Nat.Defs

/-!
# Prefixes of addresses

An address is an array of words. Its bytes lie in the order of the network, while a machine reads a
word with the lowest byte first. Under a mask of leading bits two addresses are the same just when
their leading bits are.
-/

namespace Policer.Lib.Prefixes

/-! ### Bits of a word -/

/-- A bit of a word, counted from the first bit of its first byte. -/
def wordBit (word : BitVec 32) (i : Nat) : Bool := word.getLsbD (8 * (i / 8) + (7 - i % 8))

/-- `htonl` on a machine that stores the lowest byte first. -/
def htonl (word : BitVec 32) : BitVec 32 :=
  word.extractLsb' 0 8 ++ word.extractLsb' 8 8 ++ word.extractLsb' 16 8 ++ word.extractLsb' 24 8

@[simp] theorem wordBit_and (a b : BitVec 32) (i : Nat) :
    wordBit (a &&& b) i = (wordBit a i && wordBit b i) := BitVec.getLsbD_and

@[simp] theorem wordBit_zero (i : Nat) : wordBit 0 i = false := BitVec.getLsbD_zero

theorem wordBit_allOnes {i : Nat} (inside : i < 32) : wordBit 0xffffffff i = true := by
  have place : 8 * (i / 8) + (7 - i % 8) < 32 := by omega
  change (BitVec.allOnes 32).getLsbD _ = true
  rw [BitVec.getLsbD_allOnes]
  exact decide_eq_true place

/-- A word has no bits but these. -/
theorem eq_of_wordBit {a b : BitVec 32} (same : ∀ i < 32, wordBit a i = wordBit b i) : a = b := by
  refine BitVec.eq_of_getLsbD_eq fun j inside => ?_
  obtain ⟨i, isPlace⟩ : ∃ i, i = 8 * (j / 8) + (7 - j % 8) := ⟨_, rfl⟩
  have back : 8 * (i / 8) + (7 - i % 8) = j := by omega
  have found := same i (by omega)
  rwa [wordBit, wordBit, back] at found

section Append

variable {m w : Nat} (later : BitVec m) (part : BitVec w)

/-- A bit of the first part. -/
theorem getLsbD_append_first {b : Nat} (low : b < w) :
    (later ++ part).getLsbD (w * 0 + b) = part.getLsbD b := by
  rw [Nat.mul_zero, Nat.zero_add, BitVec.getLsbD_append, if_pos low]

/-- A bit behind the first part. -/
theorem getLsbD_append_later (k b : Nat) :
    (later ++ part).getLsbD (w * (k + 1) + b) = later.getLsbD (w * k + b) := by
  have place : w * (k + 1) + b - w = w * k + b := by
    rw [Nat.mul_succ]
    omega
  rw [BitVec.getLsbD_append, if_neg (by rw [Nat.mul_succ]; omega), place]

end Append

/-- The bytes are taken in the other order, their bits are not. -/
theorem getLsbD_htonl (word : BitVec 32) {k b : Nat} (byte : k < 4) (low : b < 8) :
    (htonl word).getLsbD (8 * k + b) = word.getLsbD (8 * (3 - k) + b) := by
  rw [htonl]
  match k with
  | 0 =>
      rw [getLsbD_append_first _ _ low]
      simp [low]
  | 1 =>
      rw [getLsbD_append_later _ _ 0, getLsbD_append_first _ _ low]
      simp [low]
  | 2 =>
      rw [getLsbD_append_later _ _ 1, getLsbD_append_later _ _ 0, getLsbD_append_first _ _ low]
      simp [low]
  | 3 =>
      rw [getLsbD_append_later _ _ 2, getLsbD_append_later _ _ 1, getLsbD_append_later _ _ 0]
      simp [low]

/-- The bits of the network are those of the number from the highest one on. -/
theorem wordBit_htonl (word : BitVec 32) {i : Nat} (inside : i < 32) :
    wordBit (htonl word) i = word.getMsbD i := by
  have place : 8 * (3 - i / 8) + (7 - i % 8) = 32 - 1 - i := by omega
  rw [wordBit, getLsbD_htonl word (by omega) (by omega), place, BitVec.getMsbD,
    decide_eq_true inside, Bool.true_and]

/-! ### Masks of leading bits -/

/-- The first bits of a word, as many as there are. -/
def leading (count : Nat) : BitVec 32 := htonl (~~~((0xffffffff : BitVec 32) >>> count))

theorem wordBit_leading {count i : Nat} (inside : i < 32) :
    wordBit (leading count) i = decide (i < count) := by
  have ones : (0xffffffff : BitVec 32) = BitVec.allOnes 32 := rfl
  rw [leading, wordBit_htonl _ inside, BitVec.getMsbD_not, ones, BitVec.getMsbD_ushiftRight,
    BitVec.getMsbD_allOnes]
  by_cases first : i < count
  · simp [first, inside]
  · have rest : i - count < 32 := by omega
    simp [first, rest]

/-- Two words under the mask of their first bits. -/
theorem and_eq_and_iff {a b mask : BitVec 32} {count : Nat}
    (first : ∀ i < 32, wordBit mask i = decide (i < count)) :
    a &&& mask = b &&& mask ↔ ∀ i < 32, i < count → wordBit a i = wordBit b i := by
  constructor
  · intro same i inside below
    have bit := congrArg (wordBit · i) same
    simpa [first i inside, below] using bit
  · intro agree
    refine eq_of_wordBit fun i inside => ?_
    rw [wordBit_and, wordBit_and, first i inside]
    by_cases below : i < count
    · rw [agree i inside below]
    · simp [below]

/-! ### Addresses -/

section Addresses

variable {words : Nat}

/-- A bit of an address; there are none behind its last word. -/
def addressBit (address : Fin words → BitVec 32) (i : Nat) : Bool :=
  if inside : i / 32 < words then wordBit (address ⟨i / 32, inside⟩) (i % 32) else false

/-- The mask of the first bits of an address. -/
def prefixMask (count : Nat) : Fin words → BitVec 32 := fun x =>
  if (x : Nat) < count / 32 then 0xffffffff
  else if (x : Nat) = count / 32 then leading (count % 32)
  else 0

theorem wordBit_prefixMask {count : Nat} (x : Fin words) {i : Nat} (inside : i < 32) :
    wordBit (prefixMask count x) i = decide (i < count - 32 * x) := by
  rw [prefixMask]
  split
  · rename_i whole
    rw [wordBit_allOnes inside]
    exact (decide_eq_true (by omega)).symm
  · split
    · rename_i last
      rw [wordBit_leading inside]
      exact decide_eq_decide.mpr (by omega)
    · rename_i behind
      rw [wordBit_zero]
      exact (decide_eq_false (by omega)).symm

theorem prefixMask_zero (x : Fin words) : prefixMask 0 x = 0 := by
  refine eq_of_wordBit fun i inside => ?_
  rw [wordBit_prefixMask x inside, wordBit_zero]
  exact decide_eq_false (by omega)

theorem prefixMask_ne_zero {count : Nat} (positive : 0 < count) {x : Fin words}
    (first : (x : Nat) = 0) : prefixMask count x ≠ 0 := by
  intro none
  have bit : wordBit (prefixMask count x) 0 = decide (0 < count - 32 * x) :=
    wordBit_prefixMask x (by decide)
  rw [none, wordBit_zero, first] at bit
  exact absurd bit.symm (by simpa using positive.ne')

/-- Two addresses are the same under the mask when their first bits are. -/
theorem masked_iff {a b : Fin words → BitVec 32} {count : Nat} :
    (∀ x, a x &&& prefixMask count x = b x &&& prefixMask count x) ↔
      ∀ i < count, addressBit a i = addressBit b i := by
  constructor
  · intro same i below
    rw [addressBit, addressBit]
    split
    · rename_i inside
      exact (and_eq_and_iff fun _ => wordBit_prefixMask _).mp (same ⟨i / 32, inside⟩) (i % 32)
        (Nat.mod_lt i (by decide)) (by simp only; omega)
    · rfl
  · intro agree x
    refine (and_eq_and_iff fun _ => wordBit_prefixMask x).mpr fun i inside below => ?_
    have found := agree (32 * x + i) (by omega)
    have isWord : (32 * x + i) / 32 = x := by omega
    have isBit : (32 * x + i) % 32 = i := by omega
    have isInside : (32 * (x : Nat) + i) / 32 < words := by
      rw [isWord]
      exact x.isLt
    rw [addressBit, addressBit, dif_pos isInside, dif_pos isInside] at found
    simpa only [isWord, isBit] using found

end Addresses

end Policer.Lib.Prefixes
