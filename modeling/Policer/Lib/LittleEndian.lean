import Mathlib.Data.Nat.ModEq
import Mathlib.Tactic.Ring

/-!
# Numbers in memory

A memory is a byte for each offset, and a number is stored with its least significant byte first.
`load_byteAt` says what a load of any width at any offset finds of a stored value.
-/

namespace Policer.Lib.LittleEndian

/-- A byte for each offset. -/
abbrev Memory := Nat → BitVec 8

/-- The byte of a value at an offset. -/
def byteAt {w : Nat} (value : BitVec w) : Memory := fun i => value.extractLsb' (8 * i) 8

/-- The memory from an offset on. -/
def Memory.from (memory : Memory) (offset : Nat) : Memory := fun i => memory (offset + i)

/-- The number in the first bytes of a memory. -/
def load : Nat → Memory → Nat
  | 0, _ => 0
  | n + 1, memory => (memory 0).toNat + 256 * load n (memory.from 1)

/-- A load depends on the bytes it reads. -/
theorem load_congr {n : Nat} {first second : Memory} (same : ∀ i < n, first i = second i) :
    load n first = load n second := by
  induction n generalizing first second with
  | zero => rfl
  | succ n ih =>
      have later : load n (first.from 1) = load n (second.from 1) :=
        ih fun i bound => same (1 + i) (by omega)
      rw [load, load, same 0 (Nat.succ_pos n), later]

@[simp] theorem from_from (memory : Memory) (first second : Nat) :
    (memory.from first).from second = memory.from (first + second) := by
  funext i
  simp [Memory.from, Nat.add_assoc]

@[simp] theorem from_zero (memory : Memory) : memory.from 0 = memory := by
  funext i
  simp [Memory.from]

theorem toNat_byteAt {w : Nat} (value : BitVec w) (i : Nat) :
    (byteAt value i).toNat = value.toNat / 2 ^ (8 * i) % 256 := by
  simp [byteAt, Nat.shiftRight_eq_div_pow]

/-- What a load finds of a stored value. -/
theorem load_byteAt {w : Nat} (value : BitVec w) (n offset : Nat) :
    load n ((byteAt value).from offset) = value.toNat / 2 ^ (8 * offset) % 2 ^ (8 * n) := by
  induction n generalizing offset with
  | zero => simp [load, Nat.mod_one]
  | succ n ih =>
      have shift : value.toNat / 2 ^ (8 * (offset + 1)) =
          value.toNat / 2 ^ (8 * offset) / 256 := by
        rw [Nat.div_div_eq_div_mul]
        congr 1
        ring
      have width : 2 ^ (8 * (n + 1)) = 256 * 2 ^ (8 * n) := by ring
      rw [load, from_from, ih, Memory.from, Nat.add_zero, toNat_byteAt, shift, width, Nat.mod_mul]

/-- A load of the width of a value finds the value. -/
theorem load_value {w n : Nat} (value : BitVec w) (width : w = 8 * n) :
    load n (byteAt value) = value.toNat := by
  subst width
  have found := load_byteAt value n 0
  rw [from_zero] at found
  rw [found, Nat.mul_zero, pow_zero, Nat.div_one, Nat.mod_eq_of_lt value.isLt]

/-- A load inside a value finds the part of the value. -/
theorem load_part {w : Nat} (value : BitVec w) (n offset : Nat) :
    load n ((byteAt value).from offset) = (value.extractLsb' (8 * offset) (8 * n)).toNat := by
  rw [load_byteAt, BitVec.extractLsb'_toNat, Nat.shiftRight_eq_div_pow]

/-- A value in its bytes, with something else behind it. -/
def Memory.holding {w : Nat} (value : BitVec w) (behind : Memory) : Memory := fun i =>
  if 8 * i < w then byteAt value i else behind i

/-- A load that stays inside the value does not read what is behind it. -/
theorem load_holding {w n offset : Nat} {value : BitVec w} {behind : Memory}
    (inside : 8 * (offset + n) ≤ w) :
    load n ((Memory.holding value behind).from offset) = load n ((byteAt value).from offset) := by
  refine load_congr fun i bound => ?_
  have here : 8 * (offset + i) < w := by omega
  simp [Memory.from, Memory.holding, here]

end Policer.Lib.LittleEndian
