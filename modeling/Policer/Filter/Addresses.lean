import Policer.Filter.Core

/-!
# Comparisons with networks

`data_func` hands an IPv4 address over as the words 0, 0, 0, address, and an IPv6 address as it is.
The evaluator takes the first three words for what tells the versions apart, which is wrong for the
IPv6 addresses that start with 96 zero bits.
-/

namespace Policer.Filter

open Policer.Parsing Policer.Aggregator Policer.Lib.LittleEndian

/-! ### The words the evaluator reads -/

/-- A word that is read is a word of the value handed over. -/
theorem rcIp_holding (addr : BitVec 128) (behind : Memory) (x : Fin 4) :
    rcIp (.holding addr behind) x = ui32 addr x := by
  have inside : 8 * (4 * (x : Nat) + 4) ≤ 128 := by omega
  rw [rcIp, load_holding inside, load_part, BitVec.ofNat_toNat, ui32]
  simp [← Nat.mul_assoc]

theorem toNat_ui32 {w : Nat} (addr : BitVec w) (x : Nat) :
    (ui32 addr x).toNat = addr.toNat / 2 ^ (32 * x) % 2 ^ 32 := by
  rw [ui32, BitVec.extractLsb'_toNat, Nat.shiftRight_eq_div_pow]

/-- What `data_func` makes of an IPv4 address: the lower word of the second half, moved up. -/
theorem toNat_filterUi64 {addr : BitVec 128} (isV4 : ipIs4 addr = true) :
    (filterUi64 addr).toNat = (ui32 addr 2).toNat * 2 ^ 96 := by
  have low : ui64 addr 0 = 0 := by
    simp only [ipIs4, Bool.and_eq_true, decide_eq_true_eq] at isV4
    exact isV4.1
  have half : (ui64 addr 1).toNat = addr.toNat / 2 ^ 64 % 2 ^ 64 := by
    rw [ui64, BitVec.extractLsb'_toNat, Nat.shiftRight_eq_div_pow]
  rw [filterUi64, low, BitVec.toNat_append, BitVec.toNat_shiftLeft, half, toNat_ui32]
  simp only [BitVec.ofNat_eq_ofNat, BitVec.toNat_ofNat, Nat.zero_mod, Nat.or_zero,
    Nat.shiftLeft_eq]
  omega

/-- The words of an IPv4 address as `data_func` hands it over. -/
theorem ui32_filterUi64 {addr : BitVec 128} (isV4 : ipIs4 addr = true) (x : Fin 4) :
    ui32 (filterUi64 addr) x = if x = 3 then ui32 addr 2 else 0 := by
  apply BitVec.eq_of_toNat_eq
  have word := (ui32 addr 2).isLt
  rw [toNat_ui32, toNat_filterUi64 isV4]
  match x with
  | 0 | 1 | 2 =>
      simp
      omega
  | 3 =>
      change (ui32 addr 2).toNat * 2 ^ 96 / 2 ^ 96 % 2 ^ 32 = (ui32 addr 2).toNat
      omega

/-! ### Verdicts -/

/-- The words of an address as UniRec stores them. -/
def storedWords (addr : BitVec 128) : FfIp := fun x => ui32 addr x

/-- The address is in the network: of its version, and under its mask the same. -/
def InNetwork (net : FfNet) (addr : BitVec 128) : Prop :=
  match net.ver with
  | .v4 => ipIs4 addr = true ∧ ui32 addr 2 &&& net.mask 3 = net.ip 3
  | .v6 => ipIs4 addr = false ∧ ∀ x, storedWords addr x &&& net.mask x = net.ip x

/-- The words the evaluator finds for an address. -/
def readWords (addr : BitVec 128) : FfIp :=
  if ipIs4 addr then fun x => if x = 3 then ui32 addr 2 else 0 else storedWords addr

/-- `SRC_IP` of a record. -/
def sourceAddress (record : Record) : BitVec 128 := record (.unirec .srcIP)

theorem rcIp_dataFunc (record : Record) (behind : Memory) :
    rcIp (dataFunc record behind (some (.unirec .srcIP))) = readWords (sourceAddress record) := by
  have isAddress : (Field.unirec .srcIP).type = .ip := rfl
  funext x
  cases isV4 : ipIs4 (sourceAddress record) with
  | true =>
      have handed : dataFunc record behind (some (.unirec .srcIP)) =
          .holding (filterUi64 (sourceAddress record)) behind := if_pos ⟨isAddress, isV4⟩
      rw [handed, rcIp_holding, ui32_filterUi64 isV4, readWords, if_pos isV4]
  | false =>
      have handed : dataFunc record behind (some (.unirec .srcIP)) =
          .holding (sourceAddress record) behind := by
        refine if_neg fun both => ?_
        rw [show ipIs4 (record (.unirec .srcIP)) = false from isV4] at both
        cases both.2
      rw [handed, rcIp_holding, readWords, isV4]
      rfl

/-- The first three words are zero. -/
def Zeros (words : FfIp) : Prop := words 0 = 0 ∧ words 1 = 0 ∧ words 2 = 0

/-- The words under the mask are those of the network. -/
def Masked (net : FfNet) (words : FfIp) : Prop := ∀ x, words x &&& net.mask x = net.ip x

/-- A network with a mask is compared under it. -/
theorem ff3Validate_addr {net : FfNet} (nonzero : ∃ x, net.mask x ≠ 0) :
    ff3Validate .eq (.addr net) = some (.eqAdp net) := by
  have noShort : ¬ (net.ver = .v4 ∧ net.mask 3 = 0) := by
    rintro ⟨short, last⟩
    obtain ⟨x, some⟩ := nonzero
    by_cases isLast : x = 3
    · exact some (isLast ▸ last)
    · exact some (net.lastWord short x isLast)
  have noLong : ¬ (net.ver = .v6 ∧ net.mask 0 = 0 ∧ net.mask 1 = 0 ∧ net.mask 2 = 0 ∧
      net.mask 3 = 0) := by
    rintro ⟨_, first, second, third, last⟩
    obtain ⟨x, some⟩ := nonzero
    match x with
    | 0 => exact some first
    | 1 => exact some second
    | 2 => exact some third
    | 3 => exact some last
  rw [ff3Validate, if_pos rfl, if_neg noShort, if_neg noLong]

/-- The comparison under a mask takes the versions apart by the first three words. -/
theorem eqAdp_pos_iff {buf : Memory} {net : FfNet} :
    0 < ff3OperEvalV2 buf evalBufMax (.eqAdp net) ↔
      Masked net (rcIp buf) ∧ (net.ver = .v4 ↔ Zeros (rcIp buf)) := by
  have large : evalBufMax ≠ 4 := by decide
  rw [ff3OperEvalV2, if_neg large]
  by_cases zeros : Zeros (rcIp buf)
  · have noOther : ¬ (rcIp buf 0 ≠ 0 ∨ rcIp buf 1 ≠ 0 ∨ rcIp buf 2 ≠ 0) := by
      rintro (first | second | third)
      · exact first zeros.1
      · exact second zeros.2.1
      · exact third zeros.2.2
    cases ver : net.ver with
    | v4 =>
        rw [if_neg fun both => absurd both.1 (by decide), if_neg fun all => noOther all.2.2,
          truth_pos]
        exact (and_iff_left ⟨fun _ => zeros, fun _ => rfl⟩).symm
    | v6 =>
        rw [if_pos ⟨rfl, zeros⟩]
        refine iff_of_false (Int.lt_irrefl 0) fun both => ?_
        cases both.2.mpr zeros
  · have some : rcIp buf 0 ≠ 0 ∨ rcIp buf 1 ≠ 0 ∨ rcIp buf 2 ≠ 0 := by
      by_contra none
      simp only [not_or, not_not] at none
      exact zeros none
    rw [if_neg fun both => zeros both.2]
    cases ver : net.ver with
    | v4 =>
        refine iff_of_false ?_ fun both => zeros (both.2.mp rfl)
        split
        · exact Int.lt_irrefl 0
        · rename_i unmasked
          rw [truth_pos]
          exact fun masked => unmasked ⟨masked, rfl, some⟩
    | v6 =>
        rw [if_neg fun all => absurd all.2.1 (by decide), truth_pos]
        refine (and_iff_left ⟨fun short => ?_, fun zero => absurd zero zeros⟩).symm
        cases short

/-- A network of short addresses says nothing about the first three words. -/
theorem masked_v4_iff {net : FfNet} (short : net.ver = .v4) {words : FfIp} :
    Masked net words ↔ words 3 &&& net.mask 3 = net.ip 3 := by
  refine ⟨fun masked => masked 3, fun last x => ?_⟩
  by_cases isLast : x = 3
  · exact isLast ▸ last
  · have noMask := net.lastWord short x isLast
    have noIp : net.ip x = 0 := by
      have masked := net.masked x
      rw [noMask] at masked
      simpa using masked.symm
    rw [noMask, noIp]
    exact BitVec.and_zero

/-- `Filter::eval` tells for `SRC_IP = net` whether the address is in the network. -/
def NetworkSettled (net : FfNet) (opcode : FfAttr) (record : Record) (behind : Memory) : Prop :=
  Forwards (.leaf (some (.unirec .srcIP)) opcode) record behind ↔
    InNetwork net (sourceAddress record)

/-- The verdict is wrong exactly for an IPv6 address that starts with 96 zero bits and is that of
the network under its mask. -/
theorem networkSettled_iff {net : FfNet} (nonzero : ∃ x, net.mask x ≠ 0) {opcode : FfAttr}
    (valid : ff3Validate .eq (.addr net) = some opcode) (record : Record) (behind : Memory) :
    NetworkSettled net opcode record behind ↔
      ¬ (ipIs4 (sourceAddress record) = false ∧
        Zeros (storedWords (sourceAddress record)) ∧
        Masked net (storedWords (sourceAddress record))) := by
  rw [ff3Validate_addr nonzero] at valid
  obtain rfl := Option.some.inj valid
  have forwards : Forwards (.leaf (some (.unirec .srcIP)) (.eqAdp net)) record behind ↔
      Masked net (readWords (sourceAddress record)) ∧
        (net.ver = .v4 ↔ Zeros (readWords (sourceAddress record))) := by
    rw [← rcIp_dataFunc record behind]
    exact eqAdp_pos_iff
  rw [NetworkSettled, forwards, InNetwork]
  cases isV4 : ipIs4 (sourceAddress record) with
  | true =>
      have zeros : Zeros (readWords (sourceAddress record)) := by
        rw [readWords, if_pos isV4]
        exact ⟨rfl, rfl, rfl⟩
      cases ver : net.ver with
      | v4 =>
          have last : readWords (sourceAddress record) 3 = ui32 (sourceAddress record) 2 := by
            rw [readWords, if_pos isV4]
            rfl
          rw [masked_v4_iff ver, last]
          simp [zeros]
      | v6 => simp [zeros]
  | false =>
      have words : readWords (sourceAddress record) = storedWords (sourceAddress record) := by
        rw [readWords, isV4]
        rfl
      rw [words]
      cases ver : net.ver with
      | v4 =>
          by_cases zeros : Zeros (storedWords (sourceAddress record)) <;> simp [zeros]
      | v6 =>
          by_cases zeros : Zeros (storedWords (sourceAddress record)) <;> simp [zeros, Masked]

/-- `::1`, or `0.0.0.1` where only the last word counts. -/
def lastOne : FfIp := fun x => if x = 3 then 0x01000000 else 0

/-- `SRC_IP = ::1`, with no mask given. -/
def loopback : FfNet := strToAddr .v6 lastOne fun _ => 0xffffffff

/-- The address `::1` as UniRec stores it. -/
def loopbackAddress : Value (.unirec .srcIP) := BitVec.ofNat 128 (2 ^ 120)

/-- A record with this source address. -/
def fromLoopback : Record := recordWith (.unirec .srcIP) loopbackAddress

/-- `::1` is in its network and not matched. -/
theorem loopback_not_settled :
    (∃ x, loopback.mask x ≠ 0) ∧ ff3Validate .eq (.addr loopback) = some (.eqAdp loopback) ∧
      InNetwork loopback (sourceAddress fromLoopback) ∧
      ¬ NetworkSettled loopback (.eqAdp loopback) fromLoopback (fun _ => 0) := by
  have nonzero : ∃ x, loopback.mask x ≠ 0 := ⟨0, by decide⟩
  have address : sourceAddress fromLoopback = loopbackAddress :=
    recordWith_same (.unirec .srcIP) loopbackAddress
  have inside : InNetwork loopback (sourceAddress fromLoopback) := by
    rw [address]
    refine ⟨by decide +kernel, ?_⟩
    decide +kernel
  refine ⟨nonzero, ff3Validate_addr nonzero, inside, fun settled => ?_⟩
  have matched := eqAdp_pos_iff.mp (settled.mpr inside)
  rw [rcIp_dataFunc, address] at matched
  have zeros : Zeros (readWords loopbackAddress) := by
    refine ⟨?_, ?_, ?_⟩ <;> decide +kernel
  cases matched.2.mpr zeros

/-- A record from `10.0.0.1`. -/
def fromTen : Record :=
  recordWith (.unirec .srcIP) (BitVec.ofNat 128 (0xffffffff * 2 ^ 96 + 0x0100000a * 2 ^ 64))

/-- `SRC_IP = 10.0.0.0/8`. -/
def tenNet : FfNet :=
  strToAddr .v4 (fun x => if x = 3 then 0x0000000a else 0) fun x => if x = 0 then 0xff else 0

theorem networkSettled_iff_tenNet :
    NetworkSettled tenNet (.eqAdp tenNet) fromTen (fun _ => 0) ↔
      ¬ (ipIs4 (sourceAddress fromTen) = false ∧ Zeros (storedWords (sourceAddress fromTen)) ∧
        Masked tenNet (storedWords (sourceAddress fromTen))) :=
  networkSettled_iff ⟨3, by decide⟩ (ff3Validate_addr ⟨3, by decide⟩) fromTen fun _ => 0

end Policer.Filter
