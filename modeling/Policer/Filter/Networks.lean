import Policer.Filter.Addresses
import Policer.Filter.Verdicts
import Policer.Lib.Prefixes

/-!
# Literals of networks

How `str_to_addr` reads an address with a mask or with the length of a prefix. What follows the
address is tried as a number first. A number of bits is taken for that of a short address as long as
the text has octets enough for it, and then zeros are appended to the text, also to that of an IPv6
address. An empty mask stands for the comparison of whole addresses when it comes to `ff3_validate`.
-/

namespace Policer.Filter

open Policer.Parsing Policer.Aggregator Policer.Lib.LittleEndian Policer.Lib.CNumber
  Policer.Lib.Prefixes

/-! ### Conversion -/

/-- `inet_pton` for `AF_INET` and `AF_INET6`. -/
structure InetPton where
  inet : Str → Option (BitVec 32)
  inet6 : Str → Option FfIp

/-- Why `str_to_addr` makes no network: it writes behind its block of memory, or it returns 1. -/
inductive AddrFault where
  | overrun
  | refused
deriving DecidableEq

/-- The delimiters in front of a mask. -/
def isDelim (c : Char) : Bool := "\\/ ".toList.contains c

/-- The calls of `strtok_r`: the text `ip_str` is left with, and what stands behind it. -/
def splitMask (str : Str) : Str × Option Str :=
  let token := (str.dropWhile isDelim).takeWhile (!isDelim ·)
  let rest := ((str.dropWhile isDelim).dropWhile (!isDelim ·)).tail
  (str.takeWhile isDelim ++ token, if rest = [] then none else some rest)

/-- `int_to_netmask` on a cleared mask. Behind the mask lie the version and the end of the block. -/
def intToNetmask (numbits : Int) : Except AddrFault FfIp :=
  if 5 < numbits / 32 then .error .overrun
  else if numbits > 128 ∨ numbits < 0 then .error .refused
  else .ok fun x =>
    if ((x : Nat) : Int) < numbits / 32 then 0xffffffff
    else if ((x : Nat) : Int) = numbits / 32 then
      htonl (~~~((0xffffffff : BitVec 32) >>> (numbits % 32).toNat))
    else 0

/-- The octets `unwrap_ip` counts. -/
def octets (ipStr : Str) : Nat := ipStr.tail.count '.' + 1

/-- The octets `unwrap_ip` requires. -/
def minOctets (numbits : Nat) : Nat := numbits / 8 + if numbits % 8 > 0 then 1 else 0

/-- The text with the octets that are missing. -/
def padded (ipStr : Str) : Str :=
  ipStr ++ (List.replicate (4 - octets ipStr) ".0".toList).flatten

/-- `unwrap_ip`. -/
def unwrapIp (ipStr : Str) (numbits : Nat) : Option Str :=
  if octets ipStr < minOctets numbits then none else some (padded ipStr)

namespace InetPton

variable (pton : InetPton)

/-- The end of `str_to_addr`, from the conversion of the address on. -/
def readIp (ipStr : Str) (mask : FfIp) (numbits : Nat) (ipVer : Option IpVersion) :
    Except AddrFault FfNet :=
  let long : Except AddrFault FfNet :=
    match pton.inet6 ipStr with
    | some ip => .ok (strToAddr .v6 ip mask)
    | none => .error .refused
  match pton.inet ipStr with
  | some word =>
      if numbits ≤ 32 ∧ ipVer ≠ some .v6 then
        .ok (strToAddr .v4 (fun x => if x = 3 then word else 0) mask)
      else long
  | none => long

/-- `str_to_addr`. -/
def strToAddr (str : Str) : Except AddrFault FfNet :=
  match splitMask str with
  | (ipStr, none) => pton.readIp ipStr (fun _ => 0xffffffff) 0 none
  | (ipStr, some mask) =>
      if (strtoul mask).2 ≠ [] then
        match pton.inet mask with
        | some word => pton.readIp ipStr (fun x => if x = 0 then word else 0) 0 (some .v4)
        | none =>
            match pton.inet6 mask with
            | some words => pton.readIp ipStr words 0 (some .v6)
            | none => .error .refused
      else
        let numbits := (BitVec.ofNat 32 (strtoul mask).1).toInt
        (intToNetmask numbits).bind fun netmask =>
          match unwrapIp ipStr numbits.toNat with
          | some ip => pton.readIp ip netmask numbits.toNat (some .v4)
          | none => pton.readIp ipStr netmask numbits.toNat (some .v6)

/-- The conversions of literals, with this one for addresses. -/
def conversions (toTimestamp : Str → Option (BitVec 64)) : Conversions where
  toAddr str := (pton.strToAddr str).toOption
  toTimestamp := toTimestamp

end InetPton

/-! ### Prefixes -/

/-- A text without delimiters. -/
def Undelimited (ip : Str) : Prop := ip ≠ [] ∧ ∀ c ∈ ip, isDelim c = false

/-- What an address and the length of a prefix are converted to. -/
def InetPton.readPrefix (pton : InetPton) (ip : Str) (n : Nat) : Except AddrFault FfNet :=
  match unwrapIp ip n with
  | some ip => pton.readIp ip (prefixMask n) n (some .v4)
  | none => pton.readIp ip (prefixMask n) n (some .v6)

theorem undelimited_of_all {ip : Str} (nonempty : ip ≠ [])
    (all : (ip.all fun c => !isDelim c) = true) : Undelimited ip :=
  ⟨nonempty, fun c member => by simpa using List.all_eq_true.mp all c member⟩

section Prefix

variable {pton : InetPton} {ip : Str} {sep : Char}

theorem splitMask_delimited (whole : Undelimited ip) (delim : isDelim sep = true)
    {mask : Str} (nonempty : mask ≠ []) : splitMask (ip ++ sep :: mask) = (ip, some mask) := by
  obtain ⟨c, rest, rfl⟩ := List.exists_cons_of_ne_nil whole.1
  have first : isDelim c ≠ true := by simp [whole.2 c List.mem_cons_self]
  have inside : ∀ d ∈ c :: rest, (!isDelim d) = true := by
    intro d member
    rw [whole.2 d member]
    rfl
  have stops : (!isDelim sep) ≠ true := by simp [delim]
  have noDelims : ((c :: rest) ++ sep :: mask).takeWhile isDelim = [] ∧
      ((c :: rest) ++ sep :: mask).dropWhile isDelim = (c :: rest) ++ sep :: mask :=
    ⟨List.takeWhile_cons_of_neg first, List.dropWhile_cons_of_neg first⟩
  simp only [splitMask, noDelims.1, noDelims.2, List.takeWhile_append_of_pos inside,
    List.dropWhile_append_of_pos inside, List.takeWhile_cons_of_neg (p := (!isDelim ·)) stops,
    List.dropWhile_cons_of_neg (p := (!isDelim ·)) stops, List.tail_cons, if_neg nonempty,
    List.nil_append, List.append_nil]

/-- The lengths of prefixes that have a mask. -/
theorem intToNetmask_natCast {n : Nat} (fits : n ≤ 128) :
    intToNetmask n = .ok (prefixMask n) := by
  have inBlock : ¬ 5 < (n : Int) / 32 := by omega
  have allowed : ¬ ((n : Int) > 128 ∨ (n : Int) < 0) := by omega
  rw [intToNetmask, if_neg inBlock, if_neg allowed]
  congr 1
  funext x
  have below : ((x : Nat) : Int) < (n : Int) / 32 ↔ (x : Nat) < n / 32 := by omega
  have last : ((x : Nat) : Int) = (n : Int) / 32 ↔ (x : Nat) = n / 32 := by omega
  have bits : ((n : Int) % 32).toNat = n % 32 := by omega
  simp only [prefixMask, leading, below, last, bits]

/-- A number behind an address. -/
theorem strToAddr_number (whole : Undelimited ip) (delim : isDelim sep = true)
    (n : Nat) {numbits : Int}
    (isInt : (BitVec.ofNat 32 (min n (2 ^ 64 - 1))).toInt = numbits) :
    pton.strToAddr (ip ++ sep :: Nat.toDigits 10 n) =
      (intToNetmask numbits).bind fun netmask =>
        match unwrapIp ip numbits.toNat with
        | some ip => pton.readIp ip netmask numbits.toNat (some .v4)
        | none => pton.readIp ip netmask numbits.toNat (some .v6) := by
  rw [InetPton.strToAddr, splitMask_delimited whole delim Nat.toDigits_ne_nil]
  simp only [strtoul_toDigits, isInt]
  rfl

theorem strToAddr_prefix (whole : Undelimited ip) (delim : isDelim sep = true) {n : Nat}
    (fits : n ≤ 128) :
    pton.strToAddr (ip ++ sep :: Nat.toDigits 10 n) = pton.readPrefix ip n := by
  have isInt : (BitVec.ofNat 32 (min n (2 ^ 64 - 1))).toInt = n := by
    rw [Nat.min_eq_left (by omega), BitVec.toInt_eq_toNat_cond, BitVec.toNat_ofNat]
    split <;> omega
  rw [strToAddr_number whole delim n isInt, intToNetmask_natCast fits]
  rfl

theorem readIp_ne_overrun (ipStr : Str) (mask : FfIp) (numbits : Nat) (ipVer : Option IpVersion) :
    pton.readIp ipStr mask numbits ipVer ≠ .error .overrun := by
  have long : ∀ net : Except AddrFault FfNet, (net = match pton.inet6 ipStr with
      | some ip => .ok (strToAddr .v6 ip mask)
      | none => .error .refused) → net ≠ .error .overrun := by
    rintro net rfl
    cases pton.inet6 ipStr <;> exact fun impossible => by cases impossible
  unfold InetPton.readIp
  cases pton.inet ipStr with
  | none => exact long _ rfl
  | some word =>
      dsimp only
      split
      · exact fun impossible => by cases impossible
      · exact long _ rfl

/-- Which numbers behind an address make `str_to_addr` write behind its block of memory. -/
theorem overrun_iff (whole : Undelimited ip) (delim : isDelim sep = true) (n : Nat) :
    pton.strToAddr (ip ++ sep :: Nat.toDigits 10 n) = .error .overrun ↔
      n < 2 ^ 64 ∧ 192 ≤ n % 2 ^ 32 ∧ n % 2 ^ 32 < 2 ^ 31 := by
  have beyond : ∀ numbits : Int, (BitVec.ofNat 32 (min n (2 ^ 64 - 1))).toInt = numbits →
      (5 < numbits / 32 ↔ n < 2 ^ 64 ∧ 192 ≤ n % 2 ^ 32 ∧ n % 2 ^ 32 < 2 ^ 31) := by
    rintro numbits rfl
    rw [BitVec.toInt_eq_toNat_cond, BitVec.toNat_ofNat]
    split <;> omega
  generalize isInt : (BitVec.ofNat 32 (min n (2 ^ 64 - 1))).toInt = numbits at beyond
  rw [strToAddr_number whole delim n isInt, ← beyond numbits rfl, intToNetmask]
  split
  · rename_i inside
    exact iff_of_true rfl inside
  · rename_i outside
    refine iff_of_false ?_ outside
    split
    · exact fun impossible => by cases impossible
    · dsimp only [Except.bind]
      split <;> exact readIp_ne_overrun _ _ _ _

/-- `fe80::/200`. -/
theorem overrun_iff_twoHundred :
    InetPton.strToAddr ⟨fun _ => none, fun _ => none⟩
      ("fe80::".toList ++ '/' :: Nat.toDigits 10 200) = .error .overrun :=
  (overrun_iff (undelimited_of_all (by decide) (by decide)) (by decide) 200).mpr (by decide)

end Prefix

/-! ### Conditions -/

/-- The address in a field. -/
def addressOf (record : Record) (id : Field) : BitVec 128 := (record id).setWidth 128

/-- The words the evaluator finds for the address in a field. -/
theorem rcIp_addressOf {id : Field} (isAddress : id.type = .ip) (record : Record)
    (behind : Memory) :
    rcIp (dataFunc record behind (some id)) = readWords (addressOf record id) := by
  have handed : ∀ {w : Nat} (value : BitVec w), w = 128 →
      rcIp (if ipIs4 value then .holding (filterUi64 value) behind else .holding value behind) =
        readWords (value.setWidth 128) := by
    rintro w value rfl
    rw [BitVec.setWidth_eq]
    funext x
    cases isV4 : ipIs4 value with
    | true => simp [readWords, isV4, rcIp_holding, ui32_filterUi64 isV4]
    | false => simp [readWords, isV4, rcIp_holding, storedWords]
  have width : id.type.bits = 128 := by rw [isAddress]; rfl
  rw [addressOf, ← handed (record id) width, dataFunc]
  simp only [isAddress, true_and]

/-- Every address is that of a record. -/
theorem exists_addressOf {id : Field} (isAddress : id.type = .ip) (address : BitVec 128) :
    ∃ record, addressOf record id = address := by
  have width : id.type.bits = 128 := by rw [isAddress]; rfl
  refine ⟨recordWith id (address.setWidth id.type.bits), ?_⟩
  rw [addressOf, recordWith_same, width]
  simp

theorem forall_word {holds : Fin 4 → Prop} (first : holds 0) (second : holds 1)
    (third : holds 2) (last : holds 3) : ∀ x, holds x := by
  rintro ⟨_ | _ | _ | _ | x, bound⟩
  · exact first
  · exact second
  · exact third
  · exact last
  · omega

/-- The address with these words. -/
def ofWords (words : FfIp) : BitVec 128 := words 3 ++ words 2 ++ words 1 ++ words 0

theorem storedWords_ofWords (words : FfIp) : storedWords (ofWords words) = words := by
  funext x
  refine BitVec.eq_of_getLsbD_eq fun i inside => ?_
  rw [storedWords, ui32, BitVec.getLsbD_extractLsb', decide_eq_true inside, Bool.true_and, ofWords]
  revert x
  apply forall_word
  · exact getLsbD_append_first _ _ inside
  · refine (getLsbD_append_later _ _ 0 i).trans ?_
    exact getLsbD_append_first _ _ inside
  · refine (getLsbD_append_later _ _ 1 i).trans ?_
    refine (getLsbD_append_later _ _ 0 i).trans ?_
    exact getLsbD_append_first _ _ inside
  · refine (getLsbD_append_later _ _ 2 i).trans ?_
    refine (getLsbD_append_later _ _ 1 i).trans ?_
    refine (getLsbD_append_later _ _ 0 i).trans ?_
    rw [Nat.mul_zero, Nat.zero_add]

/-- An IPv6 address that starts with the first bits of some words. -/
theorem exists_startsWith (words : FfIp) {n : Nat} (fits : n ≤ 32) :
    ∃ address : BitVec 128, ipIs4 address = false ∧ ¬ Zeros (storedWords address) ∧
      ∀ i < n, addressBit (storedWords address) i = addressBit words i := by
  obtain ⟨other, isOther⟩ : ∃ other : FfIp, other = fun x => if x = 0 then words 0 else 1 :=
    ⟨_, rfl⟩
  have second : storedWords (ofWords other) 1 = 1 := by
    rw [storedWords_ofWords, isOther]
    rfl
  have last : ui32 (ofWords other) 3 = 1 := by
    change storedWords (ofWords other) 3 = 1
    rw [storedWords_ofWords, isOther]
    rfl
  refine ⟨ofWords other, ?_, fun zeros => ?_, fun i below => ?_⟩
  · rw [ipIs4, last]
    exact Bool.and_false _
  · exact absurd (second.symm.trans zeros.2.1) (by decide)
  · rw [storedWords_ofWords, isOther]
    have first : i / 32 = 0 := by omega
    simp [addressBit, first]

/-- The words of an IPv6 address are read as they are stored. -/
theorem rcIp_of_v6 {id : Field} (isAddress : id.type = .ip) {record : Record} (behind : Memory)
    (isV6 : ipIs4 (addressOf record id) = false) :
    rcIp (dataFunc record behind (some id)) = storedWords (addressOf record id) := by
  rw [rcIp_addressOf isAddress, readWords, isV6]
  rfl

theorem exists_record_startsWith {id : Field} (isAddress : id.type = .ip) (words : FfIp) {n : Nat}
    (fits : n ≤ 32) :
    ∃ record, ipIs4 (addressOf record id) = false ∧ ¬ Zeros (storedWords (addressOf record id)) ∧
      ∀ i < n, addressBit (storedWords (addressOf record id)) i = addressBit words i := by
  obtain ⟨address, starts⟩ := exists_startsWith words fits
  obtain ⟨record, isRecord⟩ := exists_addressOf isAddress address
  exact ⟨record, isRecord ▸ starts⟩

section Condition

variable {conv : Conversions} {record : Record} {behind : Behind} {field : FilterField}
  {cmp : FilterCmp} {value : FilterValue} {id : Field}

/-- A comparison with an address. -/
theorem leafHolds_addr (looked : lookupFunc (lookupName field) = some (.addr, some id))
    (equal : (cmpOper cmp).orEq = .eq) (nonempty : valueText value ≠ []) {net : FfNet}
    (converted : conv.toAddr (valueText value) = some net) {attr : FfAttr}
    (valid : ff3Validate .eq (.addr net) = some attr) :
    LeafHolds conv record behind (.compare field cmp value) ↔
      0 < ff3OperEvalV2 (dataFunc record (behind (some id)) (some id)) evalBufMax attr := by
  have made : newLeaf conv (.other 0) (.compare field cmp value) =
      some (.compare attr.opcode (some id) (.addr net)) := by
    simp [newLeaf, looked, nonempty, ff3TypeValidate, ff3TypeCast, converted, equal, valid]
  rw [leafHolds_iff made, evalNode, operEval_of_validate valid]

/-- A text that is no address. -/
theorem not_leafHolds_addr (looked : lookupFunc (lookupName field) = some (.addr, some id))
    (refused : conv.toAddr (valueText value) = none) :
    ¬ LeafHolds conv record behind (.compare field cmp value) := by
  rintro ⟨node, made, _⟩
  obtain ⟨type, id', literal, attr, found, _, isCast, _⟩ := newLeaf_compare made
  cases looked.symm.trans found
  rw [ff3TypeCast, refused] at isCast
  cases isCast

end Condition

/-! ### Verdicts on prefixes -/

section Verdict

variable {words : FfIp} {buf : Memory} {n : Nat}

/-- A short address under the mask of a prefix. -/
theorem prefix4_pos_iff {word : BitVec 32} (positive : 0 < n) (fits : n ≤ 32) {attr : FfAttr}
    (valid : ff3Validate .eq
      (.addr (strToAddr .v4 (fun x => if x = 3 then word else 0) (prefixMask n))) = some attr) :
    0 < ff3OperEvalV2 buf evalBufMax attr ↔
      Zeros (rcIp buf) ∧ ∀ i < n, wordBit (rcIp buf 3) i = wordBit word i := by
  have nonzero : prefixMask n (0 : Fin 4) ≠ 0 := prefixMask_ne_zero positive rfl
  rw [ff3Validate_addr ⟨3, nonzero⟩] at valid
  obtain rfl := Option.some.inj valid
  have bits : (rcIp buf 3 &&& prefixMask n (0 : Fin 4) = word &&& prefixMask n (0 : Fin 4)) ↔
      ∀ i < n, wordBit (rcIp buf 3) i = wordBit word i := by
    rw [and_eq_and_iff fun _ => wordBit_prefixMask 0]
    exact ⟨fun agree i below => agree i (by omega) (by simpa using below),
      fun agree i _ below => agree i (by simpa using below)⟩
  rw [eqAdp_pos_iff, masked_v4_iff rfl, ← bits]
  constructor
  · rintro ⟨masked, version⟩
    exact ⟨version.mp rfl, masked⟩
  · rintro ⟨zeros, masked⟩
    exact ⟨masked, iff_of_true rfl zeros⟩

/-- A long address under the mask of a prefix. -/
theorem prefix6_pos_iff (positive : 0 < n) {attr : FfAttr}
    (valid : ff3Validate .eq (.addr (strToAddr .v6 words (prefixMask n))) = some attr) :
    0 < ff3OperEvalV2 buf evalBufMax attr ↔
      ¬ Zeros (rcIp buf) ∧ ∀ i < n, addressBit (rcIp buf) i = addressBit words i := by
  have nonzero : prefixMask n (0 : Fin 4) ≠ 0 := prefixMask_ne_zero positive rfl
  rw [ff3Validate_addr ⟨0, nonzero⟩] at valid
  obtain rfl := Option.some.inj valid
  rw [eqAdp_pos_iff, ← masked_iff, and_comm]
  refine and_congr ⟨fun version zeros => ?_, fun some => ?_⟩ Iff.rfl
  · cases version.mpr zeros
  · exact iff_of_false (fun impossible => by cases impossible) some

/-- An empty mask stands for the comparison of whole addresses, and the network is `0`. -/
theorem prefix0_pos_iff {ver : IpVersion} {attr : FfAttr}
    (valid : ff3Validate .eq (.addr (strToAddr ver words (prefixMask 0))) = some attr) :
    0 < ff3OperEvalV2 buf evalBufMax attr ↔ ∀ x, rcIp buf x = 0 := by
  have noMask : (prefixMask 0 : FfIp) = fun _ => 0 := funext prefixMask_zero
  have large : evalBufMax ≠ 4 := by decide
  rw [noMask] at valid
  cases ver with
  | v4 =>
      have isAttr : ff3Validate .eq (.addr (strToAddr .v4 words fun _ => 0)) =
          some (.eqAd4 (strToAddr .v4 words fun _ => 0)) := by
        rw [ff3Validate, if_pos rfl]
        exact if_pos ⟨rfl, rfl⟩
      obtain rfl := Option.some.inj (isAttr.symm.trans valid)
      have network : (strToAddr .v4 words fun _ => 0).ip 3 = 0 := BitVec.and_zero
      rw [ff3OperEvalV2, if_neg large, truth_pos]
      constructor
      · rintro ⟨first, second, third, last⟩
        exact forall_word first second third (last.trans network)
      · intro all
        exact ⟨all 0, all 1, all 2, (all 3).trans network.symm⟩
  | v6 =>
      have isAttr : ff3Validate .eq (.addr (strToAddr .v6 words fun _ => 0)) =
          some (.eqAd6 (strToAddr .v6 words fun _ => 0)) := by
        rw [ff3Validate, if_pos rfl, if_neg fun short => by cases short.1]
        exact if_pos ⟨rfl, rfl, rfl, rfl, rfl⟩
      obtain rfl := Option.some.inj (isAttr.symm.trans valid)
      have network : ∀ x, (strToAddr .v6 words fun _ => 0).ip x = 0 := fun _ => BitVec.and_zero
      rw [ff3OperEvalV2, if_neg large, truth_pos]
      simp only [network]

theorem validate_isSome (net : FfNet) : ∃ attr, ff3Validate .eq (.addr net) = some attr := by
  rw [ff3Validate, if_pos rfl]
  split
  · exact ⟨_, rfl⟩
  · split <;> exact ⟨_, rfl⟩

end Verdict

/-! ### What a prefix stands for -/

/-- A condition that an address starts with the first bits of another one. -/
inductive PrefixCondition : FilterLeaf → Field → Str → Nat → Prop where
  | written {field : FilterField} {cmp : FilterCmp} {value : FilterValue} {id : Field} {ip : Str}
      {sep : Char} {n : Nat} (looked : lookupFunc (lookupName field) = some (.addr, some id))
      (equal : (cmpOper cmp).orEq = .eq) (whole : Undelimited ip) (delim : isDelim sep = true)
      (text : valueText value = ip ++ sep :: Nat.toDigits 10 n) :
      PrefixCondition (.compare field cmp value) id ip n

section Honoured

variable {pton : InetPton} {toTimestamp : Str → Option (BitVec 64)} {condition : FilterLeaf}
  {id : Field} {ip : Str} {n : Nat}

theorem PrefixCondition.isAddress (isPrefix : PrefixCondition condition id ip n) :
    id.type = .ip := by
  obtain ⟨looked⟩ := isPrefix
  have type := type_of_lookupFunc looked
  cases isType : id.type <;> rw [isType] at type <;> first | rfl | cases type

/-- The verdict on a condition whose literal is converted. -/
theorem PrefixCondition.holds_iff (isPrefix : PrefixCondition condition id ip n) (fits : n ≤ 128)
    {net : FfNet} (converted : pton.readPrefix ip n = .ok net) {attr : FfAttr}
    (valid : ff3Validate .eq (.addr net) = some attr) (record : Record) (behind : Behind) :
    LeafHolds (pton.conversions toTimestamp) record behind condition ↔
      0 < ff3OperEvalV2 (dataFunc record (behind (some id)) (some id)) evalBufMax attr := by
  obtain ⟨looked, equal, whole, delim, text⟩ := isPrefix
  refine leafHolds_addr looked equal (by simp [text]) ?_ valid
  change (pton.strToAddr (valueText _)).toOption = _
  rw [text, strToAddr_prefix whole delim fits, converted]
  rfl

/-- A condition whose literal is not converted. -/
theorem PrefixCondition.not_holds (isPrefix : PrefixCondition condition id ip n) (fits : n ≤ 128)
    {fault : AddrFault} (refused : pton.readPrefix ip n = .error fault) (record : Record)
    (behind : Behind) : ¬ LeafHolds (pton.conversions toTimestamp) record behind condition := by
  obtain ⟨looked, equal, whole, delim, text⟩ := isPrefix
  refine not_leafHolds_addr looked ?_
  change (pton.strToAddr (valueText _)).toOption = _
  rw [text, strToAddr_prefix whole delim fits, refused]
  rfl

/-- A short address, which may lack octets. -/
theorem readPrefix_inet {word : BitVec 32} (fits : n ≤ 32) (enough : minOctets n ≤ octets ip)
    (converts : pton.inet (padded ip) = some word) :
    pton.readPrefix ip n =
      .ok (strToAddr .v4 (fun x => if x = 3 then word else 0) (prefixMask n)) := by
  have allowed : n ≤ 32 ∧ (some IpVersion.v4) ≠ some .v6 := ⟨fits, by decide⟩
  rw [InetPton.readPrefix, unwrapIp, if_neg (Nat.not_lt.mpr enough)]
  simp only [InetPton.readIp, converts, if_pos allowed]

/-- A prefix of a short address picks the IPv4 addresses that start with its bits, unless it is
empty. -/
theorem prefix4_honoured_iff (isPrefix : PrefixCondition condition id ip n) {word : BitVec 32}
    (fits : n ≤ 32) (enough : minOctets n ≤ octets ip)
    (converts : pton.inet (padded ip) = some word) :
    (∀ record behind, ipIs4 (addressOf record id) = true →
      (LeafHolds (pton.conversions toTimestamp) record behind condition ↔
        ∀ i < n, wordBit (ui32 (addressOf record id) 2) i = wordBit word i)) ↔ 0 < n := by
  have converted := readPrefix_inet fits enough converts
  obtain ⟨attr, valid⟩ := validate_isSome
    (strToAddr .v4 (fun x => if x = 3 then word else 0) (prefixMask n))
  have read : ∀ record, ipIs4 (addressOf record id) = true →
      readWords (addressOf record id) =
        fun x => if x = 3 then ui32 (addressOf record id) 2 else 0 :=
    fun record isV4 => if_pos isV4
  constructor
  · intro honoured
    by_contra none
    obtain rfl : n = 0 := by omega
    -- Any other address than 0.0.0.0 shows that the empty prefix is not honoured.
    obtain ⟨record, isRecord⟩ := exists_addressOf isPrefix.isAddress
      (BitVec.ofNat 128 (0xffffffff * 2 ^ 96 + 2 ^ 64))
    have isV4 : ipIs4 (addressOf record id) = true := by
      rw [isRecord]
      decide +kernel
    have holds := (honoured record (fun _ _ => 0) isV4).mpr fun i below => by omega
    rw [isPrefix.holds_iff (by omega) converted valid, prefix0_pos_iff valid,
      rcIp_addressOf isPrefix.isAddress, read record isV4, isRecord] at holds
    exact absurd (holds 3) (by decide +kernel)
  · intro positive record behind isV4
    rw [isPrefix.holds_iff (by omega) converted valid, prefix4_pos_iff positive fits valid,
      rcIp_addressOf isPrefix.isAddress, read record isV4]
    exact and_iff_right ⟨rfl, rfl, rfl⟩

/-- `SRC_IP = text`. -/
def sourceIs (text : Str) : FilterLeaf :=
  .compare (.ident "SRC_IP".toList) .eq (.consistent (.string (.string text)))

/-- `inet_pton` on `10.0.0.0`. -/
def tenPton : InetPton where
  inet text := if text = "10.0.0.0".toList then some 0x0000000a else none
  inet6 _ := none

/-- `SRC_IP = 10/8`. -/
theorem prefix4_honoured_iff_tenNet :
    (∀ record behind, ipIs4 (addressOf record (.unirec .srcIP)) = true →
      (LeafHolds (tenPton.conversions fun _ => none) record behind (sourceIs "10/8".toList) ↔
        ∀ i < 8, wordBit (ui32 (addressOf record (.unirec .srcIP)) 2) i =
          wordBit 0x0000000a i)) ↔ 0 < 8 :=
  have whole : Undelimited "10".toList := undelimited_of_all (by decide) (by decide)
  have isPrefix : PrefixCondition (sourceIs "10/8".toList) (.unirec .srcIP) "10".toList 8 :=
    @PrefixCondition.written _ _ _ _ _ '/' _ (by decide) rfl whole (by decide) (by decide)
  prefix4_honoured_iff isPrefix (by decide) (by decide) (by decide)

/-- A long address with more bits than the text has octets for. -/
theorem readPrefix_inet6 {words : FfIp} (few : octets ip < minOctets n)
    (noShort : pton.inet ip = none) (converts : pton.inet6 ip = some words) :
    pton.readPrefix ip n = .ok (strToAddr .v6 words (prefixMask n)) := by
  rw [InetPton.readPrefix, unwrapIp, if_pos few]
  simp only [InetPton.readIp, noShort, converts]

/-- A long address whose text gets octets appended. -/
theorem readPrefix_padded (enough : minOctets n ≤ octets ip)
    (noShort : pton.inet (padded ip) = none) :
    pton.readPrefix ip n =
      match pton.inet6 (padded ip) with
      | some words => .ok (strToAddr .v6 words (prefixMask n))
      | none => .error .refused := by
  rw [InetPton.readPrefix, unwrapIp, if_neg (Nat.not_lt.mpr enough)]
  simp only [InetPton.readIp, noShort]

/-- Nothing is appended to a text with four octets. -/
theorem padded_of_le (all : 4 ≤ octets ip) : padded ip = ip := by
  rw [padded, Nat.sub_eq_zero_of_le all]
  exact List.append_nil ip

theorem le_of_minOctets {bytes : Nat} (enough : minOctets n ≤ bytes) : n ≤ 8 * bytes := by
  rw [minOctets] at enough
  split at enough <;> omega

/-- A prefix of a long address picks the IPv6 addresses that start with its bits, unless it is empty
or zeros are appended to a text that stands for another prefix, or for no address, with them. -/
theorem prefix6_honoured_iff (isPrefix : PrefixCondition condition id ip n) (fits : n ≤ 128)
    {words : FfIp} (converts : pton.inet6 ip = some words) (colon : ':' ∈ ip)
    (noShort : ∀ text, ':' ∈ text → pton.inet text = none) :
    (∀ record behind, ipIs4 (addressOf record id) = false →
      ¬ Zeros (storedWords (addressOf record id)) →
      (LeafHolds (pton.conversions toTimestamp) record behind condition ↔
        ∀ i < n, addressBit (storedWords (addressOf record id)) i = addressBit words i)) ↔
      0 < n ∧ (octets ip < minOctets n ∨ ∃ other, pton.inet6 (padded ip) = some other ∧
        ∀ i < n, addressBit other i = addressBit words i) := by
  have noShortPadded : pton.inet (padded ip) = none :=
    noShort _ (List.mem_append_left _ colon)
  constructor
  · intro honoured
    rcases Nat.lt_or_ge (octets ip) (minOctets n) with few | enough
    · refine ⟨Nat.pos_of_ne_zero fun none => ?_, Or.inl few⟩
      subst none
      exact Nat.not_lt_zero _ few
    · have converted := readPrefix_padded enough noShortPadded
      -- The empty prefix holds of `::` only, others of the records that start with the other words.
      have positive : ∀ other, pton.readPrefix ip n = .ok (strToAddr .v6 other (prefixMask n)) →
          0 < n := by
        intro other isOther
        refine Nat.pos_of_ne_zero fun none => ?_
        subst none
        obtain ⟨record, isV6, some, agree⟩ :=
          exists_record_startsWith isPrefix.isAddress words (n := 0) (by decide)
        have holds := (honoured record (fun _ _ => 0) isV6 some).mpr agree
        obtain ⟨attr, valid⟩ := validate_isSome (strToAddr .v6 other (prefixMask 0))
        rw [isPrefix.holds_iff fits isOther valid, prefix0_pos_iff valid,
          rcIp_of_v6 isPrefix.isAddress _ isV6] at holds
        exact some ⟨holds 0, holds 1, holds 2⟩
      rcases Nat.lt_or_ge (octets ip) 4 with short | all
      · have bits := le_of_minOctets enough
        obtain ⟨record, isV6, some, agree⟩ :=
          exists_record_startsWith isPrefix.isAddress words (n := n) (by omega)
        have holds := (honoured record (fun _ _ => 0) isV6 some).mpr agree
        cases isOther : pton.inet6 (padded ip) with
        | none =>
            rw [isOther] at converted
            exact absurd holds (isPrefix.not_holds fits converted _ _)
        | some other =>
            rw [isOther] at converted
            obtain ⟨attr, valid⟩ := validate_isSome (strToAddr .v6 other (prefixMask n))
            rw [isPrefix.holds_iff fits converted valid,
              prefix6_pos_iff (positive other converted) valid,
              rcIp_of_v6 isPrefix.isAddress _ isV6] at holds
            exact ⟨positive other converted, Or.inr ⟨other, rfl,
              fun i below => (holds.2 i below).symm.trans (agree i below)⟩⟩
      · rw [padded_of_le all, converts] at converted
        exact ⟨positive words converted, Or.inr ⟨words, by rw [padded_of_le all, converts],
          fun _ _ => rfl⟩⟩
  · rintro ⟨positive, accepted⟩ record behind isV6 some
    obtain ⟨other, converted, agree⟩ : ∃ other,
        pton.readPrefix ip n = .ok (strToAddr .v6 other (prefixMask n)) ∧
          ∀ i < n, addressBit other i = addressBit words i := by
      rcases Nat.lt_or_ge (octets ip) (minOctets n) with few | enough
      · exact ⟨words, readPrefix_inet6 few (noShort ip colon) converts, fun _ _ => rfl⟩
      · obtain few | ⟨other, isOther, agree⟩ := accepted
        · exact absurd few (Nat.not_lt.mpr enough)
        · exact ⟨other, by rw [readPrefix_padded enough noShortPadded, isOther], agree⟩
    obtain ⟨attr, valid⟩ := validate_isSome (strToAddr .v6 other (prefixMask n))
    rw [isPrefix.holds_iff fits converted valid, prefix6_pos_iff positive valid,
      rcIp_of_v6 isPrefix.isAddress _ isV6, and_iff_right some]
    exact forall₂_congr fun i below => by rw [agree i below]

/-- `inet_pton` on `ff00::`. -/
def multicastPton : InetPton where
  inet _ := none
  inet6 text :=
    if text = "ff00::".toList then some fun x => if x = 0 then 0x000000ff else 0 else none

/-- `SRC_IP = ff00::/8`. -/
theorem prefix6_honoured_iff_multicast :
    ¬ ∀ record behind, ipIs4 (addressOf record (.unirec .srcIP)) = false →
      ¬ Zeros (storedWords (addressOf record (.unirec .srcIP))) →
      (LeafHolds (multicastPton.conversions fun _ => none) record behind
          (sourceIs "ff00::/8".toList) ↔
        ∀ i < 8, addressBit (storedWords (addressOf record (.unirec .srcIP))) i =
          addressBit (fun x : Fin 4 => if x = 0 then 0x000000ff else 0) i) := by
  intro honoured
  have isPrefix : PrefixCondition (sourceIs "ff00::/8".toList) (.unirec .srcIP) "ff00::".toList 8 :=
    @PrefixCondition.written _ _ _ _ _ '/' _ (by decide) rfl
      (undelimited_of_all (by decide) (by decide)) (by decide) (by decide)
  have accepted := (prefix6_honoured_iff isPrefix (by decide) (by decide) (by decide)
    fun _ _ => rfl).mp honoured
  obtain ⟨_, few | ⟨other, isOther, _⟩⟩ := accepted
  · exact absurd few (by decide)
  · have refused : multicastPton.inet6 (padded "ff00::".toList) = none := by decide
    cases refused.symm.trans isOther

end Honoured

end Policer.Filter
