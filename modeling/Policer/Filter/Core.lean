import Policer.Lib.LittleEndian
import Policer.Aggregator.UniRec

/-!
# Conditions of the filter stage

The evaluator of `fcore.c` and `ffilter.c` for the types `lookup_func` reports, and the callbacks of
`filter.cpp` it runs on. An opcode carries the literal it was compiled with, and a record is read
as the evaluator reads it: through a pointer to the bytes of a field, with whatever the record
holds next behind them.
-/

namespace Policer.Filter

open Policer.Parsing Policer.Aggregator Policer.Lib.LittleEndian

/-! ### Types, operators and literals -/

/-- The types `lookup_func` reports (`ff3_type_t`). -/
inductive FfType where
  | addr
  | uint64
  | uint32
  | uint16
  | uint8
  | timestamp
deriving DecidableEq, Repr

/-- The operators `cmp` gives (`ff3_oper_t`). -/
inductive FfOper where
  | noop
  | eq
  | lt
  | gt
  | isset
deriving DecidableEq, Repr

/-- `ff3_ip_t`: words in the order and with the bytes of the network. -/
abbrev FfIp := Fin 4 → BitVec 32

/-- The member `ver` of `ff3_net_t`. -/
inductive IpVersion where
  | v4
  | v6
deriving DecidableEq, Repr

/-- `ff3_net_t` as `str_to_addr` leaves it. -/
structure FfNet where
  ver : IpVersion
  ip : FfIp
  mask : FfIp
  masked : ∀ x, ip x &&& mask x = ip x
  lastWord : ver = .v4 → ∀ x, x ≠ 3 → mask x = 0

/-- The words of an address are numbered from `0`. -/
instance fourWords : NeZero 4 := ⟨by decide⟩

/-- The mask of a network, moved to the last word for a short address. -/
def netMask (mask : FfIp) : IpVersion → FfIp
  | .v4 => fun x => if x = 3 then mask 0 else 0
  | .v6 => mask

/-- The end of `str_to_addr`, behind the conversions of address and mask. -/
def strToAddr (ver : IpVersion) (ip mask : FfIp) : FfNet where
  ver := ver
  ip x := ip x &&& netMask mask ver x
  mask := netMask mask ver
  masked x := by rw [BitVec.and_assoc, BitVec.and_self]
  lastWord short x other := by
    subst short
    exact if_neg other

/-- Widths of the unsigned types. -/
inductive UiWidth where
  | w8
  | w4
  | w2
  | w1
deriving DecidableEq, Repr

/-- Width in bytes. -/
def UiWidth.bytes : UiWidth → Nat
  | .w8 => 8
  | .w4 => 4
  | .w2 => 2
  | .w1 => 1

/-- A literal behind `ff3_type_cast`; unsigned ones are 64 bits wide whatever the field is. -/
inductive Literal where
  | uint (width : UiWidth) (ui : BitVec 64)
  | timestamp (ui : BitVec 64)
  | addr (net : FfNet)

/-- What an opcode compares for. -/
inductive UiCmp where
  | eq
  | gt
  | lt
  | is
deriving DecidableEq, Repr

/-- `rc->ui OP fl->ui`. -/
def UiCmp.holds : UiCmp → Nat → Nat → Prop
  | .eq, rc, fl => rc = fl
  | .gt, rc, fl => rc > fl
  | .lt, rc, fl => rc < fl
  | .is, rc, fl => rc &&& fl = fl

instance (cmp : UiCmp) (rc fl : Nat) : Decidable (cmp.holds rc fl) :=
  match cmp with
  | .eq => inferInstanceAs (Decidable (rc = fl))
  | .gt => inferInstanceAs (Decidable (rc > fl))
  | .lt => inferInstanceAs (Decidable (rc < fl))
  | .is => inferInstanceAs (Decidable (rc &&& fl = fl))

/-- `ff3_attr_t`, with the literal: `ui` are `FFAT_EQ_UI` and its kind, whose width is the size the
data come with, `uiN` those with a width of their own. -/
inductive FfAttr where
  | ui (cmp : UiCmp) (ui : BitVec 64)
  | uiN (cmp : UiCmp) (width : UiWidth) (ui : BitVec 64)
  | eqAd4 (net : FfNet)
  | eqAd6 (net : FfNet)
  | eqAdp (net : FfNet)

/-- The comparison of an operator. -/
def FfOper.cmp? : FfOper → Option UiCmp
  | .noop => none
  | .eq => some .eq
  | .lt => some .lt
  | .gt => some .gt
  | .isset => some .is

/-- `ff3_validate`; `none` is `FFAT_ERR`. -/
def ff3Validate (oper : FfOper) : Literal → Option FfAttr
  | .uint width ui => oper.cmp?.map fun cmp => .uiN cmp width ui
  | .timestamp ui => if oper = .isset then none else oper.cmp?.map fun cmp => .ui cmp ui
  | .addr net =>
      if oper = .eq then
        if net.ver = .v4 ∧ net.mask 3 = 0 then some (.eqAd4 net)
        else if net.ver = .v6 ∧ net.mask 0 = 0 ∧ net.mask 1 = 0 ∧ net.mask 2 = 0 ∧ net.mask 3 = 0
        then some (.eqAd6 net)
        else some (.eqAdp net)
      else none

/-! ### Evaluation -/

/-- A truth value of C. -/
def truth (p : Prop) [Decidable p] : Int := if p then 1 else 0

@[simp] theorem truth_pos {p : Prop} [Decidable p] : 0 < truth p ↔ p := by
  unfold truth
  split <;> simp [*]

/-- `hord.ui`, copied with the size the data come with. -/
def hord (buf : Memory) (size : Nat) : Option Nat :=
  if size = 8 then some (load 8 buf)
  else if size = 4 then some (load 4 buf)
  else if size = 2 then some (load 2 buf)
  else if size = 1 then some (load 1 buf)
  else none

/-- `rc->ip.data[x]`. -/
def rcIp (buf : Memory) : FfIp := fun x => BitVec.ofNat 32 (load 4 (buf.from (4 * x)))

/-- `ff3_oper_eval_V2`. -/
def ff3OperEvalV2 (buf : Memory) (size : Nat) : FfAttr → Int
  | .ui cmp ui =>
      match hord buf size with
      | none => -1
      | some rc => truth (cmp.holds rc ui.toNat)
  | .uiN cmp width ui => truth (cmp.holds (load width.bytes buf) ui.toNat)
  | .eqAd4 net =>
      if size = 4 then truth (rcIp buf 0 = net.ip 3)
      else truth (rcIp buf 0 = 0 ∧ rcIp buf 1 = 0 ∧ rcIp buf 2 = 0 ∧ rcIp buf 3 = net.ip 3)
  | .eqAd6 net => if size = 4 then 0 else truth (∀ x, rcIp buf x = net.ip x)
  | .eqAdp net =>
      if size = 4 then
        if net.ver = .v6 then 0 else truth (rcIp buf 0 &&& net.mask 3 = net.ip 3)
      else if net.ver = .v6 ∧ rcIp buf 0 = 0 ∧ rcIp buf 1 = 0 ∧ rcIp buf 2 = 0 then 0
      else if (∀ x, rcIp buf x &&& net.mask x = net.ip x) ∧ net.ver = .v4 ∧
          (rcIp buf 0 ≠ 0 ∨ rcIp buf 1 ≠ 0 ∨ rcIp buf 2 ≠ 0) then 0
      else truth (∀ x, rcIp buf x &&& net.mask x = net.ip x)

/-! ### Callbacks -/

section Address

variable {w : Nat} (addr : BitVec w)

/-- `addr->ui32[x]`. -/
def ui32 (x : Nat) : BitVec 32 := addr.extractLsb' (32 * x) 32

/-- `addr->ui64[x]`. -/
def ui64 (x : Nat) : BitVec 64 := addr.extractLsb' (64 * x) 64

/-- `ip_is4`: the words 0, 0, address, 0xffffffff. -/
def ipIs4 : Bool := ui64 addr 0 = 0 && ui32 addr 3 = 0xffffffff

/-- `filter->ui64` behind the conversion of `data_func`. -/
def filterUi64 : BitVec 128 := (ui64 addr 1 <<< 32) ++ ui64 addr 0

end Address

/-- `data_func`: what the pointer it hands over points to; an id UniRec does not know leads
anywhere. The size is not touched. -/
def dataFunc (record : Record) (behind : Memory) : Option Field → Memory
  | none => behind
  | some field =>
      if field.type = .ip ∧ ipIs4 (record field) then .holding (filterUi64 (record field)) behind
      else .holding (record field) behind

/-- The names `lookup_func` compares with and their types. -/
def lookupTable : List (Str × FfType) :=
  [("DST_IP".toList, .addr), ("SRC_IP".toList, .addr), ("BYTES".toList, .uint64),
    ("LINK_BIT_FIELD".toList, .uint64), ("TIME_FIRST".toList, .timestamp),
    ("TIME_LAST".toList, .timestamp), ("PACKETS".toList, .uint32), ("DST_PORT".toList, .uint16),
    ("SRC_PORT".toList, .uint16), ("DIR_BIT_FIELD".toList, .uint8), ("PROTOCOL".toList, .uint8),
    ("TCP_FLAGS".toList, .uint8), ("TOS".toList, .uint8), ("TTL".toList, .uint8),
    ("COUNT".toList, .uint32)]

/-- `lookup_func`: the type of a field and its id, as far as UniRec has one. -/
def lookupFunc (fieldstr : Str) : Option (FfType × Option Field) :=
  match lookupTable.find? fun entry => entry.1 = fieldstr with
  | some (_, type) => some (type, urGetIdByName fieldstr)
  | none =>
      if "COUNT_DISTINCT".toList <:+: fieldstr then some (.uint64, urGetIdByName fieldstr)
      else none

/-! ### The filter stage -/

/-- `ff3_node_t`. -/
inductive FfNode where
  | yes
  | not (child : FfNode)
  | or (left right : FfNode)
  | and (left right : FfNode)
  | leaf (id : Option Field) (opcode : FfAttr)

/-- `EVAL_BUF_MAX`. -/
def evalBufMax : Nat := 128

/-- `ff3_eval_node`. -/
def ff3EvalNode (record : Record) (behind : Memory) : FfNode → Int
  | .yes => 1
  | .not child => truth (ff3EvalNode record behind child ≤ 0)
  | .or left right =>
      if ff3EvalNode record behind left > 0 then 1
      else truth (ff3EvalNode record behind left > 0 ∨ ff3EvalNode record behind right > 0)
  | .and left right =>
      if ff3EvalNode record behind left ≤ 0 then 0
      else truth (ff3EvalNode record behind left > 0 ∧ ff3EvalNode record behind right > 0)
  | .leaf id opcode => ff3OperEvalV2 (dataFunc record behind id) evalBufMax opcode

/-- `Filter::eval` sends the record. -/
def Forwards (root : FfNode) (record : Record) (behind : Memory) : Prop :=
  0 < ff3EvalNode record behind root

/-- A record whose field has a value. -/
def recordWith (field : Field) (value : Value field) : Record :=
  Record.set (fun _ => 0) field value

@[simp] theorem recordWith_same (field : Field) (value : Value field) :
    recordWith field value field = value := Record.set_same ..

end Policer.Filter
