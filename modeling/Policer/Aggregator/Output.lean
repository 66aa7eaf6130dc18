import Policer.Aggregator.Options

/-!
# Function pointers of an aggregator

The functions of `agg_functions.hpp`, the tables of `Config` that choose them by code
and type, and `OutputTemplate`, which holds the chosen pointers. A pointer that can be
NULL is an `Option`. The type argument of a template function is always the type of the
field it works on, so the pointers do not carry it.
-/

namespace Policer.Aggregator

open Policer.Parsing

/-! ### Functions -/

/-- `agg_func`. -/
inductive AggFunc where
  | nope
  | sum
  | avg
  | rate
  | min
  | max
  | minIp
  | maxIp
  | last
  | bitwiseOr
  | bitwiseAnd
  | countDistinct
  | countDistinctIp
deriving DecidableEq, Repr

/-- The effect of a function on the stored value of a field. -/
def AggFunc.apply {w : Nat} (func : AggFunc) (unirec : Libunirec) (src dst : BitVec w) :
    BitVec w :=
  match func with
  | .sum | .avg | .rate => dst + src
  | .min => if src < dst then src else dst
  | .max => if dst < src then src else dst
  | .minIp => if unirec.ipCmp src.toNat dst.toNat < 0 then src else dst
  | .maxIp => if 0 < unirec.ipCmp src.toNat dst.toNat then src else dst
  | .last => src
  | .bitwiseOr => dst ||| src
  | .bitwiseAnd => dst &&& src
  | .nope | .countDistinct | .countDistinctIp => dst

/-- The effect of a function on the vector of a counter. -/
def AggFunc.applyPtr (func : AggFunc) (src : Nat) (vector : List Nat) : List Nat :=
  match func with
  | .countDistinct | .countDistinctIp => if vector.contains src then vector else vector ++ [src]
  | _ => vector

/-- `final_avg`. -/
inductive FinalAvg where
  | makeAvg
  | makeRate
deriving DecidableEq, Repr

/-- `make_avg` and `make_rate`. -/
def FinalAvg.apply {w : Nat} (func : FinalAvg) (value : BitVec w) (divisor : BitVec 32) :
    Except Fault (BitVec w) :=
  match func with
  | .makeAvg =>
      if divisor = 0 then .error .divisionByZero
      else .ok (BitVec.ofNat w (value.toNat / divisor.toNat))
  | .makeRate => .ok (BitVec.ofNat w (if divisor = 0 then 0 else value.toNat / divisor.toNat))

/-- `alloc_func`. -/
inductive AllocFunc where
  | allocVectorAndInit
deriving DecidableEq, Repr

/-- `final_make_func`. -/
inductive FinalMakeFunc where
  | makeCountDistinct
deriving DecidableEq, Repr

/-- `dealloc_func`. -/
inductive DeallocFunc where
  | deallocVector
deriving DecidableEq, Repr

/-! ### The tables of `Config` -/

/-- `get_function_ptr`. -/
def getFunctionPtr (function : FunctionCode) (type : FieldType) : AggFunc :=
  match function with
  | .key => .nope
  | .sum => if type.isUInt then .sum else .nope
  | .avg => if type.isUInt then .avg else .nope
  | .min => if type = .ip then .minIp else .min
  | .max => if type = .ip then .maxIp else .max
  | .first => .nope
  | .last => .last
  | .bitOr => if type.isUInt then .bitwiseOr else .nope
  | .bitAnd => if type.isUInt then .bitwiseAnd else .nope
  | .countDistinct =>
      if type.isUInt then .countDistinct else if type = .ip then .countDistinctIp else .nope
  | .rate => if type.isUInt then .rate else .nope

/-- `get_avg_ptr`. -/
def getAvgPtr (function : FunctionCode) (type : FieldType) : Option FinalAvg :=
  match function with
  | .avg => if type.isUInt then some .makeAvg else none
  | .rate => if type.isUInt then some .makeRate else none
  | _ => none

/-- The types `COUNT_DISTINCT` supports in the last three tables. -/
def FieldType.countable (type : FieldType) : Bool := type.isUInt || type == .ip

/-- `get_final_make_ptr`. -/
def getFinalMakePtr (function : FunctionCode) (type : FieldType) : Option FinalMakeFunc :=
  if function = .countDistinct ∧ type.countable then some .makeCountDistinct else none

/-- `get_alloc_ptr`. -/
def getAllocPtr (function : FunctionCode) (type : FieldType) : Option AllocFunc :=
  if function = .countDistinct ∧ type.countable then some .allocVectorAndInit else none

/-- `get_dealloc_ptr`. -/
def getDeallocPtr (function : FunctionCode) (type : FieldType) : Option DeallocFunc :=
  if function = .countDistinct ∧ type.countable then some .deallocVector else none

/-! ### The output template -/

/-- One index of `indexes_to_record`, `process`, `avg_fields` and `rate_fields`. -/
structure PlainField where
  record : Field
  process : AggFunc
  avgField : Option FinalAvg
  rateField : Option FinalAvg

/-- One index of `fields_like_ptr` and the arrays beside it. -/
structure PtrField where
  record : Field
  target : Field
  alloc : Option AllocFunc
  process : AggFunc
  make : Option FinalMakeFunc
  dealloc : Option DeallocFunc

/-- `OutputTemplate`. `unirec` is what its functions call. -/
structure OutputTemplate where
  unirec : Libunirec
  outTmplt : List Field
  fields : List PlainField
  fieldsLikePtr : List PtrField
  prepareToSend : Bool
  avgPostprocessing : Bool

namespace OutputTemplate

/-- The initial values of the members. -/
def new (unirec : Libunirec) : OutputTemplate := ⟨unirec, [], [], [], false, false⟩

/-- `add_field`. -/
def addField (self : OutputTemplate) (recordId : Field) (foo : AggFunc) (avg rate : Bool)
    (foo2 : Option FinalAvg) : OutputTemplate :=
  { self with
    fields := self.fields ++
      [⟨recordId, foo, if avg then foo2 else none, if !avg && rate then foo2 else none⟩]
    prepareToSend := self.prepareToSend || avg || rate
    avgPostprocessing := self.avgPostprocessing || avg || rate }

/-- `add_ptr_field`. -/
def addPtrField (self : OutputTemplate) (recordId targetId : Field) (foo : Option AllocFunc)
    (foo2 : AggFunc) (foo3 : Option FinalMakeFunc) (foo4 : Option DeallocFunc) : OutputTemplate :=
  { self with
    fieldsLikePtr := self.fieldsLikePtr ++ [⟨recordId, targetId, foo, foo2, foo3, foo4⟩]
    prepareToSend := true }

end OutputTemplate

end Policer.Aggregator
