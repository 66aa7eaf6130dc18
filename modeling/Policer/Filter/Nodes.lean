import Policer.Filter.Literals
import Policer.Filter.Nesting

/-!
# Compiled filters

What the actions of the grammar build: a tree of nodes that carry an operation and an opcode.
`malloc` hands the nodes out as the memory was left, and `ff3_new_node` writes no opcode, so the
opcode of a node that compares nothing is whatever `fresh` says. A `not` does not make a node when
the opcode of its operand can be negated: the operand gets the other opcode instead.
-/

namespace Policer.Filter

open Policer.Parsing Policer.Aggregator Policer.Lib Policer.Lib.LittleEndian

/-! ### Opcodes -/

/-- The relations in the names of `ff3_attr_t`. -/
inductive AttrRel where
  | eq
  | gt
  | lt
  | is
  | ins
deriving DecidableEq, Repr

/-- The kinds of data in the names of `ff3_attr_t`. -/
inductive AttrKind where
  | ui
  | uibe
  | ui8
  | ui4
  | ui2
  | ui1
  | i
  | ibe
  | i8
  | i4
  | i2
  | i1
  | re
  | str
  | tsb
  | ts
  | mac
  | ad4
  | ad6
  | adp
  | ml
  | mlx
  | mex
  | mes
deriving DecidableEq, Repr

/-- `ff3_attr_t`: the codes with a relation and a kind, and all other numbers. -/
inductive Opcode where
  | of (rel : AttrRel) (kind : AttrKind)
  | other (code : Nat)
deriving DecidableEq, Repr

/-- `ff3_negate`; `none` is `FFAT_ERR`. -/
def ff3Negate : Opcode → Option Opcode
  | .of .is kind => some (.of .ins kind)
  | .of .ins kind => some (.of .is kind)
  | _ => none

/-- The relation of a comparison. -/
def UiCmp.rel : UiCmp → AttrRel
  | .eq => .eq
  | .gt => .gt
  | .lt => .lt
  | .is => .is

/-- The kind of data of a width. -/
def UiWidth.kind : UiWidth → AttrKind
  | .w8 => .ui8
  | .w4 => .ui4
  | .w2 => .ui2
  | .w1 => .ui1

/-- The opcode `ff3_type_validate` writes into a node. -/
def FfAttr.opcode : FfAttr → Opcode
  | .ui cmp _ => .of cmp.rel .ui
  | .uiN cmp width _ => .of cmp.rel width.kind
  | .eqAd4 _ => .of .eq .ad4
  | .eqAd6 _ => .of .eq .ad6
  | .eqAdp _ => .of .eq .adp

/-! ### Nodes -/

/-- `ff3_node_t`: its operation, its opcode, and what the operation uses of the other members. -/
inductive FilterNode where
  | yes (opcode : Opcode)
  | not (opcode : Opcode) (child : FilterNode)
  | or (opcode : Opcode) (left right : FilterNode)
  | and (opcode : Opcode) (left right : FilterNode)
  | exist (opcode : Opcode) (id : Option Field)
  | among (opcode : Opcode) (id : Option Field) (list : List (Opcode × Literal))
  | compare (opcode : Opcode) (id : Option Field) (literal : Literal)

namespace FilterNode

def opcode : FilterNode → Opcode
  | .yes opcode => opcode
  | .not opcode _ => opcode
  | .or opcode _ _ => opcode
  | .and opcode _ _ => opcode
  | .exist opcode _ => opcode
  | .among opcode _ _ => opcode
  | .compare opcode _ _ => opcode

def setOpcode (opcode : Opcode) : FilterNode → FilterNode
  | .yes _ => .yes opcode
  | .not _ child => .not opcode child
  | .or _ left right => .or opcode left right
  | .and _ left right => .and opcode left right
  | .exist _ id => .exist opcode id
  | .among _ id list => .among opcode id list
  | .compare _ id literal => .compare opcode id literal

end FilterNode

/-! ### Building -/

/-- `field`, without the sign of a pair, as `lookup_func` gets it. -/
def lookupName (field : FilterField) : Str :=
  match fieldText field with
  | '|' :: fieldstr => fieldstr
  | '&' :: fieldstr => fieldstr
  | fieldstr => fieldstr

/-- The operator of `cmp`. -/
def cmpOper : FilterCmp → FfOper
  | .isset => .isset
  | .eq => .eq
  | .lt => .lt
  | .gt => .gt
  | .none => .noop

/-- `ff3_type_validate`: the opcode and the value it writes into a node. -/
def ff3TypeValidate (conv : Conversions) (type : FfType) (oper : FfOper) (valstr : Str) :
    Option (Opcode × Literal) :=
  (ff3TypeCast conv valstr type).bind fun literal =>
    (ff3Validate oper literal).map fun attr => (attr.opcode, literal)

/-- `ff3_new_leaf`. A bare name gets no value, and there is no constant it could stand for. -/
def newLeaf (conv : Conversions) (fresh : Opcode) : FilterLeaf → Option FilterNode
  | .exist field => (lookupFunc (lookupName field)).map fun found => .exist fresh found.2
  | .compare field cmp value =>
      (lookupFunc (lookupName field)).bind fun (type, id) =>
        if valueText value = [] then none
        else (ff3TypeValidate conv type (cmpOper cmp).orEq (valueText value)).map
          fun (opcode, literal) => .compare opcode id literal
  | .among field list =>
      (lookupFunc (lookupName field)).bind fun (type, id) =>
        ((listTexts list).mapM (ff3TypeValidate conv type .eq)).map (.among fresh id)
  | .bare _ => none

/-- `ff3_new_node` for `FF_OP_NOT`: a node, or the operand with the other opcode. The number of
nodes that were given out so far goes on. -/
def newNot (fresh : Nat → Opcode) (count : Nat) (right : FilterNode) : FilterNode × Nat :=
  match ff3Negate right.opcode with
  | some neg => (right.setOpcode neg, count)
  | none => (.not (fresh count) right, count + 1)

/-- The actions of `expr`, from the leaves up. -/
def compile (conv : Conversions) (fresh : Nat → Opcode) :
    FilterExpr → Nat → Option (FilterNode × Nat)
  | .any, count => some (.yes (fresh count), count + 1)
  | .not inner, count =>
      (compile conv fresh inner count).map fun (right, count) => newNot fresh count right
  | .and left right, count =>
      (compile conv fresh left count).bind fun (left, count) =>
        (compile conv fresh right count).map fun (right, count) =>
          (.and (fresh count) left right, count + 1)
  | .or left right, count =>
      (compile conv fresh left count).bind fun (left, count) =>
        (compile conv fresh right count).map fun (right, count) =>
          (.or (fresh count) left right, count + 1)
  | .paren inner, count => compile conv fresh inner count
  | .leaf condition, count =>
      (newLeaf conv (fresh count) condition).map fun node => (node, count + 1)

/-- The root of a tree that may be empty. -/
def compileRoot (conv : Conversions) (fresh : Nat → Opcode) :
    Option FilterExpr → Option (Option FilterNode)
  | none => some none
  | some root => (compile conv fresh root 0).map fun compiled => some compiled.1

/-- How `ff3_init` ends: with the member `root`, with an error, or somewhere behind the end of a
string. -/
inductive Ff3Result where
  | root (tree : Option FilterNode)
  | rejected
  | unterminated

/-- `ff3_init` on the C string of a filter body. -/
def ff3Init (conv : Conversions) (fresh : Nat → Opcode) (expr : Str) : Ff3Result :=
  match ff3gParse (filterTokens (cStr expr)) with
  | none => .rejected
  | some parsed =>
      if (parsed.elim [] FilterExpr.leaves).all fun leaf => ends (leafSources leaf) then
        (compileRoot conv fresh parsed).elim .rejected .root
      else .unterminated

/-- The tree of a filter that is ready. -/
def Ff3Result.root? : Ff3Result → Option (Option FilterNode)
  | .root tree => some tree
  | .rejected => none
  | .unterminated => none

theorem Ff3Result.root?_eq_some {result : Ff3Result} {tree : Option FilterNode} :
    result.root? = some tree ↔ result = .root tree := by
  cases result <;> simp [Ff3Result.root?]

theorem exists_root {result : Ff3Result} (ready : result.root?.isSome = true) :
    ∃ root, result = .root root := by
  obtain ⟨root, isRoot⟩ := Option.isSome_iff_exists.mp ready
  exact ⟨root, Ff3Result.root?_eq_some.mp isRoot⟩

/-! ### Evaluation -/

/-- The relation of an opcode, between the data and the literal. -/
def AttrRel.holds : AttrRel → Nat → Nat → Prop
  | .eq, rc, fl => rc = fl
  | .gt, rc, fl => rc > fl
  | .lt, rc, fl => rc < fl
  | .is, rc, fl => rc &&& fl = fl
  | .ins, rc, fl => rc &&& fl = 0

instance (rel : AttrRel) (rc fl : Nat) : Decidable (rel.holds rc fl) :=
  match rel with
  | .eq => inferInstanceAs (Decidable (rc = fl))
  | .gt => inferInstanceAs (Decidable (rc > fl))
  | .lt => inferInstanceAs (Decidable (rc < fl))
  | .is => inferInstanceAs (Decidable (rc &&& fl = fl))
  | .ins => inferInstanceAs (Decidable (rc &&& fl = 0))

/-- The number an opcode for unsigned data compares; `none` for other opcodes and sizes. -/
def readUi (buf : Memory) (size : Nat) : AttrKind → Option Nat
  | .ui => hord buf size
  | .ui8 => some (load 8 buf)
  | .ui4 => some (load 4 buf)
  | .ui2 => some (load 2 buf)
  | .ui1 => some (load 1 buf)
  | _ => none

/-- `ff3_oper_eval_V2` for unsigned data. -/
def operEvalUi (buf : Memory) (size : Nat) (rel : AttrRel) (kind : AttrKind) (ui : BitVec 64) :
    Int :=
  match readUi buf size kind with
  | none => -1
  | some rc => truth (rel.holds rc ui.toNat)

/-- `ff3_oper_eval_V2` on an opcode and the literal it was validated with. -/
def operEval (buf : Memory) (size : Nat) : Opcode → Literal → Int
  | .of rel kind, .uint _ ui => operEvalUi buf size rel kind ui
  | .of rel kind, .timestamp ui => operEvalUi buf size rel kind ui
  | .of .eq .ad4, .addr net => ff3OperEvalV2 buf size (.eqAd4 net)
  | .of .eq .ad6, .addr net => ff3OperEvalV2 buf size (.eqAd6 net)
  | .of .eq .adp, .addr net => ff3OperEvalV2 buf size (.eqAdp net)
  | _, _ => -1

/-- The loop over a list: up to the first item that matches. -/
def evalList (buf : Memory) (size : Nat) : List (Opcode × Literal) → Int
  | [] => -1
  | [(opcode, literal)] => operEval buf size opcode literal
  | (opcode, literal) :: next :: rest =>
      if operEval buf size opcode literal ≤ 0 then evalList buf size (next :: rest)
      else operEval buf size opcode literal

/-- What memory holds behind each field. -/
abbrev Behind := Option Field → Memory

/-- `ff3_eval_node`. What it makes of a list as an operand is not used, and `data_func` always
succeeds. -/
def evalNode (record : Record) (behind : Behind) : FilterNode → Int
  | .yes _ => 1
  | .not _ child => truth (evalNode record behind child ≤ 0)
  | .or _ left right =>
      if evalNode record behind left > 0 then 1
      else truth (evalNode record behind left > 0 ∨ evalNode record behind right > 0)
  | .and _ left right =>
      if evalNode record behind left ≤ 0 then 0
      else truth (evalNode record behind left > 0 ∧ evalNode record behind right > 0)
  | .exist _ _ => 1
  | .among _ id list => evalList (dataFunc record (behind id) id) evalBufMax list
  | .compare opcode id literal =>
      operEval (dataFunc record (behind id) id) evalBufMax opcode literal

/-- `ff3_eval`: an empty tree is evaluated to `-1`. -/
def ff3Eval (record : Record) (behind : Behind) (root : Option FilterNode) : Int :=
  truth (root.elim (-1) (evalNode record behind) > 0)

end Policer.Filter
