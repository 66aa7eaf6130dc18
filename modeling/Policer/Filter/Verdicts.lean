import Policer.Filter.Nodes
import Policer.Parsing.FilterNames

/-!
# What a filter forwards

The verdict of a compiled filter in terms of its expression. Where the memory the nodes come from
holds no opcode that can be negated, `and`, `or`, `any` and parentheses mean what they say, and so
does `not`, except in front of a test of bits: there it asks that no bit of the literal is set, not
that some bit is missing.
-/

namespace Policer.Filter

open Policer.Parsing Policer.Aggregator Policer.Lib Policer.Lib.LittleEndian

/-! ### Leaves -/

/-- `operEval` extends the evaluator to the opcodes `ff3_negate` makes. -/
theorem operEval_of_validate {oper : FfOper} {literal : Literal} {attr : FfAttr}
    (valid : ff3Validate oper literal = some attr) (buf : Memory) (size : Nat) :
    operEval buf size attr.opcode literal = ff3OperEvalV2 buf size attr := by
  have same : ∀ (cmp : UiCmp) (rc fl : Nat),
      truth (cmp.rel.holds rc fl) = truth (cmp.holds rc fl) := by
    intro cmp rc fl
    cases cmp <;> rfl
  cases literal with
  | uint width ui =>
      obtain ⟨cmp, _, rfl⟩ := Option.map_eq_some_iff.mp valid
      cases width <;> exact same cmp _ _
  | timestamp ui =>
      simp only [ff3Validate] at valid
      split at valid
      · cases valid
      · obtain ⟨cmp, _, rfl⟩ := Option.map_eq_some_iff.mp valid
        simp only [FfAttr.opcode, operEval, operEvalUi, readUi, ff3OperEvalV2]
        cases hord buf size with
        | none => rfl
        | some rc => exact same cmp _ _
  | addr net =>
      simp only [ff3Validate] at valid
      split at valid
      · split at valid
        · cases valid
          rfl
        · split at valid <;>
          · cases valid
            rfl
      · cases valid

/-- Only the operator `&` is compiled to an opcode that can be negated. -/
theorem negate_opcode {oper : FfOper} {literal : Literal} {attr : FfAttr}
    (valid : ff3Validate oper literal = some attr) (noBits : oper ≠ .isset) :
    ff3Negate attr.opcode = none := by
  have relation : ∀ cmp, oper.cmp? = some cmp → cmp.rel ≠ .is ∧ cmp.rel ≠ .ins := by
    intro cmp isCmp
    cases oper with
    | isset => exact absurd rfl noBits
    | noop => cases isCmp
    | _ =>
        cases isCmp
        exact ⟨by decide, by decide⟩
  have plain : ∀ {cmp : UiCmp} {kind : AttrKind}, oper.cmp? = some cmp →
      ff3Negate (.of cmp.rel kind) = none := by
    intro cmp kind isCmp
    obtain ⟨noIs, noIns⟩ := relation cmp isCmp
    cases isRel : cmp.rel with
    | is => exact absurd isRel noIs
    | ins => exact absurd isRel noIns
    | _ => rfl
  cases literal with
  | uint width ui =>
      obtain ⟨cmp, isCmp, rfl⟩ := Option.map_eq_some_iff.mp valid
      exact plain isCmp
  | timestamp ui =>
      rw [ff3Validate, if_neg noBits] at valid
      obtain ⟨cmp, isCmp, rfl⟩ := Option.map_eq_some_iff.mp valid
      exact plain isCmp
  | addr net =>
      simp only [ff3Validate] at valid
      split at valid
      · split at valid
        · cases valid
          rfl
        · split at valid <;>
          · cases valid
            rfl
      · cases valid

/-- `&` is compiled for unsigned literals only. -/
theorem validate_isset {literal : Literal} {attr : FfAttr}
    (valid : ff3Validate .isset literal = some attr) :
    ∃ width ui, literal = .uint width ui ∧ attr = .uiN .is width ui := by
  cases literal with
  | uint width ui =>
      cases valid
      exact ⟨width, ui, rfl, rfl⟩
  | timestamp ui => cases valid
  | addr net => cases valid

/-- A leaf that tests bits. -/
def TestsBits : FilterLeaf → Bool
  | .compare _ .isset _ => true
  | _ => false

section Leaves

variable {conv : Conversions} {fresh : Opcode} {condition : FilterLeaf} {node : FilterNode}

theorem newLeaf_compare {field : FilterField} {cmp : FilterCmp} {value : FilterValue}
    (made : newLeaf conv fresh (.compare field cmp value) = some node) :
    ∃ type id literal attr, lookupFunc (lookupName field) = some (type, id) ∧
      valueText value ≠ [] ∧ ff3TypeCast conv (valueText value) type = some literal ∧
      ff3Validate (cmpOper cmp).orEq literal = some attr ∧
      node = .compare attr.opcode id literal := by
  obtain ⟨⟨type, id⟩, looked, found⟩ := Option.bind_eq_some_iff.mp made
  dsimp only at found
  split at found
  · cases found
  · rename_i nonempty
    obtain ⟨⟨opcode, literal⟩, validated, rfl⟩ := Option.map_eq_some_iff.mp found
    obtain ⟨cast, isCast, valid⟩ := Option.bind_eq_some_iff.mp validated
    obtain ⟨attr, isAttr, same⟩ := Option.map_eq_some_iff.mp valid
    cases same
    exact ⟨type, id, _, attr, looked, nonempty, isCast, isAttr, rfl⟩

/-- A test of bits is compiled to a comparison whose opcode can be negated. -/
theorem newLeaf_bits (bits : TestsBits condition = true)
    (made : newLeaf conv fresh condition = some node) :
    ∃ (kind : AttrKind) (id : Option Field) (literal : Literal),
      node = .compare (.of .is kind) id literal := by
  cases condition with
  | compare field cmp value =>
      cases cmp with
      | isset =>
          obtain ⟨type, id, literal, attr, _, _, _, valid, rfl⟩ := newLeaf_compare made
          obtain ⟨width, ui, rfl, rfl⟩ := validate_isset valid
          exact ⟨_, id, _, rfl⟩
      | _ => cases bits
  | _ => cases bits

/-- All other leaves have an opcode that cannot be negated. -/
theorem negate_newLeaf (noBits : TestsBits condition = false) (clean : ff3Negate fresh = none)
    (made : newLeaf conv fresh condition = some node) : ff3Negate node.opcode = none := by
  cases condition with
  | exist field =>
      obtain ⟨found, _, rfl⟩ := Option.map_eq_some_iff.mp made
      exact clean
  | compare field cmp value =>
      obtain ⟨type, id, literal, attr, _, _, _, valid, rfl⟩ := newLeaf_compare made
      refine negate_opcode valid ?_
      cases cmp with
      | isset => cases noBits
      | _ => exact fun same => by cases same
  | among field list =>
      obtain ⟨⟨type, id⟩, _, found⟩ := Option.bind_eq_some_iff.mp made
      obtain ⟨items, _, rfl⟩ := Option.map_eq_some_iff.mp found
      exact clean
  | bare name => cases made

/-- What a new node held makes no difference to the verdict of a leaf. -/
theorem evalNode_newLeaf {other : Opcode} {otherNode : FilterNode}
    (made : newLeaf conv fresh condition = some node)
    (otherMade : newLeaf conv other condition = some otherNode) (record : Record)
    (behind : Behind) : evalNode record behind node = evalNode record behind otherNode := by
  cases condition with
  | exist field =>
      obtain ⟨found, _, rfl⟩ := Option.map_eq_some_iff.mp made
      obtain ⟨otherFound, _, rfl⟩ := Option.map_eq_some_iff.mp otherMade
      rfl
  | compare field cmp value =>
      cases made.symm.trans otherMade
      rfl
  | among field list =>
      obtain ⟨⟨type, id⟩, looked, found⟩ := Option.bind_eq_some_iff.mp made
      obtain ⟨⟨otherType, otherId⟩, otherLooked, otherFound⟩ := Option.bind_eq_some_iff.mp otherMade
      cases looked.symm.trans otherLooked
      obtain ⟨items, isItems, rfl⟩ := Option.map_eq_some_iff.mp found
      obtain ⟨otherItems, isOther, rfl⟩ := Option.map_eq_some_iff.mp otherFound
      cases isItems.symm.trans isOther
      rfl
  | bare name => cases made

/-- A leaf is compiled or refused whatever the new node held. -/
theorem newLeaf_isSome (fresh other : Opcode) (condition : FilterLeaf) :
    (newLeaf conv fresh condition).isSome = (newLeaf conv other condition).isSome := by
  cases condition with
  | exist field => simp [newLeaf]
  | compare field cmp value => rfl
  | among field list =>
      simp only [newLeaf]
      cases lookupFunc (lookupName field) with
      | none => rfl
      | some found => simp
  | bare name => rfl

/-- A list matches when one of its items does. -/
theorem evalList_pos {buf : Memory} {size : Nat} {list : List (Opcode × Literal)} :
    0 < evalList buf size list ↔ ∃ item ∈ list, 0 < operEval buf size item.1 item.2 := by
  fun_induction evalList buf size list with
  | case1 => simp
  | case2 opcode literal => simp
  | case3 opcode literal next rest fails ih =>
      rw [ih]
      constructor
      · rintro ⟨item, member, holds⟩
        exact ⟨item, List.mem_cons_of_mem _ member, holds⟩
      · rintro ⟨item, member, holds⟩
        rcases List.mem_cons.mp member with rfl | later
        · exact absurd holds (Int.not_lt.mpr fails)
        · exact ⟨item, later, holds⟩
  | case4 opcode literal next rest matches_ =>
      exact iff_of_true (Int.not_le.mp matches_)
        ⟨_, List.mem_cons_self, Int.not_le.mp matches_⟩

end Leaves

/-! ### The meaning of an expression -/

section Meaning

variable (conv : Conversions) (record : Record) (behind : Behind)

/-- A leaf, compiled on its own, matches. -/
def LeafHolds (condition : FilterLeaf) : Prop :=
  ∃ node, newLeaf conv (.other 0) condition = some node ∧ 0 < evalNode record behind node

/-- No bit of the literal of a test of bits is set. -/
def LeafAvoids (condition : FilterLeaf) : Prop :=
  ∃ kind id literal, newLeaf conv (.other 0) condition = some (.compare (.of .is kind) id literal) ∧
    0 < operEval (dataFunc record (behind id) id) evalBufMax (.of .ins kind) literal

/-- The test of bits an expression consists of, below parentheses and `not`s, and whether their
number is even. -/
def bitTest : FilterExpr → Option (FilterLeaf × Bool)
  | .leaf condition => if TestsBits condition then some (condition, true) else none
  | .paren inner => bitTest inner
  | .not inner => (bitTest inner).map fun (condition, even) => (condition, !even)
  | _ => none

/-- What an expression asks of a record. -/
def Means : FilterExpr → Prop
  | .any => True
  | .not inner =>
      match bitTest inner with
      | some (condition, true) => LeafAvoids conv record behind condition
      | some (condition, false) => LeafHolds conv record behind condition
      | none => ¬ Means inner
  | .and left right => Means left ∧ Means right
  | .or left right => Means left ∨ Means right
  | .paren inner => Means inner
  | .leaf condition => LeafHolds conv record behind condition

end Meaning

/-- The memory of a new node holds no opcode that can be negated. -/
def Clean (fresh : Nat → Opcode) : Prop := ∀ count, ff3Negate (fresh count) = none

/-- The node of an expression: a test of bits is one comparison, and nothing else can be negated. -/
def NodeOf (conv : Conversions) (node : FilterNode) : Option (FilterLeaf × Bool) → Prop
  | none => ff3Negate node.opcode = none
  | some (condition, even) => ∃ kind id literal,
      newLeaf conv (.other 0) condition = some (.compare (.of .is kind) id literal) ∧
        node = .compare (.of (if even then .is else .ins) kind) id literal

section Compiled

variable {conv : Conversions} {fresh : Nat → Opcode} {record : Record} {behind : Behind}

theorem leafHolds_iff {opcode : Opcode} {condition : FilterLeaf} {node : FilterNode}
    (made : newLeaf conv opcode condition = some node) :
    LeafHolds conv record behind condition ↔ 0 < evalNode record behind node := by
  constructor
  · rintro ⟨other, isOther, holds⟩
    rwa [evalNode_newLeaf made isOther]
  · intro holds
    have some : (newLeaf conv (.other 0) condition).isSome = true := by
      rw [newLeaf_isSome (.other 0) opcode, made]
      rfl
    obtain ⟨other, isOther⟩ := Option.isSome_iff_exists.mp some
    exact ⟨other, isOther, by rwa [← evalNode_newLeaf made isOther]⟩

theorem nodeOf_leaf {opcode : Opcode} (clean : ff3Negate opcode = none) {condition : FilterLeaf}
    {node : FilterNode} (made : newLeaf conv opcode condition = some node) :
    NodeOf conv node (bitTest (.leaf condition)) := by
  cases bits : TestsBits condition with
  | false =>
      rw [bitTest, if_neg (by simp [bits])]
      exact negate_newLeaf bits clean made
  | true =>
      rw [bitTest, if_pos bits]
      have some : (newLeaf conv (.other 0) condition).isSome = true := by
        rw [newLeaf_isSome (.other 0) opcode, made]
        rfl
      obtain ⟨other, isOther⟩ := Option.isSome_iff_exists.mp some
      obtain ⟨kind, id, literal, rfl⟩ := newLeaf_bits bits made
      cases condition with
      | compare field cmp value => exact ⟨kind, id, literal, made, rfl⟩
      | _ => cases bits

/-- `not` in front of a node. -/
theorem nodeOf_newNot {node negated : FilterNode} {count count' : Nat} (clean : Clean fresh)
    {test : Option (FilterLeaf × Bool)} (nodeOf : NodeOf conv node test)
    (made : newNot fresh count node = (negated, count')) :
    NodeOf conv negated (test.map fun (condition, even) => (condition, !even)) ∧
      (test = none → ∃ opcode, negated = .not opcode node) := by
  cases test with
  | none =>
      have noCode : ff3Negate node.opcode = none := nodeOf
      simp only [newNot, noCode] at made
      cases made
      exact ⟨clean count, fun _ => ⟨_, rfl⟩⟩
  | some test =>
      obtain ⟨condition, even⟩ := test
      obtain ⟨kind, id, literal, isLeaf, rfl⟩ := nodeOf
      refine ⟨⟨kind, id, literal, isLeaf, ?_⟩, fun impossible => by cases impossible⟩
      cases even <;>
      · cases made
        rfl

/-- What the verdict of a compiled expression is. -/
theorem compile_means (clean : Clean fresh) (expr : FilterExpr) {count count' : Nat}
    {node : FilterNode} (compiled : compile conv fresh expr count = some (node, count')) :
    NodeOf conv node (bitTest expr) ∧
      (0 < evalNode record behind node ↔ Means conv record behind expr) := by
  induction expr generalizing count count' node with
  | any =>
      cases compiled
      exact ⟨clean count, iff_of_true Int.zero_lt_one trivial⟩
  | leaf condition =>
      obtain ⟨made, isMade, same⟩ := Option.map_eq_some_iff.mp compiled
      cases same
      exact ⟨nodeOf_leaf (clean count) isMade, (leafHolds_iff isMade).symm⟩
  | paren inner ih => exact ih compiled
  | and left right ihLeft ihRight =>
      obtain ⟨⟨leftNode, middle⟩, isLeft, found⟩ := Option.bind_eq_some_iff.mp compiled
      obtain ⟨⟨rightNode, last⟩, isRight, same⟩ := Option.map_eq_some_iff.mp found
      cases same
      refine ⟨clean last, ?_⟩
      rw [Means, ← (ihLeft isLeft).2, ← (ihRight isRight).2, evalNode]
      split
      · rename_i fails
        exact iff_of_false (by decide) fun both => absurd both.1 (Int.not_lt.mpr fails)
      · exact truth_pos
  | or left right ihLeft ihRight =>
      obtain ⟨⟨leftNode, middle⟩, isLeft, found⟩ := Option.bind_eq_some_iff.mp compiled
      obtain ⟨⟨rightNode, last⟩, isRight, same⟩ := Option.map_eq_some_iff.mp found
      cases same
      refine ⟨clean last, ?_⟩
      rw [Means, ← (ihLeft isLeft).2, ← (ihRight isRight).2, evalNode]
      split
      · rename_i holds
        exact iff_of_true Int.zero_lt_one (Or.inl holds)
      · exact truth_pos
  | not inner ih =>
      obtain ⟨⟨innerNode, middle⟩, isInner, same⟩ := Option.map_eq_some_iff.mp compiled
      obtain ⟨nodeOf, holds⟩ := ih isInner
      obtain ⟨negated, outside⟩ := nodeOf_newNot clean nodeOf same
      refine ⟨negated, ?_⟩
      cases test : bitTest inner with
      | none =>
          obtain ⟨opcode, rfl⟩ := outside test
          simp only [Means, test]
          rw [evalNode, truth_pos, ← holds]
          exact Int.not_lt.symm
      | some test' =>
          obtain ⟨condition, even⟩ := test'
          rw [test] at negated
          obtain ⟨kind, id, literal, isLeaf, rfl⟩ := negated
          cases even with
          | true =>
              simp only [Means, test]
              constructor
              · exact fun avoids => ⟨kind, id, literal, isLeaf, avoids⟩
              · rintro ⟨kind', id', literal', isLeaf', avoids⟩
                cases isLeaf.symm.trans isLeaf'
                exact avoids
          | false =>
              simp only [Means, test]
              exact (leafHolds_iff isLeaf).symm

end Compiled

/-! ### Initialisation and forwarding -/

/-- An operator and a value fit a type: any text is a number for an integer field, an address is
only compared for equality, and a time has no bits. -/
def Accepts (conv : Conversions) (type : FfType) (oper : FfOper) (valstr : Str) : Prop :=
  match type with
  | .addr => oper = .eq ∧ (conv.toAddr valstr).isSome = true
  | .timestamp => oper ≠ .isset ∧ (conv.toTimestamp valstr).isSome = true
  | _ => True

/-- A leaf the filter stage does not refuse. -/
def LeafCompiles (conv : Conversions) : FilterLeaf → Prop
  | .exist field => (lookupFunc (lookupName field)).isSome = true
  | .compare field cmp value => ∃ type id, lookupFunc (lookupName field) = some (type, id) ∧
      valueText value ≠ [] ∧ Accepts conv type (cmpOper cmp).orEq (valueText value)
  | .among field list => ∃ type id, lookupFunc (lookupName field) = some (type, id) ∧
      ∀ valstr ∈ listTexts list, Accepts conv type .eq valstr
  | .bare _ => False

section Initialisation

variable {conv : Conversions} {fresh : Nat → Opcode}

theorem ff3TypeValidate_isSome {type : FfType} {oper : FfOper} (known : oper ≠ .noop)
    (valstr : Str) :
    (ff3TypeValidate conv type oper valstr).isSome = true ↔ Accepts conv type oper valstr := by
  obtain ⟨ui, cast⟩ := Option.isSome_iff_exists.mp (castUnsigned_isSome valstr)
  have compares : ∃ cmp, oper.cmp? = some cmp := by
    cases oper with
    | noop => exact absurd rfl known
    | _ => exact ⟨_, rfl⟩
  obtain ⟨cmp, isCmp⟩ := compares
  cases type with
  | addr =>
      simp only [ff3TypeValidate, ff3TypeCast, Accepts]
      cases conv.toAddr valstr with
      | none => simp
      | some net =>
          by_cases eq : oper = .eq
          · have valid : (ff3Validate oper (.addr net)).isSome = true := by
              simp only [ff3Validate, if_pos eq]
              split
              · rfl
              · split <;> rfl
            simp [eq ▸ valid, eq]
          · simp [ff3Validate, eq]
  | timestamp =>
      simp only [ff3TypeValidate, ff3TypeCast, Accepts]
      cases conv.toTimestamp valstr with
      | none => simp
      | some time =>
          by_cases bits : oper = .isset
          · simp [ff3Validate, bits]
          · simp [ff3Validate, bits, isCmp]
  | _ => simp [ff3TypeValidate, ff3TypeCast, cast, ff3Validate, isCmp, Accepts]

theorem orEq_ne_noop (oper : FfOper) : oper.orEq ≠ .noop := by
  cases oper <;> exact fun same => by cases same

theorem mapM_isSome {α β : Type} {make : α → Option β} {items : List α} :
    (items.mapM make).isSome = true ↔ ∀ item ∈ items, (make item).isSome = true := by
  induction items with
  | nil => simp
  | cons head tail ih =>
      rw [List.mapM_cons, List.forall_mem_cons, ← ih]
      cases make head with
      | none => simp
      | some made => cases tail.mapM make <;> simp

theorem newLeaf_isSome_iff (fresh : Opcode) (condition : FilterLeaf) :
    (newLeaf conv fresh condition).isSome = true ↔ LeafCompiles conv condition := by
  cases condition with
  | exist field => simp [newLeaf, LeafCompiles]
  | compare field cmp value =>
      simp only [newLeaf, LeafCompiles]
      cases lookupFunc (lookupName field) with
      | none => simp
      | some found =>
          obtain ⟨type, id⟩ := found
          by_cases empty : valueText value = []
          · simp [empty]
          · simp [empty, ff3TypeValidate_isSome (orEq_ne_noop _)]
  | among field list =>
      simp only [newLeaf, LeafCompiles]
      cases lookupFunc (lookupName field) with
      | none => simp
      | some found =>
          obtain ⟨type, id⟩ := found
          have known : FfOper.eq ≠ .noop := by decide
          simp [mapM_isSome, ff3TypeValidate_isSome known]
  | bare name => simp [newLeaf, LeafCompiles]

/-- An expression is compiled when its leaves are. -/
theorem compile_isSome_iff (expr : FilterExpr) (count : Nat) :
    (compile conv fresh expr count).isSome = true ↔
      ∀ condition ∈ expr.leaves, LeafCompiles conv condition := by
  induction expr generalizing count with
  | any => simp [compile, FilterExpr.leaves]
  | leaf condition => simp [compile, FilterExpr.leaves, newLeaf_isSome_iff]
  | not inner ih => simp [compile, FilterExpr.leaves, ih]
  | paren inner ih => exact ih count
  | and left right ihLeft ihRight | or left right ihLeft ihRight =>
      rw [FilterExpr.leaves, List.forall_mem_append, ← ihLeft count, compile]
      cases compile conv fresh left count with
      | none => simp
      | some made => simp [← ihRight made.2]

theorem compileRoot_isSome_iff (root : Option FilterExpr) :
    (compileRoot conv fresh root).isSome = true ↔
      ∀ condition ∈ root.elim [] FilterExpr.leaves, LeafCompiles conv condition := by
  cases root with
  | none => simp [compileRoot]
  | some expr => simp [compileRoot, compile_isSome_iff]

/-- A filter is ready when its body is read, its strings have their ends, and it is compiled. -/
theorem ff3Init_eq_root {body : Str} {made : Option FilterNode} :
    ff3Init conv fresh body = .root made ↔
      ∃ root, ff3gParse (filterTokens (cStr body)) = some root ∧
        (∀ condition ∈ root.elim [] FilterExpr.leaves, ∀ text ∈ leafSources condition,
          text.length ≤ 1022) ∧ compileRoot conv fresh root = some made := by
  rw [ff3Init]
  cases ff3gParse (filterTokens (cStr body)) with
  | none => simp
  | some root =>
      simp only [List.all_eq_true, ends_iff, Option.some.injEq, exists_eq_left']
      split
      · rename_i ended
        rw [and_iff_right ended]
        cases compileRoot conv fresh root <;> simp
      · rename_i long
        simp [long]

/-- `Filter::init` succeeds for the bodies whose strings fit into their buffers and whose conditions
are all compiled, whatever the memory held. -/
theorem ff3Init_isSome_iff (body : Str) :
    (ff3Init conv fresh body).root?.isSome = true ↔
      ∃ root, ff3gParse (filterTokens (cStr body)) = some root ∧
        ∀ condition ∈ root.elim [] FilterExpr.leaves,
          (∀ text ∈ leafSources condition, text.length ≤ 1022) ∧ LeafCompiles conv condition := by
  simp only [Option.isSome_iff_exists, Ff3Result.root?_eq_some, ff3Init_eq_root, forall₂_and]
  constructor
  · rintro ⟨made, root, parsed, fits, compiled⟩
    exact ⟨root, parsed, fits,
      (compileRoot_isSome_iff root).mp (Option.isSome_iff_exists.mpr ⟨made, compiled⟩)⟩
  · rintro ⟨root, parsed, fits, compiles⟩
    have ready : (compileRoot conv fresh root).isSome = true :=
      (compileRoot_isSome_iff root).mpr compiles
    obtain ⟨made, compiled⟩ := Option.isSome_iff_exists.mp ready
    exact ⟨made, root, parsed, fits, compiled⟩

theorem ff3Eval_ne_zero {root : Option FilterNode} {record : Record} {behind : Behind} :
    ff3Eval record behind root ≠ 0 ↔ 0 < root.elim (-1) (evalNode record behind) := by
  unfold ff3Eval truth
  split
  · rename_i holds
    exact iff_of_true (by decide) holds
  · rename_i fails
    exact iff_of_false (fun other => other rfl) fails

/-- A filter forwards the records that meet the expression it was compiled from. -/
theorem forwards_of_parsed (clean : Clean fresh) {body : Str} {expr : FilterExpr}
    (parsed : ff3gParse (filterTokens (cStr body)) = some (some expr)) {root : Option FilterNode}
    (init : ff3Init conv fresh body = .root root) (record : Record) (behind : Behind) :
    ff3Eval record behind root ≠ 0 ↔ Means conv record behind expr := by
  obtain ⟨found, isFound, _, compiled⟩ := ff3Init_eq_root.mp init
  cases parsed.symm.trans isFound
  obtain ⟨⟨node, count⟩, isNode, same⟩ := Option.map_eq_some_iff.mp compiled
  cases same
  rw [ff3Eval_ne_zero, Option.elim_some, (compile_means clean expr isNode).2]

/-- `Filter::eval` forwards a record when it meets the expression of the body. -/
theorem forwards_iff_means (clean : Clean fresh) {body : Str} {root : Option FilterNode}
    (init : ff3Init conv fresh body = .root root) (record : Record) (behind : Behind) :
    ff3Eval record behind root ≠ 0 ↔
      ∃ expr, ff3gParse (filterTokens (cStr body)) = some (some expr) ∧
        Means conv record behind expr := by
  obtain ⟨parsed, isParsed, _, compiled⟩ := ff3Init_eq_root.mp init
  cases parsed with
  | none =>
      cases compiled
      rw [ff3Eval_ne_zero, isParsed]
      exact iff_of_false (show ¬ (0 : Int) < -1 by decide) (by simp)
  | some expr =>
      rw [forwards_of_parsed clean isParsed init, isParsed]
      simp

/-- Memory that was never used. -/
def zeroed : Nat → Opcode := fun _ => .other 0

theorem clean_zeroed : Clean zeroed := fun _ => rfl

/-- `PACKETS > 5 and not TCP_FLAGS & 2`. -/
theorem forwards_iff_means_flags :
    ∃ root, ff3Init noConversions zeroed "PACKETS > 5 and not TCP_FLAGS & 2".toList = .root root ∧
      ∀ (record : Record) (behind : Behind), ff3Eval record behind root ≠ 0 ↔
        ∃ expr, ff3gParse (filterTokens (cStr "PACKETS > 5 and not TCP_FLAGS & 2".toList)) =
            some (some expr) ∧ Means noConversions record behind expr := by
  obtain ⟨root, init⟩ : ∃ root, ff3Init noConversions zeroed
      "PACKETS > 5 and not TCP_FLAGS & 2".toList = .root root :=
    exists_root (by decide +kernel)
  exact ⟨root, init, forwards_iff_means clean_zeroed init⟩

end Initialisation

/-! ### Lists -/

section Lists

variable {conv : Conversions} {record : Record} {behind : Behind} {field : FilterField}
  {type : FfType} {id : Option Field}

/-- The items of a list. -/
def listItems : FilterList → List ConsistentVal
  | .comma item rest => item :: listItems rest
  | .blank item rest => item :: listItems rest
  | .last item => [item]

theorem listTexts_eq (list : FilterList) :
    listTexts list = (listItems list).map consistentText := by
  induction list with
  | comma item rest ih => rw [listTexts, listItems, List.map_cons, ih]
  | blank item rest ih => rw [listTexts, listItems, List.map_cons, ih]
  | last item => rfl

/-- A value that stands alone is printed as an item of a list is. -/
theorem valueText_consistent (item : ConsistentVal) :
    valueText (.consistent item) = consistentText item := rfl

theorem exists_mem_of_mapM {α β : Type} {make : α → Option β} {items : List α} {made : List β}
    (isMade : items.mapM make = some made) (holds : β → Prop) :
    (∃ out ∈ made, holds out) ↔ ∃ item ∈ items, ∃ out, make item = some out ∧ holds out := by
  induction items generalizing made with
  | nil =>
      cases isMade
      simp
  | cons head tail ih =>
      rw [List.mapM_cons] at isMade
      obtain ⟨first, isFirst, isMade⟩ := Option.bind_eq_some_iff.mp isMade
      obtain ⟨rest, isRest, same⟩ := Option.bind_eq_some_iff.mp isMade
      cases same
      rw [List.exists_mem_cons_iff, List.exists_mem_cons_iff, ih isRest, isFirst]
      simp

/-- A value that is compared for equality. -/
theorem leafHolds_equal_iff (looked : lookupFunc (lookupName field) = some (type, id))
    (item : ConsistentVal) :
    LeafHolds conv record behind (.compare field .eq (.consistent item)) ↔
      consistentText item ≠ [] ∧ ∃ made, ff3TypeValidate conv type .eq (consistentText item) =
        some made ∧ 0 < operEval (dataFunc record (behind id) id) evalBufMax made.1 made.2 := by
  have equal : (cmpOper .eq).orEq = .eq := rfl
  rw [LeafHolds, newLeaf, looked, valueText_consistent, equal]
  dsimp only [Option.bind_some]
  split
  · rename_i empty
    simp [empty]
  · rename_i nonempty
    rw [and_iff_right nonempty]
    cases ff3TypeValidate conv type .eq (consistentText item) <;> simp [evalNode]

/-- A list stands for a disjunction: a field is in it when it equals one of the items. Items without
a text are let through, and can only be in a list. -/
theorem leafHolds_among_iff {list : FilterList}
    (compiles : LeafCompiles conv (.among field list))
    (written : ∀ item ∈ listItems list, consistentText item ≠ []) :
    LeafHolds conv record behind (.among field list) ↔
      ∃ item ∈ listItems list,
        LeafHolds conv record behind (.compare field .eq (.consistent item)) := by
  obtain ⟨node, isNode⟩ := Option.isSome_iff_exists.mp
    ((newLeaf_isSome_iff (.other 0) (.among field list)).mpr compiles)
  rw [leafHolds_iff isNode]
  obtain ⟨⟨type, id⟩, looked, found⟩ := Option.bind_eq_some_iff.mp isNode
  obtain ⟨made, isMade, rfl⟩ := Option.map_eq_some_iff.mp found
  rw [listTexts_eq] at isMade
  rw [evalNode, evalList_pos, exists_mem_of_mapM isMade fun out =>
    0 < operEval (dataFunc record (behind id) id) evalBufMax out.1 out.2]
  simp only [List.mem_map, exists_exists_and_eq_and, leafHolds_equal_iff looked]
  refine exists_congr fun item => and_congr_right fun member => ?_
  rw [and_iff_right (written item member)]

/-- `PACKETS in [5, 7]`. -/
def fiveOrSeven : FilterList :=
  .comma (.string (.string "5".toList)) (.last (.string (.string "7".toList)))

theorem leafHolds_among_iff_fiveOrSeven :
    LeafCompiles noConversions (.among (.ident "PACKETS".toList) fiveOrSeven) ∧
      ∀ (record : Record) (behind : Behind),
        LeafHolds noConversions record behind (.among (.ident "PACKETS".toList) fiveOrSeven) ↔
          ∃ item ∈ listItems fiveOrSeven, LeafHolds noConversions record behind
            (.compare (.ident "PACKETS".toList) .eq (.consistent item)) := by
  have compiles : LeafCompiles noConversions (.among (.ident "PACKETS".toList) fiveOrSeven) :=
    ⟨.uint32, some (.unirec .packets), by decide, fun _ _ => trivial⟩
  refine ⟨compiles, fun record behind => leafHolds_among_iff compiles fun item member => ?_⟩
  have either : item = .string (.string "5".toList) ∨ item = .string (.string "7".toList) := by
    simpa [listItems, fiveOrSeven] using member
  rcases either with rfl | rfl <;> decide

end Lists

end Policer.Filter
