import Policer.Filter.Verdicts
import Policer.Lib.Flags

/-!
# What `not` means

`not` in front of a test of bits is its negation exactly for literals that are one bit of the field,
or have all their bits beyond it. When every test of bits has such a literal, a filter forwards what
the expression says in the logic of its words. In front of anything else `not` reads the opcode of a
node that compares nothing, which was never written.
-/

namespace Policer.Filter

open Policer.Parsing Policer.Aggregator Policer.Lib Policer.Lib.LittleEndian Policer.Lib.Flags

/-! ### Tests of bits -/

/-- A test of bits on an integer field, and the literal it is compiled with. -/
structure BitTest (field : FilterField) (value : FilterValue) (target : Field) (ui : BitVec 64) :
    Prop where
  looked : ∃ type, lookupFunc (lookupName field) = some (type, some target) ∧ type.IsInteger
  nonempty : valueText value ≠ []
  cast : castUnsigned (valueText value) = some ui

section Bits

variable {field : FilterField} {value : FilterValue} {target : Field} {ui : BitVec 64}

/-- What is compiled of a test of bits. -/
theorem BitTest.newLeaf (test : BitTest field value target ui) (conv : Conversions)
    (fresh : Opcode) :
    ∃ width : UiWidth, target.type ≠ .ip ∧ target.type.bits = 8 * width.bytes ∧
      newLeaf conv fresh (.compare field .isset value) =
        some (.compare (.of .is width.kind) (some target) (.uint width ui)) := by
  obtain ⟨type, looked, integer⟩ := test.looked
  have fits := type_of_lookupFunc looked
  have compiled : ∀ width : UiWidth,
      ff3TypeCast conv (valueText value) type =
        (castUnsigned (valueText value)).map (.uint width) →
      Filter.newLeaf conv fresh (.compare field .isset value) =
        some (.compare (.of .is width.kind) (some target) (.uint width ui)) := by
    intro width cast
    simp [Filter.newLeaf, looked, test.nonempty, ff3TypeValidate, cast, test.cast, ff3Validate,
      cmpOper, FfOper.orEq, FfOper.cmp?, FfAttr.opcode, UiCmp.rel]
  obtain ⟨fieldType, isType⟩ : ∃ fieldType, target.type = fieldType := ⟨_, rfl⟩
  rw [isType] at fits
  subst fits
  cases fieldType with
  | ip | time => cases integer
  | uint64 => exact ⟨.w8, by simp [isType], by rw [isType]; rfl, compiled .w8 rfl⟩
  | uint32 => exact ⟨.w4, by simp [isType], by rw [isType]; rfl, compiled .w4 rfl⟩
  | uint16 => exact ⟨.w2, by simp [isType], by rw [isType]; rfl, compiled .w2 rfl⟩
  | uint8 => exact ⟨.w1, by simp [isType], by rw [isType]; rfl, compiled .w1 rfl⟩

theorem operEval_uint (record : Record) (behind : Behind) {width : UiWidth}
    (noAddress : target.type ≠ .ip) (bits : target.type.bits = 8 * width.bytes) (rel : AttrRel) :
    0 < operEval (dataFunc record (behind (some target)) (some target)) evalBufMax
        (.of rel width.kind) (.uint width ui) ↔ rel.holds (record target).toNat ui.toNat := by
  have read : readUi (dataFunc record (behind (some target)) (some target)) evalBufMax width.kind =
      some (record target).toNat := by
    rw [← load_dataFunc noAddress bits]
    cases width <;> rfl
  simp only [operEval, operEvalUi, read, truth_pos]

/-- A test of bits holds when all bits of the literal are set. -/
theorem BitTest.holds_iff (test : BitTest field value target ui) (conv : Conversions)
    (record : Record) (behind : Behind) :
    LeafHolds conv record behind (.compare field .isset value) ↔
      (record target).toNat &&& ui.toNat = ui.toNat := by
  obtain ⟨width, noAddress, bits, made⟩ := test.newLeaf conv (.other 0)
  rw [leafHolds_iff made, evalNode]
  exact operEval_uint record behind noAddress bits .is

/-- `not` in front of it holds when none is. -/
theorem BitTest.avoids_iff (test : BitTest field value target ui) (conv : Conversions)
    (record : Record) (behind : Behind) :
    LeafAvoids conv record behind (.compare field .isset value) ↔
      (record target).toNat &&& ui.toNat = 0 := by
  obtain ⟨width, noAddress, bits, made⟩ := test.newLeaf conv (.other 0)
  rw [show (record target).toNat &&& ui.toNat = 0 ↔ _ from
    (operEval_uint record behind noAddress bits .ins).symm]
  constructor
  · rintro ⟨kind, id, literal, isLeaf, avoids⟩
    cases made.symm.trans isLeaf
    exact avoids
  · exact fun avoids => ⟨_, _, _, made, avoids⟩

/-- `not` negates a test of bits exactly for literals that are one flag. -/
theorem not_bits_iff (test : BitTest field value target ui) (conv : Conversions) :
    (∀ record behind,
        Means conv record behind (.not (.leaf (.compare field .isset value))) ↔
          ¬ Means conv record behind (.leaf (.compare field .isset value))) ↔
      OneFlag target.type.bits ui.toNat := by
  rw [← avoids_iff_not_contains]
  have meaning : ∀ record behind,
      (Means conv record behind (.not (.leaf (.compare field .isset value))) ↔
        ¬ Means conv record behind (.leaf (.compare field .isset value))) ↔
      ((record target).toNat &&& ui.toNat = 0 ↔
        ¬ (record target).toNat &&& ui.toNat = ui.toNat) := by
    intro record behind
    rw [← test.holds_iff conv record behind, ← test.avoids_iff conv record behind]
    rfl
  constructor
  · intro negates v small
    have value := (meaning (recordWith target (BitVec.ofNat _ v)) (fun _ _ => 0)).mp (negates _ _)
    simpa [Nat.mod_eq_of_lt small] using value
  · exact fun flags record behind => (meaning record behind).mpr (flags _ (record target).isLt)

end Bits

/-- `TCP_FLAGS & 18`. -/
theorem not_bits_iff_tcpFlags :
    (∀ record behind,
        Means noConversions record behind
            (.not (.leaf (.compare (.ident "TCP_FLAGS".toList) .isset
              (.consistent (.string (.string "18".toList)))))) ↔
          ¬ Means noConversions record behind
            (.leaf (.compare (.ident "TCP_FLAGS".toList) .isset
              (.consistent (.string (.string "18".toList)))))) ↔
      OneFlag (Field.unirec .tcpFlags).type.bits (18 : BitVec 64).toNat :=
  not_bits_iff
    ⟨⟨.uint8, by decide +kernel, trivial⟩, by decide, by decide +kernel⟩ noConversions

/-! ### Whole expressions -/

/-- What an expression says in the logic of its words. -/
def Asserts (conv : Conversions) (record : Record) (behind : Behind) : FilterExpr → Prop
  | .any => True
  | .not inner => ¬ Asserts conv record behind inner
  | .and left right => Asserts conv record behind left ∧ Asserts conv record behind right
  | .or left right => Asserts conv record behind left ∨ Asserts conv record behind right
  | .paren inner => Asserts conv record behind inner
  | .leaf condition => LeafHolds conv record behind condition

/-- The tests of bits among the leaves of an expression have literals that are one flag. -/
def OneFlagTests (expr : FilterExpr) : Prop :=
  ∀ field value, .compare field .isset value ∈ expr.leaves →
    ∃ target ui, BitTest field value target ui ∧ OneFlag target.type.bits ui.toNat

section Expressions

variable {conv : Conversions} {record : Record} {behind : Behind}

variable (conv record behind) in
/-- What a test of bits below `not`s says. -/
theorem asserts_bitTest {expr : FilterExpr} {condition : FilterLeaf} {even : Bool}
    (isTest : bitTest expr = some (condition, even)) :
    TestsBits condition = true ∧ condition ∈ expr.leaves ∧
      (Asserts conv record behind expr ↔
        if even then LeafHolds conv record behind condition
        else ¬ LeafHolds conv record behind condition) := by
  induction expr generalizing even with
  | leaf other =>
      rw [bitTest] at isTest
      split at isTest
      · rename_i bits
        cases isTest
        exact ⟨bits, List.mem_singleton_self _, by simp [Asserts]⟩
      · cases isTest
  | paren inner ih => exact ih isTest
  | not inner ih =>
      obtain ⟨⟨other, parity⟩, isInner, same⟩ := Option.map_eq_some_iff.mp isTest
      cases same
      obtain ⟨bits, member, asserts⟩ := ih isInner
      refine ⟨bits, member, ?_⟩
      rw [Asserts, asserts]
      cases parity <;> simp
  | _ => cases isTest

theorem OneFlagTests.left {first second expr : FilterExpr}
    (same : expr.leaves = first.leaves ++ second.leaves) (flags : OneFlagTests expr) :
    OneFlagTests first := fun field value member =>
  flags field value (same ▸ List.mem_append_left _ member)

theorem OneFlagTests.right {first second expr : FilterExpr}
    (same : expr.leaves = first.leaves ++ second.leaves) (flags : OneFlagTests expr) :
    OneFlagTests second := fun field value member =>
  flags field value (same ▸ List.mem_append_right _ member)

/-- With literals that are one flag an expression means what it says. -/
theorem means_iff_asserts {expr : FilterExpr} (flags : OneFlagTests expr) :
    Means conv record behind expr ↔ Asserts conv record behind expr := by
  induction expr with
  | any => rfl
  | leaf condition => rfl
  | paren inner ih => exact ih flags
  | and left right ihLeft ihRight =>
      exact and_congr (ihLeft (flags.left rfl)) (ihRight (flags.right rfl))
  | or left right ihLeft ihRight =>
      exact or_congr (ihLeft (flags.left rfl)) (ihRight (flags.right rfl))
  | not inner ih =>
      cases test : bitTest inner with
      | none =>
          simp only [Means, test]
          exact not_congr (ih flags)
      | some found =>
          obtain ⟨condition, even⟩ := found
          obtain ⟨bits, member, asserts⟩ := asserts_bitTest conv record behind test
          rw [Asserts, asserts]
          cases even with
          | false => simp only [Means, test, Bool.false_eq_true, ↓reduceIte, not_not]
          | true =>
              simp only [Means, test, ↓reduceIte]
              cases condition with
              | compare field cmp value =>
                  cases cmp with
                  | isset =>
                      obtain ⟨target, ui, isTest, flag⟩ := flags field value member
                      rw [isTest.avoids_iff, isTest.holds_iff]
                      exact avoids_iff_not_contains.mpr flag _ (record target).isLt
                  | _ => cases bits
              | _ => cases bits

/-- A filter whose tests of bits are for one flag each forwards the records its expression is true
of. -/
theorem forwards_iff_asserts {fresh : Nat → Opcode} (clean : Clean fresh) {body : Str}
    {expr : FilterExpr} (parsed : ff3gParse (filterTokens (cStr body)) = some (some expr))
    (flags : OneFlagTests expr) {root : Option FilterNode}
    (init : ff3Init conv fresh body = .root root) (record : Record) (behind : Behind) :
    ff3Eval record behind root ≠ 0 ↔ Asserts conv record behind expr := by
  rw [← means_iff_asserts flags]
  exact forwards_of_parsed clean parsed init record behind

end Expressions

/-- `TCP_FLAGS & 2`. -/
def synSet : FilterExpr :=
  .leaf (.compare (.ident "TCP_FLAGS".toList) .isset (.consistent (.string (.string "2".toList))))

theorem forwards_iff_asserts_synSet :
    ∃ root, ff3Init noConversions zeroed "not TCP_FLAGS & 2".toList = .root root ∧
      ∀ record behind, ff3Eval record behind root ≠ 0 ↔
        Asserts noConversions record behind (.not synSet) := by
  have tokens :
      filterTokens (cStr "not TCP_FLAGS & 2".toList) = (FilterExpr.not synSet).tokens := by
    decide +kernel
  have parsed :
      ff3gParse (filterTokens (cStr "not TCP_FLAGS & 2".toList)) = some (some (.not synSet)) :=
    tokens ▸ ff3gParse_nested ⟨trivial, trivial⟩
  obtain ⟨root, init⟩ : ∃ root,
      ff3Init noConversions zeroed "not TCP_FLAGS & 2".toList = .root root :=
    exists_root (by decide +kernel)
  have flags : OneFlagTests (.not synSet) := by
    intro field value member
    cases List.mem_singleton.mp member
    have test : BitTest (.ident "TCP_FLAGS".toList)
        (.consistent (.string (.string "2".toList))) (.unirec .tcpFlags) 2 :=
      ⟨⟨.uint8, by decide +kernel, trivial⟩, by decide, by decide +kernel⟩
    exact ⟨.unirec .tcpFlags, 2, test, Or.inl ⟨1, by decide, rfl⟩⟩
  exact ⟨root, init, forwards_iff_asserts clean_zeroed parsed flags init⟩

/-! ### `not` in front of other nodes -/

/-- The root of an expression is a node that compares nothing itself. -/
def NoComparison : FilterExpr → Bool
  | .leaf (.compare _ _ _) => false
  | .not _ => false
  | .paren inner => NoComparison inner
  | _ => true

theorem evalNode_setOpcode {node : FilterNode}
    (noComparison : ∀ opcode id literal, node ≠ .compare opcode id literal) (opcode : Opcode)
    (record : Record) (behind : Behind) :
    evalNode record behind (node.setOpcode opcode) = evalNode record behind node := by
  cases node with
  | compare opcode id literal => exact absurd rfl (noComparison opcode id literal)
  | _ => rfl

section Dropped

variable {conv : Conversions} {fresh : Nat → Opcode} {expr : FilterExpr} {count count' : Nat}
  {node : FilterNode}

/-- Such a root has the opcode of the node that was given out last. -/
theorem compile_fresh (noComparison : NoComparison expr = true)
    (compiled : compile conv fresh expr count = some (node, count')) :
    ∃ last, count' = last + 1 ∧ node.opcode = fresh last ∧
      ∀ opcode id literal, node ≠ .compare opcode id literal := by
  induction expr generalizing count count' node with
  | any =>
      cases compiled
      exact ⟨count, rfl, rfl, fun _ _ _ same => by cases same⟩
  | not inner ih => cases noComparison
  | paren inner ih => exact ih noComparison compiled
  | and left right ihLeft ihRight | or left right ihLeft ihRight =>
      obtain ⟨⟨leftNode, middle⟩, isLeft, found⟩ := Option.bind_eq_some_iff.mp compiled
      obtain ⟨⟨rightNode, last⟩, isRight, same⟩ := Option.map_eq_some_iff.mp found
      cases same
      exact ⟨last, rfl, rfl, fun _ _ _ same => by cases same⟩
  | leaf condition =>
      obtain ⟨made, isMade, same⟩ := Option.map_eq_some_iff.mp compiled
      cases same
      refine ⟨count, rfl, ?_⟩
      cases condition with
      | exist field =>
          obtain ⟨found, _, rfl⟩ := Option.map_eq_some_iff.mp isMade
          exact ⟨rfl, fun _ _ _ same => by cases same⟩
      | compare field cmp value => cases noComparison
      | among field list =>
          obtain ⟨⟨type, id⟩, _, found⟩ := Option.bind_eq_some_iff.mp isMade
          obtain ⟨items, _, rfl⟩ := Option.map_eq_some_iff.mp found
          exact ⟨rfl, fun _ _ _ same => by cases same⟩
      | bare name => cases isMade

/-- `not` in front of a node that compares nothing negates its verdict when it makes a node. -/
theorem newNot_negates (other : ∀ opcode id literal, node ≠ .compare opcode id literal)
    (record : Record) (behind : Behind) :
    (0 < evalNode record behind (newNot fresh count node).1 ↔ ¬ 0 < evalNode record behind node) ↔
      ff3Negate node.opcode = none := by
  rw [newNot]
  cases neg : ff3Negate node.opcode with
  | none =>
      dsimp only
      rw [evalNode, truth_pos]
      exact iff_of_true Int.not_lt.symm rfl
  | some opcode =>
      dsimp only
      rw [evalNode_setOpcode other]
      exact iff_of_false iff_not_self (by simp)

/-- `not` in front of a conjunction, a disjunction, `any`, a list or `exist` negates its verdict
when the memory of its node held no opcode that can be negated, and has no effect otherwise. -/
theorem not_honoured_iff (noComparison : NoComparison expr = true) {negated : FilterNode}
    (compiled : compile conv fresh (.not expr) count = some (negated, count')) :
    ∃ node last, compile conv fresh expr count = some (node, last + 1) ∧
      ∀ record behind,
        ((0 < evalNode record behind negated ↔ ¬ 0 < evalNode record behind node) ↔
          ff3Negate (fresh last) = none) := by
  obtain ⟨⟨node, given⟩, isNode, same⟩ := Option.map_eq_some_iff.mp compiled
  obtain ⟨last, rfl, isFresh, other⟩ := compile_fresh noComparison isNode
  refine ⟨node, last, isNode, fun record behind => ?_⟩
  have isNegated : (newNot fresh (last + 1) node).1 = negated := congrArg Prod.fst same
  rw [← isFresh, ← isNegated]
  exact newNot_negates other record behind

/-- The other opcode of an opcode has one itself. -/
theorem ff3Negate_ne_none {opcode neg : Opcode} (made : ff3Negate opcode = some neg) :
    ff3Negate neg ≠ none := by
  obtain ⟨rel, kind⟩ | code := opcode
  · cases rel <;> cases made <;> simp [ff3Negate]
  · cases made

/-- What `times` negations in front of `node` have made: the first `done` of them count, and the
one after them, if there is one, found an opcode to write over. -/
structure Negated (fresh : Nat → Opcode) (node : FilterNode) (last times done : Nat)
    (negated : FilterNode) (count : Nat) : Prop where
  other : ∀ opcode id literal, negated ≠ .compare opcode id literal
  plain : ∀ i < done, ff3Negate (fresh (last + i)) = none
  verdict : ∀ record behind,
    0 < evalNode record behind negated ↔ Not^[done] (0 < evalNode record behind node)
  stage : (done = times ∧ negated.opcode = fresh (last + times) ∧ count = last + times + 1) ∨
    (done < times ∧ ff3Negate (fresh (last + done)) ≠ none ∧ ff3Negate negated.opcode ≠ none)

/-- One more negation. -/
theorem Negated.step {last times done : Nat} {negated : FilterNode}
    (sofar : Negated fresh node last times done negated count) :
    ∃ done', Negated fresh node last (times + 1) done' (newNot fresh count negated).1
      (newNot fresh count negated).2 := by
  cases neg : ff3Negate negated.opcode with
  | none =>
      -- the opcode of a node that was written over can be negated
      obtain ⟨rfl, isFresh, rfl⟩ | ⟨_, _, negatable⟩ := sofar.stage
      · refine ⟨done + 1, ?_⟩
        simp only [newNot, neg]
        refine ⟨fun _ _ _ => FilterNode.noConfusion, ?_, ?_, .inl ⟨rfl, rfl, rfl⟩⟩
        · intro i small
          obtain earlier | rfl := Nat.lt_succ_iff_lt_or_eq.mp small
          · exact sofar.plain i earlier
          · exact isFresh ▸ neg
        · intro record behind
          rw [Function.iterate_succ_apply', ← sofar.verdict, evalNode, truth_pos]
          exact Int.not_lt.symm
      · exact absurd neg negatable
  | some opcode =>
      refine ⟨done, ?_⟩
      simp only [newNot, neg]
      refine ⟨?_, sofar.plain, ?_, .inr ?_⟩
      · intro opcode id literal same
        cases isNode : negated with
        | compare => exact sofar.other _ _ _ isNode
        | _ => rw [isNode] at same; cases same
      · intro record behind
        rw [evalNode_setOpcode sofar.other]
        exact sofar.verdict record behind
      · have written : ff3Negate (negated.setOpcode opcode).opcode ≠ none := by
          have isOpcode : (negated.setOpcode opcode).opcode = opcode := by cases negated <;> rfl
          rw [isOpcode]
          exact ff3Negate_ne_none neg
        obtain ⟨rfl, isFresh, _⟩ | ⟨less, negatable, _⟩ := sofar.stage
        · exact ⟨Nat.lt_succ_self _, by rw [← isFresh, neg]; simp, written⟩
        · exact ⟨Nat.lt_succ_of_lt less, negatable, written⟩

theorem negated_of_compile (noComparison : NoComparison expr = true) (times : Nat)
    {negated : FilterNode}
    (compiled : compile conv fresh (FilterExpr.not^[times] expr) count = some (negated, count')) :
    ∃ node last, compile conv fresh expr count = some (node, last + 1) ∧
      ∃ done, Negated fresh node last times done negated count' := by
  induction times generalizing negated count' with
  | zero =>
      obtain ⟨last, rfl, isFresh, other⟩ := compile_fresh noComparison compiled
      exact ⟨negated, last, compiled, 0, ⟨other, fun i less => absurd less (Nat.not_lt_zero i),
        fun _ _ => Iff.rfl, .inl ⟨rfl, isFresh, rfl⟩⟩⟩
  | succ times ih =>
      rw [Function.iterate_succ_apply'] at compiled
      obtain ⟨⟨inner, given⟩, isInner, same⟩ := Option.map_eq_some_iff.mp compiled
      obtain ⟨node, last, isNode, done, sofar⟩ := ih isInner
      obtain ⟨done', next⟩ := sofar.step
      have isNegated : newNot fresh given inner = (negated, count') := same
      rw [isNegated] at next
      exact ⟨node, last, isNode, done', next⟩

theorem iterate_not_iff (times : Nat) (verdict : Prop) :
    (verdict ↔ Not^[times] verdict) ↔ times % 2 = 0 := by
  induction times with
  | zero => exact iff_of_true Iff.rfl rfl
  | succ times ih =>
      have next : (verdict ↔ Not^[times + 1] verdict) ↔ ¬ (verdict ↔ Not^[times] verdict) := by
        rw [Function.iterate_succ_apply']
        exact iff_comm.trans (not_iff.symm.trans (not_congr iff_comm))
      rw [next, ih]
      omega

/-- Of negations one in front of the other, those count that come before the first whose operand was
given memory with an opcode that can be negated. All of them are honoured just when the number of
the others is even. -/
theorem nots_honoured_iff (noComparison : NoComparison expr = true) (times : Nat)
    {negated : FilterNode}
    (compiled : compile conv fresh (FilterExpr.not^[times] expr) count = some (negated, count')) :
    ∃ node last done, compile conv fresh expr count = some (node, last + 1) ∧
      done ≤ times ∧ (∀ i < done, ff3Negate (fresh (last + i)) = none) ∧
      (done < times → ff3Negate (fresh (last + done)) ≠ none) ∧
      ∀ record behind,
        ((0 < evalNode record behind negated ↔ Not^[times] (0 < evalNode record behind node)) ↔
          (times - done) % 2 = 0) := by
  obtain ⟨node, last, isNode, done, sofar⟩ := negated_of_compile noComparison times compiled
  have few : done ≤ times ∧ (done < times → ff3Negate (fresh (last + done)) ≠ none) := by
    obtain ⟨rfl, _⟩ | ⟨less, negatable, _⟩ := sofar.stage
    · exact ⟨Nat.le_refl _, fun less => absurd less (Nat.lt_irrefl _)⟩
    · exact ⟨Nat.le_of_lt less, fun _ => negatable⟩
  refine ⟨node, last, done, isNode, few.1, sofar.plain, few.2, fun record behind => ?_⟩
  rw [sofar.verdict, ← iterate_not_iff (times - done), ← Function.iterate_add_apply,
    Nat.sub_add_cancel few.1]

end Dropped

/-- Memory that holds `FFAT_IS_UI8` throughout. -/
def leftover : Nat → Opcode := fun _ => .of .is .ui8

/-- `not (PACKETS > 5 and TTL < 3)`, by the tree of its tokens. -/
def notBoth : FilterExpr :=
  .paren (.and
    (.leaf (.compare (.ident "PACKETS".toList) .gt (.consistent (.string (.string "5".toList)))))
    (.leaf (.compare (.ident "TTL".toList) .lt (.consistent (.string (.string "3".toList))))))

theorem not_honoured_iff_notBoth :
    ∃ node last, compile noConversions leftover notBoth 0 = some (node, last + 1) ∧
      ∃ negated, ∀ record behind,
        ((0 < evalNode record behind negated ↔ ¬ 0 < evalNode record behind node) ↔
          ff3Negate (leftover last) = none) := by
  obtain ⟨⟨negated, count⟩, compiled⟩ := Option.isSome_iff_exists.mp
    (show (compile noConversions leftover (.not notBoth) 0).isSome = true by decide +kernel)
  obtain ⟨node, last, isNode, honoured⟩ := not_honoured_iff rfl compiled
  exact ⟨node, last, isNode, negated, honoured⟩

/-- Of `not` twice in front of `notBoth` the first finds an opcode at once, and the second makes up
for it. -/
theorem nots_honoured_iff_twice :
    ∃ node last negated count,
      compile noConversions leftover notBoth 0 = some (node, last + 1) ∧
      compile noConversions leftover (FilterExpr.not^[2] notBoth) 0 = some (negated, count) ∧
      ∀ record behind,
        (0 < evalNode record behind negated ↔ Not^[2] (0 < evalNode record behind node)) := by
  obtain ⟨⟨negated, count⟩, compiled⟩ := Option.isSome_iff_exists.mp
    (show (compile noConversions leftover (FilterExpr.not^[2] notBoth) 0).isSome = true by
      decide +kernel)
  obtain ⟨node, last, done, isNode, few, plain, _, honoured⟩ := nots_honoured_iff rfl 2 compiled
  have none : done = 0 := by
    by_contra some
    exact absurd (plain 0 (Nat.pos_of_ne_zero some))
      (show ff3Negate (.of .is .ui8) ≠ none by decide)
  subst none
  exact ⟨node, last, negated, count, isNode, compiled,
    fun record behind => (honoured record behind).mpr rfl⟩

end Policer.Filter
