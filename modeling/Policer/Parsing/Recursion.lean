import Policer.Parsing.BodyLayout

/-!
# Rules that use themselves

No parser gives back more text than it has got. The rules of branches use themselves only behind
the word `branch`, so that they are what their definitions say (`branchAfter_eq`,
`mainBranch_eq`), however deep branches lie in each other.
-/

namespace Policer.Parsing

open Policer.Lib.Expectation Rules

/-! ### Parsers of the library -/

section Library

variable {α : Type} {text rest : Str}

theorem reads_preSkip {parser : Parser Char α} {least : Nat} (reads : parser.Reads least) :
    (preSkip parser).Reads least := by
  intro text value rest matched
  have inside := reads (preSkip_eq_matched.mp matched).2
  have skipped := (List.dropWhile_suffix (l := text) space).length_le
  omega

theorem reads_lit (c : Char) : (lit c).Reads 1 := by
  refine reads_preSkip fun text value rest matched => ?_
  split at matched
  · cases matched
  · split at matched
    · cases matched
      simp
    · cases matched

theorem reads_litString (stored : Str) : (litString stored).Reads stored.length := by
  refine reads_preSkip fun text value rest matched => ?_
  split at matched
  · rename_i isPrefix
    cases matched
    have short := (List.isPrefixOf_iff_prefix.mp isPrefix).length_le
    rw [List.length_drop]
    omega
  · cases matched

theorem reads_symbols (table : List (Str × α)) : (symbols table).Reads 0 := by
  refine reads_preSkip fun text value rest matched => ?_
  split at matched
  · cases matched
  · cases matched
    rw [List.length_drop]
    omega

theorem reads_identifier : identifier.Reads 0 := by
  refine reads_preSkip fun text value rest matched => ?_
  dsimp only at matched
  split at matched
  · cases matched
    rw [List.length_drop]
    omega
  · cases matched

theorem extractDigits_suffix {digits : Str} (found : extractDigits text = some (digits, rest)) :
    rest <:+ text := by
  rw [extractDigits] at found
  split at found
  · cases found
  · cases found
    exact List.dropWhile_suffix _

theorem reads_uint : uint_.Reads 0 := by
  refine reads_preSkip fun text value rest matched => ?_
  split at matched
  · cases matched
  · rename_i digits behind found
    dsimp only at matched
    split at matched
    · cases matched
      exact (extractDigits_suffix found).length_le
    · cases matched

theorem reads_charBut (stop : Char) : (charBut stop).Reads 0 := by
  intro text value rest matched
  unfold charBut at matched
  split at matched
  · split at matched
    · cases matched
    · cases matched
      exact Nat.le_succ _
  · cases matched
  · cases matched
  · cases matched

theorem parseNan_suffix (text : Str) : (parseNan text).2 <:+ text := by
  unfold parseNan
  split
  · exact List.suffix_refl _
  · rename_i behind found
    have inside := stringParse_suffix found
    split
    · exact inside
    · rename_i c after skipped
      have closed : c :: after <:+ behind := skipped ▸ List.dropWhile_suffix _
      exact ((List.suffix_cons c after).trans closed).trans ((List.suffix_cons _ _).trans inside)
  · rename_i found
    exact stringParse_suffix found

theorem parseInf_suffix (found : parseInf text = some rest) : rest <:+ text := by
  obtain ⟨behind, isInf, rfl⟩ := Option.map_eq_some_iff.mp found
  have inside := stringParse_suffix isInf
  cases long : stringParse "inity".toList "INITY".toList behind with
  | none => exact inside
  | some after => exact (stringParse_suffix long).trans inside

theorem parseSpecial_suffix (negative : Bool) (text : Str) :
    (parseSpecial negative text).2 <:+ text := by
  have first := parseNan_suffix text
  unfold parseSpecial
  split
  · rename_i isNan
    rw [isNan] at first
    exact first
  · rename_i behind isNan
    rw [isNan] at first
    split
    · rename_i isInf
      exact (parseInf_suffix isInf).trans first
    · exact first

theorem extractSign_suffix (text : Str) : (extractSign text).2 <:+ text := by
  unfold extractSign
  split
  · exact List.suffix_cons ..
  · exact List.suffix_cons ..
  · exact List.suffix_refl _

theorem extractInt_suffix {value : Int} (found : extractInt text = some (value, rest)) :
    rest <:+ text := by
  obtain ⟨⟨digits, behind⟩, isDigits, isInt⟩ := Option.bind_eq_some_iff.mp found
  have same := (Option.ite_none_right_eq_some.mp isInt).2
  cases same
  exact (extractDigits_suffix isDigits).trans (extractSign_suffix text)

theorem parseExponent_suffix {exponent : Option Int}
    (found : parseExponent text = some (exponent, rest)) : rest <:+ text := by
  unfold parseExponent at found
  split at found
  · cases found
    exact List.suffix_refl _
  · rename_i c behind
    split at found
    · obtain ⟨⟨value, after⟩, isInt, same⟩ := Option.map_eq_some_iff.mp found
      cases same
      exact (extractInt_suffix isInt).trans (List.suffix_cons ..)
    · cases found
      exact List.suffix_refl _

theorem finishReal_suffix {negative : Bool} {digits fraction : Str} {value : Double}
    (reads : finishReal negative digits fraction text = .matched value rest) : rest <:+ text := by
  unfold finishReal at reads
  split at reads
  · cases reads
  · rename_i found
    obtain ⟨_, _, rfl⟩ := scale_eq_matched reads
    exact parseExponent_suffix found
  · rename_i behind found
    have inside := parseExponent_suffix found
    split at reads
    · have special := parseSpecial_suffix negative behind
      split at reads
      · rename_i isSpecial
        cases reads
        exact (isSpecial ▸ special).trans inside
      · rename_i isSpecial
        cases reads
        exact (isSpecial ▸ special).trans inside
    · obtain ⟨_, _, rfl⟩ := scale_eq_matched reads
      exact inside

theorem reads_double : double_.Reads 0 := by
  refine reads_preSkip fun text value rest matched => List.IsSuffix.length_le ?_
  refine List.IsSuffix.trans ?_ (extractSign_suffix text)
  unfold extractReal at matched
  dsimp only at matched
  split at matched
  · rename_i digits behind found
    have inside := (List.suffix_cons _ _).trans (extractDigits_suffix found)
    split at matched
    · rename_i isFraction
      exact ((finishReal_suffix matched).trans (extractDigits_suffix isFraction)).trans inside
    · exact (finishReal_suffix matched).trans inside
  · rename_i found
    exact (finishReal_suffix matched).trans (extractDigits_suffix found)
  · have special := parseSpecial_suffix (extractSign text).1 (extractSign text).2
    split at matched
    · rename_i isSpecial
      rw [isSpecial] at special
      cases matched
      exact special
    · rename_i behind isSpecial
      rw [isSpecial] at special
      split at matched
      · rename_i isFraction
        exact ((finishReal_suffix matched).trans (extractDigits_suffix isFraction)).trans
          ((List.suffix_cons _ _).trans special)
      · cases matched
    · cases matched

end Library

/-! ### Bodies of stages -/

section Bodies

open Lib.Expectation.Parser

variable {α : Type}

theorem reads_commaList {item : Parser Char α} (reads : item.Reads 0) : (commaList item).Reads 0 :=
  reads_andThen reads fun _ => reads_map (reads_expect (reads_many
    (reads_andThen (reads_lit ',').any fun _ => reads_expect reads)))

theorem reads_filterBody : filterBody.Reads 0 :=
  reads_andThen (reads_charBut _) fun _ => reads_map (reads_many (reads_charBut _))

theorem reads_grouperBody : grouperBody.Reads 0 :=
  reads_orElse (reads_map (reads_symbols _)) (reads_map (reads_commaList (reads_symbols _)))

theorem reads_assigned {small capital : Str} {value : Parser Char α} (reads : value.Reads 0) :
    (assigned small capital value).Reads 0 :=
  reads_andThen (reads_orElse (reads_litString _).any (reads_litString _).any) fun _ =>
    reads_andThen (reads_expect (reads_lit _).any) fun _ => reads_expect reads

theorem reads_inSeconds (seconds : Seconds) (plural singular : Str) :
    (inSeconds seconds plural singular).Reads 0 :=
  reads_andThen reads_uint fun _ =>
    reads_map (reads_orElse (reads_litString _).any (reads_litString _).any)

theorem reads_windowSeconds : windowSeconds.Reads 0 :=
  reads_orElse (reads_inSeconds ..) (reads_orElse (reads_inSeconds ..) (reads_inSeconds ..))

theorem reads_windowBody : windowBody.Reads 0 :=
  reads_andThen (reads_assigned (reads_symbols _)) fun _ =>
    reads_andThen (reads_expect (reads_lit _).any) fun _ =>
      reads_andThen (reads_expect (reads_assigned reads_windowSeconds)) fun _ =>
        reads_map (reads_expect (reads_optional (reads_andThen (reads_lit _).any fun _ =>
          reads_expect (reads_assigned reads_windowSeconds))))

theorem reads_aggrFuncType : aggrFuncType.Reads 0 :=
  reads_orElse
    (reads_map (reads_andThen (reads_symbols _) fun _ =>
      reads_andThen (reads_expect (reads_lit _).any) fun _ =>
        reads_andThen (reads_expect (reads_symbols _)) fun _ =>
          reads_map (reads_expect (reads_lit _).any)))
    (reads_map (reads_andThen (reads_symbols _) fun _ =>
      reads_andThen (reads_expect (reads_lit _).any) fun _ =>
        reads_andThen (reads_expect (reads_optional (reads_lit _).any)) fun _ =>
          reads_map (reads_expect (reads_lit _).any)))

theorem reads_aggregatorBody : aggregatorBody.Reads 0 :=
  reads_map (reads_commaList (reads_andThen reads_identifier fun _ =>
    reads_andThen (reads_expect (reads_lit _).any) fun _ =>
      reads_map (reads_expect reads_aggrFuncType)))

theorem reads_selOutput : selOutput.Reads 0 := by
  refine reads_orElse (reads_map (reads_symbols _)) (reads_orElse (reads_map ?_)
    (reads_map reads_identifier))
  rw [quotedText]
  exact reads_andThen (reads_lit _).any fun _ =>
    reads_andThen (reads_expect (reads_charBut _)) fun _ =>
      reads_andThen (reads_many (reads_charBut _)) fun _ =>
        reads_map (reads_expect (reads_lit _).any)

theorem reads_selBinaryExpr {table : List (Str × SelOptoken)} {operand_ : Parser Char SelOperand}
    (reads : operand_.Reads 0) : (selBinaryExpr table operand_).Reads 0 :=
  reads_andThen reads fun _ => reads_map (reads_expect (reads_many
    (reads_andThen (reads_symbols _) fun _ => reads_map (reads_expect reads))))

theorem reads_selExpressionUpTo : ∀ fuel, (selExpressionUpTo fuel).Reads 0
  | 0 => fun _ _ _ matched => nomatch matched
  | fuel + 1 => by
      have primary : (selPrimaryExpr (selExpressionUpTo fuel)).Reads 0 :=
        reads_orElse (reads_map reads_double) (reads_orElse
          (reads_map (reads_orElse (reads_map (reads_symbols _)) (reads_map reads_identifier)))
          (reads_andThen (reads_lit _).any fun _ =>
            reads_andThen (reads_expect (reads_selExpressionUpTo fuel)) fun _ =>
              reads_map (reads_expect (reads_lit _).any)))
      have unary : (selUnaryExpr (selExpressionUpTo fuel)).Reads 0 :=
        reads_orElse primary (reads_andThen (reads_symbols _) fun _ =>
          reads_map (reads_expect primary))
      exact reads_selBinaryExpr (reads_map (reads_selBinaryExpr unary))

theorem reads_selectorBody : selectorBody.Reads 0 :=
  reads_map (reads_commaList (reads_andThen reads_selOutput fun _ => reads_map (reads_expect
    (reads_optional (reads_andThen (reads_lit _).any fun _ =>
      reads_expect fun _ _ _ matched => reads_selExpressionUpTo _ matched)))))

theorem reads_heading {stored : Str} {body : Parser Char α} (reads : body.Reads 0) :
    (heading stored body).Reads 0 :=
  reads_andThen (reads_litString _).any fun _ =>
    reads_andThen (reads_expect (reads_lit _).any) fun _ =>
      reads_andThen (reads_expect reads) fun _ => reads_map (reads_expect (reads_lit _).any)

theorem reads_branchHead : branchHead.Reads 1 := by
  have word : (litString "branch".toList).Reads 1 := fun _ _ _ matched => by
    have all := reads_litString _ matched
    rw [show "branch".toList.length = 6 from rfl] at all
    omega
  exact reads_andThen word fun _ => reads_andThen (reads_expect reads_identifier) fun _ =>
    reads_map (reads_expect (reads_lit _).any)

end Bodies

/-! ### Branches -/

section Branches

variable {α β τ : Type} {answers : Nat → Answer}

theorem reads_braced {assemble : Identifier → α → β} {body : Rule Char α} (reads : body.Reads 0) :
    (braced assemble body).Reads 0 :=
  (Rule.reads_followedBy (Rule.reads_followedBy (Rule.reads_of reads_branchHead) reads)
    (Rule.reads_of (reads_lit '}'))).any

theorem braced_behind {assemble : Identifier → α → β} {body other : Rule Char α} {text : Str}
    (same : Rule.SameBelow text.length body other) (answered : Nat) :
    braced assemble body answered text = braced assemble other answered text :=
  Rule.followedBy_congr (Rule.followedBy_behind (Rule.reads_of reads_branchHead) same answered)

theorem guarded_branchAfter {succ : Rule Char τ} (reads : succ.Reads 0) :
    Rule.Guarded fun inner => braced (fun name (made : Identifier → BranchAfter τ) => made name)
      (branchAfterSucc succ inner) where
  reads inner := reads_braced (Rule.reads_orElse (Rule.reads_map inner) (Rule.reads_map reads))
  behind _ same := braced_behind (same.map.orElse (.refl _))

/-- A branch behind a stage holds a branch or what follows the stage. -/
theorem branchAfter_eq {succ : Rule Char τ} (reads : succ.Reads 0) :
    branchAfter succ =
      braced (fun name made => made name) (branchAfterSucc succ (branchAfter succ)) :=
  (guarded_branchAfter reads).fix_eq.symm

theorem reads_successor {succ : Rule Char τ} (reads : succ.Reads 0) : (successor succ).Reads 0 :=
  have branch : (branchAfter succ).Reads 0 := (guarded_branchAfter reads).reads_fix
  Rule.reads_orElse (Rule.reads_map reads)
    (Rule.reads_map (Rule.reads_followedBy branch (Rule.reads_plus branch)))

theorem reads_stageRule {stored : Str} {body : Parser Char α} {succ : Rule Char τ}
    {assemble : α → Successor τ → β} (inside : body.Reads 0) (reads : succ.Reads 0) :
    (stageRule answers stored body succ assemble).Reads 0 :=
  Rule.reads_onError (Rule.reads_followedBy (Rule.reads_of (reads_heading inside))
    (reads_successor reads))

theorem reads_selectorStage : (selectorStage answers).Reads 0 :=
  Rule.reads_onError (Rule.reads_of (Parser.reads_map (reads_heading reads_selectorBody)))

theorem reads_groupFilterStage : (groupFilterStage answers).Reads 0 :=
  reads_stageRule reads_filterBody reads_selectorStage

theorem reads_agStageSucc : (agStageSucc answers).Reads 0 :=
  Rule.reads_orElse (Rule.reads_map reads_groupFilterStage) (Rule.reads_map reads_selectorStage)

theorem reads_aggregatorStage : (aggregatorStage answers).Reads 0 :=
  reads_stageRule reads_aggregatorBody reads_agStageSucc

theorem reads_windowStage : (windowStage answers).Reads 0 :=
  reads_stageRule reads_windowBody (Rule.reads_orElse (Rule.reads_map reads_aggregatorStage)
    (Rule.reads_orElse (Rule.reads_map reads_groupFilterStage)
      (Rule.reads_map reads_selectorStage)))

theorem reads_grouperStage : (grouperStage answers).Reads 0 :=
  reads_stageRule reads_grouperBody (Rule.reads_orElse (Rule.reads_map reads_windowStage)
    (Rule.reads_orElse (Rule.reads_map reads_aggregatorStage)
      (Rule.reads_orElse (Rule.reads_map reads_groupFilterStage)
        (Rule.reads_map reads_selectorStage))))

theorem reads_filterStage : (filterStage answers).Reads 0 :=
  reads_stageRule reads_filterBody (Rule.reads_orElse (Rule.reads_map reads_grouperStage)
    (Rule.reads_orElse (Rule.reads_map reads_windowStage)
      (Rule.reads_orElse (Rule.reads_map reads_aggregatorStage)
        (Rule.reads_map reads_selectorStage))))

theorem reads_stage : (stage answers).Reads 0 :=
  Rule.reads_orElse (Rule.reads_map reads_filterStage)
    (Rule.reads_orElse (Rule.reads_map reads_grouperStage)
      (Rule.reads_orElse (Rule.reads_map reads_windowStage)
        (Rule.reads_orElse (Rule.reads_map reads_aggregatorStage)
          (Rule.reads_map reads_selectorStage))))

/-- `main_branch` is what its definition says. -/
theorem mainBranch_eq (answers : Nat → Answer) :
    mainBranch answers = braced MainBranch.mk (mainBranchBody answers (mainBranch answers)) := by
  have guarded : Rule.Guarded fun inner => braced MainBranch.mk (mainBranchBody answers inner) :=
    { reads := fun inner => reads_braced (Rule.reads_orElse (Rule.reads_map reads_stage)
        (Rule.reads_map (Rule.reads_plus inner)))
      behind := fun inner same => braced_behind
        (.orElse (.refl _) (Rule.SameBelow.plus inner same).map) }
  exact guarded.fix_eq.symm

end Branches

end Policer.Parsing
