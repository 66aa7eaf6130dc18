import Mathlib.Algebra.Group.Nat.Defs
import Policer.Lib.Recovery
import Policer.Parsing.Names
import Policer.Parsing.Parser

/-!
# The grammar of rule files

The rules of `main_branches_def.hpp` and of the stages. The rules of the stages and that of the
whole file have an error handler, which accepts the first failure it sees where the rule began.
`phraseParse_answers` says that a file is read alike whatever the handler answers.
-/

namespace Policer.Parsing.Rules

open Policer.Lib.Expectation

/-! ### Parsers of the library -/

/-- `lit` of a string. -/
def litString (stored : Str) : Parser Char Unit := preSkip fun text =>
  if stored.isPrefixOf text then .matched () (text.drop stored.length) else .noMatch

/-- `uint_`: it does not match a number that does not fit. -/
def uint_ : Parser Char UInt32 := preSkip fun text =>
  match extractDigits text with
  | none => .noMatch
  | some (digits, rest) =>
      let value := Nat.ofDigitChars 10 digits 0
      if value < 2 ^ 32 then .matched (UInt32.ofNat value) rest else .noMatch

/-- `item > *(',' > item)`. -/
def commaList {α : Type} (item : Parser Char α) : Parser Char (α × List α) :=
  item.andThen fun first =>
    ((lit ',').andThen fun _ => item.expect).many.expect.map fun rest => (first, rest)

/-! ### Bodies of stages -/

/-- `filter_body` and `group_filter_body`. -/
def filterBody : Parser Char Str :=
  (charBut ';').andThen fun first =>
    (charBut ';').many.map fun rest => first :: rest

/-- `grouper_case_keyword`. -/
def grouperCaseKeyword : List (Str × GrouperCase) := [("_bidirectional_".toList, .bidirectional)]

/-- `grouper_body`. -/
def grouperBody : Parser Char GrouperType :=
  ((symbols grouperCaseKeyword).map .special).orElse
    ((commaList (symbols inputKeyword)).map fun (first, rest) => .keys ⟨first, rest⟩)

/-- `window_type_keyword`. -/
def windowTypeKeyword : List (Str × WindowType) :=
  [("active".toList, .active), ("passive".toList, .passive), ("global".toList, .global),
    ("mixed".toList, .mixed)]

/-- A word in small or in capital letters, `=` and a value. -/
def assigned {α : Type} (small capital : Str) (value : Parser Char α) : Parser Char α :=
  ((litString small).orElse (litString capital)).andThen fun _ =>
    (lit '=').expect.andThen fun _ => value.expect

/-- `window_type`. -/
def windowType : Parser Char WindowType :=
  assigned "type".toList "TYPE".toList (symbols windowTypeKeyword)

/-- A number of units in seconds; the product wraps around. -/
def inSeconds (seconds : Seconds) (plural singular : Str) : Parser Char Seconds :=
  uint_.andThen fun value =>
    ((litString plural).orElse (litString singular)).map fun _ => value * seconds

/-- `window_seconds`. -/
def windowSeconds : Parser Char Seconds :=
  (inSeconds 1 "seconds".toList "second".toList).orElse
    ((inSeconds 60 "minutes".toList "minute".toList).orElse
      (inSeconds 3600 "hours".toList "hour".toList))

/-- `RANGE`. -/
def windowRange : Parser Char Seconds := assigned "range".toList "RANGE".toList windowSeconds

/-- `SLIDE`. -/
def windowSlide : Parser Char Seconds := assigned "slide".toList "SLIDE".toList windowSeconds

/-- `window_body`. -/
def windowBody : Parser Char WindowBody :=
  windowType.andThen fun type => (lit ',').expect.andThen fun _ =>
    windowRange.expect.andThen fun range =>
      ((lit ',').andThen fun _ => windowSlide.expect).optional.expect.map fun _ => ⟨type, range⟩

/-- `aggr_func_with_param_keyword`. -/
def aggrFuncWithParamKeyword : List (Str × AggrFuncWithParam) :=
  [("SUM".toList, .sum), ("AVG".toList, .average), ("MIN".toList, .minimal),
    ("MAX".toList, .maximal), ("FIRST".toList, .first), ("LAST".toList, .last),
    ("OR".toList, .or), ("AND".toList, .and), ("COUNT_DISTINCT".toList, .countDistinct),
    ("RATE".toList, .rate)]

/-- `aggr_func_without_param_keyword`. -/
def aggrFuncWithoutParamKeyword : List (Str × AggrFuncWithoutParam) := [("COUNT".toList, .count)]

/-- `aggr_func_with_param_s`. -/
def aggrFuncWithParamS : Parser Char AggrFuncWithParamS :=
  (symbols aggrFuncWithParamKeyword).andThen fun funcName => (lit '(').expect.andThen fun _ =>
    (symbols inputKeyword).expect.andThen fun param => (lit ')').expect.map fun _ =>
      ⟨funcName, param⟩

/-- `aggr_func_without_param`. -/
def aggrFuncWithoutParam : Parser Char AggrFuncWithoutParam :=
  (symbols aggrFuncWithoutParamKeyword).andThen fun func => (lit '(').expect.andThen fun _ =>
    (lit '*').optional.expect.andThen fun _ => (lit ')').expect.map fun _ => func

/-- `aggr_func_type`. -/
def aggrFuncType : Parser Char AggrFuncType :=
  (aggrFuncWithParamS.map .withParam).orElse (aggrFuncWithoutParam.map .withoutParam)

/-- `aggr_assignment`. -/
def aggrAssignment : Parser Char AggrAssignment :=
  identifier.andThen fun variableName => (lit '=').expect.andThen fun _ =>
    aggrFuncType.expect.map fun funcType => ⟨variableName, funcType⟩

/-- `aggregator_body`. -/
def aggregatorBody : Parser Char AggregatorBody :=
  (commaList aggrAssignment).map fun (first, rest) => ⟨first, rest⟩

/-- `selector_body`. -/
def selectorBody : Parser Char SelectorBody :=
  (commaList selAssignment).map fun (first, rest) => ⟨first, rest⟩

/-- The front of a stage: its word, `:`, its body and `;`. -/
def heading {α : Type} (stored : Str) (body : Parser Char α) : Parser Char α :=
  (litString stored).andThen fun _ => (lit ':').expect.andThen fun _ =>
    body.expect.andThen fun made => (lit ';').expect.map fun _ => made

/-! ### Branches -/

/-- `lit("branch") > identifier > '{'`. -/
def branchHead : Parser Char Identifier :=
  (litString "branch".toList).andThen fun _ => identifier.expect.andThen fun name =>
    (lit '{').expect.map fun _ => name

/-- A branch around what it may hold. -/
def braced {α β : Type} (assemble : Identifier → α → β) (body : Rule Char α) : Rule Char β :=
  ((Rule.of branchHead).followedBy assemble body).followedBy (fun made _ => made)
    (Rule.of (lit '}'))

section After

variable {τ : Type}

/-- The rules of the form `branch_after_fi_succ`. -/
def branchAfterSucc (succ : Rule Char τ) (inner : Rule Char (BranchAfter τ)) :
    Rule Char (Identifier → BranchAfter τ) :=
  (inner.map fun branch name => .branch name branch).orElse
    (succ.map fun stage name => .stage name stage)

/-- The rules of the form `branch_after_fi`. -/
def branchAfter (succ : Rule Char τ) : Rule Char (BranchAfter τ) :=
  Rule.fix fun inner => braced (fun name made => made name) (branchAfterSucc succ inner)

/-- The rules of the form `branch_after_fi_s`. -/
def branchAfterS (succ : Rule Char τ) : Rule Char (BranchAfterS τ) :=
  (branchAfter succ).followedBy BranchAfterS.mk (branchAfter succ).plus

/-- The rules of the form `filter_successor`. -/
def successor (succ : Rule Char τ) : Rule Char (Successor τ) :=
  (succ.map .stage).orElse ((branchAfterS succ).map .branches)

end After

/-! ### Stages -/

section Stages

variable (answers : Nat → Answer)

/-- A stage other stages follow: every such rule has a handler. -/
def stageRule {α β τ : Type} (stored : Str) (body : Parser Char α) (succ : Rule Char τ)
    (assemble : α → Successor τ → β) : Rule Char β :=
  ((Rule.of (heading stored body)).followedBy assemble (successor succ)).onError answers

/-- `selector_stage`. -/
def selectorStage : Rule Char SelectorStage :=
  (Rule.of ((heading "selector".toList selectorBody).map .mk)).onError answers

/-- `group_filter_stage`. -/
def groupFilterStage : Rule Char GroupFilterStage :=
  stageRule answers "group-filter".toList filterBody (selectorStage answers) .mk

/-- `ag_stage_succ`. -/
def agStageSucc : Rule Char AgStageSucc :=
  ((groupFilterStage answers).map .groupFilter).orElse ((selectorStage answers).map .selector)

/-- `aggregator_stage`. -/
def aggregatorStage : Rule Char AggregatorStage :=
  stageRule answers "aggregator".toList aggregatorBody (agStageSucc answers) .mk

/-- `wi_stage_succ`. -/
def wiStageSucc : Rule Char WiStageSucc :=
  ((aggregatorStage answers).map .aggregator).orElse
    (((groupFilterStage answers).map .groupFilter).orElse ((selectorStage answers).map .selector))

/-- `window_stage`. -/
def windowStage : Rule Char WindowStage :=
  stageRule answers "window".toList windowBody (wiStageSucc answers) .mk

/-- `gr_stage_succ`. -/
def grStageSucc : Rule Char GrStageSucc :=
  ((windowStage answers).map .window).orElse
    (((aggregatorStage answers).map .aggregator).orElse
      (((groupFilterStage answers).map .groupFilter).orElse
        ((selectorStage answers).map .selector)))

/-- `grouper_stage`. -/
def grouperStage : Rule Char GrouperStage :=
  stageRule answers "grouper".toList grouperBody (grStageSucc answers) .mk

/-- `fi_stage_succ`. -/
def fiStageSucc : Rule Char FiStageSucc :=
  ((grouperStage answers).map .grouper).orElse
    (((windowStage answers).map .window).orElse
      (((aggregatorStage answers).map .aggregator).orElse
        ((selectorStage answers).map .selector)))

/-- `filter_stage`. -/
def filterStage : Rule Char FilterStage :=
  stageRule answers "filter".toList filterBody (fiStageSucc answers) .mk

/-- `stage`. -/
def stage : Rule Char Stage :=
  ((filterStage answers).map .filter).orElse
    (((grouperStage answers).map .grouper).orElse
      (((windowStage answers).map .window).orElse
        (((aggregatorStage answers).map .aggregator).orElse
          ((selectorStage answers).map .selector))))

/-! ### Main branches -/

/-- The elements of a vector of main branches. -/
def mainBranchVec : List MainBranch → MainBranchVec
  | [] => .nil
  | first :: rest => .cons first (mainBranchVec rest)

/-- `main_branch_body` around `main_branch`. -/
def mainBranchBody (mainBranch : Rule Char MainBranch) : Rule Char MainBranchBody :=
  ((stage answers).map .stage).orElse (mainBranch.plus.map fun items =>
    .branches (mainBranchVec items))

/-- `main_branch`. -/
def mainBranch : Rule Char MainBranch :=
  Rule.fix fun inner => braced MainBranch.mk (mainBranchBody answers inner)

/-- `main_branches`. -/
def mainBranches : Rule Char MainBranches :=
  ((mainBranch answers).followedBy (fun first rest => ⟨first, mainBranchVec rest⟩)
    (mainBranch answers).many).onError answers

/-- `phrase_parse`, which skips behind a match, and the test behind it. What is accepted after a
failure has no tree. -/
def phraseParse (text : Str) : Except Failure (Option MainBranches) :=
  match (mainBranches answers 0 text).1 with
  | .matched ast rest =>
      if skips rest then
        if (rest.dropWhile space).isEmpty then .ok ast else .error (.thrown .parser)
      else .error .aborted
  | .noMatch | .failed => .error (.thrown .parser)
  | .aborted => .error .aborted

end Stages

/-- `error_handler_base::on_error`: the flag `once` is set by the first failure. -/
def onError (answered : Nat) : Answer := if answered = 0 then .accept else .fail

/-! ### What a text starts with -/

/-- The first character behind white space is one of the letters. -/
def Starts (letters text : Str) : Prop := ∃ c ∈ letters, (text.dropWhile space).head? = some c

theorem Starts.mono {letters more text : Str} (starts : Starts letters text)
    (subset : ∀ c ∈ letters, c ∈ more) : Starts more text := by
  obtain ⟨c, member, first⟩ := starts
  exact ⟨c, subset c member, first⟩

theorem Starts.within {letters more text : Str} (starts : Starts letters text)
    (subset : letters.all more.contains = true) : Starts more text :=
  starts.mono fun c member => by simpa using List.all_eq_true.mp subset c member

/-- No letter is one of the others. -/
def areApart (letters others : Str) : Bool := letters.all fun c => !others.contains c

theorem notMem_of_areApart {letters others : Str} (disjoint : areApart letters others = true)
    {c : Char} (member : c ∈ letters) : c ∉ others := by
  simpa using List.all_eq_true.mp disjoint c member

theorem Starts.apart {letters others text : Str} (starts : Starts letters text)
    (disjoint : areApart letters others = true) : ¬ Starts others text := by
  rintro ⟨d, isOther, second⟩
  obtain ⟨c, member, first⟩ := starts
  rw [first] at second
  cases second
  exact notMem_of_areApart disjoint member isOther

/-- Behind white space a character comes that `ascii::isspace` may be asked about, or nothing. -/
abbrev Clear (text : Str) : Prop := skips text = true

theorem Starts.clear {letters text : Str} (starts : Starts letters text)
    (ascii : letters.all isAscii = true) : Clear text := by
  obtain ⟨c, member, first⟩ := starts
  rw [Clear, skips, first]
  exact List.all_eq_true.mp ascii c member

theorem litString_noMatch {c : Char} {word text : Str} (clear : Clear text)
    (none : ¬ Starts [c] text) : litString (c :: word) text = .noMatch := by
  rw [litString, preSkip_of_skips clear]
  refine if_neg fun starts => none ⟨c, List.mem_singleton_self c, ?_⟩
  obtain ⟨rest, whole⟩ := List.isPrefixOf_iff_prefix.mp starts
  rw [← whole]
  rfl

theorem lit_noMatch {c : Char} {text : Str} (clear : Clear text) (none : ¬ Starts [c] text) :
    lit c text = .noMatch := by
  rw [lit, preSkip_of_skips clear]
  split
  · rfl
  · rename_i d rest whole
    refine if_neg ?_
    rintro rfl
    exact none ⟨d, List.mem_singleton_self d, by rw [whole]; rfl⟩

/-- What starts with a word does not match elsewhere, or aborts. -/
theorem leads_word {α : Type} {c : Char} {word : Str} {next : Unit → Parser Char α} (text : Str)
    (none : ¬ Starts [c] text) :
    (litString (c :: word)).andThen next text = .noMatch ∨
      ¬ Clear text ∧ (litString (c :: word)).andThen next text = .aborted := by
  by_cases clear : Clear text
  · exact Or.inl (Parser.andThen_eq_noMatch_of_noMatch (litString_noMatch clear none))
  · exact Or.inr ⟨clear, Parser.andThen_eq_aborted_of_aborted (preSkip_of_not_skips clear)⟩

/-- The letters a rule with a handler starts with. -/
def stuckLetters : Str := "fgwasb".toList

/-- A text in front of which an expectation has failed. -/
abbrev Stuck (text : Str) : Prop := Starts stuckLetters text

theorem lit_noMatch_of_stuck {text : Str} (stuck : Stuck text) : lit '}' text = .noMatch :=
  lit_noMatch (stuck.clear (by decide)) (stuck.apart (by decide))

/-! ### Rules without and with answers -/

section Answers

variable {α τ : Type} {answers : Nat → Answer}

theorem leads_braced {β : Type} {assemble : Identifier → α → β} {body : Rule Char α} :
    (braced assemble body).Leads Clear (Starts "b".toList) :=
  Rule.leads_followedBy (Rule.leads_followedBy (Rule.leads_of leads_word))

theorem leads_branchAfterS {succ : Rule Char τ} :
    (branchAfterS succ).Leads Clear (Starts "b".toList) :=
  Rule.leads_followedBy fun answered text none => leads_braced answered text none

theorem agrees_braced {β : Type} {lead : Str → Prop} {assemble : Identifier → α → β}
    {body body' : Rule Char α} (tolerates : Rule.Tolerates lead Stuck body body') :
    Rule.Agrees (braced assemble body) (braced assemble body') := by
  refine (Rule.Agrees.followedBy (Rule.agrees_of branchHead) tolerates).closed
    (Rule.agrees_of (lit '}')) fun text stuck answered => ?_
  rw [Rule.of, Parser.map_eq_noMatch.mpr (lit_noMatch_of_stuck stuck)]

/-- A stage, or a choice of stages, without answers and with them. -/
structure Headed (letters : Str) (plain handled : Rule Char α) : Prop where
  ascii : letters.all isAscii = true
  leads : handled.Leads Clear (Starts letters)
  tolerates : Rule.Tolerates (Starts letters) Stuck plain handled

theorem Headed.map {β : Type} {letters : Str} {plain handled : Rule Char α} {f : α → β}
    (headed : Headed letters plain handled) : Headed letters (plain.map f) (handled.map f) :=
  ⟨headed.ascii, Rule.leads_map headed.leads, headed.tolerates.map⟩

theorem Headed.orElse {letters others : Str} {plain handled choice choice' : Rule Char α}
    (headed : Headed letters plain handled) (choices : Headed others choice choice')
    (disjoint : areApart letters others = true) :
    Headed (letters ++ others) (plain.orElse choice) (handled.orElse choice') where
  ascii := by rw [List.all_append, headed.ascii, choices.ascii]; rfl
  leads answered text none :=
    Rule.leads_orElse headed.leads choices.leads answered text fun starts =>
      none (starts.elim (fun here => here.mono fun _ => List.mem_append_left _)
        fun here => here.mono fun _ => List.mem_append_right _)
  tolerates answered answered' text :=
    (headed.tolerates.orElse choices.tolerates (fun text starts =>
      choices.leads.misses (starts.clear headed.ascii) (starts.apart disjoint))
        answered answered' text).mono
        fun starts => starts.elim (fun here => here.mono fun _ => List.mem_append_left _)
          fun here => here.mono fun _ => List.mem_append_right _

/-- What follows a stage: branches are read alike, and no stage is taken for a branch. -/
theorem Headed.successor {letters : Str} {succ succ' : Rule Char τ}
    (headed : Headed letters succ succ') (noBranch : areApart letters "b".toList = true) :
    Rule.Tolerates (fun text => Starts letters text ∨ False) Stuck (successor succ)
      (successor succ') := by
  have inside : ∀ {inner inner' : Rule Char (BranchAfter τ)}, Rule.Agrees inner inner' →
      Rule.Tolerates (fun text => False ∨ Starts letters text) Stuck (branchAfterSucc succ inner)
        (branchAfterSucc succ' inner') := fun agrees =>
    Rule.Tolerates.orElse (fun _ _ _ => (agrees.map _ _ _).sticks) headed.tolerates.map
      fun _ none => none.elim
  have branch : Rule.Agrees (branchAfter succ) (branchAfter succ') :=
    Rule.agrees_fix (fun _ => leads_braced) fun _ agrees => agrees_braced (inside agrees)
  have branches : Rule.Agrees (branchAfterS succ) (branchAfterS succ') :=
    branch.followedBy branch.plus
  refine headed.tolerates.map.orElse (fun _ _ _ => (branches.map _ _ _).sticks) ?_
  exact fun text starts => Rule.Leads.misses (Rule.leads_map leads_branchAfterS)
    (starts.clear headed.ascii) (starts.apart noBranch)

theorem leads_heading {c : Char} {stored : Str} {body : Parser Char α}
    (first : stored.head? = some c) :
    (Rule.of (heading stored body)).Leads Clear (Starts [c]) := by
  obtain ⟨word, rfl⟩ := List.head?_eq_some_iff.mp first
  exact Rule.leads_of leads_word

theorem headed_stageRule {β : Type} {c : Char} {letters stored : Str} {body : Parser Char α}
    {succ succ' : Rule Char τ} {assemble : α → Successor τ → β}
    (headed : Headed letters succ succ') (first : stored.head? = some c)
    (letter : stuckLetters.contains c = true) (noBranch : areApart letters "b".toList = true) :
    Headed [c] (stageRule (fun _ => .rethrow) stored body succ assemble)
      (stageRule answers stored body succ' assemble) where
  ascii := by
    have letters : stuckLetters.all isAscii = true := by decide
    simpa using List.all_eq_true.mp letters c (by simpa using letter)
  leads := Rule.leads_onError (Rule.leads_followedBy (leads_heading first))
  tolerates :=
    ((Rule.agrees_of (heading stored body)).followedBy (headed.successor noBranch)).onError
      (Rule.leads_followedBy (leads_heading first))
      fun text starts => starts.within (by simpa using letter)

theorem headed_selectorStage :
    Headed "s".toList (selectorStage fun _ => .rethrow) (selectorStage answers) := by
  have leads : (Rule.of ((heading "selector".toList selectorBody).map SelectorStage.mk)).Leads
      Clear (Starts "s".toList) := Rule.leads_of fun text none =>
    (leads_word text none).imp Parser.map_eq_noMatch.mpr
      (And.imp_right Parser.map_eq_aborted_of_aborted)
  refine ⟨rfl, Rule.leads_onError leads, Rule.Tolerates.onError
    (fun _ _ _ => (Rule.agrees_of _ _ _ _).sticks) leads fun text starts => ?_⟩
  exact starts.within (by decide)

theorem headed_groupFilterStage :
    Headed "g".toList (groupFilterStage fun _ => .rethrow) (groupFilterStage answers) :=
  headed_stageRule headed_selectorStage rfl (by decide) (by decide)

theorem headed_agStageSucc :
    Headed "gs".toList (agStageSucc fun _ => .rethrow) (agStageSucc answers) :=
  headed_groupFilterStage.map.orElse headed_selectorStage.map (by decide)

theorem headed_aggregatorStage :
    Headed "a".toList (aggregatorStage fun _ => .rethrow) (aggregatorStage answers) :=
  headed_stageRule headed_agStageSucc rfl (by decide) (by decide)

theorem headed_wiStageSucc :
    Headed "ags".toList (wiStageSucc fun _ => .rethrow) (wiStageSucc answers) :=
  headed_aggregatorStage.map.orElse
    (headed_groupFilterStage.map.orElse headed_selectorStage.map (by decide)) (by decide)

theorem headed_windowStage :
    Headed "w".toList (windowStage fun _ => .rethrow) (windowStage answers) :=
  headed_stageRule headed_wiStageSucc rfl (by decide) (by decide)

theorem headed_grStageSucc :
    Headed "wags".toList (grStageSucc fun _ => .rethrow) (grStageSucc answers) :=
  headed_windowStage.map.orElse (headed_aggregatorStage.map.orElse
    (headed_groupFilterStage.map.orElse headed_selectorStage.map (by decide)) (by decide))
    (by decide)

theorem headed_grouperStage :
    Headed "g".toList (grouperStage fun _ => .rethrow) (grouperStage answers) :=
  headed_stageRule headed_grStageSucc rfl (by decide) (by decide)

theorem headed_fiStageSucc :
    Headed "gwas".toList (fiStageSucc fun _ => .rethrow) (fiStageSucc answers) :=
  headed_grouperStage.map.orElse (headed_windowStage.map.orElse
    (headed_aggregatorStage.map.orElse headed_selectorStage.map (by decide)) (by decide))
    (by decide)

theorem headed_filterStage :
    Headed "f".toList (filterStage fun _ => .rethrow) (filterStage answers) :=
  headed_stageRule headed_fiStageSucc rfl (by decide) (by decide)

theorem headed_stage : Headed "fgwas".toList (stage fun _ => .rethrow) (stage answers) :=
  headed_filterStage.map.orElse (headed_grouperStage.map.orElse (headed_windowStage.map.orElse
    (headed_aggregatorStage.map.orElse headed_selectorStage.map (by decide)) (by decide))
    (by decide)) (by decide)

theorem leads_mainBranch : (mainBranch answers).Leads Clear (Starts "b".toList) :=
  fun answered text none => leads_braced answered text none

theorem agrees_mainBranch :
    Rule.Agrees (mainBranch fun _ => .rethrow) (mainBranch answers) := by
  have inside : ∀ {inner inner' : Rule Char MainBranch}, inner'.Leads Clear (Starts "b".toList) →
      Rule.Agrees inner inner' → Rule.Tolerates (fun text => Starts "fgwas".toList text ∨ False)
        Stuck (mainBranchBody (fun _ => .rethrow) inner) (mainBranchBody answers inner') := by
    intro inner inner' leads agrees
    refine headed_stage.tolerates.map.orElse (fun _ _ _ => (agrees.plus.map _ _ _).sticks) ?_
    exact fun text starts => Rule.Leads.misses (Rule.leads_map (Rule.leads_followedBy leads))
      (starts.clear (by decide)) (starts.apart (by decide))
  exact Rule.agrees_fix (fun _ => leads_braced) fun leads agrees =>
    agrees_braced (inside leads agrees)

theorem tolerates_mainBranches :
    Rule.Tolerates (Starts "b".toList) Stuck (mainBranches fun _ => .rethrow)
      (mainBranches answers) :=
  Rule.Tolerates.onError
    (fun _ _ _ => (agrees_mainBranch.followedBy agrees_mainBranch.many _ _ _).sticks)
    (Rule.leads_followedBy leads_mainBranch) fun _ starts => starts.within (by decide)

/-- Whether a file is accepted, and with which tree, does not depend on what the handler answers. -/
theorem phraseParse_answers (answers : Nat → Answer) (text : Str) :
    phraseParse answers text = phraseParse (fun _ => .rethrow) text ∧
      phraseParse answers text ≠ .ok none := by
  have here := @tolerates_mainBranches answers 0 0 text
  rw [phraseParse, phraseParse]
  generalize (mainBranches (fun _ => .rethrow) 0 text).1 = plain at here ⊢
  generalize (mainBranches answers 0 text).1 = handled at here ⊢
  cases here with
  | noMatch | failed | aborted | unmatched => simp
  | matched ast rest =>
      refine ⟨rfl, ?_⟩
      dsimp only
      split
      · split <;> simp
      · simp
  | @accepted rest stuck =>
      have clear := stuck.clear (by decide)
      obtain ⟨c, _, first⟩ := stuck
      cases skipped : rest.dropWhile space with
      | nil =>
          rw [skipped] at first
          cases first
      | cons d tail => simp [clear, skipped]

end Answers

/-- The tree of a rule file. -/
def syntaxTree (text : Str) : Except Failure MainBranches :=
  match phraseParse onError text with
  | .ok (some ast) => .ok ast
  | .ok none => .error (.thrown .parser)
  | .error failure => .error failure

end Policer.Parsing.Rules
