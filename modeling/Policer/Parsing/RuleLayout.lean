import Policer.Parsing.BodyLayout

/-!
# Layouts of rule files

The tokens of a rule file and the trees the grammar can make. `syntaxTree_of_laid` reads a file
off any layout of its tokens, and `exists_syntaxTree_iff` says which trees files have.
-/

namespace Policer.Parsing

open Policer.Lib.Expectation Rules

/-! ### Tokens and trees of the grammar -/

/-- The tokens of the front of a stage; `behind` stands directly behind the colon. -/
def headingTokens (stored behind : Str) (body : List Str) : List Str :=
  stored :: (':' :: behind) :: (body ++ [[';']])

/-- The tokens of a branch around those of what it holds. -/
def branchTokens (name : Identifier) (inside : List Str) : List Str :=
  "branch".toList :: name.text :: ['{'] :: (inside ++ [['}']])

section After

variable {τ : Type}

def BranchAfter.tokens (tokensOf : τ → List Str) : BranchAfter τ → List Str
  | .stage name succ => branchTokens name (tokensOf succ)
  | .branch name inner => branchTokens name (inner.tokens tokensOf)

def Successor.tokens (tokensOf : τ → List Str) : Successor τ → List Str
  | .stage succ => tokensOf succ
  | .branches items =>
      items.first.tokens tokensOf ++ items.rest.flatMap fun item => item.tokens tokensOf

def BranchAfter.Fits (good : τ → Prop) : BranchAfter τ → Prop
  | .stage _ succ => good succ
  | .branch _ inner => inner.Fits good

/-- Where a stage is followed by branches there are two of them at least. -/
def Successor.Fits (good : τ → Prop) : Successor τ → Prop
  | .stage succ => good succ
  | .branches items => items.rest ≠ [] ∧ ∀ item ∈ items.first :: items.rest, item.Fits good

end After

def SelectorStage.tokens (ss : SelectorStage) : List Str :=
  headingTokens "selector".toList [] ss.body.tokens

def SelectorStage.Fits (ss : SelectorStage) : Prop := ss.body.Fits

def GroupFilterStage.tokens (gfs : GroupFilterStage) : List Str :=
  headingTokens "group-filter".toList gfs.body [] ++ gfs.succ.tokens SelectorStage.tokens

def GroupFilterStage.Fits (gfs : GroupFilterStage) : Prop :=
  IsFilterBody gfs.body ∧ gfs.succ.Fits SelectorStage.Fits

def AgStageSucc.tokens : AgStageSucc → List Str
  | .groupFilter gfs => gfs.tokens
  | .selector ss => ss.tokens

def AgStageSucc.Fits : AgStageSucc → Prop
  | .groupFilter gfs => gfs.Fits
  | .selector ss => ss.Fits

def AggregatorStage.tokens (as : AggregatorStage) : List Str :=
  headingTokens "aggregator".toList [] as.body.tokens ++ as.succ.tokens AgStageSucc.tokens

def AggregatorStage.Fits (as : AggregatorStage) : Prop := as.succ.Fits AgStageSucc.Fits

def WiStageSucc.tokens : WiStageSucc → List Str
  | .aggregator as => as.tokens
  | .groupFilter gfs => gfs.tokens
  | .selector ss => ss.tokens

def WiStageSucc.Fits : WiStageSucc → Prop
  | .aggregator as => as.Fits
  | .groupFilter gfs => gfs.Fits
  | .selector ss => ss.Fits

def WindowStage.tokens (ws : WindowStage) : List Str :=
  headingTokens "window".toList [] ws.body.tokens ++ ws.succ.tokens WiStageSucc.tokens

def WindowStage.Fits (ws : WindowStage) : Prop := ws.succ.Fits WiStageSucc.Fits

def GrStageSucc.tokens : GrStageSucc → List Str
  | .window ws => ws.tokens
  | .aggregator as => as.tokens
  | .groupFilter gfs => gfs.tokens
  | .selector ss => ss.tokens

def GrStageSucc.Fits : GrStageSucc → Prop
  | .window ws => ws.Fits
  | .aggregator as => as.Fits
  | .groupFilter gfs => gfs.Fits
  | .selector ss => ss.Fits

def GrouperStage.tokens (gs : GrouperStage) : List Str :=
  headingTokens "grouper".toList [] gs.body.tokens ++ gs.succ.tokens GrStageSucc.tokens

def GrouperStage.Fits (gs : GrouperStage) : Prop := gs.succ.Fits GrStageSucc.Fits

def FiStageSucc.tokens : FiStageSucc → List Str
  | .grouper gs => gs.tokens
  | .window ws => ws.tokens
  | .aggregator as => as.tokens
  | .selector ss => ss.tokens

def FiStageSucc.Fits : FiStageSucc → Prop
  | .grouper gs => gs.Fits
  | .window ws => ws.Fits
  | .aggregator as => as.Fits
  | .selector ss => ss.Fits

def FilterStage.tokens (fs : FilterStage) : List Str :=
  headingTokens "filter".toList fs.body [] ++ fs.succ.tokens FiStageSucc.tokens

def FilterStage.Fits (fs : FilterStage) : Prop :=
  IsFilterBody fs.body ∧ fs.succ.Fits FiStageSucc.Fits

def Stage.tokens : Stage → List Str
  | .filter fs => fs.tokens
  | .grouper gs => gs.tokens
  | .window ws => ws.tokens
  | .aggregator as => as.tokens
  | .selector ss => ss.tokens

def Stage.Fits : Stage → Prop
  | .filter fs => fs.Fits
  | .grouper gs => gs.Fits
  | .window ws => ws.Fits
  | .aggregator as => as.Fits
  | .selector ss => ss.Fits

mutual

def MainBranch.tokens : MainBranch → List Str
  | .mk name mbm => branchTokens name mbm.tokens

def MainBranchBody.tokens : MainBranchBody → List Str
  | .stage stg => stg.tokens
  | .branches mbv => mbv.tokens

def MainBranchVec.tokens : MainBranchVec → List Str
  | .nil => []
  | .cons first rest => first.tokens ++ rest.tokens

end

/-- The tokens of a rule file. -/
def MainBranches.tokens (ast : MainBranches) : List Str := ast.first.tokens ++ ast.rest.tokens

mutual

def MainBranch.Fits : MainBranch → Prop
  | .mk _ mbm => mbm.Fits

def MainBranchBody.Fits : MainBranchBody → Prop
  | .stage stg => stg.Fits
  | .branches mbv => mbv ≠ .nil ∧ mbv.Fits

def MainBranchVec.Fits : MainBranchVec → Prop
  | .nil => True
  | .cons first rest => first.Fits ∧ rest.Fits

end

/-- A tree the grammar can make. -/
def MainBranches.Fits (ast : MainBranches) : Prop := ast.first.Fits ∧ ast.rest.Fits

/-! ### Reading stages -/

/-- A rule reads its values off any layout of their tokens in front of a closing brace. -/
structure ReadBy {α : Type} (letters : Str) (rule : Rule Char α) (tokensOf : α → List Str)
    (good : α → Prop) : Prop where
  ascii : letters.all isAscii = true
  leads : rule.Leads Clear (Starts letters)
  starts : ∀ {value rest text}, good value → Laid (tokensOf value) rest text → Starts letters text
  reads : ∀ {value rest text} answered, good value → EndsAt ['}'] rest →
    Laid (tokensOf value) rest text → rule answered text = (.matched (some value) rest, answered)

section ReadBy

variable {α β : Type} {letters others : Str} {rule other : Rule Char α} {tokensOf : α → List Str}
  {good also : α → Prop}

theorem ReadBy.mono (readBy : ReadBy letters rule tokensOf good)
    (subset : ∀ value, also value → good value) : ReadBy letters rule tokensOf also where
  ascii := readBy.ascii
  leads := readBy.leads
  starts isGood := readBy.starts (subset _ isGood)
  reads answered isGood := readBy.reads answered (subset _ isGood)

theorem ReadBy.map {f : α → β} {tokensOf' : β → List Str}
    (readBy : ReadBy letters rule tokensOf good)
    (tokens : ∀ value, tokensOf' (f value) = tokensOf value) :
    ReadBy letters (rule.map f) tokensOf' fun made => ∃ value, f value = made ∧ good value where
  ascii := readBy.ascii
  leads := Rule.leads_map readBy.leads
  starts := by
    rintro _ rest text ⟨value, rfl, isGood⟩ laid
    exact readBy.starts isGood (tokens value ▸ laid)
  reads := by
    rintro _ rest text answered ⟨value, rfl, isGood⟩ follows laid
    exact Rule.map_of_matched (readBy.reads answered isGood follows (tokens value ▸ laid))

theorem ReadBy.orElse (readBy : ReadBy letters rule tokensOf good)
    (choices : ReadBy others other tokensOf also) (disjoint : areApart letters others = true) :
    ReadBy (letters ++ others) (rule.orElse other) tokensOf
      fun value => good value ∨ also value where
  ascii := by rw [List.all_append, readBy.ascii, choices.ascii]; rfl
  leads answered text none :=
    Rule.leads_orElse readBy.leads choices.leads answered text fun starts =>
      none (starts.elim (fun here => here.mono fun _ => List.mem_append_left _)
        fun here => here.mono fun _ => List.mem_append_right _)
  starts := by
    rintro value rest text (isGood | isGood) laid
    · exact (readBy.starts isGood laid).mono fun _ => List.mem_append_left _
    · exact (choices.starts isGood laid).mono fun _ => List.mem_append_right _
  reads := by
    rintro value rest text answered (isGood | isGood) follows laid
    · exact Rule.orElse_of_matched (readBy.reads answered isGood follows laid)
    · have starts := choices.starts isGood laid
      rw [Rule.orElse_of_noMatch (readBy.leads.misses (starts.clear choices.ascii)
        (fun here => here.apart disjoint starts) answered)]
      exact choices.reads answered isGood follows laid

end ReadBy

/-! ### Reading branches -/

section Branches

variable {α β τ : Type} {letters rest text : Str} {tokensOf : τ → List Str} {good : τ → Prop}
  {succ : Rule Char τ}

/-- A branch is read when what it holds is read in front of its brace. -/
theorem braced_of_laid {assemble : Identifier → α → β} {body : Rule Char α} {name : Identifier}
    {inside : List Str} {answered : Nat} (value : α)
    (laid : Laid (branchTokens name inside) rest text)
    (reads : ∀ {middle behind}, behind.length < text.length → EndsAt ['}'] middle →
      Laid inside middle behind → body answered behind = (.matched (some value) middle, answered)) :
    braced assemble body answered text =
      (.matched (some (assemble name value)) rest, answered) := by
  obtain ⟨first, word, later, shorter⟩ := litString_of_laid rfl laid
  obtain ⟨second, named, later, next⟩ := identifier_of_laid later fun middle laid =>
    (laid.follows rfl rfl).endsName (by decide)
  obtain ⟨third, opened, later, last⟩ := lit_of_laid rfl later
  obtain ⟨fourth, isInside, closing⟩ := laid_append.mp later
  obtain ⟨fifth, closed, done, _⟩ := lit_of_laid rfl closing
  cases done
  have head : branchHead text = .matched name third := by
    rw [branchHead, Parser.andThen_of_matched word,
      Parser.andThen_of_matched (Parser.expect_of_matched named)]
    exact Parser.map_of_matched _ (Parser.expect_of_matched opened)
  have held := reads (last.trans (next.trans shorter)) (closing.follows rfl rfl) isInside
  exact Rule.followedBy_of_matched (Rule.followedBy_of_matched (Rule.of_of_matched head) held)
    (Rule.of_of_matched closed)

theorem leads_branchAfter : (branchAfter succ).Leads Clear (Starts "b".toList) :=
  fun answered text none => leads_braced answered text none

theorem leads_fixUpTo {rule : Rule Char α → Rule Char α} {lead : Str → Prop}
    (leads : ∀ inner, (rule inner).Leads Clear lead) :
    ∀ fuel, (Rule.fixUpTo rule fuel).Leads Clear lead
  | 0 => fun _ _ _ => Or.inl rfl
  | _ + 1 => leads _

/-- A branch behind a stage, by induction on how deep it is. -/
theorem branchAfter_of_laid (readBy : ReadBy letters succ tokensOf good)
    (noBranch : areApart letters "b".toList = true) : (branch : BranchAfter τ) → branch.Fits good →
      ∀ {fuel rest text} answered, text.length < fuel → Laid (branch.tokens tokensOf) rest text →
        Rule.fixUpTo (fun inner => braced (fun name made => made name) (branchAfterSucc succ inner))
          fuel answered text = (.matched (some branch) rest, answered)
  | _, _, 0, _, _, _, enough, _ => absurd enough (Nat.not_lt_zero _)
  | .stage name stg, fits, fuel + 1, rest, text, answered, enough, laid => by
      refine braced_of_laid (fun name => BranchAfter.stage name stg) laid
        fun _ follows inside => ?_
      have starts := readBy.starts fits inside
      refine (Rule.orElse_of_noMatch (Rule.Leads.misses
        (Rule.leads_map (leads_fixUpTo (fun _ => leads_braced) fuel)) (starts.clear readBy.ascii)
        (starts.apart noBranch) answered)).trans ?_
      exact Rule.map_of_matched (readBy.reads answered fits follows inside)
  | .branch name inner, fits, fuel + 1, rest, text, answered, enough, laid => by
      refine braced_of_laid (fun name => BranchAfter.branch name inner) laid
        fun shorter _ inside => ?_
      exact Rule.orElse_of_matched (Rule.map_of_matched
        (branchAfter_of_laid readBy noBranch inner fits answered (by omega) inside))

/-- Branches in a row, up to where there is no other one. -/
theorem chain_of_branches {rule : Rule Char α} {tokensOf : α → List Str} {bound answered : Nat}
    (leads : rule.Leads Clear (Starts "b".toList))
    (isBranch : ∀ item, ∃ tokens, tokensOf item = "branch".toList :: tokens)
    (clear : Clear rest) (last : ¬ Starts "b".toList rest) : (items : List α) →
      (∀ item ∈ items, ∀ {rest text}, text.length < bound → Laid (tokensOf item) rest text →
        rule answered text = (.matched (some item) rest, answered)) →
      ∀ {text}, text.length < bound → Laid (items.flatMap tokensOf) rest text →
        Rule.Chain rule answered items text rest
  | [], _, _, _, laid => by
      cases laid
      exact .nil (leads.misses clear last answered)
  | item :: items, reads, text, enough, laid => by
      rw [List.forall_mem_cons] at reads
      obtain ⟨middle, isItem, others⟩ := laid_append.mp laid
      have shorter : middle.length < text.length := by
        obtain ⟨tokens, same⟩ := isBranch item
        exact Laid.length_lt (same ▸ isItem) rfl
      exact .cons (reads.1 enough isItem) shorter
        (chain_of_branches leads isBranch clear last items reads.2 (shorter.trans enough) others)

theorem BranchAfter.isBranch (item : BranchAfter τ) :
    ∃ tokens, item.tokens tokensOf = "branch".toList :: tokens := by
  cases item <;> exact ⟨_, rfl⟩

theorem starts_branches {item : BranchAfter τ} {tokens : List Str}
    (laid : Laid (item.tokens tokensOf ++ tokens) rest text) : Starts "b".toList text := by
  obtain ⟨_, same⟩ := item.isBranch
  rw [same] at laid
  exact laid.starts rfl rfl

/-- What follows a stage. -/
theorem successor_of_laid (readBy : ReadBy letters succ tokensOf good)
    (noBranch : areApart letters "b".toList = true) {next : Successor τ} (fits : next.Fits good)
    (answered : Nat) (follows : EndsAt ['}'] rest) (laid : Laid (next.tokens tokensOf) rest text) :
    successor succ answered text = (.matched (some next) rest, answered) := by
  cases next with
  | stage stg =>
      exact Rule.orElse_of_matched (Rule.map_of_matched (readBy.reads answered fits follows laid))
  | branches items =>
      obtain ⟨first, rest'⟩ := items
      obtain ⟨several, fits⟩ := fits
      obtain ⟨second, others, rfl⟩ := List.exists_cons_of_ne_nil several
      rw [List.forall_mem_cons] at fits
      have branch := starts_branches laid
      refine (Rule.orElse_of_noMatch (Rule.Leads.misses (Rule.leads_map readBy.leads)
        (branch.clear rfl) (fun starts => starts.apart noBranch branch) answered)).trans ?_
      obtain ⟨middle, isFirst, more⟩ := laid_append.mp laid
      refine Rule.map_of_matched (Rule.followedBy_of_matched (f := BranchAfterS.mk)
        (branchAfter_of_laid readBy noBranch first fits.1 answered (Nat.lt_succ_self _) isFirst) ?_)
      exact Rule.plus_of_chain (chain_of_branches leads_branchAfter
        BranchAfter.isBranch (follows.clear rfl) (follows.not_starts (by decide))
        (second :: others)
        (fun item isItem {_ _} _ laid => branchAfter_of_laid readBy noBranch item
          (fits.2 item isItem) answered (Nat.lt_succ_self _) laid) (Nat.lt_succ_self _) more)

end Branches

/-! ### Reading stages -/

section Stages

variable {α β τ : Type} {answers : Nat → Answer} {letters rest text : Str}
  {tokensOf : τ → List Str} {good : τ → Prop} {succ : Rule Char τ}

/-- A body is read behind its colon in front of `;`. -/
theorem heading_of_laid {stored behind : Str} {tokens : List Str} {body : Parser Char α} {value : α}
    (visible : isVisible stored = true)
    (reads : ∀ {middle after}, EndsAt [';'] after → Starts [';'] after → Laid tokens after middle →
      body (behind ++ middle) = .matched value after)
    (laid : Laid (headingTokens stored behind tokens) rest text) :
    heading stored body text = .matched value rest := by
  obtain ⟨first, word, later, _⟩ := litString_of_laid visible laid
  obtain ⟨blanks, middle, blank, inside, rfl⟩ := laid_cons.mp later
  obtain ⟨after, isBody, closing⟩ := laid_append.mp inside
  obtain ⟨last, closed, done, _⟩ := lit_of_laid rfl closing
  cases done
  have colon : lit ':' (blanks ++ (':' :: behind ++ middle)) = .matched () (behind ++ middle) := by
    rw [lit, preSkip_blanks blank, List.cons_append,
      preSkip_cons (List.dropWhile_cons_of_neg (by decide)) rfl]
    exact if_pos rfl
  rw [heading, Parser.andThen_of_matched word,
    Parser.andThen_of_matched (Parser.expect_of_matched colon),
    Parser.andThen_of_matched (Parser.expect_of_matched
      (reads (closing.follows rfl rfl) (closing.starts rfl rfl) isBody))]
  exact Parser.map_of_matched _ (Parser.expect_of_matched closed)

theorem starts_heading {stored behind : Str} {tokens more : List Str} {c : Char}
    (visible : isVisible stored = true) (first : stored.head? = some c)
    (laid : Laid (headingTokens stored behind tokens ++ more) rest text) : Starts [c] text :=
  Laid.starts laid visible first

/-- The parts of a stage: its body, with what stands behind the colon, and what follows. -/
structure Parts (stored : Str) (body : Parser Char α) (succTokens : Successor τ → List Str)
    (fits : Successor τ → Prop) (value : α) (next : Successor τ) (tokens : List Str) : Prop where
  follows : fits next
  tokens : ∃ behind inside, tokens = headingTokens stored behind inside ++ succTokens next ∧
    ∀ {middle after}, EndsAt [';'] after → Starts [';'] after → Laid inside after middle →
      body (behind ++ middle) = .matched value after

theorem readBy_stageRule {stored : Str} {c : Char} {body : Parser Char α}
    {assemble : α → Successor τ → β} {tokensOf' : β → List Str} {good' : β → Prop}
    (visible : isVisible stored = true) (first : stored.head? = some c)
    (readBy : ReadBy letters succ tokensOf good) (noBranch : areApart letters "b".toList = true)
    (parts : ∀ {made}, good' made → ∃ value next, assemble value next = made ∧
      Parts stored body (Successor.tokens tokensOf) (Successor.Fits good) value next
        (tokensOf' made)) :
    ReadBy [c] (stageRule answers stored body succ assemble) tokensOf' good' where
  ascii := by
    obtain ⟨_, _, rfl, _, ascii⟩ := exists_of_isVisible visible
    cases first
    simpa using ascii
  leads := Rule.leads_onError (Rule.leads_followedBy (leads_heading first))
  starts := by
    intro made rest text isGood laid
    obtain ⟨_, _, _, _, behind, inside, same, _⟩ := parts isGood
    rw [same] at laid
    exact starts_heading visible first laid
  reads := by
    intro made rest text answered isGood follows laid
    obtain ⟨value, next, rfl, fits, behind, inside, same, reads⟩ := parts isGood
    rw [same] at laid
    obtain ⟨middle, isHeading, later⟩ := laid_append.mp laid
    exact Rule.onError_eq_matched.mpr (Rule.followedBy_of_matched
      (Rule.of_of_matched (heading_of_laid visible reads isHeading))
      (successor_of_laid readBy noBranch fits answered follows later))

theorem readBy_selectorStage :
    ReadBy ['s'] (selectorStage answers) SelectorStage.tokens SelectorStage.Fits where
  ascii := rfl
  leads := headed_selectorStage.leads
  starts _ laid := Laid.starts laid rfl rfl
  reads := by
    intro ss rest text answered fits _ laid
    have isHeading : heading "selector".toList selectorBody text = .matched ss.body rest :=
      heading_of_laid rfl (fun follows _ isBody => selectorBody_of_laid fits follows isBody) laid
    exact Rule.onError_eq_matched.mpr (Rule.of_of_matched (Parser.map_of_matched _ isHeading))

theorem readBy_groupFilterStage :
    ReadBy ['g'] (groupFilterStage answers) GroupFilterStage.tokens GroupFilterStage.Fits :=
  readBy_stageRule rfl rfl readBy_selectorStage (by decide) fun {gfs} fits =>
    ⟨gfs.body, gfs.succ, rfl, fits.2, gfs.body, [], rfl, fun {middle after} _ starts laid => by
      cases laid
      exact filterBody_of_upTo fits.1 starts⟩

theorem readBy_agStageSucc :
    ReadBy "gs".toList (agStageSucc answers) AgStageSucc.tokens AgStageSucc.Fits := by
  have groupFilter : ReadBy ['g'] ((groupFilterStage answers).map .groupFilter)
      AgStageSucc.tokens _ := readBy_groupFilterStage.map fun _ => rfl
  have selector : ReadBy ['s'] ((selectorStage answers).map .selector) AgStageSucc.tokens _ :=
    readBy_selectorStage.map fun _ => rfl
  refine (groupFilter.orElse selector (by decide)).mono fun made fits => ?_
  cases made with
  | groupFilter gfs => exact .inl ⟨gfs, rfl, fits⟩
  | selector ss => exact .inr ⟨ss, rfl, fits⟩

theorem readBy_aggregatorStage :
    ReadBy ['a'] (aggregatorStage answers) AggregatorStage.tokens AggregatorStage.Fits :=
  readBy_stageRule rfl rfl readBy_agStageSucc (by decide) fun {as} fits =>
    ⟨as.body, as.succ, rfl, fits, [], as.body.tokens, rfl, fun follows _ laid =>
      aggregatorBody_of_laid follows laid⟩

theorem readBy_wiStageSucc :
    ReadBy "ags".toList (wiStageSucc answers) WiStageSucc.tokens WiStageSucc.Fits := by
  have aggregator : ReadBy ['a'] ((aggregatorStage answers).map .aggregator)
      WiStageSucc.tokens _ := readBy_aggregatorStage.map fun _ => rfl
  have groupFilter : ReadBy ['g'] ((groupFilterStage answers).map .groupFilter)
      WiStageSucc.tokens _ := readBy_groupFilterStage.map fun _ => rfl
  have selector : ReadBy ['s'] ((selectorStage answers).map .selector) WiStageSucc.tokens _ :=
    readBy_selectorStage.map fun _ => rfl
  refine (aggregator.orElse (groupFilter.orElse selector (by decide)) (by decide)).mono
    fun made fits => ?_
  cases made with
  | aggregator as => exact .inl ⟨as, rfl, fits⟩
  | groupFilter gfs => exact .inr (.inl ⟨gfs, rfl, fits⟩)
  | selector ss => exact .inr (.inr ⟨ss, rfl, fits⟩)

theorem readBy_windowStage :
    ReadBy ['w'] (windowStage answers) WindowStage.tokens WindowStage.Fits :=
  readBy_stageRule rfl rfl readBy_wiStageSucc (by decide) fun {ws} fits =>
    ⟨ws.body, ws.succ, rfl, fits, [], ws.body.tokens, rfl, fun follows _ laid =>
      windowBody_of_laid follows laid⟩

theorem readBy_grStageSucc :
    ReadBy "wags".toList (grStageSucc answers) GrStageSucc.tokens GrStageSucc.Fits := by
  have window : ReadBy ['w'] ((windowStage answers).map .window) GrStageSucc.tokens _ :=
    readBy_windowStage.map fun _ => rfl
  have aggregator : ReadBy ['a'] ((aggregatorStage answers).map .aggregator)
      GrStageSucc.tokens _ := readBy_aggregatorStage.map fun _ => rfl
  have groupFilter : ReadBy ['g'] ((groupFilterStage answers).map .groupFilter)
      GrStageSucc.tokens _ := readBy_groupFilterStage.map fun _ => rfl
  have selector : ReadBy ['s'] ((selectorStage answers).map .selector) GrStageSucc.tokens _ :=
    readBy_selectorStage.map fun _ => rfl
  refine (window.orElse (aggregator.orElse (groupFilter.orElse selector (by decide)) (by decide))
    (by decide)).mono fun made fits => ?_
  cases made with
  | window ws => exact .inl ⟨ws, rfl, fits⟩
  | aggregator as => exact .inr (.inl ⟨as, rfl, fits⟩)
  | groupFilter gfs => exact .inr (.inr (.inl ⟨gfs, rfl, fits⟩))
  | selector ss => exact .inr (.inr (.inr ⟨ss, rfl, fits⟩))

theorem readBy_grouperStage :
    ReadBy ['g'] (grouperStage answers) GrouperStage.tokens GrouperStage.Fits :=
  readBy_stageRule rfl rfl readBy_grStageSucc (by decide) fun {gs} fits =>
    ⟨gs.body, gs.succ, rfl, fits, [], gs.body.tokens, rfl, fun follows _ laid =>
      grouperBody_of_laid follows laid⟩

theorem readBy_fiStageSucc :
    ReadBy "gwas".toList (fiStageSucc answers) FiStageSucc.tokens FiStageSucc.Fits := by
  have grouper : ReadBy ['g'] ((grouperStage answers).map .grouper) FiStageSucc.tokens _ :=
    readBy_grouperStage.map fun _ => rfl
  have window : ReadBy ['w'] ((windowStage answers).map .window) FiStageSucc.tokens _ :=
    readBy_windowStage.map fun _ => rfl
  have aggregator : ReadBy ['a'] ((aggregatorStage answers).map .aggregator)
      FiStageSucc.tokens _ := readBy_aggregatorStage.map fun _ => rfl
  have selector : ReadBy ['s'] ((selectorStage answers).map .selector) FiStageSucc.tokens _ :=
    readBy_selectorStage.map fun _ => rfl
  refine (grouper.orElse (window.orElse (aggregator.orElse selector (by decide)) (by decide))
    (by decide)).mono fun made fits => ?_
  cases made with
  | grouper gs => exact .inl ⟨gs, rfl, fits⟩
  | window ws => exact .inr (.inl ⟨ws, rfl, fits⟩)
  | aggregator as => exact .inr (.inr (.inl ⟨as, rfl, fits⟩))
  | selector ss => exact .inr (.inr (.inr ⟨ss, rfl, fits⟩))

theorem readBy_filterStage :
    ReadBy ['f'] (filterStage answers) FilterStage.tokens FilterStage.Fits :=
  readBy_stageRule rfl rfl readBy_fiStageSucc (by decide) fun {fs} fits =>
    ⟨fs.body, fs.succ, rfl, fits.2, fs.body, [], rfl, fun {middle after} _ starts laid => by
      cases laid
      exact filterBody_of_upTo fits.1 starts⟩

theorem readBy_stage : ReadBy "fgwas".toList (stage answers) Stage.tokens Stage.Fits := by
  have filter : ReadBy ['f'] ((filterStage answers).map .filter) Stage.tokens _ :=
    readBy_filterStage.map fun _ => rfl
  have grouper : ReadBy ['g'] ((grouperStage answers).map .grouper) Stage.tokens _ :=
    readBy_grouperStage.map fun _ => rfl
  have window : ReadBy ['w'] ((windowStage answers).map .window) Stage.tokens _ :=
    readBy_windowStage.map fun _ => rfl
  have aggregator : ReadBy ['a'] ((aggregatorStage answers).map .aggregator) Stage.tokens _ :=
    readBy_aggregatorStage.map fun _ => rfl
  have selector : ReadBy ['s'] ((selectorStage answers).map .selector) Stage.tokens _ :=
    readBy_selectorStage.map fun _ => rfl
  refine (filter.orElse (grouper.orElse (window.orElse (aggregator.orElse selector (by decide))
    (by decide)) (by decide)) (by decide)).mono fun made fits => ?_
  cases made with
  | filter fs => exact .inl ⟨fs, rfl, fits⟩
  | grouper gs => exact .inr (.inl ⟨gs, rfl, fits⟩)
  | window ws => exact .inr (.inr (.inl ⟨ws, rfl, fits⟩))
  | aggregator as => exact .inr (.inr (.inr (.inl ⟨as, rfl, fits⟩)))
  | selector ss => exact .inr (.inr (.inr (.inr ⟨ss, rfl, fits⟩)))

end Stages

/-! ### Reading main branches -/

section MainBranches

variable {answers : Nat → Answer} {rest text : Str}

theorem MainBranch.isBranch (mb : MainBranch) :
    ∃ tokens, mb.tokens = "branch".toList :: tokens := by
  cases mb
  exact ⟨_, rfl⟩

mutual

/-- A main branch, by recursion on the tree. -/
theorem mainBranch_of_laid : (mb : MainBranch) → mb.Fits → ∀ {fuel rest text} answered,
    text.length < fuel → Laid mb.tokens rest text →
      Rule.fixUpTo (fun inner => braced MainBranch.mk (mainBranchBody answers inner)) fuel
        answered text = (.matched (some mb) rest, answered)
  | _, _, 0, _, _, _, enough, _ => absurd enough (Nat.not_lt_zero _)
  | .mk name (.stage stg), fits, fuel + 1, rest, text, answered, enough, laid => by
      refine braced_of_laid (MainBranchBody.stage stg) laid fun _ follows inside => ?_
      exact Rule.orElse_of_matched (Rule.map_of_matched
        (readBy_stage.reads answered fits follows inside))
  | .mk name (.branches mbv), fits, fuel + 1, rest, text, answered, enough, laid => by
      obtain ⟨several, fits⟩ := fits
      obtain ⟨items, rfl, tokens, reads⟩ := mainBranchVec_of_laid mbv fits
      obtain ⟨first, others, rfl⟩ := List.exists_cons_of_ne_nil (l := items) (by
        rintro rfl
        exact several rfl)
      refine braced_of_laid (MainBranchBody.branches (mainBranchVec (first :: others))) laid
        fun {middle behind} shorter follows inside => ?_
      have leads : (Rule.fixUpTo (fun inner => braced MainBranch.mk (mainBranchBody answers inner))
          fuel).Leads Clear (Starts "b".toList) := leads_fixUpTo (fun _ => leads_braced) fuel
      rw [MainBranchBody.tokens, tokens] at inside
      have starts : Starts "b".toList behind := by
        obtain ⟨_, same⟩ := first.isBranch
        rw [List.flatMap_cons, same] at inside
        exact inside.starts rfl rfl
      refine (Rule.orElse_of_noMatch (Rule.Leads.misses (Rule.leads_map readBy_stage.leads)
        (starts.clear rfl) (starts.apart (by decide)) answered)).trans
          (Rule.map_of_matched (Rule.plus_of_chain ?_))
      exact chain_of_branches leads MainBranch.isBranch (follows.clear rfl)
        (follows.not_starts (by decide)) (first :: others) (fun item isItem {_ _} enough laid =>
          reads item isItem answered enough laid) (by omega) inside

theorem mainBranchVec_of_laid : (mbv : MainBranchVec) → mbv.Fits →
    ∃ items, mainBranchVec items = mbv ∧ mbv.tokens = items.flatMap MainBranch.tokens ∧
      ∀ item ∈ items, ∀ {fuel rest text} answered, text.length < fuel →
        Laid item.tokens rest text →
          Rule.fixUpTo (fun inner => braced MainBranch.mk (mainBranchBody answers inner)) fuel
            answered text = (.matched (some item) rest, answered)
  | .nil, _ => ⟨[], rfl, rfl, fun _ isItem => nomatch isItem⟩
  | .cons first rest, fits => by
      obtain ⟨items, rfl, tokens, reads⟩ := mainBranchVec_of_laid rest fits.2
      refine ⟨first :: items, rfl, ?_, List.forall_mem_cons.mpr
        ⟨mainBranch_of_laid first fits.1, reads⟩⟩
      rw [MainBranchVec.tokens, tokens, List.flatMap_cons]

end

theorem mainBranches_of_laid {ast : MainBranches} (fits : ast.Fits) (answered : Nat)
    (follows : EndsAt [] rest) (laid : Laid ast.tokens rest text) :
    mainBranches answers answered text = (.matched (some ast) rest, answered) := by
  obtain ⟨first, mbv⟩ := ast
  obtain ⟨middle, isFirst, others⟩ := laid_append.mp laid
  obtain ⟨items, rfl, tokens, reads⟩ := mainBranchVec_of_laid mbv fits.2
  rw [tokens] at others
  refine Rule.onError_eq_matched.mpr (Rule.followedBy_of_matched
    (mainBranch_of_laid first fits.1 answered (Nat.lt_succ_self _) isFirst)
    (Rule.many_of_chain (chain_of_branches leads_mainBranch MainBranch.isBranch
      (follows.clear rfl) (follows.not_starts (by decide)) items (fun item isItem {_ _} _ laid =>
        reads item isItem answered (Nat.lt_succ_self _) laid) (Nat.lt_succ_self _) others)))

/-- Every layout of the tokens of a tree the grammar can make is read as that tree. -/
theorem syntaxTree_of_laid {ast : MainBranches} (fits : ast.Fits)
    (blank : ∀ c ∈ rest, space c = true) (laid : Laid ast.tokens rest text) :
    syntaxTree text = .ok ast := by
  have skipped : rest.dropWhile space = [] := List.dropWhile_eq_nil_iff.mpr blank
  have follows : EndsAt [] rest := by
    intro c first
    rw [skipped] at first
    cases first
  have clear : skips rest = true := follows.clear rfl
  rw [syntaxTree, phraseParse, mainBranches_of_laid fits 0 follows laid]
  simp [skipped, clear]

/-- `branch main { filter: DST_PORT == 53; selector: DST_PORT, "load" = BYTES + PACKETS; }`. -/
def nameServers : MainBranches where
  first := .mk .main (.stage (.filter
    { body := " DST_PORT == 53".toList
      succ := .stage (.selector ⟨⟨.keyword .dstPort, none⟩, [⟨.name "load".toList,
        some (.mk (.expression (.mk (.variable_ (.keyword .bytes)) .nil))
          (.cons .plus (.expression (.mk (.variable_ (.keyword .packets)) .nil)) .nil))⟩]⟩) }))
  rest := .nil

theorem syntaxTree_of_laid_nameServers :
    syntaxTree ("branch main \x7b\n  filter: DST_PORT == 53;\n".toList ++
      "  selector: DST_PORT, \"load\" = BYTES + PACKETS;\n\x7d\n".toList) = .ok nameServers := by
  have fits : nameServers.Fits := by
    refine ⟨⟨⟨by decide, by decide, List.all_eq_true.mp (by decide), fun c last => ?_⟩,
      fun sa member => ?_⟩, trivial⟩
    · cases last
      rfl
    · rcases List.mem_cons.mp member with rfl | member
      · exact ⟨trivial, fun se here => nomatch here⟩
      · obtain rfl := List.mem_singleton.mp member
        refine ⟨⟨by decide, by decide, List.all_eq_true.mp (by decide), fun c last => ?_⟩, ?_⟩
        · cases last
          rfl
        · rintro se ⟨⟩
          exact ⟨⟨⟨by decide, trivial⟩, trivial⟩, by decide, ⟨⟨by decide, trivial⟩, trivial⟩,
            trivial⟩
  have laid := laid_layOut "\n".toList [([], "branch".toList), (" ".toList, "main".toList),
    (" ".toList, "\x7b".toList), ("\n  ".toList, "filter".toList), ([], ": DST_PORT == 53".toList),
    ([], ";".toList), ("\n  ".toList, "selector".toList), ([], ":".toList),
    (" ".toList, "DST_PORT".toList), ([], ",".toList), (" ".toList, "\"load\"".toList),
    (" ".toList, "=".toList), (" ".toList, "BYTES".toList), (" ".toList, "+".toList),
    (" ".toList, "PACKETS".toList), ([], ";".toList), ("\n".toList, "\x7d".toList)] (by decide)
  exact syntaxTree_of_laid fits (List.all_eq_true.mp (by decide)) laid

end MainBranches

/-! ### What can be read -/

section Made

variable {α β τ : Type} {answers : Nat → Answer} {tokensOf : τ → List Str} {good : τ → Prop}
  {succ : Rule Char τ}

theorem makes_braced {assemble : Identifier → α → β} {body : Rule Char α} {good : α → Prop}
    {whole : β → Prop} (makes : body.Makes good)
    (assembled : ∀ name made, good made → whole (assemble name made)) :
    (braced assemble body).Makes whole := by
  have head : (Rule.of branchHead).Makes fun _ => True := fun _ _ _ _ _ _ => trivial
  have close : (Rule.of (lit '}')).Makes fun _ => True := fun _ _ _ _ _ _ => trivial
  exact Rule.makes_followedBy
    (Rule.makes_followedBy head makes fun name made _ => assembled name made) close
      fun _ _ isWhole _ => isWhole

theorem makes_branchAfter (makes : succ.Makes good) :
    (branchAfter succ).Makes (BranchAfter.Fits good) := by
  refine Rule.makes_fix fun {inner} isInner => ?_
  have inside : (branchAfterSucc succ inner).Makes fun made => ∀ name, (made name).Fits good :=
    Rule.makes_orElse (Rule.makes_map (isInner.mono fun _ fits _ => fits))
      (Rule.makes_map (makes.mono fun _ fits _ => fits))
  exact makes_braced inside fun name _ fits => fits name

theorem makes_successor (makes : succ.Makes good) :
    (successor succ).Makes (Successor.Fits good) := by
  refine Rule.makes_orElse (Rule.makes_map makes) (Rule.makes_map ?_)
  exact Rule.makes_followedBy (makes_branchAfter makes) (Rule.makes_plus (makes_branchAfter makes))
    fun first rest isFirst ⟨several, others⟩ =>
      ⟨several, List.forall_mem_cons.mpr ⟨isFirst, others⟩⟩

/-- The body of a heading stands in front of a semicolon. -/
theorem makes_heading {stored : Str} {body : Parser Char α} {good : α → Prop}
    (makes : ∀ {text value rest}, body text = .matched value rest → Starts [';'] rest →
      good value) : (heading stored body).Makes good := by
  intro text value rest reads
  obtain ⟨_, _, _, reads⟩ := Parser.andThen_eq_matched.mp reads
  obtain ⟨_, _, _, reads⟩ := Parser.andThen_eq_matched.mp reads
  obtain ⟨_, after, isBody, reads⟩ := Parser.andThen_eq_matched.mp reads
  obtain ⟨_, closed, rfl⟩ := Parser.map_eq_matched.mp reads
  have skipped := lit_eq_matched (Parser.expect_eq_matched.mp closed)
  exact makes (Parser.expect_eq_matched.mp isBody)
    ⟨';', List.mem_singleton_self _, by rw [skipped]; rfl⟩

theorem makes_stageRule {stored : Str} {body : Parser Char α} {assemble : α → Successor τ → β}
    {also : α → Prop} {whole : β → Prop}
    (isBody : ∀ {text value rest}, body text = .matched value rest → Starts [';'] rest →
      also value) (makes : succ.Makes good)
    (assembled : ∀ value next, also value → next.Fits good → whole (assemble value next)) :
    (stageRule answers stored body succ assemble).Makes whole :=
  Rule.makes_onError (Rule.makes_followedBy (Rule.makes_of (makes_heading isBody))
    (makes_successor makes) assembled)

theorem makes_selectorStage : (selectorStage answers).Makes SelectorStage.Fits := by
  refine Rule.makes_onError (Rule.makes_of ?_)
  intro text ss rest reads
  obtain ⟨body, isHeading, rfl⟩ := Parser.map_eq_matched.mp reads
  have makes : (heading "selector".toList selectorBody).Makes SelectorBody.Fits :=
    makes_heading fun isBody starts => by
      obtain ⟨c, member, first⟩ := starts
      obtain rfl := List.mem_singleton.mp member
      obtain ⟨_, skipped⟩ := List.head?_eq_some_iff.mp first
      exact fits_of_selectorBody isBody (noBracket_of_skipped skipped (by decide))
  exact makes isHeading

theorem makes_groupFilterStage : (groupFilterStage answers).Makes GroupFilterStage.Fits :=
  makes_stageRule upTo_of_filterBody makes_selectorStage fun _ _ isBody fits => ⟨isBody, fits⟩

theorem makes_agStageSucc : (agStageSucc answers).Makes AgStageSucc.Fits :=
  Rule.makes_orElse (Rule.makes_map makes_groupFilterStage) (Rule.makes_map makes_selectorStage)

theorem makes_aggregatorStage : (aggregatorStage answers).Makes AggregatorStage.Fits :=
  makes_stageRule (fun _ _ => trivial) makes_agStageSucc fun _ _ _ fits => fits

theorem makes_wiStageSucc : (wiStageSucc answers).Makes WiStageSucc.Fits :=
  Rule.makes_orElse (Rule.makes_map makes_aggregatorStage)
    (Rule.makes_orElse (Rule.makes_map makes_groupFilterStage) (Rule.makes_map makes_selectorStage))

theorem makes_windowStage : (windowStage answers).Makes WindowStage.Fits :=
  makes_stageRule (fun _ _ => trivial) makes_wiStageSucc fun _ _ _ fits => fits

theorem makes_grStageSucc : (grStageSucc answers).Makes GrStageSucc.Fits :=
  Rule.makes_orElse (Rule.makes_map makes_windowStage)
    (Rule.makes_orElse (Rule.makes_map makes_aggregatorStage)
      (Rule.makes_orElse (Rule.makes_map makes_groupFilterStage)
        (Rule.makes_map makes_selectorStage)))

theorem makes_grouperStage : (grouperStage answers).Makes GrouperStage.Fits :=
  makes_stageRule (fun _ _ => trivial) makes_grStageSucc fun _ _ _ fits => fits

theorem makes_fiStageSucc : (fiStageSucc answers).Makes FiStageSucc.Fits :=
  Rule.makes_orElse (Rule.makes_map makes_grouperStage)
    (Rule.makes_orElse (Rule.makes_map makes_windowStage)
      (Rule.makes_orElse (Rule.makes_map makes_aggregatorStage)
        (Rule.makes_map makes_selectorStage)))

theorem makes_filterStage : (filterStage answers).Makes FilterStage.Fits :=
  makes_stageRule upTo_of_filterBody makes_fiStageSucc fun _ _ isBody fits => ⟨isBody, fits⟩

theorem makes_stage : (stage answers).Makes Stage.Fits :=
  Rule.makes_orElse (Rule.makes_map makes_filterStage)
    (Rule.makes_orElse (Rule.makes_map makes_grouperStage)
      (Rule.makes_orElse (Rule.makes_map makes_windowStage)
        (Rule.makes_orElse (Rule.makes_map makes_aggregatorStage)
          (Rule.makes_map makes_selectorStage))))

theorem fits_mainBranchVec : {items : List MainBranch} → (∀ item ∈ items, item.Fits) →
    (mainBranchVec items).Fits
  | [], _ => trivial
  | _ :: _, fits => ⟨(List.forall_mem_cons.mp fits).1,
      fits_mainBranchVec (List.forall_mem_cons.mp fits).2⟩

theorem makes_mainBranch : (mainBranch answers).Makes MainBranch.Fits := by
  refine Rule.makes_fix fun {inner} isInner => ?_
  have inside : (mainBranchBody answers inner).Makes MainBranchBody.Fits := by
    refine Rule.makes_orElse (Rule.makes_map makes_stage)
      (Rule.makes_map ((Rule.makes_plus isInner).mono ?_))
    rintro (_ | ⟨first, rest⟩) ⟨several, fits⟩
    · exact absurd rfl several
    · exact ⟨nofun, fits_mainBranchVec fits⟩
  exact makes_braced inside fun _ _ fits => fits

theorem makes_mainBranches : (mainBranches answers).Makes MainBranches.Fits :=
  Rule.makes_onError (Rule.makes_followedBy makes_mainBranch (Rule.makes_many makes_mainBranch)
    fun _ _ isFirst others => ⟨isFirst, fits_mainBranchVec others⟩)

/-- The tree of a file is one the grammar can make. -/
theorem fits_of_syntaxTree {text : Str} {ast : MainBranches} (reads : syntaxTree text = .ok ast) :
    ast.Fits := by
  rw [syntaxTree, phraseParse] at reads
  cases parsed : mainBranches onError 0 text with
  | mk outcome answered =>
      rw [parsed] at reads
      cases outcome with
      | noMatch | failed | aborted => cases reads
      | matched made rest =>
          dsimp only at reads
          split at reads
          · rename_i ast' same
            cases reads
            split at same
            · split at same
              · cases same
                exact makes_mainBranches parsed
              · cases same
            · cases same
          · cases reads
          · cases reads

end Made

/-- The trees of files are those the grammar can make. -/
theorem exists_syntaxTree_iff (ast : MainBranches) :
    (∃ text, syntaxTree text = .ok ast) ↔ ast.Fits := by
  constructor
  · rintro ⟨text, reads⟩
    exact fits_of_syntaxTree reads
  · intro fits
    have laid := laid_layOut [] (ast.tokens.map fun token => ([], token)) (by simp)
    rw [List.map_map, Function.comp_def, List.map_id'] at laid
    exact ⟨_, syntaxTree_of_laid fits (by simp) laid⟩

end Policer.Parsing
