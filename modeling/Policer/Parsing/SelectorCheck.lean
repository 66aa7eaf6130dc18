import Policer.Parsing.Keywords
import Policer.Parsing.Parser

/-!
# What the check of selectors demands

`Check_selector` looks at the keywords a selector uses as outputs and at nothing else: each
is a grouper key, an aggregate parameter or a time, unless there are no keys and no
parameters above. `checkSelectorCrawl` is the check stage by stage.
-/

namespace Policer.Parsing

open Policer.Lib

namespace CheckSelector

/-! ### Keywords above a selector -/

/-- The names of keywords are inserted into a set. -/
def insertAll (names : List Str) (keywords : List Unirec) : List Str :=
  keywords.foldl (fun names un => names.insert (stringUnirecEnum un)) names

/-- The set of the names of keywords. -/
def gather (keywords : List Unirec) : List Str := insertAll [] keywords

theorem mem_insertAll {names : List Str} {keywords : List Unirec} {name : Str} :
    name ∈ insertAll names keywords ↔
      name ∈ names ∨ ∃ un ∈ keywords, stringUnirecEnum un = name := by
  induction keywords generalizing names with
  | nil => simp [insertAll]
  | cons head tail ih =>
      have step : insertAll names (head :: tail) =
          insertAll (names.insert (stringUnirecEnum head)) tail := rfl
      rw [step, ih, List.mem_insert_iff]
      simp only [List.mem_cons, exists_eq_or_imp, eq_comm (a := name)]
      tauto

theorem mem_gather {keywords : List Unirec} {name : Str} :
    name ∈ gather keywords ↔ ∃ un ∈ keywords, stringUnirecEnum un = name := by
  simp [gather, mem_insertAll]

theorem gather_eq_nil {keywords : List Unirec} : gather keywords = [] ↔ keywords = [] := by
  constructor
  · intro empty
    refine List.eq_nil_iff_forall_not_mem.mpr fun un member => ?_
    have inside := mem_gather.mpr ⟨un, member, rfl⟩
    rw [empty] at inside
    cases inside
  · rintro rfl
    rfl

/-! ### Runs of the method for keywords -/

theorem runKeywords_grouper (keywords : List Unirec) (state : Located CheckSelector)
    (diving : state.self.groDiv = true) :
    runKeywords unirec keywords state = .ok { state with
      self := { state.self with
        groInputKeywords := insertAll state.self.groInputKeywords keywords } } := by
  induction keywords generalizing state with
  | nil => rfl
  | cons head tail ih =>
      have first : unirec head state = .ok { state with
          self := { state.self with
            groInputKeywords := state.self.groInputKeywords.insert (stringUnirecEnum head) } } := by
        simp [unirec, diving]
      rw [runKeywords, List.map_cons, Action.sequence_cons, Action.seq_of_ok first]
      exact ih _ diving

theorem runKeywords_aggregator (keywords : List Unirec) (state : Located CheckSelector)
    (surface : state.self.groDiv = false) (diving : state.self.aggDiv = true) :
    runKeywords unirec keywords state = .ok { state with
      self := { state.self with
        aggInputKeywords := insertAll state.self.aggInputKeywords keywords } } := by
  induction keywords generalizing state with
  | nil => rfl
  | cons head tail ih =>
      have first : unirec head state = .ok { state with
          self := { state.self with
            aggInputKeywords := state.self.aggInputKeywords.insert (stringUnirecEnum head) } } := by
        simp [unirec, surface, diving]
      rw [runKeywords, List.map_cons, Action.sequence_cons, Action.seq_of_ok first]
      exact ih _ surface diving

/-- The first keyword that is not allowed. -/
def refused? (groInputKeywords aggInputKeywords : List Str) (keywords : List Unirec) :
    Option Unirec :=
  keywords.find? fun un => !allowed groInputKeywords aggInputKeywords un

theorem runKeywords_selector (keywords : List Unirec) (state : Located CheckSelector)
    (surface : state.self.groDiv = false ∧ state.self.aggDiv = false)
    (diving : state.self.selDiv = true) :
    runKeywords unirec keywords state =
      match refused? state.self.groInputKeywords state.self.aggInputKeywords keywords with
      | none => .ok state
      | some un =>
          .error (.thrown
            (.checkSelector (state.getStagePath .selector) (stringUnirecEnum un))) := by
  induction keywords with
  | nil => rfl
  | cons head tail ih =>
      rw [runKeywords, List.map_cons, Action.sequence_cons]
      by_cases isAllowed :
          allowed state.self.groInputKeywords state.self.aggInputKeywords head = true
      · have first : unirec head state = .ok state := by
          simp [unirec, surface.1, surface.2, diving, isAllowed]
        rw [Action.seq_of_ok first]
        refine ih.trans ?_
        simp [refused?, isAllowed]
      · have first : unirec head state =
            .error (.thrown
              (.checkSelector (state.getStagePath .selector) (stringUnirecEnum head))) := by
          simp [unirec, surface.1, surface.2, diving, isAllowed]
        rw [Action.seq_of_error first]
        simp [refused?, isAllowed]

/-! ### The check stage by stage -/

/-- What `Check_selector` does at a stage; it gathers nothing for the stages behind it. -/
def step (ctx : Context) : Node → Method Unit
  | .selector body =>
      match refused? (gather ctx.keys) (gather ctx.params) body.outputs with
      | none => Action.skip
      | some un =>
          Action.throw
            (.thrown (.checkSelector (stageKey .selector ctx.path) (stringUnirecEnum un)))
  | .inner _ => Action.skip

/-- The sets hold the keys and the parameters above, and no flag is set. -/
def inner (ctx : Context) (_ : Unit) (con : CheckSelector) : Prop :=
  con = ⟨false, false, false, gather ctx.keys, gather ctx.params⟩

end CheckSelector

open CheckSelector in
/-- `Check_selector` stage by stage. -/
def checkSelectorCrawl : Crawl checkSelector Unit where
  shows := Located.shows CheckSelector.inner
  descends _ := true
  step := Located.step CheckSelector.step
  enter
    | .grouper type =>
        (Located.updateSelf fun self => { self with groDiv := true }) >=>
          checkSelector.grouperType type >=>
          Located.updateSelf fun self => { self with groDiv := false }
    | .aggregator body =>
        (Located.updateSelf fun self => { self with aggDiv := true }) >=>
          checkSelector.aggregatorBody body >=>
          Located.updateSelf fun self => { self with aggDiv := false }
    | _ => Action.skip
  leave
    | .grouper _, state => { state with self := { state.self with groInputKeywords := [] } }
    | .aggregator _, state => { state with self := { state.self with aggInputKeywords := [] } }
    | _, state => state
  splits st succ := by
    cases st with
    | grouper type =>
        refine Eq.symm ((Action.seq_assoc _ _ _).trans ?_)
        exact congrArg _ (Action.seq_assoc _ _ _)
    | aggregator body =>
        refine Eq.symm ((Action.seq_assoc _ _ _).trans ?_)
        exact congrArg _ (Action.seq_assoc _ _ _)
    | _ => exact (Action.seq_update_id succ).symm
  selector ctx body := by
    rintro ⟨⟩ ⟨stack, _⟩ ⟨stackEq, rfl⟩
    let dived : Located CheckSelector :=
      ⟨stack, false, false, true, gather ctx.keys, gather ctx.params⟩
    have run : checkSelector.selectorBody body dived = _ :=
      (congrFun (keywordVisitor_selectorBody unirec body) dived).trans
        (runKeywords_selector body.outputs dived ⟨rfl, rfl⟩ rfl)
    change Related _ _ ((checkSelector.selectorBody body >=>
      Located.updateSelf fun self => { self with selDiv := false }) dived)
    simp only [Located.step, CheckSelector.step]
    cases refused : refused? (gather ctx.keys) (gather ctx.params) body.outputs with
    | none =>
        simp only [dived, refused] at run
        rw [Action.seq_of_ok run]
        exact .ok ⟨stackEq, rfl⟩
    | some un =>
        have path := getStagePath_eq (show dived.stack = names ctx.path from stackEq) .selector
        simp only [dived, refused] at run path
        rw [Action.seq_of_error run, path]
        exact .error
  enters := by
    intro ctx lo st fits above
    cases st with
    | grouper type =>
        rintro ⟨⟩ ⟨stack, _⟩ ⟨stackEq, rfl⟩
        have empty : ctx.keys = [] := by
          simp [Context.keys, fits.grouper (by simpa [InnerStage.rank] using above)]
        let dived : Located CheckSelector :=
          ⟨stack, true, false, false, gather ctx.keys, gather ctx.params⟩
        have run := runKeywords_grouper type.all dived rfl
        change Related _ _ ((checkSelector.grouperType type >=>
          Located.updateSelf fun self => { self with groDiv := false }) dived)
        rw [Action.seq_of_ok (show checkSelector.grouperType type dived = _ from run)]
        refine .ok ⟨stackEq, ?_⟩
        simp only [dived, empty]
        rfl
    | aggregator body =>
        rintro ⟨⟩ ⟨stack, _⟩ ⟨stackEq, rfl⟩
        have empty : ctx.params = [] := by
          simp [Context.params, fits.aggregator (by simpa [InnerStage.rank] using above)]
        let dived : Located CheckSelector :=
          ⟨stack, false, true, false, gather ctx.keys, gather ctx.params⟩
        have run : checkSelector.aggregatorBody body dived = _ :=
          (congrFun (keywordVisitor_aggregatorBody unirec body) dived).trans
            (runKeywords_aggregator _ dived rfl rfl)
        change Related _ _ ((checkSelector.aggregatorBody body >=>
          Located.updateSelf fun self => { self with aggDiv := false }) dived)
        rw [Action.seq_of_ok run]
        refine .ok ⟨stackEq, ?_⟩
        simp only [dived, empty]
        rfl
    | _ => exact Tracks.skip _
  leaves := by
    intro ctx lo st fits above abs con related
    cases st with
    | grouper type =>
        obtain ⟨stackEq, selfEq⟩ := related
        have empty : ctx.keys = [] := by
          simp [Context.keys, fits.grouper (by simpa [InnerStage.rank] using above)]
        refine ⟨stackEq, ?_⟩
        simp only [CheckSelector.inner] at selfEq ⊢
        rw [selfEq, empty]
        rfl
    | aggregator body =>
        obtain ⟨stackEq, selfEq⟩ := related
        have empty : ctx.params = [] := by
          simp [Context.params, fits.aggregator (by simpa [InnerStage.rank] using above)]
        refine ⟨stackEq, ?_⟩
        simp only [CheckSelector.inner] at selfEq ⊢
        rw [selfEq, empty]
        rfl
    | _ => exact related
  siblings := Located.siblings_tracks (fun _ _ => rfl) (fun _ _ => rfl)

end Policer.Parsing
