import Policer.Aggregator.Agg
import Policer.Aggregator.Registration
import Policer.Lib.Faults

/-!
# Shutting the pipeline down

`~Builder` destroys the stages of the forest, each before its successors. An aggregator flushes
its storage and calls `ur_finalize`, and a selector sends an end of stream and calls
`ur_finalize`. `orderly_iff` says for which forests and storages the events come in order.
-/

namespace Policer.Backend

open Policer.Lib Policer.Parsing Policer.Aggregator

/-! ### Stages in the order of destruction -/

/-- Where a stage lies in a forest: its index among the successors, then the indices of the
stages above. -/
abbrev Address := List Nat

mutual

/-- A stage and those below, each before its successors. -/
def stagesIn (address : Address) : BuilderStage → List (Address × BuilderStage)
  | .mk kind options next => (address, .mk kind options next) :: stagesOf address 0 next

/-- The successors of the stage at an address from an index on, each with those below. -/
def stagesOf (address : Address) (index : Nat) : List BuilderStage → List (Address × BuilderStage)
  | [] => []
  | head :: tail => stagesIn (index :: address) head ++ stagesOf address (index + 1) tail

end

/-- The one address lies below the other. -/
def Below (lower upper : Address) : Prop := ∃ index, index :: upper <:+ lower

theorem Below.suffix {lower upper : Address} (below : Below lower upper) : upper <:+ lower := by
  obtain ⟨index, suffix⟩ := below
  exact (List.suffix_cons index upper).trans suffix

theorem Below.not_suffix {lower upper : Address} (below : Below lower upper) :
    ¬ lower <:+ upper := by
  intro suffix
  obtain ⟨index, below⟩ := below
  have length := (below.trans suffix).length_le
  rw [List.length_cons] at length
  omega

/-- Siblings have nothing below both of them. -/
theorem index_unique {first second : Nat} {address lower : Address}
    (one : first :: address <:+ lower) (other : second :: address <:+ lower) : first = second := by
  have suffix := List.suffix_of_suffix_length_le one other (by simp)
  exact (List.cons.inj (suffix.eq_of_length (by simp))).1

mutual

theorem suffix_of_mem_stagesIn {address : Address} {found : Address × BuilderStage} :
    (stage : BuilderStage) → found ∈ stagesIn address stage → address <:+ found.1
  | .mk kind options next, member => by
      rw [stagesIn, List.mem_cons] at member
      rcases member with rfl | below
      · exact List.suffix_rfl
      · obtain ⟨index, _, suffix⟩ := index_of_mem_stagesOf next below
        exact Below.suffix ⟨index, suffix⟩

theorem index_of_mem_stagesOf {address : Address} {index : Nat} {found : Address × BuilderStage} :
    (forest : List BuilderStage) → found ∈ stagesOf address index forest →
      ∃ other, index ≤ other ∧ other :: address <:+ found.1
  | [], member => by simp [stagesOf] at member
  | head :: tail, member => by
      rw [stagesOf, List.mem_append] at member
      rcases member with inHead | inTail
      · exact ⟨index, Nat.le_refl _, suffix_of_mem_stagesIn head inHead⟩
      · obtain ⟨other, later, suffix⟩ := index_of_mem_stagesOf tail inTail
        exact ⟨other, by omega, suffix⟩

end

/-- Stages lie in the order of destruction: none at or above one that comes before it. -/
def ParentsFirst (stages : List (Address × BuilderStage)) : Prop :=
  stages.Pairwise fun earlier later => ¬ later.1 <:+ earlier.1

mutual

theorem parentsFirst_in (address : Address) : (stage : BuilderStage) →
    ParentsFirst (stagesIn address stage)
  | .mk kind options next => by
      rw [stagesIn, ParentsFirst, List.pairwise_cons]
      refine ⟨fun later member => ?_, parentsFirst_of address 0 next⟩
      obtain ⟨index, _, suffix⟩ := index_of_mem_stagesOf next member
      exact Below.not_suffix ⟨index, suffix⟩

theorem parentsFirst_of (address : Address) (index : Nat) : (forest : List BuilderStage) →
    ParentsFirst (stagesOf address index forest)
  | [] => .nil
  | head :: tail => by
      rw [stagesOf, ParentsFirst, List.pairwise_append]
      refine ⟨parentsFirst_in _ head, parentsFirst_of address (index + 1) tail, ?_⟩
      intro earlier inHead later inTail above
      obtain ⟨other, after, suffix⟩ := index_of_mem_stagesOf tail inTail
      have same := index_unique (suffix_of_mem_stagesIn head inHead) (suffix.trans above)
      omega

end

/-- A stage is determined by its address. -/
theorem ParentsFirst.unique {stages : List (Address × BuilderStage)} (first : ParentsFirst stages)
    {one other : Address × BuilderStage} (member : one ∈ stages) (member' : other ∈ stages)
    (same : one.1 = other.1) : one = other := by
  have distinct : (stages.map Prod.fst).Nodup := by
    refine List.pairwise_map.mpr (first.imp fun {earlier later} notAbove equal => notAbove ?_)
    exact ⟨[], equal.symm⟩
  exact List.inj_on_of_nodup_map distinct member member' same

mutual

/-- What lies below a stage of a tree lies in the tree. -/
theorem stagesOf_subset_in {address upper : Address} {kind : StageKind} {options : Str}
    {next : List BuilderStage} : (stage : BuilderStage) →
    (address, .mk kind options next) ∈ stagesIn upper stage →
      stagesOf address 0 next ⊆ stagesIn upper stage
  | .mk kind options next, member => by
      rw [stagesIn, List.mem_cons] at member
      rw [stagesIn]
      rcases member with same | below
      · cases same
        exact List.subset_cons_self ..
      · exact List.subset_cons_of_subset _ (stagesOf_subset_of next below)

theorem stagesOf_subset_of {address upper : Address} {index : Nat} {kind : StageKind}
    {options : Str} {next : List BuilderStage} : (forest : List BuilderStage) →
    (address, .mk kind options next) ∈ stagesOf upper index forest →
      stagesOf address 0 next ⊆ stagesOf upper index forest
  | [], member => by simp [stagesOf] at member
  | head :: tail, member => by
      rw [stagesOf, List.mem_append] at member
      rw [stagesOf]
      rcases member with inHead | inTail
      · exact List.subset_append_of_subset_left _ (stagesOf_subset_in head inHead)
      · exact List.subset_append_of_subset_right _ (stagesOf_subset_of tail inTail)

end

/-! ### Events -/

/-- What happens at the shutdown. -/
inductive Event where
  | sendOut (address : Address) (record : Record)
  | eval (address : Address) (record : Record)
  | trapSend (address : Address) (record : Record)
  | endOfStream (address : Address)
  | finalize
  | destroyed (address : Address)

section Shutdown

variable (ff3Eval : Str → Record → Int)

mutual

/-- `eval` of a stage while the forest is destroyed. An aggregator drops the record, since a
destructor has set `stop`. -/
def evalStage (record : Record) (address : Address) : BuilderStage → List Event
  | .mk .filter options next =>
      .eval address record ::
        if ff3Eval options record ≠ 0 then sendTo record address 0 next else []
  | .mk .agg _ _ => [.eval address record]
  | .mk .selector _ _ => [.eval address record, .trapSend address record]

/-- `Stage_intf::send` to the successors from an index on. -/
def sendTo (record : Record) (address : Address) (index : Nat) : List BuilderStage → List Event
  | [] => []
  | head :: tail =>
      evalStage record (index :: address) head ++ sendTo record address (index + 1) tail

end

variable (aggs : Address → Agg)

/-- The records `flush_storage` sends. -/
def flushRecords (agg : Agg) : Except Fault (List Record) :=
  agg.storage.entries.mapM fun entry => agg.sendRecordOut entry.2

/-- The destructor of an aggregator sends what it stores. -/
theorem flushRecords_of_destroy {agg next : Agg} (destroys : agg.destroy = .ok next) :
    ∃ records, flushRecords agg = .ok records ∧ next.sent = agg.sent ++ records ∧
      next.storage.entries = [] := by
  unfold Agg.destroy Agg.flushStorage at destroys
  obtain ⟨records, made, rfl⟩ := Agg.sendOut_ok destroys
  rw [List.filter_eq_self.mpr fun _ _ => rfl] at made
  exact ⟨records, made, rfl, List.filter_eq_nil_iff.mpr fun _ _ => by simp⟩

/-- The destructor of a component. The members of the aggregator at an address are
`aggs address`. -/
def destructor (address : Address) : BuilderStage → Except Fault (List Event)
  | .mk .filter _ _ => .ok []
  | .mk .agg _ next => (flushRecords (aggs address)).map fun records =>
      (records.flatMap fun record =>
        .sendOut address record :: sendTo ff3Eval record address 0 next)
        ++ [.finalize]
  | .mk .selector _ _ => .ok [.endOfStream address, .finalize]

mutual

/-- `~Builder_stage_base`. -/
def destroyStage (address : Address) : BuilderStage → Except Fault (List Event)
  | .mk kind options next => do
      let component ← destructor ff3Eval aggs address (.mk kind options next)
      let below ← destroyAll address 0 next
      return component ++ .destroyed address :: below

/-- The loops over the successors of a stage, and over the main branches in `~Builder`. -/
def destroyAll (address : Address) (index : Nat) : List BuilderStage → Except Fault (List Event)
  | [] => .ok []
  | head :: tail => do
      let first ← destroyStage (index :: address) head
      let rest ← destroyAll address (index + 1) tail
      return first ++ rest

end

/-- `~Builder`. -/
def destroyBuilder (root : BuilderVec) : Except Fault (List Event) :=
  destroyAll ff3Eval aggs [] 0 root

/-! ### The forest is destroyed stage by stage -/

/-- What happens while one stage is destroyed. -/
def stageEvents (stage : Address × BuilderStage) : Except Fault (List Event) :=
  (destructor ff3Eval aggs stage.1 stage.2).map fun component => component ++ [.destroyed stage.1]

/-- What happens while stages are destroyed one behind the other. -/
def eventsOf (stages : List (Address × BuilderStage)) : Except Fault (List Event) :=
  (stages.mapM (stageEvents ff3Eval aggs)).map List.flatten

theorem eventsOf_append (first second : List (Address × BuilderStage)) :
    eventsOf ff3Eval aggs (first ++ second) = (do
      let before ← eventsOf ff3Eval aggs first
      let after ← eventsOf ff3Eval aggs second
      return before ++ after) := by
  unfold eventsOf
  rw [List.mapM_append]
  cases first.mapM (stageEvents ff3Eval aggs) with
  | error fault => rfl
  | ok before =>
      cases second.mapM (stageEvents ff3Eval aggs) with
      | error fault => rfl
      | ok after => exact congrArg Except.ok (List.flatten_append ..)

theorem eventsOf_cons (head : Address × BuilderStage) (tail : List (Address × BuilderStage)) :
    eventsOf ff3Eval aggs (head :: tail) = (do
      let before ← stageEvents ff3Eval aggs head
      let after ← eventsOf ff3Eval aggs tail
      return before ++ after) := by
  unfold eventsOf
  rw [List.mapM_cons]
  cases stageEvents ff3Eval aggs head with
  | error fault => rfl
  | ok before =>
      cases tail.mapM (stageEvents ff3Eval aggs) with
      | error fault => rfl
      | ok after => rfl

mutual

theorem destroyStage_eq (address : Address) : (stage : BuilderStage) →
    destroyStage ff3Eval aggs address stage = eventsOf ff3Eval aggs (stagesIn address stage)
  | .mk kind options next => by
      rw [destroyStage, stagesIn, eventsOf_cons, destroyAll_eq address 0 next, stageEvents]
      cases destructor ff3Eval aggs address (.mk kind options next) with
      | error fault => rfl
      | ok component =>
          cases eventsOf ff3Eval aggs (stagesOf address 0 next) with
          | error fault => rfl
          | ok below => exact congrArg Except.ok (by simp)

/-- The stages are destroyed one behind the other, each before its successors. -/
theorem destroyAll_eq (address : Address) (index : Nat) : (forest : List BuilderStage) →
    destroyAll ff3Eval aggs address index forest =
      eventsOf ff3Eval aggs (stagesOf address index forest)
  | [] => rfl
  | head :: tail => by
      rw [destroyAll, stagesOf, eventsOf_append, destroyStage_eq (index :: address) head,
        destroyAll_eq address (index + 1) tail]

end

/-! ### Blocks of events -/

/-- What happens while one stage is destroyed, if nothing faults. -/
def block (stage : Address × BuilderStage) : List Event :=
  match stageEvents ff3Eval aggs stage with
  | .ok events => events
  | .error _ => []

theorem eventsOf_ok_iff {stages : List (Address × BuilderStage)} {events : List Event} :
    eventsOf ff3Eval aggs stages = .ok events ↔
      (∀ stage ∈ stages, stageEvents ff3Eval aggs stage = .ok (block ff3Eval aggs stage)) ∧
        events = stages.flatMap (block ff3Eval aggs) := by
  induction stages generalizing events with
  | nil => exact ⟨fun made => ⟨by simp, (Except.ok.inj made).symm⟩, fun none => none.2 ▸ rfl⟩
  | cons head tail inductionHypothesis =>
      rw [eventsOf_cons, List.forall_mem_cons, List.flatMap_cons]
      cases made : stageEvents ff3Eval aggs head with
      | error fault =>
          refine ⟨fun never => (nomatch never), fun each => ?_⟩
          cases each.1.1
      | ok own =>
          have isBlock : block ff3Eval aggs head = own := by rw [block, made]
          rw [isBlock, bind_ok]
          constructor
          · rintro ⟨_, isOwn, ran⟩
            obtain rfl := Except.ok.inj isOwn
            obtain ⟨rest, made, ran⟩ := bind_ok.mp ran
            obtain ⟨each, rfl⟩ := inductionHypothesis.mp made
            exact ⟨⟨rfl, each⟩, (Except.ok.inj ran).symm⟩
          · rintro ⟨⟨_, each⟩, rfl⟩
            exact ⟨own, rfl, bind_ok.mpr ⟨_, inductionHypothesis.mpr ⟨each, rfl⟩, rfl⟩⟩

/-- An aggregator whose completion of some stored record calls a NULL pointer faults, and nothing
else does. -/
theorem stageEvents_ok_iff {stage : Address × BuilderStage} :
    stageEvents ff3Eval aggs stage = .ok (block ff3Eval aggs stage) ↔
      ∀ options next, stage.2 = .mk .agg options next →
        (flushRecords (aggs stage.1)).isOk = true := by
  obtain ⟨address, ⟨kind, options, next⟩⟩ := stage
  cases kind with
  | filter | selector =>
      refine ⟨fun _ options next isAgg => by simp at isAgg, fun _ => rfl⟩
  | agg =>
      have made : stageEvents ff3Eval aggs (address, .mk .agg options next) =
          (flushRecords (aggs address)).map fun records =>
            ((records.flatMap fun record =>
              .sendOut address record :: sendTo ff3Eval record address 0 next) ++ [.finalize])
                ++ [.destroyed address] := by
        unfold stageEvents destructor
        cases flushRecords (aggs address) <;> rfl
      unfold block
      rw [made]
      cases flushRecords (aggs address) with
      | error fault =>
          refine ⟨fun never => (nomatch never), fun ok => ?_⟩
          have never := ok options next rfl
          cases never
      | ok records => exact ⟨fun _ _ _ _ => rfl, fun _ => rfl⟩

/-- What happens while an aggregator is destroyed that stores these records. -/
def flushEvents (address : Address) (next : BuilderVec) (records : List Record) : List Event :=
  records.flatMap fun record => .sendOut address record :: sendTo ff3Eval record address 0 next

theorem block_agg {address : Address} {options : Str} {next : BuilderVec} {records : List Record}
    (flushes : flushRecords (aggs address) = .ok records) :
    block ff3Eval aggs (address, .mk .agg options next) =
      flushEvents ff3Eval address next records ++ [.finalize] ++ [.destroyed address] := by
  unfold block stageEvents destructor
  dsimp only
  rw [flushes]
  rfl

/-! ### Where records are evaluated -/

variable {ff3Eval} {aggs}

mutual

/-- A stage is evaluated first, and then only successors of filters. -/
theorem eval_in {record other : Record} {address found : Address} : (stage : BuilderStage) →
    .eval found other ∈ evalStage ff3Eval record address stage →
      found = address ∨ ∃ index upper options next, found = index :: upper ∧
        (upper, .mk .filter options next) ∈ stagesIn address stage
  | .mk .filter options next, member => by
      rw [evalStage, List.mem_cons] at member
      rcases member with same | member
      · cases same
        exact Or.inl rfl
      · split at member
        · refine Or.inr ?_
          rcases eval_of next member with ⟨index, _, rfl⟩ | ⟨index, upper, _, _, rfl, inside⟩
          · exact ⟨index, address, options, next, rfl, List.mem_cons_self⟩
          · exact ⟨index, upper, _, _, rfl, List.mem_cons_of_mem _ inside⟩
        · simp at member
  | .mk .agg options next, member => by
      rw [evalStage, List.mem_singleton] at member
      cases member
      exact Or.inl rfl
  | .mk .selector options next, member => by
      simp only [evalStage, List.mem_cons, List.not_mem_nil, or_false, Event.eval.injEq,
        reduceCtorEq] at member
      exact Or.inl member.1

theorem eval_of {record other : Record} {address found : Address} {index : Nat} :
    (forest : List BuilderStage) →
    .eval found other ∈ sendTo ff3Eval record address index forest →
      (∃ position, index ≤ position ∧ found = position :: address) ∨
      ∃ position upper options next, found = position :: upper ∧
        (upper, .mk .filter options next) ∈ stagesOf address index forest
  | [], member => by simp [sendTo] at member
  | head :: tail, member => by
      rw [sendTo, List.mem_append] at member
      rw [stagesOf]
      rcases member with inHead | inTail
      · rcases eval_in head inHead with rfl | ⟨position, upper, _, _, rfl, member⟩
        · exact Or.inl ⟨index, Nat.le_refl _, rfl⟩
        · exact Or.inr ⟨position, upper, _, _, rfl, List.mem_append_left _ member⟩
      · rcases eval_of tail inTail with
          ⟨position, later, rfl⟩ | ⟨position, upper, _, _, rfl, member⟩
        · exact Or.inl ⟨position, by omega, rfl⟩
        · exact Or.inr ⟨position, upper, _, _, rfl, List.mem_append_right _ member⟩

end

theorem eval_suffix {record other : Record} {address found : Address} (stage : BuilderStage)
    (member : .eval found other ∈ evalStage ff3Eval record address stage) : address <:+ found := by
  rcases eval_in stage member with rfl | ⟨position, upper, _, _, rfl, inside⟩
  · exact List.suffix_rfl
  · exact (suffix_of_mem_stagesIn stage inside).trans (List.suffix_cons ..)

/-- A record is sent to stages below. -/
theorem eval_below {record other : Record} {address found : Address} {index : Nat}
    (forest : List BuilderStage)
    (member : .eval found other ∈ sendTo ff3Eval record address index forest) :
    ∃ position, index ≤ position ∧ position :: address <:+ found := by
  rcases eval_of forest member with ⟨position, later, rfl⟩ | ⟨position, upper, _, _, rfl, inside⟩
  · exact ⟨position, later, List.suffix_rfl⟩
  · obtain ⟨other, later, suffix⟩ := index_of_mem_stagesOf forest inside
    exact ⟨other, later, suffix.trans (List.suffix_cons ..)⟩

/-- The records that are evaluated on the stage at an address, in order. -/
def evaluatedOn (address : Address) (events : List Event) : List Record :=
  events.filterMap fun
    | .eval other record => if other = address then some record else none
    | _ => none

theorem evaluatedOn_append (address : Address) (first second : List Event) :
    evaluatedOn address (first ++ second) =
      evaluatedOn address first ++ evaluatedOn address second := List.filterMap_append

theorem evaluatedOn_eq_nil {address : Address} {events : List Event}
    (none : ∀ record, .eval address record ∉ events) : evaluatedOn address events = [] := by
  refine List.filterMap_eq_nil_iff.mpr fun event member => ?_
  cases event with
  | eval other record =>
      refine if_neg fun same => ?_
      exact none record (same ▸ member)
  | sendOut | trapSend | endOfStream | finalize | destroyed => rfl

theorem evaluatedOn_evalStage (record : Record) (address : Address) : (stage : BuilderStage) →
    evaluatedOn address (evalStage ff3Eval record address stage) = [record]
  | .mk .filter options next => by
      have below : evaluatedOn address
          (if ff3Eval options record ≠ 0 then sendTo ff3Eval record address 0 next
            else []) = [] := by
        refine evaluatedOn_eq_nil fun other member => ?_
        split at member
        · obtain ⟨position, _, suffix⟩ := eval_below next member
          exact Below.not_suffix ⟨position, suffix⟩ List.suffix_rfl
        · simp at member
      have first : evaluatedOn address [Event.eval address record] = [record] := by
        simp [evaluatedOn]
      rw [evalStage, ← List.singleton_append, evaluatedOn_append, first, below, List.append_nil]
  | .mk .agg options next => by simp [evalStage, evaluatedOn]
  | .mk .selector options next => by simp [evalStage, evaluatedOn]

/-- A successor evaluates a record that is sent to it once. -/
theorem evaluatedOn_sendTo {record : Record} {address : Address} {position : Nat} :
    (forest : List BuilderStage) → ∀ index, index ≤ position → position < index + forest.length →
      evaluatedOn (position :: address) (sendTo ff3Eval record address index forest) = [record]
  | [], index, after, within => by
      simp only [List.length_nil] at within
      omega
  | head :: tail, index, after, within => by
      rw [sendTo, evaluatedOn_append]
      by_cases here : position = index
      · subst here
        have others : evaluatedOn (position :: address)
            (sendTo ff3Eval record address (position + 1) tail) = [] := by
          refine evaluatedOn_eq_nil fun other member => ?_
          obtain ⟨sibling, later, suffix⟩ := eval_below tail member
          have same := index_unique suffix List.suffix_rfl
          omega
        rw [evaluatedOn_evalStage, others, List.append_nil]
      · have others : evaluatedOn (position :: address)
            (evalStage ff3Eval record (index :: address) head) = [] := by
          refine evaluatedOn_eq_nil fun other member => ?_
          exact here (index_unique List.suffix_rfl (eval_suffix head member))
        rw [List.length_cons] at within
        rw [others, List.nil_append, evaluatedOn_sendTo tail (index + 1) (by omega) (by omega)]

/-- A flush evaluates every record once on every successor. -/
theorem evaluatedOn_flushEvents {address : Address} {next : BuilderVec} {position : Nat}
    (within : position < next.length) (records : List Record) :
    evaluatedOn (position :: address) (flushEvents ff3Eval address next records) = records := by
  induction records with
  | nil => rfl
  | cons head tail inductionHypothesis =>
      have sends (rest : List Event) : evaluatedOn (position :: address)
          (.sendOut address head :: rest) = evaluatedOn (position :: address) rest := rfl
      rw [flushEvents, List.flatMap_cons, List.cons_append, sends, evaluatedOn_append,
        evaluatedOn_sendTo next 0 (by omega) (by omega)]
      exact congrArg (head :: ·) inductionHypothesis

/-! ### Orderly shutdown -/

/-- A record is evaluated or sent. -/
def Event.uses : Event → Bool
  | .sendOut _ _ | .eval _ _ | .trapSend _ _ => true
  | .endOfStream _ | .finalize | .destroyed _ => false

/-- What `~Builder` is to do: every record an aggregator still stores is evaluated once on each of
its successors, no destroyed stage is evaluated, and no record is used behind `ur_finalize`. -/
structure Orderly (aggs : Address → Agg) (root : BuilderVec) (events : List Event) : Prop where
  once : ∀ address options next, (address, .mk .agg options next) ∈ stagesOf [] 0 root →
    ∀ position < next.length,
      flushRecords (aggs address) = .ok (evaluatedOn (position :: address) events)
  alive : events.Pairwise fun earlier later =>
    ∀ address record, earlier = .destroyed address → later ≠ .eval address record
  defined : events.Pairwise fun earlier later => earlier = .finalize → later.uses = false

/-- A stage whose destructor calls `ur_finalize`. -/
def BuilderStage.finalizes : BuilderStage → Bool
  | .mk .filter _ _ => false
  | .mk .agg _ _ | .mk .selector _ _ => true

/-- An aggregator that still stores something. -/
def Stores (aggs : Address → Agg) : Address × BuilderStage → Prop
  | (address, .mk .agg _ _) => (aggs address).storage.entries ≠ []
  | (_, .mk .filter _ _) | (_, .mk .selector _ _) => False

mutual

theorem uses_in {record : Record} {address : Address} {event : Event} : (stage : BuilderStage) →
    event ∈ evalStage ff3Eval record address stage → event.uses = true
  | .mk .filter options next, member => by
      rw [evalStage, List.mem_cons] at member
      rcases member with rfl | member
      · rfl
      · split at member
        · exact uses_of next member
        · simp at member
  | .mk .agg options next, member => by
      rw [evalStage, List.mem_singleton] at member
      rw [member]
      rfl
  | .mk .selector options next, member => by
      rw [evalStage, List.mem_pair] at member
      rcases member with rfl | rfl <;> rfl

theorem uses_of {record : Record} {address : Address} {event : Event} {index : Nat} :
    (forest : List BuilderStage) → event ∈ sendTo ff3Eval record address index forest →
      event.uses = true
  | [], member => by simp [sendTo] at member
  | head :: tail, member => by
      rw [sendTo, List.mem_append] at member
      exact member.elim (uses_in head) (uses_of tail)

end

theorem uses_of_flushEvents {address : Address} {next : BuilderVec} {records : List Record}
    {event : Event} (member : event ∈ flushEvents ff3Eval address next records) :
    event.uses = true := by
  obtain ⟨record, _, member⟩ := List.mem_flatMap.mp member
  rcases List.mem_cons.mp member with rfl | member
  · rfl
  · exact uses_of next member

section Blocks

variable {stage : Address × BuilderStage}

/-- Records are evaluated only while an aggregator above is destroyed. -/
theorem eval_of_block {found : Address} {record : Record}
    (ok : stageEvents ff3Eval aggs stage = .ok (block ff3Eval aggs stage))
    (member : .eval found record ∈ block ff3Eval aggs stage) :
    Below found stage.1 ∧ ∃ options next, stage.2 = .mk .agg options next ∧
      ((∃ position, found = position :: stage.1) ∨
        ∃ position upper options' next', found = position :: upper ∧
          (upper, .mk .filter options' next') ∈ stagesOf stage.1 0 next) := by
  obtain ⟨address, ⟨kind, options, next⟩⟩ := stage
  cases kind with
  | filter => simp [block, stageEvents, destructor, Except.map] at member
  | selector => simp [block, stageEvents, destructor, Except.map] at member
  | agg =>
      have flushes := (stageEvents_ok_iff ff3Eval aggs).mp ok options next rfl
      obtain ⟨records, flushes⟩ := exists_ok_of_isOk flushes
      rw [block_agg ff3Eval aggs flushes] at member
      simp only [flushEvents, List.mem_append, List.mem_flatMap, List.mem_cons, reduceCtorEq,
        false_or, List.not_mem_nil, or_false] at member
      obtain ⟨sent, _, member⟩ := member
      obtain ⟨position, _, suffix⟩ := eval_below next member
      refine ⟨⟨position, suffix⟩, options, next, rfl, ?_⟩
      rcases eval_of next member with ⟨position, _, same⟩ | inside
      · exact Or.inl ⟨position, same⟩
      · exact Or.inr inside

/-- A stage sends what it still stores, and is then destroyed. -/
theorem block_shape (ok : stageEvents ff3Eval aggs stage = .ok (block ff3Eval aggs stage)) :
    ∃ sent rest, block ff3Eval aggs stage = sent ++ rest ++ [.destroyed stage.1] ∧
      (∀ event ∈ sent, event.uses = true) ∧ (sent ≠ [] ↔ Stores aggs stage) ∧
      (stage.2.finalizes = false ∧ rest = [] ∨ stage.2.finalizes = true ∧
        (rest = [.finalize] ∨ rest = [.endOfStream stage.1, .finalize])) := by
  obtain ⟨address, ⟨kind, options, next⟩⟩ := stage
  cases kind with
  | filter => exact ⟨[], [], rfl, by simp, by simp [Stores], Or.inl ⟨rfl, rfl⟩⟩
  | selector =>
      exact ⟨[], [.endOfStream address, .finalize], rfl, by simp, by simp [Stores],
        Or.inr ⟨rfl, Or.inr rfl⟩⟩
  | agg =>
      have flushes := (stageEvents_ok_iff ff3Eval aggs).mp ok options next rfl
      obtain ⟨records, flushes⟩ := exists_ok_of_isOk flushes
      refine ⟨flushEvents ff3Eval address next records, [.finalize],
        block_agg ff3Eval aggs flushes, fun event => uses_of_flushEvents, ?_,
        Or.inr ⟨rfl, Or.inl rfl⟩⟩
      have length := length_of_mapM flushes
      rw [Stores, ← List.length_pos_iff, ← List.length_pos_iff, ← length]
      cases records <;> simp [flushEvents]

theorem destroyed_of_block {address : Address}
    (ok : stageEvents ff3Eval aggs stage = .ok (block ff3Eval aggs stage))
    (member : .destroyed address ∈ block ff3Eval aggs stage) : address = stage.1 := by
  obtain ⟨sent, rest, isBlock, uses, _, kind⟩ := block_shape ok
  have unsent : .destroyed address ∉ sent := fun inSent => by cases uses _ inSent
  rw [isBlock] at member
  rcases kind with ⟨_, rfl⟩ | ⟨_, rfl | rfl⟩ <;> simpa [unsent] using member

theorem finalize_mem_block
    (ok : stageEvents ff3Eval aggs stage = .ok (block ff3Eval aggs stage)) :
    .finalize ∈ block ff3Eval aggs stage ↔ stage.2.finalizes = true := by
  obtain ⟨sent, rest, isBlock, uses, _, kind⟩ := block_shape ok
  have unsent : .finalize ∉ sent := fun inSent => by cases uses _ inSent
  rw [isBlock]
  rcases kind with ⟨kind, rfl⟩ | ⟨kind, rfl | rfl⟩ <;> simp [unsent, kind]

theorem uses_block (ok : stageEvents ff3Eval aggs stage = .ok (block ff3Eval aggs stage)) :
    (∃ event ∈ block ff3Eval aggs stage, event.uses = true) ↔ Stores aggs stage := by
  obtain ⟨sent, rest, isBlock, uses, stores, kind⟩ := block_shape ok
  rw [isBlock, ← stores]
  constructor
  · rintro ⟨event, member, used⟩ rfl
    have unused : ∀ event ∈ rest ++ [.destroyed stage.1], event.uses = false := by
      rcases kind with ⟨_, rfl⟩ | ⟨_, rfl | rfl⟩ <;> simp [Event.uses]
    rw [unused event member] at used
    cases used
  · intro nonempty
    obtain ⟨event, member⟩ := List.exists_mem_of_ne_nil sent nonempty
    exact ⟨event, by simp [member], uses event member⟩

theorem defined_block (ok : stageEvents ff3Eval aggs stage = .ok (block ff3Eval aggs stage)) :
    (block ff3Eval aggs stage).Pairwise fun earlier later =>
      earlier = .finalize → later.uses = false := by
  obtain ⟨sent, rest, isBlock, uses, _, kind⟩ := block_shape ok
  rw [isBlock, List.append_assoc, List.pairwise_append]
  refine ⟨List.pairwise_of_forall_mem_list fun earlier inSent _ _ => ?_, ?_,
    fun earlier inSent _ _ => ?_⟩
  · rintro rfl
    cases uses _ inSent
  · rcases kind with ⟨_, rfl⟩ | ⟨_, rfl | rfl⟩ <;> simp [Event.uses]
  · rintro rfl
    cases uses _ inSent

end Blocks

variable {stages : List (Address × BuilderStage)}

/-- No stage is evaluated behind its destruction. -/
theorem alive_of_parentsFirst (first : ParentsFirst stages)
    (ok : ∀ stage ∈ stages, stageEvents ff3Eval aggs stage = .ok (block ff3Eval aggs stage)) :
    (stages.flatMap (block ff3Eval aggs)).Pairwise fun earlier later =>
      ∀ address record, earlier = .destroyed address → later ≠ .eval address record := by
  rw [List.pairwise_flatMap]
  constructor
  · intro stage member
    refine List.pairwise_of_forall_mem_list fun earlier inBlock later inBlock' => ?_
    rintro address record rfl rfl
    obtain rfl := destroyed_of_block (ok stage member) inBlock
    exact (eval_of_block (ok stage member) inBlock').1.not_suffix List.suffix_rfl
  · refine first.imp_of_mem fun {before after} member member' notAbove => ?_
    rintro earlier inBlock later inBlock' address record rfl rfl
    obtain rfl := destroyed_of_block (ok before member) inBlock
    exact notAbove (eval_of_block (ok after member') inBlock').1.suffix

/-- A record is used behind `ur_finalize` just when an aggregator that stores something is
destroyed behind another aggregator or a selector. -/
theorem defined_iff
    (ok : ∀ stage ∈ stages, stageEvents ff3Eval aggs stage = .ok (block ff3Eval aggs stage)) :
    ((stages.flatMap (block ff3Eval aggs)).Pairwise fun earlier later =>
      earlier = .finalize → later.uses = false) ↔
    stages.Pairwise fun earlier later => earlier.2.finalizes = true → ¬ Stores aggs later := by
  rw [List.pairwise_flatMap]
  constructor
  · rintro ⟨_, between⟩
    refine between.imp_of_mem fun {before after} member member' defined finalizes stores => ?_
    obtain ⟨event, inBlock, uses⟩ := (uses_block (ok after member')).mpr stores
    have unused := defined _ ((finalize_mem_block (ok before member)).mpr finalizes) _ inBlock rfl
    rw [uses] at unused
    cases unused
  · intro ordered
    refine ⟨fun stage member => defined_block (ok stage member), ?_⟩
    refine ordered.imp_of_mem fun {before after} member member' none => ?_
    rintro earlier inBlock later inBlock' rfl
    by_contra uses
    refine none ((finalize_mem_block (ok before member)).mp inBlock)
      ((uses_block (ok after member')).mp ⟨later, inBlock', by simpa using uses⟩)

/-- A successor of an aggregator evaluates the records of its flush and no others. -/
theorem evaluatedOn_successor (first : ParentsFirst stages)
    (below : ∀ address kind options next, (address, .mk kind options next) ∈ stages →
      stagesOf address 0 next ⊆ stages)
    (ok : ∀ stage ∈ stages, stageEvents ff3Eval aggs stage = .ok (block ff3Eval aggs stage))
    {address : Address} {options : Str} {next : BuilderVec}
    (member : (address, .mk .agg options next) ∈ stages) {records : List Record}
    (flushes : flushRecords (aggs address) = .ok records) {position : Nat}
    (within : position < next.length) :
    evaluatedOn (position :: address) (stages.flatMap (block ff3Eval aggs)) = records := by
  -- Only the flush of the aggregator itself evaluates its successors.
  have elsewhere (stage : Address × BuilderStage) (inStages : stage ∈ stages)
      (other : stage.1 ≠ address) (record : Record) :
      .eval (position :: address) record ∉ block ff3Eval aggs stage := by
    intro inBlock
    obtain ⟨_, options', next', isAgg, found⟩ := eval_of_block (ok stage inStages) inBlock
    rcases found with ⟨_, same⟩ | ⟨_, upper, options'', next'', same, inside⟩
    · exact other (List.cons.inj same).2.symm
    · obtain rfl := (List.cons.inj same).2
      obtain ⟨place, component⟩ := stage
      obtain rfl : component = .mk .agg options' next' := isAgg
      have filter := below place _ options' next' inStages inside
      have equal := first.unique member filter rfl
      simp at equal
  obtain ⟨before, after, rfl⟩ := List.append_of_mem member
  obtain ⟨_, inAfter, across⟩ := List.pairwise_append.mp first
  have beforeNone : evaluatedOn (position :: address)
      (before.flatMap (block ff3Eval aggs)) = [] := by
    refine evaluatedOn_eq_nil fun record inBlocks => ?_
    obtain ⟨stage, inBefore, inBlock⟩ := List.mem_flatMap.mp inBlocks
    refine elsewhere stage (List.mem_append_left _ inBefore) (fun same => ?_) record inBlock
    exact across stage inBefore _ List.mem_cons_self ⟨[], same.symm⟩
  have afterNone : evaluatedOn (position :: address)
      (after.flatMap (block ff3Eval aggs)) = [] := by
    refine evaluatedOn_eq_nil fun record inBlocks => ?_
    obtain ⟨stage, isAfter, inBlock⟩ := List.mem_flatMap.mp inBlocks
    refine elsewhere stage (List.mem_append_right _ (List.mem_cons_of_mem _ isAfter))
      (fun same => ?_) record inBlock
    exact (List.pairwise_cons.mp inAfter).1 stage isAfter ⟨[], same⟩
  have rest : evaluatedOn (position :: address) [Event.finalize] = [] ∧
      evaluatedOn (position :: address) [Event.destroyed address] = [] := ⟨rfl, rfl⟩
  rw [List.flatMap_append, List.flatMap_cons, evaluatedOn_append, evaluatedOn_append, beforeNone,
    afterNone, block_agg ff3Eval aggs flushes, evaluatedOn_append, evaluatedOn_append,
    evaluatedOn_flushEvents within, rest.1, rest.2]
  simp

end Shutdown

/-- `~Builder` shuts the pipeline down in order just when no completion of a stored record calls a
NULL pointer, and of all aggregators and selectors only the first that is destroyed still stores
something. -/
theorem orderly_iff (ff3Eval : Str → Record → Int) (aggs : Address → Agg) (root : BuilderVec) :
    (∃ events, destroyBuilder ff3Eval aggs root = .ok events ∧ Orderly aggs root events) ↔
      (∀ address options next, (address, .mk .agg options next) ∈ stagesOf [] 0 root →
        (flushRecords (aggs address)).isOk = true) ∧
      (stagesOf [] 0 root).Pairwise fun earlier later =>
        earlier.2.finalizes = true → ¬ Stores aggs later := by
  have first := parentsFirst_of [] 0 root
  have allOk : (∀ stage ∈ stagesOf [] 0 root,
      stageEvents ff3Eval aggs stage = .ok (block ff3Eval aggs stage)) ↔
      ∀ address options next, (address, .mk .agg options next) ∈ stagesOf [] 0 root →
        (flushRecords (aggs address)).isOk = true := by
    constructor
    · exact fun ok address options next member =>
        (stageEvents_ok_iff ff3Eval aggs).mp (ok _ member) options next rfl
    · rintro flushes ⟨address, stage⟩ member
      refine (stageEvents_ok_iff ff3Eval aggs).mpr ?_
      rintro options next rfl
      exact flushes address options next member
  rw [← allOk, destroyBuilder, destroyAll_eq]
  constructor
  · rintro ⟨events, destroys, orderly⟩
    obtain ⟨ok, rfl⟩ := (eventsOf_ok_iff ff3Eval aggs).mp destroys
    exact ⟨ok, (defined_iff ok).mp orderly.defined⟩
  · rintro ⟨ok, ordered⟩
    refine ⟨_, (eventsOf_ok_iff ff3Eval aggs).mpr ⟨ok, rfl⟩, ?_, alive_of_parentsFirst first ok,
      (defined_iff ok).mpr ordered⟩
    intro address options next member position within
    obtain ⟨records, flushes⟩ := exists_ok_of_isOk (allOk.mp ok address options next member)
    rw [flushes, evaluatedOn_successor first (fun _ _ _ _ => stagesOf_subset_of root) ok member
      flushes within]

/-! ### A selector before an aggregator -/

/-- `a { selector: DST_IP; } b { aggregator: v = SUM(PACKETS); selector: v; }`. -/
def selectorFirst : MainBranches where
  first := .mk .a (.stage (.selector ⟨⟨.keyword .dstIP, none⟩, []⟩))
  rest := .cons (.mk ⟨"b".toList, rfl⟩ (.stage (.aggregator
    { body := ⟨⟨.v, .withParam ⟨.sum, .packets⟩⟩, []⟩
      succ := .stage (.selector ⟨⟨.name "v".toList, none⟩, []⟩) }))) .nil

theorem selectorFirst_accepted : ∃ data, Accepted selectorFirst data := by
  obtain ⟨data, accepted, _⟩ :=
    accepted_of_accepts selectorFirst (fun _ => true) (by decide +kernel)
  exact ⟨data, accepted⟩

/-- The aggregator of `selectorFirst` sends its record behind the `ur_finalize` of the selector. -/
theorem selectorFirst_disordered :
    ∃ data root, Accepted selectorFirst data ∧ buildRoot data 0 = .ok root ∧
      ∃ options next config start labels stored,
        ([1], .mk .agg options next) ∈ stagesOf [] 0 root ∧
        Config.ofOptions options = .ok config ∧ Agg.init .plain config 0 true false = some start ∧
        aggSystem.Steps start labels stored ∧
        ∀ ff3Eval, ¬ ∃ events, destroyBuilder ff3Eval (fun _ => stored) root = .ok events ∧
          Orderly (fun _ => stored) root events := by
  obtain ⟨data, accepted⟩ := selectorFirst_accepted
  have fills : ((Agg.init .plain
      (stageConfig .root ⟨⟨⟨"v".toList, rfl⟩, .withParam ⟨.sum, .packets⟩⟩, []⟩) 0 true false).map
        fun agg => (agg.eval fun _ => 0).map fun agg => agg.storage.entries.length) =
      some (.ok 1) := by decide +kernel
  obtain ⟨start, initial, ran⟩ := Option.map_eq_some_iff.mp fills
  obtain ⟨stored, evaluates, one⟩ := map_ok.mp ran
  have leads : start.Leads (.eval fun _ => 0) (.ok stored) := evaluates ▸ .eval _
  refine ⟨data, _, accepted, buildRoot_of_run accepted.run 0, _, _, _, start, [.eval fun _ => 0],
    stored, List.mem_cons_of_mem _ List.mem_cons_self,
    (ofOptions_aggOptions _ _).trans (if_pos (by decide)), initial, .step .refl leads, ?_⟩
  rintro ff3Eval ⟨events, destroys, orderly⟩
  rw [destroyBuilder, destroyAll_eq] at destroys
  obtain ⟨ok, rfl⟩ := (eventsOf_ok_iff ff3Eval _).mp destroys
  have ordered := (defined_iff ok).mp orderly.defined
  have stores : ¬ Stores (fun _ => stored) ([1], _) :=
    (List.pairwise_cons.mp ordered).1 _ List.mem_cons_self rfl
  refine stores fun empty => ?_
  rw [empty] at one
  cases one

end Policer.Backend
