import Policer.Aggregator.Averages
import Mathlib.Algebra.BigOperators.Group.List.Basic
import Mathlib.Data.BitVec
import Mathlib.Tactic.LinearCombination
import Mathlib.Tactic.Ring

/-!
# No record is lost on the way

The counts of what an aggregator has sent and of what it stores add up to the number of records
it has accepted, in every run and modulo the width of `COUNT`. Behind its destructor everything
has been sent.
-/

namespace Policer.Aggregator

open Policer.Lib Policer.Parsing Policer.Backend

/-! ### Counts of stored records -/

/-- The count of an entry of the storage. -/
def entryCount (entry : Sigma fun _ : Key => Stored) : BitVec 32 := entry.2.record.count

namespace Agg

/-- The records that were sent or are stored, by their counts. -/
def counted (agg : Agg) : BitVec 32 :=
  (agg.sent.map Record.count).sum + (agg.storage.entries.map entryCount).sum

/-- The entry of a key and the other entries. -/
theorem storage_perm {agg : Agg} {key : Key} {stored : Stored}
    (found : agg.storage.lookup key = some stored) :
    agg.storage.entries.Perm (⟨key, stored⟩ :: agg.storage.entries.kerase key) := by
  have inStorage := AList.mem_lookup_iff.mp found
  obtain ⟨other, before, after, _, isEntries, isRest⟩ :=
    List.exists_of_kerase (List.mem_keys_of_mem inStorage)
  have isOther : (⟨key, other⟩ : Sigma fun _ : Key => Stored) ∈ agg.storage.entries := by
    rw [isEntries]
    exact List.mem_append_right _ List.mem_cons_self
  obtain rfl := agg.storage.nodupKeys.eq_of_mk_mem inStorage isOther
  rw [isRest, isEntries]
  exact List.perm_middle

/-- The counts behind a new entry in place of that of its key. -/
theorem sum_insert_of_lookup {agg : Agg} {key : Key} {stored : Stored}
    (found : agg.storage.lookup key = some stored) (fresh : Stored) :
    ((agg.storage.insert key fresh).entries.map entryCount).sum + stored.record.count =
      fresh.record.count + (agg.storage.entries.map entryCount).sum := by
  rw [AList.entries_insert, ((storage_perm found).map entryCount).sum_eq]
  simp only [List.map_cons, List.sum_cons, entryCount]
  ring

theorem sum_insert_of_absent {agg : Agg} {key : Key} (absent : agg.storage.lookup key = none)
    (fresh : Stored) : ((agg.storage.insert key fresh).entries.map entryCount).sum =
      fresh.record.count + (agg.storage.entries.map entryCount).sum := by
  rw [AList.entries_insert,
    List.kerase_of_notMem_keys (AList.lookup_eq_none.mp absent), List.map_cons, List.sum_cons]
  rfl

end Agg

/-! ### What a step does to the counts -/

section Stage

variable {ctx : Context} {body : AggregatorBody} {agg next : Agg} {stored : Stored}

/-- What is sent has the count of what is stored. -/
theorem OfStage.count_of_sent (stage : OfStage ctx body agg) {out : Record}
    (sends : agg.sendRecordOut stored = .ok out) : out.count = stored.record.count := by
  have counters : Field.count ∉ (agg.outputTemp.fieldsLikePtr.zip stored.vectors).map
      fun counter => counter.1.record := by
    intro isCounter
    obtain ⟨counter, inCounters, same⟩ := List.mem_map.mp isCounter
    have isPtr := (List.of_mem_zip inCounters).1
    rw [stage.fieldsLikePtr] at isPtr
    obtain ⟨counted, _, counts, isCounter⟩ := mem_ptrFields.mp isPtr
    rw [ptrOf?_functionField counts] at isCounter
    rw [← Option.some.inj isCounter] at same
    cases same
  unfold Agg.sendRecordOut at sends
  split at sends
  · have written : ∀ divided : Record,
        (agg.outputTemp.fieldsLikePtr.zip stored.vectors).foldlM Agg.makeField divided = .ok out →
          out.count = divided.count := by
      intro divided made
      rw [Record.count, foldlM_makeField made, Record.setAll_other _ _ counters]
      rfl
    rw [Agg.prepareToSend] at sends
    split at sends
    · obtain ⟨divided, first, second⟩ := bind_ok.mp sends
      have loop := postprocess_loop stage.ofConfig.distinct (fun _ => stage.notStatic) first
      exact (written divided second).trans
        (loop.1 _ (stage.static_notPlain (by simp [staticIds])))
    · exact written _ sends
  · rw [← Except.ok.inj sends]

theorem count_initRecordData {src dst : Record} (made : agg.initRecordData src dst = .ok stored) :
    stored.record.count = 1 := by
  obtain ⟨vectors, _, rfl⟩ := map_ok.mp made
  exact Record.set_same (urCopyFields agg.outputTemp.outTmplt dst src) .count 1

theorem OfStage.count_process (stage : OfStage ctx body agg) (src : Record) (stored : Stored) :
    (agg.processAggFunctions src stored).record.count = stored.record.count + 1 :=
  (processFields_other (stage.static_notPlain (by simp [staticIds])) src _).trans
    (Folding.updateStatics_count src stored.record)

/-- Entries that are sent keep their counts. -/
theorem OfStage.counted_sendOut (stage : OfStage ctx body agg) {leaves : Stored → Bool}
    (sends : agg.sendOut leaves = .ok next) : next.counted = agg.counted := by
  obtain ⟨records, made, rfl⟩ := Agg.sendOut_ok sends
  have related : List.Forall₂ (fun out entry => out.count = entryCount entry) records
      (agg.storage.entries.filter fun entry => leaves entry.2) :=
    forall₂_of_mapM made fun _ _ _ sends => stage.count_of_sent sends
  have same : records.map Record.count =
      (agg.storage.entries.filter fun entry => leaves entry.2).map entryCount := by
    rw [← List.forall₂_eq_eq_eq, List.forall₂_map_left_iff, List.forall₂_map_right_iff]
    exact related
  have split := ((List.filter_append_perm (fun entry => leaves entry.2)
    agg.storage.entries).map entryCount).sum_eq
  rw [List.map_append, List.sum_append] at split
  simp only [Agg.counted, Agg.keepEntries, List.map_append, List.sum_append, same]
  rw [← split]
  ring

/-- A record that is stored is counted. -/
theorem OfStage.counted_store (stage : OfStage ctx body agg) {inRec : Record}
    (stores : agg.store inRec = .ok next) : next.counted = agg.counted + 1 := by
  rcases Agg.store_ok stores with ⟨stored, found, _, rfl⟩ |
    ⟨stored, sentRec, fresh, found, _, sends, made, rfl⟩ | ⟨fresh, absent, made, rfl⟩
  · have sum := Agg.sum_insert_of_lookup found (agg.processAggFunctions inRec stored)
    rw [stage.count_process] at sum
    simp only [Agg.counted]
    linear_combination sum
  · have sum := Agg.sum_insert_of_lookup found fresh
    rw [count_initRecordData made] at sum
    have count := stage.count_of_sent sends
    simp only [Agg.counted, List.map_append, List.sum_append, List.map_cons, List.map_nil,
      List.sum_cons, List.sum_nil, add_zero, count]
    linear_combination sum
  · have sum := Agg.sum_insert_of_absent absent fresh
    rw [count_initRecordData made] at sum
    simp only [Agg.counted, sum]
    ring

theorem OfStage.of_sameSetup (stage : OfStage ctx body agg) (setup : SameSetup agg next) :
    OfStage ctx body next := by
  constructor <;> rw [setup.outputTemp]
  exacts [stage.fields, stage.fieldsLikePtr, stage.outTmplt, stage.prepareToSend,
    stage.avgPostprocessing]

theorem counted_startTimeouts (agg : Agg) : agg.startTimeouts.counted = agg.counted := by
  unfold Agg.startTimeouts
  split <;> rfl

theorem OfStage.counted_checkTimeouts (stage : OfStage ctx body agg)
    (checks : agg.checkTimeouts = .ok next) : next.counted = agg.counted := by
  have sweeps : (agg.sendOut agg.expired).map Agg.startTimeouts = .ok next →
      next.counted = agg.counted := by
    intro sweep
    obtain ⟨rest, swept, rfl⟩ := map_ok.mp sweep
    exact (counted_startTimeouts rest).trans (stage.counted_sendOut swept)
  unfold Agg.checkTimeouts at checks
  split at checks
  · cases checks
    rfl
  · split at checks
    · exact stage.counted_sendOut checks
    · cases checks
      rfl
    · exact sweeps checks
    · exact sweeps checks

theorem OfStage.counted_eval (stage : OfStage ctx body agg) {inRec : Record}
    (evaluates : agg.eval inRec = .ok next) :
    next.counted = agg.counted + if agg.stop then 0 else 1 := by
  have noted : (agg.noteFirstRecord inRec).counted = agg.counted := by simp [Agg.counted]
  unfold Agg.eval at evaluates
  dsimp only at evaluates
  rw [Agg.stop_noteFirstRecord] at evaluates
  split at evaluates
  · rename_i stopped
    cases evaluates
    rw [noted, if_pos stopped, add_zero]
  · rename_i running
    have stage := stage.of_sameSetup (.noteFirstRecord agg inRec)
    rw [stage.counted_store evaluates, noted, if_neg running]

/-- A step counts the record it accepts. -/
theorem OfStage.counted_of_leads (stage : OfStage ctx body agg) {label : AggStep}
    (leads : agg.Leads label (.ok next)) : next.counted = agg.counted +
      if agg.stop then 0 else BitVec.ofNat 32 (Aggregation.record? label).toList.length := by
  have silent : ∀ {label : AggStep}, Aggregation.record? label = none →
      next.counted = agg.counted → next.counted = agg.counted + if agg.stop then 0 else
        BitVec.ofNat 32 (Aggregation.record? label).toList.length := by
    intro label none same
    rw [none, same]
    cases agg.stop <;> simp
  generalize outcome : (Except.ok next : Except Fault Agg) = result at leads
  cases leads with
  | eval inRec => exact stage.counted_eval outcome.symm
  | startTimeouts =>
      cases outcome
      exact silent rfl (counted_startTimeouts agg)
  | checkTimeouts => exact silent rfl (stage.counted_checkTimeouts outcome.symm)
  | destroy =>
      have flushes : Agg.flushStorage { agg with stop := true } = .ok next := outcome.symm
      have setup : SameSetup agg { agg with stop := true } := ⟨rfl, rfl, rfl⟩
      exact silent rfl ((stage.of_sameSetup setup).counted_sendOut flushes)
  | rehash reordered =>
      cases outcome
      refine silent rfl ?_
      simp only [Agg.counted, (reordered.map entryCount).sum_eq]
  | otherEval | otherDestroy =>
      cases outcome
      exact silent rfl rfl

end Stage

/-! ### Runs -/

/-- A destructor has run and nothing is stored. -/
def Agg.Emptied (agg : Agg) : Prop := agg.stop = true ∧ agg.storage.entries = []

theorem Agg.emptied_of_destroy {agg next : Agg} (destroys : agg.destroy = .ok next) :
    next.Emptied := by
  unfold Agg.destroy Agg.flushStorage at destroys
  obtain ⟨records, _, rfl⟩ := Agg.sendOut_ok destroys
  exact ⟨rfl, List.filter_eq_nil_iff.mpr fun _ _ => by simp⟩

/-- Nothing is stored any more behind a destructor. -/
theorem Agg.Emptied.of_leads {agg next : Agg} (emptied : agg.Emptied) {label : AggStep}
    (leads : agg.Leads label (.ok next)) : next.Emptied := by
  obtain ⟨stopped, empty⟩ := emptied
  generalize outcome : (Except.ok next : Except Fault Agg) = result at leads
  cases leads with
  | eval inRec =>
      have dropped : agg.eval inRec = .ok (agg.noteFirstRecord inRec) := by
        simp [Agg.eval, stopped]
      rw [dropped] at outcome
      cases outcome
      exact ⟨by simp [stopped], by simp [empty]⟩
  | startTimeouts =>
      cases outcome
      unfold Agg.startTimeouts
      split <;> exact ⟨stopped, empty⟩
  | checkTimeouts =>
      rw [Agg.checkTimeouts, if_pos stopped] at outcome
      cases outcome
      exact ⟨stopped, empty⟩
  | destroy => exact Agg.emptied_of_destroy outcome.symm
  | rehash reordered =>
      cases outcome
      exact ⟨stopped, (List.nil_perm.mp (empty ▸ reordered))⟩
  | otherEval =>
      cases outcome
      exact ⟨stopped, empty⟩
  | otherDestroy =>
      cases outcome
      exact ⟨rfl, empty⟩

/-- An aggregator that was destroyed stores nothing. -/
theorem emptied_of_steps {agg agg' : Agg} {labels : List AggStep}
    (run : aggSystem.Steps agg labels agg') (destroyed : .destroy ∈ labels) : agg'.Emptied := by
  refine run.invariant (fun labels agg' => .destroy ∈ labels → agg'.Emptied) (by simp) ?_ destroyed
  intro before middle label after emptied leads member
  rcases List.mem_append.mp member with earlier | now
  · exact (emptied earlier).of_leads leads
  · obtain rfl := List.mem_singleton.mp now
    have destroys : middle.Leads .destroy (.ok after) := leads
    generalize outcome : (Except.ok after : Except Fault Agg) = result at destroys
    cases destroys
    exact Agg.emptied_of_destroy outcome.symm

/-- The counts of what was sent and of what is stored add up to the number of accepted records,
and behind the destructor nothing is stored. -/
theorem counts_conserved {unirec : Libunirec} {ctx : Context} {body : AggregatorBody} {now : Int}
    {once : Bool} {agg agg' : Agg}
    (initial : Agg.init unirec (stageConfig ctx body) now once false = some agg)
    {labels : List AggStep} (run : aggSystem.Steps agg labels agg') :
    (agg'.sent.map Record.count).sum + (agg'.storage.entries.map entryCount).sum =
        BitVec.ofNat 32 (Aggregation.accepted labels).length ∧
      (.destroy ∈ labels → agg'.storage.entries = []) := by
  refine ⟨?_, fun destroyed => (emptied_of_steps run destroyed).2⟩
  change agg'.counted = _
  induction run with
  | refl =>
      rw [init_eq (known_of_init initial)] at initial
      obtain rfl := Option.some.inj initial
      rfl
  | @step middle after before label prior leads ih =>
      obtain ⟨state, reached, mirrors⟩ := windows_of_run initial prior
      have stopped : middle.stop = before.any Aggregation.stops :=
        mirrors.stopped.trans (Aggregation.partitions_of_steps reached).stopped
      have stage := (ofStage_of_init initial).of_sameSetup (.of_steps prior)
      rw [stage.counted_of_leads leads, ih, Aggregation.accepted_append, stopped,
        List.length_append, BitVec.ofNat_add]
      congr 1
      cases before.any Aggregation.stops <;> cases label <;>
        simp [Aggregation.stops, Aggregation.record?]

/-- Two records and the destructor of the aggregator of `averageTtl`. -/
theorem counts_conserved_averageTtl : ∃ agg',
    aggSystem.Steps averageTtlAgg [.eval largestTtl, .eval largestTtl, .destroy] agg' ∧
      (agg'.sent.map Record.count).sum + (agg'.storage.entries.map entryCount).sum = 2 ∧
        agg'.storage.entries = [] := by
  obtain ⟨agg', ran⟩ : ∃ agg', (averageTtlAgg.eval largestTtl >>= fun first =>
      first.eval largestTtl >>= Agg.destroy) = .ok agg' := exists_ok_of_isOk (by decide +kernel)
  obtain ⟨first, isFirst, ran⟩ := bind_ok.mp ran
  obtain ⟨second, isSecond, isLast⟩ := bind_ok.mp ran
  have one : averageTtlAgg.Leads (.eval largestTtl) (.ok first) := isFirst ▸ .eval largestTtl
  have two : first.Leads (.eval largestTtl) (.ok second) := isSecond ▸ .eval largestTtl
  have three : second.Leads .destroy (.ok agg') := isLast ▸ .destroy
  have run : aggSystem.Steps averageTtlAgg [.eval largestTtl, .eval largestTtl, .destroy] agg' :=
    .step (.step (.step .refl one) two) three
  obtain ⟨counts, empty⟩ := counts_conserved averageTtlAgg_init run
  exact ⟨agg', run, counts, empty (by simp)⟩

end Policer.Aggregator
