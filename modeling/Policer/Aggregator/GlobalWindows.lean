import Policer.Aggregator.NullPointer
import Policer.Aggregator.OrderFree

/-!
# Between two flushes

With a global timeout a record always joins the window of its key, and a flush closes all
windows. What a flush sends is the same for every order of the records that were
evaluated since the last one, when no function has an order.
-/

namespace Policer.Aggregator

open Policer.Lib Policer.Parsing

/-! ### Steps between flushes -/

/-- The step neither checks the timeouts nor stops an aggregator. -/
def AggStep.isQuiet : AggStep → Bool
  | .checkTimeouts | .destroy | .otherDestroy => false
  | .eval _ | .startTimeouts | .rehash | .otherEval => true

/-- The step flushes the storage when the timeout is global. -/
def AggStep.isFlush : AggStep → Bool
  | .checkTimeouts | .destroy => true
  | _ => false

namespace Aggregation

/-- The records of the steps in order. -/
def recordsOf (labels : List AggStep) : List Record := labels.filterMap record?

/-- The records of a key. -/
def groupOf (keyTemp : List Field) (key : Key) (inRecs : List Record) : List Record :=
  inRecs.filter fun inRec => recKey keyTemp inRec = key

/-- Since the start no window has been closed, and the records have joined those of their keys. -/
structure Gathers (keyTemp : List Field) (start : Aggregation) (labels : List AggStep)
    (state : Aggregation) : Prop where
  running : state.stopped = false
  closed : state.windows.closed = start.windows.closed
  opened : ∀ key, state.windows.opened key =
    start.windows.opened key ++ groupOf keyTemp key (recordsOf labels)

variable {keyTemp : List Field} {timeouts : Timeouts} {start state next : Aggregation}
  {labels : List AggStep}

/-- With a global timeout no record starts a window of its own. -/
theorem not_restarts (global : timeouts.timeoutType = .global) (group : List Record)
    (inRec : Record) : ¬ Restarts timeouts group inRec := by
  rintro ⟨active, _⟩
  rw [global] at active
  cases active

theorem recordsOf_append (labels : List AggStep) (label : AggStep) :
    recordsOf (labels ++ [label]) = recordsOf labels ++ (record? label).toList := by
  cases label <;> simp [recordsOf, record?]

theorem Gathers.step (global : timeouts.timeoutType = .global)
    (gathers : Gathers keyTemp start labels state) {label : AggStep} (quiet : label.isQuiet)
    (step : Step keyTemp timeouts state label next) :
    Gathers keyTemp start (labels ++ [label]) next := by
  obtain ⟨running, closed, opened⟩ := gathers
  have silent : record? label = none → recordsOf (labels ++ [label]) = recordsOf labels := by
    intro none
    rw [recordsOf_append, none, Option.toList_none, List.append_nil]
  cases step with
  | join inRec _ _ =>
      refine ⟨by simpa [join] using running, by simpa [join] using closed, fun key => ?_⟩
      rw [recordsOf_append]
      by_cases same : key = recKey keyTemp inRec
      · subst same
        simp [join, opened, groupOf, record?, List.filter_append]
      · simp [join, opened, groupOf, record?, List.filter_append, same, Ne.symm same]
  | restart inRec _ restarts => exact absurd restarts (not_restarts global _ _)
  | ignore inRec stopped =>
      rw [running] at stopped
      cases stopped
  | startTimeouts =>
      refine ⟨by simpa using running, by simpa using closed, fun key => ?_⟩
      rw [windows_advance, silent rfl, opened]
  | rehash => exact ⟨running, closed, fun key => by rw [silent rfl, opened]⟩
  | otherEval => exact ⟨running, closed, fun key => by rw [silent rfl, opened]⟩
  | _ => cases quiet

/-- The windows after steps between two flushes. -/
theorem gathers_of_steps (global : timeouts.timeoutType = .global)
    (running : start.stopped = false) (quiet : ∀ label ∈ labels, label.isQuiet)
    (run : (system keyTemp timeouts).Steps start labels state) :
    Gathers keyTemp start labels state := by
  refine run.invariant
    (fun labels state => (∀ label ∈ labels, label.isQuiet) → Gathers keyTemp start labels state)
    (fun _ => ⟨running, rfl, fun key => by simp [recordsOf, groupOf]⟩) ?_ quiet
  intro before middle label after gathers step quiet
  exact (gathers fun other member => quiet other (List.mem_append_left _ member)).step global
    (quiet label (by simp)) step

/-- A flush closes all windows. -/
theorem Step.flushed (global : timeouts.timeoutType = .global) (running : state.stopped = false)
    {label : AggStep} (isFlush : label.isFlush) (step : Step keyTemp timeouts state label next) :
    ∃ keys, state.Lists (fun _ => True) keys ∧ next.windows = state.windows.release keys ∧
      (label = .checkTimeouts → next.stopped = false) := by
  cases step with
  | idle idle => simp [running, global] at idle
  | flush _ _ all => exact ⟨_, all, rfl, fun _ => running⟩
  | expire _ passive _ =>
      rw [global] at passive
      cases passive
  | destroy all => exact ⟨_, all, rfl, fun other => by cases other⟩
  | _ => cases isFlush

end Aggregation

/-- The storage is empty when no window is open. -/
theorem Mirrors.entries_eq_nil_iff {stands : List Record → Stored → Prop}
    {sends : List Record → Record → Prop} {agg : Agg} {state : Aggregation}
    (mirrors : Mirrors stands sends agg state) :
    agg.storage.entries = [] ↔ ∀ key, state.windows.opened key = [] := by
  constructor
  · intro empty key
    refine mirrors.absent key (Option.eq_none_iff_forall_not_mem.mpr fun stored found => ?_)
    have member := AList.mem_lookup_iff.mp found
    rw [empty] at member
    cases member
  · intro closed
    refine List.eq_nil_iff_forall_not_mem.mpr fun entry member => ?_
    exact (mirrors.stored entry.1 entry.2 (AList.mem_lookup_iff.mpr member)).1 (closed entry.1)

/-! ### What has been sent -/

theorem Agg.acrossParts_sent : AcrossParts fun agg next => agg.sent <+: next.sent where
  trans before after := before.trans after
  sendOut sends := by
    obtain ⟨records, _, rfl⟩ := Agg.sendOut_ok sends
    exact List.prefix_append ..
  store stores := by
    rcases Agg.store_ok stores with ⟨_, _, _, rfl⟩ | ⟨_, _, _, _, _, _, _, rfl⟩ | ⟨_, _, _, rfl⟩
    · exact List.prefix_rfl
    · exact List.prefix_append ..
    · exact List.prefix_rfl
  others _ _ _ _ _ := List.prefix_rfl

/-- A run sends behind what has been sent. -/
theorem Agg.sent_prefix_of_steps {agg agg' : Agg} {labels : List AggStep}
    (run : aggSystem.Steps agg labels agg') : agg.sent <+: agg'.sent :=
  acrossParts_sent.of_steps run

/-! ### Runs that exist -/

theorem NullFree.sendRecordOut_ok {agg : Agg} (free : NullFree agg.outputTemp)
    (noDivision : agg.outputTemp.avgPostprocessing = false) (stored : Stored) :
    ∃ out, agg.sendRecordOut stored = .ok out := by
  cases outcome : agg.sendRecordOut stored with
  | ok out => exact ⟨out, rfl⟩
  | error fault =>
      unfold Agg.sendRecordOut at outcome
      split at outcome
      · rw [Agg.prepareToSend, noDivision] at outcome
        obtain ⟨counter, member, record, failed⟩ := foldlM_eq_error outcome
        obtain ⟨_, make, dealloc⟩ := free.counters counter.1 (List.of_mem_zip member).1
        obtain ⟨made, isMade⟩ := NullFree.makeField_ok record make dealloc
        rw [failed] at isMade
        cases isMade
      · cases outcome

/-- An aggregator without averages and NULL entries takes all steps one after the other. -/
theorem NullFree.steps {agg : Agg} (free : NullFree agg.outputTemp)
    (noDivision : agg.outputTemp.avgPostprocessing = false) (labels : List AggStep) :
    ∃ agg', aggSystem.Steps agg labels agg' := by
  induction labels using List.reverseRecOn with
  | nil => exact ⟨agg, .refl⟩
  | append_singleton labels label inductionHypothesis =>
      obtain ⟨mid, run⟩ := inductionHypothesis
      have setup := SameSetup.of_steps run
      rw [← setup.outputTemp] at free noDivision
      have step : ∃ outcome, mid.Leads label outcome := by
        cases label with
        | rehash => exact ⟨_, .rehash (List.Perm.refl _)⟩
        | _ => exact ⟨_, by constructor⟩
      obtain ⟨outcome, leads⟩ := step
      obtain ⟨agg', rfl⟩ := Agg.leads_ok free.initRecordData_ok (free.sendRecordOut_ok noDivision)
        leads
      exact ⟨agg', run.step leads⟩

/-- Configurations without an order have no NULL entries. -/
theorem nullFree_of_orderFree {config : Config} {agg : Agg} (counting : CountsDistinct config agg)
    (orderFree : ∀ field ∈ config.fields, OrderFree field) : NullFree agg.outputTemp where
  counters := by
    intro field member
    obtain ⟨param, ⟨configured, inConfig, counts, isName⟩, rfl⟩ :=
      counting.mem_fieldsLikePtr.mp member
    have countable : (unirecType param).countable = true := by
      obtain ⟨id, isId, _, isKey | ⟨commutes, _⟩ | ⟨other, _, rfl, _, isUInt⟩⟩ :=
        orderFree configured inConfig
      · rw [isKey] at counts
        cases counts
      · exact absurd counts (IsFold.ne (isFold_of_commutes commutes)).2.1
      · have same := (name_of_urGetIdByName isId).trans isName
        cases Field.name_injective same
        simp [FieldType.countable, isUInt]
    simp [counterOf, getAllocPtr, getFinalMakePtr, getDeallocPtr, countable]
  averages averages := by
    rw [counting.slots.noDivision] at averages
    cases averages

/-! ### What a flush sends -/

/-- What belongs to the same items in another order is the same in another order. -/
theorem map_perm_of_forall₂ {α β κ : Type} {here there : α → κ → Prop} {f : α → β}
    {outs outs' : List α} {keys keys' : List κ} (reordered : keys.Perm keys')
    (first : List.Forall₂ here outs keys) (second : List.Forall₂ there outs' keys')
    (same : ∀ out out' key, here out key → there out' key → f out = f out') :
    (outs.map f).Perm (outs'.map f) := by
  obtain ⟨moved, pairs, perm⟩ := List.perm_comp_forall₂ reordered.symm first.flip
  refine (perm.map f).symm.trans (List.Perm.of_eq ?_)
  clear perm reordered first
  induction second generalizing moved with
  | nil =>
      cases pairs
      rfl
  | @cons out' key outs' keys' sends _ inductionHypothesis =>
      obtain ⟨out, outs, sent, rest, rfl⟩ := List.forall₂_cons_left_iff.mp pairs
      rw [List.map_cons, List.map_cons, same out out' key sent sends, inductionHypothesis _ rest]

section Flush

variable {unirec : Libunirec} {config : Config} {now : Int} {once : Bool} {agg mid last : Agg}
  {before labels : List AggStep}

theorem keyTemp_of_run (initial : Agg.init unirec config now once false = some agg)
    (run : aggSystem.Steps agg before mid) : mid.keyTemp = keysOf config := by
  rw [(SameSetup.of_steps run).keyTemp]
  rw [init_eq (known_of_init initial)] at initial
  obtain rfl := Option.some.inj initial
  rfl

theorem config_of_run (initial : Agg.init unirec config now once false = some agg)
    (run : aggSystem.Steps agg before mid) : mid.config = config := by
  rw [(SameSetup.of_steps run).config]
  rw [init_eq (known_of_init initial)] at initial
  obtain rfl := Option.some.inj initial
  rfl

/-- A flush sends one record for the window of every key that came since the last one, and leaves
the storage empty. -/
theorem flush_sends (global : config.timeouts.timeoutType = .global)
    (initial : Agg.init unirec config now once false = some agg)
    (run : aggSystem.Steps agg before mid)
    (empty : mid.storage.entries = []) (running : mid.stop = false)
    (quiet : ∀ label ∈ labels, label.isQuiet) {label : AggStep} (isFlush : label.isFlush)
    (flushes : aggSystem.Steps mid (labels ++ [label]) last) :
    last.storage.entries = [] ∧ (label = .checkTimeouts → last.stop = false) ∧
      ∃ keys outs, keys.Nodup ∧
        (∀ key, key ∈ keys ↔
          Aggregation.groupOf (keysOf config) key (Aggregation.recordsOf labels) ≠ []) ∧
        last.sent = mid.sent ++ outs ∧
        List.Forall₂ (fun out key => agg.Sends
          (Aggregation.groupOf (keysOf config) key (Aggregation.recordsOf labels)) out) outs
          keys := by
  obtain ⟨state, reached, mirrors⟩ := windows_of_run initial run
  have windowed := (ofConfig_of_init initial).windowed.of_sameSetup (SameSetup.of_steps run)
  obtain ⟨final, later, mirrors'⟩ := mirrors_of_steps windowed mirrors flushes
  rw [keyTemp_of_run initial run, config_of_run initial run] at later
  have closedAll := mirrors.entries_eq_nil_iff.mp empty
  obtain ⟨middle, gathering, step⟩ := later.of_append_singleton
  have gathers := Aggregation.gathers_of_steps global (mirrors.stopped.symm.trans running) quiet
    gathering
  obtain ⟨keys, lists, windows, stays⟩ := step.flushed global gathers.running isFlush
  have opened : ∀ key, middle.windows.opened key =
      Aggregation.groupOf (keysOf config) key (Aggregation.recordsOf labels) := by
    intro key
    rw [gathers.opened, closedAll, List.nil_append]
  have isKey : ∀ key, key ∈ keys ↔
      Aggregation.groupOf (keysOf config) key (Aggregation.recordsOf labels) ≠ [] := by
    intro key
    rw [lists.mem_iff, opened, and_true]
  refine ⟨?_, fun checks => mirrors'.stopped.trans (stays checks), keys, ?_⟩
  · refine mirrors'.entries_eq_nil_iff.mpr fun key => ?_
    rw [windows, KeyedWindows.opened_release]
    split
    · rfl
    · rename_i remains
      rw [isKey, ← opened, not_not] at remains
      exact remains
  · obtain ⟨outs, isSent⟩ := Agg.sent_prefix_of_steps flushes
    have sends := mirrors'.sent
    rw [← isSent, windows, KeyedWindows.closed_release, gathers.closed] at sends
    have behind := List.forall₂_drop_append _ _ _ sends
    rw [← mirrors.sent.length_eq, List.drop_left, List.forall₂_map_right_iff] at behind
    refine ⟨outs, lists.distinct, isKey, isSent.symm, behind.imp fun out key sent => ?_⟩
    exact opened key ▸ sent.2

/-- The fields of the output template of what is sent. -/
def Agg.sentFields (agg : Agg) (out : Record) : Record :=
  urCopyFields agg.outputTemp.outTmplt (fun _ => 0) out

/-- What a flush sends does not depend on the order of the records since the last one. -/
theorem flush_order_independent (global : config.timeouts.timeoutType = .global)
    (orderFree : ∀ field ∈ config.fields, OrderFree field)
    (initial : Agg.init unirec config now once false = some agg)
    (run : aggSystem.Steps agg before mid)
    (empty : mid.storage.entries = []) (running : mid.stop = false)
    {labels' : List AggStep} (quiet : ∀ label ∈ labels, label.isQuiet)
    (quiet' : ∀ label ∈ labels', label.isQuiet)
    (reordered : (Aggregation.recordsOf labels).Perm (Aggregation.recordsOf labels'))
    {label label' : AggStep} (isFlush : label.isFlush) (isFlush' : label'.isFlush) :
    (∃ last, aggSystem.Steps mid (labels ++ [label]) last) ∧
      ∀ last last', aggSystem.Steps mid (labels ++ [label]) last →
        aggSystem.Steps mid (labels' ++ [label']) last' →
          last.storage.entries = [] ∧ last'.storage.entries = [] ∧
            ∃ outs outs', last.sent = mid.sent ++ outs ∧ last'.sent = mid.sent ++ outs' ∧
              (outs.map mid.sentFields).Perm (outs'.map mid.sentFields) := by
  have counting := countsDistinct_of_orderFree orderFree initial
  have setup := SameSetup.of_steps run
  constructor
  · have free := nullFree_of_orderFree counting orderFree
    have noDivision := counting.slots.noDivision
    rw [← setup.outputTemp] at free noDivision
    exact free.steps noDivision _
  intro last last' flushes flushes'
  obtain ⟨empties, _, keys, outs, distinct, isKey, sent, sends⟩ :=
    flush_sends global initial run empty running quiet isFlush flushes
  obtain ⟨empties', _, keys', outs', distinct', isKey', sent', sends'⟩ :=
    flush_sends global initial run empty running quiet' isFlush' flushes'
  refine ⟨empties, empties', outs, outs', sent, sent', ?_⟩
  have groups : ∀ key, (Aggregation.groupOf (keysOf config) key
      (Aggregation.recordsOf labels)).Perm
        (Aggregation.groupOf (keysOf config) key (Aggregation.recordsOf labels')) :=
    fun key => reordered.filter _
  have keysToo : keys.Perm keys' := by
    refine (List.perm_ext_iff_of_nodup distinct distinct').mpr fun key => ?_
    rw [isKey, isKey', Ne, Ne, ← List.length_eq_zero_iff, ← List.length_eq_zero_iff,
      (groups key).length_eq]
  refine map_perm_of_forall₂ keysToo sends sends' fun out out' key here there => ?_
  have sameKey : ∀ inRec ∈ Aggregation.groupOf (keysOf config) key (Aggregation.recordsOf labels),
      recKey (keysOf config) inRec = key := by
    intro inRec member
    exact of_decide_eq_true (List.mem_filter.mp member).2
  funext field
  rw [Agg.sentFields, Agg.sentFields, setup.outputTemp]
  unfold urCopyFields
  split
  · rename_i inTemplate
    exact sends_eq_of_perm counting orderFree (groups key) here there sameKey inTemplate
  · rfl

end Flush

/-- Bytes and source ports of every destination port, sent every ten seconds. -/
def bytesByPort : Config :=
  (((Config.new.addMember .key "DST_PORT".toList).setTimeout "G:10".toList).addMember .sum
    "BYTES".toList).addPtrMember "SRC_PORT".toList

/-- A record with this number of bytes and this source port. -/
def bytesFrom (bytes : BitVec 64) (port : BitVec 16) : Record :=
  (Record.set (fun _ => 0) (.unirec .bytes) bytes).set (.unirec .srcPort) port

theorem orderFree_bytesByPort : ∀ field ∈ bytesByPort.fields, OrderFree field := by
  have fields : bytesByPort.fields = [⟨.key, (Field.unirec .dstPort).name, none⟩,
      ⟨.sum, (Field.unirec .bytes).name, none⟩,
      ⟨.countDistinct, (Field.countDistinctOf .srcPort).name, some (.unirec .srcPort)⟩] := by
    decide +kernel
  intro field member
  simp only [fields, List.mem_cons, List.not_mem_nil, or_false] at member
  rcases member with rfl | rfl | rfl
  · exact ⟨.unirec .dstPort, urGetIdByName_name (.unirec .dstPort), by decide, .inl rfl⟩
  · exact ⟨.unirec .bytes, urGetIdByName_name (.unirec .bytes), by decide,
      .inr (.inl ⟨rfl, rfl⟩)⟩
  · exact ⟨.countDistinctOf .srcPort, urGetIdByName_name (.countDistinctOf .srcPort), by decide,
      .inr (.inr ⟨.srcPort, rfl, rfl, rfl, rfl⟩)⟩

/-- Two records are evaluated, and the storage is flushed. -/
def flushPair (first second : Record) (agg : Agg) : Except Fault Agg :=
  agg.eval first >>= fun agg => agg.eval second >>= Agg.checkTimeouts

theorem steps_flushPair {first second : Record} {agg last : Agg}
    (flushes : flushPair first second agg = .ok last) :
    aggSystem.Steps agg ([.eval first, .eval second] ++ [.checkTimeouts]) last := by
  obtain ⟨one, evaluates, flushes⟩ := bind_ok.mp flushes
  obtain ⟨two, evaluates', checks⟩ := bind_ok.mp flushes
  have step : agg.Leads (.eval first) (.ok one) := evaluates ▸ .eval first
  have step' : one.Leads (.eval second) (.ok two) := evaluates' ▸ .eval second
  have step'' : two.Leads .checkTimeouts (.ok last) := checks ▸ .checkTimeouts
  exact .step (.step (.step .refl step) step') step''

theorem flush_order_independent_bytesByPort :
    ∃ agg last last', ∃ outs outs' : List Record,
      Agg.init .plain bytesByPort 0 true false = some agg ∧
      flushPair (bytesFrom 5 1) (bytesFrom 7 2) agg = .ok last ∧
      flushPair (bytesFrom 7 2) (bytesFrom 5 1) agg = .ok last' ∧
      last.sent.map (fun out => ((out (.unirec .bytes)).toNat,
        (out (.countDistinctOf .srcPort)).toNat)) = [(12, 2)] ∧
      last.sent = agg.sent ++ outs ∧ last'.sent = agg.sent ++ outs' ∧
      (outs.map agg.sentFields).Perm (outs'.map agg.sentFields) := by
  have ends : (Agg.init .plain bytesByPort 0 true false).map (fun agg =>
      ((agg.storage.entries.isEmpty, agg.stop),
        (flushPair (bytesFrom 5 1) (bytesFrom 7 2) agg).map (fun last =>
          last.sent.map fun out => ((out (.unirec .bytes)).toNat,
            (out (.countDistinctOf .srcPort)).toNat)),
        (flushPair (bytesFrom 7 2) (bytesFrom 5 1) agg).isOk)) =
      some ((true, false), Except.ok [(12, 2)], true) := by
    decide +kernel
  obtain ⟨agg, initial, ends⟩ := Option.map_eq_some_iff.mp ends
  obtain ⟨starts, here, there⟩ := Prod.mk.inj ends |>.imp id Prod.mk.inj
  obtain ⟨empty, running⟩ := Prod.mk.inj starts
  obtain ⟨last, flushes, sent⟩ := map_ok.mp here
  obtain ⟨last', flushes'⟩ := exists_ok_of_isOk there
  have reordered : (Aggregation.recordsOf [.eval (bytesFrom 5 1), .eval (bytesFrom 7 2)]).Perm
      (Aggregation.recordsOf [.eval (bytesFrom 7 2), .eval (bytesFrom 5 1)]) :=
    List.Perm.swap ..
  have quiet : ∀ first second : Record, ∀ label ∈ [AggStep.eval first, .eval second],
      label.isQuiet := by
    simp [AggStep.isQuiet]
  obtain ⟨_, _, outs, outs', isSent, isSent', perm⟩ :=
    (flush_order_independent (by decide +kernel) orderFree_bytesByPort initial .refl
      (List.isEmpty_iff.mp empty) running (quiet _ _) (quiet _ _) reordered rfl rfl).2 last last'
      (steps_flushPair flushes) (steps_flushPair flushes')
  exact ⟨agg, last, last', outs, outs', initial, flushes, flushes', sent, isSent, isSent', perm⟩

end Policer.Aggregator
