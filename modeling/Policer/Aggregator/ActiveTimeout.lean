import Policer.Aggregator.Runs

/-!
# Windows of the active timeout

`eval` compares a record with the stored `TIME_FIRST`, which is the least of its window, so a
record that comes early lowers it and is merged however far it lies back. `lags_of_active` says
what holds of every sent record: none of its window exceeds one that arrived before it by more
than the timeout.
-/

namespace Policer.Aggregator

open Policer.Lib Policer.Parsing

/-! ### How far a window reaches -/

/-- No record exceeds one that arrived before it by more than the timeout. -/
def Lags (timeout : Int) (group : List Record) : Prop :=
  group.Pairwise fun earlier later =>
    urTimeGetSec later.timeFirst ≤ urTimeGetSec earlier.timeFirst + timeout

/-- The whole seconds of `TIME_FIRST` differ pairwise by at most the timeout. -/
def Spans (timeout : Int) (group : List Record) : Prop :=
  group.Pairwise fun first second =>
    urTimeGetSec first.timeFirst ≤ urTimeGetSec second.timeFirst + timeout ∧
      urTimeGetSec second.timeFirst ≤ urTimeGetSec first.timeFirst + timeout

/-- The records arrived in the order of `TIME_FIRST`. -/
def InOrder (group : List Record) : Prop :=
  group.Pairwise fun earlier later => earlier.timeFirst ≤ later.timeFirst

theorem Lags.append {timeout : Int} {group : List Record} (lags : Lags timeout group)
    {inRec : Record} (near : ∀ earlier ∈ group,
      urTimeGetSec inRec.timeFirst ≤ urTimeGetSec earlier.timeFirst + timeout) :
    Lags timeout (group ++ [inRec]) := by
  refine List.pairwise_append.mpr ⟨lags, List.pairwise_singleton .., ?_⟩
  intro earlier member later isLater
  rw [List.mem_singleton.mp isLater]
  exact near earlier member

/-- Of records that arrive in order the later one is the greater one. -/
theorem Lags.spans {timeout : Int} {group : List Record} (lags : Lags timeout group)
    (inOrder : InOrder group) : Spans timeout group := by
  refine List.Pairwise.imp₂ (fun earlier later near ordered => ?_) lags inOrder
  have le := urTimeGetSec_mono ordered
  omega

namespace Aggregation

/-- No window, open or closed, reaches further than the active timeout. -/
structure Near (timeout : Int) (state : Aggregation) : Prop where
  opened : ∀ key, Lags timeout (state.windows.opened key)
  closed : ∀ closed ∈ state.windows.closed, Lags timeout closed.2

variable {keyTemp : List Field} {timeouts : Timeouts} {state next : Aggregation}

theorem Near.close {timeout : Int} (near : Near timeout state) (keys : List Key) :
    Near timeout (state.close keys) := by
  refine ⟨fun key => ?_, fun closed member => ?_⟩
  · rw [Aggregation.close, KeyedWindows.opened_release]
    split
    · exact List.Pairwise.nil
    · exact near.opened key
  · rcases List.mem_append.mp member with before | released
    · exact near.closed closed before
    · obtain ⟨key, _, rfl⟩ := List.mem_map.mp released
      exact near.opened key

theorem Near.join {timeout : Int} (near : Near timeout state) {inRec : Record}
    (fits : ∀ earlier ∈ state.windows.opened (recKey keyTemp inRec),
      urTimeGetSec inRec.timeFirst ≤ urTimeGetSec earlier.timeFirst + timeout) :
    Near timeout (state.join keyTemp inRec) := by
  refine ⟨fun key => ?_, near.closed⟩
  rw [Aggregation.join, KeyedWindows.opened_join]
  split
  · exact (near.opened _).append fits
  · exact near.opened key

theorem Near.congr {timeout : Int} (near : Near timeout state)
    (same : next.windows = state.windows) : Near timeout next :=
  ⟨same ▸ near.opened, same ▸ near.closed⟩

/-- One step keeps the windows near. -/
theorem Near.step (active : timeouts.timeoutType.hasActive = true) {label : AggStep}
    (near : Near (timeouts.timeout .active) state)
    (step : Step keyTemp timeouts state label next) : Near (timeouts.timeout .active) next := by
  obtain ⟨keys, _, _, ⟨_, windows⟩ | ⟨inRec, _, _, stays, windows⟩⟩ := step.windows_eq
  · exact (near.close keys).congr windows
  · refine ((near.close keys).join fun earlier member => ?_).congr windows
    by_contra late
    exact stays ⟨active, earlier, member, by omega⟩

theorem near_of_steps (active : timeouts.timeoutType.hasActive = true) {now : Int} {once : Bool}
    {labels : List AggStep}
    (run : (system keyTemp timeouts).Steps (start now once) labels state) :
    Near (timeouts.timeout .active) state :=
  run.invariant (fun _ => Near (timeouts.timeout .active))
    ⟨fun _ => List.Pairwise.nil, fun _ member => by cases member⟩ fun near => near.step active

end Aggregation

/-! ### A run over two records -/

/-- A record with `TIME_FIRST` in this second. -/
def beginsAt (second : BitVec 64) : Record :=
  let timeFirst : BitVec 64 := second <<< 32
  Record.set (fun _ => 0) (.unirec .timeFirst) timeFirst

/-- The windows of a run over two records of one key that sends one record. -/
theorem windows_of_two (config : Config) (first second : Record)
    (same : recKey (keysOf config) second = recKey (keysOf config) first)
    (ends : ((Agg.init .plain config 0 true false).map fun agg =>
      (agg.eval first >>= fun agg => agg.eval second >>= Agg.destroy).map fun agg =>
        (agg.sent.length, agg.storage.entries.length)) = some (Except.ok (1, 0))) :
    ∃ agg agg' state out, Agg.init .plain config 0 true false = some agg ∧
      aggSystem.Steps agg [.eval first, .eval second, .destroy] agg' ∧
      (Aggregation.system (keysOf config) config.timeouts).Steps (Aggregation.start 0 true)
        [.eval first, .eval second, .destroy] state ∧
      agg'.sent = [out] ∧
      state.windows.closed = [(recKey (keysOf config) first, [first, second])] ∧
      agg.Sends [first, second] out := by
  obtain ⟨agg, initial, ran⟩ := Option.map_eq_some_iff.mp ends
  obtain ⟨last, ran, counts⟩ := map_ok.mp ran
  obtain ⟨one, evaluates, ran⟩ := bind_ok.mp ran
  obtain ⟨two, evaluatesToo, destroys⟩ := bind_ok.mp ran
  obtain ⟨sent, stored⟩ := Prod.mk.inj counts
  obtain ⟨out, isOut⟩ := List.length_eq_one_iff.mp sent
  have empty : last.storage.entries = [] := List.length_eq_zero_iff.mp stored
  have step₁ : agg.Leads (.eval first) (.ok one) := evaluates ▸ .eval _
  have step₂ : one.Leads (.eval second) (.ok two) := evaluatesToo ▸ .eval _
  have step₃ : two.Leads .destroy (.ok last) := destroys ▸ .destroy
  have run : aggSystem.Steps agg [.eval first, .eval second, .destroy] last :=
    .step (.step (.step .refl step₁) step₂) step₃
  obtain ⟨state, reached, mirrors⟩ := windows_of_run initial run
  have history := (Aggregation.partitions_of_steps reached).history (recKey (keysOf config) first)
  have opened := mirrors.absent (recKey (keysOf config) first) (by
    rw [AList.lookup, empty]
    rfl)
  obtain ⟨closed, rest, ⟨_, sends⟩, none, isClosed⟩ :=
    List.forall₂_cons_left_iff.mp (isOut ▸ mirrors.sent)
  obtain rfl := List.forall₂_nil_left_iff.mp none
  have accepted : Aggregation.accepted [.eval first, .eval second, .destroy] = [first, second] :=
    rfl
  have all : [first, second].filter (fun inRec => recKey (keysOf config) inRec =
      recKey (keysOf config) first) = [first, second] := by simp [same]
  rw [KeyedWindows.history, isClosed, opened, List.append_nil, accepted, all] at history
  have isKey : closed.1 = recKey (keysOf config) first := by
    by_contra other
    rw [List.filter_cons_of_neg (by simpa using other)] at history
    cases history
  have isGroup : closed.2 = [first, second] := by
    rw [List.filter_cons_of_pos (by simpa using isKey)] at history
    simpa using history
  refine ⟨agg, last, state, out, initial, run, reached, isOut, ?_, isGroup ▸ sends⟩
  rw [isClosed, ← isKey, ← isGroup]

/-! ### Every run -/

/-- With an active timeout, no record merged into a sent aggregate has a `TIME_FIRST` that exceeds
by more than the timeout that of one merged before it; those that arrive in the order of
`TIME_FIRST` differ pairwise by at most the timeout. -/
theorem lags_of_active {unirec : Libunirec} {config : Config}
    (active : config.timeouts.timeoutType.hasActive = true) {now : Int} {once : Bool}
    {agg agg' : Agg}
    (initial : Agg.init unirec config now once false = some agg) {labels : List AggStep}
    (run : aggSystem.Steps agg labels agg') :
    ∃ state, (Aggregation.system (keysOf config) config.timeouts).Steps
        (Aggregation.start now once) labels state ∧
      (∀ key, state.windows.history key =
        (Aggregation.accepted labels).filter fun inRec => recKey (keysOf config) inRec = key) ∧
      List.Forall₂ (fun out closed => agg.Sends closed.2 out ∧
          Lags (config.timeouts.timeout .active) closed.2 ∧
          (InOrder closed.2 → Spans (config.timeouts.timeout .active) closed.2))
        agg'.sent state.windows.closed := by
  obtain ⟨state, reached, mirrors⟩ := windows_of_run initial run
  have near := Aggregation.near_of_steps active reached
  refine ⟨state, reached, (Aggregation.partitions_of_steps reached).history, ?_⟩
  have both := (List.forall₂_and_left _ _).mpr ⟨near.closed, mirrors.sent.flip⟩
  exact both.flip.imp fun out closed ⟨lags, _, sends⟩ => ⟨sends, lags, lags.spans⟩

theorem lags_of_active_early :
    ∃ agg agg' out, ∃ state : Aggregation, Agg.init .plain packetsByDstIP 0 true false = some agg ∧
      aggSystem.Steps agg [.eval (beginsAt 100), .eval (beginsAt 0), .destroy] agg' ∧
      agg'.sent = [out] ∧
      List.Forall₂ (fun out (closed : Key × List Record) => agg.Sends closed.2 out ∧
          Lags (packetsByDstIP.timeouts.timeout .active) closed.2 ∧
          (InOrder closed.2 → Spans (packetsByDstIP.timeouts.timeout .active) closed.2))
        agg'.sent state.windows.closed := by
  obtain ⟨agg, agg', _, out, initial, run, _, sent, _⟩ :=
    windows_of_two packetsByDstIP (beginsAt 100) (beginsAt 0) (by decide +kernel)
      (by decide +kernel)
  obtain ⟨state, _, _, each⟩ := lags_of_active (by decide +kernel) initial run
  exact ⟨agg, agg', out, state, initial, run, sent, each⟩

/-- Two records that begin 100 seconds apart are merged when the second begins first. -/
theorem early_not_spans :
    packetsByDstIP.timeouts.timeoutType.hasActive = true ∧
    ∃ agg agg' state out group, Agg.init .plain packetsByDstIP 0 true false = some agg ∧
      aggSystem.Steps agg [.eval (beginsAt 100), .eval (beginsAt 0), .destroy] agg' ∧
      (Aggregation.system (keysOf packetsByDstIP) packetsByDstIP.timeouts).Steps
        (Aggregation.start 0 true) [.eval (beginsAt 100), .eval (beginsAt 0), .destroy] state ∧
      agg'.sent = [out] ∧ state.windows.closed.map Prod.snd = [group] ∧ agg.Sends group out ∧
      ¬ Spans (packetsByDstIP.timeouts.timeout .active) group := by
  obtain ⟨agg, agg', state, out, initial, run, reached, sent, closed, sends⟩ :=
    windows_of_two packetsByDstIP (beginsAt 100) (beginsAt 0) (by decide +kernel)
      (by decide +kernel)
  refine ⟨by decide +kernel, agg, agg', state, out, _, initial, run, reached, sent,
    by rw [closed]; rfl, sends, fun spans => ?_⟩
  have near := (List.pairwise_pair.mp spans).1
  revert near
  decide +kernel

end Policer.Aggregator
