import Policer.Aggregator.Counters
import Policer.Aggregator.OwnedStorage

/-!
# Counters along every run

`counts_of_run` puts the layers together: a run with vectors in memory is a run of `Agg` on the
records with their vectors, which is a run of the windows. The vectors of a stored record have the
values of its open window, their sizes were sent for the closed ones, and every vector has one
owner or was released when its record was sent.
-/

namespace Policer.Aggregator

open Policer.Lib Policer.Parsing

/-! ### Closed windows -/

namespace Aggregation

variable {keyTemp : List Field} {timeouts : Timeouts} {state next : Aggregation} {label : AggStep}

/-- A step closes windows that were open before it. -/
theorem Step.closed (step : Step keyTemp timeouts state label next) :
    ∀ closed ∈ next.windows.closed, closed ∈ state.windows.closed ∨
      ∃ key, state.windows.opened key ≠ [] ∧ closed = (key, state.windows.opened key) := by
  obtain ⟨keys, _, opened, moved⟩ := step.windows_eq
  have released : next.windows.closed = (state.windows.release keys).closed := by
    rcases moved with ⟨_, windows⟩ | ⟨inRec, _, _, _, windows⟩
    · rw [windows]
    · rw [windows, KeyedWindows.closed_join]
  intro closed member
  rw [released] at member
  rcases List.mem_append.mp member with before | new
  · exact .inl before
  · obtain ⟨key, isKey, rfl⟩ := List.mem_map.mp new
    exact .inr ⟨key, opened key isKey, rfl⟩

/-- No window is open once the aggregator has been destroyed. -/
def Ended (labels : List AggStep) (state : Aggregation) : Prop :=
  .destroy ∈ labels → state.stopped = true ∧ ∀ key, state.windows.opened key = []

theorem Ended.step {labels : List AggStep} (ended : Ended labels state)
    (step : Step keyTemp timeouts state label next) : Ended (labels ++ [label]) next := by
  intro member
  rcases List.mem_append.mp member with before | now
  · obtain ⟨stopped, none⟩ := ended before
    obtain ⟨keys, _, _, ⟨_, windows⟩ | ⟨_, _, running, _⟩⟩ := step.windows_eq
    · refine ⟨by rw [step.stopped_eq, stopped, Bool.true_or], fun key => ?_⟩
      rw [windows, KeyedWindows.opened_release, none, ite_self]
    · rw [stopped] at running
      cases running
  · obtain rfl := List.mem_singleton.mp now
    cases step with
    | destroy all =>
        refine ⟨rfl, fun key => ?_⟩
        simp only [Aggregation.close, KeyedWindows.opened_release, ite_eq_left_iff]
        intro notListed
        by_contra opened
        exact notListed ((all.mem_iff key).mpr ⟨opened, trivial⟩)

end Aggregation

/-! ### Along a run -/

namespace HeapAgg

/-- The aggregator owns its vectors and mirrors the windows; the windows that were closed had no
more values than a vector can hold. -/
structure Follows (config : Config) (start agg : HeapAgg) (state : Aggregation) : Prop where
  sound : agg.Sound
  setup : SameSetup start.toAgg agg.toAgg
  mirrors : Mirrors start.toAgg.StandsFor start.toAgg.Sends agg.toAgg state
  short : ∀ closed ∈ state.windows.closed, ∀ param, config.Counts param →
    (unirecType param).countable → distinctValues (.unirec param) closed.2 ≤ maxSize

variable {config : Config} {start agg next : HeapAgg} {state : Aggregation}

/-- The vector of a counter has the values of the open window. -/
theorem Follows.stored (follows : Follows config start agg state)
    (counting : CountsDistinct config start.toAgg) {key : Key} {stored : HeapRecord}
    (found : agg.storage.lookup key = some stored) {param : Unirec}
    (counts : config.Counts param) (countable : (unirecType param).countable = true) :
    ∃ block vector, stored.address (.countDistinctOf param) = some block ∧
      agg.heap.contents block = some vector ∧ vector.length ≤ maxSize ∧
      Collects (.unirec param) (state.windows.opened key) vector := by
  have sameTemp : agg.outputTemp = start.outputTemp := follows.setup.outputTemp
  have counter : counterOf param ∈ start.outputTemp.fieldsLikePtr :=
    counting.mem_fieldsLikePtr.mpr ⟨param, counts, rfl⟩
  have member : counterOf param ∈ agg.outputTemp.fieldsLikePtr := sameTemp ▸ counter
  have inStorage := AList.mem_lookup_iff.mp found
  obtain ⟨block, isBlock⟩ := follows.sound.filled _ inStorage _ member
  have owns : block ∈ agg.owners :=
    List.mem_flatMap.mpr ⟨_, inStorage, List.mem_filterMap.mpr ⟨_, member, isBlock⟩⟩
  obtain ⟨vector, holds⟩ := follows.sound.held.owned.live block owns
  have viewed : agg.toAgg.storage.lookup key = some (agg.outputTemp.view agg.heap stored) := by
    rw [lookup_toAgg, found]
    rfl
  have collects := counting.collects (follows.mirrors.stored key _ viewed).2
  have vectors : (agg.outputTemp.view agg.heap stored).vectors =
      start.outputTemp.fieldsLikePtr.map fun field => vectorAt agg.heap stored field.record := by
    rw [OutputTemplate.view, sameTemp]
  rw [vectors, List.forall₂_map_right_iff] at collects
  have isCollected := List.forall₂_same.mp collects (counterOf param) counter countable
  rw [vectorAt_eq isBlock holds] at isCollected
  exact ⟨block, vector, isBlock, holds, follows.sound.held.short block owns vector holds,
    isCollected⟩

/-- An open window has no more values than a vector can hold. -/
theorem Follows.opened_short (follows : Follows config start agg state)
    (counting : CountsDistinct config start.toAgg) {key : Key}
    (opened : state.windows.opened key ≠ []) {param : Unirec} (counts : config.Counts param)
    (countable : (unirecType param).countable = true) :
    distinctValues (.unirec param) (state.windows.opened key) ≤ maxSize := by
  cases found : agg.storage.lookup key with
  | none =>
      have absent : agg.toAgg.storage.lookup key = none := by
        rw [lookup_toAgg, found]
        rfl
      exact absurd (follows.mirrors.absent key absent) opened
  | some stored =>
      obtain ⟨_, vector, _, _, short, collects⟩ := follows.stored counting found counts countable
      exact collects.length ▸ short

/-- One step. -/
theorem Follows.step (follows : Follows config start agg state)
    (counting : CountsDistinct config start.toAgg) {ipCmp : Nat → Nat → Int}
    (isCmp : ∀ a b, ipCmp a b = 0 ↔ a = b) {label : AggStep}
    (leads : agg.Leads ipCmp label (.ok next)) :
    ∃ after, Aggregation.Step start.keyTemp start.config.timeouts state label after ∧
      Follows config start next after := by
  obtain ⟨sound, leads⟩ := (leads_meets follows.sound isCmp leads).of_ok rfl
  have windowed := counting.made.windowed.of_sameSetup follows.setup
  obtain ⟨after, step, mirrors⟩ := follows.mirrors.step windowed leads
  have closed := step.closed
  rw [follows.setup.keyTemp, follows.setup.config] at step
  refine ⟨after, step, sound, follows.setup.trans (.of_leads leads), mirrors, ?_⟩
  intro window member param counts countable
  rcases closed window member with before | ⟨key, opened, rfl⟩
  · exact follows.short window before param counts countable
  · exact follows.opened_short counting opened counts countable

/-- The members `init` starts with. -/
structure Initial (config : Config) (now : Int) (once stop : Bool) (agg : HeapAgg) : Prop where
  keyTemp : agg.keyTemp = keysOf config
  config : agg.config = config
  storage : agg.storage = ∅
  heap : agg.heap = .empty
  sent : agg.sent = []
  clock : agg.timeLastFromRecord = now
  once : agg.once = once
  stop : agg.stop = stop

theorem initial_of_init {unirec : Libunirec} {now : Int} {once stop : Bool}
    (initial : HeapAgg.init unirec config now once stop = some agg) :
    Agg.init unirec config now once stop = some agg.toAgg ∧ Initial config now once stop agg := by
  obtain ⟨plain, isPlain, rfl⟩ := Option.map_eq_some_iff.mp initial
  have isInit := @init_eq unirec _ (known_of_init isPlain) now once stop
  rw [isPlain] at isInit
  obtain rfl := Option.some.inj isInit
  exact ⟨isPlain, rfl, rfl, rfl, rfl, rfl, rfl, rfl, rfl⟩

/-- The counters of the stored records have the values of the open windows, and how many there
were has been sent for the closed ones. A vector is owned by one record of the storage or has been
released once, with the other vectors of a record that was sent. -/
structure CountsWindows (config : Config) (agg : HeapAgg) (state : Aggregation) : Prop where
  stored : ∀ key stored, agg.storage.lookup key = some stored → ∀ param, config.Counts param →
    (unirecType param).countable → ∃ block vector,
      stored.address (.countDistinctOf param) = some block ∧
        agg.heap.read block = .ok vector ∧
        Collects (.unirec param) (state.windows.opened key) vector
  absent : ∀ key, agg.storage.lookup key = none → state.windows.opened key = []
  sent : List.Forall₂ (fun out closed => ∀ param, config.Counts param →
      (unirecType param).countable →
        (out.1 (.countDistinctOf param)).toNat = distinctValues (.unirec param) closed.2)
    agg.sent state.windows.closed
  owned : (agg.owners ++ agg.heap.released).Perm (List.range agg.heap.next)
  released : agg.heap.released = agg.sent.flatMap Prod.snd

theorem Follows.countsWindows (follows : Follows config start agg state)
    (counting : CountsDistinct config start.toAgg) : CountsWindows config agg state where
  stored := by
    intro key stored found param counts countable
    obtain ⟨block, vector, isBlock, holds, _, collects⟩ :=
      follows.stored counting found counts countable
    exact ⟨block, vector, isBlock, by rw [Heap.read, holds], collects⟩
  absent := by
    intro key absent
    refine follows.mirrors.absent key ?_
    rw [lookup_toAgg, absent]
    rfl
  sent := by
    have sent := List.forall₂_map_left_iff.mp follows.mirrors.sent
    have both := (List.forall₂_and_left _ _).mpr ⟨follows.short, sent.flip⟩
    refine both.flip.imp fun out closed holds param counts countable => ?_
    obtain ⟨short, _, sends⟩ := holds
    have few := short param counts countable
    rw [counting.sends_distinct sends counts countable, BitVec.toNat_ofNat]
    refine Nat.mod_eq_of_lt (few.trans_lt ?_)
    change 2 ^ 63 - 1 < 2 ^ 64
    decide
  owned := follows.sound.held.owned.once
  released := follows.sound.released

end HeapAgg

namespace HeapAgg

variable {config : Config} {start agg : HeapAgg} {state : Aggregation}

/-- A new aggregator has no vectors. -/
theorem Initial.intact {now : Int} {once stop : Bool}
    (initial : Initial config now once stop agg) (slots : CounterSlots agg.outputTemp) :
    agg.Intact := by
  have entries : agg.storage.entries = [] := by
    rw [initial.storage]
    rfl
  have owners : agg.owners = [] := by
    rw [HeapAgg.owners, entries]
    rfl
  refine ⟨slots, ⟨?_, ?_⟩, ?_, ?_⟩
  · rw [initial.heap, owners]
    exact .empty
  · rw [owners]
    exact fun _ member => by cases member
  · rw [entries]
    exact fun _ member => by cases member
  · rw [initial.heap, initial.sent]
    rfl

theorem Initial.follows {now : Int} {once : Bool} (initial : Initial config now once false agg)
    (counting : CountsDistinct config agg.toAgg) :
    Follows config agg agg (Aggregation.start now once) := by
  have intact := initial.intact counting.slots.toCounterSlots
  refine ⟨⟨counting.slots, intact.held, intact.filled, intact.released⟩, ⟨rfl, rfl, rfl⟩,
    ⟨fun key stored found => ?_, fun _ _ => rfl, ?_, initial.clock, initial.once, initial.stop⟩,
    fun _ member => ?_⟩
  · rw [lookup_toAgg, initial.storage] at found
    cases found
  · change List.Forall₂ _ (agg.sent.map Prod.fst) []
    rw [initial.sent]
    exact .nil
  · cases member

/-- A counter without a function counts a field whose type is not supported. -/
theorem Follows.of_lacking (follows : Follows config start agg state)
    (counting : CountsDistinct config start.toAgg) (lacking : Lacking agg.outputTemp) :
    ∃ param, config.Counts param ∧ (unirecType param).countable = false := by
  have sameTemp : agg.outputTemp = start.outputTemp := follows.setup.outputTemp
  rw [sameTemp] at lacking
  obtain ⟨field, member, lacks⟩ := lacking
  obtain ⟨param, counts, rfl⟩ := counting.mem_fieldsLikePtr.mp member
  refine ⟨param, counts, ?_⟩
  by_contra countable
  simp [counterOf, getAllocPtr, getFinalMakePtr, getDeallocPtr, countable] at lacks

/-- Without open windows nothing is stored, and every vector has been released. -/
theorem Follows.all_released (follows : Follows config start agg state)
    (none : ∀ key, state.windows.opened key = []) :
    agg.storage = ∅ ∧ agg.heap.released.Perm (List.range agg.heap.next) := by
  have entries : agg.storage.entries = [] := by
    refine List.eq_nil_iff_forall_not_mem.mpr fun entry member => ?_
    have found : agg.toAgg.storage.lookup entry.1 =
        some (agg.outputTemp.view agg.heap entry.2) := by
      rw [lookup_toAgg, AList.mem_lookup_iff.mpr member]
      rfl
    exact (follows.mirrors.stored _ _ found).1 (none _)
  have owned := follows.sound.held.owned.once
  rw [HeapAgg.owners, entries] at owned
  exact ⟨AList.ext entries, owned⟩

end HeapAgg

/-! ### Every run -/

/-- For options that ask for no averages and every run: no step reads or releases a vector that is
not live or takes other bytes for one, so that a step fails only where `push_back` does or where a
field of an unsupported type is counted. Each stored record owns vectors with exactly the values of
its window, each sent one has their numbers, and every vector is released once, with the record
that owned it, at the latest when the aggregator is destroyed. -/
theorem counts_of_run {unirec : Libunirec} (isCmp : ∀ a b, unirec.ipCmp a b = 0 ↔ a = b)
    {options : Str} {config : Config} (read : Config.ofOptions options = .ok config)
    (noAverages : ∀ field ∈ config.fields, field.function ≠ .avg ∧ field.function ≠ .rate)
    {now : Int} {once : Bool} {agg agg' : HeapAgg}
    (initial : HeapAgg.init unirec config now once false = some agg) {labels : List AggStep}
    (run : (heapSystem unirec.ipCmp).Steps agg labels agg') :
    (∀ label fault, agg'.Leads unirec.ipCmp label (.error fault) → fault = .lengthError ∨
      fault = .fault .nullFunction ∧
        ∃ param, config.Counts param ∧ (unirecType param).countable = false) ∧
    (.destroy ∈ labels → agg'.storage = ∅ ∧
      agg'.heap.released.Perm (List.range agg'.heap.next)) ∧
    ∃ state, (Aggregation.system (keysOf config) config.timeouts).Steps
        (Aggregation.start now once) labels state ∧
      (∀ key, state.windows.history key =
        (Aggregation.accepted labels).filter fun inRec => recKey (keysOf config) inRec = key) ∧
      agg'.CountsWindows config state := by
  obtain ⟨isInit, fresh⟩ := HeapAgg.initial_of_init initial
  have counting := counting_of_init read noAverages isInit
  let simulation : ForwardSimulation (heapSystem unirec.ipCmp)
      (Aggregation.system agg.keyTemp agg.config.timeouts) :=
    { Related := HeapAgg.Follows config agg
      step := fun follows leads => follows.step counting isCmp leads }
  have start : simulation.Related agg (Aggregation.start now once) := fresh.follows counting
  obtain ⟨state, reached, follows⟩ := simulation.steps start run
  rw [fresh.keyTemp, fresh.config] at reached
  refine ⟨fun label fault leads => ?_, fun destroyed => ?_, state, reached,
    (Aggregation.partitions_of_steps reached).history, follows.countsWindows counting⟩
  · rcases (HeapAgg.leads_meets follows.sound isCmp leads).of_error rfl with
      limit | ⟨isNull, lacking⟩
    · exact .inl limit
    · exact .inr ⟨isNull, follows.of_lacking counting lacking⟩
  · have ended := reached.invariant Aggregation.Ended (fun none => by cases none)
      fun ended step => ended.step step
    exact follows.all_released (ended destroyed).2

/-- Options that count the sources of every port. -/
def sourcesByPort : Str := "agg -k DST_PORT -c SRC_IP".toList

/-- A record with this source. -/
def fromSource (address : BitVec 128) : Record :=
  Record.set (fun _ => 0) (.unirec .srcIP) address

theorem counts_of_run_sourcesByPort :
    ∃ config agg agg', ∃ state : Aggregation, Config.ofOptions sourcesByPort = .ok config ∧
      HeapAgg.init .plain config 0 true false = some agg ∧
      (heapSystem Libunirec.plain.ipCmp).Steps agg
        [.eval (fromSource 1), .eval (fromSource 2), .eval (fromSource 1), .destroy] agg' ∧
      agg'.sent.map (fun out => ((out.1 (.countDistinctOf .srcIP)).toNat, out.2)) = [(2, [0])] ∧
      agg'.storage = ∅ ∧ agg'.CountsWindows config state := by
  let ipCmp := Libunirec.plain.ipCmp
  let config := (getopt (getArgcArgv sourcesByPort)).foldl Config.applyOption .new
  have read : Config.ofOptions sourcesByPort = .ok config :=
    map_ok.mpr ⟨sourcesByPort, if_pos (by decide), rfl⟩
  have ends : ((HeapAgg.init .plain config 0 true false).map fun agg =>
      (agg.eval ipCmp (fromSource 1) >>= fun agg => agg.eval ipCmp (fromSource 2) >>= fun agg =>
        agg.eval ipCmp (fromSource 1) >>= HeapAgg.destroy).map fun agg =>
          agg.sent.map fun out => ((out.1 (.countDistinctOf .srcIP)).toNat, out.2)) =
      some (Except.ok [(2, [0])]) := by
    decide +kernel
  obtain ⟨agg, initial, ran⟩ := Option.map_eq_some_iff.mp ends
  obtain ⟨last, ran, sent⟩ := map_ok.mp ran
  obtain ⟨one, evaluates₁, ran⟩ := bind_ok.mp ran
  obtain ⟨two, evaluates₂, ran⟩ := bind_ok.mp ran
  obtain ⟨three, evaluates₃, destroys⟩ := bind_ok.mp ran
  have step₁ : agg.Leads ipCmp (.eval (fromSource 1)) (.ok one) := evaluates₁ ▸ .eval _
  have step₂ : one.Leads ipCmp (.eval (fromSource 2)) (.ok two) := evaluates₂ ▸ .eval _
  have step₃ : two.Leads ipCmp (.eval (fromSource 1)) (.ok three) := evaluates₃ ▸ .eval _
  have step₄ : three.Leads ipCmp .destroy (.ok last) := destroys ▸ .destroy
  have run : (heapSystem ipCmp).Steps agg
      [.eval (fromSource 1), .eval (fromSource 2), .eval (fromSource 1), .destroy] last :=
    .step (.step (.step (.step .refl step₁) step₂) step₃) step₄
  obtain ⟨_, all, state, _, _, counts⟩ :=
    counts_of_run Libunirec.plain_ipCmp read (by decide +kernel) initial run
  exact ⟨config, agg, last, state, read, initial, run, sent, (all (by simp)).1, counts⟩

end Policer.Aggregator
