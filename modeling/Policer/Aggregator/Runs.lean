import Policer.Aggregator.Storage

/-!
# Every aggregator has windows

The functions of a configuration leave the two times alone, whatever they are, so the stored
record has the least `TIME_FIRST` and the greatest `TIME_LAST` of its window. This is all the
timeouts read: every run of an aggregator is a run of its windows, which hold records that were
evaluated.
-/

namespace Policer.Aggregator

open Policer.Lib Policer.Parsing

/-! ### Windows and stored records -/

/-- `stored` is what the aggregator makes of the records of a window, one after the other. -/
inductive Agg.StandsFor (agg : Agg) : List Record → Stored → Prop where
  | first {inRec dst : Record} {fresh : Stored} (made : agg.initRecordData inRec dst = .ok fresh) :
      agg.StandsFor [inRec] fresh
  | next {group : List Record} {stored : Stored} (prior : agg.StandsFor group stored)
      (inRec : Record) : agg.StandsFor (group ++ [inRec]) (agg.processAggFunctions inRec stored)

/-- `out` is sent for the records of a window. -/
def Agg.Sends (agg : Agg) (group : List Record) (out : Record) : Prop :=
  ∃ stored, agg.StandsFor group stored ∧ agg.sendRecordOut stored = .ok out

/-- `COUNT` is the number of records, modulo its width. -/
theorem Agg.StandsFor.count {agg : Agg} {group : List Record} {stored : Stored}
    (stands : agg.StandsFor group stored)
    (noCount : Field.count ∉ agg.outputTemp.fields.map PlainField.record) :
    stored.record.count = BitVec.ofNat 32 group.length := by
  induction stands with
  | @first inRec dst fresh made =>
      obtain ⟨vectors, _, rfl⟩ := map_ok.mp made
      exact Record.set_same (urCopyFields agg.outputTemp.outTmplt dst inRec) .count 1
  | @next group stored _ inRec inductionHypothesis =>
      have value : (agg.processAggFunctions inRec stored).record.count = stored.record.count + 1 :=
        (processFields_other noCount inRec _).trans
          (Folding.updateStatics_count inRec stored.record)
      rw [value, inductionHypothesis, List.length_append, List.length_singleton, BitVec.ofNat_add]
      rfl

section Times

variable {config : Config} {agg : Agg} {group : List Record} {stored : Stored}

/-- No function changes the times that are kept. -/
theorem OfConfig.processFields_time (made : OfConfig config agg) {field : Field}
    (time : field = .unirec .timeFirst ∨ field = .unirec .timeLast) (src dst : Record) :
    agg.processFields src dst field = dst field := by
  refine processFields_other (fun member => ?_) src dst
  obtain ⟨plain, isPlain, rfl⟩ := List.mem_map.mp member
  obtain ⟨noFirst, noLast⟩ := made.noTime isPlain
  exact time.elim noFirst noLast

/-- A time that is kept is that of the window. -/
theorem OfConfig.keeps_time (made : OfConfig config agg) {field : Field}
    (time : field = .unirec .timeFirst ∨ field = .unirec .timeLast) {code : FunctionCode}
    (fold : IsFold code) (updates : ∀ src dst,
      Folding.updateStatics src dst field = combine code (src field) (dst field))
    (stands : agg.StandsFor group stored) :
    Aggregates code (group.map fun record => record field) (stored.record field) := by
  have static : field ∈ staticIds := by
    rcases time with rfl | rfl <;> simp [staticIds]
  have noCount : field ≠ .count := by
    rcases time with rfl | rfl <;> simp
  induction stands with
  | @first inRec dst fresh isFresh =>
      obtain ⟨vectors, _, rfl⟩ := map_ok.mp isFresh
      have copied := copied_record (made.static_inTemplate static) noCount inRec dst
      change Aggregates code [inRec field]
        (((urCopyFields agg.outputTemp.outTmplt dst inRec).set .count 1) field)
      rw [copied]
      exact aggregates_singleton fold _
  | @next group stored _ inRec ih =>
      have value : (agg.processAggFunctions inRec stored).record field = _ :=
        (made.processFields_time time inRec _).trans (updates inRec stored.record)
      rw [List.map_append]
      exact value ▸ ih.append (inRec field)

/-- The stored `TIME_FIRST` is the least of the window. -/
theorem OfConfig.timeFirst (made : OfConfig config agg) (stands : agg.StandsFor group stored) :
    Aggregates .min (group.map Record.timeFirst) stored.record.timeFirst :=
  made.keeps_time (.inl rfl) rfl Folding.updateStatics_timeFirst stands

/-- The stored `TIME_LAST` is the greatest of the window. -/
theorem OfConfig.timeLast (made : OfConfig config agg) (stands : agg.StandsFor group stored) :
    Aggregates .max (group.map Record.timeLast) stored.record.timeLast :=
  made.keeps_time (.inr rfl) rfl Folding.updateStatics_timeLast stands

/-- What an aggregator makes of a window stands for it, whatever its functions are. -/
theorem OfConfig.windowed (made : OfConfig config agg) :
    Windowed agg agg.StandsFor agg.Sends where
  first := .first
  next stands inRec := .next stands inRec
  send stands sent := ⟨_, stands, sent⟩
  timeFirst := made.timeFirst
  timeLast := made.timeLast

end Times

/-- Every run of an aggregator is a run of its windows. -/
theorem windows_of_run {unirec : Libunirec} {config : Config} {now : Int} {once : Bool}
    {agg agg' : Agg}
    (initial : Agg.init unirec config now once false = some agg) {labels : List AggStep}
    (run : aggSystem.Steps agg labels agg') :
    ∃ state, (Aggregation.system (keysOf config) config.timeouts).Steps
        (Aggregation.start now once) labels state ∧
      Mirrors agg.StandsFor agg.Sends agg' state := by
  have made := ofConfig_of_init initial
  rw [init_eq (known_of_init initial)] at initial
  obtain rfl := Option.some.inj initial
  refine mirrors_of_steps made.windowed ?_ run
  exact ⟨fun key stored found => by simp at found, fun _ _ => rfl, .nil, rfl, rfl, rfl⟩

/-! ### Windows hold what was evaluated -/

/-- The records of a window were evaluated. -/
def Evaluated (labels : List AggStep) (group : List Record) : Prop :=
  ∀ inRec ∈ group, AggStep.eval inRec ∈ labels

/-- What is stored and what was sent comes from windows of evaluated records. -/
structure Agg.FromGroups (agg : Agg) (labels : List AggStep) (agg' : Agg) : Prop where
  setup : SameSetup agg agg'
  stored : ∀ entry ∈ agg'.storage.entries,
    ∃ group, agg.StandsFor group entry.2 ∧ Evaluated labels group
  sent : ∀ out ∈ agg'.sent, ∃ group stored, agg.StandsFor group stored ∧
    Evaluated labels group ∧ agg.sendRecordOut stored = .ok out

namespace Aggregation

theorem evaluated_of_accepted {labels : List AggStep} {inRec : Record}
    (member : inRec ∈ accepted labels) : AggStep.eval inRec ∈ labels := by
  obtain ⟨label, isLabel, isRecord⟩ := List.mem_filterMap.mp member
  cases label with
  | eval other =>
      cases isRecord
      exact List.takeWhile_subset _ isLabel
  | _ => cases isRecord

variable {keyTemp : List Field} {labels : List AggStep} {state : Aggregation}

theorem Partitions.evaluated (partitions : Partitions keyTemp labels state) (key : Key) :
    Evaluated labels (state.windows.history key) := by
  intro inRec member
  rw [partitions.history] at member
  exact evaluated_of_accepted (List.mem_of_mem_filter member)

theorem Partitions.opened (partitions : Partitions keyTemp labels state) (key : Key) :
    Evaluated labels (state.windows.opened key) :=
  fun inRec member => partitions.evaluated key inRec (List.mem_append_right _ member)

theorem Partitions.closed (partitions : Partitions keyTemp labels state)
    {closed : Key × List Record} (isClosed : closed ∈ state.windows.closed) :
    Evaluated labels closed.2 := by
  intro inRec member
  refine partitions.evaluated closed.1 inRec (List.mem_append_left _ ?_)
  exact List.mem_flatMap.mpr ⟨closed, List.mem_filter.mpr ⟨isClosed, by simp⟩, member⟩

end Aggregation

theorem exists_of_forall₂ {α β : Type} {related : α → β → Prop} {items : List α}
    {others : List β} (all : List.Forall₂ related items others) {item : α}
    (member : item ∈ items) : ∃ other ∈ others, related item other := by
  induction all with
  | nil => cases member
  | @cons head other _ _ here _ ih =>
      rcases List.mem_cons.mp member with rfl | later
      · exact ⟨other, List.mem_cons_self, here⟩
      · obtain ⟨found, isFound, holds⟩ := ih later
        exact ⟨found, List.mem_cons_of_mem _ isFound, holds⟩

/-- In every run what is stored and what was sent comes from windows of evaluated records. -/
theorem fromGroups_of_run {unirec : Libunirec} {config : Config} {now : Int} {once : Bool}
    {agg agg' : Agg}
    (initial : Agg.init unirec config now once false = some agg) {labels : List AggStep}
    (run : aggSystem.Steps agg labels agg') : agg.FromGroups labels agg' := by
  obtain ⟨state, reached, mirrors⟩ := windows_of_run initial run
  have partitions := Aggregation.partitions_of_steps reached
  refine ⟨?_, fun entry member => ?_, fun out member => ?_⟩
  · exact .of_steps run
  · obtain ⟨_, stands⟩ := mirrors.stored entry.1 entry.2 (AList.mem_lookup_iff.mpr member)
    exact ⟨_, stands, partitions.opened entry.1⟩
  · obtain ⟨closed, isClosed, _, stored, stands, sends⟩ := exists_of_forall₂ mirrors.sent member
    exact ⟨closed.2, stored, stands, partitions.closed isClosed, sends⟩

end Policer.Aggregator
