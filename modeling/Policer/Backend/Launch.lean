import Policer.Backend.Dataflow

/-!
# Setting the pipeline up

`Builder::build` calls `init` of every component, those of the successors before its own. The
fields selectors define stay defined for the components that follow. `isNew_of_build` says that a
build without errors leaves a pipeline records can be fed to.
-/

namespace Policer.Backend

open Policer.Lib Policer.Parsing Policer.Aggregator
open Policer.Filter (Conversions Opcode Ff3Result ff3Init)

/-! ### Initialisation -/

/-- What components find when they are set up: the library of UniRec, the conversions of literals,
the memory filters get, the time of day and the names UniRec accepts. -/
structure Surroundings where
  unirec : Libunirec
  conv : Conversions
  fresh : Address → Nat → Opcode
  now : Int
  accepts : Str → Bool

/-- `init` of a component. -/
def initComponent (around : Surroundings) (address : Address) (table : Selector.FieldTable)
    (options : Str) : StageKind → Option (Selector.FieldTable × Component)
  | .filter =>
      (ff3Init around.conv (around.fresh address) options).root?.map fun root =>
        (table, .filter root)
  | .agg =>
      match Config.ofOptions options with
      | .error _ => none
      | .ok config =>
          (Agg.init around.unirec config around.now true false).map fun self => (table, .agg self)
  | .selector =>
      (Selector.start 0 around.accepts table options).map fun (self, after) =>
        (after, .selector self)

mutual

/-- `Builder_stage_base::init`, with the components by their addresses. -/
def initStage (around : Surroundings) (address : Address) (table : Selector.FieldTable) :
    BuilderStage → Option (Selector.FieldTable × List (Address × Component))
  | .mk kind options next => do
      let below ← initAll around address 0 table next
      let made ← initComponent around address below.1 options kind
      return (made.1, (address, made.2) :: below.2)

/-- The loops over the builders that follow, and over those of the main branches. -/
def initAll (around : Surroundings) (address : Address) (index : Nat)
    (table : Selector.FieldTable) :
    List BuilderStage → Option (Selector.FieldTable × List (Address × Component))
  | [] => some (table, [])
  | head :: tail => do
      let first ← initStage around (index :: address) table head
      let rest ← initAll around address (index + 1) first.1 tail
      return (rest.1, first.2 ++ rest.2)

end

/-- The component at an address; a filter that keeps nothing stands for none. -/
def componentAt (components : List (Address × Component)) (address : Address) : Component :=
  (components.find? fun made => made.1 = address).elim (.filter none) Prod.snd

/-- `Builder::build` on the forest the visit has left. -/
def build (around : Surroundings) (table : Selector.FieldTable) (forest : List BuilderStage) :
    Option Pipeline :=
  (initAll around [] 0 table forest).map fun made =>
    ⟨⟨true, false⟩, componentAt made.2, fun _ => []⟩

/-! ### What is set up -/

section Build

variable {around : Surroundings}

theorem installed_of_initComponent {address : Address} {table after : Selector.FieldTable}
    {kind : StageKind} {options : Str} {next : List BuilderStage} {made : Component}
    (init : initComponent around address table options kind = some (after, made)) :
    Installed around.unirec around.conv (.mk kind options next) made := by
  cases kind with
  | filter =>
      obtain ⟨root, isRoot, same⟩ := Option.map_eq_some_iff.mp init
      cases same
      exact .filter (Ff3Result.root?_eq_some.mp isRoot)
  | agg =>
      simp only [initComponent] at init
      split at init
      · cases init
      · rename_i config read
        obtain ⟨self, initial, same⟩ := Option.map_eq_some_iff.mp init
        cases same
        exact .agg read initial
  | selector =>
      obtain ⟨⟨self, table⟩, started, same⟩ := Option.map_eq_some_iff.mp init
      cases same
      exact .selector started

/-- A component stands at the address of its stage and is set up with its options. -/
def MadeFor (around : Surroundings) (found : Address × BuilderStage)
    (made : Address × Component) : Prop :=
  found.1 = made.1 ∧ Installed around.unirec around.conv found.2 made.2

mutual

theorem madeFor_of_initStage {address : Address} {table : Selector.FieldTable}
    {made : Selector.FieldTable × List (Address × Component)} : (stage : BuilderStage) →
    initStage around address table stage = some made →
      List.Forall₂ (MadeFor around) (stagesIn address stage) made.2
  | .mk kind options next, init => by
      rw [initStage] at init
      obtain ⟨below, isBelow, init⟩ := Option.bind_eq_some_iff.mp init
      obtain ⟨own, isOwn, same⟩ := Option.bind_eq_some_iff.mp init
      cases same
      rw [stagesIn]
      exact .cons ⟨rfl, installed_of_initComponent isOwn⟩ (madeFor_of_initAll next isBelow)

theorem madeFor_of_initAll {address : Address} {index : Nat} {table : Selector.FieldTable}
    {made : Selector.FieldTable × List (Address × Component)} : (forest : List BuilderStage) →
    initAll around address index table forest = some made →
      List.Forall₂ (MadeFor around) (stagesOf address index forest) made.2
  | [], init => by
      cases init
      exact .nil
  | head :: tail, init => by
      rw [initAll] at init
      obtain ⟨first, isFirst, init⟩ := Option.bind_eq_some_iff.mp init
      obtain ⟨rest, isRest, same⟩ := Option.bind_eq_some_iff.mp init
      cases same
      rw [stagesOf]
      exact List.rel_append (madeFor_of_initStage head isFirst) (madeFor_of_initAll tail isRest)

end

/-- The components of a build are those its stages ask for. -/
theorem isNew_of_build {table : Selector.FieldTable} {forest : List BuilderStage}
    {start : Pipeline} (built : build around table forest = some start) :
    IsNew around.unirec around.conv forest start := by
  obtain ⟨⟨after, components⟩, init, rfl⟩ := Option.map_eq_some_iff.mp built
  have made := madeFor_of_initAll forest init
  refine ⟨rfl, fun _ => rfl, ?_⟩
  rintro ⟨address, stage⟩ member
  obtain ⟨component, isComponent, here⟩ := exists_of_forall₂ made member
  cases found : components.find? fun made => made.1 = address with
  | none =>
      have absent := List.find?_eq_none.mp found component isComponent
      exact absurd here.1.symm (by simpa using absent)
  | some other =>
      have isAddress : other.1 = address := by simpa using List.find?_some found
      obtain ⟨⟨place, stage'⟩, isStage, there⟩ :=
        exists_of_forall₂ made.flip (List.mem_of_find?_eq_some found)
      have same := (parentsFirst_of [] 0 forest).unique isStage member (there.1.trans isAddress)
      cases same
      have state : componentAt components address = other.2 := by
        rw [componentAt, found]
        rfl
      change Installed around.unirec around.conv stage (componentAt components address)
      exact state ▸ there.2

end Build

end Policer.Backend
