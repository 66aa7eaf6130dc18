import Policer.Backend.InputTemplate
import Policer.Backend.Streams
import Policer.Parsing.RuleGrammar
import Policer.Selector.Items

/-!
# The process

`main` reads the arguments and the rule file and sets the backend up, and `start_processing`
receives records until it is stopped. `outputs_of_run` says what the components of a process have
done at any time with the records it has received, and that its selectors write to the interfaces
its arguments name.
-/

namespace Policer.Backend

open Policer.Lib Policer.Parsing Policer.Aggregator
open Policer.Filter (Behind Conversions)

/-! ### Arguments -/

/-- What `main` finds around it: the initialisation of TRAP, which leaves arguments over or makes
`main` return, the options `getopt_long` finds, with `none` for one that is not known, the files,
and whether there is an input template of some fields. -/
structure Host where
  trapInit : List Str → Nat → Except Int (List Str)
  getopt : List Str → List (Option Str)
  file : Str → Option Str
  inputTemplate : Str → Bool

/-- The last argument behind `-i`. -/
def interfacesArgument (found : Option Str) : List Str → Option Str
  | arg :: value :: rest =>
      interfacesArgument (if arg = "-i".toList then some value else found) (value :: rest)
  | _ => found

/-- `count_trap_interfaces`. -/
def countTrapInterfaces (argv : List Str) : Nat :=
  1 + ((interfacesArgument none argv.tail).elim 0 fun interfaces => interfaces.count ',')

/-- The loop over the options: the last file counts. -/
def sourceFile (options : List (Option Str)) : Except Int (Option Str) :=
  options.foldlM (fun _ option =>
    match option with
    | some name => .ok (some name)
    | none => .error (-3)) none

/-- `processing_arguments`: the number of output interfaces and the text of the rule file. -/
def processingArguments (host : Host) (argv : List Str) : Except Int (Nat × Str) := do
  let nOutputs := countTrapInterfaces argv - 1
  let rest ← host.trapInit argv nOutputs
  if nOutputs = 0 then .error (-1)
  else if 32 < nOutputs then .error (-2)
  else
    match (← sourceFile (host.getopt rest)).bind host.file with
    | none => .error (-1)
    | some text => .ok (nOutputs, text)

/-! ### Setting up -/

/-- How `main` ends before it receives records: it returns, an exception leaves it, or it does not
get to an end of its own. -/
inductive Exit where
  | code (ret : Int)
  | uncaught (thrown : ProgramError)
  | aborted
  | unterminated

/-- A backend that is ready to receive records. -/
structure Ready where
  data : InterRepr
  forest : BuilderVec
  pipeline : Pipeline

/-- What a failure of a call comes to where exceptions come to `raised`. -/
def Failure.exit (raised : ProgramError → Exit) : Failure → Exit
  | .thrown error => raised error
  | .aborted => .aborted
  | .unterminated => .unterminated

/-- The `try` block of `main`. -/
def parseRules (text : Str) : Except Exit InterRepr :=
  (Rules.syntaxTree text >>= Parser.run).mapError
    (Failure.exit fun thrown => .code thrown.retCode)

/-- What nothing catches. -/
def outsideTry {α : Type} (call : Except Failure α) : Except Exit α :=
  call.mapError (Failure.exit .uncaught)

/-- `main` up to the loop of `start_processing`. -/
def prepare (host : Host) (around : Surroundings) (argv : List Str) : Except Exit Ready := do
  let (nOutputs, text) ← (processingArguments host argv).mapError .code
  let data ← parseRules text
  let outputs ← outsideTry (getNumberOfOutputInterfaces data)
  if outputs ≠ nOutputs then .error (.code (-1))
  else if checkInterRepr data ≠ 0 then .error (.code (-1))
  else
    let fields ← outsideTry (inputTemplateFields data)
    let forest ← outsideTry (buildRoot data 0)
    match build around Selector.definedFields forest, host.inputTemplate fields with
    | some pipeline, true => .ok ⟨data, forest, pipeline⟩
    | _, _ => .error (.code (-1))

/-! ### The loop -/

/-- What `TRAP_RECEIVE` returns and the handling of errors makes of it: data, another turn of the
loop or the end of it. Data come with the size a record has at least: the template is brought up to
date on the way. -/
inductive Receipt where
  | data (ret : Int) (fixlen size : Nat) (record : Record)
  | again (ret : Int)
  | stop (ret : Int)

/-- Where `start_processing` is. -/
inductive Phase where
  | test
  | receiving
  | returned
deriving DecidableEq

/-- A process behind its start. `ret` is what `start_processing` returns. -/
structure Process where
  phase : Phase
  ret : Int
  stopFlag : Bool
  pipeline : Pipeline

/-- Labels of a process: the loop tests the flag and receives, a signal arrives, and the threads of
the aggregators take their steps. -/
inductive ProcessStep where
  | signal
  | test
  | receive (receipt : Receipt)
  | own (place : Address) (label : AggStep)

namespace Process

/-- A process at the loop. -/
def start (ready : Ready) : Process := ⟨.test, 0, false, ready.pipeline⟩

variable (behind : Record → Behind) (ready : Ready)

/-- The steps of a process. Data that are too short end the loop. -/
inductive Moves (self : Process) : ProcessStep → Process → Prop where
  | signal : Moves self .signal { self with stopFlag := true }
  | goes (isTest : self.phase = .test) (runs : self.stopFlag = false) :
      Moves self .test { self with phase := .receiving }
  | leaves (isTest : self.phase = .test) (stopped : self.stopFlag = true) :
      Moves self .test { self with phase := .returned }
  | again {ret : Int} (receives : self.phase = .receiving) :
      Moves self (.receive (.again ret)) { self with phase := .test, ret := ret }
  | stop {ret : Int} (receives : self.phase = .receiving) :
      Moves self (.receive (.stop ret)) { self with phase := .returned, ret := ret }
  | ends {ret : Int} {fixlen size : Nat} {record : Record} (receives : self.phase = .receiving)
      (short : size < fixlen) (isEnd : size ≤ 1) :
      Moves self (.receive (.data ret fixlen size record))
        { self with phase := .returned, ret := ret }
  | refuses {ret : Int} {fixlen size : Nat} {record : Record} (receives : self.phase = .receiving)
      (short : size < fixlen) (noEnd : 1 < size) :
      Moves self (.receive (.data ret fixlen size record))
        { self with phase := .returned, ret := -1 }
  | evaluates {ret : Int} {fixlen size : Nat} {record : Record} {pipeline : Pipeline}
      (receives : self.phase = .receiving) (whole : fixlen ≤ size)
      (feeds : ((component behind).network (shapes ready.forest)).Step self.pipeline (.feed record)
        pipeline) :
      Moves self (.receive (.data ret fixlen size record))
        { self with phase := .test, ret := ret, pipeline := pipeline }
  | own {place : Address} {label : AggStep} {pipeline : Pipeline}
      (steps : ((component behind).network (shapes ready.forest)).Step self.pipeline
        (.own place label) pipeline) :
      Moves self (.own place label) { self with pipeline := pipeline }

/-- A process as a transition system. -/
def system : TransitionSystem Process ProcessStep where
  Step := Moves behind ready

end Process

/-- What `main` returns when the loop has returned. -/
def Process.exitCode (self : Process) : Option Int :=
  if self.phase = .returned then some (if self.ret ≠ 0 then -1 else 0) else none

/-- The record of a step, if it is received whole. -/
def ProcessStep.record? : ProcessStep → Option Record
  | .receive (.data _ fixlen size record) => if fixlen ≤ size then some record else none
  | _ => none

/-- The records that are received whole, in order. -/
def received (labels : List ProcessStep) : List Record :=
  labels.filterMap ProcessStep.record?

/-! ### Getting ready -/

theorem mapError_ok {ε ε' α : Type} {call : Except ε α} {f : ε → ε'} {result : α} :
    call.mapError f = .ok result ↔ call = .ok result := by
  cases call <;> simp [Except.mapError]

theorem mapError_error {ε ε' α : Type} {call : Except ε α} {f : ε → ε'} {thrown : ε'} :
    call.mapError f = .error thrown ↔ ∃ raised, call = .error raised ∧ f raised = thrown := by
  cases call <;> simp [Except.mapError]

theorem bind_error {ε α β : Type} {call : Except ε α} {next : α → Except ε β} {thrown : ε} :
    (call >>= next) = .error thrown ↔
      call = .error thrown ∨ ∃ middle, call = .ok middle ∧ next middle = .error thrown := by
  cases call <;> simp [bind, Except.bind]

theorem parseRules_ok {text : Str} {data : InterRepr} (parsed : parseRules text = .ok data) :
    ∃ ast, Rules.syntaxTree text = .ok ast ∧ Parser.run ast = .ok data := by
  exact bind_ok.mp (mapError_ok.mp parsed)

/-- What a process that is ready has passed. -/
theorem ready_of_prepare {host : Host} {around : Surroundings} {argv : List Str} {ready : Ready}
    (prepared : prepare host around argv = .ok ready) : ∃ text ast,
      processingArguments host argv = .ok ((selectorsOf ast.occurrences).length, text) ∧
      Rules.syntaxTree text = .ok ast ∧ Accepted ast ready.data ∧
      buildRoot ready.data 0 = .ok ready.forest ∧
      build around Selector.definedFields ready.forest = some ready.pipeline := by
  rw [prepare] at prepared
  obtain ⟨⟨nOutputs, text⟩, arguments, prepared⟩ := bind_ok.mp prepared
  obtain ⟨data, parsed, prepared⟩ := bind_ok.mp prepared
  obtain ⟨outputs, counted, prepared⟩ := bind_ok.mp prepared
  split at prepared
  · cases prepared
  rename_i equal
  split at prepared
  · cases prepared
  rename_i initialized
  obtain ⟨fields, _, prepared⟩ := bind_ok.mp prepared
  obtain ⟨forest, built, prepared⟩ := bind_ok.mp prepared
  split at prepared
  · rename_i pipeline isPipeline _
    cases prepared
    obtain ⟨ast, isTree, ran⟩ := parseRules_ok parsed
    have isOutputs := mapError_ok.mp counted
    rw [getNumberOfOutputInterfaces_eq, Parser.run_ast ran] at isOutputs
    cases isOutputs
    obtain rfl := not_not.mp equal
    exact ⟨text, ast, mapError_ok.mp arguments, isTree, ⟨ran, not_not.mp initialized⟩,
      mapError_ok.mp built, isPipeline⟩
  · cases prepared

/-- The arguments of a process that is ready name one output interface at least and 32 at most. -/
theorem processingArguments_ok {host : Host} {argv : List Str} {nOutputs : Nat} {text : Str}
    (arguments : processingArguments host argv = .ok (nOutputs, text)) :
    nOutputs + 1 = countTrapInterfaces argv ∧ 1 ≤ nOutputs ∧ nOutputs ≤ 32 := by
  rw [processingArguments] at arguments
  obtain ⟨rest, _, arguments⟩ := bind_ok.mp arguments
  split at arguments
  · cases arguments
  split at arguments
  · cases arguments
  obtain ⟨found, _, arguments⟩ := bind_ok.mp arguments
  split at arguments
  · cases arguments
  · cases arguments
    have one : 1 ≤ countTrapInterfaces argv := Nat.le_add_right ..
    omega

/-- Nothing that `main` does outside of its `try` block throws. -/
theorem prepare_ne_uncaught (host : Host) (around : Surroundings) (argv : List Str)
    (thrown : ProgramError) : prepare host around argv ≠ .error (.uncaught thrown) := by
  intro raised
  rw [prepare] at raised
  rcases bind_error.mp raised with isCode | ⟨⟨nOutputs, text⟩, _, raised⟩
  · obtain ⟨_, _, same⟩ := mapError_error.mp isCode
    cases same
  rcases bind_error.mp raised with isCode | ⟨data, parsed, raised⟩
  · obtain ⟨failure, _, same⟩ := mapError_error.mp isCode
    cases failure <;> cases same
  obtain ⟨ast, _, ran⟩ := parseRules_ok parsed
  rcases bind_error.mp raised with isUncaught | ⟨outputs, _, raised⟩
  · rw [getNumberOfOutputInterfaces_eq] at isUncaught
    cases isUncaught
  split at raised
  · cases raised
  split at raised
  · cases raised
  rcases bind_error.mp raised with isUncaught | ⟨_, _, raised⟩
  · rw [inputTemplateFields, prepareFields_eq] at isUncaught
    cases isUncaught
  rcases bind_error.mp raised with isUncaught | ⟨_, _, raised⟩
  · rw [buildRoot_of_run ran] at isUncaught
    cases isUncaught
  · split at raised <;> cases raised

/-! ### Interfaces -/

/-- The interface of a component, if it is a selector. -/
def Component.interface? : Component → Option Int
  | .selector self => some self.members.ifcNum
  | _ => none

/-- The interfaces the selectors among the stages write to. -/
def Pipeline.interfaces (now : Pipeline) (stages : List (Address × BuilderStage)) : List Int :=
  stages.filterMap fun found => (now.state found.1).interface?

theorem stagesOf_append (address : Address) (first second : List BuilderStage) : ∀ index,
    stagesOf address index (first ++ second) =
      stagesOf address index first ++ stagesOf address (index + first.length) second := by
  induction first with
  | nil => simp [stagesOf]
  | cons head tail ih =>
      intro index
      rw [List.cons_append, stagesOf, ih, stagesOf, List.append_assoc, List.length_cons,
        Nat.add_right_comm, Nat.add_assoc]

/-- A stage over a tree: its component and what is below. -/
theorem stagesOf_singleton (address : Address) (index : Nat) (kind : StageKind) (options : Str)
    (next : List BuilderStage) : stagesOf address index [.mk kind options next] =
      (index :: address, .mk kind options next) :: stagesOf (index :: address) 0 next := by
  simp [stagesOf, stagesIn]

section Interfaces

variable {data : InterRepr} {unirec : Libunirec} {conv : Conversions} {behind : Record → Behind}
  {now : Pipeline}

/-- The stages carry what their predecessors have handed on. -/
def CarriesAll (unirec : Libunirec) (conv : Conversions) (behind : Record → Behind) (now : Pipeline)
    (stages : List (Address × BuilderStage)) : Prop :=
  ∀ index address stage, (index :: address, stage) ∈ stages →
    Carries unirec conv behind (now.sent address) stage (now.view (index :: address))

theorem CarriesAll.subset {stages fewer : List (Address × BuilderStage)}
    (carries : CarriesAll unirec conv behind now stages) (subset : fewer ⊆ stages) :
    CarriesAll unirec conv behind now fewer :=
  fun index address stage member => carries index address stage (subset member)

theorem members_foldl (self : Selector.Running Nat) (records : List (Selector.Values Nat)) :
    (records.foldl Selector.Running.eval self).members = self.members := by
  induction records generalizing self with
  | nil => rfl
  | cons record records ih => exact ih (self.eval record)

/-- A selector that starts sends to the interface `Builder` has numbered it with. -/
theorem ifcNum_of_start {accepts : Str → Bool} {table after : Selector.FieldTable} {ctx : Context}
    {body : SelectorBody} {number : Nat} {self : Selector.Running Nat}
    (started : Selector.start 0 accepts table (selectorOptions data ctx body number) =
      some (self, after)) : self.members.ifcNum = number := by
  rw [Selector.start, selectorOptions, Selector.init_eq] at started
  split at started
  · cases started
  · rename_i members fields read
    obtain ⟨_, _, same⟩ := Option.map_eq_some_iff.mp started
    cases same
    split at read
    · cases read
    · obtain ⟨_, _, same⟩ := map_ok.mp read
      cases same
      rfl

/-- The interface of a component that carries is that of its options. -/
theorem interface?_of_carries {address : Address} {kind : StageKind} {options : Str}
    {next : List BuilderStage} {arrived : List Record}
    (carries : Carries unirec conv behind arrived (.mk kind options next) (now.view address)) :
    (kind ≠ .selector → (now.state address).interface? = none) ∧
      ∀ data ctx body number, kind = .selector → options = selectorOptions data ctx body number →
        (now.state address).interface? = some (number : Int) := by
  generalize same : now.view address = view at carries
  have isState : now.state address = view.2.1 := same ▸ rfl
  rw [isState]
  cases carries with
  | filter | agg => exact ⟨fun _ => rfl, fun _ _ _ _ isSelector => by cases isSelector⟩
  | selector started =>
      refine ⟨fun other => absurd rfl other, fun data ctx body number _ isOptions => ?_⟩
      subst isOptions
      rw [Component.interface?, members_foldl, ifcNum_of_start started]

mutual

/-- The selectors of a tree write to one interface after the other. -/
theorem interfaces_translateTree {ctx : Context} {address : Address} {index : Nat} :
    (t : Tree) → ∀ number,
      CarriesAll unirec conv behind now
          (stagesOf address index (translateTree data ctx t number).1) →
        now.interfaces (stagesOf address index (translateTree data ctx t number).1) =
          (List.range' number (selectorsOf (t.occurrences ctx)).length).map Int.ofNat
  | .selector body, number, carries => by
      rw [translateTree, stagesOf_singleton, stagesOf] at carries ⊢
      have carried := carries index address _ List.mem_cons_self
      have isNumber := (interface?_of_carries carried).2 data ctx body number rfl rfl
      exact List.filterMap_cons_some isNumber
  | .stage st next, number, carries => by
      have silent : ∀ {kind options below},
          (index :: address, .mk kind options below) ∈
            stagesOf address index (translateTree data ctx (.stage st next) number).1 →
          kind ≠ .selector → ∀ rest,
            now.interfaces ((index :: address, .mk kind options below) :: rest) =
              now.interfaces rest :=
        fun member other _ => List.filterMap_cons_none
          ((interface?_of_carries (carries index address _ member)).1 other)
      rw [translateTree] at carries silent ⊢
      cases st with
      | grouper type => exact interfaces_translateTree next number carries
      | window body => exact interfaces_translateTree next number carries
      | filter body | groupFilter body | aggregator body =>
          rw [translateStage, stagesOf_singleton] at carries silent ⊢
          rw [silent List.mem_cons_self (by decide)]
          exact interfaces_translateTree next number
            (carries.subset (List.subset_cons_self ..))
  | .branches _ items, number, carries => interfaces_translateBranches items number carries

theorem interfaces_translateBranches {ctx : Context} {address : Address} {index : Nat} :
    (items : Branches) → ∀ number,
      CarriesAll unirec conv behind now
          (stagesOf address index (translateBranches data ctx items number).1) →
        now.interfaces (stagesOf address index (translateBranches data ctx items number).1) =
          (List.range' number (selectorsOf (items.occurrences ctx)).length).map Int.ofNat
  | .nil, _, _ => rfl
  | .cons name tree rest, number, carries => by
      rw [translateBranches, stagesOf_append] at carries ⊢
      have here := interfaces_translateTree tree number
        (carries.subset (List.subset_append_left ..))
      have later := interfaces_translateBranches rest _
        (carries.subset (List.subset_append_right ..))
      rw [Pipeline.interfaces, List.filterMap_append]
      refine (congrArg₂ (· ++ ·) here later).trans ?_
      rw [translateTree_number, Branches.occurrences, selectorsOf_append, List.length_append,
        ← List.map_append, List.range'_append_1]

end

end Interfaces

/-! ### Runs -/

section Runs

variable {host : Host} {around : Surroundings} {argv : List Str} {behind : Record → Behind}
  {ready : Ready} {labels : List ProcessStep} {now : Process}

/-- The step of the pipeline in one of a process. -/
def ProcessStep.network? : ProcessStep → Option (NetworkStep Record AggStep)
  | .receive (.data _ fixlen size record) => if fixlen ≤ size then some (.feed record) else none
  | .own place label => some (.own place label)
  | _ => none

theorem network?_of_le {ret : Int} {fixlen size : Nat} {record : Record} (whole : fixlen ≤ size) :
    ProcessStep.network? (.receive (.data ret fixlen size record)) = some (.feed record) :=
  if_pos whole

theorem network?_of_lt {ret : Int} {fixlen size : Nat} {record : Record} (short : size < fixlen) :
    ProcessStep.network? (.receive (.data ret fixlen size record)) = none :=
  if_neg (Nat.not_le.mpr short)

theorem fed_network (labels : List ProcessStep) :
    fed (labels.filterMap ProcessStep.network?) = received labels := by
  rw [fed, received, List.filterMap_filterMap]
  refine List.filterMap_congr fun label _ => ?_
  cases label with
  | receive receipt =>
      cases receipt with
      | data ret fixlen size record =>
          simp only [ProcessStep.network?, ProcessStep.record?]
          split <;> rfl
      | again | stop => rfl
  | _ => rfl

/-- A run of a process runs its pipeline. -/
theorem network_of_steps (run : (Process.system behind ready).Steps (.start ready) labels now) :
    ((component behind).network (shapes ready.forest)).Steps ready.pipeline
      (labels.filterMap ProcessStep.network?) now.pipeline := by
  refine run.invariant (fun labels now =>
    ((component behind).network (shapes ready.forest)).Steps ready.pipeline
      (labels.filterMap ProcessStep.network?) now.pipeline) .refl ?_
  intro before middle label after prior moves
  rw [List.filterMap_append]
  cases moves with
  | evaluates receives whole feeds =>
      rw [List.filterMap_cons_some (network?_of_le whole), List.filterMap_nil]
      exact .step prior feeds
  | own steps => exact .step prior steps
  | ends _ short | refuses _ short =>
      rw [List.filterMap_cons_none (network?_of_lt short), List.filterMap_nil, List.append_nil]
      exact prior
  | signal | goes | leaves | again | stop =>
      rw [List.filterMap_cons_none rfl, List.filterMap_nil, List.append_nil]
      exact prior

/-- At any time the roots of a process that has parsed its rule file have got the records it has
received whole, every other component what its predecessor has handed on, and the selectors write
to the interfaces the arguments name, from `0` on, all of them and at most 32. -/
theorem outputs_of_run (prepared : prepare host around argv = .ok ready)
    (run : (Process.system behind ready).Steps (.start ready) labels now) :
    ∃ nOutputs text ast, processingArguments host argv = .ok (nOutputs, text) ∧
      Rules.syntaxTree text = .ok ast ∧ Parser.run ast = .ok ready.data ∧
      buildRoot ready.data 0 = .ok ready.forest ∧
      now.pipeline.sent [] = received labels ∧
      (∀ index address stage, (index :: address, stage) ∈ stagesOf [] 0 ready.forest →
        Carries around.unirec around.conv behind (now.pipeline.sent address) stage
          (now.pipeline.view (index :: address))) ∧
      now.pipeline.interfaces (stagesOf [] 0 ready.forest) =
        (List.range nOutputs).map Int.ofNat ∧
      nOutputs + 1 = countTrapInterfaces argv ∧ 1 ≤ nOutputs ∧ nOutputs ≤ 32 := by
  obtain ⟨text, ast, arguments, isTree, accepted, built, isPipeline⟩ := ready_of_prepare prepared
  obtain ⟨same, carries⟩ := streams_of_run (isNew_of_build isPipeline) (network_of_steps run)
  rw [fed_network] at same
  have translated := Except.ok.inj ((buildRoot_of_run accepted.run 0).symm.trans built)
  have interfaces : now.pipeline.interfaces (stagesOf [] 0 ready.forest) =
      (List.range (selectorsOf ast.occurrences).length).map Int.ofNat := by
    rw [← translated] at carries ⊢
    rw [List.range_eq_range']
    exact interfaces_translateTree ast.tree 0 carries
  exact ⟨_, text, ast, arguments, isTree, accepted.run, built, same, carries, interfaces,
    processingArguments_ok arguments⟩

/-- A host with one file. -/
def oneFile (text : Str) : Host :=
  ⟨fun argv _ => .ok argv, fun _ => [some "rules".toList], fun _ => some text, fun _ => true⟩

/-- `policer -i u:in,u:one,u:two -f rules`. -/
def twoOutputs : List Str :=
  ["policer".toList, "-i".toList, "u:in,u:one,u:two".toList, "-f".toList, "rules".toList]

def twoSelectors : Str :=
  ("branch main \x7b filter: PACKETS > 5;\n  branch one \x7b selector: DST_PORT; \x7d\n".toList ++
    "  branch two \x7b selector: BYTES; \x7d \x7d\n".toList)

theorem outputs_of_run_twoSelectors : ∃ ready now nOutputs,
    prepare (oneFile twoSelectors) plainSurroundings twoOutputs = .ok ready ∧
      (Process.system (fun _ _ _ => 0) ready).Steps (.start ready)
        [.test, .receive (.data 0 40 40 fun _ => 7)] now ∧
      now.pipeline.sent [] = [fun _ => 7] ∧
      now.pipeline.interfaces (stagesOf [] 0 ready.forest) = (List.range nOutputs).map Int.ofNat ∧
      nOutputs + 1 = countTrapInterfaces twoOutputs := by
  have runs : (prepare (oneFile twoSelectors) plainSurroundings twoOutputs).toOption.any
      fun ready => ((component fun _ _ _ => 0).send (fun _ => 7) [] 0
        (ready.pipeline.fedWith fun _ => 7) (shapes ready.forest)).isOk := by decide +kernel
  cases prepared : prepare (oneFile twoSelectors) plainSurroundings twoOutputs with
  | error exit =>
      rw [prepared] at runs
      cases runs
  | ok ready =>
      rw [prepared] at runs
      obtain ⟨pipeline, sends⟩ := exists_ok_of_isOk (show Except.isOk _ = true from runs)
      have goes : (Process.system (fun _ _ _ => 0) ready).Step (.start ready) .test
          ⟨.receiving, 0, false, ready.pipeline⟩ := .goes rfl rfl
      have feeds : (Process.system (fun _ _ _ => 0) ready).Step
          ⟨.receiving, 0, false, ready.pipeline⟩ (.receive (.data 0 40 40 fun _ => 7))
          ⟨.test, 0, false, pipeline⟩ :=
        .evaluates rfl (Nat.le_refl 40) (Machine.step_feed sends)
      have run := TransitionSystem.Steps.step (.step .refl goes) feeds
      obtain ⟨nOutputs, text, ast, _, _, _, _, same, _, interfaces, counted, _⟩ :=
        outputs_of_run prepared run
      exact ⟨ready, _, nOutputs, rfl, run, same, interfaces, counted⟩

/-- What is received in a step. -/
def ProcessStep.receipt? : ProcessStep → Option Receipt
  | .receive receipt => some receipt
  | _ => none

/-- What `start_processing` returns when it stops behind a receipt. -/
def Receipt.ret : Receipt → Int
  | .data ret fixlen size _ => if size < fixlen ∧ 1 < size then -1 else ret
  | .again ret | .stop ret => ret

/-- A receipt the loop ends with. -/
def Receipt.isLast : Receipt → Bool
  | .data _ fixlen size _ => decide (size < fixlen)
  | .again _ => false
  | .stop _ => true

/-- What has been received, in order. -/
def receipts (labels : List ProcessStep) : List Receipt :=
  labels.filterMap ProcessStep.receipt?

/-- What the last receipt makes `start_processing` return. -/
def lastReturn (labels : List ProcessStep) : Int :=
  (receipts labels).getLast?.elim 0 Receipt.ret

theorem receipts_receive (labels : List ProcessStep) (receipt : Receipt) :
    receipts (labels ++ [.receive receipt]) = receipts labels ++ [receipt] := by
  simp [receipts, ProcessStep.receipt?]

theorem receipts_other {label : ProcessStep} (labels : List ProcessStep)
    (other : label.receipt? = none) : receipts (labels ++ [label]) = receipts labels := by
  simp [receipts, other]

theorem lastReturn_receive (labels : List ProcessStep) (receipt : Receipt) :
    lastReturn (labels ++ [.receive receipt]) = receipt.ret := by
  rw [lastReturn, receipts_receive, List.getLast?_concat]
  rfl

theorem lastReturn_other {label : ProcessStep} (labels : List ProcessStep)
    (other : label.receipt? = none) : lastReturn (labels ++ [label]) = lastReturn labels := by
  rw [lastReturn, receipts_other labels other, lastReturn]

theorem ret_of_run (run : (Process.system behind ready).Steps (.start ready) labels now) :
    now.ret = lastReturn labels := by
  refine run.invariant (fun labels now => now.ret = lastReturn labels) rfl ?_
  intro before middle label after prior moves
  cases moves with
  | signal | goes | leaves | own =>
      rw [lastReturn_other _ rfl]
      exact prior
  | again | stop =>
      rw [lastReturn_receive]
      rfl
  | ends _ _ isEnd =>
      rw [lastReturn_receive]
      exact (if_neg fun both => by omega).symm
  | refuses _ short noEnd =>
      rw [lastReturn_receive]
      exact (if_pos ⟨short, noEnd⟩).symm
  | evaluates _ whole =>
      rw [lastReturn_receive]
      exact (if_neg fun both => by omega).symm

/-- Why the loop has ended: a signal has come, or what was received last ended it. -/
def Ended (labels : List ProcessStep) : Prop :=
  .signal ∈ labels ∨ ∃ receipt, (receipts labels).getLast? = some receipt ∧ receipt.isLast = true

theorem ended_of_run (run : (Process.system behind ready).Steps (.start ready) labels now) :
    (now.stopFlag = true → .signal ∈ labels) ∧ (now.phase = .returned → Ended labels) := by
  refine run.invariant (fun labels now =>
    (now.stopFlag = true → .signal ∈ labels) ∧ (now.phase = .returned → Ended labels))
    ⟨fun stopped => Bool.noConfusion stopped, fun returned => Phase.noConfusion returned⟩ ?_
  intro before middle label after prior moves
  obtain ⟨signalled, ended⟩ := prior
  have earlier : ∀ {label}, (middle.stopFlag = true → .signal ∈ before ++ [label]) :=
    fun stopped => List.mem_append_left _ (signalled stopped)
  have last : ∀ {receipt : Receipt}, receipt.isLast = true →
      Ended (before ++ [.receive receipt]) := fun {receipt} isLast =>
    .inr ⟨receipt, by rw [receipts_receive, List.getLast?_concat], isLast⟩
  cases moves with
  | signal => exact ⟨fun _ => List.mem_concat_self, fun _ => .inl List.mem_concat_self⟩
  | goes => exact ⟨earlier, fun returned => Phase.noConfusion returned⟩
  | leaves _ stopped => exact ⟨earlier, fun _ => .inl (earlier stopped)⟩
  | again | evaluates => exact ⟨earlier, fun returned => Phase.noConfusion returned⟩
  | stop => exact ⟨earlier, fun _ => last rfl⟩
  | ends _ short | refuses _ short => exact ⟨earlier, fun _ => last (decide_eq_true short)⟩
  | own =>
      refine ⟨earlier, fun returned => ?_⟩
      rw [Ended, receipts_other before rfl]
      exact (ended returned).imp_left (List.mem_append_left _)

/-- A process ends behind a signal or behind a receipt that ends the loop, and `main` returns `0`
when what `TRAP_RECEIVE` returned last is `0` and the data were not too short, or when nothing was
received. -/
theorem exitCode_of_run {code : Int}
    (run : (Process.system behind ready).Steps (.start ready) labels now)
    (returned : now.exitCode = some code) :
    Ended labels ∧ code = if lastReturn labels ≠ 0 then -1 else 0 := by
  rw [Process.exitCode, ret_of_run run] at returned
  split at returned
  · rename_i isReturned
    exact ⟨(ended_of_run run).2 isReturned, (Option.some.inj returned).symm⟩
  · cases returned

/-- `main { selector: BYTES; }`. -/
def oneSelector : MainBranches where
  first := .mk .main (.stage (.selector ⟨⟨.keyword .bytes, none⟩, []⟩))
  rest := .nil

/-- A backend without components. -/
def idle : Ready :=
  ⟨⟨oneSelector, ∅, ∅, ∅, ∅⟩, [], ⟨⟨true, false⟩, fun _ => .filter none, fun _ => []⟩⟩

/-- Data behind a change of the format, and a signal: the process ends with `-1`. -/
theorem exitCode_of_run_formatChanged :
    Ended [.test, .signal, .receive (.data 21 40 40 fun _ => 7), .test] ∧
      -1 = if lastReturn [.test, .signal, .receive (.data 21 40 40 fun _ => 7), .test] ≠ 0 then -1
        else 0 := by
  have goes : (Process.system (fun _ _ _ => 0) idle).Step (.start idle) .test
      ⟨.receiving, 0, false, idle.pipeline⟩ := .goes rfl rfl
  have interrupted : (Process.system (fun _ _ _ => 0) idle).Step
      ⟨.receiving, 0, false, idle.pipeline⟩ .signal ⟨.receiving, 0, true, idle.pipeline⟩ :=
    .signal
  have evaluates : (Process.system (fun _ _ _ => 0) idle).Step
      ⟨.receiving, 0, true, idle.pipeline⟩ (.receive (.data 21 40 40 fun _ => 7))
      ⟨.test, 21, true, idle.pipeline.fedWith fun _ => 7⟩ :=
    .evaluates rfl (Nat.le_refl 40) (Machine.step_feed rfl)
  have leaves : (Process.system (fun _ _ _ => 0) idle).Step
      ⟨.test, 21, true, idle.pipeline.fedWith fun _ => 7⟩ .test
      ⟨.returned, 21, true, idle.pipeline.fedWith fun _ => 7⟩ := .leaves rfl rfl
  exact exitCode_of_run (.step (.step (.step (.step .refl goes) interrupted) evaluates) leaves) rfl

/-- Behind a signal there is at most one more receipt, and none if the loop was not receiving. -/
theorem receipts_of_stopped {self : Process} (stopped : self.stopFlag = true)
    (run : (Process.system behind ready).Steps self labels now) :
    (labels.filterMap ProcessStep.receipt?).length ≤
      if self.phase = .receiving then 1 else 0 := by
  have counted := run.invariant (fun labels now => now.stopFlag = true ∧
    (labels.filterMap ProcessStep.receipt?).length + (if now.phase = .receiving then 1 else 0) ≤
      if self.phase = .receiving then 1 else 0) ⟨stopped, by simp⟩ (by
    intro before middle label after prior moves
    obtain ⟨stopped, counted⟩ := prior
    rw [List.filterMap_append, List.length_append]
    cases moves with
    | goes _ runs =>
        rw [runs] at stopped
        cases stopped
    | signal => exact ⟨rfl, counted⟩
    | own => exact ⟨stopped, counted⟩
    | leaves isTest =>
        rw [isTest] at counted
        exact ⟨stopped, counted⟩
    | again receives | stop receives | ends receives | refuses receives | evaluates receives =>
        exact ⟨stopped, by simpa [receives, ProcessStep.receipt?] using counted⟩)
  omega

theorem receipts_of_stopped_receiving :
    ([ProcessStep.receive (.again 1), .test].filterMap ProcessStep.receipt?).length ≤ 1 := by
  have again : (Process.system (fun _ _ _ => 0) idle).Step
      ⟨.receiving, 0, true, idle.pipeline⟩ (.receive (.again 1)) ⟨.test, 1, true, idle.pipeline⟩ :=
    .again rfl
  have leaves : (Process.system (fun _ _ _ => 0) idle).Step ⟨.test, 1, true, idle.pipeline⟩ .test
      ⟨.returned, 1, true, idle.pipeline⟩ := .leaves rfl rfl
  exact receipts_of_stopped rfl (.step (.step .refl again) leaves)

end Runs

end Policer.Backend
