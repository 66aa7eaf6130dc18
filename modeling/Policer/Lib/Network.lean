import Policer.Lib.Action
import Policer.Lib.Transition
import Mathlib.Data.List.Infix
import Mathlib.Logic.Function.Basic
import Mathlib.Logic.Relation

/-!
# Networks of machines

A forest of machines. Each has a state of its own, and all of them read and write one shared
state. A machine that takes an item hands items on, each to all of its successors before the next
one. `wired_of_steps` takes a run of the network apart: every machine runs on its own, it accepts
what its predecessor has handed on, in this order, and the others only change the shared state
behind its back.
-/

namespace Policer.Lib

open TransitionSystem

/-! ### Machines -/

/-- The shape of a tree. -/
inductive Rose where
  | node (next : List Rose)

/-- Where a machine stands: its index among the successors, then the indices of those above. -/
abbrev Place := List Nat

/-- What a machine does. It takes an item, or a step of its own; what comes of it are the shared
state, its own state and the items it hands on. -/
structure Machine (γ σ ρ ℓ ε : Type) where
  accept : ρ → γ × σ → Except ε (γ × σ × List ρ)
  Own : ℓ → γ × σ → γ × σ × List ρ → Prop

/-- The states of the machines of a forest and the items each has handed on. The empty place
stands for who feeds the forest. -/
structure Network (γ σ ρ : Type) where
  shared : γ
  state : Place → σ
  sent : Place → List ρ

/-- Labels of a network. -/
inductive NetworkStep (ρ ℓ : Type) where
  | feed (item : ρ)
  | own (place : Place) (label : ℓ)

/-- Labels of a machine in a network. -/
inductive LocalStep (ρ ℓ : Type) where
  | accept (item : ρ)
  | own (label : ℓ)
  | others

/-- The item a machine accepts in a step. -/
def LocalStep.item? {ρ ℓ : Type} : LocalStep ρ ℓ → Option ρ
  | .accept item => some item
  | _ => none

/-- The items a machine accepts, in order. -/
def acceptedItems {ρ ℓ : Type} (labels : List (LocalStep ρ ℓ)) : List ρ :=
  labels.filterMap LocalStep.item?

@[simp] theorem acceptedItems_append {ρ ℓ : Type} (first second : List (LocalStep ρ ℓ)) :
    acceptedItems (first ++ second) = acceptedItems first ++ acceptedItems second :=
  List.filterMap_append

@[simp] theorem acceptedItems_singleton {ρ ℓ : Type} (label : LocalStep ρ ℓ) :
    acceptedItems [label] = label.item?.toList := by
  cases label <;> rfl

/-- The items that are fed, in order. -/
def fed {ρ ℓ : Type} (labels : List (NetworkStep ρ ℓ)) : List ρ :=
  labels.filterMap fun label =>
    match label with
    | .feed item => some item
    | .own _ _ => none

theorem fed_append {ρ ℓ : Type} (first second : List (NetworkStep ρ ℓ)) :
    fed (first ++ second) = fed first ++ fed second :=
  List.filterMap_append

section Machines

variable {γ σ ρ ℓ ε : Type}

namespace Network

/-- What a machine sees, and what it has handed on. -/
def view (network : Network γ σ ρ) (place : Place) : γ × σ × List ρ :=
  (network.shared, network.state place, network.sent place)

/-- The network behind a step of one machine, before the items are handed on. -/
def put (network : Network γ σ ρ) (place : Place) (result : γ × σ × List ρ) :
    Network γ σ ρ where
  shared := result.1
  state := Function.update network.state place result.2.1
  sent := Function.update network.sent place (network.sent place ++ result.2.2)

@[simp] theorem sent_put (network : Network γ σ ρ) (place : Place) (result : γ × σ × List ρ) :
    (network.put place result).sent place = network.sent place ++ result.2.2 :=
  Function.update_self ..

@[simp] theorem view_put (network : Network γ σ ρ) (place : Place) (result : γ × σ × List ρ) :
    (network.put place result).view place =
      (result.1, result.2.1, network.sent place ++ result.2.2) := by
  simp [view, put]

/-- The network behind an item that is fed. -/
def fedWith (network : Network γ σ ρ) (item : ρ) : Network γ σ ρ :=
  { network with sent := Function.update network.sent [] (network.sent [] ++ [item]) }

end Network

mutual

/-- The places of a tree with what follows there. -/
def nodesIn (place : Place) : Rose → List (Place × List Rose)
  | .node next => (place, next) :: nodesOf place 0 next

/-- The places of the successors from an index on. -/
def nodesOf (place : Place) (index : Nat) : List Rose → List (Place × List Rose)
  | [] => []
  | head :: tail => nodesIn (index :: place) head ++ nodesOf place (index + 1) tail

end

namespace Machine

variable (machine : Machine γ σ ρ ℓ ε)

mutual

/-- A machine takes an item and hands on what it makes of it. -/
def eval (item : ρ) (place : Place) (network : Network γ σ ρ) :
    Rose → Except ε (Network γ σ ρ)
  | .node next => do
      let result ← machine.accept item (network.shared, network.state place)
      result.2.2.foldlM (fun network out => send out place 0 network next)
        (network.put place result)

/-- An item goes to the successors from an index on. -/
def send (item : ρ) (place : Place) (index : Nat) (network : Network γ σ ρ) :
    List Rose → Except ε (Network γ σ ρ)
  | [] => .ok network
  | head :: tail => do
      let network ← eval item (index :: place) network head
      send item place (index + 1) network tail

end

/-- Items go to all successors, one after the other. -/
def handOn (items : List ρ) (place : Place) (next : List Rose) (network : Network γ σ ρ) :
    Except ε (Network γ σ ρ) :=
  items.foldlM (fun network out => machine.send out place 0 network next) network

/-- What a step of the network leads to. -/
inductive Leads (forest : List Rose) (network : Network γ σ ρ) :
    NetworkStep ρ ℓ → Except ε (Network γ σ ρ) → Prop where
  | feed (item : ρ) :
      Leads forest network (.feed item) (machine.send item [] 0 (network.fedWith item) forest)
  | own {place : Place} {next : List Rose} {label : ℓ} {result : γ × σ × List ρ}
      (present : (place, next) ∈ nodesOf [] 0 forest)
      (step : machine.Own label (network.shared, network.state place) result) :
      Leads forest network (.own place label)
        (machine.handOn result.2.2 place next (network.put place result))

/-- The network as a transition system. -/
def network (forest : List Rose) : TransitionSystem (Network γ σ ρ) (NetworkStep ρ ℓ) where
  Step before label after := machine.Leads forest before label (.ok after)

variable {machine} in
theorem step_feed {forest : List Rose} {item : ρ} {before after : Network γ σ ρ}
    (sends : machine.send item [] 0 (before.fedWith item) forest = .ok after) :
    (machine.network forest).Step before (.feed item) after :=
  (sends ▸ .feed item : machine.Leads forest before (.feed item) (.ok after))

/-- A machine changes the shared state. -/
inductive Changes : γ → γ → Prop where
  | accept {item : ρ} {shared : γ} {state : σ} {result : γ × σ × List ρ}
      (accepts : machine.accept item (shared, state) = .ok result) : Changes shared result.1
  | own {label : ℓ} {shared : γ} {state : σ} {result : γ × σ × List ρ}
      (step : machine.Own label (shared, state) result) : Changes shared result.1

/-- A machine on its own, with what it has handed on. -/
inductive LocalLeads : γ × σ × List ρ → LocalStep ρ ℓ → γ × σ × List ρ → Prop where
  | accept {shared : γ} {state : σ} {sent : List ρ} {item : ρ} {result : γ × σ × List ρ}
      (accepts : machine.accept item (shared, state) = .ok result) :
      LocalLeads (shared, state, sent) (.accept item) (result.1, result.2.1, sent ++ result.2.2)
  | own {shared : γ} {state : σ} {sent : List ρ} {label : ℓ} {result : γ × σ × List ρ}
      (step : machine.Own label (shared, state) result) :
      LocalLeads (shared, state, sent) (.own label) (result.1, result.2.1, sent ++ result.2.2)
  | others {shared next : γ} {state : σ} {sent : List ρ}
      (changes : Relation.ReflTransGen machine.Changes shared next) :
      LocalLeads (shared, state, sent) .others (next, state, sent)

/-- A machine among others as a transition system. -/
def alone : TransitionSystem (γ × σ × List ρ) (LocalStep ρ ℓ) where
  Step := machine.LocalLeads

/-- The machine at a place runs on its own and accepts `arrived`. -/
def RunsAt (start now : Network γ σ ρ) (place : Place) (arrived : List ρ) : Prop :=
  ∃ labels, machine.alone.Steps (start.view place) labels (now.view place) ∧
    acceptedItems labels = arrived

mutual

/-- The machine at the root of a tree accepts `arrived`, those below accept what is handed on. -/
def Wired (start now : Network γ σ ρ) (place : Place) (arrived : List ρ) : Rose → Prop
  | .node next =>
      machine.RunsAt start now place arrived ∧
        WiredAll start now place 0 (now.sent place) next

/-- The successors from an index on accept `arrived`. -/
def WiredAll (start now : Network γ σ ρ) (place : Place) (index : Nat) (arrived : List ρ) :
    List Rose → Prop
  | [] => True
  | head :: tail =>
      Wired start now (index :: place) arrived head ∧
        WiredAll start now place (index + 1) arrived tail

end

end Machine

/-! ### Places -/

theorem cons_not_suffix (index : Nat) (place : Place) : ¬ index :: place <:+ place := by
  intro suffix
  have length := suffix.length_le
  rw [List.length_cons] at length
  omega

/-- Nothing stands below two successors of one machine. -/
theorem siblings_disjoint {first second : Nat} {place lower : Place} (different : first ≠ second)
    (one : first :: place <:+ lower) : ¬ second :: place <:+ lower := by
  intro other
  have suffix := List.suffix_of_suffix_length_le one other (by simp)
  exact different (List.cons.inj (suffix.eq_of_length (by simp))).1

/-- The place is one of the successors from an index on, or below one. -/
def FromIndex (place : Place) (index : Nat) (other : Place) : Prop :=
  ∃ later, index ≤ later ∧ later :: place <:+ other

theorem FromIndex.of_head {place other : Place} {index : Nat} (suffix : index :: place <:+ other) :
    FromIndex place index other :=
  ⟨index, Nat.le_refl _, suffix⟩

theorem FromIndex.of_succ {place other : Place} {index : Nat}
    (later : FromIndex place (index + 1) other) : FromIndex place index other := by
  obtain ⟨found, after, suffix⟩ := later
  exact ⟨found, by omega, suffix⟩

theorem FromIndex.not_head {place other : Place} {index : Nat}
    (later : FromIndex place (index + 1) other) : ¬ index :: place <:+ other := by
  obtain ⟨found, after, suffix⟩ := later
  exact siblings_disjoint (by omega) suffix

theorem FromIndex.suffix {place other : Place} {index : Nat} (later : FromIndex place index other) :
    place <:+ other := by
  obtain ⟨found, _, suffix⟩ := later
  exact (List.suffix_cons found place).trans suffix

theorem FromIndex.ne {place other : Place} {index : Nat} (later : FromIndex place index other) :
    other ≠ place := by
  rintro rfl
  obtain ⟨found, _, suffix⟩ := later
  exact cons_not_suffix found other suffix

mutual

theorem suffix_of_mem_nodesIn {place : Place} {found : Place × List Rose} : (tree : Rose) →
    found ∈ nodesIn place tree → place <:+ found.1
  | .node next, member => by
      rw [nodesIn, List.mem_cons] at member
      rcases member with rfl | below
      · exact List.suffix_rfl
      · exact (fromIndex_of_mem_nodesOf next below).suffix

theorem fromIndex_of_mem_nodesOf {place : Place} {index : Nat} {found : Place × List Rose} :
    (forest : List Rose) → found ∈ nodesOf place index forest → FromIndex place index found.1
  | [], member => by simp [nodesOf] at member
  | head :: tail, member => by
      rw [nodesOf, List.mem_append] at member
      rcases member with inHead | inTail
      · exact .of_head (suffix_of_mem_nodesIn head inHead)
      · exact (fromIndex_of_mem_nodesOf tail inTail).of_succ

end

/-! ### What a step leaves alone -/

/-- A step changes machines at the places of a set only, and the shared state as machines do. -/
structure Machine.Within (machine : Machine γ σ ρ ℓ ε) (touched : Place → Prop)
    (before after : Network γ σ ρ) : Prop where
  changes : Relation.ReflTransGen machine.Changes before.shared after.shared
  state : ∀ place, ¬ touched place → after.state place = before.state place
  sent : ∀ place, ¬ touched place → after.sent place = before.sent place

namespace Machine

variable {machine : Machine γ σ ρ ℓ ε}

namespace Within

variable {touched wider : Place → Prop} {first second third : Network γ σ ρ}

theorem refl (network : Network γ σ ρ) : machine.Within touched network network :=
  ⟨.refl, fun _ _ => rfl, fun _ _ => rfl⟩

theorem trans (before : machine.Within touched first second)
    (after : machine.Within touched second third) : machine.Within touched first third where
  changes := before.changes.trans after.changes
  state place untouched := (after.state place untouched).trans (before.state place untouched)
  sent place untouched := (after.sent place untouched).trans (before.sent place untouched)

theorem mono (within : machine.Within touched first second)
    (subset : ∀ place, touched place → wider place) : machine.Within wider first second where
  changes := within.changes
  state place untouched := within.state place fun inside => untouched (subset place inside)
  sent place untouched := within.sent place fun inside => untouched (subset place inside)

/-- A step of one machine. -/
theorem put {network : Network γ σ ρ} {place : Place} {result : γ × σ × List ρ}
    (changes : machine.Changes network.shared result.1) :
    machine.Within (· = place) network (network.put place result) where
  changes := .single changes
  state _ other := Function.update_of_ne other _ _
  sent _ other := Function.update_of_ne other _ _

/-- Items that are handed on one after the other. -/
theorem fold {items : List ρ} {step : Network γ σ ρ → ρ → Except ε (Network γ σ ρ)}
    (each : ∀ before item after, step before item = .ok after →
      machine.Within touched before after)
    {before after : Network γ σ ρ} (folds : items.foldlM step before = .ok after) :
    machine.Within touched before after := by
  induction items generalizing before with
  | nil =>
      cases folds
      exact refl _
  | cons head tail ih =>
      obtain ⟨middle, stepped, rest⟩ := bind_ok.mp folds
      exact (each _ _ _ stepped).trans (ih rest)

end Within

mutual

/-- An item that a machine takes stays in its tree. -/
theorem within_eval {item : ρ} {place : Place} {before after : Network γ σ ρ} : (tree : Rose) →
    machine.eval item place before tree = .ok after →
      machine.Within (place <:+ ·) before after
  | .node next, evaluates => by
      rw [Machine.eval] at evaluates
      obtain ⟨result, accepts, hands⟩ := bind_ok.mp evaluates
      have here : machine.Within (place <:+ ·) before (before.put place result) :=
        (Within.put (.accept accepts)).mono fun _ same => same ▸ List.suffix_rfl
      refine here.trans (Within.fold (fun _ _ _ sends => ?_) hands)
      exact (within_send next sends).mono fun _ later => later.suffix

/-- An item that is sent stays in the trees of the successors. -/
theorem within_send {item : ρ} {place : Place} {index : Nat} {before after : Network γ σ ρ} :
    (forest : List Rose) → machine.send item place index before forest = .ok after →
      machine.Within (FromIndex place index) before after
  | [], sends => by
      cases sends
      exact .refl _
  | head :: tail, sends => by
      rw [Machine.send] at sends
      obtain ⟨middle, evaluates, rest⟩ := bind_ok.mp sends
      exact ((within_eval head evaluates).mono fun _ suffix => .of_head suffix).trans
        ((within_send tail rest).mono fun _ later => later.of_succ)

end

theorem within_handOn {items : List ρ} {place : Place} {next : List Rose}
    {before after : Network γ σ ρ} (hands : machine.handOn items place next before = .ok after) :
    machine.Within (FromIndex place 0) before after :=
  Within.fold (fun _ _ _ sends => within_send next sends) hands

/-! ### Wires -/

variable {start before after : Network γ σ ρ} {arrived : List ρ}

/-- Steps of others do not disturb a machine. -/
theorem RunsAt.others {place : Place} {touched : Place → Prop}
    (runs : machine.RunsAt start before place arrived)
    (within : machine.Within touched before after) (untouched : ¬ touched place) :
    machine.RunsAt start after place arrived := by
  obtain ⟨labels, run, accepts⟩ := runs
  refine ⟨labels ++ [.others], .step run ?_, by simp [accepts, LocalStep.item?]⟩
  have same : after.view place =
      (after.shared, before.state place, before.sent place) := by
    rw [Network.view, within.state place untouched, within.sent place untouched]
  exact same ▸ .others within.changes

mutual

/-- Steps elsewhere leave a tree wired. -/
theorem Wired.others {touched : Place → Prop} {place : Place} : (tree : Rose) → ∀ arrived,
    machine.Wired start before place arrived tree → machine.Within touched before after →
      (∀ other, place <:+ other → ¬ touched other) →
        machine.Wired start after place arrived tree
  | .node next, arrived, wired, within, elsewhere => by
      rw [Wired] at wired ⊢
      have here := elsewhere place List.suffix_rfl
      refine ⟨wired.1.others within here, ?_⟩
      rw [within.sent place here]
      exact WiredAll.others next _ wired.2 within fun other later => elsewhere other later.suffix

/-- Steps elsewhere leave successors wired. -/
theorem WiredAll.others {touched : Place → Prop} {place : Place} {index : Nat} :
    (forest : List Rose) → ∀ arrived, machine.WiredAll start before place index arrived forest →
      machine.Within touched before after → (∀ other, FromIndex place index other →
        ¬ touched other) → machine.WiredAll start after place index arrived forest
  | [], _, _, _, _ => trivial
  | head :: tail, _, wired, within, elsewhere => by
      rw [WiredAll] at wired ⊢
      exact ⟨Wired.others head _ wired.1 within fun other suffix =>
          elsewhere other (.of_head suffix),
        WiredAll.others tail _ wired.2 within fun other later => elsewhere other later.of_succ⟩

end

/-- Items that are handed on arrive at all successors. -/
theorem WiredAll.handOn {place : Place} {next : List Rose} {items : List ρ}
    (each : ∀ item arrived before after, machine.send item place 0 before next = .ok after →
      machine.WiredAll start before place 0 arrived next →
        machine.WiredAll start after place 0 (arrived ++ [item]) next)
    (hands : machine.handOn items place next before = .ok after)
    (wired : machine.WiredAll start before place 0 arrived next) :
    machine.WiredAll start after place 0 (arrived ++ items) next := by
  unfold Machine.handOn at hands
  induction items generalizing before arrived with
  | nil =>
      cases hands
      rwa [List.append_nil]
  | cons head tail ih =>
      obtain ⟨middle, sends, rest⟩ := bind_ok.mp hands
      rw [List.append_cons]
      exact ih rest (each _ _ _ _ sends wired)

/-- A machine that has taken a step runs on, and what it hands on arrives. -/
theorem Wired.put {place : Place} {next : List Rose} {result : γ × σ × List ρ}
    (label : LocalStep ρ ℓ) (changes : machine.Changes before.shared result.1)
    (leads : machine.LocalLeads (before.view place) label
      ((before.put place result).view place))
    (each : ∀ item arrived before after, machine.send item place 0 before next = .ok after →
      machine.WiredAll start before place 0 arrived next →
        machine.WiredAll start after place 0 (arrived ++ [item]) next)
    (hands : machine.handOn result.2.2 place next (before.put place result) = .ok after)
    (wired : machine.Wired start before place arrived (.node next)) :
    machine.Wired start after place (arrived ++ acceptedItems [label]) (.node next) := by
  rw [Wired] at wired ⊢
  obtain ⟨⟨labels, run, accepts⟩, below⟩ := wired
  have ran : machine.RunsAt start (before.put place result) place
      (arrived ++ acceptedItems [label]) :=
    ⟨labels ++ [label], .step run leads, by rw [acceptedItems_append, accepts]⟩
  have within := within_handOn hands
  have here : ¬ FromIndex place 0 place := fun later => later.ne rfl
  refine ⟨ran.others within here, ?_⟩
  have arrives := WiredAll.handOn each hands
    (WiredAll.others next _ below (Within.put changes) fun other later => later.ne)
  rwa [within.sent place here, Network.sent_put]

mutual

/-- An item that a machine takes has arrived there. -/
theorem wired_eval {item : ρ} {place : Place} : (tree : Rose) → ∀ arrived before after,
    machine.eval item place before tree = .ok after →
      machine.Wired start before place arrived tree →
        machine.Wired start after place (arrived ++ [item]) tree
  | .node next, arrived, before, after, evaluates, wired => by
      rw [Machine.eval] at evaluates
      obtain ⟨result, accepts, hands⟩ := bind_ok.mp evaluates
      refine Wired.put (.accept item) (.accept accepts) ?_
        (fun item arrived before after => wired_send next arrived before after) hands wired
      rw [Network.view_put]
      exact .accept accepts

/-- An item that is sent has arrived at the successors. -/
theorem wired_send {item : ρ} {place : Place} {index : Nat} : (forest : List Rose) →
    ∀ arrived before after, machine.send item place index before forest = .ok after →
      machine.WiredAll start before place index arrived forest →
        machine.WiredAll start after place index (arrived ++ [item]) forest
  | [], _, _, _, _, _ => trivial
  | head :: tail, arrived, before, after, sends, wired => by
      rw [Machine.send] at sends
      obtain ⟨middle, evaluates, rest⟩ := bind_ok.mp sends
      rw [WiredAll] at wired ⊢
      have inHead := within_eval head evaluates
      have inTail := within_send tail rest
      refine ⟨Wired.others head _ (wired_eval head _ _ _ evaluates wired.1) inTail ?_,
        wired_send tail _ _ _ rest (WiredAll.others tail _ wired.2 inHead ?_)⟩
      · exact fun other suffix later => later.not_head suffix
      · exact fun other later suffix => later.not_head suffix

end

/-! ### Runs -/

/-- A step of a machine stays in its tree. -/
theorem within_own {target : Place} {below : List Rose} {label : ℓ} {result : γ × σ × List ρ}
    (step : machine.Own label (before.shared, before.state target) result)
    (hands : machine.handOn result.2.2 target below (before.put target result) = .ok after) :
    machine.Within (target <:+ ·) before after := by
  have changes : machine.Changes before.shared result.1 := .own step
  exact ((Within.put changes).mono fun _ same => same ▸ List.suffix_rfl).trans
    ((within_handOn hands).mono fun _ later => later.suffix)

mutual

/-- A machine of the tree has taken a step of its own. -/
theorem wired_own {target : Place} {below : List Rose} {label : ℓ} {result : γ × σ × List ρ}
    (step : machine.Own label (before.shared, before.state target) result)
    (hands : machine.handOn result.2.2 target below (before.put target result) = .ok after)
    {place : Place} : (tree : Rose) → ∀ arrived, (target, below) ∈ nodesIn place tree →
      machine.Wired start before place arrived tree → machine.Wired start after place arrived tree
  | .node next, arrived, member, wired => by
      rw [nodesIn, List.mem_cons] at member
      rcases member with same | deeper
      · cases same
        have runs := Wired.put (.own label) (.own step) (by
          rw [Network.view_put]
          exact .own step) (fun item arrived before after => wired_send below arrived before after)
          hands wired
        simpa [LocalStep.item?] using runs
      · have within := within_own step hands
        have lower := fromIndex_of_mem_nodesOf next deeper
        have here : ¬ target <:+ place := by
          intro above
          obtain ⟨index, _, suffix⟩ := lower
          exact cons_not_suffix index place (suffix.trans above)
        rw [Wired] at wired ⊢
        refine ⟨wired.1.others within here, ?_⟩
        rw [within.sent place here]
        exact wired_ownAll step hands next _ deeper wired.2

/-- A machine of the forest has taken a step of its own. -/
theorem wired_ownAll {target : Place} {below : List Rose} {label : ℓ} {result : γ × σ × List ρ}
    (step : machine.Own label (before.shared, before.state target) result)
    (hands : machine.handOn result.2.2 target below (before.put target result) = .ok after)
    {place : Place} {index : Nat} : (forest : List Rose) → ∀ arrived,
      (target, below) ∈ nodesOf place index forest →
        machine.WiredAll start before place index arrived forest →
          machine.WiredAll start after place index arrived forest
  | [], _, _, _ => trivial
  | head :: tail, arrived, member, wired => by
      have within := within_own step hands
      rw [nodesOf, List.mem_append] at member
      rw [WiredAll] at wired ⊢
      rcases member with inHead | inTail
      · refine ⟨wired_own step hands head _ inHead wired.1,
          WiredAll.others tail _ wired.2 within fun other later above => ?_⟩
        exact later.not_head ((suffix_of_mem_nodesIn head inHead).trans above)
      · refine ⟨Wired.others head _ wired.1 within fun other suffix above => ?_,
          wired_ownAll step hands tail _ inTail wired.2⟩
        obtain ⟨later, after, lower⟩ := fromIndex_of_mem_nodesOf tail inTail
        exact siblings_disjoint (by omega) (lower.trans above) suffix

end

mutual

theorem Wired.runsAt {place target : Place} {below : List Rose} : (tree : Rose) → ∀ arrived,
    machine.Wired start before place arrived tree → (target, below) ∈ nodesIn place tree →
      target = place ∧ machine.RunsAt start before target arrived ∨
        ∃ index above, target = index :: above ∧
          machine.RunsAt start before target (before.sent above)
  | .node next, arrived, wired, member => by
      rw [Wired] at wired
      rw [nodesIn, List.mem_cons] at member
      rcases member with same | deeper
      · cases same
        exact .inl ⟨rfl, wired.1⟩
      · obtain ⟨index, _, rfl, runs⟩ | found := WiredAll.runsAt next _ wired.2 deeper
        · exact .inr ⟨index, place, rfl, runs⟩
        · exact .inr found

theorem WiredAll.runsAt {place target : Place} {index : Nat} {below : List Rose} :
    (forest : List Rose) → ∀ arrived, machine.WiredAll start before place index arrived forest →
      (target, below) ∈ nodesOf place index forest →
        (∃ later, index ≤ later ∧ target = later :: place ∧
          machine.RunsAt start before target arrived) ∨
        ∃ later above, target = later :: above ∧
          machine.RunsAt start before target (before.sent above)
  | [], _, _, member => by simp [nodesOf] at member
  | head :: tail, arrived, wired, member => by
      rw [nodesOf, List.mem_append] at member
      rw [WiredAll] at wired
      rcases member with inHead | inTail
      · obtain ⟨rfl, runs⟩ | found := Wired.runsAt head _ wired.1 inHead
        · exact .inl ⟨index, Nat.le_refl _, rfl, runs⟩
        · exact .inr found
      · obtain ⟨later, after, same, runs⟩ | found := WiredAll.runsAt tail _ wired.2 inTail
        · exact .inl ⟨later, by omega, same, runs⟩
        · exact .inr found

end

mutual

/-- Before anything is fed every tree is wired. -/
theorem wired_start {start : Network γ σ ρ} (silent : ∀ place, start.sent place = [])
    {place : Place} : (tree : Rose) → machine.Wired start start place [] tree
  | .node next => by
      rw [Wired, silent]
      exact ⟨⟨[], .refl, rfl⟩, wiredAll_start silent next⟩

theorem wiredAll_start {start : Network γ σ ρ} (silent : ∀ place, start.sent place = [])
    {place : Place} {index : Nat} : (forest : List Rose) →
      machine.WiredAll start start place index [] forest
  | [] => trivial
  | head :: tail => ⟨wired_start silent head, wiredAll_start silent tail⟩

end

/-- Feeding an item disturbs no machine. -/
theorem within_fedWith (network : Network γ σ ρ) (item : ρ) :
    machine.Within (· = []) network (network.fedWith item) where
  changes := .refl
  state _ _ := rfl
  sent _ other := Function.update_of_ne other _ _

/-- A step of the network keeps it wired. -/
theorem wired_step {forest : List Rose} {label : NetworkStep ρ ℓ} {arrived : List ρ}
    (step : (machine.network forest).Step before label after)
    (arrives : before.sent [] = arrived ∧ machine.WiredAll start before [] 0 arrived forest) :
    after.sent [] = arrived ++ fed [label] ∧
      machine.WiredAll start after [] 0 (arrived ++ fed [label]) forest := by
  obtain ⟨rfl, wired⟩ := arrives
  have leads : machine.Leads forest before label (.ok after) := step
  generalize outcome : (Except.ok after : Except ε (Network γ σ ρ)) = leadsTo at leads
  cases leads with
  | feed item =>
      have outside : ∀ other, FromIndex [] 0 other → other ≠ [] := fun _ later => later.ne
      refine ⟨?_, wired_send forest _ _ _ outcome.symm
        (WiredAll.others forest _ wired (within_fedWith before item) outside)⟩
      rw [(within_send forest outcome.symm).sent [] fun later => later.ne rfl]
      simp [Network.fedWith, fed]
  | @own target next label result present acts =>
      have lower := fromIndex_of_mem_nodesOf forest present
      have changes : machine.Changes before.shared result.1 := .own acts
      have silentStep : fed [NetworkStep.own target label] = ([] : List ρ) := rfl
      rw [silentStep, List.append_nil]
      refine ⟨?_, wired_ownAll acts outcome.symm forest _ present wired⟩
      rw [(within_handOn outcome.symm).sent [] fun later =>
        lower.ne (List.suffix_nil.mp later.suffix)]
      exact (Within.put changes).sent [] fun same => lower.ne same.symm

/-- In every run each machine runs on its own and accepts what its predecessor has handed on. -/
theorem wired_of_steps {forest : List Rose} {start now : Network γ σ ρ}
    {labels : List (NetworkStep ρ ℓ)} (silent : ∀ place, start.sent place = [])
    (run : (machine.network forest).Steps start labels now) :
    now.sent [] = fed labels ∧ ∀ index place next, (index :: place, next) ∈ nodesOf [] 0 forest →
      machine.RunsAt start now (index :: place) (now.sent place) := by
  obtain ⟨same, wired⟩ := run.invariant
    (fun labels now => now.sent [] = fed labels ∧
      machine.WiredAll start now [] 0 (fed labels) forest)
    ⟨silent [], wiredAll_start silent forest⟩
    fun arrives step => by
      rw [fed_append]
      exact wired_step step arrives
  refine ⟨same, fun index place next present => ?_⟩
  obtain ⟨_, _, isPlace, runs⟩ | ⟨_, _, isPlace, runs⟩ := WiredAll.runsAt forest _ wired present
  · cases isPlace
    exact same ▸ runs
  · cases isPlace
    exact runs

end Machine

end Machines

end Policer.Lib
