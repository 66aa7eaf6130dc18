import Mathlib.Data.List.Forall2

/-!
# Where a loop fails

A loop over fallible steps fails with the fault of one of its steps.
-/

namespace Policer.Lib

variable {α β ε : Type}

theorem foldlM_eq_error {step : β → α → Except ε β} {items : List α} {initial : β} {fault : ε}
    (fails : items.foldlM step initial = .error fault) :
    ∃ item ∈ items, ∃ state, step state item = .error fault := by
  induction items generalizing initial with
  | nil => cases fails
  | cons head tail ih =>
      rw [List.foldlM_cons] at fails
      cases first : step initial head with
      | error other =>
          rw [first] at fails
          cases fails
          exact ⟨head, List.mem_cons_self, initial, first⟩
      | ok middle =>
          rw [first] at fails
          obtain ⟨item, member, state, failed⟩ := ih fails
          exact ⟨item, List.mem_cons_of_mem _ member, state, failed⟩

/-- A loop whose rounds do not fail. -/
theorem foldlM_eq_foldl_of_ok {step : β → α → Except ε β} {next : β → α → β} {items : List α}
    (succeeds : ∀ item ∈ items, ∀ state, step state item = .ok (next state item)) (initial : β) :
    items.foldlM step initial = .ok (items.foldl next initial) := by
  induction items generalizing initial with
  | nil => rfl
  | cons head tail ih =>
      rw [List.foldlM_cons, succeeds head List.mem_cons_self]
      exact ih (fun item member => succeeds item (List.mem_cons_of_mem _ member)) _

theorem mapM_eq_error {make : α → Except ε β} {items : List α} {fault : ε}
    (fails : items.mapM make = .error fault) : ∃ item ∈ items, make item = .error fault := by
  induction items with
  | nil => cases fails
  | cons head tail ih =>
      rw [List.mapM_cons] at fails
      cases first : make head with
      | error other =>
          rw [first] at fails
          cases fails
          exact ⟨head, List.mem_cons_self, first⟩
      | ok made =>
          cases rest : tail.mapM make with
          | error other =>
              simp only [first, rest, bind, Except.bind] at fails
              cases fails
              obtain ⟨item, member, failed⟩ := ih rest
              exact ⟨item, List.mem_cons_of_mem _ member, failed⟩
          | ok others =>
              simp only [first, rest, bind, Except.bind] at fails
              cases fails

theorem mapM_ok_of_forall {make : α → Except ε β} {items : List α}
    (succeeds : ∀ item ∈ items, ∃ made, make item = .ok made) :
    ∃ made, items.mapM make = .ok made := by
  cases result : items.mapM make with
  | ok made => exact ⟨made, rfl⟩
  | error fault =>
      obtain ⟨item, member, failed⟩ := mapM_eq_error result
      obtain ⟨made, isMade⟩ := succeeds item member
      rw [failed] at isMade
      cases isMade

/-- A loop that does not fail makes something of every item. -/
theorem mapM_cons_ok {make : α → Except ε β} {head : α} {tail : List α} {made : List β}
    (makes : (head :: tail).mapM make = .ok made) :
    ∃ here others, make head = .ok here ∧ tail.mapM make = .ok others ∧ made = here :: others := by
  rw [List.mapM_cons] at makes
  cases first : make head with
  | error fault =>
      rw [first] at makes
      cases makes
  | ok here =>
      cases rest : tail.mapM make with
      | error fault =>
          simp only [first, rest, bind, Except.bind] at makes
          cases makes
      | ok others =>
          simp only [first, rest, bind, Except.bind] at makes
          cases makes
          exact ⟨here, others, rfl, rfl, rfl⟩

theorem length_of_mapM {make : α → Except ε β} {items : List α} {made : List β}
    (makes : items.mapM make = .ok made) : made.length = items.length := by
  induction items generalizing made with
  | nil =>
      cases makes
      rfl
  | cons head tail ih =>
      obtain ⟨here, others, _, rest, rfl⟩ := mapM_cons_ok makes
      exact congrArg (· + 1) (ih rest)

theorem mapM_congr {make other : α → Except ε β} {items : List α}
    (same : ∀ item ∈ items, make item = other item) : items.mapM make = items.mapM other := by
  induction items with
  | nil => rfl
  | cons head tail ih =>
      rw [List.mapM_cons, List.mapM_cons, same head List.mem_cons_self,
        ih fun item member => same item (List.mem_cons_of_mem _ member)]

/-- What a loop makes is related to its items, one by one. -/
theorem forall₂_of_mapM {make : α → Except ε β} {items : List α} {made : List β}
    (makes : items.mapM make = .ok made) {related : β → α → Prop}
    (relates : ∀ item ∈ items, ∀ out, make item = .ok out → related out item) :
    List.Forall₂ related made items := by
  induction items generalizing made with
  | nil =>
      cases makes
      exact .nil
  | cons head tail ih =>
      obtain ⟨here, others, first, rest, rfl⟩ := mapM_cons_ok makes
      exact .cons (relates head List.mem_cons_self here first)
        (ih rest fun item member => relates item (List.mem_cons_of_mem _ member))

/-- A loop that meets a failing step fails. -/
theorem mapM_error_of_mem {make : α → Except ε β} {items : List α} {item : α} {fault : ε}
    (member : item ∈ items) (fails : make item = .error fault)
    (only : ∀ item ∈ items, ∀ other, make item = .error other → other = fault) :
    items.mapM make = .error fault := by
  induction items with
  | nil => cases member
  | cons head tail ih =>
      rw [List.mapM_cons]
      cases first : make head with
      | error other =>
          rw [only head List.mem_cons_self other first]
          rfl
      | ok made =>
          have later : item ∈ tail := by
            rcases List.mem_cons.mp member with rfl | later
            · rw [fails] at first
              cases first
            · exact later
          rw [ih later fun item inTail => only item (List.mem_cons_of_mem _ inTail)]
          rfl

end Policer.Lib
