import Mathlib.Data.List.Basic

/-!
# First occurrences

The items of a list that are the first with their key, in order.
-/

namespace Policer.Lib

variable {α κ : Type} [DecidableEq κ] (key : α → κ)

/-- The items that are the first with their key. -/
def firstsBy : List α → List α
  | [] => []
  | first :: rest => first :: (firstsBy rest).filter fun item => key item ≠ key first

theorem mem_of_mem_firstsBy {items : List α} {item : α} (member : item ∈ firstsBy key items) :
    item ∈ items := by
  induction items with
  | nil => cases member
  | cons first rest inductionHypothesis =>
      rcases List.mem_cons.mp member with rfl | later
      · exact List.mem_cons_self
      · exact List.mem_cons_of_mem _ (inductionHypothesis (List.mem_of_mem_filter later))

theorem mem_map_firstsBy {items : List α} {k : κ} :
    k ∈ (firstsBy key items).map key ↔ k ∈ items.map key := by
  constructor
  · intro member
    obtain ⟨item, isFirst, rfl⟩ := List.mem_map.mp member
    exact List.mem_map_of_mem (mem_of_mem_firstsBy key isFirst)
  · intro member
    induction items with
    | nil => cases member
    | cons first rest inductionHypothesis =>
        by_cases same : k = key first
        · exact same ▸ List.mem_map_of_mem List.mem_cons_self
        · obtain ⟨item, isFirst, rfl⟩ := List.mem_map.mp
            (inductionHypothesis ((List.mem_cons.mp member).resolve_left same))
          refine List.mem_map_of_mem (List.mem_cons_of_mem _ (List.mem_filter.mpr ⟨isFirst, ?_⟩))
          simpa using same

/-- An item behind the others is kept when its key is new. -/
theorem firstsBy_append_singleton (items : List α) (last : α) :
    firstsBy key (items ++ [last]) =
      if key last ∈ items.map key then firstsBy key items else firstsBy key items ++ [last] := by
  induction items with
  | nil => rfl
  | cons first rest inductionHypothesis =>
      rw [List.cons_append, firstsBy, inductionHypothesis, firstsBy]
      by_cases same : key last = key first
      · have already : key last ∈ (first :: rest).map key := by simp [same]
        rw [if_pos already]
        split <;> simp [same]
      · have earlier : key last ∈ (first :: rest).map key ↔ key last ∈ rest.map key := by
          simp [same]
        simp only [earlier]
        split <;> simp [same]

end Policer.Lib
