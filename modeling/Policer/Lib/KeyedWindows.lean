import Mathlib.Data.List.Nodup
import Mathlib.Logic.Function.Basic

/-!
# Grouping by key into windows

A stream of items is cut into windows: each key has at most one open window, to
which items are appended, and a window that is closed is kept in the order of
closing. `history_join` and `history_release` say that windows neither lose nor
repeat an item and keep the order of arrival.
-/

namespace Policer.Lib

/-- The open window of every key, empty when it has none, and the closed windows. -/
structure KeyedWindows (κ ρ : Type) where
  opened : κ → List ρ
  closed : List (κ × List ρ)

namespace KeyedWindows

variable {κ ρ : Type} [DecidableEq κ]

/-- No windows at all. -/
def empty : KeyedWindows κ ρ := ⟨fun _ => [], []⟩

/-- An item joins the window of its key. -/
def join (windows : KeyedWindows κ ρ) (key : κ) (item : ρ) : KeyedWindows κ ρ :=
  { windows with opened := Function.update windows.opened key (windows.opened key ++ [item]) }

/-- The windows of some keys are closed in the given order. -/
def release (windows : KeyedWindows κ ρ) (keys : List κ) : KeyedWindows κ ρ where
  opened key := if key ∈ keys then [] else windows.opened key
  closed := windows.closed ++ keys.map fun key => (key, windows.opened key)

/-- All items of a key in the windows they went to. -/
def history (windows : KeyedWindows κ ρ) (key : κ) : List ρ :=
  (windows.closed.filter (·.1 = key)).flatMap (·.2) ++ windows.opened key

@[simp] theorem opened_join (windows : KeyedWindows κ ρ) (key other : κ) (item : ρ) :
    (windows.join key item).opened other =
      if other = key then windows.opened key ++ [item] else windows.opened other :=
  Function.update_apply ..

@[simp] theorem closed_join (windows : KeyedWindows κ ρ) (key : κ) (item : ρ) :
    (windows.join key item).closed = windows.closed := rfl

@[simp] theorem opened_release (windows : KeyedWindows κ ρ) (keys : List κ) (key : κ) :
    (windows.release keys).opened key = if key ∈ keys then [] else windows.opened key := rfl

@[simp] theorem closed_release (windows : KeyedWindows κ ρ) (keys : List κ) :
    (windows.release keys).closed =
      windows.closed ++ keys.map fun key => (key, windows.opened key) := rfl

@[simp] theorem release_nil (windows : KeyedWindows κ ρ) : windows.release [] = windows := by
  simp [release]

@[simp] theorem history_empty (key : κ) : (empty : KeyedWindows κ ρ).history key = [] := rfl

/-- An item that joins is the last of its key. -/
theorem history_join (windows : KeyedWindows κ ρ) (key other : κ) (item : ρ) :
    (windows.join key item).history other =
      windows.history other ++ if other = key then [item] else [] := by
  by_cases same : other = key
  · subst same
    simp [history]
  · simp [history, same]

theorem filter_fst_eq (keys : List κ) (distinct : keys.Nodup) (group : κ → List ρ) (key : κ) :
    (((keys.map fun other => (other, group other)).filter (·.1 = key)).flatMap (·.2)) =
      if key ∈ keys then group key else [] := by
  induction keys with
  | nil => rfl
  | cons head tail ih =>
      have fresh := List.nodup_cons.mp distinct
      by_cases same : head = key
      · subst same
        simp [ih fresh.2, fresh.1]
      · simp [ih fresh.2, same, Ne.symm same]

/-- Closing windows moves no item. -/
theorem history_release (windows : KeyedWindows κ ρ) {keys : List κ} (distinct : keys.Nodup)
    (key : κ) : (windows.release keys).history key = windows.history key := by
  have moved := filter_fst_eq keys distinct windows.opened key
  simp only [history, closed_release, List.filter_append, List.flatMap_append, opened_release,
    moved, List.append_assoc]
  by_cases member : key ∈ keys <;> simp [member]

end KeyedWindows

end Policer.Lib
