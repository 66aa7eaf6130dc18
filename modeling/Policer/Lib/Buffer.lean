import Mathlib.Data.List.Induction

/-!
# Buffers

An allocated array whose cells have no value before they are written. It is an error
to write or read past its end, or to read a cell that was never written.
-/

namespace Policer.Lib

/-- Use of a cell that is not there, or has no value. -/
inductive BufferError where
  | outside
  | unwritten
deriving DecidableEq, Repr

/-- The cells of an array. -/
abbrev Buffer (α : Type) := List (Option α)

namespace Buffer

variable {α β : Type}

/-- An array without values. -/
def alloc (size : Nat) : Buffer α := List.replicate size none

/-- Write cells from an offset on. -/
def write (buffer : Buffer α) (offset : Nat) (cells : Buffer α) :
    Except BufferError (Buffer α) :=
  if offset + cells.length ≤ buffer.length then
    .ok (buffer.take offset ++ cells ++ buffer.drop (offset + cells.length))
  else .error .outside

/-- Read a cell. -/
def get (buffer : Buffer α) (index : Nat) : Except BufferError α :=
  match buffer[index]? with
  | some (some value) => .ok value
  | some none => .error .unwritten
  | none => .error .outside

/-- Write one cell. -/
def put (buffer : Buffer α) (index : Nat) (value : α) : Except BufferError (Buffer α) :=
  if index < buffer.length then .ok (buffer.set index (some value)) else .error .outside

/-- Read the first cells. -/
def read (buffer : Buffer α) (size : Nat) : Except BufferError (List α) :=
  (List.range size).mapM buffer.get

/-! ### Single cells -/

theorem put_of_lt {buffer : Buffer α} {index : Nat} (inside : index < buffer.length) (value : α) :
    buffer.put index value = .ok (buffer.set index (some value)) :=
  if_pos inside

theorem get_set_self {buffer : Buffer α} {index : Nat} (inside : index < buffer.length)
    (value : α) : get (buffer.set index (some value)) index = .ok value := by
  rw [get, List.getElem?_set_self inside]

theorem get_set_other {index other : Nat} (different : index ≠ other) (buffer : Buffer α)
    (value : Option α) : get (buffer.set index value) other = get buffer other := by
  rw [get, List.getElem?_set_ne different, get]

/-- The first cells have the values of a list. -/
def Lists (buffer : Buffer α) (values : List α) : Prop :=
  ∀ index (inside : index < values.length), buffer.get index = .ok values[index]

theorem Lists.of_append {buffer : Buffer α} {values more : List α}
    (lists : buffer.Lists (values ++ more)) : buffer.Lists values := by
  intro index inside
  have longer : index < (values ++ more).length := by
    rw [List.length_append]
    omega
  have here := lists index longer
  rwa [List.getElem_append_left inside] at here

/-- A value is put behind the others. -/
theorem Lists.set {buffer : Buffer α} {values : List α} (lists : buffer.Lists values)
    (room : values.length < buffer.length) (last : α) :
    Lists (buffer.set values.length (some last)) (values ++ [last]) := by
  intro index inside
  by_cases before : index < values.length
  · rw [get_set_other (by omega), List.getElem_append_left before]
    exact lists index before
  · rw [List.length_append, List.length_singleton] at inside
    obtain rfl : index = values.length := by omega
    rw [get_set_self room, List.getElem_concat_length rfl]

/-- The values of a list are read. -/
theorem Lists.read {buffer : Buffer α} {values : List α} (lists : buffer.Lists values) :
    buffer.read values.length = .ok values := by
  induction values using List.reverseRecOn with
  | nil => rfl
  | append_singleton values last inductionHypothesis =>
      have front := inductionHypothesis lists.of_append
      have final := lists values.length (by simp)
      rw [List.getElem_concat_length rfl] at final
      rw [Buffer.read] at front ⊢
      rw [List.length_append, List.length_singleton, List.range_succ, List.mapM_append, front,
        List.mapM_cons, final]
      rfl

/-! ### Buffers that are filled from the front -/

/-- The values are written behind those that are there. -/
theorem write_filled (values more : List α) {rest : Buffer α} (room : more.length ≤ rest.length) :
    write (values.map some ++ rest) values.length (more.map some) =
      .ok ((values ++ more).map some ++ rest.drop more.length) := by
  have fits : values.length + (more.map some).length ≤ (values.map some ++ rest).length := by
    simp only [List.length_append, List.length_map]
    omega
  have taken : (values.map some ++ rest).take values.length = values.map some := by
    simp
  have dropped : (values.map some ++ rest).drop (values.length + more.length) =
      rest.drop more.length := by
    simp [List.drop_append]
  rw [write, if_pos fits, List.length_map, taken, dropped, List.map_append]

theorem write_overrun {buffer cells : Buffer α} {offset : Nat}
    (overrun : buffer.length < offset + cells.length) :
    buffer.write offset cells = .error .outside :=
  if_neg (by omega)

theorem get_filled {values : List α} (rest : Buffer α) {index : Nat}
    (inside : index < values.length) :
    get (values.map some ++ rest) index = .ok values[index] := by
  have here : (values.map some ++ rest)[index]? = some (some values[index]) := by
    rw [List.getElem?_append_left (by simpa using inside)]
    simp [inside]
  rw [get, here]

theorem filled_append_singleton (values : List α) (last : α) (rest : Buffer α) :
    (values ++ [last]).map some ++ rest = values.map some ++ (some last :: rest) := by
  simp

theorem get_filled_length (values : List α) (last : α) (rest : Buffer α) :
    get (values.map some ++ (some last :: rest)) values.length = .ok last := by
  simp [get]

/-- A loop over the written cells is a loop over their values. -/
theorem foldlM_get_filled (step : β → α → Except BufferError β) (values : List α)
    (rest : Buffer α) (initial : β) :
    (List.range values.length).foldlM
        (fun state index => get (values.map some ++ rest) index >>= step state) initial =
      values.foldlM step initial := by
  induction values using List.reverseRecOn generalizing rest with
  | nil => rfl
  | append_singleton values last ih =>
      rw [List.length_append, List.length_singleton, List.range_succ, List.foldlM_append,
        List.foldlM_append, filled_append_singleton, ih]
      refine bind_congr fun state => ?_
      rw [List.foldlM_cons, List.foldlM_cons, get_filled_length]
      rfl

/-- The written cells are read. -/
theorem read_filled (values : List α) (rest : Buffer α) :
    read (values.map some ++ rest) values.length = .ok values :=
  Lists.read fun _ inside => get_filled rest inside

end Buffer

end Policer.Lib
