import Mathlib.Data.List.TakeWhile
import Policer.Lib.Buffer

/-!
# C strings in buffers

A text lies in a buffer of characters with a terminating NUL behind it. `strcat` finds
the NUL and writes another text from there on. `cStr` is what is left of a text that is handed over
as a C string.
-/

namespace Policer.Lib

/-- A `char const *` ends at the first NUL. -/
def cStr (text : List Char) : List Char := text.takeWhile (· != '\x00')

theorem cStr_eq_self {text : List Char} (noZero : '\x00' ∉ text) : cStr text = text := by
  refine List.takeWhile_eq_self_iff.mpr fun c member => ?_
  rw [bne_iff_ne]
  rintro rfl
  exact noZero member

theorem of_mem_cStr {text : List Char} {c : Char} (member : c ∈ cStr text) :
    c ≠ '\x00' ∧ c ∈ text := by
  refine ⟨?_, (List.takeWhile_prefix _).subset member⟩
  rintro rfl
  simpa using List.mem_takeWhile_imp member

namespace Buffer

/-- `strlen`: the place of the first NUL. -/
def strlen : Buffer Char → Except BufferError Nat
  | [] => .error .outside
  | none :: _ => .error .unwritten
  | some c :: rest => if c = '\x00' then .ok 0 else (strlen rest).map (· + 1)

/-- `strcat`: a text and its NUL are written over the NUL of another. -/
def strcat (dst : Buffer Char) (src : List Char) : Except BufferError (Buffer Char) := do
  let length ← dst.strlen
  dst.write length ((src ++ ['\x00']).map some)

/-- A text with its NUL and room behind it. -/
def cString (text : List Char) (room : Nat) : Buffer Char :=
  (text ++ ['\x00']).map some ++ alloc room

theorem strlen_cString {text : List Char} (noNul : '\x00' ∉ text) (room : Nat) :
    (cString text room).strlen = .ok text.length := by
  induction text with
  | nil => rfl
  | cons head tail inductionHypothesis =>
      simp only [List.mem_cons, not_or] at noNul
      have rest := inductionHypothesis noNul.2
      have here : head ≠ '\x00' := fun same => noNul.1 same.symm
      change (if head = '\x00' then _ else (cString tail room).strlen.map (· + 1)) = _
      rw [if_neg here, rest]
      rfl

/-- A text that fits into the room is appended. -/
theorem strcat_cString {text src : List Char} (noNul : '\x00' ∉ text) {room : Nat}
    (fits : src.length ≤ room) :
    (cString text room).strcat src = .ok (cString (text ++ src) (room - src.length)) := by
  have shape : cString text room = text.map some ++ (some '\x00' :: alloc room) := by
    simp [cString]
  have space : (src ++ ['\x00']).length ≤ (some '\x00' :: alloc room : Buffer Char).length := by
    simpa [alloc] using fits
  have written := write_filled text (src ++ ['\x00']) space
  rw [strcat, strlen_cString noNul]
  refine Eq.trans (congrArg (fun dst => write dst text.length _) shape) (written.trans ?_)
  simp [cString, alloc]

/-- The empty text at the front of a new array. -/
theorem put_alloc_zero (room : Nat) :
    (alloc (room + 1) : Buffer Char).put 0 '\x00' = .ok (cString [] room) := by
  rw [put_of_lt (by simp [alloc])]
  rfl

/-- Texts that fit into the room are appended one after the other. -/
theorem foldlM_strcat_cString {texts : List (List Char)} {text : List Char} {room : Nat}
    (noNul : '\x00' ∉ text) (clean : ∀ src ∈ texts, '\x00' ∉ src)
    (fits : texts.flatten.length ≤ room) :
    texts.foldlM strcat (cString text room) =
      .ok (cString (text ++ texts.flatten) (room - texts.flatten.length)) := by
  induction texts generalizing text room with
  | nil => simp [pure, Except.pure]
  | cons head tail inductionHypothesis =>
      rw [List.flatten_cons, List.length_append] at fits
      have headFits : head.length ≤ room := by omega
      have first := strcat_cString noNul headFits
      have still : '\x00' ∉ text ++ head := by
        simpa [noNul] using clean head List.mem_cons_self
      have rest := inductionHypothesis still
        (fun src member => clean src (List.mem_cons_of_mem _ member))
        (show tail.flatten.length ≤ room - head.length by omega)
      rw [List.foldlM_cons, first]
      refine rest.trans ?_
      rw [List.flatten_cons, List.length_append, List.append_assoc, Nat.sub_sub]

end Buffer

end Policer.Lib
