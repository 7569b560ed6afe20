-- Lines on a stream: each is written with a newline after it, and the reader
-- gives back the lines that came whole, and what follows the last newline.
import Mathlib.Data.List.Basic

namespace line_stream

variable {α : Type} [DecidableEq α] (newline : α)

def write (lines : List (List α)) : List α := lines.flatMap fun line => line ++ [newline]

/-- The lines that came whole, and the part of a line after them. -/
def read : List α → List (List α) × List α
  | [] => ([], [])
  | c :: s =>
    let (whole, part) := read s
    if c = newline then ([] :: whole, part)
    else
      match whole with
      | [] => ([], c :: part)
      | line :: whole => ((c :: line) :: whole, part)

omit [DecidableEq α] in
@[simp] theorem write_cons (line : List α) (lines : List (List α)) :
    write newline (line :: lines) = line ++ newline :: write newline lines := by
  simp [write]

/-- Without a newline there is only a part. -/
theorem read_part {part : List α} (h : newline ∉ part) : read newline part = ([], part) := by
  induction part with
  | nil => rfl
  | cons c part ih =>
    rw [List.mem_cons, not_or] at h
    obtain ⟨hc, hpart⟩ := h
    simp only [read, ih hpart, if_neg (Ne.symm hc)]

theorem read_line {line : List α} (h : newline ∉ line) (s : List α) :
    read newline (line ++ newline :: s) = (line :: (read newline s).1, (read newline s).2) := by
  induction line with
  | nil => simp [read]
  | cons c line ih =>
    rw [List.mem_cons, not_or] at h
    obtain ⟨hc, hline⟩ := h
    simp only [List.cons_append, read, ih hline, if_neg (Ne.symm hc)]

theorem read_write {lines : List (List α)} {part : List α} (hlines : ∀ line ∈ lines, newline ∉ line)
    (hpart : newline ∉ part) : read newline (write newline lines ++ part) = (lines, part) := by
  induction lines with
  | nil => exact read_part newline hpart
  | cons line lines ih =>
    obtain ⟨hline, hrest⟩ := List.forall_mem_cons.mp hlines
    rw [write_cons, List.append_assoc, List.cons_append, read_line newline hline, ih hrest]

end line_stream
