-- What a receiver of a broadcast channel still gets, and what it has lost.
import IrohDrop.Daemon

namespace iroh_drop

section Channels

variable {α : Type} {capacity : Nat} {values : List α} {next : Nat} {p : α → Bool}

/-- The first value that a receiver still gets. -/
def still_from (capacity : Nat) (values : List α) (next : Nat) : Nat :=
  max next (values.length - capacity)

/-- The channel is full of values that the receiver has not read, and the oldest
of them is the first that meets `p`: one more value, and it is gone. -/
def forgets_first (p : α → Bool) (capacity : Nat) (values : List α) (next : Nat) : Bool :=
  decide (next + capacity ≤ values.length) &&
    decide (values.findIdx? p = some (values.length - capacity))

theorem still_from_le (capacity : Nat) (h : next ≤ values.length) : still_from capacity values next ≤ values.length := by
  unfold still_from
  omega

theorem still_from_eq (h : values.length ≤ next + capacity) : still_from capacity values next = next := by
  unfold still_from
  omega

/-- A receive finds a gap, the next value, or nothing yet. -/
theorem broadcast_recv_cases (capacity : Nat) (h : next ≤ values.length) :
    (∃ missed, broadcast_recv capacity values false next =
      (.Lagged missed, still_from capacity values next) ∧
        next < still_from capacity values next) ∨
    (∃ value, broadcast_recv capacity values false next = (.Ok value, next + 1) ∧
      values[next]? = some value ∧ still_from capacity values next = next) ∨
    (broadcast_recv capacity values false next = (.Pending, next) ∧ next = values.length) := by
  unfold broadcast_recv
  by_cases hlag : next + capacity < values.length
  · have hfrom : still_from capacity values next = values.length - capacity := by
      unfold still_from
      omega
    rw [if_pos hlag, hfrom]
    exact .inl ⟨_, rfl, by omega⟩
  · rw [if_neg hlag]
    rcases hvalue : values[next]? with _ | value
    · have hend := List.getElem?_eq_none_iff.mp hvalue
      exact .inr (.inr ⟨rfl, by omega⟩)
    · exact .inr (.inl ⟨value, rfl, rfl, still_from_eq (by omega)⟩)

/-- A value that is not the first to meet `p` changes nothing. -/
theorem find?_take_succ {i : Nat} (h : values.findIdx? p ≠ some i) :
    (values.take (i + 1)).find? p = (values.take i).find? p := by
  induction values generalizing i with
  | nil => simp
  | cons value values ih =>
    rw [List.findIdx?_cons] at h
    by_cases hp : p value = true
    · rw [if_pos hp] at h
      cases i with
      | zero => exact absurd rfl h
      | succ i => simp [hp]
    · rw [if_neg hp] at h
      cases i with
      | zero => simp [hp]
      | succ i =>
        have hrest : values.findIdx? p ≠ some i := fun heq => h (by rw [heq]; rfl)
        rw [List.take_succ_cons, List.take_succ_cons, List.find?_cons, List.find?_cons, ih hrest]

/-- One more value, and no first one to meet `p` is lost. -/
theorem find?_sent (h : next ≤ values.length) (hroom : 0 < capacity)
    (hkeeps : forgets_first p capacity values next = false) (value : α) :
    ((values ++ [value]).take (still_from capacity (values ++ [value]) next)).find? p =
      (values.take (still_from capacity values next)).find? p := by
  have hle := still_from_le capacity h
  by_cases hfull : next + capacity ≤ values.length
  · have hnext : still_from capacity (values ++ [value]) next =
        still_from capacity values next + 1 := by
      unfold still_from
      rw [List.length_append, List.length_singleton]
      omega
    have hold : still_from capacity values next = values.length - capacity := by
      unfold still_from
      omega
    have hfirst : values.findIdx? p ≠ some (values.length - capacity) := by
      intro heq
      rw [forgets_first, decide_eq_true hfull, decide_eq_true heq] at hkeeps
      cases hkeeps
    rw [hnext, hold, List.take_append_of_le_length (by omega)]
    exact find?_take_succ hfirst
  · have hsame : still_from capacity (values ++ [value]) next = next := by
      unfold still_from
      rw [List.length_append, List.length_singleton]
      omega
    rw [hsame, still_from_eq (by omega), List.take_append_of_le_length h]

/-- A value that is read is past. -/
theorem find?_take_read {value : α} (h : values[next]? = some value) :
    (values.take (next + 1)).find? p =
      ((values.take next).find? p).or ([value].find? p) := by
  rw [List.take_add_one, h, Option.toList_some, List.find?_append]

end Channels

end iroh_drop
