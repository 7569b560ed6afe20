-- Keys that are remembered for a while, a bounded number of them: which entries of a
-- log in order of time are live.
import Mathlib.Data.List.Basic
import Mathlib.Data.List.Sort

namespace recent_keys

variable {κ : Type}

/-- The entry is no older than the limit. -/
def young (ttl now : Nat) (entry : κ × Nat) : Bool := decide (now - entry.2 ≤ ttl)

/-- The young ones among the last entries of the log. -/
def live (capacity ttl now : Nat) (log : List (κ × Nat)) : List (κ × Nat) :=
  (log.drop (log.length - capacity)).filter (young ttl now)

/-- The log is in order of time. -/
def InTime (log : List (κ × Nat)) : Prop := log.Pairwise (fun a b => a.2 ≤ b.2)

variable {capacity ttl now later : Nat} {log : List (κ × Nat)}

theorem InTime.append {entry : κ × Nat} (h : InTime log) (hlast : ∀ e ∈ log, e.2 ≤ entry.2) :
    InTime (log ++ [entry]) := by
  simpa [InTime, List.pairwise_append] using ⟨h, fun a b hab => hlast (a, b) hab⟩

theorem young_of_later {entry : κ × Nat} (hle : now ≤ later) (h : young ttl later entry = true) :
    young ttl now entry = true := by
  simp only [young, decide_eq_true_eq] at h ⊢
  omega

theorem young_of_newer {a b : κ × Nat} (hle : a.2 ≤ b.2) (h : young ttl now a = true) :
    young ttl now b = true := by
  simp only [young, decide_eq_true_eq] at h ⊢
  omega

/-- The old entries stand in front. -/
theorem filter_young_cons {entry : κ × Nat} {rest : List (κ × Nat)}
    (h : InTime (entry :: rest)) (hyoung : young ttl now entry = true) :
    (entry :: rest).filter (young ttl now) = entry :: rest := by
  apply List.filter_eq_self.mpr
  intro e he
  rcases List.mem_cons.mp he with rfl | hmem
  · exact hyoung
  · exact young_of_newer ((List.pairwise_cons.mp h).1 e hmem) hyoung

theorem live_sublist (capacity ttl now : Nat) (log : List (κ × Nat)) :
    (live capacity ttl now log).Sublist log :=
  List.filter_sublist.trans (List.drop_sublist _ _)

theorem live_length_le (capacity ttl now : Nat) (log : List (κ × Nat)) :
    (live capacity ttl now log).length ≤ capacity := by
  have h := List.length_filter_le (young ttl now) (log.drop (log.length - capacity))
  simp only [List.length_drop] at h
  unfold live
  omega

/-- What is live later is what is still young of what was live. -/
theorem live_later (hle : now ≤ later) :
    (live capacity ttl now log).filter (young ttl later) = live capacity ttl later log := by
  unfold live
  rw [List.filter_filter]
  apply List.filter_congr
  intro e _
  by_cases h : young ttl later e = true
  · simp [h, young_of_later hle h]
  · simp [h]

/-- A new entry goes in at the back, and the oldest makes room where there is
none. -/
theorem live_append (hpos : 1 ≤ capacity) (htime : InTime log) {entry : κ × Nat}
    (hnew : young ttl now entry = true) :
    live capacity ttl now (log ++ [entry]) =
      (live capacity ttl now log).drop ((live capacity ttl now log).length + 1 - capacity) ++
        [entry] := by
  have hdrop : (log ++ [entry]).drop ((log ++ [entry]).length - capacity) =
      log.drop (log.length + 1 - capacity) ++ [entry] := by
    rw [List.length_append, List.length_singleton, List.drop_append_of_le_length (by omega)]
  have hlive : live capacity ttl now (log ++ [entry]) =
      (log.drop (log.length + 1 - capacity)).filter (young ttl now) ++ [entry] := by
    unfold live
    rw [hdrop, List.filter_append]
    simp [hnew]
  rw [hlive]
  congr 1
  by_cases hroom : log.length < capacity
  · have hfew := live_length_le capacity ttl now log
    have hlog := (live_sublist capacity ttl now log).length_le
    rw [show log.length + 1 - capacity = 0 by omega,
      show (live capacity ttl now log).length + 1 - capacity = 0 by omega]
    simp [live, show log.length - capacity = 0 by omega]
  · have hlt : log.length - capacity < log.length := by omega
    have hcons := List.drop_eq_getElem_cons hlt
    rw [show log.length + 1 - capacity = log.length - capacity + 1 by omega]
    generalize log[log.length - capacity] = oldest at hcons
    generalize hrest : log.drop (log.length - capacity + 1) = rest at hcons ⊢
    have hlength : rest.length + 1 = capacity := by
      rw [← hrest, List.length_drop]
      omega
    have hsorted : InTime (oldest :: rest) :=
      hcons ▸ htime.sublist (List.drop_sublist _ _)
    have heq : live capacity ttl now log = (oldest :: rest).filter (young ttl now) := by
      rw [live, hcons]
    rw [heq]
    by_cases hyoung : young ttl now oldest = true
    · have hall := filter_young_cons hsorted hyoung
      have htail : rest.filter (young ttl now) = rest := by
        simpa [hyoung] using hall
      rw [hall, htail, List.length_cons, show rest.length + 1 + 1 - capacity = 1 by omega]
      rfl
    · have hfew := List.length_filter_le (young ttl now) rest
      rw [List.filter_cons_of_neg hyoung,
        show (rest.filter (young ttl now)).length + 1 - capacity = 0 by omega, List.drop_zero]

/-- An entry is live when it is young and fewer entries than the capacity came
after it. -/
theorem mem_live_iff {entry : κ × Nat} :
    entry ∈ live capacity ttl now log ↔
      ∃ before after, log = before ++ entry :: after ∧ now - entry.2 ≤ ttl ∧
        after.length < capacity := by
  unfold live
  rw [List.mem_filter]
  constructor
  · rintro ⟨hmem, hyoung⟩
    obtain ⟨before, after, hsplit⟩ := List.append_of_mem hmem
    have hlength := congrArg List.length hsplit
    simp only [List.length_drop, List.length_append, List.length_cons] at hlength
    refine ⟨log.take (log.length - capacity) ++ before, after, ?_, ?_, by omega⟩
    · rw [List.append_assoc, ← hsplit, List.take_append_drop]
    · simpa [young] using hyoung
  · rintro ⟨before, after, rfl, hyoung, hfew⟩
    refine ⟨?_, by simpa [young] using hyoung⟩
    rw [List.drop_append_of_le_length (by simp; omega)]
    simp

end recent_keys
