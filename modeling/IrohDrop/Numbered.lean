-- Lists whose entries are numbered one after the other, and readers that go
-- through such a list.
import Mathlib.Data.List.Basic

namespace numbered

variable {α : Type} {key : α → Nat} {first : Nat} {l : List α}

/-- The numbers of the entries go up by one from the first. -/
def Numbered (key : α → Nat) (first : Nat) (l : List α) : Prop :=
  ∀ (i : Nat) (x : α), l[i]? = some x → key x = first + i

theorem Numbered.nil : Numbered key first [] := by
  intro i x h
  cases h

theorem Numbered.concat (h : Numbered key first l) {x : α} (hx : key x = first + l.length) :
    Numbered key first (l ++ [x]) := by
  intro i y hy
  by_cases hi : i < l.length
  · rw [List.getElem?_append_left hi] at hy
    exact h i y hy
  · have hlt := (List.getElem?_eq_some_iff.mp hy).1
    rw [List.length_append, List.length_singleton] at hlt
    have hlast : i = l.length := by omega
    rw [hlast, List.getElem?_concat_length, Option.some.injEq] at hy
    rw [← hy, hx, hlast]

theorem Numbered.drop (h : Numbered key first l) (n : Nat) :
    Numbered key (first + n) (l.drop n) := by
  intro i x hx
  rw [List.getElem?_drop] at hx
  rw [h _ x hx]
  omega

theorem Numbered.take (h : Numbered key first l) (n : Nat) : Numbered key first (l.take n) := by
  intro i x hx
  by_cases hi : i < n
  · rw [List.getElem?_take_of_lt hi] at hx
    exact h i x hx
  · rw [List.getElem?_take_eq_none (Nat.le_of_not_lt hi)] at hx
    cases hx

theorem Numbered.pairwise (h : Numbered key first l) : l.Pairwise fun x y => key x < key y := by
  rw [List.pairwise_iff_getElem]
  intro i j hi hj hij
  rw [h i _ (List.getElem?_eq_getElem hi), h j _ (List.getElem?_eq_getElem hj)]
  omega

/-- An entry stands where its number says. -/
theorem Numbered.getElem?_of_mem (h : Numbered key first l) {x : α} (hx : x ∈ l) :
    ∃ i, l[i]? = some x ∧ key x = first + i := by
  obtain ⟨i, hi⟩ := List.mem_iff_getElem?.mp hx
  exact ⟨i, hi, h i x hi⟩

/-- No two entries have one number. -/
theorem Numbered.inj (h : Numbered key first l) {x y : α} (hx : x ∈ l) (hy : y ∈ l)
    (hkey : key x = key y) : x = y := by
  obtain ⟨i, hi, hxi⟩ := h.getElem?_of_mem hx
  obtain ⟨j, hj, hyj⟩ := h.getElem?_of_mem hy
  have hij : i = j := by omega
  rw [hij, hj, Option.some.injEq] at hi
  exact hi.symm

/-- The entries from a number on are the end of the list. -/
theorem Numbered.filter_ge (h : Numbered key first l) (start : Nat) :
    l.filter (fun x => decide (start ≤ key x)) = l.drop (start - first) := by
  induction l generalizing first with
  | nil => simp
  | cons x l ih =>
    have hx : key x = first := h 0 x rfl
    have hrest : Numbered key (first + 1) l := h.drop 1
    by_cases hstart : start ≤ first
    · rw [Nat.sub_eq_zero_of_le hstart, List.drop_zero, List.filter_eq_self]
      intro y hy
      obtain ⟨i, -, hyi⟩ := h.getElem?_of_mem hy
      exact decide_eq_true (by omega)
    · rw [List.filter_cons_of_neg (by rw [hx]; simpa using hstart), ih hrest]
      have hsub : start - first = start - (first + 1) + 1 := by omega
      rw [hsub, List.drop_succ_cons]

/-! ## Spans -/

/-- The entries from one place up to another, in any order and number. -/
def Spans (whole seen : List α) (lo hi : Nat) : Prop :=
  ∀ x, x ∈ seen ↔ ∃ i, lo ≤ i ∧ i < hi ∧ whole[i]? = some x

theorem Spans.grow {whole seen : List α} {lo hi : Nat} (h : Spans whole seen lo hi)
    (hhi : hi ≤ whole.length) (y : α) : Spans (whole ++ [y]) seen lo hi := by
  intro x
  rw [h x]
  refine exists_congr fun i => and_congr_right fun _ => and_congr_right fun hlt => ?_
  rw [List.getElem?_append_left (by omega)]

/-- A span and one that starts in it or right after it. -/
theorem Spans.append {whole seen more : List α} {lo hi start stop : Nat}
    (h : Spans whole seen lo hi) (hmore : Spans whole more start stop) (hlo : lo ≤ start)
    (hhi : start ≤ hi) : Spans whole (seen ++ more) lo (max hi stop) := by
  intro x
  rw [List.mem_append, h x, hmore x]
  constructor
  · rintro (⟨i, hi₁, hi₂, hx⟩ | ⟨i, hi₁, hi₂, hx⟩)
    · exact ⟨i, hi₁, Nat.lt_of_lt_of_le hi₂ (Nat.le_max_left _ _), hx⟩
    · exact ⟨i, Nat.le_trans hlo hi₁, Nat.lt_of_lt_of_le hi₂ (Nat.le_max_right _ _), hx⟩
  · rintro ⟨i, hi₁, hi₂, hx⟩
    by_cases hin : i < hi
    · exact .inl ⟨i, hi₁, hin, hx⟩
    · exact .inr ⟨i, by omega, by omega, hx⟩

theorem Spans.singleton {whole : List α} {i : Nat} {x : α} (h : whole[i]? = some x) :
    Spans whole [x] i (i + 1) := by
  intro y
  rw [List.mem_singleton]
  constructor
  · rintro rfl
    exact ⟨i, Nat.le_refl i, Nat.lt_succ_self i, h⟩
  · rintro ⟨j, hj₁, hj₂, hy⟩
    have hij : j = i := by omega
    rw [hij, h, Option.some.injEq] at hy
    exact hy.symm

theorem Spans.slice (whole : List α) (start stop : Nat) :
    Spans whole ((whole.take stop).drop start) start stop := by
  intro x
  rw [List.mem_iff_getElem?]
  constructor
  · rintro ⟨i, hx⟩
    rw [List.getElem?_drop] at hx
    by_cases hlt : start + i < stop
    · rw [List.getElem?_take_of_lt hlt] at hx
      exact ⟨start + i, Nat.le_add_right _ _, hlt, hx⟩
    · rw [List.getElem?_take_eq_none (Nat.le_of_not_lt hlt)] at hx
      cases hx
  · rintro ⟨i, hi₁, hi₂, hx⟩
    refine ⟨i - start, ?_⟩
    rw [List.getElem?_drop, Nat.add_sub_cancel' hi₁, List.getElem?_take_of_lt hi₂]
    exact hx

/-- A span has every entry between two that it has. -/
theorem Spans.between {whole seen : List α} {lo hi : Nat} (h : Spans whole seen lo hi)
    (hnum : Numbered key first whole) {x y z : α} (hx : x ∈ seen) (hz : z ∈ seen)
    (hy : y ∈ whole) (hxy : key x ≤ key y) (hyz : key y ≤ key z) : y ∈ seen := by
  obtain ⟨i, hlo, -, hxi⟩ := (h x).mp hx
  obtain ⟨k, -, hhi, hzk⟩ := (h z).mp hz
  obtain ⟨j, hyj, hj⟩ := hnum.getElem?_of_mem hy
  have hi := hnum i x hxi
  have hk := hnum k z hzk
  exact (h y).mpr ⟨j, by omega, by omega, hyj⟩

end numbered
