-- Token buckets: which requests find a token, when each one before took one.
import Mathlib.Algebra.Order.Field.Basic
import Mathlib.Tactic.Ring
import Mathlib.Tactic.Linarith

namespace token_bucket

variable {K : Type} [Field K] [LinearOrder K] [IsStrictOrderedRing K]

/-- What is in the bucket when request `j` comes, if each request before it
took one token. -/
def level (first burst rate : K) (t : ℕ → K) : ℕ → K
  | 0 => first
  | j + 1 => min (level first burst rate t j - 1 + rate * (t (j + 1) - t j)) burst

variable {first burst rate : K} {t : ℕ → K}

/-- The bucket holds this much when there was enough at the start, and when no
stretch of requests since the bucket could have been full took too much. -/
theorem le_level_iff (x : K) (j : ℕ) :
    x ≤ level first burst rate t j ↔
      x + j ≤ first + rate * (t j - t 0) ∧
        ∀ i, 0 < i → i ≤ j → x + (j - i) ≤ burst + rate * (t j - t i) := by
  induction j generalizing x with
  | zero =>
    simp only [level, Nat.cast_zero, sub_self, mul_zero, add_zero]
    refine ⟨fun h => ⟨h, fun i hpos hle => ?_⟩, And.left⟩
    omega
  | succ j ih =>
    rw [level, le_min_iff]
    have hshift : x ≤ level first burst rate t j - 1 + rate * (t (j + 1) - t j) ↔
        x + 1 - rate * (t (j + 1) - t j) ≤ level first burst rate t j := by
      constructor <;> intro h <;> linarith
    rw [hshift, ih]
    push_cast
    constructor
    · rintro ⟨⟨hfirst, hrest⟩, hburst⟩
      refine ⟨by linarith, ?_⟩
      intro i hpos hle
      rcases Nat.lt_or_eq_of_le hle with hlt | rfl
      · have h := hrest i hpos (by omega)
        linarith
      · push_cast
        linarith
    · rintro ⟨hfirst, hrest⟩
      refine ⟨⟨by linarith, ?_⟩, ?_⟩
      · intro i hpos hle
        have h := hrest i hpos (by omega)
        linarith
      · have h := hrest (j + 1) (Nat.succ_pos j) (Nat.le_refl _)
        push_cast at h
        linarith

/-- From a full bucket, every request finds a token just when no stretch of
them takes more than the burst and what flows in meanwhile. -/
theorem all_taken_iff (n : ℕ) :
    (∀ j ≤ n, 1 ≤ level burst burst rate t j) ↔
      ∀ i j, i ≤ j → j ≤ n → 1 + ((j : K) - i) ≤ burst + rate * (t j - t i) := by
  simp only [le_level_iff]
  constructor
  · intro h i j hij hj
    obtain ⟨hfirst, hrest⟩ := h j hj
    rcases Nat.eq_zero_or_pos i with rfl | hpos
    · simpa using hfirst
    · exact hrest i hpos hij
  · intro h j hj
    refine ⟨?_, fun i _ hij => h i j hij hj⟩
    simpa using h 0 j (Nat.zero_le j) hj

/-! ## Requests that may be refused -/

/-- What a request at `now` finds in the bucket, after these requests, newest first,
of which some took a token. -/
def found (burst rate : K) : List (K × Bool) → K → K
  | [], _ => burst
  | (t, taken) :: older, now =>
    min (found burst rate older t - (if taken then 1 else 0) + rate * (now - t)) burst

/-- The number of requests that took a token. -/
def takes (requests : List (K × Bool)) : ℕ := requests.countP Prod.snd

omit [LinearOrder K] [IsStrictOrderedRing K] [Field K] in
@[simp] theorem takes_cons (t : K) (taken : Bool) (requests : List (K × Bool)) :
    takes ((t, taken) :: requests) = takes requests + if taken then 1 else 0 := by
  cases taken <;> simp [takes]

/-- The bucket holds this much when no stretch of requests up to now took more than
the burst and what flowed in meanwhile. -/
theorem le_found_iff (x : K) (requests : List (K × Bool)) (now : K) :
    x ≤ found burst rate requests now ↔
      x ≤ burst ∧ ∀ newer t taken older, requests = newer ++ (t, taken) :: older →
        x + takes (newer ++ [(t, taken)]) ≤ burst + rate * (now - t) := by
  induction requests generalizing x now with
  | nil => simp [found]
  | cons request older ih =>
    obtain ⟨t, taken⟩ := request
    have hshift : x ≤ found burst rate older t - (if taken then 1 else 0) + rate * (now - t) ↔
        x + (if taken then 1 else 0) - rate * (now - t) ≤ found burst rate older t := by
      constructor <;> intro h <;> linarith
    rw [found, le_min_iff, hshift, ih]
    constructor
    · rintro ⟨⟨hlast, hbefore⟩, hburst⟩
      refine ⟨hburst, ?_⟩
      intro newer t' taken' older' hsplit
      rcases newer with _ | ⟨first, newer⟩
      · obtain ⟨hhead, rfl⟩ := List.cons.inj hsplit
        obtain ⟨rfl, rfl⟩ := Prod.mk.inj hhead
        cases taken <;> simp [takes] at hlast ⊢ <;> linarith
      · obtain ⟨rfl, hrest⟩ := List.cons.inj hsplit
        have h := hbefore newer t' taken' older' hrest
        rw [List.cons_append, takes_cons]
        push_cast
        cases taken <;> simp at h ⊢ <;> linarith
    · rintro ⟨hburst, hall⟩
      refine ⟨⟨?_, ?_⟩, hburst⟩
      · have h := hall [] t taken older rfl
        cases taken <;> simp [takes] at h ⊢ <;> linarith
      · intro newer t' taken' older' hsplit
        have h := hall ((t, taken) :: newer) t' taken' older' (by rw [hsplit]; rfl)
        rw [List.cons_append, takes_cons] at h
        push_cast at h
        cases taken <;> simp at h ⊢ <;> linarith

/-- Each request took a token just when it found one. -/
def Answered (burst rate : K) : List (K × Bool) → Prop
  | [] => True
  | (t, taken) :: older => (taken = true ↔ 1 ≤ found burst rate older t) ∧ Answered burst rate older

/-- Requests that lie within some time of each other take no more than the burst and
what flows in during that time. -/
theorem takes_le (hburst : 1 ≤ burst) (hrate : 0 ≤ rate) {window older : List (K × Bool)} {d : K}
    (hd : 0 ≤ d) (h : Answered burst rate (window ++ older))
    (hspan : ∀ a ∈ window, ∀ b ∈ window, a.1 - b.1 ≤ d) :
    (takes window : K) ≤ burst + rate * d := by
  have hflow : 0 ≤ rate * d := mul_nonneg hrate hd
  induction window with
  | nil =>
    simp only [takes, List.countP_nil, Nat.cast_zero]
    linarith
  | cons request window ih =>
    obtain ⟨t, taken⟩ := request
    obtain ⟨htaken, hrest⟩ := h
    have hbefore := ih hrest (fun a ha b hb =>
      hspan a (List.mem_cons_of_mem _ ha) b (List.mem_cons_of_mem _ hb))
    rw [takes_cons]
    cases taken with
    | false => simpa using hbefore
    | true =>
      obtain ⟨-, hall⟩ := (le_found_iff 1 (window ++ older) t).mp (htaken.mp rfl)
      push_cast
      rcases List.eq_nil_or_concat window with rfl | ⟨newer, ⟨t', taken'⟩, rfl⟩
      · simp only [takes, List.countP_nil, Nat.cast_zero, if_true]
        linarith
      · rw [List.concat_eq_append] at hall hspan ⊢
        have hoften := hall newer t' taken' older (by simp)
        have htime := hspan (t, true) (by simp) (t', taken') (by simp)
        have hflowed : rate * (t - t') ≤ rate * d := mul_le_mul_of_nonneg_left htime hrate
        simp only [if_true]
        linarith

/-- A request finds no token only when one more would have been too many for some
stretch of requests up to it. -/
theorem refused_of_found (hburst : 1 ≤ burst) {requests : List (K × Bool)} {now : K}
    (h : ¬ 1 ≤ found burst rate requests now) :
    ∃ newer t taken older, requests = newer ++ (t, taken) :: older ∧
      burst + rate * (now - t) < takes (newer ++ [(t, taken)]) + 1 := by
  rw [le_found_iff] at h
  by_contra hnone
  apply h
  refine ⟨hburst, ?_⟩
  intro newer t taken older hsplit
  by_contra hlt
  refine hnone ⟨newer, t, taken, older, hsplit, ?_⟩
  linarith

end token_bucket
