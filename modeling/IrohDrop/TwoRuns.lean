-- Two runs of one machine side by side: a relation of their states that every pair of
-- steps keeps is there at the end.
import IrohDrop.Runs
import Mathlib.Data.List.Forall2
import Mathlib.Data.Option.Basic

/-! ## Lists side by side -/

section Lists

variable {α β : Type} {R : α → β → Prop} {a : List α} {b : List β}

theorem forall₂_at (h : List.Forall₂ R a b) (i : Nat) : Option.Rel R a[i]? b[i]? := by
  induction h generalizing i with
  | nil => simp
  | cons hfirst hrest ih =>
    cases i with
    | zero => simpa using hfirst
    | succ i => simpa using ih i

theorem forall₂_missing (h : List.Forall₂ R a b) {i : Nat} (hnone : a[i]? = none) :
    b[i]? = none := by
  have hrel := forall₂_at h i
  rw [hnone] at hrel
  cases hrest : b[i]? with
  | none => rfl
  | some y =>
    rw [hrest] at hrel
    cases hrel

theorem forall₂_found (h : List.Forall₂ R a b) {i : Nat} {x : α} (hx : a[i]? = some x) :
    ∃ y, b[i]? = some y ∧ R x y := by
  have hrel := forall₂_at h i
  rw [hx] at hrel
  cases hrest : b[i]? with
  | none =>
    rw [hrest] at hrel
    cases hrel
  | some y =>
    rw [hrest] at hrel
    cases hrel with
    | some hxy => exact ⟨y, rfl, hxy⟩

theorem forall₂_head (h : List.Forall₂ R a b) : Option.Rel R a.head? b.head? := by
  cases h with
  | nil => simp
  | cons hfirst hrest => simpa using hfirst

theorem forall₂_isEmpty (h : List.Forall₂ R a b) : a.isEmpty = b.isEmpty := by
  cases h <;> rfl

theorem forall₂_tail (h : List.Forall₂ R a b) : List.Forall₂ R a.tail b.tail := by
  cases h with
  | nil => exact .nil
  | cons hfirst hrest => exact hrest

theorem forall₂_concat (h : List.Forall₂ R a b) {x : α} {y : β} (hlast : R x y) :
    List.Forall₂ R (a ++ [x]) (b ++ [y]) := by
  induction h with
  | nil => exact .cons hlast .nil
  | cons hfirst hrest ih => exact .cons hfirst ih

theorem forall₂_set (h : List.Forall₂ R a b) (i : Nat) {x : α} {y : β} (hnew : R x y) :
    List.Forall₂ R (a.set i x) (b.set i y) := by
  induction h generalizing i with
  | nil => exact .nil
  | cons hfirst hrest ih =>
    cases i with
    | zero => exact .cons hnew hrest
    | succ i => exact .cons hfirst (ih i)

theorem forall₂_modify (h : List.Forall₂ R a b) (i : Nat) {f : α → α} {g : β → β}
    (hchange : ∀ x y, R x y → R (f x) (g y)) : List.Forall₂ R (a.modify i f) (b.modify i g) := by
  induction h generalizing i with
  | nil => simp
  | cons hfirst hrest ih =>
    cases i with
    | zero => exact .cons (hchange _ _ hfirst) hrest
    | succ i => exact .cons hfirst (ih i)

theorem forall₂_eraseIdx (h : List.Forall₂ R a b) (i : Nat) :
    List.Forall₂ R (a.eraseIdx i) (b.eraseIdx i) := by
  induction h generalizing i with
  | nil => exact .nil
  | cons hfirst hrest ih =>
    cases i with
    | zero => exact hrest
    | succ i => exact .cons hfirst (ih i)

theorem forall₂_filter (h : List.Forall₂ R a b) {p : α → Bool} {q : β → Bool}
    (hsame : ∀ x y, R x y → p x = q y) : List.Forall₂ R (a.filter p) (b.filter q) := by
  induction h with
  | nil => exact .nil
  | @cons x y a b hfirst hrest ih =>
    by_cases hp : p x
    · rw [List.filter_cons_of_pos hp, List.filter_cons_of_pos (hsame x y hfirst ▸ hp)]
      exact .cons hfirst ih
    · rw [List.filter_cons_of_neg hp, List.filter_cons_of_neg (hsame x y hfirst ▸ hp)]
      exact ih

end Lists

namespace runs

/-! ## Runs side by side -/

variable {σ ι : Type} {step : σ → ι → σ} {Inputs : ι → ι → Prop} {States : σ → σ → Prop}

/-- Two runs, each step of one beside a step of the other: `Inputs` relates the two
steps, and `States` the states that they lead to. -/
inductive SideBySide (step : σ → ι → σ) (Inputs : ι → ι → Prop) (States : σ → σ → Prop) :
    σ → σ → List ι → List ι → Prop where
  | nil {s s' : σ} : SideBySide step Inputs States s s' [] []
  | cons {s s' : σ} {i i' : ι} {l l' : List ι} (inputs : Inputs i i')
      (states : States (step s i) (step s' i'))
      (rest : SideBySide step Inputs States (step s i) (step s' i') l l') :
      SideBySide step Inputs States s s' (i :: l) (i' :: l')

/-- Two runs of the same inputs from one state are side by side. -/
theorem SideBySide.same (hinputs : ∀ i, Inputs i i) (hstates : ∀ s, States s s) (s : σ)
    (l : List ι) : SideBySide step Inputs States s s l l := by
  induction l generalizing s with
  | nil => exact .nil
  | cons i l ih => exact .cons (hinputs i) (hstates _) (ih _)

/-- Where the inputs of one run meet `ok`, a relation that such steps keep is kept
to the end. -/
theorem SideBySide.unwind {s s' : σ} {l l' : List ι}
    (h : SideBySide step Inputs States s s' l l') {ok : σ → ι → Prop} {R : σ → σ → Prop}
    (hkeeps : ∀ s s' i i', R s s' → ok s i → Inputs i i' → States (step s i) (step s' i') →
      R (step s i) (step s' i'))
    (hstart : R s s') (hmeets : Meets step ok s l) : R (run step s l) (run step s' l') := by
  induction h with
  | nil => exact hstart
  | cons inputs states rest ih =>
    obtain ⟨hok, hrest⟩ := hmeets
    apply ih (hkeeps _ _ _ _ hstart hok inputs states)
    exact hrest

end runs
