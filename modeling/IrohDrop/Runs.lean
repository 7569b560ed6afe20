-- Runs of a deterministic machine: what each step keeps, a whole run keeps.
import Mathlib.Data.List.Induction

namespace runs

variable {σ ι : Type} {step : σ → ι → σ}

/-- The state after a list of inputs. -/
def run (step : σ → ι → σ) : σ → List ι → σ
  | s, [] => s
  | s, i :: l => run step (step s i) l

@[simp] theorem run_nil (s : σ) : run step s [] = s := rfl

@[simp] theorem run_cons (s : σ) (i : ι) (l : List ι) :
    run step s (i :: l) = run step (step s i) l := rfl

theorem run_append (s : σ) (l₁ l₂ : List ι) :
    run step s (l₁ ++ l₂) = run step (run step s l₁) l₂ := by
  induction l₁ generalizing s with
  | nil => rfl
  | cons i l ih => exact ih (step s i)

theorem run_concat (s : σ) (l : List ι) (i : ι) :
    run step s (l ++ [i]) = step (run step s l) i :=
  run_append s l [i]

theorem run_eq_foldl (s : σ) (l : List ι) : run step s l = l.foldl step s := by
  induction l generalizing s with
  | nil => rfl
  | cons i l ih => exact ih (step s i)

/-- What the inputs of a run give, each read off in the state that it comes to. -/
def collect {α : Type} (step : σ → ι → σ) (out : σ → ι → List α) : σ → List ι → List α
  | _, [] => []
  | s, i :: l => out s i ++ collect step out (step s i) l

theorem collect_append {α : Type} (out : σ → ι → List α) (s : σ) (l₁ l₂ : List ι) :
    collect step out s (l₁ ++ l₂) = collect step out s l₁ ++ collect step out (run step s l₁) l₂ := by
  induction l₁ generalizing s with
  | nil => rfl
  | cons i l ih => simp only [List.cons_append, collect, ih, run_cons, List.append_assoc]

theorem collect_concat {α : Type} (out : σ → ι → List α) (s : σ) (l : List ι) (i : ι) :
    collect step out s (l ++ [i]) = collect step out s l ++ out (run step s l) i := by
  rw [collect_append]
  simp only [collect, List.append_nil]

/-- Every input of the run meets `ok` in the state that it comes to. -/
def Meets (step : σ → ι → σ) (ok : σ → ι → Prop) : σ → List ι → Prop
  | _, [] => True
  | s, i :: l => ok s i ∧ Meets step ok (step s i) l

variable {ok : σ → ι → Prop}

instance decidableMeets [∀ s i, Decidable (ok s i)] : ∀ s l, Decidable (Meets step ok s l)
  | _, [] => isTrue trivial
  | s, i :: l => @instDecidableAnd _ _ _ (decidableMeets (step s i) l)

theorem meets_append (s : σ) (l₁ l₂ : List ι) :
    Meets step ok s (l₁ ++ l₂) ↔ Meets step ok s l₁ ∧ Meets step ok (run step s l₁) l₂ := by
  induction l₁ generalizing s with
  | nil => simp [Meets]
  | cons i l ih => simp [Meets, ih, and_assoc]

theorem Meets.mono {ok' : σ → ι → Prop} (h : ∀ s i, ok s i → ok' s i) {s : σ} {l : List ι}
    (hl : Meets step ok s l) : Meets step ok' s l := by
  induction l generalizing s with
  | nil => trivial
  | cons i l ih => exact ⟨h s i hl.1, ih hl.2⟩

/-- Whatever a run splits at, the input there meets `ok` in the state that it
comes to. -/
theorem meets_iff_split (s : σ) (l : List ι) :
    Meets step ok s l ↔ ∀ l₁ i l₂, l = l₁ ++ i :: l₂ → ok (run step s l₁) i := by
  constructor
  · rintro h l₁ i l₂ rfl
    exact ((meets_append s l₁ (i :: l₂)).mp h).2.1
  · intro h
    induction l generalizing s with
    | nil => trivial
    | cons i l ih =>
      refine ⟨h [] i l rfl, ih (step s i) fun l₁ j l₂ heq => ?_⟩
      exact h (i :: l₁) j l₂ (congrArg (i :: ·) heq)

/-- An invariant that the inputs keep holds at the end of the run. -/
theorem invariant {inv : σ → Prop} (hstep : ∀ s i, inv s → inv (step s i)) {s : σ}
    (h : inv s) (l : List ι) : inv (run step s l) := by
  induction l generalizing s with
  | nil => exact h
  | cons i l ih => exact ih (hstep s i h)

/-- An invariant that the inputs keep when they meet `ok`. -/
theorem invariant_of_meets {inv : σ → Prop} (hstep : ∀ s i, inv s → ok s i → inv (step s i))
    {s : σ} (h : inv s) {l : List ι} (hl : Meets step ok s l) : inv (run step s l) := by
  induction l generalizing s with
  | nil => exact h
  | cons i l ih => exact ih (hstep s i h hl.1) hl.2

/-- Where `good` always holds and every input of the run meets `pre`, an
invariant that such an input keeps just when it meets `ok` holds in every state
of the run just when every input meets `ok`. -/
theorem invariant_iff_meets_of {good inv : σ → Prop} {pre : σ → ι → Prop}
    (hgood : ∀ s i, good s → good (step s i))
    (hstep : ∀ s i, good s → inv s → pre s i → (inv (step s i) ↔ ok s i)) {s : σ} (hg : good s)
    (h : inv s) {l : List ι} (hpre : Meets step pre s l) :
    (∀ l', l' <+: l → inv (run step s l')) ↔ Meets step ok s l := by
  induction l generalizing s with
  | nil =>
    refine ⟨fun _ => trivial, fun _ l' hl' => ?_⟩
    rw [List.prefix_nil.mp hl']
    exact h
  | cons i l ih =>
    have hkept := hstep s i hg h hpre.1
    constructor
    · intro hall
      have hone : inv (step s i) := hall [i] ((List.prefix_cons_inj i).mpr (List.nil_prefix))
      refine ⟨hkept.mp hone, (ih (hgood s i hg) hone hpre.2).mp ?_⟩
      intro l' hl'
      exact hall (i :: l') ((List.prefix_cons_inj i).mpr hl')
    · rintro ⟨hok, hrest⟩ l' hl'
      rcases List.prefix_cons_iff.mp hl' with rfl | ⟨l'', rfl, hl''⟩
      · exact h
      · exact (ih (hgood s i hg) (hkept.mpr hok) hpre.2).mpr hrest l'' hl''

/-- An invariant that an input keeps just when it meets `ok` holds in every
state of a run just when every input meets `ok`. -/
theorem invariant_iff_meets {inv : σ → Prop} (hstep : ∀ s i, inv s → (inv (step s i) ↔ ok s i))
    {s : σ} (h : inv s) (l : List ι) :
    (∀ l', l' <+: l → inv (run step s l')) ↔ Meets step ok s l := by
  have hall : ∀ (l : List ι) (s : σ), Meets step (fun _ _ => True) s l := by
    intro l
    induction l with
    | nil => exact fun _ => trivial
    | cons i l ih => exact fun s => ⟨trivial, ih (step s i)⟩
  exact @invariant_iff_meets_of _ _ step ok (fun _ => True) inv (fun _ _ => True)
    (fun _ _ _ => trivial) (fun s i _ hi _ => hstep s i hi) s trivial h l (hall l s)

/-- What holds of a state and the inputs that led to it, and that each input
of the run keeps, holds in every state of the run. -/
theorem invariant_along {inv : List ι → σ → Prop} {s : σ} {l : List ι} (h : inv [] s)
    (hstep : ∀ past i rest, l = past ++ i :: rest → inv past (run step s past) →
      inv (past ++ [i]) (step (run step s past) i)) {past : List ι} (hpast : past <+: l) :
    inv past (run step s past) := by
  induction past using List.reverseRecOn with
  | nil => exact h
  | append_singleton past i ih =>
    obtain ⟨rest, hl⟩ := hpast
    rw [List.append_assoc] at hl
    rw [run_concat]
    exact hstep past i rest hl.symm (ih ⟨i :: rest, hl⟩)

/-- A relation of a state to a later one, that each step is in, that each
run is in. -/
theorem relation {rel : σ → σ → Prop} (hrefl : ∀ s, rel s s)
    (htrans : ∀ s t u, rel s t → rel t u → rel s u) (hstep : ∀ s i, rel s (step s i))
    (s : σ) (l : List ι) : rel s (run step s l) := by
  induction l generalizing s with
  | nil => exact hrefl s
  | cons i l ih => exact htrans _ _ _ (hstep s i) (ih (step s i))

end runs
