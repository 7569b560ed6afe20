-- The names that the daemon gives to its drops and tasks: a letter and a number
-- (service.rs).
import IrohDrop.Inventory

namespace iroh_drop

/-- The digits of a number tell it. -/
theorem number_text_inj {n m : UInt64} (h : (toString n).toList = (toString m).toList) : n = m := by
  have hdigits : Nat.toDigits 10 n.toNat = Nat.toDigits 10 m.toNat := by
    simpa [toString] using h
  have hvalue := congrArg (Nat.ofDigitChars 10 · 0) hdigits
  simp only [Nat.ofDigitChars_ten_toDigits] at hvalue
  exact UInt64.toNat_inj.mp hvalue

theorem task_id_inj {n m : UInt64} (h : s!"t{n}" = s!"t{m}") : n = m := by
  refine number_text_inj ?_
  have hlist := congrArg String.toList h
  simpa [toString] using hlist

theorem toNat_max (n m : UInt64) : (max n m).toNat = max n.toNat m.toNat := by
  have hmax : max n m = if n ≤ m then m else n := rfl
  rw [hmax, Nat.max_def]
  simp only [UInt64.le_iff_toNat_le]
  split <;> rfl

/-- What a number is written with reads back as it. -/
theorem decimal_digits {digits : List Char} (h : ∀ c ∈ digits, c.isDigit = true) (value : Nat) :
    decimal digits value = some (Nat.ofDigitChars 10 digits value) := by
  induction digits generalizing value with
  | nil => simp [decimal]
  | cons c rest ih =>
    have hc : '0' ≤ c ∧ c ≤ '9' := by
      simpa [Char.isDigit, Char.le_def] using h c (List.mem_cons_self ..)
    rw [decimal, if_pos hc, ih fun d hd => h d (List.mem_cons_of_mem _ hd), Nat.ofDigitChars_cons]

theorem parse_u64_digits (n : UInt64) : parse_u64 (toString n) = some n.toNat := by
  have hlist : (toString n).toList = Nat.toDigits 10 n.toNat := by simp [toString]
  have hdigits : ∀ c ∈ Nat.toDigits 10 n.toNat, c.isDigit = true := fun c hc =>
    Nat.isDigit_of_mem_toDigits (by decide) (by decide) hc
  have hplus : ∀ rest, Nat.toDigits 10 n.toNat ≠ '+' :: rest := by
    intro rest heq
    have hmem := hdigits '+' (heq ▸ List.mem_cons_self ..)
    cases hmem
  have hne : Nat.toDigits 10 n.toNat ≠ [] := Nat.toDigits_ne_nil
  unfold parse_u64
  rw [hlist]
  dsimp only
  split
  · rename_i rest heq
    exact absurd heq (hplus rest)
  · rw [if_neg hne, decimal_digits hdigits, Nat.ofDigitChars_ten_toDigits]
    simp [n.toNat_lt]

end iroh_drop
