-- RFC 4648 base32 without padding: five bits to a symbol, high bits first,
-- the last symbol filled up with zeros.
import IrohDrop.RustStd

open rust_std

namespace base32

/-! ## Bits -/

/-- The low `w` bits of `n`, high bits first. -/
def bits : Nat → Nat → List Bool
  | 0, _ => []
  | w + 1, n => n.testBit w :: bits w n

def ofBits : List Bool → Nat
  | [] => 0
  | b :: l => 2 ^ l.length * b.toNat + ofBits l

@[simp] theorem bits_length (w n : Nat) : (bits w n).length = w := by
  induction w with
  | zero => rfl
  | succ w ih => simp [bits, ih]

theorem ofBits_lt (l : List Bool) : ofBits l < 2 ^ l.length := by
  induction l with
  | nil => simp [ofBits]
  | cons b l ih =>
    have hb : b.toNat ≤ 1 := Bool.toNat_le b
    have hm : 2 ^ l.length * b.toNat ≤ 2 ^ l.length := by
      simpa using Nat.mul_le_mul_left (2 ^ l.length) hb
    simp only [ofBits, List.length_cons, Nat.pow_succ]
    omega

/-- A bit above does not show in the bits below it. -/
theorem bits_add (v w a n : Nat) (h : n < 2 ^ w) (hv : v ≤ w) :
    bits v (2 ^ w * a + n) = bits v n := by
  induction v with
  | zero => rfl
  | succ v ih =>
    rw [bits, bits, ih (by omega), Nat.testBit_two_pow_mul_add a h, if_pos (by omega)]

theorem bits_ofBits (l : List Bool) : bits l.length (ofBits l) = l := by
  induction l with
  | nil => rfl
  | cons b l ih =>
    rw [List.length_cons, bits, ofBits, bits_add _ _ _ _ (ofBits_lt l) (Nat.le_refl _), ih,
      Nat.testBit_two_pow_mul_add _ (ofBits_lt l), if_neg (by omega), Nat.sub_self]
    cases b <;> rfl

theorem ofBits_bits (w n : Nat) (h : n < 2 ^ w) : ofBits (bits w n) = n := by
  apply Nat.eq_of_testBit_eq
  induction w generalizing n with
  | zero => intro i; simp at h; subst h; rfl
  | succ w ih =>
    intro i
    have hsplit : n = 2 ^ w * (n / 2 ^ w) + n % 2 ^ w := (Nat.div_add_mod n (2 ^ w)).symm
    have hmod : n % 2 ^ w < 2 ^ w := Nat.mod_lt _ (Nat.two_pow_pos w)
    have hlow : bits w n = bits w (n % 2 ^ w) := by
      conv_lhs => rw [hsplit]
      exact bits_add w w _ _ hmod (Nat.le_refl _)
    have hq : n / 2 ^ w < 2 := by
      rw [Nat.div_lt_iff_lt_mul (Nat.two_pow_pos w), ← Nat.pow_succ']
      exact h
    have hbit : (n.testBit w).toNat = n / 2 ^ w := by
      rw [Nat.testBit_eq_decide_div_mod_eq]
      rcases Nat.le_one_iff_eq_zero_or_eq_one.mp (Nat.le_of_lt_succ hq) with h0 | h0 <;> simp [h0]
    have hrest : ofBits (bits w (n % 2 ^ w)) = n % 2 ^ w := Nat.eq_of_testBit_eq (ih _ hmod)
    rw [bits, ofBits, bits_length, hbit, hlow, hrest, ← hsplit]

/-! ## Symbols and bytes -/

/-- Five bits to a symbol. -/
def toSymbols : List Bool → List Nat
  | a :: b :: c :: d :: e :: rest => ofBits [a, b, c, d, e] :: toSymbols rest
  | [] => []
  | short => [ofBits (short ++ List.replicate (5 - short.length) false)]

/-- Eight bits to a byte. What is left over at the end is no byte. -/
def toBytes : List Bool → Bytes
  | a :: b :: c :: d :: e :: f :: g :: h :: rest =>
    UInt8.ofNat (ofBits [a, b, c, d, e, f, g, h]) :: toBytes rest
  | _ => []

def byteBits (bs : Bytes) : List Bool := bs.flatMap (fun b => bits 8 b.toNat)

def symbolBits (ss : List Nat) : List Bool := ss.flatMap (bits 5)

theorem byteBits_length (bs : Bytes) : (byteBits bs).length = 8 * bs.length := by
  induction bs with
  | nil => rfl
  | cons b bs ih =>
    simp only [byteBits, List.flatMap_cons, List.length_append, bits_length, List.length_cons]
      at ih ⊢
    omega

theorem short_length {short : List Bool}
    (hlong : ∀ a b c d e rest, short = a :: b :: c :: d :: e :: rest → False) :
    short.length < 5 := by
  rcases short with _ | ⟨a, _ | ⟨b, _ | ⟨c, _ | ⟨d, _ | ⟨e, rest⟩⟩⟩⟩⟩
  case cons.cons.cons.cons.cons => exact (hlong a b c d e rest rfl).elim
  all_goals simp

/-- The symbols hold the bits that they were made of, and zeros at the end. -/
theorem symbolBits_toSymbols (l : List Bool) :
    symbolBits (toSymbols l) = l ++ List.replicate ((5 - l.length % 5) % 5) false := by
  fun_induction toSymbols l with
  | case1 a b c d e rest ih =>
    have h : bits 5 (ofBits [a, b, c, d, e]) = [a, b, c, d, e] := bits_ofBits [a, b, c, d, e]
    simp only [symbolBits, List.flatMap_cons, h] at ih ⊢
    rw [ih, List.length_cons, List.length_cons, List.length_cons, List.length_cons,
      List.length_cons, Nat.add_mod_right rest.length 5]
    rfl
  | case2 => rfl
  | case3 short hlong hnil =>
    have hlt := short_length hlong
    have hpos : 0 < short.length := List.length_pos_iff.mpr hnil
    have hl : (short ++ List.replicate (5 - short.length) false).length = 5 := by simp; omega
    have h := bits_ofBits (short ++ List.replicate (5 - short.length) false)
    rw [hl] at h
    simp only [symbolBits, List.flatMap_cons, List.flatMap_nil, List.append_nil, h]
    rw [Nat.mod_eq_of_lt hlt, Nat.mod_eq_of_lt (by omega)]

theorem toBytes_short (l : List Bool) (h : l.length < 8) : toBytes l = [] := by
  fun_cases toBytes l with
  | case1 => simp only [List.length_cons] at h; omega
  | case2 => rfl

theorem toBytes_byteBits (bs : Bytes) (rest : List Bool) (h : rest.length < 8) :
    toBytes (byteBits bs ++ rest) = bs := by
  induction bs with
  | nil => exact toBytes_short rest h
  | cons b bs ih =>
    have hb : ofBits (bits 8 b.toNat) = b.toNat := ofBits_bits 8 _ b.toNat_lt
    simp only [bits] at hb
    simp only [byteBits, List.flatMap_cons, bits, List.cons_append, List.nil_append, toBytes, hb,
      UInt8.ofNat_toNat, List.cons.injEq, true_and] at ih ⊢
    exact ih

theorem toSymbols_length (l : List Bool) : (toSymbols l).length = (l.length + 4) / 5 := by
  fun_induction toSymbols l with
  | case1 a b c d e rest ih => simp only [List.length_cons, ih]; omega
  | case2 => rfl
  | case3 short hlong hnil =>
    have hlt := short_length hlong
    have hpos : 0 < short.length := List.length_pos_iff.mpr hnil
    simp only [List.length_singleton]
    omega

theorem toSymbols_lt (l : List Bool) : ∀ s ∈ toSymbols l, s < 32 := by
  fun_induction toSymbols l with
  | case1 a b c d e rest ih =>
    intro s hs
    rcases List.mem_cons.mp hs with hs | hs
    · exact hs ▸ ofBits_lt [a, b, c, d, e]
    · exact ih s hs
  | case2 => simp
  | case3 short hlong hnil =>
    intro s hs
    have hlt := short_length hlong
    have := ofBits_lt (short ++ List.replicate (5 - short.length) false)
    rw [List.mem_singleton.mp hs]
    simp only [List.length_append, List.length_replicate] at this
    rw [Nat.add_sub_cancel' (by omega)] at this
    exact this

/-! ## Text -/

def alphabet : List Char := "ABCDEFGHIJKLMNOPQRSTUVWXYZ234567".toList

def symbolChar (s : Nat) : Char := alphabet.getD s 'A'

/-- What a character stands for, if it is of the alphabet. -/
def charSymbol (c : Char) : Option Nat :=
  if c ∈ alphabet then some (alphabet.idxOf c) else none

theorem charSymbol_symbolChar : ∀ s < 32, charSymbol (symbolChar s) = some s := by decide

inductive Error where
  | Symbol
  | Length
  | Trailing
deriving DecidableEq

def encode (bs : Bytes) : List Char := (toSymbols (byteBits bs)).map symbolChar

def decode (text : List Char) : Except Error Bytes :=
  match text.mapM charSymbol with
  | none => .error .Symbol
  | some symbols =>
    let l := symbolBits symbols
    if 5 ≤ l.length % 8 then .error .Length
    else if ∃ b ∈ l.drop (l.length - l.length % 8), b = true then .error .Trailing
    else .ok (toBytes l)

theorem mapM_charSymbol (ss : List Nat) (h : ∀ s ∈ ss, s < 32) :
    (ss.map symbolChar).mapM charSymbol = some ss := by
  induction ss with
  | nil => rfl
  | cons s ss ih =>
    rw [List.map_cons, List.mapM_cons, charSymbol_symbolChar s (h s (by simp)),
      ih (fun t ht => h t (List.mem_cons_of_mem _ ht))]
    rfl

theorem decode_encode (bs : Bytes) : decode (encode bs) = .ok bs := by
  have hbits := symbolBits_toSymbols (byteBits bs)
  have hlen := byteBits_length bs
  unfold decode encode
  rw [mapM_charSymbol _ (toSymbols_lt _)]
  simp only [hbits]
  generalize hp : (5 - (byteBits bs).length % 5) % 5 = p
  have hp5 : p < 5 := by omega
  have hl : (byteBits bs ++ List.replicate p false).length = 8 * bs.length + p := by
    simp [hlen]
  rw [hl, if_neg (by omega), if_neg, toBytes_byteBits _ _ (by simp; omega)]
  rintro ⟨b, hb, hbt⟩
  have hcut : 8 * bs.length + p - (8 * bs.length + p) % 8 = (byteBits bs).length := by omega
  rw [hcut, List.drop_left] at hb
  rw [List.eq_of_mem_replicate hb] at hbt
  cases hbt

theorem encode_length (bs : Bytes) : (encode bs).length = (8 * bs.length + 4) / 5 := by
  simp [encode, toSymbols_length, byteBits_length]

theorem encode_mem (bs : Bytes) : ∀ c ∈ encode bs, c ∈ alphabet := by
  have hall : ∀ s < 32, symbolChar s ∈ alphabet := by decide
  intro c hc
  obtain ⟨s, hs, rfl⟩ := List.mem_map.mp hc
  exact hall s (toSymbols_lt _ s hs)

end base32
