-- The postcard wire format. A codec is a writer, a reader and the law that
-- the reader takes back what the writer put, whatever bytes follow it.
import IrohDrop.RustStd

open rust_std

namespace postcard

/-- Why a read failed. -/
inductive Error where
  | DeserializeUnexpectedEnd
  | DeserializeBadVarint
  | DeserializeBadBool
  | DeserializeBadUtf8
  | DeserializeBadOption
  | SerdeDeCustom
deriving DecidableEq, Repr

/-- A reader takes a value off the front of the input, and gives it with
what is left (`take_from_bytes`). -/
abbrev Reader (α : Type) := Bytes → Except Error (α × Bytes)

structure Codec (α : Type) where
  write : α → Bytes
  read : Reader α
  /-- The values that the format has room for. -/
  fits : α → Prop
  read_write : ∀ a rest, fits a → read (write a ++ rest) = .ok (a, rest)

namespace Codec

variable {α β : Type}

theorem read_write_nil (c : Codec α) {a : α} (h : c.fits a) :
    c.read (c.write a) = .ok (a, []) := by
  simpa using c.read_write a [] h

/-- No two values that fit are written the same. -/
theorem write_injective (c : Codec α) {a b : α} (ha : c.fits a) (hb : c.fits b)
    (h : c.write a = c.write b) : a = b := by
  have := c.read_write_nil ha
  rw [h, c.read_write_nil hb] at this
  simp only [Except.ok.injEq, Prod.mk.injEq, and_true] at this
  exact this.symm

end Codec

/-! ## Varints -/

/-- The loop of `varint_u16` and its wider twins: seven bits to a byte, low
bits first, at most `k` bytes. -/
def writeVarint : Nat → Nat → Bytes
  | 0, _ => []
  | k + 1, n =>
    if n < 128 then [UInt8.ofNat n]
    else UInt8.ofNat (n % 128 + 128) :: writeVarint k (n / 128)

/-- The loop of `try_take_varint_u16` and its wider twins. The last byte
that the width allows may not pass `last`. -/
def readVarint (last : Nat) : Nat → Reader Nat
  | 0, _ => .error .DeserializeBadVarint
  | _ + 1, [] => .error .DeserializeUnexpectedEnd
  | k + 1, b :: rest =>
    if b.toNat < 128 then
      if k = 0 ∧ last < b.toNat then .error .DeserializeBadVarint else .ok (b.toNat, rest)
    else
      match readVarint last k rest with
      | .ok (hi, rest) => .ok (b.toNat - 128 + 128 * hi, rest)
      | .error e => .error e

theorem readVarint_write (last : Nat) (hl : last < 128) (k n : Nat) (rest : Bytes)
    (h : n < (last + 1) * 128 ^ k) :
    readVarint last (k + 1) (writeVarint (k + 1) n ++ rest) = .ok (n, rest) := by
  induction k generalizing n with
  | zero =>
    have hn : n < 128 := by omega
    have hb : (UInt8.ofNat n).toNat = n := by simp; omega
    simp only [writeVarint, hn, if_true, List.singleton_append, readVarint, hb]
    rw [if_neg (by omega)]
  | succ k ih =>
    by_cases hn : n < 128
    · have hb : (UInt8.ofNat n).toNat = n := by simp; omega
      simp [writeVarint, hn, readVarint, hb]
    · have hb : (UInt8.ofNat (n % 128 + 128)).toNat = n % 128 + 128 := by simp; omega
      have hdiv : n / 128 < (last + 1) * 128 ^ k := by
        rw [Nat.div_lt_iff_lt_mul (by omega), Nat.mul_assoc, ← Nat.pow_succ]
        exact h
      rw [writeVarint, if_neg hn, List.cons_append, readVarint, hb, if_neg (by omega),
        ih _ hdiv]
      simp only [Except.ok.injEq, Prod.mk.injEq, and_true]
      omega

theorem writeVarint_length_le (k n : Nat) : (writeVarint k n).length ≤ k := by
  induction k generalizing n with
  | zero => simp [writeVarint]
  | succ k ih =>
    simp only [writeVarint]
    split
    · simp
    · simpa using ih (n / 128)

/-- A varint takes as many bytes as its value has base-128 digits. -/
theorem writeVarint_length_le_of_lt (k j n : Nat) (h : n < 128 ^ (j + 1)) :
    (writeVarint k n).length ≤ j + 1 := by
  induction k generalizing n j with
  | zero => simp [writeVarint]
  | succ k ih =>
    simp only [writeVarint]
    split
    · simp
    · rename_i hn
      cases j with
      | zero => simp at h; omega
      | succ j =>
        have hdiv : n / 128 < 128 ^ (j + 1) := by
          rw [Nat.div_lt_iff_lt_mul (by omega), ← Nat.pow_succ]
          exact h
        simpa using ih j (n / 128) hdiv

theorem writeVarint_length_pos (k n : Nat) : 0 < (writeVarint (k + 1) n).length := by
  simp only [writeVarint]
  split <;> simp

/-- The bytes that `usize` and `u64` values take. -/
def varintLen (n : Nat) : Nat := (writeVarint 10 n).length

/-! ## The codecs of the scalar types -/

namespace Codec

variable {α β : Type}

/-- A varint of at most `k + 1` bytes. -/
def varint (last k : Nat) (hl : last < 128) : Codec Nat where
  write := writeVarint (k + 1)
  read := readVarint last (k + 1)
  fits n := n < (last + 1) * 128 ^ k
  read_write n rest h := readVarint_write last hl k n rest h

/-- A value is written as the value that stands for it. -/
def imap (c : Codec α) (to' : α → β) (of' : β → α) (h : ∀ b, to' (of' b) = b) : Codec β where
  write b := c.write (of' b)
  read bs := match c.read bs with
    | .ok (a, rest) => .ok (to' a, rest)
    | .error e => .error e
  fits b := c.fits (of' b)
  read_write b rest hb := by rw [c.read_write _ _ hb]; simp [h]

def u16 : Codec UInt16 where
  write n := writeVarint 3 n.toNat
  read bs := match readVarint 3 3 bs with
    | .ok (n, rest) => .ok (UInt16.ofNat n, rest)
    | .error e => .error e
  fits _ := True
  read_write n rest _ := by
    rw [readVarint_write 3 (by omega) 2 _ _ (by have := n.toNat_lt; omega)]
    simp

def u32 : Codec UInt32 where
  write n := writeVarint 5 n.toNat
  read bs := match readVarint 15 5 bs with
    | .ok (n, rest) => .ok (UInt32.ofNat n, rest)
    | .error e => .error e
  fits _ := True
  read_write n rest _ := by
    rw [readVarint_write 15 (by omega) 4 _ _ (by have := n.toNat_lt; omega)]
    simp

def u64 : Codec UInt64 where
  write n := writeVarint 10 n.toNat
  read bs := match readVarint 1 10 bs with
    | .ok (n, rest) => .ok (UInt64.ofNat n, rest)
    | .error e => .error e
  fits _ := True
  read_write n rest _ := by
    rw [readVarint_write 1 (by omega) 9 _ _ (by have := n.toNat_lt; omega)]
    simp

/-- Lengths: `usize` has 64 bits on every target that runs a daemon. -/
def usize : Codec Nat := varint 1 9 (by omega)

@[simp] theorem u16_fits (n : UInt16) : u16.fits n := trivial
@[simp] theorem u32_fits (n : UInt32) : u32.fits n := trivial
@[simp] theorem u64_fits (n : UInt64) : u64.fits n := trivial
@[simp] theorem usize_fits (n : Nat) : usize.fits n ↔ n < 2 ^ 64 := Iff.rfl

def u8 : Codec UInt8 where
  write b := [b]
  read
    | [] => .error .DeserializeUnexpectedEnd
    | b :: rest => .ok (b, rest)
  fits _ := True
  read_write _ _ _ := rfl

def bool : Codec Bool where
  write b := [if b then 1 else 0]
  read
    | [] => .error .DeserializeUnexpectedEnd
    | b :: rest =>
      if b = 0 then .ok (false, rest)
      else if b = 1 then .ok (true, rest)
      else .error .DeserializeBadBool
  fits _ := True
  read_write b _ _ := by cases b <;> rfl

@[simp] theorem u8_fits (b : UInt8) : u8.fits b := trivial
@[simp] theorem bool_fits (b : Bool) : bool.fits b := trivial

/-! ## The codecs of the compound types -/

/-- Fields of a struct, one after the other. -/
def pair (c : Codec α) (d : Codec β) : Codec (α × β) where
  write p := c.write p.1 ++ d.write p.2
  read bs := match c.read bs with
    | .error e => .error e
    | .ok (a, rest) => match d.read rest with
      | .error e => .error e
      | .ok (b, rest) => .ok ((a, b), rest)
  fits p := c.fits p.1 ∧ d.fits p.2
  read_write p rest h := by
    rw [List.append_assoc, c.read_write _ _ h.1]
    simp only
    rw [d.read_write _ _ h.2]

/-- A field that was written is read, and the fields after it decide. -/
theorem pair_read_write (c : Codec α) (d : Codec β) {a : α} (ha : c.fits a) (rest : Bytes) :
    (pair c d).read (c.write a ++ rest) = match d.read rest with
      | .error e => .error e
      | .ok (b, rest) => .ok ((a, b), rest) := by
  simp only [pair, c.read_write a rest ha]

def option (c : Codec α) : Codec (Option α) where
  write
    | none => [0]
    | some a => 1 :: c.write a
  read
    | [] => .error .DeserializeUnexpectedEnd
    | b :: rest =>
      if b = 0 then .ok (none, rest)
      else if b = 1 then match c.read rest with
        | .error e => .error e
        | .ok (a, rest) => .ok (some a, rest)
      else .error .DeserializeBadOption
  fits o := ∀ a, o = some a → c.fits a
  read_write o rest h := by
    cases o with
    | none => rfl
    | some a => simp [c.read_write a rest (h a rfl)]

/-- `[u8; n]`: the bytes, with no length before them. -/
def fixed (n : Nat) : Codec (FixedBytes n) where
  write a := a.bytes
  read bs :=
    if h : (bs.take n).length = n then .ok (⟨bs.take n, h⟩, bs.drop n)
    else .error .DeserializeUnexpectedEnd
  fits _ := True
  read_write a rest _ := by
    have ht : (a.bytes ++ rest).take n = a.bytes := by simp
    have hd : (a.bytes ++ rest).drop n = rest := by simp
    rw [dif_pos (by rw [ht]; exact a.length_eq)]
    simp only [hd, Except.ok.injEq, Prod.mk.injEq, and_true]
    exact FixedBytes.ext ht

/-- `Vec<u8>`: the length, then the bytes. -/
def bytes : Codec Bytes where
  write b := usize.write b.length ++ b
  read bs := match usize.read bs with
    | .error e => .error e
    | .ok (n, rest) =>
      if rest.length < n then .error .DeserializeUnexpectedEnd
      else .ok (rest.take n, rest.drop n)
  fits b := b.length < 2 ^ 64
  read_write b rest h := by
    rw [List.append_assoc, usize.read_write _ _ h]
    simp

/-- `String`: its UTF-8 bytes, as `bytes`. -/
def string : Codec String where
  write s := bytes.write s.toByteArray.data.toList
  read bs := match bytes.read bs with
    | .error e => .error e
    | .ok (b, rest) => match String.fromUTF8? ⟨b.toArray⟩ with
      | none => .error .DeserializeBadUtf8
      | some s => .ok (s, rest)
  fits s := s.utf8ByteSize < 2 ^ 64
  read_write s rest h := by
    rw [bytes.read_write _ _ (by simpa [bytes] using h)]
    have hs : String.fromUTF8? ⟨s.toByteArray.data.toList.toArray⟩ = some s := by
      unfold String.fromUTF8?
      rw [dif_pos (by simpa using s.isValidUTF8)]
      rfl
    simp only [hs]

/-- One element after the other. -/
def writeAll (c : Codec α) : List α → Bytes
  | [] => []
  | a :: l => c.write a ++ writeAll c l

/-- `n` elements, one after the other. -/
def readAll (c : Codec α) : Nat → Reader (List α)
  | 0, bs => .ok ([], bs)
  | n + 1, bs => match c.read bs with
    | .error e => .error e
    | .ok (a, rest) => match readAll c n rest with
      | .error e => .error e
      | .ok (l, rest) => .ok (a :: l, rest)

theorem readAll_writeAll (c : Codec α) (l : List α) (rest : Bytes) (h : ∀ a ∈ l, c.fits a) :
    readAll c l.length (writeAll c l ++ rest) = .ok (l, rest) := by
  induction l with
  | nil => rfl
  | cons a l ih =>
    rw [List.length_cons, writeAll, List.append_assoc, readAll,
      c.read_write _ _ (h a (by simp))]
    simp only
    rw [ih (fun b hb => h b (List.mem_cons_of_mem _ hb))]

/-- `Vec<T>`: the number of elements, then the elements. -/
def list (c : Codec α) : Codec (List α) where
  write l := usize.write l.length ++ writeAll c l
  read bs := match usize.read bs with
    | .error e => .error e
    | .ok (n, rest) => readAll c n rest
  fits l := l.length < 2 ^ 64 ∧ ∀ a ∈ l, c.fits a
  read_write l rest h := by
    rw [List.append_assoc, usize.read_write _ _ h.1]
    exact readAll_writeAll c l rest h.2

/-- `BTreeMap<K, V>`: a sequence of entries, inserted as they are read. -/
def map [LinearOrder α] (c : Codec α) (d : Codec β) : Codec (BTreeMap α β) :=
  imap (list (pair c d)) BTreeMap.ofList BTreeMap.entries BTreeMap.ofList_entries

@[simp] theorem pair_fits (c : Codec α) (d : Codec β) (p : α × β) :
    (pair c d).fits p ↔ c.fits p.1 ∧ d.fits p.2 := Iff.rfl

@[simp] theorem fixed_fits (n : Nat) (a : FixedBytes n) : (fixed n).fits a := trivial

@[simp] theorem bytes_fits (b : Bytes) : bytes.fits b ↔ b.length < 2 ^ 64 := Iff.rfl

@[simp] theorem string_fits (s : String) : string.fits s ↔ s.utf8ByteSize < 2 ^ 64 := Iff.rfl

@[simp] theorem option_fits (c : Codec α) (o : Option α) :
    (option c).fits o ↔ ∀ a, o = some a → c.fits a := Iff.rfl

@[simp] theorem list_fits (c : Codec α) (l : List α) :
    (list c).fits l ↔ l.length < 2 ^ 64 ∧ ∀ a ∈ l, c.fits a := Iff.rfl

@[simp] theorem imap_fits (c : Codec α) (to' : α → β) (of' : β → α) (h) (b : β) :
    (imap c to' of' h).fits b ↔ c.fits (of' b) := Iff.rfl

@[simp] theorem map_fits [LinearOrder α] (c : Codec α) (d : Codec β) (m : BTreeMap α β) :
    (map c d).fits m ↔
      m.entries.length < 2 ^ 64 ∧ ∀ e ∈ m.entries, c.fits e.1 ∧ d.fits e.2 := Iff.rfl

/-! ## Sizes -/

@[simp] theorem fixed_write_length (n : Nat) (a : FixedBytes n) :
    ((fixed n).write a).length = n := a.length_eq

@[simp] theorem pair_write_length (c : Codec α) (d : Codec β) (p : α × β) :
    ((pair c d).write p).length = (c.write p.1).length + (d.write p.2).length := by
  simp [pair]

@[simp] theorem bytes_write_length (b : Bytes) :
    (bytes.write b).length = varintLen b.length + b.length := by
  simp [bytes, usize, varint, varintLen]

@[simp] theorem imap_write_length (c : Codec α) (to' : α → β) (of' : β → α) (h) (b : β) :
    ((imap c to' of' h).write b).length = (c.write (of' b)).length := rfl

theorem u16_write_length_le (n : UInt16) : (u16.write n).length ≤ 3 :=
  writeVarint_length_le 3 _

theorem u64_write_length_le (n : UInt64) : (u64.write n).length ≤ 10 :=
  writeVarint_length_le 10 _

theorem string_write_length (s : String) :
    (string.write s).length = varintLen s.utf8ByteSize + s.utf8ByteSize := by
  have hlen : s.toByteArray.data.toList.length = s.utf8ByteSize := by simp
  have hwrite : (string.write s).length = (bytes.write s.toByteArray.data.toList).length := rfl
  rw [hwrite, bytes_write_length, hlen]

theorem writeAll_length (c : Codec α) (l : List α) :
    (writeAll c l).length = (l.map (fun a => (c.write a).length)).sum := by
  induction l with
  | nil => rfl
  | cons a l ih => simp [writeAll, ih]

theorem list_write_length (c : Codec α) (l : List α) :
    ((list c).write l).length =
      varintLen l.length + (l.map (fun a => (c.write a).length)).sum := by
  simp [list, usize, varint, varintLen, writeAll_length]

/-! ## Short values -/

/-- Every value of fewer than 2^64 bytes reads back. -/
def Sized (c : Codec α) : Prop := ∀ a, (c.write a).length < 2 ^ 64 → c.fits a

theorem u8_sized : u8.Sized := fun _ _ => trivial

theorem u16_sized : u16.Sized := fun _ _ => trivial

theorem u32_sized : u32.Sized := fun _ _ => trivial

theorem u64_sized : u64.Sized := fun _ _ => trivial

theorem bool_sized : bool.Sized := fun _ _ => trivial

theorem fixed_sized (n : Nat) : (fixed n).Sized := fun _ _ => trivial

theorem bytes_sized : bytes.Sized := by
  intro b h
  rw [bytes_write_length] at h
  rw [bytes_fits]
  omega

theorem string_sized : string.Sized := by
  intro s h
  have h' : (bytes.write s.toByteArray.data.toList).length < 2 ^ 64 := h
  have hlen : s.toByteArray.data.toList.length = s.utf8ByteSize := by simp
  rw [bytes_write_length, hlen] at h'
  rw [string_fits]
  omega

theorem pair_sized {c : Codec α} {d : Codec β} (hc : c.Sized) (hd : d.Sized) :
    (pair c d).Sized := by
  intro p h
  rw [pair_write_length] at h
  exact ⟨hc p.1 (by omega), hd p.2 (by omega)⟩

theorem option_sized {c : Codec α} (hc : c.Sized) : (option c).Sized := by
  rintro o h a rfl
  apply hc a
  simp only [option, List.length_cons] at h
  omega

theorem imap_sized {c : Codec α} (hc : c.Sized) (to' : α → β) (of' : β → α) (h) :
    (imap c to' of' h).Sized := fun b hb => hc (of' b) hb

/-- A list is no longer than its bytes, when each element takes a byte. -/
theorem list_sized {c : Codec α} (hc : c.Sized) (hpos : ∀ a, 0 < (c.write a).length) :
    (list c).Sized := by
  intro l h
  rw [list_write_length] at h
  have hlen : l.length ≤ (l.map (fun a => (c.write a).length)).sum := by
    have := List.length_le_sum_of_one_le (l.map (fun a => (c.write a).length)) (by
      intro n hn
      obtain ⟨a, -, rfl⟩ := List.mem_map.mp hn
      exact hpos a)
    rwa [List.length_map] at this
  refine ⟨by omega, ?_⟩
  intro a ha
  have hle := List.single_le_sum (fun n _ => Nat.zero_le n) _ (List.mem_map_of_mem
    (f := fun a => (c.write a).length) ha)
  exact hc a (by omega)

theorem string_write_pos (s : String) : 0 < (string.write s).length := by
  have h : (string.write s).length =
      varintLen s.toByteArray.data.toList.length + s.toByteArray.data.toList.length :=
    bytes_write_length _
  have hpos : 0 < varintLen s.toByteArray.data.toList.length := writeVarint_length_pos 9 _
  rw [h]
  omega

theorem map_sized [LinearOrder α] {c : Codec α} {d : Codec β} (hc : c.Sized) (hd : d.Sized)
    (hpos : ∀ a, 0 < (c.write a).length) : (map c d).Sized := by
  refine imap_sized (list_sized (pair_sized hc hd) ?_) _ _ _
  intro p
  have := hpos p.1
  rw [pair_write_length]
  omega

end Codec

end postcard
