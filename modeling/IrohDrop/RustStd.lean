-- What the code takes from the Rust standard library: early returns, byte
-- arrays of a fixed size, hash maps and ordered maps.
import Mathlib

namespace rust_std

abbrev Bytes := List UInt8

/-! ## Early returns -/

section Results

variable {ε α β : Type}

/-- `if !c { return Err(e) }`. -/
def ensure (c : Prop) [Decidable c] (e : ε) : Except ε Unit :=
  if c then .ok () else .error e

@[simp] theorem ensure_eq_ok {c : Prop} [Decidable c] {e : ε} {u : Unit} :
    ensure c e = .ok u ↔ c := by
  unfold ensure
  split <;> simp_all

/-- `o.ok_or(e)`. -/
def ok_or (o : Option α) (e : ε) : Except ε α :=
  match o with
  | some a => .ok a
  | none => .error e

@[simp] theorem ok_or_eq_ok {o : Option α} {e : ε} {a : α} : ok_or o e = .ok a ↔ o = some a := by
  cases o <;> simp [ok_or]

/-- A call with `?` gives a value only when each part of it did. -/
theorem bind_eq_ok {x : Except ε α} {f : α → Except ε β} {b : β} :
    x >>= f = .ok b ↔ ∃ a, x = .ok a ∧ f a = .ok b := by
  cases x <;> simp [bind, Except.bind]

/-- A call that gave `a` gave it together with the state after. -/
theorem eq_pair {p : α × β} {a : α} (h : p.1 = a) : p = (a, p.2) := h ▸ rfl

/-- `for a in l { f(a)? }`. -/
def check_all (f : α → Except ε Unit) : List α → Except ε Unit
  | [] => .ok ()
  | a :: l => do
    f a
    check_all f l

/-- A loop of checks passes when each check does. -/
theorem check_all_eq_ok {f : α → Except ε Unit} {l : List α} {u : Unit} :
    check_all f l = .ok u ↔ ∀ a ∈ l, f a = .ok () := by
  induction l with
  | nil => simp [check_all]
  | cons a l ih => simp [check_all, bind_eq_ok, ih, Unique.exists_iff]

end Results

/-! ## Lists -/

theorem forall₂_of_mem {α β : Type} {r : α → β → Prop} {l : List α} {l' : List β}
    (h : List.Forall₂ r l l') {b : β} (hb : b ∈ l') : ∃ a ∈ l, r a b := by
  induction h with
  | nil => cases hb
  | cons hr _ ih =>
    rcases List.mem_cons.mp hb with rfl | hb
    · exact ⟨_, List.mem_cons_self, hr⟩
    · obtain ⟨a, ha, hr⟩ := ih hb
      exact ⟨a, List.mem_cons_of_mem _ ha, hr⟩

theorem mapM_eq_some {α β : Type} {f : α → Option β} {values : List α} {results : List β} :
    values.mapM f = some results ↔ List.Forall₂ (fun a b => f a = some b) values results := by
  induction values generalizing results with
  | nil => simp [eq_comm]
  | cons value values ih =>
    simp only [List.mapM_cons, Option.bind_eq_bind, Option.bind_eq_some_iff, ih,
      List.forall₂_cons_left_iff]
    constructor
    · rintro ⟨first, hfirst, rest, hrest, hresults⟩
      exact ⟨first, rest, hfirst, hrest, (Option.some.inj hresults).symm⟩
    · rintro ⟨first, rest, hfirst, hrest, rfl⟩
      exact ⟨first, hfirst, rest, hrest, rfl⟩

/-- What succeeds on each value succeeds on the list. -/
theorem mapM_isSome {α β : Type} {f : α → Option β} {values : List α}
    (h : ∀ a ∈ values, ∃ b, f a = some b) : ∃ results, values.mapM f = some results := by
  induction values with
  | nil => exact ⟨[], rfl⟩
  | cons value values ih =>
    obtain ⟨first, hfirst⟩ := h value List.mem_cons_self
    obtain ⟨rest, hrest⟩ := ih (fun a ha => h a (List.mem_cons_of_mem _ ha))
    exact ⟨first :: rest, by simp [List.mapM_cons, hfirst, hrest]⟩

/-! ## Byte arrays of a fixed size -/

/-- `[u8; n]`: the length is part of the value. -/
structure FixedBytes (n : Nat) where
  bytes : Bytes
  length_eq : bytes.length = n
deriving DecidableEq

namespace FixedBytes

@[simp] theorem length_bytes {n : Nat} (a : FixedBytes n) : a.bytes.length = n := a.length_eq

@[ext] theorem ext {n : Nat} {a b : FixedBytes n} (h : a.bytes = b.bytes) : a = b := by
  cases a; cases b; simp_all

/-- `try_into`: a slice of the right length is an array. -/
def ofList? (n : Nat) (l : Bytes) : Option (FixedBytes n) :=
  if h : l.length = n then some ⟨l, h⟩ else none

@[simp] theorem ofList?_bytes {n : Nat} (a : FixedBytes n) : ofList? n a.bytes = some a := by
  simp [ofList?]

/-- `[b; n]`. -/
def fill (n : Nat) (b : UInt8) : FixedBytes n := ⟨List.replicate n b, by simp⟩

def digits {n : Nat} (a : FixedBytes n) : List Nat := a.bytes.map UInt8.toNat

theorem digits_injective (n : Nat) : Function.Injective (digits (n := n)) := by
  intro a b h
  apply ext
  exact List.map_injective_iff.mpr (fun _ _ => UInt8.toNat_inj.mp) h

/-- Byte arrays compare byte by byte. -/
instance (n : Nat) : LinearOrder (FixedBytes n) := LinearOrder.lift' digits (digits_injective n)

/-- Zeros come before all other bytes. -/
theorem fill_zero_le {n : Nat} (b : FixedBytes n) : fill n 0 ≤ b := by
  have hzeros : ∀ l : List Nat, List.replicate l.length 0 ≤ l := by
    intro l
    induction l with
    | nil => exact le_refl _
    | cons x l ih =>
      rw [List.length_cons, List.replicate_succ]
      rcases Nat.eq_zero_or_pos x with rfl | hx
      · exact List.cons_le_cons 0 ih
      · exact le_of_lt (List.Lex.rel hx)
  have hdigits : (fill n 0).digits = List.replicate b.digits.length 0 := by
    simp [digits, fill, b.length_eq]
  change (fill n 0).digits ≤ b.digits
  rw [hdigits]
  exact hzeros b.digits

end FixedBytes

/-! ## Hash maps -/

/-- A hash map. The order of the entries is the iteration order, which the
code never relies on. -/
abbrev HashMap (κ ν : Type) := AList (fun _ : κ => ν)

namespace HashMap

variable {κ ν : Type} [DecidableEq κ]

def len (m : HashMap κ ν) : Nat := m.keys.length

/-- `entry(k).or_default()` with a change, or `get_mut(k)` on a key that is
there. -/
def update (m : HashMap κ ν) (k : κ) (new : ν) (f : ν → ν) : HashMap κ ν :=
  m.insert k (f ((m.lookup k).getD new))

/-- `if let Some(v) = get_mut(k) { .. }`. -/
def modify (m : HashMap κ ν) (k : κ) (f : ν → ν) : HashMap κ ν :=
  match m.lookup k with
  | some v => m.insert k (f v)
  | none => m

theorem len_insert (m : HashMap κ ν) (k : κ) (v : ν) :
    len (m.insert k v) = if k ∈ m then len m else len m + 1 := by
  unfold len
  rw [AList.keys_insert, List.length_cons]
  split
  · rename_i h
    have := List.length_erase_of_mem (AList.mem_keys.mp h)
    have hpos := List.length_pos_of_mem (AList.mem_keys.mp h)
    omega
  · rename_i h
    rw [List.erase_of_not_mem (fun hk => h (AList.mem_keys.mpr hk))]

theorem len_erase (m : HashMap κ ν) (k : κ) :
    len (m.erase k) = if k ∈ m then len m - 1 else len m := by
  unfold len
  rw [AList.keys_erase]
  split
  · rename_i h
    exact List.length_erase_of_mem (AList.mem_keys.mp h)
  · rename_i h
    rw [List.erase_of_not_mem (fun hk => h (AList.mem_keys.mpr hk))]

theorem lookup_insert' (m : HashMap κ ν) (k j : κ) (v : ν) :
    (m.insert k v).lookup j = if j = k then some v else m.lookup j := by
  split
  · rename_i h
    subst h
    exact AList.lookup_insert m
  · rename_i h
    exact AList.lookup_insert_ne h

theorem lookup_erase' (m : HashMap κ ν) (k j : κ) :
    (m.erase k).lookup j = if j = k then none else m.lookup j := by
  split
  · rename_i h
    subst h
    exact AList.lookup_erase j m
  · rename_i h
    exact AList.lookup_erase_ne h

theorem lookup_modify (m : HashMap κ ν) (k j : κ) (f : ν → ν) :
    (m.modify k f).lookup j = if j = k then (m.lookup k).map f else m.lookup j := by
  unfold modify
  rcases h : m.lookup k with _ | v
  · by_cases hj : j = k
    · subst hj
      simp [h]
    · simp [hj]
  · simp only [lookup_insert', Option.map_some]

/-- Changing a value in place brings no key in, and takes none out. -/
theorem mem_modify (m : HashMap κ ν) (k j : κ) (f : ν → ν) : j ∈ m.modify k f ↔ j ∈ m := by
  unfold modify
  rcases h : m.lookup k with _ | v
  · exact Iff.rfl
  · have hk : k ∈ m := AList.lookup_isSome.mp (by rw [h]; rfl)
    rw [AList.mem_insert]
    constructor
    · rintro (rfl | hj)
      · exact hk
      · exact hj
    · exact .inr

theorem len_modify (m : HashMap κ ν) (k : κ) (f : ν → ν) : len (m.modify k f) = len m := by
  unfold modify
  rcases h : m.lookup k with _ | v
  · rfl
  · simp only
    rw [len_insert, if_pos (AList.lookup_isSome.mp (by rw [h]; rfl))]

/-- A map whose keys are all in a list is no longer than the list has
different members. -/
theorem len_le_card (m : HashMap κ ν) {l : List κ} (h : ∀ k ∈ m, k ∈ l) :
    len m ≤ l.toFinset.card := by
  have hsub : m.keys.toFinset ⊆ l.toFinset := by
    intro k hk
    rw [List.mem_toFinset] at hk ⊢
    exact h k (AList.mem_keys.mpr hk)
  have hcard := Finset.card_le_card hsub
  rwa [List.toFinset_card_of_nodup m.keys_nodup] at hcard

theorem len_eq_card (m : HashMap κ ν) {l : List κ} (h : ∀ k, k ∈ m ↔ k ∈ l) :
    len m = l.toFinset.card := by
  have hkeys : m.keys.toFinset = l.toFinset := by
    ext k
    rw [List.mem_toFinset, List.mem_toFinset, ← h, AList.mem_keys]
  rw [← hkeys, List.toFinset_card_of_nodup m.keys_nodup]
  rfl

/-- One member that is no key makes the list longer than the map. -/
theorem len_lt_card (m : HashMap κ ν) {l : List κ} (h : ∀ k ∈ m, k ∈ l) {k : κ} (hk : k ∈ l)
    (hnew : k ∉ m) : len m < l.toFinset.card := by
  have hsub : m.keys.toFinset ⊂ l.toFinset := by
    refine Finset.ssubset_iff_of_subset (fun j hj => ?_) |>.mpr ⟨k, List.mem_toFinset.mpr hk, ?_⟩
    · rw [List.mem_toFinset] at hj ⊢
      exact h j (AList.mem_keys.mpr hj)
    · rw [List.mem_toFinset]
      exact fun hmem => hnew (AList.mem_keys.mpr hmem)
  have hcard := Finset.card_lt_card hsub
  rwa [List.toFinset_card_of_nodup m.keys_nodup] at hcard

/-- The number of values with some property. -/
def count (m : HashMap κ ν) (p : ν → Bool) : Nat := m.entries.countP (fun e => p e.2)

theorem count_insert_new (m : HashMap κ ν) {k : κ} (h : k ∉ m) (v : ν) (p : ν → Bool) :
    count (m.insert k v) p = count m p + if p v then 1 else 0 := by
  unfold count
  rw [AList.entries_insert_of_notMem h, List.countP_cons]

/-- One value less is counted once the key is gone. -/
theorem count_erase (m : HashMap κ ν) {k : κ} {v : ν} (h : m.lookup k = some v)
    (p : ν → Bool) : count (m.erase k) p + (if p v then 1 else 0) = count m p := by
  have hlookup : v ∈ m.entries.dlookup k := h
  have hmem : k ∈ m.entries.keys := List.dlookup_isSome.mp (Option.isSome_of_mem hlookup)
  obtain ⟨w, l₁, l₂, -, hentries, hrest⟩ := List.exists_of_kerase hmem
  have hw : w = v := by
    have hother : w ∈ m.entries.dlookup k :=
      (List.mem_dlookup_iff m.nodupKeys).mpr (by rw [hentries]; simp)
    exact Option.mem_unique hother hlookup
  subst hw
  have herase : (m.erase k).entries = l₁ ++ l₂ := hrest
  unfold count
  rw [herase, hentries, List.countP_append, List.countP_append, List.countP_cons]
  simp only
  omega

theorem count_insert_old (m : HashMap κ ν) {k : κ} {v : ν} (h : m.lookup k = some v) (v' : ν)
    (p : ν → Bool) (hp : p v' = p v) : count (m.insert k v') p = count m p := by
  have hentries : (m.insert k v').entries = ⟨k, v'⟩ :: (m.erase k).entries := rfl
  rw [← count_erase m h p]
  unfold count
  rw [hentries, List.countP_cons, hp]

theorem count_all (m : HashMap κ ν) {p : ν → Bool} (h : ∀ k v, m.lookup k = some v → p v = true) :
    count m p = len m := by
  have hall : ∀ e ∈ m.entries, p e.2 = true := by
    intro e he
    exact h e.1 e.2 ((List.mem_dlookup_iff m.nodupKeys).mpr he)
  rw [count, List.countP_eq_length.mpr hall]
  exact (List.length_map _).symm

/-- The values that are counted sit under different keys. -/
theorem count_lt_card (m : HashMap κ ν) (p : ν → Bool) {l : List κ}
    (h : ∀ k v, m.lookup k = some v → p v = true → k ∈ l) {k : κ} (hk : k ∈ l) (hnew : k ∉ m) :
    count m p < l.toFinset.card := by
  have hkeys : (m.entries.filter (fun e => p e.2)).map Sigma.fst ⊆ l := by
    intro j hj
    obtain ⟨e, he, rfl⟩ := List.mem_map.mp hj
    obtain ⟨hmem, hp⟩ := List.mem_filter.mp he
    exact h e.1 e.2 ((List.mem_dlookup_iff m.nodupKeys).mpr hmem) hp
  have hnodup : ((m.entries.filter (fun e => p e.2)).map Sigma.fst).Nodup :=
    List.Nodup.sublist (List.filter_sublist.map Sigma.fst) m.nodupKeys
  have hsub : ((m.entries.filter (fun e => p e.2)).map Sigma.fst).toFinset ⊂ l.toFinset := by
    refine Finset.ssubset_iff_of_subset (fun j hj => ?_) |>.mpr ⟨k, List.mem_toFinset.mpr hk, ?_⟩
    · exact List.mem_toFinset.mpr (hkeys (List.mem_toFinset.mp hj))
    · intro hmem
      obtain ⟨e, he, rfl⟩ := List.mem_map.mp (List.mem_toFinset.mp hmem)
      have hentry := (List.mem_filter.mp he).1
      exact hnew (AList.mem_keys.mpr (List.mem_keys_of_mem hentry))
  have hcard := Finset.card_lt_card hsub
  rw [List.toFinset_card_of_nodup hnodup, List.length_map] at hcard
  rw [count, List.countP_eq_length_filter]
  exact hcard

end HashMap

/-- A hash set is a map to nothing. -/
abbrev HashSet (κ : Type) := HashMap κ Unit

/-! ## Ordered maps -/

/-- `BTreeMap`: the entries in strictly ascending order of key. -/
structure BTreeMap (κ ν : Type) [LinearOrder κ] where
  entries : List (κ × ν)
  sorted : (entries.map Prod.fst).Pairwise (· < ·)

namespace BTreeMap

variable {κ ν : Type} [LinearOrder κ]

@[ext] theorem ext {a b : BTreeMap κ ν} (h : a.entries = b.entries) : a = b := by
  cases a; cases b; simp_all

instance [DecidableEq ν] : DecidableEq (BTreeMap κ ν) := fun a b =>
  if h : a.entries = b.entries then isTrue (ext h) else isFalse (fun e => h (e ▸ rfl))

instance : EmptyCollection (BTreeMap κ ν) := ⟨⟨[], by simp⟩⟩

def len (m : BTreeMap κ ν) : Nat := m.entries.length

/-- The entries after an insert: a key that is there gets the new value. -/
def insertEntry (k : κ) (v : ν) : List (κ × ν) → List (κ × ν)
  | [] => [(k, v)]
  | e :: es =>
    if k < e.1 then (k, v) :: e :: es
    else if k = e.1 then (k, v) :: es
    else e :: insertEntry k v es

theorem mem_insertEntry {k : κ} {v : ν} {l : List (κ × ν)} {x : κ}
    (h : x ∈ (insertEntry k v l).map Prod.fst) : x = k ∨ x ∈ l.map Prod.fst := by
  induction l with
  | nil => simpa [insertEntry] using h
  | cons e es ih =>
    simp only [insertEntry] at h
    split at h
    · simpa using h
    · split at h
      · rename_i hk
        simp only [List.map_cons, List.mem_cons] at h ⊢
        tauto
      · simp only [List.map_cons, List.mem_cons] at h ⊢
        rcases h with h | h
        · exact Or.inr (Or.inl h)
        · exact (ih h).imp id Or.inr

theorem insertEntry_sorted (k : κ) (v : ν) (l : List (κ × ν))
    (h : (l.map Prod.fst).Pairwise (· < ·)) :
    ((insertEntry k v l).map Prod.fst).Pairwise (· < ·) := by
  induction l with
  | nil => simp [insertEntry]
  | cons e es ih =>
    simp only [List.map_cons, List.pairwise_cons] at h
    obtain ⟨hlt, hes⟩ := h
    simp only [insertEntry]
    split
    · rename_i hk
      simp only [List.map_cons, List.pairwise_cons]
      refine ⟨?_, hlt, hes⟩
      intro x hx
      rcases List.mem_cons.mp hx with hx | hx
      · exact hx ▸ hk
      · exact lt_trans hk (hlt x hx)
    · split
      · rename_i hk
        simp only [List.map_cons, List.pairwise_cons]
        exact ⟨fun x hx => hk ▸ hlt x hx, hes⟩
      · rename_i h1 h2
        simp only [List.map_cons, List.pairwise_cons]
        refine ⟨?_, ih hes⟩
        intro x hx
        rcases mem_insertEntry hx with hx | hx
        · exact hx ▸ lt_of_le_of_ne (not_lt.mp h1) (Ne.symm h2)
        · exact hlt x hx

def insert (m : BTreeMap κ ν) (k : κ) (v : ν) : BTreeMap κ ν :=
  ⟨insertEntry k v m.entries, insertEntry_sorted k v m.entries m.sorted⟩

/-- Entries inserted one after the other, as a map is read from the wire. -/
def ofList (l : List (κ × ν)) : BTreeMap κ ν :=
  l.foldl (fun m e => m.insert e.1 e.2) ∅

/-- An entry past every key goes to the end. -/
theorem insertEntry_last (k : κ) (v : ν) (l : List (κ × ν))
    (h : ∀ x ∈ l.map Prod.fst, x < k) : insertEntry k v l = l ++ [(k, v)] := by
  induction l with
  | nil => rfl
  | cons e es ih =>
    have hk : e.1 < k := h e.1 (by simp)
    simp only [insertEntry, not_lt_of_gt hk, ne_of_gt hk, if_false]
    rw [ih (fun x hx => h x (List.mem_cons_of_mem _ hx)), List.cons_append]

/-- Entries that are already in order are taken as they stand. -/
theorem foldl_insert_sorted (l : List (κ × ν)) (m : BTreeMap κ ν)
    (h : ((m.entries ++ l).map Prod.fst).Pairwise (· < ·)) :
    (l.foldl (fun m e => m.insert e.1 e.2) m).entries = m.entries ++ l := by
  induction l generalizing m with
  | nil => simp
  | cons e es ih =>
    have hlast : (m.insert e.1 e.2).entries = m.entries ++ [e] := by
      apply insertEntry_last
      intro x hx
      rw [List.map_append, List.pairwise_append] at h
      exact h.2.2 x hx e.1 (by simp)
    rw [List.foldl_cons, ih _ (by rw [hlast]; simpa using h), hlast]
    simp

theorem mem_insertEntry_iff {k : κ} {v : ν} {l : List (κ × ν)} {x : κ} :
    x ∈ (insertEntry k v l).map Prod.fst ↔ x = k ∨ x ∈ l.map Prod.fst := by
  refine ⟨mem_insertEntry, ?_⟩
  induction l with
  | nil => simp [insertEntry]
  | cons e es ih =>
    intro h
    simp only [insertEntry]
    split
    · simpa using h
    · split
      · rename_i hk
        simp only [List.map_cons, List.mem_cons] at h ⊢
        rcases h with h | h | h
        · exact .inl h
        · exact .inl (h.trans hk.symm)
        · exact .inr h
      · simp only [List.map_cons, List.mem_cons] at h ⊢
        rcases h with h | h | h
        · exact .inr (ih (.inl h))
        · exact .inl h
        · exact .inr (ih (.inr h))

/-- The keys of a map are those of the entries that went in. -/
theorem mem_ofList {l : List (κ × ν)} {x : κ} :
    x ∈ (ofList l).entries.map Prod.fst ↔ x ∈ l.map Prod.fst := by
  suffices hgo : ∀ m : BTreeMap κ ν,
      x ∈ (l.foldl (fun m e => m.insert e.1 e.2) m).entries.map Prod.fst ↔
        x ∈ m.entries.map Prod.fst ∨ x ∈ l.map Prod.fst by
    refine (hgo ∅).trans ?_
    simp only [List.map_nil, List.not_mem_nil, false_or,
      show (∅ : BTreeMap κ ν).entries = [] from rfl]
  induction l with
  | nil => simp
  | cons e es ih =>
    intro m
    rw [List.foldl_cons, ih, List.map_cons, List.mem_cons]
    have hinsert : x ∈ (m.insert e.1 e.2).entries.map Prod.fst ↔
        x = e.1 ∨ x ∈ m.entries.map Prod.fst := mem_insertEntry_iff
    rw [hinsert]
    tauto

theorem ofList_entries (m : BTreeMap κ ν) : ofList m.entries = m := by
  apply ext
  exact foldl_insert_sorted m.entries ∅ m.sorted

end BTreeMap

end rust_std
