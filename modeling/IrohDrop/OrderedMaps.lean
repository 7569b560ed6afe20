-- What an ordered map holds after an insert and after a removal, and how its entries sort by
-- something else than their keys.
import IrohDrop.RustStd

namespace rust_std

namespace BTreeMap

variable {κ ν : Type} [LinearOrder κ]

/-- A key has one value. -/
theorem value_unique (m : BTreeMap κ ν) {k : κ} {v w : ν} (hv : (k, v) ∈ m.entries)
    (hw : (k, w) ∈ m.entries) : v = w := by
  have hnodup : (m.entries.map Prod.fst).Nodup := m.sorted.imp ne_of_lt
  exact (Prod.mk.inj (List.inj_on_of_nodup_map hnodup hv hw rfl)).2

theorem mem_insertEntry_entries {k j : κ} {v w : ν} {l : List (κ × ν)}
    (hl : (l.map Prod.fst).Pairwise (· < ·)) :
    (j, w) ∈ insertEntry k v l ↔ j = k ∧ w = v ∨ j ≠ k ∧ (j, w) ∈ l := by
  induction l with
  | nil => simp [insertEntry]
  | cons e es ih =>
    rw [List.map_cons, List.pairwise_cons] at hl
    obtain ⟨hfirst, hrest⟩ := hl
    have hlater : ∀ {x : κ} {y : ν}, (x, y) ∈ es → e.1 < x := fun {x y} hmem =>
      hfirst x (List.mem_map.mpr ⟨(x, y), hmem, rfl⟩)
    rw [insertEntry]
    split
    · rename_i hlt
      have hother : (j, w) ∈ e :: es → j ≠ k := by
        rintro hmem rfl
        rcases List.mem_cons.mp hmem with rfl | hmem
        · exact lt_irrefl _ hlt
        · exact lt_asymm hlt (hlater hmem)
      rw [List.mem_cons, Prod.mk.injEq]
      constructor
      · rintro (hsame | hmem)
        · exact .inl hsame
        · exact .inr ⟨hother hmem, hmem⟩
      · rintro (hsame | ⟨-, hmem⟩)
        · exact .inl hsame
        · exact .inr hmem
    · split
      · rename_i hk
        rw [List.mem_cons, List.mem_cons, Prod.mk.injEq]
        constructor
        · rintro (hsame | hmem)
          · exact .inl hsame
          · refine .inr ⟨?_, .inr hmem⟩
            rintro rfl
            exact absurd (hlater hmem) (by rw [hk]; exact lt_irrefl _)
        · rintro (hsame | ⟨hne, rfl | hmem⟩)
          · exact .inl hsame
          · exact absurd hk.symm hne
          · exact .inr hmem
      · rename_i hk
        rw [List.mem_cons, List.mem_cons, ih hrest]
        constructor
        · rintro (rfl | hsame | ⟨hne, hmem⟩)
          · exact .inr ⟨Ne.symm hk, .inl rfl⟩
          · exact .inl hsame
          · exact .inr ⟨hne, .inr hmem⟩
        · rintro (hsame | ⟨hne, rfl | hmem⟩)
          · exact .inr (.inl hsame)
          · exact .inl rfl
          · exact .inr (.inr ⟨hne, hmem⟩)

theorem mem_insert {m : BTreeMap κ ν} {k j : κ} {v w : ν} :
    (j, w) ∈ (m.insert k v).entries ↔ j = k ∧ w = v ∨ j ≠ k ∧ (j, w) ∈ m.entries :=
  mem_insertEntry_entries m.sorted

def remove (m : BTreeMap κ ν) (k : κ) : BTreeMap κ ν :=
  ⟨m.entries.filter fun e => e.1 ≠ k, m.sorted.sublist (List.filter_sublist.map Prod.fst)⟩

theorem mem_remove {m : BTreeMap κ ν} {k j : κ} {w : ν} :
    (j, w) ∈ (m.remove k).entries ↔ j ≠ k ∧ (j, w) ∈ m.entries := by
  change (j, w) ∈ m.entries.filter _ ↔ _
  rw [List.mem_filter, decide_eq_true_eq, and_comm]

/-! ## Sorting the entries by their values -/

section Sorting

variable {β : Type} [LinearOrder β] (rank : ν → β)

/-- The order of the ranks, and of the keys where the ranks are the same. -/
def Before (a b : κ × ν) : Prop := rank a.2 < rank b.2 ∨ rank a.2 = rank b.2 ∧ a.1 < b.1

variable {rank}

theorem Before.le {a b : κ × ν} (h : Before rank a b) : rank a.2 ≤ rank b.2 := by
  rcases h with hlt | ⟨heq, -⟩
  · exact le_of_lt hlt
  · exact le_of_eq heq

theorem before_orderedInsert {e : κ × ν} {l : List (κ × ν)} (hkeys : ∀ b ∈ l, e.1 < b.1)
    (hl : l.Pairwise (Before rank)) :
    (l.orderedInsert (fun a b => rank a.2 ≤ rank b.2) e).Pairwise (Before rank) := by
  induction l with
  | nil => exact List.pairwise_singleton _ _
  | cons b bs ih =>
    obtain ⟨hfirst, hrest⟩ := List.pairwise_cons.mp hl
    obtain ⟨hkey, hkeys'⟩ := List.forall_mem_cons.mp hkeys
    rw [List.orderedInsert_cons]
    split
    · rename_i hle
      refine List.pairwise_cons.mpr ⟨fun x hx => ?_, hl⟩
      have hlater : rank e.2 ≤ rank x.2 := by
        rcases List.mem_cons.mp hx with rfl | hx
        · exact hle
        · exact le_trans hle (hfirst x hx).le
      rcases lt_or_eq_of_le hlater with hlt | heq
      · exact .inl hlt
      · exact .inr ⟨heq, hkeys x hx⟩
    · rename_i hlt
      refine List.pairwise_cons.mpr ⟨fun x hx => ?_, ih hkeys' hrest⟩
      rcases (List.mem_orderedInsert _).mp hx with rfl | hx
      · exact .inl (not_le.mp hlt)
      · exact hfirst x hx

/-- A stable sort by the values leaves the order of the keys where the ranks are the same. -/
theorem sorted_by_value (m : BTreeMap κ ν) (rank : ν → β) :
    (m.entries.insertionSort fun a b => rank a.2 ≤ rank b.2).Pairwise (Before rank) := by
  have hsorted : m.entries.Pairwise fun a b => a.1 < b.1 := List.pairwise_map.mp m.sorted
  generalize m.entries = entries at hsorted ⊢
  induction entries with
  | nil => exact .nil
  | cons e es ih =>
    obtain ⟨hfirst, hrest⟩ := List.pairwise_cons.mp hsorted
    rw [List.insertionSort_cons]
    refine before_orderedInsert (fun b hb => ?_) (ih hrest)
    exact hfirst b ((List.mem_insertionSort _).mp hb)

end Sorting

end BTreeMap

end rust_std
