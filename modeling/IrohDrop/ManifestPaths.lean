-- Hashes and paths as a manifest writes them, and what a receiver reads.
import IrohDrop.Collections

open rust_std

namespace iroh_drop

/-! ## Text -/

theorem utf8ByteSize_ofList (l : List Char) :
    (String.ofList l).utf8ByteSize = (l.map Char.utf8Size).sum := by
  induction l with
  | nil => rfl
  | cons c l ih =>
    rw [String.ofList_cons, String.utf8ByteSize_append, String.utf8ByteSize_singleton, ih]
    rfl

theorem hex_value_digit : ∀ n < 16, hex_value (hex_digit n) = some n ∧ (hex_digit n).utf8Size = 1 := by
  decide

theorem hex_decode_lower (b : Bytes) (pos : Nat) :
    hex_decode pos (b.flatMap (fun x => [hex_digit (x.toNat / 16), hex_digit (x.toNat % 16)])) =
      .ok b := by
  induction b generalizing pos with
  | nil => rfl
  | cons x b ih =>
    have hx := x.toNat_lt
    have hhi := (hex_value_digit (x.toNat / 16) (by omega)).1
    have hlo := (hex_value_digit (x.toNat % 16) (by omega)).1
    simp only [List.flatMap_cons, List.cons_append, List.nil_append, hex_decode, hhi, hlo, ih]
    have heq : UInt8.ofNat (16 * (x.toNat / 16) + x.toNat % 16) = x := by
      rw [Nat.div_add_mod]
      exact UInt8.ofNat_toNat
    rw [heq]
    rfl

theorem hex_lower_size (b : Bytes) : (hex_lower b).utf8ByteSize = 2 * b.length := by
  unfold hex_lower
  rw [utf8ByteSize_ofList]
  induction b with
  | nil => rfl
  | cons x b ih =>
    have hx := x.toNat_lt
    have hhi := (hex_value_digit (x.toNat / 16) (by omega)).2
    have hlo := (hex_value_digit (x.toNat % 16) (by omega)).2
    simp only [List.flatMap_cons, List.cons_append, List.nil_append, List.map_cons, List.sum_cons,
      ih, hhi, hlo, List.length_cons]
    omega

theorem BlobHash.from_to_hex (hash : BlobHash) : BlobHash.from_hex hash.to_hex = .ok hash := by
  have hsize : hash.to_hex.utf8ByteSize = 64 := by
    unfold BlobHash.to_hex
    rw [hex_lower_size, hash.as_bytes.length_bytes]
  have hdecode : hex_decode 0 hash.to_hex.toList = .ok hash.as_bytes.bytes := by
    unfold BlobHash.to_hex hex_lower
    rw [String.toList_ofList]
    exact hex_decode_lower _ 0
  simp only [BlobHash.from_hex, bind_eq_ok, ensure_eq_ok, ok_or_eq_ok, exists_const]
  exact ⟨hsize, _, hdecode, _, FixedBytes.ofList?_bytes _, rfl⟩

/-! ## Paths -/

/-- A name that a file can have. -/
structure FileName (name : String) : Prop where
  nonempty : name ≠ ""
  no_slash : '/' ∉ name.toList
  not_dot : name ≠ "."
  not_dots : name ≠ ".."

theorem toList_ne_nil {name : String} (h : name ≠ "") : name.toList ≠ [] := by
  intro hnil
  exact h (String.toList_inj.mp hnil)

theorem manifest_path_toList (path : List String) :
    (manifest_path path).toList = (['/'].intercalate (path.map String.toList)).map
      (fun c => if c = '\\' then '/' else c) := by
  simp [manifest_path, to_string_lossy]

/-- The path in the manifest is as long as the path. -/
theorem manifest_path_size (path : List String) :
    (manifest_path path).utf8ByteSize = (to_string_lossy path).utf8ByteSize := by
  unfold manifest_path
  rw [utf8ByteSize_ofList, List.map_map]
  have hsize : (Char.utf8Size ∘ fun c => if c = '\\' then '/' else c) = Char.utf8Size := by
    funext c
    simp only [Function.comp]
    split
    · rename_i h
      rw [h]
      rfl
    · rfl
  rw [hsize, ← utf8ByteSize_ofList, String.ofList_toList]

theorem mem_intercalate {c : Char} {parts : List (List Char)}
    (h : c ∈ ['/'].intercalate parts) : c = '/' ∨ ∃ part ∈ parts, c ∈ part := by
  induction parts with
  | nil => cases h
  | cons part parts ih =>
    cases parts with
    | nil =>
      rw [List.intercalate_singleton] at h
      exact .inr ⟨part, List.mem_cons_self, h⟩
    | cons next rest =>
      rw [List.intercalate_cons_cons, List.append_assoc] at h
      rcases List.mem_append.mp h with h | h
      · exact .inr ⟨part, List.mem_cons_self, h⟩
      · rcases List.mem_append.mp h with h | h
        · exact .inl (List.mem_singleton.mp h)
        · exact (ih h).imp id fun ⟨p, hp, hc⟩ => ⟨p, List.mem_cons_of_mem _ hp, hc⟩

theorem component_of_name {name : String} (h : FileName name) :
    component name.toList = some (.Normal name) := by
  unfold component
  rw [if_neg, if_neg, String.ofList_toList]
  · intro hdots
    exact h.not_dots (String.toList_inj.mp hdots)
  · rintro (hnil | hdot)
    · exact toList_ne_nil h.nonempty hnil
    · exact h.not_dot (String.toList_inj.mp hdot)

/-- A path whose parts are file names without a backslash reads back part by
part. -/
theorem components_manifest_path {path : List String} (hne : path ≠ [])
    (hnames : ∀ part ∈ path, FileName part) (hplain : ∀ part ∈ path, '\\' ∉ part.toList) :
    components (manifest_path path) = path.map .Normal := by
  have hchars : (manifest_path path).toList = ['/'].intercalate (path.map String.toList) := by
    rw [manifest_path_toList]
    refine (List.map_congr_left fun c hc => ?_).trans (List.map_id _)
    have hback : c ≠ '\\' := by
      rintro rfl
      rcases mem_intercalate hc with h | ⟨_, hpart, hmem⟩
      · cases h
      · obtain ⟨part, hmem', rfl⟩ := List.mem_map.mp hpart
        exact hplain part hmem' hmem
    rw [if_neg hback]
    rfl
  have hpieces : (manifest_path path).toList.splitOn '/' = path.map String.toList := by
    rw [hchars, List.splitOn_intercalate]
    · intro l hl
      obtain ⟨part, hpart, rfl⟩ := List.mem_map.mp hl
      exact (hnames part hpart).no_slash
    · simpa using hne
  obtain ⟨first, rest, rfl⟩ := List.exists_cons_of_ne_nil hne
  have hfirst := hnames first List.mem_cons_self
  have hroot : (manifest_path (first :: rest)).toList.head? ≠ some '/' := by
    intro hhead
    obtain ⟨c, cs, hcs⟩ := List.exists_cons_of_ne_nil (toList_ne_nil hfirst.nonempty)
    have hslash : '/' ∈ first.toList := by
      rw [hchars] at hhead
      cases rest with
      | nil =>
        simp only [List.map_cons, List.map_nil, List.intercalate_singleton] at hhead
        exact List.mem_of_mem_head? hhead
      | cons next rest =>
        rw [List.map_cons, List.map_cons, List.intercalate_cons_cons, hcs] at hhead
        rw [hcs]
        exact List.mem_of_mem_head? hhead
    exact hfirst.no_slash hslash
  have hdot : some first.toList ≠ some ['.'] := fun h =>
    hfirst.not_dot (String.toList_inj.mp (Option.some_inj.mp h))
  have hnormal : ∀ parts : List String, (∀ part ∈ parts, FileName part) →
      (parts.map String.toList).filterMap component = parts.map .Normal := by
    intro parts
    induction parts with
    | nil => exact fun _ => rfl
    | cons part parts ih =>
      intro h
      rw [List.map_cons, List.filterMap_cons_some (component_of_name (h part List.mem_cons_self)),
        ih fun p hp => h p (List.mem_cons_of_mem part hp), List.map_cons]
  unfold components
  simp only [hpieces]
  rw [if_neg hroot, List.map_cons, List.head?_cons, if_neg hdot, List.nil_append]
  exact hnormal (first :: rest) hnames

/-! ## Checks of the receiver -/

theorem mapM_ok {α β ε : Type} {f : α → Except ε β} {l : List α} {r : List β}
    (h : l.mapM f = .ok r) : ∀ y ∈ r, ∃ x ∈ l, f x = .ok y := by
  induction l generalizing r with
  | nil =>
    cases h
    intro y hy
    cases hy
  | cons x l ih =>
    rw [List.mapM_cons] at h
    simp only [bind_eq_ok, pure, Except.pure, Except.ok.injEq] at h
    obtain ⟨y, hy, ys, hys, rfl⟩ := h
    intro z hz
    rcases List.mem_cons.mp hz with rfl | hz
    · exact ⟨x, List.mem_cons_self, hy⟩
    · obtain ⟨x', hx', hfx⟩ := ih hys z hz
      exact ⟨x', List.mem_cons_of_mem x hx', hfx⟩

section Sanitize

variable [Crates]

/-- A part of a path that a receiver takes as it is. -/
structure SafePart (part : String) : Prop extends FileName part where
  size : part.utf8ByteSize ≤ 255
  no_backslash : '\\' ∉ part.toList

theorem sanitize_component_eq_ok {name part : String} :
    sanitize_component name = .ok part ↔ name = part ∧ SafePart name := by
  simp only [sanitize_component, bind_eq_ok, ensure_eq_ok, exists_const, pure, Except.pure,
    Except.ok.injEq]
  constructor
  · rintro ⟨⟨hne, hsize, hslash, hback⟩, ⟨hdot, hdots⟩, heq⟩
    exact ⟨heq, ⟨hne, hslash, hdot, hdots⟩, hsize, hback⟩
  · rintro ⟨heq, h⟩
    exact ⟨⟨h.nonempty, h.size, h.no_slash, h.no_backslash⟩, ⟨h.not_dot, h.not_dots⟩, heq⟩

/-- What a receiver makes of a member path is short enough, and made of safe
parts. -/
theorem sanitize_relative_safe {path : String} {safe : List String}
    (h : sanitize_relative path = .ok safe) :
    path.utf8ByteSize ≤ 1024 ∧ ∀ part ∈ safe, SafePart part := by
  simp only [sanitize_relative, bind_eq_ok, ensure_eq_ok, exists_const, pure, Except.pure,
    Except.ok.injEq] at h
  obtain ⟨hsize, parts, hparts, -, rfl⟩ := h
  refine ⟨hsize, fun part hpart => ?_⟩
  obtain ⟨component, -, hsanitize⟩ := mapM_ok hparts part hpart
  cases component with
  | Normal name =>
    obtain ⟨rfl, hsafe⟩ := sanitize_component_eq_ok.mp hsanitize
    exact hsafe
  | _ => cases hsanitize

/-- A path of safe parts that is short enough comes through as it is. -/
theorem sanitize_manifest_path {path : List String} (hne : path ≠ [])
    (hsize : (to_string_lossy path).utf8ByteSize ≤ 1024) (hsafe : ∀ part ∈ path, SafePart part) :
    sanitize_relative (manifest_path path) = .ok path := by
  have hcomponents := components_manifest_path hne (fun part hp => (hsafe part hp).toFileName)
    (fun part hp => (hsafe part hp).no_backslash)
  have hall : ∀ (text : String) (parts : List String), (∀ part ∈ parts, SafePart part) →
      (parts.map Component.Normal).mapM (sanitize_part text) = .ok parts := by
    intro text parts
    induction parts with
    | nil => exact fun _ => rfl
    | cons part parts ih =>
      intro h
      rw [List.map_cons, List.mapM_cons]
      simp only [bind_eq_ok, pure, Except.pure, Except.ok.injEq]
      exact ⟨part, sanitize_component_eq_ok.mpr ⟨rfl, h part List.mem_cons_self⟩, parts,
        ih fun p hp => h p (List.mem_cons_of_mem part hp), rfl⟩
  simp only [sanitize_relative, bind_eq_ok, ensure_eq_ok, exists_const, pure, Except.pure,
    Except.ok.injEq, hcomponents]
  rw [manifest_path_size]
  exact ⟨hsize, path, hall _ path hsafe, hne, rfl⟩

end Sanitize

end iroh_drop
