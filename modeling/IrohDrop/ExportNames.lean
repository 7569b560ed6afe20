-- The name that an export takes when its own is taken (message.rs).
import IrohDrop.Landing

open rust_std

namespace iroh_drop

/-! ## The candidates -/

/-- What goes between the stem and the extension of the n-th candidate. -/
def suffix (short : String) : Nat → String
  | 0 => ""
  | 1 => "-" ++ short
  | n => "-" ++ short ++ "-" ++ toString n

/-- The n-th name that an export of this blob tries. -/
def candidate_of (name : String) (hash : BlobHash) (n : Nat) : String :=
  candidate (split_name name).1 hash.fmt_short (split_name name).2 n

/-- Something stands in the directory under the n-th candidate. -/
def Taken (fs : Fs) (dir name : String) (hash : BlobHash) (n : Nat) : Prop :=
  fs.exists (components (join dir (candidate_of name hash n))) = true

instance (fs : Fs) (dir name : String) (hash : BlobHash) (n : Nat) :
    Decidable (Taken fs dir name hash n) :=
  inferInstanceAs (Decidable (_ = true))

/-- The first candidate that is free has room for its suffix. -/
def RoomForSuffix (fs : Fs) (dir name : String) (hash : BlobHash) : Prop :=
  ∀ n, (∀ m < n, Taken fs dir name hash m) → ¬ Taken fs dir name hash n →
    name.utf8ByteSize + (suffix hash.fmt_short n).utf8ByteSize ≤ MAX_NAME_LEN

theorem candidate_eq (stem short ext : String) (n : Nat) :
    candidate stem short ext n = stem ++ suffix short n ++ ext := by
  match n with
  | 0 => simp [candidate, suffix]; rfl
  | 1 => simp [candidate, suffix, String.append_assoc]; rfl
  | n + 2 => simp [candidate, suffix, String.append_assoc]; rfl

theorem suffix_size_pos (short : String) {n : Nat} (hn : n ≠ 0) :
    0 < (suffix short n).utf8ByteSize := by
  have hdash : 0 < "-".utf8ByteSize := by decide
  match n with
  | 1 => simp [suffix, hdash]
  | n + 2 => simp [suffix, hdash]

theorem candidate_of_size (name : String) (hash : BlobHash) (n : Nat) :
    (candidate_of name hash n).utf8ByteSize =
      name.utf8ByteSize + (suffix hash.fmt_short n).utf8ByteSize := by
  have happend := congrArg String.utf8ByteSize (split_name_append name)
  rw [String.utf8ByteSize_append] at happend
  rw [candidate_of, candidate_eq, String.utf8ByteSize_append, String.utf8ByteSize_append]
  omega

/-! ## Splitting -/

theorem rsplit_once_none {sep : Char} {text : List Char} :
    rsplit_once sep text = none ↔ sep ∉ text := by
  unfold rsplit_once
  rw [List.span_eq_takeWhile_dropWhile]
  rcases hback : text.reverse.dropWhile (fun c => decide (c ≠ sep)) with _ | ⟨c, front⟩
  · have hall := List.dropWhile_eq_nil_iff.mp hback
    simp only [true_iff]
    intro hmem
    exact absurd (hall sep (List.mem_reverse.mpr hmem)) (by simp)
  · have hhead := List.head?_dropWhile_not (fun c => decide (c ≠ sep)) text.reverse
    rw [hback] at hhead
    have hc : c = sep := by simpa using hhead
    have hmem : c ∈ text.reverse := (List.dropWhile_subset _) (hback ▸ List.mem_cons_self)
    simp only [reduceCtorEq, false_iff, not_not]
    exact hc ▸ List.mem_reverse.mp hmem

theorem rsplit_once_append {sep : Char} {stem ext : List Char} (h : sep ∉ ext) :
    rsplit_once sep (stem ++ sep :: ext) = some (stem, ext) := by
  have hall : ∀ c ∈ ext.reverse, decide (c ≠ sep) = true := by
    intro c hc
    simp only [decide_eq_true_eq]
    rintro rfl
    exact h (List.mem_reverse.mp hc)
  unfold rsplit_once
  rw [List.span_eq_takeWhile_dropWhile, List.reverse_append, List.reverse_cons, List.append_assoc,
    List.takeWhile_append_of_pos hall, List.dropWhile_append_of_pos hall]
  simp

theorem rsplit_once_some {sep : Char} {text stem ext : List Char}
    (h : rsplit_once sep text = some (stem, ext)) : sep ∉ ext := by
  unfold rsplit_once at h
  rw [List.span_eq_takeWhile_dropWhile] at h
  split at h
  · cases h
  · rename_i back c front hspan
    cases h
    intro hmem
    have hback := (Prod.mk.inj hspan).1
    have hin : sep ∈ text.reverse.takeWhile (fun c => decide (c ≠ sep)) :=
      hback ▸ List.mem_reverse.mp hmem
    exact absurd (List.mem_takeWhile_imp hin) (by simp)

/-- How a valid name is split: it has no dot, or something on both sides of its last
one. -/
theorem split_name_cases {name : String} (hvalid : validate_name name = .ok ()) :
    ('.' ∉ name.toList ∧ split_name name = (name, "")) ∨
    ∃ stem ext, stem ≠ [] ∧ ext ≠ [] ∧ '.' ∉ ext ∧ name.toList = stem ++ '.' :: ext ∧
      split_name name = (String.ofList stem, String.ofList ('.' :: ext)) := by
  simp only [validate_name, bind_eq_ok, ensure_eq_ok, exists_const] at hvalid
  obtain ⟨-, -, -, -, -, hhead, hlast, -⟩ := hvalid
  unfold split_name
  rcases hsplit : rsplit_once '.' name.toList with _ | ⟨stem, ext⟩
  · exact .inl ⟨rsplit_once_none.mp hsplit, rfl⟩
  · have htext := rsplit_once_spec hsplit
    have hstem : stem ≠ [] := by
      rintro rfl
      exact hhead (by rw [htext]; rfl)
    have hext : ext ≠ [] := by
      rintro rfl
      exact hlast (by rw [htext]; simp)
    refine .inr ⟨stem, ext, hstem, hext, rsplit_once_some hsplit, htext, ?_⟩
    simp [hstem]

/-! ## The characters of a candidate -/

/-- A character that a name may have anywhere. -/
structure SuffixChar (c : Char) : Prop where
  no_slash : c ≠ '/'
  no_backslash : c ≠ '\\'
  no_dot : c ≠ '.'
  no_space : c ≠ ' '
  no_control : is_control c = false

theorem suffixChar_dash : SuffixChar '-' := by constructor <;> decide

theorem suffixChar_hex (n : Nat) : SuffixChar (hex_digit n) := by
  unfold hex_digit
  by_cases hn : n < 16
  · interval_cases n <;> constructor <;> decide
  · rw [List.getD_eq_default _ _ (Nat.not_lt.mp hn)]
    constructor <;> decide

theorem suffixChar_digit {c : Char} (h : c.isDigit = true) : SuffixChar c := by
  have hrange : 48 ≤ c.toNat ∧ c.toNat ≤ 57 := by
    simp only [Char.isDigit, Bool.and_eq_true, decide_eq_true_eq, ge_iff_le] at h
    exact ⟨h.1, h.2⟩
  have hne : ∀ d : Char, d.toNat < 48 ∨ 57 < d.toNat → c ≠ d := by
    rintro d hd rfl
    omega
  refine ⟨hne _ (by decide), hne _ (by decide), hne _ (by decide), hne _ (by decide), ?_⟩
  simp only [is_control, Bool.or_eq_false_iff, Bool.and_eq_false_iff, decide_eq_false_iff_not]
  omega

theorem suffix_chars (hash : BlobHash) (n : Nat) :
    ∀ c ∈ (suffix hash.fmt_short n).toList, SuffixChar c := by
  have hhex : ∀ c ∈ hash.fmt_short.toList, SuffixChar c := by
    intro c hc
    unfold BlobHash.fmt_short hex_lower at hc
    rw [String.toList_ofList] at hc
    obtain ⟨x, -, hx⟩ := List.mem_flatMap.mp hc
    rcases List.mem_cons.mp hx with rfl | hx
    · exact suffixChar_hex _
    · rw [List.mem_singleton.mp hx]
      exact suffixChar_hex _
  have hdash : ∀ c ∈ "-".toList, SuffixChar c := by
    intro c hc
    obtain rfl : c = '-' := by simpa using hc
    exact suffixChar_dash
  intro c hc
  match n with
  | 0 => cases hc
  | 1 =>
    simp only [suffix, String.toList_append, List.mem_append] at hc
    exact hc.elim (hdash c) (hhex c)
  | n + 2 =>
    simp only [suffix, String.toList_append, List.mem_append] at hc
    rcases hc with ((hc | hc) | hc) | hc
    · exact hdash c hc
    · exact hhex c hc
    · exact hdash c hc
    · have hdigits : c ∈ Nat.toDigits 10 (n + 2) := by simpa using hc
      exact suffixChar_digit (Nat.isDigit_of_mem_toDigits (by decide) (by decide) hdigits)

theorem candidate_of_toList (name : String) (hash : BlobHash) (n : Nat) :
    (candidate_of name hash n).toList = (split_name name).1.toList ++
      (suffix hash.fmt_short n).toList ++ (split_name name).2.toList := by
  rw [candidate_of, candidate_eq, String.toList_append, String.toList_append]

theorem split_toList (name : String) :
    name.toList = (split_name name).1.toList ++ (split_name name).2.toList := by
  rw [← String.toList_append, split_name_append]

/-- A candidate keeps the extension. -/
theorem candidate_of_extension {name : String} (hvalid : validate_name name = .ok ())
    (hash : BlobHash) (n : Nat) :
    (split_name (candidate_of name hash n)).2 = (split_name name).2 := by
  have hsuffix : '.' ∉ (suffix hash.fmt_short n).toList :=
    fun hmem => (suffix_chars hash n _ hmem).no_dot rfl
  have htext := candidate_of_toList name hash n
  rcases split_name_cases hvalid with ⟨hnone, hsplit⟩ | ⟨stem, ext, hstem, -, hdot, -, hsplit⟩
  · rw [hsplit] at htext ⊢
    have hnodot : '.' ∉ (candidate_of name hash n).toList := by
      rw [htext]
      simp [hnone, hsuffix]
    unfold split_name
    rw [rsplit_once_none.mpr hnodot]
  · rw [hsplit, String.toList_ofList, String.toList_ofList] at htext
    have hstem' : stem ++ (suffix hash.fmt_short n).toList ≠ [] := by simp [hstem]
    unfold split_name at hsplit ⊢
    rw [htext, rsplit_once_append hdot, hsplit]
    simp [hstem]

/-! ## Validity -/

theorem split_stem_ne_nil {name : String} (hvalid : validate_name name = .ok ()) :
    (split_name name).1.toList ≠ [] := by
  rcases split_name_cases hvalid with ⟨-, hsplit⟩ | ⟨stem, ext, hstem, -, -, -, hsplit⟩
  · rw [hsplit]
    simp only [validate_name, bind_eq_ok, ensure_eq_ok, exists_const] at hvalid
    simpa using hvalid.1
  · simpa [hsplit] using hstem

/-- A candidate is a valid name whenever it is short enough. -/
theorem validate_candidate_of {name : String} (hvalid : validate_name name = .ok ())
    (hash : BlobHash) (n : Nat) : validate_name (candidate_of name hash n) = .ok () ↔
      name.utf8ByteSize + (suffix hash.fmt_short n).utf8ByteSize ≤ MAX_NAME_LEN := by
  have hstem := split_stem_ne_nil hvalid
  have htext := candidate_of_toList name hash n
  have hname := split_toList name
  have hsuffix := suffix_chars hash n
  simp only [validate_name, bind_eq_ok, ensure_eq_ok, exists_const] at hvalid ⊢
  rw [candidate_of_size]
  obtain ⟨-, -, -, ⟨hslash, hback⟩, hcontrol, hhead, hlast, hspace⟩ := hvalid
  set front := (split_name name).1.toList
  set back := (split_name name).2.toList
  set middle := (suffix hash.fmt_short n).toList
  have hmem : ∀ c, c ∉ name.toList → c ∉ middle → c ∉ (candidate_of name hash n).toList := by
    intro c hc hm
    rw [hname] at hc
    rw [htext]
    simp only [List.mem_append, not_or] at hc ⊢
    exact ⟨⟨hc.1, hm⟩, hc.2⟩
  have hfirst : (candidate_of name hash n).toList.head? = name.toList.head? := by
    rw [htext, hname, List.append_assoc, List.head?_append_of_ne_nil _ hstem,
      List.head?_append_of_ne_nil _ hstem]
  -- The last character is the last one of the name, or one of the suffix.
  have hend : ∀ c, name.toList.getLast? ≠ some c → c ∉ middle →
      (candidate_of name hash n).toList.getLast? ≠ some c := by
    intro c hc hm
    rw [htext]
    rw [hname] at hc
    by_cases hback : back = []
    · by_cases hmiddle : middle = []
      · simpa [hback, hmiddle] using hc
      · rw [hback, List.append_nil, List.getLast?_append_of_ne_nil _ hmiddle]
        exact fun hlast => hm (List.mem_of_getLast? hlast)
    · rwa [List.getLast?_append_of_ne_nil _ hback] at hc ⊢
  constructor
  · exact fun h => h.2.1
  · intro hsize
    refine ⟨?_, hsize, ⟨?_, ?_⟩, ⟨hmem _ hslash ?_, hmem _ hback ?_⟩, ?_, ?_, hend _ hlast ?_,
      hend _ hspace ?_⟩
    · intro hempty
      rw [hempty] at htext
      simp [hstem] at htext
    · intro hdot
      rw [hdot] at hfirst
      exact hhead hfirst.symm
    · intro hdots
      rw [hdots] at hfirst
      exact hhead hfirst.symm
    · exact fun h => (hsuffix _ h).no_slash rfl
    · exact fun h => (hsuffix _ h).no_backslash rfl
    · rw [hname] at hcontrol
      rw [htext]
      simp only [List.any_append, Bool.or_eq_false_iff] at hcontrol ⊢
      refine ⟨⟨hcontrol.1, ?_⟩, hcontrol.2⟩
      simpa using fun c hc => (hsuffix c hc).no_control
    · rw [hfirst]
      exact hhead
    · exact fun h => (hsuffix _ h).no_dot rfl
    · exact fun h => (hsuffix _ h).no_space rfl

/-! ## The path -/

/-- The names are tried in their order, and the first one that is free is taken. -/
theorem free_path_of_first {fs : Fs} {dir : String} {names : List String} {n : Nat}
    (hnames : ∀ name ∈ names, FileName name) (hn : n < names.length)
    (hbefore : ∀ m (hm : m < n),
      fs.exists (components (join dir (names.get ⟨m, hm.trans hn⟩))) = true)
    (hfree : fs.exists (components (join dir names[n])) = false) :
    free_path fs dir names = .ok (join dir names[n]) := by
  induction names generalizing n with
  | nil => cases hn
  | cons name names ih =>
    have hparent : parent (components (join dir name)) = some (components dir) := by
      rw [components_join_name (hnames name List.mem_cons_self), parent_append]
    rw [free_path]
    simp only [hparent, ne_eq, not_true_eq_false, if_false]
    cases n with
    | zero =>
      rw [List.getElem_cons_zero] at hfree ⊢
      simp [hfree]
    | succ n =>
      have htaken : fs.exists (components (join dir name)) = true := hbefore 0 (Nat.succ_pos n)
      rw [if_pos htaken]
      simp only [List.getElem_cons_succ] at hfree ⊢
      refine ih (fun other hother => hnames other (List.mem_cons_of_mem _ hother)) ?_ ?_ hfree
      exact fun m hm => hbefore (m + 1) (Nat.succ_lt_succ hm)

/-- What the export path of a valid name is, when one of the candidates is free. -/
theorem collision_safe_path_of_free {fs : Fs} {dir name : String} {hash : BlobHash} {n : Nat}
    (hvalid : validate_name name = .ok ()) (hn : n < 1000)
    (hbefore : ∀ m < n, Taken fs dir name hash m) (hfree : ¬ Taken fs dir name hash n) :
    collision_safe_path fs dir name hash = .ok (join dir (candidate_of name hash n)) := by
  have hlength : n < ((List.range 1000).map
      (candidate (split_name name).1 hash.fmt_short (split_name name).2)).length := by
    simpa using hn
  have hpath := @free_path_of_first fs dir _ n ?_ hlength ?_ ?_
  · simp only [collision_safe_path, bind_eq_ok, hvalid]
    rw [hpath]
    simp [candidate_of]
  · intro file hfile
    obtain ⟨m, -, rfl⟩ := List.mem_map.mp hfile
    exact (candidate_plain (safe_name hvalid) hash m).toFileName
  · intro m hm
    simpa [Taken, candidate_of] using hbefore m hm
  · simpa [Taken, candidate_of] using hfree

/-- What an export should get: a free path, one valid name below the directory, which
keeps the extension. -/
structure GoodPath (fs : Fs) (dir name path file : String) : Prop where
  free : fs.exists (components path) = false
  parent_is_dir : parent (components path) = some (components dir)
  file_name : components path = components dir ++ [.Normal file]
  valid : validate_name file = .ok ()
  extension : (split_name file).2 = (split_name name).2

theorem GoodPath.room {fs : Fs} {dir name file : String} {hash : BlobHash} {n : Nat}
    (hvalid : validate_name name = .ok ())
    (hgood : GoodPath fs dir name (join dir (candidate_of name hash n)) file) :
    name.utf8ByteSize + (suffix hash.fmt_short n).utf8ByteSize ≤ MAX_NAME_LEN := by
  have hplain := candidate_plain (safe_name hvalid) hash n
  have hcomponents := components_join_name hplain.toFileName dir
  have hsame := hgood.file_name.symm.trans hcomponents
  have hfile : file = candidate_of name hash n := by simpa [candidate_of] using hsame
  exact (validate_candidate_of hvalid hash n).mp (hfile ▸ hgood.valid)

/-- When one of the candidates is free, an export gets a good path exactly if the first
free candidate has room for its suffix. -/
theorem export_name_is_good_iff {fs : Fs} {dir name : String} {hash : BlobHash}
    (hvalid : validate_name name = .ok ()) (hfew : ∃ n < 1000, ¬ Taken fs dir name hash n) :
    (∃ path file, collision_safe_path fs dir name hash = .ok path ∧
      GoodPath fs dir name path file) ↔ RoomForSuffix fs dir name hash := by
  obtain ⟨m, hm, hmfree⟩ := hfew
  have hsome : ∃ n, ¬ Taken fs dir name hash n := ⟨m, hmfree⟩
  obtain ⟨n, hfirst, hfree⟩ : ∃ n, (∀ m < n, Taken fs dir name hash m) ∧
      ¬ Taken fs dir name hash n :=
    ⟨Nat.find hsome, fun m hm => not_not.mp (Nat.find_min hsome hm), Nat.find_spec hsome⟩
  have hn : n < 1000 := by
    by_contra hlarge
    exact hmfree (hfirst m (by omega))
  have hpath := collision_safe_path_of_free hvalid hn hfirst hfree
  have hfile := (candidate_plain (safe_name hvalid) hash n).toFileName
  have hcomponents := components_join_name hfile dir
  constructor
  · rintro ⟨path, file, hok, hgood⟩ k hbefore hkfree
    obtain rfl : k = n := by
      rcases Nat.lt_trichotomy k n with hlt | heq | hgt
      · exact absurd (hfirst k hlt) hkfree
      · exact heq
      · exact absurd (hbefore n hgt) hfree
    rw [hpath] at hok
    cases hok
    exact hgood.room hvalid
  · intro hroom
    refine ⟨_, candidate_of name hash n, hpath, ?_, ?_, hcomponents, ?_, ?_⟩
    · simpa [Taken] using hfree
    · rw [candidate_of, hcomponents, parent_append]
    · exact (validate_candidate_of hvalid hash n).mpr (hroom n hfirst hfree)
    · exact candidate_of_extension hvalid hash n

namespace exported

/-- A directory with one file in it. -/
def holding (name : String) : Fs := Fs.bare.put [name] (.file [])

theorem holding_exists (name other : String) :
    (holding name).exists [.Normal other] = decide (other = name) := by
  have hnode : (holding name).node [other] = if other = name then some (.file []) else none := by
    simp [holding, Fs.put, Fs.bare]
  have hlocate : (holding name).locate [.Normal other] = .ok [other] := by
    simp [holding, Fs.locate, Fs.walk, Fs.put, Fs.bare, Component.step]
  rw [Fs.exists, hlocate]
  by_cases h : other = name <;> simp_all

/-- Only the name itself is taken where one file stands. -/
theorem taken_alone {name : String} (hvalid : validate_name name = .ok ()) (hash : BlobHash)
    (n : Nat) : Taken (holding name) "" name hash n ↔ n = 0 := by
  have hplain := candidate_plain (safe_name hvalid) hash n
  have hcomponents : components (join "" (candidate_of name hash n)) =
      [.Normal (candidate_of name hash n)] := by
    have hnone : components "" = [] := by decide
    have hjoin := components_join_name hplain.toFileName ""
    rwa [hnone, List.nil_append] at hjoin
  rw [Taken, hcomponents, holding_exists, decide_eq_true_eq]
  constructor
  · intro hsame
    have hsize := candidate_of_size name hash n
    rw [hsame] at hsize
    by_contra hn
    have hpos := suffix_size_pos hash.fmt_short hn
    omega
  · rintro rfl
    rw [candidate_of, candidate_eq, suffix, String.append_empty, split_name_append]

/-- The hash of the test in `message.rs`. -/
def hash : BlobHash := ⟨.fill 32 1⟩

theorem slides_is_valid : validate_name "slides.pdf" = .ok () := by decide +kernel

/-- The second `slides.pdf` becomes `slides-01010101.pdf`. -/
theorem export_name_is_good_for_slides :
    (∃ path file, collision_safe_path (holding "slides.pdf") "" "slides.pdf" hash = .ok path ∧
      GoodPath (holding "slides.pdf") "" "slides.pdf" path file) ↔
    RoomForSuffix (holding "slides.pdf") "" "slides.pdf" hash :=
  export_name_is_good_iff slides_is_valid
    ⟨1, by decide, by rw [taken_alone slides_is_valid]; decide⟩

/-- A name of 248 bytes. -/
def smileys : String := String.ofList (List.replicate 62 '😀')

/-- Where a file of that name stands, the candidate that is free has 257 bytes. -/
theorem a_long_name_leaves_no_room :
    validate_name smileys = .ok () ∧ (∃ n < 1000, ¬ Taken (holding smileys) "" smileys hash n) ∧
      ¬ ∃ path file, collision_safe_path (holding smileys) "" smileys hash = .ok path ∧
        GoodPath (holding smileys) "" smileys path file := by
  have hvalid : validate_name smileys = .ok () := by decide +kernel
  have htaken := taken_alone hvalid hash
  have hfree : ¬ Taken (holding smileys) "" smileys hash 1 := by simp [htaken]
  refine ⟨hvalid, ⟨1, by decide, hfree⟩, ?_⟩
  rintro ⟨path, file, hok, hgood⟩
  rw [collision_safe_path_of_free hvalid (by decide) (fun m hm => (htaken m).mpr (by omega))
    hfree] at hok
  obtain rfl := Except.ok.inj hok
  exact absurd (hgood.room hvalid) (by decide +kernel)

end exported

end iroh_drop
