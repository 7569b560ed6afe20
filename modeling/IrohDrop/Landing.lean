-- Where a fetch lands: below its destination, through plain names, and as
-- the file that was announced.
import IrohDrop.CollectionTrips
import IrohDrop.FetchAny

open rust_std

namespace iroh_drop

/-! ## Names -/

/-- A name that leads one step down, and nowhere else. -/
structure PlainName (name : String) : Prop extends FileName name where
  no_backslash : '\\' ∉ name.toList

theorem SafePart.plain {name : String} (h : SafePart name) : PlainName name :=
  ⟨h.toFileName, h.no_backslash⟩

theorem plain_of_dash {name : String} (hdash : '-' ∈ name.toList) (hslash : '/' ∉ name.toList)
    (hback : '\\' ∉ name.toList) : PlainName name := by
  refine ⟨⟨?_, hslash, ?_, ?_⟩, hback⟩
  · rintro rfl
    cases hdash
  · rintro rfl
    exact absurd hdash (by decide)
  · rintro rfl
    exact absurd hdash (by decide)

theorem rsplit_once_spec {sep : Char} {text stem ext : List Char}
    (h : rsplit_once sep text = some (stem, ext)) : text = stem ++ sep :: ext := by
  unfold rsplit_once at h
  rw [List.span_eq_takeWhile_dropWhile] at h
  split at h
  · cases h
  · rename_i back c front hspan
    cases h
    obtain ⟨hback, hfront⟩ := Prod.mk.inj hspan
    have hc : c = sep := by
      have hhead := List.head?_dropWhile_not (fun c => decide (c ≠ sep)) text.reverse
      rw [hfront] at hhead
      simpa using hhead
    have hsplit := List.takeWhile_append_dropWhile (p := fun c => decide (c ≠ sep)) (l := text.reverse)
    rw [hback, hfront, hc] at hsplit
    have hreverse := congrArg List.reverse hsplit
    rw [List.reverse_reverse] at hreverse
    rw [← hreverse]
    simp

theorem split_name_append (name : String) : (split_name name).1 ++ (split_name name).2 = name := by
  unfold split_name
  split
  · exact String.append_empty
  · rename_i stem ext hsplit
    split
    · exact String.append_empty
    · rw [← String.ofList_append, ← rsplit_once_spec hsplit, String.ofList_toList]

theorem hex_digit_plain (n : Nat) : hex_digit n ≠ '/' ∧ hex_digit n ≠ '\\' := by
  unfold hex_digit
  by_cases hn : n < 16
  · interval_cases n <;> decide
  · rw [List.getD_eq_default _ _ (Nat.not_lt.mp hn)]
    decide

theorem hex_lower_plain (b : Bytes) :
    '/' ∉ (hex_lower b).toList ∧ '\\' ∉ (hex_lower b).toList := by
  unfold hex_lower
  rw [String.toList_ofList]
  have hdigit : ∀ c, c ∈ b.flatMap (fun x => [hex_digit (x.toNat / 16), hex_digit (x.toNat % 16)]) →
      ∃ n, c = hex_digit n := by
    intro c hc
    obtain ⟨x, -, hx⟩ := List.mem_flatMap.mp hc
    rcases List.mem_cons.mp hx with rfl | hx
    · exact ⟨_, rfl⟩
    · exact ⟨_, List.mem_singleton.mp hx⟩
  constructor
  · intro hc
    obtain ⟨n, hn⟩ := hdigit _ hc
    exact (hex_digit_plain n).1 hn.symm
  · intro hc
    obtain ⟨n, hn⟩ := hdigit _ hc
    exact (hex_digit_plain n).2 hn.symm

theorem candidate_toList (stem short ext : String) (n : Nat) :
    (candidate stem short ext (n + 1)).toList = stem.toList ++ '-' :: short.toList ++
      (if n = 0 then [] else '-' :: Nat.toDigits 10 (n + 1)) ++ ext.toList := by
  cases n with
  | zero => simp [candidate]; rfl
  | succ n => simp [candidate]; rfl

/-- Every name that an export tries is plain. -/
theorem candidate_plain {name : String} (h : SafePart name) (hash : BlobHash) (n : Nat) :
    PlainName (candidate (split_name name).1 hash.fmt_short (split_name name).2 n) := by
  have happend := split_name_append name
  cases n with
  | zero =>
    have hsame : candidate (split_name name).1 hash.fmt_short (split_name name).2 0 = name := by
      simp only [candidate]
      exact happend
    rw [hsame]
    exact h.plain
  | succ n =>
    have hchars : ∀ c, c = '/' ∨ c = '\\' → c ∉
        (candidate (split_name name).1 hash.fmt_short (split_name name).2 (n + 1)).toList := by
      intro c hc hmem
      rw [candidate_toList] at hmem
      have hname : c ∉ (split_name name).1.toList ++ (split_name name).2.toList := by
        rw [← String.toList_append, happend]
        rcases hc with rfl | rfl
        · exact h.no_slash
        · exact h.no_backslash
      have hshort : c ∉ hash.fmt_short.toList := by
        rcases hc with rfl | rfl
        · exact (hex_lower_plain _).1
        · exact (hex_lower_plain _).2
      have hdash : c ≠ '-' := by
        rcases hc with rfl | rfl <;> decide
      have hdigits : c ∉ Nat.toDigits 10 (n + 1) := by
        intro hdigit
        have := Nat.isDigit_of_mem_toDigits (by decide) (by decide) hdigit
        rcases hc with rfl | rfl <;> exact absurd this (by decide)
      simp only [List.mem_append, not_or] at hname
      simp only [List.mem_append, List.mem_cons] at hmem
      rcases hmem with ((hmem | hmem | hmem) | hmem) | hmem
      · exact hname.1 hmem
      · exact hdash hmem
      · exact hshort hmem
      · split at hmem
        · cases hmem
        · rcases List.mem_cons.mp hmem with hmem | hmem
          · exact hdash hmem
          · exact hdigits hmem
      · exact hname.2 hmem
    refine plain_of_dash ?_ (hchars _ (.inl rfl)) (hchars _ (.inr rfl))
    rw [candidate_toList]
    simp

theorem free_path_spec {fs : Fs} {dir path : String} {names : List String}
    (h : free_path fs dir names = .ok path) : ∃ name ∈ names, path = join dir name ∧
      parent (components path) = some (components dir) ∧ fs.exists (components path) = false := by
  induction names with
  | nil => cases h
  | cons name names ih =>
    simp only [free_path] at h
    split at h
    · cases h
    · rename_i hparent
      split at h
      · obtain ⟨other, hmem, hpath⟩ := ih h
        exact ⟨other, List.mem_cons_of_mem _ hmem, hpath⟩
      · rename_i hfree
        cases h
        exact ⟨name, List.mem_cons_self, rfl, not_not.mp hparent, Bool.eq_false_iff.mpr hfree⟩

/-- A path that `collision_safe_path` gives is a free one, one plain name below
the directory. -/
theorem collision_safe_path_spec {fs : Fs} {dir name path : String} {hash : BlobHash}
    (h : collision_safe_path fs dir name hash = .ok path) :
    ∃ file, PlainName file ∧ components path = components dir ++ [.Normal file] ∧
      fs.exists (components path) = false := by
  simp only [collision_safe_path, bind_eq_ok] at h
  obtain ⟨u, hvalid, hfree⟩ := h
  cases u
  obtain ⟨file, hfile, rfl, -, hexists⟩ := free_path_spec hfree
  obtain ⟨n, -, rfl⟩ := List.mem_map.mp hfile
  have hplain := candidate_plain (safe_name hvalid) hash n
  exact ⟨_, hplain, components_join_name hplain.toFileName dir, hexists⟩

section Sanitize

variable [Crates]

theorem sanitize_parts_eq_ok {text : String} {path : List Component} {parts : List String} :
    path.mapM (sanitize_part text) = .ok parts ↔
      path = parts.map .Normal ∧ ∀ part ∈ parts, SafePart part := by
  induction path generalizing parts with
  | nil =>
    constructor
    · intro h
      cases h
      exact ⟨rfl, fun _ h => nomatch h⟩
    · rintro ⟨h, -⟩
      cases parts with
      | nil => rfl
      | cons _ _ => cases h
  | cons c path ih =>
    rw [List.mapM_cons]
    simp only [bind_eq_ok, pure, Except.pure, Except.ok.injEq]
    constructor
    · rintro ⟨part, hpart, rest, hrest, rfl⟩
      obtain ⟨rfl, hsafe⟩ := ih.mp hrest
      cases c with
      | Normal name =>
        obtain ⟨rfl, hname⟩ := sanitize_component_eq_ok.mp hpart
        refine ⟨rfl, fun p hp => ?_⟩
        rcases List.mem_cons.mp hp with rfl | hp
        · exact hname
        · exact hsafe p hp
      | _ => cases hpart
    · rintro ⟨heq, hsafe⟩
      cases parts with
      | nil => cases heq
      | cons part parts =>
        obtain ⟨rfl, rfl⟩ := List.cons.inj heq
        exact ⟨part, sanitize_component_eq_ok.mpr ⟨rfl, hsafe part List.mem_cons_self⟩, parts,
          ih.mpr ⟨rfl, fun p hp => hsafe p (List.mem_cons_of_mem _ hp)⟩, rfl⟩

/-- What the check of a member path lets through: nothing but safe names, one
below the other. -/
theorem sanitize_relative_eq_ok {path : String} {rel : List String} :
    sanitize_relative path = .ok rel ↔ path.utf8ByteSize ≤ 1024 ∧
      components path = rel.map .Normal ∧ rel ≠ [] ∧ ∀ part ∈ rel, SafePart part := by
  simp only [sanitize_relative, bind_eq_ok, ensure_eq_ok, exists_const, pure, Except.pure,
    Except.ok.injEq, sanitize_parts_eq_ok]
  constructor
  · rintro ⟨hsize, parts, ⟨hparts, hsafe⟩, hne, rfl⟩
    exact ⟨hsize, hparts, hne, hsafe⟩
  · rintro ⟨hsize, hparts, hne, hsafe⟩
    exact ⟨hsize, rel, ⟨hparts, hsafe⟩, hne, rfl⟩

end Sanitize

/-! ## Below a directory -/

/-- The path leads below `dest`, through these names. -/
def LeadsTo (dest : List Component) (parts : List String) (path : List Component) : Prop :=
  path = dest ++ parts.map .Normal ∧ ∀ part ∈ parts, PlainName part

theorem walk_names_place {fs : Fs} {here place : List String} {parts : List String}
    (h : fs.walk here (parts.map .Normal) = .ok place) : place = here ++ parts := by
  induction parts generalizing here with
  | nil =>
    cases h
    exact (List.append_nil _).symm
  | cons part parts ih =>
    rw [List.map_cons, Fs.walk] at h
    split at h
    · rw [ih h, Component.step, List.append_assoc]
      rfl
    · cases h
    · cases h

/-- What a stretch of a fetch does to the disk, where `dest` stands at `here`:
it makes directories at `dest` and below, exports where it may, and changes
nothing but what is below `here`. -/
structure Within (dest : List Component) (here : List String) (allowed : List String → Prop)
    (d d' : Disk) : Prop where
  created : ∃ new, d'.created = d.created ++ new ∧
    ∀ path ∈ new, ∃ parts, LeadsTo dest parts path
  exports : ∃ new, d'.exports = d.exports ++ new ∧
    ∀ e ∈ new, ∃ parts, LeadsTo dest parts e.path ∧ allowed parts
  dest : d'.fs.locate dest = .ok here ∧ d'.fs.node here = some .dir
  changed : ∀ place, d'.fs.node place ≠ d.fs.node place →
    ∃ parts, parts ≠ [] ∧ (∀ part ∈ parts, PlainName part) ∧ place = here ++ parts

/-- `dest` is a directory, at `here`. -/
def DirAt (dest : List Component) (here : List String) (d : Disk) : Prop :=
  d.fs.locate dest = .ok here ∧ d.fs.node here = some .dir

namespace Within

variable {dest : List Component} {here : List String} {allowed : List String → Prop}
  {a b c : Disk}

theorem refl (h : DirAt dest here a) : Within dest here allowed a a where
  created := ⟨[], (List.append_nil _).symm, fun _ h => nomatch h⟩
  exports := ⟨[], (List.append_nil _).symm, fun _ h => nomatch h⟩
  dest := h
  changed _ h := absurd rfl h

theorem trans (h : Within dest here allowed a b) (h' : Within dest here allowed b c) :
    Within dest here allowed a c := by
  obtain ⟨made, hmade, hbelow⟩ := h.created
  obtain ⟨made', hmade', hbelow'⟩ := h'.created
  obtain ⟨out, hout, hallowed⟩ := h.exports
  obtain ⟨out', hout', hallowed'⟩ := h'.exports
  refine ⟨⟨made ++ made', ?_, ?_⟩, ⟨out ++ out', ?_, ?_⟩, h'.dest, ?_⟩
  · rw [hmade', hmade, List.append_assoc]
  · intro path hpath
    exact (List.mem_append.mp hpath).elim (hbelow path) (hbelow' path)
  · rw [hout', hout, List.append_assoc]
  · intro e he
    exact (List.mem_append.mp he).elim (hallowed e) (hallowed' e)
  · intro place hne
    by_cases hb : b.fs.node place = a.fs.node place
    · exact h'.changed place fun heq => hne (heq.trans hb)
    · exact h.changed place hb

theorem mono {allowed' : List String → Prop} (h : Within dest here allowed a b)
    (himp : ∀ parts, allowed parts → allowed' parts) : Within dest here allowed' a b := by
  obtain ⟨out, hout, hallowed⟩ := h.exports
  refine ⟨h.created, ⟨out, hout, fun e he => ?_⟩, h.dest, h.changed⟩
  obtain ⟨parts, hleads, hparts⟩ := hallowed e he
  exact ⟨parts, hleads, himp parts hparts⟩

end Within

section Stretches

variable {dest : List Component} {here : List String} {allowed : List String → Prop} {d : Disk}

theorem within_create_dir_all (h : DirAt dest here d) {path : List Component}
    {parts : List String} (hpath : LeadsTo dest parts path) :
    Within dest here allowed d (d.create_dir_all path).2 := by
  obtain ⟨rfl, hplain⟩ := hpath
  have hgrows := d.fs.create_dir_all_grows (dest ++ parts.map .Normal)
  refine ⟨⟨_, rfl, ?_⟩, ⟨[], (List.append_nil _).symm, fun _ h => nomatch h⟩,
    ⟨hgrows.locate h.1, hgrows.keeps _ _ h.2⟩, ?_⟩
  · intro path hpath
    rw [List.mem_singleton.mp hpath]
    exact ⟨parts, rfl, hplain⟩
  · intro place hne
    change (d.fs.create_dir_all (dest ++ parts.map .Normal)).2.node place ≠ _ at hne
    rcases Fs.create_dir_all_below h.1 h.2 parts with ⟨-, fs', hcreate, hdeepens⟩ | ⟨-, e, hcreate⟩
    · rw [hcreate] at hne
      by_contra hnot
      refine hne (hdeepens.same place fun pre hpre heq => ?_)
      by_cases hnil : pre = []
      · -- The directory itself was there.
        subst hnil
        rw [List.append_nil] at heq
        have hmade := hdeepens.made [] List.nil_prefix
        rw [List.append_nil] at hmade
        exact hne (by rw [heq, hmade, h.2])
      · exact hnot ⟨pre, hnil, fun part hpart => hplain part (hpre.subset hpart), heq⟩
    · rw [hcreate] at hne
      exact absurd rfl hne

theorem within_export_blob (h : DirAt dest here d) {path : List Component} {parts : List String}
    (hpath : LeadsTo dest parts path) (hne : parts ≠ []) (hallowed : allowed parts) (bytes : Bytes)
    (exported : Option Node → Except String Unit) :
    Within dest here allowed d (d.export_blob path bytes exported).2 := by
  obtain ⟨rfl, hplain⟩ := hpath
  have hrefused : Within dest here allowed d
      { d with exports := d.exports ++ [⟨d.fs, dest ++ parts.map .Normal, bytes⟩] } := by
    refine ⟨⟨[], (List.append_nil _).symm, fun _ h => nomatch h⟩, ⟨_, rfl, fun e he => ?_⟩, h,
      fun place hplace => absurd rfl hplace⟩
    rw [List.mem_singleton.mp he]
    exact ⟨parts, ⟨rfl, hplain⟩, hallowed⟩
  unfold Disk.export_blob
  simp only
  split
  · rename_i place fs hlocate hwrite
    split
    · obtain ⟨place', hlocate', hdir, hcwd, hnode⟩ := Fs.write_spec hwrite
      have hplace : place' = here ++ parts := by
        rw [Fs.locate_append _ h.1] at hlocate'
        exact walk_names_place hlocate'
      have hkeeps := Fs.write_keeps_dirs hwrite
      refine ⟨hrefused.created, hrefused.exports, ⟨hkeeps.locate h.1, hkeeps.dirs _ h.2⟩, ?_⟩
      · intro other hother
        change fs.node other ≠ d.fs.node other at hother
        rw [hnode] at hother
        split at hother
        · rename_i heq
          exact ⟨parts, hne, hplain, heq.trans hplace⟩
        · exact absurd rfl hother
    · exact hrefused
  · exact hrefused
  · exact hrefused

theorem parent_leadsTo {path : List Component} {parts : List String}
    (hpath : LeadsTo dest parts path) (hne : parts ≠ []) :
    ∃ dir, parent path = some dir ∧ LeadsTo dest parts.dropLast dir := by
  obtain ⟨rfl, hplain⟩ := hpath
  obtain rfl | ⟨up, part, rfl⟩ := List.eq_nil_or_concat' parts
  · exact absurd rfl hne
  · rw [List.dropLast_concat]
    refine ⟨dest ++ up.map .Normal, ?_, rfl, fun p hp => hplain p (List.mem_append_left _ hp)⟩
    rw [List.map_append, ← List.append_assoc]
    exact parent_append _ part

theorem within_create_parent (h : DirAt dest here d) {path : List Component}
    {parts : List String} (hpath : LeadsTo dest parts path) (hne : parts ≠ []) :
    Within dest here allowed d (d.create_parent path).2 := by
  obtain ⟨dir, hparent, hup⟩ := parent_leadsTo hpath hne
  unfold Disk.create_parent
  rw [hparent]
  exact within_create_dir_all h hup

theorem within_export_to (h : DirAt dest here d) {path : List Component} {parts : List String}
    (hpath : LeadsTo dest parts path) (hne : parts ≠ []) (hallowed : allowed parts) (bytes : Bytes)
    (exported : Option Node → Except String Unit) :
    Within dest here allowed d (d.export_to path bytes exported).2 := by
  have hmade : Within dest here allowed d (d.create_parent path).2 :=
    within_create_parent h hpath hne
  have hout := hmade.trans (within_export_blob hmade.dest hpath hne hallowed bytes exported)
  unfold Disk.export_to
  rcases hcreate : d.create_parent path with ⟨e | u, d'⟩
  · rw [hcreate] at hmade
    exact hmade
  · rw [hcreate] at hout
    simp only
    rcases hblob : d'.export_blob path bytes exported with ⟨e | u, d''⟩
    · rw [hblob] at hout
      exact hout
    · rw [hblob] at hout
      exact hout

/-- A file that is exported into `dest` lands one plain name below it. -/
theorem within_export_directory {dest : String} (h : DirAt (components dest) here d)
    (hash : BlobHash) (bytes : Bytes) (offered : Option String)
    (exported : Option Node → Except String Unit) :
    Within (components dest) here (fun parts => ∃ file, parts = [file]) d
      (d.export hash bytes offered exported (.Directory dest)).2 := by
  have hdest : LeadsTo (components dest) [] (components dest) :=
    ⟨(List.append_nil _).symm, fun _ h => nomatch h⟩
  have hmade : Within (components dest) here (fun parts => ∃ file, parts = [file]) d
      (d.create_dir_all (components dest)).2 := within_create_dir_all h hdest
  unfold Disk.export
  simp only
  rcases hcreate : d.create_dir_all (components dest) with ⟨e | u, d'⟩
  · rw [hcreate] at hmade
    exact hmade
  · rw [hcreate] at hmade
    simp only
    rcases hsafe : collision_safe_path d'.fs dest (Disk.export_name offered hash) hash with e | path
    · exact hmade
    · obtain ⟨file, hplain, hpath, -⟩ := collision_safe_path_spec hsafe
      have hleads : LeadsTo (components dest) [file] (components path) :=
        ⟨hpath, fun p hp => List.mem_singleton.mp hp ▸ hplain⟩
      have hout := hmade.trans (within_export_to hmade.dest hleads (List.cons_ne_nil _ _)
        ⟨file, rfl⟩ bytes exported)
      simp only
      rcases hto : d'.export_to (components path) bytes exported with ⟨e | out, d''⟩
      · rw [hto] at hout
        exact hout
      · rw [hto] at hout
        exact hout

variable [Crates]

/-- The members of a collection land below its root. -/
def InRoot (name : String) (parts : List String) : Prop := ∃ rel, rel ≠ [] ∧ parts = name :: rel

theorem within_fetch_member {dest : String} (h : DirAt (components dest) here d) {name : String}
    (hname : SafePart name) (world : FetchDirWorld) (i : Nat) (entry : ManifestEntry) :
    Within (components dest) here (InRoot name) d
      (d.fetch_member world (join dest name) i entry).2 := by
  unfold Disk.fetch_member
  rcases hrel : sanitize_relative entry.path with e | rel
  · exact .refl h
  · obtain ⟨-, -, hne, hsafe⟩ := sanitize_relative_eq_ok.mp hrel
    have hplain : ∀ part ∈ name :: rel, PlainName part := by
      intro part hpart
      rcases List.mem_cons.mp hpart with rfl | hpart
      · exact hname.plain
      · exact (hsafe part hpart).plain
    have htarget : LeadsTo (components dest) (name :: rel)
        (components (join (join dest name) (to_path rel))) := by
      refine ⟨?_, hplain⟩
      rw [components_join_path fun part hpart => (hsafe part hpart).toFileName,
        components_join_name hname.toFileName, List.append_assoc]
      rfl
    have hmade : Within (components dest) here (InRoot name) d (d.create_parent
        (components (join (join dest name) (to_path rel)))).2 :=
      within_create_parent h htarget (List.cons_ne_nil _ _)
    simp only
    rcases hcreate : d.create_parent (components (join (join dest name) (to_path rel)))
      with ⟨e | u, d'⟩
    · rw [hcreate] at hmade
      exact hmade
    · rw [hcreate] at hmade
      simp only
      rcases hhash : BlobHash.from_hex entry.hash with e | member
      · exact hmade
      · simp only
        rcases hfetch : world.member i member with e | bytes
        · exact hmade
        · have hout := hmade.trans (within_export_to hmade.dest htarget (List.cons_ne_nil _ _)
            ⟨rel, hne, rfl⟩ bytes (world.exported i))
          simp only [Disk.export]
          rcases hto : d'.export_to (components (join (join dest name) (to_path rel))) bytes
            (world.exported i) with ⟨e | out, d''⟩
          · rw [hto] at hout
            exact hout
          · rw [hto] at hout
            simp only
            split <;> exact hout

theorem within_fetch_members {dest : String} {name : String} (hname : SafePart name)
    (world : FetchDirWorld) (entries : List ManifestEntry) (i : Nat) {d : Disk}
    (h : DirAt (components dest) here d) :
    Within (components dest) here (InRoot name) d
      (d.fetch_members world (join dest name) i entries).2 := by
  induction entries generalizing i d with
  | nil => exact .refl h
  | cons entry entries ih =>
    have hmember := within_fetch_member h hname world i entry
    unfold Disk.fetch_members
    rcases hfetch : d.fetch_member world (join dest name) i entry with ⟨e | path, d'⟩
    · rw [hfetch] at hmember
      exact hmember
    · rw [hfetch] at hmember
      have hrest := hmember.trans (ih (i + 1) hmember.dest)
      simp only
      rcases hmembers : d'.fetch_members world (join dest name) (i + 1) entries with ⟨e | paths, d''⟩
      · rw [hmembers] at hrest
        exact hrest
      · rw [hmembers] at hrest
        exact hrest

theorem within_fetch_collection {dest : String} (h : DirAt (components dest) here d)
    (world : FetchDirWorld) (manifest : Manifest) :
    Within (components dest) here (InRoot manifest.name) d
      (d.fetch_collection world dest manifest).2 := by
  unfold Disk.fetch_collection
  rcases hname : sanitize_component manifest.name with e | name
  · exact .refl h
  · obtain ⟨rfl, hsafe⟩ := sanitize_component_eq_ok.mp hname
    have hroot : LeadsTo (components dest) [manifest.name] (components (join dest manifest.name)) :=
      ⟨components_join_name hsafe.toFileName dest,
        fun part hpart => List.mem_singleton.mp hpart ▸ hsafe.plain⟩
    have hmade : Within (components dest) here (InRoot manifest.name) d
        (d.create_dir_all (components (join dest manifest.name))).2 := within_create_dir_all h hroot
    simp only
    rcases hcreate : d.create_dir_all (components (join dest manifest.name)) with ⟨e | u, d'⟩
    · rw [hcreate] at hmade
      exact hmade
    · rw [hcreate] at hmade
      exact hmade.trans (within_fetch_members hsafe world manifest.entries 0 hmade.dest)

omit [Crates] in
theorem within_fetch_file {dest : String} (h : DirAt (components dest) here d)
    (world : FetchDirWorld) (hash : BlobHash) (bytes : Bytes) :
    Within (components dest) here (fun parts => ∃ file, parts = [file]) d
      (d.fetch_file world dest hash bytes).2 := by
  have hout := within_export_directory h hash bytes world.offered_name (world.exported 0)
  unfold Disk.fetch_file
  rcases world.refetched with e | u
  · exact .refl h
  · simp only
    rcases hexport : d.export hash bytes world.offered_name (world.exported 0) (.Directory dest)
      with ⟨e | path, d'⟩
    · rw [hexport] at hout
      exact hout
    · rw [hexport] at hout
      exact hout

end Stretches

/-! ## Nothing outside -/

theorem stands_created {d d' : Disk} {path : List Component}
    (h : d.create_dir_all path = (.ok (), d')) : ∃ here, DirAt path here d' := by
  have hcreate : d.fs.create_dir_all path = (.ok (), d'.fs) := by
    unfold Disk.create_dir_all at h
    obtain ⟨hresult, rfl⟩ := Prod.mk.inj h
    exact Prod.ext hresult rfl
  exact Fs.is_dir_iff.mp (Fs.create_dir_all_is_dir hcreate)

section Fetches

variable [Crates]

/-- A member that landed had a path of safe names. -/
theorem sanitized_of_fetch_member {d : Disk} {world : FetchDirWorld} {root : String} {i : Nat}
    {entry : ManifestEntry} {path : List Component} {d' : Disk}
    (h : d.fetch_member world root i entry = (.ok path, d')) :
    ∃ rel, sanitize_relative entry.path = .ok rel := by
  unfold Disk.fetch_member at h
  rcases hrel : sanitize_relative entry.path with e | rel
  · rw [hrel] at h
    cases h
  · exact ⟨rel, rfl⟩

theorem sanitized_of_fetch_members {world : FetchDirWorld} {root : String}
    {entries : List ManifestEntry} {i : Nat} {d d' : Disk} {paths : List (List Component)}
    (h : d.fetch_members world root i entries = (.ok paths, d')) :
    ∀ entry ∈ entries, ∃ rel, sanitize_relative entry.path = .ok rel := by
  induction entries generalizing i d d' paths with
  | nil => exact fun _ hentry => nomatch hentry
  | cons entry entries ih =>
    unfold Disk.fetch_members at h
    rcases hmember : d.fetch_member world root i entry with ⟨e | path, d₁⟩
    · rw [hmember] at h
      cases h
    · rw [hmember] at h
      simp only at h
      rcases hrest : d₁.fetch_members world root (i + 1) entries with ⟨e | rest, d₂⟩
      · rw [hrest] at h
        cases h
      · intro other hother
        rcases List.mem_cons.mp hother with rfl | hother
        · exact sanitized_of_fetch_member hmember
        · exact ih hrest other hother

/-- A collection lands only if its name and all its paths are safe. -/
theorem sanitized_of_fetch_collection {d d' : Disk} {world : FetchDirWorld} {dest : String}
    {manifest : Manifest} {paths : List (List Component)}
    (h : d.fetch_collection world dest manifest = (.ok paths, d')) :
    SafePart manifest.name ∧
      ∀ entry ∈ manifest.entries, ∃ rel, sanitize_relative entry.path = .ok rel := by
  unfold Disk.fetch_collection at h
  rcases hname : sanitize_component manifest.name with e | name
  · rw [hname] at h
    cases h
  · obtain ⟨rfl, hsafe⟩ := sanitize_component_eq_ok.mp hname
    rw [hname] at h
    simp only at h
    rcases hcreate : d.create_dir_all (components (join dest manifest.name)) with ⟨e | u, d₁⟩
    · rw [hcreate] at h
      cases h
    · rw [hcreate] at h
      exact ⟨hsafe, sanitized_of_fetch_members h⟩

/-- What a fetch may export to: one name below `dest`, or for a collection the
places of its members. -/
def Lands (world : FetchDirWorld) (hash : BlobHash) (parts : List String) : Prop :=
  parts ≠ [] ∧ ∀ bytes manifest, world.fetch hash = .ok bytes →
    read_manifest world.toFetchAnyWorld hash bytes = .ok (some manifest) →
      InRoot manifest.name parts

/-- Once `dest` is there, a fetch stays below it. -/
theorem within_fetch_any (d : Disk) (world : FetchDirWorld) (dest : String) (hash : BlobHash)
    {d' : Disk} (h : d.create_dir_all (components dest) = (.ok (), d')) :
    ∃ here, DirAt (components dest) here d' ∧
      Within (components dest) here (Lands world hash) d'
        (d.fetch_any_reporting world dest hash).2 := by
  obtain ⟨here, hstands⟩ := stands_created h
  refine ⟨here, hstands, ?_⟩
  unfold Disk.fetch_any_reporting
  rw [h]
  simp only
  rcases hfetch : world.fetch hash with e | bytes
  · exact .refl hstands
  · simp only
    rcases hread : read_manifest world.toFetchAnyWorld hash bytes with e | _ | manifest
    · exact .refl hstands
    · refine (within_fetch_file hstands world hash bytes).mono ?_
      rintro parts ⟨file, rfl⟩
      refine ⟨List.cons_ne_nil _ _, fun bytes' manifest' hfetch' hread' => ?_⟩
      cases hfetch.symm.trans hfetch'
      cases hread.symm.trans hread'
    · refine (within_fetch_collection hstands world manifest).mono ?_
      rintro parts ⟨rel, hne, rfl⟩
      refine ⟨List.cons_ne_nil _ _, fun bytes' manifest' hfetch' hread' => ?_⟩
      cases hfetch.symm.trans hfetch'
      cases hread.symm.trans hread'
      exact ⟨rel, hne, rfl⟩

/-- A fetch writes nothing outside its destination. Besides the destination
and the directories on the way to it, what it makes or exports to lies below
the destination, through names that lead one step down; the members of a
collection lie below its own directory there. A manifest with another name or
path in it ends the fetch with an error. -/
theorem nothing_lands_outside (d : Disk) (world : FetchDirWorld) (dest : String)
    (hash : BlobHash) :
    let made := (d.create_dir_all (components dest)).2
    let run := d.fetch_any_reporting world dest hash
    (∀ place, made.fs.node place ≠ d.fs.node place → made.fs.node place = some .dir ∧
      ∃ pre, pre <+: components dest ∧ made.fs.locate pre = .ok place) ∧
    (∀ place, run.2.fs.node place ≠ made.fs.node place →
      ∃ here parts, made.fs.locate (components dest) = .ok here ∧ parts ≠ [] ∧
        (∀ part ∈ parts, PlainName part) ∧ place = here ++ parts) ∧
    (∃ created exports, run.2.created = made.created ++ created ∧
      run.2.exports = d.exports ++ exports ∧
      (∀ path ∈ created, ∃ parts, LeadsTo (components dest) parts path) ∧
      ∀ e ∈ exports, ∃ parts, LeadsTo (components dest) parts e.path ∧ Lands world hash parts) ∧
    ∀ bytes manifest, world.fetch hash = .ok bytes →
      read_manifest world.toFetchAnyWorld hash bytes = .ok (some manifest) →
      (¬ SafePart manifest.name ∨ ∃ entry ∈ manifest.entries, ∀ rel, rel ≠ [] →
        (∀ part ∈ rel, SafePart part) → components entry.path ≠ rel.map .Normal) →
      ∃ e, run.1 = .error e := by
  dsimp only
  refine ⟨?_, ?_⟩
  · intro place hne
    obtain ⟨hdir, pre, hpre, hlocate⟩ :=
      Fs.create_dirs_places d.fs (components dest).reverse place hne
    rw [List.reverse_reverse] at hpre
    exact ⟨hdir, pre, hpre, hlocate⟩
  · rcases hcreate : d.create_dir_all (components dest) with ⟨e | u, made⟩
    · have hrun : d.fetch_any_reporting world dest hash = (.error (.Io e.text), made) := by
        unfold Disk.fetch_any_reporting
        rw [hcreate]
      have hexports : made.exports = d.exports :=
        (congrArg (fun p => p.2.exports) hcreate).symm
      rw [hrun]
      refine ⟨fun place hne => absurd rfl hne, ⟨[], [], ?_, ?_, (fun _ h => nomatch h),
        (fun _ h => nomatch h)⟩, fun _ _ _ _ _ => ⟨_, rfl⟩⟩
      · exact (List.append_nil _).symm
      · rw [List.append_nil]
        exact hexports
    · cases u
      obtain ⟨here, hstands, hwithin⟩ := within_fetch_any d world dest hash hcreate
      obtain ⟨created, hcreated, hbelow⟩ := hwithin.created
      obtain ⟨exports, hexports, hlands⟩ := hwithin.exports
      have hsame : made.exports = d.exports :=
        (congrArg (fun p => p.2.exports) hcreate).symm
      refine ⟨?_, ⟨created, exports, hcreated, hsame ▸ hexports, hbelow, hlands⟩, ?_⟩
      · intro place hne
        obtain ⟨parts, hparts, hplain, hplace⟩ := hwithin.changed place hne
        exact ⟨here, parts, hstands.1, hparts, hplain, hplace⟩
      · intro bytes manifest hfetch hread hstray
        have hrun : d.fetch_any_reporting world dest hash =
            made.fetch_collection world dest manifest := by
          unfold Disk.fetch_any_reporting
          simp only [hcreate, hfetch, hread]
        rw [hrun]
        rcases hcollection : made.fetch_collection world dest manifest with ⟨e | paths, d'⟩
        · exact ⟨e, rfl⟩
        · obtain ⟨hname, hentries⟩ := sanitized_of_fetch_collection hcollection
          rcases hstray with hstray | ⟨entry, hentry, hstray⟩
          · exact absurd hname hstray
          · obtain ⟨rel, hrel⟩ := hentries entry hentry
            obtain ⟨-, hcomponents, hne, hsafe⟩ := sanitize_relative_eq_ok.mp hrel
            exact absurd hcomponents (hstray rel hne hsafe)

/-! ## The file that was announced -/

omit [Crates] in
theorem export_blob_ok {d d' : Disk} {path : List Component} {bytes : Bytes}
    {exported : Option Node → Except String Unit}
    (h : d.export_blob path bytes exported = (.ok (), d')) :
    d'.exports = d.exports ++ [⟨d.fs, path, bytes⟩] ∧
      ∃ place, d'.fs.locate path = .ok place ∧ d'.fs.node place = some (.file bytes) := by
  unfold Disk.export_blob at h
  simp only at h
  split at h
  · rename_i place fs hlocate hwrite
    split at h
    · cases h
      obtain ⟨place', hlocate', -, -, hnode⟩ := Fs.write_spec hwrite
      refine ⟨rfl, place', (Fs.write_keeps_dirs hwrite).locate hlocate', ?_⟩
      exact (hnode place').trans (if_pos rfl)
    · cases h
  · cases h
  · cases h

omit [Crates] in
/-- An export that went through was made once, and its bytes stand at the path. -/
theorem export_to_ok {d d' : Disk} {path out : List Component} {bytes : Bytes}
    {exported : Option Node → Except String Unit}
    (h : d.export_to path bytes exported = (.ok out, d')) :
    ∃ before, d'.exports = d.exports ++ [⟨before, path, bytes⟩] ∧
      ∃ place, d'.fs.locate path = .ok place ∧ d'.fs.node place = some (.file bytes) := by
  unfold Disk.export_to at h
  rcases hmade : d.create_parent path with ⟨e | u, d₁⟩
  · rw [hmade] at h
    cases h
  · have hexports₁ : d₁.exports = d.exports := by
      have hsame := congrArg (fun p => p.2.exports) hmade
      unfold Disk.create_parent at hsame
      split at hsame <;> exact hsame.symm
    rw [hmade] at h
    simp only at h
    rcases hblob : d₁.export_blob path bytes exported with ⟨e | u, d₂⟩
    · rw [hblob] at h
      cases h
    · rw [hblob] at h
      cases h
      obtain ⟨hexports, hplace⟩ := export_blob_ok hblob
      rw [hexports₁] at hexports
      exact ⟨d₁.fs, hexports, hplace⟩

/-- The run delivered the bytes as one file in `dest`. -/
def DeliveredAsFile (d : Disk) (dest : String) (bytes : Bytes)
    (run : Except SdkError (List (List Component)) × Disk) : Prop :=
  ∃ path before file, run.1 = .ok [path] ∧
    run.2.exports = d.exports ++ [⟨before, components dest ++ [.Normal file], bytes⟩] ∧
    ∃ place, run.2.fs.locate (components dest ++ [.Normal file]) = .ok place ∧
      run.2.fs.node place = some (.file bytes)

omit [Crates] in
/-- A blob that is exported as a file is delivered as that. -/
theorem delivered_of_fetch_file {d d' : Disk} {world : FetchDirWorld} {dest : String}
    {hash : BlobHash} {bytes : Bytes} {paths : List (List Component)}
    (h : d.fetch_file world dest hash bytes = (.ok paths, d')) :
    DeliveredAsFile d dest bytes (.ok paths, d') := by
  unfold Disk.fetch_file at h
  rcases hagain : world.refetched with e | u
  · rw [hagain] at h
    cases h
  · rw [hagain] at h
    simp only [Disk.export] at h
    rcases hcreate : d.create_dir_all (components dest) with ⟨e | u, d₁⟩
    · rw [hcreate] at h
      cases h
    · have hexports₁ : d₁.exports = d.exports := (congrArg (fun p => p.2.exports) hcreate).symm
      rw [hcreate] at h
      simp only at h
      rcases hsafe : collision_safe_path d₁.fs dest (Disk.export_name world.offered_name hash) hash
        with e | path
      · rw [hsafe] at h
        cases h
      · rw [hsafe] at h
        simp only at h
        rcases hto : d₁.export_to (components path) bytes (world.exported 0) with ⟨e | out, d₂⟩
        · rw [hto] at h
          cases h
        · rw [hto] at h
          cases h
          obtain ⟨file, -, hpath, -⟩ := collision_safe_path_spec hsafe
          obtain ⟨before, hexports, hplace⟩ := export_to_ok hto
          rw [hpath] at hexports hplace
          exact ⟨out, before, file, rfl, hexports₁ ▸ hexports, hplace⟩

/-- What a collection exports never lies in `dest` itself. -/
theorem not_delivered_of_fetch_collection {d : Disk} {world : FetchDirWorld} {dest : String}
    {manifest : Manifest} {bytes : Bytes} {here : List String}
    (h : DirAt (components dest) here d) :
    ¬ DeliveredAsFile d dest bytes (d.fetch_collection world dest manifest) := by
  rintro ⟨path, before, file, -, hexports, -⟩
  obtain ⟨out, hout, hinroot⟩ := (within_fetch_collection h world manifest).exports
  have hsame := List.append_cancel_left (hexports.symm.trans hout)
  obtain ⟨parts, ⟨hpath, -⟩, rel, hne, rfl⟩ := hinroot _ (hsame ▸ List.mem_singleton_self _)
  have hlen := congrArg List.length (List.append_cancel_left hpath)
  rw [List.length_map] at hlen
  exact hne (List.eq_nil_of_length_eq_zero (Nat.succ_inj.mp hlen).symm)

/-- A file announced as something else than a collection is delivered as that
file, just when it is too long for a manifest or does not read as one. -/
theorem announced_file_is_delivered_iff (d : Disk) (world : FetchDirWorld) (dest : String)
    (hash : BlobHash) (bytes : Bytes) (media_type : String)
    (hfetch : world.fetch hash = .ok bytes) (htype : world.media_type hash = some media_type)
    (hother : media_type ≠ COLLECTION_MEDIA_TYPE)
    (hdest : (d.create_dir_all (components dest)).1 = .ok ())
    (hfile : ((d.create_dir_all (components dest)).2.fetch_file world dest hash bytes).1.isOk =
      true) :
    DeliveredAsFile d dest bytes (d.fetch_any_reporting world dest hash) ↔
      bytes.length > MAX_MANIFEST_BYTES ∨ ∀ manifest, Crates.from_slice bytes ≠ .ok manifest := by
  rcases hcreate : d.create_dir_all (components dest) with ⟨result, made⟩
  rw [hcreate] at hdest hfile
  cases hdest
  have hexports : made.exports = d.exports := (congrArg (fun p => p.2.exports) hcreate).symm
  obtain ⟨here, hstands⟩ := stands_created hcreate
  have hsniffs : ¬ world.media_type hash = some COLLECTION_MEDIA_TYPE := by
    rw [htype]
    exact fun h => hother (Option.some_inj.mp h)
  have hfailed : ∀ e, read_manifest world.toFetchAnyWorld hash bytes = .error e →
      d.fetch_any_reporting world dest hash = (.error e, made) := by
    intro e hread
    unfold Disk.fetch_any_reporting
    simp only [hcreate, hfetch, hread]
  have hcollection : ∀ manifest,
      read_manifest world.toFetchAnyWorld hash bytes = .ok (some manifest) →
      d.fetch_any_reporting world dest hash = made.fetch_collection world dest manifest := by
    intro manifest hread
    unfold Disk.fetch_any_reporting
    simp only [hcreate, hfetch, hread]
  have hsingle : read_manifest world.toFetchAnyWorld hash bytes = .ok none →
      d.fetch_any_reporting world dest hash = made.fetch_file world dest hash bytes := by
    intro hread
    unfold Disk.fetch_any_reporting
    simp only [hcreate, hfetch, hread]
  have hplain : read_manifest world.toFetchAnyWorld hash bytes = .ok none →
      DeliveredAsFile d dest bytes (d.fetch_any_reporting world dest hash) := by
    intro hread
    rw [hsingle hread]
    rcases hlands : made.fetch_file world dest hash bytes with ⟨e | paths, d'⟩
    · rw [hlands] at hfile
      cases hfile
    · have hdelivered := delivered_of_fetch_file hlands
      unfold DeliveredAsFile at hdelivered ⊢
      rwa [hexports] at hdelivered
  constructor
  · intro hdelivered
    by_contra hnot
    push Not at hnot
    obtain ⟨hsize, manifest, hparse⟩ := hnot
    have hread : read_manifest world.toFetchAnyWorld hash bytes ≠ .ok none := by
      unfold read_manifest
      rw [if_neg (Nat.not_lt.mpr hsize), hparse]
      simp only
      split
      · split <;> simp
      · simp
    rcases hcase : read_manifest world.toFetchAnyWorld hash bytes with e | _ | m
    · rw [hfailed e hcase] at hdelivered
      obtain ⟨_, _, _, hok, -⟩ := hdelivered
      cases hok
    · exact hread hcase
    · rw [hcollection m hcase] at hdelivered
      unfold DeliveredAsFile at hdelivered
      rw [← hexports] at hdelivered
      exact not_delivered_of_fetch_collection hstands hdelivered
  · rintro (hsize | hparse)
    · refine hplain ?_
      unfold read_manifest
      rw [if_pos hsize, if_neg]
      simpa using hsniffs
    · refine hplain ?_
      unfold read_manifest
      split
      · rw [if_neg]
        simpa using hsniffs
      · rcases hslice : Crates.from_slice bytes with e | manifest
        · simp only
          rw [if_neg]
          simpa using hsniffs
        · exact absurd hslice (hparse manifest)

end Fetches

/-! ## A file that reads as a manifest -/

namespace json_file

def manifest : Manifest := { iroh_drop_collection := 1, name := "t", entries := [] }

def json : Bytes := "\x7b\"iroh_drop_collection\":1,\"name\":\"t\",\"entries\":[]\x7d".toUTF8.toList

def hash : BlobHash := ⟨.fill 32 5⟩

/-- The crates, on this one text. -/
local instance : Crates where
  hash_of _ := hash
  to_vec_pretty _ := .ok json
  from_slice bytes := if bytes = json then .ok manifest else .error "expected value"
  debug s := "\"" ++ s ++ "\""

/-- A receiver that knows the blob as a JSON file. -/
def receiver (bytes : Bytes) : FetchDirWorld :=
  { dest_created := .ok ()
    fetch := fun _ => .ok bytes
    media_type := fun _ => some "application/json"
    display_name := fun _ => "a.json"
    os_error := fun _ => ""
    offered_name := some "a.json"
    refetched := .ok ()
    member := fun _ _ => .ok bytes
    exported := fun _ _ => .ok () }

def disk : Disk := { fs := .bare, created := [], exports := [] }

theorem run_eq : (disk.fetch_any_reporting (receiver json) "in" hash).1 = .ok [] := by
  decide +kernel

/-- The file is taken for a collection of nothing. -/
theorem a_json_file_is_lost :
    ¬ ∀ [Crates] (d : Disk) (world : FetchDirWorld) (dest : String) (hash : BlobHash)
      (bytes : Bytes) (media_type : String), world.fetch hash = .ok bytes →
      world.media_type hash = some media_type → media_type ≠ COLLECTION_MEDIA_TYPE →
      (d.create_dir_all (components dest)).1 = .ok () →
      ((d.create_dir_all (components dest)).2.fetch_file world dest hash bytes).1.isOk = true →
      DeliveredAsFile d dest bytes (d.fetch_any_reporting world dest hash) := by
  intro h
  obtain ⟨path, _, _, hok, -⟩ := h disk (receiver json) "in" hash json "application/json" rfl rfl
    (by decide +kernel) (by decide +kernel) (by decide +kernel)
  rw [run_eq] at hok
  cases hok

/-- The law at work on another file. -/
theorem a_text_file_is_delivered_iff :
    DeliveredAsFile disk "in" [0x68, 0x69] (disk.fetch_any_reporting (receiver [0x68, 0x69]) "in" hash) ↔
      [0x68, 0x69].length > MAX_MANIFEST_BYTES ∨
        ∀ manifest, Crates.from_slice [0x68, 0x69] ≠ .ok manifest :=
  announced_file_is_delivered_iff disk (receiver [0x68, 0x69]) "in" hash [0x68, 0x69]
    "application/json" rfl rfl (by decide +kernel) (by decide +kernel) (by decide +kernel)

end json_file

end iroh_drop
