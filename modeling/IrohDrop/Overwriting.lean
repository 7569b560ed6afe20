-- Which fetches leave every file as it was, and which members of a collection
-- land on something that was there.
import IrohDrop.Landing

open rust_std

namespace iroh_drop

/-- Every path that was exported to was free, and no file that stood there
before, or before a later export, has changed. -/
def NeverOverwrites (d d' : Disk) : Prop :=
  ∃ exports, d'.exports = d.exports ++ exports ∧
    (∀ e ∈ exports, e.before.exists e.path = false) ∧
    (∀ place bytes, d.fs.node place = some (.file bytes) →
      d'.fs.node place = some (.file bytes)) ∧
    ∀ e ∈ exports, ∀ place bytes, e.before.node place = some (.file bytes) →
      d'.fs.node place = some (.file bytes)

/-! ## The calls of a fetch -/

section Calls

variable [Crates] {R : Disk → Disk → Prop}

/-- A relation that the calls of the file system are in, and that composes. -/
structure HoldsOfCalls (R : Disk → Disk → Prop) : Prop where
  refl : ∀ d, R d d
  trans : ∀ {a b c}, R a b → R b c → R a c
  create_dir_all : ∀ d path, R d (d.create_dir_all path).2
  export_blob : ∀ d path bytes exported, R d (d.export_blob path bytes exported).2

namespace HoldsOfCalls

omit [Crates] in
theorem create_parent (h : HoldsOfCalls R) (d : Disk) (path : List Component) :
    R d (d.create_parent path).2 := by
  unfold Disk.create_parent
  split
  · exact h.create_dir_all d _
  · exact h.refl d

omit [Crates] in
theorem export_to (h : HoldsOfCalls R) (d : Disk) (path : List Component) (bytes : Bytes)
    (exported : Option Node → Except String Unit) :
    R d (d.export_to path bytes exported).2 := by
  have hmade := h.create_parent d path
  unfold Disk.export_to
  rcases hparent : d.create_parent path with ⟨e | u, d₁⟩
  · rw [hparent] at hmade
    exact hmade
  · rw [hparent] at hmade
    have hout := h.trans hmade (h.export_blob d₁ path bytes exported)
    simp only
    rcases hblob : d₁.export_blob path bytes exported with ⟨e | u, d₂⟩
    · rw [hblob] at hout
      exact hout
    · rw [hblob] at hout
      exact hout

omit [Crates] in
theorem export_file (h : HoldsOfCalls R) (d : Disk) (hash : BlobHash) (bytes : Bytes)
    (offered : Option String) (exported : Option Node → Except String Unit) (output : FetchOutput) :
    R d (d.export hash bytes offered exported output).2 := by
  unfold Disk.export
  cases output with
  | Store => exact h.refl d
  | Exact path =>
    have hout := h.export_to d (components path) bytes exported
    simp only
    rcases hto : d.export_to (components path) bytes exported with ⟨e | out, d₁⟩
    · rw [hto] at hout
      exact hout
    · rw [hto] at hout
      exact hout
  | Directory dir =>
    have hmade := h.create_dir_all d (components dir)
    simp only
    rcases hcreate : d.create_dir_all (components dir) with ⟨e | u, d₁⟩
    · rw [hcreate] at hmade
      exact hmade
    · rw [hcreate] at hmade
      simp only
      rcases hsafe : collision_safe_path d₁.fs dir (Disk.export_name offered hash) hash with e | path
      · exact hmade
      · have hout := h.trans hmade (h.export_to d₁ (components path) bytes exported)
        simp only
        rcases hto : d₁.export_to (components path) bytes exported with ⟨e | out, d₂⟩
        · rw [hto] at hout
          exact hout
        · rw [hto] at hout
          exact hout

theorem fetch_member (h : HoldsOfCalls R) (d : Disk) (world : FetchDirWorld) (root : String)
    (i : Nat) (entry : ManifestEntry) : R d (d.fetch_member world root i entry).2 := by
  unfold Disk.fetch_member
  rcases hrel : sanitize_relative entry.path with e | rel
  · exact h.refl d
  · have hmade := h.create_parent d (components (join root (to_path rel)))
    simp only
    rcases hparent : d.create_parent (components (join root (to_path rel))) with ⟨e | u, d₁⟩
    · rw [hparent] at hmade
      exact hmade
    · rw [hparent] at hmade
      simp only
      rcases hhash : BlobHash.from_hex entry.hash with e | member
      · exact hmade
      · simp only
        rcases hfetch : world.member i member with e | bytes
        · exact hmade
        · have hout := h.trans hmade (h.export_file d₁ member bytes none (world.exported i)
            (.Exact (join root (to_path rel))))
          simp only
          rcases hto : d₁.export member bytes none (world.exported i)
            (.Exact (join root (to_path rel))) with ⟨e | out, d₂⟩
          · rw [hto] at hout
            exact hout
          · rw [hto] at hout
            simp only
            split <;> exact hout

theorem fetch_members (h : HoldsOfCalls R) (world : FetchDirWorld) (root : String)
    (entries : List ManifestEntry) (i : Nat) (d : Disk) :
    R d (d.fetch_members world root i entries).2 := by
  induction entries generalizing i d with
  | nil => exact h.refl d
  | cons entry entries ih =>
    have hmember := h.fetch_member d world root i entry
    unfold Disk.fetch_members
    rcases hfetch : d.fetch_member world root i entry with ⟨e | path, d₁⟩
    · rw [hfetch] at hmember
      exact hmember
    · rw [hfetch] at hmember
      have hrest := h.trans hmember (ih (i + 1) d₁)
      simp only
      rcases hmembers : d₁.fetch_members world root (i + 1) entries with ⟨e | paths, d₂⟩
      · rw [hmembers] at hrest
        exact hrest
      · rw [hmembers] at hrest
        exact hrest

/-- A fetch is made of such calls. -/
theorem fetch_any (h : HoldsOfCalls R) (d : Disk) (world : FetchDirWorld) (dest : String)
    (hash : BlobHash) : R d (d.fetch_any_reporting world dest hash).2 := by
  have hmade := h.create_dir_all d (components dest)
  unfold Disk.fetch_any_reporting
  rcases hcreate : d.create_dir_all (components dest) with ⟨e | u, d₁⟩
  · rw [hcreate] at hmade
    exact hmade
  · rw [hcreate] at hmade
    simp only
    rcases hfetch : world.fetch hash with e | bytes
    · exact hmade
    · simp only
      rcases hread : read_manifest world.toFetchAnyWorld hash bytes with e | _ | manifest
      · exact hmade
      · have hout := h.trans hmade (h.export_file d₁ hash bytes world.offered_name
          (world.exported 0) (.Directory dest))
        simp only [Disk.fetch_file]
        rcases world.refetched with e | u
        · exact hmade
        · simp only
          rcases hfile : d₁.export hash bytes world.offered_name (world.exported 0)
            (.Directory dest) with ⟨e | out, d₂⟩
          · rw [hfile] at hout
            exact hout
          · rw [hfile] at hout
            exact hout
      · simp only [Disk.fetch_collection]
        rcases hname : sanitize_component manifest.name with e | name
        · exact hmade
        · have hroot := h.trans hmade (h.create_dir_all d₁ (components (join dest name)))
          simp only
          rcases hcreate' : d₁.create_dir_all (components (join dest name)) with ⟨e | u, d₂⟩
          · rw [hcreate'] at hroot
            exact hroot
          · rw [hcreate'] at hroot
            exact h.trans hroot (h.fetch_members world (join dest name) manifest.entries 0 d₂)

end HoldsOfCalls

end Calls

/-! ## What an export to a free path leaves alone -/

/-- The files of a tree, as they were. -/
def KeepsFiles (fs fs' : Fs) : Prop :=
  ∀ place bytes, fs.node place = some (.file bytes) → fs'.node place = some (.file bytes)

/-- If the exports went to free paths, the files are as they were. -/
def Careful (d d' : Disk) : Prop :=
  ∃ exports, d'.exports = d.exports ++ exports ∧
    ((∀ e ∈ exports, e.before.exists e.path = false) →
      KeepsFiles d.fs d'.fs ∧ ∀ e ∈ exports, KeepsFiles e.before d'.fs)

theorem keeps_files_of_export {d : Disk} {path : List Component} {bytes : Bytes}
    {exported : Option Node → Except String Unit} (hfree : d.fs.exists path = false) :
    KeepsFiles d.fs (d.export_blob path bytes exported).2.fs := by
  intro place content hfile
  unfold Disk.export_blob
  simp only
  split
  · rename_i target fs hlocate hwrite
    split
    · obtain ⟨target', hlocate', hdir, -, hnode⟩ := Fs.write_spec hwrite
      cases hlocate.symm.trans hlocate'
      change fs.node place = _
      rw [hnode, if_neg, hfile]
      rintro rfl
      -- A file that stands at the path would have been seen.
      have hpath : path ≠ [] := by
        rintro rfl
        cases hlocate
        rw [d.fs.cwd_is_dir] at hfile
        cases hfile
      unfold Fs.exists at hfree
      simp only [hlocate, hfile, Option.isSome_some, Bool.and_true, decide_eq_false_iff_not] at hfree
      exact hfree hpath
    · exact hfile
  · exact hfile
  · exact hfile

theorem careful_calls : HoldsOfCalls Careful where
  refl d := ⟨[], (List.append_nil _).symm, fun _ => ⟨fun _ _ h => h, fun _ h => nomatch h⟩⟩
  trans := by
    rintro a b c ⟨out, hout, hkeeps⟩ ⟨out', hout', hkeeps'⟩
    refine ⟨out ++ out', ?_, fun hfree => ?_⟩
    · rw [hout', hout, List.append_assoc]
    · obtain ⟨hab, hbefore⟩ := hkeeps fun e he => hfree e (List.mem_append_left _ he)
      obtain ⟨hbc, hbefore'⟩ := hkeeps' fun e he => hfree e (List.mem_append_right _ he)
      refine ⟨fun place bytes h => hbc _ _ (hab _ _ h), fun e he => ?_⟩
      rcases List.mem_append.mp he with he | he
      · exact fun place bytes h => hbc _ _ (hbefore e he _ _ h)
      · exact hbefore' e he
  create_dir_all d path := by
    refine ⟨[], (List.append_nil _).symm, fun _ => ⟨?_, fun _ h => nomatch h⟩⟩
    intro place bytes h
    exact (d.fs.create_dir_all_grows path).keeps _ _ h
  export_blob d path bytes exported := by
    refine ⟨[⟨d.fs, path, bytes⟩], ?_, fun hfree => ?_⟩
    · unfold Disk.export_blob
      simp only
      split
      · split <;> rfl
      · rfl
      · rfl
    · have hkeeps : KeepsFiles d.fs (d.export_blob path bytes exported).2.fs :=
        keeps_files_of_export (hfree _ (List.mem_singleton_self _))
      refine ⟨hkeeps, fun e he => ?_⟩
      rw [List.mem_singleton.mp he]
      exact hkeeps

/-- It is enough that every path was free. -/
theorem neverOverwrites_iff [Crates] {d : Disk} {world : FetchDirWorld} {dest : String}
    {hash : BlobHash} {exports : List Export}
    (h : (d.fetch_any_reporting world dest hash).2.exports = d.exports ++ exports) :
    NeverOverwrites d (d.fetch_any_reporting world dest hash).2 ↔
      ∀ e ∈ exports, e.before.exists e.path = false := by
  obtain ⟨out, hout, hkeeps⟩ := careful_calls.fetch_any d world dest hash
  cases List.append_cancel_left (h.symm.trans hout)
  constructor
  · rintro ⟨exports', hexports', hfree, -⟩
    cases List.append_cancel_left (h.symm.trans hexports')
    exact hfree
  · intro hfree
    obtain ⟨hfiles, hbefore⟩ := hkeeps hfree
    exact ⟨exports, h, hfree, hfiles, hbefore⟩

/-! ## A blob that is no collection -/

theorem create_parent_of_is_dir {d : Disk} {path dir : List Component} (hparent : parent path = some dir)
    (h : d.fs.is_dir dir = true) :
    d.create_parent path = (.ok (), { d with created := d.created ++ [dir] }) := by
  unfold Disk.create_parent Disk.create_dir_all
  rw [hparent]
  simp only [Fs.create_dir_all_of_is_dir h]

theorem export_blob_exports (d : Disk) (path : List Component) (bytes : Bytes)
    (exported : Option Node → Except String Unit) :
    (d.export_blob path bytes exported).2.exports = d.exports ++ [⟨d.fs, path, bytes⟩] := by
  unfold Disk.export_blob
  simp only
  split
  · split <;> rfl
  · rfl
  · rfl

/-- Where the directory is there, an export is made right away. -/
theorem export_to_exports {d : Disk} {path dir : List Component} (bytes : Bytes)
    (exported : Option Node → Except String Unit) (hparent : parent path = some dir)
    (h : d.fs.is_dir dir = true) :
    (d.export_to path bytes exported).2.exports = d.exports ++ [⟨d.fs, path, bytes⟩] := by
  unfold Disk.export_to
  rw [create_parent_of_is_dir hparent h]
  simp only
  have hexports :=
    export_blob_exports { d with created := d.created ++ [dir] } path bytes exported
  rcases hblob : ({ d with created := d.created ++ [dir] } : Disk).export_blob path bytes exported
    with ⟨e | u, d₁⟩
  · rw [hblob] at hexports
    exact hexports
  · rw [hblob] at hexports
    exact hexports

/-- A file lands where nothing stood. -/
theorem fetch_file_free (d : Disk) (world : FetchDirWorld) (dest : String) (hash : BlobHash)
    (bytes : Bytes) : ∃ exports,
      (d.fetch_file world dest hash bytes).2.exports = d.exports ++ exports ∧
        ∀ e ∈ exports, e.before.exists e.path = false := by
  have hnone : ∃ exports, d.exports = d.exports ++ exports ∧
      ∀ e ∈ exports, e.before.exists e.path = false :=
    ⟨[], (List.append_nil _).symm, fun _ h => nomatch h⟩
  unfold Disk.fetch_file
  rcases world.refetched with e | u
  · exact hnone
  · simp only [Disk.export]
    rcases hcreate : d.create_dir_all (components dest) with ⟨e | u, d₁⟩
    · have hexports : d₁.exports = d.exports := (congrArg (fun p => p.2.exports) hcreate).symm
      simp only
      rw [hexports]
      exact hnone
    · have hexports : d₁.exports = d.exports := (congrArg (fun p => p.2.exports) hcreate).symm
      cases u
      obtain ⟨here, hstands⟩ := stands_created hcreate
      simp only
      rcases hsafe : collision_safe_path d₁.fs dest (Disk.export_name world.offered_name hash) hash
        with e | path
      · simp only
        rw [hexports]
        exact hnone
      · obtain ⟨file, -, hpath, hfree⟩ := collision_safe_path_spec hsafe
        have hparent : parent (components path) = some (components dest) := by
          rw [hpath]
          exact parent_append _ file
        have hout := export_to_exports bytes (world.exported 0) hparent
          (Fs.is_dir_iff.mpr ⟨here, hstands⟩)
        rw [hexports] at hout
        simp only
        rcases hto : d₁.export_to (components path) bytes (world.exported 0) with ⟨e | out, d₂⟩
        · rw [hto] at hout
          refine ⟨_, hout, fun e he => ?_⟩
          rw [List.mem_singleton.mp he]
          exact hfree
        · rw [hto] at hout
          refine ⟨_, hout, fun e he => ?_⟩
          rw [List.mem_singleton.mp he]
          exact hfree

/-! ## The members of a collection -/

section Members

variable [Crates]

/-- The member at `i` comes to its export: its path is safe, its hash reads, its
transfer succeeds, and no file is in the way, neither one of the tree `base`
nor a member written before. -/
structure ComesToExport (base : Fs) (root : List String) (world : FetchDirWorld)
    (done : List (List String)) (i : Nat) (entry : ManifestEntry) (rel : List String)
    (bytes : Bytes) : Prop where
  path : sanitize_relative entry.path = .ok rel
  way : ∀ pre, pre <+: rel → pre ≠ rel →
    (∀ content, base.node (root ++ pre) ≠ some (.file content)) ∧ pre ∉ done
  fetched : ∃ member, BlobHash.from_hex entry.hash = .ok member ∧
    world.member i member = .ok bytes

/-- Nothing stands at a member's path: not in the tree, and no member written
before is there, or needed a directory there. -/
def Free (base : Fs) (root : List String) (done : List (List String)) (rel : List String) : Prop :=
  base.node (root ++ rel) = none ∧ ∀ other ∈ done, ¬ rel <+: other

/-- Each member that is reached goes to a free path. -/
def FreeMembers (base : Fs) (root : List String) (world : FetchDirWorld)
    (done : List (List String)) (i : Nat) : List ManifestEntry → Prop
  | [] => True
  | entry :: entries => ∀ rel bytes, ComesToExport base root world done i entry rel bytes →
      Free base root done rel ∧
        (world.exported i none = .ok () → UInt64.ofNat bytes.length = entry.size →
          FreeMembers base root world (rel :: done) (i + 1) entries)

/-- What stands below the root after the members `done`. -/
structure Built (base fs : Fs) (root : List String) (done : List (List String)) : Prop where
  none_iff : ∀ rel, fs.node (root ++ rel) = none ↔ Free base root done rel
  file_iff : ∀ rel, (∃ bytes, fs.node (root ++ rel) = some (.file bytes)) ↔
    (∃ bytes, base.node (root ++ rel) = some (.file bytes)) ∨ rel ∈ done

omit [Crates] in
theorem built_nil (base : Fs) (root : List String) : Built base base root [] :=
  ⟨fun _ => ⟨fun h => ⟨h, fun _ hother => nomatch hother⟩, fun h => h.1⟩,
    fun _ => ⟨.inl, fun h => h.resolve_right List.not_mem_nil⟩⟩

/-- What becomes of one member. -/
inductive MemberEnd (base : Fs) (root : List String) (rootpath : List Component)
    (world : FetchDirWorld) (done : List (List String)) (i : Nat) (entry : ManifestEntry)
    (d d' : Disk) (ok : Prop) : Prop
  | early (hnot : ∀ rel bytes, ¬ ComesToExport base root world done i entry rel bytes)
      (exports : d'.exports = d.exports) (failed : ¬ ok)
  | exported (rel : List String) (bytes : Bytes) (before : Fs)
      (reached : ComesToExport base root world done i entry rel bytes)
      (exports : d'.exports = d.exports ++ [⟨before, rootpath ++ rel.map .Normal, bytes⟩])
      (free : before.exists (rootpath ++ rel.map .Normal) = false ↔ Free base root done rel)
      (landed : Free base root done rel →
        (ok ↔ world.exported i none = .ok () ∧ UInt64.ofNat bytes.length = entry.size) ∧
          (ok → Built base d'.fs root (rel :: done) ∧ DirAt rootpath root d'))

omit [Crates] in
theorem DirAt.is_dir_below {d : Disk} {path : List Component} {root : List String}
    (h : DirAt path root d) {fs : Fs} {parts : List String}
    (hdeepens : Fs.Deepens d.fs fs root parts) (hgrows : Fs.Grows d.fs fs) :
    fs.is_dir (path ++ parts.map .Normal) = true := by
  obtain rfl | ⟨up, part, rfl⟩ := List.eq_nil_or_concat' parts
  · rw [List.map_nil, List.append_nil]
    exact Fs.is_dir_iff.mpr ⟨root, hgrows.locate h.1, hgrows.keeps _ _ h.2⟩
  · have hup := hdeepens.made up (List.prefix_append _ _)
    exact Fs.is_dir_iff.mpr ⟨_, Fs.locate_names (hgrows.locate h.1) part hup,
      hdeepens.made _ (List.prefix_refl _)⟩

omit [Crates] in
/-- The way to a member is free of files, as the tree and the members before it
tell. -/
theorem Built.blocked_iff {base fs : Fs} {root : List String} {done : List (List String)}
    (h : Built base fs root done) (up : List String) (part : String) :
    ¬ Fs.Blocked fs root up ↔ ∀ pre, pre <+: up ++ [part] → pre ≠ up ++ [part] →
      (∀ content, base.node (root ++ pre) ≠ some (.file content)) ∧ pre ∉ done := by
  have hpre : ∀ pre, (pre <+: up ++ [part] ∧ pre ≠ up ++ [part]) ↔ pre <+: up := by
    intro pre
    constructor
    · rintro ⟨hpre, hne⟩
      exact (List.prefix_concat_iff.mp hpre).resolve_left hne
    · intro hpre
      refine ⟨hpre.trans (List.prefix_append _ _), ?_⟩
      rintro rfl
      have := hpre.length_le
      rw [List.length_append, List.length_singleton] at this
      omega
  constructor
  · intro hclear pre hfront hne
    have hfile := (h.file_iff pre).not.mp fun ⟨bytes, hfile⟩ =>
      hclear ⟨pre, (hpre pre).mp ⟨hfront, hne⟩, bytes, hfile⟩
    push Not at hfile
    exact hfile
  · rintro hway ⟨pre, hfront, bytes, hfile⟩
    obtain ⟨hfront', hne⟩ := (hpre pre).mpr hfront
    obtain ⟨hbase, hdone⟩ := hway pre hfront' hne
    rcases (h.file_iff pre).mp ⟨bytes, hfile⟩ with ⟨content, hcontent⟩ | hmem
    · exact hbase content hcontent
    · exact hdone hmem

omit [Crates] in
/-- A member that was written to a free path adds itself, and the directories
on its way. -/
theorem Built.write {base fs made fs' : Fs} {root : List String} {done : List (List String)}
    {up : List String} {part : String} {bytes : Bytes} (h : Built base fs root done)
    (hdeepens : Fs.Deepens fs made root up) (hgrows : Fs.Grows fs made)
    (hnode : ∀ place, fs'.node place =
      if place = root ++ (up ++ [part]) then some (.file bytes) else made.node place) :
    Built base fs' root ((up ++ [part]) :: done) := by
  constructor
  · intro rel
    rw [hnode]
    constructor
    · intro hnone
      split at hnone
      · cases hnone
      · rename_i hne
        have hfree : fs.node (root ++ rel) = none := by
          rcases hfs : fs.node (root ++ rel) with _ | node
          · rfl
          · rw [hgrows.keeps _ _ hfs] at hnone
            cases hnone
        obtain ⟨hbase, hdone⟩ := (h.none_iff rel).mp hfree
        refine ⟨hbase, fun other hother hfront => ?_⟩
        rcases List.mem_cons.mp hother with rfl | hother
        · rcases List.prefix_concat_iff.mp hfront with rfl | hfront
          · exact hne rfl
          · rw [hdeepens.made rel hfront] at hnone
            cases hnone
        · exact hdone other hother hfront
    · rintro ⟨hbase, hdone⟩
      have hself := hdone _ List.mem_cons_self
      rw [if_neg, hdeepens.same]
      · exact (h.none_iff rel).mpr
          ⟨hbase, fun other hother => hdone other (List.mem_cons_of_mem _ hother)⟩
      · intro pre hpre heq
        rw [List.append_cancel_left heq] at hself
        exact hself (hpre.trans (List.prefix_append _ _))
      · intro heq
        rw [List.append_cancel_left heq] at hself
        exact hself (List.prefix_refl _)
  · intro rel
    rw [hnode, List.mem_cons]
    by_cases heq : rel = up ++ [part]
    · subst heq
      rw [if_pos rfl]
      exact ⟨fun _ => .inr (.inl rfl), fun _ => ⟨bytes, rfl⟩⟩
    · rw [if_neg fun hroot => heq (List.append_cancel_left hroot)]
      have hfile : (∃ bytes, made.node (root ++ rel) = some (.file bytes)) ↔
          ∃ bytes, fs.node (root ++ rel) = some (.file bytes) :=
        exists_congr fun content => hgrows.file_iff _ content
      rw [hfile, h.file_iff rel, or_iff_right heq]

omit [Crates] in
theorem exists_eq_false_iff {fs : Fs} {path : List Component} {place : List String}
    (hpath : path ≠ []) (h : fs.locate path = .ok place) :
    fs.exists path = false ↔ fs.node place = none := by
  unfold Fs.exists
  simp only [h, hpath, ne_eq, not_false_iff, decide_true, Bool.true_and]
  exact Option.isSome_eq_false_iff.trans Option.isNone_iff_eq_none

theorem MemberEnd.of_iff {base : Fs} {root : List String} {rootpath : List Component}
    {world : FetchDirWorld} {done : List (List String)} {i : Nat} {entry : ManifestEntry}
    {d d' : Disk} {ok ok' : Prop} (h : MemberEnd base root rootpath world done i entry d d' ok)
    (hiff : ok ↔ ok') : MemberEnd base root rootpath world done i entry d d' ok' :=
  propext hiff ▸ h

/-- The export of a member whose directory is there. -/
theorem export_member_end {base made : Fs} {d : Disk} {root : List String} {path : List Component}
    {world : FetchDirWorld} {done : List (List String)} {up : List String} {part : String}
    {i : Nat} {entry : ManifestEntry} {bytes : Bytes} (hstands : DirAt path root d)
    (hbuilt : Built base d.fs root done) (hdeepens : Fs.Deepens d.fs made root up)
    (hgrows : Fs.Grows d.fs made)
    (hreached : ComesToExport base root world done i entry (up ++ [part]) bytes) (d₁ : Disk)
    (hfs : d₁.fs = made) (hexports : d₁.exports = d.exports) (size : Prop)
    (hsize : size ↔ UInt64.ofNat bytes.length = entry.size) :
    let out := d₁.export_to (path ++ (up ++ [part]).map .Normal) bytes (world.exported i)
    MemberEnd base root path world done i entry d out.2 (out.1.isOk = true ∧ size) := by
  subst hfs
  have hdir := hstands.is_dir_below hdeepens hgrows
  have hparent : parent (path ++ (up ++ [part]).map .Normal) = some (path ++ up.map .Normal) := by
    rw [List.map_append, ← List.append_assoc]
    exact parent_append _ part
  have hlocate := Fs.locate_names (hgrows.locate hstands.1) part (hdeepens.made up (List.prefix_refl _))
  have hpath : path ++ (up ++ [part]).map .Normal ≠ [] := by simp
  have hfree : d₁.fs.node (root ++ (up ++ [part])) = none ↔ Free base root done (up ++ [part]) := by
    rw [hdeepens.same, hbuilt.none_iff]
    intro pre hpre heq
    have hlen := hpre.length_le
    rw [← List.append_cancel_left heq, List.length_append, List.length_singleton] at hlen
    omega
  have hout := export_to_exports bytes (world.exported i) hparent hdir
  rw [hexports] at hout
  refine .exported _ bytes d₁.fs hreached hout
    ((exists_eq_false_iff hpath hlocate).trans hfree) fun hfree' => ?_
  have hnone := hfree.mpr hfree'
  have hwrite : d₁.fs.write (path ++ (up ++ [part]).map .Normal) bytes =
      .ok (d₁.fs.put (root ++ (up ++ [part])) (.file bytes)) := by
    unfold Fs.write
    simp only [hlocate, hnone, reduceCtorEq, if_false]
  obtain ⟨place, hplace, -, -, hnode⟩ := Fs.write_spec hwrite
  cases hlocate.symm.trans hplace
  unfold Disk.export_to Disk.export_blob
  rw [create_parent_of_is_dir hparent hdir]
  simp only [hlocate, hwrite, hnone]
  rcases world.exported i none with e | u
  · exact ⟨⟨(fun h => nomatch h.1), (fun h => nomatch h.1)⟩, (fun h => nomatch h.1)⟩
  · refine ⟨⟨fun h => ⟨rfl, hsize.mp h.2⟩, fun h => ⟨rfl, hsize.mpr h.2⟩⟩, fun _ => ?_⟩
    have hkeeps := Fs.write_keeps_dirs hwrite
    exact ⟨hbuilt.write hdeepens hgrows hnode, hkeeps.locate (hgrows.locate hstands.1),
      hkeeps.dirs _ (hgrows.keeps _ _ hstands.2)⟩

theorem fetch_member_end {base : Fs} {d : Disk} {root : List String} {text : String}
    {world : FetchDirWorld} {done : List (List String)} (hstands : DirAt (components text) root d)
    (hbuilt : Built base d.fs root done) (i : Nat) (entry : ManifestEntry) :
    MemberEnd base root (components text) world done i entry d
      (d.fetch_member world text i entry).2
      ((d.fetch_member world text i entry).1.isOk = true) := by
  unfold Disk.fetch_member
  rcases hrel : sanitize_relative entry.path with e | rel
  · refine .early (fun rel bytes hreached => ?_) rfl (fun h => by cases h)
    cases hrel.symm.trans hreached.path
  · obtain ⟨-, -, hne, hsafe⟩ := sanitize_relative_eq_ok.mp hrel
    obtain rfl | ⟨up, part, rfl⟩ := List.eq_nil_or_concat' rel
    · exact absurd rfl hne
    · have htarget : components (join text (to_path (up ++ [part]))) =
          components text ++ (up ++ [part]).map .Normal :=
        components_join_path (fun p hp => (hsafe p hp).toFileName) text
      have hparent : parent (components text ++ (up ++ [part]).map .Normal) =
          some (components text ++ up.map .Normal) := by
        rw [List.map_append, ← List.append_assoc]
        exact parent_append _ part
      have hgrows := d.fs.create_dir_all_grows (components text ++ up.map .Normal)
      simp only [htarget]
      rcases Fs.create_dir_all_below hstands.1 hstands.2 up with
        ⟨hclear, made, hcreate, hdeepens⟩ | ⟨hblocked, e, hcreate⟩
      · rw [hcreate] at hgrows
        have hmade : d.create_parent (components text ++ (up ++ [part]).map .Normal) =
            (.ok (), { d with fs := made
                              created := d.created ++ [components text ++ up.map .Normal] }) := by
          unfold Disk.create_parent Disk.create_dir_all
          rw [hparent]
          simp only [hcreate]
        rw [hmade]
        simp only
        rcases hhash : BlobHash.from_hex entry.hash with e | member
        · refine .early (fun rel bytes hreached => ?_) rfl (fun h => by cases h)
          obtain ⟨_, hmember, -⟩ := hreached.fetched
          cases hhash.symm.trans hmember
        · simp only
          rcases hfetch : world.member i member with e | bytes
          · refine .early (fun rel bytes hreached => ?_) rfl (fun h => by cases h)
            obtain ⟨_, hmember, hbytes⟩ := hreached.fetched
            cases hhash.symm.trans hmember
            cases hfetch.symm.trans hbytes
          · have hreached : ComesToExport base root world done i entry (up ++ [part]) bytes :=
              ⟨hrel, (hbuilt.blocked_iff up part).mp hclear, member, hhash, hfetch⟩
            have hend := export_member_end hstands hbuilt hdeepens hgrows hreached
              { d with fs := made, created := d.created ++ [components text ++ up.map .Normal] }
              rfl rfl _ Iff.rfl
            simp only [Disk.export, htarget]
            simp only at hend
            generalize ({ d with fs := made
                                 created := d.created ++
                                   [components text ++ up.map .Normal] } : Disk).export_to
              (components text ++ (up ++ [part]).map .Normal) bytes (world.exported i) = out at hend ⊢
            obtain ⟨e | out, d₂⟩ := out
            · exact hend.of_iff ⟨fun h => h.1, fun h => by cases h⟩
            · simp only
              split
              · rename_i hsize
                exact hend.of_iff ⟨fun h => absurd h.2 hsize, fun h => by cases h⟩
              · rename_i hsize
                exact hend.of_iff ⟨fun _ => rfl, fun _ => ⟨rfl, not_not.mp hsize⟩⟩
      · have hmade : d.create_parent (components text ++ (up ++ [part]).map .Normal) =
            (.error e, { d with created := d.created ++ [components text ++ up.map .Normal] }) := by
          unfold Disk.create_parent Disk.create_dir_all
          rw [hparent]
          simp only [hcreate]
        rw [hmade]
        refine .early (fun rel bytes hreached => ?_) rfl (fun h => by cases h)
        cases hrel.symm.trans hreached.path
        exact (hbuilt.blocked_iff up part).mpr hreached.way hblocked

theorem ComesToExport.unique {base : Fs} {root : List String} {world : FetchDirWorld}
    {done : List (List String)} {i : Nat} {entry : ManifestEntry} {rel rel' : List String}
    {bytes bytes' : Bytes} (h : ComesToExport base root world done i entry rel bytes)
    (h' : ComesToExport base root world done i entry rel' bytes') : rel = rel' ∧ bytes = bytes' := by
  cases h.path.symm.trans h'.path
  obtain ⟨member, hmember, hbytes⟩ := h.fetched
  obtain ⟨member', hmember', hbytes'⟩ := h'.fetched
  cases hmember.symm.trans hmember'
  cases hbytes.symm.trans hbytes'
  exact ⟨rfl, rfl⟩

/-- The condition, where it is known which member is reached. -/
theorem freeMembers_cons {base : Fs} {root : List String} {world : FetchDirWorld}
    {done : List (List String)} {i : Nat} {entry : ManifestEntry} {rel : List String}
    {bytes : Bytes} (h : ComesToExport base root world done i entry rel bytes)
    (entries : List ManifestEntry) :
    FreeMembers base root world done i (entry :: entries) ↔ Free base root done rel ∧
      (world.exported i none = .ok () → UInt64.ofNat bytes.length = entry.size →
        FreeMembers base root world (rel :: done) (i + 1) entries) := by
  constructor
  · intro hall
    exact hall rel bytes h
  · rintro hfree rel' bytes' h'
    obtain ⟨rfl, rfl⟩ := h.unique h'
    exact hfree

theorem fetch_members_free_iff {base : Fs} {root : List String} {text : String}
    {world : FetchDirWorld} (entries : List ManifestEntry) {done : List (List String)} {i : Nat}
    {d : Disk} (hstands : DirAt (components text) root d) (hbuilt : Built base d.fs root done) :
    ∃ exports, (d.fetch_members world text i entries).2.exports = d.exports ++ exports ∧
      ((∀ e ∈ exports, e.before.exists e.path = false) ↔
        FreeMembers base root world done i entries) := by
  induction entries generalizing done i d with
  | nil =>
    exact ⟨[], (List.append_nil _).symm, fun _ => trivial, fun _ _ h => nomatch h⟩
  | cons entry entries ih =>
    have hend : MemberEnd base root (components text) world done i entry d
        (d.fetch_member world text i entry).2
        ((d.fetch_member world text i entry).1.isOk = true) :=
      fetch_member_end hstands hbuilt i entry
    unfold Disk.fetch_members
    rcases hmember : d.fetch_member world text i entry with ⟨e | path, d₁⟩
    · -- The run ends with this member.
      rw [hmember] at hend
      simp only
      cases hend with
      | early hnot hexports hfailed =>
        refine ⟨[], hexports.trans (List.append_nil _).symm, fun _ rel bytes hreached => ?_,
          fun _ _ h => nomatch h⟩
        exact absurd hreached (hnot rel bytes)
      | exported rel bytes before hreached hexports hfree hlanded =>
        refine ⟨_, hexports, ?_⟩
        rw [freeMembers_cons hreached, List.forall_mem_singleton, hfree]
        refine ⟨fun h => ⟨h, fun hout hsize => ?_⟩, fun h => h.1⟩
        have hok := (hlanded h).1.mpr ⟨hout, hsize⟩
        cases hok
    · rw [hmember] at hend
      simp only
      cases hend with
      | early hnot hexports hfailed => exact absurd rfl hfailed
      | exported rel bytes before hreached hexports hfree hlanded =>
        have hrest : ∃ rest, (d₁.fetch_members world text (i + 1) entries).2.exports =
            d₁.exports ++ rest ∧ (Free base root done rel →
              ((∀ e ∈ rest, e.before.exists e.path = false) ↔
                FreeMembers base root world (rel :: done) (i + 1) entries)) := by
          by_cases hclear : Free base root done rel
          · obtain ⟨hbuilt', hstands'⟩ := (hlanded hclear).2 rfl
            obtain ⟨rest, hrest, hiff⟩ := ih (i := i + 1) hstands' hbuilt'
            exact ⟨rest, hrest, fun _ => hiff⟩
          · obtain ⟨rest, hrest, -⟩ := careful_calls.fetch_members world text entries (i + 1) d₁
            exact ⟨rest, hrest, fun h => absurd h hclear⟩
        obtain ⟨rest, hrest, hiff⟩ := hrest
        refine ⟨⟨before, components text ++ rel.map .Normal, bytes⟩ :: rest, ?_, ?_⟩
        · rcases hmembers : d₁.fetch_members world text (i + 1) entries with ⟨e | paths, d₂⟩
          · rw [hmembers] at hrest
            simp only
            rw [hrest, hexports, List.append_assoc, List.singleton_append]
          · rw [hmembers] at hrest
            simp only
            rw [hrest, hexports, List.append_assoc, List.singleton_append]
        · rw [freeMembers_cons hreached, List.forall_mem_cons, hfree]
          constructor
          · rintro ⟨hclear, hall⟩
            exact ⟨hclear, fun _ _ => (hiff hclear).mp hall⟩
          · rintro ⟨hclear, hall⟩
            obtain ⟨hout, hsize⟩ := (hlanded hclear).1.mp rfl
            exact ⟨hclear, (hiff hclear).mpr (hall hout hsize)⟩

omit [Crates] in
theorem stands_in {d : Disk} {made rooted : Fs} {dest name : String} {here : List String}
    (hname : FileName name) (hhere : made.locate (components dest) = .ok here)
    (hgrows : Fs.Grows made rooted) (hfs : d.fs = rooted)
    (hdir : rooted.is_dir (components (join dest name)) = true) :
    DirAt (components (join dest name)) (here ++ [name]) d := by
  subst hfs
  obtain ⟨place, hlocate, hnode⟩ := Fs.is_dir_iff.mp hdir
  have hplace : place = here ++ [name] := by
    rw [components_join_name hname, Fs.locate_append _ (hgrows.locate hhere)] at hlocate
    exact walk_names_place hlocate
  exact ⟨hplace ▸ hlocate, hplace ▸ hnode⟩

/-- A fetch overwrites nothing, just when it is not one of a collection, or
each member that is reached goes to a free path below the collection's
directory. -/
theorem fetching_overwrites_nothing_iff (d : Disk) (world : FetchDirWorld) (dest : String)
    (hash : BlobHash) : NeverOverwrites d (d.fetch_any_reporting world dest hash).2 ↔
      ∀ bytes manifest, world.fetch hash = .ok bytes →
        read_manifest world.toFetchAnyWorld hash bytes = .ok (some manifest) →
        SafePart manifest.name → ∀ made rooted here,
          d.fs.create_dir_all (components dest) = (.ok (), made) →
          made.create_dir_all (components (join dest manifest.name)) = (.ok (), rooted) →
          made.locate (components dest) = .ok here →
            FreeMembers rooted (here ++ [manifest.name]) world [] 0 manifest.entries := by
  suffices hsuffices : ∃ exports,
      (d.fetch_any_reporting world dest hash).2.exports = d.exports ++ exports ∧
        ((∀ e ∈ exports, e.before.exists e.path = false) ↔ ∀ bytes manifest,
          world.fetch hash = .ok bytes →
          read_manifest world.toFetchAnyWorld hash bytes = .ok (some manifest) →
          SafePart manifest.name → ∀ made rooted here,
            d.fs.create_dir_all (components dest) = (.ok (), made) →
            made.create_dir_all (components (join dest manifest.name)) = (.ok (), rooted) →
            made.locate (components dest) = .ok here →
              FreeMembers rooted (here ++ [manifest.name]) world [] 0 manifest.entries) by
    obtain ⟨exports, hexports, hiff⟩ := hsuffices
    exact (neverOverwrites_iff hexports).trans hiff
  unfold Disk.fetch_any_reporting
  rcases hcreate : d.fs.create_dir_all (components dest) with ⟨e | u, made⟩
  · simp only [Disk.create_dir_all, hcreate]
    exact ⟨[], (List.append_nil _).symm, fun _ _ _ _ _ _ _ _ _ h => (nomatch h),
      fun _ _ h => nomatch h⟩
  · simp only [Disk.create_dir_all, hcreate]
    rcases hfetch : world.fetch hash with e | bytes
    · exact ⟨[], (List.append_nil _).symm, fun _ _ _ h => (nomatch h), fun _ _ h => nomatch h⟩
    · simp only
      rcases hread : read_manifest world.toFetchAnyWorld hash bytes with e | _ | manifest
      · refine ⟨[], (List.append_nil _).symm, fun _ bytes' _ h hread' => ?_, fun _ _ h => nomatch h⟩
        cases h
        cases hread.symm.trans hread'
      · obtain ⟨exports, hexports, hfree⟩ := fetch_file_free
          { d with fs := made, created := d.created ++ [components dest] } world dest hash bytes
        refine ⟨exports, hexports, fun _ bytes' _ h hread' => ?_, fun _ => hfree⟩
        cases h
        cases hread.symm.trans hread'
      · have hother : ∀ bytes' manifest', Except.ok (ε := DropError) bytes = .ok bytes' →
            read_manifest world.toFetchAnyWorld hash bytes' = .ok (some manifest') →
            manifest' = manifest := by
          rintro _ manifest' h hread'
          cases h
          cases hread.symm.trans hread'
          rfl
        simp only [Disk.fetch_collection]
        rcases hname : sanitize_component manifest.name with e | name
        · refine ⟨[], (List.append_nil _).symm, fun _ _ manifest' h hread' hsafe => ?_,
            fun _ _ h => nomatch h⟩
          cases hother _ _ h hread'
          cases hname.symm.trans (sanitize_component_eq_ok.mpr ⟨rfl, hsafe⟩)
        · obtain ⟨rfl, hsafe⟩ := sanitize_component_eq_ok.mp hname
          simp only [Disk.create_dir_all]
          rcases hroot : made.create_dir_all (components (join dest manifest.name))
            with ⟨e | u, rooted⟩
          · refine ⟨[], (List.append_nil _).symm,
              fun _ _ manifest' h hread' _ made' _ _ hmade hroot' => ?_, fun _ _ h => nomatch h⟩
            cases hother _ _ h hread'
            cases hmade
            cases hroot.symm.trans hroot'
          · have hgrows := made.create_dir_all_grows (components (join dest manifest.name))
            rw [hroot] at hgrows
            have hdir := Fs.create_dir_all_is_dir hroot
            obtain ⟨here, hhere, -⟩ := Fs.is_dir_iff.mp (Fs.create_dir_all_is_dir hcreate)
            have hstands := stands_in (d := { d with
                fs := rooted
                created := d.created ++ [components dest] ++ [components (join dest manifest.name)] })
              hsafe.toFileName hhere hgrows rfl hdir
            obtain ⟨exports, hexports, hiff⟩ := @fetch_members_free_iff _ _ _ _ world
              manifest.entries _ 0 _ hstands (built_nil rooted _)
            refine ⟨exports, hexports, hiff.trans ⟨?_, ?_⟩⟩
            · rintro hfree bytes' manifest' h hread' - made' rooted' here' hmade hroot' hhere'
              cases hother _ _ h hread'
              cases hmade
              cases hroot.symm.trans hroot'
              cases hhere.symm.trans hhere'
              exact hfree
            · intro hall
              exact hall bytes manifest rfl hread hsafe made rooted here rfl hroot hhere

end Members

/-! ## A member named twice -/

namespace repeated_member

def hash : BlobHash := ⟨.fill 32 5⟩

def entry : ManifestEntry := { path := "a", hash := hash.to_hex, size := 2 }

def manifest : Manifest := { iroh_drop_collection := 1, name := "t", entries := [entry, entry] }

def entry_json : String := "\x7b\"path\":\"a\",\"hash\":\"" ++ hash.to_hex ++ "\",\"size\":2\x7d"

def json : Bytes :=
  ("\x7b\"iroh_drop_collection\":1,\"name\":\"t\",\"entries\":[" ++ entry_json ++ "," ++
    entry_json ++ "]\x7d").toUTF8.toList

/-- The crates, on this one text. -/
local instance : Crates where
  hash_of _ := hash
  to_vec_pretty _ := .ok json
  from_slice bytes := if bytes = json then .ok manifest else .error "expected value"
  debug s := "\"" ++ s ++ "\""

/-- A receiver whose blob store writes over what stands at the path. -/
def receiver : FetchDirWorld :=
  { dest_created := .ok ()
    fetch := fun _ => .ok json
    media_type := fun _ => some COLLECTION_MEDIA_TYPE
    display_name := fun _ => "t"
    os_error := fun _ => ""
    offered_name := some "t"
    refetched := .ok ()
    member := fun _ _ => .ok [0x68, 0x69]
    exported := fun _ _ => .ok () }

def disk : Disk := { fs := .bare, created := [], exports := [] }

theorem exports_eq : ((disk.fetch_any_reporting receiver "in" hash).2.exports.map
    (fun e => e.before.exists e.path)) = [false, true] := by
  decide +kernel

/-- The second export goes over the first. -/
theorem a_member_is_written_over :
    ¬ ∀ [Crates] (d : Disk) (world : FetchDirWorld) (dest : String) (hash : BlobHash),
      NeverOverwrites d (d.fetch_any_reporting world dest hash).2 := by
  intro h
  obtain ⟨exports, hexports, hfree, -⟩ := h disk receiver "in" hash
  have hflags := exports_eq
  rw [hexports] at hflags
  have hall : ∀ flag ∈ exports.map (fun e => e.before.exists e.path), flag = false := by
    intro flag hflag
    obtain ⟨e, he, rfl⟩ := List.mem_map.mp hflag
    exact hfree e he
  have htrue : true ∈ exports.map (fun e => e.before.exists e.path) := by
    change (([] : List Export) ++ exports).map _ = _ at hflags
    rw [List.nil_append] at hflags
    rw [hflags]
    exact List.mem_cons_of_mem _ List.mem_cons_self
  exact Bool.noConfusion (hall true htrue)

end repeated_member

end iroh_drop
