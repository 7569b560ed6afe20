-- The round trip of a collection: the tree that a receiver makes is the tree
-- that was published, exactly when the receiver's checks let it be.
import IrohDrop.ManifestPaths

open rust_std

namespace iroh_drop

/-! ## Trees -/

mutual

/-- What a file system promises of a tree: its names are file names, and
different in one directory. -/
def Entry.WellFormed : Entry → Prop
  | .file name _ => FileName name
  | .dir name entries => FileName name ∧ WellFormedDir entries
  | .symlink name => FileName name

def WellFormedDir : List Entry → Prop
  | [] => True
  | entry :: entries =>
    entry.WellFormed ∧ (∀ other ∈ entries, other.name ≠ entry.name) ∧ WellFormedDir entries

end

mutual

/-- Every regular file of a tree, under its path. -/
def Entry.regular (dir : List String) : Entry → List (List String × Bytes)
  | .file name bytes => [(dir ++ [name], bytes)]
  | .dir name entries => regular_files (dir ++ [name]) entries
  | .symlink _ => []

def regular_files (dir : List String) : List Entry → List (List String × Bytes)
  | [] => []
  | entry :: entries => entry.regular dir ++ regular_files dir entries

end

/-- No part of the path is hidden. -/
def Shown (path : List String) : Prop := ∀ part ∈ path, is_hidden part = false

instance (path : List String) : Decidable (Shown path) := by
  unfold Shown
  infer_instance

/-- One path is not the way to the other. -/
def Apart (a b : List String × Bytes) : Prop := ¬ a.1 <+: b.1 ∧ ¬ b.1 <+: a.1

theorem Apart.symm {a b : List String × Bytes} (h : Apart a b) : Apart b a := ⟨h.2, h.1⟩

/-- The path goes on below `dir` with this name. -/
def Below (dir : List String) (name : String) (path : List String) : Prop :=
  ∃ rest, path = dir ++ name :: rest

theorem apart_of_below {dir : List String} {name name' : String} (hne : name ≠ name')
    {a b : List String × Bytes} (ha : Below dir name a.1) (hb : Below dir name' b.1) :
    Apart a b := by
  obtain ⟨rest, ha⟩ := ha
  obtain ⟨rest', hb⟩ := hb
  have hnot : ∀ (x y : String) (l l' : List String), x ≠ y →
      ¬ dir ++ x :: l <+: dir ++ y :: l' := by
    intro x y l l' hxy h
    exact hxy ((List.cons_prefix_cons.mp ((List.prefix_append_right_inj dir).mp h)).1)
  unfold Apart
  rw [ha, hb]
  exact ⟨hnot name name' rest rest' hne, hnot name' name rest' rest (Ne.symm hne)⟩

/-- What a walk finds below `dir`, in entries of these names. -/
structure Walk (dir : List String) (names : List String)
    (collected regular : List (List String × Bytes)) : Prop where
  visible : ∀ f, f ∈ collected ↔ f ∈ regular ∧ Shown (f.1.drop dir.length)
  sublist : collected.Sublist regular
  below : ∀ f ∈ regular, ∃ name ∈ names, Below dir name f.1
  names : ∀ f ∈ regular, ∀ part ∈ f.1.drop dir.length, FileName part
  apart : regular.Pairwise Apart

namespace Walk

variable {dir : List String}

theorem nil (names : List String) : Walk dir names [] [] := by
  refine ⟨fun f => ⟨fun hf => ?_, And.left⟩, List.Sublist.refl _, ?_, ?_, List.Pairwise.nil⟩
  · cases hf
  all_goals
    intro f hf
    cases hf

theorem file {name : String} (h : FileName name) (bytes : Bytes) :
    Walk dir [name] (if is_hidden name then [] else [(dir ++ [name], bytes)])
      [(dir ++ [name], bytes)] := by
  refine ⟨fun f => ?_, ?_, ?_, ?_, List.pairwise_singleton _ _⟩
  · rw [List.mem_singleton]
    split
    · rename_i hhidden
      constructor
      · intro hf
        cases hf
      · rintro ⟨rfl, hvisible⟩
        have := hvisible name (by simp)
        rw [hhidden] at this
        cases this
    · rename_i hshown
      rw [List.mem_singleton]
      constructor
      · rintro rfl
        refine ⟨rfl, fun part hpart => ?_⟩
        rw [List.drop_left, List.mem_singleton] at hpart
        rw [hpart]
        exact Bool.eq_false_iff.mpr hshown
      · exact And.left
  · split
    · exact List.nil_sublist _
    · exact List.Sublist.refl _
  · intro f hf
    rw [List.mem_singleton.mp hf]
    exact ⟨name, List.mem_singleton_self name, [], rfl⟩
  · intro f hf part hpart
    rw [List.mem_singleton.mp hf, List.drop_left, List.mem_singleton] at hpart
    rw [hpart]
    exact h

/-- What is below an inner directory, seen from the outer one. -/
theorem drop_inner {name : String} {path : List String} {inner : String}
    (h : Below (dir ++ [name]) inner path) :
    path.drop dir.length = name :: path.drop (dir ++ [name]).length := by
  obtain ⟨rest, rfl⟩ := h
  rw [List.drop_left, List.append_assoc, List.drop_left]
  rfl

theorem inside {name : String} (h : FileName name) {names : List String}
    {collected regular : List (List String × Bytes)}
    (hw : Walk (dir ++ [name]) names collected regular) :
    Walk dir [name] (if is_hidden name then [] else collected) regular := by
  refine ⟨fun f => ?_, ?_, ?_, ?_, hw.apart⟩
  · have hsplit (hf : f ∈ regular) : Shown (f.1.drop dir.length) ↔
        is_hidden name = false ∧ Shown (f.1.drop (dir ++ [name]).length) := by
      obtain ⟨inner, -, hbelow⟩ := hw.below f hf
      rw [drop_inner hbelow]
      exact List.forall_mem_cons
    split
    · rename_i hhidden
      constructor
      · intro hf
        cases hf
      · rintro ⟨hf, hvisible⟩
        rw [hsplit hf, hhidden] at hvisible
        cases hvisible.1
    · rename_i hshown
      rw [hw.visible]
      constructor
      · rintro ⟨hf, hvisible⟩
        exact ⟨hf, (hsplit hf).mpr ⟨Bool.eq_false_iff.mpr hshown, hvisible⟩⟩
      · rintro ⟨hf, hvisible⟩
        exact ⟨hf, ((hsplit hf).mp hvisible).2⟩
  · split
    · exact List.nil_sublist _
    · exact hw.sublist
  · intro f hf
    obtain ⟨inner, -, rest, heq⟩ := hw.below f hf
    exact ⟨name, List.mem_singleton_self name, inner :: rest, by rw [heq, List.append_assoc]; rfl⟩
  · intro f hf part hpart
    obtain ⟨inner, -, hbelow⟩ := hw.below f hf
    rw [drop_inner hbelow] at hpart
    rcases List.mem_cons.mp hpart with rfl | hpart
    · exact h
    · exact hw.names f hf part hpart

theorem append {names names' : List String}
    {collected regular collected' regular' : List (List String × Bytes)}
    (hw : Walk dir names collected regular) (hw' : Walk dir names' collected' regular')
    (hne : ∀ name ∈ names, ∀ name' ∈ names', name ≠ name') :
    Walk dir (names ++ names') (collected ++ collected') (regular ++ regular') := by
  refine ⟨fun f => ?_, hw.sublist.append hw'.sublist, ?_, ?_,
    List.pairwise_append.mpr ⟨hw.apart, hw'.apart, ?_⟩⟩
  · rw [List.mem_append, List.mem_append, hw.visible, hw'.visible, or_and_right]
  · intro f hf
    rcases List.mem_append.mp hf with hf | hf
    · obtain ⟨name, hname, hbelow⟩ := hw.below f hf
      exact ⟨name, List.mem_append_left _ hname, hbelow⟩
    · obtain ⟨name, hname, hbelow⟩ := hw'.below f hf
      exact ⟨name, List.mem_append_right _ hname, hbelow⟩
  · intro f hf
    rcases List.mem_append.mp hf with hf | hf
    · exact hw.names f hf
    · exact hw'.names f hf
  · intro a ha b hb
    obtain ⟨name, hname, hbelow⟩ := hw.below a ha
    obtain ⟨name', hname', hbelow'⟩ := hw'.below b hb
    exact apart_of_below (hne name hname name' hname') hbelow hbelow'

end Walk

mutual

theorem Entry.walk (dir : List String) : (entry : Entry) → entry.WellFormed →
    Walk dir [entry.name] (entry.collect dir) (entry.regular dir)
  | .file _ bytes, h => Walk.file h bytes
  | .dir name entries, h => Walk.inside h.1 (walk_files (dir ++ [name]) entries h.2)
  | .symlink name, _ => Walk.nil [name]

/-- The walk of a directory finds its visible files, all of them and each in
a place of its own. -/
theorem walk_files (dir : List String) : (entries : List Entry) → WellFormedDir entries →
    Walk dir (entries.map Entry.name) (collect_files dir entries) (regular_files dir entries)
  | [], _ => Walk.nil []
  | entry :: entries, h =>
    (entry.walk dir h.1).append (walk_files dir entries h.2.2) (by
      intro name hname other hother heq
      rw [List.mem_singleton.mp hname] at heq
      obtain ⟨e, he, rfl⟩ := List.mem_map.mp hother
      exact h.2.1 e he heq.symm)

end

/-! ## What is published -/

theorem finish_import_with_hash [Crypto] {s : Session} {hash : BlobHash} {name : String} {size : UInt64}
    {media_type : Option String} {metadata : BTreeMap String String} {world : ImportWorld}
    {blob : Session.PublishedBlob}
    (h : (s.finish_import_with hash name size media_type metadata world).1 = .ok blob) :
    blob.hash = hash := by
  unfold Session.finish_import_with at h
  split at h
  · cases h
  · dsimp only at h
    split at h
    · cases h
    · split at h <;> cases h
      rfl

section Publishing

variable [Crates]

/-- A member in the manifest. -/
def member_entry (f : List String × Bytes) : ManifestEntry :=
  { path := manifest_path f.1, hash := (Crates.hash_of f.2).to_hex
    size := UInt64.ofNat f.2.length }

/-- The members of a tree, in the order of the manifest. -/
def members (entries : List Entry) : List (List String × Bytes) :=
  (collect_files [] entries).insertionSort path_le

/-- The manifest of a tree. -/
def tree_manifest (name : String) (entries : List Entry) : Manifest :=
  { iroh_drop_collection := 1, name, entries := (members entries).map member_entry }

variable [Crypto]

theorem import_path_ok {s : Session} {display : String} {bytes : Bytes} {world : MemberWorld}
    {hash : BlobHash} {size : UInt64}
    (h : (s.import_path display bytes world).1 = .ok (hash, size)) :
    hash = Crates.hash_of bytes ∧ size = UInt64.ofNat bytes.length := by
  unfold Session.import_path at h
  split at h <;> try cases h
  split at h
  · cases h
  · cases h
    exact ⟨rfl, rfl⟩

theorem import_members_ok {s : Session} {display : String} {world : List String → MemberWorld}
    {files : List (List String × Bytes)} {entries : List ManifestEntry}
    (h : (s.import_members display world files).1 = .ok entries) :
    entries = files.map member_entry := by
  induction files generalizing s entries with
  | nil =>
    cases h
    rfl
  | cons f files ih =>
    unfold Session.import_members at h
    rcases himport : s.import_path s!"{display}/{to_string_lossy f.1}" f.2 (world f.1)
      with ⟨⟨e⟩ | ⟨hash, size⟩, s'⟩ <;> simp only [himport] at h
    · cases h
    · rcases hrest : s'.import_members display world files with ⟨⟨e⟩ | rest, s''⟩ <;>
        simp only [hrest] at h <;> cases h
      obtain ⟨rfl, rfl⟩ := import_path_ok (congrArg Prod.fst himport)
      rw [ih (congrArg Prod.fst hrest)]
      rfl

theorem publish_manifest_ok {s : Session} {manifest : Manifest} {world : ImportWorld}
    {published : Published} (h : (s.publish_manifest manifest world).1 = .ok published) :
    validate_name manifest.name = .ok () ∧
      ∃ json, Crates.to_vec_pretty manifest = .ok json ∧
        published.blob.hash = Crates.hash_of json := by
  unfold Session.publish_manifest at h
  split at h
  · cases h
  · rename_i json hjson
    dsimp only at h
    split at h
    · cases h
    · rename_i blob _ hpublish
      cases h
      unfold Session.publish_bytes_with at hpublish
      split at hpublish
      · cases hpublish
      · rename_i hname
        refine ⟨hname, json, hjson, ?_⟩
        unfold Session.import_with at hpublish
        rcases himported : world.imported with e | hash <;>
          simp only [himported, Except.map] at hpublish
        · cases hpublish
        · exact finish_import_with_hash (congrArg Prod.fst hpublish)

/-- What a directory is published as: the hash of its manifest. -/
theorem publish_directory_ok {s : Session} {dir : LocalDirectory} {name : String}
    {world : PublishWorld} {published : Published}
    (h : (s.publish_directory dir name world).1 = .ok published) :
    validate_name name = .ok () ∧ (members dir.entries).length ≤ MAX_MEMBERS ∧
      ∃ json, Crates.to_vec_pretty (tree_manifest name dir.entries) = .ok json ∧
        published.blob.hash = Crates.hash_of json := by
  unfold Session.publish_directory at h
  split at h
  · cases h
  · dsimp only at h
    split at h
    · cases h
    · split at h
      · cases h
      · rename_i hlen
        split at h
        · cases h
        · rename_i himport
          rw [import_members_ok (congrArg Prod.fst himport)] at h
          exact ⟨(publish_manifest_ok h).1, Nat.le_of_not_gt hlen, (publish_manifest_ok h).2⟩

end Publishing

/-! ## What is fetched -/

/-- The files below `root` are these, and no other. -/
def Files.Holds (self : Files) (root : String) (done : List (List String × Bytes)) : Prop :=
  ∀ path bytes, self.lookup path = some bytes ↔ ∃ f ∈ done, path = root :: f.1 ∧ bytes = f.2

theorem Files.Holds.of_keys {root : String} {files : Files} {done : List (List String × Bytes)}
    (h : files.Holds root done) {path : List String} (hpath : path ∈ files.keys) :
    ∃ f ∈ done, path = root :: f.1 := by
  obtain ⟨bytes, hlookup⟩ := Option.isSome_iff_exists.mp (AList.lookup_isSome.mpr hpath)
  obtain ⟨f, hf, heq, -⟩ := (h path bytes).mp hlookup
  exact ⟨f, hf, heq⟩

section Fetched

variable [Crates] {world : FetchAnyWorld} {root : String}

/-- A member whose path the receiver takes as it is goes where it was. -/
theorem fetch_member_ok {files : Files} {done : List (List String × Bytes)}
    (hfiles : files.Holds root done) {f : List String × Bytes}
    (hpath : sanitize_relative (manifest_path f.1) = .ok f.1)
    (hfetch : world.fetch (Crates.hash_of f.2) = .ok f.2) (hapart : ∀ g ∈ done, Apart g f) :
    ∃ files' : Files, fetch_member world root files (member_entry f) = .ok files' ∧
      files'.Holds root (done ++ [f]) := by
  have hfree : files.blocks (root :: f.1).dropLast = false := by
    refine List.any_eq_false.mpr fun path hmem hprefix => ?_
    obtain ⟨g, hg, rfl⟩ := hfiles.of_keys hmem
    have hway := (of_decide_eq_true hprefix).trans (List.dropLast_prefix _)
    exact (hapart g hg).1 (List.cons_prefix_cons.mp hway).2
  have hfile : files.is_directory (root :: f.1) = false := by
    refine List.any_eq_false.mpr fun path hmem hprefix => ?_
    obtain ⟨g, hg, rfl⟩ := hfiles.of_keys hmem
    exact (hapart g hg).2 (List.cons_prefix_cons.mp (of_decide_eq_true hprefix).1).2
  refine ⟨files.insert (root :: f.1) f.2, ?_, fun path bytes => ?_⟩
  · simp only [fetch_member, member_entry, bind_eq_ok, ensure_eq_ok, exists_const, hpath,
      BlobHash.from_to_hex, Except.mapError, pure, Except.pure, Except.ok.injEq]
    refine ⟨f.1, rfl, hfree, _, rfl, f.2, ?_, hfile, (), ensure_eq_ok.mpr rfl, rfl⟩
    rw [hfetch]
  · rw [HashMap.lookup_insert']
    simp only [List.mem_append, List.mem_singleton]
    split
    · rename_i hsame
      subst hsame
      constructor
      · intro heq
        exact ⟨f, .inr rfl, rfl, (Option.some_inj.mp heq).symm⟩
      · rintro ⟨g, hg | rfl, hroot, rfl⟩
        · have heq : f.1 = g.1 := (List.cons.inj hroot).2
          exact absurd (heq ▸ List.prefix_rfl) (hapart g hg).1
        · rfl
    · rename_i hother
      rw [hfiles path bytes]
      constructor
      · rintro ⟨g, hg, heq⟩
        exact ⟨g, .inl hg, heq⟩
      · rintro ⟨g, hg | rfl, heq, hbytes⟩
        · exact ⟨g, hg, heq, hbytes⟩
        · exact absurd heq hother

/-- Members in places of their own, each taken as it is, come out as they
went in. -/
theorem fetch_members_ok {fs : List (List String × Bytes)} (hapart : fs.Pairwise Apart)
    (hpath : ∀ f ∈ fs, sanitize_relative (manifest_path f.1) = .ok f.1)
    (hfetch : ∀ f ∈ fs, world.fetch (Crates.hash_of f.2) = .ok f.2)
    {files : Files} {done : List (List String × Bytes)} (hfiles : files.Holds root done)
    (hdone : ∀ g ∈ done, ∀ f ∈ fs, Apart g f) :
    ∃ files' : Files, (fs.map member_entry).foldlM (fetch_member world root) files = .ok files' ∧
      files'.Holds root (done ++ fs) := by
  induction fs generalizing files done with
  | nil => exact ⟨files, rfl, by rw [List.append_nil]; exact hfiles⟩
  | cons f fs ih =>
    obtain ⟨hf, hrest⟩ := List.pairwise_cons.mp hapart
    obtain ⟨files', hstep, hfiles'⟩ := fetch_member_ok hfiles (hpath f List.mem_cons_self)
      (hfetch f List.mem_cons_self) (fun g hg => hdone g hg f List.mem_cons_self)
    have hdone' : ∀ g ∈ done ++ [f], ∀ f' ∈ fs, Apart g f' := by
      intro g hg f' hf'
      rcases List.mem_append.mp hg with hg | hg
      · exact hdone g hg f' (List.mem_cons_of_mem f hf')
      · rw [List.mem_singleton.mp hg]
        exact hf f' hf'
    obtain ⟨files'', hfold, hfiles''⟩ := ih hrest
      (fun g hg => hpath g (List.mem_cons_of_mem f hg))
      (fun g hg => hfetch g (List.mem_cons_of_mem f hg)) hfiles' hdone'
    refine ⟨files'', ?_, by rw [List.append_assoc] at hfiles''; exact hfiles''⟩
    rw [List.map_cons, List.foldlM_cons]
    exact bind_eq_ok.mpr ⟨files', hstep, hfold⟩

theorem fetch_member_safe {files files' : Files} {entry : ManifestEntry}
    (h : fetch_member world root files entry = .ok files') :
    entry.path.utf8ByteSize ≤ 1024 ∧ ∀ path ∈ files'.keys, path ∈ files.keys ∨
      ∃ safe, path = root :: safe ∧ ∀ part ∈ safe, SafePart part := by
  simp only [fetch_member, bind_eq_ok, ensure_eq_ok, exists_const, pure, Except.pure,
    Except.ok.injEq] at h
  obtain ⟨rel, hrel, -, -, -, bytes, -, -, -, rfl⟩ := h
  obtain ⟨hsize, hsafe⟩ := sanitize_relative_safe hrel
  refine ⟨hsize, fun path hpath => ?_⟩
  rcases (AList.mem_insert files).mp hpath with rfl | hpath
  · exact .inr ⟨rel, rfl, hsafe⟩
  · exact .inl hpath

/-- What came out of a fetch went through the receiver's checks. -/
theorem fetch_members_safe {entries : List ManifestEntry} {files files' : Files}
    (h : entries.foldlM (fetch_member world root) files = .ok files') :
    (∀ entry ∈ entries, entry.path.utf8ByteSize ≤ 1024) ∧
      ∀ path ∈ files'.keys, path ∈ files.keys ∨
        ∃ safe, path = root :: safe ∧ ∀ part ∈ safe, SafePart part := by
  induction entries generalizing files with
  | nil =>
    cases h
    exact ⟨List.forall_mem_nil _, fun path hpath => .inl hpath⟩
  | cons entry entries ih =>
    rw [List.foldlM_cons] at h
    obtain ⟨middle, hstep, hrest⟩ := bind_eq_ok.mp h
    obtain ⟨hsize, hkeys⟩ := fetch_member_safe hstep
    obtain ⟨hsizes, hkeys'⟩ := ih hrest
    refine ⟨List.forall_mem_cons.mpr ⟨hsize, hsizes⟩, fun path hpath => ?_⟩
    rcases hkeys' path hpath with hmiddle | hsafe
    · exact hkeys path hmiddle
    · exact .inr hsafe

end Fetched

/-! ## The round trip -/

/-- The files below `root` are the visible files of the tree. -/
def Files.SameTree (self : Files) (root : String) (entries : List Entry) : Prop :=
  ∀ path bytes, self.lookup path = some bytes ↔
    ∃ f ∈ regular_files [] entries, Shown f.1 ∧ path = root :: f.1 ∧ bytes = f.2

theorem mem_members {entries : List Entry} (hdir : WellFormedDir entries)
    {f : List String × Bytes} :
    f ∈ members entries ↔ f ∈ regular_files [] entries ∧ Shown f.1 :=
  (List.mem_insertionSort path_le).trans ((walk_files [] entries hdir).visible f)

theorem members_apart {entries : List Entry} (hdir : WellFormedDir entries) :
    (members entries).Pairwise Apart := by
  have hwalk := walk_files [] entries hdir
  refine ((List.perm_insertionSort path_le _).pairwise_iff fun h => h.symm).mpr ?_
  exact hwalk.apart.sublist hwalk.sublist

theorem regular_file_ne_nil {entries : List Entry} (hdir : WellFormedDir entries)
    {f : List String × Bytes} (hf : f ∈ regular_files [] entries) : f.1 ≠ [] := by
  obtain ⟨name, -, rest, heq⟩ := (walk_files [] entries hdir).below f hf
  rw [heq]
  exact List.cons_ne_nil name rest

theorem safe_name {name : String} (h : validate_name name = .ok ()) : SafePart name := by
  simp only [validate_name, bind_eq_ok, ensure_eq_ok, exists_const] at h
  obtain ⟨hne, hsize, ⟨hdot, hdots⟩, ⟨hslash, hback⟩, -⟩ := h
  exact ⟨⟨hne, hslash, hdot, hdots⟩, hsize, hback⟩

section RoundTrip

variable [Crates]

/-- A tree that a receiver takes as it is: its manifest is small enough, and
so is each path in it, part by part and without a backslash. -/
def Receivable (root : String) (entries : List Entry) : Prop :=
  (∀ json, Crates.to_vec_pretty (tree_manifest root entries) = .ok json →
      json.length ≤ MAX_MANIFEST_BYTES) ∧
    ∀ f ∈ regular_files [] entries, Shown f.1 → (to_string_lossy f.1).utf8ByteSize ≤ 1024 ∧
      ∀ part ∈ f.1, part.utf8ByteSize ≤ 255 ∧ '\\' ∉ part.toList

/-- The crates around a receiver do their work for this tree: the directory
is made, each blob of the tree comes as it went, and the JSON of the manifest
is read as it was written. -/
structure FetchAnyWorld.Works (world : FetchAnyWorld) (root : String) (entries : List Entry) :
    Prop where
  created : world.dest_created = .ok ()
  member : ∀ f ∈ regular_files [] entries, world.fetch (Crates.hash_of f.2) = .ok f.2
  manifest : ∀ json, Crates.to_vec_pretty (tree_manifest root entries) = .ok json →
    world.fetch (Crates.hash_of json) = .ok json ∧
      Crates.from_slice json = .ok (tree_manifest root entries)

variable {receiver : FetchAnyWorld} {root : String} {entries : List Entry} {json : Bytes}

/-- A tree that the receiver takes as it is comes out as it went in. -/
theorem fetch_any_receivable (hdir : WellFormedDir entries) (hworks : receiver.Works root entries)
    (hroot : validate_name root = .ok ()) (hlen : (members entries).length ≤ MAX_MEMBERS)
    (hjson : Crates.to_vec_pretty (tree_manifest root entries) = .ok json)
    (h : Receivable root entries) :
    ∃ files, fetch_any receiver (Crates.hash_of json) = .ok files ∧
      files.SameTree root entries := by
  have hmembers : ∀ f ∈ members entries, sanitize_relative (manifest_path f.1) = .ok f.1 := by
    intro f hf
    obtain ⟨hregular, hshown⟩ := (mem_members hdir).mp hf
    obtain ⟨hsize, hparts⟩ := h.2 f hregular hshown
    refine sanitize_manifest_path (regular_file_ne_nil hdir hregular) hsize fun part hpart => ?_
    exact ⟨(walk_files [] entries hdir).names f hregular part hpart, (hparts part hpart).1,
      (hparts part hpart).2⟩
  have hempty : (∅ : Files).Holds root [] := fun path bytes => by simp
  obtain ⟨files, hfold, hholds⟩ := fetch_members_ok (members_apart hdir) hmembers
    (fun f hf => hworks.member f ((mem_members hdir).mp hf).1) hempty (fun g hg => by cases hg)
  have hread : read_manifest receiver (Crates.hash_of json) json =
      .ok (some (tree_manifest root entries)) := by
    have hcount : ¬ (tree_manifest root entries).entries.length > MAX_MEMBERS := by
      simpa [tree_manifest] using hlen
    unfold read_manifest
    rw [if_neg (Nat.not_lt.mpr (h.1 json hjson)), (hworks.manifest json hjson).2]
    dsimp only
    rw [if_pos (by rfl), if_neg hcount]
  refine ⟨files, ?_, fun path bytes => ?_⟩
  · have hname : sanitize_component (tree_manifest root entries).name = .ok root :=
      sanitize_component_eq_ok.mpr ⟨rfl, safe_name hroot⟩
    unfold fetch_any
    rw [hworks.created, (hworks.manifest json hjson).1]
    simp only [Except.mapError, bind_eq_ok]
    exact ⟨(), trivial, json, rfl, _, hread, bind_eq_ok.mpr ⟨root, hname, hfold⟩⟩
  · rw [hholds path bytes, List.nil_append]
    simp only [mem_members hdir, and_assoc]

/-- Only a tree that the receiver takes as it is comes out as it went in. -/
theorem receivable_of_fetch_any (hdir : WellFormedDir entries)
    (hworks : receiver.Works root entries)
    (hjson : Crates.to_vec_pretty (tree_manifest root entries) = .ok json) {files : Files}
    (hfetch : fetch_any receiver (Crates.hash_of json) = .ok files)
    (hsame : files.SameTree root entries) : Receivable root entries := by
  unfold fetch_any at hfetch
  rw [hworks.created, (hworks.manifest json hjson).1] at hfetch
  simp only [Except.mapError, bind_eq_ok] at hfetch
  obtain ⟨-, -, json', hbytes, read, hread, hfetch⟩ := hfetch
  cases hbytes
  cases read with
  | none =>
    -- The manifest itself came as a file, beside the tree.
    cases hfetch
    have hmanifest := (hsame [receiver.display_name (Crates.hash_of json)] json).mp
      (AList.lookup_insert _)
    obtain ⟨f, hf, -, hpath, -⟩ := hmanifest
    exact absurd (List.cons.inj hpath).2.symm (regular_file_ne_nil hdir hf)
  | some manifest =>
    obtain ⟨hsmall, rfl⟩ : json.length ≤ MAX_MANIFEST_BYTES ∧
        manifest = tree_manifest root entries := by
      unfold read_manifest at hread
      dsimp only at hread
      split at hread
      · split at hread <;> cases hread
      · rename_i hsmall
        rw [(hworks.manifest json hjson).2] at hread
        dsimp only at hread
        split at hread
        · split at hread <;> cases hread
          exact ⟨Nat.le_of_not_gt hsmall, rfl⟩
        · cases hread
    obtain ⟨root', hname, hfold⟩ := bind_eq_ok.mp hfetch
    obtain ⟨rfl, -⟩ := sanitize_component_eq_ok.mp hname
    obtain ⟨hsizes, hkeys⟩ := fetch_members_safe hfold
    refine ⟨fun json' hjson' => ?_, fun f hf hshown => ?_⟩
    · cases hjson.symm.trans hjson'
      exact hsmall
    · have hmember : member_entry f ∈ (tree_manifest root entries).entries :=
        List.mem_map_of_mem ((mem_members hdir).mpr ⟨hf, hshown⟩)
      have hsize := hsizes _ hmember
      have hlookup := (hsame (root :: f.1) f.2).mpr ⟨f, hf, hshown, rfl, rfl⟩
      rcases hkeys (root :: f.1) (AList.lookup_isSome.mp (Option.isSome_of_eq_some hlookup))
        with hnone | ⟨safe, hpath, hsafe⟩
      · cases hnone
      · obtain rfl := (List.cons.inj hpath).2
        exact ⟨(manifest_path_size f.1) ▸ hsize,
          fun part hpart => ⟨(hsafe part hpart).size, (hsafe part hpart).no_backslash⟩⟩

variable [Crypto]

/-- The name of the tree that is published. -/
def LocalDirectory.tree_name (dir : LocalDirectory) (name : Option String) : String :=
  name.getD (dir.file_name.getD "collection")

/-- A published tree comes out of a fetch as it went in, exactly when the
receiver takes it as it is. -/
theorem collection_round_trip_iff (session : Session) (dir : LocalDirectory) (name : Option String)
    (world : PublishWorld) (receiver : FetchAnyWorld) {published : Published}
    (hdir : WellFormedDir dir.entries)
    (hpublish : (session.publish_path (.directory dir) name world).1 = .ok published)
    (hworks : receiver.Works (dir.tree_name name) dir.entries) :
    (∃ files, fetch_any receiver published.blob.hash = .ok files ∧
        files.SameTree (dir.tree_name name) dir.entries) ↔
      Receivable (dir.tree_name name) dir.entries := by
  obtain ⟨hroot, hlen, json, hjson, hhash⟩ := publish_directory_ok hpublish
  rw [hhash]
  constructor
  · rintro ⟨files, hfetch, hsame⟩
    exact receivable_of_fetch_any hdir hworks hjson hfetch hsame
  · exact fetch_any_receivable hdir hworks hroot hlen hjson

end RoundTrip

/-! ## A name with a backslash -/

namespace backslash

local instance : Crypto := Crypto.clear

def content : Bytes := [0x68, 0x69]

def content_hash : BlobHash :=
  ⟨⟨[0x85, 0x05, 0x2e, 0x9a, 0xab, 0x1b, 0x67, 0xb6, 0x62, 0x2d, 0x94, 0xa0,
    0x84, 0x41, 0xb0, 0x9f, 0xd5, 0xb7, 0xac, 0xa6, 0x1e, 0xe3, 0x60, 0x41,
    0x6d, 0x70, 0xde, 0x5d, 0xa6, 0x7d, 0x86, 0xca], rfl⟩⟩

def json_hash : BlobHash :=
  ⟨⟨[0x35, 0x58, 0xc0, 0x7f, 0x16, 0x15, 0x68, 0x1f, 0x1a, 0xf7, 0x2b, 0xfa,
    0xeb, 0x50, 0xa7, 0x5a, 0x9a, 0x62, 0x6f, 0x90, 0x1e, 0xb4, 0x9a, 0xe0,
    0xea, 0x4e, 0x53, 0x3a, 0xc4, 0x33, 0x7c, 0x99], rfl⟩⟩

def tree : List Entry := [.file "a\\b" content]

def manifest : Manifest :=
  { iroh_drop_collection := 1, name := "t"
    entries := [{ path := "a/b", hash := content_hash.to_hex, size := 2 }] }

/-- The manifest in pretty-printed JSON. -/
def json : Bytes :=
  [0x7b, 0x0a, 0x20, 0x20, 0x22, 0x69, 0x72, 0x6f, 0x68, 0x5f, 0x64, 0x72, 0x6f, 0x70, 0x5f,
    0x63, 0x6f, 0x6c, 0x6c, 0x65, 0x63, 0x74, 0x69, 0x6f, 0x6e, 0x22, 0x3a, 0x20, 0x31, 0x2c,
    0x0a, 0x20, 0x20, 0x22, 0x6e, 0x61, 0x6d, 0x65, 0x22, 0x3a, 0x20, 0x22, 0x74, 0x22, 0x2c,
    0x0a, 0x20, 0x20, 0x22, 0x65, 0x6e, 0x74, 0x72, 0x69, 0x65, 0x73, 0x22, 0x3a, 0x20, 0x5b,
    0x0a, 0x20, 0x20, 0x20, 0x20, 0x7b, 0x0a, 0x20, 0x20, 0x20, 0x20, 0x20, 0x20, 0x22, 0x70,
    0x61, 0x74, 0x68, 0x22, 0x3a, 0x20, 0x22, 0x61, 0x2f, 0x62, 0x22, 0x2c, 0x0a, 0x20, 0x20,
    0x20, 0x20, 0x20, 0x20, 0x22, 0x68, 0x61, 0x73, 0x68, 0x22, 0x3a, 0x20, 0x22, 0x38, 0x35,
    0x30, 0x35, 0x32, 0x65, 0x39, 0x61, 0x61, 0x62, 0x31, 0x62, 0x36, 0x37, 0x62, 0x36, 0x36,
    0x32, 0x32, 0x64, 0x39, 0x34, 0x61, 0x30, 0x38, 0x34, 0x34, 0x31, 0x62, 0x30, 0x39, 0x66,
    0x64, 0x35, 0x62, 0x37, 0x61, 0x63, 0x61, 0x36, 0x31, 0x65, 0x65, 0x33, 0x36, 0x30, 0x34,
    0x31, 0x36, 0x64, 0x37, 0x30, 0x64, 0x65, 0x35, 0x64, 0x61, 0x36, 0x37, 0x64, 0x38, 0x36,
    0x63, 0x61, 0x22, 0x2c, 0x0a, 0x20, 0x20, 0x20, 0x20, 0x20, 0x20, 0x22, 0x73, 0x69, 0x7a,
    0x65, 0x22, 0x3a, 0x20, 0x32, 0x0a, 0x20, 0x20, 0x20, 0x20, 0x7d, 0x0a, 0x20, 0x20, 0x5d,
    0x0a, 0x7d]

/-- The crates, on the two blobs of this tree. -/
local instance : Crates where
  hash_of bytes := if bytes = content then content_hash else json_hash
  to_vec_pretty m := if m = manifest then .ok json else .error "not of this tree"
  from_slice bytes := if bytes = json then .ok manifest else .error "not of this tree"
  debug s := "\"" ++ s ++ "\""

def topic : TopicId := ⟨.fill 32 8⟩

def publisher : Session :=
  .new ⟨.fill 32 1⟩ {} PolicyDecider topic (.nodeless topic.as_bytes none) none (fun _ => .NotFound)

def draw (n : UInt8) : Draw :=
  { now := 0, sent_at_ms := 0, id := .fill 16 n, nonce := .fill 24 0, carried := .ok () }

def dir : LocalDirectory := { display := "/t", file_name := some "t", entries := tree }

def world : PublishWorld :=
  { walked := .ok ()
    member := fun _ => { metadata := .ok true, absolute := .ok (), added := .ok (), tag_set := .ok () }
    announced :=
      { imported := .ok json_hash, guessed := none, tag_set := .ok (), now := 0
        created_at_ms := 0, announced_at_ms := 0, offer_draw := draw 1, provider_draw := draw 2 } }

def published : Published :=
  { blob :=
      { hash := json_hash, name := "t", size := 197
        media_type := some COLLECTION_MEDIA_TYPE }
    members := 1, total_size := 2, is_collection := true }

def receiver : FetchAnyWorld :=
  { dest_created := .ok ()
    fetch := fun hash => .ok (if hash = content_hash then content else json)
    media_type := fun _ => some COLLECTION_MEDIA_TYPE
    display_name := fun _ => "t", os_error := fun _ => "" }

theorem tree_well_formed : WellFormedDir dir.entries := by
  refine ⟨⟨?_, ?_, ?_, ?_⟩, by simp, trivial⟩ <;> decide +kernel

theorem tree_manifest_eq : tree_manifest "t" dir.entries = manifest := by decide +kernel

theorem publish_ok : (publisher.publish_path (.directory dir) none world).1 = .ok published := by
  decide +kernel

theorem receiver_works : receiver.Works "t" dir.entries := by
  refine ⟨rfl, ?_, fun bytes hbytes => ?_⟩
  · decide +kernel
  · rw [tree_manifest_eq] at hbytes ⊢
    obtain rfl : json = bytes := Except.ok.inj ((if_pos rfl).symm.trans hbytes)
    decide +kernel

theorem collection_round_trip_iff_at_backslash :
    (∃ files, fetch_any receiver published.blob.hash = .ok files ∧
        files.SameTree "t" dir.entries) ↔ Receivable "t" dir.entries :=
  collection_round_trip_iff publisher dir none world receiver tree_well_formed publish_ok
    receiver_works

/-- The file comes out below a directory that was never there. -/
theorem a_file_moves_into_a_directory :
    ¬ ∀ [Crypto] [Crates] (session : Session) (dir : LocalDirectory) (name : Option String)
      (world : PublishWorld) (receiver : FetchAnyWorld) (published : Published),
      WellFormedDir dir.entries → (∀ f ∈ regular_files [] dir.entries, Shown f.1) →
      (session.publish_path (.directory dir) name world).1 = .ok published →
      receiver.Works (dir.tree_name name) dir.entries →
      ∃ files, fetch_any receiver published.blob.hash = .ok files ∧
        files.SameTree (dir.tree_name name) dir.entries := by
  intro h
  obtain ⟨files, hfetch, hsame⟩ := h publisher dir none world receiver published tree_well_formed
    (by decide +kernel) publish_ok receiver_works
  have hmoved : (fetch_any receiver published.blob.hash).toOption.map
      (fun files => files.lookup ["t", "a\\b"]) = some none := by
    decide +kernel
  rw [hfetch] at hmoved
  have hkept := (hsame ["t", "a\\b"] content).mpr
    ⟨(["a\\b"], content), List.mem_singleton_self _, by decide +kernel, rfl, rfl⟩
  cases hkept.symm.trans (Option.some_inj.mp hmoved)

end backslash

end iroh_drop
