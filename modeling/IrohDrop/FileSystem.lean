-- A file system as one process sees it: paths as text, the tree that they
-- name, and how the standard library makes directories in it.
import IrohDrop.ManifestPaths

open rust_std

namespace iroh_drop

/-! ## Paths -/

/-- `Path::join`: an absolute path replaces the base. -/
def join (base path : String) : String :=
  if path.toList.head? = some '/' then path
  else if base = "" ∨ base.toList.getLast? = some '/' then base ++ path
  else base ++ "/" ++ path

/-- `Path::parent`, component by component. -/
def parent (path : List Component) : Option (List Component) :=
  match path.getLast? with
  | none => none
  | some .RootDir => none
  | some _ => some path.dropLast

/-- A path of names, as `push` puts it together. -/
def to_path (parts : List String) : String := parts.foldl join ""

/-! ## The tree -/

inductive Node where
  | file (bytes : Bytes)
  | dir
deriving DecidableEq

inductive IoError where
  | NotFound
  | AlreadyExists
  | NotADirectory
  | IsADirectory
deriving DecidableEq

def IoError.text : IoError → String
  | .NotFound => "No such file or directory (os error 2)"
  | .AlreadyExists => "File exists (os error 17)"
  | .NotADirectory => "Not a directory (os error 20)"
  | .IsADirectory => "Is a directory (os error 21)"

/-- The tree that a process works in, without symbolic links: what stands
somewhere stands in a directory. -/
structure Fs where
  cwd : List String
  node : List String → Option Node
  root_is_dir : node [] = some .dir
  cwd_is_dir : node cwd = some .dir
  tree : ∀ path part, node (path ++ [part]) ≠ none → node path = some .dir

/-- Where a component leads from a directory. -/
def Component.step (here : List String) : Component → List String
  | .RootDir => []
  | .CurDir => here
  | .ParentDir => here.dropLast
  | .Normal part => here ++ [part]

namespace Fs

/-- A tree with nothing in it. -/
def bare : Fs where
  cwd := []
  node path := if path = [] then some .dir else none
  root_is_dir := rfl
  cwd_is_dir := rfl
  tree path part h := by
    rw [if_neg (by simp)] at h
    exact absurd rfl h

/-- Put a node into a directory. A directory is not replaced. -/
def put (self : Fs) (path : List String) (node : Node) : Fs :=
  if h : path ≠ [] ∧ self.node path ≠ some .dir ∧ self.node path.dropLast = some .dir then
    { cwd := self.cwd
      node := fun other => if other = path then some node else self.node other
      root_is_dir := by
        rw [if_neg (Ne.symm h.1)]
        exact self.root_is_dir
      cwd_is_dir := by
        have hne : self.cwd ≠ path := by
          intro heq
          exact h.2.1 (heq ▸ self.cwd_is_dir)
        rw [if_neg hne]
        exact self.cwd_is_dir
      tree := by
        intro other part hpart
        have hdir : self.node other = some .dir := by
          split at hpart
          · rename_i heq
            have := h.2.2
            rwa [← heq, List.dropLast_concat] at this
          · exact self.tree other part hpart
        have hne : other ≠ path := by
          intro heq
          exact h.2.1 (heq ▸ hdir)
        rw [if_neg hne]
        exact hdir }
  else self

/-- Follow components from a directory. Only the last place may be free, or a
file. -/
def walk (self : Fs) (here : List String) : List Component → Except IoError (List String)
  | [] => .ok here
  | c :: path =>
    match self.node here with
    | some .dir => self.walk (c.step here) path
    | some (.file _) => .error .NotADirectory
    | none => .error .NotFound

def locate (self : Fs) (path : List Component) : Except IoError (List String) :=
  self.walk self.cwd path

/-- `Path::exists`. -/
def «exists» (self : Fs) (path : List Component) : Bool :=
  match self.locate path with
  | .ok place => decide (path ≠ []) && (self.node place).isSome
  | .error _ => false

/-- `Path::is_dir`. -/
def is_dir (self : Fs) (path : List Component) : Bool :=
  match self.locate path with
  | .ok place => decide (self.node place = some .dir)
  | .error _ => false

def mkdir (self : Fs) (path : List Component) : Except IoError Fs :=
  match self.locate path with
  | .error e => .error e
  | .ok place =>
    match self.node place with
    | some _ => .error .AlreadyExists
    | none => .ok (self.put place .dir)

/-- `create_dir_all` of a path whose components come last first. -/
def create_dirs (self : Fs) : List Component → Except IoError Unit × Fs
  | [] => (.ok (), self)
  | c :: up =>
    match self.mkdir (c :: up).reverse with
    | .ok self => (.ok (), self)
    | .error .NotFound =>
      match self.create_dirs up with
      | (.error e, self) => (.error e, self)
      | (.ok (), self) =>
        match self.mkdir (c :: up).reverse with
        | .ok self => (.ok (), self)
        | .error e => (if self.is_dir (c :: up).reverse then .ok () else .error e, self)
    | .error e => (if self.is_dir (c :: up).reverse then .ok () else .error e, self)

/-- `std::fs::create_dir_all`. -/
def create_dir_all (self : Fs) (path : List Component) : Except IoError Unit × Fs :=
  self.create_dirs path.reverse

/-- Write a file, over the one that stands there. -/
def write (self : Fs) (path : List Component) (bytes : Bytes) : Except IoError Fs :=
  match self.locate path with
  | .error e => .error e
  | .ok place =>
    if self.node place = some .dir then .error .IsADirectory
    else .ok (self.put place (.file bytes))

end Fs

/-! ## Laws of paths -/

theorem join_toList_relative {base path : String} (h : path.toList.head? ≠ some '/')
    (hbase : base ≠ "") : ∃ front, (join base path).toList = front ++ '/' :: path.toList ∧
      (base.toList = front ∨ base.toList = front ++ ['/']) := by
  unfold join
  rw [if_neg h]
  split
  · rename_i hend
    have hlast := hend.resolve_left hbase
    obtain ⟨front, hfront⟩ := List.getLast?_eq_some_iff.mp hlast
    refine ⟨front, ?_, .inr hfront⟩
    rw [String.toList_append, hfront, List.append_assoc]
    rfl
  · refine ⟨base.toList, ?_, .inl rfl⟩
    rw [String.toList_append, String.toList_append, List.append_assoc]
    rfl

/-- How the text of a path starts. -/
def start (text : List Char) : List Component :=
  if text.head? = some '/' then [.RootDir]
  else if (text.splitOn '/').head? = some ['.'] then [.CurDir]
  else []

theorem components_eq (path : String) :
    components path = start path.toList ++ (path.toList.splitOn '/').filterMap component := rfl

/-- A slash at the end says nothing. -/
theorem pieces_slash (front : List Char) : ((front ++ ['/']).splitOn '/').filterMap component =
    (front.splitOn '/').filterMap component := by
  rw [List.splitOn_append_cons_self, List.filterMap_append, List.splitOn_nil]
  exact List.append_nil _

theorem head_splitOn_append (front rest : List Char) :
    ((front ++ '/' :: rest).splitOn '/').head? = (front.splitOn '/').head? := by
  have hne : front.splitOn '/' ≠ [] := List.splitOn_ne_nil _ _
  rw [List.splitOn_append_cons_self, List.head?_append_of_ne_nil _ hne]

theorem start_append {base front : List Char} (rest : List Char) (hbase : base ≠ [])
    (hfront : base = front ∨ base = front ++ ['/']) : start (front ++ '/' :: rest) = start base := by
  have hhead : (front ++ '/' :: rest).head? = base.head? := by
    cases front with
    | nil =>
      rcases hfront with rfl | rfl
      · exact absurd rfl hbase
      · rfl
    | cons c front =>
      rcases hfront with rfl | rfl
      · rfl
      · rfl
  have hpiece : ((front ++ '/' :: rest).splitOn '/').head? = (base.splitOn '/').head? := by
    rcases hfront with rfl | rfl
    · exact head_splitOn_append _ _
    · rw [head_splitOn_append, head_splitOn_append]
  unfold start
  rw [hhead, hpiece]

/-- A relative path goes on where the base ends. -/
theorem components_join {base path : String} (h : start path.toList = []) :
    components (join base path) = components base ++ components path := by
  have hroot : path.toList.head? ≠ some '/' := by
    intro hhead
    unfold start at h
    rw [if_pos hhead] at h
    cases h
  by_cases hbase : base = ""
  · subst hbase
    have hjoin : join "" path = path := by
      unfold join
      rw [if_neg hroot, if_pos (.inl rfl)]
      exact String.empty_append
    rw [hjoin]
    rfl
  · obtain ⟨front, hjoin, hfront⟩ := join_toList_relative hroot hbase
    have hpieces : (base.toList.splitOn '/').filterMap component =
        (front.splitOn '/').filterMap component := by
      rcases hfront with heq | heq
      · rw [heq]
      · rw [heq, pieces_slash]
    rw [components_eq, components_eq, components_eq, h, hjoin,
      start_append _ (toList_ne_nil hbase) hfront, List.splitOn_append_cons_self,
      List.filterMap_append, hpieces, List.nil_append, List.append_assoc]

theorem pieces_of_name {name : String} (h : FileName name) :
    name.toList.splitOn '/' = [name.toList] :=
  List.splitOn_eq_singleton h.no_slash

/-- A file name is a path of one component. -/
theorem components_of_name {name : String} (h : FileName name) :
    start name.toList = [] ∧ components name = [.Normal name] := by
  have hstart : start name.toList = [] := by
    unfold start
    rw [if_neg, if_neg]
    · rw [pieces_of_name h]
      intro hdot
      exact h.not_dot (String.toList_inj.mp (Option.some_inj.mp hdot))
    · intro hhead
      exact h.no_slash (List.mem_of_mem_head? hhead)
  refine ⟨hstart, ?_⟩
  rw [components_eq, hstart, pieces_of_name h, List.nil_append,
    List.filterMap_cons_some (component_of_name h), List.filterMap_nil]

theorem components_join_name {name : String} (h : FileName name) (base : String) :
    components (join base name) = components base ++ [.Normal name] := by
  obtain ⟨hstart, hcomponents⟩ := components_of_name h
  rw [components_join hstart, hcomponents]

theorem components_foldl_join {parts : List String} (h : ∀ part ∈ parts, FileName part)
    (base : String) :
    components (parts.foldl join base) = components base ++ parts.map .Normal := by
  induction parts generalizing base with
  | nil => exact (List.append_nil _).symm
  | cons part parts ih =>
    rw [List.foldl_cons, ih fun p hp => h p (List.mem_cons_of_mem part hp),
      components_join_name (h part List.mem_cons_self), List.append_assoc]
    rfl

theorem components_to_path {parts : List String} (h : ∀ part ∈ parts, FileName part) :
    components (to_path parts) = parts.map .Normal := components_foldl_join h ""

/-- A path of names goes below the base. -/
theorem components_join_path {parts : List String} (h : ∀ part ∈ parts, FileName part)
    (base : String) :
    components (join base (to_path parts)) = components base ++ parts.map .Normal := by
  have hcomponents := components_to_path h
  have hstart : start (to_path parts).toList = [] := by
    rw [components_eq] at hcomponents
    have hnormal : ∀ c ∈ start (to_path parts).toList, ∃ part, c = .Normal part := by
      intro c hc
      have hmem : c ∈ parts.map Component.Normal := hcomponents ▸ List.mem_append_left _ hc
      obtain ⟨part, -, rfl⟩ := List.mem_map.mp hmem
      exact ⟨part, rfl⟩
    unfold start at hnormal ⊢
    split
    · rename_i hroot
      rw [if_pos hroot] at hnormal
      obtain ⟨part, hpart⟩ := hnormal _ (List.mem_singleton_self _)
      cases hpart
    · rename_i hroot
      rw [if_neg hroot] at hnormal
      split
      · rename_i hdot
        rw [if_pos hdot] at hnormal
        obtain ⟨part, hpart⟩ := hnormal _ (List.mem_singleton_self _)
        cases hpart
      · rfl
  rw [components_join hstart, hcomponents]

theorem parent_append (path : List Component) (part : String) :
    parent (path ++ [.Normal part]) = some path := by
  unfold parent
  rw [List.getLast?_append, List.dropLast_concat]
  rfl

/-! ## Laws of the tree -/

namespace Fs

theorem put_node {fs : Fs} {path : List String} {node : Node} (hdir : fs.node path ≠ some .dir)
    (hparent : fs.node path.dropLast = some .dir) (other : List String) :
    (fs.put path node).node other = if other = path then some node else fs.node other := by
  have hne : path ≠ [] := by
    rintro rfl
    exact hdir fs.root_is_dir
  unfold put
  rw [dif_pos ⟨hne, hdir, hparent⟩]

@[simp] theorem put_cwd (fs : Fs) (path : List String) (node : Node) :
    (fs.put path node).cwd = fs.cwd := by
  unfold put
  split <;> rfl

/-- Everything on the way to a node is a directory. -/
theorem is_dir_above {fs : Fs} {here rest : List String} (hrest : rest ≠ [])
    (h : fs.node (here ++ rest) ≠ none) : fs.node here = some .dir := by
  induction rest using List.reverseRecOn with
  | nil => exact absurd rfl hrest
  | append_singleton rest part ih =>
    rw [← List.append_assoc] at h
    have hdir := fs.tree _ _ h
    cases rest with
    | nil => rwa [List.append_nil] at hdir
    | cons first rest =>
      refine ih (List.cons_ne_nil _ _) ?_
      rw [hdir]
      exact Option.some_ne_none _

theorem walk_append (fs : Fs) (here : List String) (path rest : List Component) :
    fs.walk here (path ++ rest) = fs.walk here path >>= fun place => fs.walk place rest := by
  induction path generalizing here with
  | nil => rfl
  | cons c path ih =>
    rw [List.cons_append, walk, walk]
    split
    · exact ih _
    · rfl
    · rfl

theorem locate_append (fs : Fs) {path : List Component} {place : List String}
    (h : fs.locate path = .ok place) (rest : List Component) :
    fs.locate (path ++ rest) = fs.walk place rest := by
  unfold locate at h ⊢
  rw [walk_append, h]
  rfl

/-- A place that is free lies in a directory. -/
theorem parent_of_walk {fs : Fs} {path : List Component} {here place : List String}
    (hhere : fs.node here ≠ none) (h : fs.walk here path = .ok place) (hfree : fs.node place = none) :
    fs.node place.dropLast = some .dir := by
  induction path generalizing here with
  | nil =>
    cases h
    exact absurd hfree hhere
  | cons c path ih =>
    rw [walk] at h
    split at h
    · rename_i hdir
      cases c with
      | RootDir =>
        refine ih ?_ h
        rw [Component.step, fs.root_is_dir]
        exact Option.some_ne_none _
      | CurDir => exact ih hhere h
      | ParentDir =>
        refine ih ?_ h
        rw [Component.step]
        rcases List.eq_nil_or_concat here with rfl | ⟨up, part, rfl⟩
        · exact hhere
        · rw [List.concat_eq_append, List.dropLast_concat, fs.tree up part]
          · exact Option.some_ne_none _
          · rw [← List.concat_eq_append]
            exact hhere
      | Normal part =>
        by_cases hpart : fs.node (here ++ [part]) = none
        · -- Only the last component may lead to a free place.
          cases path with
          | nil =>
            cases h
            rw [Component.step, List.dropLast_concat]
            exact hdir
          | cons next path =>
            rw [Component.step, walk, hpart] at h
            cases h
        · exact ih hpart h
    · cases h
    · cases h

/-- The directories of a tree are still there. -/
structure KeepsDirs (fs fs' : Fs) : Prop where
  cwd : fs'.cwd = fs.cwd
  dirs : ∀ place, fs.node place = some .dir → fs'.node place = some .dir

theorem KeepsDirs.walk {fs fs' : Fs} (h : KeepsDirs fs fs') {here place : List String}
    {path : List Component} (hwalk : fs.walk here path = .ok place) :
    fs'.walk here path = .ok place := by
  induction path generalizing here with
  | nil => exact hwalk
  | cons c path ih =>
    rw [Fs.walk] at hwalk ⊢
    split at hwalk
    · rename_i hdir
      rw [h.dirs _ hdir]
      exact ih hwalk
    · cases hwalk
    · cases hwalk

theorem KeepsDirs.locate {fs fs' : Fs} (h : KeepsDirs fs fs') {path : List Component}
    {place : List String} (hlocate : fs.locate path = .ok place) : fs'.locate path = .ok place := by
  unfold Fs.locate at hlocate ⊢
  rw [h.cwd]
  exact h.walk hlocate

/-- The tree has everything the other one has, and some directories more. -/
structure Grows (fs fs' : Fs) : Prop where
  cwd : fs'.cwd = fs.cwd
  keeps : ∀ place node, fs.node place = some node → fs'.node place = some node
  adds : ∀ place, fs.node place = none → fs'.node place = none ∨ fs'.node place = some .dir

namespace Grows

theorem refl (fs : Fs) : Grows fs fs := ⟨rfl, fun _ _ h => h, fun _ h => .inl h⟩

theorem trans {a b c : Fs} (h : Grows a b) (h' : Grows b c) : Grows a c := by
  refine ⟨h'.cwd.trans h.cwd, fun place node hnode => h'.keeps _ _ (h.keeps _ _ hnode), ?_⟩
  intro place hfree
  rcases h.adds place hfree with hb | hb
  · exact h'.adds place hb
  · exact .inr (h'.keeps _ _ hb)

theorem keeps_dirs {fs fs' : Fs} (h : Grows fs fs') : KeepsDirs fs fs' :=
  ⟨h.cwd, fun place hdir => h.keeps place _ hdir⟩

theorem locate {fs fs' : Fs} (h : Grows fs fs') {path : List Component} {place : List String}
    (hlocate : fs.locate path = .ok place) : fs'.locate path = .ok place :=
  h.keeps_dirs.locate hlocate

/-- A file was there before. -/
theorem file_iff {fs fs' : Fs} (h : Grows fs fs') (place : List String) (bytes : Bytes) :
    fs'.node place = some (.file bytes) ↔ fs.node place = some (.file bytes) := by
  refine ⟨fun hfile => ?_, h.keeps _ _⟩
  rcases hnode : fs.node place with _ | node
  · rcases h.adds place hnode with hfree | hdir
    · rw [hfile] at hfree
      cases hfree
    · rw [hfile] at hdir
      cases hdir
  · rw [h.keeps _ _ hnode] at hfile
    exact hfile

end Grows

theorem locate_ne_none {fs : Fs} {path : List Component} {place : List String}
    (h : fs.locate path = .ok place) (hfree : fs.node place = none) :
    fs.node place.dropLast = some .dir := by
  refine parent_of_walk ?_ h hfree
  rw [fs.cwd_is_dir]
  exact Option.some_ne_none _

theorem is_dir_iff {fs : Fs} {path : List Component} :
    fs.is_dir path = true ↔ ∃ place, fs.locate path = .ok place ∧ fs.node place = some .dir := by
  unfold is_dir
  split
  · rename_i place hlocate
    rw [decide_eq_true_iff, hlocate]
    exact ⟨fun h => ⟨place, rfl, h⟩, fun ⟨_, heq, h⟩ => Except.ok.inj heq ▸ h⟩
  · rename_i e hlocate
    rw [hlocate]
    refine ⟨fun h => absurd h Bool.false_ne_true, ?_⟩
    rintro ⟨_, h, -⟩
    cases h

/-- A directory that was made stands at a free place, and nothing else changed. -/
theorem mkdir_spec {fs fs' : Fs} {path : List Component} (h : fs.mkdir path = .ok fs') :
    ∃ place, fs.locate path = .ok place ∧ fs.node place = none ∧ fs'.cwd = fs.cwd ∧
      ∀ other, fs'.node other = if other = place then some .dir else fs.node other := by
  unfold mkdir at h
  split at h
  · cases h
  · rename_i place hlocate
    split at h
    · cases h
    · rename_i hfree
      cases h
      refine ⟨place, hlocate, hfree, put_cwd _ _ _, put_node ?_ (locate_ne_none hlocate hfree)⟩
      rw [hfree]
      exact Option.some_ne_none _ ∘ Eq.symm

theorem mkdir_grows {fs fs' : Fs} {path : List Component} (h : fs.mkdir path = .ok fs') :
    Grows fs fs' ∧ fs'.is_dir path = true := by
  obtain ⟨place, hlocate, hfree, hcwd, hnode⟩ := mkdir_spec h
  have hgrows : Grows fs fs' := by
    refine ⟨hcwd, ?_, ?_⟩
    · intro other node hother
      rw [hnode, if_neg, hother]
      rintro rfl
      rw [hfree] at hother
      cases hother
    · intro other hother
      rw [hnode]
      split
      · exact .inr rfl
      · exact .inl hother
  refine ⟨hgrows, is_dir_iff.mpr ⟨place, hgrows.locate hlocate, ?_⟩⟩
  rw [hnode, if_pos rfl]

/-- Making directories adds directories, and leaves one at the path. -/
theorem create_dirs_grows (fs : Fs) (path : List Component) :
    Grows fs (fs.create_dirs path).2 ∧
      ((fs.create_dirs path).1 = .ok () → (fs.create_dirs path).2.is_dir path.reverse = true) := by
  induction path generalizing fs with
  | nil => exact ⟨.refl fs, fun _ => is_dir_iff.mpr ⟨fs.cwd, rfl, fs.cwd_is_dir⟩⟩
  | cons c up ih =>
    have hend : ∀ (fs : Fs) (e : IoError),
        (if fs.is_dir (c :: up).reverse = true then Except.ok () else .error e) = .ok () →
          fs.is_dir (c :: up).reverse = true := by
      intro fs e h
      split at h
      · rename_i hdir
        exact hdir
      · cases h
    unfold create_dirs
    split
    · rename_i fs' hmkdir
      exact ⟨(mkdir_grows hmkdir).1, fun _ => (mkdir_grows hmkdir).2⟩
    · obtain ⟨hgrows, -⟩ := ih fs
      split
      · rename_i e fs' hup
        rw [hup] at hgrows
        exact ⟨hgrows, fun h => nomatch h⟩
      · rename_i fs' hup
        rw [hup] at hgrows
        split
        · rename_i fs'' hmkdir
          exact ⟨hgrows.trans (mkdir_grows hmkdir).1, fun _ => (mkdir_grows hmkdir).2⟩
        · rename_i e hmkdir
          exact ⟨hgrows, hend fs' e⟩
    · rename_i e _ hmkdir
      exact ⟨.refl fs, hend fs e⟩

/-- Only directories on the way to the path are new. -/
theorem create_dirs_places (fs : Fs) (path : List Component) (place : List String)
    (h : (fs.create_dirs path).2.node place ≠ fs.node place) :
    (fs.create_dirs path).2.node place = some .dir ∧
      ∃ pre, pre <+: path.reverse ∧ (fs.create_dirs path).2.locate pre = .ok place := by
  induction path generalizing fs with
  | nil => exact absurd rfl h
  | cons c up ih =>
    have hlast : ∀ {fs fs' : Fs}, fs.mkdir (c :: up).reverse = .ok fs' →
        fs'.node place ≠ fs.node place →
          fs'.node place = some .dir ∧
            ∃ pre, pre <+: (c :: up).reverse ∧ fs'.locate pre = .ok place := by
      intro fs fs' hmkdir hne
      obtain ⟨place', hlocate, -, -, hnode⟩ := mkdir_spec hmkdir
      rw [hnode] at hne ⊢
      split at hne
      · rename_i heq
        rw [if_pos heq, heq]
        exact ⟨rfl, _, List.prefix_refl _, (mkdir_grows hmkdir).1.locate hlocate⟩
      · exact absurd rfl hne
    unfold create_dirs at h ⊢
    split at h
    · rename_i fs' hmkdir
      exact hlast hmkdir h
    · have hup := ih fs
      have hfront : up.reverse <+: (c :: up).reverse := by
        rw [List.reverse_cons]
        exact List.prefix_append _ _
      split at h
      · rename_i e fs' hcreate
        rw [hcreate] at hup
        obtain ⟨hdir, pre, hpre, hlocate⟩ := hup h
        exact ⟨hdir, pre, hpre.trans hfront, hlocate⟩
      · rename_i fs' hcreate
        rw [hcreate] at hup
        split at h
        · rename_i fs'' hmkdir
          by_cases hne : fs''.node place = fs'.node place
          · obtain ⟨hdir, pre, hpre, hlocate⟩ := hup fun heq => h (hne.trans heq)
            exact ⟨hne.trans hdir, pre, hpre.trans hfront, (mkdir_grows hmkdir).1.locate hlocate⟩
          · exact hlast hmkdir hne
        · obtain ⟨hdir, pre, hpre, hlocate⟩ := hup h
          exact ⟨hdir, pre, hpre.trans hfront, hlocate⟩
    · exact absurd rfl h

theorem create_dir_all_grows (fs : Fs) (path : List Component) :
    Grows fs (fs.create_dir_all path).2 := (create_dirs_grows fs path.reverse).1

theorem create_dir_all_is_dir {fs fs' : Fs} {path : List Component}
    (h : fs.create_dir_all path = (.ok (), fs')) : fs'.is_dir path = true := by
  have hdir := (create_dirs_grows fs path.reverse).2
  unfold create_dir_all at h
  rw [h, List.reverse_reverse] at hdir
  exact hdir rfl

/-- A directory that is there is left alone. -/
theorem create_dir_all_of_is_dir {fs : Fs} {path : List Component} (h : fs.is_dir path = true) :
    fs.create_dir_all path = (.ok (), fs) := by
  obtain ⟨place, hlocate, hdir⟩ := is_dir_iff.mp h
  unfold create_dir_all
  rcases List.eq_nil_or_concat path with rfl | ⟨up, c, rfl⟩
  · rfl
  · have hreverse : (up.concat c).reverse = c :: up.reverse := by simp
    have hmkdir : fs.mkdir (up.concat c) = .error .AlreadyExists := by
      unfold mkdir
      rw [hlocate]
      simp only [hdir]
    rw [hreverse, create_dirs]
    simp only [← hreverse, List.reverse_reverse, hmkdir, h, if_true]

theorem create_dir_all_concat (fs : Fs) (path : List Component) (c : Component) :
    fs.create_dir_all (path ++ [c]) =
      match fs.mkdir (path ++ [c]) with
      | .ok fs => (.ok (), fs)
      | .error .NotFound =>
        match fs.create_dir_all path with
        | (.error e, fs) => (.error e, fs)
        | (.ok (), fs) =>
          match fs.mkdir (path ++ [c]) with
          | .ok fs => (.ok (), fs)
          | .error e => (if fs.is_dir (path ++ [c]) then .ok () else .error e, fs)
      | .error e => (if fs.is_dir (path ++ [c]) then .ok () else .error e, fs) := by
  have hreverse : (path ++ [c]).reverse = c :: path.reverse := by simp
  have hback : (c :: path.reverse).reverse = path ++ [c] := by simp
  rw [create_dir_all, hreverse, create_dirs, hback]
  rfl

/-! ## Names below a directory -/

/-- A file stands on the way from a directory. -/
def Blocked (fs : Fs) (here : List String) (parts : List String) : Prop :=
  ∃ pre, pre <+: parts ∧ ∃ bytes, fs.node (here ++ pre) = some (.file bytes)

theorem walk_names {fs : Fs} {here : List String} {parts : List String} (part : String)
    (h : fs.node (here ++ parts) = some .dir) :
    fs.walk here ((parts ++ [part]).map .Normal) = .ok (here ++ (parts ++ [part])) := by
  induction parts generalizing here with
  | nil =>
    rw [List.append_nil] at h
    simp only [List.nil_append, List.map_cons, List.map_nil, walk, h, Component.step]
  | cons first parts ih =>
    have hhere : fs.node here = some .dir := by
      refine is_dir_above (List.cons_ne_nil first parts) ?_
      rw [h]
      exact Option.some_ne_none _
    have hassoc : here ++ first :: parts = (here ++ [first]) ++ parts := by simp
    rw [hassoc] at h
    rw [List.cons_append, List.map_cons, walk, hhere]
    simp only [Component.step]
    rw [ih h]
    simp

/-- Without a directory above it, a name is not found, or there is a file in
the way. -/
theorem walk_names_missing {fs : Fs} {here : List String} {parts : List String} (part : String)
    (h : fs.node (here ++ parts) ≠ some .dir) :
    ∃ e, fs.walk here ((parts ++ [part]).map .Normal) = .error e ∧
      (e = .NotFound ∧ ¬ Blocked fs here parts ∨ e = .NotADirectory ∧ Blocked fs here parts) := by
  induction parts generalizing here with
  | nil =>
    rw [List.append_nil] at h
    rw [List.nil_append, List.map_cons, walk]
    split
    · rename_i hdir
      exact absurd hdir h
    · rename_i bytes hfile
      exact ⟨_, rfl, .inr ⟨rfl, [], List.nil_prefix, bytes, by rwa [List.append_nil]⟩⟩
    · rename_i hfree
      refine ⟨_, rfl, .inl ⟨rfl, ?_⟩⟩
      rintro ⟨pre, hpre, bytes, hfile⟩
      rw [List.prefix_nil.mp hpre, List.append_nil, hfree] at hfile
      cases hfile
  | cons first parts ih =>
    have hassoc : ∀ rest, here ++ first :: rest = (here ++ [first]) ++ rest := by simp
    rw [List.cons_append, List.map_cons, walk]
    split
    · rename_i hdir
      rw [hassoc] at h
      obtain ⟨e, hwalk, hcases⟩ := ih h
      have hblocked : Blocked fs (here ++ [first]) parts ↔ Blocked fs here (first :: parts) := by
        constructor
        · rintro ⟨pre, hpre, bytes, hfile⟩
          exact ⟨first :: pre, List.cons_prefix_cons.mpr ⟨rfl, hpre⟩, bytes, by rwa [hassoc]⟩
        · rintro ⟨pre, hpre, bytes, hfile⟩
          cases pre with
          | nil =>
            rw [List.append_nil, hdir] at hfile
            cases hfile
          | cons c pre =>
            obtain ⟨rfl, hrest⟩ := List.cons_prefix_cons.mp hpre
            exact ⟨pre, hrest, bytes, by rwa [← hassoc]⟩
      rw [hblocked] at hcases
      exact ⟨e, hwalk, hcases⟩
    · rename_i bytes hfile
      exact ⟨_, rfl, .inr ⟨rfl, [], List.nil_prefix, bytes, by rwa [List.append_nil]⟩⟩
    · rename_i hfree
      refine ⟨_, rfl, .inl ⟨rfl, ?_⟩⟩
      rintro ⟨pre, -, bytes, hfile⟩
      cases pre with
      | nil =>
        rw [List.append_nil, hfree] at hfile
        cases hfile
      | cons c pre =>
        have hhere := is_dir_above (List.cons_ne_nil c pre)
          (hfile ▸ Option.some_ne_none (Node.file bytes))
        rw [hfree] at hhere
        cases hhere

section Below

variable {fs : Fs} {path : List Component} {here : List String}

theorem locate_names (hlocate : fs.locate path = .ok here) {parts : List String} (part : String)
    (h : fs.node (here ++ parts) = some .dir) :
    fs.locate (path ++ (parts ++ [part]).map .Normal) = .ok (here ++ (parts ++ [part])) :=
  (locate_append fs hlocate _).trans (walk_names part h)

/-- The directories of `parts` are there, and nothing else is new. -/
structure Deepens (fs fs' : Fs) (here : List String) (parts : List String) : Prop where
  cwd : fs'.cwd = fs.cwd
  made : ∀ pre, pre <+: parts → fs'.node (here ++ pre) = some .dir
  same : ∀ place, (∀ pre, pre <+: parts → place ≠ here ++ pre) → fs'.node place = fs.node place

theorem deepens_nil (hdir : fs.node here = some .dir) : Deepens fs fs here [] := by
  refine ⟨rfl, fun pre hpre => ?_, fun _ _ => rfl⟩
  rw [List.prefix_nil.mp hpre, List.append_nil]
  exact hdir

theorem mkdir_eq_ok {path : List Component} {place : List String}
    (hlocate : fs.locate path = .ok place) (hfree : fs.node place = none) :
    fs.mkdir path = .ok (fs.put place .dir) := by
  unfold mkdir
  rw [hlocate]
  simp only [hfree]

theorem mkdir_taken {path : List Component} {place : List String} {node : Node}
    (hlocate : fs.locate path = .ok place) (hnode : fs.node place = some node) :
    fs.mkdir path = .error .AlreadyExists := by
  unfold mkdir
  rw [hlocate]
  simp only [hnode]

/-- One directory more. -/
theorem Deepens.put {fs' : Fs} {parts : List String} {part : String}
    (h : Deepens fs fs' here parts) (hfree : fs'.node (here ++ (parts ++ [part])) = none) :
    Deepens fs (fs'.put (here ++ (parts ++ [part])) .dir) here (parts ++ [part]) := by
  have hparent : fs'.node (here ++ (parts ++ [part])).dropLast = some .dir := by
    rw [← List.append_assoc, List.dropLast_concat]
    exact h.made parts (List.prefix_refl _)
  have hdir : fs'.node (here ++ (parts ++ [part])) ≠ some .dir := by
    rw [hfree]
    exact Option.some_ne_none _ ∘ Eq.symm
  have hnode : ∀ other, (fs'.put (here ++ (parts ++ [part])) .dir).node other =
      if other = here ++ (parts ++ [part]) then some .dir else fs'.node other :=
    put_node hdir hparent
  refine ⟨(put_cwd _ _ _).trans h.cwd, ?_, ?_⟩
  · intro pre hpre
    rw [hnode]
    split
    · rfl
    · rename_i hne
      rcases List.prefix_concat_iff.mp hpre with rfl | hpre
      · exact absurd rfl hne
      · exact h.made pre hpre
  · intro place hplace
    rw [hnode, if_neg (hplace _ (List.prefix_refl _))]
    exact h.same place fun pre hpre => hplace pre (hpre.trans (List.prefix_append _ _))

/-- Directories below a directory are made, unless a file is in the way. -/
theorem create_dir_all_below (hlocate : fs.locate path = .ok here)
    (hdir : fs.node here = some .dir) (parts : List String) :
    (¬ Blocked fs here parts ∧ ∃ fs', fs.create_dir_all (path ++ parts.map .Normal) =
        (.ok (), fs') ∧ Deepens fs fs' here parts) ∨
      (Blocked fs here parts ∧
        ∃ e, fs.create_dir_all (path ++ parts.map .Normal) = (.error e, fs)) := by
  induction parts using List.reverseRecOn with
  | nil =>
    have hpath : fs.is_dir (path ++ [].map Component.Normal) = true :=
      is_dir_iff.mpr ⟨here, by rwa [List.map_nil, List.append_nil], hdir⟩
    refine .inl ⟨?_, fs, create_dir_all_of_is_dir hpath, deepens_nil hdir⟩
    rintro ⟨pre, hpre, bytes, hfile⟩
    rw [List.prefix_nil.mp hpre, List.append_nil, hdir] at hfile
    cases hfile
  | append_singleton parts part ih =>
    have hmap : path ++ (parts ++ [part]).map Component.Normal =
        (path ++ parts.map .Normal) ++ [.Normal part] := by simp
    have hblocked : Blocked fs here parts → Blocked fs here (parts ++ [part]) := by
      rintro ⟨pre, hpre, hfile⟩
      exact ⟨pre, hpre.trans (List.prefix_append _ _), hfile⟩
    by_cases hup : fs.node (here ++ parts) = some .dir
    · -- The directory above is there: it is the last name that decides.
      have hplace := locate_names hlocate part hup
      have hclear : ¬ Blocked fs here parts := by
        rintro ⟨pre, ⟨rest, rfl⟩, bytes, hfile⟩
        rw [← List.append_assoc] at hup
        cases rest with
        | nil =>
          rw [List.append_nil, hfile] at hup
          cases hup
        | cons c rest =>
          have := is_dir_above (List.cons_ne_nil c rest) (hup ▸ Option.some_ne_none Node.dir)
          rw [hfile] at this
          cases this
      have hends : (∀ bytes, fs.node (here ++ (parts ++ [part])) ≠ some (.file bytes)) →
          ¬ Blocked fs here (parts ++ [part]) := by
        rintro hnofile ⟨pre, hpre, bytes, hfile⟩
        rcases List.prefix_concat_iff.mp hpre with rfl | hpre
        · exact hnofile bytes hfile
        · exact hclear ⟨pre, hpre, bytes, hfile⟩
      have habove : Deepens fs fs here parts := by
        refine ⟨rfl, ?_, fun _ _ => rfl⟩
        rintro pre ⟨rest, rfl⟩
        cases rest with
        | nil => rwa [List.append_nil] at hup
        | cons c rest =>
          refine is_dir_above (List.cons_ne_nil c rest) ?_
          rw [List.append_assoc, hup]
          exact Option.some_ne_none _
      rcases hnode : fs.node (here ++ (parts ++ [part])) with _ | node
      · left
        refine ⟨hends fun bytes hfile => ?_, _, ?_, habove.put hnode⟩
        · rw [hnode] at hfile
          cases hfile
        · rw [hmap, create_dir_all_concat, ← hmap, mkdir_eq_ok hplace hnode]
      · cases node with
        | dir =>
          left
          refine ⟨hends fun bytes hfile => ?_, fs,
            create_dir_all_of_is_dir (is_dir_iff.mpr ⟨_, hplace, hnode⟩), rfl, ?_, fun _ _ => rfl⟩
          · rw [hnode] at hfile
            cases hfile
          · intro pre hpre
            rcases List.prefix_concat_iff.mp hpre with rfl | hpre
            · exact hnode
            · exact habove.made pre hpre
        | file bytes =>
          right
          refine ⟨⟨_, List.prefix_refl _, bytes, hnode⟩, .AlreadyExists, ?_⟩
          have hno : ¬ fs.is_dir (path ++ (parts ++ [part]).map .Normal) = true := by
            intro hdir
            obtain ⟨place, hlocate', hdir'⟩ := is_dir_iff.mp hdir
            cases hplace.symm.trans hlocate'
            rw [hnode] at hdir'
            cases hdir'
          rw [hmap, create_dir_all_concat, ← hmap, mkdir_taken hplace hnode]
          simp only [if_neg hno]
    · obtain ⟨e, hwalk, hcases⟩ := walk_names_missing part hup
      have hmissing := (locate_append fs hlocate _).trans hwalk
      have hmkdir : fs.mkdir (path ++ (parts ++ [part]).map .Normal) = .error e := by
        unfold mkdir
        rw [hmissing]
      rcases hcases with ⟨rfl, hclear⟩ | ⟨rfl, hblock⟩
      · -- The directories above are made first.
        rcases ih with ⟨-, fs', hcreate, hdeepens⟩ | ⟨hblock, -⟩
        · have hgrows : Grows fs fs' := by
            have := create_dir_all_grows fs (path ++ parts.map .Normal)
            rwa [hcreate] at this
          have hfree : fs.node (here ++ (parts ++ [part])) = none := by
            by_contra hnode
            refine hup (is_dir_above (List.cons_ne_nil part []) ?_)
            rwa [List.append_assoc]
          have hfree' : fs'.node (here ++ (parts ++ [part])) = none := by
            rw [hdeepens.same, hfree]
            intro pre hpre heq
            have hlen := hpre.length_le
            have := congrArg List.length (List.append_cancel_left heq)
            rw [List.length_append, List.length_singleton] at this
            omega
          have hplace := locate_names (hgrows.locate hlocate) part
            (hdeepens.made parts (List.prefix_refl _))
          left
          refine ⟨?_, _, ?_, hdeepens.put hfree'⟩
          · rintro ⟨pre, hpre, bytes, hfile⟩
            rcases List.prefix_concat_iff.mp hpre with rfl | hpre
            · rw [hfree] at hfile
              cases hfile
            · exact hclear ⟨pre, hpre, bytes, hfile⟩
          · rw [hmap, create_dir_all_concat, ← hmap, hmkdir]
            simp only [hcreate, mkdir_eq_ok hplace hfree']
        · exact absurd hblock hclear
      · right
        refine ⟨hblocked hblock, .NotADirectory, ?_⟩
        have hno : ¬ fs.is_dir (path ++ (parts ++ [part]).map .Normal) = true := by
          intro hdir
          obtain ⟨place, hlocate', -⟩ := is_dir_iff.mp hdir
          rw [hmissing] at hlocate'
          cases hlocate'
        rw [hmap, create_dir_all_concat, ← hmap, hmkdir]
        simp only [if_neg hno]

end Below

/-! ## Files -/

/-- A file that was written stands at its place, and nothing else changed. -/
theorem write_spec {fs fs' : Fs} {path : List Component} {bytes : Bytes}
    (h : fs.write path bytes = .ok fs') :
    ∃ place, fs.locate path = .ok place ∧ fs.node place ≠ some .dir ∧ fs'.cwd = fs.cwd ∧
      ∀ other, fs'.node other = if other = place then some (.file bytes) else fs.node other := by
  unfold write at h
  split at h
  · cases h
  · rename_i place hlocate
    split at h
    · cases h
    · rename_i hdir
      cases h
      refine ⟨place, hlocate, hdir, put_cwd _ _ _, put_node hdir ?_⟩
      rcases hnode : fs.node place with _ | node
      · exact locate_ne_none hlocate hnode
      · rcases List.eq_nil_or_concat place with rfl | ⟨up, part, rfl⟩
        · exact absurd fs.root_is_dir hdir
        · rw [List.concat_eq_append] at hnode ⊢
          rw [List.dropLast_concat]
          refine fs.tree up part ?_
          rw [hnode]
          exact Option.some_ne_none _

theorem write_keeps_dirs {fs fs' : Fs} {path : List Component} {bytes : Bytes}
    (h : fs.write path bytes = .ok fs') : KeepsDirs fs fs' := by
  obtain ⟨place, -, hdir, hcwd, hnode⟩ := write_spec h
  refine ⟨hcwd, fun other hother => ?_⟩
  rw [hnode, if_neg, hother]
  rintro rfl
  exact hdir hother

end Fs

end iroh_drop
