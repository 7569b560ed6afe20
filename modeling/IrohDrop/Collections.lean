-- Directory trees as collections: the manifest that a publisher makes of a
-- tree, and the tree that a receiver makes of a manifest (collections.rs).
import IrohDrop.Session

open rust_std

namespace iroh_drop

def COLLECTION_MEDIA_TYPE : String := "application/vnd.iroh-drop.collection+json"
def META_MEMBERS : String := "collection.members"
def META_TOTAL_BYTES : String := "collection.total_bytes"
def MAX_MANIFEST_BYTES : Nat := 8 * 1024 * 1024
def MAX_MEMBERS : Nat := 20000

inductive SdkError where
  | Drop (error : DropError)
  | Io (reason : String)
  | Manifest (reason : String)
  | Pick (reason : String)
deriving DecidableEq

/-! ## Manifests -/

structure ManifestEntry where
  path : String
  hash : String
  size : UInt64
deriving DecidableEq

structure Manifest where
  iroh_drop_collection : UInt16
  name : String
  entries : List ManifestEntry
deriving DecidableEq

def Manifest.total_size (self : Manifest) : UInt64 :=
  (self.entries.map ManifestEntry.size).foldl (· + ·) 0

/-- What collections take from the crates around them: the hash of the blob
store, the JSON of `serde_json`, and how `{:?}` prints a string. -/
class Crates where
  hash_of : Bytes → BlobHash
  to_vec_pretty : Manifest → Except String Bytes
  from_slice : Bytes → Except String Manifest
  debug : String → String

/-! ## Hashes in hex -/

def hex_value (c : Char) : Option Nat :=
  if '0' ≤ c ∧ c ≤ '9' then some (c.toNat - '0'.toNat)
  else if 'a' ≤ c ∧ c ≤ 'f' then some (c.toNat - 'a'.toNat + 10)
  else none

/-- `HEXLOWER.decode`, from the symbol at `pos` on. -/
def hex_decode (pos : Nat) : List Char → Except String Bytes
  | [] => .ok []
  | [_] => .error s!"invalid length at {pos}"
  | hi :: lo :: rest =>
    match hex_value hi, hex_value lo with
    | none, _ => .error s!"invalid symbol at {pos}"
    | some _, none => .error s!"invalid symbol at {pos + 1}"
    | some h, some l => do
      let bytes ← hex_decode (pos + 2) rest
      return UInt8.ofNat (16 * h + l) :: bytes

def BlobHash.from_hex (s : String) : Except String BlobHash := do
  ensure (s.utf8ByteSize = 64) s!"expected 64 hex chars, got {s.utf8ByteSize}"
  let bytes ← hex_decode 0 s.toList
  let bytes ← ok_or (FixedBytes.ofList? 32 bytes) "expected 32 bytes"
  return ⟨bytes⟩

/-! ## Trees -/

/-- What a directory lists: the bytes of a file, the entries of a directory. -/
inductive Entry where
  | file (name : String) (bytes : Bytes)
  | dir (name : String) (entries : List Entry)
  | symlink (name : String)

def Entry.name : Entry → String
  | .file name _ | .dir name _ | .symlink name => name

def is_hidden (name : String) : Bool := name.toList.head? = some '.'

mutual

/-- What one entry adds to the walk: hidden entries and symlinks add nothing. -/
def Entry.collect (dir : List String) : Entry → List (List String × Bytes)
  | .file name bytes => if is_hidden name then [] else [(dir ++ [name], bytes)]
  | .dir name entries => if is_hidden name then [] else collect_files (dir ++ [name]) entries
  | .symlink _ => []

/-- The regular files below a directory, under their paths. -/
def collect_files (dir : List String) : List Entry → List (List String × Bytes)
  | [] => []
  | entry :: entries => entry.collect dir ++ collect_files dir entries

end

/-- The order of paths, part by part. -/
def path_le (a b : List String × Bytes) : Prop := a.1 ≤ b.1

instance : DecidableRel path_le := fun a b => by unfold path_le; infer_instance

/-- A path as text, `/` between its parts. -/
def to_string_lossy (path : List String) : String :=
  String.ofList (['/'].intercalate (path.map String.toList))

/-- The path of a member in the manifest: backslashes turn into slashes. -/
def manifest_path (path : List String) : String :=
  String.ofList ((to_string_lossy path).toList.map (fun c => if c = '\\' then '/' else c))

/-! ## Paths from outside -/

/-- `std::path::Component`, as a Unix path has them. -/
inductive Component where
  | RootDir
  | CurDir
  | ParentDir
  | Normal (part : String)
deriving DecidableEq

/-- What a piece between two slashes stands for: an empty one and `.` for
nothing. -/
def component (piece : List Char) : Option Component :=
  if piece = [] ∨ piece = ['.'] then none
  else if piece = ['.', '.'] then some .ParentDir
  else some (.Normal (String.ofList piece))

/-- `Path::components`: a leading `.` is kept. -/
def components (path : String) : List Component :=
  let pieces := path.toList.splitOn '/'
  let start : List Component :=
    if path.toList.head? = some '/' then [.RootDir]
    else if pieces.head? = some ['.'] then [.CurDir]
    else []
  start ++ pieces.filterMap component

section Paths

variable [Crates]

/-- One path component from a manifest. -/
def sanitize_component (name : String) : Except SdkError String := do
  ensure (name ≠ "" ∧ name.utf8ByteSize ≤ 255 ∧ '/' ∉ name.toList ∧ '\\' ∉ name.toList)
    (.Manifest s!"unsafe name {Crates.debug name}")
  ensure (name ≠ "." ∧ name ≠ "..") (.Manifest s!"unsafe name {Crates.debug name}")
  return name

def sanitize_part (path : String) : Component → Except SdkError String
  | .Normal part => sanitize_component part
  | _ => .error (.Manifest s!"unsafe member path {Crates.debug path}")

/-- A relative path from a manifest, part by part. -/
def sanitize_relative (path : String) : Except SdkError (List String) := do
  ensure (path.utf8ByteSize ≤ 1024) (.Manifest "member path too long")
  let safe ← (components path).mapM (sanitize_part path)
  ensure (safe ≠ []) (.Manifest "empty member path")
  return safe

end Paths

/-! ## Publishing -/

/-- What the import of one member takes from outside. -/
structure MemberWorld where
  /-- Whether it is a file. -/
  metadata : Except String Bool
  absolute : Except String Unit
  added : Except String Unit
  tag_set : Except String Unit

/-- A directory to publish. -/
structure LocalDirectory where
  display : String
  file_name : Option String
  entries : List Entry

/-- A path to publish, as `metadata` answers for it. -/
inductive LocalPath where
  | file (file : LocalFile)
  | directory (dir : LocalDirectory)
  | neither (display : String)
  | missing (reason : String)

structure PublishWorld where
  /-- Whether every directory of the walk could be read. -/
  walked : Except String Unit
  member : List String → MemberWorld
  announced : ImportWorld

variable [Crypto]

structure Published where
  blob : Session.PublishedBlob
  members : Nat
  total_size : UInt64
  is_collection : Bool
deriving DecidableEq

namespace Session

variable [Crates]

/-- Put a file into the blob store without a word about it. -/
def import_path (self : Session) (display : String) (bytes : Bytes) (world : MemberWorld) :
    Except DropError (BlobHash × UInt64) × Session :=
  match world.metadata, world.absolute, world.added with
  | .error e, _, _ => (.error (.Storage (.InvalidPath s!"{display}: {e}")), self)
  | .ok false, _, _ => (.error (.Storage (.InvalidPath s!"{display} is not a file")), self)
  | .ok true, .error e, _ => (.error (.Storage (.InvalidPath s!"{display}: {e}")), self)
  | .ok true, .ok (), .error e => (.error (.Storage (.Import e)), self)
  | .ok true, .ok (), .ok () =>
    let hash := Crates.hash_of bytes
    let size := UInt64.ofNat bytes.length
    let self := self.hold hash size
    match world.tag_set with
    | .error e => (.error (.Storage (.Store e)), self)
    | .ok () => (.ok (hash, size), self)

/-- The members of a collection, imported one by one. -/
def import_members (self : Session) (display : String) (world : List String → MemberWorld) :
    List (List String × Bytes) → Except SdkError (List ManifestEntry) × Session
  | [] => (.ok [], self)
  | (rel, bytes) :: files =>
    match self.import_path s!"{display}/{to_string_lossy rel}" bytes (world rel) with
    | (.error e, self) => (.error (.Drop e), self)
    | (.ok (hash, size), self) =>
      match self.import_members display world files with
      | (.error e, self) => (.error e, self)
      | (.ok entries, self) =>
        (.ok ({ path := manifest_path rel, hash := hash.to_hex, size } :: entries), self)

/-- The hints that an offer of a collection carries. -/
def collection_metadata (manifest : Manifest) : BTreeMap String String :=
  ((∅ : BTreeMap String String).insert META_MEMBERS (toString manifest.entries.length)).insert
    META_TOTAL_BYTES (toString manifest.total_size)

/-- Announce the manifest of a tree. -/
def publish_manifest (self : Session) (manifest : Manifest) (world : ImportWorld) :
    Except SdkError Published × Session :=
  match Crates.to_vec_pretty manifest with
  | .error e => (.error (.Manifest e), self)
  | .ok json =>
    let world := { world with imported := world.imported.map (fun _ => Crates.hash_of json) }
    match self.publish_bytes_with manifest.name json (some COLLECTION_MEDIA_TYPE)
        (collection_metadata manifest) world with
    | (.error e, self) => (.error (.Drop e), self)
    | (.ok blob, self) =>
      (.ok { blob, members := manifest.entries.length, total_size := manifest.total_size
             is_collection := true }, self)

def publish_directory (self : Session) (dir : LocalDirectory) (name : String)
    (world : PublishWorld) : Except SdkError Published × Session :=
  match world.walked with
  | .error e => (.error (.Io e), self)
  | .ok () =>
    let files := (collect_files [] dir.entries).insertionSort path_le
    if files = [] then (.error (.Io s!"{dir.display} is empty"), self)
    else if files.length > MAX_MEMBERS then
      (.error (.Manifest s!"{files.length} files exceeds the {MAX_MEMBERS} member limit"), self)
    else
      match self.import_members dir.display world.member files with
      | (.error e, self) => (.error e, self)
      | (.ok entries, self) =>
        self.publish_manifest { iroh_drop_collection := 1, name, entries } world.announced

/-- `publish_path` of the SDK: a file or a directory. -/
def publish_path (self : Session) (path : LocalPath) (name : Option String)
    (world : PublishWorld) : Except SdkError Published × Session :=
  match path with
  | .missing reason => (.error (.Io reason), self)
  | .file file =>
    match self.publish_path_as file name world.announced with
    | (.error e, self) => (.error (.Drop e), self)
    | (.ok blob, self) =>
      (.ok { blob, members := 1, total_size := blob.size, is_collection := false }, self)
  | .neither display => (.error (.Io s!"{display} is neither a file nor a directory"), self)
  | .directory dir =>
    self.publish_directory dir (name.getD (dir.file_name.getD "collection")) world

end Session

/-! ## Fetching -/

/-- The files below a directory, by their path. Directories are there where a
file needs them. -/
abbrev Files := HashMap (List String) Bytes

/-- A file stands where a directory on the way to `path` would be. -/
def Files.blocks (self : Files) (path : List String) : Bool :=
  self.keys.any (fun file => decide (file <+: path))

/-- There is a directory at `path`, with a file below it. -/
def Files.is_directory (self : Files) (path : List String) : Bool :=
  self.keys.any (fun file => decide (path <+: file ∧ path ≠ file))

/-- What a fetch takes from outside: what the transfer of a blob brings, whole
and verified, what the receiver's own table says about it, and the words of
the file system. -/
structure FetchAnyWorld where
  dest_created : Except String Unit
  fetch : BlobHash → Except DropError Bytes
  media_type : BlobHash → Option String
  display_name : BlobHash → String
  os_error : List String → String

section Fetching

variable [Crates]

/-- The manifest that a blob is, if it is one. -/
def read_manifest (world : FetchAnyWorld) (hash : BlobHash) (bytes : Bytes) :
    Except SdkError (Option Manifest) :=
  let is_collection_type := decide (world.media_type hash = some COLLECTION_MEDIA_TYPE)
  if bytes.length > MAX_MANIFEST_BYTES then
    if is_collection_type then
      .error (.Manifest s!"manifest of {bytes.length} bytes exceeds the {MAX_MANIFEST_BYTES} byte limit")
    else .ok none
  else
    match Crates.from_slice bytes with
    | .ok manifest =>
      if manifest.iroh_drop_collection = 1 then
        if manifest.entries.length > MAX_MEMBERS then
          .error (.Manifest
            s!"manifest lists {manifest.entries.length} members, over the {MAX_MEMBERS} limit")
        else .ok (some manifest)
      else .error (.Manifest s!"unsupported collection version {manifest.iroh_drop_collection}")
    | .error e => if is_collection_type then .error (.Manifest e) else .ok none

/-- One member of a collection, written below `root`. -/
def fetch_member (world : FetchAnyWorld) (root : String) (files : Files) (entry : ManifestEntry) :
    Except SdkError Files := do
  let rel ← sanitize_relative entry.path
  let target := root :: rel
  ensure (files.blocks target.dropLast = false) (.Io (world.os_error target.dropLast))
  let member ← (BlobHash.from_hex entry.hash).mapError
    (fun e => SdkError.Manifest s!"bad member hash: {e}")
  let bytes ← (world.fetch member).mapError SdkError.Drop
  ensure (files.is_directory target = false)
    (.Drop (.Storage (.Export (world.os_error target))))
  ensure (UInt64.ofNat bytes.length = entry.size) (.Manifest
    s!"member {entry.path} is {bytes.length} bytes, manifest says {entry.size}")
  return files.insert target bytes

/-- `fetch_any` into a directory that is empty. -/
def fetch_any (world : FetchAnyWorld) (hash : BlobHash) : Except SdkError Files := do
  world.dest_created.mapError SdkError.Io
  let bytes ← (world.fetch hash).mapError SdkError.Drop
  match ← read_manifest world hash bytes with
  | some manifest =>
    let root ← sanitize_component manifest.name
    manifest.entries.foldlM (fetch_member world root) ∅
  | none => return (∅ : Files).insert [world.display_name hash] bytes

end Fetching

end iroh_drop
