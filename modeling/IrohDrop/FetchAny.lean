-- A fetch onto the file system: where a blob lands, and where the members of
-- a collection do (collections.rs, session.rs, message.rs).
import IrohDrop.FileSystem

open rust_std

namespace iroh_drop

/-! ## Names of exports -/

/-- `str::rsplit_once`. -/
def rsplit_once (sep : Char) (text : List Char) : Option (List Char × List Char) :=
  match text.reverse.span (fun c => decide (c ≠ sep)) with
  | (_, []) => none
  | (back, _ :: front) => some (front.reverse, back.reverse)

/-- The stem of a name, and its extension with the dot. -/
def split_name (name : String) : String × String :=
  match rsplit_once '.' name.toList with
  | none => (name, "")
  | some (stem, ext) =>
    if stem = [] then (name, "") else (String.ofList stem, String.ofList ('.' :: ext))

def candidate (stem short ext : String) : Nat → String
  | 0 => s!"{stem}{ext}"
  | 1 => s!"{stem}-{short}{ext}"
  | n => s!"{stem}-{short}-{n}{ext}"

/-- The first of these names that is free. -/
def free_path (fs : Fs) (dir : String) : List String → Except ProtocolError String
  | [] => .error (.InvalidName "could not find a free output name")
  | name :: names =>
    let path := join dir name
    if parent (components path) ≠ some (components dir) then
      .error (.InvalidName "escapes output directory")
    else if fs.exists (components path) then free_path fs dir names
    else .ok path

def collision_safe_path (fs : Fs) (dir name : String) (hash : BlobHash) :
    Except ProtocolError String := do
  validate_name name
  let (stem, ext) := split_name name
  free_path fs dir ((List.range 1000).map (candidate stem hash.fmt_short ext))

/-! ## Exports -/

/-- Where a completed fetch should put its bytes. -/
inductive FetchOutput where
  | Directory (dir : String)
  | Exact (path : String)
  | Store

/-- One export: the tree before it, the path, and what was to be written. -/
structure Export where
  before : Fs
  path : List Component
  bytes : Bytes

/-- The tree that a fetch writes to, with the directories that it asked for
and the exports that it made. -/
structure Disk where
  fs : Fs
  created : List (List Component)
  exports : List Export

/-- `std::path::absolute`. -/
def Fs.absolute (self : Fs) (path : List Component) : List Component :=
  if path.head? = some .RootDir then path
  else .RootDir :: self.cwd.map .Normal ++ path.filter (fun c => decide (c ≠ .CurDir))

namespace Disk

def create_dir_all (self : Disk) (path : List Component) : Except IoError Unit × Disk :=
  let (result, fs) := self.fs.create_dir_all path
  (result, { self with fs, created := self.created ++ [path] })

/-- The directory that a path goes into, where it has one. -/
def create_parent (self : Disk) (path : List Component) : Except IoError Unit × Disk :=
  match parent path with
  | some dir => self.create_dir_all dir
  | none => (.ok (), self)

/-- The export of the blob store. Whether it writes, and over a file that is
there, is its own affair. -/
def export_blob (self : Disk) (path : List Component) (bytes : Bytes)
    (exported : Option Node → Except String Unit) : Except String Unit × Disk :=
  let exports := self.exports ++ [⟨self.fs, path, bytes⟩]
  match self.fs.locate path, self.fs.write path bytes with
  | .ok place, .ok fs =>
    match exported (self.fs.node place) with
    | .ok () => (.ok (), { self with fs, exports })
    | .error e => (.error e, { self with exports })
  | .ok _, .error e => (.error e.text, { self with exports })
  | .error e, _ => (.error e.text, { self with exports })

/-- The second half of `DropSession::export`, with the path that was chosen. -/
def export_to (self : Disk) (path : List Component) (bytes : Bytes)
    (exported : Option Node → Except String Unit) : Except DropError (List Component) × Disk :=
  match self.create_parent path with
  | (.error e, self) => (.error (.Storage (.Export e.text)), self)
  | (.ok (), self) =>
    match self.export_blob path bytes exported with
    | (.error e, self) => (.error (.Storage (.Export e)), self)
    | (.ok (), self) => (.ok (self.fs.absolute path), self)

/-- The name that a blob is exported under, when an offer gave it one. -/
def export_name (offered : Option String) (hash : BlobHash) : String :=
  (offered.filter (fun name => (validate_name name).isOk)).getD hash.to_hex

/-- `DropSession::export`, for a blob that is here. -/
def «export» (self : Disk) (hash : BlobHash) (bytes : Bytes) (offered : Option String)
    (exported : Option Node → Except String Unit) :
    FetchOutput → Except DropError (Option (List Component)) × Disk
  | .Store => (.ok none, self)
  | .Exact path =>
    match self.export_to (components path) bytes exported with
    | (.error e, self) => (.error e, self)
    | (.ok path, self) => (.ok (some path), self)
  | .Directory dir =>
    match self.create_dir_all (components dir) with
    | (.error e, self) => (.error (.Storage (.Export e.text)), self)
    | (.ok (), self) =>
      match collision_safe_path self.fs dir (export_name offered hash) hash with
      | .error e => (.error (.Storage (.Export e.text)), self)
      | .ok path =>
        match self.export_to (components path) bytes exported with
        | (.error e, self) => (.error e, self)
        | (.ok path, self) => (.ok (some path), self)

end Disk

/-! ## Fetching -/

/-- What a fetch onto the file system takes from outside, besides the tree. -/
structure FetchDirWorld extends FetchAnyWorld where
  /-- The display name in the receiver's table. -/
  offered_name : Option String
  /-- The blob fetched again, to be exported as a file. -/
  refetched : Except DropError Unit
  /-- The transfer of the member at a place of the manifest. -/
  member : Nat → BlobHash → Except DropError Bytes
  /-- What the blob store makes of the export of that member, or of the file. -/
  exported : Nat → Option Node → Except String Unit

namespace Disk

variable [Crates]

/-- One member, fetched to its place below `root`. -/
def fetch_member (self : Disk) (world : FetchDirWorld) (root : String) (i : Nat)
    (entry : ManifestEntry) : Except SdkError (List Component) × Disk :=
  match sanitize_relative entry.path with
  | .error e => (.error e, self)
  | .ok rel =>
    let target := join root (to_path rel)
    match self.create_parent (components target) with
    | (.error e, self) => (.error (.Io e.text), self)
    | (.ok (), self) =>
      match BlobHash.from_hex entry.hash with
      | .error e => (.error (.Manifest s!"bad member hash: {e}"), self)
      | .ok member =>
        match world.member i member with
        | .error e => (.error (.Drop e), self)
        | .ok bytes =>
          match self.export member bytes none (world.exported i) (.Exact target) with
          | (.error e, self) => (.error (.Drop e), self)
          | (.ok path, self) =>
            if UInt64.ofNat bytes.length ≠ entry.size then
              (.error (.Manifest
                s!"member {entry.path} is {bytes.length} bytes, manifest says {entry.size}"), self)
            else (.ok (path.getD (components target)), self)

/-- The members from the one at `i` on. -/
def fetch_members (self : Disk) (world : FetchDirWorld) (root : String) (i : Nat) :
    List ManifestEntry → Except SdkError (List (List Component)) × Disk
  | [] => (.ok [], self)
  | entry :: entries =>
    match self.fetch_member world root i entry with
    | (.error e, self) => (.error e, self)
    | (.ok path, self) =>
      match self.fetch_members world root (i + 1) entries with
      | (.error e, self) => (.error e, self)
      | (.ok paths, self) => (.ok (path :: paths), self)

def fetch_collection (self : Disk) (world : FetchDirWorld) (dest : String) (manifest : Manifest) :
    Except SdkError (List (List Component)) × Disk :=
  match sanitize_component manifest.name with
  | .error e => (.error e, self)
  | .ok name =>
    let root := join dest name
    match self.create_dir_all (components root) with
    | (.error e, self) => (.error (.Io e.text), self)
    | (.ok (), self) => self.fetch_members world root 0 manifest.entries

/-- The blob as a file in `dest`. -/
def fetch_file (self : Disk) (world : FetchDirWorld) (dest : String) (hash : BlobHash)
    (bytes : Bytes) : Except SdkError (List (List Component)) × Disk :=
  match world.refetched with
  | .error e => (.error (.Drop e), self)
  | .ok () =>
    match self.export hash bytes world.offered_name (world.exported 0) (.Directory dest) with
    | (.error e, self) => (.error (.Drop e), self)
    | (.ok path, self) => (.ok path.toList, self)

/-- `fetch_any_reporting` of the SDK. -/
def fetch_any_reporting (self : Disk) (world : FetchDirWorld) (dest : String) (hash : BlobHash) :
    Except SdkError (List (List Component)) × Disk :=
  match self.create_dir_all (components dest) with
  | (.error e, self) => (.error (.Io e.text), self)
  | (.ok (), self) =>
    match world.fetch hash with
    | .error e => (.error (.Drop e), self)
    | .ok bytes =>
      match read_manifest world.toFetchAnyWorld hash bytes with
      | .error e => (.error e, self)
      | .ok (some manifest) => self.fetch_collection world dest manifest
      | .ok none => self.fetch_file world dest hash bytes

end Disk

end iroh_drop
