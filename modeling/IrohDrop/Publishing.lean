-- The calls that publish something: what each of them comes to, and what it
-- records on the way.
import IrohDrop.Collections
import IrohDrop.OfferRuns

open rust_std

namespace iroh_drop

section Laws

variable [Crypto]

/-! ## Calls -/

/-- The arguments with which a publish comes to record its offer. -/
structure Import where
  hash : BlobHash
  name : String
  size : UInt64
  media_type : Option String
  metadata : BTreeMap String String
  world : ImportWorld

namespace Import

def offer (i : Import) : OfferV1 :=
  Session.import_offer i.hash i.name i.size i.media_type i.metadata i.world

def finish (s : Session) (i : Import) : Except DropError Session.PublishedBlob × Session :=
  s.finish_import_with i.hash i.name i.size i.media_type i.metadata i.world

end Import

/-- The import that `import_with` makes, if the blob store takes the blob. -/
def import_of (name : String) (size : UInt64) (media_type : Option String)
    (metadata : BTreeMap String String) (world : ImportWorld) : Option Import :=
  world.imported.toOption.map (fun hash => ⟨hash, name, size, media_type, metadata, world⟩)

def path_import (path : LocalFile) (name : Option String) (world : ImportWorld) : Option Import :=
  match name <|> path.file_name with
  | none => none
  | some name =>
    match validate_name name, path.metadata, path.absolute with
    | .ok (), .ok (false, len), .ok () => import_of name len world.guessed ∅ world
    | _, _, _ => none

def bytes_import (name : String) (bytes : Bytes) (media_type : Option String)
    (metadata : BTreeMap String String) (world : ImportWorld) : Option Import :=
  match validate_name name with
  | .error _ => none
  | .ok () =>
    import_of name (UInt64.ofNat bytes.length) (media_type <|> world.guessed) metadata world

/-- The sessions differ in nothing but what the blob store holds. -/
structure SameTalk (s s' : Session) : Prop where
  config : s'.toSessionConfig = s.toSessionConfig
  state : s'.state = s.state
  sent : s'.sent = s.sent

theorem SameTalk.refl (s : Session) : SameTalk s s := ⟨rfl, rfl, rfl⟩

theorem SameTalk.trans {a b c : Session} (hab : SameTalk a b) (hbc : SameTalk b c) :
    SameTalk a c :=
  ⟨hbc.config.trans hab.config, hbc.state.trans hab.state, hbc.sent.trans hab.sent⟩

/-- A call fails before it records anything, or it finishes an import. -/
inductive Comes (s : Session) :
    Option Import → Except SdkError Session.PublishedBlob × Session → Prop where
  | failed (e : SdkError) (s' : Session) (same : SameTalk s s') : Comes s none (.error e, s')
  | finished (i : Import) (s' : Session) (same : SameTalk s s') :
      Comes s (some i) ((i.finish s').map (Except.mapError SdkError.Drop) id)

theorem Comes.of_same {s s' : Session} {i : Option Import}
    {result : Except SdkError Session.PublishedBlob × Session} (hsame : SameTalk s s')
    (h : Comes s' i result) : Comes s i result := by
  cases h with
  | failed e s'' same => exact .failed e s'' (hsame.trans same)
  | finished i s'' same => exact .finished i s'' (hsame.trans same)

section Comings

variable (s : Session)

theorem import_with_comes (name : String) (size : UInt64) (media_type : Option String)
    (metadata : BTreeMap String String) (world : ImportWorld) :
    Comes s (import_of name size media_type metadata world)
      ((s.import_with name size media_type metadata world).map
        (Except.mapError SdkError.Drop) id) := by
  unfold import_of Session.import_with
  rcases world.imported with e | hash
  · exact .failed _ s (.refl s)
  · exact .finished ⟨hash, name, size, media_type, metadata, world⟩ _ ⟨rfl, rfl, rfl⟩

theorem publish_path_as_comes (path : LocalFile) (name : Option String) (world : ImportWorld) :
    Comes s (path_import path name world)
      ((s.publish_path_as path name world).map (Except.mapError SdkError.Drop) id) := by
  unfold path_import Session.publish_path_as
  rcases name <|> path.file_name with _ | name
  · exact .failed _ s (.refl s)
  · dsimp only
    rcases validate_name name with e | _
    · exact .failed _ s (.refl s)
    · rcases path.metadata with e | ⟨_ | _, len⟩
      · exact .failed _ s (.refl s)
      · rcases path.absolute with e | _
        · exact .failed _ s (.refl s)
        · exact import_with_comes s name len world.guessed ∅ world
      · exact .failed _ s (.refl s)

theorem publish_bytes_with_comes (name : String) (bytes : Bytes) (media_type : Option String)
    (metadata : BTreeMap String String) (world : ImportWorld) :
    Comes s (bytes_import name bytes media_type metadata world)
      ((s.publish_bytes_with name bytes media_type metadata world).map
        (Except.mapError SdkError.Drop) id) := by
  unfold bytes_import Session.publish_bytes_with
  rcases validate_name name with e | _
  · exact .failed _ s (.refl s)
  · exact import_with_comes s name _ _ metadata world

end Comings

section Calls

variable [Crates]

def manifest_import (manifest : Manifest) (world : ImportWorld) : Option Import :=
  match Crates.to_vec_pretty manifest with
  | .error _ => none
  | .ok json =>
    bytes_import manifest.name json (some COLLECTION_MEDIA_TYPE)
      (Session.collection_metadata manifest)
      { world with imported := world.imported.map (fun _ => Crates.hash_of json) }

def directory_import (s : Session) (dir : LocalDirectory) (name : String) (world : PublishWorld) :
    Option Import :=
  let files := (collect_files [] dir.entries).insertionSort path_le
  match world.walked, (s.import_members dir.display world.member files).1 with
  | .ok (), .ok entries =>
    if files = [] ∨ files.length > MAX_MEMBERS then none
    else manifest_import { iroh_drop_collection := 1, name, entries } world.announced
  | _, _ => none

/-- A call that publishes something. -/
inductive PublishCall where
  | publish_path_as (path : LocalFile) (name : Option String) (world : ImportWorld)
  | publish_bytes_with (name : String) (bytes : Bytes) (media_type : Option String)
      (metadata : BTreeMap String String) (world : ImportWorld)
  /-- The one of the SDK. -/
  | publish_path (path : LocalPath) (name : Option String) (world : PublishWorld)

namespace PublishCall

/-- What the call answers for its blob, and the session after. -/
def run (s : Session) : PublishCall → Except SdkError Session.PublishedBlob × Session
  | .publish_path_as path name world =>
    (s.publish_path_as path name world).map (Except.mapError SdkError.Drop) id
  | .publish_bytes_with name bytes media_type metadata world =>
    (s.publish_bytes_with name bytes media_type metadata world).map
      (Except.mapError SdkError.Drop) id
  | .publish_path path name world =>
    (s.publish_path path name world).map (Except.map Published.blob) id

/-- The import that the call comes to, if nothing fails before it. -/
def «import» (s : Session) : PublishCall → Option Import
  | .publish_path_as path name world => path_import path name world
  | .publish_bytes_with name bytes media_type metadata world =>
    bytes_import name bytes media_type metadata world
  | .publish_path path name world =>
    match path with
    | .file file => path_import file name world.announced
    | .directory dir => directory_import s dir (name.getD (dir.file_name.getD "collection")) world
    | _ => none

end PublishCall

section Comings

variable (s : Session)

theorem import_path_same (display : String) (bytes : Bytes) (world : MemberWorld) :
    SameTalk s (s.import_path display bytes world).2 := by
  unfold Session.import_path
  split
  · exact .refl s
  · exact .refl s
  · exact .refl s
  · exact .refl s
  · dsimp only
    split <;> exact ⟨rfl, rfl, rfl⟩

theorem import_members_same (display : String) (world : List String → MemberWorld)
    (files : List (List String × Bytes)) :
    SameTalk s (s.import_members display world files).2 := by
  induction files generalizing s with
  | nil => exact .refl s
  | cons f files ih =>
    have hfirst := import_path_same s s!"{display}/{to_string_lossy f.1}" f.2 (world f.1)
    unfold Session.import_members
    rcases himport : s.import_path s!"{display}/{to_string_lossy f.1}" f.2 (world f.1)
      with ⟨⟨e⟩ | ⟨hash, size⟩, s₁⟩ <;> rw [himport] at hfirst
    · exact hfirst
    · have hrest := hfirst.trans (ih s₁)
      dsimp only
      rcases hmembers : s₁.import_members display world files with ⟨⟨e⟩ | entries, s₂⟩ <;>
        rw [hmembers] at hrest <;> exact hrest

theorem publish_manifest_comes (manifest : Manifest) (world : ImportWorld) :
    Comes s (manifest_import manifest world)
      ((s.publish_manifest manifest world).map (Except.map Published.blob) id) := by
  unfold manifest_import Session.publish_manifest
  rcases Crates.to_vec_pretty manifest with e | json
  · exact .failed _ s (.refl s)
  · dsimp only
    have h := publish_bytes_with_comes s manifest.name json (some COLLECTION_MEDIA_TYPE)
      (Session.collection_metadata manifest)
      { world with imported := world.imported.map (fun _ => Crates.hash_of json) }
    rcases hpublish : s.publish_bytes_with manifest.name json (some COLLECTION_MEDIA_TYPE)
      (Session.collection_metadata manifest)
      { world with imported := world.imported.map (fun _ => Crates.hash_of json) }
      with ⟨⟨e⟩ | blob, s'⟩ <;> rw [hpublish] at h <;> exact h

theorem publish_directory_comes (dir : LocalDirectory) (name : String) (world : PublishWorld) :
    Comes s (directory_import s dir name world)
      ((s.publish_directory dir name world).map (Except.map Published.blob) id) := by
  unfold directory_import Session.publish_directory
  rcases world.walked with e | _
  · exact .failed _ s (.refl s)
  · dsimp only
    have hsame := import_members_same s dir.display world.member
      ((collect_files [] dir.entries).insertionSort path_le)
    rcases hmembers : s.import_members dir.display world.member
      ((collect_files [] dir.entries).insertionSort path_le) with ⟨⟨e⟩ | entries, s'⟩ <;>
      rw [hmembers] at hsame <;> dsimp only
    · split
      · exact .failed _ s (.refl s)
      · split
        · exact .failed _ s (.refl s)
        · exact .failed _ s' hsame
    · by_cases hfiles : (collect_files [] dir.entries).insertionSort path_le = [] ∨
        ((collect_files [] dir.entries).insertionSort path_le).length > MAX_MEMBERS
      · rw [if_pos hfiles]
        split
        · exact .failed _ s (.refl s)
        · rename_i hempty
          rw [if_pos (hfiles.resolve_left hempty)]
          exact .failed _ s (.refl s)
      · obtain ⟨hempty, hmany⟩ := not_or.mp hfiles
        rw [if_neg hfiles, if_neg hempty, if_neg hmany]
        exact (publish_manifest_comes s' _ world.announced).of_same hsame

/-- Whatever is published, the call comes to its import. -/
theorem PublishCall.comes (call : PublishCall) : Comes s (call.import s) (call.run s) := by
  cases call with
  | publish_path_as path name world => exact publish_path_as_comes s path name world
  | publish_bytes_with name bytes media_type metadata world =>
    exact publish_bytes_with_comes s name bytes media_type metadata world
  | publish_path path name world =>
    cases path with
    | file file =>
      have h := publish_path_as_comes s file name world.announced
      simp only [PublishCall.run, Session.publish_path]
      rcases hpublish : s.publish_path_as file name world.announced with ⟨⟨e⟩ | blob, s'⟩ <;>
        rw [hpublish] at h <;> exact h
    | directory dir => exact publish_directory_comes s dir _ world
    | neither display => exact .failed _ s (.refl s)
    | missing reason => exact .failed _ s (.refl s)

end Comings

end Calls

/-! ## What an import records -/

/-- The state once the offer of an import is recorded. -/
def Import.recorded (s : Session) (i : Import) : DropState :=
  (s.state.record_offer s.self_id i.offer i.world.now).2.set_local_status i.hash .Complete

/-- The tables of offers and providers are the same. -/
structure SameBooks (a b : DropState) : Prop where
  offers : b.offers = a.offers
  offer_order : b.offer_order = a.offer_order
  offers_per_author : b.offers_per_author = a.offers_per_author
  providers : b.providers = a.providers

theorem SameBooks.refl (s : DropState) : SameBooks s s := ⟨rfl, rfl, rfl, rfl⟩

theorem SameBooks.trans {a b c : DropState} (hab : SameBooks a b) (hbc : SameBooks b c) :
    SameBooks a c :=
  ⟨hbc.offers.trans hab.offers, hbc.offer_order.trans hab.offer_order,
    hbc.offers_per_author.trans hab.offers_per_author, hbc.providers.trans hab.providers⟩

theorem broadcast_books (s : Session) (body : MessageBodyV1) (draw : Draw) :
    SameBooks s.state (s.broadcast body draw).2.state := by
  unfold Session.broadcast Session.broadcast_signed
  split
  · exact .refl _
  · rename_i bytes _
    obtain ⟨hoffers, hproviders, horder, hcounts⟩ :=
      (s.state.check_and_insert (s.self_id, draw.id) draw.now).2.retain_tables body.retain bytes
    exact ⟨hoffers, horder, hcounts, hproviders⟩

/-- The session is among the peers that it knows before it offers anything. -/
theorem Import.recorded_eq (s : Session) (i : Import) :
    i.recorded s = ((s.state.note_peer s.self_id).record_offer_inner s.self_id i.offer
      i.world.now).2.set_local_status i.hash .Complete := rfl

end Laws

end iroh_drop
