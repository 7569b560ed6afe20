-- The drop session: one topic, its local state, and what it says to the
-- group when it publishes, withdraws and restarts (session.rs, error.rs).
import IrohDrop.Policy
import IrohDrop.Seal
import IrohDrop.State
import IrohDrop.Ticket

open rust_std postcard

namespace iroh_drop

/-! ## Errors -/

inductive NetworkError where
  | Gossip (reason : String)
  | NoProviders (hash : String)
  | Transfer (reason : String)
deriving DecidableEq

inductive IntegrityError where
  | HashMismatch (expected actual : String)
deriving DecidableEq

inductive StorageError where
  | Import (reason : String)
  | Export (reason : String)
  | Store (reason : String)
  | InvalidPath (reason : String)
deriving DecidableEq

inductive DropError where
  | Protocol (error : ProtocolError)
  | Policy (error : PolicyError)
  | Network (error : NetworkError)
  | Integrity (error : IntegrityError)
  | Storage (error : StorageError)
deriving DecidableEq

def ProtocolError.text : ProtocolError → String
  | .UnsupportedVersion version => s!"unsupported wire version {version}"
  | .MessageTooLarge size => s!"message exceeds maximum size ({size} bytes)"
  | .Malformed reason => s!"malformed message: {reason}"
  | .QuotaExceeded => "author is over its offer quota"
  | .Gossip reason => s!"gossip error: {reason}"
  | .RateLimited => "peer is sending too fast"
  | .InvalidSignature => "invalid message signature"
  | .Unseal => "sealed frame does not decrypt (wrong drop key or corrupted)"
  | .NoDropKey => "cannot publish: this ticket carries no drop key (blind relay)"
  | .InvalidAuthor => "invalid author public key"
  | .InvalidName reason => s!"invalid name: {reason}"
  | .MetadataLimit reason => s!"metadata limit exceeded: {reason}"

def DropError.text : DropError → String
  | .Protocol e => s!"protocol error: {e.text}"
  | .Policy e => s!"policy rejected operation: {e.text}"
  | .Network (.Gossip reason) => s!"network error: gossip error: {reason}"
  | .Network (.NoProviders hash) => s!"network error: no providers known for blob {hash}"
  | .Network (.Transfer reason) => s!"network error: transfer failed: {reason}"
  | .Integrity (.HashMismatch expected actual) =>
    s!"content integrity error: hash mismatch: expected {expected}, got {actual}"
  | .Storage (.Import reason) => s!"storage error: import failed: {reason}"
  | .Storage (.Export reason) => s!"storage error: export failed: {reason}"
  | .Storage (.Store reason) => s!"storage error: store error: {reason}"
  | .Storage (.InvalidPath reason) => s!"storage error: invalid path: {reason}"

inductive RejectReason where
  | Malformed (reason : String)
  | QuotaExceeded
  | UnsupportedVersion (version : UInt16)
  | InvalidSignature
  | InvalidName (reason : String)
  | Policy (reason : String)
deriving DecidableEq

inductive ProtocolWarningKind where
  | UnsupportedVersion (version : UInt16)
  | Malformed (reason : String)
  | InvalidSignature
  | Oversized (size : Nat)
  | Lagged
  | UnknownKind (kind : UInt16)
  | RateLimited
  | InventoryEvicted (count : Nat)
  | ProviderFailed (provider hash reason : String)
deriving DecidableEq

/-! ## Display forms -/

def hex_digit (n : Nat) : Char := "0123456789abcdef".toList.getD n '0'

/-- `HEXLOWER.encode`. -/
def hex_lower (b : Bytes) : String :=
  String.ofList (b.flatMap (fun x => [hex_digit (x.toNat / 16), hex_digit (x.toNat % 16)]))

def BlobHash.to_hex (self : BlobHash) : String := hex_lower self.as_bytes.bytes
def BlobHash.fmt_short (self : BlobHash) : String := hex_lower (self.as_bytes.bytes.take 4)

/-! ## What the world gives -/

/-- What a broadcast takes from outside: the monotonic clock, the wall
clock, the random id and nonce, and what the carrier answers. -/
structure Draw where
  now : Instant
  sent_at_ms : UInt64
  id : FixedBytes 16
  nonce : FixedBytes 24
  carried : Except DropError Unit

/-- The blob store's answer about one blob. -/
inductive BlobStatus where
  | NotFound
  | Partial (size : Option UInt64)
  | Complete (size : UInt64)
deriving DecidableEq

/-- A local file, as the file system and the import of it answer. -/
structure LocalFile where
  display : String
  file_name : Option String
  /-- Whether it is a directory, and its length. -/
  metadata : Except String (Bool × UInt64)
  absolute : Except String Unit

/-- What an import takes from outside. -/
structure ImportWorld where
  imported : Except String BlobHash
  /-- The media type that `mime_guess` reads off the name. -/
  guessed : Option String
  tag_set : Except String Unit
  now : Instant
  created_at_ms : UInt64
  announced_at_ms : UInt64
  offer_draw : Draw
  provider_draw : Draw

/-- What `mark_complete` takes from outside. -/
structure CompleteWorld where
  now : Instant
  tag_set : Except String Unit
  announced_at_ms : UInt64
  draw : Draw

variable [Crypto]

/-! ## Events -/

inductive DropEvent where
  | PeerJoined (peer : EndpointId)
  | PeerLeft (peer : EndpointId)
  | OfferReceived («from» : EndpointId) (offer : OfferV1)
  | OfferRejected («from» : EndpointId) (reason : RejectReason)
  | FetchStarted (hash : BlobHash) (provider : EndpointId)
  | FetchProgress (hash : BlobHash) (downloaded : UInt64) (total : Option UInt64)
  | FetchCompleted (hash : BlobHash) (provider : EndpointId)
  | FetchFailed (hash : BlobHash) (error : DropError)
  | ProviderAvailable (hash : BlobHash) (peer : EndpointId)
  | ProviderUnavailable (hash : BlobHash) (peer : EndpointId)
  | ProtocolWarning («from» : Option EndpointId) (warning : ProtocolWarningKind)
deriving DecidableEq

structure ExtensionFrame where
  author : EndpointId
  id : FixedBytes 16
  «namespace» : FixedBytes 16
  local_kind : UInt32
  schema_version : UInt16
  payload : Bytes
deriving DecidableEq

def EndpointId.fmt_short (self : EndpointId) : String := hex_lower (self.as_bytes.bytes.take 5)

/-! ## The session -/

/-- Where a fetch is between two waits. -/
inductive FetchStage where
  | start
  | round (attempt : Nat)
  | asking (attempt : Nat)
  | downloading (attempt : Nat) (outcome : Except DropError Unit)
  | reasking (attempt : Nat)
  | verify
  | done (result : Except DropError Unit)

/-- A running fetch. `auto` is the size that an automatic fetch reserved,
`stored` the bytes that its transfers have put into the blob store. -/
structure FetchTask where
  hash : BlobHash
  auto : Option UInt64
  stage : FetchStage
  current_provider : Option EndpointId
  last_error : Option DropError
  total : Option UInt64
  stored : Nat

/-- What a session is made with and never changes. -/
structure SessionConfig where
  secret : SecretKey
  policy : DropPolicy
  decider : OfferDecider
  topic_id : TopicId
  mode : DropMode
  drop_key : Option DropKey

structure Session extends SessionConfig where
  ticket : DropTicket
  state : DropState
  active_fetches : Nat
  auto_fetch_bytes : UInt64
  neighbors : Nat
  synced_from : HashMap EndpointId Instant
  request_replies : HashMap BlobHash Instant
  message_limiter : PeerRateLimiter
  request_limiter : PeerRateLimiter
  extension_sinks : HashSet (FixedBytes 16)
  /-- A handle of the user is still there. -/
  guarded : Bool
  /-- What the blob store holds. -/
  store : BlobHash → BlobStatus
  fetches : List FetchTask
  /-- Every frame handed to `transport.broadcast`, oldest first. -/
  sent : List Bytes
  events : List DropEvent
  /-- Every frame sent to the channel of its namespace, oldest first. -/
  delivered : List ExtensionFrame
  /-- The peers that a catch-up was started from, oldest first. -/
  pulls : List EndpointId

namespace Session

/-- `DropSession::new`: the mode is what the ticket declares. -/
def new (secret : SecretKey) (policy : DropPolicy) (decider : OfferDecider) (topic_id : TopicId)
    (ticket : DropTicket) (drop_key : Option DropKey) (store : BlobHash → BlobStatus) : Session :=
  { secret, policy, decider, topic_id, mode := ticket.mode, drop_key, ticket
    state := .new secret.public
    active_fetches := 0, auto_fetch_bytes := 0, neighbors := 0
    synced_from := ∅, request_replies := ∅
    message_limiter := .new MESSAGES, request_limiter := .new REQUESTS
    extension_sinks := ∅, guarded := true, store, fetches := []
    sent := [], events := [], delivered := [], pulls := [] }

def self_id (self : Session) : EndpointId := self.secret.public

def emit (self : Session) (event : DropEvent) : Session :=
  { self with events := self.events ++ [event] }

def set_status (self : Session) (hash : BlobHash) (status : LocalBlobStatus) : Session :=
  { self with state := self.state.set_local_status hash status }

/-- The bytes of a blob are in the store whole. -/
def hold (self : Session) (hash : BlobHash) (size : UInt64) : Session :=
  { self with store := fun h => if h = hash then .Complete size else self.store h }

/-! ## Broadcasts -/

end Session

/-- Whether a frame belongs in the retained history. -/
inductive Retain where
  | Yes
  | No
  | Unknown
deriving DecidableEq

/-- Offers and provider assertions are history, extensions ride on the
budget of unknown frames, requests are not kept. -/
def MessageBodyV1.retain : MessageBodyV1 → Retain
  | .Offer _ | .Provider _ => .Yes
  | .Request _ => .No
  | .Extension _ => .Unknown

def DropState.retain (self : DropState) (retain : Retain) (frame : Bytes) : DropState :=
  match retain with
  | .Yes => self.retain_frame frame
  | .Unknown => self.retain_unknown_frame frame
  | .No => self

/-- Note a message in the dedup cache: whether it was new, and the state after. -/
def DropState.check_and_insert (self : DropState) (key : DedupKey) (now : Instant) :
    Bool × DropState :=
  let (fresh, seen_messages) := self.seen_messages.check_and_insert key now
  (fresh, { self with seen_messages })

namespace Session

/-- The frame of a message in the family that the mode of the session fixes.
A blind relay has nothing that it may say. -/
def encode_for_session (self : SessionConfig) (msg : MessageV1) (nonce : FixedBytes 24) :
    Except ProtocolError Bytes :=
  match self.mode, self.drop_key with
  | .Sealed, some key => msg.encode_sealed self.secret key self.topic_id nonce
  | .Sealed, none => .error .NoDropKey
  | .Public, _ => msg.encode self.secret self.topic_id

/-- Hand a frame to the carrier. -/
def transmit (self : Session) (bytes : Bytes) (draw : Draw) : Except DropError Unit × Session :=
  (draw.carried, { self with sent := self.sent ++ [bytes] })

def broadcast_signed (self : Session) (msg : MessageV1) (retain : Retain) (draw : Draw) :
    Except DropError Unit × Session :=
  match encode_for_session self.toSessionConfig msg draw.nonce with
  | .error e => (.error (.Protocol e), self)
  | .ok bytes =>
    -- Our own echo is already applied; whether the id was new is not asked.
    let (_, state) := self.state.check_and_insert (self.self_id, msg.id) draw.now
    transmit { self with state := state.retain retain bytes } bytes draw

def broadcast (self : Session) (body : MessageBodyV1) (draw : Draw) :
    Except DropError Unit × Session :=
  self.broadcast_signed (.new body draw.id draw.sent_at_ms) body.retain draw

def announce (self : Session) (hash : BlobHash) (state : ProviderState)
    (announced_at_ms : UInt64) (draw : Draw) : Except DropError Unit × Session :=
  self.broadcast (.Provider ⟨hash, state, some announced_at_ms⟩) draw

/-! ## Publishing -/

/-- What a publish answers. -/
structure PublishedBlob where
  hash : BlobHash
  name : String
  size : UInt64
  media_type : Option String
deriving DecidableEq

/-- The offer of an import. -/
def import_offer (hash : BlobHash) (name : String) (size : UInt64) (media_type : Option String)
    (metadata : BTreeMap String String) (world : ImportWorld) : OfferV1 :=
  { blob_hash := hash, name, size, media_type, created_at_ms := some world.created_at_ms,
    metadata }

def finish_import_with (self : Session) (hash : BlobHash) (name : String) (size : UInt64)
    (media_type : Option String) (metadata : BTreeMap String String) (world : ImportWorld) :
    Except DropError PublishedBlob × Session :=
  match world.tag_set with
  | .error e => (.error (.Storage (.Store e)), self)
  | .ok () =>
    let offer := import_offer hash name size media_type metadata world
    let (_, state) := self.state.record_offer self.self_id offer world.now
    let self := { self with state := state.set_local_status hash .Complete }
    match self.broadcast (.Offer offer) world.offer_draw with
    | (.error e, self) => (.error e, self)
    | (.ok (), self) =>
      match self.announce hash .Available world.announced_at_ms world.provider_draw with
      | (.error e, self) => (.error e, self)
      | (.ok (), self) => (.ok { hash, name, size, media_type }, self)

/-- An import that did, or did not, go into the blob store. -/
def import_with (self : Session) (name : String) (size : UInt64) (media_type : Option String)
    (metadata : BTreeMap String String) (world : ImportWorld) :
    Except DropError PublishedBlob × Session :=
  match world.imported with
  | .error e => (.error (.Storage (.Import e)), self)
  | .ok hash => (self.hold hash size).finish_import_with hash name size media_type metadata world

def publish_path_as (self : Session) (path : LocalFile) (name : Option String)
    (world : ImportWorld) : Except DropError PublishedBlob × Session :=
  match name <|> path.file_name with
  | none => (.error (.Storage (.InvalidPath s!"no file name: {path.display}")), self)
  | some name =>
    match validate_name name with
    | .error e => (.error (.Storage (.InvalidPath e.text)), self)
    | .ok () =>
      match path.metadata, path.absolute with
      | .error e, _ => (.error (.Storage (.InvalidPath s!"{path.display}: {e}")), self)
      | .ok (true, _), _ =>
        (.error (.Storage (.InvalidPath
          s!"{path.display} is a directory; directories are not supported by the MVP")), self)
      | .ok (false, _), .error e =>
        (.error (.Storage (.InvalidPath s!"{path.display}: {e}")), self)
      | .ok (false, len), .ok () => self.import_with name len world.guessed ∅ world

def publish_bytes_with (self : Session) (name : String) (bytes : Bytes)
    (media_type : Option String) (metadata : BTreeMap String String) (world : ImportWorld) :
    Except DropError PublishedBlob × Session :=
  match validate_name name with
  | .error e => (.error (.Storage (.InvalidPath e.text)), self)
  | .ok () =>
    self.import_with name (UInt64.ofNat bytes.length) (media_type <|> world.guessed) metadata world

def send_extension (self : Session) («namespace» : FixedBytes 16) (local_kind : UInt32)
    (schema_version : UInt16) (payload : Bytes) (draw : Draw) :
    Except DropError Unit × Session :=
  if payload.length > MAX_BODY_SIZE then
    (.error (.Protocol (.MessageTooLarge payload.length)), self)
  else self.broadcast (.Extension { «namespace», local_kind, schema_version, payload }) draw

/-! ## Serving -/

/-- Remember us as a provider, and the blob as complete. A blob with no
offer gets a record of its own, under its hash. -/
def note_complete (self : Session) (hash : BlobHash) (size : UInt64) (now : Instant) : DropState :=
  let state := { self.state with
    providers := HashMap.update self.state.providers hash {}
      (fun set => set.add self.state.self_endpoint_id false) }
  if hash ∈ state.offers then state.set_local_status hash .Complete
  else
    let offer : OfferV1 :=
      { blob_hash := hash, name := hash.to_hex, size, media_type := none, created_at_ms := none,
        metadata := ∅ }
    (state.record_offer self.state.self_endpoint_id offer now).2.set_local_status hash .Complete

/-- The size that `mark_complete` confirms: the one it was told, or the one
of the store. -/
def confirmed_size (self : Session) (hash : BlobHash) : Option UInt64 → Except DropError UInt64
  | some size => .ok size
  | none => match self.store hash with
    | .Complete size => .ok size
    | _ => .error (.Integrity (.HashMismatch "complete local blob" "incomplete"))

def mark_complete (self : Session) (hash : BlobHash) (known_size : Option UInt64)
    (world : CompleteWorld) : Except DropError UInt64 × Session :=
  match self.confirmed_size hash known_size with
  | .error e => (.error e, self)
  | .ok size =>
    let self := { self with state := self.note_complete hash size world.now }
    match world.tag_set with
    | .error e => (.error (.Storage (.Store e)), self)
    | .ok () =>
      match self.announce hash .Available world.announced_at_ms world.draw with
      | (.error e, self) => (.error e, self)
      | (.ok (), self) => (.ok size, self)

def reannounce (self : Session) (hash : BlobHash) (world : CompleteWorld)
    (announced_at_ms : UInt64) (draw : Draw) : Except DropError Unit × Session :=
  match self.mark_complete hash none world with
  | (.error e, self) => (.error e, self)
  | (.ok _, self) => self.announce hash .Available announced_at_ms draw

/-- The blobs that the offer table lists as complete. -/
def complete_hashes (self : Session) : List BlobHash :=
  (self.state.offers.entries.filter (fun e => e.2.local_status = .Complete)).map (fun e => e.1)

/-- Announce that one blob is served no more, whatever becomes of it. -/
def withdraw (announced_at_ms : BlobHash → UInt64) (draws : BlobHash → Draw) (self : Session)
    (hash : BlobHash) : Session :=
  (self.announce hash .Withdrawing (announced_at_ms hash) (draws hash)).2

def announce_withdrawal (self : Session) (announced_at_ms : BlobHash → UInt64)
    (draws : BlobHash → Draw) : Session :=
  self.complete_hashes.foldl (withdraw announced_at_ms draws) self

/-! ## History -/

/-- The pages of 256 frames from `cursor` on. `fuel` bounds the pages: each
but the last one has a frame at least. -/
def history_pages (state : DropState) : Nat → Nat → List Bytes
  | 0, _ => []
  | fuel + 1, cursor =>
    let page := state.sync_frames cursor 256
    if page.frames = [] then []
    else if page.caught_up then page.frames
    else page.frames ++ history_pages state fuel page.end_cursor

def export_history (self : Session) : List Bytes :=
  history_pages self.state (self.state.sync_log.length + 1) 0

/-- Apply a frame of persisted history, and say whether it applied. -/
def restore_frame (self : Session) (frame : Bytes) (now : Instant) : Bool × Session :=
  match MessageV1.decode frame self.topic_id with
  | .error _ => (false, self)
  | .ok verified =>
    let author := verified.author
    let message := verified.message
    match self.state.check_and_insert (author, message.id) now with
    | (false, state) => (false, { self with state })
    | (true, state) =>
      match message.body.decode with
      | .ok (some (.Offer offer)) =>
        let state := state.retain_frame frame
        (true, { self with state := (state.record_restored author offer now).2 })
      | .ok (some (.Provider provider)) =>
        let state := state.retain_frame frame
        let announced_at := provider.announced_at_ms.getD 0
        let (_, state) := match provider.state with
          | .Available => state.record_provider provider.blob_hash author announced_at message.id
          | .Withdrawing =>
            state.withdraw_provider provider.blob_hash author announced_at message.id
        (true, { self with state })
      -- Requests and unknown kinds are not restored.
      | .ok _ => (false, { self with state })
      | .error _ => (false, { self with state })

/-- Replay persisted frames, each at its own time: how many applied. -/
def restore_history (self : Session) : List (Bytes × Instant) → Nat × Session
  | [] => (0, self)
  | (frame, now) :: frames =>
    let (applied, self) := self.restore_frame frame now
    let (count, self) := self.restore_history frames
    (applied.toNat + count, self)

/-! ## Tickets -/

section Tickets

variable [Urls]

/-- Peers that are known, by id only, while there is room. -/
def push_peers (self_endpoint_id : EndpointId) : List EndpointId → List EndpointAddr →
    List EndpointAddr
  | [], nodes => nodes
  | peer :: peers, nodes =>
    if nodes.length ≥ MAX_BOOTSTRAP_NODES then nodes
    else if peer ≠ self_endpoint_id ∧ peer ∉ nodes.map EndpointAddr.id then
      push_peers self_endpoint_id peers (nodes ++ [.of_id peer])
    else push_peers self_endpoint_id peers nodes

/-- The nodes of a ticket that this peer hands out: itself first, with the
address that the endpoint has now. -/
def ticket_nodes (self : Session) (self_addr : EndpointAddr) : List EndpointAddr :=
  let nodes := self.ticket.bootstrap_nodes.filter (fun a => a.id ≠ self_addr.id)
  (push_peers self.state.self_endpoint_id self.state.known_peers.keys
    (self_addr :: nodes)).take MAX_BOOTSTRAP_NODES

/-- `DropSession::ticket`. -/
def current_ticket (self : Session) (self_addr : EndpointAddr) : DropTicket :=
  self.ticket.set_bootstrap_nodes (self.ticket_nodes self_addr)

def short_ticket (self : Session) (self_addr : EndpointAddr) : DropTicket :=
  let ticket := self.current_ticket self_addr
  ticket.set_bootstrap_nodes (ticket.bootstrap_nodes.map (fun addr => .of_id addr.id))

end Tickets

end Session

/-! ## Drops -/

/-- What `DropProtocol::create` is asked for. -/
structure CreateOptions where
  «private» : Bool
  auto_fetch_recommended : Bool
  display_name : Option String

/-- The ticket of a new drop. `key` is what the random generator gave. -/
def create_ticket [Urls] (options : CreateOptions) (topic_id : TopicId) (self_addr : EndpointAddr)
    (key : DropKey) : DropTicket :=
  let ticket_options : DropTicketOptionsV1 :=
    { auto_fetch_recommended := options.auto_fetch_recommended
      display_name := options.display_name }
  if options.private then .new_private topic_id.as_bytes [self_addr] ticket_options key
  else .new topic_id.as_bytes [self_addr] ticket_options

end iroh_drop
