-- What a session does with what reaches it: frames off the wire, frames that
-- a catch-up pulled, and neighbors that come and go (session.rs).
import IrohDrop.Session

open rust_std postcard

namespace iroh_drop

def REQUEST_REPLY_INTERVAL : Duration := .from_secs 10
def ANTI_ENTROPY_COOLDOWN : Duration := .from_secs 60
def ANTI_ENTROPY_PEERS_CAP : Nat := 512

/-- What a frame takes from outside on its way in: the draw, and the wall
clock for a reply. -/
structure IntakeWorld where
  draw : Draw
  announced_at_ms : UInt64

variable [Crypto]

namespace Session

/-- Decode a frame in the wire family of the session. A blind relay checks
the outer signature and no more. -/
def decode_for_session (self : SessionConfig) (content : Bytes) :
    Except ProtocolError VerifiedMessage :=
  match self.mode, self.drop_key with
  | .Sealed, some key => MessageV1.decode_sealed content key self.topic_id
  | .Sealed, none => MessageV1.verify_sealed_outer content self.topic_id
  | .Public, _ => MessageV1.decode content self.topic_id

/-- A body that this build does not know is kept within a small budget. -/
def retainable : Option MessageBodyV1 → Retain
  | some body => body.retain
  | none => .Unknown

/-! ## Offers -/

/-- What the policy says of an offer. A peer never fetches from itself. -/
def policy_allows (self : Session) (author : EndpointId) (offer : OfferV1) : Bool :=
  self.policy.auto_fetch && decide (author ≠ self.self_id) &&
    (self.policy.check_auto_fetch offer self.active_fetches self.auto_fetch_bytes).isOk

def offer_decision (self : Session) (author : EndpointId) (offer : OfferV1)
    (delivered_from : EndpointId) : OfferDecision :=
  self.decider offer
    { author, delivered_from, is_new := decide (offer.blob_hash ∉ self.state.offers)
      policy_allows_auto_fetch := self.policy_allows author offer }

/-- Reserve the advertised size, and start a fetch of the blob. -/
def spawn_auto_fetch (self : Session) (offer : OfferV1) : Session :=
  { self with
    auto_fetch_bytes := self.auto_fetch_bytes + offer.size
    active_fetches := self.active_fetches + 1
    fetches := self.fetches ++ [{
      hash := offer.blob_hash, auto := some offer.size, stage := .start
      current_provider := none, last_error := none, total := none, stored := 0 }] }

/-- The blob is here, or on its way. -/
def already_local (self : Session) (hash : BlobHash) : Bool :=
  match (self.state.offers.lookup hash).map OfferRecord.local_status with
  | some .Complete => true
  | some (.Fetching _ _) => true
  | _ => false

/-- The evaluation of an automatic fetch, for an offer that is new. -/
def evaluate_auto_fetch (self : Session) (author : EndpointId) (offer : OfferV1)
    (decision : OfferDecision) : Session :=
  if self.policy.auto_fetch = false ∨ author = self.self_id then self
  else if self.already_local offer.blob_hash then self
  else
    match self.policy.check_auto_fetch offer self.active_fetches self.auto_fetch_bytes with
    | .error e => self.emit (.OfferRejected author (.Policy e.text))
    | .ok () =>
      -- `RecordOnly` means "remember it, do not pull it".
      if decision ≠ .Accept then self
      else if self.guarded then self.spawn_auto_fetch offer
      else self

/-- An offer goes into the table: new, known, or over the quota. -/
def record_received (self : Session) (author : EndpointId) (offer : OfferV1)
    (decision : OfferDecision) (now : Instant) : Session :=
  match self.state.record_offer_bounded author offer now with
  | (.QuotaExceeded, state) =>
    { self with state }.emit (.OfferRejected author .QuotaExceeded)
  | (.Known, state) => { self with state }
  | (.New evicted, state) =>
    let self := { self with state }
    let self :=
      if evicted = [] then self
      else self.emit (.ProtocolWarning none (.InventoryEvicted evicted.length))
    (self.emit (.OfferReceived author offer)).evaluate_auto_fetch author offer decision

def handle_offer (self : Session) (author : EndpointId) (offer : OfferV1)
    (delivered_from : EndpointId) (now : Instant) : Session :=
  match self.offer_decision author offer delivered_from with
  | .Reject reason => self.emit (.OfferRejected author (.Policy reason))
  | decision => self.record_received author offer decision now

/-! ## Providers and requests -/

def handle_provider (self : Session) (author : EndpointId) (provider : ProviderV1)
    (id : FixedBytes 16) : Session :=
  let hash := provider.blob_hash
  let announced_at := provider.announced_at_ms.getD 0
  let (applied, state) := match provider.state with
    | .Available => self.state.record_provider hash author announced_at id
    | .Withdrawing => self.state.withdraw_provider hash author announced_at id
  let self := { self with state }
  -- A stale relay changes nothing and is not worth an event.
  if applied then
    self.emit (match provider.state with
      | .Available => .ProviderAvailable hash author
      | .Withdrawing => .ProviderUnavailable hash author)
  else self

/-- The blob was announced on request a short while ago. -/
def replied_recently (self : Session) (hash : BlobHash) (now : Instant) : Bool :=
  match self.request_replies.lookup hash with
  | some last => decide (now - last < REQUEST_REPLY_INTERVAL)
  | none => false

/-- The store holds the whole blob. -/
def holds (self : Session) (hash : BlobHash) : Bool :=
  match self.store hash with
  | .Complete _ => true
  | _ => false

/-- The answer to a request: always a plain frame, whatever the mode. -/
def reply_available (self : Session) (hash : BlobHash) (world : IntakeWorld) : Session :=
  let body := MessageBodyV1.Provider ⟨hash, .Available, some world.announced_at_ms⟩
  let msg := MessageV1.new body world.draw.id world.draw.sent_at_ms
  match msg.encode self.secret self.topic_id with
  | .ok bytes => (self.transmit bytes world.draw).2
  | .error _ => self

def handle_request (self : Session) (hash : BlobHash) (asker : EndpointId)
    (world : IntakeWorld) : Session :=
  let (allowed, request_limiter) := self.request_limiter.allow_at asker world.draw.now
  let self := { self with request_limiter }
  if !allowed then self.emit (.ProtocolWarning (some asker) .RateLimited)
  else if !self.holds hash then self
  else if self.replied_recently hash world.draw.now then self
  else
    reply_available
      { self with request_replies := self.request_replies.insert hash world.draw.now } hash world

def handle_extension (self : Session) (author : EndpointId) (id : FixedBytes 16)
    (ext : ExtensionV1) : Session :=
  if ext.namespace ∈ self.extension_sinks then
    { self with delivered := self.delivered ++ [{
        author, id, «namespace» := ext.namespace, local_kind := ext.local_kind
        schema_version := ext.schema_version, payload := ext.payload }] }
  else self

/-! ## Frames -/

/-- Act on a message that is new. -/
def dispatch (self : Session) (verified : VerifiedMessage) (delivered_from : EndpointId)
    (world : IntakeWorld) : Session :=
  match verified.body with
  | none =>
    -- On a blind relay this is the normal case.
    if verified.message.body.kind ≠ KIND_SEALED then
      self.emit (.ProtocolWarning (some delivered_from) (.UnknownKind verified.message.body.kind))
    else self
  | some (.Offer offer) => self.handle_offer verified.author offer delivered_from world.draw.now
  | some (.Provider provider) => self.handle_provider verified.author provider verified.message.id
  | some (.Request request) => self.handle_request request.blob_hash delivered_from world
  | some (.Extension ext) => self.handle_extension verified.author verified.message.id ext

/-- Note the peer and the message: whether the message is new. -/
def note_message (self : Session) (verified : VerifiedMessage) (delivered_from : EndpointId)
    (now : Instant) : Bool × Session :=
  let (fresh, state) := (self.state.note_peer delivered_from).check_and_insert
    (verified.author, verified.message.id) now
  (fresh, { self with state })

/-- Keep the frame of a new message, as its kind deserves. -/
def retain (self : Session) (verified : VerifiedMessage) (raw : Bytes) : Session :=
  { self with state := self.state.retain (retainable verified.body) raw }

/-- One token of the delivering peer: whether it had one. -/
def take_token (self : Session) (delivered_from : EndpointId) (now : Instant) : Bool × Session :=
  let (allowed, message_limiter) := self.message_limiter.allow_at delivered_from now
  (allowed, { self with message_limiter })

/-- The path that live gossip and catch-up share. -/
def handle_message (self : Session) (verified : VerifiedMessage) (delivered_from : EndpointId)
    (raw : Bytes) (world : IntakeWorld) : Session :=
  match self.take_token delivered_from world.draw.now with
  | (false, self) => self.emit (.ProtocolWarning (some delivered_from) .RateLimited)
  | (true, self) =>
    match self.note_message verified delivered_from world.draw.now with
    | (false, self) => self
    | (true, self) => (self.retain verified raw).dispatch verified delivered_from world

/-- How a frame that does not decode is reported. -/
def reject_of : ProtocolError → RejectReason × ProtocolWarningKind
  | .UnsupportedVersion v => (.UnsupportedVersion v, .UnsupportedVersion v)
  | .InvalidSignature => (.InvalidSignature, .InvalidSignature)
  | .MessageTooLarge size =>
    (.Malformed (ProtocolError.MessageTooLarge size).text, .Oversized size)
  | .InvalidName m => (.InvalidName m, .Malformed (ProtocolError.InvalidName m).text)
  | other => (.Malformed other.text, .Malformed other.text)

/-- `TransportEvent::Received`. -/
def receive (self : Session) (content : Bytes) (delivered_from : EndpointId)
    (world : IntakeWorld) : Session :=
  match decode_for_session self.toSessionConfig content with
  | .ok verified => self.handle_message verified delivered_from content world
  | .error e =>
    (self.emit (.OfferRejected delivered_from (reject_of e).1)).emit
      (.ProtocolWarning (some delivered_from) (reject_of e).2)

/-- A frame that a catch-up pulled from `peer`: a bad one is skipped. -/
def replay (self : Session) (frame : Bytes) (peer : EndpointId) (world : IntakeWorld) : Session :=
  match decode_for_session self.toSessionConfig frame with
  | .ok verified => self.handle_message verified peer frame world
  | .error _ => self

/-! ## Neighbors -/

/-- A catch-up from this peer ran a short while ago. -/
def synced_recently (self : Session) (peer : EndpointId) (now : Instant) : Bool :=
  match self.synced_from.lookup peer with
  | some last => decide (now - last < ANTI_ENTROPY_COOLDOWN)
  | none => false

/-- Anti-entropy: pull from a neighbor that just appeared. -/
def maybe_sync_from_neighbor (self : Session) (peer : EndpointId) (now : Instant) : Session :=
  let self :=
    if HashMap.len self.synced_from ≥ ANTI_ENTROPY_PEERS_CAP then { self with synced_from := ∅ }
    else self
  if self.synced_recently peer now then self
  else
    { self with
      synced_from := self.synced_from.insert peer now
      pulls := self.pulls ++ [peer] }

/-- The neighbor goes straight into the set of known peers. -/
def neighbor_up (self : Session) (peer : EndpointId) (now : Instant) : Session :=
  let state := { self.state with known_peers := self.state.known_peers.insert peer () }
  let self := { self with state, neighbors := self.neighbors + 1 }
  (self.emit (.PeerJoined peer)).maybe_sync_from_neighbor peer now

def neighbor_down (self : Session) (peer : EndpointId) : Session :=
  { self with neighbors := self.neighbors - 1 }.emit (.PeerLeft peer)

def lagged (self : Session) : Session := self.emit (.ProtocolWarning none .Lagged)

/-! ## Extensions -/

/-- A retained frame is sent to the channel of its namespace again. -/
def replay_extension («namespace» : FixedBytes 16) (self : Session) (frame : Bytes) : Session :=
  match decode_for_session self.toSessionConfig frame with
  | .error _ => self
  | .ok verified =>
    match verified.body with
    | some (.Extension ext) =>
      if ext.namespace = «namespace» then
        { self with delivered := self.delivered ++ [{
            author := verified.author, id := verified.message.id
            «namespace» := ext.namespace, local_kind := ext.local_kind
            schema_version := ext.schema_version, payload := ext.payload }] }
      else self
    | _ => self

/-- Subscribe to a namespace: everything retained, then everything live. -/
def on_extension (self : Session) («namespace» : FixedBytes 16) : Session :=
  let self := { self with extension_sinks := self.extension_sinks.insert «namespace» () }
  self.state.sync_log.foldl (replay_extension «namespace») self

end Session

end iroh_drop
