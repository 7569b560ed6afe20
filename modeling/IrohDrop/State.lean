-- The local state of a session: the dedup cache, the offers and their
-- providers, the peers it has met, and the log of frames that it keeps for
-- catch-up sync (state.rs).
import IrohDrop.Message
import IrohDrop.Provider

open rust_std

namespace iroh_drop

variable [Crypto]

/-! ## Limits -/

/-- A message is known by its verified author and its id. -/
abbrev DedupKey := EndpointId × FixedBytes 16

def DEDUP_CAPACITY : Nat := 10000
def DEDUP_TTL : Duration := .from_secs (10 * 60)
def MAX_OFFERS : Nat := 4096
def MAX_OFFERS_PER_AUTHOR : Nat := 512
def MAX_ALIASES_PER_OFFER : Nat := 16
def MAX_KNOWN_PEERS : Nat := 1024
def MAX_UNKNOWN_FRAMES : Nat := 256
def SYNC_LOG_CAP : Nat := 4096
def SYNC_LOG_MAX_BYTES : Nat := 32 * 1024 * 1024
def UNKNOWN_FRAMES_MAX_BYTES : Nat := 4 * 1024 * 1024

/-! ## The dedup cache -/

structure DedupCache where
  capacity : Nat
  ttl : Duration
  entries : HashMap DedupKey Instant
  order : List DedupKey

def DedupCache.new (capacity : Nat) (ttl : Duration) : DedupCache := ⟨capacity, ttl, ∅, []⟩

/-- The front of the queue is past its time, or has no entry. -/
def DedupCache.expired (ttl : Duration) (entries : HashMap DedupKey Instant) (now : Instant)
    (key : DedupKey) : Bool :=
  match entries.lookup key with
  | some t => decide (now - t > ttl)
  | none => true

def DedupCache.evict_expired (self : DedupCache) (now : Instant) : DedupCache :=
  go self.entries self.order
where
  go (entries : HashMap DedupKey Instant) : List DedupKey → DedupCache
    | [] => { self with entries, order := [] }
    | front :: rest =>
      if expired self.ttl entries now front then go (entries.erase front) rest
      else { self with entries, order := front :: rest }

/-- Make room for one more entry, oldest first. -/
def DedupCache.make_room (self : DedupCache) : DedupCache :=
  go self.entries self.order
where
  go (entries : HashMap DedupKey Instant) : List DedupKey → DedupCache
    | [] => { self with entries, order := [] }
    | oldest :: rest =>
      if HashMap.len entries ≥ self.capacity then go (entries.erase oldest) rest
      else { self with entries, order := oldest :: rest }

/-- Whether the key is new, and the cache after: a new key is recorded. -/
def DedupCache.check_and_insert (self : DedupCache) (key : DedupKey) (now : Instant) :
    Bool × DedupCache :=
  let self := self.evict_expired now
  if key ∈ self.entries then (false, self)
  else
    let self := self.make_room
    (true, { self with entries := self.entries.insert key now, order := self.order ++ [key] })

/-! ## Offers -/

inductive OfferOutcome where
  | New (evicted : List BlobHash)
  | Known
  | QuotaExceeded
deriving DecidableEq

def OfferOutcome.is_new : OfferOutcome → Bool
  | .New _ => true
  | _ => false

def OfferOutcome.is_rejected : OfferOutcome → Bool
  | .QuotaExceeded => true
  | _ => false

inductive LocalBlobStatus where
  | Missing
  | Fetching (downloaded : UInt64) (total : Option UInt64)
  | Complete
  | Failed (retryable : Bool) (message : String)
deriving DecidableEq

structure OfferRecord where
  /-- The first valid offer of this hash. -/
  offer : OfferV1
  first_seen_from : EndpointId
  first_seen_at : Instant
  aliases : HashSet String
  local_status : LocalBlobStatus

/-- A name more for a hash that is known, while there is room for it. -/
def OfferRecord.add_alias (record : OfferRecord) (name : String) : OfferRecord :=
  if HashMap.len record.aliases < MAX_ALIASES_PER_OFFER then
    { record with aliases := record.aliases.insert name () }
  else record

/-! ## The state -/

/-- One page of retained frames. -/
structure SyncPage where
  frames : List Bytes
  end_cursor : Nat
  caught_up : Bool
  oldest_cursor : Nat
deriving DecidableEq

structure DropState where
  self_endpoint_id : EndpointId
  offers : HashMap BlobHash OfferRecord
  providers : HashMap BlobHash ProviderSet
  seen_messages : DedupCache
  known_peers : HashSet EndpointId
  /-- Offer hashes, least recently seen first. -/
  offer_order : List BlobHash
  offers_per_author : HashMap EndpointId Nat
  /-- Peers, first met first. -/
  peer_order : List EndpointId
  unknown_frames : Nat
  unknown_frames_bytes : Nat
  /-- The frames kept for catch-up sync, oldest first. -/
  sync_log : List Bytes
  sync_log_bytes : Nat
  /-- The absolute position of the front of `sync_log`. -/
  sync_log_start : Nat

def DropState.new (self_endpoint_id : EndpointId) : DropState :=
  { self_endpoint_id, offers := ∅, providers := ∅
    seen_messages := .new DEDUP_CAPACITY DEDUP_TTL
    known_peers := ∅, offer_order := [], offers_per_author := ∅, peer_order := []
    unknown_frames := 0, unknown_frames_bytes := 0
    sync_log := [], sync_log_bytes := 0, sync_log_start := 0 }

namespace DropState

/-! ## Peers and providers -/

/-- Forget the peers that came first, past the cap. -/
def forget_peers (self : DropState) (known : HashSet EndpointId) :
    List EndpointId → DropState
  | [] => { self with known_peers := known, peer_order := [] }
  | old :: rest =>
    if rest.length + 1 > MAX_KNOWN_PEERS then forget_peers self (known.erase old) rest
    else { self with known_peers := known, peer_order := old :: rest }

def note_peer (self : DropState) (peer : EndpointId) : DropState :=
  if peer ∈ self.known_peers then self
  else forget_peers self (self.known_peers.insert peer ()) (self.peer_order ++ [peer])

/-- Apply an assertion of `peer` about itself. -/
def assert_provider (self : DropState) (hash : BlobHash) (peer : EndpointId)
    (announced_at_ms : UInt64) (frame_id : FixedBytes 16) (withdrawn : Bool) :
    Bool × DropState :=
  let set := (self.providers.lookup hash).getD {}
  let (changed, set) := set.record peer announced_at_ms frame_id withdrawn
  (changed, { self with providers := self.providers.insert hash set })

def record_provider (self : DropState) (hash : BlobHash) (peer : EndpointId)
    (announced_at_ms : UInt64) (frame_id : FixedBytes 16) : Bool × DropState :=
  self.assert_provider hash peer announced_at_ms frame_id false

def withdraw_provider (self : DropState) (hash : BlobHash) (peer : EndpointId)
    (announced_at_ms : UInt64) (frame_id : FixedBytes 16) : Bool × DropState :=
  self.assert_provider hash peer announced_at_ms frame_id true

/-! ## The offer table -/

/-- Move an offer to the back of the eviction queue. -/
def touch_offer (self : DropState) (hash : BlobHash) : DropState :=
  { self with offer_order := self.offer_order.erase hash ++ [hash] }

def author_has_quota (self : DropState) (author : EndpointId) : Prop :=
  (self.offers_per_author.lookup author).getD 0 < MAX_OFFERS_PER_AUTHOR

instance (self : DropState) (author : EndpointId) : Decidable (self.author_has_quota author) := by
  unfold author_has_quota; infer_instance

/-- One offer fewer of an author. An author with none has no count. -/
def uncount_offer (counts : HashMap EndpointId Nat) (author : EndpointId) :
    HashMap EndpointId Nat :=
  match counts.lookup author with
  | none => counts
  | some count => if count - 1 = 0 then counts.erase author else counts.insert author (count - 1)

/-- Evict the least recently seen offers until the table fits: the state
after, and the hashes that were forgotten. -/
def evict_offers (self : DropState) : List BlobHash → DropState × List BlobHash
  | [] => ({ self with offer_order := [] }, [])
  | oldest :: rest =>
    if HashMap.len self.offers > MAX_OFFERS then
      match self.offers.lookup oldest with
      | some record =>
        let (self, evicted) := evict_offers
          { self with
            offers := self.offers.erase oldest
            offers_per_author := uncount_offer self.offers_per_author record.first_seen_from
            providers := self.providers.erase oldest } rest
        (self, oldest :: evicted)
      | none => evict_offers self rest
    else ({ self with offer_order := oldest :: rest }, [])

def enforce_offer_cap (self : DropState) : DropState × List BlobHash :=
  evict_offers self self.offer_order

def record_offer_inner (self : DropState) («from» : EndpointId) (offer : OfferV1)
    (now : Instant) : OfferOutcome × DropState :=
  let hash := offer.blob_hash
  if hash ∉ self.offers ∧ ¬ self.author_has_quota «from» then (.QuotaExceeded, self)
  else
    -- The first offerer is taken to serve the content.
    let self := { self with
      providers := HashMap.update self.providers hash {} (fun set => set.add «from» true) }
    let self := self.touch_offer hash
    match self.offers.lookup hash with
    | some record =>
      (.Known, { self with offers := self.offers.insert hash (record.add_alias offer.name) })
    | none =>
      let record : OfferRecord :=
        { offer, first_seen_from := «from», first_seen_at := now
          aliases := (∅ : HashSet String).insert offer.name ()
          local_status := .Missing }
      let self := { self with
        offers := self.offers.insert hash record
        offers_per_author := HashMap.update self.offers_per_author «from» 0 (· + 1) }
      let (self, evicted) := self.enforce_offer_cap
      (.New evicted, self)

def record_offer_bounded (self : DropState) («from» : EndpointId) (offer : OfferV1)
    (now : Instant) : OfferOutcome × DropState :=
  (self.note_peer «from»).record_offer_inner «from» offer now

def record_offer (self : DropState) («from» : EndpointId) (offer : OfferV1) (now : Instant) :
    Bool × DropState :=
  let (outcome, self) := self.record_offer_bounded «from» offer now
  (outcome.is_new, self)

/-- An offer of restored history: its author is no connected peer. -/
def record_restored (self : DropState) («from» : EndpointId) (offer : OfferV1)
    (now : Instant) : OfferOutcome × DropState :=
  self.record_offer_inner «from» offer now

/-- `if let Some(record) = state.offers.get_mut(hash) { record.local_status = .. }`. -/
def set_local_status (self : DropState) (hash : BlobHash) (status : LocalBlobStatus) :
    DropState :=
  { self with
    offers := HashMap.modify self.offers hash
      (fun record => { record with local_status := status }) }

/-! ## The log of retained frames -/

/-- Make room for a frame, oldest frame first. -/
def evict_frames (size : Nat) : List Bytes → Nat → Nat → List Bytes × Nat × Nat
  | [], bytes, start => ([], bytes, start)
  | front :: rest, bytes, start =>
    if rest.length + 1 ≥ SYNC_LOG_CAP ∨ bytes + size > SYNC_LOG_MAX_BYTES then
      evict_frames size rest (bytes - front.length) (start + 1)
    else (front :: rest, bytes, start)

def retain_frame (self : DropState) (frame : Bytes) : DropState :=
  let (log, bytes, start) :=
    evict_frames frame.length self.sync_log self.sync_log_bytes self.sync_log_start
  { self with sync_log := log ++ [frame], sync_log_bytes := bytes + frame.length
              sync_log_start := start }

/-- Frames of kinds that this build does not know have a budget of their own. -/
def retain_unknown_frame (self : DropState) (frame : Bytes) : DropState :=
  if self.unknown_frames ≥ MAX_UNKNOWN_FRAMES ∨
      self.unknown_frames_bytes + frame.length > UNKNOWN_FRAMES_MAX_BYTES then self
  else
    retain_frame { self with
      unknown_frames := self.unknown_frames + 1
      unknown_frames_bytes := self.unknown_frames_bytes + frame.length } frame

def sync_frames (self : DropState) (cursor : Nat) (max : Nat) : SyncPage :=
  let start := cursor - self.sync_log_start
  if start ≥ self.sync_log.length then
    { frames := [], end_cursor := self.sync_log_start + self.sync_log.length
      caught_up := true, oldest_cursor := self.sync_log_start }
  else
    let stop := min (start + max) self.sync_log.length
    { frames := (self.sync_log.drop start).take (stop - start)
      end_cursor := self.sync_log_start + stop
      caught_up := decide (stop = self.sync_log.length)
      oldest_cursor := self.sync_log_start }

end DropState

end iroh_drop
