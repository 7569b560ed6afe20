-- What the control API says: the replies of its methods, the events of the daemon
-- and the question of a consent, as JSON (service.rs).
import IrohDrop.DropTotals
import IrohDrop.EventBus
import IrohDrop.Links
import IrohDrop.Tasks

open rust_std postcard

namespace iroh_drop

/-! ## Errors -/

namespace ApiError

def forbidden (msg : String) : ApiError := ⟨"forbidden", msg⟩
def unsupported (msg : String) : ApiError := ⟨"unsupported", msg⟩

end ApiError

/-! ## Texts -/

def TopicId.to_string (self : TopicId) : String := hex_lower self.as_bytes.bytes

def RejectReason.text : RejectReason → String
  | .Malformed reason => s!"malformed message: {reason}"
  | .QuotaExceeded => "author is over its offer quota"
  | .UnsupportedVersion version => s!"unsupported wire version {version}"
  | .InvalidSignature => "invalid signature"
  | .InvalidName reason => s!"invalid name: {reason}"
  | .Policy reason => s!"policy: {reason}"

def ProtocolWarningKind.text : ProtocolWarningKind → String
  | .UnsupportedVersion version => s!"ignoring message with unsupported wire version {version}"
  | .Malformed reason => s!"ignoring malformed message: {reason}"
  | .InvalidSignature => "ignoring message with invalid signature"
  | .Oversized size => s!"ignoring oversized message ({size} bytes)"
  | .Lagged => "gossip receiver lagged, messages were dropped"
  | .UnknownKind kind => s!"ignoring message kind {kind}, which this build does not implement"
  | .RateLimited => "rate limiting a peer that is sending too fast"
  | .InventoryEvicted count => s!"forgot {count} offer(s) to stay within the inventory limit"
  | .ProviderFailed provider hash reason => s!"provider {provider} failed for blob {hash}: {reason}"

/-- A failed fetch is not "we have it". -/
def status_str : LocalBlobStatus → String
  | .Missing => "missing"
  | .Fetching _ _ => "fetching"
  | .Failed _ _ => "failed"
  | .Complete => "available"

/-! ## Values -/

namespace Value

/-- A `usize`. -/
def number (n : Nat) : Value := .pos_int (UInt64.ofNat n)

/-- What is not there is `null`. -/
def optional {α : Type} (to_value : α → Value) (x : Option α) : Value :=
  (x.map to_value).getD .null

end Value

def Envelope.to_value (self : Envelope) : Value :=
  .object [("seq", .pos_int self.seq), ("e", .string self.e), ("p", self.p)]

def TaskEntry.to_value (self : TaskEntry) (id : String) : Value :=
  .object [("task", .string id), ("kind", .string self.kind.text), ("drop", .string self.drop),
    ("hash", .optional (fun hash => .string hash.to_hex) self.hash),
    ("state", .string self.state.text)]

/-- The options of the daemon that its API tells. -/
structure ApiOptions where
  offline : Bool
  mdns : Bool
  store_path : Option String
  download_dir : String
  link_base : Option String

section Replies

variable [Crypto]

def EndpointId.to_string (self : EndpointId) : String := hex_lower self.as_bytes.bytes

def DropRow.to_value (self : DropRow) : Value :=
  .object [("drop", .string self.drop), ("name", .optional .string self.name),
    ("mine", .bool self.mine), ("topic", .string self.topic.to_string),
    ("peers", .number self.peers), ("offers", .number self.offers),
    ("files", .pos_int self.files), ("bytes", .pos_int self.bytes),
    ("human_size", .string self.human_size)]

namespace InventoryItem

def kind (self : InventoryItem) : String :=
  match self.is_collection, self.members with
  | true, some 1 => "folder, 1 file"
  | true, some n => s!"folder, {n} files"
  | true, none => "folder"
  | false, _ => "file"

/-- `human_bytes` is how a size is written. -/
def to_value (human_bytes : UInt64 → String) (self : InventoryItem) : Value :=
  .object [("n", .number self.index), ("name", .string self.name),
    ("hash", .string self.hash.to_hex), ("size", .pos_int self.content_size),
    ("human_size", .string (human_bytes self.content_size)), ("kind", .string self.kind),
    ("is_collection", .bool self.is_collection), ("members", .optional .number self.members),
    ("status", .string (status_str self.status))]

end InventoryItem

/-! ## Replies -/

/-- Every method this build supports. -/
def methods : List String :=
  ["hello", "daemon.status", "drop.create", "drop.join", "drop.list", "drop.ticket", "drop.leave",
    "offer.list", "offer.publish", "offer.fetch", "task.list", "task.cancel", "events.replay"]

def DAEMON_VERSION : String := "0.2.0"

def hello_reply (endpoint_id : EndpointId) (current : UInt64) : Value :=
  .object [("api", .pos_int API_VERSION.toUInt64), ("daemon", .string DAEMON_VERSION),
    ("wire", .pos_int WIRE_VERSION.toUInt64), ("endpoint_id", .string endpoint_id.to_string),
    ("methods", .array (methods.map .string)), ("events_from", .pos_int current)]

def status_reply (options : ApiOptions) (endpoint_id : EndpointId) (drops : Nat)
    (current : UInt64) : Value :=
  .object [("endpoint_id", .string endpoint_id.to_string), ("offline", .bool options.offline),
    ("mdns", .bool options.mdns), ("persistent_store", .bool options.store_path.isSome),
    ("download_dir", .string options.download_dir), ("drops", .number drops),
    ("seq", .pos_int current)]

def drops_reply (rows : List DropRow) : Value :=
  .object [("drops", .array (rows.map DropRow.to_value))]

def items_reply (human_bytes : UInt64 → String) (items : List InventoryItem) : Value :=
  .object [("items", .array (items.map (InventoryItem.to_value human_bytes)))]

def tasks_reply (tasks : List (String × TaskEntry)) : Value :=
  .object [("tasks", .array (tasks.map fun task => task.2.to_value task.1))]

def replay_reply (replayed : List Envelope × Bool) : Value :=
  .object [("events", .array (replayed.1.map Envelope.to_value)),
    ("truncated", .bool replayed.2)]

def ticket_reply (options : ApiOptions) (ticket : List Char) : Value :=
  .object [("link", .string (String.ofList (app_link ticket))),
    ("web_link", .optional (fun base : String =>
      .string (String.ofList (web_link base.toList ticket))) options.link_base),
    ("ticket", .string (String.ofList ticket))]

def created_reply (handle : String) (topic : TopicId) (ticket : List Char) : Value :=
  .object [("drop", .string handle), ("topic", .string topic.to_string),
    ("ticket", .string (String.ofList ticket))]

def joined_reply (handle : String) (topic : TopicId) : Value :=
  .object [("drop", .string handle), ("topic", .string topic.to_string)]

def already_reply (handle : String) (topic : TopicId) : Value :=
  .object [("drop", .string handle), ("topic", .string topic.to_string), ("already", .bool true)]

def task_started_reply (task : String) : Value := .object [("task", .string task)]

def empty_reply : Value := .object []

/-! ## Events -/

/-- An event that is to go out: its name, and what it says. -/
abbrev Tell := String × Value

def tell_joined (handle : String) (topic : TopicId) : Tell :=
  ("drop.joined", .object [("drop", .string handle), ("topic", .string topic.to_string)])

def tell_restored (handle : String) (topic : TopicId) : Tell :=
  ("drop.joined", .object [("drop", .string handle), ("topic", .string topic.to_string),
    ("restored", .bool true)])

def tell_left (handle : String) : Tell := ("drop.left", .object [("drop", .string handle)])

def tell_declined (handle : String) (hash : BlobHash) (reason : String) : Tell :=
  ("offer.declined", .object [("drop", .string handle), ("hash", .string hash.to_hex),
    ("reason", .string reason)])

def tell_published (human_bytes : UInt64 → String) (task : String) (published : Published) :
    Tell :=
  ("publish.completed", .object [("task", .string task),
    ("hash", .string published.blob.hash.to_hex), ("name", .string published.blob.name),
    ("size", .pos_int published.total_size),
    ("human_size", .string (human_bytes published.total_size)),
    ("members", .number published.members), ("is_collection", .bool published.is_collection)])

def tell_materialized (task : String) (hash : BlobHash) (paths : List String) : Tell :=
  ("fetch.materialized", .object [("task", .string task), ("hash", .string hash.to_hex),
    ("paths", .array (paths.map .string))])

def tell_stopping : Tell := ("daemon.stopping", .object [])

/-- What `on_session_event` makes of an event of a session. -/
def DropEvent.tell (human_bytes : UInt64 → String) (handle : String) : DropEvent → Tell
  | .PeerJoined peer =>
    ("peer.joined", .object [("drop", .string handle), ("peer", .string peer.to_string)])
  | .PeerLeft peer =>
    ("peer.left", .object [("drop", .string handle), ("peer", .string peer.to_string)])
  | .OfferReceived «from» offer =>
    ("offer.received", .object [("drop", .string handle), ("from", .string from.to_string),
      ("hash", .string offer.blob_hash.to_hex), ("name", .string offer.name),
      ("size", .pos_int offer.size), ("human_size", .string (human_bytes offer.size)),
      ("media_type", .optional .string offer.media_type)])
  | .OfferRejected «from» reason =>
    ("offer.rejected", .object [("drop", .string handle), ("from", .string from.to_string),
      ("reason", .string reason.text)])
  | .FetchStarted hash provider =>
    ("fetch.started", .object [("drop", .string handle), ("hash", .string hash.to_hex),
      ("provider", .string provider.to_string)])
  | .FetchProgress hash downloaded total =>
    ("fetch.progress", .object [("drop", .string handle), ("hash", .string hash.to_hex),
      ("downloaded", .pos_int downloaded), ("total", .optional .pos_int total)])
  | .FetchCompleted hash provider =>
    ("fetch.completed", .object [("drop", .string handle), ("hash", .string hash.to_hex),
      ("provider", .string provider.to_string)])
  | .FetchFailed hash error =>
    ("fetch.failed", .object [("drop", .string handle), ("hash", .string hash.to_hex),
      ("error", .string error.text)])
  | .ProviderAvailable hash peer =>
    ("provider.available", .object [("drop", .string handle), ("hash", .string hash.to_hex),
      ("peer", .string peer.to_string)])
  | .ProviderUnavailable hash peer =>
    ("provider.unavailable", .object [("drop", .string handle), ("hash", .string hash.to_hex),
      ("peer", .string peer.to_string)])
  | .ProtocolWarning «from» warning =>
    ("protocol.warning", .object [("drop", .string handle),
      ("from", .optional (fun peer => .string peer.to_string) «from»),
      ("warning", .string warning.text)])

/-- Progress is told only now and then, but always the last of it. -/
def DropEvent.is_told (due : Bool) : DropEvent → Bool
  | .FetchProgress _ downloaded total => total.any (fun t => decide (t ≤ downloaded)) || due
  | _ => true

/-! ## The question of a consent -/

def CONSENT_TIMEOUT_MS : UInt64 := 300000

def consent_question (human_bytes : UInt64 → String) (consent : Consent) : Value :=
  .object [("drop", .string consent.drop), ("from", .string consent.from.to_string),
    ("name", .string consent.offer.name), ("size", .pos_int consent.offer.size),
    ("human_size", .string (human_bytes consent.offer.size)),
    ("media_type", .optional .string consent.offer.media_type),
    ("members", .optional .string (consent.offer.metadata.get META_MEMBERS)),
    ("known", .bool false), ("hash", .string consent.offer.blob_hash.to_hex),
    ("expires_in_ms", .pos_int CONSENT_TIMEOUT_MS)]

end Replies

end iroh_drop
