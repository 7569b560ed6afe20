-- A session over time: the calls of its user, the events of its carrier, the
-- frames of its catch-ups and the waits of its fetches, in any order.
import IrohDrop.Fetch
import IrohDrop.Runs

open rust_std

namespace iroh_drop

variable [Crypto]

/-- One thing that happens to a session. -/
inductive Step where
  | received (content : Bytes) (delivered_from : EndpointId) (world : IntakeWorld)
  | replayed (frame : Bytes) (peer : EndpointId) (world : IntakeWorld)
  | neighbor_up (peer : EndpointId) (now : Instant)
  | neighbor_down (peer : EndpointId)
  | lagged
  | publish_path_as (path : LocalFile) (name : Option String) (world : ImportWorld)
  | publish_bytes_with (name : String) (bytes : Bytes) (media_type : Option String)
      (metadata : BTreeMap String String) (world : ImportWorld)
  | send_extension («namespace» : FixedBytes 16) (local_kind : UInt32) (schema_version : UInt16)
      (payload : Bytes) (draw : Draw)
  | on_extension («namespace» : FixedBytes 16)
  | reannounce (hash : BlobHash) (world : CompleteWorld) (announced_at_ms : UInt64) (draw : Draw)
  | announce_withdrawal (announced_at_ms : BlobHash → UInt64) (draws : BlobHash → Draw)
  | restore_history (frames : List (Bytes × Instant))
  | fetch (hash : BlobHash)
  | fetch_event (i : Nat) (event : FetchEvent)
  /-- The blob store changes under other hands. -/
  | store_changed (hash : BlobHash) (status : BlobStatus)
  /-- The last handle of the user goes. -/
  | released

namespace Session

/-- Frames of a catch-up come only where one was started: a blind relay
starts none. -/
def step (self : Session) : Step → Session
  | .received content delivered_from world => self.receive content delivered_from world
  | .replayed frame peer world =>
    if self.mode = .Sealed ∧ self.drop_key = none then self else self.replay frame peer world
  | .neighbor_up peer now => self.neighbor_up peer now
  | .neighbor_down peer => self.neighbor_down peer
  | .lagged => self.lagged
  | .publish_path_as path name world => (self.publish_path_as path name world).2
  | .publish_bytes_with name bytes media_type metadata world =>
    (self.publish_bytes_with name bytes media_type metadata world).2
  | .send_extension «namespace» local_kind schema_version payload draw =>
    (self.send_extension «namespace» local_kind schema_version payload draw).2
  | .on_extension «namespace» => self.on_extension «namespace»
  | .reannounce hash world announced_at_ms draw =>
    (self.reannounce hash world announced_at_ms draw).2
  | .announce_withdrawal announced_at_ms draws => self.announce_withdrawal announced_at_ms draws
  | .restore_history frames => (self.restore_history frames).2
  | .fetch hash => self.start_fetch hash
  | .fetch_event i event => self.fetch_event i event
  | .store_changed hash status =>
    { self with store := fun h => if h = hash then status else self.store h }
  | .released => { self with guarded := false }

def run (self : Session) (steps : List Step) : Session := runs.run step self steps

end Session

end iroh_drop
