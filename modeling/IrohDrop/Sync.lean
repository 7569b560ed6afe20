-- Catch-up sync: the control channel, the pages of retained frames that a
-- member serves, and the loop of a joiner that pulls them (sync.rs).
import IrohDrop.Run

open rust_std postcard

namespace iroh_drop

/-! ## Limits and operations -/

def MAX_REQUEST_BYTES : Nat := 4 * 1024
def MAX_RESPONSE_BYTES : Nat := 512 * 1024
def MAX_FRAMES_PER_PAGE : Nat := 256
def MAX_TOTAL_FRAMES : Nat := 8192
def MAX_PAGES_PER_ATTEMPT : Nat := 128
def MAX_TOTAL_BYTES_PER_ATTEMPT : Nat := 64 * 1024 * 1024

def OP_HELLO : UInt16 := 1
def OP_SYNC_PAGE : UInt16 := 2
def OP_UNSUPPORTED : UInt16 := 65535

/-! ## Envelopes -/

structure ControlRequestV1 where
  version : UInt16
  op : UInt16
  payload : Bytes
deriving DecidableEq

structure ControlResponseV1 where
  version : UInt16
  op : UInt16
  payload : Bytes
deriving DecidableEq

structure HelloV1 where
  wire_versions : List UInt16
  ops : List UInt16
  message_kinds : List UInt16
  max_frames_per_page : UInt16
deriving DecidableEq

structure SyncRequestV1 where
  version : UInt16
  topic_id : FixedBytes 32
  cursor : UInt64
  max_frames : UInt16
  key_proof : Option (FixedBytes 32)
deriving DecidableEq

structure SyncRequestV1Legacy where
  version : UInt16
  topic_id : FixedBytes 32
  cursor : UInt64
  max_frames : UInt16
deriving DecidableEq

structure SyncResponseV1 where
  version : UInt16
  next_cursor : Option UInt64
  frames : List Bytes
  oldest_cursor : UInt64
  truncated : Bool
deriving DecidableEq

def ControlRequestV1.codec : Codec ControlRequestV1 :=
  .imap (.pair .u16 (.pair .u16 .bytes)) (fun p => ⟨p.1, p.2.1, p.2.2⟩)
    (fun r => (r.version, r.op, r.payload)) (fun _ => rfl)

def ControlResponseV1.codec : Codec ControlResponseV1 :=
  .imap (.pair .u16 (.pair .u16 .bytes)) (fun p => ⟨p.1, p.2.1, p.2.2⟩)
    (fun r => (r.version, r.op, r.payload)) (fun _ => rfl)

def HelloV1.codec : Codec HelloV1 :=
  .imap (.pair (.list .u16) (.pair (.list .u16) (.pair (.list .u16) .u16)))
    (fun p => ⟨p.1, p.2.1, p.2.2.1, p.2.2.2⟩)
    (fun h => (h.wire_versions, h.ops, h.message_kinds, h.max_frames_per_page)) (fun _ => rfl)

def SyncRequestV1.codec : Codec SyncRequestV1 :=
  .imap (.pair .u16 (.pair (.fixed 32) (.pair .u64 (.pair .u16 (.option (.fixed 32))))))
    (fun p => ⟨p.1, p.2.1, p.2.2.1, p.2.2.2.1, p.2.2.2.2⟩)
    (fun r => (r.version, r.topic_id, r.cursor, r.max_frames, r.key_proof)) (fun _ => rfl)

def SyncRequestV1Legacy.codec : Codec SyncRequestV1Legacy :=
  .imap (.pair .u16 (.pair (.fixed 32) (.pair .u64 .u16)))
    (fun p => ⟨p.1, p.2.1, p.2.2.1, p.2.2.2⟩)
    (fun r => (r.version, r.topic_id, r.cursor, r.max_frames)) (fun _ => rfl)

def SyncResponseV1.codec : Codec SyncResponseV1 :=
  .imap (.pair .u16 (.pair (.option .u64) (.pair (.list .bytes) (.pair .u64 .bool))))
    (fun p => ⟨p.1, p.2.1, p.2.2.1, p.2.2.2.1, p.2.2.2.2⟩)
    (fun r => (r.version, r.next_cursor, r.frames, r.oldest_cursor, r.truncated)) (fun _ => rfl)

def SyncRequestV1Legacy.upgrade (self : SyncRequestV1Legacy) : SyncRequestV1 :=
  { version := self.version, topic_id := self.topic_id, cursor := self.cursor
    max_frames := self.max_frames, key_proof := none }

/-- Requests of builds that know no proofs are read too. -/
def decode_sync_request (bytes : Bytes) : Except postcard.Error SyncRequestV1 :=
  match SyncRequestV1.codec.read bytes with
  | .ok (request, _rest) => .ok request
  | .error _ => match SyncRequestV1Legacy.codec.read bytes with
    | .ok (legacy, _rest) => .ok legacy.upgrade
    | .error e => .error e

theorem decode_sync_request_write (request : SyncRequestV1) :
    decode_sync_request (SyncRequestV1.codec.write request) = .ok request := by
  have h := SyncRequestV1.codec.read_write_nil (a := request) (by simp [SyncRequestV1.codec])
  simp only [decode_sync_request, h]

/-! ## Pages without frames -/

/-- A page with no frames. -/
def empty_page : SyncResponseV1 :=
  { version := WIRE_VERSION, next_cursor := none, frames := [], oldest_cursor := 0
    truncated := false }

/-- The page of a topic without a session. -/
def unhosted_page (request : SyncRequestV1) : SyncResponseV1 :=
  let oldest_cursor : UInt64 := 0
  { version := WIRE_VERSION, next_cursor := none, frames := [], oldest_cursor
    truncated := decide (request.cursor ≠ 0 ∧ request.cursor < oldest_cursor) }

/-- No cursor is before the start of an empty log. -/
theorem unhosted_page_eq (request : SyncRequestV1) : unhosted_page request = empty_page := by
  have hnever : ¬(request.cursor ≠ 0 ∧ request.cursor < 0) := fun h => UInt64.not_lt_zero h.2
  simp only [unhosted_page, empty_page, decide_eq_false hnever]

section Protocol

variable [Crypto]

/-! ## Serving -/

/-- The live sessions of a process, by topic. -/
abbrev SessionRegistry := TopicId → Option Session

/-- The bytes of one response. -/
def reply (op : UInt16) (payload : Bytes) : Bytes :=
  ControlResponseV1.codec.write { version := WIRE_VERSION, op, payload }

/-- The number of leading frames that fit the byte budget. -/
def kept_frames : Nat → List Bytes → Nat
  | _, [] => 0
  | budget, frame :: frames =>
    if frame.length > budget then 0 else kept_frames (budget - frame.length) frames + 1

def clamp_max_frames (max_frames : UInt16) : Nat :=
  min (max max_frames.toNat 1) MAX_FRAMES_PER_PAGE

/-- A sealed drop serves proven key holders alone, and a blind relay serves
nobody. -/
def serves (inner : Session) (request : SyncRequestV1) (peer : EndpointId) : Bool :=
  match inner.mode, inner.drop_key, request.key_proof with
  | .Public, _, _ => true
  | .Sealed, some drop_key, some proof =>
    drop_key.verify_sync_proof ⟨request.topic_id⟩ peer inner.self_id
      (SyncRequestV1.codec.write { request with key_proof := none }) proof
  | .Sealed, _, _ => false

/-- One page of the log of a session. Dropping a tail moves the cursor back
by the number of frames dropped. -/
def session_page (state : DropState) (request : SyncRequestV1) : SyncResponseV1 :=
  let page := state.sync_frames request.cursor.toNat (clamp_max_frames request.max_frames)
  let kept := kept_frames MAX_RESPONSE_BYTES page.frames
  let dropped := page.frames.length - kept
  let oldest_cursor := UInt64.ofNat page.oldest_cursor
  { version := WIRE_VERSION
    next_cursor :=
      if page.caught_up && dropped = 0 then none
      else some (UInt64.ofNat (page.end_cursor - dropped))
    frames := page.frames.take kept
    oldest_cursor
    truncated := decide (request.cursor ≠ 0 ∧ request.cursor < oldest_cursor) }

def sync_page (sessions : SessionRegistry) (request : SyncRequestV1) (peer : EndpointId) :
    SyncResponseV1 :=
  match sessions ⟨request.topic_id⟩ with
  | none => unhosted_page request
  | some inner =>
    if serves inner request peer then session_page inner.state request else empty_page

/-- What this build answers to a hello. -/
def our_hello : HelloV1 :=
  { wire_versions := [WIRE_VERSION, SEALED_WIRE_VERSION]
    ops := [OP_HELLO, OP_SYNC_PAGE]
    message_kinds := [KIND_OFFER, KIND_PROVIDER, KIND_REQUEST, KIND_SEALED]
    max_frames_per_page := UInt16.ofNat MAX_FRAMES_PER_PAGE }

/-- The answer to one control request, if there is one. -/
def serve_op (sessions : SessionRegistry) (input : Bytes) (peer : EndpointId) : Option Bytes :=
  if input.length > MAX_REQUEST_BYTES then none
  else match ControlRequestV1.codec.read input with
    | .error _ => none
    | .ok (envelope, _rest) =>
      if envelope.version ≠ WIRE_VERSION then some (reply OP_UNSUPPORTED [])
      else if envelope.op = OP_HELLO then some (reply OP_HELLO (HelloV1.codec.write our_hello))
      else if envelope.op = OP_SYNC_PAGE then
        match decode_sync_request envelope.payload with
        | .error _ => none
        | .ok request =>
          some (reply OP_SYNC_PAGE (SyncResponseV1.codec.write (sync_page sessions request peer)))
      else some (reply OP_UNSUPPORTED [])

/-! ## Asking -/

/-- The bytes of one request. -/
def control_request (op : UInt16) (payload : Bytes) : Bytes :=
  ControlRequestV1.codec.write { version := WIRE_VERSION, op, payload }

/-- The other end of a connection: what comes back for a request, if
anything does, and nothing past the size that the reader takes. -/
abbrev Remote := Bytes → Option Bytes

/-- Why a request failed. -/
inductive OpError where
  | Io
  | Response (error : postcard.Error)
  | Version (version : UInt16)
  | Op (op : UInt16)
  | Payload (error : postcard.Error)

/-- `Ok(None)` is a peer that does not implement the operation. -/
def request_op {α : Type} (codec : Codec α) (remote : Remote) (op : UInt16) (payload : Bytes) :
    Except OpError (Option α) :=
  match remote (control_request op payload) with
  | none => .error .Io
  | some bytes =>
    if bytes.length > MAX_RESPONSE_BYTES then .error .Io
    else match ControlResponseV1.codec.read bytes with
      | .error e => .error (.Response e)
      | .ok (envelope, _rest) =>
        if envelope.version ≠ WIRE_VERSION then .error (.Version envelope.version)
        else if envelope.op = OP_UNSUPPORTED then .ok none
        else if envelope.op ≠ op then .error (.Op envelope.op)
        else match codec.read envelope.payload with
          | .error e => .error (.Payload e)
          | .ok (value, _rest) => .ok (some value)

/-! ## Pulling -/

/-- How a frame of a page comes to the session: what its other tasks do
before, and the world of the replay. -/
structure Arrival where
  meantime : List Step
  world : IntakeWorld

/-- A frame that was replayed, and the session it came to. -/
structure Replay where
  before : Session
  frame : Bytes
  peer : EndpointId
  world : IntakeWorld

def Replay.after (self : Replay) : Session := self.before.replay self.frame self.peer self.world

/-- Where an attempt to pull from one peer stands. `replays` is its past. -/
structure Pull where
  session : Session
  cursor : UInt64
  total : Nat
  total_bytes : Nat
  replays : List Replay

/-- One frame more. -/
def Pull.take (self : Pull) (frame : Bytes) (peer : EndpointId) (arrival : Arrival) : Pull :=
  let replay : Replay :=
    { before := self.session.run arrival.meantime, frame, peer, world := arrival.world }
  { self with session := replay.after, replays := self.replays ++ [replay] }

/-- Why an attempt ended. -/
inductive PullEnd where
  | refused
  | failed
  | other_version
  | page_budget
  | frame_budget
  | no_progress
  | caught_up
deriving DecidableEq

/-- Replay the frames of a page, each at its own time. `false`: a budget of
the attempt is spent. -/
def replay_page (peer : EndpointId) (arrivals : Nat → Arrival) :
    List Bytes → Pull → Bool × Pull
  | [], pull => (true, pull)
  | frame :: frames, pull =>
    let pull := { pull with
      total := pull.total + 1
      total_bytes := pull.total_bytes + frame.length }
    if pull.total > MAX_TOTAL_FRAMES then (false, pull)
    else if pull.total_bytes > MAX_TOTAL_BYTES_PER_ATTEMPT then (false, pull)
    else replay_page peer arrivals frames (pull.take frame peer (arrivals (pull.total - 1)))

/-- The request for the page at the cursor, with the proof of the drop key. -/
def page_request (session : Session) (peer : EndpointId) (page_size : UInt16)
    (cursor : UInt64) : SyncRequestV1 :=
  let request : SyncRequestV1 :=
    { version := WIRE_VERSION, topic_id := session.topic_id.as_bytes, cursor
      max_frames := page_size, key_proof := none }
  match session.drop_key with
  | none => request
  | some key =>
    { request with
      key_proof := some (key.sync_proof session.topic_id session.self_id peer
        (SyncRequestV1.codec.write request)) }

/-- The page loop. The number counts the pages that are left; a page past
the last one is asked for and thrown away. -/
def pull_pages (peer : EndpointId) (page_size : UInt16) (remotes : Nat → Remote)
    (arrivals : Nat → Arrival) : Nat → Pull → PullEnd × Pull
  | 0, pull => (.page_budget, pull)
  | left + 1, pull =>
    let request := page_request pull.session peer page_size pull.cursor
    match request_op SyncResponseV1.codec (remotes left) OP_SYNC_PAGE
        (SyncRequestV1.codec.write request) with
    | .error _ => (.failed, pull)
    | .ok none => (.refused, pull)
    | .ok (some response) =>
      if response.version ≠ WIRE_VERSION then (.other_version, pull)
      else match replay_page peer arrivals response.frames pull with
        | (false, pull) => (.frame_budget, pull)
        | (true, pull) =>
          match response.next_cursor with
          | none => (.caught_up, pull)
          | some next =>
            if next > pull.cursor then
              pull_pages peer page_size remotes arrivals left { pull with cursor := next }
            else (.no_progress, pull)

/-- A peer that a catch-up may turn to: whether it can be reached, and what
it answers, page by page. -/
structure SyncPeer where
  id : EndpointId
  connects : Bool
  hello : Remote
  remotes : Nat → Remote
  arrivals : Nat → Arrival

/-- The page size that a hello settles, or why the peer is of no use. -/
def negotiate (hello : Except OpError (Option HelloV1)) : Option UInt16 :=
  match hello with
  | .ok (some hello) =>
    if WIRE_VERSION ∉ hello.wire_versions then none
    else if OP_SYNC_PAGE ∉ hello.ops then none
    else some (min (UInt16.ofNat MAX_FRAMES_PER_PAGE) (max hello.max_frames_per_page 1))
  | _ => some (UInt16.ofNat MAX_FRAMES_PER_PAGE)

/-- Pull the log of one peer: how the attempt ended, if it came that far. -/
def sync_from (self : Session) (peer : SyncPeer) : Option PullEnd × Pull :=
  let pull : Pull := { session := self, cursor := 0, total := 0, total_bytes := 0, replays := [] }
  if !peer.connects then (none, pull)
  else match negotiate (request_op HelloV1.codec peer.hello OP_HELLO []) with
    | none => (none, pull)
    | some page_size =>
      let (ended, pull) :=
        pull_pages peer.id page_size peer.remotes peer.arrivals MAX_PAGES_PER_ATTEMPT pull
      (some ended, pull)

/-- Peers are asked in turn, until one of them had something. A blind relay
asks nobody. -/
def sync_catchup (self : Session) : List SyncPeer → Session
  | [] => self
  | peer :: peers =>
    if self.mode = .Sealed ∧ self.drop_key = none then self
    else
      let (ended, pull) := sync_from self peer
      if ended = some .frame_budget ∨ pull.total > 0 then pull.session
      else sync_catchup pull.session peers

end Protocol

end iroh_drop
