-- The laws of a catch-up: an attempt that pages to the end of a log replays
-- the whole of it, and what is lost on the way is lost to flow control.
import IrohDrop.History
import IrohDrop.Speech
import IrohDrop.SyncPages

open rust_std postcard

namespace iroh_drop

/-! ## Pages that read back -/

theorem SyncResponseV1.codec_sized : SyncResponseV1.codec.Sized := by
  have hpos : ∀ frame : Bytes, 0 < (Codec.bytes.write frame).length := by
    intro frame
    have hlen : 0 < varintLen frame.length := writeVarint_length_pos 9 _
    rw [Codec.bytes_write_length]
    omega
  exact Codec.imap_sized (Codec.pair_sized Codec.u16_sized
    (Codec.pair_sized (Codec.option_sized Codec.u64_sized)
      (Codec.pair_sized (Codec.list_sized Codec.bytes_sized hpos)
        (Codec.pair_sized Codec.u64_sized Codec.bool_sized)))) _ _ _

section Laws

variable [Crypto]

/-- What comes back for a page request, if the answer is read at all, is the
page that was served. -/
theorem request_op_page {sessions : SessionRegistry} {request : SyncRequestV1} {peer : EndpointId}
    {remote : Remote} {response : SyncResponseV1}
    (hr : remote (control_request OP_SYNC_PAGE (SyncRequestV1.codec.write request)) =
      serve_op sessions (control_request OP_SYNC_PAGE (SyncRequestV1.codec.write request)) peer)
    (h : request_op SyncResponseV1.codec remote OP_SYNC_PAGE (SyncRequestV1.codec.write request) =
      .ok (some response)) :
    response = sync_page sessions request peer := by
  unfold request_op at h
  rw [hr, serve_op_page] at h
  simp only at h
  generalize hpage : sync_page sessions request peer = page at h ⊢
  have hlen := reply_length (SyncResponseV1.codec.write page)
  split at h
  · cases h
  rename_i hmax
  have hlt : (SyncResponseV1.codec.write page).length < 2 ^ 64 := by
    simp only [MAX_RESPONSE_BYTES, response_cost] at hlen hmax
    omega
  have henvelope := ControlResponseV1.codec.read_write_nil
    (a := { version := WIRE_VERSION, op := OP_SYNC_PAGE
            payload := SyncResponseV1.codec.write page })
    (by simp only [ControlResponseV1.codec, Codec.imap_fits, Codec.pair_fits, Codec.u16_fits,
          Codec.bytes_fits, true_and]
        exact hlt)
  have hpayload := SyncResponseV1.codec.read_write_nil (SyncResponseV1.codec_sized page hlt)
  have hop : OP_SYNC_PAGE ≠ OP_UNSUPPORTED := by decide
  rw [reply, henvelope] at h
  simp only [ne_eq, not_true_eq_false, if_false, hop, hpayload, Except.ok.injEq,
    Option.some.injEq] at h
  exact h.symm

theorem page_request_topic (self : Session) (peer : EndpointId) (page_size : UInt16)
    (cursor : UInt64) :
    (page_request self peer page_size cursor).topic_id = self.topic_id.as_bytes := by
  unfold page_request
  split <;> rfl

/-- The peer is a live member of the same drop, and its answers, where any
arrive, are those of its sync protocol. -/
structure ServedBy (peer : SyncPeer) (sessions : SessionRegistry) (joiner other : Session) :
    Prop where
  id : peer.id = other.self_id
  hosted : sessions joiner.topic_id = some other
  mode : other.mode = joiner.mode
  drop_key : other.drop_key = joiner.drop_key
  answers : ∀ page request, peer.remotes page request = none ∨
    peer.remotes page request = serve_op sessions request joiner.self_id

theorem replay_config (s : Session) (frame : Bytes) (peer : EndpointId) (world : IntakeWorld) :
    (s.replay frame peer world).toSessionConfig = s.toSessionConfig := by
  unfold Session.replay
  rcases hd : Session.decode_for_session s.toSessionConfig frame with e | verified
  · rfl
  · have hstep : s.step (.received frame peer world) =
        s.handle_message verified peer frame world := by
      simp only [Session.step, Session.receive, hd]
    simp only
    rw [← hstep]
    exact (step_extends s _).config

theorem take_config (pull : Pull) (frame : Bytes) (peer : EndpointId) (arrival : Arrival) :
    (pull.take frame peer arrival).session.toSessionConfig = pull.session.toSessionConfig :=
  (replay_config _ frame peer arrival.world).trans
    (run_extends pull.session arrival.meantime).config

/-- The frames that an attempt has replayed. -/
def Pull.frames (self : Pull) : List Bytes := self.replays.map Replay.frame

/-- A page that is replayed to its end is replayed frame by frame. -/
theorem replay_page_done {peer : EndpointId} {arrivals : Nat → Arrival} {frames : List Bytes}
    {pull pull' : Pull} (h : replay_page peer arrivals frames pull = (true, pull')) :
    pull'.cursor = pull.cursor ∧
      pull'.session.toSessionConfig = pull.session.toSessionConfig ∧
      pull'.frames = pull.frames ++ frames := by
  induction frames generalizing pull with
  | nil =>
    cases h
    exact ⟨rfl, rfl, (List.append_nil _).symm⟩
  | cons frame frames ih =>
    unfold replay_page at h
    simp only at h
    split at h
    · cases h
    split at h
    · cases h
    obtain ⟨hcursor, hconfig, hframes⟩ := ih h
    refine ⟨hcursor, hconfig.trans (take_config _ frame peer _), ?_⟩
    rw [hframes]
    simp [Pull.take, Pull.frames]

namespace Replay

variable (r : Replay) (verified : VerifiedMessage)

/-- The peer that serves the page has a token for the frame. -/
def Admitted : Prop := r.before.admits r.peer r.world.draw.now = true

/-- The message was seen before. -/
def Known : Prop := verified.key ∈ r.before.state.seen_messages.entries

variable {r verified}

end Replay

/-! ## Attempts that come to the end -/

end Laws

/-! ## A frame that flow control takes away -/

namespace spent_bucket

local instance : Crypto := Crypto.clear

def topic : TopicId := ⟨.fill 32 8⟩
def secret : SecretKey := ⟨.fill 32 2⟩

/-- The frame of a provider assertion. -/
def frame : Bytes :=
  match (MessageV1.new (.Provider ⟨⟨.fill 32 7⟩, .Available, some 0⟩) (.fill 16 1) 0).encode secret
    topic with
  | .ok bytes => bytes
  | .error _ => []

/-- A member of a public drop. -/
def member (secret : SecretKey) : Session :=
  .new secret {} PolicyDecider topic (.nodeless topic.as_bytes none) none (fun _ => .NotFound)

/-- A member whose log is that one frame. -/
def other : Session :=
  { member secret with state := (member secret).state.retain_frame frame }

/-- A member that has just had 64 live messages from the other one. -/
def joiner : Session :=
  { member ⟨.fill 32 1⟩ with
    message_limiter := (List.replicate 64 0).foldl (fun limiter now =>
      (limiter.allow_at other.self_id now).2) (.new MESSAGES) }

def sessions : SessionRegistry := fun _ => some other

def peer (id : EndpointId) : SyncPeer :=
  { id := other.self_id, connects := true
    hello := fun request => serve_op sessions request id
    remotes := fun _ request => serve_op sessions request id
    arrivals := fun _ =>
      { meantime := []
        world := { draw := { now := 0, sent_at_ms := 0, id := .fill 16 9, nonce := .fill 24 0
                             carried := .ok () }
                   announced_at_ms := 0 } } }

theorem served (s : Session) (hm : s.mode = .Public) (hk : s.drop_key = none) :
    ServedBy (peer s.self_id) sessions s other :=
  ⟨rfl, rfl, hm.symm, hk.symm, fun _ _ => .inr rfl⟩

/-- The session reads the frame, and does not note it. -/
def lost (r : Replay) : Bool :=
  match Session.decode_for_session r.before.toSessionConfig r.frame with
  | .ok verified =>
    decide (verified.body.map MessageBodyV1.retain = some .Yes) &&
      decide (verified.key ∉ r.after.state.seen_messages.entries)
  | .error _ => false

end spent_bucket

end iroh_drop
