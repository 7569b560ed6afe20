-- The laws of the pages that a member serves: which frames of the log a page
-- holds, where the next one starts, and how many bytes it takes on the wire.
import IrohDrop.Sync

open rust_std postcard

namespace iroh_drop

/-! ## The byte budget of a page -/

theorem kept_frames_le (budget : Nat) (frames : List Bytes) :
    kept_frames budget frames ≤ frames.length := by
  induction frames generalizing budget with
  | nil => exact Nat.le_refl 0
  | cons frame frames ih =>
    simp only [kept_frames]
    split
    · omega
    · have := ih (budget - frame.length)
      simp only [List.length_cons]
      omega

/-- What a page keeps, it keeps within the budget. -/
theorem kept_frames_bytes (budget : Nat) (frames : List Bytes) :
    ((frames.take (kept_frames budget frames)).map List.length).sum ≤ budget := by
  induction frames generalizing budget with
  | nil => simp
  | cons frame frames ih =>
    simp only [kept_frames]
    split
    · simp
    · rename_i h
      have := ih (budget - frame.length)
      simp only [List.take_succ_cons, List.map_cons, List.sum_cons]
      omega

theorem clamp_max_frames_pos (max_frames : UInt16) : 0 < clamp_max_frames max_frames := by
  simp only [clamp_max_frames, MAX_FRAMES_PER_PAGE]
  omega

/-! ## The bytes of a page -/

/-- A frame takes its own bytes and a length in front of them. -/
def frame_cost (frame : Bytes) : Nat := varintLen frame.length + frame.length

/-- The cursor of the next page takes a tag, and a varint when there is one. -/
def cursor_cost : Option UInt64 → Nat
  | none => 1
  | some cursor => 1 + varintLen cursor.toNat

/-- The bytes of a page: version, next cursor, frames, oldest cursor, and
whether it is truncated. -/
def payload_cost (next_cursor : Option UInt64) (frames : List Bytes) (oldest_cursor : UInt64) :
    Nat :=
  1 + cursor_cost next_cursor + (varintLen frames.length + (frames.map frame_cost).sum) +
    varintLen oldest_cursor.toNat + 1

/-- The bytes of a response: version, operation, and the payload with a
length in front of it. -/
def response_cost (payload : Nat) : Nat := 2 + varintLen payload + payload

theorem cursor_write_length (cursor : Option UInt64) :
    ((Codec.option Codec.u64).write cursor).length = cursor_cost cursor := by
  cases cursor with
  | none => rfl
  | some cursor =>
    simp only [Codec.option, Codec.u64, List.length_cons, cursor_cost, varintLen]
    omega

theorem page_write_length (page : SyncResponseV1) (hv : page.version = WIRE_VERSION) :
    (SyncResponseV1.codec.write page).length =
      payload_cost page.next_cursor page.frames page.oldest_cursor := by
  have hversion : (Codec.u16.write page.version).length = 1 := by
    rw [hv]
    rfl
  have hold : (Codec.u64.write page.oldest_cursor).length =
      varintLen page.oldest_cursor.toNat := rfl
  have hbool : (Codec.bool.write page.truncated).length = 1 := rfl
  have hframes : (page.frames.map (fun f => (Codec.bytes.write f).length)).sum =
      (page.frames.map frame_cost).sum := by
    simp only [Codec.bytes_write_length]
    rfl
  simp only [SyncResponseV1.codec, Codec.imap_write_length, Codec.pair_write_length,
    cursor_write_length, Codec.list_write_length, hversion, hold, hbool, hframes, payload_cost]
  omega

theorem reply_length (payload : Bytes) :
    (reply OP_SYNC_PAGE payload).length = response_cost payload.length := by
  have hop : (Codec.u16.write OP_SYNC_PAGE).length = 1 := rfl
  have hversion : (Codec.u16.write WIRE_VERSION).length = 1 := rfl
  simp only [reply, ControlResponseV1.codec, Codec.imap_write_length, Codec.pair_write_length,
    Codec.bytes_write_length, hop, hversion, response_cost]
  omega

/-! ## The request on the wire -/

theorem sync_request_write_length_le (request : SyncRequestV1) :
    (SyncRequestV1.codec.write request).length ≤ 81 := by
  have hv := Codec.u16_write_length_le request.version
  have hc := Codec.u64_write_length_le request.cursor
  have hm := Codec.u16_write_length_le request.max_frames
  have hp : ((Codec.option (Codec.fixed 32)).write request.key_proof).length ≤ 33 := by
    rcases request.key_proof with _ | proof
    · simp [Codec.option]
    · simp only [Codec.option, List.length_cons, Codec.fixed_write_length]
      omega
  simp only [SyncRequestV1.codec, Codec.imap_write_length, Codec.pair_write_length,
    Codec.fixed_write_length]
  omega

section Laws

variable [Crypto]

/-! ## The frames of a page -/

/-- Where in the log the page of a cursor starts. -/
def page_start (state : DropState) (cursor : UInt64) : Nat :=
  cursor.toNat - state.sync_log_start

/-- As many frames as were asked for, from the cursor on. -/
def wanted_frames (state : DropState) (request : SyncRequestV1) : List Bytes :=
  (state.sync_log.drop (page_start state request.cursor)).take
    (clamp_max_frames request.max_frames)

/-- The frames that a page holds: those that were wanted, cut off where the
byte budget of the page is spent. -/
def page_window (state : DropState) (request : SyncRequestV1) : List Bytes :=
  (wanted_frames state request).take
    (kept_frames MAX_RESPONSE_BYTES (wanted_frames state request))

/-- Where the page after it starts, if the log goes on. -/
def page_next (state : DropState) (request : SyncRequestV1) : Option UInt64 :=
  let stop := page_start state request.cursor + (page_window state request).length
  if state.sync_log.length ≤ stop then none else some (UInt64.ofNat (state.sync_log_start + stop))

/-- The frames that `sync_frames` gives. -/
theorem sync_frames_frames (state : DropState) (cursor max : Nat) :
    (state.sync_frames cursor max).frames =
      (state.sync_log.drop (cursor - state.sync_log_start)).take max := by
  simp only [DropState.sync_frames]
  split
  · rename_i h
    rw [List.drop_eq_nil_of_le h, List.take_nil]
  · rename_i h
    simp only
    rcases Nat.le_total (cursor - state.sync_log_start + max) state.sync_log.length with hle | hle
    · rw [Nat.min_eq_left hle, Nat.add_sub_cancel_left]
    · rw [Nat.min_eq_right hle, List.take_of_length_le (by simp),
        List.take_of_length_le (by simp; omega)]

theorem sync_frames_caught_up (state : DropState) (cursor max : Nat) :
    (state.sync_frames cursor max).caught_up =
      decide (state.sync_log.length ≤ cursor - state.sync_log_start + max) := by
  simp only [DropState.sync_frames]
  split
  · rename_i h
    simp only
    rw [eq_comm, decide_eq_true_eq]
    omega
  · simp only
    congr 1
    apply propext
    omega

theorem sync_frames_end_cursor (state : DropState) (cursor max : Nat) :
    (state.sync_frames cursor max).end_cursor =
      state.sync_log_start + min (cursor - state.sync_log_start + max) state.sync_log.length := by
  simp only [DropState.sync_frames]
  split
  · rename_i h
    simp only
    omega
  · rfl

theorem session_page_frames (state : DropState) (request : SyncRequestV1) :
    (session_page state request).frames = page_window state request := by
  simp only [session_page, sync_frames_frames]
  rfl

theorem session_page_next_cursor (state : DropState) (request : SyncRequestV1) :
    (session_page state request).next_cursor = page_next state request := by
  have hkept := kept_frames_le MAX_RESPONSE_BYTES (wanted_frames state request)
  have hwanted : (wanted_frames state request).length = min (clamp_max_frames request.max_frames)
      (state.sync_log.length - page_start state request.cursor) := by
    simp [wanted_frames]
  have hwindow : (page_window state request).length =
      kept_frames MAX_RESPONSE_BYTES (wanted_frames state request) := by
    rw [page_window, List.length_take, Nat.min_eq_left hkept]
  have hpage : (session_page state request).next_cursor =
      if state.sync_log.length ≤
            page_start state request.cursor + clamp_max_frames request.max_frames ∧
          (wanted_frames state request).length - (page_window state request).length = 0 then none
      else some (UInt64.ofNat (state.sync_log_start +
        min (page_start state request.cursor + clamp_max_frames request.max_frames)
          state.sync_log.length -
        ((wanted_frames state request).length - (page_window state request).length))) := by
    simp only [session_page, sync_frames_frames, sync_frames_caught_up, sync_frames_end_cursor,
      Bool.and_eq_true, decide_eq_true_eq, hwindow]
    rfl
  simp only [hpage, page_next]
  have hiff : (state.sync_log.length ≤
        page_start state request.cursor + clamp_max_frames request.max_frames ∧
      (wanted_frames state request).length - (page_window state request).length = 0) ↔
      state.sync_log.length ≤
        page_start state request.cursor + (page_window state request).length := by
    omega
  by_cases h : state.sync_log.length ≤
      page_start state request.cursor + (page_window state request).length
  · rw [if_pos (hiff.mpr h), if_pos h]
  · rw [if_neg (fun hc => h (hiff.mp hc)), if_neg h]
    congr 2
    omega

/-- A request for a page, in whichever schema, is answered with that page. -/
theorem serve_op_decoded (sessions : SessionRegistry) (peer : EndpointId) {payload : Bytes}
    {request : SyncRequestV1} (hlen : payload.length ≤ 81)
    (hdecode : decode_sync_request payload = .ok request) :
    serve_op sessions (control_request OP_SYNC_PAGE payload) peer =
      some (reply OP_SYNC_PAGE (SyncResponseV1.codec.write (sync_page sessions request peer))) := by
  have hvarint := writeVarint_length_le 10 payload.length
  have hwrite : (control_request OP_SYNC_PAGE payload).length ≤ MAX_REQUEST_BYTES := by
    have hop := Codec.u16_write_length_le OP_SYNC_PAGE
    have hv := Codec.u16_write_length_le WIRE_VERSION
    simp only [control_request, ControlRequestV1.codec, Codec.imap_write_length,
      Codec.pair_write_length, Codec.bytes_write_length, varintLen, MAX_REQUEST_BYTES]
    omega
  have hread := ControlRequestV1.codec.read_write_nil
    (a := { version := WIRE_VERSION, op := OP_SYNC_PAGE, payload })
    (by simp [ControlRequestV1.codec]; omega)
  have hop : OP_SYNC_PAGE ≠ OP_HELLO := by decide
  unfold serve_op
  rw [if_neg (by omega), control_request, hread]
  simp only [ne_eq, not_true_eq_false, if_false, hop, if_true, hdecode]

theorem serve_op_page (sessions : SessionRegistry) (request : SyncRequestV1) (peer : EndpointId) :
    serve_op sessions (control_request OP_SYNC_PAGE (SyncRequestV1.codec.write request)) peer =
      some (reply OP_SYNC_PAGE (SyncResponseV1.codec.write (sync_page sessions request peer))) :=
  serve_op_decoded sessions peer (sync_request_write_length_le request)
    (decode_sync_request_write request)

/-! ## What the client takes -/

/-- The page that a session serves to this peer, if it serves it, is no
longer than what the client reads. -/
def PageFits (sessions : SessionRegistry) (request : SyncRequestV1) (peer : EndpointId) : Prop :=
  ∀ inner, sessions ⟨request.topic_id⟩ = some inner → serves inner request peer = true →
    response_cost (payload_cost (page_next inner.state request) (page_window inner.state request)
      (UInt64.ofNat inner.state.sync_log_start)) ≤ MAX_RESPONSE_BYTES

theorem session_page_oldest_cursor (state : DropState) (request : SyncRequestV1) :
    (session_page state request).oldest_cursor = UInt64.ofNat state.sync_log_start := by
  simp only [session_page, DropState.sync_frames]
  split <;> rfl

theorem sync_page_version (sessions : SessionRegistry) (request : SyncRequestV1)
    (peer : EndpointId) : (sync_page sessions request peer).version = WIRE_VERSION := by
  unfold sync_page
  split
  · rfl
  · split <;> rfl

/-- The answer to a request for a page is no longer than what the client
reads just when the frames of the page leave room for their framing. -/
theorem served_page_fits_iff (sessions : SessionRegistry) (request : SyncRequestV1)
    (peer : EndpointId) :
    ∃ response, serve_op sessions
        (control_request OP_SYNC_PAGE (SyncRequestV1.codec.write request)) peer = some response ∧
      (response.length ≤ MAX_RESPONSE_BYTES ↔ PageFits sessions request peer) := by
  have hempty : response_cost (payload_cost empty_page.next_cursor empty_page.frames
      empty_page.oldest_cursor) ≤ MAX_RESPONSE_BYTES := by decide
  refine ⟨_, serve_op_page sessions request peer, ?_⟩
  rw [reply_length, page_write_length _ (sync_page_version sessions request peer)]
  unfold sync_page PageFits
  rcases hs : sessions ⟨request.topic_id⟩ with _ | inner
  · simp only [unhosted_page_eq, hempty, reduceCtorEq, false_implies, implies_true]
  · rcases hserves : serves inner request peer with _ | _
    · simp only [Bool.false_eq_true, if_false, hempty, Option.some.injEq, forall_eq', hserves,
        false_implies]
    · simp only [if_true, Option.some.injEq, forall_eq', hserves, true_implies,
        session_page_frames, session_page_next_cursor, session_page_oldest_cursor]

end Laws

/-! ## A page that the client refuses -/

namespace full_page

local instance : Crypto := Crypto.clear

def topic : TopicId := ⟨.fill 32 8⟩

/-- A member whose log is 256 frames of 2 KiB. -/
def member : Session :=
  let s := Session.new ⟨.fill 32 1⟩ {} PolicyDecider topic (.nodeless topic.as_bytes none) none
    (fun _ => .NotFound)
  { s with state := { s.state with
      sync_log := List.replicate 256 (List.replicate 2048 0), sync_log_bytes := 524288 } }

def sessions : SessionRegistry := fun _ => some member

/-- The first request of a joiner. -/
def request : SyncRequestV1 :=
  { version := WIRE_VERSION, topic_id := topic.as_bytes, cursor := 0, max_frames := 256
    key_proof := none }

theorem kept_frames_replicate (n size budget : Nat) (frame : Bytes) (hf : frame.length = size)
    (h : n * size ≤ budget) : kept_frames budget (List.replicate n frame) = n := by
  induction n generalizing budget with
  | zero => rfl
  | succ n ih =>
    rw [Nat.succ_mul] at h
    rw [List.replicate_succ, kept_frames, if_neg (by omega), ih _ (by omega)]

theorem log_length : member.state.sync_log.length = 256 := List.length_replicate

theorem window : page_window member.state request =
    List.replicate 256 (List.replicate 2048 0) := by
  have hwanted : wanted_frames member.state request =
      List.replicate 256 (List.replicate 2048 0) := by
    have hclamp : clamp_max_frames request.max_frames = 256 := by decide
    have hstart : page_start member.state request.cursor = 0 := by decide
    rw [wanted_frames, hclamp, hstart, List.drop_zero]
    exact List.take_of_length_le log_length.le
  rw [page_window, hwanted, kept_frames_replicate 256 2048 _ _ List.length_replicate
    (by decide), List.take_of_length_le List.length_replicate.le]

/-- The frames of a page fill the budget, and their lengths come on top. -/
theorem a_page_of_small_frames_is_refused :
    ¬ ∀ [Crypto] (sessions : SessionRegistry) (request : SyncRequestV1) (peer : EndpointId)
      (_ : ∀ topic inner, sessions topic = some inner →
        ∀ frame ∈ inner.state.sync_log, frame.length ≤ MAX_MESSAGE_SIZE) (response : Bytes),
      serve_op sessions (control_request OP_SYNC_PAGE (SyncRequestV1.codec.write request)) peer =
        some response → response.length ≤ MAX_RESPONSE_BYTES := by
  intro h
  have hframes : ∀ topic inner, sessions topic = some inner →
      ∀ frame ∈ inner.state.sync_log, frame.length ≤ MAX_MESSAGE_SIZE := by
    intro t inner hs frame hframe
    cases hs
    rw [List.eq_of_mem_replicate hframe, List.length_replicate]
    decide
  obtain ⟨response, hserve, hiff⟩ :
      ∃ response, serve_op sessions
          (control_request OP_SYNC_PAGE (SyncRequestV1.codec.write request)) member.self_id =
            some response ∧ response.length = response_cost (payload_cost none
              (List.replicate 256 (List.replicate 2048 0)) 0) := by
    refine ⟨_, serve_op_page sessions request member.self_id, ?_⟩
    have hserves : serves member request member.self_id = true := by decide +kernel
    have hpage : sync_page sessions request member.self_id = session_page member.state request := by
      simp only [sync_page, sessions, hserves, if_true]
    have hnext : page_next member.state request = none := by
      simp only [page_next, window, log_length, List.length_replicate]
      exact if_pos (Nat.le_add_left 256 _)
    rw [reply_length, page_write_length _ (sync_page_version _ _ _), hpage, session_page_frames,
      session_page_next_cursor, session_page_oldest_cursor, window, hnext]
    rfl
  have hle := h sessions request member.self_id hframes response hserve
  have hcost : response_cost (payload_cost none (List.replicate 256 (List.replicate 2048 0)) 0) =
      524811 := by
    have hframe : frame_cost (List.replicate 2048 0) = 2050 := by
      rw [frame_cost, List.length_replicate]
      rfl
    rw [payload_cost, List.map_replicate, List.sum_replicate, List.length_replicate, hframe,
      smul_eq_mul]
    decide
  rw [hiff, hcost] at hle
  exact absurd hle (by decide)

end full_page

end iroh_drop
