-- The law of the backlog: whatever log a member retains, the budgets of one
-- attempt suffice for it, and the page limiter of the member may not.
import IrohDrop.Bootstrap
import IrohDrop.TokenBucket

open rust_std postcard

namespace iroh_drop

/-! ## Pages -/

/-- The number of pages that a log makes, of the size that this build asks
for. -/
def pages_of (log : List Bytes) : Nat :=
  let k := kept_frames MAX_RESPONSE_BYTES (log.take MAX_FRAMES_PER_PAGE)
  if 0 < k ∧ k < log.length then pages_of (log.drop k) + 1 else 1
termination_by log.length
decreasing_by
  rw [List.length_drop]
  omega

theorem pages_of_pos (log : List Bytes) : 0 < pages_of log := by
  rw [pages_of]
  split <;> omega

open DropState (bytes_of bytes_of_append)

theorem bytes_of_take_add_drop (log : List Bytes) (k : Nat) :
    bytes_of log = bytes_of (log.take k) + bytes_of (log.drop k) := by
  rw [← bytes_of_append, List.take_append_drop]

/-- Frames that the budget of a page cuts off do not fit it. -/
theorem kept_frames_stop {budget : Nat} {frames : List Bytes} {size : Nat}
    (hshort : ∀ frame ∈ frames, frame.length ≤ size)
    (h : kept_frames budget frames < frames.length) :
    budget < bytes_of (frames.take (kept_frames budget frames)) + size := by
  induction frames generalizing budget with
  | nil => cases h
  | cons frame frames ih =>
    have hone := hshort frame List.mem_cons_self
    unfold kept_frames at h ⊢
    by_cases hover : frame.length > budget
    · rw [if_pos hover]
      omega
    · rw [if_neg hover, List.length_cons] at h
      rw [if_neg hover, List.take_succ_cons]
      have hlt : kept_frames (budget - frame.length) frames < frames.length := by omega
      have hrest := ih (fun f hf => hshort f (List.mem_cons_of_mem _ hf)) hlt
      have hcons : ∀ l : List Bytes, bytes_of (frame :: l) = frame.length + bytes_of l :=
        fun l => List.sum_cons
      rw [hcons]
      omega

/-- The frames of the first page of a log. -/
theorem first_page {log : List Bytes} (hshort : ∀ frame ∈ log, frame.length ≤ MAX_MESSAGE_SIZE) :
    let k := kept_frames MAX_RESPONSE_BYTES (log.take MAX_FRAMES_PER_PAGE)
    k ≤ log.length ∧ bytes_of (log.take k) ≤ MAX_RESPONSE_BYTES ∧ (log ≠ [] → 0 < k) ∧
      (k < log.length → MAX_FRAMES_PER_PAGE ≤ k ∨
        MAX_RESPONSE_BYTES < bytes_of (log.take k) + MAX_MESSAGE_SIZE) := by
  intro k
  have hle : k ≤ (log.take MAX_FRAMES_PER_PAGE).length := kept_frames_le _ _
  have htake : (log.take MAX_FRAMES_PER_PAGE).take k = log.take k := by
    rw [List.take_take]
    rw [List.length_take] at hle
    rw [min_eq_left (by omega)]
  have hshort' : ∀ frame ∈ log.take MAX_FRAMES_PER_PAGE, frame.length ≤ MAX_MESSAGE_SIZE :=
    fun frame hf => hshort frame (List.mem_of_mem_take hf)
  have hbytes := kept_frames_bytes MAX_RESPONSE_BYTES (log.take MAX_FRAMES_PER_PAGE)
  change bytes_of ((log.take MAX_FRAMES_PER_PAGE).take k) ≤ _ at hbytes
  have hstop : k < (log.take MAX_FRAMES_PER_PAGE).length →
      MAX_RESPONSE_BYTES < bytes_of ((log.take MAX_FRAMES_PER_PAGE).take k) + MAX_MESSAGE_SIZE :=
    kept_frames_stop hshort'
  have hmax : MAX_MESSAGE_SIZE ≤ MAX_RESPONSE_BYTES := by decide
  have hpage : 0 < MAX_FRAMES_PER_PAGE := by decide
  rw [htake] at hbytes hstop
  rw [List.length_take] at hle hstop
  refine ⟨by omega, hbytes, ?_, ?_⟩
  · intro hne
    have hlen := List.length_pos_of_ne_nil hne
    by_contra hzero
    have hk : k = 0 := by omega
    have hover := hstop (by omega)
    have hnone : bytes_of [] = 0 := rfl
    rw [hk, List.take_zero, hnone] at hover
    omega
  · intro hlt
    by_cases hfull : MAX_FRAMES_PER_PAGE ≤ k
    · exact .inl hfull
    · exact .inr (hstop (by omega))

/-- A log makes few pages: a page that is not the last one has its full
number of frames or nearly its full number of bytes. -/
theorem pages_of_le {log : List Bytes} (hshort : ∀ frame ∈ log, frame.length ≤ MAX_MESSAGE_SIZE) :
    (pages_of log - 1) * 117440512 ≤ 458752 * log.length + 256 * bytes_of log := by
  induction log using pages_of.induct with
  | case1 log k hmore ih =>
    have hrest := ih (fun frame hf => hshort frame (List.mem_of_mem_drop hf))
    obtain ⟨-, -, -, hfull⟩ := first_page hshort
    have hfull' := hfull hmore.2
    change MAX_FRAMES_PER_PAGE ≤ k ∨ MAX_RESPONSE_BYTES < bytes_of (log.take k) + _ at hfull'
    have hpos := pages_of_pos (log.drop k)
    have hsplit := bytes_of_take_add_drop log k
    have heq : pages_of log = pages_of (log.drop k) + 1 := by
      rw [pages_of]
      exact if_pos hmore
    rw [heq]
    rw [List.length_drop] at hrest
    obtain ⟨hcount, hbudget, hsize⟩ : MAX_FRAMES_PER_PAGE = 256 ∧ MAX_RESPONSE_BYTES = 524288 ∧
        MAX_MESSAGE_SIZE = 65536 := ⟨rfl, rfl, rfl⟩
    rw [hcount, hbudget, hsize] at hfull'
    have hlen : log.length = log.length - k + k := (Nat.sub_add_cancel hmore.2.le).symm
    obtain ⟨pages, hpages⟩ : ∃ pages, pages_of (log.drop k) = pages + 1 :=
      Nat.exists_eq_succ_of_ne_zero hpos.ne'
    rw [hpages, Nat.add_sub_cancel] at hrest
    rw [hpages, Nat.add_sub_cancel, hlen, hsplit]
    rcases hfull' with hframes | hbytes
    · linarith
    · linarith
  | case2 log k hlast =>
    have heq : pages_of log = 1 := by
      rw [pages_of]
      exact if_neg hlast
    rw [heq]
    omega

/-- The budgets of an attempt let a whole log pass. -/
theorem within_budgets_all {frames : List Bytes} {total total_bytes : Nat}
    (htotal : total + frames.length ≤ MAX_TOTAL_FRAMES)
    (hbytes : total_bytes + bytes_of frames ≤ MAX_TOTAL_BYTES_PER_ATTEMPT) :
    within_budgets total total_bytes frames = frames := by
  induction frames generalizing total total_bytes with
  | nil => rfl
  | cons frame frames ih =>
    have hcons : bytes_of (frame :: frames) = frame.length + bytes_of frames := List.sum_cons
    rw [hcons] at hbytes
    rw [List.length_cons] at htotal
    rw [within_budgets, if_neg (by omega), ih (by omega) (by omega)]

/-! ## Seconds -/

theorem as_secs_sub {a b : Instant} (h : a ≤ b) :
    Duration.as_secs (b - a) = Duration.as_secs b - Duration.as_secs a := by
  unfold Duration.as_secs
  rw [Nat.cast_sub h, sub_div]

section Laws

variable [Crypto]

/-! ## Tokens -/

namespace PeerRateLimiter

/-- The tokens that a request of the peer finds. -/
def tokens_at (self : PeerRateLimiter) (peer : EndpointId) (now : Instant) : ℚ :=
  match self.buckets.lookup peer with
  | none => self.rate.burst
  | some b => b.refill self.rate now

/-- The queue lists peers that have buckets, each once. -/
structure Kept (s : PeerRateLimiter) : Prop where
  nodup : s.order.Nodup
  tracked : ∀ peer ∈ s.order, peer ∈ s.buckets

/-- A limiter that has seen some requests. -/
def served (rate : Rate) (past : List (EndpointId × Instant)) : PeerRateLimiter :=
  past.foldl (fun limiter r => (limiter.allow_at r.1 r.2).2) (.new rate)

end PeerRateLimiter

/-! ## One connection -/

/-- The side of the member that serves: its limiter, and whether it still
reads requests from the connection. -/
structure Connection where
  limiter : PeerRateLimiter
  reads : Bool

/-- Whether one request more is answered. One that is not ends the connection. -/
def Connection.accept (self : Connection) (peer : EndpointId) (now : Instant) :
    Bool × Connection :=
  if self.reads then
    let (allowed, limiter) := self.limiter.allow_at peer now
    (allowed, ⟨limiter, allowed⟩)
  else (false, self)

/-- The connection before request `i`, when request `j` comes at `times j`. -/
def connection (limiter : PeerRateLimiter) (peer : EndpointId) (times : Nat → Instant) :
    Nat → Connection
  | 0 => ⟨limiter, true⟩
  | i + 1 => ((connection limiter peer times i).accept peer (times i)).2

/-- Request `i` is answered. -/
def answered (limiter : PeerRateLimiter) (peer : EndpointId) (times : Nat → Instant) (i : Nat) :
    Bool :=
  ((connection limiter peer times i).accept peer (times i)).1

/-- The tokens that request `j` finds, when each one before it took one. -/
def tokens (limiter : PeerRateLimiter) (peer : EndpointId) (times : Nat → Instant) : ℕ → ℚ :=
  token_bucket.level (limiter.tokens_at peer (times 0)) limiter.rate.burst
    limiter.rate.per_second (fun j => Duration.as_secs (times j))

/-- The page loop, with the answers as the transport hands them on. -/
def pull_pages_with (peer : EndpointId) (page_size : UInt16)
    (ask : Nat → SyncRequestV1 → Except OpError (Option SyncResponseV1))
    (arrivals : Nat → Arrival) : Nat → Pull → PullEnd × Pull
  | 0, pull => (.page_budget, pull)
  | left + 1, pull =>
    match ask left (page_request pull.session peer page_size pull.cursor) with
    | .error _ => (.failed, pull)
    | .ok none => (.refused, pull)
    | .ok (some response) =>
      if response.version ≠ WIRE_VERSION then (.other_version, pull)
      else match replay_page peer arrivals response.frames pull with
        | (false, pull) => (.frame_budget, pull)
        | (true, pull) =>
          match response.next_cursor with
          | none => (.caught_up, pull)
          | some next =>
            if next > pull.cursor then
              pull_pages_with peer page_size ask arrivals left { pull with cursor := next }
            else (.no_progress, pull)

/-- One attempt, with the answers as the transport hands them on. -/
def sync_from_with (self : Session) (peer : EndpointId) (hello : Except OpError (Option HelloV1))
    (ask : Nat → SyncRequestV1 → Except OpError (Option SyncResponseV1))
    (arrivals : Nat → Arrival) : Option PullEnd × Pull :=
  match negotiate hello with
  | none => (none, .start self)
  | some page_size =>
    let (ended, pull) :=
      pull_pages_with peer page_size ask arrivals MAX_PAGES_PER_ATTEMPT (.start self)
    (some ended, pull)

theorem pull_pages_eq (peer : EndpointId) (page_size : UInt16) (remotes : Nat → Remote)
    (arrivals : Nat → Arrival) (left : Nat) (pull : Pull) :
    pull_pages peer page_size remotes arrivals left pull =
      pull_pages_with peer page_size (fun left request => request_op SyncResponseV1.codec
        (remotes left) OP_SYNC_PAGE (SyncRequestV1.codec.write request)) arrivals left pull := by
  induction left generalizing pull with
  | zero => rfl
  | succ left ih =>
    unfold pull_pages pull_pages_with
    simp only
    rcases request_op SyncResponseV1.codec (remotes left) OP_SYNC_PAGE (SyncRequestV1.codec.write
      (page_request pull.session peer page_size pull.cursor)) with e | _ | response
    · rfl
    · rfl
    · by_cases hversion : response.version = WIRE_VERSION
      · simp only [hversion, ne_eq, not_true_eq_false, if_false]
        rcases replay_page peer arrivals response.frames pull with ⟨_ | _, pull'⟩
        · rfl
        · rcases response.next_cursor with _ | next
          · rfl
          · simp only [ih]
      · simp only [ne_eq, hversion, not_false_eq_true, if_true]

/-- The attempts of a session are those over `request_op`. -/
theorem sync_from_eq (self : Session) (peer : SyncPeer) (h : peer.connects = true) :
    sync_from self peer = sync_from_with self peer.id
      (request_op HelloV1.codec peer.hello OP_HELLO [])
      (fun left request => request_op SyncResponseV1.codec (peer.remotes left) OP_SYNC_PAGE
        (SyncRequestV1.codec.write request)) peer.arrivals := by
  unfold sync_from sync_from_with
  simp only [h, Bool.not_true, Bool.false_eq_true, if_false, pull_pages_eq]
  rfl

/-- A log that a member can retain. Its positions are within the range of a
cursor. -/
structure Backlog (state : DropState) : Prop where
  length : state.sync_log.length ≤ SYNC_LOG_CAP
  bytes : bytes_of state.sync_log ≤ SYNC_LOG_MAX_BYTES
  short : ∀ frame ∈ state.sync_log, frame.length ≤ MAX_MESSAGE_SIZE
  positions : state.sync_log_start + state.sync_log.length < 2 ^ 64

/-- The peer is a live member of the drop, with its key. -/
structure Hosts (sessions : SessionRegistry) (peer : EndpointId) (joiner other : Session) :
    Prop where
  id : peer = other.self_id
  hosted : sessions joiner.topic_id = some other
  mode : other.mode = joiner.mode
  drop_key : other.drop_key = joiner.drop_key
  may_ask : MayAsk joiner

/-- A log never makes more pages than an attempt takes. -/
theorem Backlog.pages {state : DropState} (h : Backlog state) :
    pages_of state.sync_log ≤ MAX_PAGES_PER_ATTEMPT := by
  have hle := pages_of_le h.short
  have hlength : state.sync_log.length ≤ 4096 := h.length
  have hbytes : bytes_of state.sync_log ≤ 33554432 := h.bytes
  have hmax : MAX_PAGES_PER_ATTEMPT = 128 := rfl
  rw [hmax]
  by_contra hmany
  have hpages : 128 ≤ pages_of state.sync_log - 1 := by omega
  linarith

/-- How far an attempt has come in the log of the other side: all frames up
to here are replayed, and counted right. -/
structure Standing (state : DropState) (pull : Pull) (n : Nat) : Prop where
  start : page_start state pull.cursor = n
  within : n ≤ state.sync_log.length
  cursor : pull.cursor.toNat ≤ state.sync_log_start + n
  frames : pull.frames = state.sync_log.take n
  total : pull.total = n
  total_bytes : pull.total_bytes = bytes_of (state.sync_log.take n)

/-- A page that goes on where the attempt stands is replayed to its end. -/
theorem Standing.replay {state : DropState} {pull : Pull} {n : Nat} (h : Standing state pull n)
    (hlog : Backlog state) {window : List Bytes}
    (hwindow : state.sync_log.take n ++ window = state.sync_log.take (n + window.length))
    (hle : n + window.length ≤ state.sync_log.length) (peer : EndpointId)
    (arrivals : Nat → Arrival) :
    ∃ pull₁, replay_page peer arrivals window pull = (true, pull₁) ∧
      pull₁.session.toSessionConfig = pull.session.toSessionConfig ∧ pull₁.cursor = pull.cursor ∧
      pull₁.frames = state.sync_log.take (n + window.length) ∧ pull₁.total = n + window.length ∧
      pull₁.total_bytes = bytes_of (state.sync_log.take (n + window.length)) := by
  rcases hreplay : replay_page peer arrivals window pull with ⟨done, pull₁⟩
  have hself : pull.session.toSessionConfig = pull.session.toSessionConfig := rfl
  obtain ⟨hheard, hiff, hdone⟩ := replay_page_heard hself hreplay
  have hbytes : bytes_of (state.sync_log.take n) + bytes_of window =
      bytes_of (state.sync_log.take (n + window.length)) := by
    rw [← bytes_of_append, hwindow]
  have hall : within_budgets pull.total pull.total_bytes window = window := by
    have hcount : SYNC_LOG_CAP ≤ MAX_TOTAL_FRAMES := by decide
    have hsize : SYNC_LOG_MAX_BYTES ≤ MAX_TOTAL_BYTES_PER_ATTEMPT := by decide
    have htake := bytes_of_take_add_drop state.sync_log (n + window.length)
    have hlength := hlog.length
    have hlimit := hlog.bytes
    refine within_budgets_all ?_ ?_
    · rw [h.total]
      omega
    · rw [h.total_bytes, hbytes]
      omega
  have hyes : done = true := hiff.mp hall
  subst hyes
  obtain ⟨hcursor, htotal, hsum⟩ := hdone rfl
  refine ⟨pull₁, rfl, hheard.config, hcursor, ?_, ?_, ?_⟩
  · rw [hheard.frames, hall, h.frames, hwindow]
  · rw [htotal, h.total]
  · rw [hsum, h.total_bytes, hbytes]

end Laws

/-! ## A backlog that takes too many pages -/

namespace large_log

local instance : Crypto := Crypto.clear

def topic : TopicId := ⟨.fill 32 8⟩

def joiner : Session :=
  .new ⟨.fill 32 1⟩ {} PolicyDecider topic (.nodeless topic.as_bytes none) none (fun _ => .NotFound)

/-- A frame of 60000 bytes, eight of which fill a page. -/
def frame : Bytes := List.replicate 60000 0

/-- A member with a log of 512 such frames. -/
def other : Session :=
  { joiner with
    secret := ⟨.fill 32 2⟩
    state := { joiner.state with sync_log := List.replicate 512 frame, sync_log_bytes := 30720000 } }

def sessions : SessionRegistry := fun _ => some other

def arrivals : Nat → Arrival := fun _ =>
  { meantime := []
    world := { draw := { now := 0, sent_at_ms := 0, id := .fill 16 9, nonce := .fill 24 0
                         carried := .ok () }
               announced_at_ms := 0 } }

theorem hosts : Hosts sessions other.self_id joiner other :=
  ⟨rfl, rfl, rfl, rfl, fun h => nomatch h.1⟩

/-- All requests of the attempt come at once. -/
def at_once : Nat → Instant := fun _ => 0

end large_log

end iroh_drop
