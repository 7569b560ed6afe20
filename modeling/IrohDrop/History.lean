-- The laws of the history that a session keeps: what the dedup cache knows
-- after a look at a key, and what the log of frames holds after one more.
import IrohDrop.Moves

open rust_std

namespace iroh_drop

/-! ## Room for a frame -/

namespace DropState

/-- The bytes of some frames. -/
def bytes_of (frames : List Bytes) : Nat := (frames.map List.length).sum

/-- Making room drops frames off the front, one by one, until the next frame
fits or none is left. -/
theorem evict_frames_spec (size : Nat) (log : List Bytes) (bytes start : Nat)
    (hb : bytes = bytes_of log) :
    ∃ k ≤ log.length,
      evict_frames size log bytes start = (log.drop k, bytes_of (log.drop k), start + k) ∧
      (∀ j < k, (log.drop j).length ≥ SYNC_LOG_CAP ∨
        bytes_of (log.drop j) + size > SYNC_LOG_MAX_BYTES) ∧
      (k < log.length → (log.drop k).length < SYNC_LOG_CAP ∧
        bytes_of (log.drop k) + size ≤ SYNC_LOG_MAX_BYTES) := by
  induction log generalizing bytes start with
  | nil => exact ⟨0, Nat.le_refl 0, by rw [hb]; rfl, by omega, fun h => absurd h (Nat.lt_irrefl 0)⟩
  | cons front rest ih =>
    have hcons : bytes_of (front :: rest) = front.length + bytes_of rest := by
      simp [bytes_of]
    unfold evict_frames
    by_cases hfull : rest.length + 1 ≥ SYNC_LOG_CAP ∨ bytes + size > SYNC_LOG_MAX_BYTES
    · rw [if_pos hfull]
      obtain ⟨k, hk, heq, hfront, hrest⟩ := ih (bytes - front.length) (start + 1)
        (by rw [hb, hcons]; omega)
      refine ⟨k + 1, Nat.succ_le_succ hk, ?_, ?_, fun h => hrest (Nat.lt_of_succ_lt_succ h)⟩
      · rw [heq, List.drop_succ_cons, Nat.add_assoc, Nat.add_comm 1 k]
      · intro j hj
        rcases j with _ | j
        · rw [List.drop_zero, List.length_cons, ← hb]
          exact hfull
        · exact hfront j (Nat.lt_of_succ_lt_succ hj)
    · rw [if_neg hfull]
      refine ⟨0, Nat.zero_le _, ?_, by omega, ?_⟩
      · rw [hb]
        rfl
      · rw [List.drop_zero, List.length_cons, ← hb]
        omega

theorem bytes_of_append (a b : List Bytes) : bytes_of (a ++ b) = bytes_of a + bytes_of b := by
  simp [bytes_of]

end DropState

variable [Crypto]

/-! ## The dedup cache -/

namespace DedupCache

variable (self : DedupCache)

theorem mem_of_mem_evict_expired {key : DedupKey} {now : Instant}
    (h : key ∈ (self.evict_expired now).entries) : key ∈ self.entries := by
  unfold evict_expired at h
  generalize self.order = order at h
  generalize hentries : self.entries = entries at h ⊢
  clear hentries
  induction order generalizing entries with
  | nil => exact h
  | cons front rest ih =>
    unfold evict_expired.go at h
    split at h
    · exact (AList.mem_erase.mp (ih _ h)).2
    · exact h

/-- A look at a key: it is there, or it goes in at the back. -/
theorem check_and_insert_cases (key : DedupKey) (now : Instant) :
    (key ∈ (self.evict_expired now).entries ∧
      self.check_and_insert key now = (false, self.evict_expired now)) ∨
    (key ∉ (self.evict_expired now).entries ∧
      self.check_and_insert key now = (true, { (self.evict_expired now).make_room with
        entries := (self.evict_expired now).make_room.entries.insert key now
        order := (self.evict_expired now).make_room.order ++ [key] })) := by
  by_cases h : key ∈ (self.evict_expired now).entries
  · refine .inl ⟨h, ?_⟩
    simp only [check_and_insert]
    rw [if_pos h]
  · refine .inr ⟨h, ?_⟩
    simp only [check_and_insert]
    rw [if_neg h]

/-- A key that is not new was in the cache. -/
theorem mem_of_known {key : DedupKey} {now : Instant}
    (h : (self.check_and_insert key now).1 = false) : key ∈ self.entries := by
  rcases self.check_and_insert_cases key now with ⟨hmem, -⟩ | ⟨-, heq⟩
  · exact self.mem_of_mem_evict_expired hmem
  · rw [heq] at h
    cases h

theorem mem_of_mem_make_room {key : DedupKey} (h : key ∈ self.make_room.entries) :
    key ∈ self.entries := by
  unfold make_room at h
  generalize self.order = order at h
  generalize hentries : self.entries = entries at h ⊢
  clear hentries
  induction order generalizing entries with
  | nil => exact h
  | cons oldest rest ih =>
    unfold make_room.go at h
    split at h
    · exact (AList.mem_erase.mp (ih _ h)).2
    · exact h

/-- A look at a key brings no other key into the cache. -/
theorem mem_of_mem_check_and_insert {key other : DedupKey} {now : Instant}
    (h : other ∈ (self.check_and_insert key now).2.entries) :
    other = key ∨ other ∈ self.entries := by
  rcases self.check_and_insert_cases key now with ⟨-, heq⟩ | ⟨-, heq⟩ <;> rw [heq] at h
  · exact .inr (self.mem_of_mem_evict_expired h)
  · refine ((AList.mem_insert _).mp h).imp_right (fun hmem => ?_)
    exact self.mem_of_mem_evict_expired ((self.evict_expired now).mem_of_mem_make_room hmem)

end DedupCache

namespace DropState

variable (s : DropState)

theorem mem_of_not_is_fresh {key : DedupKey} {now : Instant} (h : s.is_fresh key now = false) :
    key ∈ s.seen_messages.entries := s.seen_messages.mem_of_known h

theorem is_fresh_of_not_mem {key : DedupKey} (now : Instant)
    (h : key ∉ s.seen_messages.entries) : s.is_fresh key now = true := by
  rcases hf : s.is_fresh key now with _ | _
  · exact absurd (s.mem_of_not_is_fresh hf) h
  · rfl

theorem mem_of_mem_noted {key other : DedupKey} {now : Instant}
    (h : other ∈ (s.noted key now).seen_messages.entries) :
    other = key ∨ other ∈ s.seen_messages.entries :=
  s.seen_messages.mem_of_mem_check_and_insert h

/-- The log is within its caps, and its bytes are counted right. -/
structure LogKept (s : DropState) : Prop where
  length : s.sync_log.length ≤ SYNC_LOG_CAP
  bytes : s.sync_log_bytes = bytes_of s.sync_log
  size : s.sync_log_bytes ≤ SYNC_LOG_MAX_BYTES

variable {s}

/-- A frame more goes to the end; the log loses what is too much in front. -/
theorem retain_frame_spec (h : s.sync_log_bytes = bytes_of s.sync_log) (frame : Bytes) :
    ∃ k ≤ s.sync_log.length,
      (s.retain_frame frame).sync_log = s.sync_log.drop k ++ [frame] ∧
      (s.retain_frame frame).sync_log_bytes = bytes_of (s.sync_log.drop k ++ [frame]) ∧
      (s.retain_frame frame).sync_log_start = s.sync_log_start + k ∧
      (∀ j < k, (s.sync_log.drop j).length ≥ SYNC_LOG_CAP ∨
        bytes_of (s.sync_log.drop j) + frame.length > SYNC_LOG_MAX_BYTES) ∧
      (k < s.sync_log.length → (s.sync_log.drop k).length < SYNC_LOG_CAP ∧
        bytes_of (s.sync_log.drop k) + frame.length ≤ SYNC_LOG_MAX_BYTES) := by
  obtain ⟨k, hk, heq, hfront, hrest⟩ :=
    evict_frames_spec frame.length s.sync_log s.sync_log_bytes s.sync_log_start h
  refine ⟨k, hk, ?_, ?_, ?_, hfront, hrest⟩
  · simp only [retain_frame, heq]
  · simp only [retain_frame, heq, bytes_of_append]
    rfl
  · simp only [retain_frame, heq]

theorem LogKept.retain_frame (h : s.LogKept) {frame : Bytes}
    (hf : frame.length ≤ SYNC_LOG_MAX_BYTES) : (s.retain_frame frame).LogKept := by
  obtain ⟨k, hk, hlog, hbytes, -, -, hrest⟩ := retain_frame_spec h.bytes frame
  have hone : bytes_of [frame] = frame.length := by simp [bytes_of]
  have hdrop : (s.sync_log.drop k).length = s.sync_log.length - k := List.length_drop
  refine ⟨?_, by rw [hlog, hbytes], ?_⟩
  · rw [hlog, List.length_append, List.length_singleton]
    by_cases hlt : k < s.sync_log.length
    · exact (hrest hlt).1
    · rw [hdrop, Nat.sub_eq_zero_of_le (by omega)]
      decide
  · rw [hbytes, bytes_of_append, hone]
    by_cases hlt : k < s.sync_log.length
    · exact (hrest hlt).2
    · rw [List.drop_eq_nil_of_le (by omega)]
      simpa [bytes_of] using hf

/-- A frame more goes to the end of what is left of the log. -/
theorem retain_frame_log (s : DropState) (frame : Bytes) :
    ∃ k, (s.retain_frame frame).sync_log = s.sync_log.drop k ++ [frame] := by
  simp only [DropState.retain_frame]
  generalize s.sync_log_bytes = bytes
  generalize s.sync_log_start = start
  suffices h : ∃ k, (evict_frames frame.length s.sync_log bytes start).1 = s.sync_log.drop k by
    obtain ⟨k, hk⟩ := h
    exact ⟨k, by rw [hk]⟩
  induction s.sync_log generalizing bytes start with
  | nil => exact ⟨0, rfl⟩
  | cons front rest ih =>
    unfold evict_frames
    split
    · obtain ⟨k, hk⟩ := ih (bytes - front.length) (start + 1)
      exact ⟨k + 1, by rw [hk, List.drop_succ_cons]⟩
    · exact ⟨0, rfl⟩

/-- Whether a frame that is to be retained goes into the log. -/
def keeps (s : DropState) (retain : Retain) (frame : Bytes) : Prop :=
  match retain with
  | .Yes => True
  | .Unknown => s.unknown_frames < MAX_UNKNOWN_FRAMES ∧
    s.unknown_frames_bytes + frame.length ≤ UNKNOWN_FRAMES_MAX_BYTES
  | .No => False

theorem retain_of_not_keeps {retain : Retain} {frame : Bytes} (h : ¬ s.keeps retain frame) :
    s.retain retain frame = s := by
  cases retain with
  | Yes => exact absurd trivial h
  | No => rfl
  | Unknown =>
    simp only [keeps] at h
    simp only [DropState.retain, retain_unknown_frame]
    rw [if_pos (by omega)]

theorem retain_of_keeps {retain : Retain} {frame : Bytes} (h : s.keeps retain frame) :
    ∃ k, (s.retain retain frame).sync_log = s.sync_log.drop k ++ [frame] := by
  cases retain with
  | Yes => exact s.retain_frame_log frame
  | No => exact absurd h id
  | Unknown =>
    simp only [keeps] at h
    simp only [DropState.retain, retain_unknown_frame]
    rw [if_neg (by omega)]
    exact retain_frame_log _ frame

/-- Whatever becomes of a frame, the log is a stretch of the old one, and the
frame after it if it was kept. -/
theorem retain_log (s : DropState) (retain : Retain) (frame : Bytes) :
    (s.retain retain frame).sync_log = s.sync_log ∨
      s.keeps retain frame ∧
        ∃ k, (s.retain retain frame).sync_log = s.sync_log.drop k ++ [frame] := by
  by_cases h : s.keeps retain frame
  · exact .inr ⟨h, retain_of_keeps h⟩
  · exact .inl (by rw [retain_of_not_keeps h])

theorem keeps_noted (state : DropState) (key : DedupKey) (now : Instant) (retain : Retain)
    (frame : Bytes) :
    (state.noted key now).keeps retain frame ↔ state.keeps retain frame := by
  cases retain <;> exact Iff.rfl

/-! ## The caps of the log -/

theorem LogKept.of_sameLog {a b : DropState} (h : a.LogKept) (hs : SameLog a b) : b.LogKept :=
  ⟨by rw [hs.sync_log]; exact h.length, by rw [hs.sync_log, hs.sync_log_bytes]; exact h.bytes,
    by rw [hs.sync_log_bytes]; exact h.size⟩

theorem LogKept.retain (h : s.LogKept) {frame : Bytes} (hf : frame.length ≤ MAX_MESSAGE_SIZE)
    (retain : Retain) : (s.retain retain frame).LogKept := by
  have hmax : MAX_MESSAGE_SIZE ≤ SYNC_LOG_MAX_BYTES := by decide
  cases retain with
  | Yes => exact h.retain_frame (hf.trans hmax)
  | No => exact h
  | Unknown =>
    simp only [DropState.retain, retain_unknown_frame]
    split
    · exact h
    · have hcounted : LogKept { s with
          unknown_frames := s.unknown_frames + 1
          unknown_frames_bytes := s.unknown_frames_bytes + frame.length } :=
        ⟨h.length, h.bytes, h.size⟩
      exact hcounted.retain_frame (hf.trans hmax)

end DropState

/-! ## What becomes of a message -/

namespace Session

/-- What a message does to the history: nothing but an entry in the dedup
cache, or, if it was new and let in, what its kind deserves. -/
inductive Handled (s : Session) (verified : VerifiedMessage) (peer : EndpointId) (raw : Bytes)
    (now : Instant) (s' : Session) : Prop where
  | passed (config : s'.toSessionConfig = s.toSessionConfig)
      (seen : SameLog s.state s'.state ∨ SameLog (s.state.noted verified.key now) s'.state)
      (why : s.admits peer now = false ∨ s.state.is_fresh verified.key now = false)
  | taken (config : s'.toSessionConfig = s.toSessionConfig)
      (admitted : s.admits peer now = true)
      (fresh : s.state.is_fresh verified.key now = true)
      (log : SameLog ((s.state.noted verified.key now).retain (retainable verified.body) raw)
        s'.state)

theorem handled (s : Session) (verified : VerifiedMessage) (peer : EndpointId) (raw : Bytes)
    (world : IntakeWorld) :
    s.Handled verified peer raw world.draw.now (s.handle_message verified peer raw world) := by
  rcases ha : s.admits peer world.draw.now with _ | _
  · have hquiet := s.handle_message_limited ha verified raw
    exact .passed hquiet.config (.inl hquiet.log) (.inl ha)
  · rcases hf : s.state.is_fresh verified.key world.draw.now with _ | _
    · obtain ⟨s₁, heq, hconfig, -, hlog, -⟩ := s.handle_message_known ha hf raw
      rw [heq]
      exact .passed hconfig (.inr hlog) (.inr hf)
    · rw [s.handle_message_fresh ha hf]
      have htaken := s.taken_log verified peer raw world.draw.now
      have hdispatch := (s.taken verified peer raw world.draw.now).dispatched verified peer world
      generalize (s.taken verified peer raw world.draw.now).dispatch verified peer world = s'
        at hdispatch ⊢
      cases hdispatch with
      | quietly quiet => exact .taken quiet.config ha hf (htaken.trans quiet.log)
      | reserves offer quiet => exact .taken quiet.config ha hf (htaken.trans quiet.log)
      | @answers s₁ request quiet =>
        have hstate : (s₁.reply_available request.blob_hash world).state = s₁.state ∧
            (s₁.reply_available request.blob_hash world).toSessionConfig = s₁.toSessionConfig := by
          unfold reply_available
          simp only
          split <;> exact ⟨rfl, rfl⟩
        refine .taken (hstate.2.trans quiet.config) ha hf ?_
        rw [hstate.1]
        exact htaken.trans quiet.log

/-! ## Frames that are short enough -/

theorem decode_length {frame : Bytes} {topic : TopicId} {verified : VerifiedMessage}
    (h : MessageV1.decode frame topic = .ok verified) : frame.length ≤ MAX_MESSAGE_SIZE := by
  simp only [MessageV1.decode, bind_eq_ok, ensure_eq_ok] at h
  exact h.choose_spec.1

theorem decode_for_session_length {c : SessionConfig} {frame : Bytes} {verified : VerifiedMessage}
    (h : decode_for_session c frame = .ok verified) : frame.length ≤ MAX_MESSAGE_SIZE := by
  unfold decode_for_session at h
  split at h
  · simp only [MessageV1.decode_sealed, bind_eq_ok, ensure_eq_ok] at h
    exact h.choose_spec.1
  · simp only [MessageV1.verify_sealed_outer, bind_eq_ok, ensure_eq_ok] at h
    exact h.choose_spec.1
  · exact decode_length h

end Session

end iroh_drop
