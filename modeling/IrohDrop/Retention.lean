-- The log of frames over a run: its counters are exact, and it holds the last of the
-- frames that were ever retained (state.rs).
import IrohDrop.History

open rust_std

namespace iroh_drop

/-! ## Calls -/

/-- A frame that is offered to the log. -/
inductive Retained where
  | known (frame : Bytes)
  | unknown (frame : Bytes)
deriving DecidableEq

@[simp] def Retained.frame : Retained → Bytes
  | .known frame | .unknown frame => frame

/-- Eviction in a build that checks its subtractions: nothing where one would go
below zero. -/
def DropState.evict_frames_checked (size : Nat) :
    List Bytes → Nat → Nat → Option (List Bytes × Nat × Nat)
  | [], bytes, start => some ([], bytes, start)
  | front :: rest, bytes, start =>
    if rest.length + 1 ≥ SYNC_LOG_CAP ∨ bytes + size > SYNC_LOG_MAX_BYTES then
      if front.length ≤ bytes then
        evict_frames_checked size rest (bytes - front.length) (start + 1)
      else none
    else some (front :: rest, bytes, start)

/-- The frame fits into the log as it is. -/
def DropState.has_room (log : List Bytes) (frame : Bytes) : Prop :=
  log.length < SYNC_LOG_CAP ∧ bytes_of log + frame.length ≤ SYNC_LOG_MAX_BYTES

/-! ## What was retained -/

/-- All that was ever retained, without a log that forgets. -/
structure FrameLedger where
  retained : List Bytes := []
  unknown : List Bytes := []

namespace FrameLedger

/-- The budget of unknown kinds, which is spent once, has room for the frame. -/
def affords (self : FrameLedger) (frame : Bytes) : Prop :=
  self.unknown.length < MAX_UNKNOWN_FRAMES ∧
    DropState.bytes_of self.unknown + frame.length ≤ UNKNOWN_FRAMES_MAX_BYTES

instance (self : FrameLedger) (frame : Bytes) : Decidable (self.affords frame) :=
  inferInstanceAs (Decidable (_ ∧ _))

def book (self : FrameLedger) : Retained → FrameLedger
  | .known frame => { self with retained := self.retained ++ [frame] }
  | .unknown frame =>
    if self.affords frame then
      { retained := self.retained ++ [frame], unknown := self.unknown ++ [frame] }
    else self

def of (calls : List Retained) : FrameLedger := calls.foldl book {}

end FrameLedger

section Laws

variable [Crypto]

namespace DropState

def retain_one (self : DropState) : Retained → DropState
  | .known frame => self.retain_frame frame
  | .unknown frame => self.retain_unknown_frame frame

def retain_all (self : DropState) (calls : List Retained) : DropState :=
  calls.foldl retain_one self

/-- The counters of the log and of the unknown kinds say what was retained. -/
structure Accounts (s : DropState) (ledger : FrameLedger) : Prop where
  bytes : s.sync_log_bytes = bytes_of s.sync_log
  length : s.sync_log.length ≤ SYNC_LOG_CAP
  size : s.sync_log_bytes ≤ SYNC_LOG_MAX_BYTES
  count : s.sync_log_start + s.sync_log.length = ledger.retained.length
  suffix : s.sync_log <:+ ledger.retained
  unknown_frames : s.unknown_frames = ledger.unknown.length
  unknown_bytes : s.unknown_frames_bytes = bytes_of ledger.unknown
  unknown_length : s.unknown_frames ≤ MAX_UNKNOWN_FRAMES
  unknown_size : s.unknown_frames_bytes ≤ UNKNOWN_FRAMES_MAX_BYTES

/-- Making room for the frame of the call subtracts nothing below zero, and takes
a frame off the front only while the new one does not fit. -/
structure MakesRoom (s : DropState) (call : Retained) : Prop where
  checked : evict_frames_checked call.frame.length s.sync_log s.sync_log_bytes s.sync_log_start =
    some (evict_frames call.frame.length s.sync_log s.sync_log_bytes s.sync_log_start)
  needed : ∃ k, (s.retain_one call).sync_log_start = s.sync_log_start + k ∧
    ∀ j < k, ¬ has_room (s.sync_log.drop j) call.frame

/-! ## One call -/

omit [Crypto] in
theorem evict_frames_checked_eq (size : Nat) (log : List Bytes) (start : Nat) :
    evict_frames_checked size log (bytes_of log) start =
      some (evict_frames size log (bytes_of log) start) := by
  induction log generalizing start with
  | nil => rfl
  | cons front rest ih =>
    have hcons : bytes_of (front :: rest) = front.length + bytes_of rest := by simp [bytes_of]
    have hrest : bytes_of (front :: rest) - front.length = bytes_of rest := by omega
    unfold evict_frames_checked evict_frames
    by_cases hfull : rest.length + 1 ≥ SYNC_LOG_CAP ∨
        bytes_of (front :: rest) + size > SYNC_LOG_MAX_BYTES
    · rw [if_pos hfull, if_pos hfull, if_pos (by omega), hrest]
      apply ih
    · rw [if_neg hfull, if_neg hfull]

/-- The counters after a frame was retained, whatever the unknown kinds count. -/
theorem Accounts.retain_frame {s : DropState} {ledger : FrameLedger} (h : s.Accounts ledger)
    {frame : Bytes} (hframe : frame.length ≤ MAX_MESSAGE_SIZE) :
    (s.retain_frame frame).Accounts { ledger with retained := ledger.retained ++ [frame] } := by
  have hmax : MAX_MESSAGE_SIZE ≤ SYNC_LOG_MAX_BYTES := by decide
  have hkept : (s.retain_frame frame).LogKept :=
    LogKept.retain_frame ⟨h.length, h.bytes, h.size⟩ (hframe.trans hmax)
  obtain ⟨k, hk, hlog, -, hstart, -, -⟩ := retain_frame_spec h.bytes frame
  have hcount := h.count
  refine ⟨hkept.bytes, hkept.length, hkept.size, ?_, ?_, h.unknown_frames, h.unknown_bytes,
    h.unknown_length, h.unknown_size⟩
  · simp only [hlog, hstart, List.length_append, List.length_drop, List.length_singleton]
    omega
  · rw [hlog]
    obtain ⟨gone, hgone⟩ := (List.drop_suffix k s.sync_log).trans h.suffix
    exact ⟨gone, by simp [← hgone]⟩

theorem Accounts.retain_one {s : DropState} {ledger : FrameLedger} (h : s.Accounts ledger)
    {call : Retained} (hcall : call.frame.length ≤ MAX_MESSAGE_SIZE) :
    (s.retain_one call).Accounts (ledger.book call) := by
  cases call with
  | known frame => exact h.retain_frame hcall
  | unknown frame =>
    have hframes := h.unknown_frames
    have hbytes := h.unknown_bytes
    by_cases hroom : ledger.affords frame
    · obtain ⟨hlength, hsize⟩ := id hroom
      have hcounted : Accounts { s with
          unknown_frames := s.unknown_frames + 1
          unknown_frames_bytes := s.unknown_frames_bytes + frame.length }
          { ledger with unknown := ledger.unknown ++ [frame] } := by
        refine ⟨h.bytes, h.length, h.size, h.count, h.suffix, ?_, ?_, ?_, ?_⟩
        · simp [hframes]
        · simp [hbytes, bytes_of]
        · simp only
          omega
        · simp only
          omega
      simp only [DropState.retain_one, FrameLedger.book, if_pos hroom, retain_unknown_frame]
      rw [if_neg (by omega)]
      exact hcounted.retain_frame hcall
    · simp only [DropState.retain_one, FrameLedger.book, if_neg hroom, retain_unknown_frame]
      unfold FrameLedger.affords at hroom
      rw [if_pos (by omega)]
      exact h

theorem Accounts.makes_room {s : DropState} {ledger : FrameLedger} (h : s.Accounts ledger)
    (call : Retained) : s.MakesRoom call := by
  refine ⟨by rw [h.bytes]; apply evict_frames_checked_eq, ?_⟩
  obtain ⟨k, -, -, -, hstart, hfull, -⟩ := retain_frame_spec h.bytes call.frame
  have hneeded : ∀ j < k, ¬ has_room (s.sync_log.drop j) call.frame := by
    intro j hj hroom
    obtain ⟨hlength, hsize⟩ := hroom
    rcases hfull j hj with hlong | hbig <;> omega
  cases call with
  | known frame => exact ⟨k, hstart, hneeded⟩
  | unknown frame =>
    simp only [DropState.retain_one, retain_unknown_frame]
    split
    · exact ⟨0, rfl, by simp⟩
    · exact ⟨k, hstart, hneeded⟩

/-! ## A run -/

theorem accounts_new (self_endpoint_id : EndpointId) :
    (DropState.new self_endpoint_id).Accounts {} := by
  constructor <;> simp [DropState.new, bytes_of]

theorem Accounts.retain_all {s : DropState} {ledger : FrameLedger} (h : s.Accounts ledger)
    (calls : List Retained) (hcalls : ∀ call ∈ calls, call.frame.length ≤ MAX_MESSAGE_SIZE) :
    (s.retain_all calls).Accounts (calls.foldl FrameLedger.book ledger) := by
  induction calls generalizing s ledger with
  | nil => exact h
  | cons call rest ih =>
    simp only [List.forall_mem_cons] at hcalls
    exact ih (h.retain_one hcalls.1) hcalls.2

/-- The counters of the log never drift from what was retained, and no frame goes
that need not. -/
theorem retention_never_drifts (self_endpoint_id : EndpointId) (calls : List Retained)
    (hcalls : ∀ call ∈ calls, call.frame.length ≤ MAX_MESSAGE_SIZE) :
    ((DropState.new self_endpoint_id).retain_all calls).Accounts (FrameLedger.of calls) ∧
      ∀ call, ((DropState.new self_endpoint_id).retain_all calls).MakesRoom call := by
  have h := (accounts_new self_endpoint_id).retain_all calls hcalls
  exact ⟨h, h.makes_room⟩

end DropState

end Laws

/-! ## Two frames -/

namespace two_frames

local instance : Crypto := Crypto.clear

def calls : List Retained := [.known [1, 2, 3], .unknown [4, 5]]

theorem retention_never_drifts_at_two :
    ((DropState.new (SecretKey.mk (.fill 32 1)).public).retain_all calls).Accounts
        ⟨[[1, 2, 3], [4, 5]], [[4, 5]]⟩ ∧
      ∀ call, ((DropState.new (SecretKey.mk (.fill 32 1)).public).retain_all calls).MakesRoom
        call :=
  DropState.retention_never_drifts (SecretKey.mk (.fill 32 1)).public calls (by decide)

end two_frames

end iroh_drop
