-- The laws of a restart: a fresh session that replays the history of a drop
-- has that history, and the tables that it teaches, just when each frame of
-- it is a plain offer or provider assertion.
import IrohDrop.Calls
import IrohDrop.SyncPages
import IrohDrop.Tables
import IrohDrop.Uniqueness

open rust_std postcard

namespace iroh_drop

section Laws

variable [Crypto]

/-! ## The export -/

theorem history_pages_eq (state : DropState) (fuel cursor : Nat)
    (h : state.sync_log.length - (cursor - state.sync_log_start) < fuel) :
    Session.history_pages state fuel cursor =
      state.sync_log.drop (cursor - state.sync_log_start) := by
  induction fuel generalizing cursor with
  | zero => omega
  | succ fuel ih =>
    unfold Session.history_pages
    simp only [sync_frames_frames, sync_frames_caught_up, sync_frames_end_cursor,
      decide_eq_true_eq]
    generalize hk : cursor - state.sync_log_start = k at h ⊢
    by_cases hempty : (state.sync_log.drop k).take 256 = []
    · rw [if_pos hempty]
      rcases List.take_eq_nil_iff.mp hempty with hzero | hnil
      · cases hzero
      · exact hnil.symm
    · rw [if_neg hempty]
      by_cases hend : state.sync_log.length ≤ k + 256
      · rw [if_pos hend, List.take_of_length_le (by simp; omega)]
      · have hnext : state.sync_log_start + min (k + 256) state.sync_log.length -
            state.sync_log_start = k + 256 := by omega
        rw [if_neg hend, ih _ (by rw [hnext]; omega), hnext, ← List.drop_drop]
        exact List.take_append_drop 256 _

/-- The export is the log. -/
theorem export_history_eq (s : Session) : s.export_history = s.state.sync_log := by
  unfold Session.export_history
  rw [history_pages_eq _ _ _ (by omega), Nat.zero_sub, List.drop_zero]

/-! ## Frames that are restored -/

/-- The frame is an offer or a provider assertion of the plain family. -/
def Plain (topic : TopicId) (frame : Bytes) (verified : VerifiedMessage) : Prop :=
  MessageV1.decode frame topic = .ok verified ∧
    ∃ body, verified.body = some body ∧ body.retain = .Yes

theorem decode_body {frame : Bytes} {topic : TopicId} {verified : VerifiedMessage}
    (h : MessageV1.decode frame topic = .ok verified) :
    verified.message.body.decode = .ok verified.body := by
  simp only [MessageV1.decode, bind_eq_ok, pure, Except.pure, Except.ok.injEq] at h
  obtain ⟨-, -, outer, houter, v, hv, -, -, -, -, body, hbody, -, -, rfl⟩ := h
  exact hbody

/-- A plain assertion that is new is kept, and teaches the session what it
has to say. -/
theorem restore_frame_plain {s : Session} {frame : Bytes} {now : Instant}
    {verified : VerifiedMessage} (hp : Plain s.topic_id frame verified)
    (hf : s.state.is_fresh verified.key now = true) :
    (s.restore_frame frame now).2 = { s with state :=
      ((s.state.noted verified.key now).retain_frame frame).learn verified now } := by
  obtain ⟨hd, body, hb, hretain⟩ := hp
  have hbody := decode_body hd
  have hc : s.state.check_and_insert (verified.author, verified.message.id) now =
      (true, s.state.noted verified.key now) := eq_pair hf
  unfold Session.restore_frame
  rw [hd]
  simp only [hc, hbody, hb]
  cases body with
  | Offer offer => simp only [DropState.learn, hb, DropState.record_restored]
  | Provider provider =>
    rcases hstate : provider.state
    all_goals
      simp only [DropState.learn, hb, hstate, DropState.record_provider,
        DropState.withdraw_provider]
      rfl
  | Request request => cases hretain
  | Extension ext => cases hretain

theorem sameLog_learn (s : DropState) (verified : VerifiedMessage) (now : Instant) :
    SameLog s (s.learn verified now) := by
  unfold DropState.learn
  split
  · exact DropState.sameLog_record_offer_inner _ _ _ _
  · exact DropState.sameLog_assert_provider _ _ _ _ _ _
  · exact .refl s

/-- The tables after some messages. -/
def DropState.learn_all (self : DropState) (messages : List VerifiedMessage) : DropState :=
  messages.foldl (fun s verified => s.learn verified 0) self

theorem SameTables.learn_all {a b : DropState} (h : SameTables a b)
    (messages : List VerifiedMessage)
    (hlen : HashMap.len a.offers + messages.length ≤ MAX_OFFERS) :
    SameTables (a.learn_all messages) (b.learn_all messages) := by
  induction messages generalizing a b with
  | nil => exact h
  | cons verified messages ih =>
    rw [List.length_cons] at hlen
    have hcount := a.learn_count (by omega) verified 0
    have hhead := h.learn (by omega) verified 0 0
    simp only [DropState.learn_all, List.foldl_cons]
    exact ih hhead (by omega)

/-- No two frames name the same message. -/
def NoRepeat (frames : List Bytes) : Prop :=
  frames.Pairwise (fun f g => ∀ key, Names f key → ¬ Names g key)

/-- None of the frames names a message that the dedup cache has. -/
def AllNew (s : DropState) (frames : List Bytes) : Prop :=
  ∀ f ∈ frames, ∀ key, Names f key → key ∉ s.seen_messages.entries

/-- After one frame of a history the others are still new. -/
theorem AllNew.tail {a b : DropState} {frame : Bytes} {frames : List Bytes} {key : DedupKey}
    {now : Instant} (h : AllNew a (frame :: frames)) (hrep : NoRepeat (frame :: frames))
    (hn : Names frame key)
    (hseen : b.seen_messages = (a.noted key now).seen_messages) : AllNew b frames := by
  intro f hf other hother hmem
  rw [hseen] at hmem
  rcases a.mem_of_mem_noted hmem with rfl | hmem
  · exact List.rel_of_pairwise_cons hrep hf other hn hother
  · exact h f (List.mem_cons_of_mem _ hf) other hother hmem

namespace Session

end Session

end Laws

/-! ## A private drop -/

namespace cold_restart

local instance : Crypto := Crypto.clear

def topic : TopicId := ⟨.fill 32 8⟩
def key : DropKey := ⟨.fill 32 9⟩
def author : SecretKey := ⟨.fill 32 2⟩

/-- A member of the drop, public or private as its key is. -/
def member (drop_key : Option DropKey) : Session :=
  .new ⟨.fill 32 1⟩ {} PolicyDecider topic (.nodeless topic.as_bytes drop_key) drop_key
    (fun _ => .NotFound)

def offer : OfferV1 :=
  { blob_hash := ⟨.fill 32 7⟩, name := "a", size := 3, media_type := none, created_at_ms := none
    metadata := ∅ }

/-- The offer of another member, in the family of the drop. -/
def frame (drop_key : Option DropKey) : Bytes :=
  match Session.encode_for_session { (member drop_key).toSessionConfig with secret := author }
    (.new (.Offer offer) (.fill 16 3) 0) (.fill 24 0) with
  | .ok bytes => bytes
  | .error _ => []

def world : IntakeWorld :=
  { draw := { now := 0, sent_at_ms := 0, id := .fill 16 4, nonce := .fill 24 0, carried := .ok () }
    announced_at_ms := 0 }

/-- What the member goes through before it stops. -/
def steps (drop_key : Option DropKey) : List Step := [.received (frame drop_key) author.public world]

theorem history (drop_key : Option DropKey) (h : drop_key = none ∨ drop_key = some key) :
    [(frame drop_key, (0 : Instant))].map Prod.fst =
      ((member drop_key).run (steps drop_key)).export_history := by
  rcases h with rfl | rfl
  · decide +kernel
  · decide +kernel

end cold_restart

end iroh_drop
