-- The law of replays: the log holds each message once, as long as the dedup
-- cache remembers the messages that the log holds.
import IrohDrop.History

open rust_std postcard

namespace iroh_drop

section Laws

variable [Crypto]

/-! ## The message of a frame -/

/-- The author and the id that a frame names on the outside. -/
def Names (frame : Bytes) (key : DedupKey) : Prop :=
  ∃ outer message, take_from_bytes SignedMessageV1.codec "frame" frame = .ok outer ∧
    take_from_bytes MessageV1.codec "envelope" outer.payload = .ok message ∧
    key.1.as_bytes = outer.author ∧ key.2 = message.id

theorem Names.unique {frame : Bytes} {key key' : DedupKey} (h : Names frame key)
    (h' : Names frame key') : key = key' := by
  obtain ⟨outer, message, houter, hmessage, hauthor, hid⟩ := h
  obtain ⟨outer', message', houter', hmessage', hauthor', hid'⟩ := h'
  rw [houter] at houter'
  cases houter'
  rw [hmessage] at hmessage'
  cases hmessage'
  have hid : key.2 = key'.2 := hid.trans hid'.symm
  have hauthor : key.1.as_bytes = key'.1.as_bytes := hauthor.trans hauthor'.symm
  refine Prod.ext ?_ hid
  cases hkey : key.1
  cases hkey' : key'.1
  rw [hkey, hkey'] at hauthor
  simpa using hauthor

/-- What verifies names its author and its id. -/
theorem verify_outer_names {outer : SignedMessageV1} {domain : Bytes} {topic : TopicId}
    {verified : VerifiedMessage} (h : MessageV1.verify_outer outer domain topic = .ok verified) :
    take_from_bytes MessageV1.codec "envelope" outer.payload = .ok verified.message ∧
      verified.author.as_bytes = outer.author := by
  simp only [MessageV1.verify_outer, MessageV1.verify_input, bind_eq_ok, ok_or_eq_ok, pure,
    Except.pure, Except.ok.injEq] at h
  obtain ⟨-, -, author, hauthor, -, -, -, -, message, hmessage, rfl⟩ := h
  refine ⟨hmessage, ?_⟩
  unfold EndpointId.from_bytes at hauthor
  split at hauthor
  · cases hauthor
    rfl
  · cases hauthor

theorem verify_diagnosed_ok {outer : SignedMessageV1} {domain : Bytes} {others : List Bytes}
    {topic : TopicId} {verified : VerifiedMessage}
    (h : MessageV1.verify_diagnosed outer domain others topic = .ok verified) :
    MessageV1.verify_outer outer domain topic = .ok verified := by
  unfold MessageV1.verify_diagnosed at h
  split at h
  · rename_i v hv
    cases h
    exact hv
  · split at h <;> cases h
  · cases h

theorem decode_names {frame : Bytes} {topic : TopicId} {verified : VerifiedMessage}
    (h : MessageV1.decode frame topic = .ok verified) : Names frame verified.key := by
  simp only [MessageV1.decode, bind_eq_ok, pure, Except.pure, Except.ok.injEq] at h
  obtain ⟨-, -, outer, houter, v, hv, -, -, -, -, -, -, -, -, rfl⟩ := h
  obtain ⟨hmessage, hauthor⟩ := verify_outer_names (verify_diagnosed_ok hv)
  exact ⟨outer, v.message, houter, hmessage, hauthor, rfl⟩

/-- Whatever the session reads names its message on the outside. -/
theorem decode_for_session_names {c : SessionConfig} {frame : Bytes} {verified : VerifiedMessage}
    (h : Session.decode_for_session c frame = .ok verified) : Names frame verified.key := by
  unfold Session.decode_for_session at h
  split at h
  · simp only [MessageV1.decode_sealed, bind_eq_ok, pure, Except.pure, Except.ok.injEq] at h
    obtain ⟨-, -, outer, houter, v, hv, -, -, -, -, -, -, -, -, -, -, -, -, -, -, -, -, rfl⟩ := h
    obtain ⟨hmessage, hauthor⟩ := verify_outer_names (verify_diagnosed_ok hv)
    exact ⟨outer, v.message, houter, hmessage, hauthor, rfl⟩
  · simp only [MessageV1.verify_sealed_outer, bind_eq_ok, pure, Except.pure,
      Except.ok.injEq] at h
    obtain ⟨-, -, outer, houter, v, hv, -, -, -, -, -, -, rfl⟩ := h
    obtain ⟨hmessage, hauthor⟩ := verify_outer_names hv
    exact ⟨outer, v.message, houter, hmessage, hauthor, rfl⟩
  · exact decode_names h

theorem sign_frame_names {domain : Bytes} {secret : SecretKey} {topic : TopicId} {m : MessageV1}
    (h : (SignedMessageV1.codec.write (sign_frame domain secret topic
      (MessageV1.codec.write m))).length ≤ MAX_MESSAGE_SIZE) :
    Names (SignedMessageV1.codec.write (sign_frame domain secret topic (MessageV1.codec.write m)))
      (secret.public, m.id) := by
  have hmax : MAX_MESSAGE_SIZE < 2 ^ 64 := by decide
  rw [sign_frame_write_length] at h
  have hm := m.write_length
  exact ⟨_, m, read_sign_frame _ _ _ _ (by omega), m.read_write (by omega), rfl, rfl⟩

/-- A frame of this session names the session and the id of the message. -/
theorem encode_for_session_names {c : SessionConfig} {m : MessageV1} {nonce : FixedBytes 24}
    {frame : Bytes} (h : Session.encode_for_session c m nonce = .ok frame) :
    Names frame (c.secret.public, m.id) := by
  unfold Session.encode_for_session at h
  split at h
  · obtain ⟨-, ciphertext, -, rfl, hlen⟩ := MessageV1.encode_sealed_eq_ok.mp h
    exact sign_frame_names hlen
  · cases h
  · obtain ⟨rfl, hlen⟩ := MessageV1.encode_eq_ok.mp h
    exact sign_frame_names hlen

/-! ## The messages of the log -/

/-- The verified author and the id of a frame that the session reads. -/
def frame_key (c : SessionConfig) (frame : Bytes) : Option DedupKey :=
  match Session.decode_for_session c frame with
  | .ok verified => some verified.key
  | .error _ => none

theorem frame_key_names {c : SessionConfig} {frame : Bytes} {key : DedupKey}
    (h : frame_key c frame = some key) : Names frame key := by
  unfold frame_key at h
  split at h
  · rename_i verified hd
    cases h
    exact decode_for_session_names hd
  · cases h

namespace Session

/-- The messages of the log, oldest first. -/
def log_keys (self : Session) : List DedupKey :=
  self.state.sync_log.filterMap (frame_key self.toSessionConfig)

theorem log_keys_congr {a b : Session} (hc : b.toSessionConfig = a.toSessionConfig)
    (hl : b.state.sync_log = a.state.sync_log) : b.log_keys = a.log_keys := by
  unfold log_keys
  rw [hc, hl]

/-- What a frame more does to the messages of the log, when its message is
none of them. -/
theorem log_keys_push {a b : Session} {frame : Bytes} {key : DedupKey} {k : Nat}
    (hc : b.toSessionConfig = a.toSessionConfig)
    (hl : b.state.sync_log = a.state.sync_log.drop k ++ [frame]) (hn : Names frame key)
    (hu : a.log_keys.Nodup) (hnew : key ∉ a.log_keys) :
    b.log_keys.Nodup ∧ ∀ x ∈ b.log_keys, x ∈ a.log_keys ∨ x = key := by
  have hsub : ((a.state.sync_log.drop k).filterMap (frame_key a.toSessionConfig)).Sublist
      a.log_keys := (List.drop_sublist k _).filterMap _
  have hone : ∀ x ∈ [frame].filterMap (frame_key a.toSessionConfig), x = key := by
    intro x hx
    obtain ⟨f, hf, hkey⟩ := List.mem_filterMap.mp hx
    rw [List.mem_singleton.mp hf] at hkey
    exact (frame_key_names hkey).unique hn
  have hkeys : b.log_keys = (a.state.sync_log.drop k).filterMap (frame_key a.toSessionConfig) ++
      [frame].filterMap (frame_key a.toSessionConfig) := by
    unfold log_keys
    rw [hc, hl, List.filterMap_append]
  rw [hkeys]
  constructor
  · rw [List.nodup_append]
    refine ⟨hu.sublist hsub, ?_, ?_⟩
    · rcases hkey : frame_key a.toSessionConfig frame with _ | x <;> simp [hkey]
    · intro x hx y hy hxy
      rw [hxy, hone y hy] at hx
      exact hnew (hsub.subset hx)
  · intro x hx
    rcases List.mem_append.mp hx with hx | hx
    · exact .inl (hsub.subset hx)
    · exact .inr (hone x hx)

/-! ## Frames of its own -/

/-- The frames of a stretch bring messages under the ids of the stretch only,
each once. -/
theorem log_keys_says {a b : Session} {ids : List (FixedBytes 16)} (h : Says a ids b)
    (hu : a.log_keys.Nodup) (hids : ids.Nodup)
    (hnew : ∀ id ∈ ids, (a.self_id, id) ∉ a.log_keys) :
    b.log_keys.Nodup ∧
      ∀ x ∈ b.log_keys, x ∈ a.log_keys ∨ ∃ id ∈ ids, x = (a.self_id, id) := by
  induction h with
  | refl => exact ⟨hu, fun x hx => .inl hx⟩
  | quiet _ hq ih =>
    rw [log_keys_congr hq.config hq.log.sync_log]
    exact ih hids hnew
  | fewer _ hsub ih =>
    obtain ⟨hnodup, hmem⟩ := ih (hids.sublist hsub) (fun id hid => hnew id (hsub.subset hid))
    refine ⟨hnodup, fun x hx => (hmem x hx).imp_right ?_⟩
    rintro ⟨id, hid, rfl⟩
    exact ⟨id, hsub.subset hid, rfl⟩
  | @said ids b msg retain draw hsaid ih =>
    rw [List.nodup_append] at hids
    obtain ⟨hnodup, hmem⟩ := ih hids.1 (fun id hid => hnew id (List.mem_append_left _ hid))
    have hmem' : ∀ x ∈ b.log_keys,
        x ∈ a.log_keys ∨ ∃ id ∈ ids ++ [msg.id], x = (a.self_id, id) := by
      intro x hx
      refine (hmem x hx).imp_right ?_
      rintro ⟨id, hid, rfl⟩
      exact ⟨id, List.mem_append_left _ hid, rfl⟩
    have hself : b.self_id = a.self_id :=
      congrArg (fun c : SessionConfig => c.secret.public) hsaid.accounts.1
    unfold broadcast_signed
    rcases henc : encode_for_session b.toSessionConfig msg draw.nonce with e | frame
    · exact ⟨hnodup, hmem'⟩
    · simp only
      generalize hs : (transmit _ frame draw).2 = b'
      have hconfig : b'.toSessionConfig = b.toSessionConfig := by rw [← hs]; rfl
      have hlog : b'.state.sync_log =
          ((b.state.check_and_insert (b.self_id, msg.id) draw.now).2.retain retain
            frame).sync_log := by
        rw [← hs]
        rfl
      rcases DropState.retain_log (b.state.check_and_insert (b.self_id, msg.id) draw.now).2 retain
        frame with hsame | ⟨-, k, hpush⟩
      · rw [log_keys_congr hconfig (hlog.trans hsame)]
        exact ⟨hnodup, hmem'⟩
      · have hfresh : (b.self_id, msg.id) ∉ b.log_keys := by
          rw [hself]
          intro hx
          rcases hmem _ hx with hx | ⟨id, hid, heq⟩
          · exact hnew msg.id (List.mem_append_right _ (List.mem_singleton_self _)) hx
          · rw [Prod.mk.injEq] at heq
            exact hids.2.2 id hid msg.id (List.mem_singleton_self _) heq.2.symm
        obtain ⟨hnodup', hpushed⟩ := log_keys_push hconfig (hlog.trans hpush)
          (encode_for_session_names henc) hnodup hfresh
        refine ⟨hnodup', fun x hx => ?_⟩
        rcases hpushed x hx with hx | rfl
        · exact hmem' x hx
        · refine .inr ⟨msg.id, List.mem_append_right _ (List.mem_singleton_self _), ?_⟩
          rw [← hself]
          rfl

/-! ## Frames of others -/

/-- The dedup cache remembers the message, if the log holds it: a frame of
this message that is let in and would be kept does not pass for new. -/
def RemembersFrame (s : Session) (verified : VerifiedMessage) (peer : EndpointId) (frame : Bytes)
    (now : Instant) : Prop :=
  verified.key ∈ s.log_keys → s.admits peer now = true →
    s.state.keeps (retainable verified.body) frame → s.state.is_fresh verified.key now = false

theorem log_keys_handled {s s' : Session} {verified : VerifiedMessage} {peer : EndpointId}
    {frame : Bytes} {now : Instant} (h : s.Handled verified peer frame now s')
    (hd : decode_for_session s.toSessionConfig frame = .ok verified) (hu : s.log_keys.Nodup)
    (hr : s.RemembersFrame verified peer frame now) : s'.log_keys.Nodup := by
  cases h with
  | passed config seen =>
    have hlog : s'.state.sync_log = s.state.sync_log := by
      rcases seen with hlog | hlog
      · exact hlog.sync_log
      · exact hlog.sync_log
    rw [log_keys_congr config hlog]
    exact hu
  | taken config admitted fresh log =>
    rcases (s.state.noted verified.key now).retain_log (retainable verified.body) frame
      with hsame | ⟨hkeeps, k, hpush⟩
    · rw [log_keys_congr config (log.sync_log.trans hsame)]
      exact hu
    · have hnew : verified.key ∉ s.log_keys := by
        intro hmem
        have hknown := hr hmem admitted ((DropState.keeps_noted _ _ _ _ _).mp hkeeps)
        rw [fresh] at hknown
        cases hknown
      exact (log_keys_push config (log.sync_log.trans hpush) (decode_for_session_names hd) hu
        hnew).1

/-! ## Restored frames -/

/-- The same of a frame of persisted history. -/
def RemembersRestored (s : Session) (frame : Bytes × Instant) : Prop :=
  ∀ verified, MessageV1.decode frame.1 s.topic_id = .ok verified → verified.key ∈ s.log_keys →
    s.state.is_fresh verified.key frame.2 = false

/-- The session after a frame of persisted history. -/
def after_restore (s : Session) (frame : Bytes × Instant) : Session :=
  (s.restore_frame frame.1 frame.2).2

theorem log_keys_after_restore {s : Session} {frame : Bytes × Instant} (hu : s.log_keys.Nodup)
    (hr : s.RemembersRestored frame) : (s.after_restore frame).log_keys.Nodup := by
  have h := s.restored frame.1 frame.2
  change s.Restored frame.1 frame.2 (s.after_restore frame) at h
  generalize s.after_restore frame = s' at h ⊢
  cases h with
  | skipped => exact hu
  | noted verified decoded config sent log =>
    rw [log_keys_congr config log.sync_log]
    exact hu
  | kept verified decoded _ fresh config sent log =>
    obtain ⟨k, hpush⟩ := (s.state.noted verified.key frame.2).retain_frame_log frame.1
    refine (log_keys_push config (log.sync_log.trans hpush) (decode_names decoded) hu ?_).1
    intro hmem
    have hknown := hr verified decoded hmem
    rw [fresh] at hknown
    cases hknown

theorem restore_history_run (s : Session) (frames : List (Bytes × Instant)) :
    (s.restore_history frames).2 = runs.run after_restore s frames := by
  induction frames generalizing s with
  | nil => rfl
  | cons frame frames ih => exact ih _

end Session

/-! ## Steps -/

/-- In this step the dedup cache remembers each message that the log holds,
and the random generator gives ids that none of them has. -/
structure Remembers (s : Session) (i : Step) : Prop where
  intake : ∀ frame peer world verified, i.intake = some (frame, peer, world) →
    Session.decode_for_session s.toSessionConfig frame = .ok verified →
    s.RemembersFrame verified peer frame world.draw.now
  restored : ∀ frames, i = .restore_history frames →
    runs.Meets Session.after_restore Session.RemembersRestored s frames
  ids : (i.ids s).Nodup
  new_ids : ∀ id ∈ i.ids s, (s.self_id, id) ∉ s.log_keys

theorem log_keys_step {s : Session} {i : Step} (hu : s.log_keys.Nodup) (hr : Remembers s i) :
    (s.step i).log_keys.Nodup := by
  generalize hs' : s.step i = s'
  have hstepped := stepped s i
  rw [hs'] at hstepped
  cases hstepped with
  | spoke spoke => exact (Session.log_keys_says spoke hu hr.ids hr.new_ids).1
  | @took _ frame peer world verified hi hd =>
    exact Session.log_keys_handled (s.handled verified peer frame world) hd hu
      (hr.intake frame peer world verified hi hd)
  | restored frames =>
    rw [Session.restore_history_run]
    have hone : ∀ (s : Session) (frame : Bytes × Instant), s.log_keys.Nodup →
        s.RemembersRestored frame → (s.after_restore frame).log_keys.Nodup :=
      fun s frame hu hr => Session.log_keys_after_restore hu hr
    exact runs.invariant_of_meets hone hu (hr.restored frames rfl)
  | fetches hash => exact hu
  | fetched j event =>
    obtain ⟨s₁, hspoke, hconfig, -, hlog⟩ := s.fetch_event_spoke j event
    rw [Session.log_keys_congr hconfig hlog.sync_log]
    exact (Session.log_keys_says hspoke hu hr.ids hr.new_ids).1

/-! ## Pulls of what is known -/

/-- The log and the budget of unknown frames are as they were. -/
structure SameFrames (a b : DropState) : Prop where
  sync_log : b.sync_log = a.sync_log
  sync_log_start : b.sync_log_start = a.sync_log_start
  unknown_frames : b.unknown_frames = a.unknown_frames
  unknown_frames_bytes : b.unknown_frames_bytes = a.unknown_frames_bytes

namespace SameFrames

theorem refl (s : DropState) : SameFrames s s := ⟨rfl, rfl, rfl, rfl⟩

theorem trans {a b c : DropState} (hab : SameFrames a b) (hbc : SameFrames b c) :
    SameFrames a c :=
  ⟨hbc.1.trans hab.1, hbc.2.trans hab.2, hbc.3.trans hab.3, hbc.4.trans hab.4⟩

theorem of_sameLog {a b : DropState} (h : SameLog a b) : SameFrames a b :=
  ⟨h.sync_log, h.sync_log_start, h.unknown_frames, h.unknown_frames_bytes⟩

theorem noted (s : DropState) (key : DedupKey) (now : Instant) : SameFrames s (s.noted key now) :=
  ⟨rfl, rfl, rfl, rfl⟩

end SameFrames

/-- A frame that the neighbor's log held, as a pull replays it. -/
def replay_step (p : Bytes × EndpointId × IntakeWorld) : Step := .replayed p.1 p.2.1 p.2.2

/-- A frame of the log, replayed to a cache that remembers it, changes
nothing in the log. -/
theorem replayed_known {s : Session} {p : Bytes × EndpointId × IntakeWorld}
    (hmem : p.1 ∈ s.state.sync_log) (hr : Remembers s (replay_step p)) :
    (s.step (replay_step p)).toSessionConfig = s.toSessionConfig ∧
      SameFrames s.state (s.step (replay_step p)).state := by
  obtain ⟨frame, peer, world⟩ := p
  simp only [replay_step, Session.step, Session.replay]
  split
  · exact ⟨rfl, .refl _⟩
  rcases hd : Session.decode_for_session s.toSessionConfig frame with e | verified
  · exact ⟨rfl, .refl _⟩
  have hkey : verified.key ∈ s.log_keys := by
    refine List.mem_filterMap.mpr ⟨frame, hmem, ?_⟩
    unfold frame_key
    rw [hd]
  have hremembers := hr.intake frame peer world verified rfl hd hkey
  simp only
  generalize hs' : s.handle_message verified peer frame world = s'
  have hhandled := s.handled verified peer frame world
  rw [hs'] at hhandled
  cases hhandled with
  | passed config seen =>
    refine ⟨config, ?_⟩
    rcases seen with hlog | hlog
    · exact .of_sameLog hlog
    · exact (SameFrames.noted s.state verified.key world.draw.now).trans (.of_sameLog hlog)
  | taken config admitted fresh log =>
    refine ⟨config, ?_⟩
    have hkeeps : ¬ (s.state.noted verified.key world.draw.now).keeps
        (Session.retainable verified.body) frame := by
      intro hkeeps
      have hknown := hremembers admitted ((DropState.keeps_noted _ _ _ _ _).mp hkeeps)
      rw [fresh] at hknown
      cases hknown
    rw [DropState.retain_of_not_keeps hkeeps] at log
    exact (SameFrames.noted s.state verified.key world.draw.now).trans (.of_sameLog log)

theorem pull_known {s : Session} {pulled : List (Bytes × EndpointId × IntakeWorld)}
    (hmem : ∀ p ∈ pulled, p.1 ∈ s.state.sync_log)
    (hr : runs.Meets Session.step Remembers s (pulled.map replay_step)) :
    SameFrames s.state (s.run (pulled.map replay_step)).state := by
  induction pulled generalizing s with
  | nil => exact .refl _
  | cons p pulled ih =>
    obtain ⟨hhead, hrest⟩ := hr
    obtain ⟨-, hsame⟩ := replayed_known (hmem p (List.mem_cons_self ..)) hhead
    refine hsame.trans (ih ?_ hrest)
    intro q hq
    rw [hsame.sync_log]
    exact hmem q (List.mem_cons_of_mem _ hq)

/-! ## Whole runs -/

/-- In a run in which the dedup cache remembers the messages of the log, the
log holds each of them once, and a pull of frames that the log holds leaves
it as it is. -/
theorem log_holds_each_message_once (secret : SecretKey) (policy : DropPolicy)
    (decider : OfferDecider) (topic_id : TopicId) (ticket : DropTicket) (drop_key : Option DropKey)
    (store : BlobHash → BlobStatus) (steps : List Step)
    (hr : runs.Meets Session.step Remembers
      (.new secret policy decider topic_id ticket drop_key store) steps) :
    let s := (Session.new secret policy decider topic_id ticket drop_key store).run steps
    s.log_keys.Nodup ∧
      ∀ pulled : List (Bytes × EndpointId × IntakeWorld),
        (∀ p ∈ pulled, p.1 ∈ s.state.sync_log) →
        runs.Meets Session.step Remembers s (pulled.map replay_step) →
        SameFrames s.state (s.run (pulled.map replay_step)).state := by
  intro s
  have hstep : ∀ (s : Session) (i : Step), s.log_keys.Nodup → Remembers s i →
      (s.step i).log_keys.Nodup := fun s i hu hr => log_keys_step hu hr
  refine ⟨runs.invariant_of_meets hstep ?_ hr, fun pulled hmem hpull => pull_known hmem hpull⟩
  exact List.nodup_nil

end Laws

/-! ## A message that is forgotten -/

namespace forgotten

local instance : Crypto := Crypto.clear

def topic : TopicId := ⟨.fill 32 8⟩
def author : SecretKey := ⟨.fill 32 2⟩

def member : Session :=
  .new ⟨.fill 32 1⟩ {} PolicyDecider topic (.nodeless topic.as_bytes none) none (fun _ => .NotFound)

/-- A provider assertion of another member. -/
def frame : Bytes :=
  match (MessageV1.new (.Provider ⟨⟨.fill 32 7⟩, .Available, some 0⟩) (.fill 16 3) 0).encode author
    topic with
  | .ok bytes => bytes
  | .error _ => []

def world (secs : Nat) : IntakeWorld :=
  { draw := { now := Duration.from_secs secs, sent_at_ms := 0, id := .fill 16 4, nonce := .fill 24 0
              carried := .ok () }
    announced_at_ms := 0 }

/-- The member once it has received the frame. -/
def informed : Session := member.run [.received frame author.public (world 0)]

/-- The frame is received, and pulled again ten minutes later: the log has
its message twice. -/
theorem a_message_is_kept_twice :
    informed.state.sync_log = [frame] ∧
      (informed.run [.replayed frame author.public (world 601)]).state.sync_log = [frame, frame] ∧
      ¬ (informed.run [.replayed frame author.public (world 601)]).log_keys.Nodup := by
  decide +kernel

theorem remembers_intake {s : Session} {i : Step} {frame : Bytes} {peer : EndpointId}
    {world : IntakeWorld} (hi : i.intake = some (frame, peer, world))
    (h : (match Session.decode_for_session s.toSessionConfig frame with
      | .ok verified => decide (verified.key ∉ s.log_keys) ||
          !s.state.is_fresh verified.key world.draw.now
      | .error _ => true) = true) : Remembers s i := by
  have hids : i.ids s = [] := by
    cases i <;> first | rfl | cases hi
  refine ⟨?_, ?_, by rw [hids]; exact List.nodup_nil, by simp [hids]⟩
  · intro frame' peer' world' verified hi' hd hmem _ _
    rw [hi] at hi'
    cases hi'
    rw [hd] at h
    simpa [hmem] using h
  · rintro frames rfl
    cases hi

/-- The law at work on a frame that is pulled again at once. -/
theorem log_holds_each_message_once_at_member :
    informed.log_keys.Nodup ∧ SameFrames informed.state
      (informed.run ([(frame, author.public, world 5)].map replay_step)).state := by
  have hlog : informed.state.sync_log = [frame] := by decide +kernel
  have hfirst : Remembers member (.received frame author.public (world 0)) :=
    remembers_intake rfl (by decide +kernel)
  have hsecond : Remembers informed (.replayed frame author.public (world 5)) :=
    remembers_intake rfl (by decide +kernel)
  have h : informed.log_keys.Nodup ∧ ∀ pulled : List (Bytes × EndpointId × IntakeWorld),
      (∀ p ∈ pulled, p.1 ∈ informed.state.sync_log) →
      runs.Meets Session.step Remembers informed (pulled.map replay_step) →
      SameFrames informed.state (informed.run (pulled.map replay_step)).state := by
    unfold informed member
    exact log_holds_each_message_once _ _ _ _ _ _ _ _ ⟨hfirst, trivial⟩
  refine ⟨h.1, h.2 [(frame, author.public, world 5)] ?_ ?_⟩
  · intro p hp
    rw [List.mem_singleton.mp hp, hlog]
    simp only [List.mem_singleton]
  · simp only [List.map, replay_step, runs.Meets, and_true]
    exact hsecond

end forgotten

end iroh_drop
