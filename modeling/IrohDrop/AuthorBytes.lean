-- What relays can do to history: what it says in an honest author's name is
-- what the author said, and it says so in the author's own bytes as long as the
-- copies that are taken are written the one way that the encoder writes them.
import IrohDrop.Signatures
import IrohDrop.Restart
import IrohDrop.Speech
import IrohDrop.SyncPages

open rust_std postcard

namespace iroh_drop

/-- The bytes are what their frame is written as: no byte follows it, and no
length is spelled longer than it needs to be. -/
def Canonical (bytes : Bytes) : Prop :=
  ∃ outer, take_from_bytes SignedMessageV1.codec "frame" bytes = .ok outer ∧
    SignedMessageV1.codec.write outer = bytes

section Laws

variable [Crypto]

/-! ## Honest authors -/

/-- An ideal signature scheme in which an author makes one signature of an
input, and each thing it signed became a frame of its own. -/
structure StrictSignatures (secret : SecretKey) (signed : List Signed) : Prop
    extends IdealSignatures secret signed where
  exact : ∀ input signature, Crypto.verify secret.public.as_bytes input signature = true →
    signature = Crypto.sign secret input
  made : ∀ s ∈ signed, ∃ frame, s.Made secret frame

/-- The topic that something was signed for. -/
def Signed.topic_id : Signed → Option TopicId
  | .encode _ topic | .encode_sealed _ _ topic _ _ => some topic
  | .legacy _ => none

/-- The bytes are a frame that the author encoded for the topic. -/
def EncodedFor (secret : SecretKey) (signed : List Signed) (topic : TopicId) (bytes : Bytes) :
    Prop :=
  ∃ s ∈ signed, s.topic_id = some topic ∧ s.Made secret bytes

/-- Some decoder takes the bytes for a frame of the author. -/
def InNameOf (secret : SecretKey) (topic : TopicId) (bytes : Bytes) : Prop :=
  ∃ (decoder : Decoder) (verified : VerifiedMessage),
    decoder.run bytes topic = .ok verified ∧ verified.author = secret.public

theorem canonical_sign_frame {domain : Bytes} {secret : SecretKey} {topic : TopicId}
    {payload bytes : Bytes}
    (h : bytes = SignedMessageV1.codec.write (sign_frame domain secret topic payload))
    (hlen : bytes.length ≤ MAX_MESSAGE_SIZE) : Canonical bytes := by
  have hmax : MAX_MESSAGE_SIZE < 2 ^ 64 := by decide
  have hlength := sign_frame_write_length domain secret topic payload
  rw [← h] at hlength
  have hread := read_sign_frame domain secret topic payload (by omega)
  rw [← h] at hread
  exact ⟨_, hread, h.symm⟩

theorem canonical_of_made {secret : SecretKey} {s : Signed} {topic : TopicId} {bytes : Bytes}
    (htopic : s.topic_id = some topic) (h : s.Made secret bytes) : Canonical bytes := by
  cases s with
  | encode message topic' =>
    obtain ⟨heq, hlen⟩ := MessageV1.encode_eq_ok.mp h
    exact canonical_sign_frame heq hlen
  | encode_sealed message drop_key topic' nonce ciphertext =>
    obtain ⟨-, ciphertext', -, heq, hlen⟩ := MessageV1.encode_sealed_eq_ok.mp h.1
    exact canonical_sign_frame heq hlen
  | legacy payload => cases htopic

/-- What a session encodes is written as its frame. -/
theorem canonical_encoded {c : SessionConfig} {m : MessageV1} {nonce : FixedBytes 24}
    {frame : Bytes} (h : Session.encode_for_session c m nonce = .ok frame) : Canonical frame := by
  unfold Session.encode_for_session at h
  split at h
  · obtain ⟨-, ciphertext, -, heq, hlen⟩ := MessageV1.encode_sealed_eq_ok.mp h
    exact canonical_sign_frame heq hlen
  · cases h
  · obtain ⟨heq, hlen⟩ := MessageV1.encode_eq_ok.mp h
    exact canonical_sign_frame heq hlen

/-- A signature of the author is the one that it made. -/
theorem outer_is_signed {secret : SecretKey} {signed : List Signed}
    (h : StrictSignatures secret signed) {domain : Bytes} {topic : TopicId} {bytes : Bytes}
    {outer : SignedMessageV1} {signature : FixedBytes 64}
    (hvouches : Vouches bytes secret.public.as_bytes (signing_input domain topic) outer signature) :
    outer = sign_frame domain secret topic outer.payload := by
  obtain ⟨-, hauthor, hsig, hverify⟩ := hvouches
  rcases outer with ⟨author, sig, payload⟩
  obtain rfl : author = _ := hauthor
  obtain rfl : sig = _ := hsig
  rw [h.exact _ _ hverify]
  rfl

/-- What was signed for a frame is what the author made that frame of. -/
theorem made_of_signed {secret : SecretKey} {signed : List Signed}
    (h : StrictSignatures secret signed) {s : Signed} (hs : s ∈ signed) {family : Family}
    {topic : TopicId} {outer : SignedMessageV1}
    (hinput : s.input = signing_input family.domain topic outer.payload)
    (houter : outer = sign_frame family.domain secret topic outer.payload) :
    s.topic_id = some topic ∧ s.Made secret (SignedMessageV1.codec.write outer) := by
  obtain ⟨frame, hmade⟩ := h.made s hs
  cases s with
  | encode message topic' =>
    have hsame : signing_input Family.Public.domain topic' (MessageV1.codec.write message) =
        signing_input family.domain topic outer.payload := hinput
    obtain ⟨rfl, rfl, hpayload⟩ := signing_input_injective hsame
    have heq := (MessageV1.encode_eq_ok.mp hmade).1
    rw [hpayload] at heq
    obtain rfl : frame = SignedMessageV1.codec.write outer := houter ▸ heq
    exact ⟨rfl, hmade⟩
  | encode_sealed message drop_key topic' nonce ciphertext =>
    have hsame : signing_input Family.Sealed.domain topic' (MessageV1.codec.write
        (sealed_envelope message (nonce.bytes ++ ciphertext))) =
        signing_input family.domain topic outer.payload := hinput
    obtain ⟨rfl, rfl, hpayload⟩ := signing_input_injective hsame
    obtain ⟨-, ciphertext', hencrypt, heq, -⟩ := MessageV1.encode_sealed_eq_ok.mp hmade.1
    cases hmade.2.symm.trans hencrypt
    rw [hpayload] at heq
    obtain rfl : frame = SignedMessageV1.codec.write outer := houter ▸ heq
    exact ⟨rfl, hmade⟩
  | legacy payload => exact absurd hinput (legacy_input_ne family topic payload outer.payload)

/-- Two spellings of a frame: the same signed message stands at their heads, so
that no decoder can tell them apart. -/
structure SaysTheSame (bytes original : Bytes) : Prop where
  outer : take_from_bytes SignedMessageV1.codec "frame" bytes =
    take_from_bytes SignedMessageV1.codec "frame" original
  decoders : ∀ (decoder : Decoder) (topic : TopicId),
    decoder.run bytes topic = decoder.run original topic

theorem saysTheSame_of_outer {bytes original : Bytes}
    (h : take_from_bytes SignedMessageV1.codec "frame" bytes =
      take_from_bytes SignedMessageV1.codec "frame" original)
    (hbytes : bytes.length ≤ MAX_MESSAGE_SIZE) (horiginal : original.length ≤ MAX_MESSAGE_SIZE) :
    SaysTheSame bytes original := by
  refine ⟨h, fun decoder topic => ?_⟩
  cases decoder with
  | decode =>
    simp only [Decoder.run, MessageV1.decode, ensure, if_pos hbytes, if_pos horiginal, h]
  | decode_sealed drop_key =>
    simp only [Decoder.run, MessageV1.decode_sealed, ensure, if_pos hbytes, if_pos horiginal, h]
  | verify_sealed_outer =>
    simp only [Decoder.run, MessageV1.verify_sealed_outer, ensure, if_pos hbytes,
      if_pos horiginal, h]

theorem decoder_length {decoder : Decoder} {bytes : Bytes} {topic : TopicId}
    {verified : VerifiedMessage} (h : decoder.run bytes topic = .ok verified) :
    bytes.length ≤ MAX_MESSAGE_SIZE := by
  cases decoder with
  | decode => exact Session.decode_length h
  | decode_sealed drop_key =>
    simp only [Decoder.run, MessageV1.decode_sealed, bind_eq_ok, ensure_eq_ok] at h
    exact h.choose_spec.1
  | verify_sealed_outer =>
    simp only [Decoder.run, MessageV1.verify_sealed_outer, bind_eq_ok, ensure_eq_ok] at h
    exact h.choose_spec.1

theorem made_length {secret : SecretKey} {s : Signed} {topic : TopicId} {bytes : Bytes}
    (htopic : s.topic_id = some topic) (h : s.Made secret bytes) :
    bytes.length ≤ MAX_MESSAGE_SIZE := by
  cases s with
  | encode message topic' => exact (MessageV1.encode_eq_ok.mp h).2
  | encode_sealed message drop_key topic' nonce ciphertext =>
    obtain ⟨-, -, -, -, hlen⟩ := MessageV1.encode_sealed_eq_ok.mp h.1
    exact hlen
  | legacy payload => cases htopic

/-- A frame in the name of an honest author says what a frame says that the
author encoded, and is that frame if it is written as its own frame is. -/
theorem original_of_in_name {secret : SecretKey} {signed : List Signed}
    (h : StrictSignatures secret signed) {topic : TopicId} {bytes : Bytes}
    (hname : InNameOf secret topic bytes) :
    ∃ original, EncodedFor secret signed topic original ∧ SaysTheSame bytes original ∧
      (bytes = original ↔ Canonical bytes) := by
  obtain ⟨decoder, verified, haccept, hauthor⟩ := hname
  obtain ⟨outer, signature, hvouches, hsize, -⟩ := accepted_vouches decoder haccept
  rw [hauthor] at hvouches
  have houter := outer_is_signed h hvouches
  obtain ⟨s, hs, hinput⟩ := h.unforgeable _ _ hvouches.verifies
  obtain ⟨htopic, hmade⟩ := made_of_signed h hs hinput houter
  have hmax : MAX_MESSAGE_SIZE < 2 ^ 64 := by decide
  have hread : take_from_bytes SignedMessageV1.codec "frame"
      (SignedMessageV1.codec.write outer) = .ok outer := by
    have := read_sign_frame decoder.family.domain secret topic outer.payload (by omega)
    rwa [← houter] at this
  refine ⟨SignedMessageV1.codec.write outer, ⟨s, hs, htopic, hmade⟩, ?_, ?_⟩
  · exact saysTheSame_of_outer (hvouches.frame.trans hread.symm) (decoder_length haccept)
      (made_length htopic hmade)
  · constructor
    · intro heq
      exact ⟨outer, hvouches.frame, heq.symm⟩
    · rintro ⟨outer', houter', hwrite⟩
      cases houter'.symm.trans hvouches.frame
      exact hwrite.symm

/-- A frame in the name of an honest author is one that it encoded exactly
when the bytes are what the frame is written as. -/
theorem encoded_for_iff_canonical {secret : SecretKey} {signed : List Signed}
    (h : StrictSignatures secret signed) {topic : TopicId} {bytes : Bytes}
    (hname : InNameOf secret topic bytes) :
    EncodedFor secret signed topic bytes ↔ Canonical bytes := by
  constructor
  · rintro ⟨s, -, htopic, hmade⟩
    exact canonical_of_made htopic hmade
  · intro hcanonical
    obtain ⟨original, hencoded, -, hiff⟩ := original_of_in_name h hname
    exact hiff.mpr hcanonical ▸ hencoded

/-! ## The log -/

/-- If the bytes are in the name of the author, they are what their frame is
written as. -/
def AsWritten (secret : SecretKey) (topic : TopicId) (bytes : Bytes) : Prop :=
  InNameOf secret topic bytes → Canonical bytes

/-- All frames of the log are as they were written. -/
def LogAsWritten (secret : SecretKey) (s : Session) : Prop :=
  ∀ frame ∈ s.state.sync_log, AsWritten secret s.topic_id frame

namespace LogAsWritten

variable {secret : SecretKey} {a b : Session}

theorem of_log (h : LogAsWritten secret a) (hconfig : b.toSessionConfig = a.toSessionConfig)
    (hlog : b.state.sync_log = a.state.sync_log) : LogAsWritten secret b := by
  intro frame hframe
  rw [hlog] at hframe
  rw [show b.topic_id = a.topic_id from congrArg SessionConfig.topic_id hconfig]
  exact h frame hframe

theorem push (h : LogAsWritten secret a) (hconfig : b.toSessionConfig = a.toSessionConfig)
    {frame : Bytes} {k : Nat} (hlog : b.state.sync_log = a.state.sync_log.drop k ++ [frame])
    (hwritten : AsWritten secret a.topic_id frame) : LogAsWritten secret b := by
  intro other hother
  rw [hlog] at hother
  rw [show b.topic_id = a.topic_id from congrArg SessionConfig.topic_id hconfig]
  rcases List.mem_append.mp hother with hold | hnew
  · exact h other (List.mem_of_mem_drop hold)
  · rw [List.mem_singleton.mp hnew]
    exact hwritten

end LogAsWritten

theorem logAsWritten_spoken {secret : SecretKey} {a b : Session} {ids : List (FixedBytes 16)}
    (hs : Says a ids b) (h : LogAsWritten secret a) : LogAsWritten secret b := by
  induction hs with
  | refl => exact h
  | quiet _ hq ih => exact ih.of_log hq.config hq.log.sync_log
  | fewer _ _ ih => exact ih
  | @said _ b msg retain draw _ ih =>
    unfold Session.broadcast_signed
    rcases henc : Session.encode_for_session b.toSessionConfig msg draw.nonce with e | frame
    · exact ih
    · rcases DropState.retain_log (b.state.check_and_insert (b.self_id, msg.id) draw.now).2 retain
        frame with hsame | ⟨-, k, hpush⟩
      · exact ih.of_log rfl hsame
      · exact ih.push rfl hpush (fun _ => canonical_encoded henc)

/-- In this step a frame that goes into the log is as it was written. -/
structure TakesAsWritten (secret : SecretKey) (s : Session) (i : Step) : Prop where
  intake : ∀ frame peer world verified, i.intake = some (frame, peer, world) →
    Session.decode_for_session s.toSessionConfig frame = .ok verified →
    s.admits peer world.draw.now = true →
    s.state.is_fresh verified.key world.draw.now = true →
    s.state.keeps (Session.retainable verified.body) frame → AsWritten secret s.topic_id frame
  restored : ∀ frames, i = .restore_history frames →
    runs.Meets Session.after_restore (fun s frame => ∀ verified,
      MessageV1.decode frame.1 s.topic_id = .ok verified →
      s.state.is_fresh verified.key frame.2 = true → AsWritten secret s.topic_id frame.1) s frames

theorem takesAsWritten_received {secret : SecretKey} {s : Session} {frame : Bytes}
    (peer : EndpointId) (world : IntakeWorld) (h : AsWritten secret s.topic_id frame) :
    TakesAsWritten secret s (.received frame peer world) := by
  refine ⟨?_, fun _ hi => nomatch hi⟩
  intro frame' peer' world' verified hi _ _ _ _
  cases hi
  exact h

theorem logAsWritten_step {secret : SecretKey} {s : Session} {i : Step} (h : LogAsWritten secret s)
    (ht : TakesAsWritten secret s i) : LogAsWritten secret (s.step i) := by
  generalize hs' : s.step i = s'
  have hstepped := stepped s i
  rw [hs'] at hstepped
  cases hstepped with
  | spoke spoke => exact logAsWritten_spoken spoke h
  | @took _ frame peer world verified hi hd =>
    have hhandled := s.handled verified peer frame world
    generalize s.handle_message verified peer frame world = s' at hhandled ⊢
    cases hhandled with
    | passed config seen =>
      rcases seen with hlog | hlog
      · exact h.of_log config hlog.sync_log
      · exact h.of_log config hlog.sync_log
    | taken config admitted fresh log =>
      rcases (s.state.noted verified.key world.draw.now).retain_log
        (Session.retainable verified.body) frame with hsame | ⟨hkeeps, k, hpush⟩
      · exact h.of_log config (log.sync_log.trans hsame)
      · exact h.push config (log.sync_log.trans hpush) (ht.intake frame peer world verified hi hd
          admitted fresh ((DropState.keeps_noted _ _ _ _ _).mp hkeeps))
  | restored frames =>
    rw [Session.restore_history_run]
    have hstep : ∀ (s : Session) (frame : Bytes × Instant), LogAsWritten secret s →
        (∀ verified, MessageV1.decode frame.1 s.topic_id = .ok verified →
          s.state.is_fresh verified.key frame.2 = true → AsWritten secret s.topic_id frame.1) →
        LogAsWritten secret (s.after_restore frame) := by
      intro s frame h hok
      have hrestored := s.restored frame.1 frame.2
      change s.Restored frame.1 frame.2 (s.after_restore frame) at hrestored
      generalize s.after_restore frame = s' at hrestored ⊢
      cases hrestored with
      | skipped => exact h
      | noted verified decoded config sent log => exact h.of_log config log.sync_log
      | kept verified decoded body fresh config sent log =>
        obtain ⟨k, hpush⟩ := (s.state.noted verified.key frame.2).retain_frame_log frame.1
        exact h.push config (log.sync_log.trans hpush) (hok verified decoded fresh)
    exact runs.invariant_of_meets hstep h (ht.restored frames rfl)
  | fetches hash => exact h
  | fetched j event =>
    obtain ⟨s₁, hspoke, hconfig, -, hlog⟩ := s.fetch_event_spoke j event
    exact (logAsWritten_spoken hspoke h).of_log hconfig hlog.sync_log

/-- A frame that is let in, new and worth keeping stands in the log as it
came. -/
theorem received_is_kept {s : Session} {frame : Bytes} {peer : EndpointId} {world : IntakeWorld}
    {verified : VerifiedMessage}
    (hd : Session.decode_for_session s.toSessionConfig frame = .ok verified)
    (hadmits : s.admits peer world.draw.now = true)
    (hfresh : s.state.is_fresh verified.key world.draw.now = true)
    (hkeeps : s.state.keeps (Session.retainable verified.body) frame) :
    frame ∈ (s.step (.received frame peer world)).state.sync_log := by
  simp only [Session.step, Session.receive, hd]
  have hhandled := s.handled verified peer frame world
  generalize s.handle_message verified peer frame world = s' at hhandled ⊢
  cases hhandled with
  | passed _ _ why =>
    rcases why with hlimited | hknown
    · rw [hadmits] at hlimited
      cases hlimited
    · rw [hfresh] at hknown
      cases hknown
  | taken _ _ _ log =>
    obtain ⟨k, hpush⟩ := DropState.retain_of_keeps
      ((DropState.keeps_noted s.state verified.key world.draw.now _ _).mpr hkeeps)
    rw [log.sync_log, hpush]
    exact List.mem_append_right _ (List.mem_singleton_self frame)

/-- The frame is in the log, in what is exported or in a page that is served. -/
def InHistory (s : Session) (frame : Bytes) : Prop :=
  frame ∈ s.state.sync_log ∨ frame ∈ s.export_history ∨
    ∃ request, frame ∈ (session_page s.state request).frames

theorem inHistory_iff (s : Session) (frame : Bytes) :
    InHistory s frame ↔ frame ∈ s.state.sync_log := by
  constructor
  · rintro (h | h | ⟨request, h⟩)
    · exact h
    · rwa [export_history_eq] at h
    · rw [session_page_frames] at h
      exact List.mem_of_mem_drop (List.mem_of_mem_take (List.mem_of_mem_take h))
  · exact .inl

/-- What history says in the name of an honest author, the author said: of
each such frame of a run it encoded an original for the topic, which no decoder
can tell from the frame. The frame is that original just when it is as it was
written, and all are in a run that takes only copies that are. A copy that is
not is kept all the same. -/
theorem history_says_what_its_author_said (secret : SecretKey) (signed : List Signed)
    (h : StrictSignatures secret signed) (own : SecretKey) (policy : DropPolicy)
    (decider : OfferDecider) (topic_id : TopicId) (ticket : DropTicket)
    (drop_key : Option DropKey) (store : BlobHash → BlobStatus) (steps : List Step) :
    let fresh := Session.new own policy decider topic_id ticket drop_key store
    let s := fresh.run steps
    (∀ frame, InHistory s frame → InNameOf secret topic_id frame →
      frame.length ≤ MAX_MESSAGE_SIZE ∧
        ∃ original, EncodedFor secret signed topic_id original ∧ SaysTheSame frame original ∧
          (frame = original ↔ Canonical frame)) ∧
    (runs.Meets Session.step (TakesAsWritten secret) fresh steps →
      ∀ frame, InHistory s frame → InNameOf secret topic_id frame →
        EncodedFor secret signed topic_id frame) ∧
    ∀ frame peer world verified,
      Session.decode_for_session s.toSessionConfig frame = .ok verified →
      s.admits peer world.draw.now = true →
      s.state.is_fresh verified.key world.draw.now = true →
      s.state.keeps (Session.retainable verified.body) frame →
      InNameOf secret topic_id frame → ¬ Canonical frame →
        InHistory (s.step (.received frame peer world)) frame ∧
          ¬ EncodedFor secret signed topic_id frame := by
  intro fresh s
  refine ⟨?_, ?_, ?_⟩
  · intro frame _ hname
    obtain ⟨decoder, verified, haccept, -⟩ := id hname
    exact ⟨decoder_length haccept, original_of_in_name h hname⟩
  · intro hmeets frame hframe hname
    have hstep : ∀ (s : Session) (i : Step), LogAsWritten secret s → TakesAsWritten secret s i →
        LogAsWritten secret (s.step i) := fun _ _ h ht => logAsWritten_step h ht
    have hlog : LogAsWritten secret s :=
      runs.invariant_of_meets hstep (fun _ hframe => absurd hframe List.not_mem_nil) hmeets
    have htopic : s.topic_id = topic_id :=
      congrArg SessionConfig.topic_id (run_extends fresh steps).config
    have hwritten := hlog frame ((inHistory_iff s frame).mp hframe)
    rw [htopic] at hwritten
    exact (encoded_for_iff_canonical h hname).mpr (hwritten hname)
  · intro frame peer world verified hd hadmits hfresh hkeeps hname hnot
    refine ⟨(inHistory_iff _ _).mpr (received_is_kept hd hadmits hfresh hkeeps), ?_⟩
    exact fun hencoded => hnot ((encoded_for_iff_canonical h hname).mp hencoded)

end Laws

/-! ## A copy with a byte behind it -/

namespace padded

def topic : TopicId := ⟨.fill 32 8⟩
def author : FixedBytes 32 := .fill 32 2

def body : MessageBodyV1 := .Provider ⟨⟨.fill 32 7⟩, .Available, some 0⟩
def message : MessageV1 := .new body (.fill 16 1) 0

/-- The bytes that the author signed. -/
def input : Bytes := signing_input SIGN_DOMAIN topic (MessageV1.codec.write message)

/-- Primitives under which one input alone was ever signed. -/
local instance recorded : Crypto :=
  { Crypto.clear with
    verify := fun key m sig => decide (m = input ∧ sig.bytes = key.bytes ++ key.bytes) }

def secret : SecretKey := ⟨author⟩

def signed : List Signed := [.encode message topic]

/-- The frame that the author made of the message. -/
def frame : Bytes :=
  match message.encode secret topic with
  | .ok bytes => bytes
  | .error _ => []

theorem encode_frame : message.encode secret topic = .ok frame := by decide +kernel

theorem strict : StrictSignatures secret signed where
  correct := by
    intro s hs
    rw [List.mem_singleton.mp hs]
    exact decide_eq_true ⟨rfl, rfl⟩
  unforgeable := fun m sig h =>
    ⟨_, List.mem_singleton_self _, (of_decide_eq_true h).1.symm⟩
  single := fun m m' sig h h' => (of_decide_eq_true h).1.trans (of_decide_eq_true h').1.symm
  exact := by
    rintro m ⟨sig, hsize⟩ h
    obtain rfl : sig = secret.public.as_bytes.bytes ++ secret.public.as_bytes.bytes :=
      (of_decide_eq_true h).2
    rfl
  made := by
    intro s hs
    rw [List.mem_singleton.mp hs]
    exact ⟨frame, encode_frame⟩

/-- Another member, who never held the author's key. -/
def member : Session :=
  .new ⟨.fill 32 1⟩ {} PolicyDecider topic (.nodeless topic.as_bytes none) none (fun _ => .NotFound)

def relay : EndpointId := (⟨.fill 32 3⟩ : SecretKey).public

def world : IntakeWorld :=
  { draw := { now := 0, sent_at_ms := 0, id := .fill 16 4, nonce := .fill 24 0, carried := .ok () }
    announced_at_ms := 0 }

/-- The copy that the relay passes on. -/
def copy : Bytes := frame ++ [0]

theorem in_name (bytes : Bytes)
    (h : (match MessageV1.decode bytes topic with
      | .ok verified => decide (verified.author = secret.public)
      | .error _ => false) = true) : InNameOf secret topic bytes := by
  rcases hd : MessageV1.decode bytes topic with e | verified
  · rw [hd] at h
    cases h
  · rw [hd] at h
    exact ⟨.decode, verified, hd, of_decide_eq_true h⟩

/-- The copy takes the place of the author's frame in the log, in what is
exported and in what is served, and it is no frame that the author encoded. -/
theorem a_relay_rewrites_a_frame :
    StrictSignatures secret signed ∧
      (member.run [.received copy relay world]).state.sync_log = [copy] ∧
      ((member.run [.received copy relay world]).run
        [.received frame relay world]).state.sync_log = [copy] ∧
      InNameOf secret topic copy ∧ frame.length < copy.length ∧
      ¬ EncodedFor secret signed topic copy := by
  refine ⟨strict, by decide +kernel, by decide +kernel, in_name copy (by decide +kernel),
    by decide +kernel, ?_⟩
  rintro ⟨s, hs, -, hmade⟩
  rw [List.mem_singleton.mp hs] at hmade
  have hsame : copy = frame := Except.ok.inj (Eq.trans (Eq.symm hmade) encode_frame)
  exact absurd hsame (by decide +kernel)

/-- The law at work on the author's own frame and on the copy. -/
theorem history_says_what_its_author_said_at_member :
    (∀ bytes, InHistory (member.run [.received frame relay world]) bytes →
      InNameOf secret topic bytes → EncodedFor secret signed topic bytes) ∧
    ∃ original, EncodedFor secret signed topic original ∧ SaysTheSame copy original := by
  have hmade : (Signed.encode message topic).Made secret frame := encode_frame
  have hmeets : runs.Meets Session.step (TakesAsWritten secret) member
      [.received frame relay world] :=
    ⟨takesAsWritten_received relay world fun _ => canonical_of_made rfl hmade, trivial⟩
  have hlog : (member.run [.received copy relay world]).state.sync_log = [copy] := by
    decide +kernel
  have hcopy : InHistory (member.run [.received copy relay world]) copy :=
    .inl (by rw [hlog]; exact List.mem_singleton_self copy)
  have hname : InNameOf secret topic copy := in_name copy (by decide +kernel)
  unfold member at hmeets hcopy ⊢
  have h := history_says_what_its_author_said secret signed strict ⟨.fill 32 1⟩ {} PolicyDecider
    topic (.nodeless topic.as_bytes none) none (fun _ => .NotFound)
  refine ⟨(h _).2.1 hmeets, ?_⟩
  obtain ⟨-, original, hencoded, hsays, -⟩ := (h _).1 copy hcopy hname
  exact ⟨original, hencoded, hsays⟩

end padded

end iroh_drop
