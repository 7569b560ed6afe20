-- Presence beacons, an extension that only the public parts of a session carry
-- (iroh-drop-presence/src/lib.rs), and their law: a status that a member is
-- seen to say is one that it signed, and one that it says is seen.
import IrohDrop.AuthorBytes
import IrohDrop.Listening
import IrohDrop.SealedFrames

open rust_std postcard

namespace iroh_drop

section Laws

variable [Crypto]

/-! ## Beacons -/

namespace presence

def PRESENCE_NAMESPACE : FixedBytes 16 :=
  ⟨[0xab, 0xab, 0xf4, 0xba, 0x7b, 0x13, 0x6d, 0xa5, 0xb4, 0xdb, 0xc7, 0x71, 0x08, 0x27, 0x3f, 0x76],
    rfl⟩

def PRESENCE_KIND_STATUS : UInt32 := 1

def PRESENCE_SCHEMA_VERSION : UInt16 := 1

def MAX_STATUS_LEN : Nat := 140

structure Presence where
  author : EndpointId
  status : String

/-- `str::as_bytes`. -/
def as_bytes (s : String) : Bytes := s.toByteArray.data.toList

/-- `str::from_utf8`. -/
def from_utf8 (bytes : Bytes) : Option String := String.fromUTF8? ⟨bytes.toArray⟩

def announce (session : Session) (status : String) (draw : Draw) :
    Except DropError Unit × Session :=
  if status = "" ∨ status.utf8ByteSize > MAX_STATUS_LEN then
    (.error (.Protocol (.Malformed
      s!"presence status must be 1..={MAX_STATUS_LEN} bytes, got {status.utf8ByteSize}")), session)
  else
    session.send_extension PRESENCE_NAMESPACE PRESENCE_KIND_STATUS PRESENCE_SCHEMA_VERSION
      (as_bytes status) draw

def subscribe (session : Session) : Session := session.on_extension PRESENCE_NAMESPACE

def decode (frame : ExtensionFrame) : Option Presence :=
  if frame.namespace ≠ PRESENCE_NAMESPACE ∨ frame.local_kind ≠ PRESENCE_KIND_STATUS then none
  else
    match from_utf8 frame.payload with
    | none => none
    | some status =>
      if status = "" ∨ status.utf8ByteSize > MAX_STATUS_LEN then none
      else some { author := frame.author, status }

/-- A status that fits in a beacon. -/
def Fits (status : String) : Prop := status ≠ "" ∧ status.utf8ByteSize ≤ MAX_STATUS_LEN

omit [Crypto] in
theorem from_utf8_as_bytes (s : String) : from_utf8 (as_bytes s) = some s := by
  unfold from_utf8 as_bytes String.fromUTF8?
  rw [dif_pos (by simpa using s.isValidUTF8)]
  rfl

omit [Crypto] in
theorem as_bytes_from_utf8 {bytes : Bytes} {s : String} (h : from_utf8 bytes = some s) :
    as_bytes s = bytes := by
  unfold from_utf8 String.fromUTF8? at h
  split at h
  · cases h
    rfl
  · cases h

/-- What a beacon says is what its payload holds. -/
theorem decode_eq_some {frame : ExtensionFrame} {p : Presence} :
    decode frame = some p ↔ frame.namespace = PRESENCE_NAMESPACE ∧
      frame.local_kind = PRESENCE_KIND_STATUS ∧ frame.payload = as_bytes p.status ∧
      Fits p.status ∧ p.author = frame.author := by
  unfold decode Fits
  constructor
  · intro h
    split at h
    · cases h
    · rename_i hkind
      rw [not_or, not_not, not_not] at hkind
      rcases hread : from_utf8 frame.payload with _ | status
      · rw [hread] at h
        cases h
      · rw [hread] at h
        simp only at h
        split at h
        · cases h
        · rename_i hfits
          rw [not_or, Nat.not_lt] at hfits
          cases h
          exact ⟨hkind.1, hkind.2, (as_bytes_from_utf8 hread).symm, hfits, rfl⟩
  · rintro ⟨hnamespace, hkind, hpayload, ⟨hempty, hlen⟩, hauthor⟩
    rw [if_neg (by simp [hnamespace, hkind]), hpayload, from_utf8_as_bytes]
    simp only
    rw [if_neg (by simp [hempty, hlen])]
    cases p
    cases hauthor
    rfl

/-- The extension that a beacon goes out as. -/
def beacon (status : String) : ExtensionV1 where
  «namespace» := PRESENCE_NAMESPACE
  local_kind := PRESENCE_KIND_STATUS
  schema_version := PRESENCE_SCHEMA_VERSION
  payload := as_bytes status

end presence

/-! ## Frames of a session -/

/-- The extension frame that a session makes of a message. -/
def VerifiedMessage.frame (self : VerifiedMessage) (ext : ExtensionV1) : ExtensionFrame where
  author := self.author
  id := self.message.id
  «namespace» := ext.namespace
  local_kind := ext.local_kind
  schema_version := ext.schema_version
  payload := ext.payload

/-- The frame is what a session makes of some bytes. -/
def SessionConfig.Makes (self : SessionConfig) (frame : ExtensionFrame) : Prop :=
  ∃ bytes verified ext, Session.decode_for_session self bytes = .ok verified ∧
    verified.body = some (.Extension ext) ∧ frame = verified.frame ext

namespace Session

variable (s : Session)

theorem dispatch_config (verified : VerifiedMessage) (delivered_from : EndpointId)
    (world : IntakeWorld) :
    (s.dispatch verified delivered_from world).toSessionConfig = s.toSessionConfig := by
  rcases hitem : verified.item with _ | item
  · exact (s.sameChannels_dispatch hitem delivered_from world).config
  · rcases s.delivers_dispatch hitem delivered_from world with ⟨-, frame, -, h⟩ | ⟨-, h⟩
    · exact h.config
    · exact h.config

/-- A message that is acted on gives one frame, to a channel that is there. -/
theorem dispatch_extension {verified : VerifiedMessage} {ext : ExtensionV1}
    (hbody : verified.body = some (.Extension ext)) (delivered_from : EndpointId)
    (world : IntakeWorld) :
    (s.dispatch verified delivered_from world).delivered =
      if ext.namespace ∈ s.extension_sinks then s.delivered ++ [verified.frame ext]
      else s.delivered := by
  simp only [dispatch, hbody, handle_extension]
  split <;> rfl

/-- What is acted on goes to a channel as the frame that it is. -/
theorem makes_dispatch {bytes : Bytes} {verified : VerifiedMessage}
    (hread : decode_for_session s.toSessionConfig bytes = .ok verified)
    (delivered_from : EndpointId) (world : IntakeWorld)
    (h : ∀ frame ∈ s.delivered, s.Makes frame) :
    ∀ frame ∈ (s.dispatch verified delivered_from world).delivered, s.Makes frame := by
  rcases hitem : verified.item with _ | item
  · rw [(s.sameChannels_dispatch hitem delivered_from world).delivered]
    exact h
  · unfold VerifiedMessage.item at hitem
    split at hitem
    · rename_i ext hbody
      rw [s.dispatch_extension hbody]
      intro frame hframe
      split at hframe
      · rcases List.mem_append.mp hframe with hold | hnew
        · exact h frame hold
        · rw [List.mem_singleton.mp hnew]
          exact ⟨bytes, verified, ext, hread, hbody, rfl⟩
      · exact h frame hframe
    · cases hitem

/-- A retained frame that is replayed goes to the channel as the frame that it is. -/
theorem replay_extension_delivered («namespace» : FixedBytes 16) (bytes : Bytes) :
    (s.replay_extension «namespace» bytes).toSessionConfig = s.toSessionConfig ∧
      ((s.replay_extension «namespace» bytes).delivered = s.delivered ∨
        ∃ frame, s.Makes frame ∧
          (s.replay_extension «namespace» bytes).delivered = s.delivered ++ [frame]) := by
  unfold replay_extension
  rcases hread : decode_for_session s.toSessionConfig bytes with e | verified
  · exact ⟨rfl, .inl rfl⟩
  · rcases hbody : verified.body with _ | (offer | provider | request | ext)
    case some.Extension =>
      simp only [hbody]
      split
      · exact ⟨rfl, .inr ⟨_, ⟨bytes, verified, ext, hread, hbody, rfl⟩, rfl⟩⟩
      · exact ⟨rfl, .inl rfl⟩
    all_goals exact ⟨by simp only [hbody], .inl (by simp only [hbody])⟩

/-- Bytes that do not read, and bytes that nobody may bring, touch no channel. -/
theorem sameChannels_receive_error {content : Bytes} {e : ProtocolError}
    (hread : decode_for_session s.toSessionConfig content = .error e)
    (delivered_from : EndpointId) (world : IntakeWorld) :
    SameChannels s (s.receive content delivered_from world) := by
  unfold receive
  rw [hread]
  exact ⟨rfl, rfl, rfl⟩

end Session

/-! ## Runs of the channels -/

/-- What went to the channels is what the session makes of some bytes, and so is
what it has yet to act on. -/
structure Hub.Tells (c : SessionConfig) (hub : Hub) : Prop where
  config : hub.session.toSessionConfig = c
  delivered : ∀ frame ∈ hub.session.delivered, c.Makes frame
  pending : ∀ p ∈ hub.pending, ∃ bytes, Session.decode_for_session c bytes = .ok p.1

namespace Hub

variable {c : SessionConfig} {hub : Hub}

theorem Tells.same (h : hub.Tells c) {session : Session}
    (hsame : Session.SameChannels hub.session session) {listeners : List Listener} :
    Tells c ⟨session, hub.pending, listeners⟩ :=
  ⟨hsame.config.trans h.config, hsame.delivered ▸ h.delivered, h.pending⟩

theorem Tells.on_listener (h : hub.Tells c) (k : Nat) (f : Listener → Listener) :
    (hub.on_listener k f).Tells c := by
  unfold Hub.on_listener
  split
  · exact h.same (.refl hub.session)
  · exact h

theorem tells_replay (h : hub.Tells c) (k : Nat) : (hub.replay k).Tells c := by
  unfold replay
  split
  · rename_i «namespace» start bytes rest owed after _
    obtain ⟨hconfig, hdelivered⟩ := hub.session.replay_extension_delivered «namespace» bytes
    refine ⟨hconfig.trans h.config, ?_, h.pending⟩
    rcases hdelivered with hsame | ⟨frame, hmakes, hnew⟩
    · rw [hsame]
      exact h.delivered
    · rw [hnew]
      intro f hf
      rcases List.mem_append.mp hf with hold | hf
      · exact h.delivered f hold
      · rw [List.mem_singleton.mp hf, ← h.config]
        exact hmakes
  · exact h

theorem tells_take (h : hub.Tells c) (content : Bytes) (delivered_from : EndpointId)
    (world : IntakeWorld) : (hub.take content delivered_from world).Tells c := by
  unfold take
  rcases hread : Session.decode_for_session hub.session.toSessionConfig content with e | verified
  · exact h.same (hub.session.sameChannels_receive_error hread delivered_from world)
  · have htoken := hub.session.sameChannels_take_token delivered_from world.draw.now
    rcases htake : hub.session.take_token delivered_from world.draw.now with ⟨_ | _, s₁⟩
    · rw [htake] at htoken
      have hwarned : Session.SameChannels hub.session
          (s₁.emit (.ProtocolWarning (some delivered_from) .RateLimited)) :=
        htoken.trans ⟨rfl, rfl, rfl⟩
      exact h.same hwarned
    · rw [htake] at htoken
      have hnote := s₁.sameChannels_note_message verified delivered_from world.draw.now
      rcases hnoted : s₁.note_message verified delivered_from world.draw.now with ⟨_ | _, s₂⟩
      · rw [hnoted] at hnote
        simp only [hnoted]
        exact h.same (htoken.trans hnote)
      · rw [hnoted] at hnote
        simp only [hnoted]
        have hsame : Session.SameChannels hub.session (s₂.retain verified content) :=
          (htoken.trans hnote).trans ⟨rfl, rfl, rfl⟩
        refine ⟨hsame.config.trans h.config, hsame.delivered ▸ h.delivered, ?_⟩
        intro p hp
        rcases List.mem_append.mp hp with hold | hp
        · exact h.pending p hold
        · rw [List.mem_singleton.mp hp]
          exact ⟨content, h.config ▸ hread⟩

theorem tells_act (h : hub.Tells c) (j : Nat) (world : IntakeWorld) :
    (hub.act j world).Tells c := by
  unfold act
  split
  · rename_i verified delivered_from after hdrop
    have hmem : (verified, delivered_from) ∈ hub.pending :=
      List.mem_of_mem_drop (hdrop ▸ List.mem_cons_self ..)
    obtain ⟨bytes, hread⟩ := h.pending _ hmem
    refine ⟨(hub.session.dispatch_config verified delivered_from world).trans h.config, ?_, ?_⟩
    · have hmade := hub.session.makes_dispatch (h.config ▸ hread) delivered_from world
        (h.config ▸ h.delivered)
      rw [h.config] at hmade
      exact hmade
    · intro p hp
      rcases List.mem_append.mp hp with hp | hp
      · exact h.pending p (List.mem_of_mem_take hp)
      · exact h.pending p (List.mem_of_mem_drop (hdrop ▸ List.mem_cons_of_mem _ hp))
  · exact h

theorem tells_step (h : hub.Tells c) (step : HubStep) : (hub.step step).Tells c := by
  cases step with
  | open_channel «namespace» => exact ⟨h.config, h.delivered, h.pending⟩
  | subscribe k => exact h.on_listener k _
  | snapshot k => exact h.on_listener k _
  | replay k => exact tells_replay h k
  | take content delivered_from world => exact tells_take h content delivered_from world
  | act j world => exact tells_act h j world
  | send_extension «namespace» local_kind schema_version payload draw =>
    exact h.same (hub.session.sameChannels_send_extension _ _ _ _ draw)

/-- Whatever runs, what went to the channels is what the session makes of some bytes. -/
theorem tells_run {session : Session} (hfresh : session.delivered = []) (steps : List HubStep) :
    ((quiet session).run steps).Tells session.toSessionConfig := by
  have hstart : (quiet session).Tells session.toSessionConfig := by
    refine ⟨rfl, ?_, ?_⟩
    · intro frame hframe
      change frame ∈ session.delivered at hframe
      rw [hfresh] at hframe
      cases hframe
    · intro p hp
      cases hp
  have hkept : ∀ (hub : Hub) (step : HubStep), hub.Tells session.toSessionConfig →
      (hub.step step).Tells session.toSessionConfig := fun _ step h => tells_step h step
  exact runs.invariant hkept hstart steps

end Hub

/-! ## What an author signed -/

/-- The author signed the message for this drop. -/
def SessionConfig.Signs (self : SessionConfig) (signed : List Signed) (message : MessageV1) :
    Prop :=
  match self.mode, self.drop_key with
  | .Sealed, some key => ∃ nonce ciphertext,
    .encode_sealed message key self.topic_id nonce ciphertext ∈ signed
  | .Sealed, none => False
  | .Public, _ => .encode message self.topic_id ∈ signed

/-- What a session reads in the name of an honest author, the author signed for
this drop, under that id and with that body. -/
theorem read_was_signed {secret : SecretKey} {signed : List Signed} {made : List SealCall}
    (hsigs : IdealSignatures secret signed) (hseals : IdealSeals made)
    (hlog : SealsWhatItSigns secret signed made) {c : SessionConfig} {bytes : Bytes}
    {verified : VerifiedMessage} {body : MessageBodyV1}
    (hread : Session.decode_for_session c bytes = .ok verified)
    (hbody : verified.body = some body) (hauthor : verified.author = secret.public) :
    ∃ message, c.Signs signed message ∧ message.id = verified.message.id ∧
      message.body = verified.message.body := by
  unfold SessionConfig.Signs
  unfold Session.decode_for_session at hread
  rcases hm : c.mode with _ | _
  · rw [hm] at hread
    obtain ⟨outer, signature, hvouches, hsize, envelope, henvelope, -, -, hmessage⟩ :=
      accepted_vouches .decode hread
    have hverify := hvouches.verifies
    rw [hauthor] at hverify
    rcases signed_of_input hsigs hverify with ⟨-, message, hmem, hw⟩ | ⟨hfamily, -⟩
    · refine ⟨message, hmem, ?_, ?_⟩
      all_goals rw [hmessage, read_payload hw hsize henvelope]
    · cases hfamily
  · rcases hk : c.drop_key with _ | key
    · rw [hm, hk] at hread
      cases (verify_sealed_outer_body hread).symm.trans hbody
    · rw [hm, hk] at hread
      obtain ⟨outer, signature, hvouches, hsize, envelope, henvelope, hid, -⟩ :=
        accepted_vouches (.decode_sealed key) hread
      have hverify := hvouches.verifies
      rw [hauthor] at hverify
      rcases signed_of_input hsigs hverify with
        ⟨hfamily, -⟩ | ⟨-, message, key', nonce, ciphertext, hmem, hw⟩
      · cases hfamily
      · have hsame := read_payload hw hsize henvelope
        subst hsame
        have hframe : Recombines bytes secret.public message.id (nonce.bytes ++ ciphertext) :=
          ⟨outer, _, hvouches.frame, hvouches.author.trans (congrArg _ hauthor), henvelope, rfl, rfl⟩
        -- One ciphertext is of one sealing, so the keys agree, and the bodies too.
        obtain ⟨inner_bytes, hcall, hlen, hinner⟩ :=
          accepted_is_sealing hseals hread (hlog _ _ _ _ _ hmem) hframe
        simp only [SealCall.mk.injEq] at hcall
        obtain ⟨rfl, -, -, -, -, rfl, -⟩ := hcall
        rw [read_inner hlen] at hinner
        exact ⟨message, ⟨nonce, ciphertext, hmem⟩, hid.symm, Except.ok.inj hinner⟩

/-- The body of a message is what its envelope reads as. -/
theorem read_body {c : SessionConfig} {bytes : Bytes} {verified : VerifiedMessage}
    {body : MessageBodyV1} (hread : Session.decode_for_session c bytes = .ok verified)
    (hbody : verified.body = some body) : verified.message.body.decode = .ok (some body) := by
  unfold Session.decode_for_session at hread
  rcases hm : c.mode with _ | _
  · rw [hm] at hread
    rw [decode_body hread, hbody]
  · rcases hk : c.drop_key with _ | key
    · rw [hm, hk] at hread
      cases (verify_sealed_outer_body hread).symm.trans hbody
    · rw [hm, hk] at hread
      simp only [MessageV1.decode_sealed, bind_eq_ok, pure, Except.pure, Except.ok.injEq] at hread
      obtain ⟨-, -, outer, -, v, -, -, -, -, -, inner_bytes, -, -, -, inner, -, -, -, body', hdecode,
        -, -, rfl⟩ := hread
      exact hdecode.trans (congrArg _ hbody)

/-! ## Statuses are their authors' -/

/-- In every run of the calls and messages of a member, each status that it sees
an honest author say, the author signed as a beacon of this drop. -/
theorem statuses_are_their_authors (secret : SecretKey) (signed : List Signed)
    (made : List SealCall) (hsigs : IdealSignatures secret signed) (hseals : IdealSeals made)
    (hlog : SealsWhatItSigns secret signed made) (session : Session)
    (hfresh : session.delivered = []) (steps : List HubStep) :
    ∀ frame ∈ ((Hub.quiet session).run steps).session.delivered, ∀ p,
      presence.decode frame = some p → p.author = secret.public →
        presence.Fits p.status ∧ ∃ message ext, session.Signs signed message ∧
          message.id = frame.id ∧ message.body.decode = .ok (some (.Extension ext)) ∧
          ext.namespace = presence.PRESENCE_NAMESPACE ∧
          ext.local_kind = presence.PRESENCE_KIND_STATUS ∧
          ext.payload = presence.as_bytes p.status := by
  intro frame hframe p hp hauthor
  obtain ⟨bytes, verified, ext, hread, hbody, rfl⟩ :=
    (Hub.tells_run hfresh steps).delivered frame hframe
  obtain ⟨hnamespace, hkind, hpayload, hfits, hsame⟩ := presence.decode_eq_some.mp hp
  obtain ⟨message, hsigns, hid, hmessage⟩ :=
    read_was_signed hsigs hseals hlog hread hbody (hsame.symm.trans hauthor)
  refine ⟨hfits, message, ext, hsigns, hid, ?_, hnamespace, hkind, hpayload⟩
  rw [hmessage]
  exact read_body hread hbody

/-! ## Beacons that go out -/

theorem encodes_short (hw : Crypto.Works) {c : SessionConfig} (hc : ¬ c.blind)
    {body : MessageBodyV1} (hshort : (BodyEnvelopeV1.encode body).payload.length ≤ 1024)
    (id : FixedBytes 16) (ms : UInt64) (nonce : FixedBytes 24) :
    ∃ frame, Session.encode_for_session c (.new body id ms) nonce = .ok frame := by
  -- What is signed over an envelope of few bytes is within the limit.
  have hfits : ∀ (domain : Bytes) (m : MessageV1), m.body.payload.length ≤ 1200 →
      (SignedMessageV1.codec.write (sign_frame domain c.secret c.topic_id
        (MessageV1.codec.write m))).length ≤ MAX_MESSAGE_SIZE := by
    intro domain m hm
    have hwrite := m.write_length
    have hversion := Codec.u16_write_length_le m.version
    have hsent := Codec.u64_write_length_le m.sent_at_ms
    have hkind := Codec.u16_write_length_le m.body.kind
    have hvarint := writeVarint_length_le 10 m.body.payload.length
    have hvarint' := writeVarint_length_le 10 (MessageV1.codec.write m).length
    rw [sign_frame_write_length, MAX_MESSAGE_SIZE]
    unfold varintLen at *
    omega
  unfold Session.encode_for_session
  split
  · rename_i key hm hk
    have hinner : (BodyEnvelopeV1.codec.write (.encode body)).length ≤ 1040 := by
      have hkind := Codec.u16_write_length_le (BodyEnvelopeV1.encode body).kind
      have hvarint := writeVarint_length_le 10 (BodyEnvelopeV1.encode body).payload.length
      simp only [BodyEnvelopeV1.codec, Codec.imap_write_length, Codec.pair_write_length,
        Codec.bytes_write_length]
      unfold varintLen
      omega
    obtain ⟨ciphertext, hencrypt, hlength, -⟩ := hw.seals (key.aead_key c.topic_id) nonce
      (seal_aad c.secret.public.as_bytes id) (BodyEnvelopeV1.codec.write (.encode body))
    refine ⟨_, MessageV1.encode_sealed_eq_ok.mpr ⟨?_, ciphertext, hencrypt, rfl, ?_⟩⟩
    · have hmax : 1040 ≤ MAX_BODY_SIZE := by decide
      exact hinner.trans hmax
    · apply hfits
      have hnonce : nonce.bytes.length = 24 := nonce.length_bytes
      rw [sealed_envelope, List.length_append]
      omega
  · rename_i hm hk
    exact absurd ⟨hm, hk⟩ hc
  · refine ⟨_, MessageV1.encode_eq_ok.mpr ⟨rfl, ?_⟩⟩
    apply hfits
    exact hshort.trans (by decide)

namespace presence

omit [Crypto] in
theorem as_bytes_length (s : String) : (as_bytes s).length = s.utf8ByteSize := by
  simp [as_bytes]

omit [Crypto] in
theorem beacon_length_le {status : String} (h : Fits status) :
    (BodyEnvelopeV1.encode (.Extension (beacon status))).payload.length ≤ 184 := by
  have hlen := (as_bytes_length status).trans_le h.2
  have hkind : (Codec.u32.write PRESENCE_KIND_STATUS).length = 1 := rfl
  have hschema : (Codec.u16.write PRESENCE_SCHEMA_VERSION).length = 1 := rfl
  have hvarint := writeVarint_length_le 10 (as_bytes status).length
  simp only [BodyEnvelopeV1.encode, ExtensionV1.codec, beacon, Codec.imap_write_length,
    Codec.pair_write_length, Codec.fixed_write_length, Codec.bytes_write_length, hkind, hschema]
  unfold MAX_STATUS_LEN at hlen
  unfold varintLen
  omega

omit [Crypto] in
theorem beacon_receivable {status : String} (h : Fits status) :
    (MessageBodyV1.Extension (beacon status)).receivable := by
  have hmax : 184 ≤ MAX_BODY_SIZE := by decide
  refine ⟨(beacon_length_le h).trans hmax, ensure_eq_ok.mpr ?_⟩
  have hlen : (beacon status).payload.length ≤ MAX_STATUS_LEN :=
    (as_bytes_length status).trans_le h.2
  have hcap : MAX_STATUS_LEN ≤ MAX_BODY_SIZE := by decide
  exact hlen.trans hcap

/-- A status that fits goes out as one frame. -/
theorem announce_fits (hw : Crypto.Works) {s : Session} (hs : ¬ s.blind) {status : String}
    (h : Fits status) (draw : Draw) :
    ∃ bytes, (announce s status draw).2.sent = s.sent ++ [bytes] ∧
      Session.encode_for_session s.toSessionConfig
        (.new (.Extension (beacon status)) draw.id draw.sent_at_ms) draw.nonce = .ok bytes := by
  have hlen := (beacon_length_le h).trans (show 184 ≤ 1024 by decide)
  obtain ⟨bytes, henc⟩ := encodes_short hw hs hlen draw.id draw.sent_at_ms draw.nonce
  have hcap : ¬ (as_bytes status).length > MAX_BODY_SIZE := by
    have hmax : MAX_STATUS_LEN ≤ MAX_BODY_SIZE := by decide
    have hsize := (as_bytes_length status).trans_le h.2
    omega
  have hsent : (announce s status draw).2 =
      (s.broadcast (.Extension (beacon status)) draw).2 := by
    unfold announce
    rw [if_neg (by simp [h.1, h.2])]
    unfold Session.send_extension
    rw [if_neg hcap]
    rfl
  refine ⟨bytes, ?_, henc⟩
  rw [hsent]
  unfold Session.broadcast Session.broadcast_signed
  rw [henc]
  rfl

theorem announce_unfit (s : Session) {status : String} (h : ¬ Fits status) (draw : Draw) :
    ∃ text, announce s status draw = (.error (.Protocol (.Malformed text)), s) := by
  unfold Fits at h
  unfold announce
  rw [not_and_or, not_not, Nat.not_le] at h
  rw [if_pos h]
  exact ⟨_, rfl⟩

end presence

/-! ## Beacons that come in -/

/-- The members are of one drop: they read the same frames. -/
structure SessionConfig.SharesDrop (a b : SessionConfig) : Prop where
  topic_id : a.topic_id = b.topic_id
  mode : a.mode = b.mode
  drop_key : a.drop_key = b.drop_key

theorem SessionConfig.SharesDrop.reads {a b : SessionConfig} (h : a.SharesDrop b) (bytes : Bytes) :
    Session.decode_for_session a bytes = Session.decode_for_session b bytes := by
  unfold Session.decode_for_session
  rw [h.topic_id, h.mode, h.drop_key]

namespace presence

variable {s : Session} {status : String} {draw : Draw} {bytes : Bytes}

/-- A member reads a beacon as what was announced. -/
theorem reads_beacon (hw : Crypto.Works) (h : Fits status)
    (henc : Session.encode_for_session s.toSessionConfig
      (.new (.Extension (beacon status)) draw.id draw.sent_at_ms) draw.nonce = .ok bytes)
    {member : Session} (hshares : member.SharesDrop s.toSessionConfig) :
    ∃ verified, Session.decode_for_session member.toSessionConfig bytes = .ok verified ∧
      verified.key = (s.self_id, draw.id) ∧
      verified.body = some (.Extension (beacon status)) ∧
      decode (verified.frame (beacon status)) = some ⟨s.self_id, status⟩ := by
  obtain ⟨m, hid, hbody, hread⟩ := decode_encoded hw henc
  rw [MessageV1.check_body_receivable hbody (beacon_receivable h)] at hread
  refine ⟨_, (hshares.reads bytes).trans hread, ?_, rfl, ?_⟩
  · rw [← hid]
    rfl
  · exact decode_eq_some.mpr ⟨rfl, rfl, rfl, h, rfl⟩

end presence

namespace Session

/-- What a log replays comes after what is on the channels already. -/
theorem replayed_prefix («namespace» : FixedBytes 16) (frames : List Bytes) (s : Session) :
    (frames.foldl (replay_extension «namespace») s).toSessionConfig = s.toSessionConfig ∧
      s.delivered <+: (frames.foldl (replay_extension «namespace») s).delivered := by
  induction frames generalizing s with
  | nil => exact ⟨rfl, List.prefix_rfl⟩
  | cons bytes frames ih =>
    obtain ⟨hconfig, hdelivered⟩ := s.replay_extension_delivered «namespace» bytes
    obtain ⟨hrest, hprefix⟩ := ih (s.replay_extension «namespace» bytes)
    refine ⟨hrest.trans hconfig, List.IsPrefix.trans ?_ hprefix⟩
    rcases hdelivered with hsame | ⟨frame, -, hnew⟩
    · rw [hsame]
    · rw [hnew]
      exact List.prefix_append _ _

/-- An extension frame of the log is among those that are replayed. -/
theorem mem_replayed {«namespace» : FixedBytes 16} {frames : List Bytes} {s : Session}
    {bytes : Bytes} (hmem : bytes ∈ frames) {verified : VerifiedMessage} {ext : ExtensionV1}
    (hread : decode_for_session s.toSessionConfig bytes = .ok verified)
    (hbody : verified.body = some (.Extension ext)) (hsame : ext.namespace = «namespace») :
    ∃ news, (frames.foldl (replay_extension «namespace») s).delivered = s.delivered ++ news ∧
      verified.frame ext ∈ news := by
  obtain ⟨before, after, rfl⟩ := List.append_of_mem hmem
  rw [List.foldl_append, List.foldl_cons]
  obtain ⟨hconfig, news, hbefore⟩ := replayed_prefix «namespace» before s
  generalize before.foldl (replay_extension «namespace») s = s₁ at hconfig hbefore
  have hhit : (s₁.replay_extension «namespace» bytes).delivered =
      s₁.delivered ++ [verified.frame ext] := by
    unfold replay_extension
    rw [hconfig, hread]
    simp only [hbody, hsame, if_true]
    rw [← hsame]
    rfl
  obtain ⟨-, rest, hafter⟩ :=
    replayed_prefix «namespace» after (s₁.replay_extension «namespace» bytes)
  refine ⟨news ++ [verified.frame ext] ++ rest, ?_, by simp⟩
  rw [← hafter, hhit, ← hbefore]
  simp

end Session

/-- A status that does not fit is refused and changes nothing. One that fits goes
out as one frame: a member that listens, lets it in and did not see it before is
told who says it, one that has room keeps it, and who starts to listen at a
member that kept it is told of it then. -/
theorem statuses_reach_their_listeners (hw : Crypto.Works) (s : Session) (hs : ¬ s.blind)
    (status : String) (draw : Draw) :
    (¬ presence.Fits status →
      ∃ text, presence.announce s status draw = (.error (.Protocol (.Malformed text)), s)) ∧
    (presence.Fits status → ∃ bytes,
      (presence.announce s status draw).2.sent = s.sent ++ [bytes] ∧
      ∀ member : Session, member.SharesDrop s.toSessionConfig →
        (∀ peer world, member.admits peer world.draw.now = true →
          member.state.is_fresh (s.self_id, draw.id) world.draw.now = true →
            (presence.PRESENCE_NAMESPACE ∈ member.extension_sinks → ∃ frame,
              (member.receive bytes peer world).delivered = member.delivered ++ [frame] ∧
                presence.decode frame = some ⟨s.self_id, status⟩) ∧
            (member.state.keeps .Unknown bytes →
              bytes ∈ (member.receive bytes peer world).state.sync_log)) ∧
        (bytes ∈ member.state.sync_log → ∃ news,
          (presence.subscribe member).delivered = member.delivered ++ news ∧
            ∃ frame ∈ news, presence.decode frame = some ⟨s.self_id, status⟩)) := by
  refine ⟨fun h => presence.announce_unfit s h draw, fun h => ?_⟩
  obtain ⟨bytes, hsent, henc⟩ := presence.announce_fits hw hs h draw
  refine ⟨bytes, hsent, fun member hshares => ?_⟩
  obtain ⟨verified, hread, hkey, hbody, hdecode⟩ := presence.reads_beacon hw h henc hshares
  constructor
  · intro peer world hadmits hfresh
    rw [← hkey] at hfresh
    constructor
    · intro hsink
      refine ⟨_, ?_, hdecode⟩
      unfold Session.receive
      rw [hread]
      simp only [Session.handle_message_fresh member hadmits hfresh]
      rw [Session.dispatch_extension _ hbody]
      exact if_pos hsink
    · intro hkeeps
      have hroom : member.state.keeps (Session.retainable verified.body) bytes := by
        rw [hbody]
        exact hkeeps
      exact received_is_kept hread hadmits hfresh hroom
  · intro hlog
    obtain ⟨news, hnews, hframe⟩ := Session.mem_replayed
      (s := { member with
        extension_sinks := member.extension_sinks.insert presence.PRESENCE_NAMESPACE () })
      hlog hread hbody rfl
    exact ⟨news, hnews, _, hframe, hdecode⟩

end Laws

/-! ## A status -/

theorem online_fits : presence.Fits "online" := by
  constructor
  · decide
  · decide

namespace one_status

def topic : TopicId := ⟨.fill 32 8⟩
def secret : SecretKey := ⟨.fill 32 2⟩

/-- What the author signed: that it is there. -/
def message : MessageV1 := .new (.Extension (presence.beacon "online")) (.fill 16 4) 0

def signed : List Signed := [.encode message topic]

/-- Primitives under which this was signed alone, and nothing was sealed. -/
local instance recorded : Crypto :=
  { Crypto.clear with
    verify := fun key m sig => decide (m = signing_input SIGN_DOMAIN topic
      (MessageV1.codec.write message) ∧ sig.bytes = key.bytes ++ key.bytes)
    decrypt := fun _ _ _ _ => none }

theorem ideal_signatures : IdealSignatures secret signed := by
  constructor
  · intro s hs
    rw [List.mem_singleton.mp hs]
    exact decide_eq_true ⟨rfl, rfl⟩
  · intro m sig h
    exact ⟨_, List.mem_singleton_self _, (of_decide_eq_true h).1.symm⟩
  · intro m m' sig h h'
    exact (of_decide_eq_true h).1.trans (of_decide_eq_true h').1.symm

theorem ideal_seals : IdealSeals [] := by
  constructor
  · intro call hcall
    cases hcall
  · intro key nonce aad ciphertext inner_bytes h
    cases h
  · intro call hcall
    cases hcall
  · intro call hcall
    cases hcall

theorem nothing_sealed : SealsWhatItSigns secret signed [] := by
  intro message' drop_key topic' nonce ciphertext hs
  cases List.mem_singleton.mp hs

def member : Session :=
  .new ⟨.fill 32 1⟩ {} PolicyDecider topic (.nodeless topic.as_bytes none) none (fun _ => .NotFound)

def world : IntakeWorld :=
  { draw := { now := 0, sent_at_ms := 0, id := .fill 16 3, nonce := .fill 24 0, carried := .ok () }
    announced_at_ms := 0 }

/-- The frame of the beacon. -/
def bytes : Bytes := (message.encode secret topic).toOption.getD []

/-- A member starts to listen, and the beacon comes in. -/
def steps : List HubStep :=
  [.open_channel presence.PRESENCE_NAMESPACE, .subscribe 0, .snapshot 0,
    .take bytes secret.public world, .act 0 world]

theorem told : ((Hub.quiet member).run steps).session.delivered =
    [⟨secret.public, .fill 16 4, presence.PRESENCE_NAMESPACE, 1, 1, presence.as_bytes "online"⟩] := by
  decide +kernel

/-- The member is told a status, and it is the one that was signed. -/
theorem the_author_is_online : ∃ frame ∈ ((Hub.quiet member).run steps).session.delivered,
    presence.decode frame = some ⟨secret.public, "online"⟩ ∧
      ∃ message ext, member.Signs signed message ∧ message.id = frame.id ∧
        message.body.decode = .ok (some (.Extension ext)) ∧
        ext.namespace = presence.PRESENCE_NAMESPACE ∧
        ext.local_kind = presence.PRESENCE_KIND_STATUS ∧
        ext.payload = presence.as_bytes "online" := by
  have hmem : (⟨secret.public, .fill 16 4, presence.PRESENCE_NAMESPACE, 1, 1,
      presence.as_bytes "online"⟩ : ExtensionFrame) ∈
        ((Hub.quiet member).run steps).session.delivered := by
    rw [told]
    exact List.mem_singleton_self _
  have hsays : presence.decode ⟨secret.public, .fill 16 4, presence.PRESENCE_NAMESPACE, 1, 1,
      presence.as_bytes "online"⟩ = some ⟨secret.public, "online"⟩ :=
    presence.decode_eq_some.mpr ⟨rfl, rfl, rfl, online_fits, rfl⟩
  exact ⟨_, hmem, hsays, (statuses_are_their_authors secret signed [] ideal_signatures ideal_seals
    nothing_sealed member rfl steps _ hmem _ hsays rfl).2⟩

end one_status

/-! ## A status that goes out -/

namespace status_out

local instance : Crypto := Crypto.clear

def topic : TopicId := ⟨.fill 32 8⟩

def author : Session :=
  .new ⟨.fill 32 2⟩ {} PolicyDecider topic (.nodeless topic.as_bytes none) none (fun _ => .NotFound)

def draw : Draw :=
  { now := 0, sent_at_ms := 0, id := .fill 16 4, nonce := .fill 24 0, carried := .ok () }

/-- The law at work on the status of a public session. -/
theorem online_reaches_its_listeners : ∃ bytes,
    (presence.announce author "online" draw).2.sent = author.sent ++ [bytes] ∧
    ∀ member : Session, member.SharesDrop author.toSessionConfig →
      (∀ peer world, member.admits peer world.draw.now = true →
        member.state.is_fresh (author.self_id, draw.id) world.draw.now = true →
          (presence.PRESENCE_NAMESPACE ∈ member.extension_sinks → ∃ frame,
            (member.receive bytes peer world).delivered = member.delivered ++ [frame] ∧
              presence.decode frame = some ⟨author.self_id, "online"⟩) ∧
          (member.state.keeps .Unknown bytes →
            bytes ∈ (member.receive bytes peer world).state.sync_log)) ∧
      (bytes ∈ member.state.sync_log → ∃ news,
        (presence.subscribe member).delivered = member.delivered ++ news ∧
          ∃ frame ∈ news, presence.decode frame = some ⟨author.self_id, "online"⟩) := by
  have hseen : ¬ author.blind := by
    rintro ⟨hmode, -⟩
    cases hmode
  have hw : Crypto.Works := Crypto.clear_works
  exact (statuses_reach_their_listeners hw author hseen "online" draw).2 online_fits

end status_out

end iroh_drop
