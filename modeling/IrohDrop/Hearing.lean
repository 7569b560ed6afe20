-- What the other members of a drop make of the frames that a session sends,
-- and which blobs they take it to serve.
import IrohDrop.Convergence
import IrohDrop.Delivery
import IrohDrop.Speech
import IrohDrop.Uniqueness

open rust_std postcard

namespace iroh_drop

section Laws

variable [Crypto]

/-! ## Frames that read back -/

/-- Signatures verify, and what is sealed opens again: the cipher adds a tag of
16 bytes, and refuses nothing. -/
structure Crypto.Works : Prop where
  signatures : Crypto.SignaturesVerify
  seals : ∀ key nonce aad msg, ∃ ciphertext, Crypto.encrypt key nonce aad msg = some ciphertext ∧
    ciphertext.length = msg.length + 16 ∧ Crypto.decrypt key nonce aad ciphertext = some msg

omit [Crypto] in
/-- The toy primitives work. -/
theorem Crypto.clear_works : @Crypto.Works Crypto.clear := by
  refine @Crypto.Works.mk Crypto.clear Crypto.clear_signatures_verify
    fun key nonce aad msg => ⟨msg ++ List.replicate 16 0, rfl, by simp, ?_⟩
  change some ((msg ++ List.replicate 16 0).take ((msg ++ List.replicate 16 0).length - 16)) = _
  simp

theorem open_sealed_sealed (hw : Crypto.Works) {drop_key : DropKey} {topic : TopicId}
    {author : EndpointId} {id : FixedBytes 16} {nonce : FixedBytes 24} {inner ciphertext : Bytes}
    (h : Crypto.encrypt (drop_key.aead_key topic) nonce (seal_aad author.as_bytes id) inner =
      some ciphertext) :
    open_sealed drop_key topic author id (nonce.bytes ++ ciphertext) = .ok inner := by
  obtain ⟨ciphertext', hencrypt, -, hdecrypt⟩ :=
    hw.seals (drop_key.aead_key topic) nonce (seal_aad author.as_bytes id) inner
  cases h.symm.trans hencrypt
  have hlen : nonce.bytes.length = NONCE_LEN := nonce.length_bytes
  have htake : (nonce.bytes ++ ciphertext).take NONCE_LEN = nonce.bytes := by
    rw [← hlen, List.take_left]
  have hdrop : (nonce.bytes ++ ciphertext).drop NONCE_LEN = ciphertext := by
    rw [← hlen, List.drop_left]
  have hnonce : FixedBytes.ofList? NONCE_LEN nonce.bytes = some nonce := FixedBytes.ofList?_bytes _
  simp only [open_sealed, htake, hdrop, hnonce, ok_or, hdecrypt, bind, Except.bind]

omit [Crypto] in
/-- An inner envelope within its limits reads back. -/
theorem read_inner {body : BodyEnvelopeV1}
    (h : (BodyEnvelopeV1.codec.write body).length ≤ MAX_BODY_SIZE) :
    take_from_bytes BodyEnvelopeV1.codec "sealed inner" (BodyEnvelopeV1.codec.write body) =
      .ok body := by
  have hfits : BodyEnvelopeV1.codec.fits body := by
    have hmax : MAX_BODY_SIZE < 2 ^ 64 := by decide
    simp only [BodyEnvelopeV1.codec, Codec.imap_write_length, Codec.pair_write_length,
      Codec.bytes_write_length] at h
    have hlt : body.payload.length < 2 ^ 64 := by omega
    simpa [BodyEnvelopeV1.codec] using hlt
  have hread := take_from_bytes_write BodyEnvelopeV1.codec "sealed inner" [] hfits
  rwa [List.append_nil] at hread

/-- A sealed frame whose signature verifies and whose body opens passes a holder
of the key up to the checks of the body. -/
theorem MessageV1.decode_sealed_opened {m : MessageV1} {secret : SecretKey} {drop_key : DropKey}
    {topic : TopicId} {nonce : FixedBytes 24} {bytes ciphertext : Bytes}
    (h : m.encode_sealed secret drop_key topic nonce = .ok bytes)
    (hencrypt : Crypto.encrypt (drop_key.aead_key topic) nonce
      (seal_aad secret.public.as_bytes m.id) (BodyEnvelopeV1.codec.write m.body) = some ciphertext)
    (hsigned : Crypto.verify secret.public.as_bytes (signing_input SEALED_SIGN_DOMAIN topic
        (MessageV1.codec.write (sealed_envelope m (nonce.bytes ++ ciphertext))))
      (Crypto.sign secret (signing_input SEALED_SIGN_DOMAIN topic
        (MessageV1.codec.write (sealed_envelope m (nonce.bytes ++ ciphertext))))) = true)
    (hopen : open_sealed drop_key topic secret.public m.id (nonce.bytes ++ ciphertext) =
      .ok (BodyEnvelopeV1.codec.write m.body)) :
    MessageV1.decode_sealed bytes drop_key topic =
      { m with version := SEALED_WIRE_VERSION : MessageV1 }.check_body secret.public := by
  obtain ⟨hinner, ciphertext', hencrypt', rfl, hlen⟩ := MessageV1.encode_sealed_eq_ok.mp h
  cases hencrypt.symm.trans hencrypt'
  obtain ⟨hframe, henvelope⟩ := read_envelope hlen
  have hsize : (MessageV1.codec.write (sealed_envelope m (nonce.bytes ++ ciphertext))).length ≤
      MAX_MESSAGE_SIZE := by
    rw [sign_frame_write_length] at hlen
    omega
  have hverify : MessageV1.verify_outer (sign_frame SEALED_SIGN_DOMAIN secret topic
      (MessageV1.codec.write (sealed_envelope m (nonce.bytes ++ ciphertext)))) SEALED_SIGN_DOMAIN
        topic = .ok { author := secret.public
                      message := sealed_envelope m (nonce.bytes ++ ciphertext), body := none } := by
    simp only [MessageV1.verify_outer, MessageV1.verify_input, bind_eq_ok, ensure_eq_ok,
      exists_const, ok_or_eq_ok]
    exact ⟨hsize, secret.public, EndpointId.from_as_bytes _, Crypto.sign secret _,
      FixedBytes.ofList?_bytes _, hsigned, _, henvelope, rfl⟩
  have hread := read_inner hinner
  generalize henv : sealed_envelope m (nonce.bytes ++ ciphertext) = outer at *
  have hversion : outer.version = SEALED_WIRE_VERSION := henv ▸ rfl
  have hkind : outer.body.kind = KIND_SEALED := henv ▸ rfl
  have hid : outer.id = m.id := henv ▸ rfl
  have hsent : outer.sent_at_ms = m.sent_at_ms := henv ▸ rfl
  have hpayload : outer.body.payload = nonce.bytes ++ ciphertext := henv ▸ rfl
  unfold MessageV1.decode_sealed MessageV1.check_body
  simp only [ensure, hlen, if_true, hframe, MessageV1.verify_diagnosed, hverify, hversion, hkind,
    hid, hsent, hpayload, hopen, hinner, hread, bind, Except.bind]

/-- A sealed frame passes a holder of the key up to the checks of the body. -/
theorem MessageV1.decode_sealed_encode (hw : Crypto.Works) {m : MessageV1} {secret : SecretKey}
    {drop_key : DropKey} {topic : TopicId} {nonce : FixedBytes 24} {bytes : Bytes}
    (h : m.encode_sealed secret drop_key topic nonce = .ok bytes) :
    MessageV1.decode_sealed bytes drop_key topic =
      { m with version := SEALED_WIRE_VERSION : MessageV1 }.check_body secret.public := by
  obtain ⟨-, ciphertext, hencrypt, -⟩ := MessageV1.encode_sealed_eq_ok.mp h
  exact MessageV1.decode_sealed_opened h hencrypt (hw.signatures secret _)
    (open_sealed_sealed hw hencrypt)

theorem MessageV1.check_body_eq {m : MessageV1} {body : MessageBodyV1}
    (hbody : m.body = .encode body) {author : EndpointId} {v : VerifiedMessage}
    (h : m.check_body author = .ok v) : v = { author, message := m, body := some body } := by
  simp only [MessageV1.check_body, bind_eq_ok, ensure_eq_ok, exists_const, pure, Except.pure,
    Except.ok.injEq] at h
  obtain ⟨hsize, body', hdecode, -, -, rfl⟩ := h
  rw [hbody] at hsize hdecode
  cases hdecode.symm.trans (BodyEnvelopeV1.decode_encode hsize)
  rfl

theorem MessageV1.check_body_receivable {m : MessageV1} {body : MessageBodyV1}
    (hbody : m.body = .encode body) (hreceivable : body.receivable) (author : EndpointId) :
    m.check_body author = .ok { author, message := m, body := some body } := by
  obtain ⟨hsize, hvalid⟩ := hreceivable
  simp only [MessageV1.check_body, bind_eq_ok, ensure_eq_ok, exists_const]
  rw [hbody]
  exact ⟨hsize, some body, BodyEnvelopeV1.decode_encode hsize, (), hvalid, rfl⟩

/-- The message is what the session says with the body under the id. -/
structure VerifiedMessage.Tells (m : VerifiedMessage) (author : EndpointId) (body : MessageBodyV1)
    (id : FixedBytes 16) : Prop where
  author : m.author = author
  id : m.message.id = id
  body : m.body = some body

/-- The session may say nothing of its own. -/
def SessionConfig.blind (self : SessionConfig) : Prop := self.mode = .Sealed ∧ self.drop_key = none

/-- The frame of a body is checked as a message with that body. -/
theorem decode_encoded (hw : Crypto.Works) {c : SessionConfig} {body : MessageBodyV1}
    {id : FixedBytes 16} {ms : UInt64} {nonce : FixedBytes 24} {frame : Bytes}
    (h : Session.encode_for_session c (.new body id ms) nonce = .ok frame) :
    ∃ m : MessageV1, m.id = id ∧ m.body = .encode body ∧
      Session.decode_for_session c frame = m.check_body c.secret.public := by
  rcases hm : c.mode with _ | _
  · simp only [Session.encode_for_session, Session.decode_for_session, hm] at h ⊢
    exact ⟨_, rfl, rfl, MessageV1.decode_encode hw.signatures rfl h⟩
  · rcases hk : c.drop_key with _ | key
    · simp only [Session.encode_for_session, hm, hk] at h
      cases h
    · simp only [Session.encode_for_session, Session.decode_for_session, hm, hk] at h ⊢
      exact ⟨_, rfl, rfl, MessageV1.decode_sealed_encode hw h⟩

theorem encodes_provider (hw : Crypto.Works) {c : SessionConfig} (hc : ¬ c.blind)
    (provider : ProviderV1) (id : FixedBytes 16) (ms : UInt64) (nonce : FixedBytes 24) :
    ∃ frame, Session.encode_for_session c (.new (.Provider provider) id ms) nonce = .ok frame := by
  unfold Session.encode_for_session
  split
  · rename_i key hm hk
    have hinner : (BodyEnvelopeV1.codec.write (.encode (.Provider provider))).length ≤ 57 := by
      have hkind := Codec.u16_write_length_le (BodyEnvelopeV1.encode (.Provider provider)).kind
      have hpayload : (BodyEnvelopeV1.encode (.Provider provider)).payload.length ≤ 44 :=
        provider.write_length_le
      have hvarint :=
        writeVarint_length_le 10 (BodyEnvelopeV1.encode (.Provider provider)).payload.length
      simp only [BodyEnvelopeV1.codec, Codec.imap_write_length, Codec.pair_write_length,
        Codec.bytes_write_length]
      unfold varintLen
      omega
    obtain ⟨ciphertext, hencrypt, hlength, -⟩ := hw.seals (key.aead_key c.topic_id) nonce
      (seal_aad c.secret.public.as_bytes id) (BodyEnvelopeV1.codec.write (.encode (.Provider provider)))
    refine ⟨_, MessageV1.encode_sealed_eq_ok.mpr ⟨?_, ciphertext, hencrypt, rfl, ?_⟩⟩
    · have hmax : 57 ≤ MAX_BODY_SIZE := by decide
      exact hinner.trans hmax
    · have hnonce : nonce.bytes.length = 24 := nonce.length_bytes
      generalize henv : sealed_envelope (.new (.Provider provider) id ms)
        (nonce.bytes ++ ciphertext) = outer
      have hpayload : outer.body.payload.length ≤ 97 := by
        subst henv
        rw [sealed_envelope, List.length_append]
        omega
      have hwrite := outer.write_length
      have hversion := Codec.u16_write_length_le outer.version
      have hsent := Codec.u64_write_length_le outer.sent_at_ms
      have hkind := Codec.u16_write_length_le outer.body.kind
      have hvarint := writeVarint_length_le 10 outer.body.payload.length
      have hvarint' := writeVarint_length_le 10 (MessageV1.codec.write outer).length
      rw [sign_frame_write_length, MAX_MESSAGE_SIZE]
      unfold varintLen at *
      omega
  · rename_i hm hk
    exact absurd ⟨hm, hk⟩ hc
  · exact encode_provider_ok provider id ms c.secret c.topic_id

/-! ## What is heard of a session -/

/-- What a member of the drop reads in a frame. -/
def SessionConfig.reads (self : SessionConfig) (frame : Bytes) : Option VerifiedMessage :=
  (Session.decode_for_session self frame).toOption

/-- The messages of a session, in the order in which it sent them. -/
def Session.said (self : Session) : List VerifiedMessage :=
  self.sent.filterMap self.toSessionConfig.reads

theorem said_append {s s' : Session} (hconfig : s'.toSessionConfig = s.toSessionConfig)
    {frames : List Bytes} (hsent : s'.sent = s.sent ++ frames) :
    s'.said = s.said ++ frames.filterMap s.toSessionConfig.reads := by
  unfold Session.said
  rw [hconfig, hsent, List.filterMap_append]

theorem said_same {s s' : Session} (hconfig : s'.toSessionConfig = s.toSessionConfig)
    (hsent : s'.sent = s.sent) : s'.said = s.said := by
  unfold Session.said
  rw [hconfig, hsent]

/-- A message that encodes is one frame more. -/
theorem said_encoded (hw : Crypto.Works) {s : Session} {body : MessageBodyV1} {draw : Draw}
    {frame : Bytes} (henc : Session.encode_for_session s.toSessionConfig
      (.new body draw.id draw.sent_at_ms) draw.nonce = .ok frame) :
    ∃ m : MessageV1, m.id = draw.id ∧ m.body = .encode body ∧ (s.broadcast body draw).2.said =
      s.said ++ (m.check_body s.self_id).toOption.toList := by
  obtain ⟨m, hid, hbody, hdecode⟩ := decode_encoded hw henc
  refine ⟨m, hid, hbody, ?_⟩
  have hsaid : (s.broadcast body draw).2.said =
      s.said ++ [frame].filterMap s.toSessionConfig.reads := by
    apply said_append
    · unfold Session.broadcast Session.broadcast_signed
      rw [henc]
      rfl
    · unfold Session.broadcast Session.broadcast_signed
      rw [henc]
      rfl
  have hreads : s.toSessionConfig.reads frame = (m.check_body s.self_id).toOption :=
    congrArg Except.toOption hdecode
  rw [hsaid, List.filterMap_cons, hreads]
  rcases (m.check_body s.self_id).toOption with _ | v <;> rfl

/-- Whatever becomes of a broadcast, no more is heard of it than its body. -/
theorem said_broadcast (hw : Crypto.Works) (s : Session) (body : MessageBodyV1) (draw : Draw) :
    (s.broadcast body draw).2.said = s.said ∨
      ∃ m : VerifiedMessage, m.Tells s.self_id body draw.id ∧
        (s.broadcast body draw).2.said = s.said ++ [m] := by
  rcases henc : Session.encode_for_session s.toSessionConfig (.new body draw.id draw.sent_at_ms)
    draw.nonce with e | frame
  · left
    unfold Session.broadcast Session.broadcast_signed
    rw [henc]
  · obtain ⟨m, hid, hbody, hsaid⟩ := said_encoded hw henc
    rw [hsaid]
    rcases hcheck : m.check_body s.self_id with e | v
    · exact .inl (List.append_nil _)
    · cases MessageV1.check_body_eq hbody hcheck
      exact .inr ⟨_, ⟨rfl, hid, rfl⟩, rfl⟩

/-- Provider assertions of a session that may speak are heard. -/
theorem said_announce (hw : Crypto.Works) {s : Session} (hs : ¬ s.blind) (hash : BlobHash)
    (state : ProviderState) (ms : UInt64) (draw : Draw) :
    ∃ m : VerifiedMessage, m.Tells s.self_id (.Provider ⟨hash, state, some ms⟩) draw.id ∧
      (s.announce hash state ms draw).2.said = s.said ++ [m] := by
  obtain ⟨frame, henc⟩ := encodes_provider hw hs ⟨hash, state, some ms⟩ draw.id draw.sent_at_ms
    draw.nonce
  obtain ⟨m, hid, hbody, hsaid⟩ := said_encoded hw henc
  rw [MessageV1.check_body_receivable hbody (provider_receivable _)] at hsaid
  exact ⟨_, ⟨rfl, hid, rfl⟩, hsaid⟩

/-- Nothing that a blind relay says has a body. -/
theorem said_blind {s : Session} (hs : s.blind) {m : VerifiedMessage} (hm : m ∈ s.said) :
    m.body = none := by
  obtain ⟨frame, -, hreads⟩ := List.mem_filterMap.mp hm
  unfold SessionConfig.reads Session.decode_for_session at hreads
  rw [hs.1, hs.2] at hreads
  rcases hd : MessageV1.verify_sealed_outer frame s.topic_id with e | v
  · rw [hd] at hreads
    cases hreads
  · rw [hd] at hreads
    cases hreads
    exact verify_sealed_outer_body hd

/-- The plain answer of a sealed session is heard by nobody. -/
theorem plain_unread {c : SessionConfig} (hm : c.mode = .Sealed) {m : MessageV1} {frame : Bytes}
    (hv : m.version = WIRE_VERSION) (h : m.encode c.secret c.topic_id = .ok frame) :
    c.reads frame = none := by
  obtain ⟨rfl, hlen⟩ := MessageV1.encode_eq_ok.mp h
  obtain ⟨hframe, henvelope⟩ := read_envelope hlen
  generalize houter : sign_frame SIGN_DOMAIN c.secret c.topic_id (MessageV1.codec.write m) = outer
    at hframe
  have hpayload : outer.payload = MessageV1.codec.write m := houter ▸ rfl
  -- Whoever verifies the frame finds an envelope of the plain version.
  have hplain : ∀ v, MessageV1.verify_outer outer SEALED_SIGN_DOMAIN c.topic_id = .ok v →
      v.message.version ≠ SEALED_WIRE_VERSION := by
    intro v hv' hsealed
    have hmessage := (verify_outer_names hv').1
    rw [hpayload, henvelope] at hmessage
    cases hmessage
    rw [hv] at hsealed
    cases hsealed
  unfold SessionConfig.reads Session.decode_for_session
  rw [hm]
  rcases hk : c.drop_key with _ | key
  · rcases hd : MessageV1.verify_sealed_outer (SignedMessageV1.codec.write outer) c.topic_id
      with e | v
    · rfl
    · simp only [MessageV1.verify_sealed_outer, bind_eq_ok, hframe, Except.ok.injEq,
        exists_eq_left', ensure_eq_ok] at hd
      obtain ⟨-, -, v', hverify, -, hversion, -⟩ := hd
      exact absurd hversion (hplain v' hverify)
  · rcases hd : MessageV1.decode_sealed (SignedMessageV1.codec.write outer) key c.topic_id
      with e | v
    · simp only [hd]
      rfl
    · simp only [MessageV1.decode_sealed, bind_eq_ok, hframe, Except.ok.injEq,
        exists_eq_left', ensure_eq_ok] at hd
      obtain ⟨-, -, v', hverify, -, hversion, -⟩ := hd
      exact absurd hversion (hplain v' (verify_diagnosed_ok hverify))

/-- The answer to a request is heard in a public drop, and only there. -/
theorem said_reply (hw : Crypto.Works) (s : Session) (hash : BlobHash) (world : IntakeWorld) :
    (s.reply_available hash world).said = s.said ∨
      s.mode = .Public ∧ ∃ m : VerifiedMessage,
        m.Tells s.self_id (.Provider ⟨hash, .Available, some world.announced_at_ms⟩) world.draw.id ∧
          (s.reply_available hash world).said = s.said ++ [m] := by
  obtain ⟨frame, henc⟩ := encode_provider_ok ⟨hash, .Available, some world.announced_at_ms⟩
    world.draw.id world.draw.sent_at_ms s.secret s.topic_id
  have hsaid : (s.reply_available hash world).said =
      s.said ++ [frame].filterMap s.toSessionConfig.reads := by
    apply said_append
    · unfold Session.reply_available
      simp only [henc]
      rfl
    · unfold Session.reply_available
      simp only [henc]
      rfl
  rw [List.filterMap_cons, List.filterMap_nil] at hsaid
  rcases hm : s.mode with _ | _
  · have hpublic : Session.encode_for_session s.toSessionConfig
        (.new (.Provider ⟨hash, .Available, some world.announced_at_ms⟩) world.draw.id
          world.draw.sent_at_ms) world.draw.nonce = .ok frame := by
      unfold Session.encode_for_session
      rw [hm]
      exact henc
    obtain ⟨m, hid, hbody, hdecode⟩ := decode_encoded hw hpublic
    have hreads : s.toSessionConfig.reads frame = some
        { author := s.secret.public, message := m
          body := some (.Provider ⟨hash, .Available, some world.announced_at_ms⟩) } := by
      unfold SessionConfig.reads
      rw [hdecode, MessageV1.check_body_receivable hbody (provider_receivable _)]
      rfl
    rw [hreads] at hsaid
    exact .inr ⟨rfl, _, ⟨rfl, hid, rfl⟩, hsaid⟩
  · rw [plain_unread hm rfl henc] at hsaid
    exact .inl (hsaid.trans (List.append_nil _))

/-! ## Blobs that a session is taken to serve -/

/-- The body says that its author serves the hash: who offers a blob is taken
to have it. -/
def MessageBodyV1.claims (self : MessageBodyV1) (hash : BlobHash) : Prop :=
  match self with
  | .Offer offer => offer.blob_hash = hash
  | .Provider provider => provider.blob_hash = hash ∧ provider.state = .Available
  | _ => False

/-- The body says that its author serves the hash no more. -/
def MessageBodyV1.retracts (self : MessageBodyV1) (hash : BlobHash) : Prop :=
  match self with
  | .Provider provider => provider.blob_hash = hash ∧ provider.state = .Withdrawing
  | _ => False

namespace VerifiedMessage

def claims (self : VerifiedMessage) (hash : BlobHash) : Prop :=
  ∃ body, self.body = some body ∧ body.claims hash

def retracts (self : VerifiedMessage) (hash : BlobHash) : Prop :=
  ∃ body, self.body = some body ∧ body.retracts hash

variable {m : VerifiedMessage} {author : EndpointId} {body : MessageBodyV1} {id : FixedBytes 16}

theorem Tells.claims_iff (h : m.Tells author body id) (hash : BlobHash) :
    m.claims hash ↔ body.claims hash := by
  unfold claims
  rw [h.body]
  simp

theorem Tells.retracts_iff (h : m.Tells author body id) (hash : BlobHash) :
    m.retracts hash ↔ body.retracts hash := by
  unfold retracts
  rw [h.body]
  simp

end VerifiedMessage

/-- The hash was claimed, and not retracted since: a withdrawal is owed. -/
def Owed (messages : List VerifiedMessage) (hash : BlobHash) : Prop :=
  ∃ before m after, messages = before ++ m :: after ∧ m.claims hash ∧
    ∀ later ∈ after, ¬ later.retracts hash

theorem not_owed_nil (hash : BlobHash) : ¬ Owed [] hash := by
  rintro ⟨before, m, after, heq, -⟩
  simp at heq

theorem owed_push (messages : List VerifiedMessage) (m : VerifiedMessage) (hash : BlobHash) :
    Owed (messages ++ [m]) hash ↔ m.claims hash ∨ Owed messages hash ∧ ¬ m.retracts hash := by
  constructor
  · rintro ⟨before, claim, after, heq, hclaims, hafter⟩
    rcases List.eq_nil_or_concat after with rfl | ⟨rest, last, rfl⟩
    · obtain ⟨-, hlast⟩ := List.append_inj' heq rfl
      obtain rfl : m = claim := by simpa using hlast
      exact .inl hclaims
    · rw [List.concat_eq_append, ← List.cons_append, ← List.append_assoc] at heq
      obtain ⟨hmessages, hlast⟩ := List.append_inj' heq rfl
      obtain rfl : m = last := by simpa using hlast
      refine .inr ⟨⟨before, claim, rest, hmessages, hclaims, ?_⟩, ?_⟩
      · exact fun later hlater => hafter later (by simp [hlater])
      · exact hafter m (by simp)
  · rintro (hclaims | ⟨⟨before, claim, after, rfl, hclaims, hafter⟩, hnot⟩)
    · exact ⟨messages, m, [], rfl, hclaims, fun _ h => absurd h List.not_mem_nil⟩
    · refine ⟨before, claim, after ++ [m], by simp, hclaims, ?_⟩
      intro later hlater
      rcases List.mem_append.mp hlater with hlater | hlater
      · exact hafter later hlater
      · rw [List.mem_singleton.mp hlater]
        exact hnot

/-- A blind relay owes nothing. -/
theorem not_owed_blind {s : Session} (hs : s.blind) (hash : BlobHash) : ¬ Owed s.said hash := by
  rintro ⟨before, m, after, heq, ⟨body, hbody, -⟩, -⟩
  have hnone := said_blind hs (m := m) (by rw [heq]; simp)
  rw [hbody] at hnone
  cases hnone

end Laws

end iroh_drop
