-- The laws of sealed frames: what a holder of the key reads back, what the
-- seal binds to the header, and what a relay without the key lets through.
import IrohDrop.Hearing
import IrohDrop.Signatures

open rust_std postcard

namespace iroh_drop

section Laws

variable [Crypto]

/-! ## Sizes -/

/-- XChaCha20-Poly1305 adds a tag of 16 bytes to what it encrypts. -/
def Crypto.AddsTag : Prop :=
  ∀ key nonce aad msg ciphertext, Crypto.encrypt key nonce aad msg = some ciphertext →
    ciphertext.length = msg.length + 16

/-- What a sealed body is longer than its inner envelope: the nonce and the
tag. -/
def SEAL_OVERHEAD : Nat := NONCE_LEN + 16

theorem sealed_payload_length (htag : Crypto.AddsTag) {key : FixedBytes 32} {nonce : FixedBytes 24}
    {aad inner ciphertext : Bytes} (h : Crypto.encrypt key nonce aad inner = some ciphertext) :
    (nonce.bytes ++ ciphertext).length = inner.length + SEAL_OVERHEAD := by
  have hlen := htag _ _ _ _ _ h
  simp only [List.length_append, FixedBytes.length_bytes, SEAL_OVERHEAD, NONCE_LEN]
  omega

/-! ## Relays -/

theorem verify_outer_body {outer : SignedMessageV1} {domain : Bytes} {topic : TopicId}
    {verified : VerifiedMessage} (h : MessageV1.verify_outer outer domain topic = .ok verified) :
    verified.body = none := by
  simp only [MessageV1.verify_outer, MessageV1.verify_input, bind_eq_ok, pure, Except.pure,
    Except.ok.injEq] at h
  obtain ⟨-, -, -, -, -, -, -, -, -, -, rfl⟩ := h
  rfl

/-- A frame that a holder of the key reads was written as an outer envelope
that verifies. -/
theorem outer_of_encoded {m : MessageV1} {secret : SecretKey} {drop_key : DropKey}
    {topic : TopicId} {nonce : FixedBytes 24} {bytes : Bytes} {verified : VerifiedMessage}
    (henc : m.encode_sealed secret drop_key topic nonce = .ok bytes)
    (hdec : MessageV1.decode_sealed bytes drop_key topic = .ok verified) :
    ∃ ciphertext outer, Crypto.encrypt (drop_key.aead_key topic) nonce
        (seal_aad secret.public.as_bytes m.id) (BodyEnvelopeV1.codec.write m.body) =
          some ciphertext ∧
      bytes.length ≤ MAX_MESSAGE_SIZE ∧
      take_from_bytes SignedMessageV1.codec "frame" bytes = .ok outer ∧
      MessageV1.verify_outer outer SEALED_SIGN_DOMAIN topic = .ok
        { author := verified.author, message := sealed_envelope m (nonce.bytes ++ ciphertext)
          body := none } ∧
      verified.message.id = m.id := by
  obtain ⟨-, ciphertext, hencrypt, hbytes, hlen⟩ := MessageV1.encode_sealed_eq_ok.mp henc
  obtain ⟨hframe, henvelope⟩ := read_envelope (hbytes ▸ hlen)
  rw [← hbytes] at hframe
  simp only [MessageV1.decode_sealed, bind_eq_ok, pure, Except.pure, Except.ok.injEq] at hdec
  obtain ⟨-, -, outer, houter, v, hv, -, -, -, -, inner_bytes, -, -, -, inner, -, -, -, body, -, -,
    -, rfl⟩ := hdec
  cases hframe.symm.trans houter
  have hverify := verify_diagnosed_ok hv
  obtain ⟨-, hread, -⟩ := verify_outer_spec hverify
  have hmessage : v.message = sealed_envelope m (nonce.bytes ++ ciphertext) :=
    Except.ok.inj (hread.symm.trans henvelope)
  have hbody := verify_outer_body hverify
  refine ⟨ciphertext, _, hencrypt, hlen, hframe, ?_, ?_⟩
  · rw [hverify, ← hmessage]
    cases v
    cases hbody
    rfl
  · have hid := congrArg MessageV1.id hmessage
    exact hid

/-- A relay reads the frame as its outer envelope, when the sealed body fits. -/
theorem relay_reads_iff (htag : Crypto.AddsTag) {m : MessageV1} {secret : SecretKey}
    {drop_key : DropKey} {topic : TopicId} {nonce : FixedBytes 24} {bytes : Bytes}
    {verified : VerifiedMessage} (henc : m.encode_sealed secret drop_key topic nonce = .ok bytes)
    (hdec : MessageV1.decode_sealed bytes drop_key topic = .ok verified)
    (relayed : VerifiedMessage) :
    MessageV1.verify_sealed_outer bytes topic = .ok relayed ↔
      (BodyEnvelopeV1.codec.write m.body).length + SEAL_OVERHEAD ≤ MAX_BODY_SIZE ∧
        ∃ ciphertext, Crypto.encrypt (drop_key.aead_key topic) nonce
            (seal_aad secret.public.as_bytes m.id) (BodyEnvelopeV1.codec.write m.body) =
              some ciphertext ∧
          relayed = { author := verified.author
                      message := sealed_envelope m (nonce.bytes ++ ciphertext), body := none } := by
  obtain ⟨ciphertext, outer, hencrypt, hlen, hframe, hverify, -⟩ := outer_of_encoded henc hdec
  have hsize := sealed_payload_length htag hencrypt
  have hpayload : (sealed_envelope m (nonce.bytes ++ ciphertext)).body.payload =
      nonce.bytes ++ ciphertext := rfl
  simp only [MessageV1.verify_sealed_outer, bind_eq_ok, ensure_eq_ok, exists_const, pure,
    Except.pure, Except.ok.injEq, hframe, exists_eq_left', hverify, hencrypt, hpayload, hsize,
    Option.some.injEq]
  constructor
  · rintro ⟨-, -, -, hfits, rfl⟩
    exact ⟨hfits, rfl⟩
  · rintro ⟨hfits, rfl⟩
    exact ⟨hlen, rfl, rfl, hfits, rfl⟩

/-- A relay lets through what a holder of the key wrote and another one reads,
under the same author and id, just when the inner envelope leaves room for the
nonce and the tag. -/
theorem relay_carries_iff (htag : Crypto.AddsTag) (m : MessageV1) (secret : SecretKey)
    (drop_key : DropKey) (topic : TopicId) (nonce : FixedBytes 24) (bytes : Bytes)
    (verified : VerifiedMessage) (henc : m.encode_sealed secret drop_key topic nonce = .ok bytes)
    (hdec : MessageV1.decode_sealed bytes drop_key topic = .ok verified) :
    (∃ relayed, MessageV1.verify_sealed_outer bytes topic = .ok relayed ∧
        relayed.author = verified.author ∧ relayed.message.id = verified.message.id) ↔
      (BodyEnvelopeV1.codec.write m.body).length + SEAL_OVERHEAD ≤ MAX_BODY_SIZE := by
  obtain ⟨ciphertext, -, hencrypt, -, -, -, hid⟩ := outer_of_encoded henc hdec
  constructor
  · rintro ⟨relayed, hread, -⟩
    exact ((relay_reads_iff htag henc hdec relayed).mp hread).1
  · intro hfits
    exact ⟨_, (relay_reads_iff htag henc hdec _).mpr ⟨hfits, ciphertext, hencrypt, rfl⟩, rfl,
      hid.symm⟩

end Laws

/-! ## A body that is full -/

namespace full_body

local instance : Crypto := Crypto.clear

def secret : SecretKey := ⟨.fill 32 1⟩
def topic : TopicId := ⟨.fill 32 8⟩
def key : DropKey := ⟨.fill 32 9⟩
def nonce : FixedBytes 24 := .fill 24 0

theorem adds_tag : Crypto.AddsTag := by
  intro key nonce aad msg ciphertext h
  cases h
  simp

/-- The longest payload that a member can seal in an extension frame. -/
def payload : Bytes := List.replicate 64487 0

def body : MessageBodyV1 :=
  .Extension { «namespace» := .fill 16 1, local_kind := 0, schema_version := 0, payload }

def message : MessageV1 := .new body (.fill 16 3) 0

theorem body_length : (BodyEnvelopeV1.encode body).payload.length = 64508 := by
  have hpayload : payload.length = 64487 := List.length_replicate
  have hvarint : varintLen 64487 = 3 := rfl
  have hkinds : (Codec.u32.write 0).length = 1 ∧ (Codec.u16.write 0).length = 1 := ⟨rfl, rfl⟩
  simp only [BodyEnvelopeV1.encode, body, ExtensionV1.codec, Codec.imap_write_length,
    Codec.pair_write_length, Codec.fixed_write_length, Codec.bytes_write_length, hpayload, hvarint,
    hkinds]

/-- The inner envelope is as long as a body may be. -/
theorem inner_length : (BodyEnvelopeV1.codec.write message.body).length = MAX_BODY_SIZE := by
  have hbody : message.body.payload.length = 64508 := body_length
  have hvarint : varintLen 64508 = 3 := rfl
  have hkind : (Codec.u16.write message.body.kind).length = 1 := rfl
  simp only [BodyEnvelopeV1.codec, Codec.imap_write_length, Codec.pair_write_length,
    Codec.bytes_write_length, hbody, hvarint, hkind]
  rfl

/-- The frame fits the wire. -/
theorem encoded : ∃ bytes, message.encode_sealed secret key topic nonce = .ok bytes := by
  refine ⟨_, MessageV1.encode_sealed_eq_ok.mpr ⟨inner_length.le, _, rfl, rfl, ?_⟩⟩
  have hsealed : (sealed_envelope message (nonce.bytes ++ (BodyEnvelopeV1.codec.write message.body ++
      List.replicate 16 0))).body.payload.length = 64552 := by
    change (nonce.bytes ++ (BodyEnvelopeV1.codec.write message.body ++
      List.replicate 16 0)).length = 64552
    simp only [List.length_append, List.length_replicate, inner_length, FixedBytes.length_bytes]
    rfl
  have hfields : (Codec.u16.write SEALED_WIRE_VERSION).length = 1 ∧
      (Codec.u64.write (0 : UInt64)).length = 1 ∧ (Codec.u16.write KIND_SEALED).length = 1 :=
    ⟨rfl, rfl, rfl⟩
  have hvarints : varintLen 64552 = 3 ∧ varintLen 64574 = 3 := ⟨rfl, rfl⟩
  have henvelope : (MessageV1.codec.write (sealed_envelope message (nonce.bytes ++
      (BodyEnvelopeV1.codec.write message.body ++ List.replicate 16 0)))).length = 64574 := by
    rw [MessageV1.write_length, hsealed, hvarints.1]
    simp only [sealed_envelope, message, MessageV1.new, hfields]
  rw [sign_frame_write_length, henvelope, hvarints.2]
  decide

/-- Those who hold the key read the frame. -/
theorem read {bytes : Bytes} (h : message.encode_sealed secret key topic nonce = .ok bytes) :
    ∃ verified, MessageV1.decode_sealed bytes key topic = .ok verified := by
  rw [MessageV1.decode_sealed_encode Crypto.clear_works h]
  refine ⟨_, MessageV1.check_body_receivable (show _ = BodyEnvelopeV1.encode body from rfl) ⟨?_, ?_⟩ _⟩
  · have hbody : (BodyEnvelopeV1.encode body).payload.length = 64508 := body_length
    change (BodyEnvelopeV1.encode body).payload.length ≤ MAX_BODY_SIZE
    rw [hbody]
    decide
  · have hpayload : payload.length = 64487 := List.length_replicate
    refine ensure_eq_ok.mpr ?_
    change payload.length ≤ MAX_BODY_SIZE
    rw [hpayload]
    decide

/-- A relay does not carry the frame. -/
theorem a_full_body_is_not_relayed :
    ¬ ∀ [Crypto] (_ : Crypto.AddsTag) (m : MessageV1) (secret : SecretKey) (drop_key : DropKey)
      (topic : TopicId) (nonce : FixedBytes 24) (bytes : Bytes) (verified : VerifiedMessage),
      m.encode_sealed secret drop_key topic nonce = .ok bytes →
      MessageV1.decode_sealed bytes drop_key topic = .ok verified →
      ∃ relayed, MessageV1.verify_sealed_outer bytes topic = .ok relayed ∧
        relayed.author = verified.author ∧ relayed.message.id = verified.message.id := by
  intro h
  obtain ⟨bytes, henc⟩ := encoded
  obtain ⟨verified, hdec⟩ := read henc
  obtain ⟨relayed, hrelayed, -⟩ := h adds_tag message secret key topic nonce bytes verified henc hdec
  have hfits := ((relay_reads_iff adds_tag henc hdec relayed).mp hrelayed).1
  rw [inner_length] at hfits
  exact absurd hfits (by decide)

/-- A short message. -/
def request : MessageV1 := .new (.Request ⟨⟨.fill 32 7⟩⟩) (.fill 16 3) 0

def frame : Bytes :=
  match request.encode_sealed secret key topic nonce with
  | .ok bytes => bytes
  | .error _ => []

def seen : VerifiedMessage :=
  { author := secret.public, message := { request with version := SEALED_WIRE_VERSION }
    body := some (.Request ⟨⟨.fill 32 7⟩⟩) }

/-- The law at work on a request. -/
theorem a_request_is_relayed_iff :
    (∃ relayed, MessageV1.verify_sealed_outer frame topic = .ok relayed ∧
        relayed.author = seen.author ∧ relayed.message.id = seen.message.id) ↔
      (BodyEnvelopeV1.codec.write request.body).length + SEAL_OVERHEAD ≤ MAX_BODY_SIZE :=
  relay_carries_iff adds_tag request secret key topic nonce frame seen (by decide +kernel)
    (by decide +kernel)

end full_body

section Laws

variable [Crypto]

/-! ## What the seal binds -/

/-- One sealing of a body: by whom, for which drop, and what came of it. -/
structure SealCall where
  drop_key : DropKey
  topic : TopicId
  author : EndpointId
  id : FixedBytes 16
  nonce : FixedBytes 24
  inner_bytes : Bytes
  ciphertext : Bytes

namespace SealCall

/-- The key that the cipher ran under. -/
def key (self : SealCall) : FixedBytes 32 := self.drop_key.aead_key self.topic

def aad (self : SealCall) : Bytes := seal_aad self.author.as_bytes self.id

end SealCall

/-- The additional data tells the author and the id. -/
theorem seal_aad_injective {author author' : EndpointId} {id id' : FixedBytes 16}
    (h : seal_aad author.as_bytes id = seal_aad author'.as_bytes id') :
    author = author' ∧ id = id' := by
  obtain ⟨hauthor, hid⟩ := List.append_inj h (by simp)
  have hbytes : author.as_bytes = author'.as_bytes := FixedBytes.ext hauthor
  refine ⟨?_, FixedBytes.ext hid⟩
  cases author
  cases author'
  cases hbytes
  rfl

/-- An ideal AEAD and HKDF, where these sealings were ever made: what was sealed
opens, what opens was sealed under that key, nonce and additional data, no two
sealings give the same ciphertext, and a derived key is of one drop key and one
topic. -/
structure IdealSeals (made : List SealCall) : Prop where
  correct : ∀ call ∈ made,
    Crypto.decrypt call.key call.nonce call.aad call.ciphertext = some call.inner_bytes
  unforgeable : ∀ key nonce aad ciphertext inner_bytes,
    Crypto.decrypt key nonce aad ciphertext = some inner_bytes →
      ∃ call ∈ made, call.key = key ∧ call.nonce = nonce ∧ call.aad = aad ∧
        call.ciphertext = ciphertext ∧ call.inner_bytes = inner_bytes
  single : ∀ call ∈ made, ∀ other ∈ made, call.ciphertext = other.ciphertext → call = other
  hkdf : ∀ call ∈ made, ∀ (drop_key : DropKey) (topic : TopicId),
    drop_key.aead_key topic = call.key → drop_key = call.drop_key ∧ topic = call.topic

/-- What opens is a sealing under the drop key, for the topic, author and id. -/
theorem IdealSeals.opened {made : List SealCall} (h : IdealSeals made) {drop_key : DropKey}
    {topic : TopicId} {author : EndpointId} {id : FixedBytes 16} {sealed inner_bytes : Bytes}
    (hopen : open_sealed drop_key topic author id sealed = .ok inner_bytes) :
    ∃ nonce ciphertext, sealed = nonce.bytes ++ ciphertext ∧
      ⟨drop_key, topic, author, id, nonce, inner_bytes, ciphertext⟩ ∈ made := by
  simp only [open_sealed, bind_eq_ok, ok_or_eq_ok] at hopen
  obtain ⟨nonce, hnonce, hdecrypt⟩ := hopen
  have hsplit : sealed = nonce.bytes ++ sealed.drop NONCE_LEN := by
    rw [← ofList?_eq_some hnonce, List.take_append_drop]
  obtain ⟨call, hcall, hkey, hsame, haad, hciphertext, hinner⟩ := h.unforgeable _ _ _ _ _ hdecrypt
  obtain ⟨hdrop, htopic⟩ := h.hkdf call hcall _ _ hkey.symm
  obtain ⟨hauthor, hid⟩ := seal_aad_injective haad
  refine ⟨nonce, sealed.drop NONCE_LEN, hsplit, ?_⟩
  rw [hdrop, htopic, ← hauthor, ← hid, ← hsame, ← hinner, ← hciphertext]
  exact hcall

/-- What was sealed opens. -/
theorem IdealSeals.opens {made : List SealCall} (h : IdealSeals made) {call : SealCall}
    (hcall : call ∈ made) : open_sealed call.drop_key call.topic call.author call.id
      (call.nonce.bytes ++ call.ciphertext) = .ok call.inner_bytes := by
  have hlen : call.nonce.bytes.length = NONCE_LEN := call.nonce.length_bytes
  have htake : (call.nonce.bytes ++ call.ciphertext).take NONCE_LEN = call.nonce.bytes := by
    rw [← hlen, List.take_left]
  have hdrop : (call.nonce.bytes ++ call.ciphertext).drop NONCE_LEN = call.ciphertext := by
    rw [← hlen, List.drop_left]
  have hnonce : FixedBytes.ofList? NONCE_LEN call.nonce.bytes = some call.nonce :=
    FixedBytes.ofList?_bytes _
  have hdecrypt := h.correct call hcall
  unfold SealCall.key SealCall.aad at hdecrypt
  simp only [open_sealed, htake, hdrop, hnonce, ok_or, hdecrypt, bind, Except.bind]

/-- An honest author seals what it signs in a sealed frame. -/
def SealsWhatItSigns (secret : SecretKey) (signed : List Signed) (made : List SealCall) : Prop :=
  ∀ message drop_key topic nonce ciphertext,
    .encode_sealed message drop_key topic nonce ciphertext ∈ signed →
      ⟨drop_key, topic, secret.public, message.id, nonce, BodyEnvelopeV1.codec.write message.body,
        ciphertext⟩ ∈ made

/-- The bytes are a frame of an author, under an id, over a sealed body. -/
structure Recombines (bytes : Bytes) (author : EndpointId) (id : FixedBytes 16) (sealed : Bytes) :
    Prop where
  read : ∃ outer envelope, take_from_bytes SignedMessageV1.codec "frame" bytes = .ok outer ∧
    outer.author = author.as_bytes ∧
    take_from_bytes MessageV1.codec "envelope" outer.payload = .ok envelope ∧
    envelope.id = id ∧ envelope.body.payload = sealed

theorem Recombines.unique {bytes : Bytes} {author author' : EndpointId} {id id' : FixedBytes 16}
    {sealed sealed' : Bytes} (h : Recombines bytes author id sealed)
    (h' : Recombines bytes author' id' sealed') :
    author = author' ∧ id = id' ∧ sealed = sealed' := by
  obtain ⟨outer, envelope, hframe, hauthor, henvelope, hid, hsealed⟩ := h.read
  obtain ⟨outer', envelope', hframe', hauthor', henvelope', hid', hsealed'⟩ := h'.read
  cases hframe.symm.trans hframe'
  cases henvelope.symm.trans henvelope'
  refine ⟨?_, hid.symm.trans hid', hsealed.symm.trans hsealed'⟩
  have hbytes := hauthor.symm.trans hauthor'
  cases author
  cases author'
  cases hbytes
  rfl

/-- What a holder of the key accepts: a frame whose sealed body opens to a body
within its limits. -/
theorem decode_sealed_spec {bytes : Bytes} {drop_key : DropKey} {topic : TopicId}
    {verified : VerifiedMessage}
    (h : MessageV1.decode_sealed bytes drop_key topic = .ok verified) :
    ∃ sealed inner_bytes, Recombines bytes verified.author verified.message.id sealed ∧
      verified.message.version = SEALED_WIRE_VERSION ∧
      open_sealed drop_key topic verified.author verified.message.id sealed = .ok inner_bytes ∧
      inner_bytes.length ≤ MAX_BODY_SIZE ∧
      take_from_bytes BodyEnvelopeV1.codec "sealed inner" inner_bytes =
        .ok verified.message.body := by
  simp only [MessageV1.decode_sealed, bind_eq_ok, ensure_eq_ok, exists_const, pure, Except.pure,
    Except.ok.injEq] at h
  obtain ⟨-, outer, houter, v, hv, -, -, inner_bytes, hopen, hlen, inner, hinner, -, body, -, -, -,
    rfl⟩ := h
  obtain ⟨-, hmessage, hauthor, -⟩ := verify_outer_spec (verify_diagnosed_ok hv)
  exact ⟨v.message.body.payload, inner_bytes,
    ⟨outer, v.message, houter, hauthor.symm, hmessage, rfl, rfl⟩, rfl, hopen, hlen, hinner⟩

/-- A frame that a holder of the key accepts is over one sealing under the key,
for the topic, of the author and id it names, and its body is the one sealed. -/
theorem accepted_was_sealed {made : List SealCall} (h : IdealSeals made) {bytes : Bytes}
    {drop_key : DropKey} {topic : TopicId} {verified : VerifiedMessage}
    (haccept : MessageV1.decode_sealed bytes drop_key topic = .ok verified) :
    ∃ nonce inner_bytes ciphertext,
      Recombines bytes verified.author verified.message.id (nonce.bytes ++ ciphertext) ∧
      ⟨drop_key, topic, verified.author, verified.message.id, nonce, inner_bytes, ciphertext⟩ ∈
        made ∧
      inner_bytes.length ≤ MAX_BODY_SIZE ∧
      take_from_bytes BodyEnvelopeV1.codec "sealed inner" inner_bytes =
        .ok verified.message.body := by
  obtain ⟨sealed, inner_bytes, hread, -, hopen, hlen, hinner⟩ := decode_sealed_spec haccept
  obtain ⟨nonce, ciphertext, rfl, hmade⟩ := h.opened hopen
  exact ⟨nonce, inner_bytes, ciphertext, hread, hmade, hlen, hinner⟩

/-- What was sealed under a ciphertext is what the frame over it carries. -/
theorem accepted_is_sealing {made : List SealCall} (h : IdealSeals made) {bytes : Bytes}
    {drop_key : DropKey} {topic : TopicId} {verified : VerifiedMessage}
    (haccept : MessageV1.decode_sealed bytes drop_key topic = .ok verified) {author : EndpointId}
    {id : FixedBytes 16} {nonce : FixedBytes 24} {call : SealCall} (hcall : call ∈ made)
    (hframe : Recombines bytes author id (nonce.bytes ++ call.ciphertext)) :
    ∃ inner_bytes, call =
        ⟨drop_key, topic, author, id, nonce, inner_bytes, call.ciphertext⟩ ∧
      inner_bytes.length ≤ MAX_BODY_SIZE ∧
      take_from_bytes BodyEnvelopeV1.codec "sealed inner" inner_bytes =
        .ok verified.message.body := by
  obtain ⟨nonce', inner_bytes, ciphertext, hread, hmade, hlen, hinner⟩ :=
    accepted_was_sealed h haccept
  obtain ⟨hauthor, hid, hsealed⟩ := hread.unique hframe
  obtain ⟨hnonce, hciphertext⟩ := List.append_inj hsealed (by simp)
  cases FixedBytes.ext hnonce
  have hsame := h.single _ hcall _ hmade hciphertext.symm
  refine ⟨inner_bytes, ?_, hlen, hinner⟩
  rw [hsame, hauthor, hid]

/-- What an honest author sealed and signed reads back. -/
theorem sealed_reads_back {secret : SecretKey} {signed : List Signed} {made : List SealCall}
    (hseals : IdealSeals made) (hsigs : IdealSignatures secret signed)
    (hlog : SealsWhatItSigns secret signed made) {message : MessageV1} {drop_key : DropKey}
    {topic : TopicId} {nonce : FixedBytes 24} {ciphertext bytes : Bytes} {body : MessageBodyV1}
    (hs : .encode_sealed message drop_key topic nonce ciphertext ∈ signed)
    (hmade : (Signed.encode_sealed message drop_key topic nonce ciphertext).Made secret bytes)
    (hbody : message.body.decode = .ok (some body)) (hvalid : validate_body body = .ok ()) :
    MessageV1.decode_sealed bytes drop_key topic = .ok
      { author := secret.public, message := { message with version := SEALED_WIRE_VERSION }
        body := some body } := by
  obtain ⟨hencode, hencrypt⟩ := hmade
  have hopen := hseals.opens (hlog _ _ _ _ _ hs)
  rw [MessageV1.decode_sealed_opened hencode hencrypt (hsigs.correct _ hs) hopen]
  obtain ⟨hinner, -⟩ := MessageV1.encode_sealed_eq_ok.mp hencode
  have hsize : message.body.payload.length ≤ MAX_BODY_SIZE := by
    simp only [BodyEnvelopeV1.codec, Codec.imap_write_length, Codec.pair_write_length,
      Codec.bytes_write_length] at hinner
    omega
  simp only [MessageV1.check_body, bind_eq_ok, ensure_eq_ok, exists_const]
  exact ⟨hsize, some body, hbody, (), hvalid, rfl⟩

/-- A frame that a holder of the key accepts in the name of an honest author is
one sealing of the author, under that key, and says what the author said. -/
theorem accepted_was_said {secret : SecretKey} {signed : List Signed} {made : List SealCall}
    (hseals : IdealSeals made) (hsigs : IdealSignatures secret signed)
    (hlog : SealsWhatItSigns secret signed made) {bytes : Bytes} {drop_key : DropKey}
    {topic : TopicId} {verified : VerifiedMessage}
    (haccept : MessageV1.decode_sealed bytes drop_key topic = .ok verified)
    (hauthor : verified.author = secret.public) :
    ∃ message nonce ciphertext,
      .encode_sealed message drop_key topic nonce ciphertext ∈ signed ∧
        Recombines bytes secret.public message.id (nonce.bytes ++ ciphertext) ∧
        verified.message = { message with version := SEALED_WIRE_VERSION } := by
  obtain ⟨outer, signature, hvouches, hsize, envelope, hread, hid, hsent, -⟩ :=
    accepted_vouches (.decode_sealed drop_key) haccept
  have hverify := hvouches.verifies
  rw [hauthor] at hverify
  rcases signed_of_input hsigs hverify with
    ⟨hfamily, -⟩ | ⟨-, message, key, nonce, ciphertext, hmem, hw⟩
  · cases hfamily
  · have henvelope := read_payload hw hsize hread
    subst henvelope
    have hframe : Recombines bytes secret.public message.id (nonce.bytes ++ ciphertext) :=
      ⟨outer, _, hvouches.frame, hvouches.author.trans (by rw [hauthor]), hread, rfl, rfl⟩
    obtain ⟨inner_bytes, hsealing, hlen, hinner⟩ := accepted_is_sealing hseals haccept
      (hlog _ _ _ _ _ hmem) hframe
    cases hsealing
    obtain ⟨-, -, -, hversion, -⟩ := decode_sealed_spec haccept
    have hbody := (read_inner hlen).symm.trans hinner
    refine ⟨message, nonce, ciphertext, hmem, hframe, ?_⟩
    have hparts : verified.message = ⟨verified.message.version, verified.message.id,
        verified.message.sent_at_ms, verified.message.body⟩ := rfl
    rw [hparts, hversion, hid, hsent, ← Except.ok.inj hbody]
    rfl

/-- Sealed frames read back what was sealed, and are accepted only with the
header they were sealed under. -/
theorem sealed_frames_bind_their_header (secret : SecretKey) (signed : List Signed)
    (made : List SealCall) (hseals : IdealSeals made) (hsigs : IdealSignatures secret signed)
    (hlog : SealsWhatItSigns secret signed made) :
    (∀ message drop_key topic nonce ciphertext bytes body,
      .encode_sealed message drop_key topic nonce ciphertext ∈ signed →
        (Signed.encode_sealed message drop_key topic nonce ciphertext).Made secret bytes →
        message.body.decode = .ok (some body) → validate_body body = .ok () →
        MessageV1.decode_sealed bytes drop_key topic = .ok
          { author := secret.public, message := { message with version := SEALED_WIRE_VERSION }
            body := some body }) ∧
    ∀ bytes drop_key topic verified,
      MessageV1.decode_sealed bytes drop_key topic = .ok verified →
        (∃ nonce inner_bytes ciphertext,
          Recombines bytes verified.author verified.message.id (nonce.bytes ++ ciphertext) ∧
          ⟨drop_key, topic, verified.author, verified.message.id, nonce, inner_bytes,
            ciphertext⟩ ∈ made ∧
          inner_bytes.length ≤ MAX_BODY_SIZE ∧
          take_from_bytes BodyEnvelopeV1.codec "sealed inner" inner_bytes =
            .ok verified.message.body) ∧
        (∀ author id nonce, ∀ call ∈ made,
          Recombines bytes author id (nonce.bytes ++ call.ciphertext) →
            call.drop_key = drop_key ∧ call.topic = topic ∧ call.author = author ∧
              call.id = id ∧ call.nonce = nonce) ∧
        (verified.author = secret.public → ∃ message nonce ciphertext,
          .encode_sealed message drop_key topic nonce ciphertext ∈ signed ∧
            Recombines bytes secret.public message.id (nonce.bytes ++ ciphertext) ∧
            verified.message = { message with version := SEALED_WIRE_VERSION }) := by
  refine ⟨fun _ _ _ _ _ _ _ => sealed_reads_back hseals hsigs hlog, ?_⟩
  intro bytes drop_key topic verified haccept
  refine ⟨accepted_was_sealed hseals haccept, ?_, accepted_was_said hseals hsigs hlog haccept⟩
  intro author id nonce call hcall hframe
  obtain ⟨inner_bytes, hsealing, -, -⟩ := accepted_is_sealing hseals haccept hcall hframe
  rw [hsealing]
  exact ⟨rfl, rfl, rfl, rfl, rfl⟩

end Laws

/-! ## One sealing -/

namespace one_sealing

def secret : SecretKey := ⟨.fill 32 1⟩
def topic : TopicId := ⟨.fill 32 8⟩
def key : DropKey := ⟨.fill 32 9⟩
def nonce : FixedBytes 24 := .fill 24 0

def body : MessageBodyV1 := .Request ⟨⟨.fill 32 7⟩⟩
def message : MessageV1 := .new body (.fill 16 3) 0

def inner : Bytes := BodyEnvelopeV1.codec.write message.body
def ciphertext : Bytes := inner ++ List.replicate 16 0

/-- The bytes that the author signed. -/
def input : Bytes :=
  signing_input SEALED_SIGN_DOMAIN topic
    (MessageV1.codec.write (sealed_envelope message (nonce.bytes ++ ciphertext)))

/-- Primitives under which one body alone was ever sealed and signed. -/
local instance recorded : Crypto :=
  { Crypto.clear with
    verify := fun pk m sig => decide (m = input ∧ sig.bytes = pk.bytes ++ pk.bytes)
    decrypt := fun k n aad text =>
      if k = .fill 32 1 ∧ n = nonce ∧ aad = seal_aad secret.to_bytes message.id ∧ text = ciphertext
      then some inner
      else none
    hkdf := fun salt ikm _ =>
      if salt = topic.as_bytes.bytes ∧ ikm = key.as_bytes.bytes then .fill 32 1 else .fill 32 0 }

def signed : List Signed := [.encode_sealed message key topic nonce ciphertext]

def made : List SealCall := [⟨key, topic, secret.public, message.id, nonce, inner, ciphertext⟩]

theorem ideal_signatures : IdealSignatures secret signed := by
  constructor
  · intro s hs
    rw [List.mem_singleton.mp hs]
    exact decide_eq_true ⟨rfl, rfl⟩
  · intro m sig h
    exact ⟨_, List.mem_singleton_self _, (of_decide_eq_true h).1.symm⟩
  · intro m m' sig h h'
    exact (of_decide_eq_true h).1.trans (of_decide_eq_true h').1.symm

/-- The key of the cipher is of this drop key and topic. -/
theorem aead_key_eq (drop_key : DropKey) (topic' : TopicId) :
    drop_key.aead_key topic' = .fill 32 1 ↔ drop_key = key ∧ topic' = topic := by
  have hother : (FixedBytes.fill 32 0 : FixedBytes 32) ≠ .fill 32 1 := by decide
  change (if _ then _ else _) = _ ↔ _
  split
  · rename_i h
    have htopic : topic'.as_bytes = topic.as_bytes := FixedBytes.ext h.1
    have hkey : drop_key.as_bytes = key.as_bytes := FixedBytes.ext h.2
    cases topic'
    cases drop_key
    cases htopic
    cases hkey
    exact ⟨fun _ => ⟨rfl, rfl⟩, fun _ => rfl⟩
  · rename_i h
    refine ⟨fun hbad => absurd hbad hother, ?_⟩
    rintro ⟨rfl, rfl⟩
    exact absurd ⟨rfl, rfl⟩ h

theorem ideal_seals : IdealSeals made := by
  have hkey : key.aead_key topic = .fill 32 1 := (aead_key_eq _ _).mpr ⟨rfl, rfl⟩
  constructor
  · intro call hcall
    rw [List.mem_singleton.mp hcall]
    exact if_pos ⟨hkey, rfl, rfl, rfl⟩
  · intro k n aad text inner_bytes h
    change (if _ then _ else _) = _ at h
    split at h
    · rename_i hsame
      obtain ⟨rfl, rfl, rfl, rfl⟩ := hsame
      cases h
      exact ⟨_, List.mem_singleton_self _, hkey, rfl, rfl, rfl, rfl⟩
    · cases h
  · intro call hcall other hother _
    rw [List.mem_singleton.mp hcall, List.mem_singleton.mp hother]
  · intro call hcall drop_key topic' h
    rw [List.mem_singleton.mp hcall] at h ⊢
    exact (aead_key_eq _ _).mp (h.trans hkey)

theorem sealed_what_was_signed : SealsWhatItSigns secret signed made := by
  intro message' drop_key topic' nonce' ciphertext' hs
  cases List.mem_singleton.mp hs
  exact List.mem_singleton_self _

/-- The law at work on the one sealing. -/
theorem one_sealing_binds_its_header :
    (∀ message drop_key topic nonce ciphertext bytes body,
      .encode_sealed message drop_key topic nonce ciphertext ∈ signed →
        (Signed.encode_sealed message drop_key topic nonce ciphertext).Made secret bytes →
        message.body.decode = .ok (some body) → validate_body body = .ok () →
        MessageV1.decode_sealed bytes drop_key topic = .ok
          { author := secret.public, message := { message with version := SEALED_WIRE_VERSION }
            body := some body }) ∧
    ∀ bytes drop_key topic verified,
      MessageV1.decode_sealed bytes drop_key topic = .ok verified →
        (∃ nonce inner_bytes ciphertext,
          Recombines bytes verified.author verified.message.id (nonce.bytes ++ ciphertext) ∧
          ⟨drop_key, topic, verified.author, verified.message.id, nonce, inner_bytes,
            ciphertext⟩ ∈ made ∧
          inner_bytes.length ≤ MAX_BODY_SIZE ∧
          take_from_bytes BodyEnvelopeV1.codec "sealed inner" inner_bytes =
            .ok verified.message.body) ∧
        (∀ author id nonce, ∀ call ∈ made,
          Recombines bytes author id (nonce.bytes ++ call.ciphertext) →
            call.drop_key = drop_key ∧ call.topic = topic ∧ call.author = author ∧
              call.id = id ∧ call.nonce = nonce) ∧
        (verified.author = secret.public → ∃ message nonce ciphertext,
          .encode_sealed message drop_key topic nonce ciphertext ∈ signed ∧
            Recombines bytes secret.public message.id (nonce.bytes ++ ciphertext) ∧
            verified.message = { message with version := SEALED_WIRE_VERSION }) :=
  sealed_frames_bind_their_header secret signed made ideal_seals ideal_signatures
    sealed_what_was_signed

/-- The frame is written, and read by those who hold the key. -/
example : ∃ frame, message.encode_sealed secret key topic nonce = .ok frame ∧
    (MessageV1.decode_sealed frame key topic).isOk = true :=
  ⟨(message.encode_sealed secret key topic nonce).toOption.getD [], by decide +kernel,
    by decide +kernel⟩

end one_sealing

end iroh_drop
