-- Private drops: the sealed wire family, and the proofs of key possession
-- that catch-up sync asks for (seal.rs).
import IrohDrop.Message

open rust_std postcard

namespace iroh_drop

def SEALED_WIRE_VERSION : UInt16 := 4
def KIND_SEALED : UInt16 := 4

def SEAL_KDF_INFO : Bytes := ascii "iroh-drop/v4/seal"
def SYNC_HKDF_INFO : Bytes := ascii "iroh-drop/v4/sync"
def NONCE_LEN : Nat := 24

variable [Crypto]

/-! ## Keys -/

/-- The AEAD key of a topic. -/
def DropKey.aead_key (self : DropKey) (topic : TopicId) : FixedBytes 32 :=
  Crypto.hkdf topic.as_bytes.bytes self.as_bytes.bytes SEAL_KDF_INFO

/-- The key of sync proofs, apart from the key that opens frames. -/
def DropKey.sync_key (self : DropKey) (topic : TopicId) : FixedBytes 32 :=
  Crypto.hkdf topic.as_bytes.bytes self.as_bytes.bytes SYNC_HKDF_INFO

def DropKey.sync_proof (self : DropKey) (topic : TopicId) (requester responder : EndpointId)
    (request_bytes : Bytes) : FixedBytes 32 :=
  Crypto.hmac (self.sync_key topic)
    (requester.as_bytes.bytes ++ responder.as_bytes.bytes ++ request_bytes)

def DropKey.verify_sync_proof (self : DropKey) (topic : TopicId)
    (requester responder : EndpointId) (request_bytes : Bytes) (proof : FixedBytes 32) : Bool :=
  decide (self.sync_proof topic requester responder request_bytes = proof)

/-! ## Sealed frames -/

/-- The additional data that binds a body to its header. -/
def seal_aad (author : FixedBytes 32) (id : FixedBytes 16) : Bytes := author.bytes ++ id.bytes

/-- The outer envelope of a sealed body. -/
def sealed_envelope (self : MessageV1) (sealed : Bytes) : MessageV1 :=
  { version := SEALED_WIRE_VERSION, id := self.id, sent_at_ms := self.sent_at_ms
    body := { kind := KIND_SEALED, payload := sealed } }

def MessageV1.encode_sealed_with_nonce (self : MessageV1) (secret : SecretKey)
    (drop_key : DropKey) (topic : TopicId) (nonce : FixedBytes 24) (inner_bytes : Bytes) :
    Except ProtocolError Bytes := do
  let aad := seal_aad secret.public.as_bytes self.id
  let ciphertext ← ok_or (Crypto.encrypt (drop_key.aead_key topic) nonce aad inner_bytes)
    (.Malformed "seal: encrypt failed")
  let payload := MessageV1.codec.write (sealed_envelope self (nonce.bytes ++ ciphertext))
  let bytes := SignedMessageV1.codec.write (sign_frame SEALED_SIGN_DOMAIN secret topic payload)
  ensure (bytes.length ≤ MAX_MESSAGE_SIZE) (.MessageTooLarge bytes.length)
  return bytes

/-- The nonce is what the random generator gave. -/
def MessageV1.encode_sealed (self : MessageV1) (secret : SecretKey) (drop_key : DropKey)
    (topic : TopicId) (nonce : FixedBytes 24) : Except ProtocolError Bytes := do
  let inner_bytes := BodyEnvelopeV1.codec.write self.body
  ensure (inner_bytes.length ≤ MAX_BODY_SIZE) (.MessageTooLarge inner_bytes.length)
  self.encode_sealed_with_nonce secret drop_key topic nonce inner_bytes

/-- A sealed frame is the signed write of its outer envelope, over the
encrypted inner one. -/
theorem MessageV1.encode_sealed_eq_ok {m : MessageV1} {secret : SecretKey} {drop_key : DropKey}
    {topic : TopicId} {nonce : FixedBytes 24} {bytes : Bytes} :
    m.encode_sealed secret drop_key topic nonce = .ok bytes ↔
      (BodyEnvelopeV1.codec.write m.body).length ≤ MAX_BODY_SIZE ∧
      ∃ ciphertext, Crypto.encrypt (drop_key.aead_key topic) nonce
          (seal_aad secret.public.as_bytes m.id) (BodyEnvelopeV1.codec.write m.body) =
            some ciphertext ∧
        bytes = SignedMessageV1.codec.write (sign_frame SEALED_SIGN_DOMAIN secret topic
          (MessageV1.codec.write (sealed_envelope m (nonce.bytes ++ ciphertext)))) ∧
        bytes.length ≤ MAX_MESSAGE_SIZE := by
  simp only [MessageV1.encode_sealed, MessageV1.encode_sealed_with_nonce, bind_eq_ok,
    ensure_eq_ok, exists_const, ok_or_eq_ok, pure, Except.pure, Except.ok.injEq]
  constructor
  · rintro ⟨hi, ciphertext, henc, hl, rfl⟩
    exact ⟨hi, ciphertext, henc, rfl, hl⟩
  · rintro ⟨hi, ciphertext, henc, rfl, hl⟩
    exact ⟨hi, ciphertext, henc, hl, rfl⟩

/-- The path of a blind relay: the outer signature and family, and no more. -/
def MessageV1.verify_sealed_outer (bytes : Bytes) (topic : TopicId) :
    Except ProtocolError VerifiedMessage := do
  ensure (bytes.length ≤ MAX_MESSAGE_SIZE) (.MessageTooLarge bytes.length)
  let frame ← take_from_bytes SignedMessageV1.codec "frame" bytes
  let verified ← verify_outer frame SEALED_SIGN_DOMAIN topic
  ensure (verified.message.version = SEALED_WIRE_VERSION)
    (.UnsupportedVersion verified.message.version)
  ensure (verified.message.body.kind = KIND_SEALED)
    (.Malformed "sealed family frame with non-sealed kind")
  ensure (verified.message.body.payload.length ≤ MAX_BODY_SIZE)
    (.MessageTooLarge verified.message.body.payload.length)
  return verified

/-- The inner bytes of a sealed body. -/
def open_sealed (drop_key : DropKey) (topic : TopicId) (author : EndpointId)
    (id : FixedBytes 16) (sealed : Bytes) : Except ProtocolError Bytes := do
  let nonce ← ok_or (FixedBytes.ofList? NONCE_LEN (sealed.take NONCE_LEN))
    (.Malformed "sealed body too short")
  ok_or (Crypto.decrypt (drop_key.aead_key topic) nonce (seal_aad author.as_bytes id)
    (sealed.drop NONCE_LEN)) .Unseal

def MessageV1.decode_sealed (bytes : Bytes) (drop_key : DropKey) (topic : TopicId) :
    Except ProtocolError VerifiedMessage := do
  ensure (bytes.length ≤ MAX_MESSAGE_SIZE) (.MessageTooLarge bytes.length)
  let frame ← take_from_bytes SignedMessageV1.codec "frame" bytes
  let verified_outer ←
    verify_diagnosed frame SEALED_SIGN_DOMAIN [SIGN_DOMAIN, LEGACY_SIGN_DOMAIN] topic
  let outer := verified_outer.message
  ensure (outer.version = SEALED_WIRE_VERSION) (.UnsupportedVersion outer.version)
  ensure (outer.body.kind = KIND_SEALED) (.Malformed
    s!"version {SEALED_WIRE_VERSION} frame with non-sealed kind {outer.body.kind}")
  let inner_bytes ← open_sealed drop_key topic verified_outer.author outer.id outer.body.payload
  ensure (inner_bytes.length ≤ MAX_BODY_SIZE) (.MessageTooLarge inner_bytes.length)
  let inner ← take_from_bytes BodyEnvelopeV1.codec "sealed inner" inner_bytes
  ensure (inner.payload.length ≤ MAX_BODY_SIZE) (.MessageTooLarge inner.payload.length)
  let body ← inner.decode
  validate_known body
  return { author := verified_outer.author
           message := { version := SEALED_WIRE_VERSION, id := outer.id
                        sent_at_ms := outer.sent_at_ms, body := inner }
           body }

end iroh_drop
