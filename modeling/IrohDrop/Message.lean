-- The wire messages of a drop: the signed frame, the envelope in it, the
-- bodies, and the checks on receipt (message.rs).
import IrohDrop.Crypto

open rust_std postcard

namespace iroh_drop

/-! ## Limits -/

def WIRE_VERSION : UInt16 := 2
def KIND_OFFER : UInt16 := 1
def KIND_PROVIDER : UInt16 := 2
def KIND_REQUEST : UInt16 := 3
def KIND_EXTENSION : UInt16 := 5

def MAX_MESSAGE_SIZE : Nat := 64 * 1024
def MAX_BODY_SIZE : Nat := MAX_MESSAGE_SIZE - 1024
def MAX_NAME_LEN : Nat := 255
def MAX_METADATA_ENTRIES : Nat := 16
def MAX_METADATA_KEY_LEN : Nat := 64
def MAX_METADATA_VALUE_LEN : Nat := 512

/-- A byte string literal. -/
def ascii (s : String) : Bytes := s.toByteArray.data.toList

def SIGN_DOMAIN : Bytes := ascii "iroh-drop/v3/message/"
def LEGACY_SIGN_DOMAIN : Bytes := ascii "iroh-drop/v2/message/"
def SEALED_SIGN_DOMAIN : Bytes := ascii "iroh-drop/v4/message/"

/-- The bytes that an author signs. -/
def signing_input (domain : Bytes) (topic : TopicId) (payload : Bytes) : Bytes :=
  domain ++ topic.as_bytes.bytes ++ payload

/-! ## Errors -/

inductive ProtocolError where
  | UnsupportedVersion (version : UInt16)
  | MessageTooLarge (size : Nat)
  | Malformed (reason : String)
  | QuotaExceeded
  | Gossip (reason : String)
  | RateLimited
  | InvalidSignature
  | Unseal
  | NoDropKey
  | InvalidAuthor
  | InvalidName (reason : String)
  | MetadataLimit (reason : String)
deriving DecidableEq

/-- How a postcard error reads. -/
def error_text : postcard.Error → String
  | .DeserializeUnexpectedEnd => "Hit the end of buffer, expected more data"
  | .DeserializeBadVarint => "Found a varint that didn't terminate"
  | .DeserializeBadBool => "Found a bool that wasn't 0 or 1"
  | .DeserializeBadUtf8 => "Tried to parse invalid utf-8"
  | .DeserializeBadOption => "Found an Option discriminant that wasn't 0 or 1"
  | .SerdeDeCustom => "Serde Deserialization Error"

/-- `take_from_bytes` with the error of `what`. -/
def take_from_bytes {α : Type} (c : Codec α) (what : String) (bytes : Bytes) :
    Except ProtocolError α :=
  match c.read bytes with
  | .ok (value, _rest) => .ok value
  | .error e => .error (.Malformed s!"{what}: {error_text e}")

theorem take_from_bytes_write {α : Type} (c : Codec α) (what : String) {a : α} (rest : Bytes)
    (h : c.fits a) : take_from_bytes c what (c.write a ++ rest) = .ok a := by
  simp [take_from_bytes, c.read_write a rest h]

/-! ## Bodies -/

structure ExtensionV1 where
  «namespace» : FixedBytes 16
  local_kind : UInt32
  schema_version : UInt16
  payload : Bytes
deriving DecidableEq

structure OfferV1 where
  blob_hash : BlobHash
  name : String
  size : UInt64
  media_type : Option String
  created_at_ms : Option UInt64
  metadata : BTreeMap String String
deriving DecidableEq

inductive ProviderState where
  | Available
  | Withdrawing
deriving DecidableEq

structure ProviderV1 where
  blob_hash : BlobHash
  state : ProviderState
  announced_at_ms : Option UInt64
deriving DecidableEq

structure RequestV1 where
  blob_hash : BlobHash
deriving DecidableEq

inductive MessageBodyV1 where
  | Offer (offer : OfferV1)
  | Provider (provider : ProviderV1)
  | Request (request : RequestV1)
  | Extension (ext : ExtensionV1)
deriving DecidableEq

def BlobHash.codec : Codec BlobHash :=
  .imap (.fixed 32) BlobHash.mk BlobHash.as_bytes (fun _ => rfl)

def ExtensionV1.codec : Codec ExtensionV1 :=
  .imap (.pair (.fixed 16) (.pair .u32 (.pair .u16 .bytes)))
    (fun p => ⟨p.1, p.2.1, p.2.2.1, p.2.2.2⟩)
    (fun e => (e.namespace, e.local_kind, e.schema_version, e.payload)) (fun _ => rfl)

def OfferV1.codec : Codec OfferV1 :=
  .imap (.pair BlobHash.codec (.pair .string (.pair .u64 (.pair (.option .string)
      (.pair (.option .u64) (.map .string .string))))))
    (fun p => ⟨p.1, p.2.1, p.2.2.1, p.2.2.2.1, p.2.2.2.2.1, p.2.2.2.2.2⟩)
    (fun o => (o.blob_hash, o.name, o.size, o.media_type, o.created_at_ms, o.metadata))
    (fun _ => rfl)

/-- A unit variant is written as its index. -/
def ProviderState.codec : Codec ProviderState where
  write
    | .Available => Codec.u32.write 0
    | .Withdrawing => Codec.u32.write 1
  read bs := match Codec.u32.read bs with
    | .error e => .error e
    | .ok (n, rest) =>
      if n = 0 then .ok (.Available, rest)
      else if n = 1 then .ok (.Withdrawing, rest)
      else .error .SerdeDeCustom
  fits _ := True
  read_write s rest _ := by
    cases s <;> simp [Codec.u32.read_write]

def ProviderV1.codec : Codec ProviderV1 :=
  .imap (.pair BlobHash.codec (.pair ProviderState.codec (.option .u64)))
    (fun p => ⟨p.1, p.2.1, p.2.2⟩)
    (fun p => (p.blob_hash, p.state, p.announced_at_ms)) (fun _ => rfl)

def RequestV1.codec : Codec RequestV1 :=
  .imap BlobHash.codec RequestV1.mk RequestV1.blob_hash (fun _ => rfl)

/-! ## Envelopes -/

structure BodyEnvelopeV1 where
  kind : UInt16
  payload : Bytes
deriving DecidableEq

structure MessageV1 where
  version : UInt16
  id : FixedBytes 16
  sent_at_ms : UInt64
  body : BodyEnvelopeV1
deriving DecidableEq

structure SignedMessageV1 where
  author : FixedBytes 32
  signature : Bytes
  payload : Bytes
deriving DecidableEq

/-- A message that is decoded, verified and validated. -/
structure VerifiedMessage [Crypto] where
  author : EndpointId
  message : MessageV1
  body : Option MessageBodyV1
deriving DecidableEq

def BodyEnvelopeV1.codec : Codec BodyEnvelopeV1 :=
  .imap (.pair .u16 .bytes) (fun p => ⟨p.1, p.2⟩) (fun b => (b.kind, b.payload)) (fun _ => rfl)

def MessageV1.codec : Codec MessageV1 :=
  .imap (.pair .u16 (.pair (.fixed 16) (.pair .u64 BodyEnvelopeV1.codec)))
    (fun p => ⟨p.1, p.2.1, p.2.2.1, p.2.2.2⟩)
    (fun m => (m.version, m.id, m.sent_at_ms, m.body)) (fun _ => rfl)

def SignedMessageV1.codec : Codec SignedMessageV1 :=
  .imap (.pair (.fixed 32) (.pair .bytes .bytes))
    (fun p => ⟨p.1, p.2.1, p.2.2⟩)
    (fun f => (f.author, f.signature, f.payload)) (fun _ => rfl)

@[simp] theorem MessageV1.codec_fits (m : MessageV1) :
    MessageV1.codec.fits m ↔ m.body.payload.length < 2 ^ 64 := by
  simp [MessageV1.codec, BodyEnvelopeV1.codec]

@[simp] theorem SignedMessageV1.codec_fits (f : SignedMessageV1) :
    SignedMessageV1.codec.fits f ↔ f.signature.length < 2 ^ 64 ∧ f.payload.length < 2 ^ 64 := by
  simp [SignedMessageV1.codec]

theorem MessageV1.write_length (m : MessageV1) :
    (MessageV1.codec.write m).length =
      (Codec.u16.write m.version).length + 16 + (Codec.u64.write m.sent_at_ms).length +
        (Codec.u16.write m.body.kind).length +
        (varintLen m.body.payload.length + m.body.payload.length) := by
  simp only [MessageV1.codec, BodyEnvelopeV1.codec, Codec.imap_write_length,
    Codec.pair_write_length, Codec.fixed_write_length, Codec.bytes_write_length]
  omega

/-- A provider assertion is short. -/
theorem ProviderV1.write_length_le (provider : ProviderV1) :
    (ProviderV1.codec.write provider).length ≤ 44 := by
  have hstate : (ProviderState.codec.write provider.state).length = 1 := by
    cases provider.state <;> rfl
  have hms : ((Codec.option Codec.u64).write provider.announced_at_ms).length ≤ 11 := by
    rcases provider.announced_at_ms with _ | ms
    · simp [Codec.option]
    · have h := Codec.u64_write_length_le ms
      simp only [Codec.option, List.length_cons]
      omega
  simp only [ProviderV1.codec, BlobHash.codec, Codec.imap_write_length, Codec.pair_write_length,
    Codec.fixed_write_length, hstate]
  omega

theorem MessageV1.read_write (m : MessageV1) (h : m.body.payload.length < 2 ^ 64) :
    take_from_bytes MessageV1.codec "envelope" (MessageV1.codec.write m) = .ok m := by
  have := take_from_bytes_write MessageV1.codec "envelope" [] (a := m) (by simpa using h)
  simpa using this

def BodyEnvelopeV1.encode : MessageBodyV1 → BodyEnvelopeV1
  | .Offer offer => ⟨KIND_OFFER, OfferV1.codec.write offer⟩
  | .Provider provider => ⟨KIND_PROVIDER, ProviderV1.codec.write provider⟩
  | .Request request => ⟨KIND_REQUEST, RequestV1.codec.write request⟩
  | .Extension ext => ⟨KIND_EXTENSION, ExtensionV1.codec.write ext⟩

/-- `Ok(None)` is a kind that this build does not know. -/
def BodyEnvelopeV1.decode (self : BodyEnvelopeV1) :
    Except ProtocolError (Option MessageBodyV1) := do
  ensure (self.payload.length ≤ MAX_BODY_SIZE) (.MessageTooLarge self.payload.length)
  if self.kind = KIND_OFFER then
    return some (.Offer (← take_from_bytes OfferV1.codec "offer" self.payload))
  else if self.kind = KIND_EXTENSION then
    return some (.Extension (← take_from_bytes ExtensionV1.codec "extension" self.payload))
  else if self.kind = KIND_PROVIDER then
    return some (.Provider (← take_from_bytes ProviderV1.codec "provider" self.payload))
  else if self.kind = KIND_REQUEST then
    return some (.Request (← take_from_bytes RequestV1.codec "request" self.payload))
  else
    return none

/-! ## Validation -/

/-- `char::is_control`: the category `Cc`. -/
def is_control (c : Char) : Bool :=
  c.toNat < 0x20 || (0x7F ≤ c.toNat && c.toNat ≤ 0x9F)

def validate_name (name : String) : Except ProtocolError Unit := do
  ensure (name ≠ "") (.InvalidName "empty name")
  ensure (name.utf8ByteSize ≤ MAX_NAME_LEN)
    (.InvalidName s!"too long ({name.utf8ByteSize} bytes, max {MAX_NAME_LEN})")
  ensure (name ≠ "." ∧ name ≠ "..") (.InvalidName "dot component")
  ensure ('/' ∉ name.toList ∧ '\\' ∉ name.toList) (.InvalidName "path separator")
  ensure (name.toList.any is_control = false) (.InvalidName "control character")
  ensure (name.toList.head? ≠ some '.') (.InvalidName "leading dot")
  ensure (name.toList.getLast? ≠ some '.' ∧ name.toList.getLast? ≠ some ' ')
    (.InvalidName "trailing dot or space")

/-- The two limits of one metadata entry. -/
def validate_entry (e : String × String) : Except ProtocolError Unit := do
  ensure (e.1.utf8ByteSize ≤ MAX_METADATA_KEY_LEN) (.MetadataLimit
    s!"key too long ({e.1.utf8ByteSize} bytes, max {MAX_METADATA_KEY_LEN})")
  ensure (e.2.utf8ByteSize ≤ MAX_METADATA_VALUE_LEN) (.MetadataLimit
    s!"value too long ({e.2.utf8ByteSize} bytes, max {MAX_METADATA_VALUE_LEN})")

def validate_body : MessageBodyV1 → Except ProtocolError Unit
  | .Offer offer => do
    validate_name offer.name
    ensure (offer.metadata.len ≤ MAX_METADATA_ENTRIES) (.MetadataLimit
      s!"{offer.metadata.len} entries, max {MAX_METADATA_ENTRIES}")
    check_all validate_entry offer.metadata.entries
  | .Provider _ | .Request _ => .ok ()
  | .Extension ext =>
    ensure (ext.payload.length ≤ MAX_BODY_SIZE) (.MessageTooLarge ext.payload.length)

/-! ## Frames -/

section Frames

variable [Crypto]

/-- A new envelope, with the id that the random generator gave and the time
of the clock. -/
def MessageV1.new (body : MessageBodyV1) (id : FixedBytes 16) (sent_at_ms : UInt64) :
    MessageV1 :=
  { version := WIRE_VERSION, id, sent_at_ms, body := .encode body }

/-- The frame of a payload, signed over `domain` and the topic. -/
def sign_frame (domain : Bytes) (secret : SecretKey) (topic : TopicId) (payload : Bytes) :
    SignedMessageV1 :=
  { author := secret.public.as_bytes
    signature := (Crypto.sign secret (signing_input domain topic payload)).bytes
    payload }

def MessageV1.encode (self : MessageV1) (secret : SecretKey) (topic : TopicId) :
    Except ProtocolError Bytes := do
  let payload := MessageV1.codec.write self
  let bytes := SignedMessageV1.codec.write (sign_frame SIGN_DOMAIN secret topic payload)
  ensure (bytes.length ≤ MAX_MESSAGE_SIZE) (.MessageTooLarge bytes.length)
  return bytes

/-- The part that `verify_outer` and `verify_legacy` share: the signature of
the author over `input`, then the envelope. -/
def MessageV1.verify_input (frame : SignedMessageV1) (input : Bytes) :
    Except ProtocolError VerifiedMessage := do
  ensure (frame.payload.length ≤ MAX_MESSAGE_SIZE) (.MessageTooLarge frame.payload.length)
  let author ← ok_or (EndpointId.from_bytes frame.author) .InvalidAuthor
  let signature ← ok_or (FixedBytes.ofList? 64 frame.signature)
    (.Malformed "signature must be 64 bytes")
  ensure (Crypto.verify author.as_bytes input signature = true) .InvalidSignature
  let message ← take_from_bytes MessageV1.codec "envelope" frame.payload
  return { author, message, body := none }

def MessageV1.verify_outer (frame : SignedMessageV1) (domain : Bytes) (topic : TopicId) :
    Except ProtocolError VerifiedMessage :=
  verify_input frame (signing_input domain topic frame.payload)

def MessageV1.verify_legacy (frame : SignedMessageV1) : Except ProtocolError VerifiedMessage :=
  verify_input frame (LEGACY_SIGN_DOMAIN ++ frame.payload)

/-- The version of a frame that verifies under one of the domains. -/
def MessageV1.diagnose_other_family (frame : SignedMessageV1) (topic : TopicId) :
    List Bytes → Option UInt16
  | [] => none
  | domain :: domains =>
    let verified :=
      if domain = LEGACY_SIGN_DOMAIN then verify_legacy frame
      else verify_outer frame domain topic
    match verified with
    | .ok verified => some verified.message.version
    | .error _ => diagnose_other_family frame topic domains

/-- `verify_outer`, with a bad signature reported as what it is. -/
def MessageV1.verify_diagnosed (frame : SignedMessageV1) (domain : Bytes)
    (others : List Bytes) (topic : TopicId) : Except ProtocolError VerifiedMessage :=
  match verify_outer frame domain topic with
  | .ok verified => .ok verified
  | .error .InvalidSignature =>
    match diagnose_other_family frame topic others with
    | some version => .error (.UnsupportedVersion version)
    | none => .error .InvalidSignature
  | .error e => .error e

def MessageV1.verify_for_topic (frame : SignedMessageV1) (topic : TopicId) :
    Except ProtocolError VerifiedMessage :=
  verify_diagnosed frame SIGN_DOMAIN [LEGACY_SIGN_DOMAIN, SEALED_SIGN_DOMAIN] topic

/-- `if let Some(body) = &body { validate_body(body)? }`. -/
def validate_known (body : Option MessageBodyV1) : Except ProtocolError Unit :=
  match body with
  | some body => validate_body body
  | none => .ok ()

def MessageV1.decode (bytes : Bytes) (topic : TopicId) :
    Except ProtocolError VerifiedMessage := do
  ensure (bytes.length ≤ MAX_MESSAGE_SIZE) (.MessageTooLarge bytes.length)
  let frame ← take_from_bytes SignedMessageV1.codec "frame" bytes
  let verified ← verify_for_topic frame topic
  ensure (verified.message.version = WIRE_VERSION)
    (.UnsupportedVersion verified.message.version)
  ensure (verified.message.body.payload.length ≤ MAX_BODY_SIZE)
    (.MessageTooLarge verified.message.body.payload.length)
  let body ← verified.message.body.decode
  validate_known body
  return { verified with body }

/-! ## Frames that were written -/

theorem sign_frame_write_length (domain : Bytes) (secret : SecretKey) (topic : TopicId)
    (payload : Bytes) :
    (SignedMessageV1.codec.write (sign_frame domain secret topic payload)).length =
      97 + varintLen payload.length + payload.length := by
  have h64 : varintLen 64 = 1 := rfl
  simp only [SignedMessageV1.codec, sign_frame, Codec.imap_write_length,
    Codec.pair_write_length, Codec.fixed_write_length, Codec.bytes_write_length,
    FixedBytes.length_bytes, h64]
  omega

/-- A signed frame reads back as it was written. -/
theorem read_sign_frame (domain : Bytes) (secret : SecretKey) (topic : TopicId)
    (payload : Bytes) (h : payload.length < 2 ^ 64) :
    take_from_bytes SignedMessageV1.codec "frame"
        (SignedMessageV1.codec.write (sign_frame domain secret topic payload)) =
      .ok (sign_frame domain secret topic payload) := by
  have := take_from_bytes_write SignedMessageV1.codec "frame" []
    (a := sign_frame domain secret topic payload) (by simp [sign_frame]; omega)
  simpa using this

/-- A plain frame is the signed write of its envelope, and fits the wire. -/
theorem MessageV1.encode_eq_ok {m : MessageV1} {secret : SecretKey} {topic : TopicId}
    {bytes : Bytes} :
    m.encode secret topic = .ok bytes ↔
      bytes = SignedMessageV1.codec.write
          (sign_frame SIGN_DOMAIN secret topic (MessageV1.codec.write m)) ∧
        bytes.length ≤ MAX_MESSAGE_SIZE := by
  simp only [MessageV1.encode, bind_eq_ok, ensure_eq_ok, exists_const, pure, Except.pure,
    Except.ok.injEq]
  constructor
  · rintro ⟨h, rfl⟩
    exact ⟨rfl, h⟩
  · rintro ⟨rfl, h⟩
    exact ⟨h, rfl⟩

end Frames

end iroh_drop
