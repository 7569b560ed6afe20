-- The law of signatures: what a decoder accepts in the name of an author is
-- what the author encoded, in this family and for this topic.
import IrohDrop.Uniqueness

open rust_std postcard

namespace iroh_drop

/-! ## What is signed -/

theorem domain_length : SIGN_DOMAIN.length = 21 ∧ SEALED_SIGN_DOMAIN.length = 21 ∧
    LEGACY_SIGN_DOMAIN.length = 21 := by decide +kernel

theorem domains_differ : SIGN_DOMAIN ≠ SEALED_SIGN_DOMAIN ∧ SIGN_DOMAIN ≠ LEGACY_SIGN_DOMAIN ∧
    SEALED_SIGN_DOMAIN ≠ LEGACY_SIGN_DOMAIN := by decide +kernel

/-- The two families of the wire. -/
inductive Family where
  | Public
  | Sealed
deriving DecidableEq

def Family.domain : Family → Bytes
  | .Public => SIGN_DOMAIN
  | .Sealed => SEALED_SIGN_DOMAIN

theorem Family.domain_length (family : Family) : family.domain.length = 21 := by
  cases family with
  | Public => exact iroh_drop.domain_length.1
  | Sealed => exact iroh_drop.domain_length.2.1

theorem Family.domain_injective {a b : Family} (h : a.domain = b.domain) : a = b := by
  cases a <;> cases b
  · rfl
  · exact absurd h domains_differ.1
  · exact absurd h.symm domains_differ.1
  · rfl

/-- The signed bytes tell the family, the topic and the payload. -/
theorem signing_input_injective {a b : Family} {topic topic' : TopicId} {payload payload' : Bytes}
    (h : signing_input a.domain topic payload = signing_input b.domain topic' payload') :
    a = b ∧ topic = topic' ∧ payload = payload' := by
  unfold signing_input at h
  rw [List.append_assoc, List.append_assoc] at h
  obtain ⟨hdomain, hrest⟩ := List.append_inj h (a.domain_length.trans b.domain_length.symm)
  obtain ⟨htopic, hpayload⟩ := List.append_inj hrest (by simp)
  refine ⟨Family.domain_injective hdomain, ?_, hpayload⟩
  have hbytes : topic.as_bytes = topic'.as_bytes := FixedBytes.ext htopic
  cases topic
  cases topic'
  exact congrArg TopicId.mk hbytes

/-- What was signed without a topic is no signed input of a family. -/
theorem legacy_input_ne (family : Family) (topic : TopicId) (payload payload' : Bytes) :
    LEGACY_SIGN_DOMAIN ++ payload ≠ signing_input family.domain topic payload' := by
  intro h
  unfold signing_input at h
  rw [List.append_assoc] at h
  obtain ⟨hdomain, -⟩ :=
    List.append_inj h (domain_length.2.2.trans family.domain_length.symm)
  cases family with
  | Public => exact domains_differ.2.1 hdomain.symm
  | Sealed => exact domains_differ.2.2 hdomain.symm

theorem ofList?_eq_some {n : Nat} {l : Bytes} {a : FixedBytes n}
    (h : FixedBytes.ofList? n l = some a) : l = a.bytes := by
  unfold FixedBytes.ofList? at h
  split at h
  · cases h
    rfl
  · cases h

/-- The envelope that was written is the one that is read. -/
theorem read_payload {payload : Bytes} {message envelope : MessageV1}
    (hw : MessageV1.codec.write message = payload) (hsize : payload.length ≤ MAX_MESSAGE_SIZE)
    (hr : take_from_bytes MessageV1.codec "envelope" payload = .ok envelope) :
    envelope = message := by
  have hlength := message.write_length
  rw [hw] at hlength
  have hmax : MAX_MESSAGE_SIZE < 2 ^ 64 := by decide
  have hread := message.read_write (by omega)
  rw [hw, hr] at hread
  exact Except.ok.inj hread

section Laws

variable [Crypto]

/-! ## Decoders -/

/-- A way to read a frame. -/
inductive Decoder where
  | decode
  | decode_sealed (drop_key : DropKey)
  | verify_sealed_outer

namespace Decoder

def family : Decoder → Family
  | .decode => .Public
  | .decode_sealed _ => .Sealed
  | .verify_sealed_outer => .Sealed

/-- What the decoder makes of some bytes. -/
def run : Decoder → Bytes → TopicId → Except ProtocolError VerifiedMessage
  | .decode, bytes, topic => MessageV1.decode bytes topic
  | .decode_sealed drop_key, bytes, topic => MessageV1.decode_sealed bytes drop_key topic
  | .verify_sealed_outer, bytes, topic => MessageV1.verify_sealed_outer bytes topic

end Decoder

/-- The bytes are a frame of the author, and its signature verifies over the
input. -/
structure Vouches (bytes : Bytes) (key : FixedBytes 32) (input : Bytes → Bytes)
    (outer : SignedMessageV1) (sig : FixedBytes 64) : Prop where
  frame : take_from_bytes SignedMessageV1.codec "frame" bytes = .ok outer
  author : outer.author = key
  signature : outer.signature = sig.bytes
  verifies : Crypto.verify key (input outer.payload) sig = true

theorem verify_outer_spec {outer : SignedMessageV1} {domain : Bytes} {topic : TopicId}
    {verified : VerifiedMessage} (h : MessageV1.verify_outer outer domain topic = .ok verified) :
    outer.payload.length ≤ MAX_MESSAGE_SIZE ∧
      take_from_bytes MessageV1.codec "envelope" outer.payload = .ok verified.message ∧
      verified.author.as_bytes = outer.author ∧
      ∃ signature : FixedBytes 64, outer.signature = signature.bytes ∧
        Crypto.verify verified.author.as_bytes (signing_input domain topic outer.payload)
          signature = true := by
  obtain ⟨hmessage, hauthor⟩ := verify_outer_names h
  simp only [MessageV1.verify_outer, MessageV1.verify_input, bind_eq_ok, ok_or_eq_ok, ensure_eq_ok,
    exists_const, pure, Except.pure, Except.ok.injEq] at h
  obtain ⟨hsize, author, -, signature, hsignature, hverify, message, -, rfl⟩ := h
  exact ⟨hsize, hmessage, hauthor, signature, ofList?_eq_some hsignature, hverify⟩

/-- What a decoder accepts is signed by its author, in the family of the
decoder and for the topic. No diagnosis comes to this end. -/
theorem accepted_vouches (decoder : Decoder) {bytes : Bytes} {topic : TopicId}
    {verified : VerifiedMessage} (h : decoder.run bytes topic = .ok verified) :
    ∃ outer signature, Vouches bytes verified.author.as_bytes
        (signing_input decoder.family.domain topic) outer signature ∧
      outer.payload.length ≤ MAX_MESSAGE_SIZE ∧
      ∃ envelope, take_from_bytes MessageV1.codec "envelope" outer.payload = .ok envelope ∧
        verified.message.id = envelope.id ∧ verified.message.sent_at_ms = envelope.sent_at_ms ∧
        match decoder with
        | .decode => verified.message = envelope
        | .verify_sealed_outer => verified.message = envelope
        | .decode_sealed drop_key => ∃ inner_bytes,
          open_sealed drop_key topic verified.author envelope.id envelope.body.payload =
              .ok inner_bytes ∧
            take_from_bytes BodyEnvelopeV1.codec "sealed inner" inner_bytes =
              .ok verified.message.body := by
  cases decoder with
  | decode =>
    simp only [Decoder.run, MessageV1.decode, bind_eq_ok, pure, Except.pure,
      Except.ok.injEq] at h
    obtain ⟨-, -, outer, houter, v, hv, -, -, -, -, body, -, -, -, rfl⟩ := h
    obtain ⟨hsize, hmessage, hauthor, signature, hsignature, hverify⟩ :=
      verify_outer_spec (verify_diagnosed_ok hv)
    exact ⟨outer, signature, ⟨houter, hauthor.symm, hsignature, hverify⟩, hsize, v.message,
      hmessage, rfl, rfl, rfl⟩
  | decode_sealed drop_key =>
    simp only [Decoder.run, MessageV1.decode_sealed, bind_eq_ok, pure, Except.pure,
      Except.ok.injEq] at h
    obtain ⟨-, -, outer, houter, v, hv, -, -, -, -, inner_bytes, hopen, -, -, inner, hinner, -, -,
      body, -, -, -, rfl⟩ := h
    obtain ⟨hsize, hmessage, hauthor, signature, hsignature, hverify⟩ :=
      verify_outer_spec (verify_diagnosed_ok hv)
    exact ⟨outer, signature, ⟨houter, hauthor.symm, hsignature, hverify⟩, hsize, v.message,
      hmessage, rfl, rfl, inner_bytes, hopen, hinner⟩
  | verify_sealed_outer =>
    simp only [Decoder.run, MessageV1.verify_sealed_outer, bind_eq_ok, pure, Except.pure,
      Except.ok.injEq] at h
    obtain ⟨-, -, outer, houter, v, hv, -, -, -, -, -, -, rfl⟩ := h
    obtain ⟨hsize, hmessage, hauthor, signature, hsignature, hverify⟩ := verify_outer_spec hv
    exact ⟨outer, signature, ⟨houter, hauthor.symm, hsignature, hverify⟩, hsize, v.message,
      hmessage, rfl, rfl, rfl⟩

/-! ## Authors -/

/-- Something that an author put its name to: a message of a family for a
topic, or a payload of the wire that knew no topics. -/
inductive Signed where
  | encode (message : MessageV1) (topic : TopicId)
  | encode_sealed (message : MessageV1) (drop_key : DropKey) (topic : TopicId)
    (nonce : FixedBytes 24) (ciphertext : Bytes)
  | legacy (payload : Bytes)

namespace Signed

/-- The bytes that were signed for it. -/
def input : Signed → Bytes
  | .encode message topic => signing_input SIGN_DOMAIN topic (MessageV1.codec.write message)
  | .encode_sealed message _ topic nonce ciphertext =>
    signing_input SEALED_SIGN_DOMAIN topic
      (MessageV1.codec.write (sealed_envelope message (nonce.bytes ++ ciphertext)))
  | .legacy payload => LEGACY_SIGN_DOMAIN ++ payload

/-- The frame that came of it. -/
def Made (secret : SecretKey) : Signed → Bytes → Prop
  | .encode message topic, frame => message.encode secret topic = .ok frame
  | .encode_sealed message drop_key topic nonce ciphertext, frame =>
    message.encode_sealed secret drop_key topic nonce = .ok frame ∧
      Crypto.encrypt (drop_key.aead_key topic) nonce (seal_aad secret.public.as_bytes message.id)
        (BodyEnvelopeV1.codec.write message.body) = some ciphertext
  | .legacy payload, frame =>
    frame = SignedMessageV1.codec.write
        { author := secret.public.as_bytes
          signature := (Crypto.sign secret (LEGACY_SIGN_DOMAIN ++ payload)).bytes
          payload } ∧
      payload.length < 2 ^ 64

/-- The bytes read as a frame of the author with the signature of it. -/
def CarriedBy (secret : SecretKey) (s : Signed) (bytes : Bytes) : Prop :=
  ∃ outer, take_from_bytes SignedMessageV1.codec "frame" bytes = .ok outer ∧
    outer.author = secret.public.as_bytes ∧
    outer.signature = (Crypto.sign secret s.input).bytes

/-- The decoder and the topic that it is for. -/
def IsFor : Signed → Decoder → TopicId → Prop
  | .encode _ topic, decoder, topic' => decoder.family = .Public ∧ topic' = topic
  | .encode_sealed _ _ topic _ _, decoder, topic' => decoder.family = .Sealed ∧ topic' = topic
  | .legacy _, _, _ => False

end Signed

/-- An ideal signature scheme, as an honest author uses it: what the author
signed verifies, what verifies the author signed, and a signature is one of
one input. -/
structure IdealSignatures (secret : SecretKey) (signed : List Signed) : Prop where
  correct : ∀ s ∈ signed,
    Crypto.verify secret.public.as_bytes s.input (Crypto.sign secret s.input) = true
  unforgeable : ∀ input signature,
    Crypto.verify secret.public.as_bytes input signature = true → ∃ s ∈ signed, s.input = input
  single : ∀ input input' signature, Crypto.verify secret.public.as_bytes input signature = true →
    Crypto.verify secret.public.as_bytes input' signature = true → input = input'

/-- What was signed for a family is a message of it, for the topic. -/
theorem signed_of_input {signed : List Signed} {secret : SecretKey} {family : Family}
    {topic : TopicId} {payload : Bytes} {signature : FixedBytes 64}
    (h : IdealSignatures secret signed)
    (hverify : Crypto.verify secret.public.as_bytes (signing_input family.domain topic payload)
      signature = true) :
    (family = .Public ∧ ∃ message, .encode message topic ∈ signed ∧
        MessageV1.codec.write message = payload) ∨
      (family = .Sealed ∧ ∃ message drop_key nonce ciphertext,
        .encode_sealed message drop_key topic nonce ciphertext ∈ signed ∧
          MessageV1.codec.write (sealed_envelope message (nonce.bytes ++ ciphertext)) =
            payload) := by
  obtain ⟨s, hs, hinput⟩ := h.unforgeable _ _ hverify
  cases s with
  | encode message topic' =>
    have hsame : signing_input Family.Public.domain topic' (MessageV1.codec.write message) =
        signing_input family.domain topic payload := hinput
    obtain ⟨hfamily, htopic, hpayload⟩ := signing_input_injective hsame
    subst htopic
    exact .inl ⟨hfamily.symm, message, hs, hpayload⟩
  | encode_sealed message drop_key topic' nonce ciphertext =>
    have hsame : signing_input Family.Sealed.domain topic' (MessageV1.codec.write
        (sealed_envelope message (nonce.bytes ++ ciphertext))) =
        signing_input family.domain topic payload := hinput
    obtain ⟨hfamily, htopic, hpayload⟩ := signing_input_injective hsame
    subst htopic
    exact .inr ⟨hfamily.symm, message, drop_key, nonce, ciphertext, hs, hpayload⟩
  | legacy payload' => exact absurd hinput (legacy_input_ne family topic payload' payload)

theorem carried_of_made {secret : SecretKey} {s : Signed} {frame : Bytes}
    (hmade : s.Made secret frame) : s.CarriedBy secret frame := by
  have hmax : MAX_MESSAGE_SIZE < 2 ^ 64 := by decide
  have hsigned : ∀ {domain : Bytes} {topic : TopicId} {payload : Bytes},
      frame = SignedMessageV1.codec.write (sign_frame domain secret topic payload) →
      frame.length ≤ MAX_MESSAGE_SIZE →
      take_from_bytes SignedMessageV1.codec "frame" frame =
        .ok (sign_frame domain secret topic payload) := by
    intro domain topic payload heq hlen
    have hlength := sign_frame_write_length domain secret topic payload
    rw [← heq] at hlength
    rw [heq]
    exact read_sign_frame domain secret topic payload (by omega)
  cases s with
  | encode message topic =>
    obtain ⟨heq, hlen⟩ := MessageV1.encode_eq_ok.mp hmade
    exact ⟨_, hsigned heq hlen, rfl, rfl⟩
  | encode_sealed message drop_key topic nonce ciphertext =>
    obtain ⟨hencode, hencrypt⟩ := hmade
    obtain ⟨-, ciphertext', hencrypt', heq, hlen⟩ := MessageV1.encode_sealed_eq_ok.mp hencode
    rw [hencrypt] at hencrypt'
    cases hencrypt'
    exact ⟨_, hsigned heq hlen, rfl, rfl⟩
  | legacy payload =>
    obtain ⟨heq, hlen⟩ := hmade
    have hread := take_from_bytes_write SignedMessageV1.codec "frame" []
      (a := { author := secret.public.as_bytes
              signature := (Crypto.sign secret (LEGACY_SIGN_DOMAIN ++ payload)).bytes
              payload }) (by simp; omega)
    rw [List.append_nil, ← heq] at hread
    exact ⟨_, hread, rfl, rfl⟩

/-- What an honest author signed, a decoder accepts only as what it is for. -/
theorem accepted_is_for {secret : SecretKey} {signed : List Signed}
    (h : IdealSignatures secret signed) {s : Signed} (hs : s ∈ signed) {frame : Bytes}
    (hcarried : s.CarriedBy secret frame) {decoder : Decoder} {topic : TopicId}
    {verified : VerifiedMessage} (haccept : decoder.run frame topic = .ok verified) :
    s.IsFor decoder topic := by
  obtain ⟨outer, signature, hvouches, -⟩ := accepted_vouches decoder haccept
  obtain ⟨outer', hframe, hauthor, hsignature⟩ := hcarried
  rw [hvouches.frame] at hframe
  cases hframe
  have hsame : signature = Crypto.sign secret s.input :=
    FixedBytes.ext (hvouches.signature.symm.trans hsignature)
  have hverify := hvouches.verifies
  rw [hvouches.author.symm.trans hauthor, hsame] at hverify
  have hinput := h.single _ _ _ (h.correct s hs) hverify
  cases s with
  | encode message topic' =>
    have hinjective : signing_input Family.Public.domain topic' (MessageV1.codec.write message) =
        signing_input decoder.family.domain topic outer.payload := hinput
    obtain ⟨hfamily, htopic, -⟩ := signing_input_injective hinjective
    exact ⟨hfamily.symm, htopic.symm⟩
  | encode_sealed message drop_key topic' nonce ciphertext =>
    have hinjective : signing_input Family.Sealed.domain topic' (MessageV1.codec.write
        (sealed_envelope message (nonce.bytes ++ ciphertext))) =
        signing_input decoder.family.domain topic outer.payload := hinput
    obtain ⟨hfamily, htopic, -⟩ := signing_input_injective hinjective
    exact ⟨hfamily.symm, htopic.symm⟩
  | legacy payload => exact legacy_input_ne _ _ _ _ hinput

/-- A frame that a decoder accepts in the name of an honest author is one that
the author encoded in the family of the decoder, for the topic, with the
payload that is decoded. What the author encoded for another family or topic,
or signed without a topic, no decoder accepts. -/
theorem frames_tell_what_was_signed (secret : SecretKey) (signed : List Signed)
    (h : IdealSignatures secret signed) (bytes : Bytes) (topic : TopicId) :
    (∀ verified, MessageV1.decode bytes topic = .ok verified → verified.author = secret.public →
      .encode verified.message topic ∈ signed) ∧
    (∀ verified, MessageV1.verify_sealed_outer bytes topic = .ok verified →
      verified.author = secret.public → ∃ message drop_key nonce ciphertext,
        .encode_sealed message drop_key topic nonce ciphertext ∈ signed ∧
          verified.message = sealed_envelope message (nonce.bytes ++ ciphertext)) ∧
    (∀ drop_key verified, MessageV1.decode_sealed bytes drop_key topic = .ok verified →
      verified.author = secret.public → ∃ message drop_key' nonce ciphertext,
        .encode_sealed message drop_key' topic nonce ciphertext ∈ signed ∧
          verified.message.id = message.id ∧ verified.message.sent_at_ms = message.sent_at_ms ∧
          ∃ inner_bytes, open_sealed drop_key topic secret.public message.id
              (nonce.bytes ++ ciphertext) = .ok inner_bytes ∧
            take_from_bytes BodyEnvelopeV1.codec "sealed inner" inner_bytes =
              .ok verified.message.body) ∧
    ∀ s ∈ signed, (s.Made secret bytes → s.CarriedBy secret bytes) ∧
      (s.CarriedBy secret bytes → ∀ decoder : Decoder, ¬ s.IsFor decoder topic →
        ∀ verified, decoder.run bytes topic ≠ .ok verified) := by
  refine ⟨?_, ?_, ?_, ?_⟩
  · intro verified haccept hauthor
    obtain ⟨outer, signature, hvouches, hsize, envelope, hread, -, -, hmessage⟩ :=
      accepted_vouches .decode haccept
    have hverify := hvouches.verifies
    rw [hauthor] at hverify
    rcases signed_of_input h hverify with ⟨-, message, hmem, hw⟩ | ⟨hfamily, -⟩
    · rw [hmessage, read_payload hw hsize hread]
      exact hmem
    · cases hfamily
  · intro verified haccept hauthor
    obtain ⟨outer, signature, hvouches, hsize, envelope, hread, -, -, hmessage⟩ :=
      accepted_vouches .verify_sealed_outer haccept
    have hverify := hvouches.verifies
    rw [hauthor] at hverify
    rcases signed_of_input h hverify with ⟨hfamily, -⟩ | ⟨-, message, key, nonce, ciphertext, hmem, hw⟩
    · cases hfamily
    · exact ⟨message, key, nonce, ciphertext, hmem,
        hmessage.trans (read_payload hw hsize hread)⟩
  · intro drop_key verified haccept hauthor
    obtain ⟨outer, signature, hvouches, hsize, envelope, hread, hid, hsent, inner_bytes, hopen,
      hinner⟩ := accepted_vouches (.decode_sealed drop_key) haccept
    have hverify := hvouches.verifies
    rw [hauthor] at hverify hopen
    rcases signed_of_input h hverify with ⟨hfamily, -⟩ | ⟨-, message, key, nonce, ciphertext, hmem, hw⟩
    · cases hfamily
    · have henvelope := read_payload hw hsize hread
      subst henvelope
      exact ⟨message, key, nonce, ciphertext, hmem, hid, hsent, inner_bytes, hopen, hinner⟩
  · intro s hs
    refine ⟨carried_of_made, fun hcarried decoder hother verified haccept => ?_⟩
    exact hother (accepted_is_for h hs hcarried haccept)

end Laws

/-! ## An author of one message -/

namespace one_message

def topic : TopicId := ⟨.fill 32 8⟩
def secret : SecretKey := ⟨.fill 32 2⟩

def message : MessageV1 := .new (.Provider ⟨⟨.fill 32 7⟩, .Available, some 0⟩) (.fill 16 1) 0

/-- The bytes that the author signed. -/
def input : Bytes := signing_input SIGN_DOMAIN topic (MessageV1.codec.write message)

/-- Primitives under which one input alone was ever signed. -/
local instance recorded : Crypto :=
  { Crypto.clear with
    verify := fun key m sig => decide (m = input ∧ sig.bytes = key.bytes ++ key.bytes) }

def signed : List Signed := [.encode message topic]

theorem ideal : IdealSignatures secret signed := by
  constructor
  · intro s hs
    rw [List.mem_singleton.mp hs]
    exact decide_eq_true ⟨rfl, rfl⟩
  · intro m sig h
    exact ⟨_, List.mem_singleton_self _, (of_decide_eq_true h).1.symm⟩
  · intro m m' sig h h'
    exact (of_decide_eq_true h).1.trans (of_decide_eq_true h').1.symm

/-- The frame of the message. -/
def frame : Bytes :=
  match message.encode secret topic with
  | .ok bytes => bytes
  | .error _ => []

/-- The law at work on the frame, under its own topic. -/
theorem one_frame_tells_what_was_signed :
    (∀ verified, MessageV1.decode frame topic = .ok verified → verified.author = secret.public →
      .encode verified.message topic ∈ signed) ∧
    (∀ verified, MessageV1.verify_sealed_outer frame topic = .ok verified →
      verified.author = secret.public → ∃ message drop_key nonce ciphertext,
        .encode_sealed message drop_key topic nonce ciphertext ∈ signed ∧
          verified.message = sealed_envelope message (nonce.bytes ++ ciphertext)) ∧
    (∀ drop_key verified, MessageV1.decode_sealed frame drop_key topic = .ok verified →
      verified.author = secret.public → ∃ message drop_key' nonce ciphertext,
        .encode_sealed message drop_key' topic nonce ciphertext ∈ signed ∧
          verified.message.id = message.id ∧ verified.message.sent_at_ms = message.sent_at_ms ∧
          ∃ inner_bytes, open_sealed drop_key topic secret.public message.id
              (nonce.bytes ++ ciphertext) = .ok inner_bytes ∧
            take_from_bytes BodyEnvelopeV1.codec "sealed inner" inner_bytes =
              .ok verified.message.body) ∧
    ∀ s ∈ signed, (s.Made secret frame → s.CarriedBy secret frame) ∧
      (s.CarriedBy secret frame → ∀ decoder : Decoder, ¬ s.IsFor decoder topic →
        ∀ verified, decoder.run frame topic ≠ .ok verified) :=
  frames_tell_what_was_signed secret signed ideal frame topic

/-- The frame is accepted where it belongs. -/
example : (MessageV1.decode frame topic).isOk = true := by decide +kernel

end one_message

end iroh_drop
