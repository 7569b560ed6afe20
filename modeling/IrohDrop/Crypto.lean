-- The identities of the protocol and the cryptography it calls. The
-- primitives stand for ed25519, XChaCha20-Poly1305, HKDF-SHA256 and
-- HMAC-SHA256: the laws name what they ask of them.
import IrohDrop.Postcard

open rust_std postcard

namespace iroh_drop

/-! ## Secrets -/

structure SecretKey where
  to_bytes : FixedBytes 32
deriving DecidableEq

/-- The symmetric key that the members of a private drop share. -/
structure DropKey where
  as_bytes : FixedBytes 32
deriving DecidableEq

/-! ## Primitives -/

class Crypto where
  /-- `SecretKey::public`. -/
  public_key : SecretKey → FixedBytes 32
  /-- `PublicKey::from_bytes` takes these bytes. -/
  is_public_key : FixedBytes 32 → Bool
  public_key_is_key : ∀ s, is_public_key (public_key s) = true
  sign : SecretKey → Bytes → FixedBytes 64
  verify : FixedBytes 32 → Bytes → FixedBytes 64 → Bool
  /-- `encrypt key nonce aad msg`. -/
  encrypt : FixedBytes 32 → FixedBytes 24 → Bytes → Bytes → Option Bytes
  /-- `decrypt key nonce aad ciphertext`. -/
  decrypt : FixedBytes 32 → FixedBytes 24 → Bytes → Bytes → Option Bytes
  /-- `hkdf salt ikm info`, 32 bytes out. -/
  hkdf : Bytes → Bytes → Bytes → FixedBytes 32
  /-- `hmac key msg`. -/
  hmac : FixedBytes 32 → Bytes → FixedBytes 32

/-- Primitives that the model can run on. Nothing they do is secret: a
signature is the key twice over, and a sealed text carries a tag of zeros. -/
@[reducible] def Crypto.clear : Crypto where
  public_key s := s.to_bytes
  is_public_key _ := true
  public_key_is_key _ := rfl
  sign s _ := ⟨s.to_bytes.bytes ++ s.to_bytes.bytes, by simp⟩
  verify pk _ sig := decide (sig.bytes = pk.bytes ++ pk.bytes)
  encrypt _ _ _ msg := some (msg ++ List.replicate 16 0)
  decrypt _ _ _ ciphertext := some (ciphertext.take (ciphertext.length - 16))
  hkdf _ _ _ := .fill 32 0
  hmac _ _ := .fill 32 0

/-- Signatures verify under the key that made them. -/
def Crypto.SignaturesVerify [Crypto] : Prop :=
  ∀ s m, Crypto.verify (Crypto.public_key s) m (Crypto.sign s m) = true

/-- The toy primitives verify what they sign. -/
theorem Crypto.clear_signatures_verify : @Crypto.SignaturesVerify Crypto.clear :=
  fun _ _ => decide_eq_true rfl

/-! ## Identities -/

variable [Crypto]

/-- The ed25519 public key of an endpoint: only bytes that are a key make one. -/
structure EndpointId where
  as_bytes : FixedBytes 32
  is_key : Crypto.is_public_key as_bytes = true
deriving DecidableEq

/-- Endpoint ids compare byte by byte. -/
instance : LinearOrder EndpointId :=
  LinearOrder.lift' EndpointId.as_bytes (fun a b h => by cases a; cases b; simp_all)

/-- `EndpointId::from_bytes`. -/
def EndpointId.from_bytes (b : FixedBytes 32) : Option EndpointId :=
  if h : Crypto.is_public_key b = true then some ⟨b, h⟩ else none

@[simp] theorem EndpointId.from_as_bytes (e : EndpointId) : from_bytes e.as_bytes = some e := by
  simp [from_bytes, e.is_key]

def SecretKey.public (s : SecretKey) : EndpointId :=
  ⟨Crypto.public_key s, Crypto.public_key_is_key s⟩

/-- The gossip topic of a drop. -/
structure TopicId where
  as_bytes : FixedBytes 32
deriving DecidableEq

/-- The 32-byte BLAKE3 hash of a blob. -/
structure BlobHash where
  as_bytes : FixedBytes 32
deriving DecidableEq

end iroh_drop
