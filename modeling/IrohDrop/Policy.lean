-- When an offered blob is fetched with nobody asked (policy.rs).
import IrohDrop.Message

open rust_std

namespace iroh_drop

variable [Crypto]

inductive PolicyError where
  | TooLarge (size max : UInt64)
  | MediaTypeRejected (media_type : String)
  | TotalQuotaExceeded (spent size max : UInt64)
  | ConcurrencyLimit (active max : Nat)
  | TooManySessions (active max : Nat)
deriving DecidableEq

def PolicyError.text : PolicyError → String
  | .TooLarge size max => s!"blob size {size} exceeds maximum {max} bytes"
  | .MediaTypeRejected media_type => s!"media type {media_type.quote} is not accepted by policy"
  | .TotalQuotaExceeded spent size max =>
    s!"auto-fetch byte quota exceeded ({spent} + {size} > {max})"
  | .ConcurrencyLimit active max => s!"too many concurrent fetches ({active}, max {max})"
  | .TooManySessions active max => s!"too many live drop sessions ({active}, max {max})"

structure DropPolicy where
  auto_fetch : Bool := false
  max_blob_size : UInt64 := 500 * 1024 * 1024
  max_concurrent_fetches : Nat := 3
  max_total_auto_fetch_bytes : UInt64 := 2 * 1024 * 1024 * 1024
  accepted_media_types : Option (HashSet String) := none

/-- `u64::saturating_add`. -/
def saturating_add (a b : UInt64) : UInt64 :=
  if a.toNat + b.toNat < 2 ^ 64 then a + b else UInt64.ofNat (2 ^ 64 - 1)

/-- The media type of an offer is one that the policy takes. -/
def DropPolicy.media_type_accepted (self : DropPolicy) (offer : OfferV1) : Prop :=
  ∀ accepted, self.accepted_media_types = some accepted → offer.media_type.getD "" ∈ accepted

instance (self : DropPolicy) (offer : OfferV1) : Decidable (self.media_type_accepted offer) :=
  match h : self.accepted_media_types with
  | none => isTrue (by simp [DropPolicy.media_type_accepted, h])
  | some accepted =>
    decidable_of_iff (offer.media_type.getD "" ∈ accepted)
      (by simp [DropPolicy.media_type_accepted, h])

def DropPolicy.check_auto_fetch (self : DropPolicy) (offer : OfferV1) (active_fetches : Nat)
    (spent_bytes : UInt64) : Except PolicyError Unit := do
  ensure (offer.size ≤ self.max_blob_size) (.TooLarge offer.size self.max_blob_size)
  ensure (self.media_type_accepted offer) (.MediaTypeRejected (offer.media_type.getD ""))
  ensure (active_fetches < self.max_concurrent_fetches)
    (.ConcurrencyLimit active_fetches self.max_concurrent_fetches)
  ensure (saturating_add spent_bytes offer.size ≤ self.max_total_auto_fetch_bytes)
    (.TotalQuotaExceeded spent_bytes offer.size self.max_total_auto_fetch_bytes)

/-! ## Deciders -/

/-- What the protocol knows about an offer when it asks a decider. -/
structure OfferContext where
  author : EndpointId
  delivered_from : EndpointId
  is_new : Bool
  policy_allows_auto_fetch : Bool

inductive OfferDecision where
  | Accept
  | RecordOnly
  | Reject (reason : String)
deriving DecidableEq

/-- The judgement of the application on one offer. -/
abbrev OfferDecider := OfferV1 → OfferContext → OfferDecision

/-- The default decider: what the policy says. -/
def PolicyDecider : OfferDecider := fun _ context =>
  if context.policy_allows_auto_fetch then .Accept else .RecordOnly

end iroh_drop
