-- Flood control: a token bucket per peer, with a bound on the number of
-- buckets (limits.rs). Tokens are exact rationals here, not floats.
import IrohDrop.Crypto

open rust_std

namespace iroh_drop

variable [Crypto]

/-- A point of the monotonic clock, in nanoseconds. -/
abbrev Instant := Nat
/-- A length of time, in nanoseconds. -/
abbrev Duration := Nat

def Duration.from_secs (s : Nat) : Duration := s * 1000000000

def Duration.as_secs (d : Duration) : ℚ := d / 1000000000

/-- A token bucket: `burst` tokens at once, `per_second` after that. -/
structure Rate where
  burst : ℚ
  per_second : ℚ
deriving DecidableEq

def MESSAGES : Rate := ⟨64, 16⟩
def REQUESTS : Rate := ⟨8, 1⟩
def SYNC_PAGES : Rate := ⟨32, 4⟩

def MAX_TRACKED_PEERS : Nat := 4096

structure Bucket where
  tokens : ℚ
  last : Instant
deriving DecidableEq

structure PeerRateLimiter where
  rate : Rate
  buckets : HashMap EndpointId Bucket
  order : List EndpointId

def PeerRateLimiter.new (rate : Rate) : PeerRateLimiter := ⟨rate, ∅, []⟩

/-- The tokens of a bucket that was last used at `b.last`. -/
def Bucket.refill (b : Bucket) (rate : Rate) (now : Instant) : ℚ :=
  min (b.tokens + Duration.as_secs (now - b.last) * rate.per_second) rate.burst

/-- Forget the peers that came first, past the cap. -/
def PeerRateLimiter.evict (self : PeerRateLimiter) : PeerRateLimiter :=
  go self.buckets self.order
where
  go (buckets : HashMap EndpointId Bucket) : List EndpointId → PeerRateLimiter
    | [] => { self with buckets, order := [] }
    | old :: rest =>
      if rest.length + 1 > MAX_TRACKED_PEERS then go (buckets.erase old) rest
      else { self with buckets, order := old :: rest }

/-- Take one token for `peer`: whether it was allowed, and the limiter after. -/
def PeerRateLimiter.allow_at (self : PeerRateLimiter) (peer : EndpointId) (now : Instant) :
    Bool × PeerRateLimiter :=
  let (fresh, tokens) := match self.buckets.lookup peer with
    | none => (true, self.rate.burst)
    | some b => (false, b.refill self.rate now)
  let (allowed, left) := if 1 ≤ tokens then (true, tokens - 1) else (false, tokens)
  let self := { self with buckets := self.buckets.insert peer ⟨left, now⟩ }
  if fresh then (allowed, PeerRateLimiter.evict { self with order := self.order ++ [peer] })
  else (allowed, self)

end iroh_drop
