-- The peers that claim to serve a blob, and the order in which a fetch
-- tries them (provider.rs).
import IrohDrop.Limits

open rust_std

namespace iroh_drop

variable [Crypto]

def MAX_PROVIDERS_PER_BLOB : Nat := 64

structure ProviderInfo where
  failures : Nat := 0
  last_failure : Option Instant := none
  announced : Bool := false
  announced_at_ms : UInt64 := 0
  last_frame_id : FixedBytes 16 := .fill 16 0
  withdrawn : Bool := false
deriving DecidableEq

structure ProviderSet where
  /-- The first offerer, tried first among equals. -/
  original : Option EndpointId := none
  providers : HashMap EndpointId ProviderInfo := ∅

def ProviderSet.add (self : ProviderSet) (id : EndpointId) (is_original : Bool) : ProviderSet :=
  { original := if is_original && self.original.isNone then some id else self.original
    providers := HashMap.update self.providers id {} (fun info => info) }

def ProviderSet.remove (self : ProviderSet) (id : EndpointId) : ProviderSet :=
  { original := if self.original = some id then none else self.original
    providers := self.providers.erase id }

/-- The order of eviction, worst first: the withdrawn, then the most
failures, then the oldest assertion, then the id. -/
def worse (a b : EndpointId × ProviderInfo) : Prop :=
  toLex (!a.2.withdrawn, toLex (OrderDual.toDual a.2.failures,
      toLex (a.2.announced_at_ms.toNat, a.1))) ≤
    toLex (!b.2.withdrawn, toLex (OrderDual.toDual b.2.failures,
      toLex (b.2.announced_at_ms.toNat, b.1)))

instance : DecidableRel worse := fun a b => by unfold worse; infer_instance

/-- The entries, as `iter()` gives them. -/
def ProviderSet.entries (self : ProviderSet) : List (EndpointId × ProviderInfo) :=
  self.providers.entries.map (fun e => (e.1, e.2))

def ProviderSet.enforce_cap (self : ProviderSet) : ProviderSet :=
  if HashMap.len self.providers ≤ MAX_PROVIDERS_PER_BLOB then self
  else
    let ranked := self.entries.insertionSort worse
    (ranked.take (HashMap.len self.providers - MAX_PROVIDERS_PER_BLOB)).foldl
      (fun set e => set.remove e.1) self

/-- The key that orders the assertions of one author. -/
def assertion_lt (at₁ : UInt64) (id₁ : FixedBytes 16) (at₂ : UInt64) (id₂ : FixedBytes 16) :
    Prop :=
  toLex (at₁.toNat, id₁) < toLex (at₂.toNat, id₂)

instance (at₁ : UInt64) (id₁ : FixedBytes 16) (at₂ : UInt64) (id₂ : FixedBytes 16) :
    Decidable (assertion_lt at₁ id₁ at₂ id₂) := by
  unfold assertion_lt; infer_instance

/-- Apply an assertion of `id` about itself, the newest wins: whether it
changed anything, and the set after. -/
def ProviderSet.record (self : ProviderSet) (id : EndpointId) (announced_at_ms : UInt64)
    (frame_id : FixedBytes 16) (withdrawn : Bool) : Bool × ProviderSet :=
  let entry := (self.providers.lookup id).getD {}
  if assertion_lt announced_at_ms frame_id entry.announced_at_ms entry.last_frame_id then
    -- A stale assertion still makes the entry that `entry().or_default()` makes.
    (false, { self with providers := self.providers.insert id entry })
  else
    let changed := entry.withdrawn != withdrawn || !entry.announced
    let entry := { entry with announced := true, announced_at_ms, last_frame_id := frame_id,
                              withdrawn }
    let original := if withdrawn && self.original = some id then none else self.original
    (changed, ProviderSet.enforce_cap { original, providers := self.providers.insert id entry })

def ProviderSet.mark_failure (self : ProviderSet) (id : EndpointId) (now : Instant) :
    ProviderSet :=
  { self with providers := HashMap.update self.providers id {} (fun info =>
      { info with failures := min (info.failures + 1) (2 ^ 32 - 1), last_failure := some now }) }

def ProviderSet.mark_success (self : ProviderSet) (id : EndpointId) : ProviderSet :=
  { self with providers := HashMap.modify self.providers id (fun info =>
      { info with failures := 0, last_failure := none }) }

/-- The order of fetches: fewest failures, then the first offerer, then the id. -/
def ProviderSet.before (self : ProviderSet) (a b : EndpointId × ProviderInfo) : Prop :=
  toLex (a.2.failures, toLex (!(decide (self.original = some a.1)), a.1)) ≤
    toLex (b.2.failures, toLex (!(decide (self.original = some b.1)), b.1))

instance (self : ProviderSet) : DecidableRel self.before := fun a b => by
  unfold ProviderSet.before; infer_instance

def ProviderSet.ordered (self : ProviderSet) : List EndpointId :=
  ((self.entries.filter (fun e => !e.2.withdrawn)).insertionSort self.before).map Prod.fst

def ProviderSet.ordered_excluding (self : ProviderSet) (id : EndpointId) : List EndpointId :=
  self.ordered.filter (fun p => p ≠ id)

end iroh_drop
