-- What a publish that went well leaves: the blob is listed here, under
-- conditions on the state before.
import IrohDrop.Publishing
import IrohDrop.Convergence

open rust_std

namespace iroh_drop

section Laws

variable [Crypto]

/-! ## What is listed -/

/-- The blob of the hash is whole here, for all that the table knows. -/
def DropState.has_whole (self : DropState) (hash : BlobHash) : Prop :=
  ∃ record, self.offers.lookup hash = some record ∧ record.local_status = .Complete

namespace Session

/-- The records of the table, first seen first. -/
def offers (self : Session) : List OfferRecord :=
  (self.state.offers.entries.map (fun e => e.2)).insertionSort
    (fun a b => a.first_seen_at ≤ b.first_seen_at)

/-- The providers of a blob, in the order of a fetch. -/
def providers (self : Session) (hash : BlobHash) : List EndpointId :=
  match self.state.providers.lookup hash with
  | some set => set.ordered
  | none => []

end Session

/-- Each record stands under the hash that it is an offer of. -/
def Keyed (s : DropState) : Prop :=
  ∀ hash record, s.offers.lookup hash = some record → record.offer.blob_hash = hash

theorem OfferRecord.add_alias_offer (record : OfferRecord) (name : String) :
    (record.add_alias name).offer = record.offer := by
  unfold add_alias
  split <;> rfl

namespace DropState

variable {s : DropState}

theorem record_offer_inner_keyed (hk : TableKept s) (h : Keyed s) (author : EndpointId)
    (offer : OfferV1) (now : Instant) : Keyed (s.record_offer_inner author offer now).2 := by
  have hrecorded := offer_recorded hk author offer now
  have hlisted : Keyed (s.offer_listed author offer now) := by
    intro hash record hlookup
    rw [offer_listed_lookup] at hlookup
    split at hlookup
    · rename_i heq
      cases hlookup
      exact heq.symm
    · exact h hash record hlookup
  generalize s.record_offer_inner author offer now = result at hrecorded ⊢
  cases hrecorded with
  | known old hold =>
    intro hash record hlookup
    rw [HashMap.lookup_insert'] at hlookup
    split at hlookup
    · rename_i heq
      cases hlookup
      rw [OfferRecord.add_alias_offer, heq]
      exact h _ old hold
    · exact h hash record hlookup
  | refused hnew hspent => exact h
  | listed hnew hquota hroom => exact hlisted
  | replaced hnew hquota hfull oldest rest gone horder hgone =>
    intro hash record hlookup
    change ((s.offer_listed author offer now).offers.erase oldest).lookup hash = _ at hlookup
    rw [HashMap.lookup_erase'] at hlookup
    split at hlookup
    · cases hlookup
    · exact hlisted hash record hlookup

theorem perform_keyed (hk : TableKept s) (h : Keyed s) (op : Op) : Keyed (s.perform op) := by
  cases op with
  | note_peer peer =>
    obtain ⟨known, order, hnoted⟩ := s.note_peer_tables peer
    simp only [perform, hnoted]
    exact h
  | retain r frame =>
    simp only [perform]
    unfold Keyed
    rw [(s.retain_tables r frame).1]
    exact h
  | record_offer_inner author offer now => exact record_offer_inner_keyed hk h author offer now
  | set_local_status hash status =>
    intro x record hlookup
    change (HashMap.modify s.offers hash _).lookup x = _ at hlookup
    rw [HashMap.lookup_modify] at hlookup
    split at hlookup
    · rename_i heq
      obtain ⟨old, hold, rfl⟩ := Option.map_eq_some_iff.mp hlookup
      exact (h hash old hold).trans heq.symm
    · exact h x record hlookup
  | _ => exact h

end DropState

namespace Session

theorem step_keyed (s : Session) (i : Step) (h : TableKept s.state ∧ Keyed s.state) :
    TableKept (s.step i).state ∧ Keyed (s.step i).state := by
  by_cases hup : ∃ peer now, i = .neighbor_up peer now
  · obtain ⟨peer, now, rfl⟩ := hup
    simp only [step, neighbor_up_state]
    exact ⟨h.1.of_same rfl rfl rfl, h.2⟩
  · have hcalls := s.calls_step (fun peer now heq => hup ⟨peer, now, heq⟩)
    refine hcalls.keeps (p := fun a => TableKept a ∧ Keyed a) (fun a op ha _ => ?_) h
    exact ⟨DropState.perform_table ha.1 op, DropState.perform_keyed ha.1 ha.2 op⟩

theorem mem_offers {s : Session} {record : OfferRecord} :
    record ∈ s.offers ↔ ∃ hash, s.state.offers.lookup hash = some record := by
  unfold offers
  rw [List.mem_insertionSort, List.mem_map]
  constructor
  · rintro ⟨e, he, rfl⟩
    exact ⟨e.1, (List.mem_dlookup_iff s.state.offers.nodupKeys).mpr he⟩
  · rintro ⟨hash, hlookup⟩
    exact ⟨⟨hash, record⟩, (List.mem_dlookup_iff s.state.offers.nodupKeys).mp hlookup, rfl⟩

end Session

/-! ## An offer of our own -/

namespace DropState

variable {s : DropState}

/-- The tables know the blob as whole, and its publisher as a provider. -/
def Published (s : DropState) (hash : BlobHash) (author : EndpointId) : Prop :=
  s.has_whole hash ∧ s.serves hash author

end DropState

namespace Import

variable {s : Session} {i : Import}

end Import

/-! ## A publish that went well -/

theorem SameBooks.published {a b : DropState} (h : SameBooks a b) (hash : BlobHash)
    (author : EndpointId) : b.Published hash author ↔ a.Published hash author := by
  unfold DropState.Published DropState.has_whole DropState.serves
  rw [h.offers, h.providers]

end Laws

/-! ## A blob that is published again -/

namespace published_again

local instance : Crypto := Crypto.clear

/-- The crates of collections, which no call here comes to. -/
local instance : Crates where
  hash_of _ := ⟨.fill 32 7⟩
  to_vec_pretty _ := .error "no collection"
  from_slice _ := .error "no collection"
  debug s := "\"" ++ s ++ "\""

def secret : SecretKey := ⟨.fill 32 1⟩

def topic : TopicId := ⟨.fill 32 8⟩

def ticket : DropTicket := .nodeless topic.as_bytes none

def store : BlobHash → BlobStatus := fun _ => .NotFound

def member : Session := .new secret {} PolicyDecider topic ticket none store

def draw (n : UInt8) : Draw :=
  { now := 0, sent_at_ms := 0, id := .fill 16 n, nonce := .fill 24 0, carried := .ok () }

def world (n : UInt8) : ImportWorld :=
  { imported := .ok ⟨.fill 32 7⟩, guessed := none, tag_set := .ok (), now := 0
    created_at_ms := 0, announced_at_ms := 1, offer_draw := draw n, provider_draw := draw (n + 1) }

def call : PublishCall := .publish_bytes_with "a" [1] none ∅ (world 4)

def blob : Session.PublishedBlob :=
  { hash := ⟨.fill 32 7⟩, name := "a", size := 1, media_type := none }

/-- The history of a life that ended with a polite leave. -/
def history : List Bytes :=
  (member.run [.publish_bytes_with "a" [1] none ∅ (world 1),
    .announce_withdrawal (fun _ => 2) (fun _ => draw 3)]).export_history

def steps : List Step := [.restore_history (history.map (fun frame => (frame, 0)))]

end published_again

end iroh_drop
