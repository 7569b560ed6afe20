-- The law of the known peers: their set and their queue agree, and stay
-- within the cap, as long as no neighbor comes up that was not met before.
import IrohDrop.Calls

open rust_std postcard

namespace iroh_drop

section Laws

variable [Crypto]

/-! ## The invariant -/

/-- The queue lists the known peers, each once, and they are not too many. -/
structure PeersKept (s : DropState) : Prop where
  bounded : HashMap.len s.known_peers ≤ MAX_KNOWN_PEERS
  nodup : s.peer_order.Nodup
  queued : ∀ peer, peer ∈ s.peer_order ↔ peer ∈ s.known_peers

/-- A set that a queue lists is as long as the queue. -/
theorem len_of_queued {known : HashSet EndpointId} {order : List EndpointId}
    (hn : order.Nodup) (hq : ∀ peer, peer ∈ order ↔ peer ∈ known) :
    HashMap.len known = order.length := by
  have hperm : known.keys.Perm order := (List.perm_ext_iff_of_nodup known.keys_nodup hn).mpr
    (fun peer => AList.mem_keys.symm.trans (hq peer).symm)
  exact hperm.length_eq

namespace DropState

variable (s : DropState)

/-- Forgetting peers takes the first ones off the queue, and out of the set,
until the cap is met. The last one stays. -/
theorem forget_peers_spec (known : HashSet EndpointId) (order : List EndpointId) :
    ∃ dropped kept, order = dropped ++ kept ∧ (s.forget_peers known order).peer_order = kept ∧
      kept.length ≤ MAX_KNOWN_PEERS ∧ (order ≠ [] → kept ≠ []) ∧
      ∀ peer, peer ∈ (s.forget_peers known order).known_peers ↔ peer ∈ known ∧ peer ∉ dropped := by
  induction order generalizing known with
  | nil => exact ⟨[], [], rfl, rfl, Nat.zero_le _, id, fun peer => ⟨fun h => ⟨h, by simp⟩, And.left⟩⟩
  | cons old rest ih =>
    unfold forget_peers
    split
    · rename_i hover
      obtain ⟨dropped, kept, hrest, horder, hlen, hlast, hknown⟩ := ih (known.erase old)
      refine ⟨old :: dropped, kept, by rw [hrest, List.cons_append], horder, hlen, ?_, ?_⟩
      · intro _
        refine hlast fun hnil => ?_
        rw [hnil, List.length_nil, Nat.zero_add] at hover
        exact absurd hover (by decide)
      · intro peer
        rw [hknown, AList.mem_erase, List.mem_cons, not_or]
        constructor
        · rintro ⟨⟨hne, hmem⟩, hnot⟩
          exact ⟨hmem, hne, hnot⟩
        · rintro ⟨hmem, hne, hnot⟩
          exact ⟨⟨hne, hmem⟩, hnot⟩
    · rename_i hfits
      refine ⟨[], old :: rest, rfl, rfl, ?_, id, fun peer => ⟨fun h => ⟨h, by simp⟩, And.left⟩⟩
      rw [List.length_cons]
      omega

/-- The rest of the queue lists the peers that are not forgotten. -/
theorem forget_peers_kept {known : HashSet EndpointId} {order : List EndpointId}
    (hn : order.Nodup) (hq : ∀ peer, peer ∈ order ↔ peer ∈ known) :
    PeersKept (s.forget_peers known order) := by
  obtain ⟨dropped, kept, rfl, horder, hlen, -, hknown⟩ := s.forget_peers_spec known order
  obtain ⟨-, hkept, hapart⟩ := List.nodup_append.mp hn
  have hqueued : ∀ peer, peer ∈ kept ↔ peer ∈ (s.forget_peers known (dropped ++ kept)).known_peers := by
    intro peer
    rw [hknown, ← hq, List.mem_append]
    constructor
    · intro h
      exact ⟨.inr h, fun hd => hapart peer hd peer h rfl⟩
    · rintro ⟨h | h, hnot⟩
      · exact absurd h hnot
      · exact h
  refine ⟨?_, ?_, ?_⟩
  · rw [len_of_queued hkept hqueued]
    exact hlen
  · rw [horder]
    exact hkept
  · rw [horder]
    exact hqueued

variable {s}

theorem note_peer_kept (h : PeersKept s) (peer : EndpointId) : PeersKept (s.note_peer peer) := by
  unfold note_peer
  split
  · exact h
  · rename_i hnew
    refine s.forget_peers_kept ?_ ?_
    · refine List.nodup_append.mpr ⟨h.nodup, List.nodup_singleton peer, ?_⟩
      intro a ha b hb heq
      rw [heq, List.mem_singleton.mp hb] at ha
      exact hnew ((h.queued peer).mp ha)
    · intro p
      rw [List.mem_append, List.mem_singleton, AList.mem_insert, h.queued]
      exact or_comm

/-- Offers evict offers, and no peers. -/
theorem evict_offers_peers (s : DropState) (order : List BlobHash) :
    (s.evict_offers order).1.known_peers = s.known_peers ∧
      (s.evict_offers order).1.peer_order = s.peer_order := by
  induction order generalizing s with
  | nil => exact ⟨rfl, rfl⟩
  | cons oldest rest ih =>
    unfold evict_offers
    split
    · split
      · exact ih _
      · exact ih s
    · exact ⟨rfl, rfl⟩

theorem record_offer_inner_peers (s : DropState) (author : EndpointId) (offer : OfferV1)
    (now : Instant) :
    (s.record_offer_inner author offer now).2.known_peers = s.known_peers ∧
      (s.record_offer_inner author offer now).2.peer_order = s.peer_order := by
  unfold record_offer_inner
  extract_lets hash s₁ s₂ record s₃
  split
  · exact ⟨rfl, rfl⟩
  · split
    · exact ⟨rfl, rfl⟩
    · exact evict_offers_peers s₃ s₃.offer_order

/-- An operation other than `note_peer` leaves the peers as they are. -/
theorem perform_peers (s : DropState) {op : Op} (h : ∀ peer, op ≠ .note_peer peer) :
    (s.perform op).known_peers = s.known_peers ∧ (s.perform op).peer_order = s.peer_order := by
  cases op with
  | note_peer peer => exact absurd rfl (h peer)
  | check_and_insert key now => exact ⟨rfl, rfl⟩
  | retain retain frame =>
    cases retain with
    | Yes => exact ⟨rfl, rfl⟩
    | No => exact ⟨rfl, rfl⟩
    | Unknown =>
      simp only [perform, DropState.retain, retain_unknown_frame]
      split <;> exact ⟨rfl, rfl⟩
  | record_offer_inner author offer now => exact s.record_offer_inner_peers author offer now
  | assert_provider hash peer announced_at_ms frame_id withdrawn => exact ⟨rfl, rfl⟩
  | set_local_status hash status => exact ⟨rfl, rfl⟩
  | add_provider hash => exact ⟨rfl, rfl⟩
  | mark_failure hash id now => exact ⟨rfl, rfl⟩
  | mark_success hash id => exact ⟨rfl, rfl⟩

theorem perform_kept (h : PeersKept s) (op : Op) : PeersKept (s.perform op) := by
  by_cases hop : ∃ peer, op = .note_peer peer
  · obtain ⟨peer, rfl⟩ := hop
    exact note_peer_kept h peer
  · obtain ⟨hknown, horder⟩ := s.perform_peers (fun peer heq => hop ⟨peer, heq⟩)
    refine ⟨?_, ?_, ?_⟩
    · rw [hknown]
      exact h.bounded
    · rw [horder]
      exact h.nodup
    · rw [hknown, horder]
      exact h.queued

end DropState

/-! ## Runs -/

/-- A neighbor that comes up was met before. -/
def MetBefore (s : Session) (i : Step) : Prop :=
  ∀ peer now, i = .neighbor_up peer now → peer ∈ s.state.known_peers

/-- One step keeps the peers just when it brings no stranger up. -/
theorem step_kept_iff (s : Session) (i : Step) (h : PeersKept s.state) :
    PeersKept (s.step i).state ↔ MetBefore s i := by
  by_cases hup : ∃ peer now, i = .neighbor_up peer now
  · obtain ⟨peer, now, rfl⟩ := hup
    have hstate : (s.step (.neighbor_up peer now)).state =
        { s.state with known_peers := s.state.known_peers.insert peer () } :=
      s.neighbor_up_state peer now
    rw [hstate]
    constructor
    · intro hkept peer' now' heq
      cases heq
      have hknown : peer ∈ s.state.known_peers.insert peer () := (AList.mem_insert _).mpr (.inl rfl)
      exact (h.queued peer).mp ((hkept.queued peer).mpr hknown)
    · intro hmet
      have hold := hmet peer now rfl
      refine ⟨?_, h.nodup, ?_⟩
      · change HashMap.len (s.state.known_peers.insert peer ()) ≤ _
        rw [HashMap.len_insert, if_pos hold]
        exact h.bounded
      · intro p
        change p ∈ s.state.peer_order ↔ p ∈ s.state.known_peers.insert peer ()
        rw [h.queued, AList.mem_insert]
        constructor
        · exact .inr
        · rintro (rfl | hp)
          · exact hold
          · exact hp
  · have hnot : ∀ peer now, i ≠ .neighbor_up peer now := fun peer now heq => hup ⟨peer, now, heq⟩
    have hcalls := s.calls_step hnot
    have hkept : PeersKept (s.step i).state :=
      hcalls.keeps (fun _ op h _ => DropState.perform_kept h op) h
    exact ⟨fun _ peer now heq => absurd heq (hnot peer now), fun _ => hkept⟩

/-- The known peers stay bounded, and in step with their queue, in every
state of a run just when no neighbor comes up that was not met before. -/
theorem known_peers_bounded_iff (secret : SecretKey) (policy : DropPolicy)
    (decider : OfferDecider) (topic_id : TopicId) (ticket : DropTicket) (drop_key : Option DropKey)
    (store : BlobHash → BlobStatus) (steps : List Step) :
    (∀ past, past <+: steps → PeersKept
      ((Session.new secret policy decider topic_id ticket drop_key store).run past).state) ↔
    runs.Meets Session.step MetBefore
      (.new secret policy decider topic_id ticket drop_key store) steps := by
  refine runs.invariant_iff_meets step_kept_iff ?_ steps
  refine ⟨Nat.zero_le _, List.nodup_nil, ?_⟩
  intro peer
  constructor <;> (intro h; cases h)

end Laws

/-! ## A neighbor that is never forgotten -/

namespace stranger

local instance : Crypto := Crypto.clear

def topic : TopicId := ⟨.fill 32 8⟩

def member : Session :=
  .new ⟨.fill 32 1⟩ {} PolicyDecider topic (.nodeless topic.as_bytes none) none (fun _ => .NotFound)

def peer : EndpointId := SecretKey.public ⟨.fill 32 2⟩

/-- The peer is known and not queued, so nothing ever evicts it. -/
theorem a_neighbor_is_not_queued :
    peer ∈ (member.run [.neighbor_up peer 0]).state.known_peers ∧
      (member.run [.neighbor_up peer 0]).state.peer_order = [] ∧
      ¬ PeersKept (member.run [.neighbor_up peer 0]).state := by
  have hknown : peer ∈ (member.run [.neighbor_up peer 0]).state.known_peers := by decide +kernel
  have horder : (member.run [.neighbor_up peer 0]).state.peer_order = [] := by decide +kernel
  refine ⟨hknown, horder, ?_⟩
  intro h
  have hqueued := (h.queued peer).mpr hknown
  rw [horder] at hqueued
  cases hqueued

end stranger

end iroh_drop
