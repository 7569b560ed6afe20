-- Whom a session counts as a peer that it has met: authorship is not
-- connection, but the author of an offer is noted all the same.
import IrohDrop.KnownPeers
import IrohDrop.Speech

open rust_std postcard

namespace iroh_drop

/-! ## Nodes of a ticket -/

section Nodes

variable [Crypto] [Urls]

/-- Peers are pushed by id only, and those before them stay. -/
theorem mem_push_peers {self_endpoint_id : EndpointId} {peers : List EndpointId}
    {nodes : List EndpointAddr} {node : EndpointAddr}
    (h : node ∈ Session.push_peers self_endpoint_id peers nodes) :
    node ∈ nodes ∨ ∃ peer ∈ peers, node = .of_id peer := by
  induction peers generalizing nodes with
  | nil => exact .inl h
  | cons peer peers ih =>
    have hlater (h' : ∃ p ∈ peers, node = .of_id p) : ∃ p ∈ peer :: peers, node = .of_id p :=
      h'.imp fun p hp => ⟨List.mem_cons_of_mem _ hp.1, hp.2⟩
    unfold Session.push_peers at h
    split at h
    · exact .inl h
    · split at h
      · rcases ih h with hmem | hlate
        · rcases List.mem_append.mp hmem with hmem | hmem
          · exact .inl hmem
          · exact .inr ⟨peer, List.mem_cons_self, List.mem_singleton.mp hmem⟩
        · exact .inr (hlater hlate)
      · exact (ih h).imp id hlater

/-- The nodes of a ticket: this peer, the nodes that it was made with, and
peers that it knows. -/
theorem mem_ticket_nodes {s : Session} {self_addr node : EndpointAddr}
    (h : node ∈ s.ticket_nodes self_addr) :
    node = self_addr ∨ node ∈ s.ticket.bootstrap_nodes ∨
      ∃ peer ∈ s.state.known_peers, node = .of_id peer := by
  unfold Session.ticket_nodes at h
  rcases mem_push_peers (List.mem_of_mem_take h) with hmem | ⟨peer, hpeer, rfl⟩
  · rcases List.mem_cons.mp hmem with rfl | hmem
    · exact .inl rfl
    · exact .inr (.inl (List.mem_filter.mp hmem).1)
  · exact .inr (.inr ⟨peer, AList.mem_keys.mp hpeer, rfl⟩)

end Nodes

section Laws

variable [Crypto]

/-! ## The queue of peers -/

/-- The queue lists known peers, each once. -/
structure PeerQueue (s : DropState) : Prop where
  nodup : s.peer_order.Nodup
  known : ∀ peer ∈ s.peer_order, peer ∈ s.known_peers

namespace DropState

variable {s : DropState}

theorem mem_note_peer {peer p : EndpointId} (h : p ∈ (s.note_peer peer).known_peers) :
    p ∈ s.known_peers ∨ p = peer := by
  unfold note_peer at h
  split at h
  · exact .inl h
  · obtain ⟨_, _, -, -, -, -, hknown⟩ :=
      s.forget_peers_spec (s.known_peers.insert peer ()) (s.peer_order ++ [peer])
    exact ((AList.mem_insert _).mp ((hknown p).mp h).1).symm

/-- The peer that is noted is known, and the queue stays in step. -/
theorem note_peer_queue (hq : PeerQueue s) (peer : EndpointId) :
    peer ∈ (s.note_peer peer).known_peers ∧ PeerQueue (s.note_peer peer) := by
  unfold note_peer
  split
  · rename_i hknown
    exact ⟨hknown, hq⟩
  · rename_i hnew
    obtain ⟨dropped, kept, hsplit, horder, -, hlast, hknown⟩ :=
      s.forget_peers_spec (s.known_peers.insert peer ()) (s.peer_order ++ [peer])
    have hnodup : (dropped ++ kept).Nodup := by
      rw [← hsplit]
      refine List.nodup_append.mpr ⟨hq.nodup, List.nodup_singleton peer, ?_⟩
      rintro a ha b hb rfl
      rw [List.mem_singleton.mp hb] at ha
      exact hnew (hq.known peer ha)
    have hkept : ∀ p ∈ kept,
        p ∈ (s.forget_peers (s.known_peers.insert peer ()) (s.peer_order ++ [peer])).known_peers := by
      intro p hp
      rw [hknown, AList.mem_insert]
      have hmem : p ∈ s.peer_order ++ [peer] := by
        rw [hsplit]
        exact List.mem_append_right _ hp
      refine ⟨?_, fun hd => (List.nodup_append.mp hnodup).2.2 p hd p hp rfl⟩
      rcases List.mem_append.mp hmem with hmem | hmem
      · exact .inr (hq.known p hmem)
      · exact .inl (List.mem_singleton.mp hmem)
    refine ⟨hkept peer ?_, ?_, ?_⟩
    · have hne : kept ≠ [] := hlast (by simp)
      have heq : kept.getLast hne = peer := by
        have h₁ : (dropped ++ kept).getLast? = some peer := by rw [← hsplit]; simp
        rw [List.getLast?_append_of_ne_nil _ hne, List.getLast?_eq_getLast_of_ne_nil hne] at h₁
        exact Option.some_inj.mp h₁
      rw [← heq]
      exact List.getLast_mem hne
    · rw [horder]
      exact (List.nodup_append.mp hnodup).2.1
    · rw [horder]
      exact hkept

theorem perform_queue (hq : PeerQueue s) (op : Op) : PeerQueue (s.perform op) := by
  by_cases hop : ∃ peer, op = .note_peer peer
  · obtain ⟨peer, rfl⟩ := hop
    exact (note_peer_queue hq peer).2
  · obtain ⟨hknown, horder⟩ := s.perform_peers (fun peer heq => hop ⟨peer, heq⟩)
    refine ⟨?_, ?_⟩
    · rw [horder]
      exact hq.nodup
    · rw [hknown, horder]
      exact hq.known

end DropState

/-! ## Whom a step meets -/

/-- The neighbor that a step meets: one that hands a frame over, or that
comes up. -/
def Step.meets : Step → Option EndpointId
  | .received _ delivered_from _ => some delivered_from
  | .replayed _ peer _ => some peer
  | .neighbor_up peer _ => some peer
  | _ => none

/-- This peer itself, or one that some step has met. -/
def Met (self_id : EndpointId) (past : List Step) (peer : EndpointId) : Prop :=
  peer = self_id ∨ ∃ i ∈ past, i.meets = some peer

/-- The step takes in a new offer that `author` signed, and the application
does not turn it away. -/
def Session.credits (s : Session) (i : Step) (author : EndpointId) : Prop :=
  ∃ frame peer world verified offer, i.intake = some (frame, peer, world) ∧
    Session.decode_for_session s.toSessionConfig frame = .ok verified ∧
    verified.author = author ∧ verified.body = some (.Offer offer) ∧
    s.admits peer world.draw.now = true ∧
    s.state.is_fresh verified.key world.draw.now = true ∧
    ¬ (s.taken verified peer frame world.draw.now).rejects author offer peer

namespace DropState

/-- Only noting a peer makes it known. -/
theorem mem_perform {s : DropState} {op : Op} {p : EndpointId}
    (h : p ∈ (s.perform op).known_peers) : p ∈ s.known_peers ∨ op = .note_peer p := by
  by_cases hop : ∃ peer, op = .note_peer peer
  · obtain ⟨peer, rfl⟩ := hop
    exact (mem_note_peer h).imp id (fun heq => by rw [heq])
  · rw [(s.perform_peers (fun peer heq => hop ⟨peer, heq⟩)).1] at h
    exact .inl h

theorem mem_ops {ops : List Op} {s : DropState} {p : EndpointId}
    (h : p ∈ (ops.foldl perform s).known_peers) : p ∈ s.known_peers ∨ Op.note_peer p ∈ ops := by
  induction ops generalizing s with
  | nil => exact .inl h
  | cons op ops ih =>
    rcases ih h with hbefore | hlater
    · exact (mem_perform hbefore).imp id (fun heq => by rw [heq]; exact List.mem_cons_self)
    · exact .inr (List.mem_cons_of_mem op hlater)

theorem ops_queue {s : DropState} (hq : PeerQueue s) (ops : List Op) :
    PeerQueue (ops.foldl perform s) :=
  (Session.calls_ops ops s).keeps (fun _ op h _ => perform_queue h op) hq

end DropState

namespace Session

variable {s : Session}

/-- Acting on a message notes its author just when it is an offer that the
application does not turn away. -/
theorem note_mem_dispatch_ops {verified : VerifiedMessage} {delivered_from p : EndpointId}
    {now : Instant} (h : DropState.Op.note_peer p ∈ s.dispatch_ops verified delivered_from now) :
    verified.author = p ∧ ∃ offer, verified.body = some (.Offer offer) ∧
      ¬ s.rejects p offer delivered_from := by
  unfold dispatch_ops at h
  split at h
  · rename_i offer hbody
    split at h
    · cases h
    · rename_i hnot
      rcases List.mem_cons.mp h with heq | h
      · cases heq
        exact ⟨rfl, offer, hbody, hnot⟩
      · simp at h
  · simp at h
  · cases h

theorem note_mem_message_ops {verified : VerifiedMessage} {delivered_from p : EndpointId}
    {raw : Bytes} {now : Instant}
    (h : DropState.Op.note_peer p ∈ s.message_ops verified delivered_from raw now) :
    p = delivered_from ∨ (s.admits delivered_from now = true ∧
      s.state.is_fresh verified.key now = true ∧ verified.author = p ∧
      ∃ offer, verified.body = some (.Offer offer) ∧
        ¬ (s.taken verified delivered_from raw now).rejects p offer delivered_from) := by
  unfold message_ops at h
  split at h
  · cases h
  · rename_i ha
    split at h
    · simp at h
      exact .inl h
    · rename_i hf
      rcases List.mem_append.mp h with h | h
      · simp at h
        exact .inl h
      · exact .inr ⟨not_not.mp ha, not_not.mp hf, note_mem_dispatch_ops h⟩

theorem mem_replay {frame : Bytes} {peer p : EndpointId} {world : IntakeWorld}
    (h : p ∈ (s.replay frame peer world).state.known_peers) :
    p ∈ s.state.known_peers ∨ p = peer ∨ s.credits (.received frame peer world) p := by
  unfold replay at h
  split at h
  · rename_i verified hd
    rw [handle_message_state] at h
    rcases DropState.mem_ops h with h | h
    · exact .inl h
    · rcases note_mem_message_ops h with rfl | ⟨ha, hf, hp, offer, hbody, hnot⟩
      · exact .inr (.inl rfl)
      · exact .inr (.inr ⟨frame, peer, world, verified, offer, rfl, hd, hp, hbody, ha, hf, hnot⟩)
  · exact .inl h

theorem mem_restore_frame {frame : Bytes} {now : Instant} {p : EndpointId}
    (h : p ∈ (s.restore_frame frame now).2.state.known_peers) : p ∈ s.state.known_peers := by
  rw [restore_frame_state] at h
  refine (DropState.mem_ops h).resolve_right ?_
  unfold restore_ops
  split
  · simp
  · split
    · simp
    · split <;> simp

theorem mem_restore_history {frames : List (Bytes × Instant)} {p : EndpointId}
    (h : p ∈ (s.restore_history frames).2.state.known_peers) : p ∈ s.state.known_peers := by
  induction frames generalizing s with
  | nil => exact h
  | cons f frames ih => exact mem_restore_frame (ih h)

/-- A step makes nobody known but this peer, the neighbor that it meets, and
an author that it credits. -/
theorem mem_step (hself : s.state.self_endpoint_id = s.self_id) {i : Step} {p : EndpointId}
    (h : p ∈ (s.step i).state.known_peers) :
    p ∈ s.state.known_peers ∨ p = s.self_id ∨ i.meets = some p ∨ s.credits i p := by
  have hown (hi : i.is_own) : p ∈ s.state.known_peers ∨ p = s.self_id := by
    have howns : s.Owns (· = s.self_id) (fun _ => True) := ⟨rfl, hself, fun _ _ _ => trivial⟩
    have hcalls := calls_own_step howns hi
    refine hcalls.keeps (p := fun a => ∀ q ∈ a.known_peers, q ∈ s.state.known_peers ∨ q = s.self_id)
      ?_ (fun q hq => .inl hq) p h
    intro a op ha hop q hq
    rcases DropState.mem_perform hq with hq | rfl
    · exact ha q hq
    · exact .inr hop
  cases i with
  | received content delivered_from world =>
    simp only [step, receive_state] at h
    rcases mem_replay h with h | rfl | h
    · exact .inl h
    · exact .inr (.inr (.inl rfl))
    · exact .inr (.inr (.inr h))
  | replayed frame peer world =>
    simp only [step] at h
    split at h
    · exact .inl h
    · rcases mem_replay h with h | rfl | h
      · exact .inl h
      · exact .inr (.inr (.inl rfl))
      · exact .inr (.inr (.inr h))
  | restore_history frames => exact .inl (mem_restore_history h)
  | neighbor_up peer now =>
    simp only [step, neighbor_up_state] at h
    rcases (AList.mem_insert _).mp h with rfl | h
    · exact .inr (.inr (.inl rfl))
    · exact .inl h
  | _ => exact (hown trivial).imp id .inl

theorem step_queue (s : Session) (i : Step) (hq : PeerQueue s.state) :
    PeerQueue (s.step i).state := by
  by_cases hup : ∃ peer now, i = .neighbor_up peer now
  · obtain ⟨peer, now, rfl⟩ := hup
    simp only [step, neighbor_up_state]
    exact ⟨hq.nodup, fun p hp => (AList.mem_insert _).mpr (.inr (hq.known p hp))⟩
  · have hcalls := s.calls_step (fun peer now heq => hup ⟨peer, now, heq⟩)
    exact hcalls.keeps (fun _ op h _ => DropState.perform_queue h op) hq

/-- An author that a step credits is known after it. -/
theorem mem_of_credits (hq : PeerQueue s.state) {i : Step} {author : EndpointId}
    (h : s.credits i author) : author ∈ (s.step i).state.known_peers := by
  obtain ⟨frame, peer, world, verified, offer, hi, hd, rfl, hbody, ha, hf, hnot⟩ := h
  have hops : s.message_ops verified peer frame world.draw.now =
      [.note_peer peer, .check_and_insert verified.key world.draw.now,
        .retain (retainable verified.body) frame, .note_peer verified.author] ++
        [.record_offer_inner verified.author offer world.draw.now] := by
    simp [message_ops, dispatch_ops, ha, hf, hbody, hnot]
  rw [step_of_intake hi hd hbody, handle_message_state, hops, List.foldl_append]
  simp only [List.foldl_cons, List.foldl_nil, DropState.perform]
  rw [(DropState.record_offer_inner_peers _ _ _ _).1]
  exact (DropState.note_peer_queue (DropState.ops_queue hq
    [.note_peer peer, .check_and_insert verified.key world.draw.now,
      .retain (retainable verified.body) frame]) verified.author).1

end Session

/-! ## Runs -/

theorem run_self_id (s : Session) (steps : List Step) : (s.run steps).self_id = s.self_id :=
  congrArg (fun config : SessionConfig => config.secret.public) (run_extends s steps).config

theorem step_self (s : Session) (i : Step) (h : s.state.self_endpoint_id = s.self_id) :
    (s.step i).state.self_endpoint_id = (s.step i).self_id := by
  rw [show (s.step i).self_id = s.self_id from run_self_id s [i], ← h]
  by_cases hup : ∃ peer now, i = .neighbor_up peer now
  · obtain ⟨peer, now, rfl⟩ := hup
    simp only [Session.step, Session.neighbor_up_state]
  · have hcalls := s.calls_step (fun peer now heq => hup ⟨peer, now, heq⟩)
    refine hcalls.keeps (p := fun a => a.self_endpoint_id = s.state.self_endpoint_id) ?_ rfl
    intro a op ha _
    exact (a.perform_self op).trans ha

section Runs

variable (secret : SecretKey) (policy : DropPolicy) (decider : OfferDecider) (topic_id : TopicId)
  (ticket : DropTicket) (drop_key : Option DropKey) (store : BlobHash → BlobStatus)

/-- The session knows only peers that were met. -/
def OnlyMet (self_id : EndpointId) (past : List Step) (s : Session) : Prop :=
  ∀ peer ∈ s.state.known_peers, Met self_id past peer

/-- In every state of a run the session knows only peers that it has met, and
hands out only them, just when every author that a step credits was met by
then. -/
theorem known_peers_met_iff [Urls] (steps : List Step) :
    let s₀ := Session.new secret policy decider topic_id ticket drop_key store
    (∀ past, past <+: steps →
      OnlyMet s₀.self_id past (s₀.run past) ∧
      ∀ self_addr, ∀ node ∈ (s₀.run past).ticket_nodes self_addr,
        node = self_addr ∨ node ∈ (s₀.run past).ticket.bootstrap_nodes ∨
          ∃ peer, Met s₀.self_id past peer ∧ node = .of_id peer) ↔
    ∀ past i rest, steps = past ++ i :: rest → ∀ author, (s₀.run past).credits i author →
      Met s₀.self_id (past ++ [i]) author := by
  intro s₀
  have hqueue (past : List Step) : PeerQueue (s₀.run past).state :=
    runs.invariant Session.step_queue ⟨List.nodup_nil, fun _ h => by cases h⟩ past
  have hself (past : List Step) : (s₀.run past).state.self_endpoint_id = (s₀.run past).self_id :=
    runs.invariant step_self rfl past
  constructor
  · rintro hmet past i rest rfl author hcredits
    have hmem := Session.mem_of_credits (hqueue past) hcredits
    refine (hmet (past ++ [i]) ⟨rest, by simp⟩).1 author ?_
    rwa [Session.run, runs.run_concat]
  · intro hcredited past hpast
    have hknown : OnlyMet s₀.self_id past (s₀.run past) := by
      refine runs.invariant_along (fun _ h => by cases h) ?_ hpast
      intro past i rest hsteps ih peer hpeer
      have hold : Met s₀.self_id past peer → Met s₀.self_id (past ++ [i]) peer := by
        intro hmet
        rcases hmet with hself | ⟨j, hj, hm⟩
        · exact .inl hself
        · exact .inr ⟨j, List.mem_append_left _ hj, hm⟩
      rcases Session.mem_step (hself past) hpeer with h | h | h | h
      · exact hold (ih peer h)
      · exact .inl (h.trans (run_self_id s₀ past))
      · exact .inr ⟨i, List.mem_append_right _ (List.mem_singleton_self i), h⟩
      · exact hcredited past i rest hsteps peer h
    refine ⟨hknown, fun self_addr node hnode => ?_⟩
    rcases mem_ticket_nodes hnode with h | h | ⟨peer, hpeer, heq⟩
    · exact .inl h
    · exact .inr (.inl h)
    · exact .inr (.inr ⟨peer, hknown peer hpeer, heq⟩)

end Runs

end Laws

/-! ## An author who was never met -/

namespace relayed_offer

local instance : Crypto := Crypto.clear
local instance : Urls := Urls.verbatim

def topic : TopicId := ⟨.fill 32 8⟩

def member : Session :=
  .new ⟨.fill 32 1⟩ {} PolicyDecider topic (.nodeless topic.as_bytes none) none (fun _ => .NotFound)

def peer : EndpointId := SecretKey.public ⟨.fill 32 2⟩

def author : SecretKey := ⟨.fill 32 3⟩

def offer : OfferV1 :=
  { blob_hash := ⟨.fill 32 7⟩, name := "a", size := 1, media_type := none, created_at_ms := none,
    metadata := ∅ }

/-- The frame of an offer, as its author signs it. -/
def frame : Bytes :=
  match (MessageV1.new (.Offer offer) (.fill 16 1) 0).encode author topic with
  | .ok bytes => bytes
  | .error _ => []

def world : IntakeWorld :=
  { draw := { now := 0, sent_at_ms := 0, id := .fill 16 9, nonce := .fill 24 0, carried := .ok () }
    announced_at_ms := 0 }

/-- The peer relays the frame of the author. -/
def steps : List Step := [.received frame peer world]

theorem not_met : ¬ Met member.self_id steps author.public := by
  rintro (heq | ⟨i, hi, hm⟩)
  · exact absurd heq (by decide +kernel)
  · rw [List.mem_singleton.mp hi] at hm
    exact absurd (Option.some_inj.mp hm) (by decide +kernel)

/-- The author of a relayed offer is known, and goes into tickets. -/
theorem a_relayed_author_is_handed_out :
    author.public ∈ (member.run steps).state.known_peers ∧
      .of_id author.public ∈ (member.run steps).ticket_nodes (.of_id member.self_id) ∧
      ¬ Met member.self_id steps author.public ∧
      ¬ ∀ [Crypto] (secret : SecretKey) (policy : DropPolicy) (decider : OfferDecider)
        (topic_id : TopicId) (ticket : DropTicket) (drop_key : Option DropKey)
        (store : BlobHash → BlobStatus) (steps : List Step),
        OnlyMet secret.public steps
          ((Session.new secret policy decider topic_id ticket drop_key store).run steps) := by
  have hknown : author.public ∈ (member.run steps).state.known_peers := by decide +kernel
  refine ⟨hknown, by decide +kernel, not_met, ?_⟩
  intro h
  have hmember : OnlyMet member.self_id steps (member.run steps) :=
    h ⟨.fill 32 1⟩ {} PolicyDecider topic (.nodeless topic.as_bytes none) none (fun _ => .NotFound)
      steps
  exact not_met (hmember author.public hknown)

end relayed_offer

end iroh_drop
