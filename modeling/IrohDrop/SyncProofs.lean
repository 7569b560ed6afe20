-- The law of sync proofs: a sealed drop serves its history to those who hold
-- its key, and a refusal is what a process without the drop answers.
import IrohDrop.Bootstrap

open rust_std postcard

namespace iroh_drop

theorem SyncRequestV1.codec_injective {a b : SyncRequestV1}
    (h : SyncRequestV1.codec.write a = SyncRequestV1.codec.write b) : a = b := by
  have ha := decode_sync_request_write a
  rw [h, decode_sync_request_write] at ha
  exact (Except.ok.inj ha).symm

section Laws

variable [Crypto]

/-! ## Proofs -/

/-- One use of a drop key to prove a request. -/
structure ProofCall where
  key : DropKey
  topic : TopicId
  requester : EndpointId
  responder : EndpointId
  request_bytes : Bytes

namespace ProofCall

def value (self : ProofCall) : FixedBytes 32 :=
  self.key.sync_proof self.topic self.requester self.responder self.request_bytes

def mac_key (self : ProofCall) : FixedBytes 32 := self.key.sync_key self.topic

/-- What goes into the HMAC. -/
def message (self : ProofCall) : Bytes :=
  self.requester.as_bytes.bytes ++ self.responder.as_bytes.bytes ++ self.request_bytes

theorem value_eq (self : ProofCall) : self.value = Crypto.hmac self.mac_key self.message := rfl

/-- The message tells both ends of the connection and the request. -/
theorem message_injective {a b : ProofCall} (h : a.message = b.message) :
    a.requester = b.requester ∧ a.responder = b.responder ∧ a.request_bytes = b.request_bytes := by
  unfold message at h
  rw [List.append_assoc, List.append_assoc] at h
  obtain ⟨hrequester, hrest⟩ := List.append_inj h (by simp)
  obtain ⟨hresponder, hrequest⟩ := List.append_inj hrest (by simp)
  have hid : ∀ {x y : EndpointId}, x.as_bytes.bytes = y.as_bytes.bytes → x = y := by
    intro x y hbytes
    have hsame : x.as_bytes = y.as_bytes := FixedBytes.ext hbytes
    cases x
    cases y
    cases hsame
    rfl
  exact ⟨hid hrequester, hid hresponder, hrequest⟩

end ProofCall

/-- An ideal HMAC and HKDF, where these proofs were ever made and these bytes
are presented as proofs: nobody guesses a proof, and a proof and a derived key
are each of one origin. -/
structure IdealProofs (made : List ProofCall) (presented : List (FixedBytes 32)) : Prop where
  unforgeable : ∀ proof ∈ presented, ∀ key message, Crypto.hmac key message = proof →
    ∃ call ∈ made, call.value = proof
  hmac : ∀ call ∈ made, ∀ key message, Crypto.hmac key message = call.value →
    key = call.mac_key ∧ message = call.message
  hkdf : ∀ call ∈ made, ∀ (key : DropKey) (topic : TopicId), key.sync_key topic = call.mac_key →
    key = call.key ∧ topic = call.topic

/-- What a requester proves to a session: the request with no proof in it. -/
def proof_call (inner : Session) (key : DropKey) (request : SyncRequestV1) (peer : EndpointId) :
    ProofCall :=
  { key, topic := ⟨request.topic_id⟩, requester := peer, responder := inner.self_id
    request_bytes := SyncRequestV1.codec.write { request with key_proof := none } }

/-- The request carries the proof of the drop key of the session. -/
def ValidProof (inner : Session) (request : SyncRequestV1) (peer : EndpointId) : Prop :=
  ∃ key, inner.drop_key = some key ∧ request.key_proof = some (proof_call inner key request peer).value

theorem serves_sealed_iff {inner : Session} (hsealed : inner.mode = .Sealed)
    (request : SyncRequestV1) (peer : EndpointId) :
    serves inner request peer = true ↔ ValidProof inner request peer := by
  unfold serves ValidProof
  rw [hsealed]
  rcases hkey : inner.drop_key with _ | key
  · simp
  rcases hproof : request.key_proof with _ | proof
  · simp
  · simp only [DropKey.verify_sync_proof, decide_eq_true_eq, Option.some.injEq,
      exists_eq_left']
    exact eq_comm

/-- A valid proof was made with the drop key, over this request alone, for
this connection. -/
theorem IdealProofs.made_for {made : List ProofCall} {presented : List (FixedBytes 32)}
    (h : IdealProofs made presented) {inner : Session} {request : SyncRequestV1} {peer : EndpointId}
    {key : DropKey} (hp : (proof_call inner key request peer).value ∈ presented) :
    proof_call inner key request peer ∈ made ∧
      ∀ call ∈ made, call.value = (proof_call inner key request peer).value →
        call = proof_call inner key request peer := by
  have honly : ∀ call ∈ made, call.value = (proof_call inner key request peer).value →
      call = proof_call inner key request peer := by
    intro call hcall hvalue
    obtain ⟨hmac_key, hmessage⟩ := h.hmac call hcall _ _ hvalue.symm
    obtain ⟨hkey, htopic⟩ := h.hkdf call hcall _ _ hmac_key
    obtain ⟨hrequester, hresponder, hrequest⟩ := ProofCall.message_injective
      (a := proof_call inner key request peer) (b := call) hmessage
    cases call
    simp only [ProofCall.mk.injEq, proof_call] at *
    exact ⟨hkey.symm, htopic.symm, hrequester.symm, hresponder.symm, hrequest.symm⟩
  obtain ⟨call, hcall, hvalue⟩ := h.unforgeable _ hp _ _ rfl
  exact ⟨honly call hcall hvalue ▸ hcall, honly⟩

/-! ## Requests of a catch-up -/

/-- The requests of the page loop, in order. -/
def page_requests (peer : EndpointId) (page_size : UInt16) (remotes : Nat → Remote)
    (arrivals : Nat → Arrival) : Nat → Pull → List SyncRequestV1
  | 0, pull => [page_request pull.session peer page_size pull.cursor]
  | left + 1, pull =>
    let request := page_request pull.session peer page_size pull.cursor
    request :: match request_op SyncResponseV1.codec (remotes left) OP_SYNC_PAGE
        (SyncRequestV1.codec.write request) with
    | .ok (some response) =>
      if response.version ≠ WIRE_VERSION then []
      else match replay_page peer arrivals response.frames pull with
        | (false, _) => []
        | (true, pull) =>
          match response.next_cursor with
          | none => []
          | some next =>
            if next > pull.cursor then
              page_requests peer page_size remotes arrivals left { pull with cursor := next }
            else []
    | _ => []

/-- The requests of one attempt. -/
def attempt_requests (self : Session) (peer : SyncPeer) : List SyncRequestV1 :=
  if !peer.connects then []
  else match negotiate (request_op HelloV1.codec peer.hello OP_HELLO []) with
    | none => []
    | some page_size => page_requests peer.id page_size peer.remotes peer.arrivals
        MAX_PAGES_PER_ATTEMPT (.start self)

/-- The requests of a catch-up, each with the peer it goes to. -/
def catchup_requests (self : Session) : List SyncPeer → List (EndpointId × SyncRequestV1)
  | [] => []
  | peer :: peers =>
    if self.mode = .Sealed ∧ self.drop_key = none then []
    else
      let (ended, pull) := sync_from self peer
      (attempt_requests self peer).map (peer.id, ·) ++
        if ended = some .frame_budget ∨ pull.total > 0 then []
        else catchup_requests pull.session peers

/-- Whatever the pages do to a session, its requests are those of its
configuration. -/
theorem page_requests_built {self : Session} {peer : EndpointId} {page_size : UInt16}
    {remotes : Nat → Remote} {arrivals : Nat → Arrival} {left : Nat} {pull : Pull}
    (hconfig : pull.session.toSessionConfig = self.toSessionConfig) {request : SyncRequestV1}
    (h : request ∈ page_requests peer page_size remotes arrivals left pull) :
    ∃ cursor, request = page_request self peer page_size cursor := by
  induction left generalizing pull with
  | zero =>
    rw [page_requests, List.mem_singleton, page_request_congr hconfig] at h
    exact ⟨_, h⟩
  | succ left ih =>
    unfold page_requests at h
    rcases List.mem_cons.mp h with hfirst | hrest
    · rw [page_request_congr hconfig] at hfirst
      exact ⟨_, hfirst⟩
    split at hrest
    · rename_i response hop
      split at hrest
      · cases hrest
      split at hrest
      · cases hrest
      rename_i pull' hreplay
      obtain ⟨-, hsession, -⟩ := replay_page_done hreplay
      split at hrest
      · cases hrest
      split at hrest
      · refine ih ?_ hrest
        exact hsession.trans hconfig
      · cases hrest
    · cases hrest

/-- Every request of a catch-up is a page request of the session to the peer
that gets it. -/
theorem catchup_requests_built {self : Session} {peers : List SyncPeer} {id : EndpointId}
    {request : SyncRequestV1} (h : (id, request) ∈ catchup_requests self peers) :
    ∃ page_size cursor, request = page_request self id page_size cursor := by
  suffices hbuilt : ∀ s : Session, s.toSessionConfig = self.toSessionConfig →
      (id, request) ∈ catchup_requests s peers →
      ∃ page_size cursor, request = page_request self id page_size cursor from hbuilt self rfl h
  clear h
  induction peers with
  | nil =>
    intro s _ hmem
    cases hmem
  | cons peer peers ih =>
    intro s hs hmem
    unfold catchup_requests at hmem
    split at hmem
    · cases hmem
    simp only at hmem
    rcases List.mem_append.mp hmem with hnow | hlater
    · obtain ⟨request', hrequest, heq⟩ := List.mem_map.mp hnow
      cases heq
      unfold attempt_requests at hrequest
      split at hrequest
      · cases hrequest
      split at hrequest
      · cases hrequest
      rename_i page_size _
      have hstart : (Pull.start s).session.toSessionConfig = self.toSessionConfig := hs
      obtain ⟨cursor, hcursor⟩ := page_requests_built hstart hrequest
      exact ⟨page_size, cursor, hcursor⟩
    · split at hlater
      · cases hlater
      · exact ih _ ((sync_from_heard s peer).config.trans hs) hlater

/-! ## Refusals -/

/-- The bytes ask for the page of the request. -/
def Asks (input : Bytes) (request : SyncRequestV1) : Prop :=
  ∃ envelope rest, ControlRequestV1.codec.read input = .ok (envelope, rest) ∧
    envelope.op = OP_SYNC_PAGE ∧ decode_sync_request envelope.payload = .ok request

/-- Processes that answer a request with the same page answer the bytes of it
alike. -/
theorem serve_op_congr {sessions sessions' : SessionRegistry} {input : Bytes}
    {request : SyncRequestV1} {peer : EndpointId} (hasks : Asks input request)
    (hpage : sync_page sessions request peer = sync_page sessions' request peer) :
    serve_op sessions input peer = serve_op sessions' input peer := by
  obtain ⟨envelope, rest, hread, hop, hdecode⟩ := hasks
  have hother : OP_SYNC_PAGE ≠ OP_HELLO := by decide
  unfold serve_op
  rw [hread]
  simp only [hop, hother, hdecode, hpage, if_false]

/-- A sealed drop returns a frame only for a proof that was made with its key
over exactly this connection and request. Every request of a catch-up with the
key passes, off the wire as well. Without a valid proof, and from a blind
relay, the answer is that of a process with no session for the topic. -/
theorem sealed_history_is_for_key_holders (made : List ProofCall)
    (presented : List (FixedBytes 32)) (h : IdealProofs made presented)
    (sessions : SessionRegistry) (request : SyncRequestV1) (peer : EndpointId) (inner : Session)
    (hosted : sessions ⟨request.topic_id⟩ = some inner) (hsealed : inner.mode = .Sealed)
    (hpresented : ∀ proof, request.key_proof = some proof → proof ∈ presented) :
    ((sync_page sessions request peer).frames ≠ [] →
      ∃ key, inner.drop_key = some key ∧ ∃ proof, request.key_proof = some proof ∧
        proof_call inner key request peer ∈ made ∧
        (proof_call inner key request peer).value = proof ∧
        ∀ call ∈ made, call.value = proof → call = proof_call inner key request peer ∧
          ∀ proven : SyncRequestV1, SyncRequestV1.codec.write proven = call.request_bytes →
            proven = { request with key_proof := none }) ∧
    (∀ (joiner : Session) (peers : List SyncPeer) (built : SyncRequestV1),
      joiner.topic_id = ⟨request.topic_id⟩ → joiner.drop_key = inner.drop_key →
      inner.drop_key ≠ none → (inner.self_id, built) ∈ catchup_requests joiner peers →
      decode_sync_request (SyncRequestV1.codec.write built) = .ok built ∧
        ValidProof inner built joiner.self_id ∧
        serve_op sessions (control_request OP_SYNC_PAGE (SyncRequestV1.codec.write built))
            joiner.self_id =
          some (reply OP_SYNC_PAGE (SyncResponseV1.codec.write (session_page inner.state built)))) ∧
    (inner.drop_key = none ∨ ¬ ValidProof inner request peer →
      ∀ sessions' : SessionRegistry, sessions' ⟨request.topic_id⟩ = none →
        sync_page sessions request peer = sync_page sessions' request peer ∧
          ∀ input, Asks input request → serve_op sessions input peer = serve_op sessions' input peer) := by
  refine ⟨?_, ?_, ?_⟩
  · intro hframes
    by_cases hserves : serves inner request peer = true
    · obtain ⟨key, hkey, hproof⟩ := (serves_sealed_iff hsealed request peer).mp hserves
      obtain ⟨hmade, honly⟩ := h.made_for (hpresented _ hproof)
      refine ⟨key, hkey, _, hproof, hmade, rfl, ?_⟩
      intro call hcall hvalue
      have hcall := honly call hcall hvalue
      refine ⟨hcall, fun proven hproven => ?_⟩
      rw [hcall] at hproven
      exact SyncRequestV1.codec_injective hproven
    · refine absurd ?_ hframes
      simp only [sync_page, hosted, hserves]
      rfl
  · intro joiner peers built htopic hdrop hkey hbuilt
    obtain ⟨page_size, cursor, hrequest⟩ := catchup_requests_built hbuilt
    obtain ⟨key, hinner⟩ := Option.ne_none_iff_exists'.mp hkey
    have hbuilt_topic : built.topic_id = request.topic_id := by
      rw [hrequest, page_request_topic, htopic]
    have hvalid : ValidProof inner built joiner.self_id := by
      refine ⟨key, hinner, ?_⟩
      rw [hrequest]
      simp only [page_request, hdrop, hinner, proof_call, ProofCall.value]
    refine ⟨decode_sync_request_write built, hvalid, ?_⟩
    have hserves := (serves_sealed_iff hsealed built joiner.self_id).mpr hvalid
    rw [serve_op_page]
    simp only [sync_page, hbuilt_topic, hosted, hserves, if_true]
  · intro hinvalid sessions' hnone
    have hserves : ¬ serves inner request peer = true := by
      rw [serves_sealed_iff hsealed]
      rcases hinvalid with hblind | hinvalid
      · rintro ⟨key, hkey, -⟩
        rw [hblind] at hkey
        cases hkey
      · exact hinvalid
    have hpage : sync_page sessions request peer = sync_page sessions' request peer := by
      simp only [sync_page, hosted, hnone, hserves]
      exact (unhosted_page_eq request).symm
    exact ⟨hpage, fun input hasks => serve_op_congr hasks hpage⟩

end Laws

/-! ## A proof for one page -/

namespace one_proof

def topic : TopicId := ⟨.fill 32 8⟩
def key : DropKey := ⟨.fill 32 5⟩
def responder : SecretKey := ⟨.fill 32 2⟩

/-- The bytes of a peer's id. -/
def peer_bytes : FixedBytes 32 := .fill 32 1

def unproven : SyncRequestV1 :=
  { version := WIRE_VERSION, topic_id := topic.as_bytes, cursor := 0, max_frames := 256
    key_proof := none }

/-- What was authenticated under the key of the drop. -/
def message : Bytes :=
  peer_bytes.bytes ++ responder.to_bytes.bytes ++ SyncRequestV1.codec.write unproven

/-- Primitives under which one key was derived and one proof was made. -/
local instance recorded : Crypto :=
  { Crypto.clear with
    hkdf := fun salt ikm _ =>
      if salt = topic.as_bytes.bytes ∧ ikm = key.as_bytes.bytes then .fill 32 1 else .fill 32 0
    hmac := fun k m => if k = .fill 32 1 ∧ m = message then .fill 32 7 else .fill 32 0 }

def peer : EndpointId := ⟨peer_bytes, rfl⟩

/-- A member of a private drop, with a log of one frame. -/
def inner : Session :=
  let fresh : Session := .new responder {} PolicyDecider topic (.nodeless topic.as_bytes (some key))
    (some key) (fun _ => .NotFound)
  { fresh with state := { fresh.state with sync_log := [[1, 2, 3]], sync_log_bytes := 3 } }

def sessions : SessionRegistry := fun _ => some inner

def request : SyncRequestV1 := { unproven with key_proof := some (.fill 32 7) }

def made : List ProofCall := [proof_call inner key request peer]

theorem made_value : (proof_call inner key request peer).value = .fill 32 7 := by decide +kernel

theorem made_key : (proof_call inner key request peer).mac_key = .fill 32 1 := by decide +kernel

theorem zeros_differ : (FixedBytes.fill 32 0 : FixedBytes 32) ≠ .fill 32 7 ∧
    (FixedBytes.fill 32 0 : FixedBytes 32) ≠ .fill 32 1 := by decide +kernel

theorem ideal : IdealProofs made [.fill 32 7] := by
  constructor
  · intro proof hproof _ _ _
    exact ⟨_, List.mem_singleton_self _, made_value.trans (List.mem_singleton.mp hproof).symm⟩
  · intro call hcall k m hvalue
    rw [List.mem_singleton.mp hcall] at hvalue ⊢
    rw [made_value] at hvalue
    by_cases hone : k = .fill 32 1 ∧ m = message
    · exact ⟨hone.1.trans made_key.symm, hone.2⟩
    · exact absurd ((if_neg hone).symm.trans hvalue) zeros_differ.1
  · intro call hcall k t hderived
    rw [List.mem_singleton.mp hcall] at hderived ⊢
    rw [made_key] at hderived
    by_cases hone : t.as_bytes.bytes = topic.as_bytes.bytes ∧ k.as_bytes.bytes = key.as_bytes.bytes
    · obtain ⟨htopic, hkey⟩ := hone
      have hk : k.as_bytes = key.as_bytes := FixedBytes.ext hkey
      have ht : t.as_bytes = topic.as_bytes := FixedBytes.ext htopic
      cases k
      cases t
      exact ⟨congrArg DropKey.mk hk, congrArg TopicId.mk ht⟩
    · exact absurd ((if_neg hone).symm.trans hderived) zeros_differ.2

/-- The law at work on the page that the peer asks for. -/
theorem one_page_is_for_the_key_holder :
    ((sync_page sessions request peer).frames ≠ [] →
      ∃ key, inner.drop_key = some key ∧ ∃ proof, request.key_proof = some proof ∧
        proof_call inner key request peer ∈ made ∧
        (proof_call inner key request peer).value = proof ∧
        ∀ call ∈ made, call.value = proof → call = proof_call inner key request peer ∧
          ∀ proven : SyncRequestV1, SyncRequestV1.codec.write proven = call.request_bytes →
            proven = { request with key_proof := none }) ∧
    (∀ (joiner : Session) (peers : List SyncPeer) (built : SyncRequestV1),
      joiner.topic_id = ⟨request.topic_id⟩ → joiner.drop_key = inner.drop_key →
      inner.drop_key ≠ none → (inner.self_id, built) ∈ catchup_requests joiner peers →
      decode_sync_request (SyncRequestV1.codec.write built) = .ok built ∧
        ValidProof inner built joiner.self_id ∧
        serve_op sessions (control_request OP_SYNC_PAGE (SyncRequestV1.codec.write built))
            joiner.self_id =
          some (reply OP_SYNC_PAGE (SyncResponseV1.codec.write (session_page inner.state built)))) ∧
    (inner.drop_key = none ∨ ¬ ValidProof inner request peer →
      ∀ sessions' : SessionRegistry, sessions' ⟨request.topic_id⟩ = none →
        sync_page sessions request peer = sync_page sessions' request peer ∧
          ∀ input, Asks input request → serve_op sessions input peer = serve_op sessions' input peer) :=
  sealed_history_is_for_key_holders made [.fill 32 7] ideal sessions request peer inner rfl rfl
    (fun _ hproof => List.mem_singleton.mpr (Option.some.inj hproof).symm)

/-- The proof opens the log. -/
example : (sync_page sessions request peer).frames = [[1, 2, 3]] := by decide +kernel

end one_proof

end iroh_drop
