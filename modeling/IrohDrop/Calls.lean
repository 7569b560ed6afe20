-- What a session does to the state of its drop: whatever happens to the
-- session, its state goes through calls of a few operations, one by one.
import IrohDrop.Moves
import Mathlib.Logic.Relation

open rust_std postcard

namespace iroh_drop

variable [Crypto]

namespace DropState

/-- One operation on the state. -/
inductive Op where
  | note_peer (peer : EndpointId)
  | check_and_insert (key : DedupKey) (now : Instant)
  | retain (retain : Retain) (frame : Bytes)
  | record_offer_inner (author : EndpointId) (offer : OfferV1) (now : Instant)
  | assert_provider (hash : BlobHash) (peer : EndpointId) (announced_at_ms : UInt64)
    (frame_id : FixedBytes 16) (withdrawn : Bool)
  | set_local_status (hash : BlobHash) (status : LocalBlobStatus)
  /-- This peer serves the blob itself. -/
  | add_provider (hash : BlobHash)
  | mark_failure (hash : BlobHash) (id : EndpointId) (now : Instant)
  | mark_success (hash : BlobHash) (id : EndpointId)

def perform (s : DropState) : Op → DropState
  | .note_peer peer => s.note_peer peer
  | .check_and_insert key now => (s.check_and_insert key now).2
  | .retain retain frame => s.retain retain frame
  | .record_offer_inner author offer now => (s.record_offer_inner author offer now).2
  | .assert_provider hash peer announced_at_ms frame_id withdrawn =>
    (s.assert_provider hash peer announced_at_ms frame_id withdrawn).2
  | .set_local_status hash status => s.set_local_status hash status
  | .add_provider hash => { s with
      providers := HashMap.update s.providers hash {}
        (fun set => set.add s.self_endpoint_id false) }
  | .mark_failure hash id now => { s with
      providers := HashMap.modify s.providers hash (fun set => set.mark_failure id now) }
  | .mark_success hash id => { s with
      providers := HashMap.modify s.providers hash (fun set => set.mark_success id) }

theorem forget_peers_self (s : DropState) (known : HashSet EndpointId) (order : List EndpointId) :
    (s.forget_peers known order).self_endpoint_id = s.self_endpoint_id := by
  induction order generalizing known with
  | nil => rfl
  | cons old rest ih =>
    unfold forget_peers
    split
    · exact ih _
    · rfl

theorem evict_offers_self (s : DropState) (order : List BlobHash) :
    (s.evict_offers order).1.self_endpoint_id = s.self_endpoint_id := by
  induction order generalizing s with
  | nil => rfl
  | cons oldest rest ih =>
    unfold evict_offers
    split
    · split
      · exact ih _
      · exact ih s
    · rfl

/-- No operation changes whose state it is. -/
theorem perform_self (s : DropState) (op : Op) :
    (s.perform op).self_endpoint_id = s.self_endpoint_id := by
  cases op with
  | note_peer peer =>
    simp only [perform, note_peer]
    split
    · rfl
    · exact s.forget_peers_self _ _
  | retain retain frame =>
    cases retain with
    | Yes => rfl
    | No => rfl
    | Unknown =>
      simp only [perform, DropState.retain, retain_unknown_frame]
      split <;> rfl
  | record_offer_inner author offer now =>
    simp only [perform]
    unfold record_offer_inner
    extract_lets hash s₁ s₂ record s₃
    split
    · rfl
    · split
      · rfl
      · exact s₃.evict_offers_self s₃.offer_order
  | _ => rfl

/-- Some operations of an allowed kind, one after the other. -/
abbrev CallsBy (allowed : Op → Prop) : DropState → DropState → Prop :=
  Relation.ReflTransGen (fun a b => ∃ op, allowed op ∧ b = a.perform op)

/-- Some operations, one after the other. -/
abbrev Calls : DropState → DropState → Prop := CallsBy (fun _ => True)

namespace CallsBy

variable {allowed : Op → Prop} {a b c : DropState}

theorem refl (s : DropState) : CallsBy allowed s s := Relation.ReflTransGen.refl

theorem one (op : Op) (h : allowed op) : CallsBy allowed a (a.perform op) :=
  Relation.ReflTransGen.single ⟨op, h, rfl⟩

theorem and_then (hab : CallsBy allowed a b) (op : Op) (h : allowed op) :
    CallsBy allowed a (b.perform op) :=
  Relation.ReflTransGen.tail hab ⟨op, h, rfl⟩

theorem mono {allowed' : Op → Prop} (hsub : ∀ op, allowed op → allowed' op)
    (h : CallsBy allowed a b) : CallsBy allowed' a b := by
  induction h with
  | refl => exact .refl a
  | tail _ hstep ih =>
    obtain ⟨op, hop, rfl⟩ := hstep
    exact ih.and_then op (hsub op hop)

/-- What each operation of the kind keeps, any number of them keeps. -/
theorem keeps {p : DropState → Prop} (hop : ∀ s op, p s → allowed op → p (s.perform op))
    (h : CallsBy allowed a b) (ha : p a) : p b := by
  induction h with
  | refl => exact ha
  | tail _ hstep ih =>
    obtain ⟨op, hallowed, rfl⟩ := hstep
    exact hop _ op ih hallowed

end CallsBy

/-- The operations of a peer on its own: it meets nobody, offers in its own
name, and serves the blobs that it holds. -/
def Op.own (mine : EndpointId → Prop) (held : BlobHash → Prop) : Op → Prop
  | .note_peer peer => mine peer
  | .record_offer_inner author _ _ => mine author
  | .assert_provider _ _ _ _ _ => False
  | .add_provider hash => held hash
  | _ => True

/-- The operations of a peer on its own, of which the offers are about blobs of
`listed`. -/
def Op.listing (mine : EndpointId → Prop) (held listed : BlobHash → Prop) (op : Op) : Prop :=
  op.own mine held ∧ match op with
    | .record_offer_inner _ offer _ => listed offer.blob_hash
    | _ => True

/-- The operations for restored history: nobody is met. -/
def Op.restored : Op → Prop
  | .check_and_insert _ _ | .retain _ _ | .record_offer_inner _ _ _
  | .assert_provider _ _ _ _ _ => True
  | _ => False

end DropState

open DropState

namespace Session

variable {mine : EndpointId → Prop} {held listed : BlobHash → Prop} (s : Session)

/-- The session speaks for `mine`, and has the blobs of its store in `held`. -/
structure Owns (mine : EndpointId → Prop) (held : BlobHash → Prop) : Prop where
  secret : mine s.self_id
  state : mine s.state.self_endpoint_id
  store : ∀ hash size, s.store hash = .Complete size → held hash

/-! ## Broadcasts -/

theorem calls_broadcast_signed (msg : MessageV1) (retain : Retain) (draw : Draw) :
    CallsBy (Op.listing mine held listed) s.state (s.broadcast_signed msg retain draw).2.state := by
  unfold broadcast_signed
  split
  · exact .refl _
  · rename_i bytes _
    exact (CallsBy.one (.check_and_insert (s.self_id, msg.id) draw.now) ⟨trivial, trivial⟩).and_then
      (.retain retain bytes) ⟨trivial, trivial⟩

theorem calls_broadcast (body : MessageBodyV1) (draw : Draw) :
    CallsBy (Op.listing mine held listed) s.state (s.broadcast body draw).2.state :=
  s.calls_broadcast_signed _ _ _

theorem calls_announce (hash : BlobHash) (state : ProviderState) (ms : UInt64) (draw : Draw) :
    CallsBy (Op.listing mine held listed) s.state (s.announce hash state ms draw).2.state :=
  s.calls_broadcast _ _

/-! ## Calls of the user -/

theorem calls_finish_import_with (hm : mine s.self_id) {hash : BlobHash} (hl : listed hash)
    (name : String) (size : UInt64) (media_type : Option String) (metadata : BTreeMap String String)
    (world : ImportWorld) :
    CallsBy (Op.listing mine held listed) s.state
      (s.finish_import_with hash name size media_type metadata world).2.state := by
  unfold finish_import_with
  split
  · exact .refl _
  · extract_lets offer
    generalize hs : { s with state := ((s.state.record_offer s.self_id offer
      world.now).2.set_local_status hash .Complete) } = s₁
    have h₁ : CallsBy (Op.listing mine held listed) s.state s₁.state := by
      subst hs
      exact ((CallsBy.one (.note_peer s.self_id) ⟨hm, trivial⟩).and_then
        (.record_offer_inner s.self_id offer world.now) ⟨hm, hl⟩).and_then
        (.set_local_status hash .Complete) ⟨trivial, trivial⟩
    have h₂ := h₁.trans (s₁.calls_broadcast (.Offer offer) world.offer_draw)
    rcases hb : s₁.broadcast (.Offer offer) world.offer_draw with ⟨_ | _, s₂⟩ <;> rw [hb] at h₂
    · simpa only [hs, hb] using h₂
    · have h₃ := h₂.trans
        (s₂.calls_announce hash .Available world.announced_at_ms world.provider_draw)
      rcases ha : s₂.announce hash .Available world.announced_at_ms world.provider_draw
        with ⟨_ | _, s₃⟩ <;> rw [ha] at h₃ <;> simpa only [hs, hb, ha] using h₃

theorem calls_import_with (hm : mine s.self_id) (name : String) (size : UInt64)
    (media_type : Option String) (metadata : BTreeMap String String) (world : ImportWorld)
    (hl : ∀ hash, world.imported = .ok hash → listed hash) :
    CallsBy (Op.listing mine held listed) s.state
      (s.import_with name size media_type metadata world).2.state := by
  unfold import_with
  split
  · exact .refl _
  · rename_i hash himported
    exact (s.hold hash size).calls_finish_import_with hm (hl hash himported) name size media_type
      metadata world

theorem calls_publish_path_as (hm : mine s.self_id) (path : LocalFile) (name : Option String)
    (world : ImportWorld) (hl : ∀ hash, world.imported = .ok hash → listed hash) :
    CallsBy (Op.listing mine held listed) s.state (s.publish_path_as path name world).2.state := by
  unfold publish_path_as
  split
  · exact .refl _
  · split
    · exact .refl _
    · split
      · exact .refl _
      · exact .refl _
      · exact .refl _
      · exact s.calls_import_with hm _ _ _ _ _ hl

theorem calls_publish_bytes_with (hm : mine s.self_id) (name : String) (bytes : Bytes)
    (media_type : Option String) (metadata : BTreeMap String String) (world : ImportWorld)
    (hl : ∀ hash, world.imported = .ok hash → listed hash) :
    CallsBy (Op.listing mine held listed) s.state
      (s.publish_bytes_with name bytes media_type metadata world).2.state := by
  unfold publish_bytes_with
  split
  · exact .refl _
  · exact s.calls_import_with hm _ _ _ _ _ hl

theorem calls_send_extension («namespace» : FixedBytes 16) (local_kind : UInt32)
    (schema_version : UInt16) (payload : Bytes) (draw : Draw) :
    CallsBy (Op.listing mine held listed) s.state
      (s.send_extension «namespace» local_kind schema_version payload draw).2.state := by
  unfold send_extension
  split
  · exact .refl _
  · exact s.calls_broadcast _ _

theorem calls_note_complete (hm : mine s.state.self_endpoint_id) {hash : BlobHash}
    (hh : held hash) (hl : listed hash) (size : UInt64) (now : Instant) :
    CallsBy (Op.listing mine held listed) s.state (s.note_complete hash size now) := by
  unfold note_complete
  extract_lets src state offer
  have hadd : CallsBy (Op.listing mine held listed) s.state state := .one (.add_provider hash) ⟨hh, trivial⟩
  split
  · exact hadd.and_then (.set_local_status hash .Complete) ⟨trivial, trivial⟩
  · exact ((hadd.and_then (.note_peer s.state.self_endpoint_id) ⟨hm, trivial⟩).and_then
      (.record_offer_inner s.state.self_endpoint_id offer now) ⟨hm, hl⟩).and_then
      (.set_local_status hash .Complete) ⟨trivial, trivial⟩

theorem calls_mark_complete (ho : s.Owns mine held) {hash : BlobHash} (hl : listed hash)
    (known_size : Option UInt64) (hh : known_size = none ∨ held hash) (world : CompleteWorld) :
    CallsBy (Op.listing mine held listed) s.state (s.mark_complete hash known_size world).2.state := by
  unfold mark_complete
  split
  · exact .refl _
  · rename_i size hsize
    have hheld : held hash := by
      rcases hh with rfl | hh
      · simp only [confirmed_size] at hsize
        split at hsize
        · rename_i size' hstore
          exact ho.store hash size' hstore
        · cases hsize
      · exact hh
    generalize hs : { s with state := s.note_complete hash size world.now } = s₁
    have h₁ : CallsBy (Op.listing mine held listed) s.state s₁.state := by
      subst hs
      exact s.calls_note_complete ho.state hheld hl size world.now
    split
    · simpa only [hs] using h₁
    · have h₂ := h₁.trans (s₁.calls_announce hash .Available world.announced_at_ms world.draw)
      rcases ha : s₁.announce hash .Available world.announced_at_ms world.draw with ⟨_ | _, s₂⟩ <;>
        rw [ha] at h₂ <;> simpa only [hs, ha] using h₂

theorem calls_reannounce (ho : s.Owns mine held) {hash : BlobHash} (hl : listed hash)
    (world : CompleteWorld) (ms : UInt64) (draw : Draw) :
    CallsBy (Op.listing mine held listed) s.state (s.reannounce hash world ms draw).2.state := by
  unfold reannounce
  have h₁ := s.calls_mark_complete ho hl none (.inl rfl) world
  rcases hm : s.mark_complete hash none world with ⟨_ | _, s₁⟩ <;> rw [hm] at h₁
  · exact h₁
  · exact h₁.trans (s₁.calls_announce _ _ _ _)

theorem calls_announce_withdrawal (ms : BlobHash → UInt64) (draws : BlobHash → Draw) :
    CallsBy (Op.listing mine held listed) s.state (s.announce_withdrawal ms draws).state := by
  unfold announce_withdrawal
  generalize s.complete_hashes = hashes
  induction hashes generalizing s with
  | nil => exact .refl _
  | cons hash hashes ih =>
    exact (s.calls_announce hash .Withdrawing (ms hash) (draws hash)).trans (ih _)

/-! ## Fetches -/

variable (task : FetchTask)

theorem calls_finish_fetch (result : Except DropError Unit) :
    CallsBy (Op.listing mine held listed) s.state (s.finish_fetch task result).2.state := by
  unfold finish_fetch
  rcases result with e | _
  · rcases task.auto with _ | size
    · exact .one (.set_local_status _ _) ⟨trivial, trivial⟩
    · exact .one (.set_local_status _ _) ⟨trivial, trivial⟩
  · rcases task.auto with _ | size
    · exact .refl _
    · exact .refl _

theorem calls_finish_local (ho : s.Owns mine held) (hl : listed task.hash) (world : FetchWorld) :
    CallsBy (Op.listing mine held listed) s.state (s.finish_local task world).2.state := by
  unfold finish_local
  have h₁ := s.calls_mark_complete ho hl none (.inl rfl) world.complete
  rcases hm : s.mark_complete task.hash none world.complete with ⟨_ | _, s₁⟩ <;> rw [hm] at h₁
  · exact h₁.trans (s₁.calls_finish_fetch task _)
  · exact h₁.trans (s₁.calls_finish_fetch task _)

theorem calls_run_round (attempt : Nat) (world : FetchWorld) :
    CallsBy (Op.listing mine held listed) s.state (s.run_round task attempt world).2.state := by
  unfold run_round
  split
  · exact .one (.set_local_status _ _) ⟨trivial, trivial⟩
  · have h₁ : CallsBy (Op.listing mine held listed) s.state
        (s.broadcast (.Request ⟨task.hash⟩) world.draw).2.state := s.calls_broadcast _ _
    rcases hb : s.broadcast (.Request ⟨task.hash⟩) world.draw with ⟨_ | _, s₁⟩ <;> rw [hb] at h₁ <;>
      simp only [request, hb]
    · exact h₁.trans (s₁.calls_finish_fetch task _)
    · exact h₁

theorem calls_fail_attempt (attempt : Nat) (error : DropError) (world : FetchWorld) :
    CallsBy (Op.listing mine held listed) s.state (s.fail_attempt task attempt error world).2.state := by
  unfold fail_attempt
  have h₁ : CallsBy (Op.listing mine held listed) s.state
      (s.broadcast (.Request ⟨task.hash⟩) world.draw).2.state := s.calls_broadcast _ _
  rcases hb : s.broadcast (.Request ⟨task.hash⟩) world.draw with ⟨_ | _, s₁⟩ <;> rw [hb] at h₁ <;>
    simp only [request, hb]
  · exact h₁.trans (s₁.calls_finish_fetch _ _)
  · exact h₁

theorem calls_credit_provider :
    CallsBy (Op.listing mine held listed) s.state (s.credit_provider task).state := by
  unfold credit_provider
  split
  · exact .refl _
  · exact .one (.mark_success _ _) ⟨trivial, trivial⟩

theorem owns_credit_provider (ho : s.Owns mine held) : (s.credit_provider task).Owns mine held := by
  unfold credit_provider
  split
  · exact ho
  · exact ⟨ho.secret, ho.state, ho.store⟩

theorem calls_run_verify (ho : s.Owns mine held) (hl : listed task.hash) (world : FetchWorld) :
    CallsBy (Op.listing mine held listed) s.state (s.run_verify task world).2.state := by
  unfold run_verify
  split
  · exact s.calls_finish_fetch task _
  · split
    · rename_i size hstore
      have h₁ := (s.calls_credit_provider task).trans
        ((s.credit_provider task).calls_mark_complete (s.owns_credit_provider task ho)
          hl (some size) (.inr (ho.store task.hash size hstore)) world.complete)
      rcases hm : (s.credit_provider task).mark_complete task.hash (some size) world.complete with
        ⟨_ | _, s₁⟩ <;> rw [hm] at h₁ <;> simp only [hm]
      · exact h₁.trans (s₁.calls_finish_fetch task _)
      · split
        · exact h₁.trans (s₁.calls_finish_fetch task _)
        · exact h₁.trans ((s₁.emit (.FetchCompleted task.hash
            (task.current_provider.getD s₁.self_id))).calls_finish_fetch task (.ok ()))
    · exact s.calls_finish_fetch task _

theorem calls_download_item (attempt : Nat) (outcome : Except DropError Unit)
    (item : DownloadProgressItem) :
    CallsBy (Op.listing mine held listed) s.state (s.download_item task attempt outcome item).2.state := by
  cases item with
  | TryProvider id => exact .refl _
  | ProviderFailed id now => exact .one (.mark_failure _ _ _) ⟨trivial, trivial⟩
  | Progress downloaded => exact .one (.set_local_status _ _) ⟨trivial, trivial⟩
  | PartComplete => exact .refl _
  | DownloadError => exact .refl _
  | Error reason => exact .refl _

theorem calls_fetch_step (ho : s.Owns mine held) (hl : listed task.hash) (event : FetchEvent) :
    CallsBy (Op.listing mine held listed) s.state (s.fetch_step task event).2.state := by
  cases event with
  | run world =>
    simp only [fetch_step]
    split
    · split
      · exact s.calls_finish_local task ho hl world
      · exact .refl _
    · exact s.calls_run_round task _ world
    · exact s.calls_run_verify task ho hl world
    · exact .refl _
  | poll timed_out =>
    simp only [fetch_step]
    split
    · unfold poll_asking
      split
      · exact .one (.set_local_status _ _) ⟨trivial, trivial⟩
      · split
        · exact .refl _
        · exact .refl _
    · unfold poll_reasking
      split
      · exact .refl _
      · exact .refl _
    · exact .refl _
  | stream_failed reason world =>
    simp only [fetch_step]
    split
    · exact s.calls_fail_attempt task _ _ world
    · exact .refl _
  | item item =>
    simp only [fetch_step]
    split
    · exact s.calls_download_item task _ _ item
    · exact .refl _
  | store_write bytes status =>
    simp only [fetch_step]
    split
    · exact .refl _
    · exact .refl _
  | ended world =>
    simp only [fetch_step]
    split
    · unfold end_download
      split
      · exact .refl _
      · exact s.calls_fail_attempt task _ _ world
    · exact .refl _

theorem calls_fetch_event (ho : s.Owns mine held) (i : Nat)
    (hl : ∀ task, s.fetches[i]? = some task → listed task.hash) (event : FetchEvent) :
    CallsBy (Op.listing mine held listed) s.state (s.fetch_event i event).state := by
  unfold fetch_event
  split
  · exact .refl _
  · rename_i task htask
    exact s.calls_fetch_step _ ho (hl task htask) event

/-! ## Intake -/

theorem evaluate_auto_fetch_state (author : EndpointId) (offer : OfferV1)
    (decision : OfferDecision) : (s.evaluate_auto_fetch author offer decision).state = s.state := by
  unfold evaluate_auto_fetch
  split
  · rfl
  · split
    · rfl
    · split
      · rfl
      · split
        · rfl
        · split <;> rfl

theorem record_received_state (author : EndpointId) (offer : OfferV1)
    (decision : OfferDecision) (now : Instant) :
    (s.record_received author offer decision now).state =
      (s.state.record_offer_bounded author offer now).2 := by
  unfold record_received
  split
  · rename_i h
    rw [h]
    rfl
  · rename_i h
    rw [h]
  · rename_i h
    rw [h]
    simp only [evaluate_auto_fetch_state]
    split <;> rfl

theorem handle_provider_state (author : EndpointId) (provider : ProviderV1)
    (id : FixedBytes 16) :
    (s.handle_provider author provider id).state =
      (s.state.assert_provider provider.blob_hash author (provider.announced_at_ms.getD 0) id
        (decide (provider.state = .Withdrawing))).2 := by
  unfold handle_provider DropState.record_provider DropState.withdraw_provider
  cases provider.state with
  | Available =>
    simp only [reduceCtorEq, decide_false]
    rcases s.state.assert_provider provider.blob_hash author (provider.announced_at_ms.getD 0) id
      false with ⟨_ | _, state⟩ <;> rfl
  | Withdrawing =>
    simp only [decide_true]
    rcases s.state.assert_provider provider.blob_hash author (provider.announced_at_ms.getD 0) id
      true with ⟨_ | _, state⟩ <;> rfl

theorem handle_request_state (hash : BlobHash) (asker : EndpointId) (world : IntakeWorld) :
    (s.handle_request hash asker world).state = s.state := by
  unfold handle_request
  rcases s.request_limiter.allow_at asker world.draw.now with ⟨_ | _, limiter⟩
  · rfl
  · simp only [Bool.not_true, Bool.false_eq_true, if_false]
    split
    · rfl
    · split
      · rfl
      · unfold reply_available
        simp only
        split <;> rfl

/-- The application turns the offer away. -/
def rejects (author : EndpointId) (offer : OfferV1) (delivered_from : EndpointId) : Prop :=
  ∃ reason, s.offer_decision author offer delivered_from = .Reject reason

instance (author : EndpointId) (offer : OfferV1) (delivered_from : EndpointId) :
    Decidable (s.rejects author offer delivered_from) :=
  match h : s.offer_decision author offer delivered_from with
  | .Reject reason => .isTrue ⟨reason, h⟩
  | .Accept => .isFalse (fun ⟨_, h'⟩ => by simp [h] at h')
  | .RecordOnly => .isFalse (fun ⟨_, h'⟩ => by simp [h] at h')

/-- What acting on a new message does to the state. -/
def dispatch_ops (verified : VerifiedMessage) (delivered_from : EndpointId) (now : Instant) :
    List Op :=
  match verified.body with
  | some (.Offer offer) =>
    if s.rejects verified.author offer delivered_from then []
    else [.note_peer verified.author, .record_offer_inner verified.author offer now]
  | some (.Provider provider) =>
    [.assert_provider provider.blob_hash verified.author (provider.announced_at_ms.getD 0)
      verified.message.id (decide (provider.state = .Withdrawing))]
  | _ => []

theorem dispatch_state (verified : VerifiedMessage) (delivered_from : EndpointId)
    (world : IntakeWorld) :
    (s.dispatch verified delivered_from world).state =
      (s.dispatch_ops verified delivered_from world.draw.now).foldl perform s.state := by
  rcases hb : verified.body with _ | (offer | provider | request | ext) <;>
    simp only [dispatch, dispatch_ops, hb]
  · split
    · rfl
    · rfl
  · unfold handle_offer
    split
    · rename_i reason hr
      rw [if_pos ⟨reason, hr⟩]
      rfl
    · rename_i hr
      rw [if_neg (fun ⟨reason, h⟩ => hr reason h), record_received_state]
      rfl
  · exact s.handle_provider_state _ _ _
  · exact s.handle_request_state _ _ _
  · unfold handle_extension
    split
    · rfl
    · rfl

/-- What a message does to the state, all in all. -/
def message_ops (verified : VerifiedMessage) (delivered_from : EndpointId) (raw : Bytes)
    (now : Instant) : List Op :=
  if ¬ s.admits delivered_from now then []
  else if ¬ s.state.is_fresh verified.key now then
    [.note_peer delivered_from, .check_and_insert verified.key now]
  else
    [.note_peer delivered_from, .check_and_insert verified.key now,
      .retain (retainable verified.body) raw] ++
      (s.taken verified delivered_from raw now).dispatch_ops verified delivered_from now

theorem handle_message_state (verified : VerifiedMessage) (delivered_from : EndpointId)
    (raw : Bytes) (world : IntakeWorld) :
    (s.handle_message verified delivered_from raw world).state =
      (s.message_ops verified delivered_from raw world.draw.now).foldl perform s.state := by
  unfold message_ops
  split
  · rename_i ha
    rw [handle_message, eq_pair (Bool.eq_false_iff.mpr ha)]
    rfl
  · rename_i ha
    have ha : s.admits delivered_from world.draw.now = true := not_not.mp ha
    split
    · rename_i hf
      rw [s.handle_message_noted ha (Bool.eq_false_iff.mpr hf) raw]
      rfl
    · rename_i hf
      rw [s.handle_message_fresh ha (not_not.mp hf), dispatch_state, List.foldl_append]
      rfl

theorem receive_state (content : Bytes) (delivered_from : EndpointId) (world : IntakeWorld) :
    (s.receive content delivered_from world).state =
      (s.replay content delivered_from world).state := by
  unfold receive replay
  split
  · rfl
  · rfl

theorem maybe_sync_from_neighbor_state (peer : EndpointId) (now : Instant) :
    (s.maybe_sync_from_neighbor peer now).state = s.state := by
  unfold maybe_sync_from_neighbor
  simp only
  split <;> split <;> rfl

theorem neighbor_up_state (peer : EndpointId) (now : Instant) :
    (s.neighbor_up peer now).state =
      { s.state with known_peers := s.state.known_peers.insert peer () } := by
  unfold neighbor_up
  simp only
  rw [maybe_sync_from_neighbor_state]
  rfl

/-! ## History and extensions -/

/-- What a restored frame does to the state. -/
def restore_ops (frame : Bytes) (now : Instant) : List Op :=
  match MessageV1.decode frame s.topic_id with
  | .error _ => []
  | .ok verified =>
    if ¬ s.state.is_fresh verified.key now then [.check_and_insert verified.key now]
    else
      match verified.message.body.decode with
      | .ok (some (.Offer offer)) =>
        [.check_and_insert verified.key now, .retain .Yes frame,
          .record_offer_inner verified.author offer now]
      | .ok (some (.Provider provider)) =>
        [.check_and_insert verified.key now, .retain .Yes frame,
          .assert_provider provider.blob_hash verified.author (provider.announced_at_ms.getD 0)
            verified.message.id (decide (provider.state = .Withdrawing))]
      | _ => [.check_and_insert verified.key now]

theorem restore_frame_state (frame : Bytes) (now : Instant) :
    (s.restore_frame frame now).2.state = (s.restore_ops frame now).foldl perform s.state := by
  rcases hd : MessageV1.decode frame s.topic_id with e | verified <;>
    simp only [restore_frame, restore_ops, hd]
  · rfl
  · have hf : s.state.is_fresh verified.key now =
        (s.state.check_and_insert (verified.author, verified.message.id) now).1 := rfl
    have hn : s.state.perform (.check_and_insert verified.key now) =
        (s.state.check_and_insert (verified.author, verified.message.id) now).2 := rfl
    rcases hc : s.state.check_and_insert (verified.author, verified.message.id) now with
      ⟨_ | _, state⟩ <;> rw [hc] at hf hn
    · simp only [hf, Bool.false_eq_true, not_false_eq_true, if_true, List.foldl_cons,
        List.foldl_nil, hn]
    · simp only [hf, not_true_eq_false, if_false]
      rcases verified.message.body.decode with e | _ | (offer | provider | request | ext) <;>
        simp only [List.foldl_cons, List.foldl_nil, hn]
      · rfl
      · rcases provider.state
        · rfl
        · rfl

theorem on_extension_state («namespace» : FixedBytes 16) :
    (s.on_extension «namespace»).state = s.state := by
  have hone : ∀ (s : Session) (frame : Bytes),
      (s.replay_extension «namespace» frame).state = s.state := by
    intro s frame
    unfold replay_extension
    split
    · rfl
    · split
      · split <;> rfl
      · rfl
  have hall : ∀ (frames : List Bytes) (s : Session),
      (frames.foldl (replay_extension «namespace») s).state = s.state := by
    intro frames
    induction frames with
    | nil => exact fun s => rfl
    | cons frame frames ih => exact fun s => (ih _).trans (hone s frame)
  unfold on_extension
  simp only
  rw [hall]

end Session

/-! ## Steps -/

/-- A step of the session's own: no frame comes in, none is restored, and no
neighbor comes up. -/
def Step.is_own : Step → Prop
  | .received _ _ _ | .replayed _ _ _ | .restore_history _ | .neighbor_up _ _ => False
  | _ => True

/-- The blobs that a call of the user, or a fetch, is about. -/
def Step.names (s : Session) (i : Step) (hash : BlobHash) : Prop :=
  match i with
  | .publish_path_as _ _ world | .publish_bytes_with _ _ _ _ world => world.imported = .ok hash
  | .reannounce announced _ _ _ => announced = hash
  | .fetch fetched => fetched = hash
  | .fetch_event j _ => ∃ task, s.fetches[j]? = some task ∧ task.hash = hash
  | _ => False

namespace Session

variable {mine : EndpointId → Prop} {held listed : BlobHash → Prop} {s : Session}

/-- A step of the session's own goes through operations of its own, and lists
nothing but what it is about. -/
theorem calls_listing_step (ho : s.Owns mine held) {i : Step} (hi : i.is_own)
    (hl : ∀ hash, i.names s hash → listed hash) :
    CallsBy (Op.listing mine held listed) s.state (s.step i).state := by
  cases i with
  | received content delivered_from world => exact hi.elim
  | replayed frame peer world => exact hi.elim
  | neighbor_up peer now => exact hi.elim
  | neighbor_down peer => exact .refl _
  | lagged => exact .refl _
  | publish_path_as path name world => exact s.calls_publish_path_as ho.secret _ _ _ hl
  | publish_bytes_with name bytes media_type metadata world =>
    exact s.calls_publish_bytes_with ho.secret _ _ _ _ _ hl
  | send_extension «namespace» local_kind schema_version payload draw =>
    exact s.calls_send_extension _ _ _ _ _
  | on_extension «namespace» =>
    simp only [step, on_extension_state]
    exact .refl _
  | reannounce hash world ms draw => exact s.calls_reannounce ho (hl hash rfl) _ _ _
  | announce_withdrawal ms draws => exact s.calls_announce_withdrawal _ _
  | restore_history frames => exact hi.elim
  | fetch hash => exact .refl _
  | fetch_event j event =>
    exact s.calls_fetch_event ho _ (fun task htask => hl _ ⟨task, htask, rfl⟩) _
  | store_changed hash status => exact .refl _
  | released => exact .refl _

/-- A step of the session's own goes through operations of its own. -/
theorem calls_own_step (ho : s.Owns mine held) {i : Step} (hi : i.is_own) :
    CallsBy (Op.own mine held) s.state (s.step i).state := by
  have hcalls : CallsBy (Op.listing mine held fun _ => True) s.state (s.step i).state :=
    calls_listing_step ho hi (fun _ _ => trivial)
  exact hcalls.mono (fun _ hop => hop.1)

theorem calls_ops (ops : List Op) (a : DropState) : Calls a (ops.foldl perform a) := by
  induction ops generalizing a with
  | nil => exact .refl a
  | cons op ops ih => exact (CallsBy.one op trivial).trans (ih _)

theorem calls_replay (s : Session) (frame : Bytes) (peer : EndpointId) (world : IntakeWorld) :
    Calls s.state (s.replay frame peer world).state := by
  unfold replay
  split
  · rw [handle_message_state]
    exact calls_ops _ _
  · exact .refl _

theorem calls_restore_history (s : Session) (frames : List (Bytes × Instant)) :
    Calls s.state (s.restore_history frames).2.state := by
  induction frames generalizing s with
  | nil => exact .refl _
  | cons f frames ih =>
    have h₁ : Calls s.state (s.restore_frame f.1 f.2).2.state := by
      rw [restore_frame_state]
      exact calls_ops _ _
    exact h₁.trans (ih _)

/-- Every step but a neighbor that comes up goes through the operations. -/
theorem calls_step (s : Session) {i : Step} (h : ∀ peer now, i ≠ .neighbor_up peer now) :
    Calls s.state (s.step i).state := by
  have howns : s.Owns (fun _ => True) (fun _ => True) := ⟨trivial, trivial, fun _ _ _ => trivial⟩
  have hown (hi : i.is_own) : Calls s.state (s.step i).state :=
    (calls_own_step howns hi).mono (fun _ _ => trivial)
  cases i with
  | received content delivered_from world =>
    simp only [step, receive_state]
    exact s.calls_replay _ _ _
  | replayed frame peer world =>
    simp only [step]
    split
    · exact .refl _
    · exact s.calls_replay _ _ _
  | restore_history frames => exact s.calls_restore_history _
  | neighbor_up peer now => exact absurd rfl (h peer now)
  | _ => exact hown trivial

end Session

end iroh_drop
