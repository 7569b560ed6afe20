-- The provider index and the offer table: an entry of the index belongs to a
-- hash that is offered or held, as long as nobody asserts anything about
-- another hash.
import IrohDrop.Delivery
import IrohDrop.OfferRuns
import IrohDrop.Speech

open rust_std postcard

namespace iroh_drop

section Laws

variable [Crypto]

/-- The index has an entry for a hash that is not offered. -/
def Stray (s : DropState) (hash : BlobHash) : Prop := hash ∈ s.providers ∧ hash ∉ s.offers

namespace DropState

variable {s : DropState} {hash : BlobHash}

/-! ## Operations -/

/-- What is evicted loses its entry with its offer. -/
theorem stray_evict_offers {order : List BlobHash} (h : Stray (s.evict_offers order).1 hash) :
    Stray s hash := by
  induction order generalizing s with
  | nil => exact h
  | cons oldest rest ih =>
    unfold evict_offers at h
    split at h
    · split at h
      · obtain ⟨hprovider, hoffer⟩ := ih h
        obtain ⟨hne, hprovider⟩ := AList.mem_erase.mp hprovider
        exact ⟨hprovider, fun hmem => hoffer (AList.mem_erase.mpr ⟨hne, hmem⟩)⟩
      · exact ih h
    · exact h

/-- An offer brings in an entry for its own hash alone, which it lists. -/
theorem stray_record_offer_inner {author : EndpointId} {offer : OfferV1} {now : Instant}
    (h : Stray (s.record_offer_inner author offer now).2 hash) : Stray s hash := by
  unfold record_offer_inner at h
  extract_lets hash' s₁ s₂ record s₃ at h
  split at h
  · exact h
  · split at h
    · obtain ⟨hprovider, hoffer⟩ := h
      have hne : hash ≠ hash' := fun heq => hoffer (AList.mem_insert _ |>.mpr (.inl heq))
      exact ⟨((AList.mem_insert _).mp hprovider).resolve_left hne,
        fun hmem => hoffer ((AList.mem_insert _).mpr (.inr hmem))⟩
    · obtain ⟨hprovider, hoffer⟩ := stray_evict_offers h
      have hne : hash ≠ hash' := fun heq => hoffer (AList.mem_insert _ |>.mpr (.inl heq))
      exact ⟨((AList.mem_insert _).mp hprovider).resolve_left hne,
        fun hmem => hoffer ((AList.mem_insert _).mpr (.inr hmem))⟩

/-- A stray entry was there before, unless someone asserts something about
its hash, or this peer serves it itself. -/
theorem stray_perform {op : Op} (h : Stray (s.perform op) hash) :
    Stray s hash ∨ (∃ peer ms id withdrawn, op = .assert_provider hash peer ms id withdrawn) ∨
      op = .add_provider hash := by
  cases op with
  | note_peer peer =>
    obtain ⟨known, order, hnoted⟩ := s.note_peer_tables peer
    simp only [perform, hnoted] at h
    exact .inl h
  | check_and_insert key now => exact .inl h
  | retain r frame =>
    obtain ⟨hoffers, hproviders, -⟩ := s.retain_tables r frame
    unfold Stray at h
    simp only [perform, hoffers, hproviders] at h
    exact .inl h
  | record_offer_inner author offer now => exact .inl (stray_record_offer_inner h)
  | assert_provider hash' peer ms id withdrawn =>
    rcases (AList.mem_insert _).mp h.1 with heq | hold
    · exact .inr (.inl ⟨peer, ms, id, withdrawn, by rw [heq]⟩)
    · exact .inl ⟨hold, h.2⟩
  | set_local_status hash' status =>
    exact .inl ⟨h.1, fun hmem => h.2 ((HashMap.mem_modify s.offers hash' hash _).mpr hmem)⟩
  | add_provider hash' =>
    rcases (AList.mem_insert _).mp h.1 with heq | hold
    · exact .inr (.inr (by rw [heq]))
    · exact .inl ⟨hold, h.2⟩
  | mark_failure hash' id now => exact .inl ⟨(HashMap.mem_modify _ _ _ _).mp h.1, h.2⟩
  | mark_success hash' id => exact .inl ⟨(HashMap.mem_modify _ _ _ _).mp h.1, h.2⟩

/-- An operation of intake that leaves both tables alone. -/
def Op.notes : Op → Prop
  | .note_peer _ | .check_and_insert _ _ | .retain _ _ => True
  | _ => False

theorem notes_tables {ops : List Op} (h : ∀ op ∈ ops, op.notes) (s : DropState) :
    (ops.foldl perform s).offers = s.offers ∧ (ops.foldl perform s).providers = s.providers := by
  induction ops generalizing s with
  | nil => exact ⟨rfl, rfl⟩
  | cons op ops ih =>
    have hone : (s.perform op).offers = s.offers ∧ (s.perform op).providers = s.providers := by
      have hop := h op List.mem_cons_self
      cases op with
      | note_peer peer =>
        obtain ⟨known, order, hnoted⟩ := s.note_peer_tables peer
        simp [perform, hnoted]
      | check_and_insert key now => exact ⟨rfl, rfl⟩
      | retain r frame => exact ⟨(s.retain_tables r frame).1, (s.retain_tables r frame).2.1⟩
      | _ => exact hop.elim
    obtain ⟨hoffers, hproviders⟩ := ih (fun op hop => h op (List.mem_cons_of_mem _ hop)) (s.perform op)
    exact ⟨hoffers.trans hone.1, hproviders.trans hone.2⟩

theorem stray_notes {ops : List Op} (hn : ∀ op ∈ ops, op.notes)
    (h : Stray (ops.foldl perform s) hash) : Stray s hash := by
  unfold Stray at h
  rwa [(notes_tables hn s).1, (notes_tables hn s).2] at h

/-- Some notes, and then an assertion about a hash that is not offered: the
entry is stray. -/
theorem stray_of_assertion {notes : List Op} (hn : ∀ op ∈ notes, op.notes) (hoffer : hash ∉ s.offers)
    (peer : EndpointId) (ms : UInt64) (id : FixedBytes 16) (withdrawn : Bool) :
    Stray ((notes ++ [Op.assert_provider hash peer ms id withdrawn]).foldl perform s) hash := by
  rw [List.foldl_append]
  refine ⟨(AList.mem_insert _).mpr (.inl rfl), ?_⟩
  change hash ∉ (notes.foldl perform s).offers
  rw [(notes_tables hn s).1]
  exact hoffer

end DropState

/-! ## Frames -/

/-- The step takes in a provider assertion about `hash` that is new: off the
wire, from a catch-up, or out of restored history. -/
def Session.asserts (s : Session) (i : Step) (hash : BlobHash) : Prop :=
  (∃ frame peer world verified provider, i.intake = some (frame, peer, world) ∧
    Session.decode_for_session s.toSessionConfig frame = .ok verified ∧
    verified.body = some (.Provider provider) ∧ provider.blob_hash = hash ∧
    s.admits peer world.draw.now = true ∧ s.state.is_fresh verified.key world.draw.now = true) ∨
  (∃ frame now verified provider, i = .restore_history [(frame, now)] ∧
    MessageV1.decode frame s.topic_id = .ok verified ∧
    verified.message.body.decode = .ok (some (.Provider provider)) ∧ provider.blob_hash = hash ∧
    s.state.is_fresh verified.key now = true)

namespace Session

variable {s : Session} {hash : BlobHash}

/-- A stray entry that acting on a message brings in is one that the message
asserts. -/
theorem stray_dispatch_ops {verified : VerifiedMessage} {delivered_from : EndpointId}
    {now : Instant} {state : DropState}
    (h : Stray ((s.dispatch_ops verified delivered_from now).foldl DropState.perform state) hash) :
    Stray state hash ∨ (hash ∉ state.offers ∧ ∃ provider,
      verified.body = some (.Provider provider) ∧ provider.blob_hash = hash) := by
  unfold dispatch_ops at h
  split at h
  · split at h
    · exact .inl h
    · have hrecord := DropState.stray_record_offer_inner h
      have hnote : ∀ op ∈ [DropState.Op.note_peer verified.author], op.notes := by
        simp [DropState.Op.notes]
      exact .inl (DropState.stray_notes hnote hrecord)
  · rename_i provider hbody
    rcases (AList.mem_insert _).mp h.1 with heq | hold
    · exact .inr ⟨h.2, provider, hbody, heq.symm⟩
    · exact .inl ⟨hold, h.2⟩
  · exact .inl h

theorem notes_message (delivered_from : EndpointId) (key : DedupKey) (now : Instant) (r : Retain)
    (raw : Bytes) :
    ∀ op ∈ [DropState.Op.note_peer delivered_from, .check_and_insert key now, .retain r raw],
      op.notes := by
  simp [DropState.Op.notes]

theorem stray_replay {i : Step} {frame : Bytes} {peer : EndpointId} {world : IntakeWorld}
    (hi : i.intake = some (frame, peer, world))
    (h : Stray (s.replay frame peer world).state hash) :
    Stray s.state hash ∨ (hash ∉ s.state.offers ∧ s.asserts i hash) := by
  unfold replay at h
  split at h
  · rename_i verified hd
    rw [handle_message_state] at h
    unfold message_ops at h
    split at h
    · exact .inl h
    · rename_i ha
      split at h
      · exact .inl (DropState.stray_notes
          (fun op hop => notes_message peer verified.key world.draw.now .No frame op
            (List.mem_of_mem_dropLast hop)) h)
      · rename_i hf
        have hnotes := notes_message peer verified.key world.draw.now (retainable verified.body) frame
        rw [List.foldl_append] at h
        rcases stray_dispatch_ops h with h | ⟨hoffer, provider, hbody, hhash⟩
        · exact .inl (DropState.stray_notes hnotes h)
        · rw [(DropState.notes_tables hnotes s.state).1] at hoffer
          exact .inr ⟨hoffer, .inl ⟨frame, peer, world, verified, provider, hi, hd, hbody, hhash,
            not_not.mp ha, not_not.mp hf⟩⟩
  · exact .inl h

theorem stray_restore_frame {frame : Bytes} {now : Instant}
    (h : Stray (s.restore_frame frame now).2.state hash) :
    Stray s.state hash ∨
      (hash ∉ s.state.offers ∧ s.asserts (.restore_history [(frame, now)]) hash) := by
  rw [restore_frame_state] at h
  unfold restore_ops at h
  split at h
  · exact .inl h
  · rename_i verified hd
    split at h
    · exact .inl h
    · rename_i hf
      split at h
      · have hnotes : ∀ op ∈ [DropState.Op.check_and_insert verified.key now, .retain .Yes frame],
            op.notes := by
          simp [DropState.Op.notes]
        have hrecord : Stray ([DropState.Op.check_and_insert verified.key now,
            .retain .Yes frame].foldl DropState.perform s.state) hash :=
          DropState.stray_record_offer_inner h
        exact .inl (DropState.stray_notes hnotes hrecord)
      · rename_i provider hbody
        rcases (AList.mem_insert _).mp h.1 with heq | hold
        · exact .inr ⟨h.2, .inr ⟨frame, now, verified, provider, rfl, hd, hbody, heq.symm,
            not_not.mp hf⟩⟩
        · exact .inl ⟨hold, h.2⟩
      · exact .inl h

/-- A hash that is asserted and not offered has a stray entry after the step. -/
theorem stray_of_asserts {i : Step} (h : s.asserts i hash) (hoffer : hash ∉ s.state.offers) :
    Stray (s.step i).state hash := by
  rcases h with ⟨frame, peer, world, verified, provider, hi, hd, hbody, rfl, ha, hf⟩ |
    ⟨frame, now, verified, provider, rfl, hd, hbody, rfl, hf⟩
  · rw [step_of_intake hi hd hbody, handle_message_state]
    simp only [message_ops, dispatch_ops, ha, hf, hbody, not_true_eq_false, if_false]
    exact DropState.stray_of_assertion (notes_message peer verified.key world.draw.now _ frame)
      hoffer _ _ _ _
  · have hstep : (s.step (.restore_history [(frame, now)])).state =
        (s.restore_ops frame now).foldl DropState.perform s.state := s.restore_frame_state frame now
    rw [hstep]
    simp only [restore_ops, hd, hf, hbody, not_true_eq_false, if_false]
    have hnotes : ∀ op ∈ [DropState.Op.check_and_insert verified.key now, .retain .Yes frame],
        op.notes := by
      simp [DropState.Op.notes]
    exact DropState.stray_of_assertion hnotes hoffer _ _ _ _

end Session

/-! ## Runs -/

/-- Restored history, frame by frame. -/
def Step.one_by_one : Step → List Step
  | .restore_history frames => frames.map (fun frame => .restore_history [frame])
  | i => [i]

/-- A run is the same when its history is restored frame by frame. -/
theorem run_one_by_one (s : Session) (steps : List Step) :
    s.run (steps.flatMap Step.one_by_one) = s.run steps := by
  induction steps generalizing s with
  | nil => rfl
  | cons i steps ih =>
    have hone : s.run i.one_by_one = s.step i := by
      cases i with
      | restore_history frames =>
        simp only [Step.one_by_one, Session.step]
        induction frames generalizing s with
        | nil => rfl
        | cons frame frames ih' => exact ih' (s.restore_frame frame.1 frame.2).2
      | _ => rfl
    rw [List.flatMap_cons, Session.run, runs.run_append]
    change Session.run (s.run i.one_by_one) _ = _
    rw [hone, ih]
    rfl

/-- The blob store held the blob whole at some time of the run. -/
def HeldBy (s : Session) (past : List Step) (hash : BlobHash) : Prop :=
  ∃ before, before <+: past ∧ (s.run before).holds hash = true

/-- Every stray entry is of a blob that the store has held. -/
def StrayHeld (first : Session) (past : List Step) (s : Session) : Prop :=
  ∀ hash, Stray s.state hash → HeldBy first past hash

/-- The index has entries for offered hashes and for blobs that this peer has
held, and no more of them than these two make possible. -/
structure IndexBounded (s : Session) (past : List Step) : Prop where
  held : StrayHeld s past (s.run past)
  count : ∀ held : List BlobHash, (∀ hash, HeldBy s past hash → hash ∈ held) →
    HashMap.len (s.run past).state.providers ≤ MAX_OFFERS + held.length

/-- A step leaves no entry for a hash that is not offered, or no longer, but
those that were there without an offer before, and those of blobs that this
peer itself completes. -/
def NoNewStray (s : Session) (i : Step) : Prop :=
  ∀ hash, Stray (s.step i).state hash → Stray s.state hash ∨ (i.is_own ∧ s.holds hash = true)

/-- What the step asserts about a hash, it asserts about one that is offered,
or has an entry. -/
def AssertsListed (s : Session) (i : Step) : Prop :=
  ∀ hash, s.asserts i hash → hash ∈ s.state.offers ∨ hash ∈ s.state.providers

/-- A step that the rows of restored history are taken apart for. -/
theorem no_new_stray_iff (s : Session) {i : Step} (hi : ∃ j : Step, i ∈ j.one_by_one) :
    NoNewStray s i ↔ AssertsListed s i := by
  constructor
  · intro h hash hasserts
    by_contra hnot
    rw [not_or] at hnot
    rcases h hash (Session.stray_of_asserts hasserts hnot.1) with hold | ⟨hown, -⟩
    · exact hnot.2 hold.1
    · rcases hasserts with ⟨frame, peer, world, verified, provider, hintake, -⟩ |
        ⟨frame, now, verified, provider, rfl, -⟩
      · cases i <;> first | exact hown | cases hintake
      · exact hown
  · intro h hash hstray
    have hasserted (hoffer : hash ∉ s.state.offers) (hasserts : s.asserts i hash) :
        Stray s.state hash :=
      ⟨(h hash hasserts).resolve_left hoffer, hoffer⟩
    have hown (hown : i.is_own) : Stray s.state hash ∨ (i.is_own ∧ s.holds hash = true) := by
      have howns : s.Owns (fun _ => True) (fun hash => s.holds hash = true) :=
        ⟨trivial, trivial, fun hash size hstore => by simp [Session.holds, hstore]⟩
      have hcalls := Session.calls_own_step howns hown
      have hkept : ∀ hash, Stray (s.step i).state hash → Stray s.state hash ∨ s.holds hash = true := by
        refine hcalls.keeps (p := fun a => ∀ hash, Stray a hash →
          Stray s.state hash ∨ s.holds hash = true) ?_ (fun hash h => .inl h)
        intro a op ha hop hash hstray
        rcases DropState.stray_perform hstray with hold | ⟨_, _, _, _, rfl⟩ | rfl
        · exact ha hash hold
        · exact hop.elim
        · exact .inr hop
      exact (hkept hash hstray).imp id (fun hholds => ⟨hown, hholds⟩)
    cases i with
    | received content delivered_from world =>
      simp only [Session.step, Session.receive_state] at hstray
      rcases Session.stray_replay (i := .received content delivered_from world) rfl hstray
        with hold | ⟨hoffer, hasserts⟩
      · exact .inl hold
      · exact .inl (hasserted hoffer hasserts)
    | replayed frame peer world =>
      simp only [Session.step] at hstray
      split at hstray
      · exact .inl hstray
      · rcases Session.stray_replay (i := .replayed frame peer world) rfl hstray
          with hold | ⟨hoffer, hasserts⟩
        · exact .inl hold
        · exact .inl (hasserted hoffer hasserts)
    | restore_history frames =>
      obtain ⟨j, hj⟩ := hi
      cases j with
      | restore_history all =>
        obtain ⟨⟨frame, now⟩, -, heq⟩ := List.mem_map.mp hj
        cases heq
        rcases Session.stray_restore_frame hstray with hold | ⟨hoffer, hasserts⟩
        · exact .inl hold
        · exact .inl (hasserted hoffer hasserts)
      | _ => simp [Step.one_by_one] at hj
    | neighbor_up peer now =>
      simp only [Session.step, Session.neighbor_up_state] at hstray
      exact .inl hstray
    | _ => exact hown trivial

theorem HeldBy.later {s : Session} {past : List Step} {hash : BlobHash} (h : HeldBy s past hash)
    (i : Step) : HeldBy s (past ++ [i]) hash := by
  obtain ⟨before, hbefore, hholds⟩ := h
  exact ⟨before, hbefore.trans (List.prefix_append past [i]), hholds⟩

/-- Entries of offered hashes and of blobs held are no more than there can be
offers, and the blobs. -/
theorem len_providers_le {s : DropState} (hk : TableKept s) {held : List BlobHash}
    (h : ∀ hash, Stray s hash → hash ∈ held) :
    HashMap.len s.providers ≤ MAX_OFFERS + held.length := by
  have hmem : ∀ hash ∈ s.providers, hash ∈ s.offers.keys ++ held := by
    intro hash hprovider
    rw [List.mem_append]
    by_cases hoffer : hash ∈ s.offers
    · exact .inl (AList.mem_keys.mp hoffer)
    · exact .inr (h hash ⟨hprovider, hoffer⟩)
  calc HashMap.len s.providers ≤ (s.offers.keys ++ held).toFinset.card :=
        HashMap.len_le_card s.providers hmem
    _ ≤ (s.offers.keys ++ held).length := List.toFinset_card_le _
    _ = HashMap.len s.offers + held.length := List.length_append
    _ ≤ MAX_OFFERS + held.length := Nat.add_le_add_right hk.cap _

/-- In every state of a run the provider index is bounded by the offer table,
and no frame makes or keeps an entry for a hash that is not offered, just
when every assertion of the run is about a hash that is listed. -/
theorem provider_index_bounded_iff (secret : SecretKey) (policy : DropPolicy)
    (decider : OfferDecider) (topic_id : TopicId) (ticket : DropTicket) (drop_key : Option DropKey)
    (store : BlobHash → BlobStatus) (calls : List Step) :
    let s := Session.new secret policy decider topic_id ticket drop_key store
    let steps := calls.flatMap Step.one_by_one
    (∀ past, past <+: steps → IndexBounded s past ∧
      ∀ i, past ++ [i] <+: steps → NoNewStray (s.run past) i) ↔
    runs.Meets Session.step AssertsListed s steps := by
  intro s steps
  have hsingle : ∀ i ∈ steps, ∃ j : Step, i ∈ j.one_by_one := by
    intro i hi
    obtain ⟨j, -, hj⟩ := List.mem_flatMap.mp hi
    exact ⟨j, hj⟩
  rw [runs.meets_iff_split]
  constructor
  · rintro h past i rest heq
    have hi : i ∈ steps := heq ▸ List.mem_append_right _ List.mem_cons_self
    refine (no_new_stray_iff _ (hsingle i hi)).mp ?_
    have hpast : past ++ [i] <+: steps := ⟨rest, by rw [heq]; simp⟩
    exact (h past ((List.prefix_append past [i]).trans hpast)).2 i hpast
  · intro h
    have hnew : ∀ past i rest, steps = past ++ i :: rest → NoNewStray (s.run past) i := by
      intro past i rest heq
      have hi : i ∈ steps := heq ▸ List.mem_append_right _ List.mem_cons_self
      exact (no_new_stray_iff _ (hsingle i hi)).mpr (h past i rest heq)
    have hheld : ∀ past, past <+: steps → StrayHeld s past (s.run past) := by
      intro past hpast
      have hempty : StrayHeld s [] s := fun hash hstray => by cases hstray.1
      refine runs.invariant_along hempty ?_ hpast
      intro past i rest heq ih hash hstray
      rcases hnew past i rest heq hash hstray with hold | ⟨-, hholds⟩
      · exact (ih hash hold).later i
      · exact ⟨past, List.prefix_append past [i], hholds⟩
    intro past hpast
    refine ⟨⟨hheld past hpast, fun held hcover => ?_⟩, ?_⟩
    · exact len_providers_le (Session.run_table secret policy decider topic_id ticket drop_key store
        past) (fun hash hstray => hcover hash (hheld past hpast hash hstray))
    · rintro i ⟨rest, heq⟩
      exact hnew past i rest (by rw [← heq]; simp)

/-! ## Growth without bound -/

/-- A row of history: `author` says that it serves a blob. -/
def assertion_row (author : SecretKey) (topic : TopicId) (asserted : BlobHash × FixedBytes 16) :
    Bytes × Instant :=
  match (MessageV1.new (.Provider ⟨asserted.1, .Available, some 0⟩) asserted.2 0).encode author
    topic with
  | .ok bytes => (bytes, 0)
  | .error _ => ([], 0)

theorem Session.restore_frame_store (s : Session) (frame : Bytes) (now : Instant) :
    (s.restore_frame frame now).2.store = s.store := by
  unfold Session.restore_frame
  split
  · rfl
  · simp only
    split
    · rfl
    · split <;> rfl

/-- From `a` to `b` the blobs get entries in the index, and no offer, and the
store is the same. -/
structure Grown (a b : Session) (hashes : List BlobHash) : Prop where
  topic_id : b.topic_id = a.topic_id
  offers : b.state.offers = a.state.offers
  store : b.store = a.store
  providers : ∀ hash, hash ∈ a.state.providers ∨ hash ∈ hashes → hash ∈ b.state.providers

theorem Grown.trans {a b c : Session} {hashes more : List BlobHash} (hab : Grown a b hashes)
    (hbc : Grown b c more) : Grown a c (hashes ++ more) := by
  refine ⟨hbc.topic_id.trans hab.topic_id, hbc.offers.trans hab.offers, hbc.store.trans hab.store, ?_⟩
  rintro hash (h | h)
  · exact hbc.providers hash (.inl (hab.providers hash (.inl h)))
  · rcases List.mem_append.mp h with h | h
    · exact hbc.providers hash (.inl (hab.providers hash (.inr h)))
    · exact hbc.providers hash (.inr h)

/-- A row of history about a blob gives it an entry, when the row is new, and
brings in no id but its own. -/
theorem restore_assertion_row (hs : Crypto.SignaturesVerify) (s : Session) (author : SecretKey)
    (asserted : BlobHash × FixedBytes 16)
    (hnew : (author.public, asserted.2) ∉ s.state.seen_messages.entries) :
    let row := assertion_row author s.topic_id asserted
    let s' := (s.restore_frame row.1 row.2).2
    Grown s s' [asserted.1] ∧ ∀ key ∈ s'.state.seen_messages.entries,
      key = (author.public, asserted.2) ∨ key ∈ s.state.seen_messages.entries := by
  intro row
  let provider : ProviderV1 := ⟨asserted.1, .Available, some 0⟩
  let config : SessionConfig := { s.toSessionConfig with secret := author }
  let draw : Draw := ⟨0, 0, asserted.2, .fill 24 0, .ok ()⟩
  obtain ⟨frame, hframe⟩ := encode_provider_ok provider asserted.2 0 author s.topic_id
  have hrow : row = (frame, 0) := by
    unfold row assertion_row
    rw [hframe]
  have hreceivable := provider_receivable provider
  have hdecode : MessageV1.decode frame s.topic_id = .ok (config.verified (.Provider provider) draw) :=
    (@MessageV1.decode_new_iff _ hs config _ draw frame hframe).mpr hreceivable
  have hbody : (config.verified (.Provider provider) draw).message.body.decode =
      .ok (some (.Provider provider)) := BodyEnvelopeV1.decode_encode hreceivable.1
  have hfresh : s.state.is_fresh (config.verified (.Provider provider) draw).key 0 = true :=
    s.state.is_fresh_of_not_mem 0 hnew
  have hstate : (s.restore_frame frame 0).2.state =
      [DropState.Op.check_and_insert (author.public, asserted.2) 0, .retain .Yes frame,
        .assert_provider asserted.1 author.public 0 asserted.2 false].foldl DropState.perform
        s.state := by
    rw [Session.restore_frame_state]
    simp only [Session.restore_ops, hdecode, hfresh, hbody, not_true_eq_false, if_false]
    rfl
  rw [hrow]
  refine ⟨⟨?_, ?_, s.restore_frame_store frame 0, ?_⟩, ?_⟩
  · exact congrArg SessionConfig.topic_id (step_extends s (.restore_history [(frame, 0)])).config
  · rw [hstate]
    rfl
  · rintro hash h
    rw [hstate]
    refine (AList.mem_insert _).mpr (h.symm.imp ?_ id)
    exact fun hmem => List.mem_singleton.mp hmem
  · intro key hkey
    rw [hstate] at hkey
    exact s.state.mem_of_mem_noted hkey

/-- Rows about any blobs, under ids of their own, give each one an entry, and
list no offer. -/
theorem restore_assertion_rows (hs : Crypto.SignaturesVerify) (s : Session) (author : SecretKey)
    (asserted : List (BlobHash × FixedBytes 16)) (hn : (asserted.map Prod.snd).Nodup)
    (hnew : ∀ e ∈ asserted, (author.public, e.2) ∉ s.state.seen_messages.entries) :
    Grown s (s.restore_history (asserted.map (assertion_row author s.topic_id))).2
      (asserted.map Prod.fst) := by
  induction asserted generalizing s with
  | nil => exact ⟨rfl, rfl, rfl, fun hash h => h.resolve_right (by simp)⟩
  | cons e rest ih =>
    obtain ⟨hgrown, hseen⟩ := restore_assertion_row hs s author e (hnew e List.mem_cons_self)
    obtain ⟨hfirst, hrest⟩ := List.nodup_cons.mp hn
    have hgrown' := ih _ hrest (fun e' he' hmem => by
      rcases hseen _ hmem with heq | hold
      · exact hfirst (List.mem_map.mpr ⟨e', he', (Prod.mk.inj heq).2⟩)
      · exact hnew e' (List.mem_cons_of_mem e he') hold)
    rw [hgrown.topic_id] at hgrown'
    exact hgrown.trans hgrown'

end Laws

/-! ## Assertions about hashes that nobody offered -/

namespace unoffered_hashes

local instance : Crypto := Crypto.clear

/-- The bytes of a number below 65536, and zeros. -/
def numbered (k n : Nat) : FixedBytes (n + 2) :=
  ⟨[UInt8.ofNat (k / 256), UInt8.ofNat k] ++ List.replicate n 0, by simp⟩

theorem numbered_inj {k k' n : Nat} (hk : k < 65536) (hk' : k' < 65536)
    (h : numbered k n = numbered k' n) : k = k' := by
  have hbytes := congrArg FixedBytes.bytes h
  simp only [numbered, List.cons_append, List.nil_append, List.cons.injEq] at hbytes
  have hhigh := congrArg UInt8.toNat hbytes.1
  have hlow := congrArg UInt8.toNat hbytes.2.1
  simp only [UInt8.toNat_ofNat', Nat.reducePow] at hhigh hlow
  omega

def asserted : List (BlobHash × FixedBytes 16) :=
  (List.range (MAX_OFFERS + 1)).map (fun k => (⟨numbered k 30⟩, numbered k 14))

theorem nodup_of_inj {α : Type} {f : Nat → α}
    (hf : ∀ k k', k < 65536 → k' < 65536 → f k = f k' → k = k') :
    ((List.range (MAX_OFFERS + 1)).map f).Nodup := by
  refine List.Nodup.map_on ?_ List.nodup_range
  intro k hk k' hk' heq
  have hmax : MAX_OFFERS + 1 ≤ 65536 := by decide
  rw [List.mem_range] at hk hk'
  exact hf k k' (by omega) (by omega) heq

def topic : TopicId := ⟨.fill 32 8⟩

def member : Session :=
  .new ⟨.fill 32 1⟩ {} PolicyDecider topic (.nodeless topic.as_bytes none) none (fun _ => .NotFound)

def history (asserted : List (BlobHash × FixedBytes 16)) : List Step :=
  [.restore_history (asserted.map (assertion_row ⟨.fill 32 2⟩ topic))]

/-- History with one assertion more than there may be offers. -/
def steps : List Step := history asserted

theorem history_grown {asserted : List (BlobHash × FixedBytes 16)}
    (hn : (asserted.map Prod.snd).Nodup) :
    Grown member (member.run (history asserted)) (asserted.map Prod.fst) :=
  restore_assertion_rows Crypto.clear_signatures_verify member ⟨.fill 32 2⟩ asserted hn
    (fun _ _ hmem => by cases hmem)

theorem grown : Grown member (member.run steps) (asserted.map Prod.fst) := by
  refine history_grown ?_
  rw [asserted, List.map_map]
  exact nodup_of_inj (fun k k' hk hk' heq => numbered_inj hk hk' heq)

theorem holds_nothing (hash : BlobHash) : ¬ HeldBy member steps hash := by
  rintro ⟨before, hbefore, hholds⟩
  have hstore : (member.run before).store = member.store := by
    rcases List.prefix_cons_iff.mp hbefore with rfl | ⟨rest, rfl, hrest⟩
    · rfl
    · rw [List.prefix_nil.mp hrest]
      exact grown.store
  unfold Session.holds at hholds
  rw [hstore] at hholds
  cases hholds

/-- The index has more entries than there may be offers, and this peer holds
no blob. -/
theorem assertions_outgrow_the_offers :
    MAX_OFFERS < HashMap.len (member.run steps).state.providers ∧
      (∀ hash, hash ∉ (member.run steps).state.offers) ∧
      (∀ hash, ¬ HeldBy member steps hash) ∧
      ¬ ∀ [Crypto] (secret : SecretKey) (policy : DropPolicy) (decider : OfferDecider)
        (topic_id : TopicId) (ticket : DropTicket) (drop_key : Option DropKey)
        (store : BlobHash → BlobStatus) (steps : List Step),
        IndexBounded (.new secret policy decider topic_id ticket drop_key store) steps := by
  have hlen : MAX_OFFERS < HashMap.len (member.run steps).state.providers := by
    have hnodup : (asserted.map Prod.fst).Nodup := by
      rw [asserted, List.map_map]
      exact nodup_of_inj (fun k k' hk hk' heq =>
        @numbered_inj k k' 30 hk hk' (congrArg BlobHash.as_bytes heq))
    have hsub : asserted.map Prod.fst ⊆ (member.run steps).state.providers.keys :=
      fun hash hmem => AList.mem_keys.mp (grown.providers hash (.inr hmem))
    have hle := (hnodup.subperm hsub).length_le
    rw [List.length_map, asserted, List.length_map, List.length_range] at hle
    exact hle
  refine ⟨hlen, ?_, holds_nothing, ?_⟩
  · intro hash hmem
    rw [grown.offers] at hmem
    cases hmem
  · intro h
    have hbounded : IndexBounded member steps :=
      h ⟨.fill 32 1⟩ {} PolicyDecider topic (.nodeless topic.as_bytes none) none
        (fun _ => .NotFound) steps
    have hcount := hbounded.count [] (fun hash hheld => absurd hheld (holds_nothing hash))
    exact absurd hlen (Nat.not_lt.mpr hcount)

end unoffered_hashes

end iroh_drop
