-- What a session owes to those who heard it: as long as each blob that it is
-- taken to serve stands in its table as complete, a polite leave can withdraw
-- them all.
import IrohDrop.Hearing
import IrohDrop.PublishedOffers

open rust_std

namespace iroh_drop

section Laws

variable [Crypto]

/-! ## Records that stay complete -/

namespace DropState

/-- There is a place for an offer of the author for the hash: it is listed, or
the account of the author is not full. -/
def takes (self : DropState) (author : EndpointId) (hash : BlobHash) : Prop :=
  hash ∈ self.offers ∨ self.author_has_quota author

/-- An offer of the author for the hash takes the place of the record of
`gone`, the one in front of the queue. -/
structure PushesOut (s : DropState) (author : EndpointId) (hash gone : BlobHash) : Prop where
  new : hash ∉ s.offers
  quota : s.author_has_quota author
  full : MAX_OFFERS ≤ HashMap.len s.offers
  front : s.offer_order.head? = some gone

variable {s : DropState} {hash : BlobHash}

theorem has_whole_mem (h : s.has_whole hash) : hash ∈ s.offers := by
  obtain ⟨record, hrecord, -⟩ := h
  exact AList.lookup_isSome.mp (Option.isSome_of_eq_some hrecord)

theorem record_offer_inner_whole (hk : TableKept s) (h : s.has_whole hash) {author : EndpointId}
    {offer : OfferV1} (hstays : ¬ s.PushesOut author offer.blob_hash hash) (now : Instant) :
    (s.record_offer_inner author offer now).2.has_whole hash := by
  have hmem := has_whole_mem h
  obtain ⟨record, hrecord, hstatus⟩ := h
  have hrecorded := offer_recorded hk author offer now
  generalize s.record_offer_inner author offer now = result at hrecorded
  cases hrecorded with
  | known old hold =>
    by_cases heq : hash = offer.blob_hash
    · subst heq
      cases hrecord.symm.trans hold
      refine ⟨record.add_alias offer.name, AList.lookup_insert _, ?_⟩
      unfold OfferRecord.add_alias
      split <;> exact hstatus
    · exact ⟨record, (AList.lookup_insert_ne heq).trans hrecord, hstatus⟩
  | refused hnew hspent => exact ⟨record, hrecord, hstatus⟩
  | listed hnew hquota hroom =>
    have hother : hash ≠ offer.blob_hash := fun heq => hnew (by rw [← heq]; exact hmem)
    refine ⟨record, ?_, hstatus⟩
    rw [offer_listed_lookup, if_neg hother]
    exact hrecord
  | replaced hnew hquota hfull oldest rest gone horder hgone =>
    have hother : hash ≠ offer.blob_hash := fun heq => hnew (by rw [← heq]; exact hmem)
    have hkept : hash ≠ oldest := by
      rintro rfl
      refine hstays ⟨hnew, hquota, hfull, ?_⟩
      have hqueue : offer.blob_hash ∉ s.offer_order := fun hq => hnew ((hk.queued _).mp hq)
      change s.offer_order.erase offer.blob_hash ++ [offer.blob_hash] = _ at horder
      rw [List.erase_of_not_mem hqueue] at horder
      rcases hfront : s.offer_order with _ | ⟨front, others⟩
      · exact absurd ((hk.queued hash).mpr hmem) (by rw [hfront]; exact List.not_mem_nil)
      · rw [hfront, List.cons_append] at horder
        rw [(List.cons.inj horder).1]
        rfl
    refine ⟨record, ?_, hstatus⟩
    change ((s.offer_listed author offer now).offers.erase oldest).lookup hash = _
    rw [AList.lookup_erase_ne hkept, offer_listed_lookup, if_neg hother]
    exact hrecord

/-- An offer that there is a place for is listed. -/
theorem record_offer_inner_mem (hk : TableKept s) {author : EndpointId} {offer : OfferV1}
    (h : s.takes author offer.blob_hash) (now : Instant) :
    offer.blob_hash ∈ (s.record_offer_inner author offer now).2.offers := by
  have hrecorded := offer_recorded hk author offer now
  generalize s.record_offer_inner author offer now = result at hrecorded
  cases hrecorded with
  | known old hold => exact (AList.mem_insert _).mpr (.inl rfl)
  | refused hnew hspent => exact (h.elim hnew hspent).elim
  | listed hnew hquota hroom => exact (AList.mem_insert _).mpr (.inl rfl)
  | replaced hnew hquota hfull oldest rest gone horder hgone =>
    have hother : offer.blob_hash ≠ oldest := fun heq =>
      hnew (heq ▸ oldest_was_listed hk hnew hfull horder)
    exact AList.mem_erase.mpr ⟨hother, (AList.mem_insert _).mpr (.inl rfl)⟩

theorem set_complete_whole (h : hash ∈ s.offers) :
    (s.set_local_status hash .Complete).has_whole hash := by
  obtain ⟨record, hrecord⟩ := Option.isSome_iff_exists.mp (AList.lookup_isSome.mpr h)
  unfold has_whole set_local_status
  simp only [HashMap.lookup_modify, if_true, hrecord]
  exact ⟨_, rfl, rfl⟩

theorem set_local_status_whole (h : s.has_whole hash) {other : BlobHash} {status : LocalBlobStatus}
    (hstatus : other = hash → status = .Complete) :
    (s.set_local_status other status).has_whole hash := by
  obtain ⟨record, hrecord, hwhole⟩ := h
  unfold has_whole set_local_status
  simp only [HashMap.lookup_modify]
  split
  · rename_i heq
    subst heq
    rw [hrecord]
    exact ⟨_, rfl, hstatus rfl⟩
  · exact ⟨record, hrecord, hwhole⟩

end DropState

/-- The offer tables are the same. -/
structure SameOffers (a b : DropState) : Prop where
  offers : b.offers = a.offers
  offer_order : b.offer_order = a.offer_order
  offers_per_author : b.offers_per_author = a.offers_per_author

theorem SameBooks.same_offers {a b : DropState} (h : SameBooks a b) : SameOffers a b :=
  ⟨h.offers, h.offer_order, h.offers_per_author⟩

theorem SameOffers.refl (s : DropState) : SameOffers s s := ⟨rfl, rfl, rfl⟩

theorem SameOffers.trans {a b c : DropState} (hab : SameOffers a b) (hbc : SameOffers b c) :
    SameOffers a c :=
  ⟨hbc.offers.trans hab.offers, hbc.offer_order.trans hab.offer_order,
    hbc.offers_per_author.trans hab.offers_per_author⟩

theorem SameOffers.has_whole {a b : DropState} (h : SameOffers a b) {hash : BlobHash} :
    b.has_whole hash ↔ a.has_whole hash := by
  unfold DropState.has_whole
  rw [h.offers]

theorem SameOffers.takes {a b : DropState} (h : SameOffers a b) {author : EndpointId}
    {hash : BlobHash} : b.takes author hash ↔ a.takes author hash := by
  unfold DropState.takes DropState.author_has_quota
  rw [h.offers, h.offers_per_author]

theorem SameOffers.pushesOut {a b : DropState} (h : SameOffers a b) {author : EndpointId}
    {hash gone : BlobHash} : b.PushesOut author hash gone ↔ a.PushesOut author hash gone := by
  constructor
  · rintro ⟨hnew, hquota, hfull, hfront⟩
    unfold DropState.author_has_quota at hquota
    rw [h.offers] at hnew hfull
    rw [h.offers_per_author] at hquota
    rw [h.offer_order] at hfront
    exact ⟨hnew, hquota, hfull, hfront⟩
  · rintro ⟨hnew, hquota, hfull, hfront⟩
    unfold DropState.author_has_quota at hquota
    rw [← h.offers] at hnew hfull
    rw [← h.offers_per_author] at hquota
    rw [← h.offer_order] at hfront
    exact ⟨hnew, hquota, hfull, hfront⟩

theorem SameOffers.table {a b : DropState} (h : SameOffers a b) (hk : TableKept a) : TableKept b :=
  hk.of_same h.offers h.offer_order h.offers_per_author

/-- An operation that leaves the offer table alone. -/
def DropState.Op.spares_offers : DropState.Op → Prop
  | .record_offer_inner _ _ _ | .set_local_status _ _ => False
  | _ => True

theorem perform_same_offers (s : DropState) (op : DropState.Op) (h : op.spares_offers) :
    SameOffers s (s.perform op) := by
  cases op with
  | note_peer peer =>
    obtain ⟨known, order, hnoted⟩ := s.note_peer_tables peer
    simp only [DropState.perform, hnoted]
    exact ⟨rfl, rfl, rfl⟩
  | retain r frame =>
    obtain ⟨hoffers, -, horder, hcounts⟩ := s.retain_tables r frame
    exact ⟨hoffers, horder, hcounts⟩
  | record_offer_inner author offer now => exact h.elim
  | set_local_status hash status => exact h.elim
  | _ => exact ⟨rfl, rfl, rfl⟩

theorem foldl_same_offers (s : DropState) (ops : List DropState.Op)
    (h : ∀ op ∈ ops, op.spares_offers) : SameOffers s (ops.foldl DropState.perform s) := by
  induction ops generalizing s with
  | nil => exact .refl s
  | cons op ops ih =>
    exact (perform_same_offers s op (h op List.mem_cons_self)).trans
      (ih _ fun op hop => h op (List.mem_cons_of_mem _ hop))

/-! ## Promises -/

/-- Whatever the session is taken to serve stands in its table as complete. -/
structure Covered (s : Session) : Prop where
  table : TableKept s.state
  whole : ∀ hash, Owed s.said hash → s.state.has_whole hash

/-- An offer of the author for the hash pushes out nothing that is owed. -/
def Session.Spares (s : Session) (author : EndpointId) (hash : BlobHash) : Prop :=
  ∀ gone, Owed s.said gone → ¬ s.state.PushesOut author hash gone

namespace Covered

variable {s s' : Session}

theorem of_same (h : Covered s) (hsaid : s'.said = s.said) (hbooks : SameOffers s.state s'.state) :
    Covered s' := by
  refine ⟨hbooks.table h.table, fun hash howed => ?_⟩
  rw [hsaid] at howed
  exact hbooks.has_whole.mpr (h.whole hash howed)

/-- What is said may add a claim on a blob that is complete. -/
theorem say (h : Covered s) (hbooks : SameOffers s.state s'.state) {body : MessageBodyV1}
    (hclaims : ∀ hash, body.claims hash → s.state.has_whole hash)
    (hsaid : s'.said = s.said ∨ ∃ (m : VerifiedMessage) (id : FixedBytes 16),
      m.Tells s.self_id body id ∧ s'.said = s.said ++ [m]) : Covered s' := by
  rcases hsaid with hsame | ⟨m, id, htells, hpush⟩
  · exact h.of_same hsame hbooks
  · refine ⟨hbooks.table h.table, fun hash howed => hbooks.has_whole.mpr ?_⟩
    rw [hpush, owed_push] at howed
    rcases howed with hclaim | ⟨hold, -⟩
    · exact hclaims hash ((htells.claims_iff hash).mp hclaim)
    · exact h.whole hash hold

theorem broadcast (hw : Crypto.Works) (h : Covered s) (body : MessageBodyV1)
    (hclaims : ∀ hash, body.claims hash → s.state.has_whole hash) (draw : Draw) :
    Covered (s.broadcast body draw).2 := by
  refine h.say (broadcast_books s body draw).same_offers hclaims ?_
  rcases said_broadcast hw s body draw with hsame | ⟨m, htells, hpush⟩
  · exact .inl hsame
  · exact .inr ⟨m, draw.id, htells, hpush⟩

theorem announce (hw : Crypto.Works) (h : Covered s) {hash : BlobHash}
    (hwhole : s.state.has_whole hash) (ms : UInt64) (draw : Draw) :
    Covered (s.announce hash .Available ms draw).2 := by
  refine h.broadcast hw _ (fun other hclaim => ?_) draw
  rw [← hclaim.1]
  exact hwhole

theorem withdraw (hw : Crypto.Works) (h : Covered s) (hash : BlobHash) (ms : UInt64) (draw : Draw) :
    Covered (s.announce hash .Withdrawing ms draw).2 :=
  h.broadcast hw _ (fun _ hclaim => by cases hclaim.2) draw

/-- A status other than complete is set on nothing that is owed. -/
theorem set_status (h : Covered s) {hash : BlobHash} {status : LocalBlobStatus}
    (hstatus : Owed s.said hash → status = .Complete) : Covered (s.set_status hash status) := by
  refine ⟨DropState.set_local_status_kept h.table hash status, fun other howed => ?_⟩
  refine DropState.set_local_status_whole (h.whole other howed) ?_
  rintro rfl
  exact hstatus howed

/-- An offer that goes into the table pushes out nothing that is owed. -/
theorem record (h : Covered s) (hsaid : s'.said = s.said) {state : DropState}
    (hbooks : SameOffers s.state state) {author : EndpointId} {offer : OfferV1} {now : Instant}
    (hspares : s.Spares author offer.blob_hash)
    (hstate : s'.state = (state.record_offer_inner author offer now).2) : Covered s' := by
  have hk := hbooks.table h.table
  refine ⟨hstate ▸ DropState.record_offer_inner_kept hk author offer now, fun gone howed => ?_⟩
  rw [hsaid] at howed
  rw [hstate]
  refine DropState.record_offer_inner_whole hk (hbooks.has_whole.mpr (h.whole gone howed)) ?_ now
  exact fun hpushed => hspares gone howed (hbooks.pushesOut.mp hpushed)

end Covered

theorem Session.Spares.of_same {s s' : Session} {author : EndpointId} {hash : BlobHash}
    (h : s.Spares author hash) (hsaid : s'.said = s.said)
    (hbooks : SameOffers s.state s'.state) : s'.Spares author hash := by
  intro gone howed hpushed
  rw [hsaid] at howed
  exact h gone howed (hbooks.pushesOut.mp hpushed)

/-! ## Blobs of one's own -/

/-- A blob that is marked as complete finds a place in the table before it is
announced, and pushes out nothing that is owed. -/
def Session.MarkKeeps (s : Session) (hash : BlobHash) (known_size : Option UInt64)
    (world : CompleteWorld) : Prop :=
  ∀ size, s.confirmed_size hash known_size = .ok size →
    s.Spares s.state.self_endpoint_id hash ∧
      (world.tag_set = .ok () → s.state.takes s.state.self_endpoint_id hash)

/-- An import that comes to record its offer finds a place for it, and pushes
out nothing that is owed. -/
def Session.ImportKeeps (s : Session) (i : Import) : Prop :=
  i.world.tag_set = .ok () → s.state.takes s.self_id i.hash ∧ s.Spares s.self_id i.hash

namespace Covered

variable {s : Session}

/-- The offer of a blob that this peer has goes into the table, if there is a
place for it. -/
theorem record_offer (h : Covered s) {author : EndpointId} (offer : OfferV1)
    (hspares : s.Spares author offer.blob_hash) (now : Instant) :
    Covered { s with state := ((s.state.record_offer author offer now).2.set_local_status
      offer.blob_hash .Complete) } ∧
    (s.state.takes author offer.blob_hash →
      ((s.state.record_offer author offer now).2.set_local_status offer.blob_hash
        .Complete).has_whole offer.blob_hash) := by
  have hbooks : SameOffers s.state (s.state.note_peer author) :=
    perform_same_offers s.state (.note_peer author) trivial
  have hrecorded : Covered { s with state := (s.state.record_offer author offer now).2 } :=
    h.record rfl hbooks hspares rfl
  refine ⟨hrecorded.set_status (fun _ => rfl), fun htakes => ?_⟩
  exact DropState.set_complete_whole (DropState.record_offer_inner_mem (hbooks.table h.table)
    (hbooks.takes.mpr htakes) now)

theorem finish_import (hw : Crypto.Works) (h : Covered s) {i : Import} (hkeeps : s.ImportKeeps i) :
    Covered (i.finish s).2 := by
  unfold Import.finish Session.finish_import_with
  rcases htag : i.world.tag_set with e | _
  · exact h
  · obtain ⟨htakes, hspares⟩ := hkeeps htag
    obtain ⟨hrecorded, hwhole⟩ := h.record_offer i.offer hspares i.world.now
    dsimp only
    generalize hs : { s with state := ((s.state.record_offer s.self_id (Session.import_offer i.hash
      i.name i.size i.media_type i.metadata i.world) i.world.now).2.set_local_status i.hash
        .Complete) } = s₁
    have hcovered : Covered s₁ := hs ▸ hrecorded
    have hwhole₁ : s₁.state.has_whole i.hash := hs ▸ hwhole htakes
    have hoffered := hcovered.broadcast hw (.Offer i.offer)
      (fun hash hclaim => by rw [← show i.hash = hash from hclaim]; exact hwhole₁)
      i.world.offer_draw
    have hbooks := (broadcast_books s₁ (.Offer i.offer) i.world.offer_draw).same_offers
    change Covered (s₁.broadcast (.Offer (Session.import_offer i.hash i.name i.size i.media_type
      i.metadata i.world)) i.world.offer_draw).2 at hoffered
    change SameOffers _ (s₁.broadcast (.Offer (Session.import_offer i.hash i.name i.size
      i.media_type i.metadata i.world)) i.world.offer_draw).2.state at hbooks
    rcases hb : s₁.broadcast (.Offer (Session.import_offer i.hash i.name i.size i.media_type
      i.metadata i.world)) i.world.offer_draw with ⟨_ | _, s₂⟩ <;> rw [hb] at hoffered hbooks
    · exact hoffered
    · have hannounced := hoffered.announce hw (hbooks.has_whole.mpr hwhole₁)
        i.world.announced_at_ms i.world.provider_draw
      dsimp only at hannounced ⊢
      rcases ha : s₂.announce i.hash .Available i.world.announced_at_ms i.world.provider_draw
        with ⟨_ | _, s₃⟩ <;> rw [ha] at hannounced <;> exact hannounced

theorem of_comes (hw : Crypto.Works) (h : Covered s) {came : Option Import}
    {result : Except SdkError Session.PublishedBlob × Session} (hcomes : Comes s came result)
    (hkeeps : ∀ i, came = some i → s.ImportKeeps i) : Covered result.2 := by
  cases hcomes with
  | failed e s' same => exact h.of_same (said_same same.config same.sent) (same.state ▸ .refl _)
  | finished i s' same =>
    have hsaid := said_same same.config same.sent
    have hbooks : SameOffers s.state s'.state := same.state ▸ .refl _
    have hself : s'.self_id = s.self_id :=
      congrArg (fun config : SessionConfig => config.secret.public) same.config
    refine (h.of_same hsaid hbooks).finish_import hw (i := i) fun htag => ?_
    obtain ⟨htakes, hspares⟩ := hkeeps i rfl htag
    rw [hself]
    exact ⟨hbooks.takes.mpr htakes, hspares.of_same hsaid hbooks⟩

/-- The record of a blob that this peer has found complete. -/
theorem note_complete (h : Covered s) {hash : BlobHash}
    (hspares : s.Spares s.state.self_endpoint_id hash) (size : UInt64) (now : Instant) :
    Covered { s with state := s.note_complete hash size now } ∧
      (s.state.takes s.state.self_endpoint_id hash →
        (s.note_complete hash size now).has_whole hash) := by
  have hbooks : SameOffers s.state (s.state.perform (.add_provider hash)) :=
    perform_same_offers s.state _ trivial
  have hadded : Covered { s with state := s.state.perform (.add_provider hash) } :=
    h.of_same rfl hbooks
  unfold Session.note_complete
  dsimp only
  split
  · rename_i hmem
    exact ⟨hadded.set_status (fun _ => rfl), fun _ => DropState.set_complete_whole hmem⟩
  · obtain ⟨hrecorded, hwhole⟩ := hadded.record_offer
      { blob_hash := hash, name := hash.to_hex, size, media_type := none, created_at_ms := none
        metadata := ∅ } (hspares.of_same rfl hbooks) now
    exact ⟨hrecorded, fun htakes => hwhole (hbooks.takes.mpr htakes)⟩

/-- Whatever becomes of the announcement, it is of a blob that is complete. -/
theorem mark_complete (hw : Crypto.Works) (h : Covered s) {hash : BlobHash}
    {known_size : Option UInt64} {world : CompleteWorld}
    (hkeeps : s.MarkKeeps hash known_size world) :
    Covered (s.mark_complete hash known_size world).2 ∧
      ((s.mark_complete hash known_size world).1.isOk = true →
        (s.mark_complete hash known_size world).2.state.has_whole hash) := by
  unfold Session.mark_complete
  rcases hsize : s.confirmed_size hash known_size with e | size
  · exact ⟨h, fun hok => by cases hok⟩
  · obtain ⟨hspares, htakes⟩ := hkeeps size hsize
    obtain ⟨hnoted, hwhole⟩ := h.note_complete hspares size world.now
    dsimp only
    generalize hs : { s with state := s.note_complete hash size world.now } = s₁
    have hcovered : Covered s₁ := hs ▸ hnoted
    rcases htag : world.tag_set with e | _
    · exact ⟨hcovered, fun hok => by cases hok⟩
    · have hwhole₁ : s₁.state.has_whole hash := hs ▸ hwhole (htakes htag)
      have hannounced := hcovered.announce hw hwhole₁ world.announced_at_ms world.draw
      have hbooks := (broadcast_books s₁ (.Provider ⟨hash, .Available, some world.announced_at_ms⟩)
        world.draw).same_offers
      change SameOffers _ (s₁.announce hash .Available world.announced_at_ms world.draw).2.state
        at hbooks
      dsimp only
      rcases ha : s₁.announce hash .Available world.announced_at_ms world.draw with ⟨_ | _, s₂⟩ <;>
        rw [ha] at hannounced hbooks
      · exact ⟨hannounced, fun hok => by cases hok⟩
      · exact ⟨hannounced, fun _ => hbooks.has_whole.mpr hwhole₁⟩

theorem reannounce (hw : Crypto.Works) (h : Covered s) {hash : BlobHash} {world : CompleteWorld}
    (hkeeps : s.MarkKeeps hash none world) (ms : UInt64) (draw : Draw) :
    Covered (s.reannounce hash world ms draw).2 := by
  obtain ⟨hmarked, hwhole⟩ := h.mark_complete hw hkeeps
  unfold Session.reannounce
  rcases hm : s.mark_complete hash none world with ⟨_ | _, s₁⟩ <;> rw [hm] at hmarked hwhole
  · exact hmarked
  · exact hmarked.announce hw (hwhole rfl) ms draw

theorem announce_withdrawal (hw : Crypto.Works) (h : Covered s) (ms : BlobHash → UInt64)
    (draws : BlobHash → Draw) : Covered (s.announce_withdrawal ms draws) := by
  unfold Session.announce_withdrawal
  generalize s.complete_hashes = hashes
  induction hashes generalizing s with
  | nil => exact h
  | cons hash hashes ih => exact ih (h.withdraw hw hash (ms hash) (draws hash))

end Covered

/-! ## Fetches -/

namespace Session

/-- A fetch that marks its blob as complete goes on to its end, or it has not
announced the blob and nothing is owed for it. -/
structure FinishKeeps (s : Session) (hash : BlobHash) (known_size : Option UInt64)
    (world : FetchWorld) : Prop where
  mark : s.MarkKeeps hash known_size world.complete
  unmarked : world.complete.tag_set ≠ .ok () → ¬ Owed s.said hash
  finishes : world.complete.tag_set = .ok () →
    world.complete.draw.carried = .ok () ∧ world.exported = .ok ()

/-- The event takes no blob out of its status of complete for which a
withdrawal is owed. -/
def FetchKeeps (s : Session) (task : FetchTask) : FetchEvent → Prop
  | .run world =>
    match task.stage with
    | .start => s.holds task.hash = true → s.FinishKeeps task.hash none world
    | .round _ =>
      s.known_remote_providers task.hash ≠ [] ∨
          (s.request task.hash world.draw).1.isOk = false →
        ¬ Owed s.said task.hash
    | .verify =>
      match task.last_error, s.store task.hash with
      | none, .Complete size => s.FinishKeeps task.hash (some size) world
      | _, _ => ¬ Owed s.said task.hash
    | _ => True
  | .poll _ =>
    match task.stage with
    | .asking _ => s.known_remote_providers task.hash ≠ [] → ¬ Owed s.said task.hash
    | _ => True
  | .stream_failed _ world =>
    match task.stage with
    | .downloading _ _ =>
      (s.request task.hash world.draw).1.isOk = false → ¬ Owed s.said task.hash
    | _ => True
  | .item (.Progress _) =>
    match task.stage with
    | .downloading _ _ => ¬ Owed s.said task.hash
    | _ => True
  | .ended world =>
    match task.stage with
    | .downloading _ (.error _) =>
      (s.request task.hash world.draw).1.isOk = false → ¬ Owed s.said task.hash
    | _ => True
  | _ => True

end Session

theorem not_owed_broadcast (hw : Crypto.Works) {s : Session} (body : MessageBodyV1)
    {hash : BlobHash} (hclaims : ¬ body.claims hash) (h : ¬ Owed s.said hash) (draw : Draw) :
    ¬ Owed (s.broadcast body draw).2.said hash := by
  rcases said_broadcast hw s body draw with hsame | ⟨m, htells, hpush⟩
  · rw [hsame]
    exact h
  · rw [hpush, owed_push, htells.claims_iff]
    rintro (hclaim | ⟨howed, -⟩)
    · exact hclaims hclaim
    · exact h howed

theorem announce_ok (hw : Crypto.Works) {s : Session} (hs : ¬ s.blind) {draw : Draw}
    (hcarried : draw.carried = .ok ()) (hash : BlobHash) (state : ProviderState) (ms : UInt64) :
    (s.announce hash state ms draw).1 = .ok () := by
  obtain ⟨frame, henc⟩ := encodes_provider hw hs ⟨hash, state, some ms⟩ draw.id draw.sent_at_ms
    draw.nonce
  unfold Session.announce Session.broadcast Session.broadcast_signed
  rw [henc]
  exact hcarried

theorem mark_complete_tagged {s s' : Session} {hash : BlobHash} {known_size : Option UInt64}
    {world : CompleteWorld} {size : UInt64}
    (h : s.mark_complete hash known_size world = (.ok size, s')) : world.tag_set = .ok () := by
  unfold Session.mark_complete at h
  rcases hsize : s.confirmed_size hash known_size with e | confirmed
  · rw [hsize] at h
    cases h
  · rw [hsize] at h
    dsimp only at h
    rcases htag : world.tag_set with e | _
    · rw [htag] at h
      cases h
    · rfl

/-- A blob that is marked as complete and not announced owes nothing new. -/
theorem not_owed_mark_complete (hw : Crypto.Works) {s s' : Session} {hash : BlobHash}
    {known_size : Option UInt64} {world : FetchWorld} {e : DropError}
    (hkeeps : s.FinishKeeps hash known_size world)
    (hsize : (s.confirmed_size hash known_size).isOk = true)
    (h : s.mark_complete hash known_size world.complete = (.error e, s')) :
    ¬ Owed s'.said hash := by
  unfold Session.mark_complete at h
  rcases hconfirmed : s.confirmed_size hash known_size with e' | size
  · rw [hconfirmed] at hsize
    cases hsize
  rw [hconfirmed] at h
  dsimp only at h
  rcases htag : world.complete.tag_set with e' | _
  · rw [htag] at h
    cases h
    exact hkeeps.unmarked (by rw [htag]; simp)
  · rw [htag] at h
    dsimp only at h
    generalize hs : { s with state := s.note_complete hash size world.complete.now } = s₁ at h
    obtain ⟨hcarried, -⟩ := hkeeps.finishes htag
    have hblind : s₁.blind := by
      -- A session that may speak would have announced the blob.
      by_contra hspeaks
      have hok := announce_ok hw hspeaks hcarried hash .Available world.complete.announced_at_ms
      rcases ha : s₁.announce hash .Available world.complete.announced_at_ms world.complete.draw
        with ⟨_ | _, s₂⟩ <;> rw [ha] at h hok
      · cases hok
      · cases h
    have hsaid := s₁.says_announce hash .Available world.complete.announced_at_ms
      world.complete.draw
    rcases ha : s₁.announce hash .Available world.complete.announced_at_ms world.complete.draw
      with ⟨_ | _, s₂⟩ <;> rw [ha] at h hsaid <;> cases h
    have hconfig : s'.toSessionConfig = s₁.toSessionConfig := (Speaks.of_spoken hsaid).config
    refine not_owed_blind ⟨?_, ?_⟩ hash
    · exact (congrArg SessionConfig.mode hconfig).trans hblind.1
    · exact (congrArg SessionConfig.drop_key hconfig).trans hblind.2

namespace Covered

variable {s : Session} {task : FetchTask}

theorem finish_fetch (h : Covered s) {result : Except DropError Unit}
    (hresult : result.isOk = false → ¬ Owed s.said task.hash) :
    Covered (s.finish_fetch task result).2 := by
  rcases result with e | _
  · have hfailed : Covered (s.set_status task.hash (.Failed true e.text)) :=
      h.set_status (fun howed => absurd howed (hresult rfl))
    unfold Session.finish_fetch
    rcases task.auto with _ | size
    · exact hfailed.of_same rfl (.refl _)
    · exact hfailed.of_same rfl (.refl _)
  · unfold Session.finish_fetch
    rcases task.auto with _ | size
    · exact h
    · exact h.of_same rfl (.refl _)

theorem begin_download (h : Covered s) (howed : ¬ Owed s.said task.hash) (attempt : Nat) :
    Covered (s.begin_download task attempt).2 :=
  h.set_status (fun ho => absurd ho howed)

theorem request (hw : Crypto.Works) (h : Covered s) (hash : BlobHash) (draw : Draw) :
    Covered (s.request hash draw).2 :=
  h.broadcast hw (.Request ⟨hash⟩) (fun _ hclaim => False.elim hclaim) draw

theorem finish_local (hw : Crypto.Works) (h : Covered s) {world : FetchWorld}
    (hsize : (s.confirmed_size task.hash none).isOk = true)
    (hkeeps : s.FinishKeeps task.hash none world) : Covered (s.finish_local task world).2 := by
  obtain ⟨hmarked, -⟩ := h.mark_complete hw hkeeps.mark
  unfold Session.finish_local
  rcases hm : s.mark_complete task.hash none world.complete with ⟨_ | _, s₁⟩ <;> rw [hm] at hmarked
  · exact hmarked.finish_fetch (fun _ => not_owed_mark_complete hw hkeeps hsize hm)
  · obtain ⟨-, hexported⟩ := hkeeps.finishes (mark_complete_tagged hm)
    refine hmarked.finish_fetch (fun hfailed => ?_)
    rw [hexported] at hfailed
    cases hfailed

/-- A request that does not go out ends the fetch, and is no claim. -/
theorem run_round (hw : Crypto.Works) (h : Covered s) {world : FetchWorld} (attempt : Nat)
    (hkeeps : s.known_remote_providers task.hash ≠ [] ∨
      (s.request task.hash world.draw).1.isOk = false → ¬ Owed s.said task.hash) :
    Covered (s.run_round task attempt world).2 := by
  unfold Session.run_round
  split
  · rename_i hproviders
    exact h.begin_download (hkeeps (.inl hproviders)) attempt
  · have hasked := h.request hw task.hash world.draw
    have hnone : ¬ Owed s.said task.hash → ¬ Owed (s.request task.hash world.draw).2.said task.hash :=
      fun howed => not_owed_broadcast hw (.Request ⟨task.hash⟩) (fun hc => hc) howed world.draw
    rcases hr : s.request task.hash world.draw with ⟨e | _, s₁⟩ <;> rw [hr] at hasked hnone hkeeps
    · exact hasked.finish_fetch (fun _ => hnone (hkeeps (.inr rfl)))
    · exact hasked

theorem fail_attempt (hw : Crypto.Works) (h : Covered s) {world : FetchWorld} (attempt : Nat)
    (error : DropError)
    (hkeeps : (s.request task.hash world.draw).1.isOk = false → ¬ Owed s.said task.hash) :
    Covered (s.fail_attempt task attempt error world).2 := by
  have hasked := h.request hw task.hash world.draw
  have hnone : ¬ Owed s.said task.hash → ¬ Owed (s.request task.hash world.draw).2.said task.hash :=
    fun howed => not_owed_broadcast hw (.Request ⟨task.hash⟩) (fun hc => hc) howed world.draw
  unfold Session.fail_attempt
  dsimp only
  rcases hr : s.request task.hash world.draw with ⟨e | _, s₁⟩ <;> rw [hr] at hasked hnone hkeeps
  · exact hasked.finish_fetch (fun _ => hnone (hkeeps rfl))
  · exact hasked

theorem run_verify (hw : Crypto.Works) (h : Covered s) {world : FetchWorld}
    (hkeeps : match task.last_error, s.store task.hash with
      | none, .Complete size => s.FinishKeeps task.hash (some size) world
      | _, _ => ¬ Owed s.said task.hash) :
    Covered (s.run_verify task world).2 := by
  unfold Session.run_verify
  rcases he : task.last_error with _ | e <;> rw [he] at hkeeps
  · rcases hstore : s.store task.hash with _ | _ | size <;> rw [hstore] at hkeeps
    · exact h.finish_fetch (fun _ => hkeeps)
    · exact h.finish_fetch (fun _ => hkeeps)
    · have hsaid : (s.credit_provider task).said = s.said := by
        unfold Session.credit_provider
        split <;> rfl
      have hbooks : SameOffers s.state (s.credit_provider task).state := by
        unfold Session.credit_provider
        split <;> exact ⟨rfl, rfl, rfl⟩
      have hself : (s.credit_provider task).state.self_endpoint_id = s.state.self_endpoint_id := by
        unfold Session.credit_provider
        split <;> rfl
      have hcredited : (s.credit_provider task).FinishKeeps task.hash (some size) world := by
        obtain ⟨hmark, hunmarked, hfinishes⟩ := hkeeps
        refine ⟨fun size' hsize => ?_, fun htag => ?_, hfinishes⟩
        · obtain ⟨hspares, htakes⟩ := hmark size rfl
          rw [hself]
          exact ⟨hspares.of_same hsaid hbooks, fun htag => hbooks.takes.mpr (htakes htag)⟩
        · rw [hsaid]
          exact hunmarked htag
      obtain ⟨hmarked, -⟩ := (h.of_same hsaid hbooks).mark_complete hw hcredited.mark
      dsimp only
      rcases hm : (s.credit_provider task).mark_complete task.hash (some size) world.complete
        with ⟨_ | _, s₁⟩ <;> rw [hm] at hmarked
      · exact hmarked.finish_fetch (fun _ => not_owed_mark_complete hw hcredited rfl hm)
      · obtain ⟨-, hexported⟩ := hcredited.finishes (mark_complete_tagged hm)
        rw [hexported]
        have hshown (event : DropEvent) : Covered (s₁.emit event) := hmarked.of_same rfl (.refl _)
        exact (hshown _).finish_fetch (fun hf => by cases hf)
  · exact h.finish_fetch (fun _ => hkeeps)

/-- A stretch of a fetch keeps the promises that it has to keep. -/
theorem fetch_step (hw : Crypto.Works) (h : Covered s) {event : FetchEvent}
    (hkeeps : s.FetchKeeps task event) : Covered (s.fetch_step task event).2 := by
  cases event with
  | run world =>
    unfold Session.FetchKeeps at hkeeps
    unfold Session.fetch_step
    rcases hstage : task.stage with _ | attempt | attempt | ⟨attempt, outcome⟩ | attempt | _ | r <;>
      rw [hstage] at hkeeps
    case start =>
      dsimp only at hkeeps ⊢
      split
      · rename_i hholds
        refine h.finish_local hw ?_ (hkeeps hholds)
        unfold Session.holds at hholds
        unfold Session.confirmed_size
        rcases hstore : s.store task.hash with _ | _ | size <;> rw [hstore] at hholds
        · cases hholds
        · cases hholds
        · rfl
      · exact h
    case round => exact h.run_round hw attempt hkeeps
    case verify => exact h.run_verify hw hkeeps
    all_goals exact h
  | poll timed_out =>
    unfold Session.FetchKeeps at hkeeps
    unfold Session.fetch_step
    rcases hstage : task.stage with _ | attempt | attempt | ⟨attempt, outcome⟩ | attempt | _ | r <;>
      rw [hstage] at hkeeps
    case asking =>
      dsimp only
      unfold Session.poll_asking
      split
      · rename_i hproviders
        exact h.begin_download (hkeeps hproviders) attempt
      · split <;> exact h
    case reasking =>
      dsimp only
      unfold Session.poll_reasking
      split <;> exact h
    all_goals exact h
  | stream_failed reason world =>
    unfold Session.FetchKeeps at hkeeps
    unfold Session.fetch_step
    rcases hstage : task.stage with _ | attempt | attempt | ⟨attempt, outcome⟩ | attempt | _ | r <;>
      rw [hstage] at hkeeps
    case downloading => exact h.fail_attempt hw attempt _ hkeeps
    all_goals exact h
  | item item =>
    unfold Session.fetch_step
    rcases hstage : task.stage with _ | attempt | attempt | ⟨attempt, outcome⟩ | attempt | _ | r
    case downloading =>
      cases item with
      | Progress downloaded =>
        unfold Session.FetchKeeps at hkeeps
        rw [hstage] at hkeeps
        have hprogress : Covered (s.set_status task.hash (.Fetching downloaded task.total)) :=
          h.set_status fun howed => absurd howed hkeeps
        exact hprogress.of_same rfl (.refl _)
      | TryProvider id => exact h.of_same rfl (.refl _)
      | ProviderFailed id now => exact h.of_same rfl ⟨rfl, rfl, rfl⟩
      | PartComplete => exact h
      | DownloadError => exact h
      | Error reason => exact h
    all_goals exact h
  | store_write bytes status =>
    unfold Session.fetch_step
    dsimp only
    split
    · exact h.of_same rfl (.refl _)
    · exact h
  | ended world =>
    unfold Session.FetchKeeps at hkeeps
    unfold Session.fetch_step
    rcases hstage : task.stage with _ | attempt | attempt | ⟨attempt, outcome⟩ | attempt | _ | r <;>
      rw [hstage] at hkeeps
    case downloading =>
      rcases outcome with e | _
      · exact h.fail_attempt hw attempt e hkeeps
      · exact h
    all_goals exact h

theorem fetch_event (hw : Crypto.Works) (h : Covered s) {j : Nat} {event : FetchEvent}
    (hkeeps : ∀ task, s.fetches[j]? = some task → s.FetchKeeps task event) :
    Covered (s.fetch_event j event) := by
  unfold Session.fetch_event
  rcases htask : s.fetches[j]? with _ | task
  · exact h
  · exact (h.fetch_step hw (hkeeps task htask)).of_same rfl (.refl _)

end Covered

/-! ## Intake -/

namespace Session

/-- A new offer that is let in pushes out nothing that is owed, and a request
is answered in a public drop only for a blob that is listed as complete. -/
def MessageKeeps (s : Session) (verified : VerifiedMessage) (peer : EndpointId) (frame : Bytes)
    (now : Instant) : Prop :=
  match verified.body with
  | some (.Offer offer) =>
    ¬ (s.taken verified peer frame now).rejects verified.author offer peer →
      s.Spares verified.author offer.blob_hash
  | some (.Request request) =>
    s.mode = .Public → s.AnswersRequest request.blob_hash peer now →
      s.state.has_whole request.blob_hash
  | _ => True

/-- So it is for a frame that comes in. -/
def IntakeKeeps (s : Session) (frame : Bytes) (peer : EndpointId) (now : Instant) : Prop :=
  ∀ verified, Session.decode_for_session s.toSessionConfig frame = .ok verified →
    s.admits peer now = true → s.state.is_fresh verified.key now = true →
      s.MessageKeeps verified peer frame now

/-- So it is for an offer of restored history. -/
def RestoreKeeps (s : Session) (frame : Bytes × Instant) : Prop :=
  ∀ verified offer, MessageV1.decode frame.1 s.topic_id = .ok verified →
    s.state.is_fresh verified.key frame.2 = true →
    verified.message.body.decode = .ok (some (.Offer offer)) →
      s.Spares verified.author offer.blob_hash

end Session

namespace Covered

variable {s : Session}

theorem answer (hw : Crypto.Works) (h : Covered s) {hash : BlobHash}
    (hkeeps : s.mode = .Public → s.state.has_whole hash) (world : IntakeWorld) :
    Covered (s.reply_available hash world) := by
  have hbooks : SameOffers s.state (s.reply_available hash world).state := by
    unfold Session.reply_available
    dsimp only
    split <;> exact .refl _
  rcases said_reply hw s hash world with hsame | ⟨hpublic, m, htells, hpush⟩
  · exact h.of_same hsame hbooks
  · refine h.say hbooks (fun other hclaim => ?_) (.inr ⟨m, _, htells, hpush⟩)
    rw [← hclaim.1]
    exact hkeeps hpublic

theorem dispatch (hw : Crypto.Works) (h : Covered s) {verified : VerifiedMessage}
    {peer : EndpointId} {world : IntakeWorld}
    (hkeeps : match verified.body with
      | some (.Offer offer) => ¬ s.rejects verified.author offer peer →
          s.Spares verified.author offer.blob_hash
      | some (.Request request) => s.mode = .Public →
          s.AnswersRequest request.blob_hash peer world.draw.now →
            s.state.has_whole request.blob_hash
      | _ => True) : Covered (s.dispatch verified peer world) := by
  have hstate := s.dispatch_state verified peer world
  have hdispatched := s.dispatched verified peer world
  generalize s.dispatch verified peer world = s' at hstate hdispatched ⊢
  unfold Session.dispatch_ops at hstate
  -- All but the answer to a request says nothing.
  have hsaid : s'.said = s.said ∨ ∃ (s₁ : Session) (request : RequestV1), s₁.said = s.said ∧
      s₁.mode = s.mode ∧ verified.body = some (.Request request) ∧
      s.AnswersRequest request.blob_hash peer world.draw.now ∧
      s' = s₁.reply_available request.blob_hash world := by
    cases hdispatched with
    | quietly quiet silent => exact .inl (said_same quiet.config quiet.sent)
    | @reserves s₁ offer quiet body auto check => exact .inl (said_same quiet.config quiet.sent)
    | @answers s₁ request quiet body wanted =>
      exact .inr ⟨s₁, request, said_same quiet.config quiet.sent,
        congrArg SessionConfig.mode quiet.config, body, wanted, rfl⟩
  rcases hsaid with hsaid | ⟨s₁, request, hsaid, hmode, hbody, hwanted, rfl⟩
  · have hquiet : ∀ ops : List DropState.Op, s'.state = ops.foldl DropState.perform s.state →
        (∀ op ∈ ops, op.spares_offers) → Covered s' := by
      intro ops hops hspares
      refine h.of_same hsaid ?_
      rw [hops]
      exact foldl_same_offers s.state _ hspares
    rcases hbody : verified.body with _ | (offer | provider | request | ext) <;>
      rw [hbody] at hstate hkeeps <;> dsimp only at hstate hkeeps
    case some.Offer =>
      by_cases hrejects : s.rejects verified.author offer peer
      · rw [if_pos hrejects] at hstate
        exact hquiet [] hstate (by simp)
      · have hbooks : SameOffers s.state (s.state.note_peer verified.author) :=
          perform_same_offers s.state (.note_peer verified.author) trivial
        rw [if_neg hrejects] at hstate
        exact h.record hsaid hbooks (hkeeps hrejects) hstate
    case some.Provider => exact hquiet _ hstate (by simp [DropState.Op.spares_offers])
    all_goals exact hquiet [] hstate (by simp)
  · have hstate₁ : s₁.state = s.state := by
      have hreply : (s₁.reply_available request.blob_hash world).state = s₁.state := by
        unfold Session.reply_available
        dsimp only
        split <;> rfl
      rw [hbody] at hstate
      exact hreply.symm.trans hstate
    have hcovered : Covered s₁ := h.of_same hsaid (hstate₁ ▸ .refl _)
    rw [hbody] at hkeeps
    refine hcovered.answer hw (fun hpublic => ?_) world
    rw [hstate₁]
    exact hkeeps (hmode ▸ hpublic) hwanted

theorem handle_message (hw : Crypto.Works) (h : Covered s) {verified : VerifiedMessage}
    {frame : Bytes} {peer : EndpointId} {world : IntakeWorld}
    (hkeeps : s.admits peer world.draw.now = true →
      s.state.is_fresh verified.key world.draw.now = true →
        s.MessageKeeps verified peer frame world.draw.now) :
    Covered (s.handle_message verified peer frame world) := by
  have hstate := s.handle_message_state verified peer frame world
  unfold Session.message_ops at hstate
  rcases ha : s.admits peer world.draw.now with _ | _
  · have hquiet := s.handle_message_limited ha verified frame
    rw [ha, if_pos Bool.false_ne_true] at hstate
    refine h.of_same (said_same hquiet.config hquiet.sent) ?_
    rw [hstate]
    exact .refl _
  · rcases hf : s.state.is_fresh verified.key world.draw.now with _ | _
    · rw [ha, hf, if_neg (by simp), if_pos Bool.false_ne_true] at hstate
      obtain ⟨s₁, heq, hconfig, hsent, -⟩ := s.handle_message_known ha hf frame
      rw [heq] at hstate ⊢
      refine h.of_same (said_same hconfig hsent) ?_
      rw [hstate]
      exact foldl_same_offers s.state _ (by simp [DropState.Op.spares_offers])
    · rw [s.handle_message_fresh ha hf]
      have hbooks : SameOffers s.state (s.taken verified peer frame world.draw.now).state :=
        foldl_same_offers s.state [.note_peer peer, .check_and_insert verified.key world.draw.now,
          .retain (Session.retainable verified.body) frame] (by simp [DropState.Op.spares_offers])
      have hsaid : (s.taken verified peer frame world.draw.now).said = s.said := said_same rfl rfl
      have hmessage := hkeeps ha hf
      unfold Session.MessageKeeps at hmessage
      refine (h.of_same hsaid hbooks).dispatch hw ?_
      rcases hbody : verified.body with _ | (offer | provider | request | ext) <;>
        rw [hbody] at hmessage
      case some.Offer => exact fun hrejects => (hmessage hrejects).of_same hsaid hbooks
      case some.Request =>
        exact fun hpublic hwanted => hbooks.has_whole.mpr (hmessage hpublic hwanted)
      all_goals trivial

theorem replay (hw : Crypto.Works) (h : Covered s) {frame : Bytes} {peer : EndpointId}
    {world : IntakeWorld} (hkeeps : s.IntakeKeeps frame peer world.draw.now) :
    Covered (s.replay frame peer world) := by
  unfold Session.replay
  rcases hd : Session.decode_for_session s.toSessionConfig frame with e | verified
  · exact h
  · exact h.handle_message hw (hkeeps verified hd)

theorem receive (hw : Crypto.Works) (h : Covered s) {frame : Bytes} {peer : EndpointId}
    {world : IntakeWorld} (hkeeps : s.IntakeKeeps frame peer world.draw.now) :
    Covered (s.receive frame peer world) := by
  unfold Session.receive
  rcases hd : Session.decode_for_session s.toSessionConfig frame with e | verified
  · exact h.of_same rfl (.refl _)
  · exact h.handle_message hw (hkeeps verified hd)

theorem after_restore (h : Covered s) {frame : Bytes × Instant} (hkeeps : s.RestoreKeeps frame) :
    Covered (s.after_restore frame) := by
  have hstate := s.restore_frame_state frame.1 frame.2
  have hrestored := s.restored frame.1 frame.2
  change Covered (s.restore_frame frame.1 frame.2).2
  generalize (s.restore_frame frame.1 frame.2).2 = s' at hstate hrestored ⊢
  have hsaid : s'.said = s.said := by
    cases hrestored with
    | skipped => rfl
    | noted _ _ config sent _ => exact said_same config sent
    | kept _ _ _ _ config sent _ => exact said_same config sent
  unfold Session.restore_ops at hstate
  have hquiet : ∀ ops : List DropState.Op, s'.state = ops.foldl DropState.perform s.state →
      (∀ op ∈ ops, op.spares_offers) → Covered s' := by
    intro ops hops hspares
    refine h.of_same hsaid ?_
    rw [hops]
    exact foldl_same_offers s.state _ hspares
  rcases hd : MessageV1.decode frame.1 s.topic_id with e | verified <;> rw [hd] at hstate <;>
    dsimp only at hstate
  · exact hquiet [] hstate (by simp)
  · rcases hf : s.state.is_fresh verified.key frame.2 with _ | _
    · rw [hf, if_pos Bool.false_ne_true] at hstate
      exact hquiet _ hstate (by simp [DropState.Op.spares_offers])
    · rw [hf, if_neg (by simp)] at hstate
      rcases hb : verified.message.body.decode with e | _ | (offer | provider | request | ext) <;>
        rw [hb] at hstate <;> dsimp only at hstate
      case ok.some.Offer =>
        have hbooks : SameOffers s.state ((s.state.perform (.check_and_insert verified.key
            frame.2)).perform (.retain .Yes frame.1)) :=
          foldl_same_offers s.state [.check_and_insert verified.key frame.2,
            .retain .Yes frame.1] (by simp [DropState.Op.spares_offers])
        exact h.record hsaid hbooks (hkeeps verified offer hd hf hb) hstate
      all_goals exact hquiet _ hstate (by simp [DropState.Op.spares_offers])

end Covered

/-! ## Runs -/

/-- The step leaves in the table, as complete, whatever the session is taken to
serve. -/
def Session.KeepsPromises (s : Session) : Step → Prop
  | .received frame peer world | .replayed frame peer world =>
    s.IntakeKeeps frame peer world.draw.now
  | .publish_path_as path name world => ∀ i, path_import path name world = some i → s.ImportKeeps i
  | .publish_bytes_with name bytes media_type metadata world =>
    ∀ i, bytes_import name bytes media_type metadata world = some i → s.ImportKeeps i
  | .reannounce hash world _ _ => s.MarkKeeps hash none world
  | .restore_history frames => runs.Meets Session.after_restore Session.RestoreKeeps s frames
  | .fetch_event j event => ∀ task, s.fetches[j]? = some task → s.FetchKeeps task event
  | _ => True

theorem covered_step (hw : Crypto.Works) {s : Session} (h : Covered s) {i : Step}
    (hkeeps : s.KeepsPromises i) : Covered (s.step i) := by
  cases i with
  | received frame peer world => exact h.receive hw hkeeps
  | replayed frame peer world =>
    simp only [Session.step]
    split
    · exact h
    · exact h.replay hw hkeeps
  | neighbor_up peer now =>
    have hquiet := s.quiet_neighbor_up peer now
    refine h.of_same (said_same hquiet.config hquiet.sent) ?_
    simp only [Session.step, Session.neighbor_up_state]
    exact ⟨rfl, rfl, rfl⟩
  | neighbor_down peer => exact h.of_same rfl (.refl _)
  | lagged => exact h.of_same rfl (.refl _)
  | publish_path_as path name world =>
    exact h.of_comes hw (publish_path_as_comes s path name world) hkeeps
  | publish_bytes_with name bytes media_type metadata world =>
    exact h.of_comes hw (publish_bytes_with_comes s name bytes media_type metadata world) hkeeps
  | send_extension «namespace» local_kind schema_version payload draw =>
    simp only [Session.step, Session.send_extension]
    split
    · exact h
    · exact h.broadcast hw (.Extension ⟨«namespace», local_kind, schema_version, payload⟩)
        (fun _ hclaim => False.elim hclaim) draw
  | on_extension «namespace» =>
    have hquiet := s.quiet_on_extension «namespace»
    refine h.of_same (said_same hquiet.config hquiet.sent) ?_
    simp only [Session.step, Session.on_extension_state]
    exact .refl _
  | reannounce hash world ms draw => exact h.reannounce hw hkeeps ms draw
  | announce_withdrawal ms draws => exact h.announce_withdrawal hw ms draws
  | restore_history frames =>
    simp only [Session.step, Session.restore_history_run]
    have hstep : ∀ (s : Session) (frame : Bytes × Instant), Covered s → s.RestoreKeeps frame →
        Covered (s.after_restore frame) := fun _ _ h hkeeps => h.after_restore hkeeps
    exact runs.invariant_of_meets hstep h hkeeps
  | fetch hash => exact h.of_same rfl (.refl _)
  | fetch_event j event => exact h.fetch_event hw hkeeps
  | store_changed hash status => exact h.of_same rfl (.refl _)
  | released => exact h.of_same rfl (.refl _)

end Laws

end iroh_drop
