-- What a publish that failed leaves: nothing, under conditions on the state
-- before.
import IrohDrop.Publishing

open rust_std

namespace iroh_drop

theorem rel_refl {α : Type} {r : α → α → Prop} (h : ∀ a, r a a) (o : Option α) :
    Option.Rel r o o := by
  cases o with
  | none => exact .none
  | some a => exact .some (h a)

section Laws

variable [Crypto]

/-! ## A publish that failed -/

/-- A record that says the same, whatever the order of its aliases. -/
structure OfferRecord.Same (a b : OfferRecord) : Prop where
  offer : b.offer = a.offer
  first_seen_from : b.first_seen_from = a.first_seen_from
  first_seen_at : b.first_seen_at = a.first_seen_at
  aliases : ∀ name, name ∈ b.aliases ↔ name ∈ a.aliases
  local_status : b.local_status = a.local_status

theorem OfferRecord.Same.refl (record : OfferRecord) : record.Same record :=
  ⟨rfl, rfl, rfl, fun _ => Iff.rfl, rfl⟩

/-- The same providers, with what is known of each. -/
structure ProviderSet.Same (a b : ProviderSet) : Prop where
  original : b.original = a.original
  providers : ∀ peer, b.providers.lookup peer = a.providers.lookup peer

theorem ProviderSet.Same.refl (set : ProviderSet) : set.Same set := ⟨rfl, fun _ => rfl⟩

/-- Offers, their queue and their accounts, the providers, the log and the
dedup cache are as they were. -/
structure Untouched (a b : DropState) : Prop where
  offers : ∀ hash, Option.Rel OfferRecord.Same (a.offers.lookup hash) (b.offers.lookup hash)
  offer_order : b.offer_order = a.offer_order
  offers_per_author : ∀ author, b.offers_per_author.lookup author =
    a.offers_per_author.lookup author
  providers : ∀ hash, Option.Rel ProviderSet.Same (a.providers.lookup hash)
    (b.providers.lookup hash)
  sync_log : b.sync_log = a.sync_log
  seen_messages : b.seen_messages = a.seen_messages

theorem Untouched.refl (s : DropState) : Untouched s s :=
  ⟨fun _ => rel_refl OfferRecord.Same.refl _, rfl, fun _ => rfl,
    fun _ => rel_refl ProviderSet.Same.refl _, rfl, rfl⟩

/-- An offer of the author would change nothing here: its account is full and
the hash is unknown, or the hash is the last one that was offered and the
author is known to serve it, under a name that is known or one too many. -/
def DropState.RecordsNothing (s : DropState) (author : EndpointId) (offer : OfferV1) : Prop :=
  (offer.blob_hash ∉ s.offers ∧ ¬ s.author_has_quota author) ∨
    ∃ record set, s.offers.lookup offer.blob_hash = some record ∧
      record.local_status = .Complete ∧
      (offer.name ∈ record.aliases ∨ MAX_ALIASES_PER_OFFER ≤ HashMap.len record.aliases) ∧
      s.offer_order.getLast? = some offer.blob_hash ∧
      s.providers.lookup offer.blob_hash = some set ∧ set.original ≠ none ∧
      author ∈ set.providers

theorem OfferRecord.add_alias_same_iff (record : OfferRecord) (name : String) :
    record.Same { record.add_alias name with local_status := .Complete } ↔
      record.local_status = .Complete ∧
        (name ∈ record.aliases ∨ MAX_ALIASES_PER_OFFER ≤ HashMap.len record.aliases) := by
  unfold add_alias
  by_cases hroom : HashMap.len record.aliases < MAX_ALIASES_PER_OFFER
  · rw [if_pos hroom]
    constructor
    · intro h
      exact ⟨h.local_status.symm, .inl ((h.aliases name).mp (AList.mem_insert _ |>.mpr (.inl rfl)))⟩
    · rintro ⟨hstatus, hname⟩
      have hmem := hname.resolve_right (Nat.not_le.mpr hroom)
      refine ⟨rfl, rfl, rfl, fun other => ?_, hstatus.symm⟩
      rw [AList.mem_insert]
      constructor
      · rintro (rfl | h)
        · exact hmem
        · exact h
      · exact .inr
  · rw [if_neg hroom]
    constructor
    · intro h
      exact ⟨h.local_status.symm, .inr (Nat.le_of_not_lt hroom)⟩
    · rintro ⟨hstatus, -⟩
      exact ⟨rfl, rfl, rfl, fun _ => Iff.rfl, hstatus.symm⟩

theorem ProviderSet.add_same_iff (set : ProviderSet) (author : EndpointId) :
    set.Same (set.add author true) ↔ set.original ≠ none ∧ author ∈ set.providers := by
  unfold add HashMap.update
  constructor
  · intro h
    constructor
    · intro hnone
      have horiginal := h.original
      rw [hnone] at horiginal
      cases horiginal
    · have hlookup := h.providers author
      rw [HashMap.lookup_insert', if_pos rfl] at hlookup
      exact AList.lookup_isSome.mp (Option.isSome_of_eq_some hlookup.symm)
  · rintro ⟨horiginal, hmem⟩
    obtain ⟨first, hfirst⟩ := Option.ne_none_iff_exists'.mp horiginal
    obtain ⟨info, hinfo⟩ := Option.isSome_iff_exists.mp (AList.lookup_isSome.mpr hmem)
    refine ⟨by rw [hfirst]; rfl, fun peer => ?_⟩
    rw [HashMap.lookup_insert']
    split
    · rename_i heq
      rw [heq, hinfo]
      rfl
    · rfl

namespace DropState

variable {s : DropState}

theorem touch_eq_iff (hb : Booked s) (hash : BlobHash) :
    s.offer_order.erase hash ++ [hash] = s.offer_order ↔ s.offer_order.getLast? = some hash := by
  constructor
  · intro h
    rw [← h, List.getLast?_concat]
  · intro h
    obtain ⟨front, horder⟩ := List.getLast?_eq_some_iff.mp h
    have hnodup := hb.nodup
    rw [horder] at hnodup ⊢
    have hnot : hash ∉ front := fun hin =>
      (List.nodup_append.mp hnodup).2.2 hash hin hash (List.mem_singleton_self hash) rfl
    rw [List.erase_append_right _ hnot, List.erase_cons_head, List.append_nil]

/-- Whatever an offer of one's own changes shows in the tables. -/
theorem own_offer_untouched_iff (hk : TableKept s) (author : EndpointId) (offer : OfferV1)
    (now : Instant) :
    Untouched s ((s.record_offer_inner author offer now).2.set_local_status offer.blob_hash
      .Complete) ↔ s.RecordsNothing author offer := by
  have hrecorded := offer_recorded hk author offer now
  have hlisted : (s.offer_listed author offer now).offers.lookup offer.blob_hash = some
      { offer, first_seen_from := author, first_seen_at := now
        aliases := (∅ : HashSet String).insert offer.name (), local_status := .Missing } := by
    rw [offer_listed_lookup, if_pos rfl]
  -- A record where there was none is a change.
  have hnew_not {s' : DropState} {record : OfferRecord} (hnew : offer.blob_hash ∉ s.offers)
      (hquota : s.author_has_quota author)
      (hrecord : s'.offers.lookup offer.blob_hash = some record) :
      Untouched s (s'.set_local_status offer.blob_hash .Complete) ↔
        s.RecordsNothing author offer := by
    constructor
    · intro h
      have hrel := h.offers offer.blob_hash
      change Option.Rel _ _ ((HashMap.modify s'.offers offer.blob_hash _).lookup _) at hrel
      rw [HashMap.lookup_modify, if_pos rfl, hrecord, AList.lookup_eq_none.mpr hnew] at hrel
      cases hrel
    · rintro (⟨-, hspent⟩ | ⟨old, set, hold, -⟩)
      · exact absurd hquota hspent
      · exact absurd (AList.lookup_isSome.mp (Option.isSome_of_eq_some hold)) hnew
  generalize s.record_offer_inner author offer now = result at hrecorded
  cases hrecorded with
  | known record hold =>
    have hmem : offer.blob_hash ∈ s.offers :=
      AList.lookup_isSome.mp (Option.isSome_of_eq_some hold)
    have hoffers : ∀ hash, (HashMap.modify (s.offers.insert offer.blob_hash
        (record.add_alias offer.name)) offer.blob_hash
          (fun record => { record with local_status := .Complete })).lookup hash =
        if hash = offer.blob_hash then
          some { record.add_alias offer.name with local_status := .Complete }
        else s.offers.lookup hash := by
      intro hash
      rw [HashMap.lookup_modify, HashMap.lookup_insert', HashMap.lookup_insert', if_pos rfl]
      split <;> rfl
    have hproviders : ∀ hash, (s.offer_noted author offer.blob_hash).providers.lookup hash =
        if hash = offer.blob_hash then
          some (((s.providers.lookup offer.blob_hash).getD {}).add author true)
        else s.providers.lookup hash :=
      fun hash => HashMap.lookup_insert' s.providers offer.blob_hash hash _
    constructor
    · intro h
      refine .inr ?_
      have hrecord := h.offers offer.blob_hash
      change Option.Rel _ _ ((HashMap.modify _ offer.blob_hash _).lookup _) at hrecord
      rw [hoffers, if_pos rfl, hold] at hrecord
      have hset := h.providers offer.blob_hash
      change Option.Rel _ _ ((s.offer_noted author offer.blob_hash).providers.lookup _) at hset
      rw [hproviders, if_pos rfl] at hset
      rcases hold_set : s.providers.lookup offer.blob_hash with _ | set <;>
        rw [hold_set] at hset <;> cases hset
      rename_i hset
      cases hrecord
      rename_i hrecord
      obtain ⟨hstatus, hname⟩ := (record.add_alias_same_iff offer.name).mp hrecord
      obtain ⟨horiginal, hauthor⟩ := (set.add_same_iff author).mp hset
      exact ⟨record, set, hold, hstatus, hname, (touch_eq_iff hk.toBooked _).mp h.offer_order,
        rfl, horiginal, hauthor⟩
    · rintro (⟨hnew, -⟩ | ⟨record', set, hold', hstatus, hname, hlast, hset, horiginal, hauthor⟩)
      · exact absurd hmem hnew
      · cases hold.symm.trans hold'
        refine ⟨fun hash => ?_, (touch_eq_iff hk.toBooked _).mpr hlast, fun _ => rfl,
          fun hash => ?_, rfl, rfl⟩
        · change Option.Rel _ _ ((HashMap.modify _ offer.blob_hash _).lookup _)
          rw [hoffers]
          split
          · rename_i heq
            rw [heq, hold]
            exact .some ((record.add_alias_same_iff offer.name).mpr ⟨hstatus, hname⟩)
          · exact rel_refl OfferRecord.Same.refl _
        · change Option.Rel _ _ ((s.offer_noted author offer.blob_hash).providers.lookup _)
          rw [hproviders]
          split
          · rename_i heq
            rw [heq, hset]
            exact .some ((set.add_same_iff author).mpr ⟨horiginal, hauthor⟩)
          · exact rel_refl ProviderSet.Same.refl _
  | refused hnew hspent =>
    refine iff_of_true ⟨fun hash => ?_, rfl, fun _ => rfl,
      fun _ => rel_refl ProviderSet.Same.refl _, rfl, rfl⟩ (.inl ⟨hnew, hspent⟩)
    change Option.Rel _ _ ((HashMap.modify s.offers offer.blob_hash _).lookup hash)
    rw [HashMap.lookup_modify]
    split
    · rename_i heq
      rw [heq, AList.lookup_eq_none.mpr hnew]
      exact .none
    · exact rel_refl OfferRecord.Same.refl _
  | listed hnew hquota hroom => exact hnew_not hnew hquota hlisted
  | replaced hnew hquota hfull oldest rest record horder hgone =>
    have hother : offer.blob_hash ≠ oldest := fun heq =>
      hnew (heq ▸ oldest_was_listed hk hnew hfull horder)
    exact hnew_not hnew hquota ((AList.lookup_erase_ne hother).trans hlisted)

end DropState

/-- The frame of the offer, if there is one. -/
def Import.frame (s : Session) (i : Import) : Except ProtocolError Bytes :=
  Session.encode_for_session s.toSessionConfig
    (.new (.Offer i.offer) i.world.offer_draw.id i.world.offer_draw.sent_at_ms)
    i.world.offer_draw.nonce

theorem broadcast_said (s : Session) (body : MessageBodyV1) (draw : Draw) {frame : Bytes}
    (h : Session.encode_for_session s.toSessionConfig (.new body draw.id draw.sent_at_ms)
      draw.nonce = .ok frame) :
    (s.broadcast body draw).2.sent = s.sent ++ [frame] := by
  unfold Session.broadcast Session.broadcast_signed
  rw [h]
  rfl

theorem announce_says_more (s : Session) (hash : BlobHash) (state : ProviderState) (ms : UInt64)
    (draw : Draw) : s.sent <+: (s.announce hash state ms draw).2.sent := by
  unfold Session.announce Session.broadcast Session.broadcast_signed
  split
  · exact List.prefix_rfl
  · exact List.prefix_append _ _

/-- An offer that has a frame is handed to the carrier. -/
theorem finish_said {s : Session} {i : Import} (htag : i.world.tag_set = .ok ()) {frame : Bytes}
    (h : i.frame s = .ok frame) : s.sent ++ [frame] <+: (i.finish s).2.sent := by
  unfold Import.finish Session.finish_import_with
  rw [htag]
  dsimp only
  generalize hs : { s with state := ((s.state.record_offer s.self_id (Session.import_offer i.hash
    i.name i.size i.media_type i.metadata i.world) i.world.now).2.set_local_status i.hash
      .Complete) } = s₁
  have hconfig : s₁.toSessionConfig = s.toSessionConfig := by
    subst hs
    rfl
  have hsent : s₁.sent = s.sent := by
    subst hs
    rfl
  have hframe : Session.encode_for_session s₁.toSessionConfig (.new (.Offer i.offer)
      i.world.offer_draw.id i.world.offer_draw.sent_at_ms) i.world.offer_draw.nonce = .ok frame := by
    rw [hconfig]
    exact h
  have hsaid := broadcast_said s₁ (.Offer (Session.import_offer i.hash i.name i.size i.media_type
    i.metadata i.world)) i.world.offer_draw hframe
  rw [hsent] at hsaid
  rcases hb : s₁.broadcast (.Offer (Session.import_offer i.hash i.name i.size i.media_type
    i.metadata i.world)) i.world.offer_draw with ⟨_ | _, s₂⟩ <;> rw [hb] at hsaid
  · exact hsaid ▸ List.prefix_rfl
  · rw [← hsaid]
    dsimp only
    have hmore := announce_says_more s₂ i.hash .Available i.world.announced_at_ms
      i.world.provider_draw
    rcases ha : s₂.announce i.hash .Available i.world.announced_at_ms i.world.provider_draw
      with ⟨_ | _, s₃⟩ <;> rw [ha] at hmore <;> exact hmore

/-- An offer that has no frame is recorded all the same. -/
theorem finish_unsaid {s : Session} {i : Import} (htag : i.world.tag_set = .ok ())
    {e : ProtocolError} (h : i.frame s = .error e) :
    i.finish s = (.error (.Protocol e), { s with state := i.recorded s }) := by
  unfold Import.finish Session.finish_import_with
  rw [htag]
  dsimp only
  have hbroadcast : Session.broadcast { s with state := i.recorded s } (.Offer i.offer)
      i.world.offer_draw = (.error (.Protocol e), { s with state := i.recorded s }) := by
    unfold Import.frame at h
    unfold Session.broadcast Session.broadcast_signed
    rw [h]
  unfold Import.recorded Import.offer at hbroadcast
  unfold Import.recorded Import.offer
  rw [hbroadcast]

theorem Import.recorded_untouched_iff {s : Session} {i : Import} (hk : TableKept s.state) :
    Untouched s.state (i.recorded s) ↔ s.state.RecordsNothing s.self_id i.offer := by
  have hiff := DropState.own_offer_untouched_iff
    (DropState.perform_table hk (.note_peer s.self_id)) s.self_id i.offer i.world.now
  rw [recorded_eq]
  obtain ⟨known, order, hnoted⟩ := s.state.note_peer_tables s.self_id
  simp only [DropState.perform, hnoted] at hiff ⊢
  refine Iff.trans ?_ (hiff.trans ?_)
  · constructor
    · rintro ⟨h₁, h₂, h₃, h₄, h₅, h₆⟩
      exact ⟨h₁, h₂, h₃, h₄, h₅, h₆⟩
    · rintro ⟨h₁, h₂, h₃, h₄, h₅, h₆⟩
      exact ⟨h₁, h₂, h₃, h₄, h₅, h₆⟩
  · exact Iff.rfl

/-- A publish that fails before its offer is handed to the carrier leaves the
tables as they were, exactly when it has no offer to record, or its offer has
a frame, or recording the offer changes nothing. -/
theorem failed_publish_untouched_iff [Crates] (secret : SecretKey) (policy : DropPolicy)
    (decider : OfferDecider) (topic_id : TopicId) (ticket : DropTicket) (drop_key : Option DropKey)
    (store : BlobHash → BlobStatus) (steps : List Step) (call : PublishCall) (s : Session)
    (hs : (Session.new secret policy decider topic_id ticket drop_key store).run steps = s) :
    (∀ e s', call.run s = (.error e, s') → s'.sent = s.sent → Untouched s.state s'.state) ↔
      ∀ i, call.import s = some i → i.world.tag_set = .ok () →
        (∃ frame, i.frame s = .ok frame) ∨ s.state.RecordsNothing s.self_id i.offer := by
  have hk : TableKept s.state :=
    hs ▸ Session.run_table secret policy decider topic_id ticket drop_key store steps
  have hcomes := PublishCall.comes s call
  generalize call.import s = came at hcomes
  generalize call.run s = result at hcomes
  cases hcomes with
  | failed e s₁ same =>
    refine iff_of_true (fun e' s' h _ => ?_) (fun i h => by cases h)
    cases h
    rw [same.state]
    exact .refl _
  | finished i s₁ same =>
    have hframe : i.frame s₁ = i.frame s := by
      unfold Import.frame
      rw [same.config]
    have hself : s₁.self_id = s.self_id :=
      congrArg (fun config : SessionConfig => config.secret.public) same.config
    rcases htag : i.world.tag_set with e | _
    · have hfinish : i.finish s₁ = (.error (.Storage (.Store e)), s₁) := by
        unfold Import.finish Session.finish_import_with
        rw [htag]
      rw [hfinish]
      refine iff_of_true (fun e' s' h _ => ?_) (fun i' h htag' => ?_)
      · cases h
        change Untouched s.state s₁.state
        rw [same.state]
        exact .refl _
      · cases h
        rw [htag] at htag'
        cases htag'
    · rcases hsaid : i.frame s with e | frame
      · rw [finish_unsaid htag (hframe.trans hsaid)]
        have hrecorded := Import.recorded_untouched_iff (i := i) (same.state ▸ hk : TableKept s₁.state)
        rw [same.state, hself] at hrecorded
        constructor
        · intro h i' hi _
          cases hi
          exact .inr (hrecorded.mp (h _ _ rfl same.sent))
        · intro h e' s' heq _
          cases heq
          rcases h i rfl htag with ⟨frame, hframe'⟩ | hnothing
          · cases hsaid.symm.trans hframe'
          · exact hrecorded.mpr hnothing
      · refine iff_of_true (fun e' s' h hsent => ?_) (fun i' hi _ => ?_)
        · have hprefix := finish_said htag (hframe.trans hsaid)
          obtain rfl : (i.finish s₁).2 = s' := congrArg Prod.snd h
          rw [hsent, same.sent] at hprefix
          have hlen := hprefix.length_le
          simp at hlen
        · cases hi
          exact .inl ⟨frame, hsaid⟩

end Laws

/-! ## A relay that publishes -/

namespace relay_publish

local instance : Crypto := Crypto.clear

/-- The crates of collections, which no call here comes to. -/
local instance : Crates where
  hash_of _ := ⟨.fill 32 7⟩
  to_vec_pretty _ := .error "no collection"
  from_slice _ := .error "no collection"
  debug s := "\"" ++ s ++ "\""

def secret : SecretKey := ⟨.fill 32 1⟩

def topic : TopicId := ⟨.fill 32 8⟩

/-- The ticket of a sealed drop, without its key. -/
def ticket : DropTicket :=
  { V1 := { version := TICKET_SCHEMA_VERSION, topic_id := topic.as_bytes, bootstrap_nodes := []
            options := {}, mode := 1, drop_key := none }
    mode_known := ⟨.Sealed, rfl⟩ }

def store : BlobHash → BlobStatus := fun _ => .NotFound

def relay : Session := .new secret {} PolicyDecider topic ticket none store

def draw : Draw :=
  { now := 0, sent_at_ms := 0, id := .fill 16 1, nonce := .fill 24 0, carried := .ok () }

def world : ImportWorld :=
  { imported := .ok ⟨.fill 32 7⟩, guessed := none, tag_set := .ok (), now := 0
    created_at_ms := 0, announced_at_ms := 0, offer_draw := draw, provider_draw := draw }

def call : PublishCall := .publish_bytes_with "nope" [0x78] none ∅ world

theorem failed_publish_untouched_iff_at_relay :
    (∀ e s', call.run relay = (.error e, s') → s'.sent = relay.sent →
        Untouched relay.state s'.state) ↔
      ∀ i, call.import relay = some i → i.world.tag_set = .ok () →
        (∃ frame, i.frame relay = .ok frame) ∨
          relay.state.RecordsNothing relay.self_id i.offer :=
  failed_publish_untouched_iff secret {} PolicyDecider topic ticket none store [] call relay rfl

/-- The relay is told that it cannot publish, and lists its own offer. -/
theorem a_refused_offer_is_recorded :
    ¬ ∀ [Crypto] [Crates] (secret : SecretKey) (policy : DropPolicy) (decider : OfferDecider)
      (topic_id : TopicId) (ticket : DropTicket) (drop_key : Option DropKey)
      (store : BlobHash → BlobStatus) (steps : List Step) (call : PublishCall) (s : Session),
      (Session.new secret policy decider topic_id ticket drop_key store).run steps = s →
      ∀ e s', call.run s = (.error e, s') → s'.sent = s.sent → Untouched s.state s'.state := by
  intro h
  have herr : (call.run relay).1 = .error (.Drop (.Protocol .NoDropKey)) := by decide +kernel
  have huntouched := h secret {} PolicyDecider topic ticket none store [] call relay rfl _ _
    (eq_pair herr) (by decide +kernel)
  have hlisted : ((call.run relay).2.state.offers.lookup ⟨.fill 32 7⟩).isSome = true := by
    decide +kernel
  have hrel := huntouched.offers ⟨.fill 32 7⟩
  rcases hlookup : (call.run relay).2.state.offers.lookup ⟨.fill 32 7⟩ with _ | record
  · rw [hlookup] at hlisted
    cases hlisted
  · rw [hlookup] at hrel
    cases hrel

end relay_publish

end iroh_drop
