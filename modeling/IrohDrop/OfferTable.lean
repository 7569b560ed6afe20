-- The laws of the offer table: the table, its eviction queue and the accounts
-- of the authors agree, whatever offers are recorded, and what goes is what
-- was offered the longest time ago.
import IrohDrop.Tables

open rust_std

namespace iroh_drop

section Laws

variable [Crypto]

/-! ## Calls -/

/-- A call that records an offer. -/
inductive OfferCall where
  | record_offer_bounded («from» : EndpointId) (offer : OfferV1) (now : Instant)
  | record_offer («from» : EndpointId) (offer : OfferV1) (now : Instant)
  | record_restored («from» : EndpointId) (offer : OfferV1) (now : Instant)

namespace OfferCall

def hash : OfferCall → BlobHash
  | .record_offer_bounded _ offer _ => offer.blob_hash
  | .record_offer _ offer _ => offer.blob_hash
  | .record_restored _ offer _ => offer.blob_hash

/-- The state after the call. -/
def apply (s : DropState) : OfferCall → DropState
  | .record_offer_bounded author offer now => (s.record_offer_bounded author offer now).2
  | .record_offer author offer now => (s.record_offer author offer now).2
  | .record_restored author offer now => (s.record_restored author offer now).2

/-- What the table part of the call answers. `record_offer` hands on whether
it is `New`. -/
def outcome (s : DropState) : OfferCall → OfferOutcome
  | .record_offer_bounded author offer now => (s.record_offer_bounded author offer now).1
  | .record_offer author offer now => (s.record_offer_bounded author offer now).1
  | .record_restored author offer now => (s.record_restored author offer now).1

end OfferCall

/-- How many calls ago a hash was offered last. -/
def offered_ago (calls : List OfferCall) (hash : BlobHash) : Nat :=
  (calls.map OfferCall.hash).reverse.idxOf hash

theorem offered_ago_push (calls : List OfferCall) (call : OfferCall) (hash : BlobHash) :
    offered_ago (calls ++ [call]) hash =
      if hash = call.hash then 0 else offered_ago calls hash + 1 := by
  unfold offered_ago
  rw [List.map_append, List.reverse_append, List.map_singleton, List.reverse_singleton,
    List.singleton_append, List.idxOf_cons]
  by_cases h : hash = call.hash
  · rw [if_pos h, h]
    simp
  · rw [if_neg h]
    have hne : (call.hash == hash) = false := beq_eq_false_iff_ne.mpr (Ne.symm h)
    rw [hne]
    rfl

/-! ## The invariant -/

/-- The records that an author was the first to offer. -/
def DropState.records_of (s : DropState) (author : EndpointId) : Nat :=
  HashMap.count s.offers (fun record => decide (record.first_seen_from = author))

/-- The queue lists the hashes of the table, each once, and the accounts of
the authors are right. -/
structure Booked (s : DropState) : Prop where
  nodup : s.offer_order.Nodup
  queued : ∀ hash, hash ∈ s.offer_order ↔ hash ∈ s.offers
  counted : ∀ author, (s.offers_per_author.lookup author).getD 0 = s.records_of author
  positive : ∀ author count, s.offers_per_author.lookup author = some count → 0 < count
  quota : ∀ author, s.records_of author ≤ MAX_OFFERS_PER_AUTHOR

/-- The table is booked and within its cap. -/
structure TableKept (s : DropState) : Prop extends Booked s where
  cap : HashMap.len s.offers ≤ MAX_OFFERS

/-- The queue has the hash that was offered the longest time ago in front. -/
def Aged (calls : List OfferCall) (s : DropState) : Prop :=
  s.offer_order.Pairwise (fun a b => offered_ago calls b < offered_ago calls a)

/-! ## Accounts -/

theorem uncount_offer_lookup (counts : HashMap EndpointId Nat) (author a : EndpointId) :
    ((DropState.uncount_offer counts author).lookup a).getD 0 =
      if a = author then (counts.lookup a).getD 0 - 1 else (counts.lookup a).getD 0 := by
  unfold DropState.uncount_offer
  rcases hc : counts.lookup author with _ | count
  · by_cases h : a = author
    · rw [if_pos h, h, hc]
      rfl
    · rw [if_neg h]
  · simp only
    by_cases hone : count - 1 = 0
    · rw [if_pos hone, HashMap.lookup_erase']
      by_cases h : a = author
      · rw [if_pos h, if_pos h, h, hc]
        exact hone.symm
      · rw [if_neg h, if_neg h]
    · rw [if_neg hone, HashMap.lookup_insert']
      by_cases h : a = author
      · rw [if_pos h, if_pos h, h, hc]
        rfl
      · rw [if_neg h, if_neg h]

theorem uncount_offer_positive {counts : HashMap EndpointId Nat}
    (h : ∀ a count, counts.lookup a = some count → 0 < count) (author : EndpointId) :
    ∀ a count, (DropState.uncount_offer counts author).lookup a = some count → 0 < count := by
  intro a count hcount
  unfold DropState.uncount_offer at hcount
  rcases hc : counts.lookup author with _ | old
  · rw [hc] at hcount
    exact h a count hcount
  · rw [hc] at hcount
    simp only at hcount
    split at hcount
    · rw [HashMap.lookup_erase'] at hcount
      split at hcount
      · cases hcount
      · exact h a count hcount
    · rename_i hmore
      rw [HashMap.lookup_insert'] at hcount
      split at hcount
      · cases hcount
        omega
      · exact h a count hcount

/-! ## Eviction -/

namespace DropState

variable (s : DropState)

/-- The state once the hash in front of the queue is forgotten. -/
def forget_oldest (oldest : BlobHash) (rest : List BlobHash) (record : OfferRecord) : DropState :=
  { s with
    offers := s.offers.erase oldest
    offers_per_author := uncount_offer s.offers_per_author record.first_seen_from
    providers := s.providers.erase oldest
    offer_order := rest }

/-- The queue of a table that is not empty has a front. -/
theorem order_ne_nil {s : DropState} (hb : Booked s) (h : 0 < HashMap.len s.offers) :
    s.offer_order ≠ [] := by
  intro hnil
  obtain ⟨hash, hmem⟩ := List.exists_mem_of_length_pos h
  have hq := (hb.queued hash).mpr (AList.mem_keys.mpr hmem)
  rw [hnil] at hq
  cases hq

/-- A table that is one offer over its cap loses the hash in front of the
queue, and nothing else. -/
theorem enforce_offer_cap_over (hb : Booked s) (h : HashMap.len s.offers = MAX_OFFERS + 1) :
    ∃ oldest rest record, s.offer_order = oldest :: rest ∧ s.offers.lookup oldest = some record ∧
      s.enforce_offer_cap = (s.forget_oldest oldest rest record, [oldest]) := by
  have hnonempty := order_ne_nil hb (by omega)
  obtain ⟨oldest, rest, horder⟩ := List.exists_cons_of_ne_nil hnonempty
  have hmem : oldest ∈ s.offers := (hb.queued oldest).mp (horder ▸ List.mem_cons_self ..)
  obtain ⟨record, hrecord⟩ := Option.isSome_iff_exists.mp (AList.lookup_isSome.mpr hmem)
  refine ⟨oldest, rest, record, horder, hrecord, ?_⟩
  have hlen : HashMap.len (s.offers.erase oldest) = MAX_OFFERS := by
    rw [HashMap.len_erase, if_pos hmem]
    omega
  unfold enforce_offer_cap
  rw [horder, evict_offers, if_pos (by omega), hrecord]
  simp only
  rw [evict_offers_small _ hlen.le]
  rfl

theorem booked_forget_oldest {oldest : BlobHash} {rest : List BlobHash} {record : OfferRecord}
    (hb : Booked s) (horder : s.offer_order = oldest :: rest)
    (hrecord : s.offers.lookup oldest = some record) :
    Booked (s.forget_oldest oldest rest record) := by
  have hnodup := hb.nodup
  rw [horder] at hnodup
  obtain ⟨hnot, hrest⟩ := List.nodup_cons.mp hnodup
  -- The record that goes was counted for its author.
  have hcounts : ∀ author, (s.forget_oldest oldest rest record).records_of author =
      if author = record.first_seen_from then s.records_of author - 1 else s.records_of author := by
    intro author
    have hcount := HashMap.count_erase s.offers hrecord
      (fun record => decide (record.first_seen_from = author))
    change HashMap.count (s.offers.erase oldest) _ = _
    unfold records_of
    by_cases h : author = record.first_seen_from
    · rw [if_pos h]
      simp only [h, decide_true, if_true] at hcount ⊢
      omega
    · rw [if_neg h]
      simp only [Ne.symm h, decide_false, Bool.false_eq_true, if_false] at hcount
      exact hcount
  refine ⟨hrest, ?_, ?_, uncount_offer_positive hb.positive _, ?_⟩
  · intro hash
    change hash ∈ rest ↔ hash ∈ s.offers.erase oldest
    rw [AList.mem_erase, ← hb.queued hash, horder, List.mem_cons]
    constructor
    · intro h
      exact ⟨fun heq => hnot (heq ▸ h), .inr h⟩
    · rintro ⟨hne, rfl | h⟩
      · exact absurd rfl hne
      · exact h
  · intro author
    rw [hcounts]
    change ((uncount_offer s.offers_per_author record.first_seen_from).lookup author).getD 0 = _
    rw [uncount_offer_lookup, hb.counted]
  · intro author
    rw [hcounts]
    have hquota := hb.quota author
    split <;> omega

/-! ## One offer -/

/-- The tables once an offer has been noted for a hash. -/
def offer_noted (author : EndpointId) (hash : BlobHash) : DropState :=
  touch_offer { s with
    providers := HashMap.update s.providers hash {} (fun set => set.add author true) } hash

/-- The tables with an offer that is new, before the cap is enforced. -/
def offer_listed (author : EndpointId) (offer : OfferV1) (now : Instant) : DropState :=
  let s := s.offer_noted author offer.blob_hash
  { s with
    offers := s.offers.insert offer.blob_hash
      { offer, first_seen_from := author, first_seen_at := now
        aliases := (∅ : HashSet String).insert offer.name ()
        local_status := .Missing }
    offers_per_author := HashMap.update s.offers_per_author author 0 (· + 1) }

variable {s}

theorem record_offer_inner_over {author : EndpointId} {offer : OfferV1}
    (hnew : offer.blob_hash ∉ s.offers) (hquota : ¬ s.author_has_quota author) (now : Instant) :
    s.record_offer_inner author offer now = (.QuotaExceeded, s) := by
  unfold record_offer_inner
  simp only
  rw [if_pos ⟨hnew, hquota⟩]

theorem record_offer_inner_known {author : EndpointId} {offer : OfferV1} {record : OfferRecord}
    (hold : s.offers.lookup offer.blob_hash = some record) (now : Instant) :
    s.record_offer_inner author offer now =
      (.Known, { s.offer_noted author offer.blob_hash with
        offers := s.offers.insert offer.blob_hash (record.add_alias offer.name) }) := by
  have hmem : offer.blob_hash ∈ s.offers :=
    AList.lookup_isSome.mp (Option.isSome_iff_exists.mpr ⟨record, hold⟩)
  unfold record_offer_inner
  simp only
  rw [if_neg (fun h => h.1 hmem)]
  simp only [touch_offer, hold, offer_noted]

theorem record_offer_inner_new {author : EndpointId} {offer : OfferV1}
    (hnew : offer.blob_hash ∉ s.offers) (hquota : s.author_has_quota author) (now : Instant) :
    s.record_offer_inner author offer now =
      (.New (s.offer_listed author offer now).enforce_offer_cap.2,
        (s.offer_listed author offer now).enforce_offer_cap.1) := by
  unfold record_offer_inner
  simp only
  rw [if_neg (fun h => h.2 hquota)]
  simp only [touch_offer, AList.lookup_eq_none.mpr hnew, offer_listed, offer_noted]

/-- A hash that is offered goes to the back of the queue. -/
theorem aged_touch {calls : List OfferCall} (hb : Booked s) (ha : Aged calls s)
    (call : OfferCall) :
    (s.offer_order.erase call.hash ++ [call.hash]).Pairwise
      (fun a b => offered_ago (calls ++ [call]) b < offered_ago (calls ++ [call]) a) := by
  have hother : ∀ a ∈ s.offer_order.erase call.hash, a ≠ call.hash := fun a h =>
    ((List.Nodup.mem_erase_iff hb.nodup).mp h).1
  refine List.pairwise_append.mpr ⟨?_, List.pairwise_singleton _ _, ?_⟩
  · have hsub := List.Pairwise.sublist (List.erase_sublist (a := call.hash)) ha
    refine List.Pairwise.imp_of_mem ?_ hsub
    intro a b ha hb hlt
    rw [offered_ago_push, offered_ago_push, if_neg (hother a ha), if_neg (hother b hb)]
    omega
  · intro a ha b hb
    rw [List.mem_singleton.mp hb, offered_ago_push, offered_ago_push, if_pos rfl,
      if_neg (hother a ha)]
    exact Nat.succ_pos _

theorem nodup_touch (hb : Booked s) (hash : BlobHash) :
    (s.offer_order.erase hash ++ [hash]).Nodup := by
  refine List.nodup_append.mpr ⟨hb.nodup.erase hash, List.nodup_singleton hash, ?_⟩
  intro a ha b hb'
  rw [List.mem_singleton.mp hb']
  exact ((List.Nodup.mem_erase_iff hb.nodup).mp ha).1

theorem mem_touch (hb : Booked s) (hash x : BlobHash) :
    x ∈ s.offer_order.erase hash ++ [hash] ↔ x = hash ∨ x ∈ s.offers := by
  rw [List.mem_append, List.mem_singleton, List.Nodup.mem_erase_iff hb.nodup, hb.queued]
  tauto

/-- What an offer leaves, and what it answers. -/
structure Recorded (calls : List OfferCall) (s : DropState) (call : OfferCall)
    (outcome : OfferOutcome) (s' : DropState) : Prop where
  kept : TableKept s'
  aged : Aged (calls ++ [call]) s'
  evicted : ∀ evicted, outcome = .New evicted → ∀ hash ∈ evicted,
    (hash ∈ s.offers ∧ ∀ other ∈ s'.offers,
      offered_ago (calls ++ [call]) other < offered_ago (calls ++ [call]) hash) ∧
      hash ∉ s'.offers ∧ hash ∉ s'.providers
  refused : outcome = .QuotaExceeded → s'.offers = s.offers ∧ s'.offer_order = s.offer_order ∧
    s'.offers_per_author = s.offers_per_author ∧ s'.providers = s.providers

theorem booked_listed (hk : TableKept s) {author : EndpointId} {offer : OfferV1}
    (hnew : offer.blob_hash ∉ s.offers) (hquota : s.author_has_quota author) (now : Instant) :
    Booked (s.offer_listed author offer now) := by
  have hcounts : ∀ a, (s.offer_listed author offer now).records_of a =
      s.records_of a + if a = author then 1 else 0 := by
    intro a
    change HashMap.count (s.offers.insert _ _) _ = _
    rw [HashMap.count_insert_new s.offers hnew]
    unfold records_of
    congr 1
    by_cases h : a = author
    · simp [h]
    · simp [h, Ne.symm h]
  refine ⟨nodup_touch hk.toBooked _, ?_, ?_, ?_, ?_⟩
  · intro hash
    change _ ∈ s.offer_order.erase offer.blob_hash ++ [offer.blob_hash] ↔
      hash ∈ s.offers.insert offer.blob_hash _
    rw [mem_touch hk.toBooked, AList.mem_insert]
  · intro a
    rw [hcounts]
    change ((HashMap.update s.offers_per_author author 0 (· + 1)).lookup a).getD 0 = _
    rw [HashMap.update, HashMap.lookup_insert']
    by_cases h : a = author
    · rw [if_pos h, if_pos h, h, ← hk.counted]
      rfl
    · rw [if_neg h, if_neg h, ← hk.counted]
      rfl
  · intro a count hcount
    change (HashMap.update s.offers_per_author author 0 (· + 1)).lookup a = some count at hcount
    rw [HashMap.update, HashMap.lookup_insert'] at hcount
    split at hcount
    · cases hcount
      exact Nat.succ_pos _
    · exact hk.positive a count hcount
  · intro a
    rw [hcounts]
    have hold := hk.quota a
    by_cases h : a = author
    · rw [if_pos h, h, ← hk.counted]
      exact hquota
    · rw [if_neg h]
      exact hold

/-- What a full table evicts for an offer that is new is another offer. -/
theorem oldest_was_listed (hk : TableKept s) {author : EndpointId} {offer : OfferV1}
    {now : Instant} (hnew : offer.blob_hash ∉ s.offers) (hfull : MAX_OFFERS ≤ HashMap.len s.offers)
    {oldest : BlobHash} {rest : List BlobHash}
    (horder : (s.offer_listed author offer now).offer_order = oldest :: rest) :
    oldest ∈ s.offers := by
  have hqueue : offer.blob_hash ∉ s.offer_order := fun h => hnew ((hk.queued _).mp h)
  have hmax : 0 < MAX_OFFERS := by decide
  obtain ⟨front, others, hfront⟩ :=
    List.exists_cons_of_ne_nil (order_ne_nil hk.toBooked (by omega))
  change s.offer_order.erase offer.blob_hash ++ [offer.blob_hash] = _ at horder
  rw [List.erase_of_not_mem hqueue, hfront, List.cons_append] at horder
  obtain ⟨rfl, -⟩ := List.cons.inj horder
  exact (hk.queued front).mp (hfront ▸ List.mem_cons_self)

/-- What recording an offer makes of a table: nothing but a name more and a
newer place in the queue, nothing at all, a record more, or a record in the
place of the oldest one. -/
inductive OfferRecorded (s : DropState) (author : EndpointId) (offer : OfferV1) (now : Instant) :
    OfferOutcome × DropState → Prop where
  | known (record : OfferRecord) (old : s.offers.lookup offer.blob_hash = some record) :
      OfferRecorded s author offer now (.Known, { s.offer_noted author offer.blob_hash with
        offers := s.offers.insert offer.blob_hash (record.add_alias offer.name) })
  | refused (new : offer.blob_hash ∉ s.offers) (spent : ¬ s.author_has_quota author) :
      OfferRecorded s author offer now (.QuotaExceeded, s)
  | listed (new : offer.blob_hash ∉ s.offers) (quota : s.author_has_quota author)
      (room : HashMap.len s.offers < MAX_OFFERS) :
      OfferRecorded s author offer now (.New [], s.offer_listed author offer now)
  | replaced (new : offer.blob_hash ∉ s.offers) (quota : s.author_has_quota author)
      (full : MAX_OFFERS ≤ HashMap.len s.offers) (oldest : BlobHash) (rest : List BlobHash)
      (record : OfferRecord)
      (order : (s.offer_listed author offer now).offer_order = oldest :: rest)
      (old : (s.offer_listed author offer now).offers.lookup oldest = some record) :
      OfferRecorded s author offer now
        (.New [oldest], (s.offer_listed author offer now).forget_oldest oldest rest record)

theorem len_offer_listed {author : EndpointId} {offer : OfferV1}
    (hnew : offer.blob_hash ∉ s.offers) (now : Instant) :
    HashMap.len (s.offer_listed author offer now).offers = HashMap.len s.offers + 1 := by
  change HashMap.len (s.offers.insert offer.blob_hash _) = _
  rw [HashMap.len_insert, if_neg hnew]

theorem offer_listed_lookup (author : EndpointId) (offer : OfferV1) (now : Instant)
    (hash : BlobHash) :
    (s.offer_listed author offer now).offers.lookup hash =
      if hash = offer.blob_hash then some
        { offer, first_seen_from := author, first_seen_at := now
          aliases := (∅ : HashSet String).insert offer.name (), local_status := .Missing }
      else s.offers.lookup hash :=
  HashMap.lookup_insert' s.offers offer.blob_hash hash _

theorem offer_recorded (hk : TableKept s) (author : EndpointId) (offer : OfferV1)
    (now : Instant) : OfferRecorded s author offer now (s.record_offer_inner author offer now) := by
  by_cases hmem : offer.blob_hash ∈ s.offers
  · obtain ⟨record, hrecord⟩ := Option.isSome_iff_exists.mp (AList.lookup_isSome.mpr hmem)
    rw [record_offer_inner_known hrecord]
    exact .known record hrecord
  · by_cases hquota : s.author_has_quota author
    · rw [record_offer_inner_new hmem hquota]
      have hb := booked_listed hk hmem hquota now
      have hlen : HashMap.len (s.offer_listed author offer now).offers =
          HashMap.len s.offers + 1 := len_offer_listed hmem now
      have hcap := hk.cap
      rcases Nat.lt_or_ge (HashMap.len s.offers) MAX_OFFERS with hroom | hfull
      · have hsmall : (s.offer_listed author offer now).enforce_offer_cap =
            (s.offer_listed author offer now, []) :=
          evict_offers_small _ (by omega) _
        rw [hsmall]
        exact .listed hmem hquota hroom
      · obtain ⟨oldest, rest, record, horder, hrecord, heq⟩ :=
          enforce_offer_cap_over _ hb (by omega)
        rw [heq]
        exact .replaced hmem hquota hfull oldest rest record horder hrecord
    · rw [record_offer_inner_over hmem hquota]
      exact .refused hmem hquota

/-- Recording an offer keeps the table booked and within its cap. -/
theorem record_offer_inner_kept (hk : TableKept s) (author : EndpointId) (offer : OfferV1)
    (now : Instant) : TableKept (s.record_offer_inner author offer now).2 := by
  have hrecorded := offer_recorded hk author offer now
  generalize s.record_offer_inner author offer now = result at hrecorded ⊢
  cases hrecorded with
  | known record hrecord =>
    -- A hash that is known keeps its record, but for the names.
    have hmem : offer.blob_hash ∈ s.offers :=
      AList.lookup_isSome.mp (Option.isSome_iff_exists.mpr ⟨record, hrecord⟩)
    have hfirst : (record.add_alias offer.name).first_seen_from = record.first_seen_from := by
      unfold OfferRecord.add_alias
      split <;> rfl
    have hcounts : ∀ a, HashMap.count (s.offers.insert offer.blob_hash
        (record.add_alias offer.name)) (fun record => decide (record.first_seen_from = a)) =
        s.records_of a :=
      fun a => HashMap.count_insert_old s.offers hrecord _ _ (by rw [hfirst])
    refine ⟨⟨nodup_touch hk.toBooked _, ?_, ?_, hk.positive, ?_⟩, ?_⟩
    · intro hash
      change _ ∈ s.offer_order.erase offer.blob_hash ++ [offer.blob_hash] ↔
        hash ∈ s.offers.insert offer.blob_hash _
      rw [mem_touch hk.toBooked, AList.mem_insert]
    · intro a
      exact (hk.counted a).trans (hcounts a).symm
    · intro a
      exact (hcounts a).le.trans (hk.quota a)
    · change HashMap.len (s.offers.insert offer.blob_hash _) ≤ _
      rw [HashMap.len_insert, if_pos hmem]
      exact hk.cap
  | refused hnew hspent => exact hk
  | listed hnew hquota hroom =>
    refine ⟨booked_listed hk hnew hquota now, ?_⟩
    rw [len_offer_listed hnew]
    exact hroom
  | replaced hnew hquota hfull oldest rest record horder hrecord =>
    have hb := booked_listed hk hnew hquota now
    refine ⟨booked_forget_oldest _ hb horder hrecord, ?_⟩
    have holdest : oldest ∈ (s.offer_listed author offer now).offers :=
      (hb.queued oldest).mp (horder ▸ List.mem_cons_self)
    change HashMap.len ((s.offer_listed author offer now).offers.erase oldest) ≤ _
    rw [HashMap.len_erase, if_pos holdest, len_offer_listed hnew]
    have hcap := hk.cap
    omega

theorem recorded_inner {calls : List OfferCall} (hk : TableKept s) (ha : Aged calls s)
    (call : OfferCall) (author : EndpointId) (offer : OfferV1) (now : Instant)
    (hc : call.hash = offer.blob_hash) :
    Recorded calls s call (s.record_offer_inner author offer now).1
      (s.record_offer_inner author offer now).2 := by
  have hkept := record_offer_inner_kept hk author offer now
  have haged := aged_touch hk.toBooked ha call
  rw [hc] at haged
  have hrecorded := offer_recorded hk author offer now
  generalize s.record_offer_inner author offer now = result at hkept hrecorded ⊢
  cases hrecorded with
  | known record hrecord =>
    refine ⟨hkept, haged, ?_, ?_⟩
    · intro evicted h
      cases h
    · intro h
      cases h
  | refused hnew hspent =>
    have hqueue : offer.blob_hash ∉ s.offer_order := fun h => hnew ((hk.queued _).mp h)
    rw [List.erase_of_not_mem hqueue] at haged
    refine ⟨hk, haged.sublist (List.sublist_append_left ..), ?_, fun _ => ⟨rfl, rfl, rfl, rfl⟩⟩
    intro evicted h
    cases h
  | listed hnew hquota hroom =>
    refine ⟨hkept, haged, ?_, ?_⟩
    · intro evicted h hash hhash
      cases h
      cases hhash
    · intro h
      cases h
  | replaced hnew hquota hfull oldest rest record horder hrecord =>
    have haged' : (oldest :: rest).Pairwise (fun a b =>
        offered_ago (calls ++ [call]) b < offered_ago (calls ++ [call]) a) := by
      rw [← horder]
      exact haged
    obtain ⟨hfront, hrest⟩ := List.pairwise_cons.mp haged'
    refine ⟨hkept, hrest, ?_, ?_⟩
    · intro evicted h hash hhash
      cases h
      rw [List.mem_singleton.mp hhash]
      have hothers : ∀ other ∈ ((s.offer_listed author offer now).forget_oldest oldest rest
          record).offers, offered_ago (calls ++ [call]) other <
            offered_ago (calls ++ [call]) oldest :=
        fun other hother => hfront other ((hkept.queued other).mpr hother)
      refine ⟨⟨oldest_was_listed hk hnew hfull horder, hothers⟩, ?_, ?_⟩
      · change oldest ∉ (s.offer_listed author offer now).offers.erase oldest
        rw [AList.mem_erase]
        exact fun h => h.1 rfl
      · change oldest ∉ (s.offer_listed author offer now).providers.erase oldest
        rw [AList.mem_erase]
        exact fun h => h.1 rfl
    · intro h
      cases h

/-! ## Whole runs -/

/-- A peer that is noted leaves the tables as they are. -/
theorem note_peer_tables (s : DropState) (peer : EndpointId) :
    ∃ known order, s.note_peer peer = { s with known_peers := known, peer_order := order } := by
  have hforget : ∀ (order : List EndpointId) (known : HashSet EndpointId),
      ∃ known' order', s.forget_peers known order =
        { s with known_peers := known', peer_order := order' } := by
    intro order
    induction order with
    | nil => exact fun known => ⟨known, [], rfl⟩
    | cons old rest ih =>
      intro known
      unfold forget_peers
      split
      · exact ih _
      · exact ⟨known, old :: rest, rfl⟩
  unfold note_peer
  split
  · exact ⟨s.known_peers, s.peer_order, rfl⟩
  · exact hforget _ _

theorem recorded (calls : List OfferCall) {s : DropState} (hk : TableKept s) (ha : Aged calls s)
    (call : OfferCall) : Recorded calls s call (call.outcome s) (call.apply s) := by
  have hbounded : ∀ (call : OfferCall) (author : EndpointId) (offer : OfferV1) (now : Instant),
      call.hash = offer.blob_hash →
      Recorded calls s call (s.record_offer_bounded author offer now).1
        (s.record_offer_bounded author offer now).2 := by
    intro call author offer now hc
    obtain ⟨known, order, hnoted⟩ := s.note_peer_tables author
    unfold record_offer_bounded
    rw [hnoted]
    have hkept : TableKept { s with known_peers := known, peer_order := order } :=
      ⟨⟨hk.nodup, hk.queued, hk.counted, hk.positive, hk.quota⟩, hk.cap⟩
    obtain ⟨kept, aged, evicted, refused⟩ := recorded_inner hkept ha call author offer now hc
    exact ⟨kept, aged, evicted, refused⟩
  cases call with
  | record_offer_bounded author offer now => exact hbounded _ author offer now rfl
  | record_offer author offer now => exact hbounded _ author offer now rfl
  | record_restored author offer now => exact recorded_inner hk ha _ author offer now rfl

end DropState

theorem tableKept_new (self_endpoint_id : EndpointId) :
    TableKept (DropState.new self_endpoint_id) := by
  refine ⟨⟨List.nodup_nil, ?_, ?_, ?_, ?_⟩, Nat.zero_le _⟩
  · intro hash
    constructor <;> (intro h; cases h)
  · exact fun _ => rfl
  · intro author count h
    cases h
  · exact fun _ => Nat.zero_le _

/-- Whatever offers are recorded, the table, its queue and the accounts
agree; and what the next call evicts was offered the longest time ago, and
what it refuses changes nothing in the tables. -/
theorem offer_table_kept (self_endpoint_id : EndpointId) (calls : List OfferCall) :
    let s := calls.foldl OfferCall.apply (.new self_endpoint_id)
    TableKept s ∧
      ∀ call : OfferCall, DropState.Recorded calls s call (call.outcome s) (call.apply s) := by
  intro s
  have hall : ∀ (past calls : List OfferCall) (s : DropState), TableKept s → Aged past s →
      TableKept (calls.foldl OfferCall.apply s) ∧
        Aged (past ++ calls) (calls.foldl OfferCall.apply s) := by
    intro past calls
    induction calls generalizing past with
    | nil =>
      intro s hk ha
      rw [List.append_nil]
      exact ⟨hk, ha⟩
    | cons call calls ih =>
      intro s hk ha
      have hone := DropState.recorded past hk ha call
      have hrest := ih (past ++ [call]) _ hone.kept hone.aged
      rw [List.append_assoc, List.singleton_append] at hrest
      exact hrest
  obtain ⟨hk, ha⟩ := hall [] calls _ (tableKept_new self_endpoint_id) List.Pairwise.nil
  exact ⟨hk, fun call => DropState.recorded calls hk ha call⟩

end Laws

end iroh_drop
