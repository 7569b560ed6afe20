-- The laws of the tables: what an offer or a provider assertion teaches a
-- session, and what two sessions that learn the same have in common.
import IrohDrop.History

open rust_std

namespace iroh_drop

variable [Crypto]

/-! ## What a message teaches -/

/-- What an offer or a provider assertion does to the tables. -/
def DropState.learn (self : DropState) (verified : VerifiedMessage) (now : Instant) : DropState :=
  match verified.body with
  | some (.Offer offer) => (self.record_offer_inner verified.author offer now).2
  | some (.Provider provider) =>
    (self.assert_provider provider.blob_hash verified.author (provider.announced_at_ms.getD 0)
      verified.message.id (decide (provider.state = .Withdrawing))).2
  | _ => self

/-- The tables of two states agree on the providers, on the accounts of the
authors, and on the hashes that are offered. -/
structure SameTables (a b : DropState) : Prop where
  providers : b.providers = a.providers
  offers_per_author : b.offers_per_author = a.offers_per_author
  offers : ∀ hash, hash ∈ b.offers ↔ hash ∈ a.offers
  count : HashMap.len b.offers = HashMap.len a.offers

namespace SameTables

theorem refl (a : DropState) : SameTables a a := ⟨rfl, rfl, fun _ => Iff.rfl, rfl⟩

theorem symm {a b : DropState} (h : SameTables a b) : SameTables b a :=
  ⟨h.1.symm, h.2.symm, fun hash => (h.3 hash).symm, h.4.symm⟩

theorem trans {a b c : DropState} (hab : SameTables a b) (hbc : SameTables b c) :
    SameTables a c :=
  ⟨hbc.1.trans hab.1, hbc.2.trans hab.2, fun hash => (hbc.3 hash).trans (hab.3 hash),
    hbc.4.trans hab.4⟩

end SameTables

namespace DropState

variable (s : DropState)

theorem sameTables_noted (key : DedupKey) (now : Instant) : SameTables s (s.noted key now) :=
  ⟨rfl, rfl, fun _ => Iff.rfl, rfl⟩

theorem sameTables_retain_frame (frame : Bytes) : SameTables s (s.retain_frame frame) :=
  ⟨rfl, rfl, fun _ => Iff.rfl, rfl⟩

/-- A table within its cap evicts nothing. -/
theorem evict_offers_small (h : HashMap.len s.offers ≤ MAX_OFFERS) (order : List BlobHash) :
    s.evict_offers order = ({ s with offer_order := order }, []) := by
  cases order with
  | nil => rfl
  | cons oldest rest =>
    unfold evict_offers
    rw [if_neg (by omega)]

/-- What an offer can do to a table that has room: nothing, when its author
is over the quota; a name more, when the hash is known; a new entry. -/
inductive Offered (author : EndpointId) (hash : BlobHash) (s' : DropState) : Prop where
  | over_quota (new : hash ∉ s.offers) (quota : ¬ s.author_has_quota author) (same : s' = s)
  | known (old : hash ∈ s.offers)
      (providers : s'.providers =
        HashMap.update s.providers hash {} (fun set => set.add author true))
      (offers_per_author : s'.offers_per_author = s.offers_per_author)
      (offers : ∀ x, x ∈ s'.offers ↔ x ∈ s.offers)
      (count : HashMap.len s'.offers = HashMap.len s.offers)
  | new (new : hash ∉ s.offers) (quota : s.author_has_quota author)
      (providers : s'.providers =
        HashMap.update s.providers hash {} (fun set => set.add author true))
      (offers_per_author : s'.offers_per_author =
        HashMap.update s.offers_per_author author 0 (· + 1))
      (offers : ∀ x, x ∈ s'.offers ↔ x = hash ∨ x ∈ s.offers)
      (count : HashMap.len s'.offers = HashMap.len s.offers + 1)

theorem offered (h : HashMap.len s.offers < MAX_OFFERS) (author : EndpointId) (offer : OfferV1)
    (now : Instant) :
    s.Offered author offer.blob_hash (s.record_offer_inner author offer now).2 := by
  unfold record_offer_inner
  extract_lets hash s₁ s₂ record s₃
  by_cases hmem : hash ∈ s.offers
  · rw [if_neg (fun hc => hc.1 hmem)]
    have hlookup : s₂.offers.lookup hash = s.offers.lookup hash := rfl
    rw [hlookup]
    rcases hl : s.offers.lookup hash with _ | r
    · exact absurd hmem (AList.lookup_eq_none.mp hl)
    · refine .known hmem rfl rfl ?_ ?_
      · intro x
        simp only [AList.mem_insert]
        constructor
        · rintro (rfl | hx)
          · exact hmem
          · exact hx
        · exact .inr
      · simp only [HashMap.len_insert]
        exact if_pos hmem
  · by_cases hquota : s.author_has_quota author
    · rw [if_neg (fun hc => hc.2 hquota)]
      have hlookup : s₂.offers.lookup hash = none := AList.lookup_eq_none.mpr hmem
      rw [hlookup]
      have hlen : HashMap.len s₃.offers = HashMap.len s.offers + 1 := by
        simp only [s₃, HashMap.len_insert]
        exact if_neg hmem
      have hcap : s₃.enforce_offer_cap = (s₃, []) :=
        s₃.evict_offers_small (by omega) s₃.offer_order
      simp only [hcap]
      refine .new hmem hquota rfl rfl ?_ hlen
      intro x
      exact AList.mem_insert _
    · rw [if_pos ⟨hmem, hquota⟩]
      exact .over_quota hmem hquota rfl

end DropState

/-! ## Learning the same -/

theorem SameTables.author_has_quota {a b : DropState} (h : SameTables a b) (author : EndpointId) :
    b.author_has_quota author ↔ a.author_has_quota author := by
  unfold DropState.author_has_quota
  rw [h.offers_per_author]

theorem SameTables.record_offer_inner {a b : DropState} (h : SameTables a b)
    (hlen : HashMap.len a.offers < MAX_OFFERS) (author : EndpointId) (offer : OfferV1)
    (at₁ at₂ : Instant) :
    SameTables (a.record_offer_inner author offer at₁).2
      (b.record_offer_inner author offer at₂).2 := by
  have ha := a.offered hlen author offer at₁
  have hb := b.offered (h.count ▸ hlen) author offer at₂
  have hmem := h.offers offer.blob_hash
  have hquota := h.author_has_quota author
  generalize (a.record_offer_inner author offer at₁).2 = a' at ha ⊢
  generalize (b.record_offer_inner author offer at₂).2 = b' at hb ⊢
  cases ha with
  | over_quota new quota same =>
    cases hb with
    | over_quota _ _ same' =>
      rw [same, same']
      exact h
    | known old => exact absurd (hmem.mp old) new
    | new _ quota' => exact absurd (hquota.mp quota') quota
  | known old providers per_author offers count =>
    cases hb with
    | over_quota new => exact absurd (hmem.mpr old) new
    | known _ providers' per_author' offers' count' =>
      refine ⟨?_, ?_, ?_, ?_⟩
      · rw [providers, providers', h.providers]
      · rw [per_author, per_author', h.offers_per_author]
      · intro x
        rw [offers', offers, h.offers]
      · rw [count, count', h.count]
    | new new => exact absurd (hmem.mpr old) new
  | new new quota providers per_author offers count =>
    cases hb with
    | over_quota _ quota' => exact absurd (hquota.mpr quota) quota'
    | known old => exact absurd (hmem.mp old) new
    | new _ _ providers' per_author' offers' count' =>
      refine ⟨?_, ?_, ?_, ?_⟩
      · rw [providers, providers', h.providers]
      · rw [per_author, per_author', h.offers_per_author]
      · intro x
        rw [offers', offers, h.offers]
      · rw [count, count', h.count]

theorem SameTables.learn {a b : DropState} (h : SameTables a b)
    (hlen : HashMap.len a.offers < MAX_OFFERS) (verified : VerifiedMessage)
    (at₁ at₂ : Instant) : SameTables (a.learn verified at₁) (b.learn verified at₂) := by
  unfold DropState.learn
  split
  · exact h.record_offer_inner hlen verified.author _ at₁ at₂
  · refine ⟨?_, h.offers_per_author, h.offers, h.count⟩
    simp only [DropState.assert_provider, h.providers]
  · exact h

namespace DropState

variable (s : DropState)

/-- A message more is an offer more at most. -/
theorem learn_count (hlen : HashMap.len s.offers < MAX_OFFERS) (verified : VerifiedMessage)
    (now : Instant) :
    HashMap.len (s.learn verified now).offers ≤ HashMap.len s.offers + 1 := by
  unfold learn
  split
  · rename_i offer _
    cases s.offered hlen verified.author offer now with
    | over_quota _ _ same => rw [same]; omega
    | known _ _ _ _ count => omega
    | new _ _ _ _ _ count => omega
  · exact Nat.le_succ _
  · exact Nat.le_succ _

/-- While the table has room, no provider entry goes. -/
theorem learn_providers (hlen : HashMap.len s.offers < MAX_OFFERS) (verified : VerifiedMessage)
    (now : Instant) {hash : BlobHash} (h : hash ∈ s.providers) :
    hash ∈ (s.learn verified now).providers := by
  unfold learn
  split
  · rename_i offer _
    cases s.offered hlen verified.author offer now with
    | over_quota _ _ same => rw [same]; exact h
    | known _ providers => rw [providers]; exact (AList.mem_insert _).mpr (.inr h)
    | new _ _ providers => rw [providers]; exact (AList.mem_insert _).mpr (.inr h)
  · exact (AList.mem_insert _).mpr (.inr h)
  · exact h

end DropState

/-! ## Offers within the quotas of their authors -/

/-- The hash that a message offers, if it is an offer of this author. -/
def offered_by (author : EndpointId) (verified : VerifiedMessage) : Option BlobHash :=
  match verified.body with
  | some (.Offer offer) => if verified.author = author then some offer.blob_hash else none
  | _ => none

/-- No author offers more hashes than its quota. -/
def WithinQuotas (messages : List VerifiedMessage) : Prop :=
  ∀ author, (messages.filterMap (offered_by author)).toFinset.card ≤ MAX_OFFERS_PER_AUTHOR

/-- The accounts of the authors are covered by what they offer, all of which
is in the table. -/
def Accounted (messages : List VerifiedMessage) (s : DropState) : Prop :=
  ∀ author, ∃ hashes : Finset BlobHash,
    hashes ⊆ (messages.filterMap (offered_by author)).toFinset ∧
    (∀ hash ∈ hashes, hash ∈ s.offers) ∧
    (s.offers_per_author.lookup author).getD 0 ≤ hashes.card

theorem Accounted.of_sameTables {messages : List VerifiedMessage} {a b : DropState}
    (h : Accounted messages a) (hs : SameTables a b) : Accounted messages b := by
  intro author
  obtain ⟨hashes, hsub, hmem, hcount⟩ := h author
  refine ⟨hashes, hsub, fun hash hh => (hs.offers hash).mpr (hmem hash hh), ?_⟩
  rw [hs.offers_per_author]
  exact hcount

/-- Within the quotas an offer is always taken. -/
theorem Accounted.learn {messages : List VerifiedMessage} {s : DropState}
    (h : Accounted messages s) (hquotas : WithinQuotas messages)
    (hlen : HashMap.len s.offers < MAX_OFFERS) {verified : VerifiedMessage}
    (hv : verified ∈ messages) (now : Instant) :
    Accounted messages (s.learn verified now) ∧
      (∀ hash ∈ s.offers, hash ∈ (s.learn verified now).offers) ∧
      ∀ offer, verified.body = some (.Offer offer) →
        offer.blob_hash ∈ (s.learn verified now).offers := by
  unfold DropState.learn
  split
  · rename_i offer hbody
    have hoffered : offer.blob_hash ∈
        (messages.filterMap (offered_by verified.author)).toFinset := by
      rw [List.mem_toFinset, List.mem_filterMap]
      refine ⟨verified, hv, ?_⟩
      simp only [offered_by, hbody, if_true]
    cases s.offered hlen verified.author offer now with
    | over_quota new quota =>
      -- The hash would be one more than the quota.
      obtain ⟨hashes, hsub, hmem, hcount⟩ := h verified.author
      have hnew : offer.blob_hash ∉ hashes := fun hh => new (hmem _ hh)
      have hcard := Finset.card_le_card (Finset.insert_subset hoffered hsub)
      rw [Finset.card_insert_of_notMem hnew] at hcard
      have hmax := hquotas verified.author
      refine absurd ?_ quota
      unfold DropState.author_has_quota
      omega
    | known old _ per_author offers =>
      refine ⟨?_, fun hash hh => (offers hash).mpr hh, ?_⟩
      · intro author
        obtain ⟨hashes, hsub, hmem, hcount⟩ := h author
        exact ⟨hashes, hsub, fun hash hh => (offers hash).mpr (hmem hash hh),
          per_author ▸ hcount⟩
      · intro offer' hbody'
        rw [hbody] at hbody'
        cases hbody'
        exact (offers _).mpr old
    | new new _ _ per_author offers =>
      refine ⟨?_, fun hash hh => (offers hash).mpr (.inr hh), ?_⟩
      · intro author
        obtain ⟨hashes, hsub, hmem, hcount⟩ := h author
        by_cases hauthor : author = verified.author
        · subst hauthor
          refine ⟨insert offer.blob_hash hashes, Finset.insert_subset hoffered hsub, ?_, ?_⟩
          · intro hash hh
            rw [offers]
            exact (Finset.mem_insert.mp hh).imp_right (hmem hash)
          · rw [Finset.card_insert_of_notMem (fun hh => new (hmem _ hh)), per_author,
              HashMap.update, AList.lookup_insert]
            exact Nat.succ_le_succ hcount
        · refine ⟨hashes, hsub, fun hash hh => (offers hash).mpr (.inr (hmem hash hh)), ?_⟩
          rw [per_author, HashMap.update, AList.lookup_insert_ne hauthor]
          exact hcount
      · intro offer' hbody'
        rw [hbody] at hbody'
        cases hbody'
        exact (offers _).mpr (.inl rfl)
  · rename_i hbody
    refine ⟨h, fun _ hh => hh, ?_⟩
    intro offer hoffer
    rw [hbody] at hoffer
    cases hoffer
  · rename_i hno _
    refine ⟨h, fun _ hh => hh, ?_⟩
    intro offer hoffer
    exact absurd hoffer (hno offer)

end iroh_drop
