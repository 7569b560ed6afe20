-- What a session knows of others: the records of its table, the names in them
-- and the assertions of its provider index are what was said, by whom it was said.
import IrohDrop.Calls
import IrohDrop.OfferRuns
import IrohDrop.Tombstones

open rust_std postcard

namespace iroh_drop

section Laws

variable [Crypto]

/-- What was said, and by whom. -/
structure Sayings where
  offered : EndpointId → OfferV1 → Prop
  asserted : EndpointId → BlobHash → UInt64 → FixedBytes 16 → Bool → Prop

variable {said : Sayings}

/-! ## Providers of a blob -/

/-- An entry that counts as asserted is as its peer asserted it last, nobody is
withdrawn who did not say so, and the first offerer did offer the blob. -/
structure ProviderSet.Quotes (said : Sayings) (hash : BlobHash) (set : ProviderSet) : Prop where
  asserted : ∀ peer info, set.providers.lookup peer = some info → info.announced = true →
    said.asserted peer hash info.announced_at_ms info.last_frame_id info.withdrawn
  withdrawn : ∀ peer info, set.providers.lookup peer = some info → info.withdrawn = true →
    info.announced = true
  original : ∀ peer, set.original = some peer →
    ∃ offer, said.offered peer offer ∧ offer.blob_hash = hash

namespace ProviderSet

variable {hash : BlobHash} {set : ProviderSet}

theorem quotes_empty (said : Sayings) (hash : BlobHash) : ({} : ProviderSet).Quotes said hash := by
  constructor
  · intro peer info h
    cases h
  · intro peer info h
    cases h
  · intro peer h
    cases h

/-- The entry is one of the set, but for its failures, or it is empty. -/
def Knew (set : ProviderSet) (peer : EndpointId) (info : ProviderInfo) : Prop :=
  (info.announced = false ∧ info.withdrawn = false) ∨
    ∃ old, set.providers.lookup peer = some old ∧ info.announced = old.announced ∧
      info.announced_at_ms = old.announced_at_ms ∧ info.last_frame_id = old.last_frame_id ∧
      info.withdrawn = old.withdrawn

/-- A change that brings in no assertion. -/
theorem Quotes.of_knew (h : set.Quotes said hash) {set' : ProviderSet}
    (hknew : ∀ peer info, set'.providers.lookup peer = some info → set.Knew peer info)
    (horiginal : ∀ peer, set'.original = some peer →
      set.original = some peer ∨ ∃ offer, said.offered peer offer ∧ offer.blob_hash = hash) :
    set'.Quotes said hash := by
  refine ⟨?_, ?_, ?_⟩
  · intro peer info hinfo hannounced
    rcases hknew peer info hinfo with ⟨hnone, -⟩ | ⟨old, hold, h₁, h₂, h₃, h₄⟩
    · cases hnone.symm.trans hannounced
    · rw [h₂, h₃, h₄]
      exact h.asserted peer old hold (h₁ ▸ hannounced)
  · intro peer info hinfo hwithdrawn
    rcases hknew peer info hinfo with ⟨-, hnone⟩ | ⟨old, hold, h₁, -, -, h₄⟩
    · cases hnone.symm.trans hwithdrawn
    · rw [h₁]
      exact h.withdrawn peer old hold (h₄ ▸ hwithdrawn)
  · intro peer hpeer
    rcases horiginal peer hpeer with hold | hnew
    · exact h.original peer hold
    · exact hnew

theorem knew_of_lookup {peer : EndpointId} {info : ProviderInfo}
    (h : set.providers.lookup peer = some info) : set.Knew peer info :=
  .inr ⟨info, h, rfl, rfl, rfl, rfl⟩

/-- Changing the failures of an entry, or making one, brings in no assertion. -/
theorem knew_update {id peer : EndpointId} {info : ProviderInfo} {f : ProviderInfo → ProviderInfo}
    (hf : ∀ i, (f i).announced = i.announced ∧ (f i).announced_at_ms = i.announced_at_ms ∧
      (f i).last_frame_id = i.last_frame_id ∧ (f i).withdrawn = i.withdrawn)
    (h : (HashMap.update set.providers id {} f).lookup peer = some info) : set.Knew peer info := by
  unfold HashMap.update at h
  rw [HashMap.lookup_insert'] at h
  split at h
  · rename_i heq
    cases h
    rcases hold : set.providers.lookup id with _ | old
    · left
      simp only [Option.getD_none, (hf {}).1, (hf {}).2.2.2, and_self]
    · obtain ⟨h₁, h₂, h₃, h₄⟩ := hf old
      exact .inr ⟨old, heq ▸ hold, h₁, h₂, h₃, h₄⟩
  · exact knew_of_lookup h

theorem quotes_add (h : set.Quotes said hash) {id : EndpointId} {is_original : Bool}
    (hsaid : is_original = true → ∃ offer, said.offered id offer ∧ offer.blob_hash = hash) :
    (set.add id is_original).Quotes said hash := by
  apply h.of_knew
  · intro peer info hinfo
    exact knew_update (fun i => ⟨rfl, rfl, rfl, rfl⟩) hinfo
  · intro peer hpeer
    unfold add at hpeer
    simp only at hpeer
    split at hpeer
    · rename_i hfirst
      cases hpeer
      exact .inr (hsaid (Bool.and_eq_true_iff.mp hfirst).1)
    · exact .inl hpeer

theorem quotes_mark_failure (h : set.Quotes said hash) (id : EndpointId) (now : Instant) :
    (set.mark_failure id now).Quotes said hash := by
  apply h.of_knew
  · intro peer info hinfo
    unfold mark_failure at hinfo
    refine knew_update ?_ hinfo
    intro i
    exact ⟨rfl, rfl, rfl, rfl⟩
  · intro peer hpeer
    exact .inl hpeer

theorem quotes_mark_success (h : set.Quotes said hash) (id : EndpointId) :
    (set.mark_success id).Quotes said hash := by
  apply h.of_knew
  · intro peer info hinfo
    unfold mark_success at hinfo
    simp only at hinfo
    rw [HashMap.lookup_modify] at hinfo
    split at hinfo
    · rename_i heq
      obtain ⟨old, hold, rfl⟩ := Option.map_eq_some_iff.mp hinfo
      exact .inr ⟨old, heq ▸ hold, rfl, rfl, rfl, rfl⟩
    · exact knew_of_lookup hinfo
  · intro peer hpeer
    exact .inl hpeer

theorem enforce_cap_original (set : ProviderSet) {peer : EndpointId}
    (h : set.enforce_cap.original = some peer) : set.original = some peer := by
  have hremove : ∀ (l : List (EndpointId × ProviderInfo)) (set : ProviderSet),
      (l.foldl (fun set e => set.remove e.1) set).original = some peer →
        set.original = some peer := by
    intro l
    induction l with
    | nil => exact fun set h => h
    | cons e l ih =>
      intro set h
      have hone := ih (set.remove e.1) h
      unfold remove at hone
      simp only at hone
      split at hone
      · cases hone
      · exact hone
  unfold enforce_cap at h
  split at h
  · exact h
  · exact hremove _ set h

theorem quotes_enforce_cap (h : set.Quotes said hash) : set.enforce_cap.Quotes said hash := by
  apply h.of_knew
  · intro peer info hinfo
    have hcap := set.enforce_cap_lookup peer
    by_cases hspared : set.spares peer
    · rw [hcap.1 hspared] at hinfo
      exact knew_of_lookup hinfo
    · rw [hcap.2 hspared] at hinfo
      cases hinfo
  · intro peer hpeer
    exact .inl (set.enforce_cap_original hpeer)

/-- An assertion goes into the set as it was made, or not at all. -/
theorem quotes_record (h : set.Quotes said hash) {id : EndpointId} {announced_at_ms : UInt64}
    {frame_id : FixedBytes 16} {withdrawn : Bool}
    (hsaid : said.asserted id hash announced_at_ms frame_id withdrawn) :
    (set.record id announced_at_ms frame_id withdrawn).2.Quotes said hash := by
  unfold record
  simp only
  split
  · apply h.of_knew
    · intro peer info hinfo
      exact knew_update (f := fun i => i) (fun i => ⟨rfl, rfl, rfl, rfl⟩) hinfo
    · intro peer hpeer
      exact .inl hpeer
  · apply quotes_enforce_cap
    refine ⟨?_, ?_, ?_⟩
    · intro peer info hinfo hannounced
      simp only at hinfo
      rw [HashMap.lookup_insert'] at hinfo
      split at hinfo
      · rename_i heq
        cases hinfo
        rw [heq]
        exact hsaid
      · exact h.asserted peer info hinfo hannounced
    · intro peer info hinfo hwithdrawn
      simp only at hinfo
      rw [HashMap.lookup_insert'] at hinfo
      split at hinfo
      · cases hinfo
        rfl
      · exact h.withdrawn peer info hinfo hwithdrawn
    · intro peer hpeer
      simp only at hpeer
      split at hpeer
      · cases hpeer
      · exact h.original peer hpeer

end ProviderSet

/-! ## The tables of a drop -/

/-- Each record is of an offer that was made, by whom it was made first, each
name in it was given to the blob by someone, and each provider set is as its
peers have it. -/
structure DropState.Quotes (said : Sayings) (s : DropState) : Prop where
  records : ∀ hash record, s.offers.lookup hash = some record →
    record.offer.blob_hash = hash ∧ said.offered record.first_seen_from record.offer
  aliases : ∀ hash record name, s.offers.lookup hash = some record → name ∈ record.aliases →
    ∃ author offer, said.offered author offer ∧ offer.blob_hash = hash ∧ offer.name = name
  providers : ∀ hash set, s.providers.lookup hash = some set → set.Quotes said hash

namespace DropState

variable {s : DropState}

theorem quotes_new (said : Sayings) (own : EndpointId) : (new own).Quotes said := by
  constructor
  · intro hash record h
    cases h
  · intro hash record name h
    cases h
  · intro hash set h
    cases h

/-- The operation notes down only what was said. -/
def Op.quotes (said : Sayings) : Op → Prop
  | .record_offer_inner author offer _ => said.offered author offer
  | .assert_provider hash peer announced_at_ms frame_id withdrawn =>
    said.asserted peer hash announced_at_ms frame_id withdrawn
  | _ => True

theorem Quotes.of_tables (h : s.Quotes said) {s' : DropState} (hoffers : s'.offers = s.offers)
    (hproviders : s'.providers = s.providers) : s'.Quotes said := by
  refine ⟨?_, ?_, ?_⟩
  · rw [hoffers]
    exact h.records
  · rw [hoffers]
    exact h.aliases
  · rw [hproviders]
    exact h.providers

/-- A set that is changed, or made, keeps to what was said. -/
theorem Quotes.update_providers (h : s.Quotes said) {hash : BlobHash}
    {f : ProviderSet → ProviderSet}
    (hf : ∀ set, set.Quotes said hash → (f set).Quotes said hash) :
    ({ s with providers := HashMap.update s.providers hash {} f } : DropState).Quotes said := by
  refine ⟨h.records, h.aliases, ?_⟩
  intro other set hset
  simp only [HashMap.update] at hset
  rw [HashMap.lookup_insert'] at hset
  split at hset
  · rename_i heq
    cases hset
    rw [heq]
    apply hf
    rcases hold : s.providers.lookup hash with _ | old
    · exact ProviderSet.quotes_empty said hash
    · exact h.providers hash old hold
  · exact h.providers other set hset

theorem Quotes.modify_providers (h : s.Quotes said) {hash : BlobHash}
    {f : ProviderSet → ProviderSet}
    (hf : ∀ set, set.Quotes said hash → (f set).Quotes said hash) :
    ({ s with providers := HashMap.modify s.providers hash f } : DropState).Quotes said := by
  refine ⟨h.records, h.aliases, ?_⟩
  intro other set hset
  simp only at hset
  rw [HashMap.lookup_modify] at hset
  split at hset
  · rename_i heq
    obtain ⟨old, hold, rfl⟩ := Option.map_eq_some_iff.mp hset
    rw [heq]
    exact hf old (h.providers hash old hold)
  · exact h.providers other set hset

/-- Eviction only takes away. -/
theorem quotes_evict_offers (h : s.Quotes said) (order : List BlobHash) :
    (s.evict_offers order).1.Quotes said := by
  induction order generalizing s with
  | nil => exact h.of_tables rfl rfl
  | cons oldest rest ih =>
    unfold evict_offers
    split
    · split
      · apply ih
        refine ⟨?_, ?_, ?_⟩
        · intro hash record hrecord
          simp only at hrecord
          rw [HashMap.lookup_erase'] at hrecord
          split at hrecord
          · cases hrecord
          · exact h.records hash record hrecord
        · intro hash record name hrecord
          simp only at hrecord
          rw [HashMap.lookup_erase'] at hrecord
          split at hrecord
          · cases hrecord
          · exact h.aliases hash record name hrecord
        · intro hash set hset
          simp only at hset
          rw [HashMap.lookup_erase'] at hset
          split at hset
          · cases hset
          · exact h.providers hash set hset
      · exact ih h
    · exact h.of_tables rfl rfl

/-- The tables with an offer noted for its hash. -/
theorem quotes_offer_noted (h : s.Quotes said) {author : EndpointId} {offer : OfferV1}
    (hsaid : said.offered author offer) :
    (s.offer_noted author offer.blob_hash).Quotes said := by
  have hadd : ∀ set : ProviderSet, set.Quotes said offer.blob_hash →
      (set.add author true).Quotes said offer.blob_hash :=
    fun set hset => ProviderSet.quotes_add hset (fun _ => ⟨offer, hsaid, rfl⟩)
  exact (h.update_providers hadd).of_tables rfl rfl

theorem mem_add_alias {record : OfferRecord} {name other : String}
    (h : other ∈ (record.add_alias name).aliases) : other = name ∨ other ∈ record.aliases := by
  unfold OfferRecord.add_alias at h
  split at h
  · exact (AList.mem_insert _).mp h
  · exact .inr h

theorem add_alias_first (record : OfferRecord) (name : String) :
    (record.add_alias name).offer = record.offer ∧
      (record.add_alias name).first_seen_from = record.first_seen_from := by
  unfold OfferRecord.add_alias
  split
  · exact ⟨rfl, rfl⟩
  · exact ⟨rfl, rfl⟩

theorem quotes_record_offer_inner (h : s.Quotes said) {author : EndpointId} {offer : OfferV1}
    (hsaid : said.offered author offer) (now : Instant) :
    (s.record_offer_inner author offer now).2.Quotes said := by
  have hnoted := quotes_offer_noted h hsaid
  rcases hold : s.offers.lookup offer.blob_hash with _ | record
  · have hnew : offer.blob_hash ∉ s.offers := AList.lookup_eq_none.mp hold
    by_cases hquota : s.author_has_quota author
    · rw [record_offer_inner_new hnew hquota]
      apply quotes_evict_offers
      refine ⟨?_, ?_, hnoted.providers⟩
      · intro hash record hrecord
        simp only [offer_listed] at hrecord
        rw [HashMap.lookup_insert'] at hrecord
        split at hrecord
        · rename_i heq
          cases hrecord
          exact ⟨heq.symm, hsaid⟩
        · exact hnoted.records hash record hrecord
      · intro hash record name hrecord hname
        simp only [offer_listed] at hrecord
        rw [HashMap.lookup_insert'] at hrecord
        split at hrecord
        · rename_i heq
          cases hrecord
          rcases (AList.mem_insert _).mp hname with rfl | hnone
          · exact ⟨author, offer, hsaid, heq.symm, rfl⟩
          · cases hnone
        · exact hnoted.aliases hash record name hrecord hname
    · rw [record_offer_inner_over hnew hquota]
      exact h
  · rw [record_offer_inner_known hold]
    refine ⟨?_, ?_, hnoted.providers⟩
    · intro hash record' hrecord
      simp only at hrecord
      rw [HashMap.lookup_insert'] at hrecord
      split at hrecord
      · rename_i heq
        cases hrecord
        rw [(add_alias_first record offer.name).1, (add_alias_first record offer.name).2, heq]
        exact h.records _ record hold
      · exact hnoted.records hash record' hrecord
    · intro hash record' name hrecord hname
      simp only at hrecord
      rw [HashMap.lookup_insert'] at hrecord
      split at hrecord
      · rename_i heq
        cases hrecord
        rcases mem_add_alias hname with rfl | holdname
        · exact ⟨author, offer, hsaid, heq.symm, rfl⟩
        · rw [heq]
          exact h.aliases _ record name hold holdname
      · exact hnoted.aliases hash record' name hrecord hname

theorem quotes_set_local_status (h : s.Quotes said) (hash : BlobHash) (status : LocalBlobStatus) :
    (s.set_local_status hash status).Quotes said := by
  have hold : ∀ {other : BlobHash} {record : OfferRecord},
      (s.set_local_status hash status).offers.lookup other = some record →
        ∃ old, s.offers.lookup other = some old ∧ record.offer = old.offer ∧
          record.first_seen_from = old.first_seen_from ∧ record.aliases = old.aliases := by
    intro other record hrecord
    simp only [set_local_status] at hrecord
    rw [HashMap.lookup_modify] at hrecord
    split at hrecord
    · rename_i heq
      obtain ⟨old, hold, rfl⟩ := Option.map_eq_some_iff.mp hrecord
      exact ⟨old, heq ▸ hold, rfl, rfl, rfl⟩
    · exact ⟨record, hrecord, rfl, rfl, rfl⟩
  refine ⟨?_, ?_, h.providers⟩
  · intro other record hrecord
    obtain ⟨old, hlookup, hoffer, hfrom, -⟩ := hold hrecord
    rw [hoffer, hfrom]
    exact h.records other old hlookup
  · intro other record name hrecord hname
    obtain ⟨old, hlookup, -, -, haliases⟩ := hold hrecord
    exact h.aliases other old name hlookup (haliases ▸ hname)

/-- An operation that notes down what was said keeps the tables to it. -/
theorem quotes_perform (h : s.Quotes said) {op : Op} (hop : op.quotes said) :
    (s.perform op).Quotes said := by
  cases op with
  | note_peer peer =>
    obtain ⟨known, order, hnoted⟩ := s.note_peer_tables peer
    simp only [perform, hnoted]
    exact h.of_tables rfl rfl
  | check_and_insert key now => exact h.of_tables rfl rfl
  | retain r frame =>
    obtain ⟨hoffers, hproviders, -⟩ := s.retain_tables r frame
    exact h.of_tables hoffers hproviders
  | record_offer_inner author offer now => exact quotes_record_offer_inner h hop now
  | assert_provider hash peer announced_at_ms frame_id withdrawn =>
    exact h.update_providers (f := fun set => (set.record peer announced_at_ms frame_id withdrawn).2)
      (fun set hset => ProviderSet.quotes_record hset hop)
  | set_local_status hash status => exact quotes_set_local_status h hash status
  | add_provider hash =>
    apply h.update_providers
    intro set hset
    apply ProviderSet.quotes_add hset
    intro hfirst
    cases hfirst
  | mark_failure hash id now =>
    exact h.modify_providers (fun set hset => ProviderSet.quotes_mark_failure hset id now)
  | mark_success hash id =>
    exact h.modify_providers (fun set hset => ProviderSet.quotes_mark_success hset id)

theorem quotes_ops (ops : List Op) (hops : ∀ op ∈ ops, op.quotes said) (h : s.Quotes said) :
    (ops.foldl perform s).Quotes said := by
  induction ops generalizing s with
  | nil => exact h
  | cons op ops ih =>
    have hrest : ∀ op ∈ ops, op.quotes said := fun op hop => hops op (List.mem_cons_of_mem _ hop)
    exact ih hrest (quotes_perform h (hops op (List.mem_cons_self ..)))

end DropState

end Laws

end iroh_drop
