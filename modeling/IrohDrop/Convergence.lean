-- The law of delivery: what a set of offers and provider assertions leaves
-- in the tables does not depend on the order in which they come.
import IrohDrop.OfferTable

open rust_std

namespace iroh_drop

theorem mem_filterMap_push {α β : Type} (f : α → Option β) (l : List α) (a : α) (b : β) :
    b ∈ (l ++ [a]).filterMap f ↔ b ∈ l.filterMap f ∨ f a = some b := by
  rw [List.filterMap_append, List.mem_append]
  simp only [List.mem_filterMap, List.mem_singleton, exists_eq_left]

section Laws

variable [Crypto]

/-! ## What the messages tell -/

/-- The hash that a message offers. -/
def offered_hash (verified : VerifiedMessage) : Option BlobHash :=
  match verified.body with
  | some (.Offer offer) => some offer.blob_hash
  | _ => none

/-- The name under which a message offers the hash. -/
def offered_name (hash : BlobHash) (verified : VerifiedMessage) : Option String :=
  match verified.body with
  | some (.Offer offer) => if offer.blob_hash = hash then some offer.name else none
  | _ => none

/-- The author that a message makes a provider of the hash: who offers it is
taken to serve it. -/
def provider_of (hash : BlobHash) (verified : VerifiedMessage) : Option EndpointId :=
  match verified.body with
  | some (.Offer offer) => if offer.blob_hash = hash then some verified.author else none
  | some (.Provider provider) =>
    if provider.blob_hash = hash then some verified.author else none
  | _ => none

/-- What an author says of itself: when, in which frame, and what. -/
structure Assertion where
  announced_at_ms : UInt64
  frame_id : FixedBytes 16
  withdrawn : Bool

/-- The order of the assertions of one author. -/
def Assertion.key (self : Assertion) : ℕ ×ₗ FixedBytes 16 :=
  toLex (self.announced_at_ms.toNat, self.frame_id)

/-- What a message says of its author as a provider of the hash. -/
def assertion_of (hash : BlobHash) (author : EndpointId) (verified : VerifiedMessage) :
    Option Assertion :=
  match verified.body with
  | some (.Provider provider) =>
    if provider.blob_hash = hash ∧ verified.author = author then
      some { announced_at_ms := provider.announced_at_ms.getD 0, frame_id := verified.message.id
             withdrawn := decide (provider.state = .Withdrawing) }
    else none
  | _ => none

/-- The assertion of the author that no other one comes after. -/
def Greatest (messages : List VerifiedMessage) (hash : BlobHash) (author : EndpointId)
    (x : Assertion) : Prop :=
  (∃ m ∈ messages, assertion_of hash author m = some x) ∧
    ∀ m ∈ messages, ∀ y, assertion_of hash author m = some y → y.key ≤ x.key

/-- No assertion of the author about the hash is among the messages. -/
def Unasserted (messages : List VerifiedMessage) (hash : BlobHash) (author : EndpointId) : Prop :=
  ∀ m ∈ messages, assertion_of hash author m = none

/-- No cap of the tables is exceeded by the messages. -/
structure WithinCaps (messages : List VerifiedMessage) : Prop where
  quotas : WithinQuotas messages
  offers : (messages.filterMap offered_hash).toFinset.card ≤ MAX_OFFERS
  providers : ∀ hash,
    (messages.filterMap (provider_of hash)).toFinset.card ≤ MAX_PROVIDERS_PER_BLOB
  aliases : ∀ hash,
    (messages.filterMap (offered_name hash)).toFinset.card ≤ MAX_ALIASES_PER_OFFER

/-! ## What the tables tell -/

namespace DropState

/-- The entry of a peer among the providers of a hash. -/
def provider_info (self : DropState) (hash : BlobHash) (peer : EndpointId) :
    Option ProviderInfo :=
  (self.providers.lookup hash).bind (fun set => set.providers.lookup peer)

/-- The peer is one of those that a fetch of the hash would try. -/
def serves (self : DropState) (hash : BlobHash) (peer : EndpointId) : Prop :=
  ∃ set, self.providers.lookup hash = some set ∧ peer ∈ set.ordered

/-- The name is one of those under which the hash is known. -/
def knows_as (self : DropState) (hash : BlobHash) (name : String) : Prop :=
  ∃ record, self.offers.lookup hash = some record ∧ name ∈ record.aliases

end DropState

theorem mem_ordered_iff (set : ProviderSet) (peer : EndpointId) :
    peer ∈ set.ordered ↔
      ∃ info, set.providers.lookup peer = some info ∧ info.withdrawn = false := by
  unfold ProviderSet.ordered ProviderSet.entries
  simp only [List.mem_map, List.mem_insertionSort, List.mem_filter, Bool.not_eq_true',
    Prod.exists]
  constructor
  · rintro ⟨id, info, ⟨⟨e, he, heq⟩, hlive⟩, rfl⟩
    cases heq
    exact ⟨e.2, (List.mem_dlookup_iff set.providers.nodupKeys).mpr he, hlive⟩
  · rintro ⟨info, hlookup, hlive⟩
    have hmem := (List.mem_dlookup_iff set.providers.nodupKeys).mp hlookup
    exact ⟨peer, info, ⟨⟨_, hmem, rfl⟩, hlive⟩, rfl⟩

theorem DropState.serves_iff (s : DropState) (hash : BlobHash) (peer : EndpointId) :
    s.serves hash peer ↔ ∃ info, s.provider_info hash peer = some info ∧ info.withdrawn = false := by
  unfold serves provider_info
  rcases h : s.providers.lookup hash with _ | set
  · simp
  · simp only [Option.some.injEq, exists_eq_left', mem_ordered_iff, Option.bind_some]

/-! ## The tables after some messages -/

/-- What an entry has to do with the messages: there is none for an author
that neither offers nor asserts anything, an untouched one for an author that
only offers, and otherwise the greatest assertion stands. -/
def Stands (past : List VerifiedMessage) (hash : BlobHash) (author : EndpointId) :
    Option ProviderInfo → Prop
  | none => author ∉ past.filterMap (provider_of hash)
  | some info =>
    author ∈ past.filterMap (provider_of hash) ∧
      (Greatest past hash author ⟨info.announced_at_ms, info.last_frame_id, info.withdrawn⟩ ∨
        Unasserted past hash author ∧ info.announced_at_ms = 0 ∧
          info.last_frame_id = .fill 16 0 ∧ info.withdrawn = false)

/-- The tables are what the messages make of them. -/
structure Summarizes (past : List VerifiedMessage) (s : DropState) : Prop where
  kept : TableKept s
  aged : ∃ calls, Aged calls s
  offers : ∀ hash, hash ∈ s.offers ↔ hash ∈ past.filterMap offered_hash
  first : ∀ hash record, s.offers.lookup hash = some record →
    hash ∈ past.filterMap (offered_by record.first_seen_from)
  aliases : ∀ hash record, s.offers.lookup hash = some record →
    ∀ name, name ∈ record.aliases ↔ name ∈ past.filterMap (offered_name hash)
  providers : ∀ hash author, Stands past hash author (s.provider_info hash author)

/-! ## Entries of providers -/

/-- Who asserts something of itself is a provider. -/
theorem provider_of_assertion {hash : BlobHash} {author : EndpointId} {m : VerifiedMessage}
    {x : Assertion} (h : assertion_of hash author m = some x) :
    m.author = author ∧ provider_of hash m = some author := by
  unfold assertion_of at h
  split at h
  · rename_i provider hb
    split at h
    · rename_i hc
      refine ⟨hc.2, ?_⟩
      simp only [provider_of, hb, hc.1, hc.2, if_true]
    · cases h
  · cases h

theorem unasserted_of_not_mem {past : List VerifiedMessage} {hash : BlobHash}
    {author : EndpointId} (h : author ∉ past.filterMap (provider_of hash)) :
    Unasserted past hash author := by
  intro m hm
  by_contra hsome
  obtain ⟨x, hx⟩ := Option.ne_none_iff_exists'.mp hsome
  exact h (List.mem_filterMap.mpr ⟨m, hm, (provider_of_assertion hx).2⟩)

theorem Unasserted.push {past : List VerifiedMessage} {hash : BlobHash} {author : EndpointId}
    (h : Unasserted past hash author) {m : VerifiedMessage}
    (hm : assertion_of hash author m = none) : Unasserted (past ++ [m]) hash author := by
  intro m' hm'
  rcases List.mem_append.mp hm' with hold | hnew
  · exact h m' hold
  · rw [List.mem_singleton.mp hnew]
    exact hm

/-- A greatest assertion stays the greatest when nothing greater comes. -/
theorem Greatest.push {past : List VerifiedMessage} {hash : BlobHash} {author : EndpointId}
    {x : Assertion} (h : Greatest past hash author x) {m : VerifiedMessage}
    (hm : ∀ y, assertion_of hash author m = some y → y.key ≤ x.key) :
    Greatest (past ++ [m]) hash author x := by
  obtain ⟨⟨m', hm', hx⟩, hall⟩ := h
  refine ⟨⟨m', List.mem_append_left _ hm', hx⟩, ?_⟩
  intro m'' hm'' y hy
  rcases List.mem_append.mp hm'' with hold | hnew
  · exact hall m'' hold y hy
  · rw [List.mem_singleton.mp hnew] at hy
    exact hm y hy

theorem stands_push_other {past : List VerifiedMessage} {hash : BlobHash} {author : EndpointId}
    {info : Option ProviderInfo} (h : Stands past hash author info) {m : VerifiedMessage}
    (hm : provider_of hash m ≠ some author) : Stands (past ++ [m]) hash author info := by
  -- A message that makes the author no provider asserts nothing of it.
  have hnone : assertion_of hash author m = none := by
    by_contra hsome
    obtain ⟨x, hx⟩ := Option.ne_none_iff_exists'.mp hsome
    exact hm (provider_of_assertion hx).2
  cases info with
  | none =>
    intro hmem
    rcases (mem_filterMap_push _ _ _ _).mp hmem with hold | hnew
    · exact h hold
    · exact hm hnew
  | some info =>
    obtain ⟨hmem, hstands⟩ := h
    refine ⟨(mem_filterMap_push _ _ _ _).mpr (.inl hmem), ?_⟩
    rcases hstands with hgreat | ⟨hun, hrest⟩
    · refine .inl (hgreat.push ?_)
      intro y hy
      rw [hnone] at hy
      cases hy
    · exact .inr ⟨hun.push hnone, hrest⟩

/-- An offer leaves an entry of its author as it is, and makes one where
there is none. -/
theorem stands_push_offer {past : List VerifiedMessage} {hash : BlobHash} {m : VerifiedMessage}
    {offer : OfferV1} {info : Option ProviderInfo} (h : Stands past hash m.author info)
    (hb : m.body = some (.Offer offer)) (hash_eq : offer.blob_hash = hash) :
    Stands (past ++ [m]) hash m.author (some (info.getD {})) := by
  have hnone : assertion_of hash m.author m = none := by
    simp only [assertion_of, hb]
  have hprovides : provider_of hash m = some m.author := by
    simp only [provider_of, hb, hash_eq, if_true]
  refine ⟨(mem_filterMap_push _ _ _ _).mpr (.inr hprovides), ?_⟩
  cases info with
  | none => exact .inr ⟨(unasserted_of_not_mem h).push hnone, rfl, rfl, rfl⟩
  | some info =>
    rcases h.2 with hgreat | ⟨hold, hrest⟩
    · refine .inl (hgreat.push ?_)
      intro y hy
      rw [hnone] at hy
      cases hy
    · exact .inr ⟨hold.push hnone, hrest⟩

/-- The entry that an assertion leaves, when no cap is in the way. -/
def asserted_info (entry : ProviderInfo) (x : Assertion) : ProviderInfo :=
  if assertion_lt x.announced_at_ms x.frame_id entry.announced_at_ms entry.last_frame_id then entry
  else { entry with announced := true, announced_at_ms := x.announced_at_ms
                    last_frame_id := x.frame_id, withdrawn := x.withdrawn }

/-- An assertion is taken unless a greater one stands. -/
theorem stands_push_assertion {past : List VerifiedMessage} {hash : BlobHash}
    {m : VerifiedMessage} {info : Option ProviderInfo} {x : Assertion}
    (h : Stands past hash m.author info) (hx : assertion_of hash m.author m = some x) :
    Stands (past ++ [m]) hash m.author (some (asserted_info (info.getD {}) x)) := by
  refine ⟨(mem_filterMap_push _ _ _ _).mpr (.inr (provider_of_assertion hx).2), .inl ?_⟩
  -- The entry before: a greatest assertion, or none and the least key.
  have hbefore : (Greatest past hash m.author ⟨(info.getD {}).announced_at_ms,
      (info.getD {}).last_frame_id, (info.getD {}).withdrawn⟩) ∨
      Unasserted past hash m.author ∧ (info.getD {}).announced_at_ms = 0 ∧
        (info.getD {}).last_frame_id = .fill 16 0 := by
    cases info with
    | none => exact .inr ⟨unasserted_of_not_mem h, rfl, rfl⟩
    | some info =>
      rcases h.2 with hgreat | ⟨hun, hat, hid, -⟩
      · exact .inl hgreat
      · exact .inr ⟨hun, hat, hid⟩
  generalize info.getD {} = entry at hbefore ⊢
  unfold asserted_info
  split
  · rename_i hstale
    rcases hbefore with hgreat | ⟨-, hat, hid⟩
    · refine hgreat.push ?_
      intro y hy
      rw [hx] at hy
      cases hy
      exact le_of_lt hstale
    · -- Nothing comes before the key of an untouched entry.
      exfalso
      rw [hat, hid] at hstale
      have hleast : toLex ((0 : UInt64).toNat, (FixedBytes.fill 16 0)) ≤
          toLex (x.announced_at_ms.toNat, x.frame_id) := by
        rw [Prod.Lex.toLex_le_toLex']
        exact ⟨Nat.zero_le _, fun _ => FixedBytes.fill_zero_le _⟩
      exact absurd hstale (not_lt_of_ge hleast)
  · rename_i hfresh
    refine ⟨⟨m, List.mem_append_right _ (List.mem_singleton_self m), hx⟩, ?_⟩
    intro m' hm' y hy
    rcases List.mem_append.mp hm' with hold | hnew
    · rcases hbefore with ⟨-, hall⟩ | ⟨hun, -⟩
      · exact (hall m' hold y hy).trans (not_lt.mp hfresh)
      · rw [hun m' hold] at hy
        cases hy
    · rw [List.mem_singleton.mp hnew, hx] at hy
      cases hy
      exact le_refl _

/-! ## One message more -/

/-- A set of providers that are all told of in the messages is within its cap. -/
theorem provider_len_le {messages past : List VerifiedMessage} (hc : WithinCaps messages)
    (hsub : past ⊆ messages) {hash : BlobHash} {providers : HashMap EndpointId ProviderInfo}
    (h : ∀ peer ∈ providers, peer ∈ past.filterMap (provider_of hash)) :
    HashMap.len providers ≤ MAX_PROVIDERS_PER_BLOB := by
  refine (HashMap.len_le_card providers (l := messages.filterMap (provider_of hash)) ?_).trans
    (hc.providers hash)
  intro peer hp
  obtain ⟨m, hm, heq⟩ := List.mem_filterMap.mp (h peer hp)
  exact List.mem_filterMap.mpr ⟨m, hsub hm, heq⟩

/-- What an assertion leaves in the set of a hash that has room. -/
theorem record_info {set : ProviderSet} {peer : EndpointId} {x : Assertion}
    (hroom : HashMap.len (set.providers.insert peer ((set.providers.lookup peer).getD {})) ≤
      MAX_PROVIDERS_PER_BLOB) (p : EndpointId) :
    (set.record peer x.announced_at_ms x.frame_id x.withdrawn).2.providers.lookup p =
      if p = peer then some (asserted_info ((set.providers.lookup peer).getD {}) x)
      else set.providers.lookup p := by
  unfold ProviderSet.record asserted_info
  simp only
  by_cases hstale : assertion_lt x.announced_at_ms x.frame_id
      ((set.providers.lookup peer).getD {}).announced_at_ms
      ((set.providers.lookup peer).getD {}).last_frame_id
  · rw [if_pos hstale, if_pos hstale]
    exact HashMap.lookup_insert' _ _ _ _
  · rw [if_neg hstale, if_neg hstale]
    unfold ProviderSet.enforce_cap
    rw [if_pos (by rw [HashMap.len_insert] at hroom ⊢; exact hroom)]
    exact HashMap.lookup_insert' _ _ _ _

theorem provider_info_add {s s' : DropState} {hash : BlobHash} {author : EndpointId}
    {is_original : Bool} (h : s'.providers = HashMap.update s.providers hash {}
      (fun set => set.add author is_original)) (hash' : BlobHash) (peer : EndpointId) :
    s'.provider_info hash' peer =
      if hash' = hash ∧ peer = author then some ((s.provider_info hash' peer).getD {})
      else s.provider_info hash' peer := by
  unfold DropState.provider_info
  rw [h, HashMap.update, HashMap.lookup_insert']
  by_cases hhash : hash' = hash
  · subst hhash
    rw [if_pos rfl, Option.bind_some]
    change (HashMap.update ((s.providers.lookup hash').getD {}).providers author {}
      (fun info => info)).lookup peer = _
    rw [HashMap.update, HashMap.lookup_insert']
    by_cases hpeer : peer = author
    · subst hpeer
      rw [if_pos rfl, if_pos ⟨rfl, rfl⟩]
      rcases s.providers.lookup hash' with _ | set <;> rfl
    · rw [if_neg hpeer, if_neg (fun hc => hpeer hc.2)]
      rcases s.providers.lookup hash' with _ | set <;> rfl
  · rw [if_neg hhash, if_neg (fun hc => hhash hc.1)]

/-- What an assertion leaves among the providers of a hash that has room. -/
theorem provider_info_assert {s : DropState} {hash : BlobHash} {author : EndpointId}
    {x : Assertion}
    (hroom : ∀ set, s.providers.lookup hash = some set → HashMap.len (set.providers.insert author
      ((set.providers.lookup author).getD {})) ≤ MAX_PROVIDERS_PER_BLOB)
    (hash' : BlobHash) (peer : EndpointId) :
    (s.assert_provider hash author x.announced_at_ms x.frame_id x.withdrawn).2.provider_info hash'
        peer =
      if hash' = hash ∧ peer = author then
        some (asserted_info ((s.provider_info hash' peer).getD {}) x)
      else s.provider_info hash' peer := by
  unfold DropState.provider_info DropState.assert_provider
  simp only
  rw [HashMap.lookup_insert']
  by_cases hhash : hash' = hash
  · subst hhash
    rw [if_pos rfl, Option.bind_some]
    have hset : HashMap.len (((s.providers.lookup hash').getD {}).providers.insert author
        ((((s.providers.lookup hash').getD {}).providers.lookup author).getD {})) ≤
          MAX_PROVIDERS_PER_BLOB := by
      rcases hl : s.providers.lookup hash' with _ | set
      · simp only [Option.getD_none]
        rw [HashMap.len_insert, if_neg (AList.notMem_empty author)]
        exact Nat.succ_le_of_lt (by decide : 0 < MAX_PROVIDERS_PER_BLOB)
      · exact hroom set hl
    rw [record_info hset]
    by_cases hpeer : peer = author
    · subst hpeer
      rw [if_pos rfl, if_pos ⟨rfl, rfl⟩]
      rcases s.providers.lookup hash' with _ | set <;> rfl
    · rw [if_neg hpeer, if_neg (fun hc => hpeer hc.2)]
      rcases s.providers.lookup hash' with _ | set <;> rfl
  · rw [if_neg hhash, if_neg (fun hc => hhash hc.1)]

/-- A message of another kind changes nothing. -/
theorem Summarizes.push_other {past : List VerifiedMessage} {s : DropState}
    (h : Summarizes past s) {m : VerifiedMessage} (hhash : offered_hash m = none)
    (hname : ∀ hash, offered_name hash m = none)
    (hprovider : ∀ hash, provider_of hash m = none) : Summarizes (past ++ [m]) s := by
  have hkeep : ∀ {α : Type} (f : VerifiedMessage → Option α) (x : α), f m = none →
      (x ∈ (past ++ [m]).filterMap f ↔ x ∈ past.filterMap f) := by
    intro α f x hf
    rw [mem_filterMap_push, hf]
    simp
  refine ⟨h.kept, h.aged, ?_, ?_, ?_, ?_⟩
  · intro hash
    rw [h.offers, hkeep _ _ hhash]
  · intro hash record hrecord
    exact (mem_filterMap_push _ _ _ _).mpr (.inl (h.first hash record hrecord))
  · intro hash record hrecord name
    rw [h.aliases hash record hrecord, hkeep _ _ (hname hash)]
  · intro hash author
    refine stands_push_other (h.providers hash author) ?_
    rw [hprovider hash]
    simp

theorem Summarizes.push_provider {past messages : List VerifiedMessage} {s : DropState}
    (h : Summarizes past s) (hc : WithinCaps messages) {m : VerifiedMessage}
    (hsub : past ++ [m] ⊆ messages) {provider : ProviderV1}
    (hb : m.body = some (.Provider provider)) :
    Summarizes (past ++ [m]) (s.assert_provider provider.blob_hash m.author
      (provider.announced_at_ms.getD 0) m.message.id
      (decide (provider.state = .Withdrawing))).2 := by
  have hx : assertion_of provider.blob_hash m.author m = some
      ⟨provider.announced_at_ms.getD 0, m.message.id, decide (provider.state = .Withdrawing)⟩ := by
    simp only [assertion_of, hb, and_self, if_true]
  have hinfo : ∀ set, s.providers.lookup provider.blob_hash = some set →
      ∀ peer ∈ set.providers, peer ∈ past.filterMap (provider_of provider.blob_hash) := by
    intro set hset peer hpeer
    obtain ⟨info, hlookup⟩ := Option.isSome_iff_exists.mp (AList.lookup_isSome.mpr hpeer)
    have hstands := h.providers provider.blob_hash peer
    unfold DropState.provider_info at hstands
    rw [hset, Option.bind_some, hlookup] at hstands
    exact hstands.1
  have hroom : ∀ set, s.providers.lookup provider.blob_hash = some set →
      HashMap.len (set.providers.insert m.author ((set.providers.lookup m.author).getD {})) ≤
        MAX_PROVIDERS_PER_BLOB := by
    intro set hset
    have hpeers : ∀ peer ∈ set.providers.insert m.author ((set.providers.lookup m.author).getD {}),
        peer ∈ (past ++ [m]).filterMap (provider_of provider.blob_hash) := ?_
    · exact provider_len_le hc hsub hpeers
    intro peer hpeer
    rw [mem_filterMap_push]
    rcases (AList.mem_insert _).mp hpeer with rfl | hold
    · exact .inr (provider_of_assertion hx).2
    · exact .inl (hinfo set hset peer hold)
  have hother : ∀ {α : Type} (f : VerifiedMessage → Option α) (x : α), f m = none →
      (x ∈ (past ++ [m]).filterMap f ↔ x ∈ past.filterMap f) := by
    intro α f x hf
    rw [mem_filterMap_push, hf]
    simp
  have hkept := h.kept
  refine ⟨⟨⟨hkept.nodup, hkept.queued, hkept.counted, hkept.positive, hkept.quota⟩, hkept.cap⟩,
    h.aged, ?_, ?_, ?_, ?_⟩
  · intro hash
    exact (h.offers hash).trans (hother _ _ (by simp only [offered_hash, hb])).symm
  · intro hash record hrecord
    exact (mem_filterMap_push _ _ _ _).mpr (.inl (h.first hash record hrecord))
  · intro hash record hrecord name
    exact (h.aliases hash record hrecord name).trans
      (hother _ _ (by simp only [offered_name, hb])).symm
  · intro hash author
    have hentry := provider_info_assert (x := ⟨provider.announced_at_ms.getD 0, m.message.id,
      decide (provider.state = .Withdrawing)⟩) hroom hash author
    simp only at hentry
    rw [hentry]
    by_cases hboth : hash = provider.blob_hash ∧ author = m.author
    · obtain ⟨rfl, rfl⟩ := hboth
      rw [if_pos ⟨rfl, rfl⟩]
      exact stands_push_assertion (h.providers _ _) hx
    · rw [if_neg hboth]
      refine stands_push_other (h.providers hash author) ?_
      simp only [provider_of, hb]
      intro hsome
      split at hsome
      · rename_i hhash
        cases hsome
        exact hboth ⟨hhash.symm, rfl⟩
      · cases hsome

/-- The providers after an offer: its author is one of them. -/
theorem stands_offer {past : List VerifiedMessage} {s s' : DropState} (h : Summarizes past s)
    {m : VerifiedMessage} {offer : OfferV1} (hb : m.body = some (.Offer offer))
    (hs : s'.providers = HashMap.update s.providers offer.blob_hash {}
      (fun set => set.add m.author true)) (hash : BlobHash) (author : EndpointId) :
    Stands (past ++ [m]) hash author (s'.provider_info hash author) := by
  rw [provider_info_add hs]
  by_cases hboth : hash = offer.blob_hash ∧ author = m.author
  · obtain ⟨rfl, rfl⟩ := hboth
    rw [if_pos ⟨rfl, rfl⟩]
    exact stands_push_offer (h.providers _ _) hb rfl
  · rw [if_neg hboth]
    refine stands_push_other (h.providers hash author) ?_
    simp only [provider_of, hb]
    intro hsome
    split at hsome
    · rename_i hhash
      cases hsome
      exact hboth ⟨hhash.symm, rfl⟩
    · cases hsome

/-- A name that the messages tell is known, and there is room for it. -/
theorem mem_add_alias {record : OfferRecord} {messages past : List VerifiedMessage}
    (hc : WithinCaps messages) (hpast : past ⊆ messages) {hash : BlobHash}
    (h : ∀ name, name ∈ record.aliases ↔ name ∈ past.filterMap (offered_name hash))
    {name : String} (hname : name ∈ messages.filterMap (offered_name hash)) (other : String) :
    other ∈ (record.add_alias name).aliases ↔ other = name ∨ other ∈ record.aliases := by
  unfold OfferRecord.add_alias
  split
  · exact AList.mem_insert _
  · rename_i hfull
    have hknown : name ∈ record.aliases := by
      by_contra hnew
      have hlt := HashMap.len_lt_card record.aliases (l := messages.filterMap (offered_name hash))
        (fun other hother => by
          obtain ⟨m, hm, heq⟩ := List.mem_filterMap.mp ((h other).mp hother)
          exact List.mem_filterMap.mpr ⟨m, hpast hm, heq⟩) hname hnew
      have hcap := hc.aliases hash
      omega
    constructor
    · exact .inr
    · rintro (rfl | hold)
      · exact hknown
      · exact hold

theorem Summarizes.push_offer {past messages : List VerifiedMessage} {s : DropState}
    (h : Summarizes past s) (hc : WithinCaps messages) {m : VerifiedMessage}
    (hsub : past ++ [m] ⊆ messages) {offer : OfferV1} (hb : m.body = some (.Offer offer))
    (now : Instant) :
    Summarizes (past ++ [m]) (s.record_offer_inner m.author offer now).2 := by
  obtain ⟨calls, haged⟩ := h.aged
  obtain ⟨hkept, haged', -, -⟩ := DropState.recorded_inner h.kept haged
    (.record_restored m.author offer now) m.author offer now rfl
  have hpast : past ⊆ messages := fun x hx => hsub (List.mem_append_left _ hx)
  have hm : m ∈ messages := hsub (List.mem_append_right _ (List.mem_singleton_self m))
  have hhash : offered_hash m = some offer.blob_hash := by
    simp only [offered_hash, hb]
  have hby : offered_by m.author m = some offer.blob_hash := by
    simp only [offered_by, hb, if_true]
  have hname : ∀ hash, offered_name hash m =
      if offer.blob_hash = hash then some offer.name else none := by
    intro hash
    simp only [offered_name, hb]
  have hoffers : ∀ {offers : HashMap BlobHash OfferRecord} {record : OfferRecord},
      offers = s.offers.insert offer.blob_hash record → ∀ hash, hash ∈ offers ↔
        hash ∈ (past ++ [m]).filterMap offered_hash := by
    rintro _ record rfl hash
    rw [AList.mem_insert, mem_filterMap_push, hhash, h.offers, Option.some.injEq,
      eq_comm (a := hash), or_comm]
  by_cases hmem : offer.blob_hash ∈ s.offers
  · obtain ⟨record, hrecord⟩ := Option.isSome_iff_exists.mp (AList.lookup_isSome.mpr hmem)
    rw [DropState.record_offer_inner_known hrecord] at hkept haged' ⊢
    have hfirst : (record.add_alias offer.name).first_seen_from = record.first_seen_from := by
      unfold OfferRecord.add_alias
      split <;> rfl
    refine ⟨hkept, ⟨_, haged'⟩, hoffers rfl, ?_, ?_, stands_offer h hb rfl⟩
    · intro hash record' hlookup
      simp only [HashMap.lookup_insert'] at hlookup
      refine (mem_filterMap_push _ _ _ _).mpr (.inl ?_)
      split at hlookup
      · rename_i heq
        cases hlookup
        rw [hfirst, heq]
        exact h.first _ record hrecord
      · exact h.first hash record' hlookup
    · intro hash record' hlookup name
      simp only [HashMap.lookup_insert'] at hlookup
      rw [mem_filterMap_push, hname]
      split at hlookup
      · rename_i heq
        cases hlookup
        rw [heq, if_pos rfl, Option.some.injEq]
        have hnamed : offer.name ∈ messages.filterMap (offered_name offer.blob_hash) :=
          List.mem_filterMap.mpr ⟨m, hm, by rw [hname, if_pos rfl]⟩
        rw [mem_add_alias hc hpast (h.aliases _ record hrecord) hnamed,
          h.aliases _ record hrecord, eq_comm (a := name), or_comm]
      · rename_i hne
        rw [if_neg (Ne.symm hne), h.aliases hash record' hlookup]
        simp
  · -- A new hash: its author has quota, and the table has room.
    have hquota : s.author_has_quota m.author := by
      have hlt := HashMap.count_lt_card s.offers
        (fun record => decide (record.first_seen_from = m.author))
        (l := messages.filterMap (offered_by m.author)) (fun hash record hlookup hp => by
          have hfirst := h.first hash record hlookup
          rw [of_decide_eq_true hp] at hfirst
          obtain ⟨m', hm', heq⟩ := List.mem_filterMap.mp hfirst
          exact List.mem_filterMap.mpr ⟨m', hpast hm', heq⟩)
        (List.mem_filterMap.mpr ⟨m, hm, hby⟩) hmem
      have hcap := hc.quotas m.author
      unfold DropState.author_has_quota
      rw [h.kept.counted]
      unfold DropState.records_of
      omega
    have hroom : HashMap.len s.offers < MAX_OFFERS := by
      have hlt := HashMap.len_lt_card s.offers (l := messages.filterMap offered_hash)
        (fun hash hh => by
          obtain ⟨m', hm', heq⟩ := List.mem_filterMap.mp ((h.offers hash).mp hh)
          exact List.mem_filterMap.mpr ⟨m', hpast hm', heq⟩)
        (List.mem_filterMap.mpr ⟨m, hm, hhash⟩) hmem
      have hcap := hc.offers
      omega
    have hsmall : (s.offer_listed m.author offer now).enforce_offer_cap =
        (s.offer_listed m.author offer now, []) := by
      refine DropState.evict_offers_small _ ?_ _
      change HashMap.len (s.offers.insert offer.blob_hash _) ≤ _
      rw [HashMap.len_insert, if_neg hmem]
      omega
    rw [DropState.record_offer_inner_new hmem hquota, hsmall] at hkept haged' ⊢
    refine ⟨hkept, ⟨_, haged'⟩, hoffers rfl, ?_, ?_, stands_offer h hb rfl⟩
    · intro hash record hlookup
      simp only [DropState.offer_listed, DropState.offer_noted, DropState.touch_offer,
        HashMap.lookup_insert'] at hlookup
      refine (mem_filterMap_push _ _ _ _).mpr ?_
      split at hlookup
      · rename_i heq
        cases hlookup
        rw [heq]
        exact .inr hby
      · exact .inl (h.first hash record hlookup)
    · intro hash record hlookup name
      simp only [DropState.offer_listed, DropState.offer_noted, DropState.touch_offer,
        HashMap.lookup_insert'] at hlookup
      rw [mem_filterMap_push, hname]
      split at hlookup
      · rename_i heq
        cases hlookup
        rw [heq, if_pos rfl, Option.some.injEq]
        -- No message before named the hash.
        have hnone : name ∉ past.filterMap (offered_name offer.blob_hash) := by
          intro hin
          obtain ⟨m', hm', heq'⟩ := List.mem_filterMap.mp hin
          refine hmem ((h.offers _).mpr (List.mem_filterMap.mpr ⟨m', hm', ?_⟩))
          unfold offered_name at heq'
          unfold offered_hash
          split at heq'
          · split at heq'
            · rename_i hsame
              rw [hsame]
            · cases heq'
          · cases heq'
        constructor
        · intro hin
          rcases (AList.mem_insert _).mp hin with rfl | hempty
          · exact .inr rfl
          · cases hempty
        · rintro (hin | rfl)
          · exact absurd hin hnone
          · exact (AList.mem_insert _).mpr (.inl rfl)
      · rename_i hne
        rw [if_neg (Ne.symm hne), h.aliases hash record hlookup]
        simp

/-! ## All messages -/

/-- A frame that is applied to the tables. -/
def DropState.apply (self : DropState) (frame : VerifiedMessage × Instant) : DropState :=
  self.learn frame.1 frame.2

theorem summarizes_all {messages past : List VerifiedMessage} {s : DropState}
    (h : Summarizes past s) (hc : WithinCaps messages)
    {frames : List (VerifiedMessage × Instant)} (hsub : past ++ frames.map Prod.fst ⊆ messages) :
    Summarizes (past ++ frames.map Prod.fst) (frames.foldl DropState.apply s) := by
  induction frames generalizing past s with
  | nil =>
    rw [List.map_nil, List.append_nil]
    exact h
  | cons f frames ih =>
    obtain ⟨m, now⟩ := f
    rw [List.map_cons, ← List.singleton_append, ← List.append_assoc] at hsub ⊢
    have hone : past ++ [m] ⊆ messages := fun x hx => hsub (List.mem_append_left _ hx)
    refine ih ?_ hsub
    unfold DropState.apply DropState.learn
    split
    · rename_i offer hb
      exact h.push_offer hc hone hb now
    · rename_i provider hb
      exact h.push_provider hc hone hb
    · rename_i hno hno'
      refine h.push_other ?_ (fun hash => ?_) (fun hash => ?_)
      · unfold offered_hash
        split
        · rename_i offer hb
          exact absurd hb (hno offer)
        · rfl
      · unfold offered_name
        split
        · rename_i offer hb
          exact absurd hb (hno offer)
        · rfl
      · unfold provider_of
        split
        · rename_i offer hb
          exact absurd hb (hno offer)
        · rename_i provider hb
          exact absurd hb (hno' provider)
        · rfl

theorem summarizes_new (self_endpoint_id : EndpointId) :
    Summarizes [] (DropState.new self_endpoint_id) := by
  refine ⟨⟨⟨List.nodup_nil, ?_, fun _ => rfl, ?_, fun _ => Nat.zero_le _⟩, Nat.zero_le _⟩,
    ⟨[], List.Pairwise.nil⟩, ?_, ?_, ?_, ?_⟩
  · intro hash
    constructor <;> (intro h; cases h)
  · intro author count h
    cases h
  · intro hash
    constructor <;> (intro h; cases h)
  · intro hash record h
    cases h
  · intro hash record h
    cases h
  · intro hash author h
    cases h

/-- Different messages make different assertions, so one of them is the
greatest. -/
theorem Greatest.unique {messages : List VerifiedMessage} {hash : BlobHash} {author : EndpointId}
    {x y : Assertion} (hkeys : (messages.map VerifiedMessage.key).Nodup)
    (hx : Greatest messages hash author x) (hy : Greatest messages hash author y) : x = y := by
  obtain ⟨⟨m, hm, hmx⟩, hallx⟩ := hx
  obtain ⟨⟨m', hm', hmy⟩, hally⟩ := hy
  have hkey : x.key = y.key := le_antisymm (hally m hm x hmx) (hallx m' hm' y hmy)
  have hid : ∀ {m : VerifiedMessage} {z : Assertion}, assertion_of hash author m = some z →
      m.key = (author, z.frame_id) := by
    intro m z h
    unfold assertion_of at h
    split at h
    · split at h
      · rename_i hc
        cases h
        exact Prod.ext hc.2 rfl
      · cases h
    · cases h
  have hframe : x.frame_id = y.frame_id := congrArg (fun k => (ofLex k).2) hkey
  have hsame : m.key = m'.key := by rw [hid hmx, hid hmy, hframe]
  have heq := List.inj_on_of_nodup_map hkeys hm hm' hsame
  rw [heq, hmy] at hmx
  exact (Option.some.inj hmx).symm

/-- The messages make the author a provider that is there: its greatest assertion
says so, or it asserted nothing and offered the hash. -/
def Live (messages : List VerifiedMessage) (hash : BlobHash) (peer : EndpointId) : Prop :=
  (∃ x, Greatest messages hash peer x ∧ x.withdrawn = false) ∨
    Unasserted messages hash peer ∧ ∃ m ∈ messages, m.author = peer ∧ offered_hash m = some hash

/-- An entry is live just when the messages say so. -/
theorem Stands.live_iff {messages : List VerifiedMessage} {hash : BlobHash} {peer : EndpointId}
    {entry : Option ProviderInfo} (hstands : Stands messages hash peer entry)
    (hkeys : (messages.map VerifiedMessage.key).Nodup) :
    (∃ info, entry = some info ∧ info.withdrawn = false) ↔ Live messages hash peer := by
  constructor
  · rintro ⟨info, rfl, hlive⟩
    obtain ⟨hmem, hgreat | ⟨hun, -⟩⟩ := hstands
    · exact .inl ⟨_, hgreat, hlive⟩
    · -- Who asserts nothing and is a provider has offered the hash.
      obtain ⟨m, hm, hprovider⟩ := List.mem_filterMap.mp hmem
      refine .inr ⟨hun, m, hm, ?_⟩
      have hnone := hun m hm
      unfold provider_of at hprovider
      split at hprovider
      · rename_i offer hb
        split at hprovider
        · rename_i hhash
          cases hprovider
          exact ⟨rfl, by simp only [offered_hash, hb, hhash]⟩
        · cases hprovider
      · rename_i provider hb
        split at hprovider
        · rename_i hhash
          cases hprovider
          simp only [assertion_of, hb, hhash, and_self, if_true] at hnone
          cases hnone
        · cases hprovider
      · cases hprovider
  · have hentry : peer ∈ messages.filterMap (provider_of hash) → ∃ info, entry = some info := by
      intro hmem
      cases entry with
      | none => exact absurd hmem hstands
      | some info => exact ⟨info, rfl⟩
    rintro (⟨x, hx, hlive⟩ | ⟨hun, m, hm, rfl, hoffers⟩)
    · obtain ⟨m, hm, hmx⟩ := hx.1
      obtain ⟨info, rfl⟩ :=
        hentry (List.mem_filterMap.mpr ⟨m, hm, (provider_of_assertion hmx).2⟩)
      refine ⟨info, rfl, ?_⟩
      obtain ⟨-, hgreat | ⟨hun, -⟩⟩ := hstands
      · exact (congrArg Assertion.withdrawn (hgreat.unique hkeys hx)).trans hlive
      · rw [hun m hm] at hmx
        cases hmx
    · have hprovider : provider_of hash m = some m.author := by
        unfold offered_hash at hoffers
        split at hoffers
        · rename_i offer hb
          cases hoffers
          simp only [provider_of, hb, if_true]
        · cases hoffers
      obtain ⟨info, rfl⟩ := hentry (List.mem_filterMap.mpr ⟨m, hm, hprovider⟩)
      refine ⟨info, rfl, ?_⟩
      obtain ⟨-, ⟨⟨m', hm', hx⟩, -⟩ | ⟨-, -, -, hlive⟩⟩ := hstands
      · rw [hun m' hm'] at hx
        cases hx
      · exact hlive

/-- A provider is tried for a hash just when its greatest assertion says that
it is there, or it asserted nothing and offered the hash. -/
theorem Summarizes.serves_iff {messages : List VerifiedMessage} {s : DropState}
    (h : Summarizes messages s) (hkeys : (messages.map VerifiedMessage.key).Nodup)
    (hash : BlobHash) (peer : EndpointId) :
    s.serves hash peer ↔
      (∃ x, Greatest messages hash peer x ∧ x.withdrawn = false) ∨
        Unasserted messages hash peer ∧
          ∃ m ∈ messages, m.author = peer ∧ offered_hash m = some hash := by
  rw [DropState.serves_iff]
  exact (h.providers hash peer).live_iff hkeys

theorem Summarizes.knows_as_iff {messages : List VerifiedMessage} {s : DropState}
    (h : Summarizes messages s) (hash : BlobHash) (name : String) :
    s.knows_as hash name ↔ name ∈ messages.filterMap (offered_name hash) := by
  constructor
  · rintro ⟨record, hrecord, hname⟩
    exact (h.aliases hash record hrecord name).mp hname
  · intro hname
    obtain ⟨m, hm, heq⟩ := List.mem_filterMap.mp hname
    have hmem : hash ∈ s.offers := by
      refine (h.offers hash).mpr (List.mem_filterMap.mpr ⟨m, hm, ?_⟩)
      unfold offered_name at heq
      unfold offered_hash
      split at heq
      · split at heq
        · rename_i hhash
          rw [hhash]
        · cases heq
      · cases heq
    obtain ⟨record, hrecord⟩ := Option.isSome_iff_exists.mp (AList.lookup_isSome.mpr hmem)
    exact ⟨record, hrecord, (h.aliases hash record hrecord name).mpr hname⟩

/-- Within the caps, two orders of delivery leave the same hashes, the same
names, and the same providers; and these are the ones that the greatest
assertions tell. -/
theorem delivery_order_does_not_matter (self_endpoint_id : EndpointId)
    (frames frames' : List (VerifiedMessage × Instant))
    (hperm : (frames.map Prod.fst).Perm (frames'.map Prod.fst))
    (hkeys : ((frames.map Prod.fst).map VerifiedMessage.key).Nodup)
    (hcaps : WithinCaps (frames.map Prod.fst)) :
    let s := frames.foldl DropState.apply (.new self_endpoint_id)
    let s' := frames'.foldl DropState.apply (.new self_endpoint_id)
    (∀ hash, hash ∈ s.offers ↔ hash ∈ s'.offers) ∧
      (∀ hash name, s.knows_as hash name ↔ s'.knows_as hash name) ∧
      (∀ hash peer, s.serves hash peer ↔ s'.serves hash peer) ∧
      ∀ hash peer, s.serves hash peer ↔
        (∃ x, Greatest (frames.map Prod.fst) hash peer x ∧ x.withdrawn = false) ∨
          Unasserted (frames.map Prod.fst) hash peer ∧
            ∃ m ∈ frames.map Prod.fst, m.author = peer ∧ offered_hash m = some hash := by
  intro s s'
  have h : Summarizes (frames.map Prod.fst) s :=
    summarizes_all (summarizes_new self_endpoint_id) hcaps (List.Subset.refl _)
  have h' : Summarizes (frames'.map Prod.fst) s' :=
    summarizes_all (summarizes_new self_endpoint_id) hcaps hperm.symm.subset
  have hkeys' : ((frames'.map Prod.fst).map VerifiedMessage.key).Nodup :=
    (hperm.map VerifiedMessage.key).nodup_iff.mp hkeys
  have hmem : ∀ {α : Type} (f : VerifiedMessage → Option α) (x : α),
      x ∈ (frames.map Prod.fst).filterMap f ↔ x ∈ (frames'.map Prod.fst).filterMap f :=
    fun f x => (hperm.filterMap f).mem_iff
  have hgreatest : ∀ hash peer x, Greatest (frames.map Prod.fst) hash peer x ↔
      Greatest (frames'.map Prod.fst) hash peer x := by
    intro hash peer x
    unfold Greatest
    simp only [hperm.mem_iff]
  have hserves := h.serves_iff hkeys
  refine ⟨?_, ?_, ?_, hserves⟩
  · intro hash
    rw [h.offers, h'.offers, hmem]
  · intro hash name
    rw [h.knows_as_iff, h'.knows_as_iff, hmem]
  · intro hash peer
    rw [hserves, h'.serves_iff hkeys']
    simp only [hgreatest, Unasserted, hperm.mem_iff]

end Laws

namespace crossed_frames

local instance : Crypto := Crypto.clear

def hash : BlobHash := ⟨.fill 32 7⟩
def author : EndpointId := SecretKey.public ⟨.fill 32 2⟩

/-- The message of the author with the frame id and the body. -/
def message (id : FixedBytes 16) (body : MessageBodyV1) : VerifiedMessage :=
  { author, message := .new body id 0, body := some body }

def offer : VerifiedMessage :=
  message (.fill 16 1) (.Offer { blob_hash := hash, name := "a", size := 3, media_type := none
                                 created_at_ms := none, metadata := ∅ })

/-- A withdrawal that overtakes the announcement before it. -/
def withdrawal : VerifiedMessage :=
  message (.fill 16 2) (.Provider { blob_hash := hash, state := .Withdrawing
                                    announced_at_ms := some 5 })

def announcement : VerifiedMessage :=
  message (.fill 16 3) (.Provider { blob_hash := hash, state := .Available
                                    announced_at_ms := some 4 })

def in_order : List (VerifiedMessage × Instant) :=
  [(offer, 0), (announcement, 1), (withdrawal, 2)]

def crossed : List (VerifiedMessage × Instant) :=
  [(withdrawal, 0), (announcement, 1), (offer, 2)]

/-- Few messages exceed no cap. -/
theorem within_caps : WithinCaps (in_order.map Prod.fst) := by
  have hfew : ∀ {α : Type} [DecidableEq α] (f : VerifiedMessage → Option α),
      ((in_order.map Prod.fst).filterMap f).toFinset.card ≤ 3 := by
    intro α _ f
    exact (List.toFinset_card_le _).trans (List.length_filterMap_le f _)
  exact ⟨fun author => (hfew _).trans (by decide), (hfew _).trans (by decide),
    fun hash => (hfew _).trans (by decide), fun hash => (hfew _).trans (by decide)⟩

/-- Both orders leave the offer and its name, and nobody who serves it. -/
theorem crossed_frames_agree :
    let s := in_order.foldl DropState.apply (.new author)
    let s' := crossed.foldl DropState.apply (.new author)
    (∀ hash, hash ∈ s.offers ↔ hash ∈ s'.offers) ∧
      (∀ hash name, s.knows_as hash name ↔ s'.knows_as hash name) ∧
      (∀ hash peer, s.serves hash peer ↔ s'.serves hash peer) ∧
      ∀ hash peer, s.serves hash peer ↔
        (∃ x, Greatest (in_order.map Prod.fst) hash peer x ∧ x.withdrawn = false) ∨
          Unasserted (in_order.map Prod.fst) hash peer ∧
            ∃ m ∈ in_order.map Prod.fst, m.author = peer ∧ offered_hash m = some hash :=
  delivery_order_does_not_matter author in_order crossed
    (by decide +kernel) (by decide +kernel) within_caps

end crossed_frames

end iroh_drop
