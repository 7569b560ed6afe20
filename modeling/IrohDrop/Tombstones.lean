-- The law of withdrawals: a withdrawal stands against whatever is older than
-- it, as long as no other author pushes the tombstone out of the set.
import IrohDrop.Convergence

open rust_std

namespace iroh_drop

/-! ## The first ones of a sorted list -/

/-- An element of a sorted list is among the first ones when few enough are
below it. -/
theorem mem_take_iff_countP {α : Type} {lt : α → α → Prop} [DecidableRel lt]
    (hasymm : ∀ a b, lt a b → ¬ lt b a) {l : List α} (hl : l.Pairwise lt) {a : α} (ha : a ∈ l)
    (k : Nat) : a ∈ l.take k ↔ l.countP (fun b => decide (lt b a)) < k := by
  induction l generalizing k with
  | nil => cases ha
  | cons x l ih =>
    obtain ⟨hx, hrest⟩ := List.pairwise_cons.mp hl
    cases k with
    | zero => simp
    | succ k =>
      rw [List.take_succ_cons, List.countP_cons, List.mem_cons]
      by_cases hax : a = x
      · -- Nothing is below the first element.
        subst hax
        have hnone : l.countP (fun b => decide (lt b a)) = 0 := by
          rw [List.countP_eq_zero]
          intro b hb hlt
          exact hasymm a b (hx b hb) (of_decide_eq_true hlt)
        have hself : ¬ lt a a := fun h => hasymm a a h h
        simp [hnone, hself]
      · have hal : a ∈ l := (List.mem_cons.mp ha).resolve_left hax
        have hlt : decide (lt x a) = true := decide_eq_true (hx a hal)
        rw [if_pos hlt, ih hrest hal]
        simp only [hax, false_or]
        omega

/-! ## The keys of assertions -/

/-- The key of the assertion that an entry goes by. -/
def ProviderInfo.key (self : ProviderInfo) : ℕ ×ₗ FixedBytes 16 :=
  toLex (self.announced_at_ms.toNat, self.last_frame_id)

theorem untouched_key_le (k : ℕ ×ₗ FixedBytes 16) : ProviderInfo.key {} ≤ k := by
  change toLex (0, FixedBytes.fill 16 0) ≤ toLex (ofLex k)
  rw [Prod.Lex.toLex_le_toLex']
  exact ⟨Nat.zero_le _, fun _ => FixedBytes.fill_zero_le _⟩

theorem key_le_asserted_info (entry : ProviderInfo) (x : Assertion) :
    entry.key ≤ (asserted_info entry x).key ∧ x.key ≤ (asserted_info entry x).key := by
  unfold asserted_info
  split
  · rename_i hstale
    exact ⟨le_refl _, le_of_lt hstale⟩
  · rename_i hfresh
    exact ⟨not_lt.mp hfresh, le_refl _⟩

/-- An assertion that is not outdated takes the place of what the entry said. -/
theorem asserted_info_fresh {entry : ProviderInfo} {x : Assertion} (h : entry.key ≤ x.key) :
    (asserted_info entry x).key = x.key ∧ (asserted_info entry x).withdrawn = x.withdrawn := by
  unfold asserted_info
  split
  · rename_i hstale
    exact absurd hstale (not_lt_of_ge h)
  · exact ⟨rfl, rfl⟩

section Laws

variable [Crypto]

/-! ## Eviction -/

theorem worse_total (a b : EndpointId × ProviderInfo) : worse a b ∨ worse b a := le_total _ _

theorem worse_trans (a b c : EndpointId × ProviderInfo) (hab : worse a b) (hbc : worse b c) :
    worse a c := le_trans hab hbc

theorem worse_antisymm {a b : EndpointId × ProviderInfo} (hab : worse a b) (hba : worse b a) :
    a.1 = b.1 := by
  have heq := le_antisymm hab hba
  have hid := congrArg (fun k => (ofLex (ofLex (ofLex k).2).2).2) heq
  exact hid

/-- The order of eviction, between different peers. -/
def goes_before (a b : EndpointId × ProviderInfo) : Prop :=
  worse a b ∧ a.1 ≠ b.1

instance : DecidableRel goes_before := fun a b => by unfold goes_before; infer_instance

namespace ProviderSet

/-- How many entries there are above the cap. -/
def excess (self : ProviderSet) : Nat :=
  HashMap.len self.providers - MAX_PROVIDERS_PER_BLOB

/-- Enough entries go before the one of the peer. -/
def spares (self : ProviderSet) (peer : EndpointId) : Prop :=
  ∀ info, self.providers.lookup peer = some info →
    self.excess ≤ self.entries.countP (fun e => decide (goes_before e (peer, info)))

theorem mem_entries (set : ProviderSet) (peer : EndpointId) (info : ProviderInfo) :
    (peer, info) ∈ set.entries ↔ set.providers.lookup peer = some info := by
  unfold entries
  rw [List.mem_map]
  constructor
  · rintro ⟨e, he, heq⟩
    cases heq
    exact (List.mem_dlookup_iff set.providers.nodupKeys).mpr he
  · intro h
    exact ⟨⟨peer, info⟩, (List.mem_dlookup_iff set.providers.nodupKeys).mp h, rfl⟩

theorem entries_nodup (set : ProviderSet) : (set.entries.map Prod.fst).Nodup := by
  have hkeys : set.entries.map Prod.fst = set.providers.keys := by
    unfold entries
    rw [List.map_map]
    rfl
  rw [hkeys]
  exact set.providers.keys_nodup

theorem remove_lookup (set : ProviderSet) (id peer : EndpointId) :
    (set.remove id).providers.lookup peer =
      if peer = id then none else set.providers.lookup peer :=
  HashMap.lookup_erase' _ _ _

theorem remove_all_lookup (set : ProviderSet) (l : List (EndpointId × ProviderInfo))
    (peer : EndpointId) :
    (l.foldl (fun set e => set.remove e.1) set).providers.lookup peer =
      if peer ∈ l.map Prod.fst then none else set.providers.lookup peer := by
  induction l generalizing set with
  | nil => simp
  | cons e l ih =>
    rw [List.foldl_cons, ih, remove_lookup, List.map_cons]
    by_cases hrest : peer ∈ l.map Prod.fst
    · rw [if_pos hrest, if_pos (List.mem_cons_of_mem _ hrest)]
    · rw [if_neg hrest]
      by_cases heq : peer = e.1
      · rw [if_pos heq, if_pos (List.mem_cons.mpr (.inl heq))]
      · rw [if_neg heq, if_neg (fun h => (List.mem_cons.mp h).elim heq hrest)]

/-- The entries in the order of eviction. -/
theorem ranked_pairwise (set : ProviderSet) :
    (set.entries.insertionSort worse).Pairwise goes_before := by
  have hsorted : (set.entries.insertionSort worse).Pairwise worse :=
    haveI : Std.Total worse := ⟨worse_total⟩
    haveI : IsTrans _ worse := ⟨worse_trans⟩
    List.pairwise_insertionSort worse set.entries
  have hperm := List.perm_insertionSort worse set.entries
  have hnodup : ((set.entries.insertionSort worse).map Prod.fst).Nodup :=
    (hperm.map Prod.fst).nodup_iff.mpr set.entries_nodup
  exact hsorted.and (List.pairwise_map.mp hnodup)

/-- Whose entry is evicted: the one that too few go before. -/
theorem evicted_iff (set : ProviderSet) {peer : EndpointId} {info : ProviderInfo}
    (h : set.providers.lookup peer = some info) (k : Nat) :
    peer ∈ ((set.entries.insertionSort worse).take k).map Prod.fst ↔
      set.entries.countP (fun e => decide (goes_before e (peer, info))) < k := by
  have hperm := List.perm_insertionSort worse set.entries
  have hmem : (peer, info) ∈ set.entries.insertionSort worse :=
    hperm.mem_iff.mpr ((set.mem_entries peer info).mpr h)
  have hasymm : ∀ a b : EndpointId × ProviderInfo, goes_before a b → ¬ goes_before b a :=
    fun a b hab hba => hab.2 (worse_antisymm hab.1 hba.1)
  rw [← hperm.countP_eq, ← mem_take_iff_countP hasymm set.ranked_pairwise hmem k, List.mem_map]
  constructor
  · rintro ⟨e, he, rfl⟩
    have hentry := hperm.mem_iff.mp (List.mem_of_mem_take he)
    have hinfo : set.providers.lookup e.1 = some e.2 := (set.mem_entries e.1 e.2).mp hentry
    rw [h] at hinfo
    rw [Option.some.inj hinfo]
    exact he
  · intro he
    exact ⟨_, he, rfl⟩

/-- The cap takes the entry of a peer away unless the peer is spared. -/
theorem enforce_cap_lookup (set : ProviderSet) (peer : EndpointId) :
    (set.spares peer → set.enforce_cap.providers.lookup peer = set.providers.lookup peer) ∧
      (¬ set.spares peer → set.enforce_cap.providers.lookup peer = none) := by
  unfold enforce_cap
  split
  · rename_i hfits
    refine ⟨fun _ => rfl, fun h => absurd ?_ h⟩
    intro info _
    unfold excess
    omega
  · simp only [remove_all_lookup]
    constructor
    · intro hspared
      split
      · rename_i hevicted
        rcases h : set.providers.lookup peer with _ | info
        · rfl
        · have hlt := (set.evicted_iff h _).mp hevicted
          exact absurd (hspared info h) (not_le.mpr hlt)
      · rfl
    · intro hnot
      rw [if_pos]
      unfold spares at hnot
      push Not at hnot
      obtain ⟨info, h, hlt⟩ := hnot
      exact (set.evicted_iff h _).mpr hlt

end ProviderSet

/-! ## One assertion -/

namespace ProviderSet

/-- An assertion of the peer that comes after this one is known. -/
def knows_newer (self : ProviderSet) (id : EndpointId) (x : Assertion) : Prop :=
  ∃ info, self.providers.lookup id = some info ∧ x.key < info.key

/-- The set with an assertion of the peer in it, whatever its size. -/
def asserted (self : ProviderSet) (id : EndpointId) (x : Assertion) : ProviderSet :=
  { original := if x.withdrawn && self.original = some id then none else self.original
    providers := self.providers.insert id (asserted_info ((self.providers.lookup id).getD {}) x) }

theorem record_stale {set : ProviderSet} {id : EndpointId} {x : Assertion}
    (h : set.knows_newer id x) (peer : EndpointId) :
    (set.record id x.announced_at_ms x.frame_id x.withdrawn).2.providers.lookup peer =
      set.providers.lookup peer := by
  obtain ⟨info, hinfo, hlt⟩ := h
  unfold record
  simp only [hinfo, Option.getD_some]
  have hstale : assertion_lt x.announced_at_ms x.frame_id info.announced_at_ms
      info.last_frame_id := hlt
  rw [if_pos hstale]
  simp only [HashMap.lookup_insert']
  split
  · rename_i heq
    rw [heq, hinfo]
  · rfl

theorem record_fresh {set : ProviderSet} {id : EndpointId} {x : Assertion}
    (h : ¬ set.knows_newer id x) :
    (set.record id x.announced_at_ms x.frame_id x.withdrawn).2 =
      (set.asserted id x).enforce_cap := by
  have hfresh : ¬ assertion_lt x.announced_at_ms x.frame_id
      ((set.providers.lookup id).getD {}).announced_at_ms
      ((set.providers.lookup id).getD {}).last_frame_id := by
    intro hlt
    rcases hl : set.providers.lookup id with _ | info
    · rw [hl] at hlt
      exact absurd hlt (not_lt_of_ge (untouched_key_le x.key))
    · rw [hl] at hlt
      exact h ⟨info, hl, hlt⟩
  unfold record asserted asserted_info
  simp only
  rw [if_neg hfresh, if_neg hfresh]

end ProviderSet

/-! ## One frame -/

namespace DropState

/-- The providers of a hash, none at first. -/
def provider_set (self : DropState) (hash : BlobHash) : ProviderSet :=
  (self.providers.lookup hash).getD {}

/-- The message does not push the entry of the peer out of the set: it says
nothing new, or the set has room for it, or enough entries go first. -/
def spares (self : DropState) (hash : BlobHash) (peer : EndpointId) (m : VerifiedMessage) :
    Prop :=
  ∀ x, assertion_of hash m.author m = some x →
    ¬ (self.provider_set hash).knows_newer m.author x →
      ((self.provider_set hash).asserted m.author x).spares peer

/-- The peer has an entry, and it goes by nothing older than the key. -/
def Remembers (self : DropState) (hash : BlobHash) (peer : EndpointId) (key : ℕ ×ₗ FixedBytes 16) :
    Prop :=
  ∃ info, self.provider_info hash peer = some info ∧ key ≤ info.key

theorem provider_info_eq (s : DropState) (hash : BlobHash) (peer : EndpointId) :
    s.provider_info hash peer = (s.provider_set hash).providers.lookup peer := by
  unfold provider_info provider_set
  rcases s.providers.lookup hash with _ | set
  · rfl
  · rfl

/-- Eviction takes the providers of a hash away only with the hash. -/
theorem evict_offers_providers (s : DropState) (order : List BlobHash) (hash : BlobHash)
    (h : hash ∈ (s.evict_offers order).1.offers) :
    hash ∈ s.offers ∧ (s.evict_offers order).1.providers.lookup hash = s.providers.lookup hash := by
  induction order generalizing s with
  | nil => exact ⟨h, rfl⟩
  | cons oldest rest ih =>
    unfold evict_offers at h ⊢
    split at h
    · rename_i hfull
      rw [if_pos hfull]
      split at h
      · rename_i record hrecord
        obtain ⟨hmem, hsame⟩ := ih _ h
        obtain ⟨hne, hold⟩ := AList.mem_erase.mp hmem
        refine ⟨hold, hsame.trans ?_⟩
        exact AList.lookup_erase_ne hne
      · exact ih s h
    · rename_i hroom
      rw [if_neg hroom]
      exact ⟨h, rfl⟩

/-- An offer adds its author to the providers of its hash, and leaves the
others as they are. -/
theorem record_offer_info {s : DropState} {author : EndpointId} {offer : OfferV1} {now : Instant}
    {hash : BlobHash} (h : hash ∈ (s.record_offer_inner author offer now).2.offers)
    (peer : EndpointId) :
    (s.record_offer_inner author offer now).2.provider_info hash peer =
      if hash = offer.blob_hash ∧ peer = author then some ((s.provider_info hash peer).getD {})
      else s.provider_info hash peer := by
  by_cases hmem : offer.blob_hash ∈ s.offers
  · obtain ⟨record, hrecord⟩ := Option.isSome_iff_exists.mp (AList.lookup_isSome.mpr hmem)
    rw [record_offer_inner_known hrecord]
    exact provider_info_add rfl hash peer
  · by_cases hquota : s.author_has_quota author
    · rw [record_offer_inner_new hmem hquota] at h ⊢
      obtain ⟨-, hsame⟩ := evict_offers_providers _ _ _ h
      have hadd := @provider_info_add _ s (s.offer_listed author offer now) _ _ _ rfl hash peer
      unfold provider_info at hadd ⊢
      unfold enforce_offer_cap
      rw [hsame]
      exact hadd
    · -- Beyond the quota nothing happens, and the hash of the offer is not in the table.
      rw [record_offer_inner_over hmem hquota] at h ⊢
      rw [if_neg]
      rintro ⟨rfl, -⟩
      exact hmem h

theorem assert_provider_set (s : DropState) (hash : BlobHash) (author : EndpointId)
    (x : Assertion) (hash' : BlobHash) :
    (s.assert_provider hash author x.announced_at_ms x.frame_id x.withdrawn).2.provider_set hash' =
      if hash' = hash then
        ((s.provider_set hash).record author x.announced_at_ms x.frame_id x.withdrawn).2
      else s.provider_set hash' := by
  unfold provider_set assert_provider
  simp only [HashMap.lookup_insert']
  split <;> rfl

/-- What an assertion leaves of the entry of a peer. -/
theorem assert_provider_info (s : DropState) (hash : BlobHash) (author : EndpointId)
    (x : Assertion) (peer : EndpointId) :
    let s' := (s.assert_provider hash author x.announced_at_ms x.frame_id x.withdrawn).2
    let set := s.provider_set hash
    (set.knows_newer author x → s'.provider_info hash peer = s.provider_info hash peer) ∧
      (¬ set.knows_newer author x → (set.asserted author x).spares peer →
        s'.provider_info hash peer =
          if peer = author then some (asserted_info ((s.provider_info hash peer).getD {}) x)
          else s.provider_info hash peer) ∧
      (¬ set.knows_newer author x → ¬ (set.asserted author x).spares peer →
        s'.provider_info hash peer = none) := by
  intro s' set
  have hset : s'.provider_set hash =
      (set.record author x.announced_at_ms x.frame_id x.withdrawn).2 := by
    rw [assert_provider_set, if_pos rfl]
  rw [provider_info_eq, provider_info_eq, hset]
  refine ⟨fun h => ProviderSet.record_stale h peer, fun h hspared => ?_, fun h hnot => ?_⟩
  · rw [ProviderSet.record_fresh h, ((set.asserted author x).enforce_cap_lookup peer).1 hspared]
    refine (HashMap.lookup_insert' _ _ _ _).trans ?_
    split
    · rename_i heq
      rw [heq]
    · rfl
  · rw [ProviderSet.record_fresh h]
    exact ((set.asserted author x).enforce_cap_lookup peer).2 hnot

/-- An offer or a restored assertion, as the frame teaches it. -/
theorem apply_asserting {s : DropState} {frame : VerifiedMessage × Instant} {hash : BlobHash}
    {author : EndpointId} {x : Assertion} (hx : assertion_of hash author frame.1 = some x) :
    frame.1.author = author ∧ s.apply frame =
      (s.assert_provider hash author x.announced_at_ms x.frame_id x.withdrawn).2 := by
  unfold assertion_of at hx
  split at hx
  · rename_i provider hb
    split at hx
    · rename_i hc
      obtain ⟨rfl, rfl⟩ := hc
      cases hx
      refine ⟨rfl, ?_⟩
      unfold apply learn
      simp only [hb]
    · cases hx
  · cases hx

/-- A frame that asserts nothing about the hash leaves the entries of its
providers as they are, save that an offer adds its author. -/
theorem apply_quiet {s : DropState} {frame : VerifiedMessage × Instant} {hash : BlobHash}
    (hx : assertion_of hash frame.1.author frame.1 = none)
    (hlisted : hash ∈ (s.apply frame).offers) (peer : EndpointId) :
    (s.apply frame).provider_info hash peer = s.provider_info hash peer ∨
      (s.apply frame).provider_info hash peer = some ((s.provider_info hash peer).getD {}) := by
  unfold apply learn at hlisted ⊢
  split at hlisted
  · rw [record_offer_info hlisted]
    split
    · exact .inr rfl
    · exact .inl rfl
  · -- An assertion about another hash.
    rename_i provider hb
    left
    have hne : hash ≠ provider.blob_hash := by
      rintro rfl
      simp only [assertion_of, hb, and_self, if_true] at hx
      cases hx
    have hset := s.assert_provider_set provider.blob_hash frame.1.author
      ⟨provider.announced_at_ms.getD 0, frame.1.message.id,
        decide (provider.state = .Withdrawing)⟩ hash
    rw [if_neg hne] at hset
    rw [provider_info_eq, provider_info_eq, hset]
  · exact .inl rfl

/-- What is remembered of a peer stays so as long as it is spared, and is
gone otherwise. -/
theorem remembers_step {s : DropState} {hash : BlobHash} {peer : EndpointId}
    {key : ℕ ×ₗ FixedBytes 16} (h : s.Remembers hash peer key)
    {frame : VerifiedMessage × Instant} (hlisted : hash ∈ (s.apply frame).offers) :
    (s.spares hash peer frame.1 → (s.apply frame).Remembers hash peer key) ∧
      (¬ s.spares hash peer frame.1 → (s.apply frame).provider_info hash peer = none) := by
  obtain ⟨info, hinfo, hle⟩ := h
  rcases hx : assertion_of hash frame.1.author frame.1 with _ | x
  · constructor
    · intro _
      rcases apply_quiet hx hlisted peer with heq | heq
      · exact ⟨info, heq.trans hinfo, hle⟩
      · rw [hinfo] at heq
        exact ⟨info, heq, hle⟩
    · intro hnot
      refine absurd ?_ hnot
      intro x hx'
      rw [hx] at hx'
      cases hx'
  · obtain ⟨-, happly⟩ := s.apply_asserting hx
    obtain ⟨hstale, hspared, hevicted⟩ := s.assert_provider_info hash frame.1.author x peer
    rw [happly]
    by_cases hnewer : (s.provider_set hash).knows_newer frame.1.author x
    · constructor
      · intro _
        exact ⟨info, (hstale hnewer).trans hinfo, hle⟩
      · intro hnot
        refine absurd ?_ hnot
        intro x' hx' hno
        rw [hx] at hx'
        cases hx'
        exact absurd hnewer hno
    · constructor
      · intro hspares
        have heq := hspared hnewer (hspares x hx hnewer)
        split at heq
        · rw [hinfo] at heq
          exact ⟨_, heq, hle.trans (key_le_asserted_info info x).1⟩
        · exact ⟨info, heq.trans hinfo, hle⟩
      · intro hnot
        refine hevicted hnewer ?_
        intro hspares
        refine hnot ?_
        intro x' hx' _
        rw [hx] at hx'
        cases hx'
        exact hspares

/-- A peer is remembered by what it asserts, unless that pushes its own entry
out. -/
theorem remembers_asserted (s : DropState) {frame : VerifiedMessage × Instant} {hash : BlobHash}
    {peer : EndpointId} {x : Assertion} (hx : assertion_of hash peer frame.1 = some x) :
    (s.spares hash peer frame.1 → (s.apply frame).Remembers hash peer x.key) ∧
      (¬ s.spares hash peer frame.1 → (s.apply frame).provider_info hash peer = none) := by
  obtain ⟨rfl, happly⟩ := s.apply_asserting hx
  obtain ⟨hstale, hspared, hevicted⟩ := s.assert_provider_info hash frame.1.author x frame.1.author
  rw [happly]
  by_cases hnewer : (s.provider_set hash).knows_newer frame.1.author x
  · constructor
    · intro _
      obtain ⟨info, hinfo, hlt⟩ := id hnewer
      exact ⟨info, (hstale hnewer).trans ((s.provider_info_eq _ _).trans hinfo), le_of_lt hlt⟩
    · intro hnot
      refine absurd ?_ hnot
      intro x' hx' hno
      rw [hx] at hx'
      cases hx'
      exact absurd hnewer hno
  · constructor
    · intro hspares
      have heq := hspared hnewer (hspares x hx hnewer)
      rw [if_pos rfl] at heq
      exact ⟨_, heq, (key_le_asserted_info _ x).2⟩
    · intro hnot
      refine hevicted hnewer ?_
      intro hspares
      refine hnot ?_
      intro x' hx' _
      rw [hx] at hx'
      cases hx'
      exact hspares

end DropState

/-! ## Runs -/

/-- A message that a withdrawal with the key answers for good: an offer of its
author, or an announcement that is older. -/
def Outdated (hash : BlobHash) (author : EndpointId) (key : ℕ ×ₗ FixedBytes 16)
    (m : VerifiedMessage) : Prop :=
  m.author = author ∧ (offered_hash m = some hash ∨
    ∃ x, assertion_of hash author m = some x ∧ x.withdrawn = false ∧ x.key < key)

/-- No outdated message makes the author one that a fetch would try. -/
def WithdrawalStands (s : DropState) (hash : BlobHash) (author : EndpointId)
    (key : ℕ ×ₗ FixedBytes 16) : Prop :=
  ∀ frame : VerifiedMessage × Instant, Outdated hash author key frame.1 →
    (s.apply frame).serves hash author → s.serves hash author

theorem withdrawal_stands {s : DropState} {hash : BlobHash} {author : EndpointId}
    {key : ℕ ×ₗ FixedBytes 16} (hlisted : hash ∈ s.offers) (h : s.Remembers hash author key) :
    WithdrawalStands s hash author key := by
  obtain ⟨info, hinfo, hle⟩ := h
  intro frame hout hserves
  rw [DropState.serves_iff] at hserves ⊢
  obtain ⟨rfl, hoffer | ⟨x, hx, -, hlt⟩⟩ := hout
  · unfold offered_hash at hoffer
    split at hoffer
    · rename_i offer hb
      cases hoffer
      have happly : s.apply frame =
          (s.record_offer_inner frame.1.author offer frame.2).2 := by
        unfold DropState.apply DropState.learn
        simp only [hb]
      obtain ⟨record, hrecord⟩ := Option.isSome_iff_exists.mp (AList.lookup_isSome.mpr hlisted)
      rw [happly, DropState.record_offer_inner_known hrecord,
        provider_info_add (s := s) rfl, if_pos ⟨rfl, rfl⟩, hinfo] at hserves
      rw [hinfo]
      exact hserves
    · cases hoffer
  · obtain ⟨-, happly⟩ := s.apply_asserting hx
    have hset := (s.provider_info_eq hash frame.1.author).symm.trans hinfo
    obtain ⟨hstale, -⟩ := s.assert_provider_info hash frame.1.author x frame.1.author
    rw [happly, hstale ⟨info, hset, hlt.trans_le hle⟩] at hserves
    exact hserves

/-- Once the entry is gone, the offer of the author brings it back. -/
theorem withdrawal_forgotten {s : DropState} {hash : BlobHash} {author : EndpointId}
    {key : ℕ ×ₗ FixedBytes 16} (hlisted : hash ∈ s.offers)
    (h : s.provider_info hash author = none) : ¬ WithdrawalStands s hash author key := by
  intro hstands
  obtain ⟨record, hrecord⟩ := Option.isSome_iff_exists.mp (AList.lookup_isSome.mpr hlisted)
  -- The offer that the author made of the hash, or would make.
  obtain ⟨m, offer, hauthor, hb, rfl⟩ : ∃ (m : VerifiedMessage) (offer : OfferV1),
      m.author = author ∧ m.body = some (.Offer offer) ∧ offer.blob_hash = hash := by
    exact ⟨⟨author, .new (.Request ⟨hash⟩) (.fill 16 0) 0, some (.Offer ⟨hash, "", 0, none, none, ∅⟩)⟩,
      ⟨hash, "", 0, none, none, ∅⟩, rfl, rfl, rfl⟩
  subst hauthor
  have hserves := hstands (m, 0) ⟨rfl, .inl (by simp only [offered_hash, hb])⟩ ?_
  · rw [DropState.serves_iff] at hserves
    obtain ⟨info, hinfo, -⟩ := hserves
    rw [h] at hinfo
    cases hinfo
  · have happly : s.apply (m, 0) = (s.record_offer_inner m.author offer 0).2 := by
      unfold DropState.apply DropState.learn
      simp only [hb]
    rw [happly, DropState.serves_iff, DropState.record_offer_inner_known hrecord,
      provider_info_add (s := s) rfl, if_pos ⟨rfl, rfl⟩, h]
    exact ⟨{}, rfl, rfl⟩

/-- The hash is in the offer table, now and after each of the frames. -/
def StaysListed (s : DropState) (hash : BlobHash) (frames : List (VerifiedMessage × Instant)) :
    Prop :=
  ∀ past, past <+: frames → hash ∈ (runs.run DropState.apply s past).offers

theorem StaysListed.rest {s : DropState} {hash : BlobHash} {frame : VerifiedMessage × Instant}
    {frames : List (VerifiedMessage × Instant)} (h : StaysListed s hash (frame :: frames)) :
    StaysListed (s.apply frame) hash frames :=
  fun past hpast => h (frame :: past) ((List.prefix_cons_inj frame).mpr hpast)

theorem remembered_run {s : DropState} {hash : BlobHash} {author : EndpointId}
    {key : ℕ ×ₗ FixedBytes 16} (h : s.Remembers hash author key)
    {frames : List (VerifiedMessage × Instant)} (hlisted : StaysListed s hash frames) :
    (∀ past, past <+: frames →
      WithdrawalStands (runs.run DropState.apply s past) hash author key) ↔
    runs.Meets DropState.apply (fun s frame => s.spares hash author frame.1) s frames := by
  induction frames generalizing s with
  | nil =>
    refine ⟨fun _ => trivial, fun _ past hpast => ?_⟩
    rw [List.prefix_nil.mp hpast]
    exact withdrawal_stands (hlisted [] (List.nil_prefix)) h
  | cons frame frames ih =>
    have hafter : hash ∈ (s.apply frame).offers := hlisted.rest [] List.nil_prefix
    obtain ⟨hspared, hevicted⟩ := DropState.remembers_step h hafter
    constructor
    · intro hall
      have hone : s.spares hash author frame.1 := by
        by_contra hnot
        refine withdrawal_forgotten hafter (hevicted hnot) (hall [frame] ?_)
        exact (List.prefix_cons_inj frame).mpr List.nil_prefix
      refine ⟨hone, (ih (hspared hone) hlisted.rest).mp ?_⟩
      intro past hpast
      exact hall (frame :: past) ((List.prefix_cons_inj frame).mpr hpast)
    · rintro ⟨hone, hrest⟩ past hpast
      rcases List.prefix_cons_iff.mp hpast with rfl | ⟨past', rfl, hpast'⟩
      · exact withdrawal_stands (hlisted [] List.nil_prefix) h
      · exact (ih (hspared hone) hlisted.rest).mpr hrest past' hpast'

/-- After a withdrawal, no offer of its author and no older announcement
brings the author back, at any point of a run, just when neither the
withdrawal nor any frame after it pushes the entry of the author out. -/
theorem withdrawal_stands_iff (s : DropState) (hash : BlobHash) (author : EndpointId)
    (withdrawal : VerifiedMessage × Instant) (announced_at_ms : UInt64) (frame_id : FixedBytes 16)
    (hx : assertion_of hash author withdrawal.1 = some ⟨announced_at_ms, frame_id, true⟩)
    (frames : List (VerifiedMessage × Instant))
    (hlisted : StaysListed (s.apply withdrawal) hash frames) :
    (∀ past, past <+: frames → WithdrawalStands
      (runs.run DropState.apply (s.apply withdrawal) past) hash author
      (toLex (announced_at_ms.toNat, frame_id))) ↔
    runs.Meets DropState.apply (fun s frame => s.spares hash author frame.1) s
      (withdrawal :: frames) := by
  obtain ⟨hspared, hevicted⟩ := s.remembers_asserted hx
  constructor
  · intro hall
    have hone : s.spares hash author withdrawal.1 := by
      by_contra hnot
      exact withdrawal_forgotten (hlisted [] List.nil_prefix) (hevicted hnot)
        (hall [] List.nil_prefix)
    exact ⟨hone, (remembered_run (hspared hone) hlisted).mp hall⟩
  · rintro ⟨hone, hrest⟩
    exact (remembered_run (hspared hone) hlisted).mpr hrest

end Laws

/-! ## A tombstone that is pushed out -/

namespace sybils

local instance : Crypto := Crypto.clear

def hash : BlobHash := ⟨.fill 32 7⟩
def author : EndpointId := SecretKey.public ⟨.fill 32 100⟩

/-- What a peer asserts of itself about the hash. -/
def assertion (peer : EndpointId) (state : ProviderState) (announced_at_ms : UInt64) :
    VerifiedMessage × Instant :=
  let body := MessageBodyV1.Provider { blob_hash := hash, state
                                       announced_at_ms := some announced_at_ms }
  ({ author := peer, message := .new body (.fill 16 1) 0, body := some body }, 0)

def offer : VerifiedMessage × Instant :=
  let body := MessageBodyV1.Offer { blob_hash := hash, name := "a", size := 3, media_type := none
                                    created_at_ms := none, metadata := ∅ }
  ({ author, message := .new body (.fill 16 2) 0, body := some body }, 0)

/-- The drop once the author offered the blob. -/
def offered : DropState := (DropState.new (SecretKey.public ⟨.fill 32 101⟩)).apply offer

def withdrawal : VerifiedMessage × Instant := assertion author .Withdrawing 5

/-- As many announcements as a set has room for, each of another key. -/
def announcements : List (VerifiedMessage × Instant) :=
  (List.range MAX_PROVIDERS_PER_BLOB).map
    (fun i => assertion (SecretKey.public ⟨.fill 32 (UInt8.ofNat i)⟩) .Available 1)

/-- Announcements leave the offers as they are. -/
theorem stays_listed (s : DropState) (h : hash ∈ s.offers) : StaysListed s hash announcements := by
  have hkeep : ∀ frame ∈ announcements, ∀ s : DropState, (s.apply frame).offers = s.offers := by
    intro frame hframe s
    obtain ⟨i, -, rfl⟩ := List.mem_map.mp hframe
    rfl
  intro past hpast
  have hsub : ∀ frame ∈ past, frame ∈ announcements := fun frame hf => hpast.subset hf
  clear hpast
  induction past generalizing s with
  | nil => exact h
  | cons frame past ih =>
    refine ih (s.apply frame) ?_ (fun f hf => hsub f (List.mem_cons_of_mem _ hf))
    rw [hkeep frame (hsub frame List.mem_cons_self)]
    exact h

theorem withdraws : assertion_of hash author withdrawal.1 = some ⟨5, .fill 16 1, true⟩ := rfl

/-- The withdrawal stands against the announcements of the other keys just
when none of them pushes it out. -/
theorem a_withdrawal_stands_iff :
    (∀ past, past <+: announcements → WithdrawalStands
      (runs.run DropState.apply (offered.apply withdrawal) past) hash author
      (toLex ((5 : UInt64).toNat, .fill 16 1))) ↔
    runs.Meets DropState.apply (fun s frame => s.spares hash author frame.1) offered
      (withdrawal :: announcements) :=
  withdrawal_stands_iff offered hash author withdrawal 5 (.fill 16 1) withdraws announcements
    (stays_listed _ (by decide +kernel))

/-- The other keys fill the set, and the author that withdrew is back with
the next copy of its offer. -/
theorem a_withdrawal_is_forgotten :
    ¬ (offered.apply withdrawal).serves hash author ∧
      ¬ WithdrawalStands (runs.run DropState.apply (offered.apply withdrawal) announcements) hash
        author (toLex ((5 : UInt64).toNat, .fill 16 1)) ∧
      ¬ ∀ [Crypto] (s : DropState) (hash : BlobHash) (author : EndpointId)
        (withdrawal : VerifiedMessage × Instant) (announced_at_ms : UInt64)
        (frame_id : FixedBytes 16)
        (_ : assertion_of hash author withdrawal.1 = some ⟨announced_at_ms, frame_id, true⟩)
        (frames : List (VerifiedMessage × Instant))
        (_ : StaysListed (s.apply withdrawal) hash frames) (past : List (VerifiedMessage × Instant))
        (_ : past <+: frames), WithdrawalStands
          (runs.run DropState.apply (s.apply withdrawal) past) hash author
          (toLex (announced_at_ms.toNat, frame_id)) := by
  have hgone : (runs.run DropState.apply (offered.apply withdrawal) announcements).provider_info
      hash author = none := by decide +kernel
  have hlisted := stays_listed (offered.apply withdrawal) (by decide +kernel)
  have hforgotten : ¬ WithdrawalStands
      (runs.run DropState.apply (offered.apply withdrawal) announcements) hash author
      (toLex ((5 : UInt64).toNat, .fill 16 1)) :=
    withdrawal_forgotten (hlisted _ (List.prefix_refl _)) hgone
  refine ⟨?_, hforgotten, ?_⟩
  · rw [DropState.serves_iff]
    rintro ⟨info, hinfo, hlive⟩
    have hentry : (offered.apply withdrawal).provider_info hash author =
        some { announced := true, announced_at_ms := 5, last_frame_id := .fill 16 1
               withdrawn := true } := by decide +kernel
    rw [hentry] at hinfo
    cases hinfo
    cases hlive
  · intro h
    exact hforgotten (h offered hash author withdrawal 5 (.fill 16 1) withdraws
      announcements hlisted _ (List.prefix_refl _))

end sybils

end iroh_drop
