-- The order of the providers of one blob: what some offers and assertions make
-- of it, in whatever order they come (provider.rs, state.rs).
import IrohDrop.Tombstones

open rust_std

namespace iroh_drop

section Laws

variable [Crypto]

/-! ## Messages about one blob -/

/-- What a message about the blob does to its providers. -/
def ProviderSet.hear (self : ProviderSet) (m : VerifiedMessage) : ProviderSet :=
  match m.body with
  | some (.Offer _) => self.add m.author true
  | some (.Provider provider) =>
    (self.record m.author (provider.announced_at_ms.getD 0) m.message.id
      (decide (provider.state = .Withdrawing))).2
  | _ => self

/-- A message about the blob is an offer of it or an assertion. -/
theorem about_cases {hash : BlobHash} {m : VerifiedMessage} (h : (provider_of hash m).isSome) :
    (∃ offer, m.body = some (.Offer offer) ∧ offer.blob_hash = hash) ∨
      ∃ provider, m.body = some (.Provider provider) ∧ provider.blob_hash = hash := by
  unfold provider_of at h
  split at h
  · rename_i offer hb
    split at h
    · exact .inl ⟨offer, hb, ‹_›⟩
    · cases h
  · rename_i provider hb
    split at h
    · exact .inr ⟨provider, hb, ‹_›⟩
    · cases h
  · cases h

/-- No blob but this one was ever offered. -/
structure OneBlob (hash : BlobHash) (s : DropState) : Prop where
  only : ∀ x ∈ s.offers, x = hash
  uncounted : hash ∉ s.offers → ∀ author, s.offers_per_author.lookup author = none

theorem one_blob_new (hash : BlobHash) (self_endpoint_id : EndpointId) :
    OneBlob hash (DropState.new self_endpoint_id) :=
  ⟨fun _ hx => absurd hx (AList.notMem_empty _), fun _ _ => rfl⟩

theorem provider_set_noted (s : DropState) (author : EndpointId) (hash : BlobHash) :
    (s.offer_noted author hash).provider_set hash = (s.provider_set hash).add author true := by
  unfold DropState.offer_noted DropState.provider_set DropState.touch_offer
  simp only
  rw [HashMap.update, HashMap.lookup_insert', if_pos rfl]
  rfl

/-- A message about the only blob does to its providers what it says. -/
theorem OneBlob.learn {hash : BlobHash} {s : DropState} (h : OneBlob hash s)
    {m : VerifiedMessage} (hm : (provider_of hash m).isSome) (now : Instant) :
    OneBlob hash (s.learn m now) ∧
      (s.learn m now).provider_set hash = (s.provider_set hash).hear m := by
  rcases about_cases hm with ⟨offer, hb, rfl⟩ | ⟨provider, hb, rfl⟩
  · simp only [DropState.learn, ProviderSet.hear, hb]
    rcases hold : s.offers.lookup offer.blob_hash with _ | record
    · have hnew : offer.blob_hash ∉ s.offers := AList.lookup_eq_none.mp hold
      have hquota : s.author_has_quota m.author := by
        unfold DropState.author_has_quota
        rw [h.uncounted hnew m.author]
        exact Nat.succ_le_of_lt (by decide)
      have hlen : HashMap.len (s.offer_listed m.author offer now).offers ≤ MAX_OFFERS := by
        refine (HashMap.len_le_card _ (l := [offer.blob_hash]) fun x hx => ?_).trans
          ((List.toFinset_card_le _).trans (by decide : 1 ≤ MAX_OFFERS))
        rcases (AList.mem_insert _).mp hx with rfl | hx
        · exact List.mem_singleton_self _
        · exact List.mem_singleton.mpr (h.only x hx)
      rw [DropState.record_offer_inner_new hnew hquota, DropState.enforce_offer_cap,
        DropState.evict_offers_small _ hlen]
      refine ⟨⟨fun x hx => ?_, fun hout => ?_⟩, provider_set_noted s m.author offer.blob_hash⟩
      · rcases (AList.mem_insert _).mp hx with rfl | hx
        · rfl
        · exact h.only x hx
      · exact absurd ((AList.mem_insert _).mpr (.inl rfl)) hout
    · rw [DropState.record_offer_inner_known hold]
      refine ⟨⟨fun x hx => ?_, fun hout => ?_⟩, provider_set_noted s m.author offer.blob_hash⟩
      · rcases (AList.mem_insert _).mp hx with rfl | hx
        · rfl
        · exact h.only x hx
      · exact absurd ((AList.mem_insert _).mpr (.inl rfl)) hout
  · simp only [DropState.learn, ProviderSet.hear, hb]
    refine ⟨⟨h.only, h.uncounted⟩, ?_⟩
    unfold DropState.assert_provider DropState.provider_set
    simp only
    rw [HashMap.lookup_insert', if_pos rfl, Option.getD_some]

/-- All messages are about the only blob. -/
theorem OneBlob.learn_all {hash : BlobHash} {s : DropState} (h : OneBlob hash s)
    {frames : List (VerifiedMessage × Instant)}
    (hframes : ∀ f ∈ frames, (provider_of hash f.1).isSome) :
    (frames.foldl DropState.apply s).provider_set hash =
      (frames.map Prod.fst).foldl ProviderSet.hear (s.provider_set hash) := by
  induction frames generalizing s with
  | nil => rfl
  | cons f frames ih =>
    obtain ⟨hkept, hset⟩ := h.learn (hframes f List.mem_cons_self) f.2
    rw [List.foldl_cons, List.map_cons, List.foldl_cons, ← hset]
    exact ih hkept fun f' hf' => hframes f' (List.mem_cons_of_mem _ hf')

/-! ## The providers after some messages -/

/-- What one author offers, and nobody else. -/
structure OneOfferer (hash : BlobHash) (a : EndpointId) (messages : List VerifiedMessage) :
    Prop where
  about : ∀ m ∈ messages, (provider_of hash m).isSome
  sole : ∀ m ∈ messages, offered_hash m = some hash → m.author = a
  authors : (messages.filterMap (provider_of hash)).toFinset.card ≤ MAX_PROVIDERS_PER_BLOB

/-- The author never says that it withdraws. -/
def NeverWithdraws (messages : List VerifiedMessage) (hash : BlobHash) (a : EndpointId) : Prop :=
  ∀ m ∈ messages, ∀ x, assertion_of hash a m = some x → x.withdrawn = false

/-- The set is what the messages make of it. -/
structure HeardSet (hash : BlobHash) (a : EndpointId) (past : List VerifiedMessage)
    (set : ProviderSet) : Prop where
  stands : ∀ author, Stands past hash author (set.providers.lookup author)
  faultless : ∀ author info, set.providers.lookup author = some info → info.failures = 0
  original : set.original = none ∨ set.original = some a
  marked : (∃ m ∈ past, offered_hash m = some hash) → NeverWithdraws past hash a →
    set.original = some a

theorem heard_set_nothing (hash : BlobHash) (a : EndpointId) : HeardSet hash a [] {} := by
  refine ⟨fun _ hmem => (List.not_mem_nil hmem), fun _ _ h => ?_, .inl rfl, ?_⟩
  · cases h
  · rintro ⟨m, hm, -⟩
    cases hm

/-- The front of some messages tells of no more than all of them. -/
theorem OneOfferer.front {hash : BlobHash} {a : EndpointId} {past rest : List VerifiedMessage}
    (h : OneOfferer hash a (past ++ rest)) : OneOfferer hash a past := by
  refine ⟨fun m hm => h.about m (List.mem_append_left _ hm),
    fun m hm => h.sole m (List.mem_append_left _ hm), le_trans (Finset.card_le_card ?_) h.authors⟩
  intro author hauthor
  rw [List.mem_toFinset] at hauthor ⊢
  rw [List.filterMap_append]
  exact List.mem_append_left _ hauthor

theorem offered_hash_of_assertion {hash : BlobHash} {author : EndpointId} {m : VerifiedMessage}
    {x : Assertion} (h : assertion_of hash author m = some x) : offered_hash m = none := by
  unfold assertion_of at h
  split at h
  · rename_i provider hb
    simp only [offered_hash, hb]
  · cases h

/-- An assertion goes into the set as `record` has it. -/
theorem hear_assertion {hash : BlobHash} {m : VerifiedMessage} {x : Assertion}
    (h : assertion_of hash m.author m = some x) (set : ProviderSet) :
    set.hear m = (set.record m.author x.announced_at_ms x.frame_id x.withdrawn).2 := by
  unfold assertion_of at h
  split at h
  · rename_i provider hb
    split at h
    · cases h
      simp only [ProviderSet.hear, hb]
    · cases h
  · cases h

/-- The mark of the first offerer goes with its own withdrawal only. -/
theorem record_original {set : ProviderSet} {peer : EndpointId} {x : Assertion}
    (hroom : HashMap.len (set.providers.insert peer ((set.providers.lookup peer).getD {})) ≤
      MAX_PROVIDERS_PER_BLOB) :
    (set.record peer x.announced_at_ms x.frame_id x.withdrawn).2.original = set.original ∨
      (set.record peer x.announced_at_ms x.frame_id x.withdrawn).2.original = none ∧
        x.withdrawn = true ∧ set.original = some peer := by
  unfold ProviderSet.record
  simp only
  split
  · exact .inl rfl
  · unfold ProviderSet.enforce_cap
    rw [if_pos (by rw [HashMap.len_insert] at hroom ⊢; exact hroom)]
    simp only
    split
    · rename_i hgone
      simp only [Bool.and_eq_true, decide_eq_true_eq] at hgone
      exact .inr ⟨rfl, hgone⟩
    · exact .inl rfl

namespace HeardSet

variable {hash : BlobHash} {a : EndpointId} {past : List VerifiedMessage} {set : ProviderSet}

theorem offer (h : HeardSet hash a past set) {m : VerifiedMessage} {offer : OfferV1}
    (hb : m.body = some (.Offer offer)) (hhash : offer.blob_hash = hash) (ha : m.author = a) :
    HeardSet hash a (past ++ [m]) (set.hear m) := by
  have hentry : ∀ author, (set.hear m).providers.lookup author =
      if author = m.author then some ((set.providers.lookup m.author).getD {})
      else set.providers.lookup author := by
    intro author
    simp only [ProviderSet.hear, hb, ProviderSet.add]
    exact HashMap.lookup_insert' _ _ _ _
  have horiginal : (set.hear m).original = some a := by
    simp only [ProviderSet.hear, hb, ProviderSet.add, Bool.true_and, Option.isNone_iff_eq_none,
      ha]
    rcases h.original with hnone | hsome
    · rw [if_pos hnone]
    · rw [hsome, if_neg (Option.some_ne_none a)]
  refine ⟨fun author => ?_, fun author info hinfo => ?_, .inr horiginal, fun _ _ => horiginal⟩
  · rw [hentry]
    split
    · rename_i hauthor
      subst hauthor
      exact stands_push_offer (h.stands _) hb hhash
    · rename_i hauthor
      refine stands_push_other (h.stands author) fun hprovider => hauthor ?_
      simp only [provider_of, hb, hhash, if_true, Option.some.injEq] at hprovider
      exact hprovider.symm
  · rw [hentry] at hinfo
    split at hinfo
    · cases hinfo
      rcases hlookup : set.providers.lookup m.author with _ | info
      · rfl
      · exact h.faultless _ _ hlookup
    · exact h.faultless _ _ hinfo

/-- The set has room for what a message more tells of. -/
theorem room (h : HeardSet hash a past set) {m : VerifiedMessage} {x : Assertion}
    (hx : assertion_of hash m.author m = some x)
    (hcap : ((past ++ [m]).filterMap (provider_of hash)).toFinset.card ≤
      MAX_PROVIDERS_PER_BLOB) :
    HashMap.len (set.providers.insert m.author ((set.providers.lookup m.author).getD {})) ≤
      MAX_PROVIDERS_PER_BLOB := by
  refine (HashMap.len_le_card _ fun peer hpeer => ?_).trans hcap
  rw [mem_filterMap_push]
  rcases (AList.mem_insert _).mp hpeer with rfl | hold
  · exact .inr (provider_of_assertion hx).2
  · obtain ⟨info, hinfo⟩ := Option.isSome_iff_exists.mp (AList.lookup_isSome.mpr hold)
    have hstands := h.stands peer
    rw [hinfo] at hstands
    exact .inl hstands.1

theorem assertion (h : HeardSet hash a past set) {m : VerifiedMessage} {x : Assertion}
    (hx : assertion_of hash m.author m = some x)
    (hcap : ((past ++ [m]).filterMap (provider_of hash)).toFinset.card ≤
      MAX_PROVIDERS_PER_BLOB) :
    HeardSet hash a (past ++ [m]) (set.hear m) := by
  have hroom := h.room hx hcap
  have hentry : ∀ author, (set.hear m).providers.lookup author =
      if author = m.author then some (asserted_info ((set.providers.lookup m.author).getD {}) x)
      else set.providers.lookup author := by
    intro author
    rw [hear_assertion hx]
    exact record_info hroom author
  have horiginal := record_original (x := x) hroom
  rw [← hear_assertion hx] at horiginal
  refine ⟨fun author => ?_, fun author info hinfo => ?_, ?_, ?_⟩
  · rw [hentry]
    split
    · rename_i hauthor
      subst hauthor
      exact stands_push_assertion (h.stands _) hx
    · rename_i hauthor
      refine stands_push_other (h.stands author) fun hprovider => hauthor ?_
      exact Option.some.inj (hprovider.symm.trans (provider_of_assertion hx).2)
  · rw [hentry] at hinfo
    split at hinfo
    · cases hinfo
      have hbefore : ((set.providers.lookup m.author).getD {}).failures = 0 := by
        rcases hlookup : set.providers.lookup m.author with _ | info
        · rfl
        · exact h.faultless _ _ hlookup
      unfold asserted_info
      split
      · exact hbefore
      · exact hbefore
    · exact h.faultless _ _ hinfo
  · rcases horiginal with hsame | ⟨hgone, -⟩
    · rw [hsame]
      exact h.original
    · exact .inl hgone
  · rintro ⟨m', hm', hoffered⟩ hnever
    have hpast : ∃ m ∈ past, offered_hash m = some hash := by
      rcases List.mem_append.mp hm' with hold | hnew
      · exact ⟨m', hold, hoffered⟩
      · rw [List.mem_singleton.mp hnew] at hoffered
        exact absurd (offered_hash_of_assertion hx) (by rw [hoffered]; exact Option.some_ne_none _)
    have hmarked := h.marked hpast fun m hm => hnever m (List.mem_append_left _ hm)
    rcases horiginal with hsame | ⟨-, hwithdrawn, hauthor⟩
    · rw [hsame, hmarked]
    · -- Only the author itself takes its mark away, by a withdrawal.
      rw [hmarked, Option.some.injEq] at hauthor
      rw [← hauthor] at hx
      have hlive := hnever m (List.mem_append_right _ (List.mem_singleton_self m)) x hx
      rw [hlive] at hwithdrawn
      cases hwithdrawn

/-- A message more about the blob, of which only one author makes offers. -/
theorem push (h : HeardSet hash a past set) {m : VerifiedMessage}
    (hone : OneOfferer hash a (past ++ [m])) : HeardSet hash a (past ++ [m]) (set.hear m) := by
  have hm : m ∈ past ++ [m] := List.mem_append_right _ (List.mem_singleton_self m)
  rcases about_cases (hone.about m hm) with ⟨offer, hb, hhash⟩ | ⟨provider, hb, hhash⟩
  · exact h.offer hb hhash (hone.sole m hm (by simp only [offered_hash, hb, hhash]))
  · refine h.assertion (x := ⟨provider.announced_at_ms.getD 0, m.message.id,
      decide (provider.state = .Withdrawing)⟩) ?_ hone.authors
    simp only [assertion_of, hb, hhash, and_self, if_true]

/-- All messages, one after the other. -/
theorem all (h : HeardSet hash a past set) {messages : List VerifiedMessage}
    (hone : OneOfferer hash a (past ++ messages)) :
    HeardSet hash a (past ++ messages) (messages.foldl ProviderSet.hear set) := by
  induction messages generalizing past set with
  | nil =>
    rw [List.append_nil]
    exact h
  | cons m messages ih =>
    rw [List.append_cons] at hone ⊢
    rw [List.foldl_cons]
    exact ih (h.push (hone.front)) hone

end HeardSet

/-! ## The order -/

/-- The author first, and then by id. -/
def in_front (a x y : EndpointId) : Prop := toLex (!decide (x = a), x) ≤ toLex (!decide (y = a), y)

theorem in_front_antisymm {a x y : EndpointId} (h : in_front a x y) (h' : in_front a y x) :
    x = y :=
  congrArg (fun k => (ofLex k).2) (le_antisymm h h')

theorem le_of_in_front {a x y : EndpointId} (h : in_front a x y) (hx : x ≠ a) : x ≤ y := by
  unfold in_front at h
  rw [Prod.Lex.toLex_le_toLex'] at h
  by_cases hy : y = a
  · exact absurd h.1 (by simp [hx, hy])
  · exact h.2 (by simp [hx, hy])

theorem in_front_self (a y : EndpointId) : in_front a a y := by
  unfold in_front
  rw [Prod.Lex.toLex_le_toLex']
  by_cases hy : y = a <;> simp [hy]

theorem in_front_of_le {a x y : EndpointId} (h : x ≤ y) (hy : y ≠ a) : in_front a x y := by
  by_cases hx : x = a
  · rw [hx]
    exact in_front_self a y
  · unfold in_front
    rw [Prod.Lex.toLex_le_toLex']
    simp [hx, hy, h]

theorem ordered_nodup (set : ProviderSet) : set.ordered.Nodup := by
  have hperm := ((set.entries.filter (fun e => !e.2.withdrawn)).perm_insertionSort set.before).map
    Prod.fst
  exact hperm.nodup_iff.mpr (set.entries_nodup.sublist (List.filter_sublist.map _))

theorem before_total (set : ProviderSet) (a b : EndpointId × ProviderInfo) :
    set.before a b ∨ set.before b a := le_total _ _

theorem before_trans (set : ProviderSet) (a b c : EndpointId × ProviderInfo)
    (hab : set.before a b) (hbc : set.before b c) : set.before a c := le_trans hab hbc

/-- Among providers that never failed, the mark comes before the id. -/
theorem ordered_pairwise {set : ProviderSet}
    (h : ∀ author info, set.providers.lookup author = some info → info.failures = 0) :
    set.ordered.Pairwise fun x y =>
      toLex (!decide (set.original = some x), x) ≤ toLex (!decide (set.original = some y), y) := by
  have hsorted : ((set.entries.filter (fun e => !e.2.withdrawn)).insertionSort set.before).Pairwise
      set.before :=
    haveI : Std.Total set.before := ⟨before_total set⟩
    haveI : IsTrans _ set.before := ⟨before_trans set⟩
    List.pairwise_insertionSort set.before _
  unfold ProviderSet.ordered
  rw [List.pairwise_map]
  refine hsorted.imp_of_mem fun {x y} hx hy hbefore => ?_
  have hfailures : ∀ e ∈ (set.entries.filter (fun e => !e.2.withdrawn)).insertionSort set.before,
      e.2.failures = 0 := by
    intro e he
    have hentry := (List.mem_filter.mp ((List.mem_insertionSort _).mp he)).1
    exact h e.1 e.2 ((set.mem_entries e.1 e.2).mp hentry)
  unfold ProviderSet.before at hbefore
  rw [hfailures x hx, hfailures y hy, Prod.Lex.toLex_le_toLex'] at hbefore
  exact hbefore.2 rfl

/-- A marked author comes first. -/
theorem pairwise_of_marked {set : ProviderSet} {a : EndpointId}
    (h : ∀ author info, set.providers.lookup author = some info → info.failures = 0)
    (ha : set.original = some a) : set.ordered.Pairwise (in_front a) := by
  refine (ordered_pairwise h).imp fun {x y} hxy => ?_
  simpa only [in_front, ha, Option.some.injEq, eq_comm (a := a)] using hxy

/-- Without a mark the ids decide. -/
theorem pairwise_of_unmarked {set : ProviderSet}
    (h : ∀ author info, set.providers.lookup author = some info → info.failures = 0)
    (hnone : set.original = none) : set.ordered.Pairwise (· ≤ ·) := by
  refine (ordered_pairwise h).imp fun {x y} hxy => ?_
  rw [Prod.Lex.toLex_le_toLex'] at hxy
  exact hxy.2 (by simp [hnone])

/-! ## Orders of delivery -/

/-- The order in which a fetch tries the providers after some frames. -/
def provider_order (self_endpoint_id : EndpointId) (hash : BlobHash)
    (frames : List (VerifiedMessage × Instant)) : List EndpointId :=
  ((frames.foldl DropState.apply (DropState.new self_endpoint_id)).provider_set hash).ordered

/-- Every peer has the same order, whatever order the messages come in, and the
author is the first of it where it is live. -/
structure OneOrder (messages : List VerifiedMessage) (hash : BlobHash) (a : EndpointId) :
    Prop where
  same : ∀ (self_endpoint_id other : EndpointId) (frames frames' : List (VerifiedMessage × Instant)),
    (frames.map Prod.fst).Perm messages → (frames'.map Prod.fst).Perm messages →
      provider_order self_endpoint_id hash frames = provider_order other hash frames'
  first : ∀ (self_endpoint_id : EndpointId) (frames : List (VerifiedMessage × Instant)),
    (frames.map Prod.fst).Perm messages → Live messages hash a →
      (provider_order self_endpoint_id hash frames).head? = some a

/-- The mark of the author is not missed: the author is not live, or it never
withdrew, or its id comes before those of the others that are live. -/
def Unshaken (messages : List VerifiedMessage) (hash : BlobHash) (a : EndpointId) : Prop :=
  Live messages hash a → ¬ NeverWithdraws messages hash a → ∀ b, Live messages hash b → a ≤ b

section Orders

variable {messages : List VerifiedMessage} {hash : BlobHash} {a : EndpointId}

theorem Live.of_perm {others : List VerifiedMessage} {peer : EndpointId}
    (hperm : others.Perm messages) : Live others hash peer ↔ Live messages hash peer := by
  unfold Live Greatest Unasserted
  simp only [hperm.mem_iff]

theorem OneOfferer.of_perm {others : List VerifiedMessage} (h : OneOfferer hash a messages)
    (hperm : others.Perm messages) : OneOfferer hash a others := by
  refine ⟨fun m hm => h.about m (hperm.mem_iff.mp hm), fun m hm => h.sole m (hperm.mem_iff.mp hm),
    le_trans (Finset.card_le_card ?_) h.authors⟩
  intro author hauthor
  rw [List.mem_toFinset] at hauthor ⊢
  exact (hperm.filterMap _).mem_iff.mp hauthor

theorem keys_nodup_of_ids (h : (messages.map (fun m => m.message.id)).Nodup) :
    (messages.map VerifiedMessage.key).Nodup := by
  refine List.Nodup.of_map Prod.snd ?_
  rw [List.map_map]
  exact h

/-- What the messages about the blob tell, from the first one on. -/
theorem heard_set_all (hone : OneOfferer hash a messages) :
    HeardSet hash a messages (messages.foldl ProviderSet.hear {}) :=
  (heard_set_nothing hash a).all (show OneOfferer hash a ([] ++ messages) from hone)

/-- The providers after some messages about the blob. -/
theorem heard_by_frames (hone : OneOfferer hash a messages) (self_endpoint_id : EndpointId)
    {frames : List (VerifiedMessage × Instant)} (hperm : (frames.map Prod.fst).Perm messages) :
    (frames.foldl DropState.apply (DropState.new self_endpoint_id)).provider_set hash =
        (frames.map Prod.fst).foldl ProviderSet.hear {} ∧
      HeardSet hash a (frames.map Prod.fst) ((frames.map Prod.fst).foldl ProviderSet.hear {}) := by
  have hframes := hone.of_perm hperm
  refine ⟨(one_blob_new hash self_endpoint_id).learn_all fun f hf =>
    hframes.about f.1 (List.mem_map_of_mem hf), ?_⟩
  exact heard_set_all hframes

theorem mem_provider_order (hone : OneOfferer hash a messages)
    (hids : (messages.map (fun m => m.message.id)).Nodup) (self_endpoint_id : EndpointId)
    {frames : List (VerifiedMessage × Instant)} (hperm : (frames.map Prod.fst).Perm messages)
    (peer : EndpointId) :
    peer ∈ provider_order self_endpoint_id hash frames ↔ Live messages hash peer := by
  obtain ⟨hset, hheard⟩ := heard_by_frames hone self_endpoint_id hperm
  have hkeys : ((frames.map Prod.fst).map VerifiedMessage.key).Nodup :=
    (hperm.map _).nodup_iff.mpr (keys_nodup_of_ids hids)
  unfold provider_order
  rw [mem_ordered_iff, hset, (hheard.stands peer).live_iff hkeys, Live.of_perm hperm]

/-- While nothing shakes its mark, the author comes first. -/
theorem provider_order_pairwise (hone : OneOfferer hash a messages)
    (hoffered : ∃ m ∈ messages, offered_hash m = some hash)
    (hids : (messages.map (fun m => m.message.id)).Nodup) (h : Unshaken messages hash a)
    (self_endpoint_id : EndpointId) {frames : List (VerifiedMessage × Instant)}
    (hperm : (frames.map Prod.fst).Perm messages) :
    (provider_order self_endpoint_id hash frames).Pairwise (in_front a) := by
  obtain ⟨hset, hheard⟩ := heard_by_frames hone self_endpoint_id hperm
  have hlive := fun peer => mem_provider_order hone hids self_endpoint_id hperm peer
  unfold provider_order at hlive ⊢
  rw [hset] at hlive ⊢
  rcases hheard.original with hnone | hmarked
  · have hwithdraws : ¬ NeverWithdraws messages hash a := by
      intro hnever
      obtain ⟨m, hm, hoffer⟩ := hoffered
      have hmarked := hheard.marked ⟨m, hperm.mem_iff.mpr hm, hoffer⟩
        fun m hm => hnever m (hperm.mem_iff.mp hm)
      rw [hnone] at hmarked
      cases hmarked
    refine (pairwise_of_unmarked hheard.faultless hnone).imp_of_mem fun {x y} hx hy hle => ?_
    by_cases hya : y = a
    · subst hya
      have hleast := h ((hlive y).mp hy) hwithdraws x ((hlive x).mp hx)
      rw [le_antisymm hle hleast]
      exact in_front_self y y
    · exact in_front_of_le hle hya
  · exact pairwise_of_marked hheard.faultless hmarked

theorem one_order_of_unshaken (hone : OneOfferer hash a messages)
    (hoffered : ∃ m ∈ messages, offered_hash m = some hash)
    (hids : (messages.map (fun m => m.message.id)).Nodup) (h : Unshaken messages hash a) :
    OneOrder messages hash a := by
  constructor
  · intro self_endpoint_id other frames frames' hperm hperm'
    refine List.Perm.eq_of_pairwise (fun x y _ _ => in_front_antisymm)
      (provider_order_pairwise hone hoffered hids h self_endpoint_id hperm)
      (provider_order_pairwise hone hoffered hids h other hperm') ?_
    refine (List.perm_ext_iff_of_nodup (ordered_nodup _) (ordered_nodup _)).mpr fun peer => ?_
    exact (mem_provider_order hone hids self_endpoint_id hperm peer).trans
      (mem_provider_order hone hids other hperm' peer).symm
  · intro self_endpoint_id frames hperm hlive
    have hmem := (mem_provider_order hone hids self_endpoint_id hperm a).mpr hlive
    have hpairs := provider_order_pairwise hone hoffered hids h self_endpoint_id hperm
    rcases horder : provider_order self_endpoint_id hash frames with _ | ⟨first, rest⟩
    · rw [horder] at hmem
      cases hmem
    · rw [horder] at hmem hpairs
      rcases List.mem_cons.mp hmem with rfl | hrest
      · rfl
      · have hfirst := (List.pairwise_cons.mp hpairs).1 a hrest
        rw [in_front_antisymm hfirst (in_front_self a first), List.head?_cons]

/-! ## The order that loses the mark -/

theorem remove_all_unmarked {set : ProviderSet} (h : set.original = none)
    (l : List (EndpointId × ProviderInfo)) :
    (l.foldl (fun set e => set.remove e.1) set).original = none := by
  induction l generalizing set with
  | nil => exact h
  | cons e l ih =>
    refine ih ?_
    simp only [ProviderSet.remove, h, ite_self]

theorem enforce_cap_unmarked {set : ProviderSet} (h : set.original = none) :
    set.enforce_cap.original = none := by
  unfold ProviderSet.enforce_cap
  split
  · exact h
  · exact remove_all_unmarked h _

/-- No assertion brings a mark. -/
theorem hear_unmarked {set : ProviderSet} (h : set.original = none) {m : VerifiedMessage}
    {x : Assertion} (hx : assertion_of hash m.author m = some x) :
    (set.hear m).original = none := by
  rw [hear_assertion hx]
  unfold ProviderSet.record
  simp only
  split
  · exact h
  · refine enforce_cap_unmarked ?_
    simp only [h, ite_self]

theorem hear_all_unmarked {set : ProviderSet} (h : set.original = none)
    {rest : List VerifiedMessage}
    (hrest : ∀ m ∈ rest, ∃ x, assertion_of hash m.author m = some x) :
    (rest.foldl ProviderSet.hear set).original = none := by
  induction rest generalizing set with
  | nil => exact h
  | cons m rest ih =>
    obtain ⟨x, hx⟩ := hrest m List.mem_cons_self
    exact ih (hear_unmarked h hx) fun m hm => hrest m (List.mem_cons_of_mem _ hm)

/-- A withdrawal is heard by an author that asserted nothing before. -/
theorem hear_first_withdrawal {past : List VerifiedMessage} {set : ProviderSet}
    (h : HeardSet hash a past set) (hun : Unasserted past hash a) {m : VerifiedMessage}
    {x : Assertion} (hm : m.author = a) (hx : assertion_of hash m.author m = some x)
    (hwithdrawn : x.withdrawn = true) : (set.hear m).original = none := by
  have hfresh : ¬ set.knows_newer m.author x := by
    rintro ⟨info, hinfo, hlt⟩
    have hstands := h.stands m.author
    rw [hinfo] at hstands
    rcases hstands.2 with ⟨⟨m', hm', hx'⟩, -⟩ | ⟨-, hat, hid, -⟩
    · rw [hm, hun m' hm'] at hx'
      cases hx'
    · refine absurd hlt (not_lt_of_ge (le_trans (le_of_eq ?_) (untouched_key_le x.key)))
      simp only [ProviderInfo.key, hat, hid]
  rw [hear_assertion hx, ProviderSet.record_fresh hfresh]
  refine enforce_cap_unmarked ?_
  unfold ProviderSet.asserted
  simp only [hwithdrawn, Bool.true_and, decide_eq_true_eq]
  rcases h.original with hnone | hsome
  · rw [hnone, ite_self]
  · rw [if_pos (by rw [hsome, hm])]

/-- The offers first, then a withdrawal of the author, and then the rest. -/
theorem unmarked_order (hone : OneOfferer hash a messages) {m : VerifiedMessage} {x : Assertion}
    (hm : m ∈ messages) (hx : assertion_of hash a m = some x) (hwithdrawn : x.withdrawn = true) :
    ∃ order : List VerifiedMessage, order.Perm messages ∧
      (order.foldl ProviderSet.hear {}).original = none := by
  have hauthor : m.author = a := (provider_of_assertion hx).1
  have hin : m ∈ messages.filter (fun m => !(offered_hash m).isSome) := by
    refine List.mem_filter.mpr ⟨hm, ?_⟩
    rw [offered_hash_of_assertion hx]
    rfl
  obtain ⟨before, after, hsplit⟩ := List.append_of_mem hin
  have hperm : (messages.filter (fun m => (offered_hash m).isSome) ++
      m :: (before ++ after)).Perm messages := by
    refine List.Perm.trans ?_ (List.filter_append_perm (fun m => (offered_hash m).isSome) messages)
    rw [hsplit]
    exact List.Perm.append_left _ List.perm_middle.symm
  refine ⟨_, hperm, ?_⟩
  rw [List.foldl_append, List.foldl_cons]
  refine hear_all_unmarked ?_ (show ∀ m' ∈ before ++ after,
    ∃ x, assertion_of hash m'.author m' = some x from fun m' hm' => ?_)
  · have hheard := heard_set_all (hone.of_perm hperm).front
    refine hear_first_withdrawal hheard (fun m' hm' => ?_) hauthor (hauthor ▸ hx) hwithdrawn
    by_contra hsome
    obtain ⟨x', hx'⟩ := Option.ne_none_iff_exists'.mp hsome
    have hoffers := (List.mem_filter.mp hm').2
    rw [offered_hash_of_assertion hx'] at hoffers
    cases hoffers
  · have hrest : m' ∈ messages.filter (fun m => !(offered_hash m).isSome) := by
      rw [hsplit]
      rcases List.mem_append.mp hm' with h | h
      · exact List.mem_append_left _ h
      · exact List.mem_append_right _ (List.mem_cons_of_mem _ h)
    obtain ⟨hmem, hoffers⟩ := List.mem_filter.mp hrest
    rcases about_cases (hone.about m' hmem) with ⟨offer, hb, -⟩ | ⟨provider, hb, hhash⟩
    · simp [offered_hash, hb] at hoffers
    · exact ⟨⟨provider.announced_at_ms.getD 0, m'.message.id,
        decide (provider.state = .Withdrawing)⟩,
        by simp only [assertion_of, hb, hhash, and_self, if_true]⟩

/-- All orders of delivery leave one order of the providers, with the only
offerer first, just when the mark of the offerer is not missed. -/
theorem one_order_iff (messages : List VerifiedMessage) (hash : BlobHash) (a : EndpointId)
    (hone : OneOfferer hash a messages) (hoffered : ∃ m ∈ messages, offered_hash m = some hash)
    (hids : (messages.map (fun m => m.message.id)).Nodup) :
    OneOrder messages hash a ↔ Unshaken messages hash a := by
  refine ⟨fun h hlive hwithdraws b hb => ?_, one_order_of_unshaken hone hoffered hids⟩
  unfold NeverWithdraws at hwithdraws
  simp only [not_forall, Bool.not_eq_false, exists_prop] at hwithdraws
  obtain ⟨m, hm, x, hx, hwithdrawn⟩ := hwithdraws
  obtain ⟨order, hperm, hnone⟩ := unmarked_order hone hm hx hwithdrawn
  have hfst : (order.map (fun m => ((m, 0) : VerifiedMessage × Instant))).map Prod.fst = order := by
    rw [List.map_map]
    exact List.map_id order
  have hframes : ((order.map (fun m => ((m, 0) : VerifiedMessage × Instant))).map Prod.fst).Perm
      messages := by rwa [hfst]
  have hfirst := h.first a _ hframes hlive
  have hmem := (mem_provider_order hone hids a hframes b).mpr hb
  obtain ⟨hset, hheard⟩ := heard_by_frames hone a hframes
  have hsorted := pairwise_of_unmarked hheard.faultless (by rw [hfst]; exact hnone)
  rw [← hset] at hsorted
  change (provider_order a hash _).Pairwise (· ≤ ·) at hsorted
  rcases horder : provider_order a hash (order.map (fun m => (m, 0))) with _ | ⟨first, rest⟩
  · rw [horder] at hmem
    cases hmem
  · rw [horder] at hfirst hmem hsorted
    rw [List.head?_cons, Option.some.injEq] at hfirst
    subst hfirst
    rcases List.mem_cons.mp hmem with rfl | hrest
    · exact le_refl _
    · exact (List.pairwise_cons.mp hsorted).1 b hrest

end Orders

end Laws

/-! ## An offerer that withdrew and came back -/

namespace back_again

local instance : Crypto := Crypto.clear

def hash : BlobHash := ⟨.fill 32 7⟩
def offerer : EndpointId := SecretKey.public ⟨.fill 32 2⟩
def other : EndpointId := SecretKey.public ⟨.fill 32 1⟩

def message (author : EndpointId) (id : UInt8) (body : MessageBodyV1) : VerifiedMessage :=
  { author, message := .new body (.fill 16 id) 0, body := some body }

def assertion (author : EndpointId) (id : UInt8) (state : ProviderState)
    (announced_at_ms : UInt64) : VerifiedMessage :=
  message author id (.Provider { blob_hash := hash, state, announced_at_ms := some announced_at_ms })

/-- The offerer withdraws and announces itself again, and another peer has the
blob as well. -/
def messages : List VerifiedMessage :=
  [message offerer 1 (.Offer { blob_hash := hash, name := "a", size := 3, media_type := none
                               created_at_ms := none, metadata := ∅ }),
    assertion offerer 2 .Withdrawing 5, assertion offerer 3 .Available 6,
    assertion other 4 .Available 5]

def frames : List (VerifiedMessage × Instant) := messages.map (fun m => (m, 0))

theorem frames_perm : (frames.map Prod.fst).Perm messages := by
  have hfst : frames.map Prod.fst = messages := by decide +kernel
  rw [hfst]

theorem one_offerer : OneOfferer hash offerer messages :=
  ⟨by decide +kernel, by decide +kernel, (List.toFinset_card_le _).trans (by decide +kernel)⟩

/-- A live offerer comes after another peer. -/
theorem the_offerer_comes_second :
    ¬ ∀ [Crypto] (messages : List VerifiedMessage) (hash : BlobHash) (a : EndpointId),
      OneOfferer hash a messages → (∃ m ∈ messages, offered_hash m = some hash) →
      (messages.map (fun m => m.message.id)).Nodup → OneOrder messages hash a := by
  intro h
  have hlive : Live messages hash offerer :=
    (mem_provider_order one_offerer (by decide +kernel) offerer frames_perm offerer).mp
      (by decide +kernel)
  have hfirst := (h messages hash offerer one_offerer (by decide +kernel)
    (by decide +kernel)).first offerer frames frames_perm hlive
  exact absurd hfirst (by decide +kernel)

theorem the_order_depends :
    OneOrder messages hash offerer ↔ Unshaken messages hash offerer :=
  one_order_iff messages hash offerer one_offerer (by decide +kernel) (by decide +kernel)

end back_again

end iroh_drop
