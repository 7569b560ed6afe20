-- The law of polite leaves: a session that keeps its promises withdraws all
-- that it is taken to serve, and nobody who heard it lists it any more.
import IrohDrop.Promises
import IrohDrop.Tombstones

open rust_std postcard

namespace iroh_drop

section Laws

variable [Crypto]

/-! ## What a leave says -/

theorem mem_complete_hashes {s : Session} {hash : BlobHash} :
    hash ∈ s.complete_hashes ↔ s.state.has_whole hash := by
  unfold Session.complete_hashes DropState.has_whole
  simp only [List.mem_map, List.mem_filter, decide_eq_true_eq]
  constructor
  · rintro ⟨e, ⟨he, hstatus⟩, rfl⟩
    exact ⟨e.2, (List.mem_dlookup_iff s.state.offers.nodupKeys).mpr he, hstatus⟩
  · rintro ⟨record, hrecord, hstatus⟩
    exact ⟨⟨hash, record⟩, ⟨(List.mem_dlookup_iff s.state.offers.nodupKeys).mp hrecord, hstatus⟩, rfl⟩

/-- The message withdraws the hash, as it was at a time and under an id. -/
def withdrawal_body (hash : BlobHash) (announced_at_ms : UInt64) : MessageBodyV1 :=
  .Provider ⟨hash, .Withdrawing, some announced_at_ms⟩

/-- A session that may speak is heard to withdraw what it lists as complete. -/
theorem said_announce_withdrawal (hw : Crypto.Works) {s : Session} (hs : ¬ s.blind)
    (ms : BlobHash → UInt64) (draws : BlobHash → Draw) :
    ∃ withdrawals : List VerifiedMessage,
      (s.announce_withdrawal ms draws).said = s.said ++ withdrawals ∧
        List.Forall₂ (fun m hash => m.Tells s.self_id (withdrawal_body hash (ms hash))
          (draws hash).id) withdrawals s.complete_hashes := by
  unfold Session.announce_withdrawal
  generalize s.complete_hashes = hashes
  induction hashes generalizing s with
  | nil => exact ⟨[], (List.append_nil _).symm, .nil⟩
  | cons hash hashes ih =>
    obtain ⟨m, htells, hsaid⟩ := said_announce hw hs hash .Withdrawing (ms hash) (draws hash)
    have hconfig := (Speaks.of_spoken (s.says_announce hash .Withdrawing (ms hash)
      (draws hash))).config
    have hspeaks : ¬ (s.announce hash .Withdrawing (ms hash) (draws hash)).2.blind := by
      unfold SessionConfig.blind
      rw [hconfig]
      exact hs
    obtain ⟨withdrawals, hrest, htold⟩ := ih hspeaks
    refine ⟨m :: withdrawals, ?_, .cons htells ?_⟩
    · refine hrest.trans ?_
      rw [hsaid, List.append_assoc]
      rfl
    · have hself : (s.announce hash .Withdrawing (ms hash) (draws hash)).2.self_id = s.self_id :=
        congrArg (fun config : SessionConfig => config.secret.public) hconfig
      rw [hself] at htold
      exact htold

/-! ## Those who heard it -/

namespace DropState

variable {s : DropState}

/-- What an offer does to the entry of a peer: nothing, unless it is of that
peer. -/
theorem record_offer_entry (hk : TableKept s) {author : EndpointId} {offer : OfferV1}
    {now : Instant} {hash : BlobHash} {peer : EndpointId} {info : ProviderInfo}
    (h : (s.record_offer_inner author offer now).2.provider_info hash peer = some info) :
    s.provider_info hash peer = some info ∨
      author = peer ∧ offer.blob_hash = hash ∧
        info = (s.provider_info hash peer).getD {} := by
  have hadded : ∀ s' : DropState, s'.providers = HashMap.update s.providers offer.blob_hash {}
      (fun set => set.add author true) → s'.provider_info hash peer = some info →
        s.provider_info hash peer = some info ∨ author = peer ∧ offer.blob_hash = hash ∧
          info = (s.provider_info hash peer).getD {} := by
    intro s' hproviders hinfo
    rw [provider_info_add hproviders] at hinfo
    split at hinfo
    · rename_i heq
      exact .inr ⟨heq.2.symm, heq.1.symm, (Option.some.inj hinfo).symm⟩
    · exact .inl hinfo
  have hrecorded := offer_recorded hk author offer now
  generalize s.record_offer_inner author offer now = result at hrecorded h
  cases hrecorded with
  | known old hold => exact hadded _ rfl h
  | refused hnew hspent => exact .inl h
  | listed hnew hquota hroom => exact hadded _ rfl h
  | replaced hnew hquota hfull oldest rest gone horder hgone =>
    refine hadded (s.offer_listed author offer now) rfl ?_
    unfold provider_info at h ⊢
    change (((s.offer_listed author offer now).providers.erase oldest).lookup hash).bind _ = _ at h
    rw [HashMap.lookup_erase'] at h
    split at h
    · cases h
    · exact h

/-- What an assertion does to the entry of a peer: nothing, unless it is of
that peer and not outdated. -/
theorem assert_provider_entry {author : EndpointId} {x : Assertion} {about hash : BlobHash}
    {peer : EndpointId} {info : ProviderInfo}
    (h : (s.assert_provider about author x.announced_at_ms x.frame_id
      x.withdrawn).2.provider_info hash peer = some info) :
    s.provider_info hash peer = some info ∧
        (about = hash → author = peer → x.key < info.key) ∨
      about = hash ∧ author = peer ∧
        info = asserted_info ((s.provider_info hash peer).getD {}) x := by
  by_cases habout : about = hash
  · subst habout
    obtain ⟨hstale, hspared, hevicted⟩ := s.assert_provider_info about author x peer
    by_cases hnewer : (s.provider_set about).knows_newer author x
    · have hinfo := (hstale hnewer).symm.trans h
      refine .inl ⟨hinfo, fun _ hauthor => ?_⟩
      subst hauthor
      obtain ⟨old, hold, hlt⟩ := hnewer
      rw [provider_info_eq, hold] at hinfo
      cases hinfo
      exact hlt
    · by_cases hspares : ((s.provider_set about).asserted author x).spares peer
      · rw [hspared hnewer hspares] at h
        split at h
        · rename_i hpeer
          exact .inr ⟨rfl, hpeer.symm, (Option.some.inj h).symm⟩
        · rename_i hpeer
          exact .inl ⟨h, fun _ hauthor => absurd hauthor.symm hpeer⟩
      · rw [hevicted hnewer hspares] at h
        cases h
  · refine .inl ⟨?_, fun heq => absurd heq habout⟩
    rw [provider_info_eq, assert_provider_set, if_neg (fun heq => habout heq.symm)] at h
    rw [provider_info_eq]
    exact h

/-- What a frame does to the entry of a peer: nothing, or it is an offer of the
peer, or its assertion. -/
theorem apply_entry (hk : TableKept s) {frame : VerifiedMessage × Instant} {hash : BlobHash}
    {peer : EndpointId} {info : ProviderInfo}
    (h : (s.apply frame).provider_info hash peer = some info) :
    s.provider_info hash peer = some info ∧
        (∀ x, assertion_of hash peer frame.1 = some x → x.key < info.key) ∨
      frame.1.author = peer ∧ frame.1.claims hash ∧
        info = (s.provider_info hash peer).getD {} ∨
      ∃ x, assertion_of hash peer frame.1 = some x ∧
        info = asserted_info ((s.provider_info hash peer).getD {}) x := by
  unfold apply learn at h
  rcases hb : frame.1.body with _ | (offer | provider | request | ext) <;> rw [hb] at h
  case some.Offer =>
    rcases record_offer_entry hk h with hsame | ⟨hauthor, hhash, hinfo⟩
    · refine .inl ⟨hsame, fun x hx => ?_⟩
      simp only [assertion_of, hb] at hx
      cases hx
    · exact .inr (.inl ⟨hauthor, ⟨_, hb, hhash⟩, hinfo⟩)
  case some.Provider =>
    have hentry := assert_provider_entry (x := ⟨provider.announced_at_ms.getD 0,
      frame.1.message.id, decide (provider.state = .Withdrawing)⟩) h
    rcases hentry with ⟨hsame, hlt⟩ | ⟨habout, hauthor, hinfo⟩
    · refine .inl ⟨hsame, fun x hx => ?_⟩
      simp only [assertion_of, hb] at hx
      split at hx
      · rename_i hc
        cases hx
        exact hlt hc.1 hc.2
      · cases hx
    · refine .inr (.inr ⟨_, ?_, hinfo⟩)
      simp only [assertion_of, hb, habout, hauthor, and_self, if_true]
  all_goals
    refine .inl ⟨h, fun x hx => ?_⟩
    simp only [assertion_of, hb] at hx
    cases hx

theorem apply_table (hk : TableKept s) (frame : VerifiedMessage × Instant) :
    TableKept (s.apply frame) := by
  unfold apply learn
  split
  · exact record_offer_inner_kept hk _ _ _
  · exact hk.of_same rfl rfl rfl
  · exact hk

end DropState

/-- The assertions about the hash, in the order of their messages. -/
def assertions_about (messages : List VerifiedMessage) (hash : BlobHash) : List Assertion :=
  messages.filterMap (fun m => assertion_of hash m.author m)

/-- The assertions about the hash follow each other in the order that receivers
go by. -/
def InOrder (messages : List VerifiedMessage) (hash : BlobHash) : Prop :=
  (assertions_about messages hash).Pairwise (fun x y => x.key ≤ y.key)

theorem retracts_of_assertion {m : VerifiedMessage} {hash : BlobHash} {author : EndpointId}
    {x : Assertion} (h : assertion_of hash author m = some x) :
    (x.withdrawn = true ↔ m.retracts hash) ∧ (x.withdrawn = false ↔ m.claims hash) := by
  unfold assertion_of at h
  rcases hb : m.body with _ | (offer | provider | request | ext) <;> rw [hb] at h
  case some.Provider =>
    dsimp only at h
    split at h
    · rename_i hc
      cases h
      unfold VerifiedMessage.retracts VerifiedMessage.claims
      simp only [hb, Option.some.injEq, exists_eq_left', MessageBodyV1.retracts,
        MessageBodyV1.claims, hc.1, true_and, decide_eq_true_eq, decide_eq_false_iff_not]
      rcases provider.state with _ | _ <;> simp
    · cases h
  all_goals cases h

/-- What a receiver that has heard the messages of an author holds of it: its
entry goes by one of the assertions, and is withdrawn when nothing is owed. -/
structure HeardOf (messages : List VerifiedMessage) (hash : BlobHash) (info : ProviderInfo) :
    Prop where
  key : info.key = ProviderInfo.key {} ∨ ∃ x ∈ assertions_about messages hash, info.key = x.key
  withdrawn : ¬ Owed messages hash → info.withdrawn = true

theorem assertions_push (messages : List VerifiedMessage) (m : VerifiedMessage)
    (hash : BlobHash) : assertions_about (messages ++ [m]) hash =
      assertions_about messages hash ++ (assertion_of hash m.author m).toList := by
  unfold assertions_about
  rw [List.filterMap_append, List.filterMap_cons, List.filterMap_nil]
  rcases assertion_of hash m.author m with _ | x <;> rfl

theorem InOrder.init {messages : List VerifiedMessage} {m : VerifiedMessage} {hash : BlobHash}
    (h : InOrder (messages ++ [m]) hash) : InOrder messages hash := by
  unfold InOrder at h
  rw [assertions_push] at h
  exact (List.pairwise_append.mp h).1

/-- An assertion that comes in order is not older than the one that the entry
goes by. -/
theorem InOrder.not_older {messages : List VerifiedMessage} {m : VerifiedMessage}
    {hash : BlobHash} (h : InOrder (messages ++ [m]) hash) {x : Assertion}
    (hx : assertion_of hash m.author m = some x) {entry : ProviderInfo}
    (hkey : entry.key = ProviderInfo.key {} ∨
      ∃ x ∈ assertions_about messages hash, entry.key = x.key) : entry.key ≤ x.key := by
  rcases hkey with hkey | ⟨y, hy, hkey⟩
  · rw [hkey]
    exact untouched_key_le x.key
  · unfold InOrder at h
    rw [assertions_push, hx] at h
    rw [hkey]
    exact (List.pairwise_append.mp h).2.2 y hy x (by simp)

theorem not_retracts_of_quiet {m : VerifiedMessage} {hash : BlobHash}
    (h : assertion_of hash m.author m = none) : ¬ m.retracts hash := by
  rintro ⟨body, hbody, hretracts⟩
  unfold assertion_of at h
  rw [hbody] at h
  cases body with
  | Provider provider =>
    dsimp only at h
    rw [if_pos ⟨hretracts.1, rfl⟩] at h
    cases h
  | _ => exact hretracts.elim

/-- Whoever has heard all of an author's messages, in the order in which they
were said, has an entry of the author that goes by them. -/
theorem heard_of_all (self_endpoint_id : EndpointId) (hash : BlobHash) (author : EndpointId)
    (frames : List (VerifiedMessage × Instant))
    (horder : InOrder ((frames.map Prod.fst).filter (fun m => m.author = author)) hash) :
    let s := frames.foldl DropState.apply (.new self_endpoint_id)
    TableKept s ∧ ∀ info, s.provider_info hash author = some info →
      HeardOf ((frames.map Prod.fst).filter (fun m => m.author = author)) hash info := by
  induction frames using List.reverseRecOn with
  | nil => exact ⟨tableKept_new self_endpoint_id, fun info hinfo => by cases hinfo⟩
  | append_singleton frames frame ih =>
    rw [List.map_append, List.filter_append] at horder ⊢
    rw [List.foldl_append]
    generalize hown : (frames.map Prod.fst).filter (fun m => m.author = author) = own
      at ih horder ⊢
    by_cases hauthor : frame.1.author = author
    · have hone : ([frame].map Prod.fst).filter (fun m => m.author = author) = [frame.1] := by
        simp [hauthor]
      rw [hone] at horder ⊢
      obtain ⟨hk, hheard⟩ := ih horder.init
      refine ⟨DropState.apply_table hk frame, fun info hinfo => ?_⟩
      subst hauthor
      have hkey : ∀ entry, (frames.foldl DropState.apply (.new self_endpoint_id)).provider_info hash
          frame.1.author = entry → (entry.getD {}).key = ProviderInfo.key {} ∨
            ∃ x ∈ assertions_about own hash, (entry.getD {}).key = x.key := by
        rintro (_ | entry) hentry
        · exact .inl rfl
        · exact (hheard entry hentry).key
      have hlater : ∀ x, x ∈ assertions_about own hash →
          x ∈ assertions_about (own ++ [frame.1]) hash := by
        intro x hx
        rw [assertions_push]
        exact List.mem_append_left _ hx
      rcases DropState.apply_entry hk hinfo with ⟨hsame, hnewer⟩ | ⟨-, hclaims, hinfo⟩ |
        ⟨x, hx, hinfo⟩
      · have hheld := hheard info hsame
        -- An assertion that comes in order is not outdated, so this was none.
        have hquiet : assertion_of hash frame.1.author frame.1 = none := by
          rcases hx : assertion_of hash frame.1.author frame.1 with _ | x
          · rfl
          · exact absurd (hnewer x hx) (not_lt_of_ge (horder.not_older hx hheld.key))
        refine ⟨hheld.key.imp id fun ⟨x, hx, heq⟩ => ⟨x, hlater x hx, heq⟩, fun hnot => ?_⟩
        rw [owed_push] at hnot
        exact hheld.withdrawn fun howed =>
          hnot (.inr ⟨howed, not_retracts_of_quiet hquiet⟩)
      · refine ⟨?_, fun hnot => absurd ((owed_push _ _ _).mpr (.inl hclaims)) hnot⟩
        rw [hinfo]
        exact (hkey _ rfl).imp id fun ⟨x, hx, heq⟩ => ⟨x, hlater x hx, heq⟩
      · have hold := hkey _ rfl
        rw [hinfo]
        obtain ⟨hkey', hwithdrawn⟩ := asserted_info_fresh (horder.not_older hx hold)
        refine ⟨.inr ⟨x, ?_, hkey'⟩, fun hnot => ?_⟩
        · rw [assertions_push, hx]
          simp
        · rw [hwithdrawn]
          rw [owed_push] at hnot
          rcases hstate : x.withdrawn with _ | _
          · exact absurd (.inl ((retracts_of_assertion hx).2.mp hstate)) hnot
          · rfl
    · have hone : ([frame].map Prod.fst).filter (fun m => m.author = author) = [] := by
        simp [hauthor]
      rw [hone, List.append_nil] at horder ⊢
      obtain ⟨hk, hheard⟩ := ih horder
      refine ⟨DropState.apply_table hk frame, fun info hinfo => ?_⟩
      rcases DropState.apply_entry hk hinfo with ⟨hsame, -⟩ | ⟨hown, -⟩ | ⟨x, hx, -⟩
      · exact hheard info hsame
      · exact absurd hown hauthor
      · exact absurd (provider_of_assertion hx).1 hauthor

/-! ## Nothing is owed -/

/-- A claim that is not owed was retracted by a later message. -/
theorem retracted_later {messages : List VerifiedMessage} {hash : BlobHash}
    (hnot : ¬ Owed messages hash) {m : VerifiedMessage} (hm : m ∈ messages)
    (hclaims : m.claims hash) :
    ∃ before after, messages = before ++ m :: after ∧ ∃ later ∈ after, later.retracts hash := by
  obtain ⟨before, after, heq⟩ := List.append_of_mem hm
  refine ⟨before, after, heq, ?_⟩
  by_contra hnone
  push Not at hnone
  exact hnot ⟨before, m, after, heq, hclaims, hnone⟩

theorem assertion_of_retracts {m : VerifiedMessage} {hash : BlobHash} (h : m.retracts hash) :
    ∃ x, assertion_of hash m.author m = some x ∧ x.withdrawn = true := by
  rcases hx : assertion_of hash m.author m with _ | x
  · exact absurd h (not_retracts_of_quiet hx)
  · exact ⟨x, rfl, (retracts_of_assertion hx).1.mpr h⟩

/-- A withdrawal settles what is owed for its hash, and no more. -/
theorem owed_after_withdrawals (hw : Crypto.Works) {s : Session} (hs : ¬ s.blind)
    (ms : BlobHash → UInt64) (draws : BlobHash → Draw) (hashes : List BlobHash) (hash : BlobHash) :
    Owed (hashes.foldl (Session.withdraw ms draws) s).said hash ↔
      Owed s.said hash ∧ hash ∉ hashes := by
  induction hashes generalizing s with
  | nil => simp
  | cons first rest ih =>
    obtain ⟨m, htells, hsaid⟩ := said_announce hw hs first .Withdrawing (ms first) (draws first)
    have hconfig := (Speaks.of_spoken (s.says_announce first .Withdrawing (ms first)
      (draws first))).config
    have hspeaks : ¬ (Session.withdraw ms draws s first).blind := by
      unfold SessionConfig.blind Session.withdraw
      rw [hconfig]
      exact hs
    have hone : Owed (Session.withdraw ms draws s first).said hash ↔
        Owed s.said hash ∧ first ≠ hash := by
      unfold Session.withdraw
      rw [hsaid, owed_push, htells.claims_iff, htells.retracts_iff]
      simp [MessageBodyV1.claims, MessageBodyV1.retracts]
    rw [List.foldl_cons, ih hspeaks, hone, List.mem_cons]
    grind

/-- Once a session has left politely, it owes nothing. -/
theorem not_owed_after_leave (hw : Crypto.Works) {s : Session} (h : Covered s)
    (ms : BlobHash → UInt64) (draws : BlobHash → Draw) (hash : BlobHash) :
    ¬ Owed (s.announce_withdrawal ms draws).said hash := by
  by_cases hs : s.blind
  · refine not_owed_blind ?_ hash
    unfold SessionConfig.blind
    rw [(Speaks.of_spoken (s.says_announce_withdrawal ms draws)).config]
    exact hs
  · intro howed
    obtain ⟨hold, hnot⟩ := (owed_after_withdrawals hw hs ms draws s.complete_hashes hash).mp howed
    exact hnot (mem_complete_hashes.mpr (h.whole hash hold))

/-! ## Receivers -/

/-- The frames hold the messages of the author, each of them and no others in
its name, in some order. -/
def HasHeard (frames : List (VerifiedMessage × Instant)) (author : EndpointId)
    (messages : List VerifiedMessage) : Prop :=
  ((frames.map Prod.fst).filter (fun m => m.author = author)).Perm messages

/-- Whoever has heard all of the messages of an author that owes nothing, each
in its turn, does not try it as a provider. -/
theorem not_served_in_order {self_endpoint_id author : EndpointId} {hash : BlobHash}
    {frames : List (VerifiedMessage × Instant)} {messages : List VerifiedMessage}
    (hheard : (frames.map Prod.fst).filter (fun m => m.author = author) = messages)
    (horder : InOrder messages hash) (hnot : ¬ Owed messages hash) :
    ¬ (frames.foldl DropState.apply (.new self_endpoint_id)).serves hash author := by
  subst hheard
  rw [DropState.serves_iff]
  rintro ⟨info, hinfo, hlive⟩
  obtain ⟨-, hentries⟩ := heard_of_all self_endpoint_id hash author frames horder
  rw [(hentries info hinfo).withdrawn hnot] at hlive
  cases hlive

/-- So it is in any other order, within the caps. -/
theorem not_served_within_caps {self_endpoint_id author : EndpointId} {hash : BlobHash}
    {frames : List (VerifiedMessage × Instant)} {messages : List VerifiedMessage}
    (hheard : HasHeard frames author messages)
    (hkeys : ((frames.map Prod.fst).map VerifiedMessage.key).Nodup)
    (hcaps : WithinCaps (frames.map Prod.fst)) (horder : InOrder messages hash)
    (hnot : ¬ Owed messages hash) :
    ¬ (frames.foldl DropState.apply (.new self_endpoint_id)).serves hash author := by
  have hsum : Summarizes (frames.map Prod.fst) (frames.foldl DropState.apply (.new self_endpoint_id)) :=
    summarizes_all (summarizes_new self_endpoint_id) hcaps (List.Subset.refl _)
  have hmem : ∀ m, m ∈ messages ↔ m ∈ frames.map Prod.fst ∧ m.author = author := by
    intro m
    rw [← hheard.mem_iff, List.mem_filter, decide_eq_true_eq]
  rw [hsum.serves_iff hkeys]
  rintro (⟨x, ⟨⟨m, hm, hx⟩, hgreatest⟩, hlive⟩ | ⟨hsilent, m, hm, hauthor, hoffers⟩)
  · have hauthor := (provider_of_assertion hx).1
    subst hauthor
    -- The claim was retracted later, by an assertion that is no older.
    obtain ⟨before, after, heq, later, hlater, hretracts⟩ := retracted_later hnot
      ((hmem m).mpr ⟨hm, rfl⟩) ((retracts_of_assertion hx).2.mp hlive)
    obtain ⟨y, hy, hwithdrawn⟩ := assertion_of_retracts hretracts
    have hself := ((hmem later).mp (by rw [heq]; simp [hlater])).2
    have hle : x.key ≤ y.key := by
      unfold InOrder assertions_about at horder
      rw [heq, List.filterMap_append, List.pairwise_append, List.filterMap_cons] at horder
      simp only [hx] at horder
      exact (List.pairwise_cons.mp horder.2.1).1 y (List.mem_filterMap.mpr ⟨later, hlater, hy⟩)
    rw [hself] at hy
    have hsame : x = y := by
      refine Greatest.unique hkeys ⟨⟨m, hm, hx⟩, hgreatest⟩
        ⟨⟨later, ((hmem later).mp (by rw [heq]; simp [hlater])).1, hy⟩, fun n hn z hz => ?_⟩
      exact (hgreatest n hn z hz).trans hle
    rw [hsame, hwithdrawn] at hlive
    cases hlive
  · have hclaims : m.claims hash := by
      unfold offered_hash at hoffers
      split at hoffers
      · rename_i offer hbody
        exact ⟨_, hbody, Option.some.inj hoffers⟩
      · cases hoffers
    obtain ⟨before, after, heq, later, hlater, hretracts⟩ := retracted_later hnot
      ((hmem m).mpr ⟨hm, hauthor⟩) hclaims
    obtain ⟨hheld, hself⟩ := (hmem later).mp (by rw [heq]; simp [hlater])
    obtain ⟨y, hy, -⟩ := assertion_of_retracts hretracts
    rw [hself, hsilent later hheld] at hy
    cases hy

/-! ## The law -/

/-- What a polite leave should do. -/
structure Withdraws (s left : Session) (ms : BlobHash → UInt64) (draws : BlobHash → Draw) :
    Prop where
  /-- Each blob that the session is taken to serve is withdrawn, no earlier than
  it was announced. -/
  withdrawn : ∀ hash, Owed s.said hash →
    (∃ m ∈ left.said.drop s.said.length,
        m.Tells s.self_id (withdrawal_body hash (ms hash)) (draws hash).id) ∧
      ∀ x ∈ assertions_about s.said hash, x.announced_at_ms ≤ ms hash
  /-- Whoever heard it all, in the order in which it was said or within the caps
  in any order, tries the session no more. -/
  unlisted : ∀ (peer : EndpointId) (frames : List (VerifiedMessage × Instant)),
    (frames.map Prod.fst).filter (fun m => m.author = s.self_id) = left.said ∨
        HasHeard frames s.self_id left.said ∧
          ((frames.map Prod.fst).map VerifiedMessage.key).Nodup ∧
          WithinCaps (frames.map Prod.fst) →
      ∀ hash, ¬ (frames.foldl DropState.apply (.new peer)).serves hash s.self_id

/-- A session that takes nothing it is taken to serve out of its table, or out
of the status of complete, withdraws it all when it leaves. -/
theorem polite_leave_withdraws_all (hw : Crypto.Works) (secret : SecretKey) (policy : DropPolicy)
    (decider : OfferDecider) (topic_id : TopicId) (ticket : DropTicket)
    (drop_key : Option DropKey) (store : BlobHash → BlobStatus) (steps : List Step)
    (hkeeps : runs.Meets Session.step Session.KeepsPromises
      (.new secret policy decider topic_id ticket drop_key store) steps)
    (ms : BlobHash → UInt64) (draws : BlobHash → Draw) :
    let s := (Session.new secret policy decider topic_id ticket drop_key store).run steps
    let left := s.announce_withdrawal ms draws
    (∀ hash, InOrder left.said hash) → Withdraws s left ms draws := by
  intro s left horder
  have hnew : Covered (.new secret policy decider topic_id ticket drop_key store) :=
    ⟨tableKept_new _, fun hash howed => absurd howed (not_owed_nil hash)⟩
  have hstep : ∀ (s : Session) (i : Step), Covered s → s.KeepsPromises i → Covered (s.step i) :=
    fun _ _ h hkeeps => covered_step hw h hkeeps
  have hcovered : Covered s := runs.invariant_of_meets hstep hnew hkeeps
  have hnot := not_owed_after_leave hw hcovered ms draws
  refine ⟨fun hash howed => ?_, fun peer frames hheard hash => ?_⟩
  · have hs : ¬ s.blind := fun hblind => not_owed_blind hblind hash howed
    obtain ⟨withdrawals, hsaid, htold⟩ := said_announce_withdrawal hw hs ms draws
    obtain ⟨m, hm, htells⟩ := forall₂_of_mem htold
      (mem_complete_hashes.mpr (hcovered.whole hash howed))
    have hsplit : left.said = s.said ++ withdrawals := hsaid
    refine ⟨⟨m, ?_, htells⟩, fun x hx => ?_⟩
    · rw [hsplit, List.drop_left]
      exact hm
    · have hpairs := horder hash
      unfold InOrder at hpairs
      unfold assertions_about at hpairs hx
      rw [hsplit, List.filterMap_append, List.pairwise_append] at hpairs
      have hy : assertion_of hash m.author m = some ⟨ms hash, (draws hash).id, true⟩ := by
        unfold assertion_of
        rw [htells.body, ← htells.id]
        simp [withdrawal_body]
      have hle := hpairs.2.2 x hx _ (List.mem_filterMap.mpr ⟨m, hm, hy⟩)
      exact UInt64.le_iff_toNat_le.mpr (Prod.Lex.toLex_le_toLex'.mp hle).1
  · rcases hheard with hheard | ⟨hheard, hkeys, hcaps⟩
    · exact not_served_in_order hheard (horder hash) (hnot hash)
    · exact not_served_within_caps hheard hkeys hcaps (horder hash) (hnot hash)

end Laws

/-! ## A file that could not be written once more -/

namespace failed_export

local instance : Crypto := Crypto.clear

def hash : BlobHash := ⟨.fill 32 7⟩
def secret : SecretKey := ⟨.fill 32 1⟩
def topic : TopicId := ⟨.fill 32 8⟩
def ticket : DropTicket := .nodeless topic.as_bytes none

def draw (n : UInt8) : Draw :=
  { now := 0, sent_at_ms := 0, id := .fill 16 n, nonce := .fill 24 0, carried := .ok () }

/-- A member of a public drop with an empty store. -/
def member : Session := .new secret {} PolicyDecider topic ticket none (fun _ => .NotFound)

def publish : Step :=
  .publish_bytes_with "a" [1, 2, 3] none ∅
    { imported := .ok hash, guessed := none, tag_set := .ok (), now := 0, created_at_ms := 4
      announced_at_ms := 4, offer_draw := draw 1, provider_draw := draw 2 }

/-- The fetch of one's own file: it is announced again, and the export fails. -/
def refetch : List Step :=
  [.fetch hash, .fetch_event 0 (.run {
    draw := draw 3
    complete := { now := 0, tag_set := .ok (), announced_at_ms := 5, draw := draw 4 }
    exported := .error (.Storage (.Export "no space left on device")) })]

def ms : BlobHash → UInt64 := fun _ => 6
def draws : BlobHash → Draw := fun _ => draw 5

def told (id : UInt8) (body : MessageBodyV1) : VerifiedMessage :=
  { author := secret.public, message := .new body (.fill 16 id) 0, body := some body }

def offer : OfferV1 :=
  { blob_hash := hash, name := "a", size := 3, media_type := none, created_at_ms := some 4
    metadata := ∅ }

/-- The member offers the file and serves it. -/
def published : List VerifiedMessage :=
  [told 1 (.Offer offer), told 2 (.Provider ⟨hash, .Available, some 4⟩)]

theorem in_order {messages : List VerifiedMessage}
    (hself : ((assertions_about messages hash).map Assertion.key).Pairwise (· ≤ ·))
    (hothers : ∀ m ∈ messages, ∀ other ≠ hash, assertion_of other m.author m = none)
    (other : BlobHash) : InOrder messages other := by
  unfold InOrder
  by_cases h : other = hash
  · rw [h]
    exact List.pairwise_map.mp hself
  · have hnone : assertions_about messages other = [] :=
      List.filterMap_eq_nil_iff.mpr fun m hm => hothers m hm other h
    rw [hnone]
    exact .nil

/-- No message of the member is about another hash. -/
theorem about_others {id : UInt8} {body : MessageBodyV1}
    (h : body = .Offer offer ∨ ∃ state ms, body = .Provider ⟨hash, state, ms⟩)
    {other : BlobHash} (hother : other ≠ hash) :
    assertion_of other (told id body).author (told id body) = none := by
  rcases h with rfl | ⟨state, ms, rfl⟩
  · rfl
  · unfold assertion_of told
    simp only [and_true]
    exact if_neg (Ne.symm hother)

/-- The member leaves and goes on being listed as a provider of the file. -/
theorem a_failed_export_stays_announced :
    ¬ ∀ [Crypto] (_ : Crypto.Works) (secret : SecretKey) (policy : DropPolicy)
      (decider : OfferDecider) (topic_id : TopicId) (ticket : DropTicket)
      (drop_key : Option DropKey) (store : BlobHash → BlobStatus) (steps : List Step)
      (ms : BlobHash → UInt64) (draws : BlobHash → Draw),
      let s := (Session.new secret policy decider topic_id ticket drop_key store).run steps
      let left := s.announce_withdrawal ms draws
      (∀ hash, InOrder left.said hash) → Withdraws s left ms draws := by
  intro h
  have hsaid : (member.run (publish :: refetch)).said =
      published ++ [told 4 (.Provider ⟨hash, .Available, some 5⟩)] := by decide +kernel
  have hleft : ((member.run (publish :: refetch)).announce_withdrawal ms draws).said =
      published ++ [told 4 (.Provider ⟨hash, .Available, some 5⟩)] := by decide +kernel
  have horder : ∀ other, InOrder
      ((member.run (publish :: refetch)).announce_withdrawal ms draws).said other := by
    rw [hleft]
    refine in_order (by decide +kernel) fun m hm other hother => ?_
    simp only [published, List.cons_append, List.nil_append, List.mem_cons, List.not_mem_nil,
      or_false] at hm
    rcases hm with rfl | rfl | rfl
    · exact about_others (.inl rfl) hother
    · exact about_others (.inr ⟨_, _, rfl⟩) hother
    · exact about_others (.inr ⟨_, _, rfl⟩) hother
  have howed : Owed (member.run (publish :: refetch)).said hash := by
    rw [hsaid, owed_push]
    exact .inl ⟨_, rfl, rfl, rfl⟩
  obtain ⟨⟨m, hm, -⟩, -⟩ := (h Crypto.clear_works secret {} PolicyDecider topic ticket none (fun _ => .NotFound)
    (publish :: refetch) ms draws horder).withdrawn hash howed
  have hnothing : ((member.run (publish :: refetch)).announce_withdrawal ms draws).said.drop
      (member.run (publish :: refetch)).said.length = [] := by
    rw [hsaid, hleft]
    rfl
  change m ∈ ((member.run (publish :: refetch)).announce_withdrawal ms draws).said.drop
    (member.run (publish :: refetch)).said.length at hm
  rw [hnothing] at hm
  cases hm

/-- A member that only publishes takes its leave as it should. -/
theorem polite_leave_withdraws_all_at_member :
    Withdraws (member.run [publish]) ((member.run [publish]).announce_withdrawal ms draws) ms
      draws := by
  refine polite_leave_withdraws_all Crypto.clear_works secret {} PolicyDecider topic ticket none
    (fun _ => .NotFound) [publish] ⟨?_, trivial⟩ ms draws ?_
  · rintro i hi -
    cases hi
    refine ⟨.inr (by decide +kernel), fun gone _ hpushed => ?_⟩
    exact absurd hpushed.full (by decide +kernel)
  · have hleft : ((member.run [publish]).announce_withdrawal ms draws).said =
        published ++ [told 5 (withdrawal_body hash 6)] := by decide +kernel
    change ∀ other, InOrder ((member.run [publish]).announce_withdrawal ms draws).said other
    rw [hleft]
    refine in_order (by decide +kernel) fun m hm other hother => ?_
    simp only [published, List.cons_append, List.nil_append, List.mem_cons, List.not_mem_nil,
      or_false] at hm
    rcases hm with rfl | rfl | rfl
    · exact about_others (.inl rfl) hother
    · exact about_others (.inr ⟨_, _, rfl⟩) hother
    · exact about_others (.inr ⟨_, _, rfl⟩) hother

end failed_export

end iroh_drop
