-- What is shared on the local network: the adverts that are heard within a window, and the
-- listing that is made of them (nearby.rs, main.rs of the command line).
import IrohDrop.OrderedMaps
import IrohDrop.Ticket
import IrohDrop.Limits

open rust_std

namespace iroh_drop

namespace nearby

section Browse

variable [Urls] [Crypto]

/-- What the discovery service tells. -/
inductive DiscoveryEvent where
  | Discovered (peer : EndpointId) (user_data : Option (List Char))
  | Expired (peer : EndpointId)
  | Other

/-- A drop that a peer advertises, and what the user types to get it. -/
structure NearbyDrop where
  index : Nat
  peer : EndpointId
  ticket : DropTicket
  label : Option String

abbrev Found := BTreeMap EndpointId (DropTicket × Option String)

def hear (found : Found) : DiscoveryEvent → Found
  | .Discovered peer user_data =>
    match user_data with
    | none => found
    | some text =>
      match DropTicket.from_string_prefixed text with
      | .ok ticket => found.insert peer (ticket, ticket.V1.options.display_name)
      | .error _ => found
  | .Expired peer => found.remove peer
  | .Other => found

/-- The listing of what was found, numbered from one. -/
def listing (found : Found) : List NearbyDrop :=
  found.entries.zipIdx.map fun e =>
    { index := e.2 + 1, peer := e.1.1, ticket := e.1.2.1, label := e.1.2.2 }

/-- The events that are told before the window closes, each at its time. -/
def heard (deadline : Instant) (events : List (Instant × DiscoveryEvent)) : List DiscoveryEvent :=
  (events.takeWhile fun e => e.1 < deadline).map Prod.snd

def browse (now : Instant) (window : Duration) (events : List (Instant × DiscoveryEvent)) :
    List NearbyDrop :=
  listing ((heard (now + window) events).foldl hear ∅)

/-- The drop that a number stands for. -/
def pick (drops : List NearbyDrop) (index : Nat) : Option DropTicket :=
  (drops.find? fun drop => drop.index = index).map NearbyDrop.ticket

/-! ## What a peer advertises -/

/-- The ticket that a peer advertises at last: the latest that can be read, unless its record has
expired since. What cannot be read leaves the one before. -/
def advertised (peer : EndpointId) : List DiscoveryEvent → Option DropTicket → Option DropTicket
  | [], last => last
  | .Discovered other user_data :: events, last =>
    let read := user_data.bind fun text => (DropTicket.from_string_prefixed text).toOption
    advertised peer events (if other = peer then read.or last else last)
  | .Expired other :: events, last => advertised peer events (if other = peer then none else last)
  | .Other :: events, last => advertised peer events last

theorem advertised_concat (peer : EndpointId) (events : List DiscoveryEvent)
    (event : DiscoveryEvent) (last : Option DropTicket) :
    advertised peer (events ++ [event]) last = advertised peer [event] (advertised peer events last) := by
  induction events generalizing last with
  | nil => rfl
  | cons first events ih => cases first <;> exact ih _

/-- What was found is what the peers advertise. -/
def Tells (found : Found) (last : EndpointId → Option DropTicket) : Prop :=
  ∀ peer ticket label, (peer, ticket, label) ∈ found.entries ↔
    last peer = some ticket ∧ label = ticket.V1.options.display_name

theorem Tells.hear {found : Found} {last : EndpointId → Option DropTicket} (h : Tells found last)
    (event : DiscoveryEvent) :
    Tells (hear found event) fun peer => advertised peer [event] (last peer) := by
  intro peer ticket label
  cases event with
  | Other => exact h peer ticket label
  | Expired other =>
    refine BTreeMap.mem_remove.trans ?_
    simp only [advertised]
    by_cases hother : other = peer
    · rw [if_pos hother]
      constructor
      · rintro ⟨hne, -⟩
        exact absurd hother.symm hne
      · rintro ⟨⟨⟩, -⟩
    · rw [if_neg hother, h]
      exact and_iff_right (Ne.symm hother)
  | Discovered other user_data =>
    simp only [advertised, nearby.hear]
    rcases user_data with _ | text
    · simp only [Option.bind_none, Option.none_or, ite_self]
      exact h peer ticket label
    · rcases hread : DropTicket.from_string_prefixed text with e | read
      · simp only [Option.bind_some, hread, Except.toOption, Option.none_or, ite_self]
        exact h peer ticket label
      · simp only [Option.bind_some, hread, Except.toOption, Option.some_or]
        refine BTreeMap.mem_insert.trans ?_
        by_cases hother : other = peer
        · rw [if_pos hother, Prod.mk.injEq]
          constructor
          · rintro (⟨-, rfl, rfl⟩ | ⟨hne, -⟩)
            · exact ⟨rfl, rfl⟩
            · exact absurd hother.symm hne
          · rintro ⟨hticket, rfl⟩
            cases hticket
            exact .inl ⟨hother.symm, rfl, rfl⟩
        · rw [if_neg hother, h]
          constructor
          · rintro (⟨hsame, -⟩ | ⟨-, htold⟩)
            · exact absurd hsame.symm hother
            · exact htold
          · intro htold
            exact .inr ⟨Ne.symm hother, htold⟩

theorem tells_foldl (events : List DiscoveryEvent) :
    Tells (events.foldl hear ∅) fun peer => advertised peer events none := by
  induction events using List.reverseRecOn with
  | nil =>
    intro peer ticket label
    constructor
    · rintro ⟨⟩
    · rintro ⟨⟨⟩, -⟩
  | append_singleton events event ih =>
    rw [List.foldl_append]
    simp only [advertised_concat]
    exact ih.hear event

/-! ## The listing -/

variable {found : Found}

omit [Urls] in
theorem listing_getElem? (i : Nat) : (listing found)[i]? = found.entries[i]?.map fun e =>
    { index := i + 1, peer := e.1, ticket := e.2.1, label := e.2.2 } := by
  rw [listing, List.getElem?_map, List.getElem?_zipIdx]
  rcases found.entries[i]? with _ | e
  · rfl
  · simp only [Option.map_some, Nat.zero_add]

omit [Urls] in
theorem listing_sorted : (listing found).Pairwise fun a b => a.peer < b.peer := by
  rw [listing, List.pairwise_map]
  have hsorted := List.pairwise_map.mp found.sorted
  rw [← List.zipIdx_map_fst 0 found.entries] at hsorted
  have hpeers := List.pairwise_map.mp hsorted
  exact hpeers

omit [Urls] in
/-- A number stands for the drop at its place. -/
theorem pick_listing {i : Nat} {drop : NearbyDrop} (h : (listing found)[i]? = some drop) :
    drop.index = i + 1 ∧ pick (listing found) (i + 1) = some drop.ticket := by
  have hindex : ∀ j other, (listing found)[j]? = some other → other.index = j + 1 := by
    intro j other hother
    rw [listing_getElem?, Option.map_eq_some_iff] at hother
    obtain ⟨e, -, rfl⟩ := hother
    rfl
  refine ⟨hindex i drop h, ?_⟩
  unfold pick
  have hfound : (listing found).find? (fun drop => decide (drop.index = i + 1)) = some drop := by
    rw [List.find?_eq_some_iff_getElem]
    obtain ⟨hlt, hdrop⟩ := List.getElem?_eq_some_iff.mp h
    refine ⟨decide_eq_true (hindex i drop h), i, hlt, hdrop, fun j hj => ?_⟩
    have hother := hindex j _ (List.getElem?_eq_getElem (Nat.lt_trans hj hlt))
    rw [hother]
    simp only [Bool.not_eq_true', decide_eq_false_iff_not]
    omega
  rw [hfound]
  rfl

/-- Whatever is told within the window: the listing has each peer that advertises a drop once, in
the order of the peers and numbered from one, with the ticket that it advertises at last; and a
number gives the drop of its line, and no number past the lines gives any. -/
theorem nearby_lists_what_is_advertised (now : Instant) (window : Duration)
    (events : List (Instant × DiscoveryEvent)) :
    let told := heard (now + window) events
    let drops := browse now window events
    (∀ peer ticket, advertised peer told none = some ticket ↔
      ∃ drop ∈ drops, drop.peer = peer ∧ drop.ticket = ticket) ∧
    (drops.Pairwise fun a b => a.peer < b.peer) ∧
    (∀ i drop, drops[i]? = some drop → drop.index = i + 1 ∧
      drop.label = drop.ticket.V1.options.display_name) ∧
    ∀ index ticket, pick drops index = some ticket ↔
      ∃ i drop, drops[i]? = some drop ∧ index = i + 1 ∧ drop.ticket = ticket := by
  intro told drops
  have htells := tells_foldl told
  have hline : ∀ (i : Nat) (drop : NearbyDrop), drops[i]? = some drop →
      (drop.peer, drop.ticket, drop.label) ∈ (told.foldl hear ∅).entries := by
    intro i drop hdrop
    rw [show drops = listing (told.foldl hear ∅) from rfl, listing_getElem?,
      Option.map_eq_some_iff] at hdrop
    obtain ⟨e, he, rfl⟩ := hdrop
    exact List.mem_of_getElem? he
  refine ⟨fun peer ticket => ⟨fun hticket => ?_, ?_⟩, listing_sorted, fun i drop hdrop => ?_,
    fun index ticket => ⟨fun hpick => ?_, ?_⟩⟩
  · have hmem := (htells peer ticket _).mpr ⟨hticket, rfl⟩
    obtain ⟨i, hi⟩ := List.getElem?_of_mem hmem
    have hdrop : drops[i]? = some ⟨i + 1, peer, ticket, ticket.V1.options.display_name⟩ := by
      rw [show drops = listing (told.foldl hear ∅) from rfl, listing_getElem?, hi]
      rfl
    exact ⟨_, List.mem_of_getElem? hdrop, rfl, rfl⟩
  · rintro ⟨drop, hdrop, rfl, rfl⟩
    obtain ⟨i, hi⟩ := List.getElem?_of_mem hdrop
    exact ((htells _ _ _).mp (hline i drop hi)).1
  · exact ⟨(pick_listing hdrop).1, ((htells _ _ _).mp (hline i drop hdrop)).2⟩
  · obtain ⟨drop, hfound, hticket⟩ := Option.map_eq_some_iff.mp hpick
    obtain ⟨i, hi⟩ := List.getElem?_of_mem (List.mem_of_find?_eq_some hfound)
    have hindex := List.find?_some hfound
    rw [decide_eq_true_eq, (pick_listing hi).1] at hindex
    exact ⟨i, drop, hi, hindex.symm, hticket⟩
  · rintro ⟨i, drop, hdrop, rfl, rfl⟩
    exact (pick_listing hdrop).2

end Browse

end nearby

end iroh_drop
