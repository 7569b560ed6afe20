-- The numbers of a listing: what they stand for later on, when the drop has gone on
-- (inventory.rs, over the offer table of state.rs).
import IrohDrop.Handles
import IrohDrop.Hearing
import IrohDrop.Picks
import IrohDrop.ProviderIndex
import IrohDrop.Restart

open rust_std

namespace iroh_drop

/-! ## Lists in order -/

/-- What is added later than all of a list stands behind it, in any order by time. -/
theorem prefix_of_later {α : Type} {time : α → Instant} {l xs : List α}
    (hl : l.Pairwise (fun a b => time a < time b)) (hxs : xs.Pairwise (fun a b => time a ≤ time b))
    (hn : xs.Nodup) (hsub : ∀ a ∈ l, a ∈ xs)
    (hlater : ∀ x ∈ xs, x ∈ l ∨ ∀ a ∈ l, time a < time x) : l <+: xs := by
  induction l generalizing xs with
  | nil => exact List.nil_prefix
  | cons a l ih =>
    obtain ⟨hfirst, hrest⟩ := List.pairwise_cons.mp hl
    rcases xs with _ | ⟨x, xs⟩
    · exact absurd (hsub a List.mem_cons_self) List.not_mem_nil
    · obtain ⟨hle, hxs⟩ := List.pairwise_cons.mp hxs
      obtain ⟨hx, hn⟩ := List.nodup_cons.mp hn
      -- The front is what was seen first of all, so it is the head of the list.
      have hfront : time x ≤ time a := by
        rcases List.mem_cons.mp (hsub a List.mem_cons_self) with rfl | ha
        · exact Nat.le_refl _
        · exact hle a ha
      have hsame : x = a := by
        rcases hlater x List.mem_cons_self with hmem | hafter
        · rcases List.mem_cons.mp hmem with heq | hmem
          · exact heq
          · exact absurd (hfirst x hmem) (Nat.not_lt.mpr hfront)
        · exact absurd (hafter a List.mem_cons_self) (Nat.not_lt.mpr hfront)
      subst hsame
      refine List.cons_prefix_cons.mpr ⟨rfl, ih hrest hxs hn ?_ ?_⟩
      · intro b hb
        rcases List.mem_cons.mp (hsub b (List.mem_cons_of_mem _ hb)) with rfl | hmem
        · exact absurd (hfirst b hb) (Nat.lt_irrefl _)
        · exact hmem
      · intro b hb
        rcases hlater b (List.mem_cons_of_mem _ hb) with hmem | hafter
        · rcases List.mem_cons.mp hmem with rfl | hmem
          · exact absurd hb hx
          · exact .inl hmem
        · exact .inr (fun c hc => hafter c (List.mem_cons_of_mem _ hc))

/-! ## Numbers as text -/

theorem str_trim_digits (n : UInt64) : str_trim (toString n) = toString n := by
  have hdigits : ∀ c ∈ (toString n).toList, is_whitespace c = false := by
    intro c hc
    have hlist : c ∈ Nat.toDigits 10 n.toNat := by simpa [toString] using hc
    have hdigit := Nat.isDigit_of_mem_toDigits (by decide) (by decide) hlist
    have hrange : 48 ≤ c.toNat ∧ c.toNat ≤ 57 := by
      simp only [Char.isDigit, Bool.and_eq_true, decide_eq_true_eq, ge_iff_le] at hdigit
      exact ⟨hdigit.1, hdigit.2⟩
    simp only [is_whitespace, decide_eq_false_iff_not]
    omega
  have hstay : ∀ l : List Char, (∀ c ∈ l, is_whitespace c = false) →
      l.dropWhile is_whitespace = l := by
    intro l hl
    rcases l with _ | ⟨c, l⟩
    · rfl
    · rw [List.dropWhile_cons_of_neg (by simp [hl c List.mem_cons_self])]
  unfold str_trim
  rw [hstay _ hdigits, hstay _ (by simpa using hdigits), List.reverse_reverse, String.ofList_toList]

section Laws

variable [Crypto]

/-! ## When an offer was first seen -/

namespace DropState

/-- The operation records no offer of another hash. -/
def Op.about (hash : BlobHash) : Op → Prop
  | .record_offer_inner _ offer _ => offer.blob_hash = hash
  | _ => True

/-- From one state to the other at most this hash came in, and the other records are
as old as they were. -/
structure OnlyNew (hash : BlobHash) (a b : DropState) : Prop where
  stays : hash ∈ a.offers → hash ∈ b.offers
  seen : ∀ x record, b.offers.lookup x = some record → (x = hash ∧ hash ∉ a.offers) ∨
    ∃ old, a.offers.lookup x = some old ∧ old.first_seen_at = record.first_seen_at

variable {a b : DropState} {hash : BlobHash}

theorem OnlyNew.refl (hash : BlobHash) (a : DropState) : OnlyNew hash a a :=
  ⟨id, fun _ record h => .inr ⟨record, h, rfl⟩⟩

theorem OnlyNew.of_same (h : OnlyNew hash a b) {c : DropState} (hsame : c.offers = b.offers) :
    OnlyNew hash a c :=
  ⟨hsame ▸ h.stays, hsame ▸ h.seen⟩

theorem add_alias_first_seen_at (record : OfferRecord) (name : String) :
    (record.add_alias name).first_seen_at = record.first_seen_at := by
  unfold OfferRecord.add_alias
  split <;> rfl

theorem OnlyNew.record_offer_inner (h : OnlyNew hash a b) (hk : TableKept b) (author : EndpointId)
    {offer : OfferV1} (hoffer : offer.blob_hash = hash) (now : Instant) :
    OnlyNew hash a (b.record_offer_inner author offer now).2 := by
  have hlisted : hash ∉ b.offers → OnlyNew hash a (b.offer_listed author offer now) := by
    intro hnew
    refine ⟨fun hold => absurd (h.stays hold) hnew, fun x record hlookup => ?_⟩
    rw [offer_listed_lookup, hoffer] at hlookup
    by_cases hx : x = hash
    · exact .inl ⟨hx, fun hold => hnew (h.stays hold)⟩
    · rw [if_neg hx] at hlookup
      exact h.seen x record hlookup
  have hrecorded := offer_recorded hk author offer now
  generalize b.record_offer_inner author offer now = result at hrecorded ⊢
  cases hrecorded with
  | known record hrecord =>
    rw [hoffer] at hrecord
    have hmem : hash ∈ b.offers := AList.lookup_isSome.mp (by rw [hrecord]; rfl)
    refine ⟨fun _ => (AList.mem_insert _).mpr (.inr hmem), fun x record' hlookup => ?_⟩
    rw [HashMap.lookup_insert', hoffer] at hlookup
    by_cases hx : x = hash
    · rw [if_pos hx] at hlookup
      obtain rfl := Option.some.inj hlookup
      rw [hx, add_alias_first_seen_at]
      exact h.seen hash record hrecord
    · rw [if_neg hx] at hlookup
      exact h.seen x record' hlookup
  | refused hnew hspent => exact h
  | listed hnew hquota hroom => exact hlisted (hoffer ▸ hnew)
  | replaced hnew hquota hfull oldest rest gone horder hgone =>
    have hlisted := hlisted (hoffer ▸ hnew)
    refine ⟨fun hold => absurd (h.stays hold) (hoffer ▸ hnew), fun x record hlookup => ?_⟩
    change ((b.offer_listed author offer now).offers.erase oldest).lookup x = _ at hlookup
    rw [HashMap.lookup_erase'] at hlookup
    split at hlookup
    · cases hlookup
    · exact hlisted.seen x record hlookup

theorem OnlyNew.perform (h : OnlyNew hash a b) (hk : TableKept b) {op : Op} (hop : op.about hash) :
    OnlyNew hash a (b.perform op) := by
  cases op with
  | note_peer peer =>
    obtain ⟨known, order, hnoted⟩ := b.note_peer_tables peer
    simp only [DropState.perform, hnoted]
    exact h.of_same rfl
  | retain r frame => exact h.of_same (b.retain_tables r frame).1
  | record_offer_inner author offer now => exact h.record_offer_inner hk author hop now
  | set_local_status target status =>
    have hmodify : ∀ x, (b.set_local_status target status).offers.lookup x =
        if x = target then (b.offers.lookup target).map
          (fun record => { record with local_status := status }) else b.offers.lookup x :=
      fun x => HashMap.lookup_modify b.offers target x _
    refine ⟨fun hold => ?_, fun x record hlookup => ?_⟩
    · apply AList.lookup_isSome.mp
      have hmem := AList.lookup_isSome.mpr (h.stays hold)
      change ((b.set_local_status target status).offers.lookup hash).isSome = true
      rw [hmodify]
      by_cases heq : hash = target
      · rw [if_pos heq, Option.isSome_map, ← heq]
        exact hmem
      · rw [if_neg heq]
        exact hmem
    · change (b.set_local_status target status).offers.lookup x = _ at hlookup
      rw [hmodify] at hlookup
      by_cases heq : x = target
      · rw [if_pos heq] at hlookup
        obtain ⟨old, hold, rfl⟩ := Option.map_eq_some_iff.mp hlookup
        exact h.seen x old (heq ▸ hold)
      · rw [if_neg heq] at hlookup
        exact h.seen x record hlookup
  | _ => exact h.of_same rfl

theorem CallsBy.onlyNew {allowed : Op → Prop} (hallowed : ∀ op, allowed op → op.about hash)
    (hk : TableKept a) (h : CallsBy allowed a b) : OnlyNew hash a b := by
  have hboth : TableKept b ∧ OnlyNew hash a b := by
    refine h.keeps (p := fun b => TableKept b ∧ OnlyNew hash a b) (fun b op hb hop => ?_)
      ⟨hk, .refl hash a⟩
    exact ⟨perform_table hb.1 op, hb.2.perform hb.1 (hallowed op hop)⟩
  exact hboth.2

theorem callsBy_ops {allowed : Op → Prop} {ops : List Op} (h : ∀ op ∈ ops, allowed op)
    (a : DropState) : CallsBy allowed a (ops.foldl DropState.perform a) := by
  induction ops generalizing a with
  | nil => exact .refl a
  | cons op ops ih =>
    have hhead := CallsBy.one (a := a) op (h op List.mem_cons_self)
    exact hhead.trans (ih (fun op hop => h op (List.mem_cons_of_mem _ hop)) _)

end DropState

open DropState

namespace Session

variable {s : Session}

/-- What a body is about, for the table. -/
def body_hash (body : Option MessageBodyV1) : BlobHash :=
  match body with
  | some (.Offer offer) => offer.blob_hash
  | _ => ⟨.fill 32 0⟩

theorem message_ops_about (s : Session) (verified : VerifiedMessage) (peer : EndpointId)
    (raw : Bytes) (now : Instant) :
    ∀ op ∈ s.message_ops verified peer raw now, op.about (body_hash verified.body) := by
  have hdispatch : ∀ (s : Session), ∀ op ∈ s.dispatch_ops verified peer now,
      op.about (body_hash verified.body) := by
    intro s op hop
    unfold dispatch_ops at hop
    rcases hbody : verified.body with _ | (offer | provider | request | ext) <;>
      simp only [hbody] at hop
    · cases hop
    · split at hop
      · cases hop
      · rcases List.mem_cons.mp hop with rfl | hop
        · trivial
        · rw [List.mem_singleton.mp hop]
          rfl
    · rw [List.mem_singleton.mp hop]
      trivial
    · cases hop
    · cases hop
  intro op hop
  unfold message_ops at hop
  split at hop
  · cases hop
  · split at hop
    · rcases List.mem_cons.mp hop with rfl | hop
      · trivial
      · rw [List.mem_singleton.mp hop]
        trivial
    · rcases List.mem_append.mp hop with hop | hop
      · simp only [List.mem_cons, List.not_mem_nil, or_false] at hop
        rcases hop with rfl | rfl | rfl <;> trivial
      · exact hdispatch _ op hop

theorem restore_ops_about (s : Session) (frame : Bytes) (now : Instant) :
    ∃ hash, ∀ op ∈ s.restore_ops frame now, op.about hash := by
  unfold restore_ops
  split
  · exact ⟨⟨.fill 32 0⟩, by simp⟩
  · split
    · exact ⟨⟨.fill 32 0⟩, by simp [Op.about]⟩
    · split
      · rename_i offer hoffer
        exact ⟨offer.blob_hash, by simp [Op.about]⟩
      · exact ⟨⟨.fill 32 0⟩, by simp [Op.about]⟩
      · exact ⟨⟨.fill 32 0⟩, by simp [Op.about]⟩

/-- A step of the session's own is about one hash at most. -/
theorem names_one (s : Session) (i : Step) : ∃ hash, ∀ x, i.names s x → x = hash := by
  have hnone : (∀ x, ¬ i.names s x) → ∃ hash, ∀ x, i.names s x → x = hash :=
    fun h => ⟨⟨.fill 32 0⟩, fun x hx => absurd hx (h x)⟩
  have himported : ∀ imported : Except String BlobHash,
      ∃ hash, ∀ x, imported = .ok x → x = hash := by
    rintro (e | hash)
    · exact ⟨⟨.fill 32 0⟩, fun x hx => by cases hx⟩
    · exact ⟨hash, fun x hx => (Except.ok.inj hx).symm⟩
  cases i with
  | publish_path_as path name world => exact himported world.imported
  | publish_bytes_with name bytes media_type metadata world => exact himported world.imported
  | reannounce hash world ms draw => exact ⟨hash, fun x hx => Eq.symm hx⟩
  | fetch hash => exact ⟨hash, fun x hx => Eq.symm hx⟩
  | fetch_event j event =>
    rcases htask : s.fetches[j]? with _ | task
    · refine hnone (fun x hx => ?_)
      obtain ⟨task, hsome, -⟩ := hx
      rw [htask] at hsome
      cases hsome
    · refine ⟨task.hash, fun x hx => ?_⟩
      obtain ⟨task', hsome, rfl⟩ := hx
      rw [htask] at hsome
      rw [Option.some.inj hsome]
  | _ => exact hnone (fun _ hx => hx)

/-- Every step but a restore brings in one hash at most. -/
theorem step_onlyNew (hk : TableKept s.state) {i : Step}
    (hi : ∀ frames, i ≠ .restore_history frames) :
    ∃ hash, OnlyNew hash s.state (s.step i).state := by
  have hreplay : ∀ frame peer world,
      ∃ hash, OnlyNew hash s.state (s.replay frame peer world).state := by
    intro frame peer world
    unfold replay
    split
    · rename_i verified hread
      rw [handle_message_state]
      exact ⟨body_hash verified.body,
        (callsBy_ops (s.message_ops_about verified peer frame world.draw.now) s.state).onlyNew
          (fun _ h => h) hk⟩
    · exact ⟨⟨.fill 32 0⟩, .refl _ _⟩
  have hown : i.is_own → ∃ hash, OnlyNew hash s.state (s.step i).state := by
    intro hown
    obtain ⟨hash, hnames⟩ := s.names_one i
    have howns : s.Owns (fun _ => True) (fun _ => True) := ⟨trivial, trivial, fun _ _ _ => trivial⟩
    refine ⟨hash, (calls_listing_step howns hown hnames).onlyNew (fun op hop => ?_) hk⟩
    cases op with
    | record_offer_inner author offer now => exact hop.2
    | _ => trivial
  cases i with
  | received content peer world =>
    simp only [step, receive_state]
    exact hreplay content peer world
  | replayed frame peer world =>
    simp only [step]
    split
    · exact ⟨⟨.fill 32 0⟩, .refl _ _⟩
    · exact hreplay frame peer world
  | neighbor_up peer now =>
    refine ⟨⟨.fill 32 0⟩, (OnlyNew.refl _ s.state).of_same ?_⟩
    simp only [step, neighbor_up_state]
  | restore_history frames => exact absurd rfl (hi frames)
  | _ => exact hown trivial

theorem restore_frame_onlyNew (hk : TableKept s.state) (frame : Bytes) (now : Instant) :
    ∃ hash, OnlyNew hash s.state (s.restore_frame frame now).2.state := by
  obtain ⟨hash, habout⟩ := s.restore_ops_about frame now
  rw [restore_frame_state]
  exact ⟨hash, (callsBy_ops habout s.state).onlyNew (fun _ h => h) hk⟩

/-! ## Listings that last -/

/-- The session, with a map of these records in its place. -/
def iterated (self : Session) (map : HashMap BlobHash OfferRecord) : Session :=
  { self with state := { self.state with offers := map } }

/-- The same session, but for the order in which its map comes. -/
def Reordered (s s' : Session) : Prop :=
  ∃ map : HashMap BlobHash OfferRecord,
    map.entries.Perm s.state.offers.entries ∧ s' = s.iterated map

/-- What a listing showed under a number, the number stands for, in whatever order the
map comes, or for nothing if the item is gone. -/
def KeepsNumbers [Crates] (listing : List InventoryItem) (s : Session) : Prop :=
  ∀ item ∈ listing, ∀ input, parse_u64 (str_trim input) = some item.index →
    ∀ s', s.Reordered s' → s'.resolve_pick input = .ok item.hash ∨
      (item.hash ∉ s.state.offers ∧ ∃ e, s'.resolve_pick input = .error e)

/-- Nothing of the listing goes, and what comes in was seen later than all of it. -/
structure Undisturbed (listed : List OfferRecord) (s s' : Session) : Prop where
  kept : ∀ old ∈ listed, old.offer.blob_hash ∈ s'.state.offers
  later : ∀ e ∈ s'.state.offers.entries, e.1 ∉ s.state.offers →
    ∀ old ∈ listed, old.first_seen_at < e.2.first_seen_at

instance (listed : List OfferRecord) (s s' : Session) : Decidable (Undisturbed listed s s') :=
  decidable_of_iff ((∀ old ∈ listed, old.offer.blob_hash ∈ s'.state.offers) ∧
    ∀ e ∈ s'.state.offers.entries, e.1 ∉ s.state.offers →
      ∀ old ∈ listed, old.first_seen_at < e.2.first_seen_at)
    ⟨fun h => ⟨h.1, h.2⟩, fun h => ⟨h.kept, h.later⟩⟩

/-- The step does not disturb the listing. History is restored frame by frame. -/
def Steady (listed : List OfferRecord) (s : Session) : Step → Prop
  | .restore_history frames =>
    runs.Meets (fun s f => (s.restore_frame f.1 f.2).2)
      (fun s f => Undisturbed listed s (s.restore_frame f.1 f.2).2) s frames
  | i => Undisturbed listed s (s.step i)

instance (listed : List OfferRecord) (s : Session) : ∀ i, Decidable (Steady listed s i)
  | .restore_history frames => inferInstanceAs (Decidable (runs.Meets _ _ s frames))
  | .received _ _ _ | .replayed _ _ _ | .neighbor_up _ _ | .neighbor_down _ | .lagged
  | .publish_path_as _ _ _ | .publish_bytes_with _ _ _ _ _ | .send_extension _ _ _ _ _
  | .on_extension _ | .reannounce _ _ _ _ | .announce_withdrawal _ _ | .fetch _
  | .fetch_event _ _ | .store_changed _ _ | .released =>
    inferInstanceAs (Decidable (Undisturbed listed s _))

/-- The table has what was listed, as old as it was, and the rest of it is younger. -/
structure Ahead (listed : List OfferRecord) (s : Session) : Prop where
  table : TableKept s.state
  keyed : Keyed s.state
  there : ∀ old ∈ listed, ∃ record, s.state.offers.lookup old.offer.blob_hash = some record ∧
    record.first_seen_at = old.first_seen_at
  rest : ∀ hash record, s.state.offers.lookup hash = some record →
    (∃ old ∈ listed, old.offer.blob_hash = hash) ∨
      ∀ old ∈ listed, old.first_seen_at < record.first_seen_at

theorem Ahead.undisturbed {listed : List OfferRecord} {s' : Session} (h : Ahead listed s)
    {hash : BlobHash} (hnew : OnlyNew hash s.state s'.state) (htable : TableKept s'.state)
    (hkeyed : Keyed s'.state) (hcalm : Undisturbed listed s s') : Ahead listed s' := by
  refine ⟨htable, hkeyed, fun old hold => ?_, fun x record hlookup => ?_⟩
  · obtain ⟨record, hrecord⟩ := Option.isSome_iff_exists.mp
      (AList.lookup_isSome.mpr (hcalm.kept old hold))
    obtain ⟨before, hbefore, hage⟩ := h.there old hold
    refine ⟨record, hrecord, ?_⟩
    rcases hnew.seen _ record hrecord with ⟨hx, habsent⟩ | ⟨before', hbefore', hage'⟩
    · rw [← hx] at habsent
      exact absurd (AList.lookup_isSome.mp (by rw [hbefore]; rfl)) habsent
    · rw [hbefore] at hbefore'
      rw [← hage', ← Option.some.inj hbefore', hage]
  · by_cases hin : x ∈ s.state.offers
    · rcases hnew.seen x record hlookup with ⟨rfl, habsent⟩ | ⟨before, hbefore, hage⟩
      · exact absurd hin habsent
      · rw [← hage]
        exact h.rest x before hbefore
    · right
      exact hcalm.later ⟨x, record⟩
        ((List.mem_dlookup_iff s'.state.offers.nodupKeys).mp hlookup) hin

theorem Ahead.restore_frame {listed : List OfferRecord} (h : Ahead listed s) (frame : Bytes)
    (now : Instant) (hcalm : Undisturbed listed s (s.restore_frame frame now).2) :
    Ahead listed (s.restore_frame frame now).2 := by
  obtain ⟨hash, hnew⟩ := restore_frame_onlyNew h.table frame now
  have hkept : TableKept (s.restore_frame frame now).2.state ∧
      Keyed (s.restore_frame frame now).2.state := by
    rw [restore_frame_state]
    refine (calls_ops _ s.state).keeps (p := fun a => TableKept a ∧ Keyed a) (fun a op ha _ => ?_)
      ⟨h.table, h.keyed⟩
    exact ⟨perform_table ha.1 op, perform_keyed ha.1 ha.2 op⟩
  exact h.undisturbed hnew hkept.1 hkept.2 hcalm

theorem Ahead.step {listed : List OfferRecord} (h : Ahead listed s) {i : Step}
    (hi : Steady listed s i) : Ahead listed (s.step i) := by
  by_cases hrestore : ∃ frames, i = .restore_history frames
  · obtain ⟨frames, rfl⟩ := hrestore
    change Ahead listed (s.restore_history frames).2
    induction frames generalizing s with
    | nil => exact h
    | cons f frames ih =>
      rw [restore_history_cons]
      exact ih (h.restore_frame f.1 f.2 hi.1) hi.2
  · have hother : ∀ frames, i ≠ .restore_history frames := fun frames heq => hrestore ⟨frames, heq⟩
    obtain ⟨hash, hnew⟩ := step_onlyNew h.table hother
    obtain ⟨htable, hkeyed⟩ := step_keyed s i ⟨h.table, h.keyed⟩
    refine h.undisturbed hnew htable hkeyed ?_
    cases i with
    | restore_history frames => exact absurd rfl (hother frames)
    | _ => exact hi

/-- The hash of a record, and when it was first seen. -/
def seen (record : OfferRecord) : BlobHash × Instant :=
  (record.offer.blob_hash, record.first_seen_at)

theorem keyed_iterated (hkeyed : Keyed s.state) {map : HashMap BlobHash OfferRecord}
    (hmap : map.entries.Perm s.state.offers.entries) : Keyed (s.iterated map).state := by
  intro hash record hlookup
  apply hkeyed hash record
  rw [← AList.perm_lookup hmap]
  exact hlookup

/-- Whatever the order of the map, the listing begins with what was listed. -/
theorem Ahead.leads {listed : List OfferRecord} (h : Ahead listed s)
    (hsorted : listed.Pairwise (fun a b => a.first_seen_at < b.first_seen_at))
    {map : HashMap BlobHash OfferRecord} (hmap : map.entries.Perm s.state.offers.entries) :
    listed.map seen <+: (s.iterated map).offers.map seen := by
  have hmem : ∀ record, record ∈ (s.iterated map).offers ↔
      ∃ hash, s.state.offers.lookup hash = some record := by
    intro record
    rw [mem_offers]
    apply exists_congr
    intro hash
    rw [← AList.perm_lookup hmap]
    rfl
  have hkeyed := keyed_iterated h.keyed hmap
  apply @prefix_of_later _ Prod.snd
  · rw [List.pairwise_map]
    exact hsorted
  · rw [List.pairwise_map]
    exact List.pairwise_insertionSort _ _
  · have hhashes := (offers_hashes hkeyed).nodup_iff.mpr (s.iterated map).state.offers.keys_nodup
    apply List.Nodup.of_map Prod.fst
    rw [List.map_map]
    exact hhashes
  · intro a ha
    obtain ⟨old, hold, rfl⟩ := List.mem_map.mp ha
    obtain ⟨record, hrecord, hage⟩ := h.there old hold
    have hhash := h.keyed _ record hrecord
    refine List.mem_map.mpr ⟨record, (hmem record).mpr ⟨_, hrecord⟩, ?_⟩
    simp [seen, hhash, hage]
  · intro x hx
    obtain ⟨record, hrecord, rfl⟩ := List.mem_map.mp hx
    obtain ⟨hash, hlookup⟩ := (hmem record).mp hrecord
    rcases h.rest hash record hlookup with ⟨old, hold, rfl⟩ | hlater
    · left
      obtain ⟨record', hrecord', hage⟩ := h.there old hold
      rw [hlookup] at hrecord'
      obtain rfl := Option.some.inj hrecord'
      refine List.mem_map.mpr ⟨old, hold, ?_⟩
      simp [seen, h.keyed _ record hlookup, hage]
    · right
      intro a ha
      obtain ⟨old, hold, rfl⟩ := List.mem_map.mp ha
      exact hlater old hold

theorem Ahead.keepsNumbers [Crates] {s₀ : Session} (h : Ahead s₀.offers s)
    (hsorted : s₀.offers.Pairwise (fun a b => a.first_seen_at < b.first_seen_at)) :
    KeepsNumbers s₀.inventory s := by
  rintro item hitem input hread s' ⟨map, hmap, rfl⟩
  left
  obtain ⟨n, hn⟩ := List.mem_iff_getElem?.mp hitem
  have hindex := inventory_index hn
  rw [inventory_getElem?] at hn
  obtain ⟨record, hrecord, rfl⟩ := Option.map_eq_some_iff.mp hn
  -- The same place of the listing holds the same hash.
  obtain ⟨rest, hrest⟩ := h.leads hsorted hmap
  have hplace : ((s.iterated map).offers.map seen)[n]? = some (seen record) := by
    rw [← hrest, List.getElem?_append_left, List.getElem?_map, hrecord]
    · rfl
    · rw [List.length_map]
      exact (List.getElem?_eq_some_iff.mp hrecord).1
  rw [List.getElem?_map] at hplace
  obtain ⟨record', hrecord', hseen⟩ := Option.map_eq_some_iff.mp hplace
  have hitem' : (s.iterated map).inventory[n]? = some (inventory_item n record') := by
    rw [inventory_getElem?, hrecord']
    rfl
  have hhash : (inventory_item n record').hash = (inventory_item n record).hash :=
    congrArg Prod.fst hseen
  obtain ⟨hfound, -⟩ := @resolve_pick_number _ (s.iterated map) _ input _ hread
  rw [hindex, Nat.add_sub_cancel] at hfound
  rw [hfound _ hitem' (Nat.succ_ne_zero n), hhash]

/-- A listing is ahead of the state that it is taken in. -/
theorem ahead_of_listing (hk : TableKept s.state) (hkeyed : Keyed s.state) {s₀ : Session}
    (hlisting : s.Reordered s₀) : Ahead s₀.offers s := by
  obtain ⟨map, hmap, rfl⟩ := hlisting
  have hlookup : ∀ hash, map.lookup hash = s.state.offers.lookup hash :=
    fun hash => AList.perm_lookup hmap
  refine ⟨hk, hkeyed, fun old hold => ?_, fun hash record hrecord => .inl ?_⟩
  · obtain ⟨hash, hhash⟩ := mem_offers.mp hold
    have hold' : s.state.offers.lookup hash = some old := (hlookup hash).symm.trans hhash
    exact ⟨old, by rw [hkeyed hash old hold', hold'], rfl⟩
  · exact ⟨record, mem_offers.mpr ⟨hash, (hlookup hash).trans hrecord⟩, hkeyed hash record hrecord⟩

/-- The listing is in order, and strictly so where no two items were seen at once. -/
theorem offers_sorted (huntied : s.offers.Pairwise (fun a b => a.first_seen_at ≠ b.first_seen_at)) :
    s.offers.Pairwise (fun a b => a.first_seen_at < b.first_seen_at) := by
  have hordered : s.offers.Pairwise (fun a b => a.first_seen_at ≤ b.first_seen_at) :=
    List.pairwise_insertionSort _ _
  refine (hordered.and huntied).imp ?_
  intro a b hab
  exact Nat.lt_of_le_of_ne hab.1 hab.2

end Session

/-- A number that a listing showed stands for the same item in every state that comes
after, as long as no step disturbs the listing; and a listing of the same table is the
same. -/
theorem numbers_keep_their_meaning [Crates] (secret : SecretKey) (policy : DropPolicy)
    (decider : OfferDecider) (topic_id : TopicId) (ticket : DropTicket) (drop_key : Option DropKey)
    (store : BlobHash → BlobStatus) (before after_ : List Step) {s s₀ : Session}
    (hs : s = (Session.new secret policy decider topic_id ticket drop_key store).run before)
    (hlisting : s.Reordered s₀)
    (huntied : s₀.offers.Pairwise (fun a b => a.first_seen_at ≠ b.first_seen_at))
    (hsteady : runs.Meets Session.step (Session.Steady s₀.offers) s after_) :
    ∀ past, past <+: after_ → Session.KeepsNumbers s₀.inventory (s.run past) ∧
      ((s.run past).state.offers = s.state.offers → (s.run past).inventory = s.inventory) := by
  subst hs
  have hkeyed : Keyed (Session.new secret policy decider topic_id ticket drop_key store).state :=
    fun x record hlookup => by cases hlookup
  have hinv := runs.invariant Session.step_keyed ⟨tableKept_new secret.public, hkeyed⟩ before
  have hahead := Session.ahead_of_listing hinv.1 hinv.2 hlisting
  intro past hpast
  obtain ⟨rest, rfl⟩ := hpast
  have hmeets := ((runs.meets_append _ past rest).mp hsteady).1
  have hstep : ∀ s i, Session.Ahead s₀.offers s → Session.Steady s₀.offers s i →
      Session.Ahead s₀.offers (s.step i) := fun _ _ hs hi => hs.step hi
  have hkept := runs.invariant_of_meets hstep hahead hmeets
  refine ⟨hkept.keepsNumbers (Session.offers_sorted huntied), fun hsame => ?_⟩
  unfold Session.inventory Session.offers
  rw [hsame]

/-! ## A full table -/

theorem Session.inventory_length (s : Session) :
    s.inventory.length = HashMap.len s.state.offers := by
  simp [Session.inventory, Session.offers, List.length_insertionSort, HashMap.len, AList.keys,
    List.keys]

/-- A full table that takes in an offer has no room for the numbers of a listing. -/
theorem Session.numbers_move [Crates] {s s' : Session} (hkeyed : Keyed s.state)
    (hkeyed' : Keyed s'.state) (htable' : TableKept s'.state)
    (hfull : MAX_OFFERS ≤ HashMap.len s.state.offers) {hash : BlobHash}
    (hnew : hash ∉ s.state.offers) (hin : hash ∈ s'.state.offers) :
    ¬ s'.KeepsNumbers s.inventory := by
  intro hkeeps
  obtain ⟨item', hitem', rfl⟩ := (Session.listed_iff hkeyed' hash).mp (AList.mem_keys.mp hin)
  obtain ⟨n, hn⟩ := List.mem_iff_getElem?.mp hitem'
  have hlt' := (List.getElem?_eq_some_iff.mp hn).1
  have hcap := htable'.cap
  rw [Session.inventory_length] at hlt'
  have hlt : n < s.inventory.length := by
    rw [Session.inventory_length]
    omega
  have hitem := List.getElem?_eq_getElem hlt
  have hindex := Session.inventory_index hitem
  have hsmall : MAX_OFFERS < UInt64.size := by decide
  have hread : parse_u64 (str_trim (toString (UInt64.ofNat (n + 1)))) = some (n + 1) := by
    rw [str_trim_digits, parse_u64_digits, UInt64.toNat_ofNat_of_lt' (by omega)]
  -- The number of the new item is the number of an item that was listed.
  obtain ⟨hfound, -⟩ := @Session.resolve_pick_number _ s' _ _ _ hread
  have hnow := hfound item' hn (Nat.succ_ne_zero n)
  have hlisted := List.getElem_mem hlt
  have hsame : s'.Reordered s' := ⟨s'.state.offers, .refl _, rfl⟩
  rcases hkeeps _ hlisted _ (hread.trans (congrArg some hindex.symm)) s' hsame with hok | ⟨-, e, he⟩
  · rw [hnow] at hok
    have hmem := (Session.listed_iff hkeyed _).mpr ⟨_, hlisted, rfl⟩
    rw [← Except.ok.inj hok] at hmem
    exact hnew (AList.mem_keys.mpr hmem)
  · rw [hnow] at he
    cases he

/-- An author with quota gets its offer into the table. -/
theorem DropState.record_offer_inner_in {s : DropState} (hk : TableKept s) {author : EndpointId}
    (hquota : s.author_has_quota author) (offer : OfferV1) (now : Instant) :
    offer.blob_hash ∈ (s.record_offer_inner author offer now).2.offers := by
  have hrecorded := offer_recorded hk author offer now
  generalize s.record_offer_inner author offer now = result at hrecorded ⊢
  cases hrecorded with
  | known record hrecord => exact (AList.mem_insert _).mpr (.inl rfl)
  | refused hnew hspent => exact absurd hquota hspent
  | listed hnew _ hroom => exact (AList.mem_insert _).mpr (.inl rfl)
  | replaced hnew _ hfull oldest rest gone horder hgone =>
    have hother : offer.blob_hash ≠ oldest := by
      rintro rfl
      exact hnew (oldest_was_listed hk hnew hfull horder)
    exact AList.mem_erase.mpr ⟨hother, (AList.mem_insert _).mpr (.inl rfl)⟩

/-- So does an author whose offer is heard, and turned down by nobody. -/
theorem Session.receive_lists {s : Session} (hk : TableKept s.state) {frame : Bytes}
    {peer : EndpointId} {world : IntakeWorld} {verified : VerifiedMessage} {offer : OfferV1}
    (hread : Session.decode_for_session s.toSessionConfig frame = .ok verified)
    (hbody : verified.body = some (.Offer offer)) (hadmits : s.admits peer world.draw.now = true)
    (hfresh : s.state.is_fresh verified.key world.draw.now = true)
    (haccept : ∀ context reason, s.decider offer context ≠ .Reject reason)
    (hquota : s.state.author_has_quota verified.author) :
    offer.blob_hash ∈ (s.receive frame peer world).state.offers := by
  let before : List DropState.Op := [.note_peer peer, .check_and_insert verified.key world.draw.now,
    .retain .Yes frame, .note_peer verified.author]
  have hrejects : ¬ (s.taken verified peer frame world.draw.now).rejects verified.author offer
      peer := by
    rintro ⟨reason, hreject⟩
    exact haccept _ reason hreject
  have hstate : (s.receive frame peer world).state =
      ((before.foldl DropState.perform s.state).record_offer_inner verified.author offer
        world.draw.now).2 := by
    unfold Session.receive
    rw [hread]
    change (s.handle_message verified peer frame world).state = _
    rw [Session.handle_message_state, Session.message_ops, if_neg (by simp [hadmits]),
      if_neg (by simp [hfresh])]
    simp only [Session.dispatch_ops, hbody, if_neg hrejects]
    rfl
  have hkept : TableKept (before.foldl DropState.perform s.state) :=
    (Session.calls_ops before s.state).keeps (fun a op ha _ => DropState.perform_table ha op) hk
  have hsame : (before.foldl DropState.perform s.state).offers_per_author =
      s.state.offers_per_author := by
    have hnote : ∀ (a : DropState) (p : EndpointId),
        (a.note_peer p).offers_per_author = a.offers_per_author := by
      intro a p
      obtain ⟨known, order, hnoted⟩ := a.note_peer_tables p
      rw [hnoted]
    exact (hnote _ verified.author).trans (hnote s.state peer)
  rw [hstate]
  refine DropState.record_offer_inner_in hkept ?_ offer world.draw.now
  unfold DropState.author_has_quota
  rw [hsame]
  exact hquota

/-- A message brings in no offer but its own. -/
theorem DropState.learn_brings {s : DropState} (hlen : HashMap.len s.offers < MAX_OFFERS)
    {verified : VerifiedMessage} {now : Instant} {hash : BlobHash}
    (h : hash ∈ (s.learn verified now).offers) :
    hash ∈ s.offers ∨ offered_hash verified = some hash := by
  unfold learn at h
  split at h
  · rename_i offer hbody
    cases s.offered hlen verified.author offer now with
    | over_quota _ _ same =>
      rw [same] at h
      exact .inl h
    | known _ _ _ offers _ => exact .inl ((offers hash).mp h)
    | new _ _ _ _ offers _ =>
      rcases (offers hash).mp h with rfl | hold
      · exact .inr (by simp [offered_hash, hbody])
      · exact .inl hold
  · exact .inl h
  · exact .inl h

/-- A restored history, all new and within the quotas, leaves its offers in the table,
and no others. -/
theorem restore_history_offers {s : Session} {topic : TopicId} {all messages : List VerifiedMessage}
    (hquotas : WithinQuotas all) {frames : List (Bytes × Instant)}
    (hp : List.Forall₂ (fun f verified => Plain topic f.1 verified) frames messages)
    (hall : ∀ v ∈ messages, v ∈ all) (ht : s.topic_id = topic) (hacc : Accounted all s.state)
    (hrep : NoRepeat (frames.map Prod.fst)) (hnew : AllNew s.state (frames.map Prod.fst))
    (hlen : HashMap.len s.state.offers + frames.length ≤ MAX_OFFERS) :
    ∃ state, (s.restore_history frames).2 = { s with state } ∧ Accounted all state ∧
      (∀ hash, hash ∈ state.offers ↔
        hash ∈ s.state.offers ∨ hash ∈ messages.filterMap offered_hash) ∧
      ∀ key ∈ state.seen_messages.entries, key ∈ s.state.seen_messages.entries ∨
        ∃ v ∈ messages, key = v.key := by
  induction hp generalizing s with
  | nil => exact ⟨s.state, rfl, hacc, by simp, fun key h => .inl h⟩
  | @cons f verified frames messages hhead hrest ih =>
    obtain ⟨frame, now⟩ := f
    simp only [List.map_cons, List.length_cons] at hrep hnew hlen
    have hnames : Names frame verified.key := decode_names hhead.1
    have hfresh := s.state.is_fresh_of_not_mem now
      (hnew frame (List.mem_cons_self ..) verified.key hnames)
    have hafter : (s.restore_frame frame now).2 = { s with state :=
        ((s.state.noted verified.key now).retain_frame frame).learn verified now } :=
      restore_frame_plain (by rw [ht]; exact hhead) hfresh
    have hsame : SameTables s.state ((s.state.noted verified.key now).retain_frame frame) :=
      (s.state.sameTables_noted verified.key now).trans (DropState.sameTables_retain_frame _ frame)
    have hlearned := hsame.learn (by omega) verified 0 now
    obtain ⟨hacc', hkeeps, hoffer⟩ :=
      hacc.learn hquotas (by omega) (hall verified List.mem_cons_self) 0
    have hseen := (sameLog_learn ((s.state.noted verified.key now).retain_frame frame) verified
      now).seen_messages
    have hcount := hlearned.count
    have hmore := s.state.learn_count (by omega) verified 0
    have hlen' : HashMap.len (s.restore_frame frame now).2.state.offers + frames.length ≤
        MAX_OFFERS := by
      rw [hafter]
      change HashMap.len (DropState.learn _ verified now).offers + _ ≤ _
      omega
    obtain ⟨state, hstate, haccounted, hoffers, hkeys⟩ := @ih (s.restore_frame frame now).2
      (fun v hv => hall v (List.mem_cons_of_mem _ hv)) (by rw [hafter]; exact ht)
      (by rw [hafter]; exact hacc'.of_sameTables hlearned) (List.Pairwise.of_cons hrep)
      (by rw [hafter]; exact hnew.tail hrep hnames (hseen.trans rfl)) hlen'
    have hown : ∀ hash, hash ∈ (s.restore_frame frame now).2.state.offers ↔
        hash ∈ s.state.offers ∨ offered_hash verified = some hash := by
      intro hash
      rw [hafter]
      change hash ∈ (DropState.learn _ verified now).offers ↔ _
      rw [hlearned.offers]
      constructor
      · exact DropState.learn_brings (by omega)
      · rintro (hold | hbrings)
        · exact hkeeps hash hold
        · unfold offered_hash at hbrings
          split at hbrings
          · rename_i offer hbody
            obtain rfl := Option.some.inj hbrings
            exact hoffer offer hbody
          · cases hbrings
    refine ⟨state, ?_, haccounted, fun hash => ?_, fun key hkey => ?_⟩
    · rw [Session.restore_history_cons, hstate, hafter]
    · rw [hoffers, hown, List.mem_filterMap, List.mem_filterMap]
      simp [or_assoc]
    · rcases hkeys key hkey with hold | ⟨v, hv, rfl⟩
      · rw [hafter] at hold
        change key ∈ (DropState.learn _ verified now).seen_messages.entries at hold
        rw [hseen] at hold
        rcases s.state.mem_of_mem_noted hold with rfl | hold
        · exact .inr ⟨verified, List.mem_cons_self, rfl⟩
        · exact .inl hold
      · exact .inr ⟨v, List.mem_cons_of_mem _ hv, rfl⟩

end Laws

/-! ## A crowd of authors -/

namespace crowded_drop

local instance : Crypto := Crypto.clear

local instance : Crates where
  hash_of _ := ⟨.fill 32 7⟩
  to_vec_pretty _ := .error "no collection"
  from_slice _ := .error "no collection"
  debug s := "\"" ++ s ++ "\""

def topic : TopicId := ⟨.fill 32 8⟩

def author (k : Nat) : SecretKey := ⟨unoffered_hashes.numbered k 30⟩

/-- The one offer of the k-th author. -/
def offer (k : Nat) : OfferV1 :=
  { blob_hash := ⟨unoffered_hashes.numbered k 30⟩, name := "a", size := 1, media_type := none
    created_at_ms := none, metadata := ∅ }

def said (k : Nat) : VerifiedMessage :=
  { author := (author k).public, message := .new (.Offer (offer k)) (.fill 16 0) 0
    body := some (.Offer (offer k)) }

@[irreducible] def frame (k : Nat) : Bytes :=
  match (said k).message.encode (author k) topic with
  | .ok bytes => bytes
  | .error _ => []

theorem offer_length (k : Nat) : (OfferV1.codec.write (offer k)).length = 38 := by
  have hname : (postcard.Codec.string.write "a").length = 2 := by decide
  simp only [OfferV1.codec, BlobHash.codec, postcard.Codec.imap_write_length,
    postcard.Codec.pair_write_length, postcard.Codec.fixed_write_length]
  change 32 + ((postcard.Codec.string.write "a").length + _) = 38
  rw [hname]
  rfl

theorem encodes (k : Nat) : (said k).message.encode (author k) topic = .ok (frame k) := by
  have hencodes : ∃ bytes, (said k).message.encode (author k) topic = .ok bytes := by
    refine ⟨_, MessageV1.encode_eq_ok.mpr ⟨rfl, ?_⟩⟩
    have hm := (said k).message.write_length
    have h₁ := postcard.Codec.u16_write_length_le (said k).message.version
    have h₂ := postcard.Codec.u64_write_length_le (said k).message.sent_at_ms
    have h₃ := postcard.Codec.u16_write_length_le (said k).message.body.kind
    have h₄ : (said k).message.body.payload.length = 38 := offer_length k
    have h₅ := postcard.writeVarint_length_le 10 (said k).message.body.payload.length
    have h₆ := postcard.writeVarint_length_le 10 (MessageV1.codec.write (said k).message).length
    rw [sign_frame_write_length, MAX_MESSAGE_SIZE]
    unfold postcard.varintLen at *
    omega
  obtain ⟨bytes, hbytes⟩ := hencodes
  rw [frame, hbytes]

theorem plain (k : Nat) : Plain topic (frame k) (said k) := by
  refine ⟨?_, .Offer (offer k), rfl, rfl⟩
  rw [MessageV1.decode_encode Crypto.clear_signatures_verify rfl (encodes k)]
  refine MessageV1.check_body_receivable rfl ?_ _
  have hname : validate_name "a" = .ok () := by decide
  rw [offer_receivable_iff hname]
  refine ⟨Nat.zero_le _, fun e he => (by cases he), ?_⟩
  rw [offer_length]
  decide

theorem author_inj {k k' : Nat} (hk : k < 65536) (hk' : k' < 65536)
    (h : (said k).key = (said k').key) : k = k' := by
  have hauthor := congrArg (fun key => key.1.as_bytes) h
  exact @unoffered_hashes.numbered_inj k k' 30 hk hk' hauthor

def member : Session :=
  .new ⟨.fill 32 1⟩ {} PolicyDecider topic (.nodeless topic.as_bytes none) none (fun _ => .NotFound)

/-- A history of one offer of each of these authors. -/
def before (ks : List Nat) : List Step := [.restore_history (ks.map (fun k => (frame k, k)))]

theorem author_of_offered {a : EndpointId} {j : Nat} {x : BlobHash}
    (h : offered_by a (said j) = some x) : (said j).author = a := by
  change (if (said j).author = a then some (offer j).blob_hash else none) = some x at h
  by_cases hauthor : (said j).author = a
  · exact hauthor
  · rw [if_neg hauthor] at h
    cases h

theorem within_quotas (ks : List Nat) : WithinQuotas (ks.map said) := by
  intro a
  have hone : (((ks.map said).filterMap (offered_by a)).toFinset).card ≤ 1 := by
    rw [Finset.card_le_one]
    have hsame : ∀ x ∈ ((ks.map said).filterMap (offered_by a)).toFinset,
        x = ⟨a.as_bytes⟩ := by
      intro x hx
      obtain ⟨v, hv, hoffered⟩ := List.mem_filterMap.mp (List.mem_toFinset.mp hx)
      obtain ⟨k, -, rfl⟩ := List.mem_map.mp hv
      have hauthor := author_of_offered hoffered
      change (if (said k).author = a then some (offer k).blob_hash else none) = some x at hoffered
      rw [if_pos hauthor] at hoffered
      rw [← Option.some.inj hoffered, ← hauthor]
      rfl
    intro x hx y hy
    rw [hsame x hx, hsame y hy]
  exact hone.trans (by decide)

theorem no_repeat {ks : List Nat} (hn : ks.Nodup) (hlt : ∀ k ∈ ks, k < 65536) :
    NoRepeat (ks.map frame) := by
  unfold NoRepeat
  rw [List.pairwise_map]
  refine List.Pairwise.imp_of_mem ?_ hn
  intro k k' hk hk' hne key hkey hkey'
  have hown := hkey.unique (decode_names (plain k).1)
  have hown' := hkey'.unique (decode_names (plain k').1)
  exact hne (author_inj (hlt k hk) (hlt k' hk') (hown.symm.trans hown'))

/-- The restored drop: its table has these offers, and its cache these messages. -/
theorem restored {ks : List Nat} (hn : ks.Nodup) (hlt : ∀ k ∈ ks, k < 65536)
    (hlen : ks.length ≤ MAX_OFFERS) : ∃ state, member.run (before ks) = { member with state } ∧
    Accounted (ks.map said) state ∧
    (∀ hash, hash ∈ state.offers ↔ ∃ k ∈ ks, hash = (offer k).blob_hash) ∧
    ∀ key ∈ state.seen_messages.entries, ∃ k ∈ ks, key = (said k).key := by
  have hplain : List.Forall₂ (fun f verified => Plain topic f.1 verified)
      (ks.map (fun k => (frame k, k))) (ks.map said) := by
    rw [List.forall₂_map_left_iff, List.forall₂_map_right_iff, List.forall₂_same]
    exact fun k _ => plain k
  have hframes : (ks.map (fun k => (frame k, k))).map Prod.fst = ks.map frame := by
    simp only [List.map_map, Function.comp_def]
  have hempty : Accounted (ks.map said) member.state :=
    fun a => ⟨∅, by simp, by simp, Nat.zero_le _⟩
  have hnone : HashMap.len member.state.offers = 0 := rfl
  obtain ⟨state, hstate, hacc, hoffers, hkeys⟩ := restore_history_offers (s := member)
    (within_quotas ks) hplain (fun _ h => h) rfl hempty (by rw [hframes]; exact no_repeat hn hlt)
    (fun f _ key _ hmem => by cases hmem) (by rw [List.length_map, hnone]; omega)
  refine ⟨state, hstate, hacc, fun hash => ?_, fun key hkey => ?_⟩
  · rw [hoffers]
    simp only [List.mem_filterMap, List.mem_map]
    constructor
    · rintro (hold | ⟨v, ⟨k, hk, rfl⟩, hoffered⟩)
      · cases hold
      · exact ⟨k, hk, (Option.some.inj hoffered).symm⟩
    · rintro ⟨k, hk, rfl⟩
      exact .inr ⟨said k, ⟨k, hk, rfl⟩, rfl⟩
  · rcases hkeys key hkey with hold | ⟨v, hv, rfl⟩
    · cases hold
    · obtain ⟨k, hk, rfl⟩ := List.mem_map.mp hv
      exact ⟨k, hk, rfl⟩

/-- One more offer, of one more author. -/
def late (k : Nat) : Step :=
  .received (frame k) (author k).public
    { draw := { now := k, sent_at_ms := 0, id := .fill 16 0, nonce := .fill 24 0
                carried := .ok () }
      announced_at_ms := 0 }

/-- Two offers, and one that comes after they were listed. -/
theorem two_offers_keep_their_numbers :
    runs.Meets Session.step (Session.Steady (member.run (before [1, 2])).offers)
        (member.run (before [1, 2])) [late 3] ∧
      ∀ past, past <+: [late 3] →
        Session.KeepsNumbers (member.run (before [1, 2])).inventory
            ((member.run (before [1, 2])).run past) ∧
          (((member.run (before [1, 2])).run past).state.offers =
              (member.run (before [1, 2])).state.offers →
            ((member.run (before [1, 2])).run past).inventory =
              (member.run (before [1, 2])).inventory) := by
  have hsteady : runs.Meets Session.step (Session.Steady (member.run (before [1, 2])).offers)
      (member.run (before [1, 2])) [late 3] := by
    decide +kernel
  exact ⟨hsteady, numbers_keep_their_meaning ⟨.fill 32 1⟩ {} PolicyDecider topic
    (.nodeless topic.as_bytes none) none (fun _ => .NotFound) (before [1, 2]) [late 3] rfl
    ⟨_, .refl _, rfl⟩ (by decide +kernel) hsteady⟩

theorem offer_inj {k k' : Nat} (hk : k < 65536) (hk' : k' < 65536)
    (h : (offer k).blob_hash = (offer k').blob_hash) : k = k' :=
  @unoffered_hashes.numbered_inj k k' 30 hk hk' (congrArg BlobHash.as_bytes h)

/-- A full drop that hears one more offer does not keep its numbers. -/
theorem late_offer_moves {ks : List Nat} (hn : ks.Nodup) (hlen : ks.length = MAX_OFFERS) {k : Nat}
    (hlt : ∀ j ∈ k :: ks, j < 65536) (hk : k ∉ ks)
    (hadmits : member.admits (author k).public k = true) :
    ¬ ((member.run (before ks)).run [late k]).KeepsNumbers (member.run (before ks)).inventory := by
  have hks : ∀ j ∈ ks, j < 65536 := fun j hj => hlt j (List.mem_cons_of_mem _ hj)
  have hk' := hlt k List.mem_cons_self
  have hkeyed : Keyed member.state := fun x record hlookup => by cases hlookup
  have hinv := runs.invariant Session.step_keyed ⟨tableKept_new member.self_id, hkeyed⟩ (before ks)
  change TableKept (member.run (before ks)).state ∧ Keyed (member.run (before ks)).state at hinv
  have hinv' := runs.invariant Session.step_keyed hinv [late k]
  obtain ⟨state, hstate, hacc, hoffers, hkeys⟩ := restored hn hks hlen.le
  rw [hstate] at hinv hinv' ⊢
  have hnew : (offer k).blob_hash ∉ state.offers := by
    intro hmem
    obtain ⟨j, hj, hsame⟩ := (hoffers _).mp hmem
    exact hk (offer_inj hk' (hks j hj) hsame ▸ hj)
  have hfull : MAX_OFFERS ≤ HashMap.len state.offers := by
    have hsub : ks.map (fun j => (offer j).blob_hash) ⊆ state.offers.keys := by
      intro hash hmem
      obtain ⟨j, hj, rfl⟩ := List.mem_map.mp hmem
      exact AList.mem_keys.mp ((hoffers _).mpr ⟨j, hj, rfl⟩)
    have hnodup : (ks.map (fun j => (offer j).blob_hash)).Nodup :=
      List.Nodup.map_on (fun i hi j hj h => offer_inj (hks i hi) (hks j hj) h) hn
    have hle := (hnodup.subperm hsub).length_le
    rw [List.length_map, hlen] at hle
    exact hle
  refine Session.numbers_move hinv.2 hinv'.2 hinv'.1 hfull hnew ?_
  have hread : Session.decode_for_session member.toSessionConfig (frame k) = .ok (said k) :=
    (plain k).1
  have hfresh : state.is_fresh (said k).key k = true := by
    apply state.is_fresh_of_not_mem
    intro hmem
    obtain ⟨j, hj, hsame⟩ := hkeys _ hmem
    exact hk (author_inj hk' (hks j hj) hsame ▸ hj)
  have hquota : state.author_has_quota (said k).author := by
    obtain ⟨hashes, hsub, -, hcount⟩ := hacc (said k).author
    have hempty : hashes = ∅ := by
      rw [Finset.eq_empty_iff_forall_notMem]
      intro x hx
      obtain ⟨v, hv, hoffered⟩ := List.mem_filterMap.mp (List.mem_toFinset.mp (hsub hx))
      obtain ⟨j, hj, rfl⟩ := List.mem_map.mp hv
      have hauthor := author_of_offered hoffered
      exact hk (author_inj hk' (hks j hj) (Prod.ext hauthor.symm rfl) ▸ hj)
    rw [hempty] at hcount
    exact hcount.trans_lt (by decide)
  have haccept : ∀ context reason, member.decider (offer k) context ≠ .Reject reason := by
    intro context reason
    change PolicyDecider (offer k) context ≠ _
    unfold PolicyDecider
    split <;> simp
  exact Session.receive_lists hinv.1 hread rfl hadmits hfresh haccept hquota

/-- The listing of a full drop, and one late offer. -/
theorem a_late_offer_moves_the_numbers :
    ¬ ∀ [Crypto] [Crates] (secret : SecretKey) (policy : DropPolicy) (decider : OfferDecider)
      (topic_id : TopicId) (ticket : DropTicket) (drop_key : Option DropKey)
      (store : BlobHash → BlobStatus) (before after_ : List Step),
      Session.KeepsNumbers
        ((Session.new secret policy decider topic_id ticket drop_key store).run before).inventory
        (((Session.new secret policy decider topic_id ticket drop_key store).run before).run
          after_) := by
  intro h
  have hmax : MAX_OFFERS < 65536 := by decide
  refine late_offer_moves (List.nodup_range (n := MAX_OFFERS)) List.length_range ?_
    List.not_mem_range_self (by decide +kernel) ?_
  · intro j hj
    rcases List.mem_cons.mp hj with rfl | hj
    · exact hmax
    · exact (List.mem_range.mp hj).trans hmax
  · exact h ⟨.fill 32 1⟩ {} PolicyDecider topic (.nodeless topic.as_bytes none) none
      (fun _ => .NotFound) (before (List.range MAX_OFFERS)) [late MAX_OFFERS]

end crowded_drop

end iroh_drop
