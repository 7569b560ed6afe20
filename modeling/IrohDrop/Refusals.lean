-- The law of refusals: what the decider refuses is never shown, in this
-- process or in a later one, just when no restart restores an offer of it.
import IrohDrop.Inventory
import IrohDrop.OfferRuns
import IrohDrop.Restart

open rust_std

namespace iroh_drop

section Laws

variable [Crypto]

/-! ## A session across restarts -/

/-- A session, the history of it that was exported last, and the part of that
history that a restart has yet to replay. -/
structure Life where
  session : Session
  exported : List Bytes
  pending : List Bytes

/-- Whatever happens to the session, an export of its history, the start of a
new process of the same drop with the same decider, and the next frame of the
history there. -/
inductive LifeStep where
  | session (i : Step)
  | export_history
  | restart (secret : SecretKey) (policy : DropPolicy) (ticket : DropTicket)
      (store : BlobHash → BlobStatus)
  | restore (now : Instant)

namespace Life

def step (self : Life) : LifeStep → Life
  | .session i => { self with session := self.session.step i }
  | .export_history => { self with exported := self.session.export_history }
  | .restart secret policy ticket store =>
    { self with
      session := .new secret policy self.session.decider self.session.topic_id ticket
        self.session.drop_key store
      pending := self.exported }
  | .restore now =>
    match self.pending with
    | [] => self
    | frame :: rest =>
      { self with session := (self.session.restore_frame frame now).2, pending := rest }

def run (self : Life) (steps : List LifeStep) : Life := runs.run step self steps

/-- A session that nothing was exported of. -/
def fresh (session : Session) : Life := { session, exported := [], pending := [] }

/-- The hash is refused, and no affair of this peer: the decider rejects each
offer of it that comes in, no call and no fetch is about it, and history comes
from an export only. -/
def Refused (hash : BlobHash) (self : Life) : LifeStep → Prop
  | .session i =>
    ¬ i.names self.session hash ∧ (∀ frames, i ≠ .restore_history frames) ∧
    ∀ frame peer world verified offer, i.intake = some (frame, peer, world) →
      Session.decode_for_session self.session.toSessionConfig frame = .ok verified →
      verified.body = some (.Offer offer) → offer.blob_hash = hash →
      self.session.admits peer world.draw.now = true →
      self.session.state.is_fresh verified.key world.draw.now = true →
      (self.session.taken verified peer frame world.draw.now).rejects verified.author offer peer
  | _ => True

/-- The next frame of the history is no offer of the hash that is restored:
one in a plain frame, not replayed before, whose author has room for it. -/
def Clean (hash : BlobHash) (self : Life) : LifeStep → Prop
  | .restore now => ∀ frame rest verified offer, self.pending = frame :: rest →
      MessageV1.decode frame self.session.topic_id = .ok verified →
      verified.body = some (.Offer offer) → offer.blob_hash = hash →
      self.session.state.is_fresh verified.key now = true →
      ¬ self.session.state.author_has_quota verified.author
  | _ => True

end Life

/-! ## The table -/

namespace DropState

/-- The operation records no offer of the hash. -/
def Op.spares (hash : BlobHash) : Op → Prop
  | .record_offer_inner _ offer _ => offer.blob_hash ≠ hash
  | _ => True

variable {s : DropState}

theorem mem_offer_listed {author : EndpointId} {offer : OfferV1} {now : Instant} {hash : BlobHash} :
    hash ∈ (s.offer_listed author offer now).offers ↔ hash = offer.blob_hash ∨ hash ∈ s.offers :=
  AList.mem_insert s.offers

/-- An offer lists its hash, if it was not there, just when its author has
room, and no other hash. -/
theorem mem_record_offer_inner (hk : TableKept s) {hash : BlobHash} (hout : hash ∉ s.offers)
    (author : EndpointId) (offer : OfferV1) (now : Instant) :
    hash ∈ (s.record_offer_inner author offer now).2.offers ↔
      offer.blob_hash = hash ∧ s.author_has_quota author := by
  have hrecorded := offer_recorded hk author offer now
  generalize s.record_offer_inner author offer now = r at hrecorded
  cases hrecorded with
  | known record old =>
    have hin : offer.blob_hash ∈ s.offers := AList.lookup_isSome.mp (by rw [old]; rfl)
    have hne : offer.blob_hash ≠ hash := fun heq => hout (heq ▸ hin)
    rw [AList.mem_insert]
    exact ⟨fun h => (h.elim (fun heq => hne heq.symm) hout).elim, fun h => absurd h.1 hne⟩
  | refused new spent => exact ⟨fun h => absurd h hout, fun h => absurd h.2 spent⟩
  | listed new quota room =>
    rw [mem_offer_listed]
    exact ⟨fun h => ⟨(h.resolve_right hout).symm, quota⟩, fun h => .inl h.1.symm⟩
  | replaced new quota full oldest rest record order old =>
    have hold : oldest ∈ s.offers := oldest_was_listed hk new full order
    change hash ∈ (s.offer_listed author offer now).offers.erase oldest ↔ _
    rw [AList.mem_erase, mem_offer_listed]
    constructor
    · rintro ⟨-, h⟩
      exact ⟨(h.resolve_right hout).symm, quota⟩
    · rintro ⟨rfl, -⟩
      exact ⟨fun heq => hout (heq ▸ hold), .inl rfl⟩

theorem perform_spares {hash : BlobHash} (h : TableKept s ∧ hash ∉ s.offers) (op : Op)
    (hop : op.spares hash) : TableKept (s.perform op) ∧ hash ∉ (s.perform op).offers := by
  refine ⟨perform_table h.1 op, ?_⟩
  cases op with
  | note_peer peer =>
    obtain ⟨known, order, hnoted⟩ := s.note_peer_tables peer
    simp only [perform, hnoted]
    exact h.2
  | retain r frame =>
    simp only [perform, (s.retain_tables r frame).1]
    exact h.2
  | record_offer_inner author offer now =>
    exact fun hin => hop ((mem_record_offer_inner h.1 h.2 author offer now).mp hin).1
  | set_local_status x status =>
    exact fun hin => h.2 ((HashMap.mem_modify s.offers x hash _).mp hin)
  | _ => exact h.2

end DropState

/-! ## Steps -/

open DropState

namespace Session

variable {s : Session} {hash : BlobHash}

/-- The operations of a message that is refused record no offer of the hash. -/
theorem spares_message_ops {verified : VerifiedMessage} {peer : EndpointId} {frame : Bytes}
    {now : Instant} (hrefused : ∀ offer, verified.body = some (.Offer offer) →
      offer.blob_hash = hash → s.admits peer now = true →
      s.state.is_fresh verified.key now = true →
      (s.taken verified peer frame now).rejects verified.author offer peer)
    {op : Op} (hop : op ∈ s.message_ops verified peer frame now) : op.spares hash := by
  unfold message_ops at hop
  split at hop
  · cases hop
  · rename_i hadmits
    split at hop
    · simp only [List.mem_cons, List.not_mem_nil, or_false] at hop
      rcases hop with rfl | rfl
      · trivial
      · trivial
    · rename_i hfresh
      rcases List.mem_append.mp hop with hop | hop
      · simp only [List.mem_cons, List.not_mem_nil, or_false] at hop
        rcases hop with rfl | rfl | rfl
        · trivial
        · trivial
        · trivial
      · unfold dispatch_ops at hop
        split at hop
        · rename_i offer hbody
          split at hop
          · cases hop
          · rename_i haccepted
            simp only [List.mem_cons, List.not_mem_nil, or_false] at hop
            rcases hop with rfl | rfl
            · trivial
            · intro heq
              exact haccepted (hrefused offer hbody heq (not_not.mp hadmits) (not_not.mp hfresh))
        · simp only [List.mem_cons, List.not_mem_nil, or_false] at hop
          rw [hop]
          trivial
        · cases hop

/-- A message that is refused lists nothing of the hash. -/
theorem unlisted_handle_message (h : TableKept s.state ∧ hash ∉ s.state.offers)
    {verified : VerifiedMessage} {peer : EndpointId} {frame : Bytes} {world : IntakeWorld}
    (hrefused : ∀ offer, verified.body = some (.Offer offer) → offer.blob_hash = hash →
      s.admits peer world.draw.now = true →
      s.state.is_fresh verified.key world.draw.now = true →
      (s.taken verified peer frame world.draw.now).rejects verified.author offer peer) :
    hash ∉ (s.handle_message verified peer frame world).state.offers := by
  rw [handle_message_state]
  have hall : ∀ (ops : List Op), (∀ op ∈ ops, op.spares hash) → ∀ a : DropState,
      TableKept a ∧ hash ∉ a.offers → hash ∉ (ops.foldl perform a).offers := by
    intro ops
    induction ops with
    | nil => exact fun _ a ha => ha.2
    | cons op ops ih =>
      intro hops a ha
      exact ih (fun op hop => hops op (List.mem_cons_of_mem _ hop)) _
        (DropState.perform_spares ha op (hops op List.mem_cons_self))
  exact hall _ (fun op hop => spares_message_ops hrefused hop) _ h

theorem unlisted_step (h : TableKept s.state ∧ hash ∉ s.state.offers) {i : Step}
    (hlocal : ¬ i.names s hash) (hhistory : ∀ frames, i ≠ .restore_history frames)
    (hrefused : ∀ frame peer world verified offer, i.intake = some (frame, peer, world) →
      decode_for_session s.toSessionConfig frame = .ok verified →
      verified.body = some (.Offer offer) → offer.blob_hash = hash →
      s.admits peer world.draw.now = true → s.state.is_fresh verified.key world.draw.now = true →
      (s.taken verified peer frame world.draw.now).rejects verified.author offer peer) :
    hash ∉ (s.step i).state.offers := by
  have hreplay : ∀ frame peer world, i.intake = some (frame, peer, world) →
      hash ∉ (s.replay frame peer world).state.offers := by
    intro frame peer world hi
    unfold replay
    split
    · rename_i verified hread
      exact unlisted_handle_message h fun offer hbody heq hadmits hfresh =>
        hrefused frame peer world verified offer hi hread hbody heq hadmits hfresh
    · exact h.2
  have hown (hi : i.is_own) : hash ∉ (s.step i).state.offers := by
    have howns : s.Owns (fun _ => True) (fun _ => True) := ⟨trivial, trivial, fun _ _ _ => trivial⟩
    have hcalls : CallsBy (Op.listing _ _ fun x => x ≠ hash) s.state (s.step i).state :=
      calls_listing_step howns hi (fun x hx heq => hlocal (heq ▸ hx))
    refine (hcalls.keeps (p := fun a => TableKept a ∧ hash ∉ a.offers) (fun a op ha hop => ?_) h).2
    refine DropState.perform_spares ha op ?_
    have hlisted := hop.2
    cases op with
    | record_offer_inner author offer now => exact hlisted
    | _ => trivial
  cases i with
  | received content delivered_from world =>
    simp only [step, receive_state]
    exact hreplay content delivered_from world rfl
  | replayed frame peer world =>
    simp only [step]
    split
    · exact h.2
    · exact hreplay frame peer world rfl
  | restore_history frames => exact absurd rfl (hhistory frames)
  | neighbor_up peer now =>
    simp only [step, neighbor_up_state]
    exact h.2
  | _ => exact hown trivial

/-- A restored frame lists the hash, if it was not there, just when it is a
plain offer of it that is new and whose author has room. -/
theorem restore_frame_out (h : TableKept s.state ∧ hash ∉ s.state.offers) (frame : Bytes)
    (now : Instant) :
    hash ∈ (s.restore_frame frame now).2.state.offers ↔
      ∃ verified offer, MessageV1.decode frame s.topic_id = .ok verified ∧
        verified.body = some (.Offer offer) ∧ offer.blob_hash = hash ∧
        s.state.is_fresh verified.key now = true ∧
        s.state.author_has_quota verified.author := by
  rw [restore_frame_state]
  unfold restore_ops
  rcases hread : MessageV1.decode frame s.topic_id with e | verified
  · simp only [List.foldl_nil]
    exact ⟨fun hin => absurd hin h.2, fun ⟨_, _, hok, _⟩ => by cases hok⟩
  · have hbody := decode_body hread
    have hspared : ∀ op : Op, op.spares hash → hash ∉ (s.state.perform op).offers :=
      fun op hop => (perform_spares h op hop).2
    simp only [hbody]
    split
    · rename_i hknown
      refine ⟨fun hin => absurd hin (hspared (.check_and_insert verified.key now) trivial), ?_⟩
      rintro ⟨verified', offer, hok, -, -, hfresh, -⟩
      cases hok
      exact absurd hfresh hknown
    · rename_i hfresh
      rcases hoffer : verified.body with _ | (offer | provider | request | ext)
      case some.Offer =>
        simp only [List.foldl_cons, List.foldl_nil]
        have hkept := perform_spares
          (perform_spares h (.check_and_insert verified.key now) trivial) (.retain .Yes frame) trivial
        have hquota : ((s.state.perform (.check_and_insert verified.key now)).perform
            (.retain .Yes frame)).author_has_quota verified.author ↔
            s.state.author_has_quota verified.author := Iff.rfl
        have hlisted := mem_record_offer_inner hkept.1 hkept.2 verified.author offer now
        rw [hquota] at hlisted
        refine hlisted.trans ⟨fun hin => ?_, ?_⟩
        · exact ⟨verified, offer, rfl, hoffer, hin.1, not_not.mp hfresh, hin.2⟩
        · rintro ⟨verified', offer', hok, hbody', heq, -, hroom⟩
          cases hok
          rw [hoffer] at hbody'
          cases hbody'
          exact ⟨heq, hroom⟩
      all_goals
        refine ⟨fun hin => absurd hin ?_, ?_⟩
        · exact hspared (.check_and_insert verified.key now) trivial
        · rintro ⟨verified', offer, hok, hother, -⟩
          cases hok
          rw [hoffer] at hother
          cases hother

end Session

namespace Life

variable {hash : BlobHash}

/-- The table of the session is in order. -/
def Orderly (self : Life) : Prop := TableKept self.session.state ∧ Keyed self.session.state

theorem orderly_step (self : Life) (i : LifeStep) (h : self.Orderly) : (self.step i).Orderly := by
  cases i with
  | session i => exact self.session.step_keyed i h
  | export_history => exact h
  | restart secret policy ticket store =>
    refine ⟨tableKept_new secret.public, fun x record hlookup => ?_⟩
    cases hlookup
  | restore now =>
    simp only [step]
    split
    · exact h
    · rename_i frame rest hpending
      have hstep := self.session.step_keyed (.restore_history [(frame, now)]) h
      exact hstep

/-- A step of a life in which the hash is refused shows it just when it is not
clean. -/
theorem shows_step [Crates] (self : Life) (i : LifeStep) (h : self.Orderly)
    (hout : ¬ self.session.shows hash) (hrefused : self.Refused hash i) :
    ¬ (self.step i).session.shows hash ↔ self.Clean hash i := by
  have hnext := orderly_step self i h
  rw [Session.shows_iff h.2] at hout
  rw [Session.shows_iff hnext.2]
  cases i with
  | session i =>
    obtain ⟨hlocal, hhistory, hrejected⟩ := hrefused
    exact iff_of_true (Session.unlisted_step ⟨h.1, hout⟩ hlocal hhistory hrejected) trivial
  | export_history => exact iff_of_true hout trivial
  | restart secret policy ticket store =>
    refine iff_of_true (fun hin => ?_) trivial
    cases AList.lookup_isSome.mpr hin
  | restore now =>
    simp only [Clean]
    rcases hpending : self.pending with _ | ⟨frame, rest⟩
    · refine iff_of_true ?_ (fun _ _ _ _ hcons => by cases hcons)
      simpa only [step, hpending] using hout
    · have hstep : (self.step (.restore now)).session = (self.session.restore_frame frame now).2 := by
        simp only [step, hpending]
      rw [hstep, Session.restore_frame_out ⟨h.1, hout⟩]
      constructor
      · rintro hnone frame' rest' verified offer hcons hread hbody heq hfresh hroom
        cases hcons
        exact hnone ⟨verified, offer, hread, hbody, heq, hfresh, hroom⟩
      · rintro hclean ⟨verified, offer, hread, hbody, heq, hfresh, hroom⟩
        exact hclean frame rest verified offer rfl hread hbody heq hfresh hroom

end Life

/-- In the life of a session, across restarts, in which the decider refuses
each offer of a hash that comes in, the hash is never shown just when no
restart restores an offer of it. -/
theorem refused_stays_refused_iff [Crates] (secret : SecretKey) (policy : DropPolicy)
    (decider : OfferDecider) (topic_id : TopicId) (ticket : DropTicket)
    (drop_key : Option DropKey) (store : BlobHash → BlobStatus) (hash : BlobHash)
    (steps : List LifeStep)
    (hrefused : runs.Meets Life.step (Life.Refused hash)
      (.fresh (.new secret policy decider topic_id ticket drop_key store)) steps) :
    (∀ past, past <+: steps →
      ¬ ((Life.fresh (.new secret policy decider topic_id ticket drop_key store)).run
        past).session.shows hash) ↔
    runs.Meets Life.step (Life.Clean hash)
      (.fresh (.new secret policy decider topic_id ticket drop_key store)) steps := by
  have hkeyed : Keyed (Session.new secret policy decider topic_id ticket drop_key store).state :=
    fun x record hlookup => by cases hlookup
  have hempty : hash ∉ (Session.new secret policy decider topic_id ticket drop_key
      store).state.offers := fun hin => by cases AList.lookup_isSome.mpr hin
  have hstep : ∀ life i, Life.Orderly life → ¬ life.session.shows hash → _ →
      (¬ (Life.step life i).session.shows hash ↔ Life.Clean hash life i) :=
    fun life i hgood hout hpre => life.shows_step i hgood hout hpre
  refine runs.invariant_iff_meets_of Life.orderly_step hstep
    ⟨tableKept_new secret.public, hkeyed⟩ ?_ hrefused
  exact fun hshown => hempty ((Session.shows_iff hkeyed hash).mp hshown)

end Laws

/-! ## A refused offer that comes back -/

namespace refused_offer

local instance : Crypto := Crypto.clear

local instance : Crates :=
  { hash_of := fun _ => ⟨.fill 32 0⟩, to_vec_pretty := fun _ => .ok []
    from_slice := fun _ => .error "", debug := String.quote }

def topic : TopicId := ⟨.fill 32 8⟩
def key : DropKey := ⟨.fill 32 9⟩
def author : SecretKey := ⟨.fill 32 2⟩
def hash : BlobHash := ⟨.fill 32 7⟩

/-- A decider that takes nothing. -/
def refuses : OfferDecider := fun _ _ => .Reject "not wanted"

/-- A member of the drop, public or private as its key is. -/
def member (drop_key : Option DropKey) : Session :=
  .new ⟨.fill 32 1⟩ {} refuses topic (.nodeless topic.as_bytes drop_key) drop_key
    (fun _ => .NotFound)

def offer : OfferV1 :=
  { blob_hash := hash, name := "a", size := 3, media_type := none, created_at_ms := none
    metadata := ∅ }

/-- The offer of another member, in the family of the drop. -/
def frame (drop_key : Option DropKey) : Bytes :=
  match Session.encode_for_session { (member drop_key).toSessionConfig with secret := author }
    (.new (.Offer offer) (.fill 16 3) 0) (.fill 24 0) with
  | .ok bytes => bytes
  | .error _ => []

def world : IntakeWorld :=
  { draw := { now := 0, sent_at_ms := 0, id := .fill 16 4, nonce := .fill 24 0, carried := .ok () }
    announced_at_ms := 0 }

/-- The offer comes in and is refused, and the member restarts. -/
def steps (drop_key : Option DropKey) : List LifeStep :=
  [.session (.received (frame drop_key) author.public world), .export_history,
    .restart ⟨.fill 32 1⟩ {} (.nodeless topic.as_bytes drop_key) (fun _ => .NotFound), .restore 0]

theorem refused (drop_key : Option DropKey) :
    runs.Meets Life.step (Life.Refused hash) (.fresh (member drop_key)) (steps drop_key) := by
  refine ⟨⟨id, ?_, ?_⟩, trivial, trivial, trivial, trivial⟩
  · intro frames h
    cases h
  · intro _ _ _ _ _ _ _ _ _ _ _
    exact ⟨"not wanted", rfl⟩

/-- The next process of a public drop lists what was refused. -/
theorem a_refused_offer_is_listed :
    ¬ ∀ [Crypto] [Crates] (secret : SecretKey) (policy : DropPolicy) (decider : OfferDecider)
      (topic_id : TopicId) (ticket : DropTicket) (drop_key : Option DropKey)
      (store : BlobHash → BlobStatus) (hash : BlobHash) (steps : List LifeStep),
      runs.Meets Life.step (Life.Refused hash)
        (.fresh (.new secret policy decider topic_id ticket drop_key store)) steps →
      ∀ past, past <+: steps →
        ¬ ((Life.fresh (.new secret policy decider topic_id ticket drop_key store)).run
          past).session.shows hash := by
  intro h
  have hlisted : ((Life.fresh (member none)).run (steps none)).session.offers.map
      (fun record => record.offer.blob_hash) = [hash] := by decide +kernel
  refine h _ _ _ _ _ _ _ hash (steps none) (refused none) (steps none) List.prefix_rfl (.inl ?_)
  have hmem := List.mem_singleton_self hash
  rw [← hlisted] at hmem
  exact List.mem_map.mp hmem

/-- No frame that is left to restore is a plain one. -/
theorem clean_of_sealed {life : Life}
    (h : life.pending.all
      (fun frame => !(MessageV1.decode frame life.session.topic_id).isOk) = true) (now : Instant) :
    life.Clean hash (.restore now) := by
  intro frame rest verified offer hnext hread
  have hsealed := List.all_eq_true.mp h frame (hnext ▸ List.mem_cons_self)
  rw [hread] at hsealed
  cases hsealed

/-- In a private drop nothing is restored, and what was refused stays so. -/
theorem refused_stays_refused_iff_at_member :
    runs.Meets Life.step (Life.Clean hash) (.fresh (member (some key))) (steps (some key)) ∧
      ∀ past, past <+: steps (some key) →
        ¬ ((Life.fresh (member (some key))).run past).session.shows hash := by
  have hclean : runs.Meets Life.step (Life.Clean hash) (.fresh (member (some key)))
      (steps (some key)) := by
    refine ⟨trivial, trivial, trivial, clean_of_sealed ?_ 0, trivial⟩
    decide +kernel
  refine ⟨hclean, ?_⟩
  exact (refused_stays_refused_iff _ _ _ _ _ _ _ hash _ (refused (some key))).mpr hclean

end refused_offer

end iroh_drop
