-- The law of the network: whatever the carrier and the other members do, nobody
-- has an offer or an assertion in the name of an honest member that this member
-- did not send for the drop.
import IrohDrop.Presence
import IrohDrop.ProviderIndex
import IrohDrop.Quotations

open rust_std postcard

namespace iroh_drop

section Laws

variable [Crypto]

/-! ## What a session hears -/

namespace SessionConfig

/-- The session takes the frame for the message: off the wire, or as a frame of
its restored history. -/
def Accepts (self : SessionConfig) (frame : Bytes) (m : VerifiedMessage) : Prop :=
  Session.decode_for_session self frame = .ok m ∨ MessageV1.decode frame self.topic_id = .ok m

/-- What the session offers itself, and what others say in frames that it accepts. -/
def sayings (self : SessionConfig) : Sayings where
  offered author offer := author = self.secret.public ∨
    ∃ frame m, self.Accepts frame m ∧ m.author = author ∧ m.body = some (.Offer offer)
  asserted peer hash announced_at_ms frame_id withdrawn :=
    ∃ frame m provider, self.Accepts frame m ∧ m.author = peer ∧ m.message.id = frame_id ∧
      m.body = some (.Provider provider) ∧ provider.blob_hash = hash ∧
      provider.announced_at_ms.getD 0 = announced_at_ms ∧
      decide (provider.state = .Withdrawing) = withdrawn

end SessionConfig

namespace Session

/-- The tables of the session are of what it offers and hears. -/
structure Quotes (c : SessionConfig) (s : Session) : Prop where
  config : s.toSessionConfig = c
  own : s.state.self_endpoint_id = c.secret.public
  tables : s.state.Quotes c.sayings

/-- The session has no history yet. -/
def Blank (self : Session) : Prop := self.state = .new self.self_id

theorem quotes_blank {s : Session} (h : s.Blank) : s.Quotes s.toSessionConfig := by
  unfold Blank at h
  refine ⟨rfl, ?_, ?_⟩
  · rw [h]
    rfl
  · rw [h]
    exact DropState.quotes_new _ _

variable {c : SessionConfig} {s : Session}

theorem quotes_calls (h : s.Quotes c) {s' : Session} (hconfig : s'.toSessionConfig = s.toSessionConfig)
    {allowed : DropState.Op → Prop} (hallowed : ∀ op, allowed op → op.quotes c.sayings)
    (hcalls : DropState.CallsBy allowed s.state s'.state) : s'.Quotes c := by
  have hkept : ∀ (a : DropState) (op : DropState.Op),
      (a.self_endpoint_id = c.secret.public ∧ a.Quotes c.sayings) → allowed op →
        ((a.perform op).self_endpoint_id = c.secret.public ∧ (a.perform op).Quotes c.sayings) :=
    fun a op ha hop => ⟨(a.perform_self op).trans ha.1,
      DropState.quotes_perform ha.2 (hallowed op hop)⟩
  obtain ⟨hown, htables⟩ := hcalls.keeps hkept ⟨h.own, h.tables⟩
  exact ⟨hconfig.trans h.config, hown, htables⟩

theorem calls_of_ops {allowed : DropState.Op → Prop} (ops : List DropState.Op)
    (hops : ∀ op ∈ ops, allowed op) (a : DropState) :
    DropState.CallsBy allowed a (ops.foldl DropState.perform a) := by
  induction ops generalizing a with
  | nil => exact .refl a
  | cons op ops ih =>
    have hrest : ∀ op ∈ ops, allowed op := fun op hop => hops op (List.mem_cons_of_mem _ hop)
    exact (DropState.CallsBy.one op (hops op (List.mem_cons_self ..))).trans (ih hrest _)

/-- Acting on a message notes down what it says. -/
theorem quotes_dispatch_ops (s : Session) {frame : Bytes} {m : VerifiedMessage}
    (haccepts : c.Accepts frame m) (delivered_from : EndpointId) (now : Instant) :
    ∀ op ∈ s.dispatch_ops m delivered_from now, op.quotes c.sayings := by
  intro op hop
  unfold dispatch_ops at hop
  split at hop
  · rename_i offer hbody
    split at hop
    · cases hop
    · rcases List.mem_cons.mp hop with rfl | hop
      · trivial
      · rw [List.mem_singleton.mp hop]
        exact .inr ⟨frame, m, haccepts, rfl, hbody⟩
  · rename_i provider hbody
    rw [List.mem_singleton.mp hop]
    exact ⟨frame, m, provider, haccepts, rfl, rfl, hbody, rfl, rfl, rfl⟩
  · cases hop

theorem quotes_message_ops (s : Session) {frame : Bytes} {m : VerifiedMessage}
    (haccepts : c.Accepts frame m) (delivered_from : EndpointId) (raw : Bytes) (now : Instant) :
    ∀ op ∈ s.message_ops m delivered_from raw now, op.quotes c.sayings := by
  have hplain : ∀ ops : List DropState.Op, (∀ op ∈ ops, op.notes) →
      ∀ op ∈ ops, op.quotes c.sayings := by
    intro ops hnotes op hop
    have hnote := hnotes op hop
    cases op
    case record_offer_inner => exact hnote.elim
    case assert_provider => exact hnote.elim
    all_goals trivial
  unfold message_ops
  split
  · intro op hop
    cases hop
  · split
    · apply hplain
      simp [DropState.Op.notes]
    · intro op hop
      rcases List.mem_append.mp hop with hop | hop
      · exact hplain _ (notes_message delivered_from m.key now _ raw) op hop
      · exact quotes_dispatch_ops _ haccepts _ _ op hop

theorem calls_quoting_replay (h : s.toSessionConfig = c) (frame : Bytes) (peer : EndpointId)
    (world : IntakeWorld) :
    DropState.CallsBy (DropState.Op.quotes c.sayings) s.state (s.replay frame peer world).state := by
  unfold replay
  split
  · rename_i m hread
    rw [handle_message_state]
    exact calls_of_ops _ (quotes_message_ops s (.inl (h ▸ hread)) _ _ _) _
  · exact .refl _

theorem calls_quoting_restore_frame (h : s.toSessionConfig = c) (frame : Bytes) (now : Instant) :
    DropState.CallsBy (DropState.Op.quotes c.sayings) s.state (s.restore_frame frame now).2.state := by
  rw [restore_frame_state]
  apply calls_of_ops
  intro op hop
  unfold restore_ops at hop
  split at hop
  · cases hop
  · rename_i m hread
    have haccepts : c.Accepts frame m := by
      subst h
      exact .inr hread
    have hbody := decode_body hread
    split at hop
    · rw [List.mem_singleton.mp hop]
      trivial
    · split at hop
      · rename_i offer hoffer
        rw [hbody] at hoffer
        simp only [List.mem_cons, List.not_mem_nil, or_false] at hop
        rcases hop with rfl | rfl | rfl
        · trivial
        · trivial
        · exact .inr ⟨frame, m, haccepts, rfl, Except.ok.inj hoffer⟩
      · rename_i provider hprovider
        rw [hbody] at hprovider
        simp only [List.mem_cons, List.not_mem_nil, or_false] at hop
        rcases hop with rfl | rfl | rfl
        · trivial
        · trivial
        · exact ⟨frame, m, provider, haccepts, rfl, rfl, Except.ok.inj hprovider, rfl, rfl, rfl⟩
      · rw [List.mem_singleton.mp hop]
        trivial

theorem calls_quoting_restore_history (h : s.toSessionConfig = c) (frames : List (Bytes × Instant)) :
    DropState.CallsBy (DropState.Op.quotes c.sayings) s.state (s.restore_history frames).2.state := by
  induction frames generalizing s with
  | nil => exact .refl _
  | cons frame frames ih =>
    have hconfig := (Speaks.of_restore_frame s frame.1 frame.2).config
    exact (calls_quoting_restore_frame h frame.1 frame.2).trans (ih (hconfig.trans h))

/-- Whatever happens to a session, its tables are of what it offers and hears. -/
theorem quotes_step (h : s.Quotes c) (i : Step) : (s.step i).Quotes c := by
  have hconfig := (step_extends s i).config
  have hown (hi : i.is_own) : (s.step i).Quotes c := by
    have howns : s.Owns (fun peer => peer = c.secret.public) (fun _ => True) := by
      refine ⟨?_, h.own, fun _ _ _ => trivial⟩
      rw [← h.config]
      rfl
    refine quotes_calls h hconfig ?_ (calls_own_step howns hi)
    intro op hop
    cases op
    case record_offer_inner => exact .inl hop
    case assert_provider => exact hop.elim
    all_goals trivial
  have hquoting (hcalls : DropState.CallsBy (DropState.Op.quotes c.sayings) s.state
      (s.step i).state) : (s.step i).Quotes c :=
    quotes_calls h hconfig (fun op hop => hop) hcalls
  cases i with
  | received content delivered_from world =>
    apply hquoting
    simp only [step, receive_state]
    exact calls_quoting_replay h.config _ _ _
  | replayed frame peer world =>
    apply hquoting
    simp only [step]
    split
    · exact .refl _
    · exact calls_quoting_replay h.config _ _ _
  | restore_history frames => exact hquoting (calls_quoting_restore_history h.config frames)
  | neighbor_up peer now =>
    refine ⟨hconfig.trans h.config, ?_, ?_⟩
    · simp only [step, neighbor_up_state]
      exact h.own
    · simp only [step, neighbor_up_state]
      exact h.tables.of_tables rfl rfl
  | _ => exact hown trivial

end Session

/-! ## What an author said -/

/-- The session signed this for its drop, and sent it. -/
def Session.Utters (self : Session) (s : Signed) : Prop :=
  s.topic_id = some self.topic_id ∧ ∃ frame ∈ self.sent, s.Made self.secret frame

/-- The session sent the message for its drop, plain or sealed. -/
def Session.Sends (self : Session) (message : MessageV1) : Prop :=
  ∃ frame ∈ self.sent, message.encode self.secret self.topic_id = .ok frame ∨
    ∃ drop_key nonce, message.encode_sealed self.secret drop_key self.topic_id nonce = .ok frame

namespace network

/-- A session under this key sent the message for the topic. -/
def Said (members : List Session) (secret : SecretKey) (topic : TopicId) (message : MessageV1) :
    Prop :=
  ∃ m ∈ members, m.secret = secret ∧ m.topic_id = topic ∧ m.Sends message

variable {members : List Session} {secret : SecretKey} {signed : List Signed}

theorem said_of_signs (hown : ∀ s ∈ signed, ∃ m ∈ members, m.secret = secret ∧ m.Utters s)
    {c : SessionConfig} {message : MessageV1} (h : c.Signs signed message) :
    Said members secret c.topic_id message := by
  unfold SessionConfig.Signs at h
  split at h
  · obtain ⟨nonce, ciphertext, hmem⟩ := h
    obtain ⟨m, hm, hsecret, htopic, frame, hframe, hmade, -⟩ := hown _ hmem
    have htopic : c.topic_id = m.topic_id := Option.some.inj htopic
    rw [htopic] at hmade
    exact ⟨m, hm, hsecret, htopic.symm, frame, hframe, .inr ⟨_, nonce, hmade⟩⟩
  · exact h.elim
  · obtain ⟨m, hm, hsecret, htopic, frame, hframe, hmade⟩ := hown _ h
    have htopic : c.topic_id = m.topic_id := Option.some.inj htopic
    have hmade : message.encode m.secret c.topic_id = .ok frame := hmade
    rw [htopic] at hmade
    exact ⟨m, hm, hsecret, htopic.symm, frame, hframe, .inl hmade⟩

/-- What a session accepts in the name of an honest author, the author sent. -/
theorem said_of_accepts {made : List SealCall} (hsigs : IdealSignatures secret signed)
    (hseals : IdealSeals made) (hlog : SealsWhatItSigns secret signed made)
    (hown : ∀ s ∈ signed, ∃ m ∈ members, m.secret = secret ∧ m.Utters s) {c : SessionConfig}
    {frame : Bytes} {m : VerifiedMessage} {body : MessageBodyV1} (haccepts : c.Accepts frame m)
    (hauthor : m.author = secret.public) (hbody : m.body = some body) :
    ∃ message, Said members secret c.topic_id message ∧ message.id = m.message.id ∧
      message.body.decode = .ok (some body) := by
  have hread : ∃ c' : SessionConfig, c'.topic_id = c.topic_id ∧
      Session.decode_for_session c' frame = .ok m := by
    rcases haccepts with hread | hread
    · exact ⟨c, rfl, hread⟩
    · exact ⟨{ c with mode := .Public }, rfl, hread⟩
  obtain ⟨c', htopic, hread⟩ := hread
  obtain ⟨message, hsigns, hid, hmessage⟩ :=
    read_was_signed hsigs hseals hlog hread hbody hauthor
  refine ⟨message, htopic ▸ said_of_signs hown hsigns, hid, ?_⟩
  rw [hmessage]
  exact read_body hread hbody

/-! ## Networks -/

/-- Something happens to one of the sessions. What comes in may be any bytes,
from anyone, at any time. -/
structure Turn where
  who : Nat
  step : Step

def step (members : List Session) (turn : Turn) : List Session :=
  members.modify turn.who (fun s => s.step turn.step)

def run (members : List Session) (turns : List Turn) : List Session := runs.run step members turns

omit [Crypto] in
theorem forall_modify {α : Type} {p : α → Prop} {f : α → α} (hf : ∀ x, p x → p (f x)) (k : Nat)
    {l : List α} (h : ∀ x ∈ l, p x) : ∀ x ∈ l.modify k f, p x := by
  induction l generalizing k with
  | nil =>
    intro x hx
    simp at hx
  | cons a l ih =>
    have hrest : ∀ x ∈ l, p x := fun x hx => h x (List.mem_cons_of_mem _ hx)
    cases k with
    | zero =>
      simp only [List.modify_zero_cons, List.forall_mem_cons]
      exact ⟨hf a (h a (List.mem_cons_self ..)), hrest⟩
    | succ k =>
      simp only [List.modify_succ_cons, List.forall_mem_cons]
      exact ⟨h a (List.mem_cons_self ..), ih k hrest⟩

theorem quotes_run {founders : List Session} (hblank : ∀ s ∈ founders, s.Blank)
    (turns : List Turn) : ∀ s ∈ run founders turns, s.Quotes s.toSessionConfig := by
  have hstep : ∀ (members : List Session) (turn : Turn),
      (∀ s ∈ members, s.Quotes s.toSessionConfig) →
        ∀ s ∈ step members turn, s.Quotes s.toSessionConfig := by
    intro members turn h
    refine forall_modify (fun s hs => ?_) turn.who h
    have hquotes := Session.quotes_step hs turn.step
    rwa [← hquotes.config] at hquotes
  exact runs.invariant hstep (fun s hs => Session.quotes_blank (hblank s hs)) turns

end network

/-- In every run of any number of sessions, where the carrier and all others may
bring in any bytes, reordered, repeated, delayed or made up: a record that
another session holds in the name of an honest author is of an offer that this
author sent for the drop, each assertion that counts as the author's is the
author's, to the time, the id and whether it withdraws, and nobody takes the
author for withdrawn otherwise, or for the first to offer what it did not. -/
theorem nobody_is_misquoted (founders : List Session) (hblank : ∀ s ∈ founders, s.Blank)
    (turns : List network.Turn) (secret : SecretKey) (signed : List Signed) (made : List SealCall)
    (hsigs : IdealSignatures secret signed) (hseals : IdealSeals made)
    (hlog : SealsWhatItSigns secret signed made)
    (hown : ∀ s ∈ signed, ∃ m ∈ network.run founders turns, m.secret = secret ∧ m.Utters s) :
    let members := network.run founders turns
    ∀ reader ∈ members, reader.self_id ≠ secret.public →
      (∀ hash record, reader.state.offers.lookup hash = some record →
        record.first_seen_from = secret.public →
          record.offer.blob_hash = hash ∧ ∃ message,
            network.Said members secret reader.topic_id message ∧
              message.body.decode = .ok (some (.Offer record.offer))) ∧
      (∀ hash set, reader.state.providers.lookup hash = some set →
        (∀ info, set.providers.lookup secret.public = some info →
          (info.withdrawn = true → info.announced = true) ∧
          (info.announced = true → ∃ message provider,
            network.Said members secret reader.topic_id message ∧
              message.body.decode = .ok (some (.Provider provider)) ∧
              message.id = info.last_frame_id ∧ provider.blob_hash = hash ∧
              provider.announced_at_ms.getD 0 = info.announced_at_ms ∧
              decide (provider.state = .Withdrawing) = info.withdrawn)) ∧
        (set.original = some secret.public → ∃ message offer,
          network.Said members secret reader.topic_id message ∧
            message.body.decode = .ok (some (.Offer offer)) ∧ offer.blob_hash = hash)) := by
  intro members reader hreader hother
  have htables := (network.quotes_run hblank turns reader hreader).tables
  have hsaid : ∀ {offer : OfferV1}, reader.sayings.offered secret.public offer →
      ∃ message, network.Said members secret reader.topic_id message ∧
        message.body.decode = .ok (some (.Offer offer)) := by
    rintro offer (hself | ⟨frame, m, haccepts, hauthor, hbody⟩)
    · exact absurd hself.symm hother
    · obtain ⟨message, hmessage, -, hdecode⟩ :=
        network.said_of_accepts hsigs hseals hlog hown haccepts hauthor hbody
      exact ⟨message, hmessage, hdecode⟩
  refine ⟨?_, ?_⟩
  · intro hash record hrecord hfrom
    obtain ⟨hhash, hoffered⟩ := htables.records hash record hrecord
    rw [hfrom] at hoffered
    exact ⟨hhash, hsaid hoffered⟩
  · intro hash set hset
    have hquotes := htables.providers hash set hset
    refine ⟨fun info hinfo => ⟨hquotes.withdrawn _ info hinfo, fun hannounced => ?_⟩, fun hfirst => ?_⟩
    · obtain ⟨frame, m, provider, haccepts, hauthor, hid, hbody, hhash, hms, hstate⟩ :=
        hquotes.asserted _ info hinfo hannounced
      obtain ⟨message, hmessage, hsameid, hdecode⟩ :=
        network.said_of_accepts hsigs hseals hlog hown haccepts hauthor hbody
      exact ⟨message, provider, hmessage, hdecode, hsameid.trans hid, hhash, hms, hstate⟩
    · obtain ⟨offer, hoffered, hhash⟩ := hquotes.original _ hfirst
      obtain ⟨message, hmessage, hdecode⟩ := hsaid hoffered
      exact ⟨message, offer, hmessage, hdecode, hhash⟩

end Laws

/-! ## Two members -/

namespace two_members

def topic : TopicId := ⟨.fill 32 8⟩
def secret : SecretKey := ⟨.fill 32 2⟩
def hash : BlobHash := ⟨.fill 32 7⟩

def draw : Draw :=
  { now := 0, sent_at_ms := 0, id := .fill 16 4, nonce := .fill 24 0
    carried := .error (.Network (.Gossip "the carrier is gone")) }

def import_world : ImportWorld :=
  { imported := .ok hash, guessed := none, tag_set := .ok (), now := 0, created_at_ms := 0
    announced_at_ms := 0, offer_draw := draw, provider_draw := draw }

/-- What the author signed: an offer. -/
def message : MessageV1 :=
  .new (.Offer (Session.import_offer hash "a" 3 none ∅ import_world)) draw.id draw.sent_at_ms

def signed : List Signed := [.encode message topic]

/-- Primitives under which this was signed alone, and nothing was sealed. -/
local instance recorded : Crypto :=
  { Crypto.clear with
    verify := fun key m sig => decide (m = signing_input SIGN_DOMAIN topic
      (MessageV1.codec.write message) ∧ sig.bytes = key.bytes ++ key.bytes)
    decrypt := fun _ _ _ _ => none }

theorem ideal_signatures : IdealSignatures secret signed := by
  constructor
  · intro s hs
    rw [List.mem_singleton.mp hs]
    exact decide_eq_true ⟨rfl, rfl⟩
  · intro m sig h
    exact ⟨_, List.mem_singleton_self _, (of_decide_eq_true h).1.symm⟩
  · intro m m' sig h h'
    exact (of_decide_eq_true h).1.trans (of_decide_eq_true h').1.symm

theorem ideal_seals : IdealSeals [] := by
  constructor
  · intro call hcall
    cases hcall
  · intro key nonce aad ciphertext inner_bytes h
    cases h
  · intro call hcall
    cases hcall
  · intro call hcall
    cases hcall

theorem nothing_sealed : SealsWhatItSigns secret signed [] := by
  intro message' drop_key topic' nonce ciphertext hs
  cases List.mem_singleton.mp hs

def member (secret : SecretKey) : Session :=
  .new secret {} PolicyDecider topic (.nodeless topic.as_bytes none) none (fun _ => .NotFound)

def founders : List Session := [member secret, member ⟨.fill 32 1⟩]

/-- The frame of the offer. -/
def frame : Bytes := (message.encode secret topic).toOption.getD []

def relay : EndpointId := (⟨.fill 32 3⟩ : SecretKey).public

def intake_world : IntakeWorld :=
  { draw := { draw with id := .fill 16 5 }, announced_at_ms := 0 }

/-- The author publishes, and a relay brings the frame to the other member. -/
def turns : List network.Turn :=
  [⟨0, .publish_bytes_with "a" [1, 2, 3] none ∅ import_world⟩,
    ⟨1, .received frame relay intake_world⟩]

/-- The author and the other member, in the end. -/
def author : Session := (member secret).step (.publish_bytes_with "a" [1, 2, 3] none ∅ import_world)
def reader : Session := (member ⟨.fill 32 1⟩).step (.received frame relay intake_world)

theorem members : network.run founders turns = [author, reader] := rfl

theorem sent_what_it_signed : ∀ s ∈ signed, ∃ m ∈ network.run founders turns,
    m.secret = secret ∧ m.Utters s := by
  intro s hs
  have hsecret : author.secret = secret := by decide +kernel
  have htopic : topic = author.topic_id := by decide +kernel
  have hsent : frame ∈ author.sent := by decide +kernel
  have hframe : message.encode secret topic = .ok frame := by decide +kernel
  rw [List.mem_singleton.mp hs, members]
  exact ⟨author, List.mem_cons_self .., hsecret, congrArg some htopic, frame, hsent,
    hsecret ▸ hframe⟩

/-- The other member lists the offer, and the author did send it. -/
theorem the_offer_was_sent : ∃ record, reader.state.offers.lookup hash = some record ∧
    record.first_seen_from = secret.public ∧ ∃ message,
      network.Said (network.run founders turns) secret reader.topic_id message ∧
        message.body.decode = .ok (some (.Offer record.offer)) := by
  have hlisted : (reader.state.offers.lookup hash).map OfferRecord.first_seen_from =
      some secret.public := by decide +kernel
  have hblank : ∀ s ∈ founders, s.Blank := by
    intro s hs
    simp only [founders, List.mem_cons, List.not_mem_nil, or_false] at hs
    rcases hs with rfl | rfl
    · rfl
    · rfl
  have hreader : reader ∈ network.run founders turns := by
    rw [members]
    exact List.mem_cons_of_mem _ (List.mem_cons_self ..)
  have hother : reader.self_id ≠ secret.public := by decide +kernel
  obtain ⟨record, hrecord, hfrom⟩ := Option.map_eq_some_iff.mp hlisted
  have hlaw := nobody_is_misquoted founders hblank turns secret signed [] ideal_signatures
    ideal_seals nothing_sealed sent_what_it_signed reader hreader hother
  exact ⟨record, hrecord, hfrom, (hlaw.1 hash record hrecord hfrom).2⟩

end two_members

end iroh_drop
