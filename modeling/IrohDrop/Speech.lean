-- What a session says. Every frame that a call of the user or a fetch hands
-- to the carrier is in the family of the session. The automatic reply to a
-- request is the one frame that is not.
import IrohDrop.Moves

open rust_std postcard

namespace iroh_drop

section Laws

variable [Crypto]

/-! ## Frames in the family of the session -/

/-- A frame that the session encoded in its own family. -/
def InFamily (c : SessionConfig) (frame : Bytes) : Prop :=
  ∃ msg nonce, Session.encode_for_session c msg nonce = .ok frame

/-- A family-4 frame: `encode_sealed` built it under the drop key. -/
def IsSealed (c : SessionConfig) (frame : Bytes) : Prop :=
  ∃ key msg nonce, c.drop_key = some key ∧
    MessageV1.encode_sealed msg c.secret key c.topic_id nonce = .ok frame

theorem inFamily_iff_isSealed {c : SessionConfig} (hm : c.mode = .Sealed) (frame : Bytes) :
    InFamily c frame ↔ IsSealed c frame := by
  unfold InFamily IsSealed Session.encode_for_session
  rw [hm]
  rcases hk : c.drop_key with _ | key
  · simp
  · simp

/-- The envelope of a frame on the wire, as any receiver reads it. -/
theorem read_envelope {domain : Bytes} {secret : SecretKey} {topic : TopicId} {m : MessageV1}
    (h : (SignedMessageV1.codec.write (sign_frame domain secret topic
      (MessageV1.codec.write m))).length ≤ MAX_MESSAGE_SIZE) :
    take_from_bytes SignedMessageV1.codec "frame" (SignedMessageV1.codec.write
        (sign_frame domain secret topic (MessageV1.codec.write m))) =
      .ok (sign_frame domain secret topic (MessageV1.codec.write m)) ∧
    take_from_bytes MessageV1.codec "envelope" (MessageV1.codec.write m) = .ok m := by
  rw [sign_frame_write_length, MAX_MESSAGE_SIZE] at h
  have hm := m.write_length
  exact ⟨read_sign_frame _ _ _ _ (by omega), m.read_write (by omega)⟩

/-- A sealed frame reads back as an envelope of the sealed version and kind,
whose body is a nonce and what was encrypted under the drop key. -/
theorem IsSealed.envelope {c : SessionConfig} {frame : Bytes} (h : IsSealed c frame) :
    ∃ key outer m nonce ciphertext, c.drop_key = some key ∧
      take_from_bytes SignedMessageV1.codec "frame" frame = .ok outer ∧
      take_from_bytes MessageV1.codec "envelope" outer.payload =
        .ok (sealed_envelope m (nonce.bytes ++ ciphertext)) ∧
      Crypto.encrypt (key.aead_key c.topic_id) nonce (seal_aad outer.author m.id)
        (BodyEnvelopeV1.codec.write m.body) = some ciphertext := by
  obtain ⟨key, m, nonce, hk, henc⟩ := h
  obtain ⟨-, ciphertext, hcipher, rfl, hlen⟩ := MessageV1.encode_sealed_eq_ok.mp henc
  obtain ⟨hframe, henvelope⟩ := read_envelope hlen
  exact ⟨key, _, m, nonce, ciphertext, hk, hframe, henvelope, hcipher⟩

/-- A plain frame of the current version is no sealed frame. -/
theorem plain_not_sealed {c : SessionConfig} {m : MessageV1} {frame : Bytes}
    (hv : m.version = WIRE_VERSION) (h : m.encode c.secret c.topic_id = .ok frame) :
    ¬ IsSealed c frame := by
  intro hs
  obtain ⟨rfl, hlen⟩ := MessageV1.encode_eq_ok.mp h
  obtain ⟨hframe, henvelope⟩ := read_envelope hlen
  obtain ⟨key, outer, m', nonce, ciphertext, -, houter, henv, -⟩ := hs.envelope
  rw [hframe] at houter
  cases houter
  rw [show (sign_frame SIGN_DOMAIN c.secret c.topic_id (MessageV1.codec.write m)).payload =
    MessageV1.codec.write m from rfl, henvelope] at henv
  cases henv
  cases hv

/-! ## What a step adds -/

/-- From `a` to `b` the session keeps its configuration, and says only what
is in its family. -/
structure Speaks (a b : Session) : Prop where
  config : b.toSessionConfig = a.toSessionConfig
  sent : ∃ said, b.sent = a.sent ++ said ∧ ∀ f ∈ said, InFamily a.toSessionConfig f

namespace Speaks

theorem silent {a b : Session} (hc : b.toSessionConfig = a.toSessionConfig)
    (hs : b.sent = a.sent) : Speaks a b :=
  ⟨hc, [], by simp [hs], by simp⟩

theorem refl (a : Session) : Speaks a a := silent rfl rfl

theorem trans {a b c : Session} (hab : Speaks a b) (hbc : Speaks b c) : Speaks a c := by
  obtain ⟨said, hsaid, hfam⟩ := hab.sent
  obtain ⟨more, hmore, hfam'⟩ := hbc.sent
  refine ⟨hbc.config.trans hab.config, said ++ more, by rw [hmore, hsaid, List.append_assoc], ?_⟩
  intro f hf
  rcases List.mem_append.mp hf with hf | hf
  · exact hfam f hf
  · exact hab.config ▸ hfam' f hf

theorem of_quiet {a b : Session} (h : Quiet a b) : Speaks a b := silent h.config h.sent

theorem of_broadcast_signed (s : Session) (msg : MessageV1) (retain : Retain) (draw : Draw) :
    Speaks s (s.broadcast_signed msg retain draw).2 := by
  unfold Session.broadcast_signed
  rcases h : Session.encode_for_session s.toSessionConfig msg draw.nonce with e | bytes
  · exact refl s
  · refine ⟨rfl, [bytes], rfl, ?_⟩
    intro f hf
    rw [List.mem_singleton.mp hf]
    exact ⟨msg, draw.nonce, h⟩

theorem of_spoken {ids : List (FixedBytes 16)} {a b : Session} (h : Says a ids b) :
    Speaks a b := by
  induction h with
  | refl => exact refl a
  | quiet _ hq ih => exact ih.trans (of_quiet hq)
  | fewer _ _ ih => exact ih
  | said msg retain draw _ ih => exact ih.trans (of_broadcast_signed _ msg retain draw)

theorem of_restore_frame (s : Session) (frame : Bytes) (now : Instant) :
    Speaks s (s.restore_frame frame now).2 := by
  have h := s.restored frame now
  generalize (s.restore_frame frame now).2 = s₁ at *
  cases h with
  | skipped => exact refl s
  | noted _ _ config sent => exact silent config sent
  | kept _ _ _ _ config sent => exact silent config sent

theorem of_restore_history (s : Session) (frames : List (Bytes × Instant)) :
    Speaks s (s.restore_history frames).2 := by
  induction frames generalizing s with
  | nil => exact refl s
  | cons frame frames ih =>
    rw [Session.restore_history_cons]
    exact (of_restore_frame s frame.1 frame.2).trans (ih _)

theorem of_fetch_event (s : Session) (i : Nat) (event : FetchEvent) :
    Speaks s (s.fetch_event i event) := by
  obtain ⟨s₁, hspoke, hconfig, hsent, -⟩ := s.fetch_event_spoke i event
  exact (of_spoken hspoke).trans (silent hconfig hsent)

end Speaks

/-! ## The answer to a request -/

/-- The step brings in a request that the session answers. -/
def Answers (s : Session) (i : Step) : Prop :=
  ∃ frame peer world verified request, i.intake = some (frame, peer, world) ∧
    Session.decode_for_session s.toSessionConfig frame = .ok verified ∧
    verified.body = some (.Request request) ∧
    s.admits peer world.draw.now = true ∧ s.state.is_fresh verified.key world.draw.now = true ∧
    s.AnswersRequest request.blob_hash peer world.draw.now

/-- A frame that `encode` built: family 3, readable by anyone. -/
def IsPlain (c : SessionConfig) (frame : Bytes) : Prop :=
  ∃ msg, msg.version = WIRE_VERSION ∧ MessageV1.encode msg c.secret c.topic_id = .ok frame

/-- A provider assertion always fits the wire. -/
theorem encode_provider_ok (provider : ProviderV1) (id : FixedBytes 16) (ms : UInt64)
    (secret : SecretKey) (topic : TopicId) :
    ∃ frame, (MessageV1.new (.Provider provider) id ms).encode secret topic = .ok frame := by
  refine ⟨_, MessageV1.encode_eq_ok.mpr ⟨rfl, ?_⟩⟩
  have hm := (MessageV1.new (.Provider provider) id ms).write_length
  have h₁ := Codec.u16_write_length_le (MessageV1.new (.Provider provider) id ms).version
  have h₂ := Codec.u64_write_length_le (MessageV1.new (.Provider provider) id ms).sent_at_ms
  have h₃ := Codec.u16_write_length_le (MessageV1.new (.Provider provider) id ms).body.kind
  have h₄ : (MessageV1.new (.Provider provider) id ms).body.payload.length ≤ 44 :=
    provider.write_length_le
  have h₅ := writeVarint_length_le 10 (MessageV1.new (.Provider provider) id ms).body.payload.length
  have h₆ := writeVarint_length_le 10
    (MessageV1.codec.write (MessageV1.new (.Provider provider) id ms)).length
  rw [sign_frame_write_length, MAX_MESSAGE_SIZE]
  unfold varintLen at *
  omega

/-- The reply is one plain frame. -/
theorem reply_available_sent (s : Session) (hash : BlobHash) (world : IntakeWorld) :
    ∃ frame, (s.reply_available hash world).sent = s.sent ++ [frame] ∧
      IsPlain s.toSessionConfig frame ∧
      (s.reply_available hash world).toSessionConfig = s.toSessionConfig := by
  obtain ⟨frame, hframe⟩ := encode_provider_ok ⟨hash, .Available, some world.announced_at_ms⟩
    world.draw.id world.draw.sent_at_ms s.secret s.topic_id
  have heq : s.reply_available hash world = (s.transmit frame world.draw).2 := by
    unfold Session.reply_available
    simp only [hframe]
  exact ⟨frame, by rw [heq]; rfl, ⟨_, rfl, hframe⟩, by rw [heq]; rfl⟩

/-- A blind relay sees no body. -/
theorem verify_sealed_outer_body {bytes : Bytes} {topic : TopicId} {verified : VerifiedMessage}
    (h : MessageV1.verify_sealed_outer bytes topic = .ok verified) : verified.body = none := by
  simp only [MessageV1.verify_sealed_outer, MessageV1.verify_outer, MessageV1.verify_input,
    bind_eq_ok, pure, Except.pure, Except.ok.injEq] at h
  obtain ⟨-, -, -, -, v, ⟨-, -, -, -, -, -, -, -, -, -, rfl⟩, -, -, -, -, -, -, rfl⟩ := h
  rfl

theorem step_of_intake {s : Session} {i : Step} {frame : Bytes} {peer : EndpointId}
    {world : IntakeWorld} {verified : VerifiedMessage} {body : MessageBodyV1}
    (hi : i.intake = some (frame, peer, world))
    (hd : Session.decode_for_session s.toSessionConfig frame = .ok verified)
    (hb : verified.body = some body) :
    s.step i = s.handle_message verified peer frame world := by
  cases i with
  | received =>
    cases hi
    simp only [Session.step, Session.receive, hd]
  | replayed =>
    cases hi
    have hmember : ¬(s.mode = .Sealed ∧ s.drop_key = none) := by
      rintro ⟨hm, hk⟩
      unfold Session.decode_for_session at hd
      rw [hm, hk] at hd
      rw [verify_sealed_outer_body hd] at hb
      cases hb
    simp only [Session.step, Session.replay, if_neg hmember, hd]
  | _ => cases hi

/-- A step that answers a request says a plain frame. -/
theorem step_answers {s : Session} {i : Step} (h : Answers s i) :
    ∃ frame, (s.step i).sent = s.sent ++ [frame] ∧ IsPlain s.toSessionConfig frame ∧
      (s.step i).toSessionConfig = s.toSessionConfig := by
  obtain ⟨frame, peer, world, verified, request, hi, hd, hb, ha, hf, hwanted⟩ := h
  rw [step_of_intake hi hd hb, s.handle_message_fresh ha hf]
  have hdispatch := (s.taken verified peer frame world.draw.now).dispatched verified peer world
  generalize (s.taken verified peer frame world.draw.now).dispatch verified peer world = s' at *
  cases hdispatch with
  | quietly quiet silent => exact absurd hwanted (silent request hb)
  | reserves offer quiet body =>
    rw [hb] at body
    cases body
  | @answers s₁ request quiet body wanted =>
    obtain ⟨reply, hsent, hplain, hconfig⟩ := reply_available_sent s₁ request.blob_hash world
    refine ⟨reply, by rw [hsent, quiet.sent]; rfl, ?_, hconfig.trans quiet.config⟩
    rw [quiet.config] at hplain
    exact hplain

/-- A step that answers no request says only what is in the family of the
session. -/
theorem step_speaks {s : Session} {i : Step} (h : ¬ Answers s i) : Speaks s (s.step i) := by
  generalize hs' : s.step i = s'
  have hstepped := stepped s i
  rw [hs'] at hstepped
  cases hstepped with
  | spoke spoke => exact .of_spoken spoke
  | restored frames => exact .of_restore_history s frames
  | fetches hash => exact .silent rfl rfl
  | fetched j event => exact .of_fetch_event s j event
  | @took _ frame peer world verified hi hd =>
    rcases ha : s.admits peer world.draw.now with _ | _
    · exact .of_quiet (s.handle_message_limited ha verified frame)
    · rcases hf : s.state.is_fresh verified.key world.draw.now with _ | _
      · obtain ⟨s₁, heq, hconfig, hsent, -⟩ := s.handle_message_known ha hf frame
        rw [heq]
        exact .silent hconfig hsent
      · rw [s.handle_message_fresh ha hf]
        have htaken : Speaks s (s.taken verified peer frame world.draw.now) := .silent rfl rfl
        refine htaken.trans ?_
        have hdispatch :=
          (s.taken verified peer frame world.draw.now).dispatched verified peer world
        generalize (s.taken verified peer frame world.draw.now).dispatch verified peer world = s₁
          at *
        cases hdispatch with
        | quietly quiet => exact .of_quiet quiet
        | reserves offer quiet => exact (Speaks.of_quiet quiet).trans (.silent rfl rfl)
        | answers request quiet body wanted =>
          exact absurd ⟨frame, peer, world, verified, request, hi, hd, body, ha, hf, wanted⟩ h

/-! ## Whole runs -/

/-- Later, the configuration is the same, and what was said stays said. -/
structure Extends (a b : Session) : Prop where
  config : b.toSessionConfig = a.toSessionConfig
  sent : a.sent <+: b.sent

theorem step_extends (s : Session) (i : Step) : Extends s (s.step i) := by
  by_cases h : Answers s i
  · obtain ⟨frame, hsent, -, hconfig⟩ := step_answers h
    exact ⟨hconfig, hsent ▸ List.prefix_append _ _⟩
  · obtain ⟨hconfig, said, hsent, -⟩ := step_speaks h
    exact ⟨hconfig, hsent ▸ List.prefix_append _ _⟩

theorem run_extends (s : Session) (steps : List Step) : Extends s (s.run steps) :=
  runs.relation (fun s => ⟨rfl, List.prefix_refl s.sent⟩)
    (fun _ _ _ hst htu => ⟨htu.config.trans hst.config, hst.sent.trans htu.sent⟩)
    step_extends s steps

/-- No step of the run answers a request. -/
def NeverAnswers (s : Session) (steps : List Step) : Prop :=
  runs.Meets Session.step (fun s i => ¬ Answers s i) s steps

/-- The frames of a sealed session are all sealed just when it answers no
request. -/
theorem run_sealed_iff {s : Session} (hm : s.mode = .Sealed)
    (hs : ∀ f ∈ s.sent, IsSealed s.toSessionConfig f) (steps : List Step) :
    (∀ f ∈ (s.run steps).sent, IsSealed s.toSessionConfig f) ↔ NeverAnswers s steps := by
  induction steps generalizing s with
  | nil => simpa [NeverAnswers, runs.Meets, Session.run] using hs
  | cons i steps ih =>
    by_cases h : Answers s i
    · obtain ⟨frame, hsent, ⟨msg, hv, henc⟩, hconfig⟩ := step_answers h
      have hno : ¬ NeverAnswers s (i :: steps) := fun hn => hn.1 h
      simp only [hno, iff_false]
      intro hall
      have hmem : frame ∈ (s.run (i :: steps)).sent := by
        apply (run_extends (s.step i) steps).sent.subset
        rw [hsent]
        exact List.mem_append_right _ (List.mem_singleton_self frame)
      exact plain_not_sealed hv henc (hall frame hmem)
    · obtain ⟨hconfig, said, hsent, hfam⟩ := step_speaks h
      have hmode : (s.step i).mode = .Sealed := by rw [hconfig]; exact hm
      have hsealed : ∀ f ∈ (s.step i).sent, IsSealed (s.step i).toSessionConfig f := by
        intro f hf
        rw [hconfig]
        rw [hsent] at hf
        rcases List.mem_append.mp hf with hf | hf
        · exact hs f hf
        · exact (inFamily_iff_isSealed hm f).mp (hfam f hf)
      have hrest := ih hmode hsealed
      rw [hconfig] at hrest
      exact hrest.trans ⟨fun hn => ⟨h, hn⟩, And.right⟩

/-- A blind relay decodes no request, so it answers none. -/
theorem relay_never_answers {s : Session} (hm : s.mode = .Sealed) (hk : s.drop_key = none)
    (steps : List Step) : NeverAnswers s steps := by
  induction steps generalizing s with
  | nil => trivial
  | cons i steps ih =>
    have hconfig := (step_extends s i).config
    refine ⟨?_, ih (by rw [hconfig]; exact hm) (by rw [hconfig]; exact hk)⟩
    rintro ⟨frame, peer, world, verified, request, -, hd, hb, -⟩
    unfold Session.decode_for_session at hd
    rw [hm, hk] at hd
    rw [verify_sealed_outer_body hd] at hb
    cases hb

/-! ## A sealed session -/

/-- A session of a sealed ticket says sealed frames only, in each run in
which it answers no request, and in no other run. Without a key it says
nothing at all. -/
theorem sealed_session_speaks_plaintext_only_in_answers (secret : SecretKey) (policy : DropPolicy)
    (decider : OfferDecider) (topic_id : TopicId) (ticket : DropTicket)
    (hm : ticket.mode = .Sealed) (drop_key : Option DropKey) (store : BlobHash → BlobStatus)
    (steps : List Step) :
    let s := Session.new secret policy decider topic_id ticket drop_key store
    ((∀ f ∈ (s.run steps).sent, IsSealed s.toSessionConfig f) ↔ NeverAnswers s steps) ∧
      (drop_key = none → (s.run steps).sent = []) := by
  intro s
  have hiff := run_sealed_iff (s := s) hm (by simp [s, Session.new]) steps
  refine ⟨hiff, ?_⟩
  intro hk
  have hall := hiff.mpr (relay_never_answers hm hk steps)
  rcases hsent : (s.run steps).sent with _ | ⟨f, rest⟩
  · rfl
  · obtain ⟨key, -, -, hkey, -⟩ := hall f (by simp [hsent])
    rw [show s.drop_key = drop_key from rfl, hk] at hkey
    cases hkey

end Laws

/-! ## A request, and its answer in plain text -/

namespace plain_answer

local instance : Crypto := Crypto.clear

def secret : SecretKey := ⟨.fill 32 1⟩
def topic : TopicId := ⟨.fill 32 8⟩
def key : DropKey := ⟨.fill 32 9⟩
def hash : BlobHash := ⟨.fill 32 7⟩

def draw (n : UInt8) : Draw :=
  { now := 0, sent_at_ms := 0, id := .fill 16 n, nonce := .fill 24 0, carried := .ok () }

/-- The ticket of a private drop. -/
def ticket : DropTicket := .nodeless topic.as_bytes (some key)

/-- A member of the drop, who holds every blob. -/
def member : Session :=
  .new secret {} PolicyDecider topic ticket (some key) (fun _ => .Complete 3)

/-- The request of another member, sealed as it should be. -/
def request : Bytes :=
  match MessageV1.encode_sealed (.new (.Request ⟨hash⟩) (.fill 16 3) 0) ⟨.fill 32 2⟩ key topic
    (.fill 24 0) with
  | .ok bytes => bytes
  | .error _ => []

def steps : List Step :=
  [.received request (SecretKey.public ⟨.fill 32 2⟩) { draw := draw 4, announced_at_ms := 0 }]

/-- The envelope of the answer. -/
def answer : MessageV1 := .new (.Provider ⟨hash, .Available, some 0⟩) (.fill 16 4) 0

/-- A member that holds the requested blob answers in plain text. -/
theorem a_sealed_session_answers_in_plaintext :
    ¬ ∀ [Crypto] (secret : SecretKey) (policy : DropPolicy) (decider : OfferDecider)
      (topic_id : TopicId) (ticket : DropTicket) (_ : ticket.mode = .Sealed)
      (drop_key : Option DropKey) (store : BlobHash → BlobStatus) (steps : List Step),
      let s := Session.new secret policy decider topic_id ticket drop_key store
      ∀ f ∈ (s.run steps).sent, IsSealed s.toSessionConfig f := by
  intro h
  have hsent : (member.run steps).sent = [SignedMessageV1.codec.write
      (sign_frame SIGN_DOMAIN secret topic (MessageV1.codec.write answer))] := by decide +kernel
  have hplain : answer.encode secret topic = .ok (SignedMessageV1.codec.write
      (sign_frame SIGN_DOMAIN secret topic (MessageV1.codec.write answer))) :=
    MessageV1.encode_eq_ok.mpr ⟨rfl, by decide +kernel⟩
  have hsealed := h secret {} PolicyDecider topic ticket (by decide +kernel) (some key)
    (fun _ => .Complete 3) steps _ (hsent ▸ List.mem_singleton_self _)
  exact plain_not_sealed (c := member.toSessionConfig) rfl hplain hsealed

/-- The law at work on a member that only sends an extension. -/
theorem sealed_session_speaks_plaintext_only_in_answers_at_member :
    ∃ f ∈ (member.run [.send_extension (.fill 16 0) 1 1 [] (draw 5)]).sent,
      IsSealed member.toSessionConfig f := by
  have hlen : (member.run [.send_extension (.fill 16 0) 1 1 [] (draw 5)]).sent.length = 1 := by
    decide +kernel
  obtain ⟨f, hsent⟩ := List.length_eq_one_iff.mp hlen
  have hf : f ∈ (member.run [.send_extension (.fill 16 0) 1 1 [] (draw 5)]).sent := by
    rw [hsent]
    exact List.mem_singleton_self f
  refine ⟨f, hf, (sealed_session_speaks_plaintext_only_in_answers secret {} PolicyDecider topic
    ticket (by decide +kernel) (some key) (fun _ => .Complete 3)
    [.send_extension (.fill 16 0) 1 1 [] (draw 5)]).1.mpr ⟨?_, trivial⟩ f hf⟩
  rintro ⟨frame, peer, world, verified, request, hi, -⟩
  cases hi

end plain_answer

end iroh_drop
