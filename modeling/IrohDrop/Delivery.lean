-- The law of what a member sends: each frame of a publish or of an extension
-- reads back at the receivers, just when the sender kept limits that it does
-- not check itself.
import IrohDrop.Run

open rust_std postcard

namespace iroh_drop

/-! ## Bodies that read back -/

theorem OfferV1.codec_sized : OfferV1.codec.Sized :=
  Codec.imap_sized (Codec.pair_sized (Codec.imap_sized (Codec.fixed_sized 32) _ _ _)
    (Codec.pair_sized Codec.string_sized (Codec.pair_sized Codec.u64_sized
      (Codec.pair_sized (Codec.option_sized Codec.string_sized)
        (Codec.pair_sized (Codec.option_sized Codec.u64_sized)
          (Codec.map_sized Codec.string_sized Codec.string_sized Codec.string_write_pos))))))
    _ _ _

theorem ProviderV1.codec_fits (provider : ProviderV1) : ProviderV1.codec.fits provider := by
  simp [ProviderV1.codec, BlobHash.codec, ProviderState.codec]

theorem RequestV1.codec_fits (request : RequestV1) : RequestV1.codec.fits request := by
  simp [RequestV1.codec, BlobHash.codec]

theorem ExtensionV1.codec_sized : ExtensionV1.codec.Sized :=
  Codec.imap_sized (Codec.pair_sized (Codec.fixed_sized 16) (Codec.pair_sized Codec.u32_sized
    (Codec.pair_sized Codec.u16_sized Codec.bytes_sized))) _ _ _

/-- The bytes of a body are within what a receiver reads. -/
def MessageBodyV1.within_size (self : MessageBodyV1) : Prop :=
  (BodyEnvelopeV1.encode self).payload.length ≤ MAX_BODY_SIZE

/-- A body within the size reads back, and no other one is read at all. -/
theorem BodyEnvelopeV1.decode_encode {body : MessageBodyV1} (h : body.within_size) :
    (BodyEnvelopeV1.encode body).decode = .ok (some body) := by
  unfold MessageBodyV1.within_size at h
  have hlt : (BodyEnvelopeV1.encode body).payload.length < 2 ^ 64 := by
    have hmax : MAX_BODY_SIZE < 2 ^ 64 := by decide
    omega
  unfold BodyEnvelopeV1.decode
  simp only [ensure, h, if_true]
  cases body with
  | Offer offer =>
    simp only [BodyEnvelopeV1.encode] at hlt
    have hr := take_from_bytes_write OfferV1.codec "offer" [] (OfferV1.codec_sized offer hlt)
    rw [List.append_nil] at hr
    simp only [BodyEnvelopeV1.encode, hr]
    rfl
  | Provider provider =>
    have hr := take_from_bytes_write ProviderV1.codec "provider" [] provider.codec_fits
    rw [List.append_nil] at hr
    simp only [BodyEnvelopeV1.encode, hr]
    rfl
  | Request request =>
    have hr := take_from_bytes_write RequestV1.codec "request" [] request.codec_fits
    rw [List.append_nil] at hr
    simp only [BodyEnvelopeV1.encode, hr]
    rfl
  | Extension ext =>
    simp only [BodyEnvelopeV1.encode] at hlt
    have hr := take_from_bytes_write ExtensionV1.codec "extension" []
      (ExtensionV1.codec_sized ext hlt)
    rw [List.append_nil] at hr
    simp only [BodyEnvelopeV1.encode, hr]
    rfl

/-! ## Limits that the sender does not check -/

/-- What a receiver asks of a body: its size, and the rules of its kind. -/
def MessageBodyV1.receivable (self : MessageBodyV1) : Prop :=
  self.within_size ∧ validate_body self = .ok ()

/-- What the receivers ask of an offer, past its name. -/
structure OfferV1.Deliverable (offer : OfferV1) : Prop where
  entries : offer.metadata.len ≤ MAX_METADATA_ENTRIES
  lengths : ∀ e ∈ offer.metadata.entries, e.1.utf8ByteSize ≤ MAX_METADATA_KEY_LEN ∧
    e.2.utf8ByteSize ≤ MAX_METADATA_VALUE_LEN
  size : (OfferV1.codec.write offer).length ≤ MAX_BODY_SIZE

theorem validate_entry_eq_ok {e : String × String} {u : Unit} :
    validate_entry e = .ok u ↔
      e.1.utf8ByteSize ≤ MAX_METADATA_KEY_LEN ∧ e.2.utf8ByteSize ≤ MAX_METADATA_VALUE_LEN := by
  simp only [validate_entry, bind_eq_ok, ensure_eq_ok, exists_const]

/-- An offer with a good name is receivable just when it is deliverable. -/
theorem offer_receivable_iff {offer : OfferV1} (hname : validate_name offer.name = .ok ()) :
    (MessageBodyV1.Offer offer).receivable ↔ offer.Deliverable := by
  have hbody : validate_body (.Offer offer) = .ok () ↔
      offer.metadata.len ≤ MAX_METADATA_ENTRIES ∧ ∀ e ∈ offer.metadata.entries,
        e.1.utf8ByteSize ≤ MAX_METADATA_KEY_LEN ∧ e.2.utf8ByteSize ≤ MAX_METADATA_VALUE_LEN := by
    simp only [validate_body, bind_eq_ok, hname, ensure_eq_ok, exists_const, check_all_eq_ok,
      validate_entry_eq_ok, true_and]
  unfold MessageBodyV1.receivable
  rw [hbody]
  constructor
  · rintro ⟨hsize, hentries, hlengths⟩
    exact ⟨hentries, hlengths, hsize⟩
  · rintro ⟨hentries, hlengths, hsize⟩
    exact ⟨hsize, hentries, hlengths⟩

theorem provider_receivable (provider : ProviderV1) :
    (MessageBodyV1.Provider provider).receivable := by
  refine ⟨?_, rfl⟩
  have hlen : (BodyEnvelopeV1.encode (.Provider provider)).payload.length ≤ 44 :=
    provider.write_length_le
  have hmax : 44 ≤ MAX_BODY_SIZE := by decide
  exact hlen.trans hmax

/-- The messages of a publish: the offer, and that the blob is served. -/
def published (offer : OfferV1) (world : ImportWorld) : List (MessageBodyV1 × Draw) :=
  [(.Offer offer, world.offer_draw),
    (.Provider ⟨offer.blob_hash, .Available, some world.announced_at_ms⟩, world.provider_draw)]

theorem published_receivable_iff {offer : OfferV1} (hname : validate_name offer.name = .ok ())
    (world : ImportWorld) :
    (∀ m ∈ published offer world, m.1.receivable) ↔ offer.Deliverable := by
  rw [← offer_receivable_iff hname]
  constructor
  · exact fun h => h _ (List.mem_cons_self ..)
  · intro h m hmem
    rcases List.mem_cons.mp hmem with rfl | hmem
    · exact h
    · rcases List.mem_singleton.mp hmem with rfl
      exact provider_receivable _

section Laws

variable [Crypto]

/-! ## Frames that read back -/

/-- The checks that a receiver makes once the signature is verified. -/
def MessageV1.check_body (self : MessageV1) (author : EndpointId) :
    Except ProtocolError VerifiedMessage := do
  ensure (self.body.payload.length ≤ MAX_BODY_SIZE) (.MessageTooLarge self.body.payload.length)
  let body ← self.body.decode
  validate_known body
  return { author, message := self, body }

theorem MessageV1.encode_payload_lt {m : MessageV1} {secret : SecretKey} {topic : TopicId}
    {bytes : Bytes} (h : m.encode secret topic = .ok bytes) :
    (MessageV1.codec.write m).length ≤ MAX_MESSAGE_SIZE ∧
      m.body.payload.length ≤ MAX_MESSAGE_SIZE := by
  obtain ⟨rfl, hl⟩ := MessageV1.encode_eq_ok.mp h
  rw [sign_frame_write_length] at hl
  have hw := m.write_length
  omega

/-- A frame of this build passes a receiver up to the checks of the body. -/
theorem MessageV1.decode_encode (hs : Crypto.SignaturesVerify) {m : MessageV1}
    {secret : SecretKey} {topic : TopicId} {bytes : Bytes} (hv : m.version = WIRE_VERSION)
    (h : m.encode secret topic = .ok bytes) :
    MessageV1.decode bytes topic = m.check_body secret.public := by
  have hsize := MessageV1.encode_payload_lt h
  obtain ⟨rfl, hl⟩ := MessageV1.encode_eq_ok.mp h
  have hmax : MAX_MESSAGE_SIZE < 2 ^ 64 := by decide
  have hframe := read_sign_frame SIGN_DOMAIN secret topic (MessageV1.codec.write m) (by omega)
  have hm := m.read_write (by omega)
  have hauthor : EndpointId.from_bytes secret.public.as_bytes = some secret.public :=
    EndpointId.from_as_bytes _
  have hverify : MessageV1.verify_outer
      (sign_frame SIGN_DOMAIN secret topic (MessageV1.codec.write m)) SIGN_DOMAIN topic =
        .ok { author := secret.public, message := m, body := none } := by
    simp only [MessageV1.verify_outer, MessageV1.verify_input, bind_eq_ok, ensure_eq_ok,
      exists_const, ok_or_eq_ok]
    refine ⟨hsize.1, secret.public, hauthor, Crypto.sign secret _, FixedBytes.ofList?_bytes _,
      hs secret _, m, hm, rfl⟩
  have hdiag : MessageV1.verify_for_topic
      (sign_frame SIGN_DOMAIN secret topic (MessageV1.codec.write m)) topic =
        .ok { author := secret.public, message := m, body := none } := by
    simp only [MessageV1.verify_for_topic, MessageV1.verify_diagnosed, hverify]
  unfold MessageV1.decode MessageV1.check_body
  simp only [ensure, hl, if_true, hframe, hdiag, hv, bind, Except.bind]

/-- What the receivers are to make of a message of this session. -/
def SessionConfig.verified (self : SessionConfig) (body : MessageBodyV1) (draw : Draw) :
    VerifiedMessage :=
  { author := self.secret.public, message := .new body draw.id draw.sent_at_ms, body := some body }

/-- A frame reads back as what was said just when its body is receivable. -/
theorem MessageV1.decode_new_iff (hs : Crypto.SignaturesVerify) {c : SessionConfig}
    {body : MessageBodyV1} {draw : Draw} {bytes : Bytes}
    (h : (MessageV1.new body draw.id draw.sent_at_ms).encode c.secret c.topic_id = .ok bytes) :
    MessageV1.decode bytes c.topic_id = .ok (c.verified body draw) ↔ body.receivable := by
  rw [MessageV1.decode_encode hs rfl h]
  simp only [MessageV1.check_body, bind_eq_ok, ensure_eq_ok, exists_const]
  constructor
  · rintro ⟨hsize, body', hdecode, _, hvalid, -⟩
    have hsize : body.within_size := hsize
    have hdecode' := BodyEnvelopeV1.decode_encode hsize
    have heq : (MessageV1.new body draw.id draw.sent_at_ms).body = .encode body := rfl
    rw [heq, hdecode'] at hdecode
    cases hdecode
    exact ⟨hsize, hvalid⟩
  · rintro ⟨hsize, hvalid⟩
    exact ⟨hsize, some body, BodyEnvelopeV1.decode_encode hsize, (), hvalid, rfl⟩

/-! ## Calls that send -/

/-- A call has sent these messages and no others, and each of them reads
back at the receivers as what it was. -/
def Delivered (s s' : Session) (messages : List (MessageBodyV1 × Draw)) : Prop :=
  ∃ frames, s'.sent = s.sent ++ frames ∧
    frames.map (fun f => MessageV1.decode f s.topic_id) =
      messages.map (fun m => .ok (s.verified m.1 m.2))

/-- The frame of a message of this session. -/
def SessionConfig.Frames (self : SessionConfig) (frame : Bytes) (m : MessageBodyV1 × Draw) :
    Prop :=
  (MessageV1.new m.1 m.2.id m.2.sent_at_ms).encode self.secret self.topic_id = .ok frame

/-- A broadcast of a public session that went through has sent one frame. -/
theorem broadcast_ok {s s' : Session} (hm : s.mode = .Public) {body : MessageBodyV1}
    {draw : Draw} (h : s.broadcast body draw = (.ok (), s')) :
    ∃ frame, s'.sent = s.sent ++ [frame] ∧ s.Frames frame (body, draw) ∧
      s'.toSessionConfig = s.toSessionConfig := by
  unfold Session.broadcast Session.broadcast_signed at h
  rcases henc : Session.encode_for_session s.toSessionConfig
    (.new body draw.id draw.sent_at_ms) draw.nonce with e | frame
  · rw [henc] at h
    cases h
  · rw [henc] at h
    have hs' : s' = _ := (congrArg Prod.snd h).symm
    refine ⟨frame, by rw [hs']; rfl, ?_, by rw [hs']; rfl⟩
    unfold Session.encode_for_session at henc
    rw [hm] at henc
    exact henc

/-- Frames that were sent read back just when their bodies are receivable. -/
theorem delivered_iff (hs : Crypto.SignaturesVerify) {s s' : Session} {frames : List Bytes}
    {messages : List (MessageBodyV1 × Draw)} (hsent : s'.sent = s.sent ++ frames)
    (hf : List.Forall₂ s.Frames frames messages) :
    Delivered s s' messages ↔ ∀ m ∈ messages, m.1.receivable := by
  have hread : frames.map (fun f => MessageV1.decode f s.topic_id) =
      messages.map (fun m => .ok (s.verified m.1 m.2)) ↔ ∀ m ∈ messages, m.1.receivable := by
    clear hsent
    induction hf with
    | nil => simp
    | cons hhead _ ih =>
      rw [List.map_cons, List.map_cons, List.cons.injEq, ih, List.forall_mem_cons]
      exact and_congr_left' (MessageV1.decode_new_iff hs hhead)
  rw [← hread]
  constructor
  · rintro ⟨frames', hsent', hmap⟩
    rw [hsent] at hsent'
    rw [List.append_cancel_left hsent']
    exact hmap
  · exact fun hmap => ⟨frames, hsent, hmap⟩

/-- An import that went through has sent the two messages of its offer. -/
theorem import_with_ok {s s' : Session} (hm : s.mode = .Public) {name : String} {size : UInt64}
    {media_type : Option String} {metadata : BTreeMap String String} {world : ImportWorld}
    {blob : Session.PublishedBlob}
    (h : s.import_with name size media_type metadata world = (.ok blob, s')) :
    ∃ frames, s'.sent = s.sent ++ frames ∧ blob.name = name ∧ blob.size = size ∧
      blob.media_type = media_type ∧
      List.Forall₂ s.Frames frames
        (published (Session.import_offer blob.hash name size media_type metadata world) world) := by
  unfold Session.import_with at h
  rcases hi : world.imported with e | hash
  · rw [hi] at h
    cases h
  rw [hi] at h
  simp only [Session.finish_import_with] at h
  rcases ht : world.tag_set with e | _
  · rw [ht] at h
    cases h
  rw [ht] at h
  simp only at h
  generalize hs : ({ s.hold hash size with state := _ } : Session) = s₁ at h
  have hsent : s₁.sent = s.sent := by rw [← hs]; rfl
  have hconfig : s₁.toSessionConfig = s.toSessionConfig := by rw [← hs]; rfl
  rcases ho : s₁.broadcast (.Offer (Session.import_offer hash name size media_type metadata world))
    world.offer_draw with ⟨e | _, s₂⟩
  · rw [ho] at h
    cases h
  rw [ho] at h
  simp only at h
  obtain ⟨f₁, hsent₁, hf₁, hconfig₁⟩ := broadcast_ok
    (by rw [hconfig]; exact hm) ho
  rcases hp : s₂.announce hash .Available world.announced_at_ms world.provider_draw
    with ⟨e | _, s₃⟩
  · rw [hp] at h
    cases h
  rw [hp] at h
  cases h
  obtain ⟨f₂, hsent₂, hf₂, -⟩ := broadcast_ok (by rw [hconfig₁, hconfig]; exact hm) hp
  rw [hconfig₁, hconfig] at hf₂
  rw [hconfig] at hf₁
  refine ⟨[f₁, f₂], ?_, rfl, rfl, rfl, .cons hf₁ (.cons hf₂ .nil)⟩
  rw [hsent₂, hsent₁, hsent]
  simp

/-! ## The three calls -/

theorem publish_path_as_delivered_iff (hs : Crypto.SignaturesVerify) {s s' : Session}
    (hm : s.mode = .Public) {path : LocalFile} {name : Option String} {world : ImportWorld}
    {blob : Session.PublishedBlob} (h : s.publish_path_as path name world = (.ok blob, s')) :
    Delivered s s' (published (Session.import_offer blob.hash blob.name blob.size blob.media_type
        ∅ world) world) ↔
      (OfferV1.codec.write (Session.import_offer blob.hash blob.name blob.size blob.media_type
        ∅ world)).length ≤ MAX_BODY_SIZE := by
  unfold Session.publish_path_as at h
  rcases hn : name <|> path.file_name with _ | name'
  · rw [hn] at h
    cases h
  rw [hn] at h
  rcases hv : validate_name name' with e | _
  · simp only [hv] at h
    cases h
  rcases hmeta : path.metadata with e | ⟨_ | _, len⟩ <;> rcases habs : path.absolute with e' | _ <;>
    simp only [hv, hmeta, habs] at h
  case ok.false.ok =>
    obtain ⟨frames, hsent, hname, hsize, hmedia, hframes⟩ := import_with_ok hm h
    rw [hname, hsize, hmedia, delivered_iff hs hsent hframes, published_receivable_iff hv]
    exact ⟨fun hd => hd.size, fun hd => ⟨Nat.zero_le _, by simp [Session.import_offer,
      EmptyCollection.emptyCollection], hd⟩⟩
  all_goals cases h

theorem publish_bytes_with_delivered_iff (hs : Crypto.SignaturesVerify) {s s' : Session}
    (hm : s.mode = .Public) {name : String} {bytes : Bytes} {media_type : Option String}
    {metadata : BTreeMap String String} {world : ImportWorld} {blob : Session.PublishedBlob}
    (h : s.publish_bytes_with name bytes media_type metadata world = (.ok blob, s')) :
    Delivered s s' (published (Session.import_offer blob.hash name (UInt64.ofNat bytes.length)
        (media_type <|> world.guessed) metadata world) world) ↔
      (Session.import_offer blob.hash name (UInt64.ofNat bytes.length)
        (media_type <|> world.guessed) metadata world).Deliverable := by
  unfold Session.publish_bytes_with at h
  rcases hv : validate_name name with e | _
  · rw [hv] at h
    cases h
  rw [hv] at h
  obtain ⟨frames, hsent, -, -, -, hframes⟩ := import_with_ok hm h
  rw [delivered_iff hs hsent hframes, published_receivable_iff hv]

theorem send_extension_delivered_iff (hs : Crypto.SignaturesVerify) {s s' : Session}
    (hm : s.mode = .Public) {ext : ExtensionV1} {draw : Draw}
    (h : s.send_extension ext.namespace ext.local_kind ext.schema_version ext.payload draw =
      (.ok (), s')) :
    Delivered s s' [(.Extension ext, draw)] ↔
      (ExtensionV1.codec.write ext).length ≤ MAX_BODY_SIZE := by
  unfold Session.send_extension at h
  split at h
  · cases h
  rename_i hle
  obtain ⟨frame, hsent, hframe, -⟩ := broadcast_ok hm h
  rw [delivered_iff hs hsent (.cons hframe .nil), List.forall_mem_singleton]
  have hvalid : validate_body (.Extension ext) = .ok () := by
    simp only [validate_body, ensure_eq_ok]
    omega
  exact ⟨fun hr => hr.1, fun hsize => ⟨hsize, hvalid⟩⟩

/-- What a publish or an extension sends reads back at the receivers, just
when the metadata of the offer keeps its limits and the encoded body is no
longer than a receiver takes. -/
theorem sent_frames_read_back_iff (hs : Crypto.SignaturesVerify) (s : Session)
    (hm : s.mode = .Public) :
    (∀ path name world blob s', s.publish_path_as path name world = (.ok blob, s') →
      let offer := Session.import_offer blob.hash blob.name blob.size blob.media_type ∅ world
      (Delivered s s' (published offer world) ↔
        (OfferV1.codec.write offer).length ≤ MAX_BODY_SIZE)) ∧
    (∀ name bytes media_type metadata world blob s',
      s.publish_bytes_with name bytes media_type metadata world = (.ok blob, s') →
      let offer := Session.import_offer blob.hash name (UInt64.ofNat bytes.length)
        (media_type <|> world.guessed) metadata world
      (Delivered s s' (published offer world) ↔ offer.Deliverable)) ∧
    (∀ (ext : ExtensionV1) draw s',
      s.send_extension ext.namespace ext.local_kind ext.schema_version ext.payload draw =
        (.ok (), s') →
      (Delivered s s' [(.Extension ext, draw)] ↔
        (ExtensionV1.codec.write ext).length ≤ MAX_BODY_SIZE)) := by
  refine ⟨?_, ?_, ?_⟩
  · intro path name world blob s' h
    exact publish_path_as_delivered_iff hs hm h
  · intro name bytes media_type metadata world blob s' h
    exact publish_bytes_with_delivered_iff hs hm h
  · intro ext draw s' h
    exact send_extension_delivered_iff hs hm h

end Laws

/-! ## An offer that nobody takes -/

namespace long_key

local instance : Crypto := Crypto.clear

def topic : TopicId := ⟨.fill 32 8⟩

def member : Session :=
  .new ⟨.fill 32 1⟩ {} PolicyDecider topic (.nodeless topic.as_bytes none) none (fun _ => .NotFound)

def draw (n : UInt8) : Draw :=
  { now := 0, sent_at_ms := 0, id := .fill 16 n, nonce := .fill 24 0, carried := .ok () }

def world : ImportWorld :=
  { imported := .ok ⟨.fill 32 7⟩, guessed := some "text/plain", tag_set := .ok (), now := 0
    created_at_ms := 0, announced_at_ms := 0, offer_draw := draw 1, provider_draw := draw 2 }

/-- One entry, with a key of 65 bytes. -/
def metadata : BTreeMap String String :=
  (∅ : BTreeMap String String).insert (String.ofList (List.replicate 65 'k')) ""

def blob : Session.PublishedBlob :=
  { hash := ⟨.fill 32 7⟩, name := "a.txt", size := 2, media_type := some "text/plain" }

/-- The sender is told that all is well, and no receiver takes the offer. -/
theorem a_published_offer_is_refused :
    ¬ ∀ [Crypto] (_ : Crypto.SignaturesVerify) (s : Session) (_ : s.mode = .Public) (name : String)
      (bytes : Bytes) (media_type : Option String) (metadata : BTreeMap String String)
      (world : ImportWorld) (blob : Session.PublishedBlob) (s' : Session),
      s.publish_bytes_with name bytes media_type metadata world = (.ok blob, s') →
        Delivered s s' (published (Session.import_offer blob.hash name
          (UInt64.ofNat bytes.length) (media_type <|> world.guessed) metadata world) world) := by
  intro h
  have hok : (member.publish_bytes_with "a.txt" [1, 2] none metadata world).1 = .ok blob := by
    decide +kernel
  obtain ⟨frames, hsent, hread⟩ := h Crypto.clear_signatures_verify member (by decide +kernel)
    "a.txt" [1, 2] none metadata world blob
    (member.publish_bytes_with "a.txt" [1, 2] none metadata world).2 (eq_pair hok)
  have hfail : ((member.publish_bytes_with "a.txt" [1, 2] none metadata world).2.sent.map
      (fun f => (MessageV1.decode f topic).isOk)) = [false, true] := by
    decide +kernel
  rw [hsent, show member.sent = [] from rfl, List.nil_append] at hfail
  have hread := congrArg (List.map Except.isOk) hread
  rw [List.map_map] at hread
  have hcontra := hfail.symm.trans hread
  cases hcontra

/-- The law at work on an extension. -/
theorem sent_frames_read_back_at_extension :
    Delivered member (member.send_extension (.fill 16 0) 1 1 [1, 2, 3] (draw 3)).2
      [(.Extension ⟨.fill 16 0, 1, 1, [1, 2, 3]⟩, draw 3)] := by
  have hok : (member.send_extension (.fill 16 0) 1 1 [1, 2, 3] (draw 3)).1 = .ok () := by
    decide +kernel
  exact ((sent_frames_read_back_iff Crypto.clear_signatures_verify member (by decide +kernel)).2.2
    ⟨.fill 16 0, 1, 1, [1, 2, 3]⟩ (draw 3) _ (eq_pair hok)).mpr (by decide +kernel)

end long_key

end iroh_drop
