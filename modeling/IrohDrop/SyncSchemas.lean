-- The two schemas of a sync request (sync.rs): the older one ends where the
-- proof of the current one begins, so the bytes after it decide which is read.
import IrohDrop.SyncPages
import IrohDrop.SyncProofs

open rust_std postcard

namespace postcard.Codec

/-- A fixed array is the bytes it was read from. -/
theorem fixed_read {n : Nat} {bs rest : Bytes} {a : FixedBytes n}
    (h : (fixed n).read bs = .ok (a, rest)) : bs = a.bytes ++ rest := by
  simp only [fixed] at h
  split at h
  · simp only [Except.ok.injEq, Prod.mk.injEq] at h
    obtain ⟨ha, hrest⟩ := h
    rw [← ha, ← hrest]
    exact (List.take_append_drop n bs).symm
  · cases h

/-- A value that an option was read with has its tag before it. -/
theorem option_read_some {α : Type} {c : Codec α} {bs rest : Bytes} {a : α}
    (h : (option c).read bs = .ok (some a, rest)) :
    ∃ bytes, bs = 1 :: bytes ∧ c.read bytes = .ok (a, rest) := by
  cases bs with
  | nil => cases h
  | cons tag bytes =>
    simp only [option] at h
    by_cases hzero : tag = 0
    · simp [hzero] at h
    by_cases hone : tag = 1
    · rw [if_neg hzero, if_pos hone] at h
      rcases hread : c.read bytes with e | ⟨b, left⟩
      · rw [hread] at h
        cases h
      · rw [hread] at h
        simp only [Except.ok.injEq, Prod.mk.injEq, Option.some.injEq] at h
        obtain ⟨rfl, rfl⟩ := h
        exact ⟨bytes, by rw [hone], hread⟩
    · simp [hzero, hone] at h

end postcard.Codec

namespace iroh_drop

/-! ## A field after the fields of both -/

/-- The older request with the same fields. -/
def SyncRequestV1.legacy (self : SyncRequestV1) : SyncRequestV1Legacy :=
  { version := self.version, topic_id := self.topic_id, cursor := self.cursor
    max_frames := self.max_frames }

theorem SyncRequestV1.legacy_upgrade (self : SyncRequestV1) :
    { self.legacy.upgrade with key_proof := self.key_proof } = self := rfl

/-- The last field of the current schema. -/
def proof_codec : Codec (Option (FixedBytes 32)) := .option (.fixed 32)

@[simp] theorem proof_codec_fits (proof : Option (FixedBytes 32)) : proof_codec.fits proof :=
  fun _ _ => trivial

/-- A current request is written as an older one and a proof. -/
theorem SyncRequestV1.codec_write (self : SyncRequestV1) :
    SyncRequestV1.codec.write self =
      SyncRequestV1Legacy.codec.write self.legacy ++ proof_codec.write self.key_proof := by
  simp [SyncRequestV1.codec, SyncRequestV1Legacy.codec, Codec.imap, Codec.pair, legacy,
    proof_codec]

/-- What the current schema makes of an older request is up to the bytes
after it. -/
theorem SyncRequestV1.codec_read_legacy (legacy : SyncRequestV1Legacy) (tail : Bytes) :
    SyncRequestV1.codec.read (SyncRequestV1Legacy.codec.write legacy ++ tail) =
      match proof_codec.read tail with
      | .ok (proof, rest) => .ok ({ legacy.upgrade with key_proof := proof }, rest)
      | .error e => .error e := by
  have hwrite : SyncRequestV1Legacy.codec.write legacy ++ tail =
      Codec.u16.write legacy.version ++ ((Codec.fixed 32).write legacy.topic_id ++
        (Codec.u64.write legacy.cursor ++ (Codec.u16.write legacy.max_frames ++ tail))) := by
    simp [SyncRequestV1Legacy.codec, Codec.imap, Codec.pair]
  rw [hwrite]
  simp only [SyncRequestV1.codec, Codec.imap]
  rw [Codec.pair_read_write _ _ (by simp), Codec.pair_read_write _ _ (by simp),
    Codec.pair_read_write _ _ (by simp), Codec.pair_read_write _ _ (by simp)]
  change _ = match (Codec.option (.fixed 32)).read tail with
    | .ok (proof, rest) => _
    | .error e => _
  rcases (Codec.option (.fixed 32)).read tail with e | ⟨proof, rest⟩ <;> rfl

/-! ## What is read -/

/-- The proof that the bytes after an older request make. -/
def trailing_proof (tail : Bytes) : Option (FixedBytes 32) :=
  match proof_codec.read tail with
  | .ok (proof, _) => proof
  | .error _ => none

/-- An older request is read with its own fields, whatever follows it. -/
theorem decode_legacy_append (legacy : SyncRequestV1Legacy) (tail : Bytes) :
    decode_sync_request (SyncRequestV1Legacy.codec.write legacy ++ tail) =
      .ok { legacy.upgrade with key_proof := trailing_proof tail } := by
  have hlegacy := SyncRequestV1Legacy.codec.read_write legacy tail
    (by simp [SyncRequestV1Legacy.codec])
  unfold decode_sync_request
  rw [SyncRequestV1.codec_read_legacy, hlegacy, trailing_proof]
  rcases proof_codec.read tail with e | ⟨proof, rest⟩
  · rfl
  · rfl

theorem trailing_proof_nil : trailing_proof [] = none := rfl

theorem trailing_proof_write (proof : Option (FixedBytes 32)) (rest : Bytes) :
    trailing_proof (proof_codec.write proof ++ rest) = proof := by
  simp [trailing_proof, proof_codec.read_write proof rest]

/-- Only the tag of a proof and its bytes make one. -/
theorem trailing_proof_eq_some_iff {tail : Bytes} {proof : FixedBytes 32} :
    trailing_proof tail = some proof ↔ ∃ rest, tail = proof_codec.write (some proof) ++ rest := by
  constructor
  · intro h
    unfold trailing_proof at h
    rcases hread : proof_codec.read tail with e | ⟨read, rest⟩
    · rw [hread] at h
      cases h
    · rw [hread] at h
      simp only at h
      subst h
      obtain ⟨bytes, rfl, hbytes⟩ := Codec.option_read_some hread
      rw [Codec.fixed_read hbytes]
      exact ⟨rest, rfl⟩
  · rintro ⟨rest, rfl⟩
    exact trailing_proof_write (some proof) rest

/-- An older request with bytes after it is read with a proof exactly when
these are the bytes of the current request with that proof. -/
theorem decode_legacy_proof_iff (legacy : SyncRequestV1Legacy) (tail : Bytes)
    (proof : FixedBytes 32) :
    (∃ request, decode_sync_request (SyncRequestV1Legacy.codec.write legacy ++ tail) = .ok request ∧
      request.key_proof = some proof) ↔
      ∃ rest, SyncRequestV1Legacy.codec.write legacy ++ tail =
        SyncRequestV1.codec.write { legacy.upgrade with key_proof := some proof } ++ rest := by
  have hwritten : SyncRequestV1.codec.write { legacy.upgrade with key_proof := some proof } =
      SyncRequestV1Legacy.codec.write legacy ++ proof_codec.write (some proof) :=
    SyncRequestV1.codec_write _
  simp only [decode_legacy_append, Except.ok.injEq, exists_eq_left', trailing_proof_eq_some_iff,
    hwritten, List.append_assoc, List.append_cancel_left_eq]

/-- The current schema takes the bytes. -/
def ReadAsCurrent (bytes : Bytes) : Prop :=
  ∃ request rest, SyncRequestV1.codec.read bytes = .ok (request, rest)

/-- The current schema does not take the bytes, and the older one does. -/
def ReadAsLegacy (bytes : Bytes) : Prop :=
  ¬ ReadAsCurrent bytes ∧
    ∃ legacy rest, SyncRequestV1Legacy.codec.read bytes = .ok (legacy, rest)

theorem current_read (request : SyncRequestV1) (rest : Bytes) :
    SyncRequestV1.codec.read (SyncRequestV1.codec.write request ++ rest) = .ok (request, rest) :=
  SyncRequestV1.codec.read_write request rest (by simp [SyncRequestV1.codec])

theorem decode_current_append (request : SyncRequestV1) (rest : Bytes) :
    decode_sync_request (SyncRequestV1.codec.write request ++ rest) = .ok request := by
  rw [SyncRequestV1.codec_write, List.append_assoc, decode_legacy_append, trailing_proof_write]
  rfl

/-- An older request ends before the tag that the current schema reads. -/
theorem legacy_not_current (legacy : SyncRequestV1Legacy) :
    ¬ ReadAsCurrent (SyncRequestV1Legacy.codec.write legacy) := by
  rintro ⟨request, rest, hread⟩
  have hend := SyncRequestV1.codec_read_legacy legacy []
  rw [List.append_nil, hread] at hend
  cases hend

theorem legacy_write_length_le (legacy : SyncRequestV1Legacy) :
    (SyncRequestV1Legacy.codec.write legacy).length ≤ 81 := by
  have hv := Codec.u16_write_length_le legacy.version
  have hc := Codec.u64_write_length_le legacy.cursor
  have hm := Codec.u16_write_length_le legacy.max_frames
  simp only [SyncRequestV1Legacy.codec, Codec.imap_write_length, Codec.pair_write_length,
    Codec.fixed_write_length]
  omega

/-! ## Proofs over the bytes -/

section Laws

variable [Crypto]

/-- The page request of a session before its proof is put in. -/
def unproven_request (session : Session) (page_size : UInt16) (cursor : UInt64) : SyncRequestV1 :=
  { version := WIRE_VERSION, topic_id := session.topic_id.as_bytes, cursor
    max_frames := page_size, key_proof := none }

/-- What a member rebuilds to check the proof of a request. -/
def proven_bytes (request : SyncRequestV1) : Bytes :=
  SyncRequestV1.codec.write { request with key_proof := none }

/-- A session with a key proves the bytes of its unproven request. -/
theorem page_request_eq (session : Session) (peer : EndpointId) (page_size : UInt16)
    (cursor : UInt64) :
    page_request session peer page_size cursor =
      { unproven_request session page_size cursor with
        key_proof := session.drop_key.map fun key =>
          key.sync_proof session.topic_id session.self_id peer
            (SyncRequestV1.codec.write (unproven_request session page_size cursor)) } := by
  unfold page_request
  cases session.drop_key with
  | none => rfl
  | some key => rfl

/-- Both schemas decode to what was sent, whatever follows a current request.
No older request is read as one with a proof and no current request as an
older one, and what a member rebuilds is what the requester proved. -/
theorem sync_requests_decode (request : SyncRequestV1) (legacy : SyncRequestV1Legacy)
    (rest : Bytes) :
    decode_sync_request (SyncRequestV1.codec.write request ++ rest) = .ok request ∧
    decode_sync_request (SyncRequestV1Legacy.codec.write legacy) = .ok legacy.upgrade ∧
    legacy.upgrade.key_proof = none ∧
    ReadAsLegacy (SyncRequestV1Legacy.codec.write legacy) ∧
    ¬ ReadAsLegacy (SyncRequestV1.codec.write request ++ rest) ∧
    ∀ (session : Session) (peer : EndpointId) (page_size : UInt16) (cursor : UInt64),
      ∃ received, decode_sync_request (SyncRequestV1.codec.write
          (page_request session peer page_size cursor) ++ rest) = .ok received ∧
        proven_bytes received =
          SyncRequestV1.codec.write (unproven_request session page_size cursor) ∧
        received.key_proof = session.drop_key.map fun key =>
          key.sync_proof session.topic_id session.self_id peer (proven_bytes received) := by
  have hlegacy := decode_legacy_append legacy []
  rw [List.append_nil] at hlegacy
  refine ⟨decode_current_append request rest, hlegacy, rfl, ⟨legacy_not_current legacy, ?_⟩, ?_, ?_⟩
  · exact ⟨legacy, [], SyncRequestV1Legacy.codec.read_write_nil
      (by simp [SyncRequestV1Legacy.codec])⟩
  · rintro ⟨hnever, -⟩
    exact hnever ⟨request, rest, current_read request rest⟩
  · intro session peer page_size cursor
    have hproven : proven_bytes (page_request session peer page_size cursor) =
        SyncRequestV1.codec.write (unproven_request session page_size cursor) := by
      rw [page_request_eq]
      rfl
    refine ⟨_, decode_current_append _ rest, hproven, ?_⟩
    rw [hproven, page_request_eq]

/-! ## Older requests at a member -/

/-- An older build gets the page of its upgraded request. -/
theorem serve_op_legacy (sessions : SessionRegistry) (legacy : SyncRequestV1Legacy)
    (peer : EndpointId) :
    serve_op sessions (control_request OP_SYNC_PAGE (SyncRequestV1Legacy.codec.write legacy)) peer =
      some (reply OP_SYNC_PAGE
        (SyncResponseV1.codec.write (sync_page sessions legacy.upgrade peer))) := by
  have hdecode := decode_legacy_append legacy []
  rw [List.append_nil] at hdecode
  exact serve_op_decoded sessions peer (legacy_write_length_le legacy) hdecode

/-- A member checks the proof over the bytes that it rebuilt. -/
theorem serves_rebuilt {inner : Session} {key : DropKey} (hsealed : inner.mode = .Sealed)
    (hkey : inner.drop_key = some key) (request : SyncRequestV1) (peer : EndpointId) :
    serves inner request peer = true ↔ ∃ proof, request.key_proof = some proof ∧
      key.verify_sync_proof ⟨request.topic_id⟩ peer inner.self_id (proven_bytes request) proof =
        true := by
  unfold serves
  rw [hsealed, hkey]
  cases request.key_proof with
  | none => simp
  | some proof => simp [proven_bytes]

/-- A sealed drop has no page for a build that knows no proofs. -/
theorem legacy_refused {sessions : SessionRegistry} {inner : Session}
    {legacy : SyncRequestV1Legacy} (hosted : sessions ⟨legacy.topic_id⟩ = some inner)
    (hsealed : inner.mode = .Sealed) (peer : EndpointId) :
    sync_page sessions legacy.upgrade peer = empty_page := by
  have hserves : ¬ serves inner legacy.upgrade peer = true := by
    rw [serves_sealed_iff hsealed]
    rintro ⟨key, -, hproof⟩
    cases hproof
  simp only [sync_page, SyncRequestV1Legacy.upgrade] at *
  simp only [hosted, hserves]
  rfl

end Laws

/-- The tag and the bytes of a proof after an older request are a proof. -/
example : decode_sync_request (SyncRequestV1Legacy.codec.write ⟨1, .fill 32 9, 300, 16⟩ ++
    1 :: List.replicate 32 7) = .ok ⟨1, .fill 32 9, 300, 16, some (.fill 32 7)⟩ := by decide +kernel

end iroh_drop
