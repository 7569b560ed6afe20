-- What one step of a session can do to its history, its accounts and its
-- frames, said once. The laws about whole runs rest on this module alone.
import IrohDrop.Run

open rust_std postcard

namespace iroh_drop

variable [Crypto]

/-! ## The retained history -/

/-- The dedup cache and the retained log are as they were. -/
structure SameLog (a b : DropState) : Prop where
  seen_messages : b.seen_messages = a.seen_messages
  sync_log : b.sync_log = a.sync_log
  sync_log_bytes : b.sync_log_bytes = a.sync_log_bytes
  sync_log_start : b.sync_log_start = a.sync_log_start
  unknown_frames : b.unknown_frames = a.unknown_frames
  unknown_frames_bytes : b.unknown_frames_bytes = a.unknown_frames_bytes

namespace SameLog

theorem refl (s : DropState) : SameLog s s := ⟨rfl, rfl, rfl, rfl, rfl, rfl⟩

theorem trans {a b c : DropState} (hab : SameLog a b) (hbc : SameLog b c) : SameLog a c :=
  ⟨hbc.1.trans hab.1, hbc.2.trans hab.2, hbc.3.trans hab.3, hbc.4.trans hab.4,
    hbc.5.trans hab.5, hbc.6.trans hab.6⟩

end SameLog

namespace DropState

theorem sameLog_forget_peers (s : DropState) (known : HashSet EndpointId)
    (order : List EndpointId) : SameLog s (s.forget_peers known order) := by
  induction order generalizing known with
  | nil => exact ⟨rfl, rfl, rfl, rfl, rfl, rfl⟩
  | cons old rest ih =>
    unfold forget_peers
    split
    · exact ih _
    · exact ⟨rfl, rfl, rfl, rfl, rfl, rfl⟩

theorem sameLog_note_peer (s : DropState) (peer : EndpointId) : SameLog s (s.note_peer peer) := by
  unfold note_peer
  split
  · exact .refl s
  · exact sameLog_forget_peers s _ _

theorem sameLog_assert_provider (s : DropState) (hash : BlobHash) (peer : EndpointId)
    (ms : UInt64) (id : FixedBytes 16) (withdrawn : Bool) :
    SameLog s (s.assert_provider hash peer ms id withdrawn).2 := ⟨rfl, rfl, rfl, rfl, rfl, rfl⟩

theorem sameLog_set_local_status (s : DropState) (hash : BlobHash) (status : LocalBlobStatus) :
    SameLog s (s.set_local_status hash status) := ⟨rfl, rfl, rfl, rfl, rfl, rfl⟩

theorem sameLog_evict_offers (s : DropState) (order : List BlobHash) :
    SameLog s (s.evict_offers order).1 := by
  induction order generalizing s with
  | nil => exact ⟨rfl, rfl, rfl, rfl, rfl, rfl⟩
  | cons oldest rest ih =>
    unfold evict_offers
    split
    · split
      · rename_i record _
        have h := ih { s with
          offers := s.offers.erase oldest
          offers_per_author := uncount_offer s.offers_per_author record.first_seen_from
          providers := s.providers.erase oldest }
        exact ⟨h.1, h.2, h.3, h.4, h.5, h.6⟩
      · exact ih s
    · exact ⟨rfl, rfl, rfl, rfl, rfl, rfl⟩

theorem sameLog_record_offer_inner (s : DropState) (author : EndpointId) (offer : OfferV1)
    (now : Instant) : SameLog s (s.record_offer_inner author offer now).2 := by
  unfold record_offer_inner
  extract_lets hash s₁ s₂ record s₃
  have h₃ := sameLog_evict_offers s₃ s₃.offer_order
  split
  · exact .refl s
  · split
    · exact ⟨rfl, rfl, rfl, rfl, rfl, rfl⟩
    · exact ⟨h₃.1, h₃.2, h₃.3, h₃.4, h₃.5, h₃.6⟩

theorem sameLog_record_offer_bounded (s : DropState) (author : EndpointId) (offer : OfferV1)
    (now : Instant) : SameLog s (s.record_offer_bounded author offer now).2 :=
  (sameLog_note_peer s author).trans (sameLog_record_offer_inner _ author offer now)

end DropState

/-! ## Steps that leave no trace -/

/-- The configuration, the frames said, the history and the accounts of
automatic fetches are as they were. -/
structure Quiet (a b : Session) : Prop where
  config : b.toSessionConfig = a.toSessionConfig
  sent : b.sent = a.sent
  log : SameLog a.state b.state
  auto_fetch_bytes : b.auto_fetch_bytes = a.auto_fetch_bytes
  fetches : b.fetches = a.fetches

namespace Quiet

theorem refl (a : Session) : Quiet a a := ⟨rfl, rfl, .refl _, rfl, rfl⟩

theorem trans {a b c : Session} (hab : Quiet a b) (hbc : Quiet b c) : Quiet a c :=
  ⟨hbc.1.trans hab.1, hbc.2.trans hab.2, hab.3.trans hbc.3, hbc.4.trans hab.4, hbc.5.trans hab.5⟩

theorem of_state {a : Session} {state : DropState} (h : SameLog a.state state) :
    Quiet a { a with state } := ⟨rfl, rfl, h, rfl, rfl⟩

end Quiet

/-! ## Steps that say something -/

/-- A stretch in which the session says frames of its own, through
`broadcast_signed` and nothing else. The ids are those that the random
generator gave on the way, each for one frame at most. -/
inductive Says (a : Session) : List (FixedBytes 16) → Session → Prop where
  | refl : Says a [] a
  | quiet {ids : List (FixedBytes 16)} {b c : Session} : Says a ids b → Quiet b c → Says a ids c
  | fewer {ids more : List (FixedBytes 16)} {b : Session} :
    Says a ids b → ids.Sublist more → Says a more b
  | said {ids : List (FixedBytes 16)} {b : Session} (msg : MessageV1) (retain : Retain)
    (draw : Draw) : Says a ids b → Says a (ids ++ [msg.id]) (b.broadcast_signed msg retain draw).2

namespace Says

variable {ids more : List (FixedBytes 16)} {a b c : Session}

theorem trans (hab : Says a ids b) (hbc : Says b more c) : Says a (ids ++ more) c := by
  induction hbc with
  | refl => simpa only [List.append_nil] using hab
  | quiet _ hq ih => exact ih.quiet hq
  | fewer _ hsub ih => exact ih.fewer (hsub.append_left ids)
  | said msg retain draw _ ih => exact List.append_assoc .. ▸ ih.said msg retain draw

theorem of_quiet (h : Quiet a b) : Says a [] b := Says.refl.quiet h

/-- Nothing was said, whatever ids there were. -/
theorem idle (a : Session) (ids : List (FixedBytes 16)) : Says a ids a :=
  Says.refl.fewer (List.nil_sublist ids)

/-- Frames of its own never touch the accounts of automatic fetches. -/
theorem accounts (h : Says a ids b) :
    b.toSessionConfig = a.toSessionConfig ∧ b.auto_fetch_bytes = a.auto_fetch_bytes ∧
      b.fetches = a.fetches := by
  induction h with
  | refl => exact ⟨rfl, rfl, rfl⟩
  | quiet _ hq ih => exact ⟨hq.1.trans ih.1, hq.4.trans ih.2.1, hq.5.trans ih.2.2⟩
  | fewer _ _ ih => exact ih
  | @said _ b msg retain draw _ ih =>
    unfold Session.broadcast_signed
    split
    · exact ih
    · exact ih

end Says

namespace Session

variable (s : Session)

theorem says_broadcast (body : MessageBodyV1) (draw : Draw) :
    Says s [draw.id] (s.broadcast body draw).2 :=
  Says.refl.said (.new body draw.id draw.sent_at_ms) _ _

theorem says_announce (hash : BlobHash) (state : ProviderState) (ms : UInt64) (draw : Draw) :
    Says s [draw.id] (s.announce hash state ms draw).2 :=
  s.says_broadcast _ _

theorem quiet_set_status (hash : BlobHash) (status : LocalBlobStatus) :
    Quiet s (s.set_status hash status) :=
  .of_state (DropState.sameLog_set_local_status _ _ _)

theorem quiet_emit (event : DropEvent) : Quiet s (s.emit event) := ⟨rfl, rfl, .refl _, rfl, rfl⟩

theorem quiet_hold (hash : BlobHash) (size : UInt64) : Quiet s (s.hold hash size) :=
  ⟨rfl, rfl, .refl _, rfl, rfl⟩

/-! ## Calls of the user -/

/-- The ids of an import: one for the offer, one for the announcement. -/
def import_ids (world : ImportWorld) : List (FixedBytes 16) :=
  [world.offer_draw.id, world.provider_draw.id]

theorem says_finish_import_with (hash : BlobHash) (name : String) (size : UInt64)
    (media_type : Option String) (metadata : BTreeMap String String) (world : ImportWorld) :
    Says s (import_ids world)
      (s.finish_import_with hash name size media_type metadata world).2 := by
  unfold finish_import_with
  split
  · exact .idle s _
  · extract_lets offer
    generalize hs : { s with state := ((s.state.record_offer s.self_id offer
      world.now).2.set_local_status hash .Complete) } = s₁
    have h₁ : Says s [] s₁ := by
      subst hs
      exact .of_quiet (.of_state ((DropState.sameLog_record_offer_bounded _ _ _ _).trans
        (DropState.sameLog_set_local_status _ _ _)))
    have h₂ : Says s [world.offer_draw.id] (s₁.broadcast (.Offer offer) world.offer_draw).2 :=
      h₁.trans (s₁.says_broadcast (.Offer offer) world.offer_draw)
    rcases hb : s₁.broadcast (.Offer offer) world.offer_draw with ⟨_ | _, s₂⟩ <;> rw [hb] at h₂
    · have h₃ : Says s (import_ids world) s₂ :=
        h₂.fewer (List.sublist_append_left _ [world.provider_draw.id])
      simpa only [hs, hb] using h₃
    · have h₃ : Says s (import_ids world) _ := h₂.trans (s₂.says_announce hash .Available world.announced_at_ms
        world.provider_draw)
      rcases ha : s₂.announce hash .Available world.announced_at_ms world.provider_draw
        with ⟨_ | _, s₃⟩ <;> simpa only [hs, hb, ha] using h₃

theorem says_import_with (name : String) (size : UInt64) (media_type : Option String)
    (metadata : BTreeMap String String) (world : ImportWorld) :
    Says s (import_ids world) (s.import_with name size media_type metadata world).2 := by
  unfold import_with
  split
  · exact .idle s _
  · exact (Says.of_quiet (s.quiet_hold _ _)).trans (says_finish_import_with _ _ _ _ _ _ _)

theorem says_publish_path_as (path : LocalFile) (name : Option String) (world : ImportWorld) :
    Says s (import_ids world) (s.publish_path_as path name world).2 := by
  unfold publish_path_as
  split
  · exact .idle s _
  · split
    · exact .idle s _
    · split
      · exact .idle s _
      · exact .idle s _
      · exact .idle s _
      · exact s.says_import_with _ _ _ _ _

theorem says_publish_bytes_with (name : String) (bytes : Bytes) (media_type : Option String)
    (metadata : BTreeMap String String) (world : ImportWorld) :
    Says s (import_ids world) (s.publish_bytes_with name bytes media_type metadata world).2 := by
  unfold publish_bytes_with
  split
  · exact .idle s _
  · exact s.says_import_with _ _ _ _ _

theorem says_send_extension («namespace» : FixedBytes 16) (local_kind : UInt32)
    (schema_version : UInt16) (payload : Bytes) (draw : Draw) :
    Says s [draw.id] (s.send_extension «namespace» local_kind schema_version payload draw).2 := by
  unfold send_extension
  split
  · exact .idle s _
  · exact s.says_broadcast _ _

theorem sameLog_note_complete (hash : BlobHash) (size : UInt64) (now : Instant) :
    SameLog s.state (s.note_complete hash size now) := by
  unfold note_complete
  extract_lets src state offer
  have h := DropState.sameLog_record_offer_bounded state s.state.self_endpoint_id offer now
  split
  · exact ⟨rfl, rfl, rfl, rfl, rfl, rfl⟩
  · exact ⟨h.1, h.2, h.3, h.4, h.5, h.6⟩

theorem says_mark_complete (hash : BlobHash) (known_size : Option UInt64)
    (world : CompleteWorld) : Says s [world.draw.id] (s.mark_complete hash known_size world).2 := by
  unfold mark_complete
  split
  · exact .idle s _
  · rename_i size _
    generalize hs : { s with state := s.note_complete hash size world.now } = s₁
    have h₁ : Says s [] s₁ := by
      subst hs
      exact .of_quiet (.of_state (s.sameLog_note_complete hash size world.now))
    split
    · simpa only [hs] using h₁.fewer (List.nil_sublist _)
    · have h₂ : Says s [world.draw.id] _ :=
        h₁.trans (s₁.says_announce hash .Available world.announced_at_ms world.draw)
      rcases ha : s₁.announce hash .Available world.announced_at_ms world.draw with ⟨_ | _, s₂⟩ <;>
        simpa only [hs, ha] using h₂

theorem says_reannounce (hash : BlobHash) (world : CompleteWorld) (ms : UInt64) (draw : Draw) :
    Says s [world.draw.id, draw.id] (s.reannounce hash world ms draw).2 := by
  unfold reannounce
  have h₁ := s.says_mark_complete hash none world
  rcases hm : s.mark_complete hash none world with ⟨_ | _, s₁⟩ <;> rw [hm] at h₁
  · exact h₁.fewer (List.sublist_append_left _ [draw.id])
  · exact h₁.trans (s₁.says_announce _ _ _ _)

theorem says_announce_withdrawal (ms : BlobHash → UInt64) (draws : BlobHash → Draw) :
    Says s (s.complete_hashes.map (fun hash => (draws hash).id))
      (s.announce_withdrawal ms draws) := by
  unfold announce_withdrawal
  generalize s.complete_hashes = hashes
  induction hashes generalizing s with
  | nil => exact .refl
  | cons hash hashes ih =>
    exact (s.says_announce hash .Withdrawing (ms hash) (draws hash)).trans (ih _)

/-! ## Fetches -/

/-- The end of a stretch of a fetch: it goes on, or it is finished with a
result. What the session said on the way is its own. -/
inductive FetchMove (s : Session) (task : FetchTask) :
    List (FixedBytes 16) → FetchTask × Session → Prop where
  | goes_on {ids : List (FixedBytes 16)} {task' : FetchTask} {s' : Session} (spoke : Says s ids s')
      (auto : task'.auto = task.auto) (stored : task'.stored = task.stored)
      (running : ∀ r, task'.stage = .done r → task.stage = .done r) :
      FetchMove s task ids (task', s')
  | writes {ids : List (FixedBytes 16)} {s' : Session} (bytes : Nat) (quiet : Quiet s s')
      (running : ∀ r, task.stage ≠ .done r) :
      FetchMove s task ids ({ task with stored := task.stored + bytes }, s')
  | finishes {ids : List (FixedBytes 16)} {s' : Session} (task' : FetchTask)
      (result : Except DropError Unit) (spoke : Says s ids s') (auto : task'.auto = task.auto)
      (stored : task'.stored = task.stored)
      (running : ∀ r, task.stage ≠ .done r) :
      FetchMove s task ids (s'.finish_fetch task' result)

variable (task : FetchTask)

/-- Ids that were not used make no difference. -/
theorem FetchMove.fewer {s : Session} {task : FetchTask} {ids more : List (FixedBytes 16)}
    {after : FetchTask × Session} (h : FetchMove s task ids after) (hsub : ids.Sublist more) :
    FetchMove s task more after := by
  cases h with
  | goes_on spoke auto stored running => exact .goes_on (spoke.fewer hsub) auto stored running
  | writes bytes quiet running => exact .writes bytes quiet running
  | finishes task' result spoke auto stored running =>
    exact .finishes task' result (spoke.fewer hsub) auto stored running

theorem fetchMove_begin_download (attempt : Nat) :
    FetchMove s task [] (s.begin_download task attempt) :=
  .goes_on (.of_quiet (s.quiet_set_status _ _)) rfl rfl (fun _ h => by cases h)

theorem fetchMove_finish_local (world : FetchWorld) (hrun : ∀ r, task.stage ≠ .done r) :
    FetchMove s task [world.complete.draw.id] (s.finish_local task world) := by
  unfold finish_local
  have h₁ := s.says_mark_complete task.hash none world.complete
  rcases hm : s.mark_complete task.hash none world.complete with ⟨_ | _, s₁⟩ <;> rw [hm] at h₁
  · exact .finishes task _ h₁ rfl rfl hrun
  · exact .finishes task _ h₁ rfl rfl hrun

theorem fetchMove_run_round (attempt : Nat) (world : FetchWorld)
    (hrun : ∀ r, task.stage ≠ .done r) :
    FetchMove s task [world.draw.id] (s.run_round task attempt world) := by
  unfold run_round
  split
  · exact (s.fetchMove_begin_download task attempt).fewer (List.nil_sublist _)
  · have h₁ := s.says_broadcast (.Request ⟨task.hash⟩) world.draw
    unfold request
    rcases hr : s.broadcast (.Request ⟨task.hash⟩) world.draw with ⟨_ | _, s₁⟩ <;> rw [hr] at h₁
    · exact .finishes task _ h₁ rfl rfl hrun
    · exact .goes_on h₁ rfl rfl (fun _ h => by cases h)

theorem fetchMove_fail_attempt (attempt : Nat) (error : DropError) (world : FetchWorld)
    (hrun : ∀ r, task.stage ≠ .done r) :
    FetchMove s task [world.draw.id] (s.fail_attempt task attempt error world) := by
  unfold fail_attempt
  have h₁ := s.says_broadcast (.Request ⟨task.hash⟩) world.draw
  unfold request
  rcases hr : s.broadcast (.Request ⟨task.hash⟩) world.draw with ⟨_ | _, s₁⟩ <;> rw [hr] at h₁
  · simp only [hr]
    exact .finishes _ _ h₁ rfl rfl hrun
  · simp only [hr]
    exact .goes_on h₁ rfl rfl (fun _ h => by cases h)

theorem quiet_credit_provider : Quiet s (s.credit_provider task) := by
  unfold credit_provider
  split
  · exact .refl s
  · exact .of_state ⟨rfl, rfl, rfl, rfl, rfl, rfl⟩

theorem fetchMove_run_verify (world : FetchWorld) (hrun : ∀ r, task.stage ≠ .done r) :
    FetchMove s task [world.complete.draw.id] (s.run_verify task world) := by
  unfold run_verify
  split
  · exact .finishes task _ (.idle s _) rfl rfl hrun
  · split
    · rename_i size _
      have h₁ := (Says.of_quiet (s.quiet_credit_provider task)).trans
        ((s.credit_provider task).says_mark_complete task.hash (some size) world.complete)
      rcases hm : (s.credit_provider task).mark_complete task.hash (some size) world.complete
        with ⟨_ | _, s₁⟩ <;> rw [hm] at h₁
      · simp only [hm]
        exact .finishes task _ h₁ rfl rfl hrun
      · simp only [hm]
        split
        · exact .finishes task _ h₁ rfl rfl hrun
        · exact .finishes task _ (h₁.quiet (s₁.quiet_emit _)) rfl rfl hrun
    · exact .finishes task _ (.idle s _) rfl rfl hrun

theorem fetchMove_download_item (attempt : Nat) (outcome : Except DropError Unit)
    (item : DownloadProgressItem) :
    FetchMove s task [] (s.download_item task attempt outcome item) := by
  have hstill : ∀ r, task.stage = .done r → task.stage = .done r := fun _ h => h
  cases item with
  | TryProvider id => exact .goes_on (.of_quiet (s.quiet_emit _)) rfl rfl hstill
  | ProviderFailed id now =>
    exact .goes_on (.of_quiet ⟨rfl, rfl, ⟨rfl, rfl, rfl, rfl, rfl, rfl⟩, rfl, rfl⟩) rfl rfl hstill
  | Progress downloaded =>
    exact .goes_on (.of_quiet ((s.quiet_set_status _ _).trans (quiet_emit _ _))) rfl rfl hstill
  | PartComplete => exact .goes_on .refl rfl rfl (fun _ h => by cases h)
  | DownloadError => exact .goes_on .refl rfl rfl (fun _ h => by cases h)
  | Error reason => exact .goes_on .refl rfl rfl (fun _ h => by cases h)

omit [Crypto] in
theorem next_round_not_done (attempt : Nat) (r : Except DropError Unit) :
    next_round attempt ≠ .done r := by
  unfold next_round
  split <;> simp

theorem fetchMove_poll_asking (attempt : Nat) (timed_out : Bool) :
    FetchMove s task [] (s.poll_asking task attempt timed_out) := by
  unfold poll_asking
  split
  · exact s.fetchMove_begin_download task attempt
  · split
    · exact .goes_on .refl rfl rfl (fun r h => absurd h (next_round_not_done attempt r))
    · exact .goes_on .refl rfl rfl (fun _ h => h)

theorem fetchMove_poll_reasking (attempt : Nat) (timed_out : Bool) :
    FetchMove s task [] (s.poll_reasking task attempt timed_out) := by
  unfold poll_reasking
  split
  · exact .goes_on .refl rfl rfl (fun r h => absurd h (next_round_not_done attempt r))
  · exact .goes_on .refl rfl rfl (fun _ h => h)

end Session

/-- The ids that an event of a fetch brings. -/
def FetchEvent.ids : FetchEvent → List (FixedBytes 16)
  | .run world => [world.draw.id, world.complete.draw.id]
  | .stream_failed _ world | .ended world => [world.draw.id]
  | .poll _ | .item _ | .store_write _ _ => []

namespace Session

variable (s : Session) (task : FetchTask)

/-- What one stretch of a fetch can do. -/
theorem fetchMove_fetch_step (event : FetchEvent) :
    FetchMove s task event.ids (s.fetch_step task event) := by
  have hidle : ∀ ids, FetchMove s task ids (task, s) := fun ids =>
    .goes_on (.idle s ids) rfl rfl (fun _ h => h)
  have hrun : ∀ {stage : FetchStage}, task.stage = stage → (∀ r, stage ≠ .done r) →
      ∀ r, task.stage ≠ .done r := fun h hne r => h ▸ hne r
  cases event with
  | run world =>
    unfold fetch_step FetchEvent.ids
    rcases h : task.stage with _ | attempt | attempt | ⟨attempt, outcome⟩ | attempt | _ | r
    case start =>
      simp only
      split
      · exact (s.fetchMove_finish_local task world (hrun h (by simp))).fewer
          (List.sublist_cons_self _ _)
      · exact .goes_on (.idle s _) rfl rfl (fun _ h => by cases h)
    case round =>
      have hround : FetchMove s task [world.draw.id, world.complete.draw.id] _ :=
        (s.fetchMove_run_round task attempt world (hrun h (by simp))).fewer
          (List.sublist_append_left _ [world.complete.draw.id])
      simpa only [h] using hround
    case verify =>
      simpa only [h] using (s.fetchMove_run_verify task world (hrun h (by simp))).fewer
        (List.sublist_cons_self _ _)
    all_goals simpa only [h] using hidle _
  | poll timed_out =>
    unfold fetch_step FetchEvent.ids
    rcases h : task.stage with _ | attempt | attempt | ⟨attempt, outcome⟩ | attempt | _ | r
    case asking => simpa only [h] using s.fetchMove_poll_asking task attempt timed_out
    case reasking => simpa only [h] using s.fetchMove_poll_reasking task attempt timed_out
    all_goals simpa only [h] using hidle _
  | stream_failed reason world =>
    unfold fetch_step FetchEvent.ids
    rcases h : task.stage with _ | attempt | attempt | ⟨attempt, outcome⟩ | attempt | _ | r
    case downloading =>
      simpa only [h] using s.fetchMove_fail_attempt task attempt _ world (hrun h (by simp))
    all_goals simpa only [h] using hidle _
  | item item =>
    unfold fetch_step FetchEvent.ids
    rcases h : task.stage with _ | attempt | attempt | ⟨attempt, outcome⟩ | attempt | _ | r
    case downloading =>
      simpa only [h] using s.fetchMove_download_item task attempt outcome item
    all_goals simpa only [h] using hidle _
  | store_write bytes status =>
    unfold fetch_step FetchEvent.ids
    rcases h : task.stage with _ | attempt | attempt | ⟨attempt, outcome⟩ | attempt | _ | r
    case downloading =>
      simp only
      have hq : Quiet s { s with store := fun h => if h = task.hash then status else s.store h } :=
        ⟨rfl, rfl, .refl _, rfl, rfl⟩
      have hw : FetchMove s task [] _ := .writes bytes hq (hrun h (by simp))
      simpa only [h] using hw
    all_goals simpa only [h] using hidle _
  | ended world =>
    unfold fetch_step FetchEvent.ids
    rcases h : task.stage with _ | attempt | attempt | ⟨attempt, outcome⟩ | attempt | _ | r
    case downloading =>
      simp only [end_download]
      rcases outcome with e | _
      · exact s.fetchMove_fail_attempt task attempt e world (hrun h (by simp))
      · exact .goes_on (.idle s _) rfl rfl (fun _ h => by cases h)
    all_goals simpa only [h] using hidle _

theorem finish_fetch_keeps (result : Except DropError Unit) :
    (s.finish_fetch task result).2.toSessionConfig = s.toSessionConfig ∧
      (s.finish_fetch task result).2.sent = s.sent ∧
      SameLog s.state (s.finish_fetch task result).2.state := by
  unfold finish_fetch
  rcases result with e | _ <;> rcases task.auto with _ | size
  all_goals exact ⟨rfl, rfl, ⟨rfl, rfl, rfl, rfl, rfl, rfl⟩⟩

/-- But for the accounts, an event of a fetch says frames and no more. -/
theorem fetch_event_spoke (i : Nat) (event : FetchEvent) :
    ∃ s₁, Says s event.ids s₁ ∧ (s.fetch_event i event).toSessionConfig = s₁.toSessionConfig ∧
      (s.fetch_event i event).sent = s₁.sent ∧
      SameLog s₁.state (s.fetch_event i event).state := by
  unfold fetch_event
  split
  · exact ⟨s, .idle s _, rfl, rfl, .refl _⟩
  · rename_i task _
    have hmove := s.fetchMove_fetch_step task event
    generalize s.fetch_step task event = moved at hmove ⊢
    cases hmove with
    | @goes_on _ s₁ spoke => exact ⟨s₁, spoke, rfl, rfl, .refl _⟩
    | writes bytes quiet => exact ⟨s, .idle s _, quiet.config, quiet.sent, quiet.log⟩
    | @finishes s₁ task' result spoke =>
      obtain ⟨hconfig, hsent, hlog⟩ := s₁.finish_fetch_keeps task' result
      exact ⟨s₁, spoke, hconfig, hsent, hlog⟩

/-! ## Intake -/

theorem quiet_record_received_or_reserves (author : EndpointId) (offer : OfferV1)
    (decision : OfferDecision) (now : Instant) :
    Quiet s (s.record_received author offer decision now) ∨
      ∃ s₁, Quiet s s₁ ∧ s.policy.auto_fetch = true ∧
        s.policy.check_auto_fetch offer s₁.active_fetches s.auto_fetch_bytes = .ok () ∧
        s.record_received author offer decision now = s₁.spawn_auto_fetch offer := by
  unfold record_received
  have hlog := DropState.sameLog_record_offer_bounded s.state author offer now
  rcases hr : s.state.record_offer_bounded author offer now with ⟨_ | _ | _, state⟩ <;>
    rw [hr] at hlog
  case Known => exact .inl (.of_state hlog)
  case QuotaExceeded => exact .inl ((Quiet.of_state hlog).trans (quiet_emit _ _))
  case New evicted =>
    simp only
    generalize hs : (ite (evicted = []) { s with state } (emit { s with state }
      (.ProtocolWarning none (.InventoryEvicted evicted.length)))).emit
        (.OfferReceived author offer) = s₁
    have hq : Quiet s s₁ := by
      rw [← hs]
      refine Quiet.trans ?_ (quiet_emit _ _)
      split
      · exact .of_state hlog
      · exact (Quiet.of_state hlog).trans (quiet_emit _ _)
    have hp : s₁.policy = s.policy := congrArg SessionConfig.policy hq.config
    unfold evaluate_auto_fetch
    split
    · exact .inl hq
    · rename_i hauto
      split
      · exact .inl hq
      · split
        · exact .inl (hq.trans (quiet_emit _ _))
        · rename_i hc
          split
          · exact .inl hq
          · split
            · refine .inr ⟨s₁, hq, ?_, ?_, rfl⟩
              · rw [← hp]
                simpa using (not_or.mp hauto).1
              · rw [← hp, ← hq.auto_fetch_bytes]
                exact hc
            · exact .inl hq

/-- A request is answered: the peer has a token, the store has the blob, and
the last answer is some time ago. -/
def AnswersRequest (hash : BlobHash) (asker : EndpointId) (now : Instant) : Prop :=
  (s.request_limiter.allow_at asker now).1 = true ∧ s.holds hash = true ∧
    s.replied_recently hash now = false

theorem handle_request_cases (hash : BlobHash) (asker : EndpointId) (world : IntakeWorld) :
    (Quiet s (s.handle_request hash asker world) ∧
      ¬ s.AnswersRequest hash asker world.draw.now) ∨
    ∃ s₁, Quiet s s₁ ∧ s.AnswersRequest hash asker world.draw.now ∧
      s.handle_request hash asker world = s₁.reply_available hash world := by
  unfold handle_request AnswersRequest
  rcases hl : s.request_limiter.allow_at asker world.draw.now with ⟨_ | _, limiter⟩
  · exact .inl ⟨⟨rfl, rfl, .refl _, rfl, rfl⟩, by simp⟩
  · simp only [Bool.not_true, Bool.false_eq_true, if_false, true_and]
    have hholds : holds { s with request_limiter := limiter } hash = s.holds hash := rfl
    have hrecent : replied_recently { s with request_limiter := limiter } hash world.draw.now =
        s.replied_recently hash world.draw.now := rfl
    rw [hholds, hrecent]
    rcases s.holds hash
    · exact .inl ⟨⟨rfl, rfl, .refl _, rfl, rfl⟩, by simp⟩
    · rcases s.replied_recently hash world.draw.now
      · exact .inr ⟨{ s with
          request_limiter := limiter
          request_replies := s.request_replies.insert hash world.draw.now },
          ⟨rfl, rfl, .refl _, rfl, rfl⟩, by simp, rfl⟩
      · exact .inl ⟨⟨rfl, rfl, .refl _, rfl, rfl⟩, by simp⟩

/-- What acting on a new message can do: nothing that leaves a trace, the
start of an automatic fetch, or the answer to a request. -/
inductive Dispatched (verified : VerifiedMessage) (delivered_from : EndpointId)
    (world : IntakeWorld) : Session → Prop where
  | quietly {s' : Session} (quiet : Quiet s s')
      (silent : ∀ request, verified.body = some (.Request request) →
        ¬ s.AnswersRequest request.blob_hash delivered_from world.draw.now) :
      Dispatched verified delivered_from world s'
  | reserves {s₁ : Session} (offer : OfferV1) (quiet : Quiet s s₁)
      (body : verified.body = some (.Offer offer)) (auto : s.policy.auto_fetch = true)
      (check : s.policy.check_auto_fetch offer s₁.active_fetches s.auto_fetch_bytes = .ok ()) :
      Dispatched verified delivered_from world (s₁.spawn_auto_fetch offer)
  | answers {s₁ : Session} (request : RequestV1) (quiet : Quiet s s₁)
      (body : verified.body = some (.Request request))
      (wanted : s.AnswersRequest request.blob_hash delivered_from world.draw.now) :
      Dispatched verified delivered_from world (s₁.reply_available request.blob_hash world)

theorem dispatched (verified : VerifiedMessage) (delivered_from : EndpointId)
    (world : IntakeWorld) :
    s.Dispatched verified delivered_from world (s.dispatch verified delivered_from world) := by
  unfold dispatch
  rcases hb : verified.body with _ | (offer | provider | request | ext)
  · simp only
    split
    · exact .quietly (s.quiet_emit _) (by simp [hb])
    · exact .quietly (.refl s) (by simp [hb])
  · simp only [handle_offer]
    split
    · exact .quietly (s.quiet_emit _) (by simp [hb])
    · rcases s.quiet_record_received_or_reserves verified.author offer _ world.draw.now
        with h | ⟨s₁, hq, hauto, hc, heq⟩
      · exact .quietly h (by simp [hb])
      · rw [heq]
        exact .reserves offer hq hb hauto hc
  · refine .quietly ?_ (by simp [hb])
    simp only [handle_provider]
    rcases provider.state
    all_goals
      simp only
      split
      · exact ⟨rfl, rfl, ⟨rfl, rfl, rfl, rfl, rfl, rfl⟩, rfl, rfl⟩
      · exact ⟨rfl, rfl, ⟨rfl, rfl, rfl, rfl, rfl, rfl⟩, rfl, rfl⟩
  · rcases s.handle_request_cases request.blob_hash delivered_from world
      with ⟨h, hno⟩ | ⟨s₁, hq, hyes, heq⟩
    · refine .quietly h (fun request' h' => ?_)
      rw [hb] at h'
      cases h'
      exact hno
    · simp only [heq]
      exact .answers request hq hb hyes
  · refine .quietly ?_ (by simp [hb])
    simp only [handle_extension]
    split
    · exact ⟨rfl, rfl, .refl _, rfl, rfl⟩
    · exact .refl s

/-! ## Messages -/

end Session

/-- The key under which the dedup cache knows a message. -/
def VerifiedMessage.key (self : VerifiedMessage) : DedupKey := (self.author, self.message.id)

/-- The dedup cache after a look at `key`. -/
def DropState.noted (self : DropState) (key : DedupKey) (now : Instant) : DropState :=
  (self.check_and_insert key now).2

/-- The message is one that the dedup cache does not know. -/
def DropState.is_fresh (self : DropState) (key : DedupKey) (now : Instant) : Bool :=
  (self.check_and_insert key now).1

namespace SameLog

theorem noted {a b : DropState} (h : SameLog a b) (key : DedupKey) (now : Instant) :
    SameLog (a.noted key now) (b.noted key now) := by
  refine ⟨?_, h.2, h.3, h.4, h.5, h.6⟩
  exact congrArg (fun seen => (DedupCache.check_and_insert seen key now).2) h.seen_messages

theorem is_fresh {a b : DropState} (h : SameLog a b) (key : DedupKey) (now : Instant) :
    b.is_fresh key now = a.is_fresh key now :=
  congrArg (fun seen => (DedupCache.check_and_insert seen key now).1) h.seen_messages

theorem retain_frame {a b : DropState} (h : SameLog a b) (frame : Bytes) :
    SameLog (a.retain_frame frame) (b.retain_frame frame) := by
  unfold DropState.retain_frame
  rw [h.sync_log, h.sync_log_bytes, h.sync_log_start]
  exact ⟨h.1, rfl, rfl, rfl, h.5, h.6⟩

theorem retain {a b : DropState} (h : SameLog a b) (r : Retain) (frame : Bytes) :
    SameLog (a.retain r frame) (b.retain r frame) := by
  cases r with
  | Yes => exact h.retain_frame frame
  | No => exact h
  | Unknown =>
    simp only [DropState.retain, DropState.retain_unknown_frame]
    rw [h.unknown_frames, h.unknown_frames_bytes]
    split
    · exact h
    · exact retain_frame (a := { a with
        unknown_frames := a.unknown_frames + 1
        unknown_frames_bytes := a.unknown_frames_bytes + frame.length })
        (b := { b with
        unknown_frames := a.unknown_frames + 1
        unknown_frames_bytes := a.unknown_frames_bytes + frame.length })
        ⟨h.1, h.2, h.3, h.4, rfl, rfl⟩ frame

end SameLog

namespace Session

variable (s : Session)

/-- The session once it has noted a new message and kept its frame. -/
def taken (verified : VerifiedMessage) (delivered_from : EndpointId) (raw : Bytes)
    (now : Instant) : Session :=
  ((s.take_token delivered_from now).2.note_message verified delivered_from now).2.retain verified raw

/-- The delivering peer has a token for the message. -/
def admits (delivered_from : EndpointId) (now : Instant) : Bool :=
  (s.take_token delivered_from now).1

theorem note_message_fst (verified : VerifiedMessage) (delivered_from : EndpointId)
    (now : Instant) :
    ((s.take_token delivered_from now).2.note_message verified delivered_from now).1 =
      s.state.is_fresh verified.key now :=
  (DropState.sameLog_note_peer s.state delivered_from).is_fresh verified.key now

theorem taken_log (verified : VerifiedMessage) (delivered_from : EndpointId) (raw : Bytes)
    (now : Instant) :
    SameLog ((s.state.noted verified.key now).retain (retainable verified.body) raw)
      (s.taken verified delivered_from raw now).state :=
  ((DropState.sameLog_note_peer s.state delivered_from).noted verified.key now).retain _ raw

/-- A message that is thrown away by flow control leaves no trace. -/
theorem handle_message_limited {delivered_from : EndpointId} {world : IntakeWorld}
    (h : s.admits delivered_from world.draw.now = false) (verified : VerifiedMessage)
    (raw : Bytes) : Quiet s (s.handle_message verified delivered_from raw world) := by
  have heq : s.handle_message verified delivered_from raw world =
      (s.take_token delivered_from world.draw.now).2.emit
        (.ProtocolWarning (some delivered_from) .RateLimited) := by
    unfold handle_message
    rcases ha : s.take_token delivered_from world.draw.now with ⟨_ | _, s₁⟩
    · rfl
    · rw [admits, ha] at h
      cases h
  rw [heq]
  exact ⟨rfl, rfl, .refl _, rfl, rfl⟩

/-- A message that is known is noted, and that is all. -/
theorem handle_message_noted {verified : VerifiedMessage} {delivered_from : EndpointId}
    {world : IntakeWorld} (ha : s.admits delivered_from world.draw.now = true)
    (hf : s.state.is_fresh verified.key world.draw.now = false) (raw : Bytes) :
    s.handle_message verified delivered_from raw world =
      ((s.take_token delivered_from world.draw.now).2.note_message verified delivered_from
        world.draw.now).2 := by
  have hn := s.note_message_fst verified delivered_from world.draw.now
  rw [hf] at hn
  unfold handle_message
  rw [admits] at ha
  rcases ha' : s.take_token delivered_from world.draw.now with ⟨_ | _, s₁⟩
  · rw [ha'] at ha
    cases ha
  · rw [ha'] at hn
    simp only
    rcases hn' : s₁.note_message verified delivered_from world.draw.now with ⟨_ | _, s₂⟩
    · rfl
    · rw [hn'] at hn
      cases hn

/-- A message that is known changes the dedup cache alone. -/
theorem handle_message_known {verified : VerifiedMessage} {delivered_from : EndpointId}
    {world : IntakeWorld} (ha : s.admits delivered_from world.draw.now = true)
    (hf : s.state.is_fresh verified.key world.draw.now = false) (raw : Bytes) :
    ∃ s₁, s.handle_message verified delivered_from raw world = s₁ ∧
      s₁.toSessionConfig = s.toSessionConfig ∧ s₁.sent = s.sent ∧
      SameLog (s.state.noted verified.key world.draw.now) s₁.state ∧
      s₁.auto_fetch_bytes = s.auto_fetch_bytes ∧ s₁.fetches = s.fetches := by
  refine ⟨_, s.handle_message_noted ha hf raw, rfl, rfl, ?_, rfl, rfl⟩
  exact (DropState.sameLog_note_peer s.state delivered_from).noted verified.key world.draw.now

/-- A message that is new is noted, kept and acted on. -/
theorem handle_message_fresh {verified : VerifiedMessage} {delivered_from : EndpointId}
    {world : IntakeWorld} (ha : s.admits delivered_from world.draw.now = true)
    (hf : s.state.is_fresh verified.key world.draw.now = true) (raw : Bytes) :
    s.handle_message verified delivered_from raw world =
      (s.taken verified delivered_from raw world.draw.now).dispatch verified delivered_from
        world := by
  have hn := s.note_message_fst verified delivered_from world.draw.now
  rw [hf] at hn
  unfold handle_message taken
  rw [admits] at ha
  rcases ha' : s.take_token delivered_from world.draw.now with ⟨_ | _, s₁⟩
  · rw [ha'] at ha
    cases ha
  · rw [ha'] at hn
    simp only
    rcases hn' : s₁.note_message verified delivered_from world.draw.now with ⟨_ | _, s₂⟩
    · rw [hn'] at hn
      cases hn
    · rfl

/-! ## Restored frames -/

/-- What a restored frame can do to the history: nothing, an entry in the
dedup cache, or a frame in the log besides. -/
inductive Restored (frame : Bytes) (now : Instant) : Session → Prop where
  | skipped (bad : ∀ verified, MessageV1.decode frame s.topic_id ≠ .ok verified) :
      Restored frame now s
  | noted {s₁ : Session} (verified : VerifiedMessage)
      (decoded : MessageV1.decode frame s.topic_id = .ok verified)
      (config : s₁.toSessionConfig = s.toSessionConfig) (sent : s₁.sent = s.sent)
      (log : SameLog (s.state.noted verified.key now) s₁.state)
      (auto_fetch_bytes : s₁.auto_fetch_bytes = s.auto_fetch_bytes)
      (fetches : s₁.fetches = s.fetches) : Restored frame now s₁
  | kept {s₁ : Session} (verified : VerifiedMessage)
      (decoded : MessageV1.decode frame s.topic_id = .ok verified)
      (body : ∃ body, verified.message.body.decode = .ok (some body) ∧ body.retain = .Yes)
      (fresh : s.state.is_fresh verified.key now = true)
      (config : s₁.toSessionConfig = s.toSessionConfig) (sent : s₁.sent = s.sent)
      (log : SameLog ((s.state.noted verified.key now).retain_frame frame) s₁.state)
      (auto_fetch_bytes : s₁.auto_fetch_bytes = s.auto_fetch_bytes)
      (fetches : s₁.fetches = s.fetches) : Restored frame now s₁

@[simp] theorem restore_history_cons (frame : Bytes) (now : Instant)
    (frames : List (Bytes × Instant)) :
    (s.restore_history ((frame, now) :: frames)).2 =
      ((s.restore_frame frame now).2.restore_history frames).2 := rfl

theorem restored (frame : Bytes) (now : Instant) :
    s.Restored frame now (s.restore_frame frame now).2 := by
  unfold restore_frame
  rcases hd : MessageV1.decode frame s.topic_id with e | verified
  · exact .skipped (by simp [hd])
  · simp only
    have hn : s.state.noted verified.key now =
        (s.state.check_and_insert (verified.author, verified.message.id) now).2 := rfl
    have hf : s.state.is_fresh verified.key now =
        (s.state.check_and_insert (verified.author, verified.message.id) now).1 := rfl
    rcases hc : s.state.check_and_insert (verified.author, verified.message.id) now
      with ⟨_ | _, state⟩ <;> rw [hc] at hn hf <;> simp only at hn hf
    · exact .noted verified hd rfl rfl (hn ▸ .refl _) rfl rfl
    · simp only
      split
      · rename_i offer hbody
        refine .kept verified hd ⟨_, hbody, rfl⟩ hf rfl rfl ?_ rfl rfl
        rw [hn]
        exact DropState.sameLog_record_offer_inner _ _ offer now
      · rename_i provider hbody
        refine .kept verified hd ⟨_, hbody, rfl⟩ hf rfl rfl ?_ rfl rfl
        rw [hn]
        split
        all_goals exact ⟨rfl, rfl, rfl, rfl, rfl, rfl⟩
      · exact .noted verified hd rfl rfl (hn ▸ .refl _) rfl rfl
      · exact .noted verified hd rfl rfl (hn ▸ .refl _) rfl rfl

/-! ## Steps -/

theorem quiet_replay_extension («namespace» : FixedBytes 16) (frame : Bytes) :
    Quiet s (replay_extension «namespace» s frame) := by
  unfold replay_extension
  split
  · exact .refl s
  · split
    · split
      · exact ⟨rfl, rfl, .refl _, rfl, rfl⟩
      · exact .refl s
    · exact .refl s

theorem quiet_replay_extensions («namespace» : FixedBytes 16) (frames : List Bytes) :
    Quiet s (frames.foldl (replay_extension «namespace») s) := by
  induction frames generalizing s with
  | nil => exact .refl s
  | cons frame frames ih => exact (s.quiet_replay_extension _ frame).trans (ih _)

theorem quiet_on_extension («namespace» : FixedBytes 16) :
    Quiet s (s.on_extension «namespace») := by
  have h := quiet_replay_extensions
    { s with extension_sinks := s.extension_sinks.insert «namespace» () } «namespace»
    s.state.sync_log
  exact ⟨h.1, h.2, h.3, h.4, h.5⟩

theorem quiet_maybe_sync_from_neighbor (peer : EndpointId) (now : Instant) :
    Quiet s (s.maybe_sync_from_neighbor peer now) := by
  unfold maybe_sync_from_neighbor
  extract_lets s₁
  have h₁ : Quiet s s₁ := by
    unfold s₁
    split
    · exact ⟨rfl, rfl, .refl _, rfl, rfl⟩
    · exact .refl s
  split
  · exact h₁
  · exact h₁.trans ⟨rfl, rfl, .refl _, rfl, rfl⟩

theorem quiet_neighbor_up (peer : EndpointId) (now : Instant) :
    Quiet s (s.neighbor_up peer now) := by
  unfold neighbor_up
  extract_lets src state s₁
  have h := (s₁.quiet_emit (.PeerJoined peer)).trans (quiet_maybe_sync_from_neighbor _ peer now)
  exact ⟨h.1, h.2, ⟨h.3.1, h.3.2, h.3.3, h.3.4, h.3.5, h.3.6⟩, h.4, h.5⟩

end Session

/-- A frame that the step brings in, the peer that hands it over, and what
the world gives with it. -/
def Step.intake : Step → Option (Bytes × EndpointId × IntakeWorld)
  | .received content delivered_from world => some (content, delivered_from, world)
  | .replayed frame peer world => some (frame, peer, world)
  | _ => none

/-- The ids that the random generator gives for the calls of a step. -/
def Step.ids (s : Session) : Step → List (FixedBytes 16)
  | .publish_path_as _ _ world | .publish_bytes_with _ _ _ _ world => Session.import_ids world
  | .send_extension _ _ _ _ draw => [draw.id]
  | .reannounce _ world _ draw => [world.draw.id, draw.id]
  | .announce_withdrawal _ draws => s.complete_hashes.map (fun hash => (draws hash).id)
  | .fetch_event _ event => event.ids
  | _ => []

/-- What one step of a session can do. -/
inductive Stepped (s : Session) : Step → Session → Prop where
  | spoke {i : Step} {s' : Session} (spoke : Says s (i.ids s) s') : Stepped s i s'
  | took {i : Step} {frame : Bytes} {peer : EndpointId} {world : IntakeWorld}
      (verified : VerifiedMessage) (intake : i.intake = some (frame, peer, world))
      (decoded : Session.decode_for_session s.toSessionConfig frame = .ok verified) :
      Stepped s i (s.handle_message verified peer frame world)
  | restored (frames : List (Bytes × Instant)) :
      Stepped s (.restore_history frames) (s.restore_history frames).2
  | fetches (hash : BlobHash) : Stepped s (.fetch hash) (s.start_fetch hash)
  | fetched (j : Nat) (event : FetchEvent) :
      Stepped s (.fetch_event j event) (s.fetch_event j event)

theorem stepped (s : Session) (i : Step) : Stepped s i (s.step i) := by
  cases i with
  | received content delivered_from world =>
    simp only [Session.step, Session.receive]
    split
    · rename_i verified hd
      exact .took verified rfl hd
    · exact .spoke (.of_quiet ((s.quiet_emit _).trans (Session.quiet_emit _ _)))
  | replayed frame peer world =>
    simp only [Session.step, Session.replay]
    split
    · exact .spoke .refl
    · split
      · rename_i verified hd
        exact .took verified rfl hd
      · exact .spoke .refl
  | neighbor_up peer now => exact .spoke (.of_quiet (s.quiet_neighbor_up peer now))
  | neighbor_down peer => exact .spoke (.of_quiet ⟨rfl, rfl, .refl _, rfl, rfl⟩)
  | lagged => exact .spoke (.of_quiet (s.quiet_emit _))
  | publish_path_as path name world => exact .spoke (s.says_publish_path_as path name world)
  | publish_bytes_with name bytes media_type metadata world =>
    exact .spoke (s.says_publish_bytes_with name bytes media_type metadata world)
  | send_extension «namespace» local_kind schema_version payload draw =>
    exact .spoke (s.says_send_extension «namespace» local_kind schema_version payload draw)
  | on_extension «namespace» => exact .spoke (.of_quiet (s.quiet_on_extension «namespace»))
  | reannounce hash world ms draw => exact .spoke (s.says_reannounce hash world ms draw)
  | announce_withdrawal ms draws => exact .spoke (s.says_announce_withdrawal ms draws)
  | restore_history frames => exact .restored frames
  | fetch hash => exact .fetches hash
  | fetch_event j event => exact .fetched j event
  | store_changed hash status => exact .spoke (.of_quiet ⟨rfl, rfl, .refl _, rfl, rfl⟩)
  | released => exact .spoke (.of_quiet ⟨rfl, rfl, .refl _, rfl, rfl⟩)

end iroh_drop
