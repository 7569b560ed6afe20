-- What a session tells its subscribers: it takes no event back, and an offer
-- is told just when the table takes it as new (session.rs).
import IrohDrop.KeptTickets

open rust_std postcard

namespace iroh_drop

section Laws

variable [Crypto]

/-! ## Told offers -/

/-- The offers among the events, each with its author. -/
def told_offers (events : List DropEvent) : List (EndpointId × OfferV1) :=
  events.filterMap fun
    | .OfferReceived «from» offer => some («from», offer)
    | _ => none

@[simp] theorem told_offers_nil : told_offers [] = [] := rfl

@[simp] theorem told_offers_append (events more : List DropEvent) :
    told_offers (events ++ more) = told_offers events ++ told_offers more :=
  List.filterMap_append

/-- From `a` to `b` the session added events, with these offers among them. -/
def TellsOf (a : Session) (offers : List (EndpointId × OfferV1)) (b : Session) : Prop :=
  ∃ added, b.events = a.events ++ added ∧ told_offers added = offers

namespace TellsOf

variable {a b c : Session} {offers more : List (EndpointId × OfferV1)}

theorem same (h : b.events = a.events) : TellsOf a [] b := ⟨[], by rw [h, List.append_nil], rfl⟩

theorem refl (a : Session) : TellsOf a [] a := same rfl

theorem emit (s : Session) (event : DropEvent) : TellsOf s (told_offers [event]) (s.emit event) :=
  ⟨[event], rfl, rfl⟩

theorem trans (h : TellsOf a offers b) (h' : TellsOf b more c) : TellsOf a (offers ++ more) c := by
  obtain ⟨added, hadded, rfl⟩ := h
  obtain ⟨later, hlater, rfl⟩ := h'
  refine ⟨added ++ later, ?_, told_offers_append added later⟩
  rw [hlater, hadded, List.append_assoc]

/-- Nothing more is told. -/
theorem quiet (h : TellsOf a offers b) (h' : TellsOf b [] c) : TellsOf a offers c := by
  have hall := h.trans h'
  rwa [List.append_nil] at hall

end TellsOf

/-! ## What goes untold -/

namespace Session

variable (s : Session)

theorem events_broadcast_signed (msg : MessageV1) (retain : Retain) (draw : Draw) :
    (s.broadcast_signed msg retain draw).2.events = s.events := by
  unfold broadcast_signed transmit
  grind

theorem events_broadcast (body : MessageBodyV1) (draw : Draw) :
    (s.broadcast body draw).2.events = s.events :=
  s.events_broadcast_signed _ _ draw

theorem events_announce (hash : BlobHash) (state : ProviderState) (announced_at_ms : UInt64)
    (draw : Draw) : (s.announce hash state announced_at_ms draw).2.events = s.events :=
  s.events_broadcast _ draw

theorem events_request (hash : BlobHash) (draw : Draw) :
    (s.request hash draw).2.events = s.events :=
  s.events_broadcast _ draw

theorem events_import_with (name : String) (size : UInt64) (media_type : Option String)
    (metadata : BTreeMap String String) (world : ImportWorld) :
    (s.import_with name size media_type metadata world).2.events = s.events := by
  unfold import_with finish_import_with
  grind [events_broadcast, events_announce, hold]

theorem events_mark_complete (hash : BlobHash) (known_size : Option UInt64)
    (world : CompleteWorld) : (s.mark_complete hash known_size world).2.events = s.events := by
  unfold mark_complete
  grind [events_announce]

theorem events_announce_withdrawal (announced_at_ms : BlobHash → UInt64)
    (draws : BlobHash → Draw) :
    (s.announce_withdrawal announced_at_ms draws).events = s.events := by
  unfold announce_withdrawal
  generalize s.complete_hashes = hashes
  induction hashes generalizing s with
  | nil => rfl
  | cons hash hashes ih =>
    rw [List.foldl_cons, ih]
    exact s.events_announce _ _ _ _

theorem events_on_extension («namespace» : FixedBytes 16) :
    (s.on_extension «namespace»).events = s.events := by
  have hreplay : ∀ (frames : List Bytes) (s : Session),
      (frames.foldl (replay_extension «namespace») s).events = s.events := by
    intro frames
    induction frames with
    | nil => exact fun _ => rfl
    | cons frame frames ih =>
      intro s
      rw [List.foldl_cons, ih]
      unfold replay_extension
      grind
  exact hreplay _ _

/-- A restart tells nobody what it takes back. -/
theorem events_restore_history (frames : List (Bytes × Instant)) :
    (s.restore_history frames).2.events = s.events := by
  induction frames generalizing s with
  | nil => rfl
  | cons f frames ih =>
    rw [restore_history_cons, ih]
    unfold restore_frame
    grind

/-! ## Fetches -/

theorem tells_finish_fetch (task : FetchTask) (result : Except DropError Unit) :
    TellsOf s [] (s.finish_fetch task result).2 := by
  have hfailed : ∀ e, TellsOf s []
      ((s.set_status task.hash (.Failed true e.text)).emit (.FetchFailed task.hash e)) :=
    fun e => (TellsOf.same rfl).trans (.emit _ (.FetchFailed task.hash e))
  unfold finish_fetch
  rcases result with e | u
  · dsimp only
    split
    · exact hfailed e
    · exact (hfailed e).quiet (.same rfl)
  · dsimp only
    split
    · exact .refl s
    · exact .same rfl

theorem tells_begin_download (task : FetchTask) (attempt : Nat) :
    TellsOf s [] (s.begin_download task attempt).2 := .same rfl

theorem tells_run_round (task : FetchTask) (attempt : Nat) (world : FetchWorld) :
    TellsOf s [] (s.run_round task attempt world).2 := by
  unfold run_round
  split
  · exact s.tells_begin_download task attempt
  · have hrequest := s.events_request task.hash world.draw
    rcases hasked : s.request task.hash world.draw with ⟨e | u, asked⟩
    · rw [hasked] at hrequest
      exact (TellsOf.same hrequest).trans (asked.tells_finish_fetch task _)
    · rw [hasked] at hrequest
      exact .same hrequest

theorem tells_fail_attempt (task : FetchTask) (attempt : Nat) (error : DropError)
    (world : FetchWorld) : TellsOf s [] (s.fail_attempt task attempt error world).2 := by
  have hrequest := s.events_request task.hash world.draw
  unfold fail_attempt
  simp only
  rcases hasked : s.request task.hash world.draw with ⟨e | u, asked⟩
  · rw [hasked] at hrequest
    exact (TellsOf.same hrequest).trans (asked.tells_finish_fetch _ _)
  · rw [hasked] at hrequest
    exact .same hrequest

theorem tells_finish_local (task : FetchTask) (world : FetchWorld) :
    TellsOf s [] (s.finish_local task world).2 := by
  have hcomplete := s.events_mark_complete task.hash none world.complete
  unfold finish_local
  rcases hmarked : s.mark_complete task.hash none world.complete with ⟨e | size, marked⟩
  · rw [hmarked] at hcomplete
    exact (TellsOf.same hcomplete).trans (marked.tells_finish_fetch task _)
  · rw [hmarked] at hcomplete
    exact (TellsOf.same hcomplete).trans (marked.tells_finish_fetch task _)

theorem tells_run_verify (task : FetchTask) (world : FetchWorld) :
    TellsOf s [] (s.run_verify task world).2 := by
  have hcredit : (s.credit_provider task).events = s.events := by
    unfold credit_provider
    split <;> rfl
  unfold run_verify
  split
  · exact s.tells_finish_fetch task _
  · split
    · rename_i size _
      have hcomplete :=
        (s.credit_provider task).events_mark_complete task.hash (some size) world.complete
      simp only
      rcases hmarked : (s.credit_provider task).mark_complete task.hash (some size) world.complete
        with ⟨e | size, marked⟩
      all_goals
        rw [hmarked] at hcomplete
        have hsame : TellsOf s [] marked := .same (hcomplete.trans hcredit)
      · exact hsame.trans (marked.tells_finish_fetch task _)
      · rcases world.exported with e | u
        · exact hsame.trans (marked.tells_finish_fetch task _)
        · have htold : TellsOf s [] (marked.emit
              (.FetchCompleted task.hash (task.current_provider.getD marked.self_id))) :=
            hsame.trans (.emit marked _)
          exact htold.trans (tells_finish_fetch _ task _)
    · exact s.tells_finish_fetch task _

theorem tells_download_item (task : FetchTask) (attempt : Nat) (outcome : Except DropError Unit)
    (item : DownloadProgressItem) : TellsOf s [] (s.download_item task attempt outcome item).2 := by
  cases item with
  | TryProvider id => exact .emit s (.FetchStarted task.hash id)
  | ProviderFailed id now => exact (TellsOf.same rfl).trans (.emit _ (.ProtocolWarning (some id) _))
  | Progress downloaded =>
    exact (TellsOf.same rfl).trans (.emit _ (.FetchProgress task.hash downloaded task.total))
  | PartComplete => exact .refl s
  | DownloadError => exact .refl s
  | Error reason => exact .refl s

/-- A fetch tells of no offer. -/
theorem tells_fetch_step (task : FetchTask) (event : FetchEvent) :
    TellsOf s [] (s.fetch_step task event).2 := by
  cases event with
  | run world =>
    simp only [fetch_step]
    split
    · split
      · exact s.tells_finish_local task world
      · exact .refl s
    · exact s.tells_run_round task _ world
    · exact s.tells_run_verify task world
    · exact .refl s
  | poll timed_out =>
    simp only [fetch_step]
    split
    · unfold poll_asking
      split
      · exact s.tells_begin_download task _
      · split
        · exact .refl s
        · exact .refl s
    · unfold poll_reasking
      split
      · exact .refl s
      · exact .refl s
    · exact .refl s
  | stream_failed reason world =>
    simp only [fetch_step]
    split
    · exact s.tells_fail_attempt task _ _ world
    · exact .refl s
  | item item =>
    simp only [fetch_step]
    split
    · exact s.tells_download_item task _ _ item
    · exact .refl s
  | store_write bytes status =>
    refine .same ?_
    simp only [fetch_step]
    split <;> rfl
  | ended world =>
    simp only [fetch_step, end_download]
    split
    · split
      · exact .refl s
      · exact s.tells_fail_attempt task _ _ world
    · exact .refl s

theorem tells_fetch_event (i : Nat) (event : FetchEvent) :
    TellsOf s [] (s.fetch_event i event) := by
  unfold fetch_event
  split
  · exact .refl s
  · rename_i task _
    exact (s.tells_fetch_step task event).quiet (.same rfl)

/-! ## Offers -/

theorem tells_evaluate_auto_fetch (author : EndpointId) (offer : OfferV1)
    (decision : OfferDecision) :
    TellsOf s [] (s.evaluate_auto_fetch author offer decision) := by
  unfold evaluate_auto_fetch
  split
  · exact .refl s
  · split
    · exact .refl s
    · split
      · exact .emit s (.OfferRejected author _)
      · refine .same ?_
        grind [spawn_auto_fetch]

/-- The offer is told if the table takes it as new. -/
def recorded_offers (author : EndpointId) (offer : OfferV1) (now : Instant) :
    List (EndpointId × OfferV1) :=
  match (s.state.record_offer_bounded author offer now).1 with
  | .New _ => [(author, offer)]
  | _ => []

theorem tells_record_received (author : EndpointId) (offer : OfferV1) (decision : OfferDecision)
    (now : Instant) :
    TellsOf s (s.recorded_offers author offer now)
      (s.record_received author offer decision now) := by
  unfold record_received recorded_offers
  rcases s.state.record_offer_bounded author offer now with ⟨evicted | _ | _, state⟩
  · have hnew : ∀ a : Session, TellsOf s [] a →
        TellsOf s [(author, offer)] ((a.emit (.OfferReceived author offer)).evaluate_auto_fetch
          author offer decision) := by
      intro a ha
      have htold : TellsOf s [(author, offer)] (a.emit (.OfferReceived author offer)) :=
        ha.trans (.emit a _)
      exact htold.quiet (tells_evaluate_auto_fetch _ author offer decision)
    refine hnew _ ?_
    split
    · exact .same rfl
    · exact (TellsOf.same rfl).trans (.emit _ (.ProtocolWarning none _))
  · exact .same rfl
  · exact (TellsOf.same rfl).trans (.emit _ (.OfferRejected author _))

/-- The offer is put into the table by the handler, and is new there. -/
def handled_offers (author : EndpointId) (offer : OfferV1) (delivered_from : EndpointId)
    (now : Instant) : List (EndpointId × OfferV1) :=
  match s.offer_decision author offer delivered_from with
  | .Reject _ => []
  | _ => s.recorded_offers author offer now

theorem tells_handle_offer (author : EndpointId) (offer : OfferV1) (delivered_from : EndpointId)
    (now : Instant) :
    TellsOf s (s.handled_offers author offer delivered_from now)
      (s.handle_offer author offer delivered_from now) := by
  unfold handle_offer handled_offers
  rcases s.offer_decision author offer delivered_from with _ | _ | reason
  all_goals simp only
  · exact s.tells_record_received author offer _ now
  · exact s.tells_record_received author offer _ now
  · exact .emit s (.OfferRejected author _)

/-! ## Steps -/

theorem tells_handle_provider (author : EndpointId) (provider : ProviderV1) (id : FixedBytes 16) :
    TellsOf s [] (s.handle_provider author provider id) := by
  unfold handle_provider
  rcases provider.state
  all_goals
    simp only
    split
  · exact (TellsOf.same rfl).trans (.emit _ (.ProviderAvailable provider.blob_hash author))
  · exact .same rfl
  · exact (TellsOf.same rfl).trans (.emit _ (.ProviderUnavailable provider.blob_hash author))
  · exact .same rfl

theorem tells_handle_request (hash : BlobHash) (asker : EndpointId) (world : IntakeWorld) :
    TellsOf s [] (s.handle_request hash asker world) := by
  unfold handle_request
  simp only
  split
  · exact (TellsOf.same rfl).trans (.emit _ (.ProtocolWarning (some asker) _))
  · refine .same ?_
    grind [reply_available, transmit]

/-- The offer of a message that is acted on, if it is new. -/
def dispatched_offers (verified : VerifiedMessage) (delivered_from : EndpointId) (now : Instant) :
    List (EndpointId × OfferV1) :=
  match verified.body with
  | some (.Offer offer) => s.handled_offers verified.author offer delivered_from now
  | _ => []

theorem tells_dispatch (verified : VerifiedMessage) (delivered_from : EndpointId)
    (world : IntakeWorld) :
    TellsOf s (s.dispatched_offers verified delivered_from world.draw.now)
      (s.dispatch verified delivered_from world) := by
  unfold dispatch dispatched_offers
  rcases verified.body with _ | (offer | provider | request | ext)
  · simp only
    split
    · exact .emit s (.ProtocolWarning (some delivered_from) _)
    · exact .refl s
  · exact s.tells_handle_offer verified.author offer delivered_from world.draw.now
  · exact s.tells_handle_provider verified.author provider verified.message.id
  · exact s.tells_handle_request request.blob_hash delivered_from world
  · refine .same ?_
    simp only [handle_extension]
    split <;> rfl

/-- The offer that a step puts into the table as a new one. -/
def newly_recorded (i : Step) : List (EndpointId × OfferV1) :=
  match i.intake with
  | none => []
  | some (frame, peer, world) =>
    match decode_for_session s.toSessionConfig frame with
    | .error _ => []
    | .ok verified =>
      if s.admits peer world.draw.now && s.state.is_fresh verified.key world.draw.now then
        (s.taken verified peer frame world.draw.now).dispatched_offers verified peer world.draw.now
      else []

theorem tells_handle_message {frame : Bytes} {peer : EndpointId} {world : IntakeWorld}
    {verified : VerifiedMessage} :
    TellsOf s (if s.admits peer world.draw.now && s.state.is_fresh verified.key world.draw.now then
        (s.taken verified peer frame world.draw.now).dispatched_offers verified peer world.draw.now
      else []) (s.handle_message verified peer frame world) := by
  rcases hadmits : s.admits peer world.draw.now with _ | _
  · have hlimited : s.handle_message verified peer frame world =
        (s.take_token peer world.draw.now).2.emit
          (.ProtocolWarning (some peer) .RateLimited) := by
      unfold handle_message
      rcases htoken : s.take_token peer world.draw.now with ⟨_ | _, s₁⟩
      · rfl
      · rw [admits, htoken] at hadmits
        cases hadmits
    rw [hlimited]
    exact (TellsOf.same rfl).trans (.emit _ (.ProtocolWarning (some peer) _))
  · rcases hfresh : s.state.is_fresh verified.key world.draw.now with _ | _
    · rw [s.handle_message_noted hadmits hfresh]
      exact .same rfl
    · rw [s.handle_message_fresh hadmits hfresh]
      have htaken : TellsOf s [] (s.taken verified peer frame world.draw.now) := .same rfl
      exact htaken.trans (tells_dispatch _ verified peer world)

theorem tells_neighbor_up (peer : EndpointId) (now : Instant) :
    TellsOf s [] (s.neighbor_up peer now) := by
  have hpulled : ∀ a : Session, TellsOf a [] (a.maybe_sync_from_neighbor peer now) := by
    intro a
    refine .same ?_
    unfold maybe_sync_from_neighbor
    grind
  unfold neighbor_up
  exact ((TellsOf.same rfl).trans (.emit _ (.PeerJoined peer))).trans (hpulled _)

/-- A step tells of exactly the offers that it records as new. -/
theorem step_tells (i : Step) : TellsOf s (s.newly_recorded i) (s.step i) := by
  cases i with
  | received content peer world =>
    simp only [step, receive, newly_recorded, Step.intake]
    rcases decode_for_session s.toSessionConfig content with e | verified
    · have hrejected := TellsOf.emit s (.OfferRejected peer (reject_of e).1)
      exact hrejected.trans (.emit _ (.ProtocolWarning (some peer) _))
    · exact s.tells_handle_message
  | replayed frame peer world =>
    by_cases hblind : s.mode = .Sealed ∧ s.drop_key = none
    · have hnone : s.newly_recorded (.replayed frame peer world) = [] := by
        simp only [newly_recorded, Step.intake]
        rcases hdecode : decode_for_session s.toSessionConfig frame with e | verified
        · rfl
        · have hbody : verified.body = none := by
            simp only [decode_for_session, hblind.1, hblind.2] at hdecode
            exact verify_sealed_outer_body hdecode
          simp [dispatched_offers, hbody]
      rw [hnone]
      simp only [step, if_pos hblind]
      exact .refl s
    · simp only [step, replay, newly_recorded, Step.intake, if_neg hblind]
      rcases decode_for_session s.toSessionConfig frame with e | verified
      · exact .refl s
      · exact s.tells_handle_message
  | neighbor_up peer now => exact s.tells_neighbor_up peer now
  | neighbor_down peer => exact (TellsOf.same rfl).trans (.emit _ (.PeerLeft peer))
  | lagged => exact .emit s (.ProtocolWarning none .Lagged)
  | publish_path_as path name world =>
    refine .same ?_
    simp only [step, publish_path_as]
    grind [events_import_with]
  | publish_bytes_with name bytes media_type metadata world =>
    refine .same ?_
    simp only [step, publish_bytes_with]
    grind [events_import_with]
  | send_extension «namespace» local_kind schema_version payload draw =>
    refine .same ?_
    simp only [step, send_extension]
    grind [events_broadcast]
  | on_extension «namespace» => exact .same (s.events_on_extension «namespace»)
  | reannounce hash world announced_at_ms draw =>
    refine .same ?_
    simp only [step, reannounce]
    grind [events_mark_complete, events_announce]
  | announce_withdrawal announced_at_ms draws =>
    exact .same (s.events_announce_withdrawal announced_at_ms draws)
  | restore_history frames => exact .same (s.events_restore_history frames)
  | fetch hash => exact .same rfl
  | fetch_event i event => exact s.tells_fetch_event i event
  | store_changed hash status => exact .same rfl
  | released => exact .same rfl

end Session

end Laws

end iroh_drop
