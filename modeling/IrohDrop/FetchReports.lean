-- What a fetch tells the subscribers of its session, how often it speaks to
-- the group, and why it ends (session.rs, `fetch_inner`).
import IrohDrop.AutoFetch
import IrohDrop.SessionEvents
import IrohDrop.Speech

open rust_std postcard

namespace iroh_drop

section Laws

variable [Crypto]

/-! ## The events of a fetch -/

/-- News of a fetch of the blob that goes on. -/
def DropEvent.under_way (hash : BlobHash) : DropEvent → Prop
  | .FetchStarted h _ | .FetchProgress h _ _ => h = hash
  | .ProtocolWarning (some _) (.ProviderFailed _ h _) => h = hash.fmt_short
  | _ => False

/-- The news that a fetch is over: which blob, and why it failed. -/
def DropEvent.fetch_end : DropEvent → Option (BlobHash × Option DropError)
  | .FetchCompleted hash _ => some (hash, none)
  | .FetchFailed hash error => some (hash, some error)
  | _ => none

theorem DropEvent.under_way.not_end {hash : BlobHash} {event : DropEvent}
    (h : event.under_way hash) : event.fetch_end = none := by
  cases event with
  | FetchCompleted | FetchFailed => exact h.elim
  | _ => rfl

/-- How a fetch ends in the eyes of the subscribers. `transferred` says
whether it came to a download: a blob that was here already is not reported. -/
def FetchTask.report (self : FetchTask) (self_id : EndpointId) (transferred : Bool) :
    List DropEvent :=
  match self.stage with
  | .done (.error e) => [.FetchFailed self.hash e]
  | .done (.ok ()) =>
    if transferred then [.FetchCompleted self.hash (self.current_provider.getD self_id)] else []
  | _ => []

/-! ## The waits of a fetch -/

/-- The waits that are left to a fetch, at most. -/
def FetchStage.waits_left : FetchStage → Nat
  | .start => 14
  | .round attempt => 4 * (FETCH_ATTEMPTS - attempt) + 1
  | .asking attempt => 4 * (FETCH_ATTEMPTS - attempt)
  | .downloading attempt _ => 4 * (FETCH_ATTEMPTS - attempt) - 1
  | .reasking attempt => 4 * (FETCH_ATTEMPTS - attempt) - 2
  | .verify => 1
  | .done _ => 0

/-- The frames that a fetch may still say: two requests a round, and that
the blob is served here. -/
def FetchStage.frames_left : FetchStage → Nat
  | .start => 2 * FETCH_ATTEMPTS + 1
  | .round attempt => 2 * (FETCH_ATTEMPTS - attempt) + 1
  | .asking attempt => 2 * (FETCH_ATTEMPTS - attempt)
  | .downloading attempt _ => 2 * (FETCH_ATTEMPTS - attempt)
  | .reasking attempt => 2 * (FETCH_ATTEMPTS - attempt) - 1
  | .verify => 1
  | .done _ => 0

/-- The event ends the wait that the fetch is in: the task is run, a timeout
is over, a stream ends or does not open. -/
def FetchStage.wakes : FetchStage → FetchEvent → Bool
  | .start, .run _ | .round _, .run _ | .verify, .run _ => true
  | .asking _, .poll timed_out | .reasking _, .poll timed_out => timed_out
  | .downloading _ _, .ended _ | .downloading _ _, .stream_failed _ _ => true
  | _, _ => false

/-- A round that the loop of `fetch_inner_impl` has. -/
def FetchStage.in_loop : FetchStage → Prop
  | .round attempt | .asking attempt | .downloading attempt _ | .reasking attempt =>
    attempt < FETCH_ATTEMPTS
  | _ => True

/-- Whether bytes are being asked for. -/
def FetchStage.is_download : FetchStage → Bool
  | .downloading _ _ => true
  | _ => false

/-- A fetch that goes on after a round has an error to show for it, and one
that comes to its check without one has been through a download. -/
structure FetchTask.Sound (task : FetchTask) (transferred : Bool) : Prop where
  in_loop : task.stage.in_loop
  start : task.stage = .start → transferred = false
  download : task.stage.is_download = true → transferred = true
  reasking : ∀ attempt, task.stage = .reasking attempt → task.last_error ≠ none
  verify : task.stage = .verify → task.last_error = none → transferred = true

/-- A fetch that asks for bytes. -/
theorem FetchTask.sound_download {task : FetchTask} {attempt : Nat}
    {outcome : Except DropError Unit} (hstage : task.stage = .downloading attempt outcome)
    (hattempt : attempt < FETCH_ATTEMPTS) (transferred : Bool) :
    task.Sound (transferred || task.stage.is_download) := by
  constructor
  all_goals rw [hstage]
  · exact hattempt
  · intro h
    cases h
  · intro _
    exact Bool.or_true transferred
  · intro _ h
    cases h
  · intro h
    cases h

/-! ## One stretch of a fetch -/

/-- What a stretch of a fetch tells: news on the way, or its end. -/
inductive FetchTold (s : Session) (task : FetchTask) (after : FetchTask × Session) : Prop where
  | goes_on (added : List DropEvent) (events : after.2.events = s.events ++ added)
      (news : ∀ e ∈ added, e.under_way task.hash) (hash : after.1.hash = task.hash)
      (running : ∀ r, after.1.stage ≠ .done r)
      (sound : ∀ transferred, task.Sound transferred →
        after.1.Sound (transferred || after.1.stage.is_download))
  | ends (result : Except DropError Unit) (hash : after.1.hash = task.hash)
      (stage : after.1.stage = .done result)
      (events : ∀ transferred, task.Sound transferred →
        after.2.events = s.events ++ after.1.report s.self_id transferred)

namespace Session

variable (s : Session) (task : FetchTask)

theorem finish_fetch_failed (e : DropError) :
    (s.finish_fetch task (.error e)).2.events = s.events ++ [.FetchFailed task.hash e] := by
  unfold finish_fetch
  rcases task.auto with _ | size <;> rfl

theorem finish_fetch_succeeded : (s.finish_fetch task (.ok ())).2.events = s.events := by
  unfold finish_fetch
  rcases task.auto with _ | size <;> rfl

/-- A fetch that fails says so, whatever came before. -/
theorem told_failure {s₁ : Session} {task₁ : FetchTask} (e : DropError)
    (hevents : s₁.events = s.events) (hhash : task₁.hash = task.hash) :
    FetchTold s task (s₁.finish_fetch task₁ (.error e)) := by
  refine .ends (.error e) hhash rfl fun transferred _ => ?_
  rw [finish_fetch_failed, hevents]
  rfl

theorem told_finish_local (world : FetchWorld) (hstart : task.stage = .start) :
    FetchTold s task (s.finish_local task world) := by
  have hcomplete := s.events_mark_complete task.hash none world.complete
  unfold finish_local
  rcases hmarked : s.mark_complete task.hash none world.complete with ⟨e | size, marked⟩
  all_goals rw [hmarked] at hcomplete
  · exact s.told_failure task e hcomplete rfl
  · simp only
    rcases world.exported with e | u
    · exact s.told_failure task e hcomplete rfl
    · refine .ends (.ok ()) rfl rfl fun transferred hsound => ?_
      have hnone : transferred = false := hsound.start hstart
      rw [finish_fetch_succeeded, hcomplete, hnone]
      exact (List.append_nil _).symm

/-- Bytes are asked for from here on. -/
theorem told_begin_download (attempt : Nat)
    (hattempt : task.stage.in_loop → attempt < FETCH_ATTEMPTS) :
    FetchTold s task (s.begin_download task attempt) := by
  refine .goes_on [] (List.append_nil _).symm (by simp) rfl (fun r h => by cases h) ?_
  intro transferred hsound
  exact FetchTask.sound_download rfl (hattempt hsound.in_loop) transferred

theorem told_run_round (attempt : Nat) (world : FetchWorld) (hround : task.stage = .round attempt) :
    FetchTold s task (s.run_round task attempt world) := by
  have hattempt : task.stage.in_loop → attempt < FETCH_ATTEMPTS := by
    rw [hround]
    exact id
  unfold run_round
  split
  · exact s.told_begin_download task attempt hattempt
  · have hrequest := s.events_request task.hash world.draw
    rcases hasked : s.request task.hash world.draw with ⟨e | u, asked⟩
    all_goals rw [hasked] at hrequest
    · exact s.told_failure task e hrequest rfl
    · refine .goes_on [] (by rw [hrequest, List.append_nil]) (by simp) rfl
        (fun r h => by cases h) ?_
      intro transferred hsound
      exact ⟨hattempt hsound.in_loop, fun h => (by cases h), fun h => (by cases h),
        fun _ h => (by cases h), fun h => (by cases h)⟩

theorem told_fail_attempt (attempt : Nat) (error : DropError) (world : FetchWorld)
    (hattempt : task.stage.in_loop → attempt < FETCH_ATTEMPTS) :
    FetchTold s task (s.fail_attempt task attempt error world) := by
  have hrequest := s.events_request task.hash world.draw
  unfold fail_attempt
  simp only
  rcases hasked : s.request task.hash world.draw with ⟨e | u, asked⟩
  all_goals rw [hasked] at hrequest
  · exact s.told_failure task e hrequest rfl
  · refine .goes_on [] (by rw [hrequest, List.append_nil]) (by simp) rfl
      (fun r h => by cases h) ?_
    intro transferred hsound
    exact ⟨hattempt hsound.in_loop, fun h => (by cases h), fun h => (by cases h),
      fun _ _ h => (by cases h), fun h => (by cases h)⟩

/-- The check after the loop. -/
theorem told_run_verify (world : FetchWorld) (hverify : task.stage = .verify) :
    FetchTold s task (s.run_verify task world) := by
  have hcredit : (s.credit_provider task).events = s.events := by
    unfold credit_provider
    split <;> rfl
  have hself : (s.credit_provider task).self_id = s.self_id := by
    unfold credit_provider
    split <;> rfl
  unfold run_verify
  split
  · rename_i e _
    exact s.told_failure task e rfl rfl
  · rename_i herror
    split
    · rename_i size _
      generalize s.credit_provider task = credited at hcredit hself
      have hcomplete := credited.events_mark_complete task.hash (some size) world.complete
      have hconfig :=
        (credited.says_mark_complete task.hash (some size) world.complete).accounts.1
      simp only
      rcases hmarked : credited.mark_complete task.hash (some size) world.complete
        with ⟨e | size, marked⟩
      all_goals
        rw [hmarked] at hcomplete hconfig
        have hevents : marked.events = s.events := hcomplete.trans hcredit
      · exact s.told_failure task e hevents rfl
      · rcases world.exported with e | u
        · exact s.told_failure task e hevents rfl
        · refine .ends (.ok ()) rfl rfl fun transferred hsound => ?_
          have htransferred : transferred = true := hsound.verify hverify herror
          have hid : marked.self_id = s.self_id := by
            rw [← hself]
            exact congrArg (fun config => config.secret.public) hconfig
          rw [finish_fetch_succeeded, htransferred, ← hid, ← hevents]
          rfl
    · exact s.told_failure task _ rfl rfl

theorem told_download_item (attempt : Nat) (outcome : Except DropError Unit)
    (item : DownloadProgressItem) (hdownload : task.stage = .downloading attempt outcome) :
    FetchTold s task (s.download_item task attempt outcome item) := by
  have hsame : ∀ {task' : FetchTask} {outcome' : Except DropError Unit} {transferred : Bool},
      task'.stage = .downloading attempt outcome' → task.Sound transferred →
        task'.Sound (transferred || task'.stage.is_download) := by
    intro task' outcome' transferred hstage hsound
    refine FetchTask.sound_download hstage ?_ transferred
    have h := hsound.in_loop
    rw [hdownload] at h
    exact h
  have hgoing : ∀ {task' : FetchTask} {outcome' : Except DropError Unit},
      task'.stage = .downloading attempt outcome' → ∀ r, task'.stage ≠ .done r := by
    intro task' outcome' hstage r h
    rw [hstage] at h
    cases h
  cases item with
  | TryProvider id =>
    exact .goes_on [.FetchStarted task.hash id] rfl (by simp [DropEvent.under_way]) rfl
      (hgoing hdownload) fun _ => hsame hdownload
  | ProviderFailed id now =>
    refine .goes_on [.ProtocolWarning (some id)
      (.ProviderFailed id.fmt_short task.hash.fmt_short "transfer failed")] rfl
      (by simp [DropEvent.under_way]) rfl (hgoing hdownload) fun _ => hsame hdownload
  | Progress downloaded =>
    exact .goes_on [.FetchProgress task.hash downloaded task.total] rfl
      (by simp [DropEvent.under_way]) rfl (hgoing hdownload) fun _ => hsame hdownload
  | PartComplete =>
    exact .goes_on [] (List.append_nil _).symm (by simp) rfl (hgoing rfl) fun _ => hsame rfl
  | DownloadError =>
    exact .goes_on [] (List.append_nil _).symm (by simp) rfl (hgoing rfl) fun _ => hsame rfl
  | Error reason =>
    exact .goes_on [] (List.append_nil _).symm (by simp) rfl (hgoing rfl) fun _ => hsame rfl

/-- The next round, or the check when there is an error to show. -/
theorem told_next_round {task' : FetchTask} (attempt : Nat) (hhash : task'.hash = task.hash)
    (hstage : task'.stage = next_round attempt)
    (herror : ∀ transferred, task.Sound transferred → task'.last_error ≠ none) :
    FetchTold s task (task', s) := by
  refine .goes_on [] (List.append_nil _).symm (by simp) hhash ?_ fun transferred hsound => ?_
  · rw [hstage]
    exact next_round_not_done attempt
  · have herror := herror transferred hsound
    unfold next_round at hstage
    split at hstage
    all_goals constructor
    all_goals rw [hstage]
    · assumption
    · intro h
      cases h
    · intro h
      cases h
    · intro _ h
      cases h
    · intro h
      cases h
    · trivial
    · intro h
      cases h
    · intro h
      cases h
    · intro _ h
      cases h
    · exact fun _ h => absurd h herror

/-- A stretch in which nothing happens. -/
theorem told_nothing (hrunning : ∀ r, task.stage ≠ .done r) : FetchTold s task (task, s) := by
  refine .goes_on [] (List.append_nil _).symm (by simp) rfl hrunning fun transferred hsound => ?_
  have hsame : (transferred || task.stage.is_download) = transferred := by
    rcases hdownload : task.stage.is_download with _ | _
    · exact Bool.or_false transferred
    · rw [hsound.download hdownload]
      rfl
  rw [hsame]
  exact hsound

/-- Every stretch of a fetch that is not over tells its news, or its end. -/
theorem told_fetch_step (event : FetchEvent) (hrunning : ∀ r, task.stage ≠ .done r) :
    FetchTold s task (s.fetch_step task event) := by
  have hloop : ∀ {attempt : Nat} {stage : FetchStage}, task.stage = stage →
      (stage.in_loop → attempt < FETCH_ATTEMPTS) → task.stage.in_loop → attempt < FETCH_ATTEMPTS := by
    intro attempt stage hstage hin h
    rw [hstage] at h
    exact hin h
  have hnothing := s.told_nothing task hrunning
  cases event with
  | run world =>
    rcases hstage : task.stage with _ | attempt | attempt | ⟨attempt, outcome⟩ | attempt | _ | r
    all_goals simp only [fetch_step, hstage]
    · split
      · exact s.told_finish_local task world hstage
      · refine .goes_on [] (List.append_nil _).symm (by simp) rfl (fun r h => by cases h) ?_
        intro transferred hsound
        exact ⟨(by show 0 < FETCH_ATTEMPTS; decide), fun h => (by cases h), fun h => (by cases h),
          fun _ h => (by cases h), fun h => (by cases h)⟩
    · exact s.told_run_round task attempt world hstage
    · exact hnothing
    · exact hnothing
    · exact hnothing
    · exact s.told_run_verify task world hstage
    · exact absurd hstage (hrunning r)
  | poll timed_out =>
    rcases hstage : task.stage with _ | attempt | attempt | ⟨attempt, outcome⟩ | attempt | _ | r
    all_goals simp only [fetch_step, hstage]
    · exact hnothing
    · exact hnothing
    · unfold poll_asking
      split
      · exact s.told_begin_download task attempt (hloop hstage id)
      · split
        · exact s.told_next_round task attempt rfl rfl (fun _ _ h => by cases h)
        · exact hnothing
    · exact hnothing
    · unfold poll_reasking
      split
      · exact s.told_next_round task attempt rfl rfl
          (fun _ hsound => hsound.reasking attempt hstage)
      · exact hnothing
    · exact hnothing
    · exact hnothing
  | stream_failed reason world =>
    rcases hstage : task.stage with _ | attempt | attempt | ⟨attempt, outcome⟩ | attempt | _ | r
    all_goals simp only [fetch_step, hstage]
    case downloading => exact s.told_fail_attempt task attempt _ world (hloop hstage id)
    all_goals exact hnothing
  | item item =>
    rcases hstage : task.stage with _ | attempt | attempt | ⟨attempt, outcome⟩ | attempt | _ | r
    all_goals simp only [fetch_step, hstage]
    case downloading => exact s.told_download_item task attempt outcome item hstage
    all_goals exact hnothing
  | store_write bytes status =>
    rcases hstage : task.stage with _ | attempt | attempt | ⟨attempt, outcome⟩ | attempt | _ | r
    all_goals simp only [fetch_step, hstage]
    case downloading =>
      refine .goes_on [] (List.append_nil _).symm (by simp) rfl (fun r h => by cases h) ?_
      intro transferred hsound
      exact FetchTask.sound_download rfl (hloop hstage id hsound.in_loop) transferred
    all_goals exact hnothing
  | ended world =>
    rcases hstage : task.stage with _ | attempt | attempt | ⟨attempt, outcome⟩ | attempt | _ | r
    all_goals simp only [fetch_step, hstage]
    case downloading =>
      rcases outcome with e | u
      · exact s.told_fail_attempt task attempt e world (hloop hstage id)
      · refine .goes_on [] (List.append_nil _).symm (by simp) rfl (fun r h => by cases h) ?_
        intro transferred hsound
        have htransferred : transferred = true := hsound.download (by rw [hstage]; rfl)
        exact ⟨trivial, fun h => (by cases h), fun h => (by cases h), fun _ h => (by cases h),
          fun _ _ => (by rw [htransferred]; rfl)⟩
    all_goals exact hnothing

end Session

/-! ## The other steps -/

/-- From `a` to `b` the session tells of no end of a fetch. -/
def Untold (a b : Session) : Prop :=
  ∃ added, b.events = a.events ++ added ∧ ∀ e ∈ added, e.fetch_end = none

namespace Untold

variable {a b c : Session}

theorem same (h : b.events = a.events) : Untold a b := ⟨[], by rw [h, List.append_nil], by simp⟩

theorem refl (a : Session) : Untold a a := same rfl

theorem emit (s : Session) {event : DropEvent} (h : event.fetch_end = none) :
    Untold s (s.emit event) := ⟨[event], rfl, by simp [h]⟩

theorem trans (hab : Untold a b) (hbc : Untold b c) : Untold a c := by
  obtain ⟨added, hadded, hnone⟩ := hab
  obtain ⟨more, hmore, hnone'⟩ := hbc
  refine ⟨added ++ more, by rw [hmore, hadded, List.append_assoc], fun e he => ?_⟩
  rcases List.mem_append.mp he with he | he
  · exact hnone e he
  · exact hnone' e he

end Untold

namespace Session

variable (s : Session)

theorem fetches_restore_history (frames : List (Bytes × Instant)) :
    (s.restore_history frames).2.fetches = s.fetches := by
  induction frames generalizing s with
  | nil => rfl
  | cons f frames ih =>
    rw [restore_history_cons, ih]
    unfold restore_frame
    grind

theorem untold_evaluate_auto_fetch (author : EndpointId) (offer : OfferV1)
    (decision : OfferDecision) : Untold s (s.evaluate_auto_fetch author offer decision) := by
  unfold evaluate_auto_fetch
  split
  · exact .refl s
  · split
    · exact .refl s
    · split
      · exact .emit s rfl
      · refine .same ?_
        grind [spawn_auto_fetch]

theorem untold_handle_offer (author : EndpointId) (offer : OfferV1) (delivered_from : EndpointId)
    (now : Instant) : Untold s (s.handle_offer author offer delivered_from now) := by
  have hrecord : ∀ decision, Untold s (s.record_received author offer decision now) := by
    intro decision
    unfold record_received
    rcases s.state.record_offer_bounded author offer now with ⟨evicted | _ | _, state⟩
    · refine Untold.trans ?_ (untold_evaluate_auto_fetch _ author offer decision)
      refine Untold.trans ?_ (.emit _ rfl)
      split
      · exact .same rfl
      · exact (Untold.same rfl).trans (.emit _ rfl)
    · exact .same rfl
    · exact (Untold.same rfl).trans (.emit _ rfl)
  unfold handle_offer
  rcases s.offer_decision author offer delivered_from with _ | _ | reason
  · exact hrecord _
  · exact hrecord _
  · exact .emit s rfl

theorem untold_dispatch (verified : VerifiedMessage) (delivered_from : EndpointId)
    (world : IntakeWorld) : Untold s (s.dispatch verified delivered_from world) := by
  unfold dispatch
  rcases verified.body with _ | (offer | provider | request | ext)
  · simp only
    split
    · exact .emit s rfl
    · exact .refl s
  · exact s.untold_handle_offer verified.author offer delivered_from world.draw.now
  · simp only [handle_provider]
    rcases provider.state
    all_goals
      simp only
      split
    · exact (Untold.same rfl).trans (.emit _ rfl)
    · exact .same rfl
    · exact (Untold.same rfl).trans (.emit _ rfl)
    · exact .same rfl
  · simp only [handle_request]
    split
    · exact (Untold.same rfl).trans (.emit _ rfl)
    · refine .same ?_
      grind [reply_available, transmit]
  · refine .same ?_
    simp only [handle_extension]
    split <;> rfl

theorem untold_handle_message (verified : VerifiedMessage) (peer : EndpointId) (frame : Bytes)
    (world : IntakeWorld) : Untold s (s.handle_message verified peer frame world) := by
  unfold handle_message
  have htoken : (s.take_token peer world.draw.now).2.events = s.events := rfl
  rcases htaken : s.take_token peer world.draw.now with ⟨_ | _, limited⟩
  all_goals rw [htaken] at htoken
  · exact (Untold.same htoken).trans (.emit _ rfl)
  · have hnoted : (limited.note_message verified peer world.draw.now).2.events = limited.events :=
      rfl
    simp only
    rcases hfresh : limited.note_message verified peer world.draw.now with ⟨_ | _, noted⟩
    all_goals rw [hfresh] at hnoted
    · exact .same (hnoted.trans htoken)
    · have hretained : Untold s (noted.retain verified frame) := .same (hnoted.trans htoken)
      exact hretained.trans (untold_dispatch _ verified peer world)

/-- A step that is no stretch of a fetch tells of no end of one. -/
theorem untold_step {i : Step} (h : ∀ j event, i ≠ .fetch_event j event) :
    Untold s (s.step i) := by
  cases i with
  | received content peer world =>
    simp only [step, receive]
    split
    · exact s.untold_handle_message _ peer content world
    · exact (Untold.emit s rfl).trans (.emit _ rfl)
  | replayed frame peer world =>
    simp only [step, replay]
    split
    · exact .refl s
    · split
      · exact s.untold_handle_message _ peer frame world
      · exact .refl s
  | neighbor_up peer now =>
    have hpulled : ∀ a : Session, Untold a (a.maybe_sync_from_neighbor peer now) := by
      intro a
      refine .same ?_
      unfold maybe_sync_from_neighbor
      grind
    exact ((Untold.same rfl).trans (.emit _ rfl)).trans (hpulled _)
  | neighbor_down peer => exact (Untold.same rfl).trans (.emit _ rfl)
  | lagged => exact .emit s rfl
  | publish_path_as path name world =>
    refine .same ?_
    simp only [step, publish_path_as]
    grind [events_import_with]
  | publish_bytes_with name bytes media_type metadata world =>
    refine .same ?_
    simp only [step, publish_bytes_with]
    grind [events_import_with]
  | send_extension «namespace» local_kind schema_version payload draw =>
    refine .same ?_
    simp only [step, send_extension]
    grind [events_broadcast]
  | on_extension «namespace» => exact .same (s.events_on_extension «namespace»)
  | reannounce hash world announced_at_ms draw =>
    refine .same ?_
    simp only [step, reannounce]
    grind [events_mark_complete, events_announce]
  | announce_withdrawal announced_at_ms draws =>
    exact .same (s.events_announce_withdrawal announced_at_ms draws)
  | restore_history frames => exact .same (s.events_restore_history frames)
  | fetch hash => exact .same rfl
  | fetch_event j event => exact absurd rfl (h j event)
  | store_changed hash status => exact .same rfl
  | released => exact .same rfl

/-- A step that is no stretch of a fetch leaves every fetch where it is, and
may start one. -/
theorem step_starts {i : Step} (h : ∀ j event, i ≠ .fetch_event j event) :
    ∃ started, (s.step i).fetches = s.fetches ++ started ∧ ∀ task ∈ started, task.stage = .start := by
  have hnone : ∀ {s' : Session}, s'.fetches = s.fetches →
      ∃ started, s'.fetches = s.fetches ++ started ∧ ∀ task ∈ started, task.stage = .start :=
    fun hsame => ⟨[], by rw [hsame, List.append_nil], by simp⟩
  have hstepped := stepped s i
  generalize s.step i = s' at hstepped ⊢
  cases hstepped with
  | spoke spoke => exact hnone spoke.accounts.2.2
  | @took _ frame peer world verified intake decoded =>
    rcases ha : s.admits peer world.draw.now
    · exact hnone (s.handle_message_limited ha verified frame).fetches
    rcases hf : s.state.is_fresh verified.key world.draw.now
    · obtain ⟨s₁, heq, -, -, -, -, hfetches⟩ := s.handle_message_known ha hf frame
      rw [heq]
      exact hnone hfetches
    rw [s.handle_message_fresh ha hf frame]
    have hdispatched := (s.taken verified peer frame world.draw.now).dispatched verified peer world
    generalize (s.taken verified peer frame world.draw.now).dispatch verified peer world = s'
      at hdispatched ⊢
    cases hdispatched with
    | quietly quiet _ => exact hnone quiet.fetches
    | reserves offer quiet body auto check =>
      refine ⟨_, congrArg (fun fetches => fetches ++ _) quiet.fetches, ?_⟩
      intro task htask
      rw [List.mem_singleton.mp htask]
    | @answers s₁ request quiet _ _ =>
      refine hnone ?_
      have hreply : (s₁.reply_available request.blob_hash world).fetches = s₁.fetches := by
        unfold reply_available
        simp only
        split <;> rfl
      exact hreply.trans quiet.fetches
  | restored frames => exact hnone (s.fetches_restore_history frames)
  | fetches hash =>
    refine ⟨_, rfl, ?_⟩
    intro task htask
    rw [List.mem_singleton.mp htask]
  | fetched j event => exact absurd rfl (h j event)

end Session

end Laws

end iroh_drop
