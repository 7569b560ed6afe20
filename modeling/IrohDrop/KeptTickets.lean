-- The ticket that a session was made with never changes, and no more does
-- what a daemon makes its drops of.
import IrohDrop.Leaving
import IrohDrop.TicketTrip

open rust_std postcard

namespace iroh_drop

/-! ## What a ticket stands for -/

namespace DropTicket

/-- The ticket without the peers that it names. -/
def without_nodes (self : DropTicket) : DropTicket :=
  { self with V1 := { self.V1 with bootstrap_nodes := [] } }

def topic (self : DropTicket) : TopicId := ⟨self.V1.topic_id⟩

@[simp] theorem without_nodes_topic (ticket : DropTicket) :
    ticket.without_nodes.topic = ticket.topic := rfl

end DropTicket

section Laws

variable [Crypto]

/-! ## The ticket of a session -/

namespace Session

theorem ticket_broadcast_signed (s : Session) (msg : MessageV1) (retain : Retain) (draw : Draw) :
    (s.broadcast_signed msg retain draw).2.ticket = s.ticket := by
  unfold broadcast_signed
  split <;> rfl

theorem ticket_broadcast (s : Session) (body : MessageBodyV1) (draw : Draw) :
    (s.broadcast body draw).2.ticket = s.ticket :=
  s.ticket_broadcast_signed _ _ draw

theorem ticket_announce (s : Session) (hash : BlobHash) (state : ProviderState)
    (announced_at_ms : UInt64) (draw : Draw) :
    (s.announce hash state announced_at_ms draw).2.ticket = s.ticket :=
  s.ticket_broadcast _ draw

theorem ticket_import_with (s : Session) (name : String) (size : UInt64)
    (media_type : Option String) (metadata : BTreeMap String String) (world : ImportWorld) :
    (s.import_with name size media_type metadata world).2.ticket = s.ticket := by
  unfold import_with finish_import_with
  grind [ticket_broadcast, ticket_announce, hold]

theorem ticket_mark_complete (s : Session) (hash : BlobHash) (known_size : Option UInt64)
    (world : CompleteWorld) : (s.mark_complete hash known_size world).2.ticket = s.ticket := by
  unfold mark_complete
  grind [ticket_announce]

theorem ticket_finish_fetch (s : Session) (task : FetchTask) (result : Except DropError Unit) :
    (s.finish_fetch task result).2.ticket = s.ticket := by
  unfold finish_fetch
  grind [emit, set_status]

theorem ticket_request (s : Session) (hash : BlobHash) (draw : Draw) :
    (s.request hash draw).2.ticket = s.ticket :=
  s.ticket_broadcast _ draw

theorem ticket_run_round (s : Session) (task : FetchTask) (attempt : Nat) (world : FetchWorld) :
    (s.run_round task attempt world).2.ticket = s.ticket := by
  unfold run_round
  grind [begin_download, set_status, ticket_request, ticket_finish_fetch]

theorem ticket_fail_attempt (s : Session) (task : FetchTask) (attempt : Nat) (error : DropError)
    (world : FetchWorld) : (s.fail_attempt task attempt error world).2.ticket = s.ticket := by
  unfold fail_attempt
  grind [ticket_request, ticket_finish_fetch]

theorem ticket_run_verify (s : Session) (task : FetchTask) (world : FetchWorld) :
    (s.run_verify task world).2.ticket = s.ticket := by
  unfold run_verify credit_provider
  grind [ticket_mark_complete, ticket_finish_fetch, emit]

theorem ticket_fetch_step (s : Session) (task : FetchTask) (event : FetchEvent) :
    (s.fetch_step task event).2.ticket = s.ticket := by
  cases event with
  | run world =>
    simp only [fetch_step]
    grind [finish_local, ticket_mark_complete, ticket_finish_fetch, ticket_run_round,
      ticket_run_verify]
  | poll timed_out =>
    simp only [fetch_step]
    grind [poll_asking, poll_reasking, begin_download, set_status]
  | stream_failed reason world =>
    simp only [fetch_step]
    grind [ticket_fail_attempt]
  | item item =>
    simp only [fetch_step]
    cases item <;> grind [download_item, emit, set_status]
  | store_write bytes status =>
    simp only [fetch_step]
    grind
  | ended world =>
    simp only [fetch_step]
    split
    · unfold end_download
      grind [ticket_fail_attempt]
    · rfl

theorem ticket_handle_offer (s : Session) (author : EndpointId) (offer : OfferV1)
    (peer : EndpointId) (now : Instant) :
    (s.handle_offer author offer peer now).ticket = s.ticket := by
  unfold handle_offer record_received evaluate_auto_fetch
  grind [emit, spawn_auto_fetch]

theorem ticket_dispatch (s : Session) (verified : VerifiedMessage) (peer : EndpointId)
    (world : IntakeWorld) : (s.dispatch verified peer world).ticket = s.ticket := by
  unfold dispatch
  split
  · grind [emit]
  · exact s.ticket_handle_offer _ _ _ _
  · unfold handle_provider
    grind [emit]
  · unfold handle_request reply_available transmit
    grind [emit]
  · unfold handle_extension
    grind

theorem ticket_handle_message (s : Session) (verified : VerifiedMessage) (peer : EndpointId)
    (raw : Bytes) (world : IntakeWorld) :
    (s.handle_message verified peer raw world).ticket = s.ticket := by
  unfold handle_message
  grind [take_token, note_message, retain, emit, ticket_dispatch]

theorem ticket_announce_withdrawal (s : Session) (announced_at_ms : BlobHash → UInt64)
    (draws : BlobHash → Draw) : (s.announce_withdrawal announced_at_ms draws).ticket = s.ticket := by
  unfold announce_withdrawal
  generalize s.complete_hashes = hashes
  induction hashes generalizing s with
  | nil => rfl
  | cons hash hashes ih =>
    rw [List.foldl_cons, ih]
    exact s.ticket_announce _ _ _ _

theorem ticket_on_extension (s : Session) («namespace» : FixedBytes 16) :
    (s.on_extension «namespace»).ticket = s.ticket := by
  have hreplay : ∀ (frames : List Bytes) (s : Session),
      (frames.foldl (replay_extension «namespace») s).ticket = s.ticket := by
    intro frames
    induction frames with
    | nil => exact fun _ => rfl
    | cons frame frames ih =>
      intro s
      rw [List.foldl_cons, ih]
      unfold replay_extension
      grind
  exact hreplay _ _

theorem ticket_restore_history (s : Session) (frames : List (Bytes × Instant)) :
    (s.restore_history frames).2.ticket = s.ticket := by
  induction frames generalizing s with
  | nil => rfl
  | cons f frames ih =>
    rw [restore_history_cons, ih]
    unfold restore_frame
    grind

/-- No step of a session changes its ticket. -/
theorem ticket_step (s : Session) (step : Step) : (s.step step).ticket = s.ticket := by
  cases step with
  | received content peer world =>
    simp only [Session.step, receive]
    grind [ticket_handle_message, emit]
  | replayed frame peer world =>
    simp only [Session.step, replay]
    grind [ticket_handle_message]
  | neighbor_up peer now =>
    simp only [Session.step, neighbor_up, maybe_sync_from_neighbor]
    grind [emit]
  | neighbor_down peer => rfl
  | lagged => rfl
  | publish_path_as path name world =>
    simp only [Session.step, publish_path_as]
    grind [ticket_import_with]
  | publish_bytes_with name bytes media_type metadata world =>
    simp only [Session.step, publish_bytes_with]
    grind [ticket_import_with]
  | send_extension «namespace» local_kind schema_version payload draw =>
    simp only [Session.step, send_extension]
    grind [ticket_broadcast]
  | on_extension «namespace» => exact s.ticket_on_extension «namespace»
  | reannounce hash world ms draw =>
    simp only [Session.step, reannounce]
    grind [ticket_mark_complete, ticket_announce]
  | announce_withdrawal ms draws => exact s.ticket_announce_withdrawal ms draws
  | restore_history frames => exact s.ticket_restore_history frames
  | fetch hash => rfl
  | fetch_event j event =>
    simp only [Session.step, fetch_event]
    grind [ticket_fetch_step]
  | store_changed hash status => rfl
  | released => rfl

end Session

/-! ## Tickets that read back -/

namespace DropTicket

@[simp] theorem without_nodes_set [Urls] (ticket : DropTicket) (nodes : List EndpointAddr) :
    (ticket.set_bootstrap_nodes nodes).without_nodes = ticket.without_nodes := rfl

/-- A string that reads at all reads back as the ticket that wrote it. -/
theorem read_to_string [Urls] {ticket back : DropTicket}
    (h : from_string_prefixed ticket.to_string_prefixed = .ok back) : back = ticket := by
  obtain ⟨bytes, rest, hbytes, hread, -, -⟩ := from_string_prefixed_eq_ok.mp h
  unfold to_string_prefixed at hbytes
  rw [ticket_bytes_text] at hbytes
  split at hbytes
  · rename_i hshort
    cases hbytes
    have hlt : (DropTicketV1.codec.write ticket.V1).length < 2 ^ 64 := by
      simp only [text_len, MAX_TICKET_LEN] at hshort
      omega
    rw [DropTicketV1.codec.read_write_nil (DropTicketV1.codec_sized ticket.V1 hlt)] at hread
    exact DropTicket.ext (Prod.mk.inj (Except.ok.inj hread)).1.symm
  · cases hbytes

end DropTicket

/-! ## The drops of a daemon -/

/-- The handle of a restored drop, if the request restores one. -/
def Call.restored : Call → Option String
  | .connecting _ (.restored handle _ _) => some handle
  | .opened _ (.restored handle _ _) => some handle
  | _ => none

namespace Service

/-- The topic and the ticket that a session was made with. -/
def origin (self : Service) (i : SessionId) : Option (TopicId × DropTicket) :=
  self.sessions[i]?.map fun hosted => (hosted.session.topic_id, hosted.session.ticket)

/-- The session behind a handle. -/
def session_of (self : Service) (handle : String) : Option SessionId :=
  (self.drops.lookup handle).map DropEntry.session

/-- The drop that the daemon hosts under a handle, as its ticket stands for it. -/
def drop (self : Service) (handle : String) : Option DropTicket :=
  (self.session_of handle).bind fun i => (self.origin i).map fun o => o.2.without_nodes

/-- A restart is at work on a drop: it waits for its carrier, or has opened
its session. -/
def Restoring (self : Service) (handle : String) (ticket : DropTicket) : Prop :=
  (∃ name mine, .connecting ticket (.restored handle name mine) ∈ self.calls) ∨
    ∃ i topic name mine, .opened i (.restored handle name mine) ∈ self.calls ∧
      self.origin i = some (topic, ticket)

/-- The sessions that were there are there, as they were made. -/
def Later (s s' : Service) : Prop := ∀ i o, s.origin i = some o → s'.origin i = some o

/-- The same handles stand for the same sessions. -/
def SameDrops (s s' : Service) : Prop := ∀ handle, s'.session_of handle = s.session_of handle

namespace Later

variable {s s' s'' : Service}

theorem refl (s : Service) : Later s s := fun _ _ h => h

theorem trans (h : Later s s') (h' : Later s' s'') : Later s s'' :=
  fun i o ho => h' i o (h i o ho)

theorem of_sessions (h : s'.sessions = s.sessions) : Later s s' := by
  intro i o ho
  unfold origin at ho ⊢
  rwa [h]

/-- A session changes in place. -/
theorem modify (s : Service) (i : SessionId) {f : Hosted → Hosted}
    (htopic : ∀ hosted, (f hosted).session.topic_id = hosted.session.topic_id)
    (hticket : ∀ hosted, (f hosted).session.ticket = hosted.session.ticket) :
    Later s (s.modify i f) := by
  intro j o ho
  unfold origin at ho ⊢
  obtain ⟨hosted, hhosted, rfl⟩ := Option.map_eq_some_iff.mp ho
  simp only [Service.modify, List.getElem?_modify, hhosted]
  split
  · simp [htopic, hticket]
  · rfl

theorem insert_drop (s : Service) (handle : String) (entry : DropEntry) :
    Later s (s.insert_drop handle entry) := by
  have hdrops : Later s { s with drops := s.drops.insert handle entry } := of_sessions rfl
  exact hdrops.trans (modify _ _ (fun _ => rfl) (fun _ => rfl))

theorem open_session (s : Service) (ticket : DropTicket) (store : BlobHash → BlobStatus)
    (catch_up : Bool) : Later s (s.open_session ticket store catch_up) := by
  intro i o ho
  have hi : i < s.sessions.length := by
    unfold origin at ho
    obtain ⟨hosted, hhosted, -⟩ := Option.map_eq_some_iff.mp ho
    exact (List.getElem?_eq_some_iff.mp hhosted).1
  have hget : (s.open_session ticket store catch_up).sessions[i]? = s.sessions[i]? :=
    List.getElem?_append_left hi
  unfold origin at ho ⊢
  rwa [hget]

end Later

/-- What most acts leave as it was: the sessions, the handles, and what a
restart is at work on. -/
structure Keeps (s s' : Service) : Prop where
  later : Later s s'
  length : s'.sessions.length = s.sessions.length
  drops : SameDrops s s'
  calls : ∀ call ∈ s'.calls, call ∈ s.calls ∨ call.restored = none
  next_drop : s'.next_drop = s.next_drop

namespace Keeps

variable {s s' : Service}

theorem refl (s : Service) : Keeps s s :=
  ⟨.refl s, rfl, fun _ => rfl, fun _ h => .inl h, rfl⟩

/-- Only other tables change. -/
theorem of_eq (hsessions : s'.sessions = s.sessions) (hdrops : s'.drops = s.drops)
    (hcalls : s'.calls = s.calls) (hnext : s'.next_drop = s.next_drop) : Keeps s s' := by
  refine ⟨.of_sessions hsessions, congrArg List.length hsessions, ?_, ?_, hnext⟩
  · intro handle
    unfold session_of
    rw [hdrops]
  · intro call hcall
    rw [hcalls] at hcall
    exact .inl hcall

theorem modify (s : Service) (i : SessionId) {f : Hosted → Hosted}
    (htopic : ∀ hosted, (f hosted).session.topic_id = hosted.session.topic_id)
    (hticket : ∀ hosted, (f hosted).session.ticket = hosted.session.ticket) :
    Keeps s (s.modify i f) :=
  ⟨.modify s i htopic hticket, List.length_modify _ _ _, fun _ => rfl, fun _ h => .inl h, rfl⟩

theorem trans {s'' : Service} (h : Keeps s s') (h' : Keeps s' s'') : Keeps s s'' := by
  refine ⟨h.later.trans h'.later, h'.length.trans h.length, fun handle => (h'.drops handle).trans (h.drops handle), ?_,
    h'.next_drop.trans h.next_drop⟩
  intro call hcall
  rcases h'.calls call hcall with hmem | hnone
  · exact h.calls call hmem
  · exact .inr hnone

theorem add_call (s : Service) {call : Call} (h : call.restored = none) :
    Keeps s { s with calls := s.calls ++ [call] } := by
  refine ⟨.of_sessions rfl, rfl, fun _ => rfl, ?_, rfl⟩
  intro other hother
  rcases List.mem_append.mp hother with hold | hnew
  · exact .inl hold
  · rw [List.mem_singleton.mp hnew]
    exact .inr h

theorem set_call (s : Service) (k : Nat) {call : Call} (h : call.restored = none) :
    Keeps s (s.set_call k call) := by
  refine ⟨.of_sessions rfl, rfl, fun _ => rfl, ?_, rfl⟩
  intro other hother
  rcases List.mem_or_eq_of_mem_set hother with hold | heq
  · exact .inl hold
  · rw [heq]
    exact .inr h

theorem end_call (s : Service) (k : Nat) : Keeps s (s.end_call k) :=
  ⟨.of_sessions rfl, rfl, fun _ => rfl, fun _ h => .inl (List.mem_of_mem_eraseIdx h), rfl⟩

theorem connect (s : Service) (ticket : DropTicket) {opening : Opening}
    (h : (Call.connecting ticket opening).restored = none) :
    Keeps s ((s.connect ticket opening).toOption.getD s) := by
  unfold Service.connect
  rcases s.check_session_capacity with e | u
  · exact .refl s
  · exact .add_call s h

theorem drop_join [Urls] (s : Service) (ticket : String) :
    Keeps s ((s.drop_join ticket).toOption.getD s) := by
  unfold Service.drop_join
  rcases DropTicket.from_string_prefixed ticket.toList with e | ticket
  · exact .refl s
  simp only
  rcases s.handle_for_topic ⟨ticket.V1.topic_id⟩ with _ | handle
  · exact .connect s ticket rfl
  simp only
  rcases s.entry handle with e | entry
  · exact .refl s
  refine ⟨.of_sessions rfl, rfl, ?_, fun _ h => .inl h, rfl⟩
  intro other
  change Option.map _ (AList.lookup other (HashMap.modify s.drops handle _)) = s.session_of other
  rw [HashMap.lookup_modify]
  split
  · rename_i heq
    rw [heq]
    unfold session_of
    rcases s.drops.lookup handle with _ | entry <;> rfl
  · rfl

theorem withdraw (s : Service) (k : Nat) (announced_at_ms : BlobHash → UInt64)
    (draws : BlobHash → Draw) : Keeps s (s.withdraw k announced_at_ms draws) := by
  unfold Service.withdraw
  split
  · rename_i handle i hk
    have hannounced : Keeps s (s.update_session i (·.announce_withdrawal announced_at_ms draws)) := by
      refine modify s i ?_ ?_
      · intro hosted
        exact congrArg SessionConfig.topic_id
          (step_extends hosted.session (.announce_withdrawal announced_at_ms draws)).config
      · intro hosted
        exact hosted.session.ticket_announce_withdrawal announced_at_ms draws
    have htaken := hannounced.trans (modify _ i
      (f := fun hosted => { hosted with tasks := hosted.tasks.map fun task => (task.1, true) })
      (fun _ => rfl) (fun _ => rfl))
    exact htaken.trans (.set_call _ k rfl)
  · exact .refl s

theorem stop (s : Service) (k : Nat) : Keeps s (s.stop k) := by
  unfold Service.stop
  split
  · split
    · exact .refl s
    · exact (Keeps.end_call s k).trans (.of_eq rfl rfl rfl rfl)
  · exact .refl s

theorem session_step (s : Service) (i : SessionId) (step : Step) :
    Keeps s (s.session_step i step) := by
  unfold Service.session_step
  split
  · refine modify s i ?_ ?_
    · intro hosted
      exact congrArg SessionConfig.topic_id (step_extends hosted.session step).config
    · intro hosted
      exact hosted.session.ticket_step step
  · exact .refl s

theorem pump (s : Service) (i : SessionId) : Keeps s (s.pump i) := by
  unfold Service.pump
  split
  · exact .refl s
  rename_i hosted hhosted
  split
  · exact .refl s
  rename_i pump hpump
  rcases broadcast_recv EVENT_CHANNEL_CAPACITY hosted.session.events (!s.live i) pump.next
    with ⟨received, next⟩
  have hadvanced : Keeps s (s.modify i fun hosted =>
      { hosted with pump := some { pump with next } }) :=
    .modify s i (fun _ => rfl) (fun _ => rfl)
  cases received with
  | Ok event =>
    simp only [on_session_event]
    split
    · split
      · exact hadvanced.trans (.of_eq rfl rfl rfl rfl)
      · exact hadvanced
    · exact hadvanced
  | Lagged missed => exact hadvanced
  | Closed => exact .modify s i (fun _ => rfl) (fun _ => rfl)
  | Pending => exact .refl s

end Keeps

/-- An act that puts no drop into the table, takes none out, and has no part
in a restart. -/
def Act.plain : Act → Bool
  | .restore_drop .. | .connected .. | .settle _ | .drop_leave _ => false
  | _ => true

theorem Keeps.act [Urls] (self_addr : EndpointAddr) (s : Service) {a : Act} (h : a.plain = true) :
    Keeps s (s.act self_addr a) := by
  cases a with
  | drop_create options topic_id key => exact .connect s _ rfl
  | drop_join ticket => exact .drop_join s ticket
  | restore_drop ticket handle name mine => cases h
  | connected k carrier store => cases h
  | settle k => cases h
  | answer k =>
    simp only [Service.act, Service.answered]
    split
    · exact .end_call s k
    · exact .refl s
  | drop_leave handle => cases h
  | withdraw k announced_at_ms draws => exact .withdraw s k announced_at_ms draws
  | stop k => exact .stop s k
  | offer_publish handle =>
    simp only [Service.act, Service.offer_publish]
    rcases s.entry handle with e | entry
    · exact .refl s
    · exact .of_eq rfl rfl rfl rfl
  | offer_fetch handle hash =>
    simp only [Service.act, Service.offer_fetch]
    rcases s.entry handle with e | entry
    · exact .refl s
    rcases hash with e | hash
    · exact .refl s
    · exact .of_eq rfl rfl rfl rfl
  | consent_answered k accept =>
    simp only [Service.act, Service.consent_answered]
    split
    · exact .refl s
    · split <;> exact .of_eq rfl rfl rfl rfl
  | session_step i step => exact .session_step s i step
  | pump i => exact .pump s i
  | internal_ended i k => exact .modify s i (fun _ => rfl) (fun _ => rfl)
  | work_ended k => exact .of_eq rfl rfl rfl rfl
  | rejoin_ended k => exact .of_eq rfl rfl rfl rfl

/-! ## Drops that come and go -/

variable {s s' : Service}

theorem origin_of_lt {i : SessionId} (h : i < s.sessions.length) : ∃ o, s.origin i = some o := by
  unfold origin
  rw [List.getElem?_eq_getElem h]
  exact ⟨_, rfl⟩

theorem lt_of_origin {i : SessionId} {o : TopicId × DropTicket} (h : s.origin i = some o) :
    i < s.sessions.length := by
  unfold origin at h
  obtain ⟨hosted, hhosted, -⟩ := Option.map_eq_some_iff.mp h
  exact (List.getElem?_eq_some_iff.mp hhosted).1

/-- A session that was there has the origin that it had. -/
theorem Later.back (h : Later s s') {i : SessionId} {o : TopicId × DropTicket}
    (hi : i < s.sessions.length) (ho : s'.origin i = some o) : s.origin i = some o := by
  obtain ⟨o', ho'⟩ := origin_of_lt hi
  rw [h i o' ho'] at ho
  rwa [← ho]

/-- A handle with the session that it had stands for the drop that it stood for. -/
theorem Later.drop (h : Later s s') (hs : Hosting s) {handle : String}
    (hsame : s'.session_of handle = s.session_of handle) : s'.drop handle = s.drop handle := by
  unfold Service.drop
  rw [hsame]
  rcases hi : s.session_of handle with _ | i
  · rfl
  obtain ⟨entry, hentry, rfl⟩ := Option.map_eq_some_iff.mp hi
  obtain ⟨o, ho⟩ := origin_of_lt (hs.drops handle entry hentry)
  rw [Option.bind_some, Option.bind_some, ho, h _ o ho]

theorem Keeps.drop (h : Keeps s s') (hs : Hosting s) (handle : String) :
    s'.drop handle = s.drop handle :=
  h.later.drop hs (h.drops handle)

/-- No such act brings a restored drop nearer. -/
theorem restoring_of_calls (h : Later s s') (hs : Hosting s)
    (hcalls : ∀ call ∈ s'.calls, call ∈ s.calls ∨ call.restored = none) {handle : String}
    {ticket : DropTicket} (hr : s'.Restoring handle ticket) : s.Restoring handle ticket := by
  rcases hr with ⟨name, mine, hmem⟩ | ⟨i, topic, name, mine, hmem, horigin⟩
  · rcases hcalls _ hmem with hold | hnone
    · exact .inl ⟨name, mine, hold⟩
    · cases hnone
  · rcases hcalls _ hmem with hold | hnone
    · exact .inr ⟨i, topic, name, mine, hold, h.back (hs.calls _ hold i rfl) horigin⟩
    · cases hnone

theorem Keeps.restoring (h : Keeps s s') (hs : Hosting s) {handle : String} {ticket : DropTicket}
    (hr : s'.Restoring handle ticket) : s.Restoring handle ticket :=
  restoring_of_calls h.later hs h.calls hr

/-- The carrier comes, and the session is made with the ticket that waited. -/
theorem connected_ok [Urls] {k : Nat} {ticket : DropTicket} {opening : Opening}
    (hk : s.calls[k]? = some (.connecting ticket opening)) (store : BlobHash → BlobStatus) :
    (s.connected k (.ok ()) store).calls = s.calls.set k (.opened s.sessions.length opening) ∧
      (s.connected k (.ok ()) store).origin s.sessions.length = some (ticket.topic, ticket) ∧
      (s.connected k (.ok ()) store).sessions.length = s.sessions.length + 1 := by
  unfold Service.connected
  rw [hk]
  refine ⟨rfl, ?_, List.length_append⟩
  unfold origin Service.open_session
  simp only [set_call, List.getElem?_append_right (Nat.le_refl _), Nat.sub_self]
  rfl

theorem connected_error [Urls] (s : Service) (k : Nat) (e : String) (store : BlobHash → BlobStatus) :
    Keeps s (s.connected k (.error e) store) := by
  unfold Service.connected
  split
  · exact .end_call s k
  · exact .refl s

theorem connected_none [Urls] {k : Nat}
    (hk : ∀ ticket opening, s.calls[k]? ≠ some (.connecting ticket opening))
    (carrier : Except String Unit) (store : BlobHash → BlobStatus) :
    s.connected k carrier store = s := by
  unfold Service.connected
  split
  · rename_i ticket opening h
    exact absurd h (hk ticket opening)
  · rfl

theorem Later.connected [Urls] (s : Service) (k : Nat) (carrier : Except String Unit)
    (store : BlobHash → BlobStatus) : Later s (s.connected k carrier store) := by
  unfold Service.connected
  split
  · rcases carrier with e | u
    · exact .of_sessions rfl
    · exact (Later.of_sessions rfl).trans (.open_session _ _ _ _)
  · exact .refl s

theorem sameDrops_connected [Urls] (s : Service) (k : Nat) (carrier : Except String Unit)
    (store : BlobHash → BlobStatus) : SameDrops s (s.connected k carrier store) := by
  intro handle
  unfold Service.connected
  split
  · rcases carrier with e | u <;> rfl
  · rfl

theorem restoring_connected [Urls] (hs : Hosting s) (k : Nat) (carrier : Except String Unit)
    (store : BlobHash → BlobStatus) {handle : String} {ticket : DropTicket}
    (hr : (s.connected k carrier store).Restoring handle ticket) : s.Restoring handle ticket := by
  rcases carrier with e | u
  · exact (connected_error s k e store).restoring hs hr
  by_cases hk : ∃ ticket opening, s.calls[k]? = some (.connecting ticket opening)
  · obtain ⟨ticket', opening, hk⟩ := hk
    obtain ⟨hcalls, hnew, -⟩ := connected_ok hk store
    unfold Restoring at hr
    rw [hcalls] at hr
    rcases hr with ⟨name, mine, hmem⟩ | ⟨i, topic, name, mine, hmem, horigin⟩
    · rcases List.mem_or_eq_of_mem_set hmem with hold | heq
      · exact .inl ⟨name, mine, hold⟩
      · cases heq
    · rcases List.mem_or_eq_of_mem_set hmem with hold | heq
      · have hback := (Later.connected s k (.ok u) store).back (hs.calls _ hold i rfl) horigin
        exact .inr ⟨i, topic, name, mine, hold, hback⟩
      · cases heq
        rw [hnew] at horigin
        cases horigin
        exact .inl ⟨name, mine, List.mem_of_getElem? hk⟩
  · rw [connected_none (fun ticket opening h => hk ⟨ticket, opening, h⟩)] at hr
    exact hr

/-- A restart asks for a carrier, or is refused. -/
theorem restoring_restore_drop {ticket ticket' : DropTicket} {handle handle' : String}
    {name : Option String} {mine : Bool}
    (hr : ((s.restore_drop ticket handle name mine).toOption.getD s).Restoring handle' ticket') :
    s.Restoring handle' ticket' ∨ handle' = handle ∧ ticket' = ticket := by
  unfold Service.restore_drop Service.connect at hr
  rcases hcap : s.check_session_capacity with e | u
  · rw [hcap] at hr
    exact .inl hr
  rw [hcap] at hr
  rcases hr with ⟨name', mine', hmem⟩ | ⟨i, topic, name', mine', hmem, horigin⟩
  · rcases List.mem_append.mp hmem with hold | hnew
    · exact .inl (.inl ⟨name', mine', hold⟩)
    · cases List.mem_singleton.mp hnew
      exact .inr ⟨rfl, rfl⟩
  · rcases List.mem_append.mp hmem with hold | hnew
    · exact .inl (.inr ⟨i, topic, name', mine', hold, horigin⟩)
    · cases List.mem_singleton.mp hnew

/-- The handle that an opened session gets. -/
def handle_of (self : Service) : Opening → String
  | .restored handle _ _ => handle
  | _ => s!"d{self.next_drop}"

theorem session_of_settle {k : Nat} {i : SessionId} {opening : Opening}
    (hk : s.calls[k]? = some (.opened i opening)) (handle : String) :
    (s.settle k).session_of handle =
      if handle = s.handle_of opening then some i else s.session_of handle := by
  have hinsert : ∀ (drops : HashMap String DropEntry) (new : String) (entry : DropEntry),
      (AList.lookup handle (drops.insert new entry)).map DropEntry.session =
        if handle = new then some entry.session else (drops.lookup handle).map DropEntry.session := by
    intro drops new entry
    rw [HashMap.lookup_insert']
    split <;> rfl
  unfold Service.settle
  rw [hk]
  cases opening with
  | created name => exact hinsert s.drops _ _
  | joined name => exact hinsert s.drops _ _
  | restored handle' name mine => exact hinsert s.drops _ _

theorem settle_none {k : Nat} (hk : ∀ i opening, s.calls[k]? ≠ some (.opened i opening)) :
    s.settle k = s := by
  unfold Service.settle
  split
  · rename_i i name h
    exact absurd h (hk i _)
  · rename_i i name h
    exact absurd h (hk i _)
  · rename_i i handle name mine h
    exact absurd h (hk i _)
  · rfl

theorem Later.settle (s : Service) (k : Nat) : Later s (s.settle k) := by
  unfold Service.settle Service.register Service.register_restored
  split
  · exact ((Later.of_sessions rfl).trans (.insert_drop _ _ _)).trans (.of_sessions rfl)
  · exact ((Later.of_sessions rfl).trans (.insert_drop _ _ _)).trans (.of_sessions rfl)
  · exact (Later.insert_drop s _ _).trans (.of_sessions rfl)
  · exact .refl s

theorem length_settle (s : Service) (k : Nat) :
    (s.settle k).sessions.length = s.sessions.length := by
  unfold Service.settle
  split
  all_goals first
    | rfl
    | exact List.length_modify _ _ _

theorem calls_settle (s : Service) (k : Nat) :
    ∀ call ∈ (s.settle k).calls, call ∈ s.calls ∨ call.restored = none := by
  unfold Service.settle
  intro call hcall
  split at hcall
  · rcases List.mem_or_eq_of_mem_set hcall with hold | heq
    · exact .inl hold
    · rw [heq]
      exact .inr rfl
  · rcases List.mem_or_eq_of_mem_set hcall with hold | heq
    · exact .inl hold
    · rw [heq]
      exact .inr rfl
  · exact .inl (List.mem_of_mem_eraseIdx hcall)
  · exact .inl hcall

/-- What a call of `drop.leave` takes away. -/
theorem session_of_leave {handle : String} (h : s.drop_leave handle = .ok s') (other : String) :
    s'.session_of other = if other = handle then none else s.session_of other := by
  unfold Service.drop_leave Service.entry at h
  rcases hentry : s.drops.lookup handle with _ | entry
  · rw [hentry] at h
    cases h
  rw [hentry] at h
  cases h
  unfold session_of
  rw [HashMap.lookup_erase']
  split <;> rfl

end Service

/-! ## Topics -/

namespace Service

/-- Every session is of the topic that its ticket names. -/
structure Rooted (s : Service) : Prop extends Hosting s where
  topics : ∀ i o, s.origin i = some o → o.1 = o.2.topic

namespace Rooted

variable {s s' : Service}

theorem of_new (secret : SecretKey) (policy : DropPolicy) : Rooted (.new secret policy) where
  toHosting := .of_new secret policy
  topics _ _ h := nomatch h

theorem of_later (h : Rooted s) (hs : Hosting s') (hlater : Later s s')
    (hlength : s'.sessions.length = s.sessions.length) : Rooted s' where
  toHosting := hs
  topics i o ho := h.topics i o (hlater.back (hlength ▸ lt_of_origin ho) ho)

theorem act [Urls] (self_addr : EndpointAddr) (h : Rooted s) (a : Act) :
    Rooted (s.act self_addr a) := by
  have hs := h.toHosting.act self_addr a
  rcases hplain : a.plain with _ | _
  · cases a with
    | restore_drop ticket handle name mine =>
      refine h.of_later hs ?_ ?_
      all_goals
        simp only [Service.act, Service.restore_drop, Service.connect]
        rcases s.check_session_capacity with e | u
      · exact .refl s
      · exact .of_sessions rfl
      · rfl
      · rfl
    | connected k carrier store =>
      rcases carrier with e | u
      · exact h.of_later hs (connected_error s k e store).later (connected_error s k e store).length
      by_cases hk : ∃ ticket opening, s.calls[k]? = some (.connecting ticket opening)
      · obtain ⟨ticket, opening, hk⟩ := hk
        obtain ⟨-, hnew, hlength⟩ := connected_ok hk store
        refine ⟨hs, fun i o ho => ?_⟩
        have hi := lt_of_origin ho
        change i < (s.connected k (.ok u) store).sessions.length at hi
        rw [hlength] at hi
        rcases Nat.lt_succ_iff_lt_or_eq.mp hi with hlt | rfl
        · exact h.topics i o ((Later.connected s k (.ok u) store).back hlt ho)
        · change (s.connected k (.ok ()) store).origin s.sessions.length = some o at ho
          rw [hnew] at ho
          cases ho
          rfl
      · change Rooted (s.connected k (.ok u) store)
        rwa [connected_none (fun ticket opening h => hk ⟨ticket, opening, h⟩)]
    | settle k => exact h.of_later hs (.settle s k) (length_settle s k)
    | drop_leave handle =>
      refine h.of_later hs ?_ ?_
      all_goals
        simp only [Service.act, Service.drop_leave]
        rcases s.entry handle with e | entry
      · exact .refl s
      · exact .of_sessions rfl
      · rfl
      · rfl
    | _ => cases hplain
  · have hkeeps := Keeps.act self_addr s hplain
    exact h.of_later hs hkeeps.later hkeeps.length

end Rooted

end Service

end Laws

end iroh_drop
