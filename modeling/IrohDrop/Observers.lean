-- What a client that only watches can learn of the tickets of the hosted drops: what
-- it is sent in two runs that differ in topics and keys (service.rs, daemon-api.md).
import IrohDrop.SideBySide

open rust_std postcard

namespace iroh_drop

section Laws

variable [Crypto] [Urls]

/-! ## Runs that differ in topics and keys -/

/-- Two sessions that show the same, whatever their topics, keys and tickets are. -/
structure Session.Twin (s s' : Session) : Prop where
  self_id : s.self_id = s'.self_id
  events : s.events = s'.events
  inventory : s.inventory = s'.inventory
  peers : HashMap.len s.state.known_peers = HashMap.len s'.state.known_peers

structure Hosted.Twin (h h' : Hosted) : Prop where
  session : h.session.Twin h'.session
  tasks : h.tasks = h'.tasks
  pump : h.pump = h'.pump

/-- The same request, but for its ticket. -/
inductive Call.Twin : Call → Call → Prop where
  | same (call : Call) : Twin call call
  | connecting (ticket ticket' : DropTicket) (opening : Opening) :
    Twin (.connecting ticket opening) (.connecting ticket' opening)

/-- Two services that host the same drops, but for topics, keys and tickets. -/
structure Service.Twin (s s' : Service) : Prop where
  drops : s.drops = s'.drops
  next_drop : s.next_drop = s'.next_drop
  works : s.works = s'.works
  consents : s.consents = s'.consents
  calls : List.Forall₂ Call.Twin s.calls s'.calls
  sessions : List.Forall₂ Hosted.Twin s.sessions s'.sessions

/-- The same step, but for the topic, the key or the ticket that comes with it. What
the network brings to a session is sealed and signed for its topic. -/
inductive ApiStep.Twin : ApiStep → ApiStep → Prop where
  | same (step : ApiStep) : Twin step step
  | ticket (c : ClientId) (id : UInt64) (p p' : Value) :
    Twin (.sent c (.Req id "drop.join" p)) (.sent c (.Req id "drop.join" p'))
  | created (options : CreateOptions) (topic topic' : TopicId) (key key' : DropKey) (due : Bool) :
    Twin (.service (.drop_create options topic key) due)
      (.service (.drop_create options topic' key') due)
  | joined (text text' : String) (due : Bool) :
    Twin (.service (.drop_join text) due) (.service (.drop_join text') due)
  | restored (ticket ticket' : DropTicket) (handle : String) (name : Option String) (mine : Bool)
      (due : Bool) :
    Twin (.service (.restore_drop ticket handle name mine) due)
      (.service (.restore_drop ticket' handle name mine) due)
  | stepped (i : SessionId) (step step' : Step) (due : Bool) :
    Twin (.service (.session_step i step) due) (.service (.session_step i step') due)

/-- A step of the clients or of the bus. -/
def ApiStep.is_outside : ApiStep → Bool
  | .service _ _ | .conclude _ | .stopping => false
  | _ => true

namespace ApiDaemon

/-- The client has no role but that of an observer. -/
def observes (d : ApiDaemon) (c : ClientId) : Bool :=
  d.control.clients[c]?.all fun client => decide client.stage.Observes

/-- Two runs that differ in nothing but the topics and keys of drops. -/
def Twins (human_bytes : UInt64 → String) : ApiDaemon → ApiDaemon → List ApiStep →
    List ApiStep → Prop :=
  runs.SideBySide (step human_bytes) ApiStep.Twin fun d d' => d.service.Twin d'.service

/-- Whatever the topics and keys of the drops are, the client is sent the same if it
is no more than an observer. -/
def TellsNoTicket (human_bytes : UInt64 → String) (d : ApiDaemon) (steps : List ApiStep)
    (c : ClientId) : Prop :=
  ∀ steps', Twins human_bytes d d steps steps' → (d.run human_bytes steps).observes c →
    (d.run human_bytes steps).received c = (d.run human_bytes steps').received c

/-! ## What the topics come with -/

/-- The reply to a request has no topic in it. -/
def withholds (d : ApiDaemon) : Frame → Bool
  | .Req _ "drop.list" _ => d.service.drops.entries.isEmpty
  | .Req _ "events.replay" p =>
    (d.stream.bus.replay (replay_from p)).1.all fun env => decide (env.e ≠ "drop.joined")
  | _ => true

/-- What the client gets in a step has no topic in it: no list of drops while there is
one, and no `drop.joined`, be it told or replayed. -/
def hides (d : ApiDaemon) (c : ClientId) : ApiStep → Bool
  | .serve c' _ _ => decide (c' ≠ c) ||
      d.control.clients[c]?.all fun client => client.inbound.head?.all d.withholds
  | .forward c' => decide (c' ≠ c) || d.feeds[c]?.join.all fun next =>
      (Feed.forward { next, pipe := [] } d.stream.bus).pipe.all fun notice =>
        match notice with
        | .event env => decide (env.e ≠ "drop.joined")
        | .truncated _ => true
  | _ => true

theorem hides_serve {d : ApiDaemon} {c : ClientId} {outcome : Outcome} {hello_error : String}
    (h : d.hides c (.serve c outcome hello_error) = true) {client : ClientConn}
    (hclient : d.control.clients[c]? = some client) {frame : Frame}
    (hframe : client.inbound.head? = some frame) : d.withholds frame = true := by
  simpa [hides, hclient, hframe] using h

theorem hides_forward {d : ApiDaemon} {c : ClientId} (h : d.hides c (.forward c) = true) {next : Nat}
    (hnext : d.feeds[c]? = some (some next)) {env : Envelope}
    (henv : .event env ∈ (Feed.forward { next, pipe := [] } d.stream.bus).pipe) :
    env.e ≠ "drop.joined" := by
  simp only [hides, hnext, ne_eq, not_true_eq_false, decide_false, Bool.false_or,
    Option.join_some, Option.all_some, List.all_eq_true] at h
  simpa using h _ henv

end ApiDaemon

/-! ## What the service tells -/

/-- The same event, but for the topic of a `drop.joined`. -/
structure Tell.Alike (told told' : Tell) : Prop where
  e : told.1 = told'.1
  p : told.1 ≠ "drop.joined" → told.2 = told'.2

variable {human_bytes : UInt64 → String}

omit [Urls] in
theorem Hosted.Twin.tells {h h' : Hosted} (htwin : h.Twin h') (closed closed' due : Bool) :
    h.tells human_bytes closed due = h'.tells human_bytes closed' due := by
  unfold Hosted.tells
  rw [htwin.pump, htwin.session.events]
  rcases h'.pump with _ | pump
  · rfl
  · dsimp only
    unfold broadcast_recv
    by_cases hgone : pump.next + EVENT_CHANNEL_CAPACITY < h'.session.events.length
    · simp only [if_pos hgone]
    · simp only [if_neg hgone]
      rcases h'.session.events[pump.next]? with _ | event
      · cases closed <;> cases closed' <;> rfl
      · rfl

namespace Service.Twin

variable {s s' : Service}

omit [Urls] in
theorem session_of (h : s.Twin s') (i : SessionId) :
    Option.Rel Hosted.Twin s.sessions[i]? s'.sessions[i]? :=
  forall₂_at h.sessions i

omit [Urls] in
/-- The topics may differ, but each drop has one. -/
theorem tells_topic (h : s.Twin s') (i : SessionId) {f g : TopicId → Tell}
    (hfg : ∀ topic topic', Tell.Alike (f topic) (g topic')) :
    List.Forall₂ Tell.Alike ((s.topic_of i).toList.map f) ((s'.topic_of i).toList.map g) := by
  have hsession := h.session_of i
  unfold Service.topic_of
  generalize s.sessions[i]? = hosted at hsession ⊢
  generalize s'.sessions[i]? = hosted' at hsession ⊢
  cases hsession with
  | none => exact .nil
  | some _ => exact .cons (hfg _ _) .nil

omit [Urls] in
theorem tells (h : s.Twin s') (due : Bool) (act : Service.Act) :
    List.Forall₂ Tell.Alike (s.tells human_bytes due act) (s'.tells human_bytes due act) := by
  have hquiet (told : Tell) : Tell.Alike told told := ⟨rfl, fun _ => rfl⟩
  have hjoined (handle : String) (topic topic' : TopicId) :
      Tell.Alike (tell_joined handle topic) (tell_joined handle topic') :=
    ⟨rfl, fun hname => absurd rfl hname⟩
  have hrestored (handle : String) (topic topic' : TopicId) :
      Tell.Alike (tell_restored handle topic) (tell_restored handle topic') :=
    ⟨rfl, fun hname => absurd rfl hname⟩
  cases act with
  | settle k =>
    have hcall := forall₂_at h.calls k
    simp only [Service.tells, h.next_drop]
    generalize s.calls[k]? = call at hcall ⊢
    generalize s'.calls[k]? = call' at hcall ⊢
    cases hcall with
    | none => exact .nil
    | @some call call' hcall =>
      cases hcall with
      | connecting ticket ticket' opening => exact .nil
      | same =>
        cases call with
        | opened i opening =>
          cases opening with
          | created name => exact h.tells_topic i (hjoined _)
          | joined name => exact h.tells_topic i (hjoined _)
          | restored handle name mine => exact h.tells_topic i (hrestored handle)
        | connecting ticket opening => exact .nil
        | registered handle => exact .nil
        | withdrawing handle i => exact .nil
        | stopping handle i => exact .nil
  | stop k =>
    have hcall := forall₂_at h.calls k
    simp only [Service.tells]
    generalize s.calls[k]? = call at hcall ⊢
    generalize s'.calls[k]? = call' at hcall ⊢
    cases hcall with
    | none => exact .nil
    | @some call call' hcall =>
      cases hcall with
      | connecting ticket ticket' opening => exact .nil
      | same =>
        cases call with
        | stopping handle i =>
          have hsession := h.session_of i
          dsimp only
          generalize s.sessions[i]? = hosted at hsession ⊢
          generalize s'.sessions[i]? = hosted' at hsession ⊢
          cases hsession with
          | none => exact .cons (hquiet _) .nil
          | some hsession =>
            simp only [Option.any_some, hsession.tasks]
            split
            · exact .nil
            · exact .cons (hquiet _) .nil
        | opened i opening => exact .nil
        | connecting ticket opening => exact .nil
        | registered handle => exact .nil
        | withdrawing handle i => exact .nil
  | pump i =>
    have hsession := h.session_of i
    simp only [Service.tells]
    generalize s.sessions[i]? = hosted at hsession ⊢
    generalize s'.sessions[i]? = hosted' at hsession ⊢
    cases hsession with
    | none => exact .nil
    | some hsession =>
      dsimp only
      rw [hsession.tells _ (!s'.live i) due]
      exact List.forall₂_same.mpr fun told _ => hquiet told
  | _ => exact .nil

end Service.Twin

/-! ## Two daemons side by side -/

/-- The daemons are the same but for topics, keys and what other clients than `c` are
sent; and if `c` is an observer, it was sent the same by both. -/
structure ApiDaemon.Alike (c : ClientId) (d d' : ApiDaemon) : Prop where
  options : d.options = d'.options
  self_addr : d.self_addr = d'.self_addr
  service : d.service.Twin d'.service
  control : d.control.Alike c d'.control
  board : d.board = d'.board
  stream : d.stream.Alike d'.stream
  feeds : d.feeds = d'.feeds
  asked : d.asked = d'.asked

namespace ApiDaemon

theorem step_outside (d : ApiDaemon) {i : ApiStep} (h : i.is_outside = true) :
    (d.step human_bytes i).service = d.service := by
  cases i with
  | service act due => cases h
  | conclude k => cases h
  | stopping => cases h
  | serve c outcome hello_error =>
    simp only [step, serve]
    split
    · rfl
    · split <;> rfl
  | subscribe c =>
    simp only [step, subscribe]
    split <;> rfl
  | forward c =>
    simp only [step, forward]
    split
    · split <;> rfl
    · rfl
  | task step =>
    simp only [ApiDaemon.step, task]
    split
    · rfl
    · exact foldl_keeps (f := tell_task) (g := ApiDaemon.service) (fun _ _ => rfl) _ _
  | _ => rfl

namespace Alike

variable {c : ClientId} {d d' : ApiDaemon}

theorem with_service (h : d.Alike c d') {s s' : Service} (hservice : s.Twin s') :
    ApiDaemon.Alike c { d with service := s } { d' with service := s' } :=
  { h with service := hservice }

theorem with_control (h : d.Alike c d') {a a' : ControlApi} (hcontrol : a.Alike c a') :
    ApiDaemon.Alike c { d with control := a } { d' with control := a' } :=
  { h with control := hcontrol }

theorem tell (h : d.Alike c d') {told told' : Tell} (htold : told.Alike told') :
    (d.tell told).Alike c (d'.tell told') := by
  obtain ⟨e, p⟩ := told
  obtain ⟨e', p'⟩ := told'
  obtain rfl : e = e' := htold.e
  exact { h with stream := h.stream.take e htold.p }

theorem tell_all (h : d.Alike c d') {told told' : List Tell}
    (htold : List.Forall₂ Tell.Alike told told') :
    (told.foldl ApiDaemon.tell d).Alike c (told'.foldl ApiDaemon.tell d') := by
  induction htold generalizing d d' with
  | nil => exact h
  | cons hfirst _ ih => exact ih (h.tell hfirst)

theorem spawn (h : d.Alike c d') (work : Work) : (d.spawn work).Alike c (d'.spawn work) :=
  { h with board := by simp only [ApiDaemon.spawn, h.board] }

theorem ask (h : d.Alike c d') (consent : Consent) :
    (d.ask human_bytes consent).Alike c (d'.ask human_bytes consent) :=
  { h with
    control := h.control.spawn_consent _
    asked := by simp only [ApiDaemon.ask, h.asked, h.control.consents] }

/-- What is done for each of some things is done on both sides. -/
theorem foldl {β : Type} {f : ApiDaemon → β → ApiDaemon}
    (hkeeps : ∀ {d d' : ApiDaemon}, d.Alike c d' → ∀ x, (f d x).Alike c (f d' x))
    (h : d.Alike c d') (l : List β) : (l.foldl f d).Alike c (l.foldl f d') := by
  induction l generalizing d d' with
  | nil => exact h
  | cons x l ih => exact ih (hkeeps h x)

theorem perform (h : d.Alike c d') {act act' : Service.Act} {due : Bool}
    (htells : List.Forall₂ Tell.Alike (d.service.tells human_bytes due act)
      (d'.service.tells human_bytes due act'))
    (hservice : (d.service.act d.self_addr act).Twin (d'.service.act d'.self_addr act')) :
    (d.perform human_bytes act due).Alike c (d'.perform human_bytes act' due) := by
  unfold ApiDaemon.perform
  dsimp only
  rw [hservice.works, h.service.works, hservice.consents, h.service.consents]
  have htold := (h.with_service hservice).tell_all htells
  exact foldl ask (foldl spawn htold _) _

/-! ### Methods -/

theorem session (h : d.Alike c d') (handle : String) :
    (∃ e, d.session handle = .error e ∧ d'.session handle = .error e) ∨
      ∃ s s', d.session handle = .ok s ∧ d'.session handle = .ok s' ∧ s.Twin s' := by
  have hentry : d.service.entry handle = d'.service.entry handle := by
    unfold Service.entry
    rw [h.service.drops]
  unfold ApiDaemon.session
  rw [hentry]
  rcases d'.service.entry handle with e | entry
  · exact .inl ⟨e, rfl, rfl⟩
  · have hsession := h.service.session_of entry.session
    simp only [bind, Except.bind]
    generalize d.service.sessions[entry.session]? = hosted at hsession ⊢
    generalize d'.service.sessions[entry.session]? = hosted' at hsession ⊢
    cases hsession with
    | none => exact .inl ⟨_, rfl, rfl⟩
    | some hsession => exact .inr ⟨_, _, rfl, rfl, hsession.session⟩

theorem offer_list (h : d.Alike c d') (params : Value) :
    d.offer_list human_bytes params = d'.offer_list human_bytes params := by
  unfold ApiDaemon.offer_list
  rcases handle_param params with e | handle
  · rfl
  · simp only [bind, Except.bind]
    rcases h.session handle with ⟨e, he, he'⟩ | ⟨s, s', hs, hs', htwin⟩
    · rw [he, he']
    · rw [hs, hs']
      simp only [htwin.inventory]

/-- A list of no drops. -/
theorem drop_list (h : d.Alike c d') (hnone : d.service.drops.entries = []) :
    d.drop_list human_bytes = d'.drop_list human_bytes := by
  have hnone' : d'.service.drops.entries = [] := by rw [← h.service.drops, hnone]
  unfold ApiDaemon.drop_list Service.drop_list Service.listed_drops
  rw [hnone, hnone']
  rfl

end Alike

/-- A method that needs the control role is refused before it is looked at. -/
theorem dispatch_refused (d : ApiDaemon) {roles : List Role} (hcontrol : Role.Control ∉ roles)
    {m : String} (hmethod : m ∈ control_methods) (p : Value) (outcome : Outcome) :
    d.dispatch human_bytes roles m p outcome =
      .error (.forbidden s!"{m} requires the control role") := by
  unfold dispatch
  rw [if_pos ⟨hmethod, hcontrol⟩]

namespace Alike

variable {c : ClientId} {d d' : ApiDaemon}

/-- What an observer asks for is answered by both in the same way. -/
theorem dispatch (h : d.Alike c d') {roles : List Role}
    (hroles : ∀ role ∈ roles, role = .Observer) (id : UInt64) (m : String) (p : Value)
    (outcome : Outcome) (hwithholds : d.withholds (.Req id m p) = true) :
    d.dispatch human_bytes roles m p outcome = d'.dispatch human_bytes roles m p outcome := by
  have hcontrol : Role.Control ∉ roles := by
    intro hmem
    cases hroles _ hmem
  have hui : Role.Ui ∉ roles := by
    intro hmem
    cases hroles _ hmem
  by_cases hmethod : m ∈ control_methods
  · rw [d.dispatch_refused hcontrol hmethod, d'.dispatch_refused hcontrol hmethod]
  · by_cases hticket : m = "drop.ticket"
    · subst hticket
      unfold ApiDaemon.dispatch
      simp [hmethod, hui, hcontrol]
    · unfold ApiDaemon.dispatch
      simp only [hmethod, hticket, false_and, if_false]
      split
      · rfl
      · simp only [h.options, h.self_addr, h.service.drops, EventBus.current, h.stream.seq]
      · rw [h.drop_list (List.isEmpty_iff.mp hwithholds)]
      · exact absurd rfl hticket
      · exact h.offer_list p
      · rw [h.board]
      · have hquiet := List.all_eq_true.mp hwithholds
        simp only [events_replay, h.stream.replay _ fun env hmem => by simpa using hquiet env hmem]
      · rfl

/-! ### Connections -/

theorem next_reply (h : d.Alike c d') {client client' : ClientConn}
    (hclient : client.Alike client') (hobserves : client.stage.Observes)
    (hwithholds : ∀ frame, client.inbound.head? = some frame → d.withholds frame = true)
    (outcome : Outcome) :
    d.next_reply human_bytes client outcome = d'.next_reply human_bytes client' outcome := by
  have hframe := forall₂_head hclient.inbound
  unfold ApiDaemon.next_reply
  rw [← hclient.stage]
  cases hstage : client.stage with
  | greeting => rfl
  | ended roles => rfl
  | serving roles ui_token =>
    rw [hstage] at hobserves
    generalize client.inbound.head? = frame at hframe hwithholds ⊢
    generalize client'.inbound.head? = frame' at hframe ⊢
    cases hframe with
    | none => rfl
    | @some frame frame' hframe =>
      cases hframe with
      | ticket id p p' =>
        have hcontrol : Role.Control ∉ roles := by
          intro hmem
          cases hobserves _ hmem
        dsimp only
        rw [d.dispatch_refused hcontrol (by simp [control_methods]),
          d'.dispatch_refused hcontrol (by simp [control_methods])]
      | same =>
        cases frame with
        | Req id m p => exact h.dispatch hobserves id m p outcome (hwithholds _ rfl)
        | Res id p => rfl
        | Err id code msg => rfl
        | Ask id q p => rfl
        | Ev seq e p => rfl

theorem serve (h : d.Alike c d') (k : ClientId) (outcome : Outcome) (hello_error : String)
    (hhides : d.hides c (.serve k outcome hello_error) = true) :
    (d.serve human_bytes k outcome hello_error).Alike c
      (d'.serve human_bytes k outcome hello_error) := by
  unfold ApiDaemon.serve
  rcases hfound : d.control.clients[k]? with _ | client
  · rw [forall₂_missing h.control.clients hfound]
    exact h
  · obtain ⟨client', hfound', hsame⟩ := forall₂_found h.control.clients hfound
    have hready : d.is_ready k client = d'.is_ready k client' := by
      unfold is_ready
      rw [hsame.stage, h.feeds]
    rw [hfound']
    dsimp only
    rw [hready]
    split
    · refine h.with_control (h.control.serve k ?_ rfl ?_)
      · simp only [h.self_addr, EventBus.current, h.stream.seq]
      · rintro rfl x hx hobserves
        cases hfound.symm.trans hx
        exact h.next_reply hsame hobserves (fun _ => hides_serve hhides hfound) outcome
    · exact h

theorem subscribe (h : d.Alike c d') (k : ClientId) : (d.subscribe k).Alike c (d'.subscribe k) := by
  have hstage : d.control.clients[k]?.map ClientConn.stage =
      d'.control.clients[k]?.map ClientConn.stage := by
    rcases hfound : d.control.clients[k]? with _ | client
    · rw [forall₂_missing h.control.clients hfound]
    · obtain ⟨client', hfound', hsame⟩ := forall₂_found h.control.clients hfound
      simp [hfound', hsame.stage]
  unfold ApiDaemon.subscribe
  rw [hstage, h.feeds, h.stream.sent.length_eq]
  split
  · exact { h with feeds := rfl }
  · exact h

theorem forward (h : d.Alike c d') (k : ClientId) (hhides : d.hides c (.forward k) = true) :
    (d.forward k).Alike c (d'.forward k) := by
  unfold ApiDaemon.forward
  rcases hfound : d.control.clients[k]? with _ | client
  · rw [forall₂_missing h.control.clients hfound]
    exact h
  · obtain ⟨client', hfound', hsame⟩ := forall₂_found h.control.clients hfound
    have hfeed : d.feeds[k]? = d'.feeds[k]? := by rw [h.feeds]
    rw [hfound', hfeed]
    rcases hnext : d'.feeds[k]? with _ | _ | next
    · exact h
    · exact h
    · dsimp only
      rw [← hsame.stage]
      cases hstage : client.stage with
      | greeting => exact h
      | ended roles => exact h
      | serving roles ui_token =>
        dsimp only
        rw [h.feeds, h.stream.forward_next next]
        have hcontrol := h.control.set_client k
          (hsame.push_all (Feed.forward { next, pipe := [] } d.stream.bus).pipe
            (Feed.forward { next, pipe := [] } d'.stream.bus).pipe) ?_
        · exact { h with control := hcontrol, feeds := rfl }
        · rintro rfl hobserves
          rw [ClientConn.push_all_stage] at hobserves
          rw [h.stream.forward next fun env => hides_forward hhides (hfeed.trans hnext)]
          exact ClientConn.push_all_outbound hsame
            (h.control.heard client client' hfound hfound' hobserves) _

/-! ### Tasks and consents -/

theorem task (h : d.Alike c d') (step : TaskStep) : (d.task step).Alike c (d'.task step) := by
  have hboard (board : TaskBoard) :
      ApiDaemon.Alike c { d with board } { d' with board } := { h with board := rfl }
  unfold ApiDaemon.task
  rw [h.board]
  cases step with
  | spawn kind drop hash => exact h
  | _ =>
    exact foldl (f := tell_task) (fun halike _ => halike.tell ⟨rfl, fun _ => rfl⟩) (hboard _) _

theorem conclude (h : d.Alike c d') (k : Nat)
    (hservice : (d.conclude human_bytes k).service.Twin (d'.conclude human_bytes k).service) :
    (d.conclude human_bytes k).Alike c (d'.conclude human_bytes k) := by
  have hrest : ApiDaemon.Alike c { d with asked := d.asked.eraseIdx k }
      { d' with asked := d'.asked.eraseIdx k } := { h with asked := by rw [h.asked] }
  unfold ApiDaemon.conclude at hservice ⊢
  rw [h.control.consents, h.service.consents, h.asked] at hservice ⊢
  rw [h.asked] at hrest
  generalize d'.asked[k]?.bind (d'.control.consents[·]?) = task at hservice ⊢
  generalize d'.service.consents[k]? = consent at hservice ⊢
  rcases task with _ | task
  · exact h
  · rcases consent with _ | consent
    · exact h
    · dsimp only at hservice ⊢
      cases hstage : task.stage with
      | declined reason =>
        rw [hstage] at hservice
        refine Alike.tell ?_ ⟨rfl, fun _ => rfl⟩
        refine hrest.perform .nil ?_
        simpa only [ApiDaemon.tell, perform_service] using hservice
      | fetching out =>
        rw [hstage] at hservice
        refine hrest.perform .nil ?_
        simpa only [perform_service] using hservice
      | _ => exact h

/-! ### A step -/

theorem serve_service (h : d.Alike c d') {act act' : Service.Act} {due : Bool}
    (htells : List.Forall₂ Tell.Alike (d.service.tells human_bytes due act)
      (d'.service.tells human_bytes due act'))
    (hact : ∀ k accept, act ≠ .consent_answered k accept)
    (hact' : ∀ k accept, act' ≠ .consent_answered k accept)
    (hservice : (d.serve_service human_bytes act due).service.Twin
      (d'.serve_service human_bytes act' due).service) :
    (d.serve_service human_bytes act due).Alike c (d'.serve_service human_bytes act' due) := by
  have hperform (x : ApiDaemon) {a : Service.Act} (ha : ∀ k accept, a ≠ .consent_answered k accept) :
      x.serve_service human_bytes a due = x.perform human_bytes a due := by
    unfold ApiDaemon.serve_service
    split
    · exact absurd rfl (ha _ _)
    · rfl
  rw [hperform d hact, hperform d' hact'] at hservice ⊢
  simp only [perform_service] at hservice
  exact h.perform htells hservice

theorem step (h : d.Alike c d') {i i' : ApiStep} (hhides : d.hides c i = true) (htwin : i.Twin i')
    (hservice : (d.step human_bytes i).service.Twin (d'.step human_bytes i').service) :
    (d.step human_bytes i).Alike c (d'.step human_bytes i') := by
  cases htwin with
  | ticket k id p p' => exact h.with_control (h.control.sent k (.ticket id p p'))
  | created options topic topic' key key' due =>
    exact h.serve_service .nil (fun _ _ => by simp) (fun _ _ => by simp) hservice
  | joined text text' due =>
    exact h.serve_service .nil (fun _ _ => by simp) (fun _ _ => by simp) hservice
  | restored ticket ticket' handle name mine due =>
    exact h.serve_service .nil (fun _ _ => by simp) (fun _ _ => by simp) hservice
  | stepped k step step' due =>
    exact h.serve_service .nil (fun _ _ => by simp) (fun _ _ => by simp) hservice
  | same =>
    cases i with
    | attach =>
      exact { h.with_control h.control.attach with
        feeds := by simp only [ApiDaemon.step, h.feeds] }
    | sent k frame => exact h.with_control (h.control.sent k (.same frame))
    | hung_up k => exact h.with_control (h.control.hung_up k)
    | stopped_reading k => exact h.with_control (h.control.stopped_reading k)
    | serve k outcome hello_error => exact h.serve k outcome hello_error hhides
    | subscribe k => exact h.subscribe k
    | forward k => exact h.forward k hhides
    | consent q timed_out => exact h.with_control (h.control.consent q timed_out)
    | conclude k => exact h.conclude k hservice
    | service act due =>
      by_cases hanswer : ∃ k accept, act = .consent_answered k accept
      · obtain ⟨k, accept, rfl⟩ := hanswer
        exact h
      · have hact : ∀ k accept, act ≠ .consent_answered k accept :=
          fun k accept heq => hanswer ⟨k, accept, heq⟩
        exact h.serve_service (h.service.tells due act) hact hact hservice
    | task step => exact h.task step
    | published task published => exact h.tell ⟨rfl, fun _ => rfl⟩
    | materialized task hash paths => exact h.tell ⟨rfl, fun _ => rfl⟩
    | append j => exact { h with stream := h.stream.append j }
    | send j => exact { h with stream := h.stream.send j }
    | stopping => exact (h.with_service hservice).tell ⟨rfl, fun _ => rfl⟩

/-- An observer was sent the same. -/
theorem received (h : d.Alike c d') (hobserves : d.observes c = true) :
    d.received c = d'.received c := by
  unfold ApiDaemon.received
  rcases hfound : d.control.clients[c]? with _ | client
  · rw [forall₂_missing h.control.clients hfound]
  · obtain ⟨client', hfound', hsame⟩ := forall₂_found h.control.clients hfound
    rw [hfound']
    refine h.control.heard client client' hfound hfound' ?_
    simpa [observes, hfound] using hobserves

end Alike

/-- A client that is no more than an observer learns nothing of the ticket of a drop in
a run in which no list of drops and no `drop.joined` comes to it. -/
theorem an_observer_gets_no_ticket (human_bytes : UInt64 → String) (options : ApiOptions)
    (auto_accept : Bool) (self_addr : EndpointAddr) (secret : SecretKey) (policy : DropPolicy)
    (steps : List ApiStep) (c : ClientId)
    (hhides : runs.Meets (step human_bytes) (fun d i => d.hides c i = true)
      (.new options auto_accept self_addr secret policy) steps) :
    TellsNoTicket human_bytes (.new options auto_accept self_addr secret policy) steps c := by
  intro steps' htwins hobserves
  have hstart : ApiDaemon.Alike c (.new options auto_accept self_addr secret policy)
      (.new options auto_accept self_addr secret policy) := by
    refine ⟨rfl, rfl, ⟨rfl, rfl, rfl, rfl, .nil, .nil⟩, ⟨rfl, rfl, rfl, .nil, ?_⟩, rfl,
      ⟨rfl, .nil, .nil, .nil⟩, rfl, rfl⟩
    intro client client' hclient
    cases hclient
  have hend := runs.SideBySide.unwind (R := ApiDaemon.Alike c) htwins
    (fun _ _ _ _ h hok htwin hservice => h.step hok htwin hservice) hstart hhides
  exact hend.received hobserves

/-- What clients and the bus do keeps two runs side by side. -/
theorem twins_outside {l : List ApiStep} (houtside : ∀ i ∈ l, i.is_outside = true)
    {d d' : ApiDaemon} (h : d.service.Twin d'.service) : Twins human_bytes d d' l l := by
  induction l generalizing d d' with
  | nil => exact .nil
  | cons i l ih =>
    have hkept (x : ApiDaemon) : (x.step human_bytes i).service = x.service :=
      step_outside x (houtside i (by simp))
    have hnext : (d.step human_bytes i).service.Twin (d'.step human_bytes i).service := by
      rw [hkept d, hkept d']
      exact h
    exact .cons (.same i) hnext (ih (fun j hj => houtside j (by simp [hj])) hnext)

end ApiDaemon

end Laws

/-! ## An observer who is told the topic of a drop -/

namespace watching_client

local instance : Crypto := Crypto.clear
local instance : Urls := Urls.verbatim

def human_bytes : UInt64 → String := fun _ => ""

def self_addr : EndpointAddr := .of_id (SecretKey.public ⟨.fill 32 1⟩)

def options : ApiOptions :=
  { offline := true, mdns := false, store_path := none, download_dir := "in", link_base := none }

def daemon : ApiDaemon := .new options false self_addr ⟨.fill 32 1⟩ {}

def ticket (topic : UInt8) : DropTicket := .nodeless (.fill 32 topic) none

def hello : Frame := .Req 1 "hello" (.object [("client", .string "w"), ("api", .pos_int 1),
  ("roles", .array [.string "observer"])])

def rejoins (topic : UInt8) : ApiStep :=
  .service (.restore_drop (ticket topic) "d1" none true) false

def connects : ApiStep := .service (.connected 0 (.ok ()) (fun _ => .NotFound)) false

def settles : ApiStep := .service (.settle 0) false

/-- Somebody comes who only watches, and asks. -/
def visit (method : String) : List ApiStep :=
  [.append 0, .send 0, .attach, .sent 0 hello, .serve 0 .done "", .subscribe 0,
    .sent 0 (.Req 2 method (.object [])), .serve 0 .done ""]

/-- A daemon comes back with a drop of its table, and is visited. -/
def steps (method : String) (topic : UInt8) : List ApiStep :=
  rejoins topic :: connects :: settles :: visit method

theorem twins (method : String) (topic topic' : UInt8) :
    ApiDaemon.Twins human_bytes daemon daemon (steps method topic) (steps method topic') := by
  have hquiet : Session.Twin
      (Session.new ⟨.fill 32 1⟩ { auto_fetch := false } PolicyDecider ⟨.fill 32 topic⟩
        (ticket topic) none (fun _ => .NotFound))
      (Session.new ⟨.fill 32 1⟩ { auto_fetch := false } PolicyDecider ⟨.fill 32 topic'⟩
        (ticket topic') none (fun _ => .NotFound)) :=
    ⟨rfl, rfl, rfl, rfl⟩
  have hrejoined : (daemon.step human_bytes (rejoins topic)).service.Twin
      (daemon.step human_bytes (rejoins topic')).service :=
    ⟨rfl, rfl, rfl, rfl, .cons (.connecting _ _ _) .nil, .nil⟩
  have hconnected :
      ((daemon.step human_bytes (rejoins topic)).step human_bytes connects).service.Twin
        ((daemon.step human_bytes (rejoins topic')).step human_bytes connects).service := by
    simp only [rejoins, connects, ApiDaemon.step, ApiDaemon.serve_service,
      ApiDaemon.perform_service, ApiDaemon.perform_self_addr]
    exact ⟨rfl, rfl, rfl, rfl, .cons (.same _) .nil, .cons ⟨hquiet, rfl, rfl⟩ .nil⟩
  have hsettled :
      (((daemon.step human_bytes (rejoins topic)).step human_bytes connects).step human_bytes
        settles).service.Twin
        (((daemon.step human_bytes (rejoins topic')).step human_bytes connects).step human_bytes
          settles).service := by
    simp only [rejoins, connects, settles, ApiDaemon.step, ApiDaemon.serve_service,
      ApiDaemon.perform_service, ApiDaemon.perform_self_addr]
    exact ⟨rfl, rfl, rfl, rfl, .nil, .cons ⟨hquiet, rfl, rfl⟩ .nil⟩
  have hvisit : ∀ i ∈ visit method, i.is_outside = true := by simp [visit, ApiStep.is_outside]
  exact .cons (.restored _ _ _ _ _ _) hrejoined (.cons (.same _) hconnected
    (.cons (.same _) hsettled (ApiDaemon.twins_outside hvisit hsettled)))

/-- The first topic in the last reply, if that is a list of drops. -/
def listed_topic (frames : List Frame) : Option String :=
  match frames.getLast? with
  | some (.Res _ p) =>
    match p.get "drops" with
    | some (.array (row :: _)) => (row.get "topic").bind Value.as_str
    | _ => none
  | _ => none

/-- The list of the drops tells an observer what a ticket of a public drop is made of. -/
theorem an_observer_is_told_the_topic :
    ¬ ∀ [Crypto] [Urls] (human_bytes : UInt64 → String) (options : ApiOptions)
      (auto_accept : Bool) (self_addr : EndpointAddr) (secret : SecretKey) (policy : DropPolicy)
      (steps : List ApiStep) (c : ClientId), ApiDaemon.TellsNoTicket human_bytes
        (.new options auto_accept self_addr secret policy) steps c := by
  intro h
  have hsame : (daemon.run human_bytes (steps "drop.list" 8)).received 0 =
      (daemon.run human_bytes (steps "drop.list" 9)).received 0 :=
    h human_bytes options false self_addr ⟨.fill 32 1⟩ {} _ 0 _ (twins _ _ _) (by decide +kernel)
  have htopics : listed_topic ((daemon.run human_bytes (steps "drop.list" 8)).received 0) ≠
      listed_topic ((daemon.run human_bytes (steps "drop.list" 9)).received 0) := by
    decide +kernel
  exact htopics (congrArg listed_topic hsame)

/-- An observer who asks for the state of the daemon is told no topic. -/
theorem the_status_tells_no_ticket :
    ApiDaemon.TellsNoTicket human_bytes (.new options false self_addr ⟨.fill 32 1⟩ {})
      (steps "daemon.status" 8) 0 :=
  ApiDaemon.an_observer_gets_no_ticket human_bytes options false self_addr ⟨.fill 32 1⟩ {}
    (steps "daemon.status" 8) 0 (by decide +kernel)

end watching_client

end iroh_drop
