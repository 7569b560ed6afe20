-- The daemon as its clients see it: the drops, the tasks, the event bus, the consent
-- flow and the connections in one machine (service.rs).
import IrohDrop.Replies

open rust_std postcard

namespace iroh_drop

/-- What a method that changes something comes to when it returns. -/
inductive Outcome where
  | created (handle : String)
  | joined (handle : String)
  | already (handle : String)
  | spawned (task : String)
  /-- A drop is left, or a task cancelled. -/
  | done
  | failed (error : ApiError)

def Notice.to_frame : Notice → Frame
  | .event env => env.to_frame
  | .truncated missed =>
    .Ev 0 "events.truncated" (.object [("missed", .pos_int (UInt64.ofNat missed))])

/-- What a forwarder has got goes into the channel of the client. -/
def ClientConn.push_all (self : ClientConn) (notices : List Notice) : ClientConn :=
  notices.foldl (fun client notice => client.push notice.to_frame) self

section Machine

variable [Crypto] [Urls]

/-- `feeds`: where the forwarder of each connection is in the channel of the bus,
once it has subscribed. `asked`: the question of each waiting consent. -/
structure ApiDaemon where
  options : ApiOptions
  self_addr : EndpointAddr
  service : Service
  control : ControlApi
  board : TaskBoard
  stream : EventStream
  feeds : List (Option Nat)
  asked : List QuestionId

/-- One thing that happens to the daemon. -/
inductive ApiStep where
  | attach
  | sent (c : ClientId) (frame : Frame)
  | hung_up (c : ClientId)
  | stopped_reading (c : ClientId)
  /-- A connection takes its next frame. `outcome` is what the request comes to
  if it is one that changes something. -/
  | serve (c : ClientId) (outcome : Outcome) (hello_error : String)
  | subscribe (c : ClientId)
  | forward (c : ClientId)
  | consent (q : QuestionId) (timed_out : Bool)
  /-- A consent that has been decided takes effect. -/
  | conclude (k : Nat)
  /-- `due`: progress may be told again. -/
  | service (act : Service.Act) (due : Bool)
  | task (step : TaskStep)
  | published (task : String) (published : Published)
  | materialized (task : String) (hash : BlobHash) (paths : List String)
  | append (j : Nat)
  | send (j : Nat)
  | stopping

namespace ApiDaemon

def new (options : ApiOptions) (auto_accept : Bool) (self_addr : EndpointAddr)
    (secret : SecretKey) (policy : DropPolicy) : ApiDaemon :=
  { options, self_addr, service := .new secret policy
    control := .new { auto_accept, download_dir := options.download_dir }
    board := .new, stream := .new, feeds := [], asked := [] }

/-! ## Events -/

/-- An event takes its number. -/
def tell (self : ApiDaemon) (told : Tell) : ApiDaemon :=
  { self with stream := self.stream.take told.1 told.2 }

end ApiDaemon

/-- What `on_session_event` tells when the pump gets to an event. -/
def Hosted.tells (human_bytes : UInt64 → String) (hosted : Hosted) (closed due : Bool) :
    List Tell :=
  match hosted.pump with
  | none => []
  | some pump =>
    match broadcast_recv EVENT_CHANNEL_CAPACITY hosted.session.events closed pump.next with
    | (.Ok event, _) => if event.is_told due then [event.tell human_bytes pump.handle] else []
    | _ => []

/-- What an act of the service tells. -/
def Service.tells (human_bytes : UInt64 → String) (self : Service) (due : Bool) :
    Service.Act → List Tell
  | .settle k =>
    match self.calls[k]? with
    | some (.opened i (.restored handle _ _)) =>
      (self.topic_of i).toList.map (tell_restored handle)
    | some (.opened i _) => (self.topic_of i).toList.map (tell_joined s!"d{self.next_drop}")
    | _ => []
  | .stop k =>
    match self.calls[k]? with
    | some (.stopping handle i) =>
      if self.sessions[i]?.any (·.tasks.any (·.2)) then [] else [tell_left handle]
    | _ => []
  | .pump i =>
    match self.sessions[i]? with
    | some hosted => hosted.tells human_bytes (!self.live i) due
    | none => []
  | _ => []

namespace ApiDaemon

variable (human_bytes : UInt64 → String)

/-! ## The service -/

/-- A publish or fetch that the service has started gets its task. -/
def spawn (self : ApiDaemon) (work : Work) : ApiDaemon :=
  { self with board := self.board.spawn work.kind work.drop work.hash }

def ask (self : ApiDaemon) (consent : Consent) : ApiDaemon :=
  { self with
    control := self.control.act (.spawn_consent (consent_question human_bytes consent))
    asked := self.asked ++ [self.control.consents.length] }

def perform (self : ApiDaemon) (act : Service.Act) (due : Bool) : ApiDaemon :=
  let service := self.service.act self.self_addr act
  let works := service.works.drop self.service.works.length
  let consents := service.consents.drop self.service.consents.length
  let told := (self.service.tells human_bytes due act).foldl tell { self with service }
  consents.foldl (ask human_bytes) (works.foldl spawn told)

/-- An answer comes by way of its question. -/
def serve_service (self : ApiDaemon) (act : Service.Act) (due : Bool) : ApiDaemon :=
  match act with
  | .consent_answered _ _ => self
  | act => self.perform human_bytes act due

def conclude (self : ApiDaemon) (k : Nat) : ApiDaemon :=
  match self.asked[k]?.bind (self.control.consents[·]?), self.service.consents[k]? with
  | some task, some consent =>
    let rest := { self with asked := self.asked.eraseIdx k }
    match task.stage with
    | .declined reason =>
      (rest.perform human_bytes (.consent_answered k false) false).tell
        (tell_declined consent.drop consent.offer.blob_hash reason)
    | .fetching _ => rest.perform human_bytes (.consent_answered k true) false
    | _ => self
  | _, _ => self

def tell_task (self : ApiDaemon) (event : TaskEvent) : ApiDaemon :=
  self.tell ("task.state", event.payload)

def task (self : ApiDaemon) (step : TaskStep) : ApiDaemon :=
  match step with
  | .spawn _ _ _ => self
  | step =>
    let board := self.board.step step
    (board.events.drop self.board.events.length).foldl tell_task { self with board }

/-- The drops are taken out of the table, and their sessions stop. -/
def stopping (self : ApiDaemon) : ApiDaemon :=
  { self with service := { self.service with drops := ∅ } }.tell tell_stopping

/-! ## Methods -/

def handle_param (params : Value) : Except ApiError String :=
  match (params.get "drop").bind Value.as_str with
  | some handle => .ok handle
  | none => .error (.bad_params "drop is required")

/-- The session of a drop. The table has none whose session is gone. -/
def session (self : ApiDaemon) (handle : String) : Except ApiError Session := do
  let entry ← self.service.entry handle
  match self.service.sessions[entry.session]? with
  | some hosted => .ok hosted.session
  | none => .error (.not_found s!"no drop {handle}")

/-- `drop.list`, of a daemon whose sums wrap. -/
def drop_list (self : ApiDaemon) : Value :=
  drops_reply ((self.service.drop_list human_bytes .release).getD [])

def drop_ticket (self : ApiDaemon) (params : Value) : Except ApiError Value := do
  let handle ← handle_param params
  let session ← self.session handle
  let full := ((params.get "full").bind Value.as_bool).getD false
  let ticket :=
    if full then session.current_ticket self.self_addr else session.short_ticket self.self_addr
  return ticket_reply self.options ticket.to_string_prefixed

def offer_list (self : ApiDaemon) (params : Value) : Except ApiError Value := do
  let handle ← handle_param params
  let session ← self.session handle
  return items_reply human_bytes session.inventory

/-- Where a replay starts. -/
def replay_from (params : Value) : UInt64 := ((params.get "from").bind Value.as_u64).getD 0

def events_replay (self : ApiDaemon) (params : Value) : Value :=
  replay_reply (self.stream.bus.replay (replay_from params))

/-- The reply of a method that has changed something. -/
def reply (self : ApiDaemon) : Outcome → Except ApiError Value
  | .created handle => do
    let session ← self.session handle
    return created_reply handle session.topic_id
      (session.short_ticket self.self_addr).to_string_prefixed
  | .joined handle => do
    let session ← self.session handle
    return joined_reply handle session.topic_id
  | .already handle => do
    let session ← self.session handle
    return already_reply handle session.topic_id
  | .spawned task => .ok (task_started_reply task)
  | .done => .ok empty_reply
  | .failed error => .error error

/-- The methods that need the control role. -/
def control_methods : List String :=
  ["drop.create", "drop.join", "drop.leave", "offer.publish", "offer.fetch", "task.cancel"]

/-- Run one method. An unknown name is an error and no more. -/
def dispatch (self : ApiDaemon) (roles : List Role) (method : String) (params : Value)
    (outcome : Outcome) : Except ApiError Value :=
  if method ∈ control_methods ∧ Role.Control ∉ roles then
    .error (.forbidden s!"{method} requires the control role")
  else if method = "drop.ticket" ∧ Role.Ui ∉ roles ∧ Role.Control ∉ roles then
    .error (.forbidden
      "drop.ticket reveals the bearer capability; ui or control role required")
  else if method ∈ control_methods then self.reply outcome
  else match method with
    | "hello" => .error ⟨"already_hello", "hello was already sent"⟩
    | "daemon.status" => .ok (status_reply self.options self.self_addr.id
        (HashMap.len self.service.drops) self.stream.bus.current)
    | "drop.list" => .ok (self.drop_list human_bytes)
    | "drop.ticket" => self.drop_ticket params
    | "offer.list" => self.offer_list human_bytes params
    | "task.list" => .ok (tasks_reply self.board.task_list)
    | "events.replay" => .ok (self.events_replay params)
    | other => .error (.unsupported s!"no method {other}")

/-! ## Connections -/

/-- The reply to the next frame of a connection, if that is a request. -/
def next_reply (self : ApiDaemon) (client : ClientConn) (outcome : Outcome) :
    Except ApiError Value :=
  match client.stage, client.inbound.head? with
  | .serving roles _, some (.Req _ m p) => self.dispatch human_bytes roles m p outcome
  | _, _ => .ok .null

/-- A connection subscribes to the events before it takes a request. -/
def is_ready (self : ApiDaemon) (c : ClientId) (client : ClientConn) : Bool :=
  match client.stage with
  | .serving _ _ => self.feeds[c]?.any Option.isSome
  | _ => true

def serve (self : ApiDaemon) (c : ClientId) (outcome : Outcome) (hello_error : String) :
    ApiDaemon :=
  match self.control.clients[c]? with
  | none => self
  | some client =>
    if self.is_ready c client then
      { self with control := self.control.serve c {
          hello_result := hello_reply self.self_addr.id self.stream.bus.current
          hello_error, reply := self.next_reply human_bytes client outcome } }
    else self

def subscribe (self : ApiDaemon) (c : ClientId) : ApiDaemon :=
  match self.control.clients[c]?.map ClientConn.stage, self.feeds[c]? with
  | some (.serving _ _), some none =>
    { self with feeds := self.feeds.set c (some self.stream.bus.sent.length) }
  | _, _ => self

/-- One turn of the forwarder of a connection, which the end of the connection
aborts. -/
def forward (self : ApiDaemon) (c : ClientId) : ApiDaemon :=
  match self.control.clients[c]?, self.feeds[c]? with
  | some client, some (some next) =>
    match client.stage with
    | .serving _ _ =>
      let feed := Feed.forward { next, pipe := [] } self.stream.bus
      { self with
        control := self.control.set_client c (client.push_all feed.pipe)
        feeds := self.feeds.set c (some feed.next) }
    | _ => self
  | _, _ => self

/-! ## Runs -/

def step (self : ApiDaemon) : ApiStep → ApiDaemon
  | .attach => { self with control := self.control.act .attach, feeds := self.feeds ++ [none] }
  | .sent c frame => { self with control := self.control.act (.sent c frame) }
  | .hung_up c => { self with control := self.control.act (.hung_up c) }
  | .stopped_reading c => { self with control := self.control.act (.stopped_reading c) }
  | .serve c outcome hello_error => self.serve human_bytes c outcome hello_error
  | .subscribe c => self.subscribe c
  | .forward c => self.forward c
  | .consent q timed_out => { self with control := self.control.act (.consent q timed_out) }
  | .conclude k => self.conclude human_bytes k
  | .service act due => self.serve_service human_bytes act due
  | .task step => self.task step
  | .published task published => self.tell (tell_published human_bytes task published)
  | .materialized task hash paths => self.tell (tell_materialized task hash paths)
  | .append j => { self with stream := self.stream.append j }
  | .send j => { self with stream := self.stream.send j }
  | .stopping => self.stopping

def run (self : ApiDaemon) (steps : List ApiStep) : ApiDaemon :=
  runs.run (step human_bytes) self steps

/-- All that a client was sent. -/
def received (self : ApiDaemon) (c : ClientId) : List Frame :=
  (self.control.clients[c]?.map ClientConn.outbound).getD []

/-! ## What an act of the service leaves as it is -/

/-- What each turn of a loop keeps, the loop keeps. -/
theorem foldl_keeps {β γ : Type} {f : ApiDaemon → β → ApiDaemon} {g : ApiDaemon → γ}
    (hkeeps : ∀ d x, g (f d x) = g d) (l : List β) (d : ApiDaemon) : g (l.foldl f d) = g d := by
  induction l generalizing d with
  | nil => rfl
  | cons x l ih => exact (ih (f d x)).trans (hkeeps d x)

@[simp] theorem perform_service (d : ApiDaemon) (act : Service.Act) (due : Bool) :
    (d.perform human_bytes act due).service = d.service.act d.self_addr act := by
  unfold perform
  dsimp only
  rw [foldl_keeps (f := ask human_bytes) (g := ApiDaemon.service) fun _ _ => rfl,
    foldl_keeps (f := ApiDaemon.spawn) (g := ApiDaemon.service) fun _ _ => rfl,
    foldl_keeps (f := ApiDaemon.tell) (g := ApiDaemon.service) fun _ _ => rfl]

@[simp] theorem perform_self_addr (d : ApiDaemon) (act : Service.Act) (due : Bool) :
    (d.perform human_bytes act due).self_addr = d.self_addr := by
  unfold perform
  dsimp only
  rw [foldl_keeps (f := ask human_bytes) (g := ApiDaemon.self_addr) fun _ _ => rfl,
    foldl_keeps (f := ApiDaemon.spawn) (g := ApiDaemon.self_addr) fun _ _ => rfl,
    foldl_keeps (f := ApiDaemon.tell) (g := ApiDaemon.self_addr) fun _ _ => rfl]

/-- Nothing is sent on the way: questions and events wait. -/
@[simp] theorem perform_clients (d : ApiDaemon) (act : Service.Act) (due : Bool) :
    (d.perform human_bytes act due).control.clients = d.control.clients := by
  unfold perform
  dsimp only
  rw [foldl_keeps (f := ask human_bytes) (g := fun d => d.control.clients) fun _ _ => rfl,
    foldl_keeps (f := ApiDaemon.spawn) (g := fun d => d.control.clients) fun _ _ => rfl,
    foldl_keeps (f := ApiDaemon.tell) (g := fun d => d.control.clients) fun _ _ => rfl]

end ApiDaemon

end Machine

end iroh_drop
