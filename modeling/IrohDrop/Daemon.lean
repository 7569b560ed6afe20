-- The daemon: its table of drops, the sessions behind it, and whatever owns a
-- handle of one (service.rs, builder.rs).
import IrohDrop.Stack

open rust_std postcard

namespace iroh_drop

/-! ## Broadcast channels -/

/-- What a receiver of a broadcast channel gets. -/
inductive Recv (α : Type) where
  | Ok (value : α)
  | Lagged (missed : Nat)
  | Closed
  /-- Nothing yet. -/
  | Pending

/-- `broadcast::Receiver::recv` for a receiver that is past the first `next`
values, and where it is then. `closed`: whoever owned the sender is gone. -/
def broadcast_recv {α : Type} (capacity : Nat) (values : List α) (closed : Bool) (next : Nat) :
    Recv α × Nat :=
  if next + capacity < values.length then
    (.Lagged (values.length - capacity - next), values.length - capacity)
  else match values[next]? with
    | some value => (.Ok value, next + 1)
    | none => (if closed then .Closed else .Pending, next)

/-! ## What the daemon is made of -/

/-- How many events the channel of a session holds. -/
def EVENT_CHANNEL_CAPACITY : Nat := 512

structure ApiError where
  code : String
  msg : String
deriving DecidableEq

namespace ApiError

def bad_params (msg : String) : ApiError := ⟨"bad_params", msg⟩
def not_found (msg : String) : ApiError := ⟨"not_found", msg⟩
def internal (msg : String) : ApiError := ⟨"internal", msg⟩

end ApiError

/-- A drop of the table. It owns its session. -/
structure DropEntry where
  session : SessionId
  name : Option String
  mine : Bool

/-- A task that a session spawns on itself. It owns the internals. -/
inductive Internal where
  | event_loop
  | catch_up
deriving DecidableEq

/-- The task that reads the events of a session: it owns the session, and is
past the first `next` events. -/
structure Pump where
  handle : String
  next : Nat

/-- A session and its own tasks. `awaited`: a shutdown waits for the task. -/
structure Hosted [Crypto] where
  session : Session
  tasks : List (Internal × Bool)
  pump : Option Pump

/-- What a session is opened for. -/
inductive Opening where
  | created (name : Option String)
  | joined (name : Option String)
  | restored (handle : String) (name : Option String) (mine : Bool)

/-- A request that has not returned, by where it waits. -/
inductive Call where
  /-- For the carrier of a new session. -/
  | connecting (ticket : DropTicket) (opening : Opening)
  /-- The session is made and in no table yet. -/
  | opened (session : SessionId) (opening : Opening)
  /-- The drop is in the table, and the answer is still to come. -/
  | registered (handle : String)
  /-- For the withdrawals of a drop that is left. -/
  | withdrawing (handle : String) (session : SessionId)
  /-- For the tasks of its session. -/
  | stopping (handle : String) (session : SessionId)

/-- The session that a waiting request owns. -/
def Call.session : Call → Option SessionId
  | .opened session _ => some session
  | .withdrawing _ session => some session
  | .stopping _ session => some session
  | .connecting _ _ => none
  | .registered _ => none

inductive WorkKind where
  | publish
  | fetch
deriving DecidableEq

/-- A running task of `spawn_task`, which owns the session it works on. -/
structure Work where
  id : String
  kind : WorkKind
  drop : String
  hash : Option BlobHash
  session : SessionId

/-- A consent question, which owns the session it may fetch with. -/
structure Consent [Crypto] where
  drop : String
  session : SessionId
  «from» : EndpointId
  offer : OfferV1

/-- The daemon. `sessions` keeps those that were freed. -/
structure Service [Crypto] where
  secret : SecretKey
  policy : DropPolicy
  decider : OfferDecider
  sessions : List Hosted
  /-- The registry of the stack. Its references are weak. -/
  registry : HashMap TopicId SessionId
  drops : HashMap String DropEntry
  next_drop : UInt64
  works : List Work
  next_task : UInt64
  consents : List Consent
  /-- The tasks that bring new peers into a session. -/
  rejoins : List SessionId
  calls : List Call
  /-- The sessions whose `drop.leave` has answered `Ok`. -/
  left : List SessionId

namespace Service

variable [Crypto]

def new (secret : SecretKey) (policy : DropPolicy) : Service :=
  { secret, policy := { policy with auto_fetch := false }, decider := PolicyDecider
    sessions := [], registry := ∅, drops := ∅, next_drop := 1, works := [], next_task := 1
    consents := [], rejoins := [], calls := [], left := [] }

/-! ## Who owns a session -/

def has_pump (self : Service) (i : SessionId) : Bool :=
  self.sessions[i]?.any (·.pump.isSome)

/-- Some owner has an `Arc<DropSession>`. -/
def owned (self : Service) (i : SessionId) : Bool :=
  self.drops.entries.any (·.2.session = i) || self.calls.any (·.session = some i) ||
    self.works.any (·.session = i) || self.consents.any (·.session = i) ||
    self.rejoins.any (· = i) || self.has_pump i

/-- Some owner has an `Arc<SessionInner>`. -/
def live (self : Service) (i : SessionId) : Bool :=
  self.owned i || self.sessions[i]?.any (!·.tasks.isEmpty)

/-- `Weak::upgrade`. -/
def upgrade (self : Service) (i : SessionId) : Option Session :=
  if self.live i then self.sessions[i]?.map Hosted.session else none

/-- The live sessions by topic, as the sync protocol finds them. -/
def live_sessions (self : Service) : SessionRegistry := fun topic =>
  (self.registry.lookup topic).bind self.upgrade

/-- The number of live sessions. -/
def active (self : Service) : Nat := self.registry.count (fun i => (self.upgrade i).isSome)

def check_session_capacity (self : Service) : Except PolicyError Unit :=
  if self.active ≥ MAX_SESSIONS then .error (.TooManySessions self.active MAX_SESSIONS) else .ok ()

def modify (self : Service) (i : SessionId) (f : Hosted → Hosted) : Service :=
  { self with sessions := self.sessions.modify i f }

/-! ## Drops -/

/-- `DropSession::new`: the registry keeps a weak reference, and the receive
loop starts. -/
def open_session (self : Service) (ticket : DropTicket) (store : BlobHash → BlobStatus)
    (catch_up : Bool) : Service :=
  let topic_id : TopicId := ⟨ticket.V1.topic_id⟩
  let session : Session :=
    .new self.secret self.policy self.decider topic_id ticket ticket.drop_key store
  let tasks := (.event_loop, false) :: if catch_up then [(.catch_up, false)] else []
  { self with
    sessions := self.sessions ++ [{ session, tasks, pump := none }]
    registry := self.registry.insert topic_id self.sessions.length }

/-- The pump owns the session, and gets what is sent after it subscribed. -/
def spawn_pump (self : Service) (handle : String) (i : SessionId) : Service :=
  self.modify i fun hosted =>
    { hosted with pump := some { handle, next := hosted.session.events.length } }

def insert_drop (self : Service) (handle : String) (entry : DropEntry) : Service :=
  { self with drops := self.drops.insert handle entry }.spawn_pump handle entry.session

def register (self : Service) (session : SessionId) (name : Option String) (mine : Bool) :
    String × Service :=
  let handle := s!"d{self.next_drop}"
  (handle, { self with next_drop := self.next_drop + 1 }.insert_drop handle { session, name, mine })

def register_restored (self : Service) (handle : String) (session : SessionId)
    (name : Option String) (mine : Bool) : Service :=
  self.insert_drop handle { session, name, mine }

def entry (self : Service) (handle : String) : Except ApiError DropEntry :=
  match self.drops.lookup handle with
  | some entry => .ok entry
  | none => .error (.not_found s!"no drop {handle}")

/-- The topic of a drop of the table. -/
def topic_of (self : Service) (i : SessionId) : Option TopicId :=
  self.sessions[i]?.map (·.session.topic_id)

def handle_for_topic (self : Service) (topic : TopicId) : Option String :=
  (self.drops.entries.find? (fun e => self.topic_of e.2.session = some topic)).map Sigma.fst

/-- Both checks of `DropProtocol::create` and `join` come before the carrier. -/
def connect (self : Service) (ticket : DropTicket) (opening : Opening) : Except ApiError Service :=
  match self.check_session_capacity with
  | .error e => .error (.internal (DropError.Policy e).text)
  | .ok () => .ok { self with calls := self.calls ++ [.connecting ticket opening] }

section Tickets

variable [Urls]

/-- `topic_id` and `key` are what the random generator gives. -/
def drop_create (self : Service) (options : CreateOptions) (topic_id : TopicId)
    (self_addr : EndpointAddr) (key : DropKey) : Except ApiError Service :=
  self.connect (create_ticket { options with auto_fetch_recommended := false } topic_id self_addr key)
    (.created options.display_name)

/-- A topic that the table hosts is not joined again: its session gets the
peers of the ticket, and its entry the name if it has none. -/
def drop_join (self : Service) (ticket : String) : Except ApiError Service :=
  match DropTicket.from_string_prefixed ticket.toList with
  | .error e => .error (.bad_params s!"bad ticket: {e.text}")
  | .ok ticket =>
    let name := ticket.V1.options.display_name
    match self.handle_for_topic ⟨ticket.V1.topic_id⟩ with
    | none => self.connect ticket (.joined name)
    | some handle => do
      let entry ← self.entry handle
      .ok { self with
            rejoins := self.rejoins ++ [entry.session]
            drops := self.drops.modify handle (fun e => { e with name := e.name <|> name }) }

end Tickets

/-! ## Requests that wait -/

/-- A restart rejoins a drop of the persisted table. -/
def restore_drop (self : Service) (ticket : DropTicket) (handle : String) (name : Option String)
    (mine : Bool) : Except ApiError Service :=
  self.connect ticket (.restored handle name mine)

def set_call (self : Service) (k : Nat) (call : Call) : Service :=
  { self with calls := self.calls.set k call }

def end_call (self : Service) (k : Nat) : Service :=
  { self with calls := self.calls.eraseIdx k }

/-- The carrier is there, or is not. -/
def connected [Urls] (self : Service) (k : Nat) (carrier : Except String Unit)
    (store : BlobHash → BlobStatus) : Service :=
  match self.calls[k]? with
  | some (.connecting ticket opening) =>
    match carrier with
    | .error _ => self.end_call k
    | .ok () =>
      let catch_up := match opening with
        | .created _ => false
        | _ => !ticket.bootstrap_nodes.isEmpty
      (self.set_call k (.opened self.sessions.length opening)).open_session ticket store catch_up
  | _ => self

/-- The opened session comes into the table, and the request owns it no more. -/
def settle (self : Service) (k : Nat) : Service :=
  match self.calls[k]? with
  | some (.opened i (.created name)) =>
    let (handle, self) := self.register i name true
    self.set_call k (.registered handle)
  | some (.opened i (.joined name)) =>
    let (handle, self) := self.register i name false
    self.set_call k (.registered handle)
  | some (.opened i (.restored handle name mine)) =>
    (self.register_restored handle i name mine).end_call k
  | _ => self

/-- The request returns the handle if the drop is still there, and an error if
it is not. -/
def answered (self : Service) (k : Nat) : Service :=
  match self.calls[k]? with
  | some (.registered _) => self.end_call k
  | _ => self

/-! ## Leaving -/

def drop_leave (self : Service) (handle : String) : Except ApiError Service := do
  let entry ← self.entry handle
  .ok { self with
        drops := self.drops.erase handle
        calls := self.calls ++ [.withdrawing handle entry.session] }

def update_session (self : Service) (i : SessionId) (f : Session → Session) : Service :=
  self.modify i fun hosted => { hosted with session := f hosted.session }

/-- `shutdown_no_announce` takes the tasks that are there, and waits for them. -/
def withdraw (self : Service) (k : Nat) (announced_at_ms : BlobHash → UInt64)
    (draws : BlobHash → Draw) : Service :=
  match self.calls[k]? with
  | some (.withdrawing handle i) =>
    let self := self.update_session i (·.announce_withdrawal announced_at_ms draws)
    let self := self.modify i fun hosted =>
      { hosted with tasks := hosted.tasks.map fun task => (task.1, true) }
    self.set_call k (.stopping handle i)
  | _ => self

/-- The tasks have ended, and `drop.leave` answers `Ok`. -/
def stop (self : Service) (k : Nat) : Service :=
  match self.calls[k]? with
  | some (.stopping _ i) =>
    if self.sessions[i]?.any (·.tasks.any (·.2)) then self
    else { self.end_call k with left := self.left ++ [i] }
  | _ => self

/-! ## Tasks -/

def spawn_task (self : Service) (kind : WorkKind) (drop : String) (hash : Option BlobHash)
    (session : SessionId) : Service :=
  { self with
    works := self.works ++ [{ id := s!"t{self.next_task}", kind, drop, hash, session }]
    next_task := self.next_task + 1 }

def offer_publish (self : Service) (handle : String) : Except ApiError Service := do
  let entry ← self.entry handle
  .ok (self.spawn_task .publish handle none entry.session)

/-- `hash` is what the pick of the client resolves to. -/
def offer_fetch (self : Service) (handle : String) (hash : Except ApiError BlobHash) :
    Except ApiError Service := do
  let entry ← self.entry handle
  let hash ← hash
  .ok (self.spawn_task .fetch handle (some hash) entry.session)

/-- Only a yes turns the question into a fetch. -/
def consent_answered (self : Service) (k : Nat) (accept : Bool) : Service :=
  match self.consents[k]? with
  | none => self
  | some consent =>
    let self := { self with consents := self.consents.eraseIdx k }
    if accept then
      self.spawn_task .fetch consent.drop (some consent.offer.blob_hash) consent.session
    else self

/-! ## The pump -/

/-- What an event of a session starts. -/
def on_session_event (self : Service) (handle : String) (i : SessionId) (self_id : EndpointId) :
    DropEvent → Service
  | .OfferReceived «from» offer =>
    if «from» ≠ self_id then
      { self with consents := self.consents ++ [{ drop := handle, session := i, «from», offer }] }
    else self
  | _ => self

/-- One turn of the loop. The channel is closed once nothing owns the
session, which owns the sender. -/
def pump (self : Service) (i : SessionId) : Service :=
  match self.sessions[i]? with
  | none => self
  | some hosted =>
    match hosted.pump with
    | none => self
    | some pump =>
      let (received, next) :=
        broadcast_recv EVENT_CHANNEL_CAPACITY hosted.session.events (!self.live i) pump.next
      let advanced := self.modify i fun hosted => { hosted with pump := some { pump with next } }
      match received with
      | .Ok event => advanced.on_session_event pump.handle i hosted.session.self_id event
      | .Lagged _ => advanced
      | .Closed => self.modify i fun hosted => { hosted with pump := none }
      | .Pending => self

/-! ## Runs -/

/-- Whether the owner of this step of a session is there. -/
def may_step (self : Service) (i : SessionId) (step : Step) : Bool :=
  let runs (task : Internal) : Bool := self.sessions[i]?.any (·.tasks.any (·.1 = task))
  match step with
  | .received _ _ _ | .neighbor_up _ _ | .neighbor_down _ | .lagged => runs .event_loop
  | .replayed _ _ _ => runs .catch_up
  | .released => !self.owned i
  | _ => self.live i

/-- A session takes a step. What it pulls from a new neighbor is a task of
its own. -/
def session_step (self : Service) (i : SessionId) (step : Step) : Service :=
  if self.may_step i step then
    self.modify i fun hosted =>
      let session := hosted.session.step step
      let spawned := List.replicate (session.pulls.length - hosted.session.pulls.length)
        (Internal.catch_up, false)
      { hosted with session, tasks := hosted.tasks ++ spawned }
  else self

/-- One thing that happens to the daemon. -/
inductive Act where
  | drop_create (options : CreateOptions) (topic_id : TopicId) (key : DropKey)
  | drop_join (ticket : String)
  | restore_drop (ticket : DropTicket) (handle : String) (name : Option String) (mine : Bool)
  | connected (k : Nat) (carrier : Except String Unit) (store : BlobHash → BlobStatus)
  | settle (k : Nat)
  | answer (k : Nat)
  | drop_leave (handle : String)
  | withdraw (k : Nat) (announced_at_ms : BlobHash → UInt64) (draws : BlobHash → Draw)
  | stop (k : Nat)
  | offer_publish (handle : String)
  | offer_fetch (handle : String) (hash : Except ApiError BlobHash)
  | consent_answered (k : Nat) (accept : Bool)
  | session_step (i : SessionId) (step : Step)
  | pump (i : SessionId)
  /-- A task of a session ends. -/
  | internal_ended (i : SessionId) (k : Nat)
  /-- A publish or fetch ends, or is cancelled. -/
  | work_ended (k : Nat)
  | rejoin_ended (k : Nat)

/-- What fails leaves the daemon as it was. -/
def act [Urls] (self_addr : EndpointAddr) (self : Service) (a : Act) : Service :=
  let kept (result : Except ApiError Service) : Service := result.toOption.getD self
  match a with
  | .drop_create options topic_id key => kept (self.drop_create options topic_id self_addr key)
  | .drop_join ticket => kept (self.drop_join ticket)
  | .restore_drop ticket handle name mine => kept (self.restore_drop ticket handle name mine)
  | .connected k carrier store => self.connected k carrier store
  | .settle k => self.settle k
  | .answer k => self.answered k
  | .drop_leave handle => kept (self.drop_leave handle)
  | .withdraw k announced_at_ms draws => self.withdraw k announced_at_ms draws
  | .stop k => self.stop k
  | .offer_publish handle => kept (self.offer_publish handle)
  | .offer_fetch handle hash => kept (self.offer_fetch handle hash)
  | .consent_answered k accept => self.consent_answered k accept
  | .session_step i step => self.session_step i step
  | .pump i => self.pump i
  | .internal_ended i k =>
    self.modify i fun hosted => { hosted with tasks := hosted.tasks.eraseIdx k }
  | .work_ended k => { self with works := self.works.eraseIdx k }
  | .rejoin_ended k => { self with rejoins := self.rejoins.eraseIdx k }

def run [Urls] (self_addr : EndpointAddr) (self : Service) (acts : List Act) : Service :=
  runs.run (act self_addr) self acts

end Service

end iroh_drop
