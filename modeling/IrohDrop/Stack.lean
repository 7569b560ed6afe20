-- A protocol instance: the sessions that it has opened on its stack, the
-- registry that finds them by topic, and the calls that wait to open one
-- (builder.rs).
import IrohDrop.Sync

open rust_std

namespace iroh_drop

def MAX_SESSIONS : Nat := 64

/-- A session, by the order in which the sessions were opened. -/
abbrev SessionId := Nat

/-- A session, and whether a reference to it is left. -/
structure Opened [Crypto] where
  session : Session
  live : Bool

/-- `sessions` keeps those that have ended. -/
structure DropProtocol [Crypto] where
  secret : SecretKey
  policy : DropPolicy
  decider : OfferDecider
  sessions : List Opened
  /-- The registry of the stack. Its references are weak. -/
  registry : HashMap TopicId SessionId
  /-- The calls that wait for their carrier, by the ticket of the session. -/
  calls : List DropTicket

namespace DropProtocol

variable [Crypto]

def new (secret : SecretKey) (policy : DropPolicy) (decider : OfferDecider) : DropProtocol :=
  { secret, policy, decider, sessions := [], registry := ∅, calls := [] }

/-- `Weak::upgrade`. -/
def upgrade (self : DropProtocol) (i : SessionId) : Option Session :=
  (self.sessions[i]?.filter Opened.live).map Opened.session

/-- The live sessions by topic, as the sync protocol finds them. -/
def live_sessions (self : DropProtocol) : SessionRegistry := fun topic =>
  (self.registry.lookup topic).bind self.upgrade

/-- How many sessions of the registry are live. -/
def active (self : DropProtocol) : Nat := self.registry.count (fun i => (self.upgrade i).isSome)

def check_session_capacity (self : DropProtocol) : Except DropError Unit :=
  if self.active ≥ MAX_SESSIONS then
    .error (.Policy (.TooManySessions self.active MAX_SESSIONS))
  else .ok ()

/-- Both calls that open a session check first, and then wait for the carrier. -/
def connect (self : DropProtocol) (ticket : DropTicket) : Except DropError DropProtocol :=
  match self.check_session_capacity with
  | .error e => .error e
  | .ok () => .ok { self with calls := self.calls ++ [ticket] }

/-- `topic_id` and `key` are what the random generator gives, `self_addr` is
the address of the endpoint. -/
def create [Urls] (self : DropProtocol) (options : CreateOptions) (topic_id : TopicId)
    (self_addr : EndpointAddr) (key : DropKey) : Except DropError DropProtocol :=
  self.connect (create_ticket options topic_id self_addr key)

def join (self : DropProtocol) (ticket : DropTicket) : Except DropError DropProtocol :=
  self.connect ticket

/-- `DropSession::new`: the registry finds the newest session of a topic. -/
def open_session (self : DropProtocol) (ticket : DropTicket) (store : BlobHash → BlobStatus) :
    DropProtocol :=
  let topic_id : TopicId := ⟨ticket.V1.topic_id⟩
  let session : Session :=
    .new self.secret self.policy self.decider topic_id ticket ticket.drop_key store
  { self with
    sessions := self.sessions ++ [{ session, live := true }]
    registry := self.registry.insert topic_id self.sessions.length }

/-- The carrier is there, or is not: the call returns. -/
def connected (self : DropProtocol) (k : Nat) (carrier : Except String Unit)
    (store : BlobHash → BlobStatus) : DropProtocol :=
  match self.calls[k]? with
  | none => self
  | some ticket =>
    let self := { self with calls := self.calls.eraseIdx k }
    match carrier with
    | .error _ => self
    | .ok () => self.open_session ticket store

/-- A session takes a step of its own. -/
def session_step (self : DropProtocol) (i : SessionId) (step : Step) : DropProtocol :=
  { self with
    sessions := self.sessions.modify i (fun opened =>
      { opened with session := opened.session.step step }) }

/-- The last reference to a session goes. -/
def end_session (self : DropProtocol) (i : SessionId) : DropProtocol :=
  { self with sessions := self.sessions.modify i (fun opened => { opened with live := false }) }

variable [Urls]

/-- One thing that happens to a protocol instance. -/
inductive Act where
  | create (options : CreateOptions) (topic_id : TopicId) (self_addr : EndpointAddr)
      (key : DropKey)
  | join (ticket : DropTicket)
  | connected (k : Nat) (carrier : Except String Unit) (store : BlobHash → BlobStatus)
  /-- The caller gives up on a call that waits. -/
  | cancelled (k : Nat)
  | session_step (i : SessionId) (step : Step)
  | ended (i : SessionId)

/-- A call that is refused leaves the instance as it was. -/
def act (self : DropProtocol) : Act → DropProtocol
  | .create options topic_id self_addr key =>
    (self.create options topic_id self_addr key).toOption.getD self
  | .join ticket => (self.join ticket).toOption.getD self
  | .connected k carrier store => self.connected k carrier store
  | .cancelled k => { self with calls := self.calls.eraseIdx k }
  | .session_step i step => self.session_step i step
  | .ended i => self.end_session i

def run (self : DropProtocol) (acts : List Act) : DropProtocol := runs.run act self acts

end DropProtocol

end iroh_drop
