-- The control API of the daemon: its clients, the questions that it asks them,
-- and what an answer starts (frame.rs, service.rs).
import IrohDrop.Daemon

open rust_std

namespace iroh_drop

/-! ## JSON -/

/-- `serde_json::Value`. A float is the bits of its f64. -/
inductive Value where
  | null
  | bool (b : Bool)
  | pos_int (n : UInt64)
  | neg_int (n : Int64)
  | float (bits : UInt64)
  | string (s : String)
  | array (items : List Value)
  | object (fields : List (String × Value))

namespace Value

def get (self : Value) (key : String) : Option Value :=
  match self with
  | .object fields => fields.lookup key
  | _ => none

def as_bool : Value → Option Bool
  | .bool b => some b
  | _ => none

def as_str : Value → Option String
  | .string s => some s
  | _ => none

def as_u64 : Value → Option UInt64
  | .pos_int n => some n
  | _ => none

/-- A number that is a u32. -/
def as_u32 : Value → Option UInt32
  | .pos_int n => if n.toNat < 2 ^ 32 then some n.toUInt32 else none
  | _ => none

end Value

/-! ## Frames -/

def API_VERSION : UInt32 := 1

inductive Role where
  | Observer
  | Ui
  | Control
deriving DecidableEq

/-- One line on the control socket. -/
inductive Frame where
  | Req (id : UInt64) (m : String) (p : Value)
  | Res (id : UInt64) (p : Value)
  | Err (id : UInt64) (code msg : String)
  | Ask (id : UInt64) (q : String) (p : Value)
  | Ev (seq : UInt64) (e : String) (p : Value)

structure Hello where
  client : String
  api : UInt32
  roles : List Role

namespace Role

def of_name : String → Option Role
  | "observer" => some .Observer
  | "ui" => some .Ui
  | "control" => some .Control
  | _ => none

/-- A unit variant is its name, or an object of its name alone. -/
def from_value : Value → Option Role
  | .string name => of_name name
  | .object [(name, .null)] => of_name name
  | _ => none

end Role

namespace Hello

/-- A list of roles that is not there is empty. -/
def roles_from_value : Option Value → Option (List Role)
  | none => some []
  | some (.array roles) => roles.mapM Role.from_value
  | some _ => none

/-- `serde_json::from_value`: an object, or the fields in their order. -/
def from_value : Value → Option Hello
  | .object fields => do
    let client ← (fields.lookup "client").bind Value.as_str
    let api ← (fields.lookup "api").bind Value.as_u32
    let roles ← roles_from_value (fields.lookup "roles")
    some { client, api, roles }
  | .array (client :: api :: rest) => do
    let client ← client.as_str
    let api ← api.as_u32
    if rest.length ≤ 1 then
      let roles ← roles_from_value rest.head?
      some { client, api, roles }
    else none
  | _ => none

end Hello

/-! ## The router of questions -/

/-- A client connection, by the order in which they came. -/
abbrev ClientId := Nat

/-- A consent question, by the order in which they came up. -/
abbrev QuestionId := Nat

structure AskRouter where
  next_id : UInt64
  /-- Who waits for the answer to which id. -/
  pending : HashMap UInt64 QuestionId
  /-- Registered UIs, oldest first. -/
  uis : List (UInt64 × ClientId)
  next_ui : UInt64

namespace AskRouter

def new : AskRouter := { next_id := 1, pending := ∅, uis := [], next_ui := 1 }

def register_ui (self : AskRouter) (tx : ClientId) : UInt64 × AskRouter :=
  (self.next_ui, { self with
    uis := self.uis ++ [(self.next_ui, tx)]
    next_ui := self.next_ui + 1 })

def unregister_ui (self : AskRouter) (token : UInt64) : AskRouter :=
  { self with uis := self.uis.filter fun ui => ui.1 ≠ token }

/-- `is_closed` is what the channels of the clients answer. -/
def forget_closed (self : AskRouter) (is_closed : ClientId → Bool) : AskRouter :=
  { self with uis := self.uis.filter fun ui => !is_closed ui.2 }

def has_live_ui (self : AskRouter) (is_closed : ClientId → Bool) : Bool :=
  self.uis.any fun ui => !is_closed ui.2

/-- The UI that came last, of those that listen. -/
def target (self : AskRouter) (is_closed : ClientId → Bool) : Option ClientId :=
  (self.uis.reverse.find? fun ui => !is_closed ui.2).map Prod.snd

end AskRouter

/-! ## Clients and questions -/

/-- Where the task of a connection is. -/
inductive ClientStage where
  | greeting
  | serving (roles : List Role) (ui_token : Option UInt64)
  | ended (roles : List Role)

/-- A connection: its two channels, oldest frame first. -/
structure ClientConn where
  stage : ClientStage
  inbound : List Frame
  inbound_open : Bool
  outbound : List Frame
  /-- The client still holds the receiver. -/
  outbound_open : Bool

/-- The connection said hello with the role. -/
def ClientConn.has_role (self : ClientConn) (role : Role) : Bool :=
  match self.stage with
  | .greeting => false
  | .serving roles _ => roles.contains role
  | .ended roles => roles.contains role

/-- A frame for the client. One that is gone gets nothing. -/
def ClientConn.push (self : ClientConn) (frame : Frame) : ClientConn :=
  if self.outbound_open then { self with outbound := self.outbound ++ [frame] } else self

/-- Where the task of a consent question is. -/
inductive ConsentStage where
  | start
  | asking
  | numbered (id : UInt64)
  | targeted (id : UInt64) (ui : ClientId)
  /-- The id is pending, and the frame is on its way into the channel. -/
  | sending (id : UInt64) (ui : ClientId)
  | waiting (id : UInt64) (ui : ClientId)
  | declined (reason : String)
  | fetching (out : String)

/-- The task of a consent question. `received` is its oneshot channel. -/
structure ConsentTask where
  question : Value
  stage : ConsentStage
  received : Option (Except ApiError Value)

/-- The options of the daemon that the consent flow reads. -/
structure ConsentOptions where
  auto_accept : Bool
  download_dir : String

/-- The part of the daemon that talks to clients. -/
structure ControlApi where
  options : ConsentOptions
  asks : AskRouter
  clients : List ClientConn
  consents : List ConsentTask

/-- What the rest of the daemon answers to a frame. -/
structure ServeWorld where
  hello_result : Value
  hello_error : String
  reply : Except ApiError Value

namespace ControlApi

def new (options : ConsentOptions) : ControlApi :=
  { options, asks := .new, clients := [], consents := [] }

/-- `Sender::is_closed` of the outbound channel of a client. -/
def is_closed (self : ControlApi) (c : ClientId) : Bool :=
  !self.clients[c]?.any (·.outbound_open)

def has_live_ui (self : ControlApi) : Bool := self.asks.has_live_ui self.is_closed

def set_client (self : ControlApi) (c : ClientId) (client : ClientConn) : ControlApi :=
  { self with clients := self.clients.set c client }

def set_consent (self : ControlApi) (k : QuestionId) (task : ConsentTask) (stage : ConsentStage) :
    ControlApi :=
  { self with consents := self.consents.set k { task with stage } }

/-! ## Connections -/

/-- The answer goes to whoever waits for the id. -/
def answer (self : ControlApi) (id : UInt64) (result : Except ApiError Value) : ControlApi :=
  match self.asks.pending.lookup id with
  | some k =>
    { self with
      asks := { self.asks with pending := self.asks.pending.erase id }
      consents := self.consents.modify k fun task => { task with received := some result } }
  | none => self

/-- The loop of a connection is over: it takes its own UI out. -/
def disconnect (self : ControlApi) (c : ClientId) (client : ClientConn) (roles : List Role)
    (ui_token : Option UInt64) : ControlApi :=
  let asks := match ui_token with
    | some token => self.asks.unregister_ui token
    | none => self.asks
  { self.set_client c { client with stage := .ended roles } with
    asks := asks.forget_closed self.is_closed }

/-- The client has said hello. -/
def welcome (self : ControlApi) (c : ClientId) (client : ClientConn) (roles : List Role) :
    ControlApi :=
  if roles.contains .Ui then
    let (token, asks) := self.asks.register_ui c
    { self.set_client c { client with stage := .serving roles (some token) } with asks }
  else self.set_client c { client with stage := .serving roles none }

/-- A connection is not a client until it says hello. -/
def greet (self : ControlApi) (c : ClientId) (client : ClientConn) (world : ServeWorld) :
    Option Frame → ControlApi
  | some (.Req id "hello" p) =>
    match Hello.from_value p with
    | some hello =>
      if hello.api = API_VERSION then
        self.welcome c (client.push (.Res id world.hello_result)) hello.roles
      else
        let msg := s!"daemon speaks api {API_VERSION}, client speaks {hello.api}"
        self.set_client c { client.push (.Err id "api_version" msg) with
          stage := .ended [] }
    | none =>
      self.set_client c { client.push (.Err id "bad_params" world.hello_error) with
        stage := .ended [] }
  | _ => self.set_client c { client with stage := .ended [] }

def reply_frame (id : UInt64) : Except ApiError Value → Frame
  | .ok p => .Res id p
  | .error e => .Err id e.code e.msg

/-- One turn of the loop of a client that said hello. -/
def handle (self : ControlApi) (c : ClientId) (client : ClientConn) (roles : List Role)
    (ui_token : Option UInt64) (world : ServeWorld) : Option Frame → ControlApi
  | some (.Req id _ _) =>
    if client.outbound_open then
      self.set_client c (client.push (reply_frame id world.reply))
    else self.disconnect c client roles ui_token
  -- Answers to our own questions.
  | some (.Res id p) => (self.set_client c client).answer id (.ok p)
  | some (.Err id code msg) => (self.set_client c client).answer id (.error ⟨code, msg⟩)
  | some _ => self.set_client c client
  | none => self.disconnect c client roles ui_token

/-- The task of a connection takes the next frame, or sees that there will be
none. -/
def serve (self : ControlApi) (c : ClientId) (world : ServeWorld) : ControlApi :=
  match self.clients[c]? with
  | none => self
  | some client =>
    if client.inbound.isEmpty ∧ client.inbound_open then self
    else
      let rest := { client with inbound := client.inbound.tail }
      match client.stage with
      | .greeting => self.greet c rest world client.inbound.head?
      | .serving roles ui_token => self.handle c rest roles ui_token world client.inbound.head?
      | .ended _ => self

/-! ## Consent -/

/-- Only an explicit yes turns into a fetch. -/
def accepts (answer : Value) : Bool := ((answer.get "accept").bind Value.as_bool).getD false

/-- What becomes of a question once `ask` has returned. -/
def decided (self : ControlApi) : Option Value → ConsentStage
  | none => .declined "no consent"
  | some answer =>
    if accepts answer then
      .fetching (((answer.get "out").bind Value.as_str).getD self.options.download_dir)
    else .declined "declined"

def forget_pending (self : ControlApi) (id : UInt64) : ControlApi :=
  { self with asks := { self.asks with pending := self.asks.pending.erase id } }

/-- The question goes into the channel of the UI. -/
def send_question (self : ControlApi) (k : QuestionId) (task : ConsentTask) (id : UInt64)
    (ui : ClientId) : ControlApi :=
  match self.clients[ui]? with
  | some client =>
    if client.outbound_open then
      (self.set_client ui (client.push (.Ask id "offer.accept" task.question))).set_consent k task
        (.waiting id ui)
    else (self.forget_pending id).set_consent k task (self.decided none)
  | none => (self.forget_pending id).set_consent k task (self.decided none)

/-- The wait for an answer: silence is never consent. -/
def await_answer (self : ControlApi) (k : QuestionId) (task : ConsentTask) (id : UInt64)
    (timed_out : Bool) : ControlApi :=
  match task.received with
  | some (.ok value) => self.set_consent k task (self.decided (some value))
  | some (.error _) => (self.forget_pending id).set_consent k task (self.decided none)
  | none =>
    -- A sender that is gone ends the wait as well.
    if timed_out ∨ self.asks.pending.lookup id ≠ some k then
      (self.forget_pending id).set_consent k task (self.decided none)
    else self

/-- One stretch of `spawn_consent`, from one lock to the next. -/
def consent (self : ControlApi) (k : QuestionId) (timed_out : Bool) : ControlApi :=
  match self.consents[k]? with
  | none => self
  | some task =>
    match task.stage with
    | .start =>
      if self.options.auto_accept && !self.has_live_ui then
        self.set_consent k task (self.decided (some (.object [("accept", .bool true)])))
      else self.set_consent k task .asking
    | .asking =>
      let asks := self.asks.forget_closed self.is_closed
      { self with asks := { asks with next_id := asks.next_id + 1 } }.set_consent k task
        (.numbered asks.next_id)
    | .numbered id =>
      match self.asks.target self.is_closed with
      | some ui => self.set_consent k task (.targeted id ui)
      | none => self.set_consent k task (self.decided none)
    | .targeted id ui =>
      { self with asks := { self.asks with
          pending := self.asks.pending.insert id k } }.set_consent k task (.sending id ui)
    | .sending id ui => self.send_question k task id ui
    | .waiting id _ => self.await_answer k task id timed_out
    | .declined _ | .fetching _ => self

/-! ## Runs -/

/-- One thing that happens at the control API. -/
inductive Act where
  /-- A client connects. -/
  | attach
  /-- A client puts a frame into its channel. -/
  | sent (c : ClientId) (frame : Frame)
  /-- A client drops its sender. -/
  | hung_up (c : ClientId)
  /-- A client drops its receiver. -/
  | stopped_reading (c : ClientId)
  | serve (c : ClientId) (world : ServeWorld)
  | spawn_consent (question : Value)
  | consent (k : QuestionId) (timed_out : Bool)

def modify_client (self : ControlApi) (c : ClientId) (f : ClientConn → ClientConn) : ControlApi :=
  { self with clients := self.clients.modify c f }

def act (self : ControlApi) : Act → ControlApi
  | .attach =>
    { self with clients := self.clients ++ [{
        stage := .greeting, inbound := [], inbound_open := true
        outbound := [], outbound_open := true }] }
  | .sent c frame => self.modify_client c fun client =>
      if client.inbound_open then { client with inbound := client.inbound ++ [frame] } else client
  | .hung_up c => self.modify_client c fun client => { client with inbound_open := false }
  | .stopped_reading c => self.modify_client c fun client => { client with outbound_open := false }
  | .serve c world => self.serve c world
  | .spawn_consent question =>
    { self with consents := self.consents ++ [{ question, stage := .start, received := none }] }
  | .consent k timed_out => self.consent k timed_out

def run (self : ControlApi) (acts : List Act) : ControlApi := runs.run act self acts

end ControlApi

end iroh_drop
