-- A client of the daemon and its connection: the calls, the reader, and the two
-- tasks of the socket (client.rs, transport/mod.rs).
import IrohDrop.EventBus

open rust_std

namespace iroh_drop

/-- Room of the channel to the daemon, and of the one back. -/
def TO_SOCKET_CAPACITY : Nat := 64
def TO_CLIENT_CAPACITY : Nat := 256

/-- What a read from the socket gives: `oversized` has more than
`MAX_FRAME_BYTES` bytes. -/
inductive Line where
  | blank
  | oversized
  | unparseable
  | frame (frame : Frame)

/-! ## Calls -/

/-- Where a call is: it has its number, its sender is in the table, its request
is on the way, and it is over. -/
inductive CallStage where
  | numbered
  | registered
  | waiting
  | resolved (outcome : Except ApiError Value)

/-- A call of `Client::call`. `received`: what came through its channel. -/
structure ClientCall where
  id : UInt64
  m : String
  p : Value
  stage : CallStage
  received : Option (Except ApiError Value)

/-- A question of the daemon. -/
structure AskRequest where
  id : UInt64
  q : String
  p : Value

/-! ## Tasks -/

/-- `spawn_writer`: it waits for a frame, or writes one. -/
inductive WriterTask where
  | idle
  | holding (frame : Frame)
  | ended

def WriterTask.is_ended : WriterTask → Bool
  | .ended => true
  | _ => false

/-- The reader of `Client::start`: it waits for a frame, or turns a request of
the daemon down. -/
inductive ReaderTask where
  | reading
  | replying (id : UInt64)
  | ended

def ReaderTask.is_ended : ReaderTask → Bool
  | .ended => true
  | _ => false

/-- A client, its two channels, and the tasks at their ends. `pending`: the calls
whose senders are in the table. `lines`: what the daemon wrote and nobody has
read. For the laws: the requests that were written to the socket, and the
replies that the reader got. -/
structure Client where
  hello : Value
  next_id : UInt64
  pending : HashMap UInt64 Nat
  calls : List ClientCall
  events : List Envelope
  asks : List AskRequest
  outbound : List Frame
  writer : WriterTask
  lines : List Line
  hung_up : Bool
  socket_reader_ended : Bool
  inbound : List Frame
  reader : ReaderTask
  written : List UInt64
  heard : List (UInt64 × Except ApiError Value)

inductive ClientStep where
  | call (m : String) (p : Value)
  | register (c : Nat)
  | send (c : Nat)
  | wake (c : Nat)
  /-- An answer to a question, of a window or of a handler. -/
  | answer (id : UInt64) (q : String) (answer : Option Value)
  | take
  | write (written : Bool)
  | receive
  | break_off
  | read
  | respond
  /-- The daemon replies to a request that it got. -/
  | reply (j : Nat) (outcome : Except ApiError Value)
  /-- Any other line of the daemon. -/
  | tell (line : Line)
  | hang_up

def disconnected (msg : String) : ApiError := ⟨"disconnected", msg⟩

/-- The number of a request. -/
def Frame.request_id : Frame → Option UInt64
  | .Req id _ _ => some id
  | _ => none

/-- The number of a reply. -/
def Frame.reply_id : Frame → Option UInt64
  | .Res id _ | .Err id _ _ => some id
  | _ => none

def Line.reply_id : Line → Option UInt64
  | .frame f => f.reply_id
  | _ => none

namespace Client

/-- The first frame of the daemon makes the client, or an error. -/
def start : Option Frame → Except ApiError Client
  | some (.Res _ p) => .ok
    { hello := p, next_id := 1, pending := ∅, calls := [], events := [], asks := []
      outbound := [], writer := .idle, lines := [], hung_up := false
      socket_reader_ended := false, inbound := [], reader := .reading, written := [], heard := [] }
  | some (.Err _ code msg) => .error ⟨code, msg⟩
  | _ => .error (disconnected "daemon closed during handshake")

def set_call (self : Client) (c : Nat) (call : ClientCall) : Client :=
  { self with calls := self.calls.set c call }

/-- The channel to the daemon has room. -/
def has_room (self : Client) : Bool := decide (self.outbound.length < TO_SOCKET_CAPACITY)

/-! ## The call -/

def call (self : Client) (m : String) (p : Value) : Client :=
  { self with
    next_id := self.next_id + 1
    calls := self.calls ++ [{ id := self.next_id, m, p, stage := .numbered, received := none }] }

def register (self : Client) (c : Nat) (call : ClientCall) : Client :=
  match call.stage with
  | .numbered =>
    { self.set_call c { call with stage := .registered } with
      pending := self.pending.insert call.id c }
  | _ => self

/-- The request waits for room in the channel, or finds it closed. -/
def send (self : Client) (c : Nat) (call : ClientCall) : Client :=
  match call.stage with
  | .registered =>
    if self.writer.is_ended then
      self.set_call c { call with stage := .resolved (.error (disconnected "daemon went away")) }
    else if self.has_room then
      { self.set_call c { call with stage := .waiting } with
        outbound := self.outbound ++ [.Req call.id call.m call.p] }
    else self
  | _ => self

/-- A call wakes with its reply, or when its sender is gone. -/
def wake (self : Client) (c : Nat) (call : ClientCall) : Client :=
  match call.stage with
  | .waiting =>
    match call.received with
    | some outcome => self.set_call c { call with stage := .resolved outcome }
    | none =>
      if self.pending.lookup call.id = some c then self
      else self.set_call c { call with stage := .resolved (.error (disconnected "no reply")) }
  | _ => self

/-! ## The answers -/

def answer_frame (id : UInt64) (q : String) : Option Value → Frame
  | some p => .Res id p
  | none => .Err id "declined" s!"{q} declined"

def answer (self : Client) (id : UInt64) (q : String) (answer : Option Value) : Client :=
  if !self.writer.is_ended && self.has_room then
    { self with outbound := self.outbound ++ [answer_frame id q answer] }
  else self

/-! ## The tasks of the socket -/

/-- The writer takes the next frame from the channel. -/
def take (self : Client) : Client :=
  match self.writer, self.outbound with
  | .idle, frame :: rest => { self with writer := .holding frame, outbound := rest }
  | _, _ => self

/-- A write that fails ends the writer, and what is in the channel is lost. -/
def write (self : Client) (written : Bool) : Client :=
  match self.writer with
  | .holding frame =>
    if written then
      { self with writer := .idle, written := self.written ++ frame.request_id.toList }
    else { self with writer := .ended, outbound := [] }
  | _ => self

/-- The reader of the socket takes the next line, or sees the end. -/
def receive (self : Client) : Client :=
  if self.socket_reader_ended then self
  else
    match self.lines with
    | [] => if self.hung_up then { self with socket_reader_ended := true } else self
    | .blank :: rest | .unparseable :: rest => { self with lines := rest }
    | .oversized :: _ => { self with socket_reader_ended := true }
    | .frame frame :: rest =>
      if self.reader.is_ended then { self with socket_reader_ended := true }
      else if self.inbound.length < TO_CLIENT_CAPACITY then
        { self with lines := rest, inbound := self.inbound ++ [frame] }
      else self

/-! ## The reader of the client -/

/-- A reply goes to the call in the table. -/
def hand_over (self : Client) (id : UInt64) (outcome : Except ApiError Value) : Client :=
  let self := { self with heard := self.heard ++ [(id, outcome)] }
  match self.pending.lookup id with
  | some c =>
    { self with
      pending := self.pending.erase id
      calls := self.calls.modify c fun call => { call with received := some outcome } }
  | none => self

def handle_frame (self : Client) : Frame → Client
  | .Res id p => self.hand_over id (.ok p)
  | .Err id code msg => self.hand_over id (.error ⟨code, msg⟩)
  | .Ev seq e p => { self with events := self.events ++ [⟨seq, e, p⟩] }
  | .Ask id q p => { self with asks := self.asks ++ [⟨id, q, p⟩] }
  | .Req id _ _ => { self with reader := .replying id }

/-- The next frame, or the end when the reader of the socket is gone. -/
def read (self : Client) : Client :=
  match self.reader, self.inbound with
  | .reading, frame :: rest => handle_frame { self with inbound := rest } frame
  | .reading, [] => if self.socket_reader_ended then { self with reader := .ended } else self
  | _, _ => self

/-- The reader waits until its reply is in the channel. -/
def respond (self : Client) : Client :=
  match self.reader with
  | .replying id =>
    if self.writer.is_ended then { self with reader := .reading }
    else if self.has_room then
      { self with
        reader := .reading
        outbound := self.outbound ++ [.Err id "unsupported" "clients do not serve methods"] }
    else self
  | _ => self

/-! ## The daemon -/

def tell (self : Client) (line : Line) : Client :=
  if self.hung_up then self else { self with lines := self.lines ++ [line] }

def reply (self : Client) (j : Nat) (outcome : Except ApiError Value) : Client :=
  match self.written[j]? with
  | some id => self.tell (.frame (ControlApi.reply_frame id outcome))
  | none => self

/-! ## Runs -/

def at_call (self : Client) (c : Nat) (f : ClientCall → Client) : Client :=
  match self.calls[c]? with
  | some call => f call
  | none => self

def step (self : Client) : ClientStep → Client
  | .call m p => self.call m p
  | .register c => self.at_call c (self.register c)
  | .send c => self.at_call c (self.send c)
  | .wake c => self.at_call c (self.wake c)
  | .answer id q answer => self.answer id q answer
  | .take => self.take
  | .write written => self.write written
  | .receive => self.receive
  | .break_off => { self with socket_reader_ended := true }
  | .read => self.read
  | .respond => self.respond
  | .reply j outcome => self.reply j outcome
  | .tell line => if line.reply_id.isNone then self.tell line else self
  | .hang_up => { self with hung_up := true }

def run (self : Client) (steps : List ClientStep) : Client := runs.run step self steps

end Client

end iroh_drop
