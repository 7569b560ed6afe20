-- The event bus of the daemon: events that are numbered, kept in a ring and
-- broadcast, and the clients that follow them (service.rs).
import IrohDrop.Control

open rust_std

namespace iroh_drop

/-! ## The bus -/

/-- An event as recorded in the replay ring. -/
structure Envelope where
  seq : UInt64
  e : String
  p : Value

def Envelope.to_frame (self : Envelope) : Frame := .Ev self.seq self.e self.p

/-- How many events the replay ring holds. -/
def EVENT_RING : Nat := 4096

/-- How many events the channel of the bus holds. -/
def BUS_CHANNEL : Nat := 1024

/-- The ring, oldest first, and all that the channel has carried. -/
structure EventBus where
  seq : UInt64
  ring : List Envelope
  sent : List Envelope

namespace EventBus

def new : EventBus := { seq := 1, ring := [], sent := [] }

/-- `emit` takes a number. -/
def take (self : EventBus) (e : String) (p : Value) : Envelope × EventBus :=
  ({ seq := self.seq, e, p }, { self with seq := self.seq + 1 })

/-- `emit` has the lock of the ring. -/
def append (self : EventBus) (env : Envelope) : EventBus :=
  let ring := if self.ring.length = EVENT_RING then self.ring.tail else self.ring
  { self with ring := ring ++ [env] }

/-- `emit` broadcasts. -/
def send (self : EventBus) (env : Envelope) : EventBus := { self with sent := self.sent ++ [env] }

def emit (self : EventBus) (e : String) (p : Value) : UInt64 × EventBus :=
  let (env, self) := self.take e p
  (env.seq, (self.append env).send env)

def current (self : EventBus) : UInt64 := self.seq

/-- Events from a number onward, and whether some of them are gone. -/
def replay (self : EventBus) («from» : UInt64) : List Envelope × Bool :=
  let start := max «from» 1
  let oldest := (self.ring.head?.map Envelope.seq).getD start
  (self.ring.filter (fun env => decide (start ≤ env.seq)), decide (start < oldest))

end EventBus

/-! ## Clients that follow the events -/

/-- What the forwarder of a connection sends. -/
inductive Notice where
  | event (env : Envelope)
  | truncated (missed : Nat)

/-- A connection: where its forwarder is in the channel, and what is on its way
to the client. -/
structure Feed where
  next : Nat
  pipe : List Notice

/-- One turn of the forwarder. -/
def Feed.forward (self : Feed) (bus : EventBus) : Feed :=
  match broadcast_recv BUS_CHANNEL bus.sent false self.next with
  | (.Ok env, next) => { next, pipe := self.pipe ++ [.event env] }
  | (.Lagged missed, next) => { next, pipe := self.pipe ++ [.truncated missed] }
  | (.Closed, _) | (.Pending, _) => self

/-- A client that stores the number of the last event it saw, and after a
reconnect asks for a replay from the next one before it looks at new events.
`told`: it was told that it missed some. -/
structure Watcher where
  seen : List Envelope
  last : Option UInt64
  resume : Option UInt64
  feed : Option Feed
  told : Bool

namespace Watcher

def new : Watcher := { seen := [], last := none, resume := none, feed := none, told := false }

def see (self : Watcher) (events : List Envelope) : Watcher :=
  { self with
    seen := self.seen ++ events
    last := (events.getLast?.map Envelope.seq) <|> self.last }

/-- `attach` subscribes the client. -/
def connect (self : Watcher) (bus : EventBus) : Watcher :=
  match self.feed with
  | some _ => self
  | none =>
    { self with
      feed := some { next := bus.sent.length, pipe := [] }
      resume := self.last.map (· + 1) }

def disconnect (self : Watcher) : Watcher := { self with feed := none, resume := none }

def forward (self : Watcher) (bus : EventBus) : Watcher :=
  { self with feed := self.feed.map (·.forward bus) }

def receive (self : Watcher) : Watcher :=
  match self.feed, self.resume with
  | some ⟨next, .event env :: pipe⟩, none => { self.see [env] with feed := some ⟨next, pipe⟩ }
  | some ⟨next, .truncated _ :: pipe⟩, none =>
    { self with feed := some ⟨next, pipe⟩, told := true }
  | _, _ => self

/-- `events.replay` has answered. -/
def catch_up (self : Watcher) (bus : EventBus) : Watcher :=
  match self.feed, self.resume with
  | some _, some start =>
    let (events, truncated) := bus.replay start
    { self.see events with resume := none, told := self.told || truncated }
  | _, _ => self

end Watcher

/-! ## Runs -/

/-- A call of `emit` that has its number. -/
structure EmitCall where
  env : Envelope
  in_ring : Bool

/-- The bus, the calls that are under way, and the clients. `emitted`: all
events that have a number. -/
structure EventStream where
  bus : EventBus
  calls : List EmitCall
  watchers : List Watcher
  emitted : List Envelope

inductive StreamStep where
  | take (e : String) (p : Value)
  | append (j : Nat)
  | send (j : Nat)
  | watch
  | connect (k : Nat)
  | forward (k : Nat)
  | receive (k : Nat)
  | catch_up (k : Nat)
  | disconnect (k : Nat)

namespace EventStream

def new : EventStream := { bus := .new, calls := [], watchers := [], emitted := [] }

def take (self : EventStream) (e : String) (p : Value) : EventStream :=
  let (env, bus) := self.bus.take e p
  { self with
    bus, calls := self.calls ++ [{ env, in_ring := false }], emitted := self.emitted ++ [env] }

def append (self : EventStream) (j : Nat) : EventStream :=
  match self.calls[j]? with
  | some ⟨env, false⟩ =>
    { self with bus := self.bus.append env, calls := self.calls.set j ⟨env, true⟩ }
  | _ => self

def send (self : EventStream) (j : Nat) : EventStream :=
  match self.calls[j]? with
  | some ⟨env, true⟩ => { self with bus := self.bus.send env, calls := self.calls.eraseIdx j }
  | _ => self

def modify_watcher (self : EventStream) (k : Nat) (f : Watcher → Watcher) : EventStream :=
  { self with watchers := self.watchers.modify k f }

def step (self : EventStream) : StreamStep → EventStream
  | .take e p => self.take e p
  | .append j => self.append j
  | .send j => self.send j
  | .watch => { self with watchers := self.watchers ++ [.new] }
  | .connect k => self.modify_watcher k (·.connect self.bus)
  | .forward k => self.modify_watcher k (·.forward self.bus)
  | .receive k => self.modify_watcher k Watcher.receive
  | .catch_up k => self.modify_watcher k (·.catch_up self.bus)
  | .disconnect k => self.modify_watcher k Watcher.disconnect

def run (self : EventStream) (steps : List StreamStep) : EventStream := runs.run step self steps

end EventStream

end iroh_drop
