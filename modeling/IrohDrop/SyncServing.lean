-- The side of catch-up sync that serves: connections that share a few permits,
-- and the operations that a peer's tokens buy it on all of them (sync.rs).
import IrohDrop.PeerBuckets
import IrohDrop.Sync

open rust_std postcard

namespace iroh_drop

def MAX_CONCURRENT_SERVING : Nat := 8

section Laws

variable [Crypto]

/-! ## Connections -/

/-- Where the handler of a connection is: it went away without a permit, waits
for the next stream, has an operation to answer, or has returned. -/
inductive ServingStage where
  | refused
  | waiting
  | serving
  | ended
deriving DecidableEq

/-- A connection, with what was written to it. -/
structure SyncConnection where
  peer : EndpointId
  stage : ServingStage
  replies : List Bytes

structure SyncProtocol where
  /-- What is left in the semaphore. -/
  serving : Nat
  limiter : PeerRateLimiter
  connections : List SyncConnection

/-- One atomic step of a handler. -/
inductive SyncEvent where
  | accept (peer : EndpointId)
  | accept_bi (k : Nat) (now : Instant)
  /-- The request is read, or that fails, and the reply goes out, or that does. -/
  | serve_op (k : Nat) (request : Option Bytes) (sessions : SessionRegistry) (written : Bool)
  /-- There is no stream more. -/
  | closed (k : Nat)

namespace SyncProtocol

def new : SyncProtocol :=
  { serving := MAX_CONCURRENT_SERVING, limiter := .new SYNC_PAGES, connections := [] }

/-- A connection is at a stage of its handler. -/
def put (self : SyncProtocol) (k : Nat) (conn : SyncConnection) : SyncProtocol :=
  { self with connections := self.connections.set k conn }

/-- The handler returns, and its permit goes back. -/
def release (self : SyncProtocol) (k : Nat) (conn : SyncConnection) : SyncProtocol :=
  { self.put k { conn with stage := .ended } with serving := self.serving + 1 }

/-- `accept`, up to the first stream. -/
def accept (self : SyncProtocol) (peer : EndpointId) : SyncProtocol :=
  if self.serving = 0 then
    { self with connections := self.connections ++ [⟨peer, .refused, []⟩] }
  else
    { self with serving := self.serving - 1
                connections := self.connections ++ [⟨peer, .waiting, []⟩] }

/-- A stream of a connection is one operation, if the peer has a token for it. -/
def accept_bi (self : SyncProtocol) (k : Nat) (now : Instant) : SyncProtocol :=
  match self.connections[k]? with
  | some ⟨peer, .waiting, replies⟩ =>
    match self.limiter.allow_at peer now with
    | (true, limiter) => { self with limiter }.put k ⟨peer, .serving, replies⟩
    | (false, limiter) => { self with limiter }.release k ⟨peer, .waiting, replies⟩
  | _ => self

def serve_op (self : SyncProtocol) (k : Nat) (request : Option Bytes)
    (sessions : SessionRegistry) (written : Bool) : SyncProtocol :=
  match self.connections[k]? with
  | some ⟨peer, .serving, replies⟩ =>
    match request with
    | none => self.release k ⟨peer, .serving, replies⟩
    | some input =>
      if input.length > MAX_REQUEST_BYTES then self.release k ⟨peer, .serving, replies⟩
      else
        match iroh_drop.serve_op sessions input peer with
        | none => self.put k ⟨peer, .waiting, replies⟩
        | some reply =>
          if written then self.put k ⟨peer, .waiting, replies ++ [reply]⟩
          else self.release k ⟨peer, .serving, replies⟩
  | _ => self

def closed (self : SyncProtocol) (k : Nat) : SyncProtocol :=
  match self.connections[k]? with
  | some ⟨peer, .waiting, replies⟩ => self.release k ⟨peer, .waiting, replies⟩
  | _ => self

def step (self : SyncProtocol) : SyncEvent → SyncProtocol
  | .accept peer => self.accept peer
  | .accept_bi k now => self.accept_bi k now
  | .serve_op k request sessions written => self.serve_op k request sessions written
  | .closed k => self.closed k

def run (self : SyncProtocol) (events : List SyncEvent) : SyncProtocol := runs.run step self events

/-- The handler is at work. -/
def at_work (conn : SyncConnection) : Bool :=
  decide (conn.stage = .waiting ∨ conn.stage = .serving)

/-- The sum of a number over the connections. -/
def total (f : SyncConnection → Nat) (self : SyncProtocol) : Nat := (self.connections.map f).sum

/-- How many handlers are at work. -/
def busy : SyncProtocol → Nat := total (fun conn => if at_work conn then 1 else 0)

/-- What a handler asks the limiter. -/
def asks (self : SyncProtocol) : SyncEvent → List RateAnswer
  | .accept_bi k now =>
    match self.connections[k]? with
    | some ⟨peer, .waiting, _⟩ => [⟨⟨peer, now⟩, (self.limiter.allow_at peer now).1⟩]
    | _ => []
  | _ => []

/-- All that the handlers ask the limiter from here on. -/
def asked (self : SyncProtocol) (events : List SyncEvent) : List RateCall :=
  (runs.collect step asks self events).map RateAnswer.call

/-- Every way in which a step can move the handlers. -/
inductive Moved (s : SyncProtocol) : SyncEvent → SyncProtocol → Prop where
  | idle {event : SyncEvent} (asks : s.asks event = []) : Moved s event s
  | refused (peer : EndpointId) (full : s.serving = 0) :
      Moved s (.accept peer) { s with connections := s.connections ++ [⟨peer, .refused, []⟩] }
  | took (peer : EndpointId) (free : s.serving ≠ 0) :
      Moved s (.accept peer) { s with
        serving := s.serving - 1, connections := s.connections ++ [⟨peer, .waiting, []⟩] }
  | admitted {k : Nat} {now : Instant} {peer : EndpointId} {replies : List Bytes}
      (here : s.connections[k]? = some ⟨peer, .waiting, replies⟩)
      (allowed : (s.limiter.allow_at peer now).1 = true) :
      Moved s (.accept_bi k now)
        ({ s with limiter := (s.limiter.allow_at peer now).2 }.put k ⟨peer, .serving, replies⟩)
  | limited {k : Nat} {now : Instant} {peer : EndpointId} {replies : List Bytes}
      (here : s.connections[k]? = some ⟨peer, .waiting, replies⟩)
      (refused : (s.limiter.allow_at peer now).1 = false) :
      Moved s (.accept_bi k now)
        ({ s with limiter := (s.limiter.allow_at peer now).2 }.release k ⟨peer, .waiting, replies⟩)
  | silent {k : Nat} {request : Option Bytes} {sessions : SessionRegistry} {written : Bool}
      {peer : EndpointId} {replies : List Bytes}
      (here : s.connections[k]? = some ⟨peer, .serving, replies⟩) :
      Moved s (.serve_op k request sessions written) (s.put k ⟨peer, .waiting, replies⟩)
  | replied {k : Nat} {input : Bytes} {sessions : SessionRegistry} {peer : EndpointId}
      {replies : List Bytes} {reply : Bytes}
      (here : s.connections[k]? = some ⟨peer, .serving, replies⟩)
      (serves : iroh_drop.serve_op sessions input peer = some reply) :
      Moved s (.serve_op k (some input) sessions true) (s.put k ⟨peer, .waiting, replies ++ [reply]⟩)
  | released {event : SyncEvent} {k : Nat} {conn : SyncConnection}
      (here : s.connections[k]? = some conn) (working : at_work conn = true)
      (asks : s.asks event = []) : Moved s event (s.release k conn)

theorem moved (s : SyncProtocol) (event : SyncEvent) : Moved s event (s.step event) := by
  cases event with
  | accept peer =>
    simp only [step, accept]
    split
    · rename_i hfull
      exact .refused peer hfull
    · rename_i hfree
      exact .took peer hfree
  | accept_bi k now =>
    simp only [step, accept_bi]
    split
    · rename_i peer replies hhere
      rcases hallow : s.limiter.allow_at peer now with ⟨_ | _, limiter⟩
      · have hmoved := Moved.limited hhere (congrArg Prod.fst hallow)
        rwa [hallow] at hmoved
      · have hmoved := Moved.admitted hhere (congrArg Prod.fst hallow)
        rwa [hallow] at hmoved
    · rename_i hother
      apply Moved.idle
      simp only [asks]
  | serve_op k request sessions written =>
    simp only [step, serve_op]
    split
    · rename_i peer replies hhere
      split
      · exact .released hhere rfl rfl
      · rename_i input
        split
        · exact .released hhere rfl rfl
        · split
          · exact .silent hhere
          · rename_i reply hserves
            cases written with
            | false => exact .released hhere rfl rfl
            | true => exact .replied hhere hserves
    · exact .idle rfl
  | closed k =>
    simp only [step, closed]
    split
    · rename_i peer replies hhere
      exact .released hhere rfl rfl
    · exact .idle rfl

variable {s s' : SyncProtocol} {event : SyncEvent}

/-! ## Sums -/

theorem total_put (f : SyncConnection → Nat) {k : Nat} {conn : SyncConnection}
    (h : s.connections[k]? = some conn) (conn' : SyncConnection) :
    total f (s.put k conn') + f conn = total f s + f conn' := by
  unfold total put
  simp only
  generalize s.connections = connections at h ⊢
  induction connections generalizing k with
  | nil => cases h
  | cons first rest ih =>
    cases k with
    | zero =>
      simp only [List.getElem?_cons_zero, Option.some.injEq] at h
      subst h
      simp only [List.set_cons_zero, List.map_cons, List.sum_cons]
      omega
    | succ k =>
      have hrest := ih h
      simp only [List.set_cons_succ, List.map_cons, List.sum_cons]
      omega

theorem total_append (f : SyncConnection → Nat) (conn : SyncConnection) :
    total f { s with connections := s.connections ++ [conn] } = total f s + f conn := by
  simp [total]

theorem busy_put {k : Nat} {conn : SyncConnection} (h : s.connections[k]? = some conn)
    (conn' : SyncConnection) :
    (s.put k conn').busy + (if at_work conn then 1 else 0) =
      s.busy + (if at_work conn' then 1 else 0) := total_put _ h conn'

theorem busy_append (conn : SyncConnection) :
    ({ s with connections := s.connections ++ [conn] } : SyncProtocol).busy =
      s.busy + (if at_work conn then 1 else 0) := total_append _ conn

/-- A permit is with each handler that is at work, and the others are in the
semaphore. -/
theorem permits_step (h : s.serving + s.busy = MAX_CONCURRENT_SERVING) (event : SyncEvent) :
    (s.step event).serving + (s.step event).busy = MAX_CONCURRENT_SERVING := by
  have hmoved := s.moved event
  generalize s.step event = s' at hmoved ⊢
  cases hmoved with
  | idle => exact h
  | refused peer full =>
    have hbusy := busy_append (s := s) ⟨peer, .refused, []⟩
    simp only [at_work, reduceCtorEq, or_self, decide_false, Bool.false_eq_true, if_false] at hbusy
    rw [hbusy]
    exact h
  | took peer free =>
    have hbusy := busy_append (s := s) ⟨peer, .waiting, []⟩
    simp only [at_work, true_or, decide_true, if_true] at hbusy
    change s.serving - 1 + busy { s with connections := s.connections ++ [⟨peer, .waiting, []⟩] } = _
    omega
  | @admitted k now peer replies here allowed =>
    have hbusy := busy_put here ⟨peer, .serving, replies⟩
    simp only [at_work, true_or, or_true, decide_true, if_true] at hbusy
    change s.serving + (s.put k ⟨peer, .serving, replies⟩).busy = _
    omega
  | @limited k now peer replies here refused =>
    have hbusy := busy_put here ⟨peer, .ended, replies⟩
    simp only [at_work, true_or, decide_true, if_true, reduceCtorEq, or_self, decide_false,
      Bool.false_eq_true, if_false] at hbusy
    change s.serving + 1 + (s.put k ⟨peer, .ended, replies⟩).busy = _
    omega
  | @silent k request sessions written peer replies here =>
    have hbusy := busy_put here ⟨peer, .waiting, replies⟩
    simp only [at_work, true_or, or_true, decide_true, if_true] at hbusy
    change s.serving + (s.put k ⟨peer, .waiting, replies⟩).busy = _
    omega
  | @replied k input sessions peer replies reply here serves =>
    have hbusy := busy_put here ⟨peer, .waiting, replies ++ [reply]⟩
    simp only [at_work, true_or, or_true, decide_true, if_true] at hbusy
    change s.serving + (s.put k ⟨peer, .waiting, replies ++ [reply]⟩).busy = _
    omega
  | @released event k conn here working asks =>
    have hbusy := busy_put here { conn with stage := .ended }
    rw [working] at hbusy
    simp only [at_work, if_true, reduceCtorEq, or_self, decide_false, Bool.false_eq_true,
      if_false] at hbusy
    change s.serving + 1 + (s.put k { conn with stage := .ended }).busy = _
    omega

theorem permits_run (events : List SyncEvent) :
    (new.run events).serving + (new.run events).busy = MAX_CONCURRENT_SERVING := by
  have hstep : ∀ (s : SyncProtocol) (event : SyncEvent),
      s.serving + s.busy = MAX_CONCURRENT_SERVING →
        (s.step event).serving + (s.step event).busy = MAX_CONCURRENT_SERVING :=
    fun _ event h => permits_step h event
  exact runs.invariant hstep (show new.serving + new.busy = MAX_CONCURRENT_SERVING from rfl) events

/-! ## Tokens -/

/-- What a connection got are replies to operations of its own peer. -/
def Served (s : SyncProtocol) : Prop :=
  ∀ conn ∈ s.connections, (conn.stage = .refused → conn.replies = []) ∧
    ∀ reply ∈ conn.replies, ∃ sessions input,
      iroh_drop.serve_op sessions input conn.peer = some reply

theorem Served.put (h : Served s) {k : Nat} {conn : SyncConnection}
    (hconn : (conn.stage = .refused → conn.replies = []) ∧
      ∀ reply ∈ conn.replies, ∃ sessions input,
        iroh_drop.serve_op sessions input conn.peer = some reply) : Served (s.put k conn) := by
  intro other hother
  rcases List.mem_or_eq_of_mem_set hother with hold | rfl
  · exact h other hold
  · exact hconn

theorem Served.append (h : Served s) (conn : SyncConnection) (hconn : conn.replies = []) :
    Served { s with connections := s.connections ++ [conn] } := by
  intro other hother
  rcases List.mem_append.mp hother with hold | hnew
  · exact h other hold
  · rw [List.mem_singleton.mp hnew, hconn]
    exact ⟨fun _ => rfl, by simp⟩

theorem served_step (s : SyncProtocol) (event : SyncEvent) (h : Served s) :
    Served (s.step event) := by
  have hmoved := s.moved event
  generalize s.step event = s' at hmoved ⊢
  cases hmoved with
  | idle => exact h
  | refused peer full => exact h.append ⟨peer, .refused, []⟩ rfl
  | took peer free => exact h.append ⟨peer, .waiting, []⟩ rfl
  | @admitted k now peer replies here allowed =>
    have hhere := h _ (List.mem_of_getElem? here)
    exact Served.put (s := { s with limiter := _ }) h ⟨by simp, hhere.2⟩
  | @limited k now peer replies here refused =>
    have hhere := h _ (List.mem_of_getElem? here)
    exact Served.put (s := { s with limiter := _ }) h ⟨by simp, hhere.2⟩
  | @silent k request sessions written peer replies here =>
    have hhere := h _ (List.mem_of_getElem? here)
    exact h.put ⟨by simp, hhere.2⟩
  | @replied k input sessions peer replies reply here serves =>
    have hhere := h _ (List.mem_of_getElem? here)
    refine h.put ⟨by simp, ?_⟩
    intro other hother
    rcases List.mem_append.mp hother with hold | hnew
    · exact hhere.2 other hold
    · rw [List.mem_singleton.mp hnew]
      exact ⟨sessions, input, serves⟩
  | @released event k conn here working asks =>
    have hhere := h _ (List.mem_of_getElem? here)
    exact h.put ⟨by simp, hhere.2⟩

theorem served_run (events : List SyncEvent) : Served (new.run events) := by
  refine runs.invariant served_step ?_ events
  intro conn hconn
  cases hconn

/-! ## Laws -/

/-- Eight handlers at most are at work. A connection more is turned away if and only if
they are, and gets nothing; on the others, what a peer gets are answers to what it asked. -/
theorem handlers_share_the_permits (events : List SyncEvent) :
    (new.run events).serving + (new.run events).busy = MAX_CONCURRENT_SERVING ∧
      (∀ peer, (new.run (events ++ [.accept peer])).connections =
        (new.run events).connections ++ [⟨peer,
          if (new.run events).busy = MAX_CONCURRENT_SERVING then .refused else .waiting, []⟩]) ∧
      ∀ conn ∈ (new.run events).connections, (conn.stage = .refused → conn.replies = []) ∧
        ∀ reply ∈ conn.replies, ∃ sessions input,
          iroh_drop.serve_op sessions input conn.peer = some reply := by
  have hpermits := permits_run events
  refine ⟨hpermits, ?_, served_run events⟩
  intro peer
  have hlast : new.run (events ++ [.accept peer]) = (new.run events).accept peer :=
    runs.run_concat new events (.accept peer)
  rw [hlast]
  unfold accept
  by_cases hfull : (new.run events).serving = 0
  · rw [if_pos hfull, if_pos (by omega)]
  · rw [if_neg hfull, if_neg (by omega)]

end SyncProtocol

end Laws

/-! ## One peer -/

namespace one_peer_asks

local instance : Crypto := Crypto.clear

def peer : EndpointId := SecretKey.public ⟨.fill 32 7⟩

def hello : Bytes := control_request OP_HELLO []

def no_drops : SessionRegistry := fun _ => none

/-- The peer connects. -/
def past : List SyncEvent := [.accept peer]

/-- It asks twice what this side can do. -/
def window : List SyncEvent :=
  [.accept_bi 0 1000, .serve_op 0 (some hello) no_drops true, .accept_bi 0 2000,
    .serve_op 0 (some hello) no_drops true]

def asked : List RateCall := [⟨peer, 1000⟩, ⟨peer, 2000⟩]

local instance : DecidableEq RateCall := fun a b =>
  decidable_of_iff (a.peer = b.peer ∧ a.now = b.now) (by cases a; cases b; simp)

theorem stays : (SyncProtocol.new.run past).limiter.Stays peer asked := by
  intro before call rest hsplit hmem
  have hfirst : peer ∈ ((SyncProtocol.new.run past).limiter.after [⟨peer, 1000⟩]).buckets := by
    decide +kernel
  have hboth : peer ∈ ((SyncProtocol.new.run past).limiter.after asked).buckets := by
    decide +kernel
  rcases before with _ | ⟨first, _ | ⟨second, before⟩⟩
  · obtain ⟨rfl, -⟩ := List.cons.inj hsplit
    exact hfirst
  · obtain ⟨rfl, hrest⟩ := List.cons.inj hsplit
    obtain ⟨rfl, -⟩ := List.cons.inj hrest
    exact hboth
  · have hlength := congrArg List.length hsplit
    simp [asked] at hlength

end one_peer_asks

end iroh_drop
