-- Subscriptions to extension frames, one atomic step at a time: a call of
-- `on_extension` opens the channel, subscribes, reads the retained log and
-- replays it, while messages are retained first and acted on later
-- (session.rs).
import IrohDrop.Uniqueness

open rust_std postcard

namespace iroh_drop

variable [Crypto]

/-! ## Frames on a channel -/

/-- The namespace of an extension frame, and the message that it is. -/
abbrev Item := FixedBytes 16 × DedupKey

def ExtensionFrame.item (self : ExtensionFrame) : Item := (self.namespace, self.author, self.id)

def VerifiedMessage.item (self : VerifiedMessage) : Option Item :=
  match self.body with
  | some (.Extension ext) => some (ext.namespace, self.key)
  | _ => none

/-- The extension frame that a retained frame is, for this session. -/
def frame_item (c : SessionConfig) (frame : Bytes) : Option Item :=
  match Session.decode_for_session c frame with
  | .ok verified => verified.item
  | .error _ => none

/-- The extension frames of a namespace among some retained frames. -/
def items_of (c : SessionConfig) («namespace» : FixedBytes 16) (frames : List Bytes) : List Item :=
  (frames.filterMap (frame_item c)).filter (fun item => decide (item.1 = «namespace»))

/-! ## Subscriptions -/

/-- Where a call of `on_extension` is: the channel is there, the receiver is on
it from a position on, frames of the log are still to be replayed. -/
inductive ListenStage where
  | opened
  | subscribed (start : Nat)
  | replaying (start : Nat) (rest : List Bytes)

/-- A call of `on_extension`, and the receiver that it returns. What the
receiver is owed is remembered for the laws: the frames of others that were
retained at the call, and those that came in later. -/
structure Listener where
  «namespace» : FixedBytes 16
  stage : ListenStage
  owed : List Item

namespace Listener

/-- The frames that the receiver has got of all that went to the channels. -/
def got (self : Listener) (delivered : List ExtensionFrame) : List ExtensionFrame :=
  let start := match self.stage with
    | .opened => delivered.length
    | .subscribed start => start
    | .replaying start _ => start
  (delivered.drop start).filter (fun frame => decide (frame.namespace = self.namespace))

/-- What the call has yet to replay. -/
def rest (self : Listener) : List Bytes :=
  match self.stage with
  | .replaying _ rest => rest
  | _ => []

/-- The call has returned. -/
def returned (self : Listener) : Prop := ∃ start, self.stage = .replaying start []

/-- A frame of another author came in. -/
def owe (self : Listener) (self_id : EndpointId) (item : Option Item) : Listener :=
  { self with owed := self.owed ++ (item.filter (fun item =>
      decide (item.1 = self.namespace ∧ item.2.1 ≠ self_id))).toList }

end Listener

/-! ## The machine -/

/-- A session with its subscriptions, and the messages that were retained and
are yet to be acted on. -/
structure Hub where
  session : Session
  pending : List (VerifiedMessage × EndpointId)
  listeners : List Listener

/-- One atomic step of a call of `on_extension`, of a message on its way in, or
a call of `send_extension`. -/
inductive HubStep where
  | open_channel («namespace» : FixedBytes 16)
  | subscribe (k : Nat)
  | snapshot (k : Nat)
  | replay (k : Nat)
  | take (content : Bytes) (delivered_from : EndpointId) (world : IntakeWorld)
  | act (j : Nat) (world : IntakeWorld)
  | send_extension («namespace» : FixedBytes 16) (local_kind : UInt32) (schema_version : UInt16)
      (payload : Bytes) (draw : Draw)

namespace Hub

/-- Change one listener. -/
def on_listener (self : Hub) (k : Nat) (f : Listener → Listener) : Hub :=
  match self.listeners.drop k with
  | l :: after => { self with listeners := self.listeners.take k ++ f l :: after }
  | [] => self

/-- The extension frames of the retained log. -/
def log_items (self : Hub) («namespace» : FixedBytes 16) : List Item :=
  items_of self.session.toSessionConfig «namespace» self.session.state.sync_log

def open_channel (self : Hub) («namespace» : FixedBytes 16) : Hub :=
  { self with
    session := { self.session with
      extension_sinks := self.session.extension_sinks.insert «namespace» () }
    listeners := self.listeners ++ [{
      «namespace», stage := .opened
      owed := (self.log_items «namespace»).filter
        (fun item => decide (item.2.1 ≠ self.session.self_id)) }] }

def subscribe (self : Hub) (k : Nat) : Hub :=
  self.on_listener k fun l => match l.stage with
    | .opened => { l with stage := .subscribed self.session.delivered.length }
    | _ => l

def snapshot (self : Hub) (k : Nat) : Hub :=
  self.on_listener k fun l => match l.stage with
    | .subscribed start => { l with stage := .replaying start self.session.state.sync_log }
    | _ => l

/-- One frame of the log goes to the channel, for every receiver on it. -/
def replay (self : Hub) (k : Nat) : Hub :=
  match self.listeners.drop k with
  | ⟨«namespace», .replaying start (frame :: rest), owed⟩ :: after =>
    { self with
      session := self.session.replay_extension «namespace» frame
      listeners := self.listeners.take k ++ ⟨«namespace», .replaying start rest, owed⟩ :: after }
  | _ => self

/-- The first half of `handle_message`, up to the retention. -/
def take (self : Hub) (content : Bytes) (delivered_from : EndpointId) (world : IntakeWorld) : Hub :=
  match Session.decode_for_session self.session.toSessionConfig content with
  | .error _ => { self with session := self.session.receive content delivered_from world }
  | .ok verified =>
    match self.session.take_token delivered_from world.draw.now with
    | (false, session) =>
      { self with session := session.emit (.ProtocolWarning (some delivered_from) .RateLimited) }
    | (true, session) =>
      match session.note_message verified delivered_from world.draw.now with
      | (false, session) => { self with session }
      | (true, session) =>
        { session := session.retain verified content
          pending := self.pending ++ [(verified, delivered_from)]
          listeners := self.listeners.map (fun l => l.owe self.session.self_id verified.item) }

/-- The second half, for one of the messages that were retained. -/
def act (self : Hub) (j : Nat) (world : IntakeWorld) : Hub :=
  match self.pending.drop j with
  | (verified, delivered_from) :: after =>
    { self with
      session := self.session.dispatch verified delivered_from world
      pending := self.pending.take j ++ after }
  | [] => self

def step (self : Hub) : HubStep → Hub
  | .open_channel «namespace» => self.open_channel «namespace»
  | .subscribe k => self.subscribe k
  | .snapshot k => self.snapshot k
  | .replay k => self.replay k
  | .take content delivered_from world => self.take content delivered_from world
  | .act j world => self.act j world
  | .send_extension «namespace» local_kind schema_version payload draw =>
    { self with session :=
        (self.session.send_extension «namespace» local_kind schema_version payload draw).2 }

def run (self : Hub) (steps : List HubStep) : Hub := runs.run step self steps

/-- A session that nobody listens to yet. -/
def quiet (session : Session) : Hub := { session, pending := [], listeners := [] }

end Hub

/-! ## Without interleaving -/

namespace Hub

variable (hub : Hub)

/-- A message that is acted on at once is received as the session receives it. -/
theorem take_act_session (content : Bytes) (delivered_from : EndpointId) (world : IntakeWorld) :
    ((hub.take content delivered_from world).act hub.pending.length world).session =
      hub.session.receive content delivered_from world := by
  have hnone : hub.pending.drop hub.pending.length = [] := List.drop_length
  unfold take
  rcases hread : Session.decode_for_session hub.session.toSessionConfig content with e | verified
  · simp only [act, hnone]
  · unfold Session.receive
    simp only [hread, Session.handle_message]
    rcases hub.session.take_token delivered_from world.draw.now with ⟨_ | _, s₁⟩
    · simp only [act, hnone]
    · simp only
      rcases s₁.note_message verified delivered_from world.draw.now with ⟨_ | _, s₂⟩
      · simp only [act, hnone]
      · simp only [act, List.drop_left]

/-- A call of the last listener replays what is left of its log. -/
theorem replay_all_session {before : List Listener} {«namespace» : FixedBytes 16} {start : Nat}
    {owed : List Item} (frames : List Bytes) (session : Session)
    (pending : List (VerifiedMessage × EndpointId)) :
    ((⟨session, pending, before ++ [⟨«namespace», .replaying start frames, owed⟩]⟩ : Hub).run
      (List.replicate frames.length (.replay before.length))).session =
      frames.foldl (Session.replay_extension «namespace») session := by
  induction frames generalizing session with
  | nil => rfl
  | cons frame frames ih =>
    have hstep : (⟨session, pending,
        before ++ [⟨«namespace», .replaying start (frame :: frames), owed⟩]⟩ : Hub).step
          (.replay before.length) =
        ⟨session.replay_extension «namespace» frame, pending,
          before ++ [⟨«namespace», .replaying start frames, owed⟩]⟩ := by
      simp [step, replay]
    rw [List.length_cons, List.replicate_succ]
    unfold run
    rw [runs.run_cons, hstep]
    exact ih _

/-- The four parts of a call, one after the other, are the call. -/
theorem on_extension_session («namespace» : FixedBytes 16) :
    (hub.run ([.open_channel «namespace», .subscribe hub.listeners.length,
      .snapshot hub.listeners.length] ++
      List.replicate hub.session.state.sync_log.length (.replay hub.listeners.length))).session =
      hub.session.on_extension «namespace» := by
  have hcalled : hub.run [.open_channel «namespace», .subscribe hub.listeners.length,
      .snapshot hub.listeners.length] =
      ⟨(hub.open_channel «namespace»).session, hub.pending, hub.listeners ++ [⟨«namespace»,
        .replaying hub.session.delivered.length hub.session.state.sync_log,
        (hub.log_items «namespace»).filter
          (fun item => decide (item.2.1 ≠ hub.session.self_id))⟩]⟩ := by
    simp [run, step, open_channel, subscribe, snapshot, on_listener]
  unfold run at hcalled ⊢
  rw [runs.run_append, hcalled]
  exact replay_all_session hub.session.state.sync_log _ hub.pending

end Hub

end iroh_drop
