-- A client that waits for the tasks that it started: `offer.publish` and
-- `offer.fetch`, the events of the daemon on their way to the client, and
-- `Client::wait_for` (service.rs, client.rs, `wait_task` of the agent, `send` and
-- `get` of the command line).
import IrohDrop.Channels
import IrohDrop.EventBus
import IrohDrop.Tasks

open rust_std

namespace iroh_drop

/-! ## Calls and waits -/

/-- How many events the channel of a client holds. -/
def CLIENT_CHANNEL : Nat := 1024

/-- Where a call that starts a task is, and the wait after it. -/
inductive ErrandStage where
  | requested
  /-- `spawn_task` has spawned a job. -/
  | served (k : Nat)
  /-- The reply is on its way. -/
  | replied
  | returned (reply : Value)
  /-- `wait_for` has read the channel of the client up to `next`. -/
  | waiting (task : String) (next : Nat)
  | finished (task : String) (env : Envelope)
  | timed_out

/-- A call that starts a task. `task`: the id that it got. -/
structure Errand where
  kind : WorkKind
  drop : String
  hash : Option BlobHash
  task : Option String
  stage : ErrandStage

namespace Errand

def is_served (self : Errand) : Bool :=
  match self.stage with
  | .served _ => true
  | _ => false

/-- The wait for a task is still to come, or goes on. -/
def awaits (self : Errand) : Option String :=
  match self.stage with
  | .served _ | .replied | .returned _ | .waiting _ _ => self.task
  | .requested | .finished _ _ | .timed_out => none

end Errand

/-- What comes out of the connection: a reply for its call, or an event. -/
inductive Delivery where
  | reply (c : Nat) (p : Value)
  | event (env : Envelope)

/-- What `spawn_task` returns. -/
def task_reply (task : String) : Value := .object [("task", .string task)]

/-- The id in a reply; one that is not there is empty. -/
def task_of_reply (reply : Value) : String := ((reply.get "task").bind Value.as_str).getD ""

/-- The event that a wait is for. -/
def ends (task : String) (env : Envelope) : Bool :=
  decide (env.e = "task.state") &&
    decide ((env.p.get "task").bind Value.as_str = some task) &&
    decide ((env.p.get "state").bind Value.as_str ≠ some "running")

/-- What a forwarder says when it has missed events. -/
def events_truncated (missed : Nat) : Envelope :=
  { seq := 0, e := "events.truncated", p := .object [("missed", .pos_int (UInt64.ofNat missed))] }

/-- The daemon and one of its clients, over a connection that stays up. `next`:
where the forwarder of the connection is in the channel of the bus. `events`:
all that the channel of the client has carried. -/
structure TaskWatch where
  board : TaskBoard
  bus : EventBus
  next : Nat
  pipe : List Delivery
  events : List Envelope
  errands : List Errand

inductive WatchStep where
  /-- A step of a task, which may be one of another client. -/
  | task (step : TaskStep)
  /-- Any other event of the daemon. -/
  | emit (e : String) (p : Value)
  | request (kind : WorkKind) (drop : String) (hash : Option BlobHash)
  | serve (c : Nat)
  | reply (c : Nat)
  | forward
  | read
  | wait (c : Nat)
  | receive (c : Nat)
  | time_out (c : Nat)

namespace TaskWatch

/-- `attach`: the forwarder of a new client subscribes. -/
def attach (board : TaskBoard) (bus : EventBus) : TaskWatch :=
  { board, bus, next := bus.sent.length, pipe := [], events := [], errands := [] }

def emit (self : TaskWatch) (e : String) (p : Value) : TaskWatch :=
  { self with bus := (self.bus.emit e p).2 }

/-- What the tasks tell goes out on the bus. -/
def task (self : TaskWatch) (step : TaskStep) : TaskWatch :=
  let board := self.board.step step
  (board.events.drop self.board.events.length).foldl
    (fun self event => self.emit "task.state" event.payload) { self with board }

/-! ## The daemon -/

def set_stage (self : TaskWatch) (c : Nat) (errand : Errand) (stage : ErrandStage) : TaskWatch :=
  { self with errands := self.errands.set c { errand with stage } }

def request (self : TaskWatch) (kind : WorkKind) (drop : String) (hash : Option BlobHash) :
    TaskWatch :=
  { self with
    errands := self.errands ++ [{ kind, drop, hash, task := none, stage := .requested }] }

/-- The requests of a connection are served one after the other. -/
def serve (self : TaskWatch) (c : Nat) (errand : Errand) : TaskWatch :=
  match errand.stage with
  | .requested =>
    if self.errands.any Errand.is_served then self
    else
      let task := some s!"t{self.board.next_task}"
      { self.set_stage c { errand with task } (.served self.board.jobs.length) with
        board := self.board.spawn errand.kind errand.drop errand.hash }
  | _ => self

/-- `spawn_task` returns when it has told that the task runs. -/
def reply (self : TaskWatch) (c : Nat) (errand : Errand) : TaskWatch :=
  match errand.stage, errand.task with
  | .served k, some task =>
    if self.board.jobs[k]?.any (·.spawning = .announced) then
      { self.set_stage c errand .replied with
        pipe := self.pipe ++ [.reply c (task_reply task)] }
    else self
  | _, _ => self

/-- The forwarder takes the next event, or says how many it has missed. -/
def forward (self : TaskWatch) : TaskWatch :=
  match broadcast_recv BUS_CHANNEL self.bus.sent false self.next with
  | (.Ok env, next) => { self with next, pipe := self.pipe ++ [.event env] }
  | (.Lagged missed, next) =>
    { self with next, pipe := self.pipe ++ [.event (events_truncated missed)] }
  | (.Closed, _) | (.Pending, _) => self

/-! ## The client -/

def at_errand (self : TaskWatch) (c : Nat) (f : Errand → TaskWatch) : TaskWatch :=
  match self.errands[c]? with
  | some errand => f errand
  | none => self

/-- The call returns. -/
def hand_over (self : TaskWatch) (c : Nat) (p : Value) (errand : Errand) : TaskWatch :=
  match errand.stage with
  | .replied => self.set_stage c errand (.returned p)
  | _ => self

/-- The reader gives the next reply to its call, and the next event to the
channel. -/
def read (self : TaskWatch) : TaskWatch :=
  match self.pipe with
  | [] => self
  | .event env :: pipe => { self with pipe, events := self.events ++ [env] }
  | .reply c p :: pipe =>
    let self := { self with pipe }
    self.at_errand c (self.hand_over c p)

/-- `wait_for` subscribes. -/
def wait (self : TaskWatch) (c : Nat) (errand : Errand) : TaskWatch :=
  match errand.stage with
  | .returned reply =>
    self.set_stage c errand (.waiting (task_of_reply reply) self.events.length)
  | _ => self

/-- One turn of the loop of `wait_for`, which passes over a gap. -/
def receive (self : TaskWatch) (c : Nat) (errand : Errand) : TaskWatch :=
  match errand.stage with
  | .waiting task next =>
    match broadcast_recv CLIENT_CHANNEL self.events false next with
    | (.Ok env, next) =>
      self.set_stage c errand (if ends task env then .finished task env else .waiting task next)
    | (.Lagged _, next) => self.set_stage c errand (.waiting task next)
    | (.Closed, _) | (.Pending, _) => self
  | _ => self

def time_out (self : TaskWatch) (c : Nat) (errand : Errand) : TaskWatch :=
  match errand.stage with
  | .waiting _ _ => self.set_stage c errand .timed_out
  | _ => self

/-! ## Runs -/

def step (self : TaskWatch) : WatchStep → TaskWatch
  | .task step => self.task step
  | .emit e p => if e = "task.state" then self else self.emit e p
  | .request kind drop hash => self.request kind drop hash
  | .serve c => self.at_errand c (self.serve c)
  | .reply c => self.at_errand c (self.reply c)
  | .forward => self.forward
  | .read => self.read
  | .wait c => self.at_errand c (self.wait c)
  | .receive c => self.at_errand c (self.receive c)
  | .time_out c => self.at_errand c (self.time_out c)

def run (self : TaskWatch) (steps : List WatchStep) : TaskWatch := runs.run step self steps

/-! ## What is promised -/

/-- The event that tells the end of a task. -/
def ended (self : TaskWatch) (task : String) : Option Envelope := self.bus.sent.find? (ends task)

end TaskWatch

/-- A step of the events on their way to a wait. -/
def WatchStep.delivers : WatchStep → Bool
  | .forward | .read | .receive _ => true
  | _ => false

namespace TaskWatch

/-- A wait is for the task of its call, returns nothing but the end of it, and
can return that as soon as it is told. -/
structure SeesEnd (s : TaskWatch) (c : Nat) (errand : Errand) : Prop where
  own : ∀ task next, errand.stage = .waiting task next → errand.task = some task
  right : ∀ task env, errand.stage = .finished task env →
    errand.task = some task ∧ s.ended task = some env
  seen : ∀ task next env, errand.stage = .waiting task next → s.ended task = some env →
    ∃ steps : List WatchStep, (∀ step ∈ steps, step.delivers = true) ∧
      ∃ errand', (s.run steps).errands[c]? = some errand' ∧ errand'.stage = .finished task env

/-- Every wait sees the end of its task. -/
def EndsAreSeen (s : TaskWatch) : Prop :=
  ∀ (c : Nat) errand, s.errands[c]? = some errand → s.SeesEnd c errand

/-- One more event on the bus pushes out no end of a task of this client that
its forwarder has not read. -/
def BusKeeps (s : TaskWatch) : Bool :=
  s.errands.all fun errand =>
    errand.awaits.all fun task => !forgets_first (ends task) BUS_CHANNEL s.bus.sent s.next

/-- One more event in the channel of the client pushes out no end of a task
that a wait has not read. -/
def ClientKeeps (s : TaskWatch) : Bool :=
  s.errands.all fun errand =>
    match errand.stage with
    | .waiting task next => !forgets_first (ends task) CLIENT_CHANNEL s.events next
    | _ => true

/-- No channel overflows over an unread end of a task, the wait begins before
the client has read that end, and the id of a task is new. -/
def Keeps (s : TaskWatch) : WatchStep → Prop
  | .task step => (s.board.step step).events.length = s.board.events.length ∨ s.BusKeeps
  | .emit e _ => e = "task.state" ∨ s.BusKeeps
  | .serve _ => (s.ended s!"t{s.board.next_task}").isNone
  | .read =>
    match s.pipe with
    | .event _ :: _ => s.ClientKeeps
    | _ => True
  | .wait c => s.errands[c]?.all fun errand =>
      match errand.stage with
      | .returned reply => (s.events.find? (ends (task_of_reply reply))).isNone
      | _ => true
  | _ => True

instance (s : TaskWatch) (step : WatchStep) : Decidable (s.Keeps step) := by
  unfold Keeps
  cases step with
  | read =>
    dsimp only
    split
    · infer_instance
    · infer_instance
  | _ => infer_instance

end TaskWatch

/-- A step of a task tells one thing at most. -/
theorem TaskBoard.events_step (s : TaskBoard) (step : TaskStep) :
    (s.step step).events = s.events ∨ ∃ event, (s.step step).events = s.events ++ [event] := by
  have hjob : ∀ (k : Nat) (f : TaskJob → TaskBoard),
      (∀ job, (f job).events = s.events ∨ ∃ event, (f job).events = s.events ++ [event]) →
      (s.at_job k f).events = s.events ∨ ∃ event, (s.at_job k f).events = s.events ++ [event] := by
    intro k f hf
    unfold TaskBoard.at_job
    split
    · exact hf _
    · exact .inl rfl
  cases step with
  | spawn kind drop hash => exact .inl rfl
  | insert k =>
    refine hjob k _ fun job => .inl ?_
    unfold TaskBoard.insert
    split <;> rfl
  | announce_started k =>
    refine hjob k _ fun job => ?_
    unfold TaskBoard.announce_started
    split
    · exact .inr ⟨_, rfl⟩
    · exact .inl rfl
  | poll k =>
    refine hjob k _ fun job => .inl ?_
    unfold TaskBoard.poll
    split <;> rfl
  | pend k =>
    refine hjob k _ fun job => .inl ?_
    unfold TaskBoard.pend
    split <;> rfl
  | complete k result =>
    refine hjob k _ fun job => .inl ?_
    unfold TaskBoard.complete
    split <;> rfl
  | record k =>
    refine hjob k _ fun job => .inl ?_
    unfold TaskBoard.record
    dsimp only
    split
    · split <;> rfl
    · rfl
  | announce_finished k =>
    refine hjob k _ fun job => ?_
    unfold TaskBoard.announce_finished
    split
    · exact .inr ⟨_, rfl⟩
    · exact .inl rfl
  | cancel id =>
    refine .inl ?_
    change (s.task_cancel id).events = s.events
    unfold TaskBoard.task_cancel
    split
    · rfl
    · dsimp only
      split <;> rfl
  | announce_cancelled j =>
    change (s.announce_cancelled j).events = s.events ∨
      ∃ event, (s.announce_cancelled j).events = s.events ++ [event]
    unfold TaskBoard.announce_cancelled
    split
    · exact .inr ⟨_, rfl⟩
    · exact .inl rfl

/-! ## The events on their way -/

def Delivery.env : Delivery → Option Envelope
  | .event env => some env
  | .reply _ _ => none

@[simp] theorem Delivery.env_event (env : Envelope) : (Delivery.event env).env = some env := rfl

@[simp] theorem Delivery.env_reply (c : Nat) (p : Value) : (Delivery.reply c p).env = none := rfl

theorem ends_truncated (task : String) (missed : Nat) :
    ends task (events_truncated missed) = false := by
  simp [ends, events_truncated]

theorem task_of_task_reply (task : String) : task_of_reply (task_reply task) = task := rfl

namespace TaskWatch

/-- The events that the client has or that are on their way to it. -/
def arrived (self : TaskWatch) : List Envelope := self.events ++ self.pipe.filterMap Delivery.env

/-- What the forwarder took or lost of the end of a task has arrived. -/
def Flows (s : TaskWatch) (task : String) : Prop :=
  s.arrived.find? (ends task) =
    (s.bus.sent.take (still_from BUS_CHANNEL s.bus.sent s.next)).find? (ends task)

/-- What is known of a call at its stage. -/
inductive Holds (s : TaskWatch) : Errand → Prop
  | requested {errand : Errand} (hstage : errand.stage = .requested)
      (htask : errand.task = none) : Holds s errand
  | running {errand : Errand} {task : String} (htask : errand.task = some task)
      (hstage : (∃ k, errand.stage = .served k) ∨ errand.stage = .replied ∨
        errand.stage = .returned (task_reply task))
      (hflows : s.Flows task) : Holds s errand
  | waiting {errand : Errand} {task : String} {next : Nat} (htask : errand.task = some task)
      (hstage : errand.stage = .waiting task next) (hflows : s.Flows task)
      (hplace : next ≤ s.events.length)
      (hunread : (s.events.take (still_from CLIENT_CHANNEL s.events next)).find? (ends task) = none) :
      Holds s errand
  | finished {errand : Errand} {task : String} {env : Envelope} (htask : errand.task = some task)
      (hstage : errand.stage = .finished task env) (hended : s.ended task = some env) : Holds s errand
  | timed_out {errand : Errand} (hstage : errand.stage = .timed_out) : Holds s errand

theorem Holds.of_waiting {s : TaskWatch} {errand : Errand} {task : String} {next : Nat}
    (h : s.Holds errand) (hstage : errand.stage = .waiting task next) :
    errand.task = some task ∧ s.Flows task ∧ next ≤ s.events.length ∧
      (s.events.take (still_from CLIENT_CHANNEL s.events next)).find? (ends task) = none := by
  cases h with
  | requested hstage' => exact nomatch hstage.symm.trans hstage'
  | running _ hstage' =>
    rw [hstage] at hstage'
    rcases hstage' with ⟨k, hk⟩ | hk | hk <;> cases hk
  | waiting htask hstage' hflows hnext hunread =>
    obtain ⟨rfl, rfl⟩ := ErrandStage.waiting.inj (hstage.symm.trans hstage')
    exact ⟨htask, hflows, hnext, hunread⟩
  | finished _ hstage' => exact nomatch hstage.symm.trans hstage'
  | timed_out hstage' => exact nomatch hstage.symm.trans hstage'

theorem Holds.of_finished {s : TaskWatch} {errand : Errand} {task : String} {env : Envelope}
    (h : s.Holds errand) (hstage : errand.stage = .finished task env) :
    errand.task = some task ∧ s.ended task = some env := by
  cases h with
  | requested hstage' => exact nomatch hstage.symm.trans hstage'
  | running _ hstage' =>
    rw [hstage] at hstage'
    rcases hstage' with ⟨k, hk⟩ | hk | hk <;> cases hk
  | waiting _ hstage' => exact nomatch hstage.symm.trans hstage'
  | finished htask hstage' hended =>
    obtain ⟨rfl, rfl⟩ := ErrandStage.finished.inj (hstage.symm.trans hstage')
    exact ⟨htask, hended⟩
  | timed_out hstage' => exact nomatch hstage.symm.trans hstage'

structure Kept (s : TaskWatch) : Prop where
  place : s.next ≤ s.bus.sent.length
  known : ∀ env ∈ s.arrived, ∀ task, ends task env = true → env ∈ s.bus.sent
  replies : ∀ c p, Delivery.reply c p ∈ s.pipe →
    ∃ errand task, s.errands[c]? = some errand ∧ errand.task = some task ∧ p = task_reply task
  holds : ∀ errand ∈ s.errands, s.Holds errand

theorem kept_attach (board : TaskBoard) (bus : EventBus) : (attach board bus).Kept :=
  ⟨Nat.le_refl _, fun _ h => (nomatch h), fun _ _ h => (nomatch h), fun _ h => (nomatch h)⟩

variable {s : TaskWatch} {errand : Errand}

/-! ## The bus -/

theorem ended_emit {task : String} {env : Envelope} (h : s.ended task = some env) (e : String)
    (p : Value) : (s.emit e p).ended task = some env := by
  change (s.bus.sent ++ [_]).find? (ends task) = some env
  rw [List.find?_append, show s.bus.sent.find? (ends task) = some env from h, Option.some_or]

theorem Flows.emit {task : String} (h : s.Flows task) (hplace : s.next ≤ s.bus.sent.length)
    (hkeeps : forgets_first (ends task) BUS_CHANNEL s.bus.sent s.next = false) (e : String)
    (p : Value) : (s.emit e p).Flows task :=
  h.trans (find?_sent hplace (by decide) hkeeps _).symm

/-- An event goes out, and pushes out no unread end of a task. -/
theorem Holds.emit (h : s.Holds errand) (hplace : s.next ≤ s.bus.sent.length)
    (hkeeps : ∀ task, errand.awaits = some task →
      forgets_first (ends task) BUS_CHANNEL s.bus.sent s.next = false) (e : String) (p : Value) :
    (s.emit e p).Holds errand := by
  cases h with
  | requested hstage htask => exact .requested hstage htask
  | running htask hstage hflows =>
    refine .running htask hstage (hflows.emit hplace (hkeeps _ ?_) e p)
    unfold Errand.awaits
    rcases hstage with ⟨k, hstage⟩ | hstage | hstage
    · rw [hstage, htask]
    · rw [hstage, htask]
    · rw [hstage, htask]
  | waiting htask hstage hflows hnext hunread =>
    refine .waiting htask hstage (hflows.emit hplace (hkeeps _ ?_) e p) hnext hunread
    rw [Errand.awaits, hstage, htask]
  | finished htask hstage hended => exact .finished htask hstage (ended_emit hended e p)
  | timed_out hstage => exact .timed_out hstage

theorem Kept.emit (h : s.Kept) (hkeeps : s.BusKeeps = true) (e : String) (p : Value) :
    (s.emit e p).Kept := by
  constructor
  · change s.next ≤ (s.bus.sent ++ [_]).length
    rw [List.length_append]
    exact Nat.le_add_right_of_le h.place
  · exact fun env henv task hends => List.mem_append_left _ (h.known env henv task hends)
  · exact h.replies
  · intro errand hmem
    refine (h.holds errand hmem).emit h.place (fun task hawaits => ?_) e p
    have hall := List.all_eq_true.mp hkeeps errand hmem
    rw [hawaits] at hall
    simpa using hall

/-- A call or the table of the tasks moves on, the events stay where they are. -/
theorem Holds.same_flow {s' : TaskWatch} (h : s.Holds errand) (hbus : s'.bus = s.bus)
    (hnext : s'.next = s.next) (harrived : s'.arrived = s.arrived) (hevents : s'.events = s.events) :
    s'.Holds errand := by
  have hflow : ∀ {task}, s.Flows task → s'.Flows task := by
    intro task hflows
    unfold Flows
    rw [hbus, hnext, harrived]
    exact hflows
  cases h with
  | requested hstage htask => exact .requested hstage htask
  | running htask hstage hflows => exact .running htask hstage (hflow hflows)
  | waiting htask hstage hflows hnext' hunread =>
    rw [← hevents] at hnext' hunread
    exact .waiting htask hstage (hflow hflows) hnext' hunread
  | finished htask hstage hended =>
    refine .finished htask hstage ?_
    unfold ended
    rw [hbus]
    exact hended
  | timed_out hstage => exact .timed_out hstage

theorem Kept.task (h : s.Kept) {step : TaskStep} (hkeeps : s.Keeps (.task step)) :
    (s.task step).Kept := by
  have hboard : Kept { s with board := s.board.step step } :=
    ⟨h.place, h.known, h.replies, fun errand hmem => (h.holds errand hmem).same_flow rfl rfl rfl rfl⟩
  unfold TaskWatch.task
  rcases s.board.events_step step with hsame | ⟨event, hevent⟩
  · dsimp only
    rw [hsame, List.drop_length]
    exact hboard
  · dsimp only
    rw [hevent, List.drop_left]
    refine hboard.emit ?_ _ _
    rcases hkeeps with hlength | hkeeps
    · rw [hevent, List.length_append, List.length_singleton] at hlength
      omega
    · exact hkeeps

/-! ## A step of a call -/

/-- One call moves on. -/
theorem Kept.set {c : Nat} (h : s.Kept) (hc : s.errands[c]? = some errand) (errand' : Errand)
    (htask : errand.task = none ∨ errand'.task = errand.task) (hholds : s.Holds errand') :
    Kept { s with errands := s.errands.set c errand' } := by
  constructor
  · exact h.place
  · exact h.known
  · intro d p hmem
    obtain ⟨other, task, hd, hother, rfl⟩ := h.replies d p hmem
    by_cases heq : c = d
    · subst heq
      rw [hc] at hd
      obtain rfl := Option.some.inj hd
      rcases htask with hnone | hsame
      · rw [hnone] at hother
        cases hother
      · refine ⟨errand', task, ?_, hsame.trans hother, rfl⟩
        exact List.getElem?_set_self (List.getElem?_eq_some_iff.mp hc).1
    · exact ⟨other, task, (List.getElem?_set_ne heq).trans hd, hother, rfl⟩
  · intro other hmem
    rcases List.mem_or_eq_of_mem_set hmem with hmem | rfl
    · exact (h.holds other hmem).same_flow rfl rfl rfl rfl
    · exact hholds.same_flow rfl rfl rfl rfl

theorem Kept.request (h : s.Kept) (kind : WorkKind) (drop : String) (hash : Option BlobHash) :
    (s.request kind drop hash).Kept := by
  constructor
  · exact h.place
  · exact h.known
  · intro c p hmem
    obtain ⟨errand, task, hc, htask, rfl⟩ := h.replies c p hmem
    exact ⟨errand, task,
      (List.getElem?_append_left (List.getElem?_eq_some_iff.mp hc).1).trans hc, htask, rfl⟩
  · intro errand hmem
    rcases List.mem_append.mp hmem with hmem | hmem
    · exact (h.holds errand hmem).same_flow rfl rfl rfl rfl
    · obtain rfl := List.mem_singleton.mp hmem
      exact .requested rfl rfl

/-- Of a task that nobody has told the end of, no end is on its way. -/
theorem Kept.flows_of_new (h : s.Kept) {task : String} (hnew : s.ended task = none) :
    s.Flows task := by
  unfold ended at hnew
  rw [List.find?_eq_none] at hnew
  unfold Flows
  rw [List.find?_eq_none.mpr fun env henv hends => hnew env (h.known env henv task hends) hends,
    List.find?_eq_none.mpr fun env henv => hnew env (List.mem_of_mem_take henv)]

theorem Kept.serve (h : s.Kept) {c : Nat} (hc : s.errands[c]? = some errand)
    (hkeeps : s.Keeps (.serve c)) : (s.serve c errand).Kept := by
  unfold TaskWatch.serve
  split
  · rename_i hstage
    split
    · exact h
    · have htask : errand.task = none := by
        cases h.holds errand (List.mem_of_getElem? hc) with
        | requested _ htask => exact htask
        | running _ hstage' _ =>
          rw [hstage] at hstage'
          rcases hstage' with ⟨k, hk⟩ | hk | hk <;> cases hk
        | waiting _ hstage' => exact nomatch hstage.symm.trans hstage'
        | finished _ hstage' => exact nomatch hstage.symm.trans hstage'
        | timed_out hstage' => exact nomatch hstage.symm.trans hstage'
      have hflows := h.flows_of_new (Option.isNone_iff_eq_none.mp hkeeps)
      have hset := h.set hc { errand with
        task := some s!"t{s.board.next_task}", stage := .served s.board.jobs.length } (.inl htask)
        (.running rfl (.inl ⟨_, rfl⟩) hflows)
      exact ⟨hset.place, hset.known, hset.replies, fun errand hmem =>
        (hset.holds errand hmem).same_flow rfl rfl rfl rfl⟩
  · exact h

theorem Kept.reply (h : s.Kept) {c : Nat} (hc : s.errands[c]? = some errand) :
    (s.reply c errand).Kept := by
  unfold TaskWatch.reply
  split
  · rename_i k task hstage htask
    split
    · have hflows : s.Flows task := by
        cases h.holds errand (List.mem_of_getElem? hc) with
        | requested hstage' => exact nomatch hstage.symm.trans hstage'
        | running htask' _ hflows =>
          obtain rfl := Option.some.inj (htask.symm.trans htask')
          exact hflows
        | waiting _ hstage' => exact nomatch hstage.symm.trans hstage'
        | finished _ hstage' => exact nomatch hstage.symm.trans hstage'
        | timed_out hstage' => exact nomatch hstage.symm.trans hstage'
      have hset := h.set hc { errand with stage := .replied } (.inr rfl)
        (.running htask (.inr (.inl rfl)) hflows)
      have harrived : arrived { s.set_stage c errand .replied with
          pipe := s.pipe ++ [.reply c (task_reply task)] } = s.arrived := by
        simp [arrived, set_stage, Delivery.env]
      refine ⟨hset.place, ?_, fun d p hmem => ?_, fun errand hmem =>
        (hset.holds errand hmem).same_flow rfl rfl harrived rfl⟩
      · rw [harrived]
        exact hset.known
      · rcases List.mem_append.mp hmem with hmem | hmem
        · exact hset.replies d p hmem
        · obtain ⟨rfl, rfl⟩ := Delivery.reply.inj (List.mem_singleton.mp hmem)
          exact ⟨{ errand with stage := .replied }, task,
            List.getElem?_set_self (List.getElem?_eq_some_iff.mp hc).1, htask, rfl⟩
    · exact h
  · exact h

/-! ## The forwarder -/

/-- What the forwarder does: nothing, or it takes an event or passes over a gap. -/
theorem forward_cases (hplace : s.next ≤ s.bus.sent.length) :
    (∃ env next, s.forward = { s with next, pipe := s.pipe ++ [.event env] } ∧
      s.next < next ∧ next ≤ s.bus.sent.length ∧
      (∀ task, ends task env = true → env ∈ s.bus.sent) ∧
      ∀ task, (s.bus.sent.take (still_from BUS_CHANNEL s.bus.sent next)).find? (ends task) =
        ((s.bus.sent.take (still_from BUS_CHANNEL s.bus.sent s.next)).find? (ends task)).or
          ([env].find? (ends task))) ∨
    (s.forward = s ∧ s.next = s.bus.sent.length) := by
  unfold forward
  rcases broadcast_recv_cases BUS_CHANNEL hplace with
    ⟨missed, hrecv, hlt⟩ | ⟨env, hrecv, hvalue, hfrom⟩ | ⟨hrecv, hend⟩
  · rw [hrecv]
    refine .inl ⟨_, _, rfl, hlt, still_from_le _ hplace, fun task hends => ?_, fun task => ?_⟩
    · rw [ends_truncated] at hends
      cases hends
    · have hidem : still_from BUS_CHANNEL s.bus.sent (still_from BUS_CHANNEL s.bus.sent s.next) =
          still_from BUS_CHANNEL s.bus.sent s.next := by
        unfold still_from
        omega
      rw [hidem, List.find?_cons_of_neg (by rw [ends_truncated]; exact nofun), List.find?_nil,
        Option.or_none]
  · rw [hrecv]
    have hlt := (List.getElem?_eq_some_iff.mp hvalue).1
    have hnext : still_from BUS_CHANNEL s.bus.sent (s.next + 1) = s.next + 1 := by
      unfold still_from at hfrom ⊢
      omega
    refine .inl ⟨env, s.next + 1, rfl, Nat.lt_succ_self _, hlt,
      fun _ _ => List.mem_of_getElem? hvalue, fun task => ?_⟩
    rw [hnext, hfrom]
    exact find?_take_read hvalue
  · rw [hrecv]
    exact .inr ⟨rfl, hend⟩

theorem Holds.forward (h : s.Holds errand) (hplace : s.next ≤ s.bus.sent.length) :
    s.forward.Holds errand := by
  rcases forward_cases hplace with ⟨env, next, hforward, -, -, -, hfind⟩ | ⟨hsame, -⟩
  · rw [hforward]
    have hflow : ∀ {task}, s.Flows task →
        Flows { s with next, pipe := s.pipe ++ [.event env] } task := by
      intro task hflows
      refine Eq.trans ?_ (hfind task).symm
      rw [← hflows, ← List.find?_append]
      simp [arrived, Delivery.env]
    cases h with
    | requested hstage htask => exact .requested hstage htask
    | running htask hstage hflows => exact .running htask hstage (hflow hflows)
    | waiting htask hstage hflows hnext hunread =>
      exact .waiting htask hstage (hflow hflows) hnext hunread
    | finished htask hstage hended => exact .finished htask hstage hended
    | timed_out hstage => exact .timed_out hstage
  · rw [hsame]
    exact h

theorem Kept.forward (h : s.Kept) : s.forward.Kept := by
  have hholds := fun errand hmem => (h.holds errand hmem).forward h.place
  rcases forward_cases h.place with ⟨env, next, hforward, -, hle, hknown, -⟩ | ⟨hsame, -⟩
  · rw [hforward] at hholds ⊢
    refine ⟨hle, fun value hmem task hends => ?_, fun c p hmem => ?_, hholds⟩
    · have harrived : arrived { s with next, pipe := s.pipe ++ [.event env] } =
          s.arrived ++ [env] := by simp [arrived, Delivery.env]
      rw [harrived, List.mem_append, List.mem_singleton] at hmem
      rcases hmem with hmem | rfl
      · exact h.known value hmem task hends
      · exact hknown task hends
    · rcases List.mem_append.mp hmem with hmem | hmem
      · exact h.replies c p hmem
      · cases List.mem_singleton.mp hmem
  · rw [hsame]
    exact h

/-! ## The reader -/

theorem arrived_read_event {env : Envelope} {pipe : List Delivery}
    (hpipe : s.pipe = .event env :: pipe) :
    arrived { s with pipe, events := s.events ++ [env] } = s.arrived := by
  simp [arrived, hpipe]

theorem arrived_read_reply {c : Nat} {p : Value} {pipe : List Delivery}
    (hpipe : s.pipe = .reply c p :: pipe) : arrived { s with pipe } = s.arrived := by
  simp only [arrived, hpipe, List.filterMap_cons_none (Delivery.env_reply c p)]

theorem Holds.read_event (h : s.Holds errand) {env : Envelope} {pipe : List Delivery}
    (hpipe : s.pipe = .event env :: pipe)
    (hkeeps : ∀ task next, errand.stage = .waiting task next →
      forgets_first (ends task) CLIENT_CHANNEL s.events next = false) :
    Holds { s with pipe, events := s.events ++ [env] } errand := by
  have hflow : ∀ {task}, s.Flows task →
      Flows { s with pipe, events := s.events ++ [env] } task := by
    intro task hflows
    unfold Flows
    rw [arrived_read_event hpipe]
    exact hflows
  cases h with
  | requested hstage htask => exact .requested hstage htask
  | running htask hstage hflows => exact .running htask hstage (hflow hflows)
  | waiting htask hstage hflows hnext hunread =>
    refine .waiting htask hstage (hflow hflows) ?_ ?_
    · change _ ≤ (s.events ++ [env]).length
      rw [List.length_append]
      exact Nat.le_add_right_of_le hnext
    · exact (find?_sent hnext (by decide) (hkeeps _ _ hstage) env).trans hunread
  | finished htask hstage hended => exact .finished htask hstage hended
  | timed_out hstage => exact .timed_out hstage

theorem Holds.read_reply (h : s.Holds errand) {c : Nat} {p : Value} {pipe : List Delivery}
    (hpipe : s.pipe = .reply c p :: pipe) : Holds { s with pipe } errand :=
  h.same_flow rfl rfl (arrived_read_reply hpipe) rfl

theorem keeps_of_clientKeeps (h : s.ClientKeeps = true) (hmem : errand ∈ s.errands) :
    ∀ task next, errand.stage = .waiting task next →
      forgets_first (ends task) CLIENT_CHANNEL s.events next = false := by
  intro task next hstage
  have hall := List.all_eq_true.mp h errand hmem
  rw [hstage] at hall
  simpa using hall

theorem Kept.hand_over (h : s.Kept) {c : Nat} {task : String} (hc : s.errands[c]? = some errand)
    (htask : errand.task = some task) : (s.hand_over c (task_reply task) errand).Kept := by
  unfold TaskWatch.hand_over
  split
  · rename_i hstage
    refine h.set hc _ (.inr rfl) ?_
    cases h.holds errand (List.mem_of_getElem? hc) with
    | requested hstage' => exact nomatch hstage.symm.trans hstage'
    | running htask' _ hflows =>
      obtain rfl := Option.some.inj (htask.symm.trans htask')
      exact .running htask (.inr (.inr rfl)) hflows
    | waiting _ hstage' => exact nomatch hstage.symm.trans hstage'
    | finished _ hstage' => exact nomatch hstage.symm.trans hstage'
    | timed_out hstage' => exact nomatch hstage.symm.trans hstage'
  · exact h

theorem Kept.read (h : s.Kept) (hkeeps : s.Keeps .read) : s.read.Kept := by
  have hclient : match s.pipe with
    | .event _ :: _ => s.ClientKeeps = true
    | _ => True := hkeeps
  unfold TaskWatch.read
  split
  · exact h
  · rename_i env pipe hpipe
    rw [hpipe] at hclient
    refine ⟨h.place, ?_, fun c p hmem => ?_, fun errand hmem => ?_⟩
    · rw [arrived_read_event hpipe]
      exact h.known
    · exact h.replies c p (hpipe ▸ List.mem_cons_of_mem _ hmem)
    · exact (h.holds errand hmem).read_event hpipe (keeps_of_clientKeeps hclient hmem)
  · rename_i c p pipe hpipe
    have hrest : Kept { s with pipe } := by
      refine ⟨h.place, ?_, fun d q hmem => ?_, fun errand hmem =>
        (h.holds errand hmem).read_reply hpipe⟩
      · rw [arrived_read_reply hpipe]
        exact h.known
      · exact h.replies d q (hpipe ▸ List.mem_cons_of_mem _ hmem)
    obtain ⟨errand, task, hc, htask, rfl⟩ := h.replies c p (hpipe ▸ List.mem_cons_self)
    simp only [at_errand, hc]
    exact hrest.hand_over hc htask

/-! ## The wait -/

theorem Kept.wait (h : s.Kept) {c : Nat} (hc : s.errands[c]? = some errand)
    (hkeeps : s.Keeps (.wait c)) : (s.wait c errand).Kept := by
  have hunread : s.errands[c]?.all (fun errand =>
      match errand.stage with
      | .returned reply => (s.events.find? (ends (task_of_reply reply))).isNone
      | _ => true) = true := hkeeps
  rw [hc] at hunread
  unfold TaskWatch.wait
  split
  · rename_i reply hstage
    refine h.set hc _ (.inr rfl) ?_
    cases h.holds errand (List.mem_of_getElem? hc) with
    | requested hstage' => exact nomatch hstage.symm.trans hstage'
    | running htask hstage' hflows =>
      rename_i task
      obtain rfl : reply = task_reply task := by
        rw [hstage] at hstage'
        rcases hstage' with ⟨k, hk⟩ | hk | hk
        · cases hk
        · cases hk
        · exact ErrandStage.returned.inj hk
      rw [task_of_task_reply]
      refine .waiting htask rfl hflows (Nat.le_refl _) ?_
      simp only [Option.all_some, hstage, task_of_task_reply, Option.isNone_iff_eq_none] at hunread
      rw [List.take_of_length_le (by unfold still_from; omega)]
      exact hunread
    | waiting _ hstage' => exact nomatch hstage.symm.trans hstage'
    | finished _ hstage' => exact nomatch hstage.symm.trans hstage'
    | timed_out hstage' => exact nomatch hstage.symm.trans hstage'
  · exact h

/-- The end of a task that the client has is the one that was told. -/
theorem Flows.ended {task : String} {env : Envelope} (h : s.Flows task)
    (hfound : s.events.find? (ends task) = some env) : s.ended task = some env := by
  have harrived : s.arrived.find? (ends task) = some env := by
    rw [arrived, List.find?_append, hfound, Option.some_or]
  rw [h] at harrived
  unfold TaskWatch.ended
  rw [← List.take_append_drop (still_from BUS_CHANNEL s.bus.sent s.next) s.bus.sent,
    List.find?_append, harrived, Option.some_or]

/-- A wait takes its event, and returns the end of its task or waits on. -/
theorem receive_cases {c next : Nat} {task : String} (h : s.Holds errand)
    (hstage : errand.stage = .waiting task next) :
    (s.receive c errand = s ∧ next = s.events.length) ∨
    ∃ stage, s.receive c errand = s.set_stage c errand stage ∧
      s.Holds { errand with stage } ∧
      ((∃ env, stage = .finished task env) ∨
        ∃ next', stage = .waiting task next' ∧ next < next' ∧ next' ≤ s.events.length) := by
  obtain ⟨htask, hflows, hplace, hunread⟩ := h.of_waiting hstage
  unfold receive
  rw [hstage]
  dsimp only
  rcases broadcast_recv_cases CLIENT_CHANNEL hplace with
    ⟨missed, hrecv, hlt⟩ | ⟨env, hrecv, hvalue, hfrom⟩ | ⟨hrecv, hend⟩
  · rw [hrecv]
    have hle := still_from_le CLIENT_CHANNEL hplace
    refine .inr ⟨_, rfl, .waiting htask rfl hflows hle ?_, .inr ⟨_, rfl, hlt, hle⟩⟩
    have hidem : still_from CLIENT_CHANNEL s.events (still_from CLIENT_CHANNEL s.events next) =
        still_from CLIENT_CHANNEL s.events next := by
      unfold still_from
      omega
    rw [hidem]
    exact hunread
  · rw [hrecv]
    have hlt := (List.getElem?_eq_some_iff.mp hvalue).1
    have hread := find?_take_read (p := ends task) hvalue
    rw [hfrom] at hunread
    rw [hunread, Option.none_or] at hread
    dsimp only
    by_cases hends : ends task env = true
    · rw [if_pos hends]
      rw [List.find?_cons_of_pos hends] at hread
      refine .inr ⟨_, rfl, .finished htask rfl (hflows.ended ?_), .inl ⟨env, rfl⟩⟩
      rw [← List.take_append_drop (next + 1) s.events, List.find?_append, hread, Option.some_or]
    · rw [if_neg hends]
      rw [List.find?_cons_of_neg hends, List.find?_nil] at hread
      refine .inr ⟨_, rfl, .waiting htask rfl hflows hlt ?_,
        .inr ⟨next + 1, rfl, Nat.lt_succ_self _, hlt⟩⟩
      have hnext : still_from CLIENT_CHANNEL s.events (next + 1) = next + 1 := by
        unfold still_from at hfrom ⊢
        omega
      rw [hnext]
      exact hread
  · rw [hrecv]
    exact .inl ⟨rfl, hend⟩

theorem Kept.receive (h : s.Kept) {c : Nat} (hc : s.errands[c]? = some errand) :
    (s.receive c errand).Kept := by
  rcases hstage : errand.stage with _ | _ | _ | _ | ⟨task, next⟩ | _ | _
  case waiting =>
    rcases receive_cases (c := c) (h.holds errand (List.mem_of_getElem? hc)) hstage with
      ⟨hsame, -⟩ | ⟨stage, hstep, hholds, -⟩
    · rw [hsame]
      exact h
    · rw [hstep]
      exact h.set hc _ (.inr rfl) hholds
  all_goals
    unfold TaskWatch.receive
    rw [hstage]
    exact h

theorem Kept.time_out (h : s.Kept) {c : Nat} (hc : s.errands[c]? = some errand) :
    (s.time_out c errand).Kept := by
  unfold TaskWatch.time_out
  split
  · exact h.set hc _ (.inr rfl) (.timed_out rfl)
  · exact h

/-! ## Runs -/

theorem Kept.of_errand (h : s.Kept) {c : Nat} {f : Errand → TaskWatch}
    (hf : ∀ errand, s.errands[c]? = some errand → (f errand).Kept) : (s.at_errand c f).Kept := by
  unfold at_errand
  split
  · exact hf _ ‹_›
  · exact h

theorem Kept.step (h : s.Kept) (step : WatchStep) (hkeeps : s.Keeps step) : (s.step step).Kept := by
  cases step with
  | task step => exact h.task hkeeps
  | emit e p =>
    change (if e = "task.state" then s else s.emit e p).Kept
    by_cases he : e = "task.state"
    · rw [if_pos he]
      exact h
    · rw [if_neg he]
      exact h.emit (hkeeps.resolve_left he) e p
  | request kind drop hash => exact h.request kind drop hash
  | serve c => exact h.of_errand fun errand hc => h.serve hc hkeeps
  | reply c => exact h.of_errand fun errand hc => h.reply hc
  | forward => exact h.forward
  | read => exact h.read hkeeps
  | wait c => exact h.of_errand fun errand hc => h.wait hc hkeeps
  | receive c => exact h.of_errand fun errand hc => h.receive hc
  | time_out c => exact h.of_errand fun errand hc => h.time_out hc

/-- What is between the bus and a wait: each event is taken, read and received. -/
def way (s : TaskWatch) (next : Nat) : Nat :=
  3 * (s.bus.sent.length - s.next) + 2 * s.pipe.length + (s.events.length - next)

/-- A reply concerns no call but one that waits for it. -/
theorem read_reply {d : Nat} {p : Value} {pipe : List Delivery} (hpipe : s.pipe = .reply d p :: pipe) :
    ∃ errands, s.step .read = { s with pipe, errands } ∧
      ∀ (c : Nat) errand, s.errands[c]? = some errand → errand.stage ≠ .replied →
        errands[c]? = some errand := by
  have hread : s.step .read = { s with pipe }.at_errand d ({ s with pipe }.hand_over d p) := by
    change s.read = _
    rw [read, hpipe]
  rw [hread]
  unfold at_errand
  split
  · rename_i other hd
    unfold hand_over
    split
    · rename_i hreplied
      refine ⟨_, rfl, fun c errand hc hstage => ?_⟩
      have hne : d ≠ c := by
        rintro rfl
        rw [show s.errands[d]? = some other from hd] at hc
        exact hstage (Option.some.inj hc ▸ hreplied)
      exact (List.getElem?_set_ne hne).trans hc
    · exact ⟨s.errands, rfl, fun _ _ hc _ => hc⟩
  · exact ⟨s.errands, rfl, fun _ _ hc _ => hc⟩

theorem step_receive {c : Nat} (hc : s.errands[c]? = some errand) :
    s.step (.receive c) = s.receive c errand := by
  change s.at_errand c (s.receive c) = _
  rw [at_errand, hc]

theorem forgets_nothing {α : Type} {p : α → Bool} {capacity : Nat} {values : List α} {next : Nat}
    (h : values.length < next + capacity) : forgets_first p capacity values next = false := by
  rw [forgets_first, decide_eq_false (by omega), Bool.false_and]

/-- A wait that lacks an end that was told is not at the end of its way. -/
theorem on_its_way {task : String} {next : Nat} {env : Envelope} (hholds : s.Holds errand)
    (hstage : errand.stage = .waiting task next) (hended : s.ended task = some env)
    (hread : next = s.events.length) (hpipe : s.pipe = []) : s.next ≠ s.bus.sent.length := by
  intro htaken
  obtain ⟨-, hflows, -, hunread⟩ := hholds.of_waiting hstage
  unfold Flows at hflows
  rw [List.take_of_length_le (by unfold still_from; omega)] at hunread
  rw [arrived, hpipe, List.filterMap_nil, List.append_nil, hunread,
    List.take_of_length_le (by unfold still_from; omega)] at hflows
  exact nomatch hflows.trans hended

/-- An end that was told comes to its wait. -/
theorem comes_through {c : Nat} {task : String} {env : Envelope} {next : Nat}
    (hplace : s.next ≤ s.bus.sent.length) (hc : s.errands[c]? = some errand)
    (hholds : s.Holds errand) (hstage : errand.stage = .waiting task next)
    (hended : s.ended task = some env) :
    ∃ steps : List WatchStep, (∀ step ∈ steps, step.delivers = true) ∧
      ∃ errand', (s.run steps).errands[c]? = some errand' ∧ errand'.stage = .finished task env := by
  induction hn : s.way next using Nat.strong_induction_on generalizing s errand next with
  | _ n ih =>
    have hgo : ∀ step : WatchStep, step.delivers = true → ∀ errand' next',
        (s.step step).way next' < n → (s.step step).next ≤ (s.step step).bus.sent.length →
        (s.step step).errands[c]? = some errand' → (s.step step).Holds errand' →
        errand'.stage = .waiting task next' → (s.step step).ended task = some env →
        ∃ steps : List WatchStep, (∀ step ∈ steps, step.delivers = true) ∧
          ∃ errand', (s.run steps).errands[c]? = some errand' ∧
            errand'.stage = .finished task env := by
      intro step hstep errand' next' hway hplace' hc' hholds' hstage' hended'
      obtain ⟨steps, hall, hdone⟩ := ih _ hway hplace' hc' hholds' hstage' hended' rfl
      exact ⟨step :: steps, List.forall_mem_cons.mpr ⟨hstep, hall⟩, hdone⟩
    have hnext := (hholds.of_waiting hstage).2.2.1
    unfold way at hn
    -- The wait takes what it can, then the reader, then the forwarder.
    rcases receive_cases (c := c) hholds hstage with ⟨-, hread⟩ | ⟨stage, hstep, hholds', hcase⟩
    · rcases hpipe : s.pipe with _ | ⟨delivery, pipe⟩
      · have hmore := on_its_way hholds hstage hended hread hpipe
        rcases forward_cases hplace with ⟨value, next', hforward, hlt, hle, -, -⟩ | ⟨-, hend⟩
        · have hstep : s.step .forward = { s with next := next', pipe := s.pipe ++ [.event value] } :=
            hforward
          refine hgo .forward rfl errand next ?_ ?_ ?_ ?_ hstage ?_
          · rw [hstep]
            simp only [way, hpipe, List.nil_append, List.length_singleton]
            omega
          · rw [hstep]
            exact hle
          · rw [hstep]
            exact hc
          · exact hholds.forward hplace
          · rw [hstep]
            exact hended
        · exact absurd hend hmore
      · have hlength : s.pipe.length = pipe.length + 1 := by rw [hpipe, List.length_cons]
        cases delivery with
        | event value =>
          have hstep : s.step .read = { s with pipe, events := s.events ++ [value] } := by
            change s.read = _
            rw [read, hpipe]
          refine hgo .read rfl errand next ?_ ?_ ?_ ?_ hstage ?_
          · rw [hstep]
            simp only [way, List.length_append, List.length_singleton]
            omega
          · rw [hstep]
            exact hplace
          · rw [hstep]
            exact hc
          · rw [hstep]
            refine hholds.read_event hpipe fun task' next' hstage' => forgets_nothing ?_
            obtain ⟨rfl, rfl⟩ := ErrandStage.waiting.inj (hstage.symm.trans hstage')
            rw [hread, CLIENT_CHANNEL]
            omega
          · rw [hstep]
            exact hended
        | reply d p =>
          obtain ⟨errands, hstep, hothers⟩ := read_reply hpipe
          refine hgo .read rfl errand next ?_ ?_ ?_ ?_ hstage ?_
          · rw [hstep]
            simp only [way]
            omega
          · rw [hstep]
            exact hplace
          · rw [hstep]
            exact hothers c errand hc (by rw [hstage]; exact nofun)
          · rw [hstep]
            exact hholds.same_flow rfl rfl (arrived_read_reply hpipe) rfl
          · rw [hstep]
            exact hended
    · have hset : (s.step (.receive c)).errands[c]? = some { errand with stage } := by
        rw [step_receive hc, hstep]
        exact List.getElem?_set_self (List.getElem?_eq_some_iff.mp hc).1
      rcases hcase with ⟨env', rfl⟩ | ⟨next', rfl, hlt, hle⟩
      · have hended' : s.ended task = some env' := (hholds'.of_finished rfl).2
        obtain rfl := Option.some.inj (hended.symm.trans hended')
        exact ⟨[.receive c], List.forall_mem_singleton.mpr rfl, _, hset, rfl⟩
      · refine hgo (.receive c) rfl _ next' ?_ ?_ hset ?_ rfl ?_
        · rw [step_receive hc, hstep]
          simp only [way, set_stage]
          omega
        · rw [step_receive hc, hstep]
          exact hplace
        · rw [step_receive hc, hstep]
          exact hholds'.same_flow rfl rfl rfl rfl
        · rw [step_receive hc, hstep]
          exact hended

theorem Kept.sees_end (h : s.Kept) : s.EndsAreSeen := by
  intro c errand hc
  have hholds := h.holds errand (List.mem_of_getElem? hc)
  exact ⟨fun task next hstage => (hholds.of_waiting hstage).1,
    fun task env hstage => hholds.of_finished hstage,
    fun task next env hstage hended => comes_through h.place hc hholds hstage hended⟩

end TaskWatch

/-- While no channel drops an unread end of a task, no wait begins after the
client has read the end, and no id comes again, every wait sees the end of its
task. -/
theorem waits_see_the_end (board : TaskBoard) (bus : EventBus) (steps : List WatchStep)
    (hkeeps : runs.Meets TaskWatch.step TaskWatch.Keeps (.attach board bus) steps) :
    ((TaskWatch.attach board bus).run steps).EndsAreSeen :=
  (runs.invariant_of_meets (fun _ step h hk => h.step step hk) (TaskWatch.kept_attach board bus)
    hkeeps).sees_end

/-- Where all is delivered, nothing comes any more. -/
theorem TaskWatch.delivered {s : TaskWatch} (hnext : s.next = s.bus.sent.length)
    (hpipe : s.pipe = []) (hread : ∀ errand ∈ s.errands, ∀ task next,
      errand.stage = .waiting task next → next = s.events.length)
    {steps : List WatchStep} (hsteps : ∀ step ∈ steps, step.delivers = true) : s.run steps = s := by
  induction steps with
  | nil => rfl
  | cons step steps ih =>
    obtain ⟨hstep, hrest⟩ := List.forall_mem_cons.mp hsteps
    have hsame : s.step step = s := by
      cases step with
      | forward =>
        rcases forward_cases hnext.le with ⟨_, _, -, hlt, hle, -, -⟩ | ⟨hsame, -⟩
        · omega
        · exact hsame
      | read =>
        change s.read = s
        rw [read, hpipe]
      | receive c =>
        change s.at_errand c (s.receive c) = s
        unfold at_errand
        split
        · rename_i errand hc
          unfold TaskWatch.receive
          split
          · rename_i task next hstage
            obtain rfl := hread errand (List.mem_of_getElem? hc) task next hstage
            rcases broadcast_recv_cases CLIENT_CHANNEL (Nat.le_refl s.events.length)
              with ⟨_, -, hlt⟩ | ⟨_, -, hvalue, -⟩ | ⟨hrecv, -⟩
            · have hle := still_from_le CLIENT_CHANNEL (Nat.le_refl s.events.length)
              omega
            · have hlt := (List.getElem?_eq_some_iff.mp hvalue).1
              omega
            · rw [hrecv]
          · rfl
        · rfl
      | _ => cases hstep
    change (s.step step).run steps = s
    rw [hsame]
    exact ih hrest

namespace quick_task

def started : List WatchStep :=
  [.request .publish "d1" none, .serve 0, .task (.insert 0), .task (.announce_started 0), .reply 0]

def ended : List WatchStep :=
  [.task (.poll 0), .task (.complete 0 (.ok ())), .task (.record 0), .task (.announce_finished 0),
   .forward, .forward]

def watch (steps : List WatchStep) : TaskWatch := (TaskWatch.attach .new .new).run steps

/-- The wait begins before the end of the task. -/
def in_time : List WatchStep :=
  started ++ [.read, .wait 0] ++ ended ++ [.read, .read, .receive 0, .receive 0]

/-- The task ends, and the client reads that, before the wait begins. -/
def too_late : List WatchStep := started ++ ended ++ [.read, .read, .read, .wait 0]

theorem an_early_wait_sees_the_end : (watch in_time).EndsAreSeen ∧
    ((watch in_time).errands[0]?.any fun errand =>
      match errand.stage with
      | .finished task _ => decide (task = "t1")
      | _ => false) = true :=
  ⟨waits_see_the_end .new .new in_time (by decide +kernel), by decide +kernel⟩

/-- The wait goes on for ever, although its task has ended. -/
theorem a_late_wait_sees_nothing : ¬ ∀ (board : TaskBoard) (bus : EventBus) (steps : List WatchStep),
    ((TaskWatch.attach board bus).run steps).EndsAreSeen := by
  intro h
  have hwaits : ((watch too_late).errands[0]?.any fun errand =>
      match errand.stage with
      | .waiting task _ => decide (task = "t1")
      | _ => false) = true := by decide +kernel
  have hends : ((watch too_late).ended "t1").isSome = true := by decide +kernel
  have hnext : (watch too_late).next = (watch too_late).bus.sent.length := by decide +kernel
  have hpipe : (watch too_late).pipe.isEmpty = true := by decide +kernel
  have hread : ((watch too_late).errands.all fun errand =>
      match errand.stage with
      | .waiting _ next => decide (next = (watch too_late).events.length)
      | _ => true) = true := by decide +kernel
  rw [Option.any_eq_true] at hwaits
  obtain ⟨errand, hc, hstage⟩ := hwaits
  split at hstage
  · rename_i task next hwaiting
    obtain rfl : task = "t1" := of_decide_eq_true hstage
    obtain ⟨env, henv⟩ := Option.isSome_iff_exists.mp hends
    obtain ⟨steps, hsteps, errand', hc', hdone⟩ :=
      (h .new .new too_late 0 errand hc).seen "t1" next env hwaiting henv
    have hsame : (watch too_late).run steps = watch too_late := by
      refine TaskWatch.delivered hnext (List.isEmpty_iff.mp hpipe) ?_ hsteps
      intro other hmem task next hstage
      have hall := List.all_eq_true.mp hread other hmem
      rw [hstage] at hall
      exact of_decide_eq_true hall
    change ((watch too_late).run steps).errands[0]? = some errand' at hc'
    rw [hsame, hc] at hc'
    rw [Option.some.inj hc', hdone] at hwaiting
    cases hwaiting
  · cases hstage

end quick_task

end iroh_drop
