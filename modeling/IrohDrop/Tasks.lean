-- The background tasks of the daemon: `spawn_task`, the work that it spawns, and
-- `task.cancel`, which share the table of tasks (service.rs).
import IrohDrop.Control
import IrohDrop.Handles

open rust_std

namespace iroh_drop

/-! ## Entries and events -/

inductive TaskState where
  | running
  | done
  | failed
  | cancelled
deriving DecidableEq

def TaskState.text : TaskState → String
  | .running => "running"
  | .done => "done"
  | .failed => "failed"
  | .cancelled => "cancelled"

def WorkKind.text : WorkKind → String
  | .publish => "publish"
  | .fetch => "fetch"

/-- An entry of the table. `abort`: the handle of the spawned work. -/
structure TaskEntry where
  kind : WorkKind
  drop : String
  hash : Option BlobHash
  state : TaskState
  abort : Option Nat

/-- How the work ended. -/
def TaskState.of_result : Except String Unit → TaskState
  | .ok () => .done
  | .error _ => .failed

/-- An event `task.state`. -/
inductive TaskEvent where
  | started (task : String) (kind : WorkKind) (drop : String)
  | finished (task : String) (result : Except String Unit)
  | cancelled (task : String)

namespace TaskEvent

def task : TaskEvent → String
  | .started task _ _ | .finished task _ | .cancelled task => task

def state : TaskEvent → TaskState
  | .started _ _ _ => .running
  | .finished _ result => .of_result result
  | .cancelled _ => .cancelled

def payload (self : TaskEvent) : Value :=
  let task := ("task", Value.string self.task)
  let state := ("state", Value.string self.state.text)
  match self with
  | .started _ kind drop =>
    .object [task, ("kind", .string kind.text), ("drop", .string drop), state]
  | .finished _ (.error e) => .object [task, state, ("error", .string e)]
  | .finished _ (.ok ()) => .object [task, state, ("error", .null)]
  | .cancelled _ => .object [task, state]

end TaskEvent

/-! ## Tasks -/

/-- Where a call of `spawn_task` is: it has spawned the work, the entry is in
the table, and the event is out. -/
inductive Spawning where
  | spawned
  | inserted
  | announced
deriving DecidableEq

/-- Where the spawned work is. Between `polled` and `ended` it does not wait, and
an abort does not stop it. -/
inductive WorkStage where
  | waiting
  | polled
  | finished (result : Except String Unit)
  | recorded (result : Except String Unit)
  | ended (result : Except String Unit)
  | dropped

structure TaskJob where
  id : String
  kind : WorkKind
  drop : String
  hash : Option BlobHash
  spawning : Spawning
  work : WorkStage
  /-- The runtime drops the work instead of polling it. -/
  aborted : Bool

/-- `cancelling`: the calls of `task.cancel` whose event is still to come. For
the laws: each state that was written into an entry. -/
structure TaskBoard where
  next_task : UInt64
  tasks : HashMap String TaskEntry
  jobs : List TaskJob
  cancelling : List String
  events : List TaskEvent
  writes : List (String × TaskState)

inductive TaskStep where
  | spawn (kind : WorkKind) (drop : String) (hash : Option BlobHash)
  | insert (k : Nat)
  | announce_started (k : Nat)
  | poll (k : Nat)
  /-- The work waits for something. -/
  | pend (k : Nat)
  | complete (k : Nat) (result : Except String Unit)
  | record (k : Nat)
  | announce_finished (k : Nat)
  | cancel (id : String)
  | announce_cancelled (j : Nat)

namespace TaskBoard

def new : TaskBoard :=
  { next_task := 1, tasks := ∅, jobs := [], cancelling := [], events := [], writes := [] }

def set_job (self : TaskBoard) (k : Nat) (job : TaskJob) : TaskBoard :=
  { self with jobs := self.jobs.set k job }

def emit (self : TaskBoard) (event : TaskEvent) : TaskBoard :=
  { self with events := self.events ++ [event] }

/-- An entry of the table, and the state in it. -/
def write (self : TaskBoard) (id : String) (entry : TaskEntry) : TaskBoard :=
  { self with
    tasks := self.tasks.insert id entry
    writes := self.writes ++ [(id, entry.state)] }

/-- The entries, as `task.list` has them. -/
def task_list (self : TaskBoard) : List (String × TaskEntry) :=
  (self.tasks.entries.map fun e => (e.1, e.2)).insertionSort fun a b => a.1 ≤ b.1

/-! ## The call that spawns a task -/

def spawn (self : TaskBoard) (kind : WorkKind) (drop : String) (hash : Option BlobHash) :
    TaskBoard :=
  { self with
    next_task := self.next_task + 1
    jobs := self.jobs ++ [{ id := s!"t{self.next_task}", kind, drop, hash
                            spawning := .spawned, work := .waiting, aborted := false }] }

def insert (self : TaskBoard) (k : Nat) (job : TaskJob) : TaskBoard :=
  match job.spawning with
  | .spawned =>
    (self.set_job k { job with spawning := .inserted }).write job.id
      { kind := job.kind, drop := job.drop, hash := job.hash, state := .running, abort := some k }
  | _ => self

def announce_started (self : TaskBoard) (k : Nat) (job : TaskJob) : TaskBoard :=
  match job.spawning with
  | .inserted =>
    (self.set_job k { job with spawning := .announced }).emit (.started job.id job.kind job.drop)
  | _ => self

/-! ## The work -/

def poll (self : TaskBoard) (k : Nat) (job : TaskJob) : TaskBoard :=
  match job.work with
  | .waiting => self.set_job k { job with work := if job.aborted then .dropped else .polled }
  | _ => self

def pend (self : TaskBoard) (k : Nat) (job : TaskJob) : TaskBoard :=
  match job.work with
  | .polled => self.set_job k { job with work := .waiting }
  | _ => self

def complete (self : TaskBoard) (k : Nat) (job : TaskJob) (result : Except String Unit) :
    TaskBoard :=
  match job.work with
  | .polled => self.set_job k { job with work := .finished result }
  | _ => self

/-- The end of the work goes into the entry, if there is one. -/
def record (self : TaskBoard) (k : Nat) (job : TaskJob) : TaskBoard :=
  match job.work with
  | .finished result =>
    let self := self.set_job k { job with work := .recorded result }
    match self.tasks.lookup job.id with
    | some entry => self.write job.id { entry with state := .of_result result, abort := none }
    | none => self
  | _ => self

def announce_finished (self : TaskBoard) (k : Nat) (job : TaskJob) : TaskBoard :=
  match job.work with
  | .recorded result =>
    (self.set_job k { job with work := .ended result }).emit (.finished job.id result)
  | _ => self

/-! ## The call that cancels a task -/

def abort (self : TaskBoard) (k : Nat) : TaskBoard :=
  { self with jobs := self.jobs.modify k fun job => { job with aborted := true } }

/-- An id that is not in the table is an error. -/
def task_cancel (self : TaskBoard) (id : String) : TaskBoard :=
  match self.tasks.lookup id with
  | none => self
  | some entry =>
    let self := match entry.abort with
      | some k => self.abort k
      | none => self
    { self.write id { entry with abort := none, state := .cancelled } with
      cancelling := self.cancelling ++ [id] }

def announce_cancelled (self : TaskBoard) (j : Nat) : TaskBoard :=
  match self.cancelling[j]? with
  | some id => { self.emit (.cancelled id) with cancelling := self.cancelling.eraseIdx j }
  | none => self

/-! ## Runs -/

/-- A step of a job that is there. -/
def at_job (self : TaskBoard) (k : Nat) (f : TaskJob → TaskBoard) : TaskBoard :=
  match self.jobs[k]? with
  | some job => f job
  | none => self

def step (self : TaskBoard) : TaskStep → TaskBoard
  | .spawn kind drop hash => self.spawn kind drop hash
  | .insert k => self.at_job k (self.insert k)
  | .announce_started k => self.at_job k (self.announce_started k)
  | .poll k => self.at_job k (self.poll k)
  | .pend k => self.at_job k (self.pend k)
  | .complete k result => self.at_job k (self.complete k · result)
  | .record k => self.at_job k (self.record k)
  | .announce_finished k => self.at_job k (self.announce_finished k)
  | .cancel id => self.task_cancel id
  | .announce_cancelled j => self.announce_cancelled j

def run (self : TaskBoard) (steps : List TaskStep) : TaskBoard := runs.run step self steps

end TaskBoard

end iroh_drop
