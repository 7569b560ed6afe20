-- The persistence of a daemon, one atomic step at a time: persists, leaves,
-- joins and a shutdown between their file operations, and restarts that put
-- the drops of the table back (service.rs).
import IrohDrop.DropStore

open rust_std postcard volume

namespace iroh_drop

variable [Crypto]

/-! ## What the service puts on disk -/

namespace Service

/-- The handle whose pump gets an event now. -/
def heard (self : Service) (i : SessionId) : Option String := do
  let hosted ← self.sessions[i]?
  let pump ← hosted.pump
  match (broadcast_recv EVENT_CHANNEL_CAPACITY hosted.session.events (!self.live i) pump.next).1 with
  | .Ok _ => some pump.handle
  | _ => none

variable [Urls]

def persisted_drop (self : Service) (self_addr : EndpointAddr) (handle : String)
    (entry : DropEntry) : Option PersistedDrop :=
  self.sessions[entry.session]?.map fun hosted =>
    { handle, name := entry.name, mine := entry.mine
      ticket := String.ofList (hosted.session.current_ticket self_addr).to_string_prefixed }

def persisted_table (self : Service) (self_addr : EndpointAddr) : List PersistedDrop :=
  self.drops.entries.filterMap fun e => self.persisted_drop self_addr e.1 e.2

end Service

/-! ## Jobs -/

/-- What a job is for, and so how it ends. -/
inductive Purpose where
  /-- A persist that nobody waits for. -/
  | persist
  /-- The `drop.create` or `drop.join` that put the drop into the table. -/
  | opened
  /-- A `drop.join` of a topic that the table hosts. -/
  | rejoined
  /-- A `drop.leave`. `again`: the topic is hosted once more. -/
  | leave (topic : TopicId) (again : Bool)
  /-- A shutdown, with the drops that it has yet to persist. -/
  | shutdown (rest : List String)

/-- The atomic step that a job takes next. `save` is what `persist_drop` has
exported, and a leave has none. -/
inductive Stage where
  /-- `drop.leave` waits for the withdrawals and the tasks of the session. -/
  | waiting (session : SessionId)
  | removing (topic : TopicId)
  | checking
  | exporting (session : SessionId) (topic : TopicId)
  | listing (save : Option (TopicId × List Bytes))
  | saving_table (stamp : Nat) (table : List PersistedDrop) (phase : Phase)
    (save : Option (TopicId × List Bytes))
  | saving_frames (topic : TopicId) (frames : List Bytes) (phase : Phase)
  | ending
  | returned

structure Job where
  purpose : Purpose
  handle : String
  stage : Stage

/-- `save`, after its table. -/
def Stage.after_table : Option (TopicId × List Bytes) → Stage
  | some (topic, frames) => .saving_frames topic frames .create
  | none => .ending

/-- The temporary file that a job has made and not yet renamed. -/
def Stage.temp : Stage → Option DataFile
  | .saving_table _ _ phase _ =>
    if phase.opened then some (DropStore.table_path.with_extension .tmp) else none
  | .saving_frames topic _ phase =>
    if phase.opened then some ((DropStore.frames_path topic).with_extension .tmp) else none
  | _ => none

/-! ## The daemon -/

/-- A daemon with a persistent store. What is remembered for the laws: the
tables and histories that were ever to be saved, the tables that this process
took and how many of them the one on disk is past, the handles that this
process has loaded or given and not left, the drops that a request has answered
`Ok` for and that were not left, and the topics that were left for good. -/
structure Daemon where
  service : Service
  /-- `Service::new` has returned. -/
  serving : Bool
  /-- The rows that `restore_drops` has yet to come to. -/
  restoring : List PersistedDrop
  max_handle : UInt64
  persist_pending : HashSet String
  jobs : List Job
  dir : Volume DataFile UInt8
  passed : List (List PersistedDrop)
  exported : List (TopicId × List Bytes)
  taken : List (List PersistedDrop)
  saved : Nat
  known : List String
  members : List (String × DropTicket)
  forgotten : List TopicId

/-- One thing that happens to the daemon. -/
inductive DaemonOp where
  | act (a : Service.Act)
  /-- `restore_drops` comes to the next row, or to the end. -/
  | restore
  | restore_history (k : Nat) (now : Instant)
  /-- The 250 ms of a scheduled persist are over. -/
  | debounced (handle : String)
  /-- A publish has succeeded. -/
  | published (k : Nat)
  /-- The next step of a job. -/
  | job (k : Nat)
  | shutdown
  /-- The process ends, wherever it is, and another one starts. -/
  | restart

namespace Daemon

/-- The first process, with nothing on disk. -/
def start (secret : SecretKey) (policy : DropPolicy) : Daemon :=
  { service := .new secret policy, serving := false, restoring := [], max_handle := 0
    persist_pending := ∅, jobs := [], dir := .empty, passed := [], exported := [], taken := []
    saved := 0, known := [], members := [], forgotten := [] }

def spawn (self : Daemon) (job : Job) : Daemon := { self with jobs := self.jobs ++ [job] }

def set_job (self : Daemon) (k : Nat) (job : Job) : Daemon :=
  { self with jobs := self.jobs.set k job }

/-! ## Requests and events -/

/-- A request has put a drop of the topic into the table: it is not forgotten
any more. -/
def registered (self : Daemon) (topic : TopicId) : Daemon :=
  { self with
    forgotten := self.forgotten.filter (fun t => decide (t ≠ topic))
    jobs := self.jobs.map fun job => match job.purpose with
      | .leave t again => { job with purpose := .leave t (again || decide (t = topic)) }
      | _ => job }

/-- `register` and `register_restored`. What `drop_create` and `drop_join` do
after it is a job of its own. -/
def settle (self : Daemon) (k : Nat) : Daemon :=
  let next := { self with service := self.service.settle k }
  match self.service.calls[k]? with
  | some (.opened _ (.restored _ _ _)) => next
  | some (.opened i opening) =>
    let handle := self.service.handle_of opening
    match self.service.origin i with
    | none => next
    | some (topic, _) =>
      { next.registered topic with
        service := next.service.answered k
        known := self.known ++ [handle] }.spawn ⟨.opened, handle, .checking⟩
  | _ => next

/-- A hosted topic is persisted again only where its entry gets a name. -/
def drop_join [Urls] (self : Daemon) (self_addr : EndpointAddr) (ticket : String) : Daemon :=
  let next := { self with service := self.service.act self_addr (.drop_join ticket) }
  match DropTicket.from_string_prefixed ticket.toList with
  | .error _ => next
  | .ok ticket =>
    match self.service.handle_for_topic ⟨ticket.V1.topic_id⟩ with
    | none => next
    | some handle =>
      let adopts := ticket.V1.options.display_name.isSome &&
        (self.service.drops.lookup handle).any (·.name.isNone)
      next.spawn ⟨.rejoined, handle, if adopts then .checking else .ending⟩

def drop_leave (self : Daemon) (handle : String) : Daemon :=
  match self.service.drops.lookup handle, self.service.drop_leave handle with
  | some entry, .ok service =>
    match self.service.origin entry.session with
    | none => self
    | some (topic, _) =>
      let again := (service.handle_for_topic topic).isSome
      { self with
        service
        known := self.known.filter (fun h => decide (h ≠ handle))
        members := self.members.filter (fun m => decide (m.1 ≠ handle)) }.spawn
        ⟨.leave topic again, handle, .waiting entry.session⟩
  | _, _ => self

def schedule_persist (self : Daemon) (handle : String) : Daemon :=
  if handle ∈ self.persist_pending then self
  else { self with persist_pending := self.persist_pending.insert handle () }

/-- Whatever the session says may have changed its history. -/
def pump (self : Daemon) (i : SessionId) : Daemon :=
  let next := { self with service := self.service.pump i }
  match self.service.heard i with
  | some handle => next.schedule_persist handle
  | none => next

/-- Requests are served once the drops of the table are restored. -/
def act [Urls] (self : Daemon) (self_addr : EndpointAddr) (a : Service.Act) : Daemon :=
  match a with
  | .drop_create _ _ _ | .offer_publish _ | .offer_fetch _ _ =>
    if self.serving then { self with service := self.service.act self_addr a } else self
  | .drop_join ticket => if self.serving then self.drop_join self_addr ticket else self
  | .drop_leave handle => if self.serving then self.drop_leave handle else self
  | .settle k => self.settle k
  | .pump i => self.pump i
  | .restore_drop _ _ _ _ | .answer _ => self
  | a => { self with service := self.service.act self_addr a }

def debounced (self : Daemon) (handle : String) : Daemon :=
  if handle ∈ self.persist_pending then
    { self with persist_pending := self.persist_pending.erase handle }.spawn
      ⟨.persist, handle, .checking⟩
  else self

def published [Urls] (self : Daemon) (self_addr : EndpointAddr) (k : Nat) : Daemon :=
  match self.service.works[k]? with
  | some work =>
    if work.kind = .publish then
      { self with service := self.service.act self_addr (.work_ended k) }.spawn
        ⟨.persist, work.drop, .checking⟩
    else self
  | none => self

/-! ## Restarts -/

/-- The number of a handle such as `d3`. -/
def handle_number (handle : String) : Option UInt64 :=
  ((DropTicket.strip_prefix ['d'] handle.toList).bind fun digits =>
    parse_u64 (String.ofList digits)).map UInt64.ofNat

/-- One turn of the loop of `restore_drops`, up to its wait for the carrier. -/
def restore [Urls] (self : Daemon) (self_addr : EndpointAddr) : Daemon :=
  if self.serving || !self.service.calls.isEmpty then self
  else match self.restoring with
    | [] =>
      { self with
        serving := true
        service := { self.service with
          next_drop := max self.service.next_drop (self.max_handle + 1) } }
    | pd :: rest =>
      let self := { self with
        restoring := rest
        max_handle := match handle_number pd.handle with
          | some n => max self.max_handle n
          | none => self.max_handle }
      match DropTicket.from_string_prefixed pd.ticket.toList with
      | .error _ => self
      | .ok ticket =>
        { self with
          service := self.service.act self_addr (.restore_drop ticket pd.handle pd.name pd.mine) }

/-- The session of a restored drop replays what the store has of its history. -/
def restore_history (self : Daemon) (k : Nat) (now : Instant) : Daemon :=
  match self.service.calls[k]? with
  | some (.opened i (.restored _ _ _)) =>
    match self.service.origin i with
    | none => self
    | some (topic, _) =>
      let frames := (DropStore.load_frames self.dir topic).map fun frame => (frame, now)
      { self with service := self.service.session_step i (.restore_history frames) }
  | _ => self

variable [TableJson]

/-- Nothing but the files survives. -/
def restart (self : Daemon) : Daemon :=
  let table := DropStore.load_table self.dir
  { self with
    service := .new self.service.secret self.service.policy
    serving := false
    restoring := table
    max_handle := 0
    persist_pending := ∅
    jobs := []
    taken := []
    saved := 0
    known := table.map (·.handle) }

/-! ## Jobs -/

/-- A job is done with its files. -/
def finish (self : Daemon) (k : Nat) (job : Job) : Daemon :=
  let done := self.set_job k { job with stage := .returned }
  match job.purpose with
  | .persist => done
  | .opened | .rejoined =>
    match self.service.drop job.handle with
    | some ticket => { done with members := self.members ++ [(job.handle, ticket)] }
    | none => done
  | .leave topic again =>
    { done with forgotten := if again then self.forgotten else self.forgotten ++ [topic] }
  | .shutdown [] => { done with service := { self.service with drops := ∅ } }
  | .shutdown (handle :: rest) => self.set_job k ⟨.shutdown rest, handle, .checking⟩

def job [Urls] (self : Daemon) (self_addr : EndpointAddr) (k : Nat) : Daemon :=
  match self.jobs[k]? with
  | none => self
  | some job =>
    let goto (self : Daemon) (stage : Stage) : Daemon := self.set_job k { job with stage }
    match job.stage with
    | .waiting i =>
      match job.purpose with
      | .leave topic _ => if i ∈ self.service.left then goto self (.removing topic) else self
      | _ => self
    | .removing topic =>
      goto { self with dir := DropStore.remove_drop self.dir topic } (.listing none)
    | .checking =>
      match (self.service.drops.lookup job.handle).map DropEntry.session with
      | none => goto self .ending
      | some i =>
        match self.service.origin i with
        | none => self
        | some (topic, _) => goto self (.exporting i topic)
    | .exporting i topic =>
      match self.service.sessions[i]? with
      | none => self
      | some hosted =>
        let frames := hosted.session.export_history
        goto { self with exported := self.exported ++ [(topic, frames)] }
          (.listing (some (topic, frames)))
    | .listing save =>
      let table := self.service.persisted_table self_addr
      goto { self with passed := self.passed ++ [table], taken := self.taken ++ [table] }
        (.saving_table self.taken.length table .create save)
    | .saving_table stamp table phase save =>
      match DropStore.save_table table self.dir phase with
      | (dir, some phase) => goto { self with dir } (.saving_table stamp table phase save)
      | (dir, none) => goto { self with dir, saved := stamp + 1 } (.after_table save)
    | .saving_frames topic frames phase =>
      match DropStore.save_frames topic frames self.dir phase with
      | (dir, some phase) => goto { self with dir } (.saving_frames topic frames phase)
      | (dir, none) => goto { self with dir } .ending
    | .ending => self.finish k job
    | .returned => self

/-- A shutdown persists every drop in turn, and then lets go of all of them. -/
def shutdown (self : Daemon) : Daemon :=
  if self.serving then self.spawn ⟨.shutdown self.service.drops.keys, "", .ending⟩ else self

def step [Urls] (self_addr : EndpointAddr) (self : Daemon) : DaemonOp → Daemon
  | .act a => self.act self_addr a
  | .restore => self.restore self_addr
  | .restore_history k now => self.restore_history k now
  | .debounced handle => self.debounced handle
  | .published k => self.published self_addr k
  | .job k => self.job self_addr k
  | .shutdown => self.shutdown
  | .restart => self.restart

def run [Urls] (self_addr : EndpointAddr) (self : Daemon) (ops : List DaemonOp) : Daemon :=
  runs.run (step self_addr) self ops

end Daemon

end iroh_drop
