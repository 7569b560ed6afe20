-- The fetch engine: up to three rounds of asking for providers and
-- downloading. A fetch is a task that moves one wait at a time, so other
-- tasks of the session run in between (session.rs).
import IrohDrop.Intake

open rust_std postcard

namespace iroh_drop

def FETCH_ATTEMPTS : Nat := 3

variable [Crypto]

/-- One item of the downloader's progress stream. -/
inductive DownloadProgressItem where
  | TryProvider (id : EndpointId)
  | ProviderFailed (id : EndpointId) (now : Instant)
  | Progress (downloaded : UInt64)
  | PartComplete
  | DownloadError
  | Error (reason : String)

/-- What a stretch of a fetch takes from outside. -/
structure FetchWorld where
  draw : Draw
  complete : CompleteWorld
  exported : Except DropError Unit

/-- What wakes a fetch. -/
inductive FetchEvent where
  /-- The task runs to its next wait. -/
  | run (world : FetchWorld)
  /-- A look at the providers while it waits for one. -/
  | poll (timed_out : Bool)
  /-- The download stream did not open. -/
  | stream_failed (reason : String) (world : FetchWorld)
  | item (item : DownloadProgressItem)
  /-- A transfer put bytes into the store. -/
  | store_write (bytes : Nat) (status : BlobStatus)
  /-- The download stream ended. -/
  | ended (world : FetchWorld)

/-- The next round, or the check after the last one. -/
def next_round (attempt : Nat) : FetchStage :=
  if attempt + 1 < FETCH_ATTEMPTS then .round (attempt + 1) else .verify

namespace Session

/-- `fetch`, or the task of an automatic fetch. -/
def start_fetch (self : Session) (hash : BlobHash) : Session :=
  { self with fetches := self.fetches ++ [{
      hash, auto := none, stage := .start, current_provider := none, last_error := none
      total := none, stored := 0 }] }

def known_remote_providers (self : Session) (hash : BlobHash) : List EndpointId :=
  match self.state.providers.lookup hash with
  | some set => set.ordered_excluding self.state.self_endpoint_id
  | none => []

/-- The end of a fetch: a failure is reported once, and an automatic fetch
that failed gives its reservation back. -/
def finish_fetch (self : Session) (task : FetchTask) (result : Except DropError Unit) :
    FetchTask × Session :=
  let self := match result with
    | .ok () => self
    | .error e => (self.set_status task.hash (.Failed true e.text)).emit (.FetchFailed task.hash e)
  let self := match task.auto with
    | none => self
    | some size =>
      { self with
        auto_fetch_bytes :=
          if result.isOk then self.auto_fetch_bytes else self.auto_fetch_bytes - size
        active_fetches := self.active_fetches - 1 }
  ({ task with stage := .done result }, self)

/-- Ask the group who serves the blob. -/
def request (self : Session) (hash : BlobHash) (draw : Draw) : Except DropError Unit × Session :=
  self.broadcast (.Request ⟨hash⟩) draw

/-- `download_attempt`, up to the first item of the stream. -/
def begin_download (self : Session) (task : FetchTask) (attempt : Nat) : FetchTask × Session :=
  let total := (self.state.offers.lookup task.hash).map (fun record => record.offer.size)
  ({ task with total, stage := .downloading attempt (.ok ()) },
    self.set_status task.hash (.Fetching 0 total))

/-- A blob that is here already is marked and exported. -/
def finish_local (self : Session) (task : FetchTask) (world : FetchWorld) :
    FetchTask × Session :=
  match self.mark_complete task.hash none world.complete with
  | (.error e, self) => self.finish_fetch task (.error e)
  | (.ok _, self) => self.finish_fetch task world.exported

/-- The top of a round. -/
def run_round (self : Session) (task : FetchTask) (attempt : Nat) (world : FetchWorld) :
    FetchTask × Session :=
  if self.known_remote_providers task.hash ≠ [] then self.begin_download task attempt
  else
    match self.request task.hash world.draw with
    | (.error e, self) => self.finish_fetch task (.error e)
    | (.ok (), self) => ({ task with stage := .asking attempt }, self)

/-- A download that failed: remember why, and ask for providers again. -/
def fail_attempt (self : Session) (task : FetchTask) (attempt : Nat) (error : DropError)
    (world : FetchWorld) : FetchTask × Session :=
  let task := { task with last_error := some error }
  match self.request task.hash world.draw with
  | (.error e, self) => self.finish_fetch task (.error e)
  | (.ok (), self) => ({ task with stage := .reasking attempt }, self)

def end_download (self : Session) (task : FetchTask) (attempt : Nat)
    (outcome : Except DropError Unit) (world : FetchWorld) : FetchTask × Session :=
  match outcome with
  | .ok () => ({ task with last_error := none, stage := .verify }, self)
  | .error e => self.fail_attempt task attempt e world

/-- The provider that served the transfer has no failures any more. -/
def credit_provider (self : Session) (task : FetchTask) : Session :=
  match task.current_provider with
  | none => self
  | some p =>
    { self with state := { self.state with
        providers := HashMap.modify self.state.providers task.hash (fun set => set.mark_success p) } }

/-- The end of a transfer: the store has the last word on the blob. -/
def run_verify (self : Session) (task : FetchTask) (world : FetchWorld) : FetchTask × Session :=
  match task.last_error with
  | some e => self.finish_fetch task (.error e)
  | none =>
    match self.store task.hash with
    | .Complete size =>
      let self := self.credit_provider task
      match self.mark_complete task.hash (some size) world.complete with
      | (.error e, self) => self.finish_fetch task (.error e)
      | (.ok _, self) =>
        match world.exported with
        | .error e => self.finish_fetch task (.error e)
        | .ok () =>
          let provider := task.current_provider.getD self.self_id
          (self.emit (.FetchCompleted task.hash provider)).finish_fetch task (.ok ())
    | _ =>
      self.finish_fetch task (.error (.Integrity
        (.HashMismatch task.hash.to_hex "incomplete local state")))

/-- One item of the stream. A transfer that reports an error goes on to the
end of the stream. -/
def download_item (self : Session) (task : FetchTask) (attempt : Nat)
    (outcome : Except DropError Unit) : DownloadProgressItem → FetchTask × Session
  | .TryProvider id =>
    ({ task with current_provider := some id }, self.emit (.FetchStarted task.hash id))
  | .ProviderFailed id now =>
    let self := { self with state := { self.state with
      providers := HashMap.modify self.state.providers task.hash
        (fun set => set.mark_failure id now) } }
    (task, self.emit (.ProtocolWarning (some id)
      (.ProviderFailed id.fmt_short task.hash.fmt_short "transfer failed")))
  | .Progress downloaded =>
    (task, (self.set_status task.hash (.Fetching downloaded task.total)).emit
      (.FetchProgress task.hash downloaded task.total))
  | .PartComplete => ({ task with stage := .downloading attempt outcome }, self)
  | .DownloadError =>
    ({ task with stage :=
        .downloading attempt (.error (.Network (.Transfer "all providers failed"))) }, self)
  | .Error reason =>
    ({ task with stage := .downloading attempt (.error (.Network (.Transfer reason))) }, self)

/-- A look at the providers during a wait: a provider ends it, and so does
the timeout. -/
def poll_asking (self : Session) (task : FetchTask) (attempt : Nat) (timed_out : Bool) :
    FetchTask × Session :=
  if self.known_remote_providers task.hash ≠ [] then self.begin_download task attempt
  else if timed_out then
    ({ task with
        last_error := some (.Network (.NoProviders task.hash.to_hex))
        stage := next_round attempt }, self)
  else (task, self)

def poll_reasking (self : Session) (task : FetchTask) (attempt : Nat) (timed_out : Bool) :
    FetchTask × Session :=
  if self.known_remote_providers task.hash ≠ [] ∨ timed_out then
    ({ task with stage := next_round attempt }, self)
  else (task, self)

/-- One stretch of a fetch. An event that the stage does not wait for
changes nothing. -/
def fetch_step (self : Session) (task : FetchTask) : FetchEvent → FetchTask × Session
  | .run world =>
    match task.stage with
    | .start =>
      if self.holds task.hash then self.finish_local task world
      else ({ task with stage := .round 0 }, self)
    | .round attempt => self.run_round task attempt world
    | .verify => self.run_verify task world
    | _ => (task, self)
  | .poll timed_out =>
    match task.stage with
    | .asking attempt => self.poll_asking task attempt timed_out
    | .reasking attempt => self.poll_reasking task attempt timed_out
    | _ => (task, self)
  | .stream_failed reason world =>
    match task.stage with
    | .downloading attempt _ =>
      self.fail_attempt task attempt (.Network (.Transfer reason)) world
    | _ => (task, self)
  | .item item =>
    match task.stage with
    | .downloading attempt outcome => self.download_item task attempt outcome item
    | _ => (task, self)
  | .store_write bytes status =>
    match task.stage with
    | .downloading _ _ =>
      ({ task with stored := task.stored + bytes },
        { self with store := fun h => if h = task.hash then status else self.store h })
    | _ => (task, self)
  | .ended world =>
    match task.stage with
    | .downloading attempt outcome => self.end_download task attempt outcome world
    | _ => (task, self)

/-- An event of the `i`th fetch. -/
def fetch_event (self : Session) (i : Nat) (event : FetchEvent) : Session :=
  match self.fetches[i]? with
  | none => self
  | some task =>
    let (task, self) := self.fetch_step task event
    { self with fetches := self.fetches.set i task }

end Session

end iroh_drop
