-- The worker of the window: the commands of the user, the questions and the events of the
-- daemon, one turn after the other, and the calls and answers that it sends (bridge.rs).
import IrohDrop.Client
import IrohDrop.Limits
import IrohDrop.Links
import IrohDrop.TransferRows

open rust_std

namespace iroh_drop

namespace gui

/-- How long the offers of a drop count as consented to after the user asked for it. -/
def RECEIVE_GRACE : Duration := Duration.from_secs 60

def from_millis (ms : Nat) : Duration := ms * 1000000

/-- What the worker reads of a path: its text, if it is one, and the name of its last part. -/
structure PathBuf where
  to_str : Option String
  file_name : Option String

/-- What the window asks the worker to do. -/
inductive Cmd where
  | Send (paths : List PathBuf)
  | Receive (input : String)
  | Answer (id : UInt64) (accept : Bool)
  | Forget (handle : String)
  | Fetch (drop pick name : String)
  | Retry (drop name : String)
  | ClearFinished
  | DismissError
  | Ticket (handle name : String)

/-! ## What the window shows -/

/-- A question that waits for the user. -/
structure Incoming where
  id : UInt64
  drop : String
  name : String
  size : String
  «from» : String
  expires_at : Instant
deriving DecidableEq

structure DropRow where
  handle : String
  name : String
  files : UInt64
  peers : UInt64
  mine : Bool
deriving DecidableEq

/-- An offer of a drop that is not fetched yet. -/
structure AvailableRow where
  drop : String
  group : String
  pick : String
  name : String
  size : String
deriving DecidableEq

/-- What the window shows beside its transfers and its log. -/
structure Panel where
  connected : Bool
  lan_only : Bool
  endpoint_id : String
  download_dir : String
  share_link : Option String
  share_link_name : Option String
  busy : Option String
  error : Option String
  incoming : List Incoming
  drops : List DropRow
  available : List AvailableRow

def Panel.default : Panel :=
  { connected := false, lan_only := false, endpoint_id := "", download_dir := ""
    share_link := none, share_link_name := none, busy := none, error := none, incoming := []
    drops := [], available := [] }

/-! ## The daemon -/

/-- The client of the daemon as the worker sees it. Time goes on while it waits for an answer,
and while it sleeps. -/
structure DaemonClient (σ : Type) where
  hello : σ → Value
  now : σ → Instant
  call : σ → String → Value → Except ApiError Value × σ
  answer : σ → UInt64 → Option Value → σ
  sleep : σ → Duration → σ
  call_later : ∀ client method params, now client ≤ now (call client method params).2
  answer_later : ∀ client id value, now client ≤ now (answer client id value)
  sleep_later : ∀ client length, now client + length ≤ now (sleep client length)

/-- A call that the worker makes: its method and parameters. -/
abbrev Call := String × Value

/-- The worker: its client, what it shows, and the drops that the user asked to receive with
the time of it. For the laws, the calls that it made and the answers that it sent. -/
structure Worker (σ : Type) where
  client : σ
  bridge : Bridge
  panel : Panel
  requested : HashMap String Instant
  calls : List Call
  answers : List (UInt64 × Option Value)
  running : Bool

def accepting : Value := .object [("accept", .bool true)]

def incoming_of (ask : AskRequest) (now : Instant) : Incoming :=
  let ttl := (((ask.p.get "expires_in_ms").bind Value.as_u64).map
    fun ms => from_millis ms.toNat).getD (Duration.from_secs 60) - Duration.from_secs 2
  { id := ask.id, drop := ask.p.str_of "drop", name := ask.p.str_of "name"
    size := ask.p.str_of "human_size"
    «from» := String.ofList ((ask.p.str_of "from").toList.take 10), expires_at := now + ttl }

def drop_row (d : Value) : DropRow :=
  { handle := d.str_of "drop", name := ((d.get "name").bind Value.as_str).getD "files"
    files := ((d.get "offers").bind Value.as_u64).getD 0
    peers := ((d.get "peers").bind Value.as_u64).getD 0
    mine := ((d.get "mine").bind Value.as_bool).getD true }

/-- The items of a list, or the drops. -/
def items_of (listed : Value) (key : String) : List Value :=
  ((listed.get key).bind Value.as_array).getD []

def available_row (handle group : String) (item : Value) : Option AvailableRow :=
  let status := (item.get "status").bind Value.as_str
  if status = some "missing" ∨ status = some "failed" then
    some { drop := handle, group, pick := toString (((item.get "n").bind Value.as_u64).getD 0)
           name := item.str_of "name", size := item.str_of "human_size" }
  else none

def send_label (paths : List PathBuf) : String :=
  match paths.head?.bind PathBuf.file_name with
  | some first =>
    if paths.length > 1 then s!"{first} +{paths.length - 1}" else first
  | none => "files"

/-- The events that change who is in a drop, or what is offered there. -/
def membership_changed (e : String) : Bool :=
  e ∈ ["peer.joined", "peer.left", "drop.joined", "drop.left", "offer.received", "offer.declined"]

/-! ### Parameters -/

def drop_params (handle : String) : Value := .object [("drop", .string handle)]

def publish_params (handle : Value) (path : String) : Value :=
  .object [("drop", handle), ("path", .string path)]

def fetch_params (drop pick : String) : Value :=
  .object [("drop", .string drop), ("pick", .string pick)]

section Worker

variable {σ : Type} (world : DaemonClient σ)

namespace Worker

def note (self : Worker σ) (line : String) : Worker σ :=
  { self with bridge := { self.bridge with state := self.bridge.state.note line } }

def set_error (self : Worker σ) (error : Option String) : Worker σ :=
  { self with panel := { self.panel with error } }

def set_busy (self : Worker σ) (busy : Option String) : Worker σ :=
  { self with panel := { self.panel with busy } }

def set_share (self : Worker σ) (link name : Option String) : Worker σ :=
  { self with panel := { self.panel with share_link := link, share_link_name := name } }

def now (self : Worker σ) : Instant := world.now self.client

def call (self : Worker σ) (method : String) (params : Value) :
    Except ApiError Value × Worker σ :=
  let (answer, client) := world.call self.client method params
  (answer, { self with client, calls := self.calls ++ [(method, params)] })

def answer (self : Worker σ) (id : UInt64) (value : Option Value) : Worker σ :=
  { self with client := world.answer self.client id value, answers := self.answers ++ [(id, value)] }

def sleep (self : Worker σ) (length : Duration) : Worker σ :=
  { self with client := world.sleep self.client length }

/-! ## The state of the daemon -/

/-- The loop of `refresh_status` over the drops and their names. -/
def list_available (self : Worker σ) : List (String × String) → List AvailableRow × Worker σ
  | [] => ([], self)
  | (handle, group) :: handles =>
    let (listed, self) := self.call world "offer.list" (drop_params handle)
    let (rows, self) := self.list_available handles
    match listed with
    | .ok listed => ((items_of listed "items").filterMap (available_row handle group) ++ rows, self)
    | .error _ => (rows, self)

def show_status (self : Worker σ) (status listed : Except ApiError Value) : Panel :=
  let panel := match status with
    | .ok status => { self.panel with
        lan_only := ((status.get "offline").bind Value.as_bool).getD false
        download_dir := status.str_of "download_dir" }
    | .error _ => self.panel
  match listed with
  | .ok listed => { panel with drops := (items_of listed "drops").map drop_row }
  | .error _ => panel

def refresh_status (self : Worker σ) : Worker σ :=
  let (status, self) := self.call world "daemon.status" (.object [])
  let (listed, self) := self.call world "drop.list" (.object [])
  let panel := self.show_status status listed
  let self := { self with panel }
  let (available, self) := self.list_available world (panel.drops.map fun d => (d.handle, d.name))
  { self with panel := { self.panel with available } }

/-! ## Sending -/

/-- The loop of `do_send`: what went wrong, if anything did. -/
def publish (self : Worker σ) (handle : Value) : List PathBuf → Option String × Worker σ
  | [] => (none, self)
  | path :: paths =>
    match path.to_str with
    | none => (some "that path is not valid text", self)
    | some path =>
      match self.call world "offer.publish" (publish_params handle path) with
      | (.error e, self) => (some e.msg, self)
      | (.ok _, self) => self.publish handle paths

def do_send (self : Worker σ) (paths : List PathBuf) : Except String String × Worker σ :=
  match self.call world "drop.create" (.object [("name", .string (send_label paths))]) with
  | (.error e, self) => (.error e.msg, self)
  | (.ok created, self) =>
    let handle := (created.get "drop").getD .null
    match self.publish world handle paths with
    | (some e, self) => (.error e, self)
    | (none, self) =>
      match self.call world "drop.ticket" (.object [("drop", handle)]) with
      | (.error e, self) => (.error e.msg, self)
      | (.ok ticket, self) => (.ok (ticket.str_of "link"), self)

def send (self : Worker σ) (paths : List PathBuf) : Worker σ :=
  let label := send_label paths
  let self := ((self.set_busy (some "Preparing…")).set_error none).set_share none none
  let (result, self) := self.do_send world paths
  let self := self.set_busy none
  match result with
  | .ok link =>
    (self.note s!"Ready to share {paths.length} item(s).").set_share (some link) (some label)
  | .error e => self.set_error (some e)

/-! ## Receiving -/

/-- Until the drop has an item, or the deadline has passed. -/
def poll (self : Worker σ) (handle : String) (deadline : Instant) :
    Except String String × Worker σ :=
  let listing := self.call world "offer.list" (drop_params handle)
  match listing.1 with
  | .error e => (.error e.msg, listing.2)
  | .ok listed =>
    if (items_of listed "items").isEmpty = false ∨ deadline < listing.2.now world then
      (.ok handle, listing.2)
    else (listing.2.sleep world (from_millis 400)).poll handle deadline
termination_by deadline + 1 - self.now world
decreasing_by
  rename_i hearly
  have hcall := world.call_later self.client "offer.list" (drop_params handle)
  have hsleep := world.sleep_later listing.2.client (from_millis 400)
  change world.now self.client ≤ world.now listing.2.client at hcall
  change deadline + 1 - world.now (world.sleep listing.2.client (from_millis 400)) <
    deadline + 1 - world.now self.client
  rw [not_or] at hearly
  simp only [now, from_millis, Instant, Duration] at hcall hearly hsleep ⊢
  omega

/-- It joins, and waits for what is there already. It fetches nothing: that is the answer to
the questions that will come. -/
def do_receive (self : Worker σ) (input : String) : Except String String × Worker σ :=
  match extract_ticket input.toList with
  | none => (.error "that does not look like an iroh-drop link", self)
  | some ticket =>
    match self.call world "drop.join" (.object [("ticket", .string (String.ofList ticket))]) with
    | (.error e, self) => (.error e.msg, self)
    | (.ok joined, self) =>
      self.poll world (joined.str_of "drop") (self.now world + Duration.from_secs 8)

def connecting (self : Worker σ) : Worker σ := (self.set_busy (some "Connecting…")).set_error none

def receive (self : Worker σ) (input : String) : Worker σ :=
  let (result, self) := self.connecting.do_receive world input
  let self := self.set_busy none
  match result with
  | .ok handle => { self with requested := self.requested.insert handle (self.now world) }
  | .error e => self.set_error (some e)

/-! ## The other commands -/

def fetch (self : Worker σ) (drop pick : String) : Worker σ :=
  match self.call world "offer.fetch" (fetch_params drop pick) with
  | (.error e, self) => self.set_error (some e.msg)
  | (.ok _, self) => self

/-- A transfer that failed starts again. -/
def reopen (drop name : String) (row : Transfer) : Transfer :=
  if row.drop = drop ∧ row.name = name ∧ row.failed.isSome then
    { row with finished := false, failed := none, done := 0 }
  else row

def set_transfers (self : Worker σ) (transfers : List Transfer) : Worker σ :=
  { self with bridge := { self.bridge with state := { self.bridge.state with transfers } } }

def transfers (self : Worker σ) : List Transfer := self.bridge.state.transfers

def answer_card (self : Worker σ) (id : UInt64) (accept : Bool) : Worker σ :=
  let self := self.answer world id (if accept then some accepting else none)
  let incoming := self.panel.incoming.filter fun card => card.id ≠ id
  let self := { self with panel := { self.panel with incoming } }
  if accept then self else self.note "Declined."

def ticket (self : Worker σ) (handle name : String) : Worker σ :=
  match self.call world "drop.ticket" (drop_params handle) with
  | (.ok ticket, self) =>
    (self.set_share (some (ticket.str_of "link")) (some name)).set_error none
  | (.error e, self) => self.set_error (some e.msg)

def obey (self : Worker σ) : Cmd → Worker σ
  | .Answer id accept => self.answer_card world id accept
  | .Send paths => self.send world paths
  | .Receive input => self.receive world input
  | .Forget handle => (self.call world "drop.leave" (drop_params handle)).2
  | .Fetch drop pick name => (self.note s!"getting {name}").fetch world drop pick
  | .Retry drop name =>
    (self.set_transfers (self.transfers.map (reopen drop name))).fetch world drop name
  | .DismissError => self.set_error none
  | .ClearFinished => self.set_transfers (self.transfers.filter fun row => !row.finished)
  | .Ticket handle name => self.ticket world handle name

def handle_cmd (self : Worker σ) (cmd : Cmd) : Worker σ :=
  (self.obey world cmd).refresh_status world

/-! ## The loop -/

/-- Cards that have expired go. -/
def tick (self : Worker σ) : Worker σ :=
  let incoming := self.panel.incoming.filter fun card => self.now world < card.expires_at
  let pruned := { self with panel := { self.panel with incoming } }
  if incoming.length ≠ self.panel.incoming.length then
    pruned.note "An offer expired before anyone answered it."
  else pruned

/-- The user asked for this drop a moment ago. -/
def solicited (self : Worker σ) (handle : String) : Bool :=
  (self.requested.lookup handle).any fun at_ => self.now world - at_ < RECEIVE_GRACE

/-- A question is answered, or shown. -/
def ask (self : Worker σ) (ask : AskRequest) : Worker σ :=
  if self.solicited world (ask.p.str_of "drop") then self.answer world ask.id (some accepting)
  else
    { self with panel := { self.panel with
        incoming := self.panel.incoming ++ [incoming_of ask (self.now world)] } }

def event (self : Worker σ) (env : Envelope) : Worker σ :=
  let self := { self with bridge := self.bridge.apply_event env }
  if membership_changed env.e then self.refresh_status world else self

/-- The daemon has closed the events. -/
def closed (self : Worker σ) : Worker σ :=
  { self with
      running := false
      panel := { self.panel with connected := false, error := some "the daemon went away" } }

end Worker

/-- What a turn of the loop is about. Channels that lag or have closed give no question, and
those of the events that lag give no event. -/
inductive Turn where
  | tick
  | cmd (cmd : Option Cmd)
  | ask (ask : Option AskRequest)
  | event (env : Option Envelope)
  | closed

namespace Worker

def take (self : Worker σ) : Turn → Worker σ
  | .tick => self.tick world
  | .cmd (some cmd) => self.handle_cmd world cmd
  | .cmd none => { self with running := false }
  | .ask (some ask) => self.ask world ask
  | .ask none => self
  | .event (some env) => self.event world env
  | .event none => self
  | .closed => self.closed

/-- The next turn of the loop, after some time. -/
def step (self : Worker σ) (turn : Duration × Turn) : Worker σ :=
  if self.running then (self.sleep world turn.1).take world turn.2 else self

/-! ## The start -/

end Worker

/-- How the worker finds its daemon: a helper that runs, or one that it starts, or a service of
its own. -/
structure Tiers (σ : Type) where
  attach : Except ApiError σ
  start_helper : Bool
  attach_again : Except ApiError σ
  embedded : Except ApiError σ

namespace Worker

def shown (client : σ) (lines : List String) : Worker σ :=
  { client, bridge := { Bridge.new with state := { transfers := [], log := lines } }
    panel := { Panel.default with
      connected := true, endpoint_id := (world.hello client).str_of "endpoint_id" }
    requested := ∅, calls := [], answers := [], running := true }

/-- The worker at the start of its loop. -/
def opened (client : σ) (lines : List String) : Worker σ :=
  (shown world client lines).refresh_status world

/-- What the window says of how it found its daemon. -/
def start (tiers : Tiers σ) : Except String (Worker σ) :=
  match tiers.attach with
  | .ok client => .ok (opened world client [])
  | .error _ =>
    if tiers.start_helper then
      match tiers.attach_again with
      | .ok client =>
        let line := "Started the background helper, so shared files stay available."
        .ok (opened world client [line])
      | .error e => .error s!"the background helper did not answer: {e.code}: {e.msg}"
    else
      match tiers.embedded with
      | .ok client =>
        let line := "No background daemon found, so this window is hosting. " ++
          "Files stop being available when you close it."
        .ok (opened world client [line])
      | .error e => .error s!"cannot start: {e.code}: {e.msg}"

def run (self : Worker σ) (turns : List (Duration × Turn)) : Worker σ :=
  runs.run (step world) self turns

/-! ## Talking to the daemon -/

end Worker

/-- A call that changes something: the others only look. -/
def changes (call : Call) : Bool := call.1 ∉ ["daemon.status", "drop.list", "offer.list"]

namespace Worker

/-- Calls and sleeps, one after the other, and nothing else. `look`: calls that only look. -/
inductive Talks (look : Bool) (w : Worker σ) : Worker σ → Prop
  | refl : Talks look w w
  | call {w' : Worker σ} (h : Talks look w w') (method : String) (params : Value)
      (hlook : look = true → changes (method, params) = false) :
      Talks look w (w'.call world method params).2
  | sleep {w' : Worker σ} (h : Talks look w w') (length : Duration) :
      Talks look w (w'.sleep world length)

namespace Talks

variable {world} {look : Bool} {w w' w'' : Worker σ}

theorem trans (h : Talks world look w w') (h' : Talks world look w' w'') :
    Talks world look w w'' := by
  induction h' with
  | refl => exact h
  | call _ method params hlook ih => exact ih.call method params hlook
  | sleep _ length ih => exact ih.sleep length

/-- The answer of a call does not matter. -/
theorem called (h : Talks world look w w') {method : String} {params : Value}
    {called : Except ApiError Value × Worker σ} (hcalled : w'.call world method params = called)
    (hlook : look = true → changes (method, params) = false) : Talks world look w called.2 :=
  hcalled ▸ h.call method params hlook

end Talks

variable (w : Worker σ)

theorem list_available_talks (handles : List (String × String)) :
    Talks world true w (w.list_available world handles).2 := by
  induction handles generalizing w with
  | nil => exact .refl
  | cons handle handles ih =>
    have hcall : Talks world true w (w.call world "offer.list" (drop_params handle.1)).2 :=
      Talks.refl.call _ _ fun _ => rfl
    have hrest := ih (w.call world "offer.list" (drop_params handle.1)).2
    unfold list_available
    simp only
    split <;> exact hcall.trans hrest

theorem poll_talks (handle : String) (deadline : Instant) :
    Talks world true w (w.poll world handle deadline).2 := by
  induction w using poll.induct world handle deadline with
  | case1 w listing e hlisted =>
    have hcall : Talks world true w listing.2 := Talks.refl.call _ _ fun _ => rfl
    rw [poll, hlisted]
    exact hcall
  | case2 w listing listed hlisted hdone =>
    have hcall : Talks world true w listing.2 := Talks.refl.call _ _ fun _ => rfl
    rw [poll, hlisted]
    dsimp only
    rw [if_pos]
    · exact hcall
    · exact hdone
  | case3 w listing listed hlisted hmore ih =>
    have hcall : Talks world true w listing.2 := Talks.refl.call _ _ fun _ => rfl
    rw [poll, hlisted]
    dsimp only
    rw [if_neg]
    · exact (hcall.sleep (from_millis 400)).trans ih
    · exact hmore

theorem Talks.any {w w' : Worker σ} (h : Talks world true w w') : Talks world false w w' := by
  induction h with
  | refl => exact .refl
  | call _ method params _ ih => exact ih.call method params (by rintro ⟨⟩)
  | sleep _ length ih => exact ih.sleep length

theorem publish_talks (handle : Value) (paths : List PathBuf) :
    Talks world false w (w.publish world handle paths).2 := by
  induction paths generalizing w with
  | nil => exact .refl
  | cons path paths ih =>
    unfold publish
    rcases path.to_str with _ | path
    · exact .refl
    · simp only
      rcases hcalled : w.call world "offer.publish" (publish_params handle path) with ⟨e | v, called⟩
      all_goals
        have hcall : Talks world false w called := Talks.refl.called hcalled (by rintro ⟨⟩)
      · exact hcall
      · exact hcall.trans (ih called)

theorem do_send_talks (paths : List PathBuf) : Talks world false w (w.do_send world paths).2 := by
  unfold do_send
  rcases hcreated : w.call world "drop.create" (.object [("name", .string (send_label paths))])
    with ⟨e | v, created⟩
  all_goals
    have hcreate : Talks world false w created := Talks.refl.called hcreated (by rintro ⟨⟩)
  · exact hcreate
  · have hpublish := hcreate.trans (created.publish_talks world ((v.get "drop").getD .null) paths)
    simp only
    rcases hpublished : created.publish world ((v.get "drop").getD .null) paths
      with ⟨_ | e, published⟩
    all_goals rw [hpublished] at hpublish
    · simp only
      rcases hticketed : published.call world "drop.ticket"
        (.object [("drop", (v.get "drop").getD .null)]) with ⟨e | ticket, ticketed⟩
      all_goals exact hpublish.called hticketed (by rintro ⟨⟩)
    · exact hpublish

theorem do_receive_talks (input : String) :
    Talks world false w (w.do_receive world input).2 := by
  unfold do_receive
  rcases extract_ticket input.toList with _ | ticket
  · exact .refl
  · simp only
    rcases hjoined : w.call world "drop.join" (.object [("ticket", .string (String.ofList ticket))])
      with ⟨e | joined, called⟩
    all_goals
      have hjoin : Talks world false w called := Talks.refl.called hjoined (by rintro ⟨⟩)
    · exact hjoin
    · exact hjoin.trans (called.poll_talks world _ _).any

end Worker

end Worker

end gui

end iroh_drop
