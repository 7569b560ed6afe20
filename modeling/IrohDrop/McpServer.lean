-- The server for agents: requests of JSON-RPC on one side, calls of the control
-- API on the other. It answers each request once, and asks the daemon for what
-- the agent asked for and no more (lib.rs of iroh-drop-mcp).
import IrohDrop.Links
import IrohDrop.Replies
import IrohDrop.TransferRows

open rust_std

namespace iroh_drop

namespace Value

/-- A new field, or a new value of a field that is there. -/
def insert (key : String) (value : Value) : Value → Value
  | .object fields =>
    if fields.any fun field => field.1 = key then
      .object (fields.map fun field => if field.1 = key then (key, value) else field)
    else .object (fields ++ [(key, value)])
  | other => other

end Value

namespace mcp

def PROTOCOL_VERSION : String := "2025-03-26"
def SERVER_NAME : String := "iroh-drop-mcp"

/-- The version of the crate. -/
def CARGO_PKG_VERSION : String := "0.1.0"

/-! ## The daemon -/

/-- A call that the server makes: its method and parameters. -/
abbrev Call := String × Value

/-- The client of the daemon, as the server sees it: what a call answers, and the first
event that meets a condition. -/
structure DaemonClient (σ : Type) where
  call : σ → String → Value → Except ApiError Value × σ
  wait_for : σ → (Envelope → Bool) → Except ApiError Envelope × σ

/-- A server that runs: its client, and the calls that it made, oldest first. -/
structure Server (σ : Type) where
  client : σ
  calls : List Call

inductive ToolError where
  | UnknownTool
  | Daemon (msg : String)

def ToolError.from (e : ApiError) : ToolError := .Daemon s!"{e.code}: {e.msg}"

/-! ## Tools -/

def «require» (args : Value) (key : String) : Except ToolError String :=
  match (args.get key).bind Value.as_str with
  | some value => .ok value
  | none => .error (.Daemon s!"{key} is required")

/-- The link of a new drop: its own, or one that is made of its ticket. -/
def link_of (v : Value) (ticket : String) : String :=
  ((v.get "link").bind Value.as_str).getD s!"iroh-drop://receive/{ticket}"

def with_link (v : Value) : Value :=
  match (v.get "ticket").bind Value.as_str with
  | some ticket => v.insert "link" (.string (link_of v ticket))
  | none => v

/-- The last `limit` of the events, and the rest of the answer as it is. -/
def keep_tail (limit : Nat) (v : Value) : Value :=
  match (v.get "events").bind Value.as_array with
  | some events => v.insert "events" (.array (events.drop (events.length - limit)))
  | none => v

/-- The task of an answer. -/
def task_of (started : Value) : String := ((started.get "task").bind Value.as_str).getD ""

/-- The event that ends a task. -/
def ends_task (task : String) (env : Envelope) : Bool :=
  env.e = "task.state" && (env.p.get "task").bind Value.as_str = some task &&
    (env.p.get "state").bind Value.as_str ≠ some "running"

def task_outcome (env : Envelope) : Value :=
  .object [("state", (env.p.get "state").getD (.string "unknown")),
    ("error", (env.p.get "error").getD .null)]

def still_running : Value :=
  .object [("state", .string "running"),
    ("note", .string "still working after 5 minutes; poll drop_events for task.state")]

section Server

variable {σ : Type} (world : DaemonClient σ)

namespace Server

def call (self : Server σ) (method : String) (params : Value) :
    Except ToolError Value × Server σ :=
  let (answer, client) := world.call self.client method params
  (answer.mapError ToolError.from, { client, calls := self.calls ++ [(method, params)] })

/-- A timeout is not an error: the agent can poll. -/
def wait_task (self : Server σ) (task : String) : Except ToolError Value × Server σ :=
  let (event, client) := world.wait_for self.client (ends_task task)
  let self := { self with client }
  match event with
  | .ok env => (.ok (task_outcome env), self)
  | .error e => if e.code = "timeout" then (.ok still_running, self) else (.error (.from e), self)

/-- A call that starts a task, and the wait for its end. -/
def run_task (self : Server σ) (method : String) (params : Value) :
    Except ToolError (String × Value) × Server σ :=
  match self.call world method params with
  | (.error e, self) => (.error e, self)
  | (.ok started, self) =>
    match self.wait_task world (task_of started) with
    | (.error e, self) => (.error e, self)
    | (.ok outcome, self) => (.ok (task_of started, outcome), self)

/-- The loop of `share_files`: the paths that are left, and what was published so far. -/
def share (self : Server σ) (drop : String) (name : Option String) (count : Nat) :
    List Value → List Value → Except ToolError Value × Server σ
  | [], published => (.ok (.object [("published", .array published)]), self)
  | path :: paths, published =>
    match path.as_str with
    | none => (.error (.Daemon "paths must be strings"), self)
    | some path =>
      if name.isSome && 1 < count then
        (.error (.Daemon "name only makes sense for a single file"), self)
      else
        match self.run_task world "offer.publish" (.object [("drop", .string drop),
          ("path", .string path), ("name", .optional .string name)]) with
        | (.error e, self) => (.error e, self)
        | (.ok (task, done), self) =>
          self.share drop name count paths (published ++ [.object [("path", .string path),
            ("task", .string task), ("outcome", done)]])

/-- One call whose answer is passed on. -/
def pass_on (self : Server σ) (method : String) (params : Except ToolError Value)
    (finish : Value → Value) : Except ToolError Value × Server σ :=
  match params with
  | .error e => (.error e, self)
  | .ok params =>
    match self.call world method params with
    | (.error e, self) => (.error e, self)
    | (.ok v, self) => (.ok (finish v), self)

end Server

/-! ### Parameters -/

def join_params (args : Value) : Except ToolError Value :=
  match (args.get "ticket_or_link").bind Value.as_str with
  | none => .error (.Daemon "ticket_or_link is required")
  | some text =>
    match ticket_from_text text.toList with
    | none => .error (.Daemon "no drop ticket found in the input")
    | some ticket => .ok (.object [("ticket", .string (String.ofList ticket))])

def leave_params (args : Value) : Except ToolError Value := do
  let drop ← «require» args "drop"
  .ok (.object [("drop", .string drop), ("forget", (args.get "forget").getD (.bool false))])

def list_params (args : Value) : Except ToolError Value := do
  let drop ← «require» args "drop"
  .ok (.object [("drop", .string drop)])

def fetch_params (args : Value) : Except ToolError Value := do
  let drop ← «require» args "drop"
  let pick ← «require» args "pick"
  .ok (.object [("drop", .string drop), ("pick", .string pick),
    ("out", .optional .string ((args.get "out").bind Value.as_str))])

def replay_params (args : Value) : Value :=
  .object [("from", .pos_int (((args.get "from").bind Value.as_u64).getD 0))]

/-- How many events an agent gets, at most. -/
def event_limit (args : Value) : Nat :=
  min (((args.get "limit").bind Value.as_u64).getD 50).toNat 200

def share_params (args : Value) : Except ToolError (String × List Value) := do
  let drop ← «require» args "drop"
  match (args.get "paths").bind Value.as_array with
  | some paths => .ok (drop, paths)
  | none => .error (.Daemon "paths (array) is required")

def Server.fetch (self : Server σ) (args : Value) : Except ToolError Value × Server σ :=
  match fetch_params args with
  | .error e => (.error e, self)
  | .ok params =>
    match self.run_task world "offer.fetch" params with
    | (.error e, self) => (.error e, self)
    | (.ok (task, outcome), self) =>
      (.ok (.object [("task", .string task), ("outcome", outcome)]), self)

def Server.share_files (self : Server σ) (args : Value) : Except ToolError Value × Server σ :=
  match share_params args with
  | .error e => (.error e, self)
  | .ok (drop, paths) =>
    self.share world drop ((args.get "name").bind Value.as_str) paths.length paths []

def Server.call_tool (self : Server σ) (name : String) (args : Value) :
    Except ToolError Value × Server σ :=
  match name with
  | "list_drops" => self.pass_on world "drop.list" (.ok (.object [])) id
  | "create_drop" =>
    self.pass_on world "drop.create" (.ok (.object [("name", (args.get "name").getD .null)]))
      with_link
  | "join_drop" => self.pass_on world "drop.join" (join_params args) id
  | "leave_drop" => self.pass_on world "drop.leave" (leave_params args) id
  | "list_offers" => self.pass_on world "offer.list" (list_params args) id
  | "share_files" => self.share_files world args
  | "fetch" => self.fetch world args
  | "drop_events" =>
    self.pass_on world "events.replay" (.ok (replay_params args)) (keep_tail (event_limit args))
  | _ => (.error .UnknownTool, self)

end Server

/-! ## Messages -/

/-- The reply to a request that worked. -/
def result (id r : Value) : Value :=
  .object [("jsonrpc", .string "2.0"), ("id", id), ("result", r)]

def error (id : Value) (code : Int64) (message : String) : Value :=
  .object [("jsonrpc", .string "2.0"), ("id", id),
    ("error", .object [("code", .neg_int code), ("message", .string message)])]

def text_content (text : String) : Value :=
  .array [.object [("type", .string "text"), ("text", .string text)]]

def tool_ok (to_string_pretty : Value → String) (v : Value) : Value :=
  .object [("content", text_content (to_string_pretty v))]

def tool_err (msg : String) : Value :=
  .object [("content", text_content msg), ("isError", .bool true)]

/-! ### The list of tools -/

def prop (type description : String) : Value :=
  .object [("type", .string type), ("description", .string description)]

/-- A tool and the schema of its arguments. -/
def tool (name description : String) (properties : List (String × Value))
    («required» : List String) : Value :=
  .object [("name", .string name), ("description", .string description),
    ("inputSchema", .object ([("type", .string "object"), ("properties", .object properties)] ++
      if «required» = [] then [] else [("required", .array («required».map Value.string))]))]

def drop_prop : Value :=
  prop "string"
    "Daemon-local drop handle (e.g. \"d3\") from list_drops, create_drop, or join_drop"

def tools : List Value := [
  tool "list_drops"
    "List drops this daemon participates in: handle, name, peer count, offer count." [] [],
  tool "create_drop"
    "Create a new drop. Returns the handle, the bearer ticket, and a shareable link."
    [("name", prop "string" "Display name for the drop")] [],
  tool "join_drop"
    ("Join a drop. Accepts a bare drop2… ticket, an iroh-drop:// link, an https://…#drop2… link, " ++
      "or text containing one.")
    [("ticket_or_link", .object [("type", .string "string")])] ["ticket_or_link"],
  tool "leave_drop" "Leave a drop. With forget=true also stops serving its content."
    [("drop", drop_prop), ("forget", prop "boolean" "Also forget local state (default false)")]
    ["drop"],
  tool "list_offers"
    ("List what a drop offers: numbered items with name, hash, size, and status " ++
      "(missing / fetching / failed / available).")
    [("drop", drop_prop)] ["drop"],
  tool "share_files"
    ("Publish local files into a drop so its members can fetch them. Waits for each publish " ++
      "and reports the outcome.")
    [("drop", drop_prop),
      ("paths", .object [("type", .string "array"), ("items", .object [("type", .string "string")]),
        ("description", .string "Absolute paths to publish")]),
      ("name", prop "string" "Display name (single file only)")]
    ["drop", "paths"],
  tool "fetch"
    ("Fetch one offered item by number, name, or hash prefix. This call IS the user's consent " ++
      "for that item; unsolicited offers are never fetched automatically. Waits for completion " ++
      "(up to 5 minutes) and reports the outcome.")
    [("drop", drop_prop),
      ("pick", prop "string" "Item number, file name, or hash prefix from list_offers"),
      ("out", prop "string" "Output directory (default: the daemon's download dir)")]
    ["drop", "pick"],
  tool "drop_events"
    "Bounded tail of the daemon's event log (peer joins, offers, progress, completions)."
    [("from", prop "integer" "Replay events with seq >= from (default 0)"),
      ("limit", prop "integer" "Max events to return (default 50, max 200)")] []]

def INSTRUCTIONS : String :=
  "iroh-drop is a consent-based file-sharing network. You may list drops and offers freely, " ++
    "and you may publish or fetch ONLY what the user asked for: a fetch call is treated as the " ++
    "user's explicit consent for that one item. Never fetch unsolicited offers, and never join " ++
    "a drop the user did not give you a ticket for."

def server_info : Value :=
  .object [("protocolVersion", .string PROTOCOL_VERSION),
    ("capabilities", .object [("tools", .object [("listChanged", .bool false)])]),
    ("serverInfo", .object [("name", .string SERVER_NAME), ("version", .string CARGO_PKG_VERSION)]),
    ("instructions", .string INSTRUCTIONS)]

/-! ## The loop -/

section Loop

variable {σ : Type} (world : DaemonClient σ) (to_string_pretty : Value → String)
  (from_str : List Char → Except String Value)

/-- The tool of a request, and its arguments. -/
def tool_name (params : Option Value) : String :=
  ((params.bind fun p => p.get "name").bind Value.as_str).getD ""

def tool_args (params : Option Value) : Value :=
  (params.bind fun p => p.get "arguments").getD (.object [])

namespace Server

def dispatch (self : Server σ) (id : Value) (method : String) (params : Option Value) :
    Value × Server σ :=
  match method with
  | "initialize" => (result id server_info, self)
  | "ping" => (result id (.object []), self)
  | "tools/list" => (result id (.object [("tools", .array tools)]), self)
  | "tools/call" =>
    match self.call_tool world (tool_name params) (tool_args params) with
    | (.ok v, self) => (result id (tool_ok to_string_pretty v), self)
    | (.error .UnknownTool, self) => (error id (-32602) s!"unknown tool {tool_name params}", self)
    | (.error (.Daemon msg), self) => (result id (tool_err msg), self)
  | _ => (error id (-32601) s!"no such method {method}", self)

def method_of (msg : Value) : String := ((msg.get "method").bind Value.as_str).getD ""

/-- One line of the agent, and the reply to it. A message without an id is a notification. -/
def run_line (self : Server σ) (line : List Char) : Option Value × Server σ :=
  let line := DropTicket.trim line
  if line = [] then (none, self)
  else
    match from_str line with
    | .error e => (some (error .null (-32700) s!"parse error: {e}"), self)
    | .ok msg =>
      match msg.get "id" with
      | none => (none, self)
      | some id =>
        let (reply, self) := self.dispatch world to_string_pretty id (method_of msg)
          (msg.get "params")
        (some reply, self)

/-- The replies to the lines of the agent, oldest first. -/
def run (self : Server σ) : List (List Char) → List Value × Server σ
  | [] => ([], self)
  | line :: lines =>
    let (reply, self) := self.run_line world to_string_pretty from_str line
    let (replies, self) := self.run lines
    (reply.toList ++ replies, self)

end Server

end Loop

end mcp

end iroh_drop
