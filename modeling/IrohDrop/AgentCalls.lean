-- What the server for agents answers, and what it asks of the daemon: a reply to
-- each request, and no call that no request asks for (lib.rs of iroh-drop-mcp).
import IrohDrop.McpServer

open rust_std

namespace iroh_drop

namespace mcp

/-! ## What the agent asks for -/

/-- The call of a tool that makes one, if its arguments are good. -/
def one (method : String) : Except ToolError Value → List Call
  | .ok params => [(method, params)]
  | .error _ => []

/-- The paths before the first thing that is none. -/
def share_paths : List Value → List String
  | [] => []
  | path :: paths =>
    match path.as_str with
    | some path => path :: share_paths paths
    | none => []

def publish_call (drop : String) (name : Option String) (path : String) : Call :=
  ("offer.publish",
    .object [("drop", .string drop), ("path", .string path), ("name", .optional .string name)])

/-- The publishes that `share_files` is asked for. -/
def asked_shares (args : Value) : List Call :=
  match share_params args with
  | .error _ => []
  | .ok (drop, paths) =>
    let name := (args.get "name").bind Value.as_str
    if name.isSome && 1 < paths.length then []
    else (share_paths paths).map (publish_call drop name)

/-- What the use of a tool asks of the daemon. -/
def asked (name : String) (args : Value) : List Call :=
  match name with
  | "list_drops" => [("drop.list", .object [])]
  | "create_drop" => [("drop.create", .object [("name", (args.get "name").getD .null)])]
  | "join_drop" => one "drop.join" (join_params args)
  | "leave_drop" => one "drop.leave" (leave_params args)
  | "list_offers" => one "offer.list" (list_params args)
  | "share_files" => asked_shares args
  | "fetch" => one "offer.fetch" (fetch_params args)
  | "drop_events" => [("events.replay", replay_params args)]
  | _ => []

section Laws

variable {σ : Type} (world : DaemonClient σ) (to_string_pretty : Value → String)
  (from_str : List Char → Except String Value)

/-- The id that a line is answered with, if it is answered. -/
def answered (line : List Char) : Option Value :=
  let line := DropTicket.trim line
  if line = [] then none
  else
    match from_str line with
    | .error _ => some .null
    | .ok msg => msg.get "id"

namespace Server

variable (self : Server σ)

end Server

/-! ## The list and the tools -/

namespace Server

variable {α : Type} (self : Server σ)

/-- The tool is one that is served, whatever became of its use. -/
def Served (answer : Except ToolError α × Server σ) : Prop := answer.1 ≠ .error .UnknownTool

theorem served_error (msg : String) : Served ((.error (.Daemon msg), self) : Except ToolError α × _) := by
  intro h
  cases h

theorem served_ok (v : α) : Served ((.ok v, self) : Except ToolError α × _) := by
  intro h
  cases h

theorem served_call (method : String) (params : Value) :
    Served (self.call world method params) := by
  unfold call
  rcases world.call self.client method params with ⟨e | v, client⟩
  · exact served_error _ _
  · exact served_ok _ _

theorem served_wait_task (task : String) : Served (self.wait_task world task) := by
  unfold wait_task
  simp only
  split
  · exact served_ok _ _
  · split
    · exact served_ok _ _
    · exact served_error _ _

theorem served_run_task (method : String) (params : Value) :
    Served (self.run_task world method params) := by
  have hcall := self.served_call world method params
  unfold run_task
  rcases hcalled : self.call world method params with ⟨(_ | msg) | started, called⟩
  · rw [hcalled] at hcall
    exact absurd rfl hcall
  · exact served_error _ _
  · have hwait := called.served_wait_task world (task_of started)
    simp only
    rcases hwaited : called.wait_task world (task_of started) with ⟨(_ | msg) | outcome, waited⟩
    · rw [hwaited] at hwait
      exact absurd rfl hwait
    · exact served_error _ _
    · exact served_ok _ _

theorem served_pass_on (method : String) {params : Except ToolError Value}
    (hparams : params ≠ .error .UnknownTool) (finish : Value → Value) :
    Served (self.pass_on world method params finish) := by
  unfold pass_on
  rcases params with (_ | msg) | params
  · exact absurd rfl hparams
  · exact served_error _ _
  · have hcall := self.served_call world method params
    simp only
    rcases hcalled : self.call world method params with ⟨(_ | msg) | v, called⟩
    · rw [hcalled] at hcall
      exact absurd rfl hcall
    · exact served_error _ _
    · exact served_ok _ _

theorem served_share (drop : String) (name : Option String) (count : Nat)
    (paths published : List Value) : Served (self.share world drop name count paths published) := by
  induction paths generalizing self published with
  | nil => exact served_ok _ _
  | cons path paths ih =>
    unfold share
    rcases path.as_str with _ | path
    · exact served_error _ _
    · simp only
      split
      · exact served_error _ _
      · have htask := self.served_run_task world "offer.publish" (.object [("drop", .string drop),
          ("path", .string path), ("name", .optional .string name)])
        rcases hran : self.run_task world "offer.publish" (.object [("drop", .string drop),
          ("path", .string path), ("name", .optional .string name)])
          with ⟨(_ | msg) | ⟨task, done⟩, ran⟩
        · rw [hran] at htask
          exact absurd rfl htask
        · exact served_error _ _
        · exact ih ran _

/-- Arguments that are no good are an error of the daemon's kind. -/
theorem params_served (args : Value) : join_params args ≠ .error .UnknownTool ∧
    leave_params args ≠ .error .UnknownTool ∧ list_params args ≠ .error .UnknownTool ∧
    fetch_params args ≠ .error .UnknownTool ∧ share_params args ≠ .error .UnknownTool := by
  have hrequire : ∀ key, «require» args key ≠ .error .UnknownTool := by
    intro key
    unfold «require»
    split <;> simp
  have hbind : ∀ {α : Type} (key : String) (f : String → Except ToolError α),
      (∀ value, f value ≠ .error .UnknownTool) →
        («require» args key >>= f) ≠ .error .UnknownTool := by
    intro α key f hf
    have hkey := hrequire key
    rcases hvalue : «require» args key with e | value
    · rw [hvalue] at hkey
      simpa [bind, Except.bind] using hkey
    · exact hf value
  refine ⟨?_, ?_, ?_, ?_, ?_⟩
  · unfold join_params
    split
    · simp
    · split <;> simp
  · exact hbind "drop" _ fun _ => by simp
  · exact hbind "drop" _ fun _ => by simp
  · exact hbind "drop" _ fun _ => hbind "pick" _ fun _ => by simp
  · refine hbind "drop" _ fun _ => ?_
    split <;> simp

/-- The tools that are listed are the tools that are served. -/
theorem listed_tools_are_served (name : String) (args : Value) :
    name ∈ tools.filterMap (fun tool => (tool.get "name").bind Value.as_str) ↔
      Served (self.call_tool world name args) := by
  have hlisted : tools.filterMap (fun tool => (tool.get "name").bind Value.as_str) =
      ["list_drops", "create_drop", "join_drop", "leave_drop", "list_offers", "share_files",
        "fetch", "drop_events"] := rfl
  obtain ⟨hjoin, hleave, hlist, hfetch, hshare⟩ := params_served args
  rw [hlisted]
  unfold call_tool
  split
  · exact iff_of_true (by simp) (self.served_pass_on world _ (by simp) _)
  · exact iff_of_true (by simp) (self.served_pass_on world _ (by simp) _)
  · exact iff_of_true (by simp) (self.served_pass_on world _ hjoin _)
  · exact iff_of_true (by simp) (self.served_pass_on world _ hleave _)
  · exact iff_of_true (by simp) (self.served_pass_on world _ hlist _)
  · refine iff_of_true (by simp) ?_
    unfold share_files
    rcases hparams : share_params args with (_ | msg) | ⟨drop, paths⟩
    · exact absurd hparams hshare
    · exact served_error _ _
    · exact self.served_share world _ _ _ _ _
  · refine iff_of_true (by simp) ?_
    unfold fetch
    rcases hparams : fetch_params args with (_ | msg) | params
    · exact absurd hparams hfetch
    · exact served_error _ _
    · have htask := self.served_run_task world "offer.fetch" params
      simp only
      rcases hran : self.run_task world "offer.fetch" params with ⟨(_ | msg) | ⟨task, outcome⟩, ran⟩
      · rw [hran] at htask
        exact absurd rfl htask
      · exact served_error _ _
      · exact served_ok _ _
  · exact iff_of_true (by simp) (self.served_pass_on world _ (by simp) _)
  · refine iff_of_false ?_ fun h => h rfl
    simp only [List.mem_cons, List.not_mem_nil, or_false, not_or]
    refine ⟨?_, ?_, ?_, ?_, ?_, ?_, ?_, ?_⟩
    all_goals assumption

end Server

end Laws

end mcp

end iroh_drop
