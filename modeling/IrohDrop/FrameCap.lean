-- The cap on a frame: what the daemon may send so that no client has to give up its
-- connection (service.rs, transport/mod.rs).
import IrohDrop.ReadableFrames
import IrohDrop.Runs

open rust_std postcard

namespace iroh_drop

open json_text

section Laws

variable [Crypto] [Urls] (write_f64 : UInt64 → List Char) (human_bytes : UInt64 → String)

namespace ApiDaemon

/-- A reply about a drop, which takes `cost` bytes if there is one. -/
def DropFits (d : ApiDaemon) (id : UInt64) (handle : String) (cost : Session → Nat) : Prop :=
  match d.session handle with
  | .ok session => ResultFits id (cost session)
  | .error _ => 51 + number_cost id.toNat + text_cost handle ≤ MAX_FRAME_BYTES

def OutcomeFits (d : ApiDaemon) (id : UInt64) : Outcome → Prop
  | .created handle => d.DropFits id handle fun session =>
    94 + text_cost handle +
      text_cost (String.ofList (session.short_ticket d.self_addr).to_string_prefixed)
  | .joined handle => d.DropFits id handle fun _ => 84 + text_cost handle
  | .already handle => d.DropFits id handle fun _ => 99 + text_cost handle
  | .spawned task => ResultFits id (9 + text_cost task)
  | .done => True
  | .failed error => ErrorFits id error

/-- The reply to a request, by what the daemon holds when it comes. -/
def RequestFits (d : ApiDaemon) (roles : List Role) (id : UInt64) (m : String) (p : Value)
    (outcome : Outcome) : Prop :=
  if m ∈ control_methods then Role.Control ∈ roles → d.OutcomeFits id outcome
  else match m with
    | "hello" => True
    | "daemon.status" => ResultFits id
        (status_cost d.options (HashMap.len d.service.drops) d.stream.bus.current)
    | "drop.list" => ResultFits id
        (10 + list_cost (((d.service.drop_list human_bytes .release).getD []).map DropRow.cost))
    | "drop.ticket" => Role.Ui ∈ roles ∨ Role.Control ∈ roles →
        ∀ handle, handle_param p = .ok handle → d.DropFits id handle fun session =>
          ticket_cost d.options
            (if ((p.get "full").bind Value.as_bool).getD false
              then session.current_ticket d.self_addr
              else session.short_ticket d.self_addr).to_string_prefixed
    | "offer.list" => ∀ handle, handle_param p = .ok handle →
        d.DropFits id handle fun session =>
          10 + list_cost (session.inventory.map (InventoryItem.cost human_bytes))
    | "task.list" => ResultFits id
        (10 + list_cost (d.board.task_list.map fun task => task.2.cost task.1))
    | "events.replay" =>
        let replayed := d.stream.bus.replay (replay_from p)
        ResultFits id
          (24 + list_cost (replayed.1.map (Envelope.cost write_f64)) + bool_cost replayed.2)
    | other => 55 + number_cost id.toNat + text_cost other ≤ MAX_FRAME_BYTES

/-- The answer to the next frame of a connection. -/
def TurnFits (d : ApiDaemon) (client : ClientConn) (outcome : Outcome) (hello_error : String) :
    Prop :=
  match client.stage, client.inbound.head? with
  | .greeting, some (.Req id "hello" p) =>
    Hello.from_value p = none → ErrorFits id ⟨"bad_params", hello_error⟩
  | .serving roles _, some (.Req id m p) => d.RequestFits write_f64 human_bytes roles id m p outcome
  | _, _ => True

/-- What the next turn of a forwarder sends. -/
def FeedFits (d : ApiDaemon) (next : Nat) : Prop :=
  ∀ env, .event env ∈ (Feed.forward { next, pipe := [] } d.stream.bus).pipe →
    9 + env.cost write_f64 ≤ MAX_FRAME_BYTES

/-- What the step sends to clients that listen is short enough for them. -/
def Fits (d : ApiDaemon) : ApiStep → Prop
  | .serve c outcome hello_error => ∀ client ∈ d.control.clients[c]?,
      client.outbound_open = true → d.is_ready c client = true →
        d.TurnFits write_f64 human_bytes client outcome hello_error
  | .forward c => ∀ client ∈ d.control.clients[c]?, ∀ next ∈ d.feeds[c]?.join,
      client.outbound_open = true → client.is_serving = true → d.FeedFits write_f64 next
  | .consent q _ => ∀ task ∈ d.control.consents[q]?, ∀ id ui, task.stage = .sending id ui →
      ∀ client ∈ d.control.clients[ui]?, client.outbound_open = true →
        41 + number_cost id.toNat + task.question.cost write_f64 ≤ MAX_FRAME_BYTES
  | _ => True

end ApiDaemon

/-! ## Replies -/

namespace ApiDaemon

theorem session_error {d : ApiDaemon} {handle : String} {error : ApiError}
    (h : d.session handle = .error error) : error = .not_found s!"no drop {handle}" := by
  unfold ApiDaemon.session at h
  cases hentry : d.service.entry handle with
  | error error' =>
    rw [hentry] at h
    obtain rfl : error' = error := by simpa [bind, Except.bind] using h
    unfold Service.entry at hentry
    split at hentry
    · cases hentry
    · exact (Except.error.inj hentry).symm
  | ok entry =>
    rw [hentry] at h
    simp only [bind, Except.bind] at h
    split at h
    · cases h
    · exact (Except.error.inj h).symm

/-- A reply that is made of a session, or tells that there is none. -/
theorem drop_reply_readable (d : ApiDaemon) (id : UInt64) (handle : String)
    (value : Session → Value) :
    (ControlApi.reply_frame id (d.session handle >>= fun session => .ok (value session))).Readable
        write_f64 ↔
      d.DropFits id handle fun session => (value session).cost write_f64 := by
  unfold DropFits
  cases hsession : d.session handle with
  | ok session => exact Frame.readable_res write_f64 id _
  | error error =>
    obtain rfl := session_error hsession
    exact (Frame.readable_err write_f64 id _).trans (error_text_fits id handle)

/-- A request that names its drop. -/
theorem drop_request_readable (d : ApiDaemon) (id : UInt64) (p : Value) (value : Session → Value) :
    (ControlApi.reply_frame id (handle_param p >>= fun handle =>
        d.session handle >>= fun session => .ok (value session))).Readable write_f64 ↔
      ∀ handle, handle_param p = .ok handle →
        d.DropFits id handle fun session => (value session).cost write_f64 := by
  have hrequired : text_cost "bad_params" + text_cost "drop is required" ≤ 200 := by decide
  cases hparam : handle_param p with
  | ok handle =>
    refine (d.drop_reply_readable write_f64 id handle value).trans ?_
    simp
  | error error =>
    have herror : error = .bad_params "drop is required" := by
      unfold handle_param at hparam
      split at hparam
      · cases hparam
      · exact (Except.error.inj hparam).symm
    subst herror
    have hfits : ErrorFits id (.bad_params "drop is required") := short_error_fits id hrequired
    simp only [reduceCtorEq, false_implies, implies_true, iff_true]
    exact (Frame.readable_err write_f64 id _).mpr hfits

theorem outcome_readable (d : ApiDaemon) (id : UInt64) (outcome : Outcome) :
    (ControlApi.reply_frame id (d.reply outcome)).Readable write_f64 ↔
      d.OutcomeFits id outcome := by
  cases outcome with
  | created handle =>
    refine (d.drop_reply_readable write_f64 id handle _).trans ?_
    simp only [cost_created_reply, OutcomeFits]
  | joined handle =>
    refine (d.drop_reply_readable write_f64 id handle _).trans ?_
    simp only [cost_joined_reply, OutcomeFits]
  | already handle =>
    refine (d.drop_reply_readable write_f64 id handle _).trans ?_
    simp only [cost_already_reply, OutcomeFits]
  | spawned task =>
    refine (Frame.readable_res write_f64 id _).trans ?_
    rw [cost_task_started_reply]
    rfl
  | done =>
    refine (Frame.readable_res write_f64 id _).trans ?_
    have hempty : empty_reply.cost write_f64 = 2 := rfl
    rw [hempty]
    exact iff_true_intro (short_result_fits id (by decide))
  | failed error => exact Frame.readable_err write_f64 id error

omit [Crypto] [Urls] in
/-- A method that needs the control role says so in few words. -/
theorem forbidden_fits (id : UInt64) {m : String} (hm : m ∈ control_methods) :
    ErrorFits id (.forbidden s!"{m} requires the control role") := by
  have hall : ∀ m ∈ control_methods,
      text_cost "forbidden" + text_cost s!"{m} requires the control role" ≤ 200 := by decide
  exact short_error_fits id (hall m hm)

/-- The reply to a request is one that the client takes just when what it tells is short
enough. -/
theorem request_readable (d : ApiDaemon) (roles : List Role) (id : UInt64) (m : String) (p : Value)
    (outcome : Outcome) :
    (ControlApi.reply_frame id (d.dispatch human_bytes roles m p outcome)).Readable write_f64 ↔
      d.RequestFits write_f64 human_bytes roles id m p outcome := by
  by_cases hm : m ∈ control_methods
  · simp only [dispatch, RequestFits, if_pos hm]
    by_cases hrole : Role.Control ∈ roles
    · simp only [hrole, not_true_eq_false, and_false, if_false, forall_const]
      exact d.outcome_readable write_f64 id outcome
    · simp only [hm, hrole, not_false_eq_true, and_self, if_true, false_implies, iff_true]
      exact (Frame.readable_err write_f64 id _).mpr (forbidden_fits id hm)
  · simp only [dispatch, RequestFits, hm, false_and, if_false]
    by_cases hticket : m = "drop.ticket"
    · subst hticket
      have hshort : text_cost "forbidden" + text_cost
          "drop.ticket reveals the bearer capability; ui or control role required" ≤ 200 := by
        decide +kernel
      by_cases hrole : Role.Ui ∈ roles ∨ Role.Control ∈ roles
      · have hnot : ¬(Role.Ui ∉ roles ∧ Role.Control ∉ roles) := fun h => hrole.elim h.1 h.2
        simp only [hnot, and_false, if_false, hrole, true_implies]
        refine (d.drop_request_readable write_f64 id p _).trans ?_
        simp only [cost_ticket_reply]
      · have hneither : Role.Ui ∉ roles ∧ Role.Control ∉ roles := not_or.mp hrole
        simp only [hneither, not_false_eq_true, and_self, if_true, or_self, false_implies, iff_true]
        exact (Frame.readable_err write_f64 id _).mpr (short_error_fits id hshort)
    · simp only [hticket, false_and, if_false]
      split
      · have hshort : text_cost "already_hello" + text_cost "hello was already sent" ≤ 200 := by
          decide +kernel
        exact iff_true_intro ((Frame.readable_err write_f64 id _).mpr (short_error_fits id hshort))
      · refine (Frame.readable_res write_f64 id _).trans ?_
        simp only [cost_status_reply]
      · refine (Frame.readable_res write_f64 id _).trans ?_
        simp only [drop_list, cost_drops_reply]
      · exact absurd rfl hticket
      · refine (d.drop_request_readable write_f64 id p _).trans ?_
        simp only [cost_items_reply]
      · refine (Frame.readable_res write_f64 id _).trans ?_
        simp only [cost_tasks_reply]
      · refine (Frame.readable_res write_f64 id _).trans ?_
        simp only [events_replay, cost_replay_reply]
      · refine (Frame.readable_err write_f64 id _).trans ?_
        have hcode : text_cost "unsupported" = 13 := rfl
        have hmsg := text_cost_no_method m
        simp only [ErrorFits, ApiError.unsupported]
        rw [hcode, hmsg]
        omega

end ApiDaemon

/-! ## Steps -/

namespace ApiDaemon

variable {d : ApiDaemon}

/-- What a turn of a connection sends is short enough just when what it tells is. -/
theorem turn_readable (d : ApiDaemon) (client : ClientConn) (outcome : Outcome)
    (hello_error : String) :
    (∀ sent ∈ ControlApi.turn_frame client {
        hello_result := hello_reply d.self_addr.id d.stream.bus.current
        hello_error, reply := d.next_reply human_bytes client outcome },
      sent.Readable write_f64) ↔ d.TurnFits write_f64 human_bytes client outcome hello_error := by
  simp only [ControlApi.turn_frame, TurnFits, next_reply]
  cases client.stage with
  | ended roles => simp
  | serving roles ui_token =>
    rcases client.inbound.head? with _ | frame
    · simp [ControlApi.handle_frame]
    · cases frame with
      | Req id m p =>
        simp only [ControlApi.handle_frame, Option.mem_some, forall_eq']
        exact d.request_readable write_f64 human_bytes roles id m p outcome
      | _ => simp [ControlApi.handle_frame]
  | greeting =>
    rcases client.inbound.head? with _ | frame
    · simp [ControlApi.greet_frame]
    · cases frame with
      | Req id m p =>
        by_cases hm : m = "hello"
        · subst hm
          simp only [ControlApi.greet_frame]
          rcases hhello : Hello.from_value p with _ | hello
          · simp only [Option.mem_some, forall_eq', true_implies]
            exact Frame.readable_err write_f64 id ⟨"bad_params", hello_error⟩
          · simp only [reduceCtorEq, false_implies, iff_true]
            split
            · have hframe := (Frame.readable_res write_f64 id _).mpr (short_result_fits id
                (cost_hello_reply_le write_f64 d.self_addr.id d.stream.bus.current))
              simp only [Option.mem_some, forall_eq']
              exact hframe
            · have hframe := (Frame.readable_err write_f64 id _).mpr (version_fits id hello.api)
              simp only [Option.mem_some, forall_eq']
              exact hframe
        · simp [ControlApi.greet_frame, hm]
      | _ => simp [ControlApi.greet_frame]

theorem serve_fits (h : d.control.Readable write_f64) (c : ClientId) (outcome : Outcome)
    (hello_error : String) :
    (d.serve human_bytes c outcome hello_error).control.Readable write_f64 ↔
      d.Fits write_f64 human_bytes (.serve c outcome hello_error) := by
  simp only [ApiDaemon.serve, Fits]
  rcases hclient : d.control.clients[c]? with _ | client
  · simpa using h
  · simp only [Option.mem_some, forall_eq']
    by_cases hready : d.is_ready c client = true
    · rw [if_pos hready]
      refine (ControlApi.serve_readable write_f64 h c _).trans ?_
      simp only [hclient, Option.mem_some, forall_eq', hready, true_implies]
      rw [d.turn_readable]
    · rw [if_neg hready]
      exact ⟨fun _ _ h => absurd h hready, fun _ => h⟩

theorem feed_readable (d : ApiDaemon) (next : Nat) :
    (∀ notice ∈ (Feed.forward { next, pipe := [] } d.stream.bus).pipe,
      notice.to_frame.Readable write_f64) ↔ d.FeedFits write_f64 next := by
  unfold FeedFits
  constructor
  · intro hall env henv
    have hframe : env.to_frame.Readable write_f64 := hall (.event env) henv
    exact (env.readable_iff write_f64).mp hframe
  · intro hall notice hnotice
    cases notice with
    | event env =>
      have hframe : env.to_frame.Readable write_f64 :=
        (env.readable_iff write_f64).mpr (hall env hnotice)
      exact hframe
    | truncated missed => exact Notice.truncated_readable write_f64 missed

theorem forward_fits (h : d.control.Readable write_f64) (c : ClientId) :
    (d.forward c).control.Readable write_f64 ↔ d.Fits write_f64 human_bytes (.forward c) := by
  simp only [ApiDaemon.forward, Fits]
  rcases hclient : d.control.clients[c]? with _ | client
  · simpa using h
  · have hold := h client (List.mem_of_getElem? hclient)
    rcases hfeed : d.feeds[c]? with _ | _ | next
    · simpa using h
    · simpa using h
    · simp only [Option.mem_some, forall_eq', Option.join_some]
      cases hstage : client.stage with
      | greeting => simpa [ClientConn.is_serving, hstage] using h
      | ended roles => simpa [ClientConn.is_serving, hstage] using h
      | serving roles ui_token =>
        refine (ControlApi.set_client_readable write_f64 h hclient _).trans ?_
        refine (client.push_all_readable write_f64 hold _).trans ?_
        rw [d.feed_readable]
        simp only [ClientConn.is_serving, hstage, true_implies]

theorem perform_readable (h : d.control.Readable write_f64) (act : Service.Act) (due : Bool) :
    (d.perform human_bytes act due).control.Readable write_f64 := by
  unfold ControlApi.Readable
  rw [perform_clients]
  exact h

/-- Clients that could read all that they were sent still can just when the step fits. -/
theorem step_fits (h : d.control.Readable write_f64) (i : ApiStep) :
    (d.step human_bytes i).control.Readable write_f64 ↔ d.Fits write_f64 human_bytes i := by
  cases i with
  | attach => 
    refine iff_of_true ?_ trivial
    intro client hclient
    rcases List.mem_append.mp hclient with hold | hnew
    · exact h client hold
    · obtain rfl := List.mem_singleton.mp hnew
      intro frame hframe
      cases hframe
  | sent c frame =>
    refine iff_of_true (ControlApi.modify_client_readable write_f64 h c fun client => ?_) trivial
    split
    · rfl
    · rfl
  | hung_up c =>
    exact iff_of_true (ControlApi.modify_client_readable write_f64 h c fun _ => rfl) trivial
  | stopped_reading c =>
    exact iff_of_true (ControlApi.modify_client_readable write_f64 h c fun _ => rfl) trivial
  | serve c outcome hello_error => exact serve_fits write_f64 human_bytes h c outcome hello_error
  | subscribe c =>
    refine iff_of_true ?_ trivial
    simp only [ApiDaemon.step, subscribe]
    split
    · exact h
    · exact h
  | forward c => exact forward_fits write_f64 human_bytes h c
  | consent q timed_out =>
    refine (ControlApi.consent_readable write_f64 h q timed_out).trans ?_
    simp only [Frame.readable_ask, Fits]
  | conclude k =>
    refine iff_of_true ?_ trivial
    simp only [ApiDaemon.step, conclude]
    have hrest : ControlApi.Readable write_f64 { d with asked := d.asked.eraseIdx k }.control := h
    split
    · split
      · exact perform_readable write_f64 human_bytes hrest (.consent_answered k false) false
      · exact perform_readable write_f64 human_bytes hrest (.consent_answered k true) false
      · exact h
    · exact h
  | service act due =>
    refine iff_of_true ?_ trivial
    simp only [ApiDaemon.step, serve_service]
    split
    · exact h
    · exact perform_readable write_f64 human_bytes h act due
  | task step =>
    refine iff_of_true ?_ trivial
    simp only [ApiDaemon.step, task]
    split
    · exact h
    · unfold ControlApi.Readable
      rw [foldl_keeps (f := tell_task) (g := fun d => d.control.clients) fun _ _ => rfl]
      exact h
  | published task published => exact iff_of_true h trivial
  | materialized task hash paths => exact iff_of_true h trivial
  | append j => exact iff_of_true h trivial
  | send j => exact iff_of_true h trivial
  | stopping => exact iff_of_true h trivial

/-- A method that there is not is told back to who asked for it. -/
theorem dispatch_unknown (d : ApiDaemon) (roles : List Role) {m : String} (hm : m ∉ methods)
    (p : Value) (outcome : Outcome) :
    d.dispatch human_bytes roles m p outcome = .error (.unsupported s!"no method {m}") := by
  have hcontrol : m ∉ control_methods := by
    intro hmem
    have hall : ∀ m ∈ control_methods, m ∈ methods := by decide
    exact hm (hall m hmem)
  have hknown : ∀ known ∈ methods, m ≠ known := by
    rintro known hmem rfl
    exact hm hmem
  simp only [methods, List.forall_mem_cons] at hknown
  unfold dispatch
  simp [hcontrol, hknown]

/-! ## Runs -/

/-- No frame that a client was sent is over the cap, so the reader of no client has given
up its connection. -/
def KeepsClients (d : ApiDaemon) : Prop :=
  ∀ c, (∀ frame ∈ d.received c, frame.Readable write_f64) ∧
    ∀ from_line, (spawn_reader from_line ((d.received c).map (Frame.to_line write_f64))).2 = true

theorem keeps_clients_iff (d : ApiDaemon) :
    d.KeepsClients write_f64 ↔ d.control.Readable write_f64 := by
  constructor
  · intro h client hclient frame hframe
    obtain ⟨c, hc⟩ := List.mem_iff_getElem?.mp hclient
    refine (h c).1 frame ?_
    simpa [received, hc] using hframe
  · intro h c
    have hall : ∀ frame ∈ d.received c, frame.Readable write_f64 := by
      unfold received
      rcases hclient : d.control.clients[c]? with _ | client
      · simp
      · exact h client (List.mem_of_getElem? hclient)
    refine ⟨hall, fun from_line => (spawn_reader_reads_on from_line _).mpr ?_⟩
    rw [List.forall_mem_map]
    exact hall

/-- Every client goes on reading in every state of a run just when what each step tells is
short enough. -/
theorem clients_read_on_iff (options : ApiOptions) (auto_accept : Bool) (self_addr : EndpointAddr)
    (secret : SecretKey) (policy : DropPolicy) (steps : List ApiStep) :
    (∀ steps', steps' <+: steps →
      ((new options auto_accept self_addr secret policy).run human_bytes steps').KeepsClients
        write_f64) ↔
      runs.Meets (step human_bytes) (Fits write_f64 human_bytes)
        (.new options auto_accept self_addr secret policy) steps := by
  have hstep : ∀ (d : ApiDaemon) (i : ApiStep), d.control.Readable write_f64 →
      ((d.step human_bytes i).control.Readable write_f64 ↔ d.Fits write_f64 human_bytes i) :=
    fun d i h => step_fits write_f64 human_bytes h i
  have hstart : (new options auto_accept self_addr secret policy).control.Readable write_f64 := by
    intro client hclient
    cases hclient
  simp only [keeps_clients_iff]
  exact runs.invariant_iff_meets hstep hstart steps

end ApiDaemon

end Laws

/-! ## A request that is echoed -/

namespace long_request

local instance : Crypto := Crypto.clear
local instance : Urls := Urls.verbatim

def write_f64 : UInt64 → List Char := fun _ => "0.0".toList

def human_bytes : UInt64 → String := fun _ => ""

def self_addr : EndpointAddr := .of_id (SecretKey.public ⟨.fill 32 1⟩)

def options : ApiOptions :=
  { offline := true, mdns := false, store_path := none, download_dir := "in", link_base := none }

def daemon : ApiDaemon := .new options false self_addr ⟨.fill 32 1⟩ {}

def hello : Frame := .Req 1 "hello" (.object [("client", .string "w"), ("api", .pos_int 1),
  ("roles", .array [.string "observer"])])

/-- A client asks for a method that there is not. -/
def steps (m : String) : List ApiStep :=
  [.attach, .sent 0 hello, .serve 0 .done "", .subscribe 0, .sent 0 (.Req 2 m (.object [])),
    .serve 0 .done ""]

def name : String := String.ofList (List.replicate 1048544 'a')

theorem received_eq (m : String) : (daemon.run human_bytes (steps m)).received 0 =
    [.Res 1 (hello_reply self_addr.id 1), ControlApi.reply_frame 2
      ((daemon.run human_bytes ((steps m).take 5)).dispatch human_bytes [.Observer] m
        (.object []) .done)] := rfl

theorem text_cost_name : text_cost name = 1048546 := by
  have hlist : name.toList = List.replicate 1048544 'a' := String.toList_ofList
  have hbare : ∀ c ∈ name.toList, IsBare c := by
    intro c hc
    rw [hlist] at hc
    rw [List.eq_of_mem_replicate hc]
    exact ⟨by decide, by decide, by decide, by decide⟩
  rw [text_cost_bare hbare, hlist, List.length_replicate]

theorem name_is_unknown : name ∉ methods := by
  intro hmem
  have hshort : ∀ m ∈ methods, text_cost m ≤ 20 := by decide
  have hlong := hshort name hmem
  rw [text_cost_name] at hlong
  omega

/-- The request is just short enough for the daemon. -/
theorem request_is_readable : (Frame.Req 2 name (.object [])).Readable write_f64 := by
  have hid : number_cost (2 : UInt64).toNat = 1 := rfl
  have hparams : (Value.object []).cost write_f64 = 2 := rfl
  rw [Frame.readable_iff, Frame.cost, hid, hparams, text_cost_name]
  decide

/-- The error that repeats it is too long for the client. -/
theorem echo_is_too_long :
    ¬(Frame.Err 2 "unsupported" s!"no method {name}").Readable write_f64 := by
  have hid : number_cost (2 : UInt64).toNat = 1 := rfl
  have hcode : text_cost "unsupported" = 13 := rfl
  rw [Frame.readable_iff, Frame.cost, hid, hcode, text_cost_no_method, text_cost_name]
  decide

theorem hello_is_readable : hello.Readable write_f64 := by
  unfold hello
  rw [Frame.readable_iff]
  decide +kernel

/-- A client is cut off by the answer to a request that the daemon took. -/
theorem an_echo_is_over_the_cap :
    ¬ ∀ [Crypto] [Urls] (write_f64 : UInt64 → List Char) (human_bytes : UInt64 → String)
      (options : ApiOptions) (auto_accept : Bool) (self_addr : EndpointAddr) (secret : SecretKey)
      (policy : DropPolicy) (steps : List ApiStep),
      (∀ c frame, .sent c frame ∈ steps → frame.Readable write_f64) → ∀ steps', steps' <+: steps →
        ((ApiDaemon.new options auto_accept self_addr secret policy).run human_bytes
          steps').KeepsClients write_f64 := by
  intro h
  have hsent : ∀ c frame, .sent c frame ∈ steps name → frame.Readable write_f64 := by
    intro c frame hmem
    simp only [steps, List.mem_cons, ApiStep.sent.injEq, reduceCtorEq, List.not_mem_nil, or_false,
      false_or] at hmem
    rcases hmem with ⟨-, rfl⟩ | ⟨-, rfl⟩
    · exact hello_is_readable
    · exact request_is_readable
  have hkeeps := h write_f64 human_bytes options false self_addr ⟨.fill 32 1⟩ {} (steps name) hsent
    (steps name) (List.prefix_refl _)
  have hreceived := received_eq name
  rw [ApiDaemon.dispatch_unknown human_bytes _ _ name_is_unknown] at hreceived
  refine echo_is_too_long ((hkeeps 0).1 _ ?_)
  change _ ∈ (daemon.run human_bytes (steps name)).received 0
  rw [hreceived]
  exact List.mem_cons_of_mem _ (List.mem_singleton.mpr rfl)

end long_request

end iroh_drop
