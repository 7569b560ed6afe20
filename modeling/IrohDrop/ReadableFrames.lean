-- Frames that a client takes, and the turns of the daemon that send them
-- (service.rs, transport/mod.rs).
import IrohDrop.ReplyCosts

open rust_std postcard

namespace iroh_drop

open json_text
open DropTicket (str_len)

section Frames

variable (write_f64 : UInt64 → List Char)

/-! ## What fits -/

/-- A result whose value has so many bytes. -/
def ResultFits (id : UInt64) (cost : Nat) : Prop :=
  22 + number_cost id.toNat + cost ≤ MAX_FRAME_BYTES

def ErrorFits (id : UInt64) (error : ApiError) : Prop :=
  32 + number_cost id.toNat + text_cost error.code + text_cost error.msg ≤ MAX_FRAME_BYTES

theorem Frame.readable_res (id : UInt64) (p : Value) :
    (Frame.Res id p).Readable write_f64 ↔ ResultFits id (p.cost write_f64) :=
  Frame.readable_iff write_f64 _

theorem Frame.readable_err (id : UInt64) (error : ApiError) :
    (Frame.Err id error.code error.msg).Readable write_f64 ↔ ErrorFits id error :=
  Frame.readable_iff write_f64 _

/-- The question of a consent. -/
theorem Frame.readable_ask (id : UInt64) (question : Value) :
    (Frame.Ask id "offer.accept" question).Readable write_f64 ↔
      41 + number_cost id.toNat + question.cost write_f64 ≤ MAX_FRAME_BYTES := by
  have hname : text_cost "offer.accept" = 14 := rfl
  rw [Frame.readable_iff, Frame.cost, hname]
  omega

/-- An event that goes on from the bus. -/
theorem Envelope.readable_iff (env : Envelope) :
    env.to_frame.Readable write_f64 ↔ 9 + env.cost write_f64 ≤ MAX_FRAME_BYTES := by
  rw [Frame.readable_iff, Envelope.to_frame, Frame.cost, Envelope.cost]
  omega

theorem Notice.truncated_readable (missed : Nat) :
    (Notice.truncated missed).to_frame.Readable write_f64 := by
  have hkeys : text_cost "events.truncated" + text_cost "missed" + number_cost (0 : UInt64).toNat =
      27 := by decide +kernel
  have hmissed := number_cost_le (UInt64.ofNat missed)
  have hmax : MAX_FRAME_BYTES = 1048576 := rfl
  rw [Frame.readable_iff, Notice.to_frame, Frame.cost]
  simp only [Value.cost_fields, List.map_cons, List.map_nil, List.sum_cons, List.sum_nil,
    Value.cost_pos_int]
  omega

/-- An error of the daemon's own words is short. -/
theorem short_error_fits (id : UInt64) {code msg : String}
    (h : text_cost code + text_cost msg ≤ 200) : ErrorFits id ⟨code, msg⟩ := by
  have hid := number_cost_le id
  have hmax : MAX_FRAME_BYTES = 1048576 := rfl
  unfold ErrorFits
  dsimp only
  omega

/-- A client of another version is told so in few words. -/
theorem version_fits (id : UInt64) (api : UInt32) :
    ErrorFits id ⟨"api_version", s!"daemon speaks api {API_VERSION}, client speaks {api}"⟩ := by
  have hcode : text_cost "api_version" = 13 := rfl
  have hlead : text_cost s!"daemon speaks api {API_VERSION}, client speaks " ≤ 40 := by
    decide +kernel
  have happend := text_cost_append s!"daemon speaks api {API_VERSION}, client speaks "
    (toString api)
  have hapi : text_cost (toString api) = number_cost api.toNat + 2 := text_cost_decimal api.toNat
  have hdigits := number_cost_le api.toUInt64
  rw [UInt32.toNat_toUInt64] at hdigits
  refine short_error_fits id ?_
  omega

theorem short_result_fits (id : UInt64) {cost : Nat} (h : cost ≤ 500) : ResultFits id cost := by
  have hid := number_cost_le id
  have hmax : MAX_FRAME_BYTES = 1048576 := rfl
  unfold ResultFits
  omega

theorem error_text_fits (id : UInt64) (handle : String) :
    ErrorFits id (.not_found s!"no drop {handle}") ↔
      51 + number_cost id.toNat + text_cost handle ≤ MAX_FRAME_BYTES := by
  have hcode : text_cost "not_found" = 11 := rfl
  have hmsg := text_cost_no_drop handle
  unfold ErrorFits ApiError.not_found
  dsimp only
  rw [hcode, hmsg]
  omega

/-! ## Offers -/

def optional_len (text : Option String) : Nat := (text.map fun s => str_len s.toList).getD 0

theorem optional_cost_le (text : Option String) :
    optional_cost text_cost text ≤ 6 * optional_len text + 4 := by
  cases text with
  | none => decide
  | some s =>
    have hs := text_cost_le s
    unfold optional_cost optional_len
    simp only [Option.map_some, Option.getD_some]
    omega

/-- The bytes of the texts that the daemon tells of an offer. -/
def OfferV1.told_len (human_bytes : UInt64 → String) (handle : String) (self : OfferV1) : Nat :=
  str_len handle.toList + str_len self.name.toList + str_len (human_bytes self.size).toList +
    optional_len self.media_type + optional_len (self.metadata.get META_MEMBERS)

section Offers

variable [Crypto] (human_bytes : UInt64 → String)

/-- However it is escaped, an offer that fits into a message makes a question that a UI
can read. -/
theorem question_readable (consent : Consent) (id : UInt64)
    (h : consent.offer.told_len human_bytes consent.drop ≤ 2 * MAX_MESSAGE_SIZE) :
    (Frame.Ask id "offer.accept" (consent_question human_bytes consent)).Readable write_f64 := by
  have hid := number_cost_le id
  have hsize := number_cost_le consent.offer.size
  have hdrop := text_cost_le consent.drop
  have hname := text_cost_le consent.offer.name
  have hhuman := text_cost_le (human_bytes consent.offer.size)
  have hmedia := optional_cost_le consent.offer.media_type
  have hmembers := optional_cost_le (consent.offer.metadata.get META_MEMBERS)
  have hcaps : MAX_FRAME_BYTES = 1048576 ∧ MAX_MESSAGE_SIZE = 65536 := ⟨rfl, rfl⟩
  rw [Frame.readable_ask, cost_consent_question]
  unfold OfferV1.told_len at h
  omega

/-- And an event that every client can read. -/
theorem offer_received_readable (handle : String) («from» : EndpointId) (offer : OfferV1)
    (seq : UInt64) (h : offer.told_len human_bytes handle ≤ 2 * MAX_MESSAGE_SIZE) :
    (Frame.Ev seq "offer.received"
      ((DropEvent.OfferReceived «from» offer).tell human_bytes handle).2).Readable write_f64 := by
  have hseq := number_cost_le seq
  have hsize := number_cost_le offer.size
  have hdrop := text_cost_le handle
  have hname := text_cost_le offer.name
  have hhuman := text_cost_le (human_bytes offer.size)
  have hmedia := optional_cost_le offer.media_type
  have hevent : text_cost "offer.received" = 16 := rfl
  have hcaps : MAX_FRAME_BYTES = 1048576 ∧ MAX_MESSAGE_SIZE = 65536 := ⟨rfl, rfl⟩
  rw [Frame.readable_iff, Frame.cost, hevent, cost_offer_received]
  unfold OfferV1.told_len at h
  omega

end Offers

/-! ## Connections -/

/-- Every frame that the connection was sent is one that its client takes. -/
def ClientConn.Readable (self : ClientConn) : Prop :=
  ∀ frame ∈ self.outbound, frame.Readable write_f64

def ControlApi.Readable (self : ControlApi) : Prop :=
  ∀ client ∈ self.clients, client.Readable write_f64

namespace ClientConn

/-- The client has said hello, and its connection goes on. -/
def is_serving (self : ClientConn) : Bool :=
  match self.stage with
  | .serving _ _ => true
  | _ => false

variable {client : ClientConn}

theorem push_readable (h : client.Readable write_f64) (frame : Frame) :
    (client.push frame).Readable write_f64 ↔
      (client.outbound_open = true → frame.Readable write_f64) := by
  unfold ClientConn.push
  split
  · rename_i hopen
    simp only [ClientConn.Readable, List.forall_mem_append, List.forall_mem_singleton, hopen,
      true_implies]
    exact ⟨fun hall => hall.2, fun hframe => ⟨h, hframe⟩⟩
  · rename_i hclosed
    simp [h, hclosed]

theorem push_all_outbound_eq (client : ClientConn) (notices : List Notice) :
    (client.push_all notices).outbound =
      if client.outbound_open then client.outbound ++ notices.map Notice.to_frame
      else client.outbound := by
  unfold push_all
  induction notices generalizing client with
  | nil => simp
  | cons notice notices ih =>
    rw [List.foldl_cons, ih]
    unfold ClientConn.push
    by_cases hopen : client.outbound_open = true
    · simp [hopen]
    · simp [hopen]

theorem push_all_readable (h : client.Readable write_f64) (notices : List Notice) :
    (client.push_all notices).Readable write_f64 ↔
      (client.outbound_open = true → ∀ notice ∈ notices, notice.to_frame.Readable write_f64) := by
  have hold : ∀ frame ∈ client.outbound, frame.Readable write_f64 := h
  unfold ClientConn.Readable
  rw [push_all_outbound_eq]
  split
  · rename_i hopen
    simp only [List.forall_mem_append, List.forall_mem_map, hopen, true_implies]
    exact ⟨fun hall => hall.2, fun hnew => ⟨hold, hnew⟩⟩
  · rename_i hclosed
    exact ⟨fun _ hopen => absurd hopen hclosed, fun _ => hold⟩

end ClientConn

namespace ControlApi

/-! ### What is sent -/

/-- The answer to the first frame of a connection. -/
def greet_frame (world : ServeWorld) : Option Frame → Option Frame
  | some (.Req id "hello" p) =>
    match Hello.from_value p with
    | some hello =>
      if hello.api = API_VERSION then some (.Res id world.hello_result)
      else
        let msg := s!"daemon speaks api {API_VERSION}, client speaks {hello.api}"
        some (.Err id "api_version" msg)
    | none => some (.Err id "bad_params" world.hello_error)
  | _ => none

/-- The answer to a later one. -/
def handle_frame (world : ServeWorld) : Option Frame → Option Frame
  | some (.Req id _ _) => some (reply_frame id world.reply)
  | _ => none

/-- What the next turn of a connection sends. -/
def turn_frame (client : ClientConn) (world : ServeWorld) : Option Frame :=
  match client.stage with
  | .greeting => greet_frame world client.inbound.head?
  | .serving _ _ => handle_frame world client.inbound.head?
  | .ended _ => none

section Turns

variable {self : ControlApi} (h : self.Readable write_f64) {c : ClientId} {client : ClientConn}
  (hclient : self.clients[c]? = some client)

include h hclient

/-- Only the connection that changes can have got something new. -/
theorem set_client_readable (client' : ClientConn) :
    (self.set_client c client').Readable write_f64 ↔ client'.Readable write_f64 := by
  have hlt : c < self.clients.length := (List.getElem?_eq_some_iff.mp hclient).1
  constructor
  · intro hall
    exact hall client' (List.mem_set hlt client')
  · intro hnew other hother
    rcases List.mem_or_eq_of_mem_set hother with hold | rfl
    · exact h other hold
    · exact hnew

section Rest

variable {rest : ClientConn} (hrest : rest.Readable write_f64)

include hrest

/-- A connection that is sent a frame. -/
theorem set_pushed_readable (frame : Frame) (stage : ClientStage) :
    (self.set_client c { rest.push frame with stage }).Readable write_f64 ↔
      (rest.outbound_open = true → frame.Readable write_f64) :=
  (set_client_readable write_f64 h hclient _).trans (rest.push_readable write_f64 hrest frame)

theorem disconnect_readable (roles : List Role) (ui_token : Option UInt64) :
    (self.disconnect c rest roles ui_token).Readable write_f64 :=
  (set_client_readable write_f64 h hclient { rest with stage := .ended roles }).mpr hrest

theorem welcome_readable (frame : Frame) (roles : List Role) :
    (self.welcome c (rest.push frame) roles).Readable write_f64 ↔
      (rest.outbound_open = true → frame.Readable write_f64) := by
  unfold welcome
  split
  · exact set_pushed_readable write_f64 h hclient hrest frame _
  · exact set_pushed_readable write_f64 h hclient hrest frame _

theorem greet_readable (world : ServeWorld) (frame : Option Frame) :
    (self.greet c rest world frame).Readable write_f64 ↔
      (rest.outbound_open = true → ∀ sent ∈ greet_frame world frame, sent.Readable write_f64) := by
  have hquiet : (self.set_client c { rest with stage := .ended [] }).Readable write_f64 :=
    (set_client_readable write_f64 h hclient _).mpr hrest
  unfold greet
  split
  · rename_i id p
    split
    · rename_i hello hhello
      split
      · rename_i hapi
        simp only [greet_frame, hhello, hapi, if_true, Option.mem_some, forall_eq']
        exact welcome_readable write_f64 h hclient hrest _ _
      · rename_i hapi
        simp only [greet_frame, hhello, hapi, if_false, Option.mem_some, forall_eq']
        exact set_pushed_readable write_f64 h hclient hrest _ _
    · rename_i hhello
      simp only [greet_frame, hhello, Option.mem_some, forall_eq']
      exact set_pushed_readable write_f64 h hclient hrest _ _
  · rename_i hnot
    have hnone : greet_frame world frame = none := by
      unfold greet_frame
      split
      · exact absurd rfl (hnot _ _)
      · rfl
    simp only [hnone, Option.not_mem_none, false_implies, implies_true, iff_true]
    exact hquiet

theorem handle_readable (roles : List Role) (ui_token : Option UInt64) (world : ServeWorld)
    (frame : Option Frame) :
    (self.handle c rest roles ui_token world frame).Readable write_f64 ↔
      (rest.outbound_open = true → ∀ sent ∈ handle_frame world frame, sent.Readable write_f64) := by
  have hquiet := (set_client_readable write_f64 h hclient rest).mpr hrest
  have hleave := disconnect_readable write_f64 h hclient hrest roles ui_token
  have hanswer (id : UInt64) (result : Except ApiError Value) :
      ((self.set_client c rest).answer id result).Readable write_f64 := by
    unfold answer
    split
    · exact hquiet
    · exact hquiet
  rcases frame with _ | frame
  · simpa [handle, handle_frame] using hleave
  · cases frame with
    | Req id m p =>
      simp only [handle, handle_frame, Option.mem_some, forall_eq']
      split
      · refine (set_client_readable write_f64 h hclient _).trans ?_
        exact rest.push_readable write_f64 hrest _
      · rename_i hclosed
        simpa [hclosed] using hleave
    | Res id p => simpa [handle, handle_frame] using hanswer id (.ok p)
    | Err id code msg => simpa [handle, handle_frame] using hanswer id (.error ⟨code, msg⟩)
    | Ask id q p => simpa [handle, handle_frame] using hquiet
    | Ev seq e p => simpa [handle, handle_frame] using hquiet

end Rest

end Turns

theorem modify_client_readable {self : ControlApi} (h : self.Readable write_f64) (c : ClientId)
    {f : ClientConn → ClientConn} (hf : ∀ client, (f client).outbound = client.outbound) :
    (self.modify_client c f).Readable write_f64 := by
  intro client' hclient'
  obtain ⟨k, hk⟩ := List.mem_iff_getElem?.mp hclient'
  simp only [modify_client, List.getElem?_modify] at hk
  obtain ⟨client, hclient, rfl⟩ := Option.map_eq_some_iff.mp hk
  have hold := h client (List.mem_of_getElem? hclient)
  unfold ClientConn.Readable
  split
  · rw [hf]
    exact hold
  · exact hold

/-- A turn of a connection sends at most one frame. -/
theorem serve_readable {self : ControlApi} (h : self.Readable write_f64) (c : ClientId)
    (world : ServeWorld) :
    (self.serve c world).Readable write_f64 ↔ ∀ client ∈ self.clients[c]?,
      client.outbound_open = true → ∀ sent ∈ turn_frame client world, sent.Readable write_f64 := by
  unfold serve
  rcases hclient : self.clients[c]? with _ | client
  · simpa using h
  · have hrest : ClientConn.Readable write_f64 { client with inbound := client.inbound.tail } :=
      h client (List.mem_of_getElem? hclient)
    simp only [Option.mem_some, forall_eq']
    split
    · rename_i hidle
      have hnone : turn_frame client world = none := by
        unfold turn_frame
        rw [List.isEmpty_iff.mp hidle.1]
        cases client.stage with
        | greeting => rfl
        | serving roles ui_token => rfl
        | ended roles => rfl
      simpa [hnone] using h
    · unfold turn_frame
      obtain ⟨stage, inbound, inbound_open, outbound, outbound_open⟩ := client
      cases stage with
      | greeting => exact greet_readable write_f64 h hclient hrest world _
      | serving roles ui_token =>
        exact handle_readable write_f64 h hclient hrest roles ui_token world _
      | ended roles => simpa using h

/-! ### Questions -/

theorem send_question_readable {self : ControlApi} (h : self.Readable write_f64) (q : QuestionId)
    (task : ConsentTask) (id : UInt64) (ui : ClientId) :
    (self.send_question q task id ui).Readable write_f64 ↔ ∀ client ∈ self.clients[ui]?,
      client.outbound_open = true →
        (Frame.Ask id "offer.accept" task.question).Readable write_f64 := by
  unfold send_question
  rcases hclient : self.clients[ui]? with _ | client
  · simp only [Option.not_mem_none, false_implies, implies_true, iff_true]
    exact h
  · have hold := h client (List.mem_of_getElem? hclient)
    simp only [Option.mem_some, forall_eq']
    split
    · refine (set_client_readable write_f64 h hclient _).trans ?_
      exact client.push_readable write_f64 hold _
    · rename_i hclosed
      exact ⟨fun _ hopen => absurd hopen hclosed, fun _ => h⟩

/-- A stretch of a consent sends its question, or nothing. -/
theorem consent_readable {self : ControlApi} (h : self.Readable write_f64) (q : QuestionId)
    (timed_out : Bool) :
    (self.consent q timed_out).Readable write_f64 ↔ ∀ task ∈ self.consents[q]?, ∀ id ui,
      task.stage = .sending id ui → ∀ client ∈ self.clients[ui]?, client.outbound_open = true →
        (Frame.Ask id "offer.accept" task.question).Readable write_f64 := by
  unfold consent
  rcases htask : self.consents[q]? with _ | task
  · simpa using h
  · simp only [Option.mem_some, forall_eq']
    cases hstage : task.stage with
    | sending id ui =>
      refine (send_question_readable write_f64 h q task id ui).trans ⟨?_, ?_⟩
      · intro hall id' ui' hsame
        obtain ⟨rfl, rfl⟩ := ConsentStage.sending.inj hsame
        exact hall
      · intro hall
        exact hall id ui rfl
    | start =>
      simp only [reduceCtorEq, false_implies, implies_true, iff_true]
      split
      · exact h
      · exact h
    | numbered id =>
      simp only [reduceCtorEq, false_implies, implies_true, iff_true]
      split
      · exact h
      · exact h
    | waiting id ui =>
      simp only [reduceCtorEq, false_implies, implies_true, iff_true]
      unfold await_answer
      split
      · exact h
      · exact h
      · split
        · exact h
        · exact h
    | _ =>
      simp only [reduceCtorEq, false_implies, implies_true, iff_true]
      exact h

end ControlApi

end Frames

end iroh_drop
