-- The event bus and the connections of two daemons side by side, which differ in what
-- the events `drop.joined` say and in what other clients are sent (service.rs).
import IrohDrop.ApiDaemon
import IrohDrop.TwoRuns

open rust_std

namespace iroh_drop

/-! ## Events side by side -/

/-- The same event, but for the topic of a `drop.joined`. -/
structure Envelope.Alike (env env' : Envelope) : Prop where
  seq : env.seq = env'.seq
  e : env.e = env'.e
  p : env.e ≠ "drop.joined" → env.p = env'.p

theorem Envelope.Alike.eq {env env' : Envelope} (h : env.Alike env') (hname : env.e ≠ "drop.joined") :
    env = env' := by
  obtain ⟨seq, e, p⟩ := env
  obtain ⟨seq', e', p'⟩ := env'
  have hp := h.p hname
  cases h.seq
  cases h.e
  cases hp
  rfl

structure EmitCall.Alike (call call' : EmitCall) : Prop where
  env : call.env.Alike call'.env
  in_ring : call.in_ring = call'.in_ring

structure EventStream.Alike (s s' : EventStream) : Prop where
  seq : s.bus.seq = s'.bus.seq
  ring : List.Forall₂ Envelope.Alike s.bus.ring s'.bus.ring
  sent : List.Forall₂ Envelope.Alike s.bus.sent s'.bus.sent
  calls : List.Forall₂ EmitCall.Alike s.calls s'.calls

namespace EventStream.Alike

variable {s s' : EventStream}

theorem take (h : s.Alike s') (e : String) {p p' : Value} (hp : e ≠ "drop.joined" → p = p') :
    (s.take e p).Alike (s'.take e p') where
  seq := by simp only [EventStream.take, EventBus.take, h.seq]
  ring := h.ring
  sent := h.sent
  calls := forall₂_concat h.calls ⟨⟨h.seq, rfl, hp⟩, rfl⟩

theorem append (h : s.Alike s') (j : Nat) : (s.append j).Alike (s'.append j) := by
  have hcall := forall₂_at h.calls j
  have hlength := h.ring.length_eq
  have hset {call call' : EmitCall} (hnew : call.Alike call') := forall₂_set h.calls j hnew
  unfold EventStream.append
  generalize s.calls[j]? = call at hcall ⊢
  generalize s'.calls[j]? = call' at hcall ⊢
  cases hcall with
  | none => exact h
  | @some call call' hcall =>
    obtain ⟨env, in_ring⟩ := call
    obtain ⟨env', in_ring'⟩ := call'
    obtain rfl : in_ring = in_ring' := hcall.in_ring
    cases in_ring with
    | true => exact h
    | false =>
      refine ⟨h.seq, ?_, h.sent, hset ⟨hcall.env, rfl⟩⟩
      simp only [EventBus.append, hlength]
      split
      · exact forall₂_concat (forall₂_tail h.ring) hcall.env
      · exact forall₂_concat h.ring hcall.env

theorem send (h : s.Alike s') (j : Nat) : (s.send j).Alike (s'.send j) := by
  have hcall := forall₂_at h.calls j
  have hrest := forall₂_eraseIdx h.calls j
  unfold EventStream.send
  generalize s.calls[j]? = call at hcall ⊢
  generalize s'.calls[j]? = call' at hcall ⊢
  cases hcall with
  | none => exact h
  | @some call call' hcall =>
    obtain ⟨env, in_ring⟩ := call
    obtain ⟨env', in_ring'⟩ := call'
    obtain rfl : in_ring = in_ring' := hcall.in_ring
    cases in_ring with
    | true => exact ⟨h.seq, h.ring, forall₂_concat h.sent hcall.env, hrest⟩
    | false => exact h

/-- What is replayed is the same, if it has no `drop.joined`. -/
theorem replay (h : s.Alike s') («from» : UInt64)
    (hnone : ∀ env ∈ (s.bus.replay «from»).1, env.e ≠ "drop.joined") :
    s.bus.replay «from» = s'.bus.replay «from» := by
  have hevents := forall₂_filter h.ring (p := fun env => decide (max «from» 1 ≤ env.seq))
    (q := fun env => decide (max «from» 1 ≤ env.seq)) fun env env' henv => by rw [henv.seq]
  have holdest : s.bus.ring.head?.map Envelope.seq = s'.bus.ring.head?.map Envelope.seq := by
    have hhead := forall₂_head h.ring
    generalize s.bus.ring.head? = first at hhead ⊢
    generalize s'.bus.ring.head? = first' at hhead ⊢
    cases hhead with
    | none => rfl
    | some henv => simp [henv.seq]
  have hsame : ∀ {a b : List Envelope}, List.Forall₂ Envelope.Alike a b →
      (∀ env ∈ a, env.e ≠ "drop.joined") → a = b := by
    intro a b hab hquiet
    induction hab with
    | nil => rfl
    | cons henv _ ih =>
      rw [henv.eq (hquiet _ (by simp)), ih fun env hmem => hquiet env (by simp [hmem])]
  unfold EventBus.replay at hnone ⊢
  dsimp only at hnone ⊢
  rw [hsame hevents hnone, holdest]

/-- What a forwarder gets is the same, if it is no `drop.joined`. -/
theorem forward (h : s.Alike s') (next : Nat)
    (hnone : ∀ env, .event env ∈ (Feed.forward { next, pipe := [] } s.bus).pipe →
      env.e ≠ "drop.joined") :
    Feed.forward { next, pipe := [] } s.bus = Feed.forward { next, pipe := [] } s'.bus := by
  have hlength := h.sent.length_eq
  have hvalue := forall₂_at h.sent next
  unfold Feed.forward broadcast_recv at hnone ⊢
  by_cases hgone : next + BUS_CHANNEL < s'.bus.sent.length
  · simp only [hlength, if_pos hgone]
  · simp only [hlength, if_neg hgone] at hnone ⊢
    generalize s.bus.sent[next]? = value at hvalue hnone ⊢
    generalize s'.bus.sent[next]? = value' at hvalue ⊢
    cases hvalue with
    | none => rfl
    | some henv => simp [henv.eq (hnone _ (by simp))]

/-- Whatever a forwarder gets, it is as far as that of the other daemon. -/
theorem forward_next (h : s.Alike s') (next : Nat) :
    (Feed.forward { next, pipe := [] } s.bus).next =
      (Feed.forward { next, pipe := [] } s'.bus).next := by
  have hlength := h.sent.length_eq
  have hvalue := forall₂_at h.sent next
  unfold Feed.forward broadcast_recv
  by_cases hgone : next + BUS_CHANNEL < s'.bus.sent.length
  · simp only [hlength, if_pos hgone]
  · simp only [hlength, if_neg hgone]
    generalize s.bus.sent[next]? = value at hvalue ⊢
    generalize s'.bus.sent[next]? = value' at hvalue ⊢
    cases hvalue with
    | none => rfl
    | some henv => rfl

end EventStream.Alike

/-! ## Connections side by side -/

/-- A connection whose client said hello with no role but that of an observer, or
has not said it yet. -/
def ClientStage.Observes : ClientStage → Prop
  | .greeting => True
  | .serving roles _ => ∀ role ∈ roles, role = .Observer
  | .ended roles => ∀ role ∈ roles, role = .Observer

instance (stage : ClientStage) : Decidable stage.Observes :=
  match stage with
  | .greeting => .isTrue trivial
  | .serving roles _ => inferInstanceAs (Decidable (∀ role ∈ roles, role = .Observer))
  | .ended roles => inferInstanceAs (Decidable (∀ role ∈ roles, role = .Observer))

/-- The same frame of a client, but for the ticket of a `drop.join`. -/
inductive Frame.Alike : Frame → Frame → Prop where
  | same (frame : Frame) : Alike frame frame
  | ticket (id : UInt64) (p p' : Value) :
    Alike (.Req id "drop.join" p) (.Req id "drop.join" p')

/-- The same connection, but for what its client is sent. -/
structure ClientConn.Alike (client client' : ClientConn) : Prop where
  stage : client.stage = client'.stage
  inbound : List.Forall₂ Frame.Alike client.inbound client'.inbound
  inbound_open : client.inbound_open = client'.inbound_open
  outbound_open : client.outbound_open = client'.outbound_open

/-- The same connections, and an observer `c` who is sent the same. -/
structure ControlApi.Alike (c : ClientId) (a a' : ControlApi) : Prop where
  options : a.options = a'.options
  asks : a.asks = a'.asks
  consents : a.consents = a'.consents
  clients : List.Forall₂ ClientConn.Alike a.clients a'.clients
  heard : ∀ client client', a.clients[c]? = some client → a'.clients[c]? = some client' →
    client.stage.Observes → client.outbound = client'.outbound

namespace ClientConn

@[simp] theorem push_stage (client : ClientConn) (frame : Frame) :
    (client.push frame).stage = client.stage := by
  unfold push
  split <;> rfl

theorem Alike.push_left {client client' : ClientConn} (h : client.Alike client') (frame : Frame) :
    (client.push frame).Alike client' := by
  unfold ClientConn.push
  split
  · exact ⟨h.stage, h.inbound, h.inbound_open, h.outbound_open⟩
  · exact h

theorem Alike.push_right {client client' : ClientConn} (h : client.Alike client')
    (frame : Frame) : client.Alike (client'.push frame) := by
  unfold ClientConn.push
  split
  · exact ⟨h.stage, h.inbound, h.inbound_open, h.outbound_open⟩
  · exact h

theorem Alike.push {client client' : ClientConn} (h : client.Alike client') (frame frame' : Frame) :
    (client.push frame).Alike (client'.push frame') :=
  (h.push_left frame).push_right frame'

/-- Whoever was sent the same is sent the same with one more frame. -/
theorem push_outbound {client client' : ClientConn} (h : client.Alike client')
    (hsame : client.outbound = client'.outbound) (frame : Frame) :
    (client.push frame).outbound = (client'.push frame).outbound := by
  unfold ClientConn.push
  rw [h.outbound_open]
  split
  · simp [hsame]
  · exact hsame

theorem Alike.push_all {client client' : ClientConn} (h : client.Alike client')
    (notices notices' : List Notice) :
    (client.push_all notices).Alike (client'.push_all notices') := by
  induction notices generalizing client with
  | nil =>
    induction notices' generalizing client' with
    | nil => exact h
    | cons notice notices' ih => exact ih (h.push_right _)
  | cons notice notices ih => exact ih (h.push_left _)

@[simp] theorem push_all_stage (client : ClientConn) (notices : List Notice) :
    (client.push_all notices).stage = client.stage := by
  induction notices generalizing client with
  | nil => rfl
  | cons notice notices ih => exact (ih _).trans (client.push_stage _)

theorem push_all_outbound {client client' : ClientConn} (h : client.Alike client')
    (hsame : client.outbound = client'.outbound) (notices : List Notice) :
    (client.push_all notices).outbound = (client'.push_all notices).outbound := by
  induction notices generalizing client client' with
  | nil => exact hsame
  | cons notice notices ih => exact ih (h.push _ _) (push_outbound h hsame _)

theorem Alike.with_stage {client client' : ClientConn} (h : client.Alike client')
    (stage : ClientStage) :
    ClientConn.Alike { client with stage } { client' with stage } :=
  ⟨rfl, h.inbound, h.inbound_open, h.outbound_open⟩

end ClientConn

/-- What is not a hello ends a new connection. -/
theorem ControlApi.greet_other (a : ControlApi) (k : ClientId) (client : ClientConn)
    (world : ServeWorld) (id : UInt64) {m : String} (p : Value) (hm : m ≠ "hello") :
    a.greet k client world (some (.Req id m p)) =
      a.set_client k { client with stage := .ended [] } := by
  unfold ControlApi.greet
  split
  · rename_i heq
    cases heq
    exact absurd rfl hm
  · rfl

namespace ControlApi.Alike

variable {c : ClientId} {a a' : ControlApi}

theorem is_closed (h : a.Alike c a') : a.is_closed = a'.is_closed := by
  funext k
  unfold ControlApi.is_closed
  rcases hfound : a.clients[k]? with _ | client
  · rw [forall₂_missing h.clients hfound]
  · obtain ⟨client', hfound', hsame⟩ := forall₂_found h.clients hfound
    simp [hfound', hsame.outbound_open]

/-- A connection goes on, and an observer is sent the same. -/
theorem set_client (h : a.Alike c a') (k : ClientId) {client client' : ClientConn}
    (hnew : client.Alike client')
    (hheard : k = c → client.stage.Observes → client.outbound = client'.outbound) :
    (a.set_client k client).Alike c (a'.set_client k client') where
  options := h.options
  asks := h.asks
  consents := h.consents
  clients := forall₂_set h.clients k hnew
  heard := by
    intro x x' hx hx' hobserves
    simp only [ControlApi.set_client, List.getElem?_set] at hx hx'
    by_cases hk : k = c
    · rw [if_pos hk] at hx hx'
      split at hx
      · split at hx'
        · cases hx
          cases hx'
          exact hheard hk hobserves
        · cases hx'
      · cases hx
    · rw [if_neg hk] at hx hx'
      exact h.heard x x' hx hx' hobserves

theorem modify_client (h : a.Alike c a') (k : ClientId) {f g : ClientConn → ClientConn}
    (hchange : ∀ x y : ClientConn, x.Alike y → (f x).Alike (g y))
    (hstage : ∀ x : ClientConn, (f x).stage = x.stage)
    (hf : ∀ x : ClientConn, (f x).outbound = x.outbound)
    (hg : ∀ x : ClientConn, (g x).outbound = x.outbound) :
    (a.modify_client k f).Alike c (a'.modify_client k g) where
  options := h.options
  asks := h.asks
  consents := h.consents
  clients := forall₂_modify h.clients k hchange
  heard := by
    intro x x' hx hx' hobserves
    simp only [ControlApi.modify_client, List.getElem?_modify, Option.map_eq_map,
      Option.map_eq_some_iff] at hx hx'
    obtain ⟨y, hy, rfl⟩ := hx
    obtain ⟨y', hy', rfl⟩ := hx'
    have hsame := h.heard y y' hy hy'
    by_cases hk : k = c
    · simp only [if_pos hk, hstage, hf, hg] at hobserves ⊢
      exact hsame hobserves
    · simp only [if_neg hk] at hobserves ⊢
      exact hsame hobserves

theorem with_asks (h : a.Alike c a') (asks : AskRouter) :
    ControlApi.Alike c { a with asks } { a' with asks } :=
  ⟨h.options, rfl, h.consents, h.clients, h.heard⟩

theorem with_consents (h : a.Alike c a') (consents : List ConsentTask) :
    ControlApi.Alike c { a with consents } { a' with consents } :=
  ⟨h.options, h.asks, rfl, h.clients, h.heard⟩

/-! ### What clients do -/

theorem attach (h : a.Alike c a') : (a.act .attach).Alike c (a'.act .attach) where
  options := h.options
  asks := h.asks
  consents := h.consents
  clients := forall₂_concat h.clients ⟨rfl, .nil, rfl, rfl⟩
  heard := by
    intro x x' hx hx' hobserves
    have hlength := h.clients.length_eq
    simp only [ControlApi.act] at hx hx'
    by_cases hold : c < a.clients.length
    · rw [List.getElem?_append_left hold] at hx
      rw [List.getElem?_append_left (hlength ▸ hold)] at hx'
      exact h.heard x x' hx hx' hobserves
    · have hpast := Nat.le_of_not_lt hold
      rw [List.getElem?_append_right hpast] at hx
      rw [List.getElem?_append_right (hlength ▸ hpast)] at hx'
      have hnew := List.mem_of_getElem? hx
      have hnew' := List.mem_of_getElem? hx'
      simp only [List.mem_singleton] at hnew hnew'
      rw [hnew, hnew']

theorem sent (h : a.Alike c a') (k : ClientId) {frame frame' : Frame}
    (hframe : frame.Alike frame') :
    (a.act (.sent k frame)).Alike c (a'.act (.sent k frame')) := by
  refine h.modify_client k (fun x y hxy => ?_) (fun x => ?_) (fun x => ?_) (fun x => ?_)
  · rw [hxy.inbound_open]
    split
    · exact ⟨hxy.stage, forall₂_concat hxy.inbound hframe, rfl, hxy.outbound_open⟩
    · exact hxy
  all_goals split <;> rfl

theorem hung_up (h : a.Alike c a') (k : ClientId) :
    (a.act (.hung_up k)).Alike c (a'.act (.hung_up k)) :=
  h.modify_client k (fun _ _ hxy => ⟨hxy.stage, hxy.inbound, rfl, hxy.outbound_open⟩)
    (fun _ => rfl) (fun _ => rfl) (fun _ => rfl)

theorem stopped_reading (h : a.Alike c a') (k : ClientId) :
    (a.act (.stopped_reading k)).Alike c (a'.act (.stopped_reading k)) :=
  h.modify_client k (fun _ _ hxy => ⟨hxy.stage, hxy.inbound, hxy.inbound_open, rfl⟩)
    (fun _ => rfl) (fun _ => rfl) (fun _ => rfl)

/-! ### What connections do -/

theorem answer (h : a.Alike c a') (id : UInt64) (result : Except ApiError Value) :
    (a.answer id result).Alike c (a'.answer id result) := by
  unfold ControlApi.answer
  rw [h.asks, h.consents]
  split
  · exact ⟨h.options, rfl, rfl, h.clients, h.heard⟩
  · exact h

theorem disconnect (h : a.Alike c a') (k : ClientId) {client client' : ClientConn}
    (hnew : client.Alike client') (roles : List Role) (ui_token : Option UInt64)
    (hheard : k = c → (ClientStage.ended roles).Observes → client.outbound = client'.outbound) :
    (a.disconnect k client roles ui_token).Alike c (a'.disconnect k client' roles ui_token) := by
  unfold ControlApi.disconnect
  rw [h.asks, h.is_closed]
  exact (h.set_client k (hnew.with_stage (.ended roles)) hheard).with_asks _

theorem welcome (h : a.Alike c a') (k : ClientId) {client client' : ClientConn}
    (hnew : client.Alike client') (roles : List Role)
    (hheard : k = c → client.outbound = client'.outbound) :
    (a.welcome k client roles).Alike c (a'.welcome k client' roles) := by
  unfold ControlApi.welcome
  rw [h.asks]
  split
  · have hserving := h.set_client k
      (hnew.with_stage (.serving roles (some (a'.asks.register_ui k).1))) fun hk _ => hheard hk
    exact hserving.with_asks _
  · exact h.set_client k (hnew.with_stage _) fun hk _ => hheard hk

/-- A connection that has not said hello is that of an observer so far. -/
theorem greet (h : a.Alike c a') (k : ClientId) {client client' : ClientConn}
    (hnew : client.Alike client') (hheard : k = c → client.outbound = client'.outbound)
    {world world' : ServeWorld} (hresult : world.hello_result = world'.hello_result)
    (herror : world.hello_error = world'.hello_error) {frame frame' : Option Frame}
    (hframe : Option.Rel Frame.Alike frame frame') :
    (a.greet k client world frame).Alike c (a'.greet k client' world' frame') := by
  have hclose : (a.set_client k { client with stage := .ended [] }).Alike c
      (a'.set_client k { client' with stage := .ended [] }) :=
    h.set_client k (hnew.with_stage _) fun hk _ => hheard hk
  have hrefuse (error : Frame) :
      (a.set_client k { client.push error with stage := .ended [] }).Alike c
        (a'.set_client k { client'.push error with stage := .ended [] }) :=
    h.set_client k ((hnew.push error error).with_stage _) fun hk _ =>
      ClientConn.push_outbound hnew (hheard hk) error
  cases hframe with
  | none => exact hclose
  | @some frame frame' hframe =>
    cases hframe with
    | ticket id p p' => exact hclose
    | same =>
      cases frame with
      | Req id m p =>
        by_cases hm : m = "hello"
        · subst hm
          simp only [ControlApi.greet, hresult, herror]
          split
          · split
            · exact h.welcome k (hnew.push _ _) _ fun hk =>
                ClientConn.push_outbound hnew (hheard hk) _
            · exact hrefuse _
          · exact hrefuse _
        · rw [a.greet_other k client world id p hm, a'.greet_other k client' world' id p hm]
          exact hclose
      | Res id p => exact hclose
      | Err id code msg => exact hclose
      | Ask id q p => exact hclose
      | Ev seq e p => exact hclose

theorem handle (h : a.Alike c a') (k : ClientId) {client client' : ClientConn}
    (hnew : client.Alike client') {roles : List Role} {ui_token : Option UInt64}
    (hstage : client.stage = .serving roles ui_token)
    (hheard : k = c → client.stage.Observes → client.outbound = client'.outbound)
    {world world' : ServeWorld}
    (hreply : k = c → client.stage.Observes → world.reply = world'.reply)
    {frame frame' : Option Frame} (hframe : Option.Rel Frame.Alike frame frame') :
    (a.handle k client roles ui_token world frame).Alike c
      (a'.handle k client' roles ui_token world' frame') := by
  have hleave := h.disconnect k hnew roles ui_token fun hk hroles =>
    hheard hk (by rw [hstage]; exact hroles)
  have hrequest (id : UInt64) (m m' : String) (p p' : Value) :
      (a.handle k client roles ui_token world (some (.Req id m p))).Alike c
        (a'.handle k client' roles ui_token world' (some (.Req id m' p'))) := by
    simp only [ControlApi.handle, hnew.outbound_open]
    split
    · refine h.set_client k (hnew.push _ _) fun hk hobserves => ?_
      rw [ClientConn.push_stage] at hobserves
      rw [hreply hk hobserves]
      exact ClientConn.push_outbound hnew (hheard hk hobserves) _
    · exact hleave
  cases hframe with
  | none => exact hleave
  | @some frame frame' hframe =>
    cases hframe with
    | ticket id p p' => exact hrequest id _ _ p p'
    | same =>
      cases frame with
      | Req id m p => exact hrequest id m m p p
      | Res id p => exact (h.set_client k hnew hheard).answer id (.ok p)
      | Err id code msg => exact (h.set_client k hnew hheard).answer id (.error ⟨code, msg⟩)
      | Ask id q p => exact h.set_client k hnew hheard
      | Ev seq e p => exact h.set_client k hnew hheard

theorem serve (h : a.Alike c a') (k : ClientId) {world world' : ServeWorld}
    (hresult : world.hello_result = world'.hello_result)
    (herror : world.hello_error = world'.hello_error)
    (hreply : k = c → ∀ client, a.clients[c]? = some client → client.stage.Observes →
      world.reply = world'.reply) :
    (a.serve k world).Alike c (a'.serve k world') := by
  unfold ControlApi.serve
  rcases hfound : a.clients[k]? with _ | client
  · rw [forall₂_missing h.clients hfound]
    exact h
  · obtain ⟨client', hfound', hsame⟩ := forall₂_found h.clients hfound
    have hheard : k = c → client.stage.Observes → client.outbound = client'.outbound := by
      rintro rfl hobserves
      exact h.heard client client' hfound hfound' hobserves
    have hfirst := forall₂_head hsame.inbound
    have hrest : ClientConn.Alike { client with inbound := client.inbound.tail }
        { client' with inbound := client'.inbound.tail } :=
      ⟨hsame.stage, forall₂_tail hsame.inbound, hsame.inbound_open, hsame.outbound_open⟩
    rw [hfound']
    dsimp only
    rw [forall₂_isEmpty hsame.inbound, hsame.inbound_open]
    split
    · exact h
    · obtain ⟨stage, inbound, inbound_open, outbound, outbound_open⟩ := client
      obtain ⟨stage', inbound', inbound_open', outbound', outbound_open'⟩ := client'
      obtain rfl : stage = stage' := hsame.stage
      obtain rfl : inbound_open = inbound_open' := hsame.inbound_open
      cases stage with
      | greeting =>
        exact h.greet k hrest (fun hk => hheard hk trivial) hresult herror hfirst
      | serving roles ui_token =>
        refine h.handle k hrest rfl hheard (fun hk hobserves => ?_) hfirst
        subst hk
        exact hreply rfl _ hfound hobserves
      | ended roles => exact h

/-! ### What consents do -/

theorem spawn_consent (h : a.Alike c a') (question : Value) :
    (a.act (.spawn_consent question)).Alike c (a'.act (.spawn_consent question)) := by
  simp only [ControlApi.act, h.consents]
  exact h.with_consents _

theorem set_consent (h : a.Alike c a') (q : QuestionId) (task : ConsentTask)
    (stage : ConsentStage) : (a.set_consent q task stage).Alike c (a'.set_consent q task stage) := by
  unfold ControlApi.set_consent
  rw [h.consents]
  exact h.with_consents _

theorem forget_pending (h : a.Alike c a') (id : UInt64) :
    (a.forget_pending id).Alike c (a'.forget_pending id) := by
  unfold ControlApi.forget_pending
  rw [h.asks]
  exact h.with_asks _

theorem decided (h : a.Alike c a') (answer : Option Value) : a.decided answer = a'.decided answer := by
  unfold ControlApi.decided
  rw [h.options]

theorem send_question (h : a.Alike c a') (q : QuestionId) (task : ConsentTask) (id : UInt64)
    (ui : ClientId) :
    (a.send_question q task id ui).Alike c (a'.send_question q task id ui) := by
  have hdrop := (h.forget_pending id).set_consent q task (a'.decided none)
  unfold ControlApi.send_question
  rw [h.decided]
  rcases hfound : a.clients[ui]? with _ | client
  · rw [forall₂_missing h.clients hfound]
    exact hdrop
  · obtain ⟨client', hfound', hnew⟩ := forall₂_found h.clients hfound
    rw [hfound']
    dsimp only
    rw [hnew.outbound_open]
    split
    · refine (h.set_client ui (hnew.push _ _) ?_).set_consent q task _
      rintro rfl hobserves
      rw [ClientConn.push_stage] at hobserves
      exact ClientConn.push_outbound hnew (h.heard client client' hfound hfound' hobserves) _
    · exact hdrop

theorem await_answer (h : a.Alike c a') (q : QuestionId) (task : ConsentTask) (id : UInt64)
    (timed_out : Bool) :
    (a.await_answer q task id timed_out).Alike c (a'.await_answer q task id timed_out) := by
  have hdrop := (h.forget_pending id).set_consent q task (a'.decided none)
  unfold ControlApi.await_answer
  simp only [h.decided, h.asks]
  split
  · exact h.set_consent q task _
  · exact hdrop
  · split
    · exact hdrop
    · exact h

theorem consent (h : a.Alike c a') (q : QuestionId) (timed_out : Bool) :
    (a.act (.consent q timed_out)).Alike c (a'.act (.consent q timed_out)) := by
  have htask : a.consents[q]? = a'.consents[q]? := by rw [h.consents]
  simp only [ControlApi.act, ControlApi.consent, htask]
  rcases a'.consents[q]? with _ | task
  · exact h
  · dsimp only
    cases task.stage with
    | start =>
      simp only [h.options, ControlApi.has_live_ui, h.asks, h.is_closed, h.decided]
      by_cases hauto : (a'.options.auto_accept && !a'.asks.has_live_ui a'.is_closed) = true
      · simp only [hauto, if_true]
        exact h.set_consent q task _
      · simp only [hauto]
        exact h.set_consent q task _
    | asking =>
      simp only [h.asks, h.is_closed]
      exact (h.with_asks _).set_consent q task _
    | numbered id =>
      simp only [h.asks, h.is_closed, h.decided]
      split
      · exact h.set_consent q task _
      · exact h.set_consent q task _
    | targeted id ui =>
      simp only [h.asks]
      exact (h.with_asks _).set_consent q task _
    | sending id ui => exact h.send_question q task id ui
    | waiting id ui => exact h.await_answer q task id timed_out
    | declined reason => exact h
    | fetching out => exact h

end ControlApi.Alike

end iroh_drop
