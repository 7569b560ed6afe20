-- The table of a daemon as a set of memberships: which handles it gives to which
-- sessions, and what the joins that it answers have asked for.
import IrohDrop.Handles
import IrohDrop.JoinGrants
import IrohDrop.PersistSteps

open rust_std postcard

namespace iroh_drop

section Laws

variable [Crypto]

/-! ## What a request waits for -/

/-- The topic that the join asks for, if the request is one. -/
def Call.Asks (s : Service) (call : Call) (asked : Option TopicId) : Prop :=
  match call with
  | .connecting ticket (.joined _) => asked = some ticket.topic
  | .opened i (.joined _) => ∃ topic, asked = some topic ∧ s.topic_of i = some topic
  | _ => True

namespace Service

variable {s s' : Service}

theorem topic_of_origin (s : Service) (i : SessionId) : s.topic_of i = (s.origin i).map Prod.fst := by
  unfold topic_of origin
  rw [Option.map_map]
  rfl

theorem Later.topic_of (h : Later s s') {i : SessionId} {topic : TopicId}
    (hi : s.topic_of i = some topic) : s'.topic_of i = some topic := by
  rw [topic_of_origin] at hi ⊢
  obtain ⟨o, ho, rfl⟩ := Option.map_eq_some_iff.mp hi
  rw [h i o ho, Option.map_some]

/-- What one act does with the requests that wait. `at_call`: the one that it
may end. `Begins`: what it may begin. -/
inductive CallsMove (s s' : Service) (at_call : Option Nat) (Begins : Call → Prop) : Prop
  | same (calls : s'.calls = s.calls)
  | added {call : Call} (begins : Begins call) (calls : s'.calls = s.calls ++ [call])
  | moved {k : Nat} {old call : Call} (found : s.calls[k]? = some old)
      (calls : s'.calls = s.calls.set k call) (restored : call.restored = old.restored)
      (opens : call.restored = none ∨ ∃ ticket opening i, old = .connecting ticket opening ∧
        call = .opened i opening ∧ s'.origin i = some (ticket.topic, ticket))
      (asks : ∀ asked, old.Asks s asked → call.Asks s' asked)
  | ended {k : Nat} {old : Call} (found : s.calls[k]? = some old) (at_call : at_call = some k)
      (calls : s'.calls = s.calls.eraseIdx k)

namespace CallsMove

variable {at_call : Option Nat} {Begins : Call → Prop}

theorem connect {ticket : DropTicket} {opening : Opening}
    (h : Begins (.connecting ticket opening)) :
    CallsMove s ((s.connect ticket opening).toOption.getD s) at_call Begins := by
  unfold Service.connect
  rcases s.check_session_capacity with e | u
  · exact .same rfl
  · exact .added h rfl

theorem drop_join [Urls] {text : String}
    (h : ∀ ticket name, DropTicket.from_string_prefixed text.toList = .ok ticket →
      Begins (.connecting ticket (.joined name))) :
    CallsMove s ((s.drop_join text).toOption.getD s) at_call Begins := by
  unfold Service.drop_join
  rcases hparse : DropTicket.from_string_prefixed text.toList with e | ticket
  · exact .same rfl
  simp only
  rcases s.handle_for_topic ⟨ticket.V1.topic_id⟩ with _ | handle
  · exact .connect (h ticket _ hparse)
  simp only
  rcases s.entry handle with e | entry
  · exact .same rfl
  · exact .same rfl

theorem connected [Urls] (s : Service) (k : Nat) (carrier : Except String Unit)
    (store : BlobHash → BlobStatus) :
    CallsMove s (s.connected k carrier store) (some k) Begins := by
  by_cases hk : ∃ ticket opening, s.calls[k]? = some (.connecting ticket opening)
  · obtain ⟨ticket, opening, hk⟩ := hk
    rcases carrier with e | u
    · refine .ended hk rfl ?_
      unfold Service.connected
      rw [hk]
      rfl
    · obtain ⟨hcalls, horigin, -⟩ := connected_ok hk store
      refine .moved hk hcalls ?_ (.inr ⟨ticket, opening, _, rfl, rfl, horigin⟩) ?_
      · cases opening <;> rfl
      · intro asked hasked
        cases opening with
        | joined name =>
          refine ⟨ticket.topic, hasked, ?_⟩
          rw [topic_of_origin, horigin, Option.map_some]
        | created name => trivial
        | restored handle name mine => trivial
  · rw [connected_none fun ticket opening h => hk ⟨ticket, opening, h⟩]
    exact .same rfl

theorem withdraw (s : Service) (k : Nat) (announced_at_ms : BlobHash → UInt64)
    (draws : BlobHash → Draw) : CallsMove s (s.withdraw k announced_at_ms draws) at_call Begins := by
  unfold Service.withdraw
  split
  · rename_i handle i hk
    exact .moved hk rfl rfl (.inl rfl) fun _ _ => trivial
  · exact .same rfl

theorem stop (s : Service) (k : Nat) : CallsMove s (s.stop k) (some k) Begins := by
  unfold Service.stop
  split
  · rename_i handle i hk
    split
    · exact .same rfl
    · exact .ended hk rfl rfl
  · exact .same rfl

theorem pump (s : Service) (i : SessionId) : CallsMove s (s.pump i) at_call Begins := by
  refine .same ?_
  unfold Service.pump on_session_event
  grind [Service.modify]

theorem drop_leave {handle : String} {s' : Service} (hs : s.drop_leave handle = .ok s')
    (h : ∀ i, Begins (.withdrawing handle i)) : CallsMove s s' at_call Begins := by
  unfold Service.drop_leave at hs
  obtain ⟨entry, -, hs⟩ := bind_eq_ok.mp hs
  cases hs
  exact .added (h _) rfl

end CallsMove

end Service


/-! ## What a step does to the service -/

theorem fixed_origin : Fixed (fun session => (session.topic_id, session.ticket)) := by
  intro session step
  have hconfig := congrArg SessionConfig.topic_id (fixed_config session step)
  exact Prod.ext hconfig (session.ticket_step step)

theorem Service.Later.act [Urls] (self_addr : EndpointAddr) (s : Service) (a : Service.Act) :
    Service.Later s (s.act self_addr a) :=
  Service.Lasts.act fixed_origin self_addr s a

namespace Daemon

variable [Urls] [TableJson] (self_addr : EndpointAddr)

/-- A step of the daemon lets its service act, or does little else to it. -/
inductive Serves (s s' : Service) : Prop
  | acted (acts : List Service.Act) (service : s' = s.run self_addr acts)
  | counted (n : UInt64) (service : s' = { s with next_drop := n })
  | emptied (service : s' = { s with drops := ∅ })

omit [TableJson] in
theorem Serves.refl (s : Service) : Serves self_addr s s := .acted [] rfl

omit [TableJson] in
theorem Serves.act (s : Service) (a : Service.Act) : Serves self_addr s (s.act self_addr a) :=
  .acted [a] rfl

omit [TableJson] in
theorem serves_settle (s : Daemon) (k : Nat) :
    Serves self_addr s.service (s.settle k).service := by
  unfold Daemon.settle
  split
  · exact .act self_addr _ (.settle k)
  · dsimp only
    split
    · exact .act self_addr _ (.settle k)
    · exact .acted [.settle k, .answer k] rfl
  · exact .act self_addr _ (.settle k)

omit [TableJson] in
theorem serves_leave (s : Daemon) (handle : String) :
    Serves self_addr s.service (s.drop_leave handle).service := by
  unfold Daemon.drop_leave
  split
  · rename_i entry service hentry hleave
    split
    · exact .refl self_addr _
    · refine .acted [.drop_leave handle] ?_
      change service = (s.service.drop_leave handle).toOption.getD s.service
      rw [hleave]
      rfl
  · exact .refl self_addr _

omit [Urls] [TableJson] in
theorem service_pump (s : Daemon) (i : SessionId) : (s.pump i).service = s.service.pump i := by
  unfold Daemon.pump schedule_persist
  dsimp only
  split
  · split <;> rfl
  · rfl

omit [TableJson] in
theorem service_join (s : Daemon) (text : String) :
    (s.drop_join self_addr text).service = s.service.act self_addr (.drop_join text) := by
  unfold Daemon.drop_join
  dsimp only
  split
  · rfl
  · split <;> rfl

omit [TableJson] in
theorem serves_act (s : Daemon) (a : Service.Act) :
    Serves self_addr s.service (s.act self_addr a).service := by
  unfold Daemon.act
  split
  iterate 3
    · split
      · dsimp only
        exact .act self_addr s.service _
      · exact .refl self_addr _
  · split
    · rw [service_join]
      exact .act self_addr s.service _
    · exact .refl self_addr _
  · split
    · exact serves_leave self_addr s _
    · exact .refl self_addr _
  · exact serves_settle self_addr s _
  · rw [service_pump]
    exact .act self_addr _ (.pump _)
  · exact .refl self_addr _
  · exact .refl self_addr _
  · exact .act self_addr s.service _

omit [TableJson] in
theorem serves_restore (s : Daemon) : Serves self_addr s.service (s.restore self_addr).service := by
  unfold Daemon.restore
  split
  · exact .refl self_addr _
  · split
    · exact .counted _ rfl
    · dsimp only
      split
      · exact .refl self_addr _
      · dsimp only
        exact .act self_addr s.service _

omit [TableJson] in
theorem serves_restore_history (s : Daemon) (k : Nat) (now : Instant) :
    Serves self_addr s.service (s.restore_history k now).service := by
  unfold Daemon.restore_history
  split
  · split
    · exact .refl self_addr _
    · exact .act self_addr _ (.session_step _ _)
  · exact .refl self_addr _

theorem Worked.serves {s s' : Daemon} {k : Nat} (h : Worked self_addr s k s') :
    Serves self_addr s.service s'.service := by
  cases h with
  | drained hk stage purpose => exact .emptied rfl
  | _ => exact .refl self_addr _

theorem serves_step (s : Daemon) {op : DaemonOp} (hop : op ≠ .restart) :
    Serves self_addr s.service (s.step self_addr op).service := by
  cases op with
  | act a => exact serves_act self_addr s a
  | restore => exact serves_restore self_addr s
  | restore_history k now => exact serves_restore_history self_addr s k now
  | debounced handle =>
    simp only [Daemon.step, Daemon.debounced]
    split <;> exact .refl self_addr _
  | published k =>
    simp only [Daemon.step, Daemon.published]
    split
    · split
      · exact .act self_addr _ (.work_ended k)
      · exact .refl self_addr _
    · exact .refl self_addr _
  | job k => exact (Daemon.worked self_addr s k).serves
  | shutdown =>
    simp only [Daemon.step, Daemon.shutdown]
    split <;> exact .refl self_addr _
  | restart => exact absurd rfl hop

variable {self_addr} {s s' : Service}

omit [TableJson] in
theorem Serves.later (h : Serves self_addr s s') : Service.Later s s' := by
  cases h with
  | acted acts service =>
    subst service
    exact Service.Lasts.run fixed_origin self_addr s acts
  | counted n service =>
    subst service
    exact .of_sessions rfl
  | emptied service =>
    subst service
    exact .of_sessions rfl

omit [TableJson] in
theorem Serves.rooted (hserves : Serves self_addr s s') (h : s.Rooted) : s'.Rooted := by
  cases hserves with
  | acted acts service =>
    subst service
    exact runs.invariant (fun _ _ hs => hs.act self_addr _) h acts
  | counted n service =>
    subst service
    exact h.of_later (h.toHosting.congr rfl rfl rfl rfl rfl) (.of_sessions rfl) rfl
  | emptied service =>
    subst service
    refine h.of_later (h.toHosting.with_drops ?_) (.of_sessions rfl) rfl
    intro handle entry hentry
    cases hentry

end Daemon

/-! ## Requests and answers -/

/-- The request that the step may end. -/
def DaemonOp.call : DaemonOp → Option Nat
  | .act (.connected k _ _) => some k
  | .act (.settle k) => some k
  | .act (.stop k) => some k
  | _ => none

/-- The topic that is asked for, if the step is a `drop.join`. -/
def DaemonOp.topic [Urls] : DaemonOp → Option TopicId
  | .act (.drop_join text) =>
    (DropTicket.from_string_prefixed text.toList).toOption.map DropTicket.topic
  | _ => none

/-- What a job has to do at its end. -/
inductive Duty where
  /-- It answers `Ok` with this handle, if the table has it. -/
  | answer (handle : String)
  /-- It lets go of all drops. -/
  | close
  | nothing

def Job.duty (job : Job) : Duty :=
  match job.purpose with
  | .opened | .rejoined => .answer job.handle
  | .shutdown _ => .close
  | _ => .nothing

namespace Daemon

def duties (self : Daemon) : List Duty := self.jobs.map Job.duty

/-- The handle that the next step of a job answers `Ok` with. -/
def answer (self : Daemon) (k : Nat) : Option String :=
  match self.jobs[k]? with
  | some job =>
    match job.stage, job.duty with
    | .ending, .answer handle => (self.service.drop handle).map fun _ => handle
    | _, _ => none
  | none => none

/-- The session that the step puts into the table. -/
def opens (self : Daemon) : DaemonOp → Option (SessionId × Opening)
  | .act (.settle k) =>
    match self.service.calls[k]? with
    | some (.opened i opening) => some (i, opening)
    | _ => none
  | _ => none

/-- A new request: one that is served, or the next row of a restart. -/
inductive Begins [Urls] (s s' : Daemon) (op : DaemonOp) : Call → Prop
  | request {call : Call} (serving : s.serving = true) (restored : call.restored = none)
      (asks : call.Asks s'.service op.topic) : Begins s s' op call
  | row {ticket : DropTicket} {pd : PersistedDrop} (restoring : s.serving = false)
      (row : pd ∈ s.restoring) (reads : DropTicket.from_string_prefixed pd.ticket.toList = .ok ticket)
      (number : ∀ n, handle_number pd.handle = some n → n ≤ s'.max_handle) :
      Begins s s' op (.connecting ticket (.restored pd.handle pd.name pd.mine))

/-- A new duty. A `drop.join` of a hosted topic answers with its handle, and a
request whose session comes into the table with the handle that it gets. -/
inductive Owes [Urls] (s : Daemon) : DaemonOp → Duty → Prop
  | hosted {text : String} {ticket : DropTicket} {handle : String}
      (reads : DropTicket.from_string_prefixed text.toList = .ok ticket)
      (hosted : s.service.handle_for_topic ticket.topic = some handle) :
      Owes s (.act (.drop_join text)) (.answer handle)
  | opened {k : Nat} {i : SessionId} {opening : Opening}
      (found : s.service.calls[k]? = some (.opened i opening))
      (fresh : (Call.opened i opening).restored = none) :
      Owes s (.act (.settle k)) (.answer (s.service.handle_of opening))
  | closing {op : DaemonOp} (serving : s.serving = true) : Owes s op .close
  | nothing {op : DaemonOp} : Owes s op .nothing

section Steps

variable [Urls] {self_addr : EndpointAddr} {s s' : Daemon}

/-- What the end of a join, a create or a restore does. -/
inductive Settles (s : Daemon) (k : Nat) : Daemon → Prop
  | idle (none : ∀ i opening, s.service.calls[k]? ≠ some (.opened i opening)) : Settles s k s
  | restored {i : SessionId} {handle : String} {name : Option String} {mine : Bool}
      (found : s.service.calls[k]? = some (.opened i (.restored handle name mine))) :
      Settles s k { s with service := s.service.settle k }
  | fresh {i : SessionId} {opening : Opening} {topic : TopicId} {ticket : DropTicket}
      (found : s.service.calls[k]? = some (.opened i opening))
      (fresh : (Call.opened i opening).restored = none)
      (origin : s.service.origin i = some (topic, ticket)) :
      Settles s k ({ s.registered topic with
        service := (s.service.settle k).answered k
        known := s.known ++ [s.service.handle_of opening] }.spawn
        ⟨.opened, s.service.handle_of opening, .checking⟩)

omit [Urls] in
theorem settles (hs : Service.Hosting s.service) (k : Nat) : Settles s k (s.settle k) := by
  by_cases hk : ∃ i opening, s.service.calls[k]? = some (.opened i opening)
  · obtain ⟨i, opening, hk⟩ := hk
    obtain ⟨⟨topic, ticket⟩, horigin⟩ : ∃ o, s.service.origin i = some o :=
      Service.origin_of_lt (hs.calls _ (List.mem_of_getElem? hk) i rfl)
    have hfresh : ∀ (hnew : (Call.opened i opening).restored = none), Settles s k _ :=
      fun hnew => .fresh hk hnew horigin
    cases opening with
    | restored handle name mine =>
      simp only [Daemon.settle, hk]
      exact .restored hk
    | created name =>
      simp only [Daemon.settle, hk, horigin]
      exact hfresh rfl
    | joined name =>
      simp only [Daemon.settle, hk, horigin]
      exact hfresh rfl
  · have hnone : s.settle k = s := by
      have hservice := Service.settle_none fun i opening h => hk ⟨i, opening, h⟩
      unfold Daemon.settle
      rw [hservice]
      split
      · rfl
      · rename_i i opening _ h
        exact absurd ⟨i, opening, h⟩ hk
      · rfl
    rw [hnone]
    exact .idle fun i opening h => hk ⟨i, opening, h⟩

end Steps

end Daemon
namespace Service

variable {s : Service} {k : Nat} {i : SessionId}

theorem answered_keeps (s : Service) (k : Nat) : Keeps s (s.answered k) := by
  unfold Service.answered
  split
  · exact .end_call s k
  · exact .refl s

theorem calls_restored {handle : String} {name : Option String} {mine : Bool}
    (hk : s.calls[k]? = some (.opened i (.restored handle name mine))) :
    (s.settle k).calls = s.calls.eraseIdx k := by
  unfold Service.settle
  rw [hk]
  rfl

theorem calls_fresh {opening : Opening} (hk : s.calls[k]? = some (.opened i opening))
    (hfresh : (Call.opened i opening).restored = none) :
    ((s.settle k).answered k).calls = s.calls.eraseIdx k := by
  have hlt : k < s.calls.length := (List.getElem?_eq_some_iff.mp hk).1
  have hset : ∃ handle, (s.settle k).calls = s.calls.set k (.registered handle) := by
    unfold Service.settle
    rw [hk]
    cases opening with
    | created name => exact ⟨_, rfl⟩
    | joined name => exact ⟨_, rfl⟩
    | restored handle name mine => cases hfresh
  obtain ⟨handle, hset⟩ := hset
  unfold Service.answered
  rw [hset, List.getElem?_set_self hlt]
  simp [Service.end_call, hset, List.eraseIdx_set_eq]

/-- The counter goes on with every handle that is not of a restored drop. -/
theorem next_drop_settle {opening : Opening} (hk : s.calls[k]? = some (.opened i opening)) :
    (s.settle k).next_drop =
      if (Call.opened i opening).restored = none then s.next_drop + 1 else s.next_drop := by
  unfold Service.settle
  rw [hk]
  cases opening with
  | created name => rfl
  | joined name => rfl
  | restored handle name mine => rfl

end Service

namespace Daemon

section Steps

variable [Urls] [TableJson] {self_addr : EndpointAddr} {s s' : Daemon}

omit [Urls] [TableJson] in
theorem service_spawn (s : Daemon) (job : Job) : (s.spawn job).service = s.service := rfl

omit [TableJson] in
theorem Settles.calls {k : Nat} (h : Settles s k s') :
    Service.CallsMove s.service s'.service (some k) (Begins s s' (.act (.settle k))) := by
  cases h with
  | idle none => exact .same rfl
  | restored found => exact .ended found rfl (Service.calls_restored found)
  | fresh found fresh origin => exact .ended found rfl (Service.calls_fresh found fresh)

omit [TableJson] in
theorem calls_act (hs : Service.Hosting s.service) (a : Service.Act) :
    Service.CallsMove s.service (s.act self_addr a).service (DaemonOp.act a).call
      (Begins s (s.act self_addr a) (.act a)) := by
  cases a with
  | drop_create options topic_id key =>
    simp only [Daemon.act]
    split
    · rename_i hserving
      exact .connect (.request hserving rfl trivial)
    · exact .same rfl
  | drop_join text =>
    simp only [Daemon.act]
    split
    · rename_i hserving
      rw [service_join]
      refine .drop_join fun ticket name hparse => .request hserving rfl ?_
      change (DropTicket.from_string_prefixed text.toList).toOption.map _ = _
      rw [hparse]
      rfl
    · exact .same rfl
  | restore_drop ticket handle name mine => exact .same rfl
  | connected k carrier store => exact .connected s.service k carrier store
  | settle k =>
    exact (settles hs k).calls
  | answer k => exact .same rfl
  | drop_leave handle =>
    simp only [Daemon.act]
    split
    · rename_i hserving
      unfold Daemon.drop_leave
      split
      · rename_i entry service hentry hleave
        split
        · exact .same rfl
        · exact .drop_leave hleave fun i => .request hserving rfl trivial
      · exact .same rfl
    · exact .same rfl
  | withdraw k announced_at_ms draws => exact .withdraw s.service k announced_at_ms draws
  | stop k => exact .stop s.service k
  | offer_publish handle =>
    simp only [Daemon.act, Service.act, Service.offer_publish]
    split
    · rcases s.service.entry handle with e | entry
      · exact .same rfl
      · exact .same rfl
    · exact .same rfl
  | offer_fetch handle hash =>
    simp only [Daemon.act, Service.act, Service.offer_fetch]
    split
    · rcases s.service.entry handle with e | entry
      · exact .same rfl
      · rcases hash with e | hash
        · exact .same rfl
        · exact .same rfl
    · exact .same rfl
  | consent_answered k accept =>
    refine .same ?_
    simp only [Daemon.act, Service.act, Service.consent_answered]
    grind [Service.spawn_task]
  | session_step i step =>
    refine .same ?_
    simp only [Daemon.act, Service.act, Service.session_step]
    grind [Service.modify]
  | pump i =>
    change Service.CallsMove s.service (s.pump i).service _ _
    rw [service_pump]
    exact .pump s.service i
  | internal_ended i k => exact .same rfl
  | work_ended k => exact .same rfl
  | rejoin_ended k => exact .same rfl

omit [TableJson] in
theorem calls_restore (s : Daemon) :
    Service.CallsMove s.service (s.restore self_addr).service none
      (Begins s (s.restore self_addr) .restore) := by
  rcases hserving : s.serving with _ | _
  · rcases hcalls : s.service.calls.isEmpty with _ | _
    · exact .same (by simp [Daemon.restore, hserving, hcalls])
    rcases hrows : s.restoring with _ | ⟨pd, rest⟩
    · exact .same (by simp [Daemon.restore, hserving, hcalls, hrows])
    rcases hparse : DropTicket.from_string_prefixed pd.ticket.toList with e | ticket
    · exact .same (by simp [Daemon.restore, hserving, hcalls, hrows, hparse])
    · have hservice : (s.restore self_addr).service =
          (s.service.restore_drop ticket pd.handle pd.name pd.mine).toOption.getD s.service := by
        simp [Daemon.restore, hserving, hcalls, hrows, hparse, Service.act]
      rw [hservice]
      refine .connect (.row hserving (hrows ▸ List.mem_cons_self) hparse ?_)
      intro n hn
      simp [Daemon.restore, hserving, hcalls, hrows, hparse, hn, UInt64.le_iff_toNat_le, toNat_max]
  · exact .same (by simp [Daemon.restore, hserving])

theorem calls_step (hs : Service.Hosting s.service) {op : DaemonOp} (hop : op ≠ .restart) :
    Service.CallsMove s.service (s.step self_addr op).service op.call
      (Begins s (s.step self_addr op) op) := by
  cases op with
  | act a => exact calls_act hs a
  | restore => exact calls_restore s
  | restore_history k now =>
    refine .same ?_
    simp only [Daemon.step, Daemon.restore_history, Service.session_step]
    grind [Service.modify]
  | debounced handle =>
    simp only [Daemon.step, Daemon.debounced]
    split <;> exact .same rfl
  | published k =>
    simp only [Daemon.step, Daemon.published]
    split
    · split <;> exact .same rfl
    · exact .same rfl
  | job k =>
    have hcalls : ∀ {s' : Daemon}, Worked self_addr s k s' → s'.service.calls = s.service.calls := by
      intro s' hworked
      cases hworked <;> rfl
    exact .same (hcalls (Daemon.worked self_addr s k))
  | shutdown =>
    simp only [Daemon.step, Daemon.shutdown]
    split <;> exact .same rfl
  | restart => exact absurd rfl hop

end Steps

end Daemon
namespace Daemon

section Steps

variable [Urls] [TableJson] {self_addr : EndpointAddr} {s s' : Daemon}

/-! ## What a step does to the duties of the jobs -/

omit [Urls] [TableJson] in
theorem duties_spawn (s : Daemon) (job : Job) : (s.spawn job).duties = s.duties ++ [job.duty] := by
  simp [duties, Daemon.spawn]

omit [Urls] [TableJson] in
theorem duties_registered (s : Daemon) (topic : TopicId) : (s.registered topic).duties = s.duties := by
  unfold duties registered
  rw [List.map_map]
  refine List.map_congr_left fun job _ => ?_
  rcases job with ⟨purpose, handle, stage⟩
  cases purpose <;> rfl

omit [Urls] [TableJson] in
theorem duties_set {k : Nat} {job new : Job} (hk : s.jobs[k]? = some job)
    (hduty : new.duty = job.duty) : (s.set_job k new).duties = s.duties := by
  unfold duties set_job
  rw [List.map_set, hduty]
  obtain ⟨hlt, rfl⟩ := List.getElem?_eq_some_iff.mp hk
  refine List.ext_getElem? fun l => ?_
  by_cases hl : k = l
  · subst hl
    simp [hlt]
  · rw [List.getElem?_set_ne hl]

/-- The duties stay, or one more comes to them. -/
def DutiesMove (s s' : Daemon) (op : DaemonOp) : Prop :=
  s'.duties = s.duties ∨ ∃ duty, Owes s op duty ∧ s'.duties = s.duties ++ [duty]

omit [TableJson] in
theorem Settles.duties {k : Nat} (h : Settles s k s') : DutiesMove s s' (.act (.settle k)) := by
  cases h with
  | idle none => exact .inl rfl
  | restored found => exact .inl rfl
  | @fresh i opening topic ticket found fresh origin =>
    refine .inr ⟨_, .opened found fresh, ?_⟩
    rw [duties_spawn]
    congr 1
    exact s.duties_registered topic

omit [TableJson] in
theorem duties_act (hs : Service.Hosting s.service) (a : Service.Act) :
    DutiesMove s (s.act self_addr a) (.act a) := by
  cases a with
  | drop_join text =>
    simp only [Daemon.act]
    split
    · unfold Daemon.drop_join
      dsimp only
      split
      · exact .inl rfl
      · rename_i ticket hparse
        split
        · exact .inl rfl
        · rename_i handle hhosted
          exact .inr ⟨_, .hosted hparse hhosted, duties_spawn _ _⟩
    · exact .inl rfl
  | settle k => exact (settles hs k).duties
  | drop_leave handle =>
    simp only [Daemon.act]
    split
    · unfold Daemon.drop_leave
      split
      · split
        · exact .inl rfl
        · exact .inr ⟨_, .nothing, duties_spawn _ _⟩
      · exact .inl rfl
    · exact .inl rfl
  | pump i =>
    simp only [Daemon.act, Daemon.pump, schedule_persist]
    split
    · split <;> exact .inl rfl
    · exact .inl rfl
  | drop_create options topic_id key =>
    simp only [Daemon.act]
    split <;> exact .inl rfl
  | offer_publish handle =>
    simp only [Daemon.act]
    split <;> exact .inl rfl
  | offer_fetch handle hash =>
    simp only [Daemon.act]
    split <;> exact .inl rfl
  | _ => exact .inl rfl

theorem Worked.duties {k : Nat} (h : Worked self_addr s k s') : s'.duties = s.duties := by
  cases h with
  | idle => rfl
  | next hk stage purpose =>
    refine duties_set hk ?_
    simp only [Job.duty, purpose]
  | waited hk stage purpose => exact duties_set hk rfl
  | removed hk stage => exact duties_set hk rfl
  | unlisted hk stage session => exact duties_set hk rfl
  | checked hk stage session origin => exact duties_set hk rfl
  | exports frames hk stage => exact duties_set hk rfl
  | lists hk stage => exact duties_set hk rfl
  | table_next hk stage goes_on => exact duties_set hk rfl
  | table_done hk stage done => exact duties_set hk rfl
  | frames_next hk stage goes_on => exact duties_set hk rfl
  | frames_done hk stage done => exact duties_set hk rfl
  | ended hk stage => exact duties_set hk rfl
  | answered hk stage purpose drop => exact duties_set hk rfl
  | left hk stage purpose => exact duties_set hk rfl
  | drained hk stage purpose => exact duties_set hk rfl

theorem duties_step (hs : Service.Hosting s.service) {op : DaemonOp} (hop : op ≠ .restart) :
    DutiesMove s (s.step self_addr op) op := by
  cases op with
  | act a => exact duties_act hs a
  | restore =>
    refine .inl ?_
    simp only [Daemon.step, Daemon.restore]
    split
    · rfl
    · split
      · rfl
      · split <;> rfl
  | restore_history k now =>
    refine .inl ?_
    simp only [Daemon.step, Daemon.restore_history]
    split
    · split <;> rfl
    · rfl
  | debounced handle =>
    simp only [Daemon.step, Daemon.debounced]
    split
    · exact .inr ⟨_, .nothing, duties_spawn _ _⟩
    · exact .inl rfl
  | published k =>
    simp only [Daemon.step, Daemon.published]
    split
    · split
      · exact .inr ⟨_, .nothing, duties_spawn _ _⟩
      · exact .inl rfl
    · exact .inl rfl
  | job k => exact .inl (Daemon.worked self_addr s k).duties
  | shutdown =>
    simp only [Daemon.step, Daemon.shutdown]
    split
    · rename_i hserving
      exact .inr ⟨_, .closing hserving, duties_spawn _ _⟩
    · exact .inl rfl
  | restart => exact absurd rfl hop

end Steps

end Daemon
namespace Daemon

section Steps

variable [Urls] [TableJson] {self_addr : EndpointAddr} {s s' : Daemon}

/-! ## What a step does to the table -/

/-- The table and the counters that name its drops. -/
inductive TableMove (s s' : Daemon) : DaemonOp → Prop
  | kept {op : DaemonOp} (quiet : s.opens op = none)
      (drops : Service.SameDrops s.service s'.service)
      (next_drop : s'.service.next_drop = s.service.next_drop) (serving : s'.serving = s.serving)
      (number : s.max_handle ≤ s'.max_handle) : TableMove s s' op
  | served (idle : s'.service.calls = []) (before : s.serving = false) (after : s'.serving = true)
      (drops : Service.SameDrops s.service s'.service)
      (next_drop : s'.service.next_drop = max s.service.next_drop (s.max_handle + 1))
      (rows : s'.restoring = []) : TableMove s s' .restore
  | settled {k : Nat} {i : SessionId} {opening : Opening}
      (found : s.service.calls[k]? = some (.opened i opening))
      (drops : ∀ handle, s'.service.session_of handle =
        if handle = s.service.handle_of opening then some i else s.service.session_of handle)
      (next_drop : s'.service.next_drop =
        if (Call.opened i opening).restored = none then s.service.next_drop + 1
        else s.service.next_drop)
      (serving : s'.serving = s.serving) (number : s'.max_handle = s.max_handle) :
      TableMove s s' (.act (.settle k))
  | left {handle : String} (before : s.serving = true) (after : s'.serving = true)
      (drops : ∀ other, s'.service.session_of other =
        if other = handle then none else s.service.session_of other)
      (next_drop : s'.service.next_drop = s.service.next_drop)
      (number : s'.max_handle = s.max_handle) : TableMove s s' (.act (.drop_leave handle))
  | emptied {k : Nat} (closing : .close ∈ s.duties)
      (drops : ∀ handle, s'.service.session_of handle = none)
      (next_drop : s'.service.next_drop = s.service.next_drop) (serving : s'.serving = s.serving)
      (number : s'.max_handle = s.max_handle) : TableMove s s' (.job k)

omit [Urls] [TableJson] in
theorem TableMove.refl (s : Daemon) {op : DaemonOp} (quiet : s.opens op = none) : TableMove s s op :=
  .kept quiet (fun _ => rfl) rfl rfl (UInt64.le_refl _)

omit [Urls] [TableJson] in
/-- Only the service moves, and it keeps its drops. -/
theorem TableMove.keeps {op : DaemonOp} (quiet : s.opens op = none)
    (h : Service.Keeps s.service s'.service)
    (hserving : s'.serving = s.serving) (hnumber : s'.max_handle = s.max_handle) :
    TableMove s s' op :=
  .kept quiet h.drops h.next_drop hserving (hnumber ▸ UInt64.le_refl _)

omit [Urls] [TableJson] in
theorem Settles.table {k : Nat} (h : Settles s k s') : TableMove s s' (.act (.settle k)) := by
  cases h with
  | idle none =>
    refine .refl s ?_
    unfold opens
    grind
  | restored found =>
    exact .settled found (Service.session_of_settle found) (Service.next_drop_settle found) rfl rfl
  | @fresh i opening topic ticket found fresh origin =>
    have hkeeps := Service.answered_keeps (s.service.settle k) k
    refine .settled found (fun handle => ?_) ?_ rfl rfl
    · exact (hkeeps.drops handle).trans (Service.session_of_settle found handle)
    · exact hkeeps.next_drop.trans (Service.next_drop_settle found)

omit [Urls] [TableJson] in
theorem table_leave (s : Daemon) (handle : String) (hserving : s.serving = true) :
    TableMove s (s.drop_leave handle) (.act (.drop_leave handle)) := by
  unfold Daemon.drop_leave
  split
  · rename_i entry service hentry hleave
    split
    · exact .refl s rfl
    · refine .left hserving hserving (Service.session_of_leave hleave) ?_ rfl
      unfold Service.drop_leave at hleave
      obtain ⟨entry', -, hleave⟩ := bind_eq_ok.mp hleave
      cases hleave
      rfl
  · exact .refl s rfl

omit [TableJson] in
theorem table_act (hs : Service.Hosting s.service) (a : Service.Act) :
    TableMove s (s.act self_addr a) (.act a) := by
  have hplain : a.plain = true → Service.Keeps s.service (s.service.act self_addr a) :=
    fun h => .act self_addr s.service h
  cases a with
  | drop_create options topic_id key =>
    simp only [Daemon.act]
    split
    · exact .keeps rfl (hplain rfl) rfl rfl
    · exact .refl s rfl
  | offer_publish handle =>
    simp only [Daemon.act]
    split
    · exact .keeps rfl (hplain rfl) rfl rfl
    · exact .refl s rfl
  | offer_fetch handle hash =>
    simp only [Daemon.act]
    split
    · exact .keeps rfl (hplain rfl) rfl rfl
    · exact .refl s rfl
  | drop_join text =>
    simp only [Daemon.act]
    split
    · refine .keeps rfl ?_ ?_ ?_
      · rw [service_join]
        exact hplain rfl
      all_goals
        unfold Daemon.drop_join
        dsimp only
        split
        · rfl
        · split <;> rfl
    · exact .refl s rfl
  | drop_leave handle =>
    simp only [Daemon.act]
    split
    · rename_i hserving
      exact table_leave s handle hserving
    · exact .refl s rfl
  | settle k => exact (settles hs k).table
  | pump i =>
    refine .keeps rfl ?_ ?_ ?_
    · change Service.Keeps s.service (s.pump i).service
      rw [service_pump]
      exact hplain rfl
    all_goals
      simp only [Daemon.act, Daemon.pump, schedule_persist]
      split
      · split <;> rfl
      · rfl
  | restore_drop ticket handle name mine => exact .refl s rfl
  | answer k => exact .refl s rfl
  | connected k carrier store =>
    refine .kept rfl (Service.sameDrops_connected s.service k carrier store) ?_ rfl (UInt64.le_refl _)
    change (s.service.connected k carrier store).next_drop = s.service.next_drop
    unfold Service.connected
    split
    · rcases carrier with e | u <;> rfl
    · rfl
  | withdraw k announced_at_ms draws => exact .keeps rfl (hplain rfl) rfl rfl
  | stop k => exact .keeps rfl (hplain rfl) rfl rfl
  | consent_answered k accept => exact .keeps rfl (hplain rfl) rfl rfl
  | session_step i step => exact .keeps rfl (hplain rfl) rfl rfl
  | internal_ended i k => exact .keeps rfl (hplain rfl) rfl rfl
  | work_ended k => exact .keeps rfl (hplain rfl) rfl rfl
  | rejoin_ended k => exact .keeps rfl (hplain rfl) rfl rfl

omit [TableJson] in
theorem table_restore (s : Daemon) : TableMove s (s.restore self_addr) .restore := by
  rcases hserving : s.serving with _ | _
  · rcases hcalls : s.service.calls.isEmpty with _ | _
    · have hsame : s.restore self_addr = s := by simp [Daemon.restore, hserving, hcalls]
      rw [hsame]
      exact .refl s rfl
    rcases hrows : s.restoring with _ | ⟨pd, rest⟩
    · have hnew : s.restore self_addr = { s with
          serving := true
          service := { s.service with
            next_drop := max s.service.next_drop (s.max_handle + 1) } } := by
        simp [Daemon.restore, hserving, hcalls, hrows]
      rw [hnew]
      exact .served (List.isEmpty_iff.mp hcalls) hserving rfl (fun _ => rfl) rfl hrows
    have hnumber : s.max_handle ≤ (s.restore self_addr).max_handle := by
      rcases hparse : DropTicket.from_string_prefixed pd.ticket.toList with e | ticket
      all_goals
        rcases hn : handle_number pd.handle with _ | n
        all_goals
          simp [Daemon.restore, hserving, hcalls, hrows, hparse, hn, UInt64.le_iff_toNat_le,
            toNat_max]
    have hafter : (s.restore self_addr).serving = s.serving := by
      rcases hparse : DropTicket.from_string_prefixed pd.ticket.toList with e | ticket
      all_goals simp [Daemon.restore, hserving, hcalls, hrows, hparse]
    rcases hparse : DropTicket.from_string_prefixed pd.ticket.toList with e | ticket
    · have hservice : (s.restore self_addr).service = s.service := by
        simp [Daemon.restore, hserving, hcalls, hrows, hparse]
      refine .kept rfl ?_ ?_ hafter hnumber
      · rw [hservice]
        exact fun _ => rfl
      · rw [hservice]
    · have hservice : (s.restore self_addr).service =
          (s.service.connect ticket (.restored pd.handle pd.name pd.mine)).toOption.getD
            s.service := by
        simp [Daemon.restore, hserving, hcalls, hrows, hparse, Service.act, Service.restore_drop]
      have hsame : ∀ opening, Service.SameDrops s.service
            ((s.service.connect ticket opening).toOption.getD s.service) ∧
          ((s.service.connect ticket opening).toOption.getD s.service).next_drop =
            s.service.next_drop := by
        intro opening
        unfold Service.connect
        rcases s.service.check_session_capacity with e | u
        · exact ⟨fun _ => rfl, rfl⟩
        · exact ⟨fun _ => rfl, rfl⟩
      refine .kept rfl ?_ ?_ hafter hnumber
      · rw [hservice]
        exact (hsame _).1
      · rw [hservice]
        exact (hsame _).2
  · have hsame : s.restore self_addr = s := by simp [Daemon.restore, hserving]
    rw [hsame]
    exact .refl s rfl

theorem Worked.table {k : Nat} (h : Worked self_addr s k s') : TableMove s s' (.job k) := by
  cases h with
  | drained hk stage purpose =>
    refine .emptied ?_ (fun _ => rfl) rfl rfl rfl
    have hmem := List.mem_map_of_mem (f := Job.duty) (List.mem_of_getElem? hk)
    simp only [Job.duty, purpose] at hmem
    exact hmem
  | _ => exact .kept rfl (fun _ => rfl) rfl rfl (UInt64.le_refl _)

theorem table_step (hs : Service.Hosting s.service) {op : DaemonOp} (hop : op ≠ .restart) :
    TableMove s (s.step self_addr op) op := by
  cases op with
  | act a => exact table_act hs a
  | restore => exact table_restore s
  | restore_history k now =>
    simp only [Daemon.step, Daemon.restore_history]
    split
    · split
      · exact .refl s rfl
      · exact .keeps rfl (.session_step _ _ _) rfl rfl
    · exact .refl s rfl
  | debounced handle =>
    simp only [Daemon.step, Daemon.debounced]
    split
    · exact .keeps rfl (.refl _) rfl rfl
    · exact .refl s rfl
  | published k =>
    simp only [Daemon.step, Daemon.published]
    split
    · split
      · exact .keeps rfl (.of_eq rfl rfl rfl rfl) rfl rfl
      · exact .refl s rfl
    · exact .refl s rfl
  | job k => exact (Daemon.worked self_addr s k).table
  | shutdown =>
    simp only [Daemon.step, Daemon.shutdown]
    split
    · exact .keeps rfl (.refl _) rfl rfl
    · exact .refl s rfl
  | restart => exact absurd rfl hop

end Steps

end Daemon

/-! ## The handles and the joins of a process -/

namespace Service

/-- The topic that the table hosts under a handle. -/
def topic_under (self : Service) (handle : String) : Option TopicId :=
  (self.session_of handle).bind self.topic_of

end Service

/-- A daemon, and what is remembered of its process: the sessions that came into
the table, by their handles, what every request asks for, and what the answer of
every job was asked for. -/
structure Roster where
  daemon : Daemon
  named : List (String × SessionId)
  wanted : List (Option TopicId)
  asked : List (Option TopicId)

namespace Roster

def start (secret : SecretKey) (policy : DropPolicy) : Roster :=
  { daemon := .start secret policy, named := [], wanted := [], asked := [] }

/-- What is remembered of the elements of a list, when it gets one more or loses
one. -/
def follow {α : Type} (before after : Nat) (lost : Option Nat) (new : α) (l : List α) : List α :=
  if before < after then l ++ [new]
  else if after < before then (match lost with | some k => l.eraseIdx k | none => l)
  else l

/-- A join of a hosted topic is answered by its own job, and another one by the
job that starts once its session is in the table. -/
def asked_by [Urls] (self : Roster) : DaemonOp → Option TopicId
  | .act (.settle k) =>
    match self.daemon.opens (.act (.settle k)) with
    | some (_, .joined _) => self.wanted[k]?.join
    | _ => none
  | op => op.topic

def step [Urls] [TableJson] (self_addr : EndpointAddr) (self : Roster) (op : DaemonOp) : Roster :=
  let daemon := self.daemon.step self_addr op
  match op with
  | .restart => { daemon, named := [], wanted := [], asked := [] }
  | op =>
    { daemon
      named := self.named ++ (self.daemon.opens op).toList.map fun opened =>
        (self.daemon.service.handle_of opened.2, opened.1)
      wanted := follow self.daemon.service.calls.length daemon.service.calls.length op.call op.topic
        self.wanted
      asked := follow self.daemon.jobs.length daemon.jobs.length none (self.asked_by op) self.asked }

def run [Urls] [TableJson] (self_addr : EndpointAddr) (self : Roster) (ops : List DaemonOp) :
    Roster :=
  runs.run (step self_addr) self ops

/-- No two handles host one topic, a handle names one session, and what a
`drop.join` answers with hosts the topic that it was asked for. -/
structure IsSet (r : Roster) : Prop where
  distinct : ∀ handle handle' topic, r.daemon.service.topic_under handle = some topic →
    r.daemon.service.topic_under handle' = some topic → handle = handle'
  listed : ∀ handle i, r.daemon.service.session_of handle = some i → (handle, i) ∈ r.named
  one_session : ∀ handle i j, (handle, i) ∈ r.named → (handle, j) ∈ r.named → i = j
  answered : ∀ (k : Nat) topic handle, r.asked[k]? = some (some topic) →
    r.daemon.answer k = some handle → r.daemon.service.topic_under handle = some topic

end Roster

/-- The handle of a restored drop is not in the table, and the counter that gives
the other ones does not run out. -/
def Service.NameFree (self : Service) : Opening → Prop
  | .restored handle _ _ => self.session_of handle = none
  | _ => self.next_drop.toNat + 1 < 2 ^ 64

instance Service.decidableNameFree (self : Service) : ∀ opening, Decidable (self.NameFree opening)
  | .restored handle _ _ => inferInstanceAs (Decidable (self.session_of handle = none))
  | .created _ => inferInstanceAs (Decidable (self.next_drop.toNat + 1 < 2 ^ 64))
  | .joined _ => inferInstanceAs (Decidable (self.next_drop.toNat + 1 < 2 ^ 64))

/-- The table does not host the topic of a session that comes into it, and has
a free handle for it. -/
def Daemon.Single (self : Daemon) (op : DaemonOp) : Prop :=
  (∀ opened ∈ self.opens op,
    (self.service.topic_of opened.1).bind self.service.handle_for_topic = none ∧
    self.service.NameFree opened.2) ∧
  self.max_handle.toNat + 1 < 2 ^ 64

instance Daemon.decidableSingle (self : Daemon) (op : DaemonOp) : Decidable (self.Single op) :=
  inferInstanceAs (Decidable ((∀ opened ∈ self.opens op,
    (self.service.topic_of opened.1).bind self.service.handle_for_topic = none ∧
    self.service.NameFree opened.2) ∧ self.max_handle.toNat + 1 < 2 ^ 64))

/-! ## What every step keeps -/

namespace Roster

/-- The requests are those that are remembered. -/
def Tracks (s : Service) (wanted : List (Option TopicId)) : Prop :=
  wanted.length = s.calls.length ∧ ∀ (k : Nat) call asked, s.calls[k]? = some call →
    wanted[k]? = some asked → call.Asks s asked

theorem Asks.later {s s' : Service} (h : Service.Later s s') {call : Call} {asked : Option TopicId}
    (hasks : call.Asks s asked) : call.Asks s' asked := by
  cases call with
  | connecting ticket opening => cases opening <;> exact hasks
  | opened i opening =>
    cases opening with
    | joined name =>
      obtain ⟨topic, hasked, htopic⟩ := hasks
      exact ⟨topic, hasked, h.topic_of htopic⟩
    | created name => trivial
    | restored handle name mine => trivial
  | _ => trivial

theorem Tracks.move {s s' : Service} {wanted : List (Option TopicId)} (h : Tracks s wanted)
    (hlater : Service.Later s s') {at_call : Option Nat} {new : Option TopicId} {Begins : Call → Prop}
    (hmove : Service.CallsMove s s' at_call Begins)
    (hnew : ∀ call, Begins call → call.Asks s' new) :
    Tracks s' (follow s.calls.length s'.calls.length at_call new wanted) := by
  obtain ⟨hlength, hasks⟩ := h
  cases hmove with
  | same calls =>
    unfold follow
    rw [calls, if_neg (Nat.lt_irrefl _), if_neg (Nat.lt_irrefl _)]
    refine ⟨by rw [calls, hlength], fun k call asked hk hw => ?_⟩
    rw [calls] at hk
    exact Asks.later hlater (hasks k call asked hk hw)
  | @added new_call begins calls =>
    have hgrown : s.calls.length < s'.calls.length := by simp [calls]
    unfold follow
    rw [if_pos hgrown]
    refine ⟨by simp [calls, hlength], fun k call asked hk hw => ?_⟩
    rw [calls] at hk
    by_cases hlt : k < s.calls.length
    · rw [List.getElem?_append_left hlt] at hk
      rw [List.getElem?_append_left (hlength ▸ hlt)] at hw
      exact Asks.later hlater (hasks k call asked hk hw)
    · have hlast : k = s.calls.length := by
        have hbound := (List.getElem?_eq_some_iff.mp hk).1
        rw [List.length_append, List.length_singleton] at hbound
        omega
      subst hlast
      rw [List.getElem?_concat_length] at hk
      rw [← hlength, List.getElem?_concat_length] at hw
      cases hk
      cases hw
      exact hnew _ begins
  | @moved j old new_call found calls restored opens asks =>
    unfold follow
    rw [calls, List.length_set, if_neg (Nat.lt_irrefl _), if_neg (Nat.lt_irrefl _)]
    refine ⟨by rw [calls, List.length_set, hlength], fun k call asked hk hw => ?_⟩
    rw [calls] at hk
    by_cases hj : j = k
    · subst hj
      rw [List.getElem?_set_self (List.getElem?_eq_some_iff.mp found).1] at hk
      cases hk
      exact asks asked (hasks j old asked found hw)
    · rw [List.getElem?_set_ne hj] at hk
      exact Asks.later hlater (hasks k call asked hk hw)
  | @ended j old found at_call calls =>
    have hlt : j < s.calls.length := (List.getElem?_eq_some_iff.mp found).1
    have hshrunk : (s.calls.eraseIdx j).length = s.calls.length - 1 := List.length_eraseIdx_of_lt hlt
    unfold follow
    rw [calls, if_neg (by omega), if_pos (by omega), at_call]
    dsimp only
    refine ⟨?_, fun k call asked hk hw => ?_⟩
    · rw [calls, hshrunk, List.length_eraseIdx_of_lt (hlength ▸ hlt), hlength]
    · rw [calls, List.getElem?_eraseIdx] at hk
      rw [List.getElem?_eraseIdx] at hw
      by_cases hk' : k < j
      · rw [if_pos hk'] at hk hw
        exact Asks.later hlater (hasks k call asked hk hw)
      · rw [if_neg hk'] at hk hw
        exact Asks.later hlater (hasks (k + 1) call asked hk hw)

end Roster

namespace Roster

variable {r : Roster}

/-- The rows of a restart are the only requests until it is over, and their
handles are counted. -/
structure Rows (s : Daemon) : Prop where
  requests : s.serving = true → ∀ call ∈ s.service.calls, call.restored = none
  rows : s.serving = false → ∀ call ∈ s.service.calls, call.restored ≠ none
  numbers : ∀ call ∈ s.service.calls, ∀ handle, call.restored = some handle →
    ∀ n, Daemon.handle_number handle = some n → n ≤ s.max_handle

theorem Rows.of_calls {s : Daemon} (h : s.service.calls = []) : Rows s := by
  have hnone : ∀ call, call ∉ s.service.calls := fun call hcall => by
    rw [h] at hcall
    cases hcall
  exact ⟨fun _ call hcall => absurd hcall (hnone call), fun _ call hcall => absurd hcall (hnone call),
    fun call hcall => absurd hcall (hnone call)⟩

section Steps

variable [Urls] [TableJson] {self_addr : EndpointAddr} {s s' : Daemon} {op : DaemonOp}

omit [TableJson] in
theorem Rows.step (h : Rows s)
    (hcalls : Service.CallsMove s.service s'.service op.call (Daemon.Begins s s' op))
    (htable : Daemon.TableMove s s' op) : Rows s' := by
  -- what a new or changed request restores is what an old one does, or begins now
  have hfrom : ∀ call ∈ s'.service.calls,
      (∃ old ∈ s.service.calls, old.restored = call.restored) ∨ Daemon.Begins s s' op call := by
    intro call hcall
    cases hcalls with
    | same calls =>
      rw [calls] at hcall
      exact .inl ⟨call, hcall, rfl⟩
    | added begins calls =>
      rw [calls] at hcall
      rcases List.mem_append.mp hcall with hold | hnew
      · exact .inl ⟨call, hold, rfl⟩
      · rw [List.mem_singleton.mp hnew]
        exact .inr begins
    | moved found calls restored opens asks =>
      rw [calls] at hcall
      rcases List.mem_or_eq_of_mem_set hcall with hold | rfl
      · exact .inl ⟨call, hold, rfl⟩
      · exact .inl ⟨_, List.mem_of_getElem? found, restored.symm⟩
    | ended found at_call calls =>
      rw [calls] at hcall
      exact .inl ⟨call, List.mem_of_mem_eraseIdx hcall, rfl⟩
  have hsame (hserving : s'.serving = s.serving) (hnumber : s.max_handle ≤ s'.max_handle) :
      Rows s' := by
    refine ⟨fun hs call hcall => ?_, fun hs call hcall => ?_, fun call hcall handle hhandle n hn => ?_⟩
    · rcases hfrom call hcall with ⟨old, hold, heq⟩ | hbegins
      · rw [← heq]
        exact h.requests (hserving ▸ hs) old hold
      · cases hbegins with
        | request serving restored asks => exact restored
        | row restoring row reads number =>
          rw [hserving, restoring] at hs
          cases hs
    · rcases hfrom call hcall with ⟨old, hold, heq⟩ | hbegins
      · rw [← heq]
        exact h.rows (hserving ▸ hs) old hold
      · cases hbegins with
        | request serving restored asks =>
          rw [hserving, serving] at hs
          cases hs
        | row restoring row reads number => exact fun hnone => nomatch hnone
    · rcases hfrom call hcall with ⟨old, hold, heq⟩ | hbegins
      · exact UInt64.le_trans (h.numbers old hold handle (heq ▸ hhandle) n hn) hnumber
      · cases hbegins with
        | request serving restored asks =>
          rw [restored] at hhandle
          cases hhandle
        | row restoring row reads number =>
          cases hhandle
          exact number n hn
  cases htable with
  | kept quiet drops next_drop serving number => exact hsame serving number
  | served idle before after drops next_drop rows =>
    refine ⟨fun _ call hcall => ?_, fun hs => ?_, fun call hcall => ?_⟩
    · rw [idle] at hcall
      cases hcall
    · rw [after] at hs
      cases hs
    · rw [idle] at hcall
      cases hcall
  | settled found drops next_drop serving number =>
    exact hsame serving (number ▸ UInt64.le_refl _)
  | left before after drops next_drop number =>
    exact hsame (after.trans before.symm) (number ▸ UInt64.le_refl _)
  | emptied closing drops next_drop serving number =>
    exact hsame serving (number ▸ UInt64.le_refl _)

end Steps

end Roster

namespace Service

variable {s s' : Service}

/-- A handle with the session that it had hosts the topic that it hosted. -/
theorem Later.topic_under (h : Later s s') (hs : Hosting s) {handle : String}
    (hsame : s'.session_of handle = s.session_of handle) :
    s'.topic_under handle = s.topic_under handle := by
  unfold Service.topic_under
  rw [hsame]
  rcases hi : s.session_of handle with _ | i
  · rfl
  obtain ⟨entry, hentry, rfl⟩ := Option.map_eq_some_iff.mp hi
  obtain ⟨o, ho⟩ := origin_of_lt (hs.drops handle entry hentry)
  rw [Option.bind_some, Option.bind_some, topic_of_origin, topic_of_origin, ho, h _ o ho]

/-- A hosted topic is found. -/
theorem handle_for_topic_of_hosted {handle : String} {topic : TopicId}
    (h : s.topic_under handle = some topic) : s.handle_for_topic topic ≠ none := by
  obtain ⟨i, hi, htopic⟩ := Option.bind_eq_some_iff.mp h
  obtain ⟨entry, hentry, rfl⟩ := Option.map_eq_some_iff.mp hi
  unfold Service.handle_for_topic
  rw [Ne, Option.map_eq_none_iff, List.find?_eq_none]
  intro hall
  have hmem : (⟨handle, entry⟩ : Sigma fun _ => DropEntry) ∈ s.drops.entries :=
    AList.mem_lookup_iff.mp hentry
  exact hall _ hmem (by simp [htopic])

end Service

namespace Roster

variable {r : Roster}

omit [Crypto] in
theorem handle_number_fresh (n : UInt64) : Daemon.handle_number s!"d{n}" = some n := by
  have hlist : (s!"d{n}").toList = 'd' :: (toString n).toList := by
    simp [show (toString "d").toList = ['d'] from rfl]
  unfold Daemon.handle_number DropTicket.strip_prefix
  rw [hlist]
  simp [parse_u64_digits]

/-- The numbers of the handles that were given are below this one. -/
def bound (s : Daemon) : Nat :=
  if s.serving then s.service.next_drop.toNat else s.max_handle.toNat + 1

/-- What the table and the handles that were ever in it keep. -/
structure Named (s : Daemon) (named : List (String × SessionId)) : Prop where
  distinct : ∀ handle handle' topic, s.service.topic_under handle = some topic →
    s.service.topic_under handle' = some topic → handle = handle'
  listed : ∀ handle i, s.service.session_of handle = some i → (handle, i) ∈ named
  one_session : ∀ handle i j, (handle, i) ∈ named → (handle, j) ∈ named → i = j
  /-- No drop leaves the table before the restart is over. -/
  restoring : s.serving = false → (∀ handle i, (handle, i) ∈ named →
    s.service.session_of handle = some i) ∧ .close ∉ s.duties
  below : ∀ handle i n, (handle, i) ∈ named → Daemon.handle_number handle = some n →
    n.toNat < bound s

namespace Named

variable {s s' : Daemon} {named : List (String × SessionId)}

/-- Where no drop comes into the table, each one of it was in it. -/
theorem distinct_of_sub (h : Named s named) (hs : Service.Hosting s.service)
    (hlater : Service.Later s.service s'.service)
    (hsub : ∀ handle, s'.service.session_of handle = none ∨
      s'.service.session_of handle = s.service.session_of handle) (handle handle' : String)
    (topic : TopicId) (ht : s'.service.topic_under handle = some topic)
    (ht' : s'.service.topic_under handle' = some topic) : handle = handle' := by
  have hback : ∀ handle, s'.service.topic_under handle = some topic →
      s.service.topic_under handle = some topic := by
    intro handle ht
    rcases hsub handle with hnone | hsame
    · unfold Service.topic_under at ht
      rw [hnone] at ht
      cases ht
    · rwa [hlater.topic_under hs hsame] at ht
  exact h.distinct handle handle' topic (hback handle ht) (hback handle' ht')

theorem listed_of_sub (h : Named s named)
    (hsub : ∀ handle, s'.service.session_of handle = none ∨
      s'.service.session_of handle = s.service.session_of handle) (handle : String) (i : SessionId)
    (hi : s'.service.session_of handle = some i) : (handle, i) ∈ named := by
  rcases hsub handle with hnone | hsame
  · rw [hnone] at hi
    cases hi
  · exact h.listed handle i (hsame ▸ hi)

/-- The handle of a session that comes into the table was not given before. -/
theorem unused (h : Named s named) (hrows : Rows s) {k : Nat} {i : SessionId} {opening : Opening}
    (found : s.service.calls[k]? = some (.opened i opening))
    (hok : s.service.NameFree opening) (j : SessionId) :
    (s.service.handle_of opening, j) ∉ named := by
  have hmem := List.mem_of_getElem? found
  intro hj
  have hfresh (hnone : (Call.opened i opening).restored = none) :
      (s!"d{s.service.next_drop}", j) ∉ named := by
    intro hj
    rcases hserving : s.serving with _ | _
    · exact hrows.rows hserving _ hmem hnone
    · have hlt := h.below _ j _ hj (handle_number_fresh _)
      simp only [bound, hserving, if_true] at hlt
      exact Nat.lt_irrefl _ hlt
  cases opening with
  | created name => exact hfresh rfl hj
  | joined name => exact hfresh rfl hj
  | restored handle name mine =>
    rcases hserving : s.serving with _ | _
    · have hin := (h.restoring hserving).1 handle j hj
      rw [show s.service.session_of handle = none from hok] at hin
      cases hin
    · have hnone := hrows.requests hserving _ hmem
      cases hnone

/-- Its number is below the new bound. -/
theorem below_opened (hrows : Rows s) {k : Nat} {i : SessionId} {opening : Opening}
    (found : s.service.calls[k]? = some (.opened i opening))
    (hok : s.service.NameFree opening)
    (next_drop : s'.service.next_drop =
      if (Call.opened i opening).restored = none then s.service.next_drop + 1
      else s.service.next_drop)
    (serving : s'.serving = s.serving) (number : s'.max_handle = s.max_handle) {n : UInt64}
    (hn : Daemon.handle_number (s.service.handle_of opening) = some n) : n.toNat < bound s' := by
  have hmem := List.mem_of_getElem? found
  have hfresh (hnone : (Call.opened i opening).restored = none)
      (hlt : s.service.next_drop.toNat + 1 < 2 ^ 64)
      (hn : Daemon.handle_number s!"d{s.service.next_drop}" = some n) : n.toNat < bound s' := by
    rw [handle_number_fresh] at hn
    cases hn
    rcases hserving : s.serving with _ | _
    · exact absurd hnone (hrows.rows hserving _ hmem)
    · rw [if_pos hnone] at next_drop
      simp only [bound, serving, hserving, if_true, next_drop, UInt64.toNat_add, UInt64.toNat_one]
      omega
  cases opening with
  | created name => exact hfresh rfl hok hn
  | joined name => exact hfresh rfl hok hn
  | restored handle name mine =>
    rcases hserving : s.serving with _ | _
    · have hle := hrows.numbers _ hmem handle rfl n hn
      rw [UInt64.le_iff_toNat_le] at hle
      simp only [bound, serving, hserving, number, Bool.false_eq_true, if_false]
      omega
    · cases hrows.requests hserving _ hmem

end Named

end Roster

namespace Roster

section Steps

variable [Urls] {s s' : Daemon} {op : DaemonOp} {named : List (String × SessionId)}

/-- What came into the table so far, with what the step puts into it. -/
def named_after (s : Daemon) (op : DaemonOp) (named : List (String × SessionId)) :
    List (String × SessionId) :=
  named ++ (s.opens op).toList.map fun opened => (s.service.handle_of opened.2, opened.1)

theorem close_not_mem (hduties : Daemon.DutiesMove s s' op) (hserving : s.serving = false)
    (h : Duty.close ∉ s.duties) : Duty.close ∉ s'.duties := by
  rcases hduties with hsame | ⟨duty, howes, hnew⟩
  · rwa [hsame]
  · rw [hnew]
    intro hmem
    rcases List.mem_append.mp hmem with hold | hlast
    · exact h hold
    · rw [← List.mem_singleton.mp hlast] at howes
      cases howes with
      | closing serving =>
        rw [hserving] at serving
        cases serving

omit [Urls] in
/-- The numbers of the handles that were given stay below the bound, as long as
the counters do not run out. -/
theorem bound_le (hrows : Rows s) (htable : Daemon.TableMove s s' op)
    (hroom : ∀ i opening, s.opens op = some (i, opening) →
      (Call.opened i opening).restored = none → s.service.next_drop.toNat + 1 < 2 ^ 64)
    (hwrap : s.max_handle.toNat + 1 < 2 ^ 64) : bound s ≤ bound s' := by
  cases htable with
  | kept quiet drops next_drop serving number =>
    rw [UInt64.le_iff_toNat_le] at number
    rcases hserving : s.serving with _ | _
    · simp only [bound, serving, hserving, Bool.false_eq_true, if_false]
      omega
    · simp only [bound, serving, hserving, if_true, next_drop]
      omega
  | served idle before after drops next_drop rows =>
    simp only [bound, before, after, next_drop, toNat_max, UInt64.toNat_add, UInt64.toNat_one,
      Bool.false_eq_true, if_false, if_true]
    omega
  | @settled k i opening found drops next_drop serving number =>
    have hopens : s.opens (.act (.settle k)) = some (i, opening) := by
      simp only [Daemon.opens, found]
    unfold bound
    rw [serving, number]
    split
    · rename_i hserving
      have hnone := hrows.requests hserving _ (List.mem_of_getElem? found)
      have hlt := hroom i opening hopens hnone
      rw [next_drop, if_pos hnone, UInt64.toNat_add, UInt64.toNat_one]
      omega
    · exact Nat.le_refl _
  | left before after drops next_drop number =>
    simp only [bound, before, after, next_drop, if_true]
    exact Nat.le_refl _
  | emptied closing drops next_drop serving number =>
    simp only [bound, serving, next_drop, number]
    exact Nat.le_refl _

omit [Urls] in
theorem Single.room (hok : s.Single op) (i : SessionId) (opening : Opening)
    (hopens : s.opens op = some (i, opening)) (hfresh : (Call.opened i opening).restored = none) :
    s.service.next_drop.toNat + 1 < 2 ^ 64 := by
  have hname := (hok.1 _ hopens).2
  cases opening with
  | created name => exact hname
  | joined name => exact hname
  | restored handle name mine => cases hfresh

theorem Named.step (h : Named s named) (hrows : Rows s) (hs : Service.Hosting s.service)
    (hlater : Service.Later s.service s'.service) (htable : Daemon.TableMove s s' op)
    (hduties : Daemon.DutiesMove s s' op) (hok : s.Single op) :
    Named s' (named_after s op named) := by
  have hbound := bound_le hrows htable (Single.room hok) hok.2
  cases htable with
  | kept quiet drops next_drop serving number =>
    have hsub : ∀ handle, s'.service.session_of handle = none ∨
        s'.service.session_of handle = s.service.session_of handle := fun handle => .inr (drops handle)
    unfold named_after
    rw [quiet, Option.toList_none, List.map_nil, List.append_nil]
    refine ⟨h.distinct_of_sub hs hlater hsub, h.listed_of_sub hsub, h.one_session, ?_, ?_⟩
    · intro hnot
      rw [serving] at hnot
      obtain ⟨hin, hclose⟩ := h.restoring hnot
      exact ⟨fun handle i hi => (drops handle).trans (hin handle i hi),
        close_not_mem hduties hnot hclose⟩
    · exact fun handle i n hi hn => Nat.lt_of_lt_of_le (h.below handle i n hi hn) hbound
  | served idle before after drops next_drop rows =>
    have hsub : ∀ handle, s'.service.session_of handle = none ∨
        s'.service.session_of handle = s.service.session_of handle := fun handle => .inr (drops handle)
    change Named s' (named ++ [])
    rw [List.append_nil]
    refine ⟨h.distinct_of_sub hs hlater hsub, h.listed_of_sub hsub, h.one_session, ?_, ?_⟩
    · intro hnot
      rw [after] at hnot
      cases hnot
    · exact fun handle i n hi hn => Nat.lt_of_lt_of_le (h.below handle i n hi hn) hbound
  | @settled k i opening found drops next_drop serving number =>
    have hopens : s.opens (.act (.settle k)) = some (i, opening) := by
      simp only [Daemon.opens, found]
    obtain ⟨htopic, hname⟩ := hok.1 _ hopens
    have hunused := h.unused hrows found hname
    have hi : i < s.service.sessions.length :=
      hs.calls _ (List.mem_of_getElem? found) i rfl
    have hother : ∀ handle, handle ≠ s.service.handle_of opening →
        s'.service.topic_under handle = s.service.topic_under handle := by
      intro handle hne
      refine hlater.topic_under hs ?_
      rw [drops, if_neg hne]
    -- the table has no drop of the topic of the new one
    have hfree : ∀ handle topic, handle ≠ s.service.handle_of opening →
        s'.service.topic_under handle = some topic →
        s'.service.topic_under (s.service.handle_of opening) ≠ some topic := by
      intro handle topic hne ht hnew
      rw [hother handle hne] at ht
      unfold Service.topic_under at hnew
      rw [drops, if_pos rfl, Option.bind_some] at hnew
      obtain ⟨o, ho⟩ := Service.origin_of_lt hi
      have hsame : s.service.topic_of i = some topic := by
        rw [Service.topic_of_origin, ho]
        rw [Service.topic_of_origin, hlater i o ho] at hnew
        exact hnew
      rw [hsame, Option.bind_some] at htopic
      exact Service.handle_for_topic_of_hosted ht htopic
    unfold named_after
    rw [hopens]
    refine ⟨?_, ?_, ?_, ?_, ?_⟩
    · intro handle handle' topic ht ht'
      by_cases hnew : handle = s.service.handle_of opening
      · by_cases hnew' : handle' = s.service.handle_of opening
        · rw [hnew, hnew']
        · exact absurd (hnew ▸ ht) (hfree handle' topic hnew' ht')
      · by_cases hnew' : handle' = s.service.handle_of opening
        · exact absurd (hnew' ▸ ht') (hfree handle topic hnew ht)
        · rw [hother handle hnew] at ht
          rw [hother handle' hnew'] at ht'
          exact h.distinct handle handle' topic ht ht'
    · intro handle j hj
      rw [drops] at hj
      refine List.mem_append.mpr ?_
      split at hj
      · rename_i heq
        cases hj
        subst heq
        exact .inr (List.mem_singleton.mpr rfl)
      · exact .inl (h.listed handle j hj)
    · intro handle j j' hj hj'
      rcases List.mem_append.mp hj with hold | hnew
      · rcases List.mem_append.mp hj' with hold' | hnew'
        · exact h.one_session handle j j' hold hold'
        · cases List.mem_singleton.mp hnew'
          exact absurd hold (hunused j)
      · cases List.mem_singleton.mp hnew
        rcases List.mem_append.mp hj' with hold' | hnew'
        · exact absurd hold' (hunused j')
        · cases List.mem_singleton.mp hnew'
          rfl
    · intro hnot
      rw [serving] at hnot
      obtain ⟨hin, hclose⟩ := h.restoring hnot
      refine ⟨fun handle j hj => ?_, close_not_mem hduties hnot hclose⟩
      rw [drops]
      rcases List.mem_append.mp hj with hold | hnew
      · rw [if_neg]
        · exact hin handle j hold
        · rintro rfl
          exact hunused j hold
      · cases List.mem_singleton.mp hnew
        exact if_pos rfl
    · intro handle j n hj hn
      rcases List.mem_append.mp hj with hold | hnew
      · exact Nat.lt_of_lt_of_le (h.below handle j n hold hn) hbound
      · cases List.mem_singleton.mp hnew
        exact Named.below_opened hrows found hname next_drop serving number hn
  | @left handle before after drops next_drop number =>
    have hsub : ∀ other, s'.service.session_of other = none ∨
        s'.service.session_of other = s.service.session_of other := by
      intro other
      rw [drops]
      split
      · exact .inl rfl
      · exact .inr rfl
    change Named s' (named ++ [])
    rw [List.append_nil]
    refine ⟨h.distinct_of_sub hs hlater hsub, h.listed_of_sub hsub, h.one_session, ?_, ?_⟩
    · intro hnot
      rw [after] at hnot
      cases hnot
    · exact fun other i n hi hn => Nat.lt_of_lt_of_le (h.below other i n hi hn) hbound
  | emptied closing drops next_drop serving number =>
    have hsub : ∀ handle, s'.service.session_of handle = none ∨
        s'.service.session_of handle = s.service.session_of handle := fun handle => .inl (drops handle)
    change Named s' (named ++ [])
    rw [List.append_nil]
    refine ⟨h.distinct_of_sub hs hlater hsub, h.listed_of_sub hsub, h.one_session, ?_, ?_⟩
    · intro hnot
      exact absurd closing (h.restoring (serving ▸ hnot)).2
    · exact fun other i n hi hn => Nat.lt_of_lt_of_le (h.below other i n hi hn) hbound

end Steps

end Roster

namespace Roster

/-- Every answer that is asked for a topic has a session of it under its handle. -/
structure Answers (s : Daemon) (named : List (String × SessionId)) (asked : List (Option TopicId)) :
    Prop where
  length : asked.length = s.duties.length
  named : ∀ (k : Nat) handle topic, s.duties[k]? = some (.answer handle) →
    asked[k]? = some (some topic) → ∃ i, (handle, i) ∈ named ∧ s.service.topic_of i = some topic

/-- What a process keeps from its start on. -/
structure Kept (r : Roster) : Prop where
  rooted : r.daemon.service.Rooted
  rows : Rows r.daemon
  named : Named r.daemon r.named
  tracks : Tracks r.daemon.service r.wanted
  answers : Answers r.daemon r.named r.asked

section Steps

variable [Urls] [TableJson] {self_addr : EndpointAddr} {r : Roster} {op : DaemonOp}

omit [Urls] [TableJson] in
theorem length_duties (s : Daemon) : s.duties.length = s.jobs.length := List.length_map _

omit [TableJson] in
/-- What a new answer is asked for is what its handle hosts. -/
theorem Kept.owes (h : Kept r) {handle : String} {topic : TopicId}
    (howes : Daemon.Owes r.daemon op (.answer handle)) (hasked : r.asked_by op = some topic) :
    ∃ i, (handle, i) ∈ named_after r.daemon op r.named ∧
      r.daemon.service.topic_of i = some topic := by
  cases howes with
  | @hosted text ticket handle reads hosted =>
    have htopic : ticket.topic = topic := by
      change (DropTicket.from_string_prefixed text.toList).toOption.map DropTicket.topic = _ at hasked
      rw [reads] at hasked
      exact Option.some.inj hasked
    subst htopic
    obtain ⟨entry, hosted, hentry, hhosted, htopic⟩ := Service.hosted_topic hosted
    refine ⟨entry.session, List.mem_append_left _ (h.named.listed _ _ ?_), ?_⟩
    · unfold Service.session_of
      rw [hentry, Option.map_some]
    · unfold Service.topic_of
      rw [hhosted, Option.map_some, htopic]
  | @opened k i opening found fresh =>
    have hopens : r.daemon.opens (.act (.settle k)) = some (i, opening) := by
      simp only [Daemon.opens, found]
    refine ⟨i, ?_, ?_⟩
    · unfold named_after
      rw [hopens]
      exact List.mem_append_right _ (List.mem_singleton.mpr rfl)
    · simp only [asked_by, hopens] at hasked
      cases opening with
      | created name => cases hasked
      | restored handle name mine => cases hasked
      | joined name =>
        obtain ⟨asked, hwanted, rfl⟩ := Option.bind_eq_some_iff.mp hasked
        obtain ⟨topic', hsome, htopic⟩ := h.tracks.2 k _ _ found hwanted
        cases hsome
        exact htopic

omit [TableJson] in
theorem Kept.answers_step (h : Kept r) {s' : Daemon}
    (hlater : Service.Later r.daemon.service s'.service)
    (hduties : Daemon.DutiesMove r.daemon s' op) :
    Answers s' (named_after r.daemon op r.named)
      (follow r.daemon.jobs.length s'.jobs.length none (r.asked_by op) r.asked) := by
  have hold : ∀ (k : Nat) handle topic, r.daemon.duties[k]? = some (.answer handle) →
      r.asked[k]? = some (some topic) → ∃ i, (handle, i) ∈ named_after r.daemon op r.named ∧
        s'.service.topic_of i = some topic := by
    intro k handle topic hk hasked
    obtain ⟨i, hi, htopic⟩ := h.answers.named k handle topic hk hasked
    exact ⟨i, List.mem_append_left _ hi, hlater.topic_of htopic⟩
  unfold follow
  rw [← length_duties, ← length_duties]
  rcases hduties with hsame | ⟨duty, howes, hnew⟩
  · rw [hsame, if_neg (Nat.lt_irrefl _), if_neg (Nat.lt_irrefl _)]
    refine ⟨by rw [hsame, h.answers.length], ?_⟩
    rw [hsame]
    exact hold
  · have hgrown : r.daemon.duties.length < s'.duties.length := by simp [hnew]
    rw [if_pos hgrown]
    refine ⟨by simp [hnew, h.answers.length], fun k handle topic hk hasked => ?_⟩
    rw [hnew] at hk
    by_cases hlt : k < r.daemon.duties.length
    · rw [List.getElem?_append_left hlt] at hk
      rw [List.getElem?_append_left (h.answers.length ▸ hlt)] at hasked
      exact hold k handle topic hk hasked
    · have hlast : k = r.daemon.duties.length := by
        have hbound := (List.getElem?_eq_some_iff.mp hk).1
        rw [List.length_append, List.length_singleton] at hbound
        omega
      subst hlast
      rw [List.getElem?_concat_length] at hk
      rw [← h.answers.length, List.getElem?_concat_length] at hasked
      cases hk
      obtain ⟨i, hi, htopic⟩ := h.owes howes (Option.some.inj hasked)
      exact ⟨i, hi, hlater.topic_of htopic⟩

end Steps

end Roster

namespace Roster

section Runs

variable [Urls] [TableJson] (self_addr : EndpointAddr)

omit [Urls] [TableJson] in
theorem Kept.of_new {s : Daemon} (service : ∃ secret policy, s.service = .new secret policy)
    (jobs : s.jobs = []) :
    Kept { daemon := s, named := [], wanted := [], asked := [] } := by
  obtain ⟨secret, policy, service⟩ := service
  have hcalls : s.service.calls = [] := by rw [service]; rfl
  have htable : ∀ handle, s.service.session_of handle = none := by
    intro handle
    rw [service]
    rfl
  have hduties : s.duties = [] := by
    unfold Daemon.duties
    rw [jobs]
    rfl
  refine ⟨?_, .of_calls hcalls, ⟨?_, ?_, ?_, ?_, ?_⟩, ⟨?_, ?_⟩, ⟨?_, ?_⟩⟩
  · rw [service]
    exact .of_new secret policy
  · intro handle handle' topic ht
    unfold Service.topic_under at ht
    rw [htable] at ht
    cases ht
  · intro handle i hi
    rw [htable] at hi
    cases hi
  · intro handle i j hi
    cases hi
  · intro _
    refine ⟨fun handle i hi => ?_, ?_⟩
    · cases hi
    · rw [hduties]
      exact List.not_mem_nil
  · intro handle i n hi
    cases hi
  · rw [hcalls]
    rfl
  · intro k call asked hk
    rw [hcalls] at hk
    cases hk
  · rw [hduties]
    rfl
  · intro k handle topic hk
    rw [hduties] at hk
    cases hk

theorem Kept.step {r : Roster} {op : DaemonOp} (h : Kept r) (hok : r.daemon.Single op) :
    Kept (r.step self_addr op) := by
  by_cases hop : op = .restart
  · subst hop
    exact .of_new ⟨_, _, rfl⟩ rfl
  have hs := h.rooted.toHosting
  have hserves := Daemon.serves_step self_addr r.daemon hop
  have hcalls : Service.CallsMove r.daemon.service (r.daemon.step self_addr op).service op.call
      (Daemon.Begins r.daemon (r.daemon.step self_addr op) op) := Daemon.calls_step hs hop
  have hduties : Daemon.DutiesMove r.daemon (r.daemon.step self_addr op) op :=
    Daemon.duties_step hs hop
  have htable : Daemon.TableMove r.daemon (r.daemon.step self_addr op) op :=
    Daemon.table_step hs hop
  have hstep : r.step self_addr op =
      { daemon := r.daemon.step self_addr op
        named := named_after r.daemon op r.named
        wanted := follow r.daemon.service.calls.length
          (r.daemon.step self_addr op).service.calls.length op.call op.topic r.wanted
        asked := follow r.daemon.jobs.length (r.daemon.step self_addr op).jobs.length none
          (r.asked_by op) r.asked } := by
    cases op with
    | restart => exact absurd rfl hop
    | _ => rfl
  have hbegins : ∀ call, Daemon.Begins r.daemon (r.daemon.step self_addr op) op call →
      call.Asks (r.daemon.step self_addr op).service op.topic := by
    intro call hcall
    cases hcall with
    | request serving restored asks => exact asks
    | row restoring row reads number => trivial
  rw [hstep]
  exact ⟨hserves.rooted h.rooted, h.rows.step hcalls htable,
    h.named.step h.rows hs hserves.later htable hduties hok,
    h.tracks.move hserves.later hcalls hbegins, h.answers_step hserves.later hduties⟩

omit [Urls] [TableJson] in
theorem Kept.isSet {r : Roster} (h : Kept r) : IsSet r where
  distinct := h.named.distinct
  listed := h.named.listed
  one_session := h.named.one_session
  answered := by
    intro k topic handle hasked hanswer
    unfold Daemon.answer at hanswer
    rcases hk : r.daemon.jobs[k]? with _ | job
    · rw [hk] at hanswer
      cases hanswer
    rw [hk] at hanswer
    dsimp only at hanswer
    split at hanswer
    · rename_i handle' hstage hduty
      obtain ⟨ticket, hdrop, rfl⟩ := Option.map_eq_some_iff.mp hanswer
      have hk' : r.daemon.duties[k]? = some (.answer handle') := by
        unfold Daemon.duties
        rw [List.getElem?_map, hk, Option.map_some, hduty]
      obtain ⟨i, hi, htopic⟩ := h.answers.named k handle' topic hk' hasked
      obtain ⟨j, hj, -⟩ := Option.bind_eq_some_iff.mp hdrop
      have hij : i = j := h.named.one_session handle' i j hi (h.named.listed handle' j hj)
      subst hij
      unfold Service.topic_under
      rw [hj, Option.bind_some, htopic]
    · cases hanswer

omit [TableJson] in
/-- The daemon in it runs as it does alone. -/
theorem daemon_run [TableJson] (r : Roster) (ops : List DaemonOp) :
    (r.run self_addr ops).daemon = r.daemon.run self_addr ops := by
  induction ops generalizing r with
  | nil => rfl
  | cons op ops ih =>
    refine (ih (r.step self_addr op)).trans ?_
    have hstep : (r.step self_addr op).daemon = r.daemon.step self_addr op := by cases op <;> rfl
    rw [hstep]
    rfl

end Runs

end Roster

/-- In a run in which every session that comes into the table is of a topic that
the table does not host, under a handle that is free, membership is a set at every
moment. -/
theorem single_runs_keep_a_set [Urls] [TableJson] (self_addr : EndpointAddr) (secret : SecretKey)
    (policy : DropPolicy) {ops : List DaemonOp}
    (h : runs.Meets (Daemon.step self_addr) Daemon.Single (.start secret policy) ops) :
    ∀ ops', ops' <+: ops → ((Roster.start secret policy).run self_addr ops').IsSet := by
  rintro ops' ⟨rest, rfl⟩
  have hmeets := ((runs.meets_append _ ops' rest).mp h).1
  have hkept : ∀ (ops : List DaemonOp) (r : Roster), r.Kept →
      runs.Meets (Daemon.step self_addr) Daemon.Single r.daemon ops → (r.run self_addr ops).Kept := by
    intro ops
    induction ops with
    | nil => exact fun _ hr _ => hr
    | cons op ops ih =>
      intro r hr hops
      have hstep : (r.step self_addr op).daemon = r.daemon.step self_addr op := by cases op <;> rfl
      exact ih _ (hr.step self_addr hops.1) (hstep ▸ hops.2)
  exact (hkept ops' _ (.of_new ⟨secret, policy, rfl⟩ rfl) hmeets).isSet
end Laws

/-! ## One link, joined by two clients -/

namespace same_link

local instance : Crypto := Crypto.clear

local instance : Urls := Urls.verbatim

local instance : TableJson := TableJson.pretty

def self_addr : EndpointAddr := .of_id (SecretKey.public ⟨.fill 32 1⟩)

def ticket : DropTicket := .nodeless (.fill 32 8) none

def join : DaemonOp := .act (.drop_join (String.ofList ticket.to_string_prefixed))

/-- The carrier of the first request that waits comes, and its session is put
into the table. -/
def opens : List DaemonOp :=
  [.act (.connected 0 (.ok ()) (fun _ => .NotFound)), .act (.settle 0)]

def roster (ops : List DaemonOp) : Roster := (Roster.start ⟨.fill 32 1⟩ {}).run self_addr ops

/-- The second client pastes the link when the first one has its drop. -/
def in_turn : List DaemonOp := [.restore, join] ++ opens ++ [join, .job 1]

theorem in_turn_single :
    runs.Meets (Daemon.step self_addr) Daemon.Single (.start ⟨.fill 32 1⟩ {}) in_turn := by
  decide +kernel

/-- The law at work on it. -/
theorem single_runs_keep_a_set_in_turn : (roster in_turn).IsSet :=
  single_runs_keep_a_set self_addr ⟨.fill 32 1⟩ {} in_turn_single in_turn (List.prefix_refl _)

/-- The second client pastes it while the first one waits for the network. -/
def at_once : List DaemonOp := [.restore, join, join] ++ opens ++ opens

/-- The drop is in the table twice. -/
theorem a_link_is_joined_twice :
    ((roster at_once).daemon.service.topic_under "d1" = some ticket.topic ∧
      (roster at_once).daemon.service.topic_under "d2" = some ticket.topic) ∧
    ¬ ∀ [Crypto] [Urls] [TableJson] (self_addr : EndpointAddr) (secret : SecretKey)
      (policy : DropPolicy) (ops : List DaemonOp),
      ((Roster.start secret policy).run self_addr ops).IsSet := by
  have hfirst : (roster at_once).daemon.service.topic_under "d1" = some ticket.topic := by
    decide +kernel
  have hsecond : (roster at_once).daemon.service.topic_under "d2" = some ticket.topic := by
    decide +kernel
  refine ⟨⟨hfirst, hsecond⟩, fun hall => ?_⟩
  have hset : (roster at_once).IsSet := hall self_addr ⟨.fill 32 1⟩ {} at_once
  have hsame := hset.distinct "d1" "d2" ticket.topic hfirst hsecond
  exact absurd hsame (by decide)

end same_link

end iroh_drop
