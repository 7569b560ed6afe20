-- The law of leaving: the pump of a drop owns the session for as long as the
-- daemon runs, so no drop that is left is ever given up.
import IrohDrop.Daemon
import IrohDrop.Speech

open rust_std postcard

namespace iroh_drop

section Laws

variable [Crypto]

namespace Service

/-! ## What leaving should do -/

/-- `drop.leave` has answered `Ok`, and the publishes, fetches and questions
of the drop have ended. -/
def Ended (self : Service) (i : SessionId) : Prop :=
  i ∈ self.left ∧ (∀ work ∈ self.works, work.session ≠ i) ∧
    ∀ consent ∈ self.consents, consent.session ≠ i

/-- The drop of the session is in the table, or a request is about to put it
there. -/
def hosts (self : Service) (i : SessionId) : Bool :=
  self.drops.entries.any (·.2.session = i) || self.calls.any fun
    | .opened j _ => j = i
    | _ => false

/-- The topics of the drops that the daemon hosts. -/
def hosted_topics (self : Service) : List TopicId :=
  ((List.range self.sessions.length).filter self.hosts).filterMap self.topic_of

/-- The topics of all sessions that were ever opened. -/
def opened_topics (self : Service) : List TopicId := self.sessions.map (·.session.topic_id)

/-- A drop that is left and done is given up: its session is freed, its topic
is answered for as if it was never hosted, and it takes no capacity. -/
structure LeavesEnd (s : Service) : Prop where
  freed : ∀ i, s.Ended i → s.upgrade i = none
  unserved : ∀ i, s.Ended i → ∀ topic, s.registry.lookup topic = some i →
    ∀ (request : SyncRequestV1) (peer : EndpointId), request.topic_id = topic.as_bytes →
      sync_page s.live_sessions request peer = unhosted_page request
  counted : (∀ i < s.sessions.length, s.hosts i = true ∨ s.Ended i) →
    s.active = s.hosted_topics.toFinset.card

/-! ## The invariant -/

/-- Every opened session has its pump, or a request that will start it, and
the registry lists every topic. -/
structure Hosting (s : Service) : Prop where
  kept : ∀ i < s.sessions.length, s.has_pump i = true ∨ ∃ opening, .opened i opening ∈ s.calls
  registered : ∀ topic i, s.registry.lookup topic = some i → s.topic_of i = some topic
  listed : ∀ topic ∈ s.opened_topics, topic ∈ s.registry
  calls : ∀ call ∈ s.calls, ∀ i, call.session = some i → i < s.sessions.length
  drops : ∀ handle entry, s.drops.lookup handle = some entry → entry.session < s.sessions.length
  left : ∀ i ∈ s.left, i < s.sessions.length

namespace Hosting

variable {s : Service}

theorem of_new (secret : SecretKey) (policy : DropPolicy) : Hosting (.new secret policy) := by
  constructor
  · intro i hi
    cases hi
  · intro topic i h
    cases h
  · intro topic h
    cases h
  · intro call h
    cases h
  · intro handle entry h
    cases h
  · intro i h
    cases h

/-- What changes nothing but tasks and questions. -/
theorem congr {s' : Service} (h : Hosting s) (hsessions : s'.sessions = s.sessions)
    (hregistry : s'.registry = s.registry) (hcalls : s'.calls = s.calls) (hdrops : s'.drops = s.drops)
    (hleft : s'.left = s.left) : Hosting s' := by
  obtain ⟨hkept, hregistered, hlisted, hcall, hdrop, hleft'⟩ := h
  constructor
  · intro i hi
    rw [hsessions] at hi
    rcases hkept i hi with hpump | hopened
    · left
      unfold has_pump at hpump ⊢
      rw [hsessions]
      exact hpump
    · right
      rw [hcalls]
      exact hopened
  · intro topic i hlookup
    rw [hregistry] at hlookup
    have htopic := hregistered topic i hlookup
    unfold topic_of at htopic ⊢
    rw [hsessions]
    exact htopic
  · intro topic htopic
    unfold opened_topics at htopic
    rw [hsessions] at htopic
    rw [hregistry]
    exact hlisted topic htopic
  · rw [hcalls, hsessions]
    exact hcall
  · rw [hdrops, hsessions]
    exact hdrop
  · rw [hleft, hsessions]
    exact hleft'

/-- A session changes in place. -/
theorem modify (h : Hosting s) (i : SessionId) {f : Hosted → Hosted}
    (htopic : ∀ hosted, (f hosted).session.topic_id = hosted.session.topic_id)
    (hpump : ∀ hosted, s.sessions[i]? = some hosted → hosted.pump.isSome = true →
      (f hosted).pump.isSome = true) : Hosting (s.modify i f) := by
  have hlength : (s.modify i f).sessions.length = s.sessions.length := List.length_modify _ _ _
  have hget : ∀ j, (s.modify i f).sessions[j]? =
      if i = j then s.sessions[j]?.map f else s.sessions[j]? := by
    intro j
    simp only [Service.modify, List.getElem?_modify]
    split <;> rcases s.sessions[j]? with _ | hosted <;> rfl
  have htopics : ∀ j, (s.modify i f).topic_of j = s.topic_of j := by
    intro j
    unfold topic_of
    rw [hget]
    split
    · rcases s.sessions[j]? with _ | hosted
      · rfl
      · exact congrArg some (htopic hosted)
    · rfl
  constructor
  · intro j hj
    rcases h.kept j (hlength ▸ hj) with hkept | hopened
    · left
      unfold has_pump at hkept ⊢
      rw [hget]
      split
      · rename_i hij
        rcases hsession : s.sessions[j]? with _ | hosted
        · rw [hsession] at hkept
          cases hkept
        · rw [hsession] at hkept
          exact hpump hosted (hij ▸ hsession) hkept
      · exact hkept
    · exact .inr hopened
  · intro topic j hlookup
    rw [htopics]
    exact h.registered topic j hlookup
  · intro topic hmem
    refine h.listed topic ?_
    obtain ⟨j, hj⟩ := List.mem_iff_getElem?.mp hmem
    have hj' : (s.modify i f).topic_of j = some topic := by
      unfold topic_of
      rw [opened_topics, List.getElem?_map] at hj
      exact hj
    rw [htopics] at hj'
    refine List.mem_iff_getElem?.mpr ⟨j, ?_⟩
    rw [opened_topics, List.getElem?_map]
    exact hj'
  · intro call hcall j hsession
    rw [hlength]
    exact h.calls call hcall j hsession
  · intro handle entry hlookup
    rw [hlength]
    exact h.drops handle entry hlookup
  · intro j hj
    rw [hlength]
    exact h.left j hj

/-- The requests change: a session that was about to get its pump has it, or
is still about to. -/
theorem with_calls (h : Hosting s) {calls : List Call}
    (hkept : ∀ i opening, .opened i opening ∈ s.calls →
      s.has_pump i = true ∨ .opened i opening ∈ calls)
    (hcalls : ∀ call ∈ calls, ∀ i, call.session = some i → i < s.sessions.length) :
    Hosting { s with calls } where
  kept := by
    intro i hi
    rcases h.kept i hi with hpump | ⟨opening, hopened⟩
    · exact .inl hpump
    · rcases hkept i opening hopened with hpump | hstill
      · exact .inl hpump
      · exact .inr ⟨opening, hstill⟩
  registered := h.registered
  listed := h.listed
  calls := hcalls
  drops := h.drops
  left := h.left

theorem with_drops (h : Hosting s) {drops : HashMap String DropEntry}
    (hdrops : ∀ handle entry, drops.lookup handle = some entry →
      entry.session < s.sessions.length) : Hosting { s with drops } :=
  { h with drops := hdrops }

theorem add_call (h : Hosting s) {call : Call}
    (hcall : ∀ i, call.session = some i → i < s.sessions.length) :
    Hosting { s with calls := s.calls ++ [call] } := by
  refine h.with_calls (fun i opening hopened => .inr (List.mem_append_left _ hopened)) ?_
  intro call' hcall'
  rcases List.mem_append.mp hcall' with hold | hnew
  · exact h.calls call' hold
  · rw [List.mem_singleton.mp hnew]
    exact hcall

/-- A request that opens no session moves on. -/
theorem set_call (h : Hosting s) {k : Nat} {old new : Call} (hk : s.calls[k]? = some old)
    (hold : ∀ i opening, old = .opened i opening → s.has_pump i = true)
    (hnew : ∀ i, new.session = some i → i < s.sessions.length) : Hosting (s.set_call k new) := by
  refine h.with_calls ?_ ?_
  · intro i opening hopened
    obtain ⟨j, hj⟩ := List.mem_iff_getElem?.mp hopened
    by_cases hjk : j = k
    · subst hjk
      rw [hk] at hj
      exact .inl (hold i opening (Option.some.inj hj))
    · right
      refine List.mem_iff_getElem?.mpr ⟨j, ?_⟩
      rw [List.getElem?_set_ne (fun hkj => hjk hkj.symm)]
      exact hj
  · intro call hcall
    rcases List.mem_or_eq_of_mem_set hcall with hmem | heq
    · exact h.calls call hmem
    · rw [heq]
      exact hnew

/-- A request that opens no session returns. -/
theorem end_call (h : Hosting s) {k : Nat} {old : Call} (hk : s.calls[k]? = some old)
    (hold : ∀ i opening, old = .opened i opening → s.has_pump i = true) :
    Hosting (s.end_call k) := by
  refine h.with_calls ?_ (fun call hcall => h.calls call (List.mem_of_mem_eraseIdx hcall))
  intro i opening hopened
  obtain ⟨j, hj⟩ := List.mem_iff_getElem?.mp hopened
  by_cases hjk : j = k
  · subst hjk
    rw [hk] at hj
    exact .inl (hold i opening (Option.some.inj hj))
  · exact .inr (List.mem_eraseIdx_iff_getElem?.mpr ⟨j, hjk, hj⟩)

/-! ## One act -/

theorem has_pump_lt {i : SessionId} (h : s.has_pump i = true) : i < s.sessions.length := by
  unfold has_pump at h
  by_contra hge
  rw [List.getElem?_eq_none (Nat.le_of_not_lt hge)] at h
  cases h

/-- What the invariant needs of a drop that comes into the table. -/
theorem insert_drop (h : Hosting s) (handle : String) (entry : DropEntry)
    (hentry : entry.session < s.sessions.length) :
    Hosting (s.insert_drop handle entry) ∧
      (s.insert_drop handle entry).has_pump entry.session = true := by
  have hdrops : Hosting { s with drops := s.drops.insert handle entry } := by
    refine h.with_drops ?_
    intro handle' entry' hlookup
    rw [HashMap.lookup_insert'] at hlookup
    split at hlookup
    · cases hlookup
      exact hentry
    · exact h.drops handle' entry' hlookup
  refine ⟨hdrops.modify entry.session (fun _ => rfl) (fun _ _ _ => rfl), ?_⟩
  unfold has_pump Service.insert_drop spawn_pump Service.modify
  simp only [List.getElem?_modify, if_true, List.getElem?_eq_getElem hentry]
  rfl

theorem connect (h : Hosting s) (ticket : DropTicket) (opening : Opening) :
    Hosting ((s.connect ticket opening).toOption.getD s) := by
  unfold Service.connect
  rcases s.check_session_capacity with e | u
  · exact h
  · exact h.add_call (fun i hi => nomatch hi)

theorem drop_join [Urls] (h : Hosting s) (ticket : String) :
    Hosting ((s.drop_join ticket).toOption.getD s) := by
  unfold Service.drop_join
  rcases DropTicket.from_string_prefixed ticket.toList with e | ticket
  · exact h
  simp only
  rcases s.handle_for_topic ⟨ticket.V1.topic_id⟩ with _ | handle
  · exact h.connect ticket _
  simp only
  rcases s.entry handle with e | entry
  · exact h
  -- A member already: an entry may get a name, and keeps its session.
  have hrenamed : Hosting { s with
      drops := s.drops.modify handle fun e =>
        { e with name := e.name <|> ticket.V1.options.display_name } } := by
    refine h.with_drops ?_
    intro handle' entry' hlookup
    rw [HashMap.lookup_modify] at hlookup
    split at hlookup
    · obtain ⟨old, hold, rfl⟩ := Option.map_eq_some_iff.mp hlookup
      exact h.drops handle old hold
    · exact h.drops handle' entry' hlookup
  exact hrenamed.congr rfl rfl rfl rfl rfl

/-- A new session is opened for a request, which will start its pump. -/
theorem open_session (h : Hosting s) {k : Nat} {ticket ticket' : DropTicket} {opening : Opening}
    (hk : s.calls[k]? = some (.connecting ticket' opening)) (store : BlobHash → BlobStatus)
    (catch_up : Bool) :
    Hosting ((s.set_call k (.opened s.sessions.length opening)).open_session ticket store
      catch_up) := by
  have hlt : k < s.calls.length := (List.getElem?_eq_some_iff.mp hk).1
  have hlength : ((s.set_call k (.opened s.sessions.length opening)).open_session ticket store
      catch_up).sessions.length = s.sessions.length + 1 := List.length_append
  have hold : ∀ j < s.sessions.length, ((s.set_call k (.opened s.sessions.length
      opening)).open_session ticket store catch_up).sessions[j]? = s.sessions[j]? :=
    fun j hj => List.getElem?_append_left hj
  have hnew : ((s.set_call k (.opened s.sessions.length opening)).open_session ticket store
      catch_up).topic_of s.sessions.length = some ⟨ticket.V1.topic_id⟩ := by
    unfold topic_of
    rw [show ((s.set_call k (.opened s.sessions.length opening)).open_session ticket store
      catch_up).sessions = s.sessions ++ [_] from rfl, List.getElem?_append_right (Nat.le_refl _),
      Nat.sub_self]
    rfl
  have htopic : ∀ j < s.sessions.length, ((s.set_call k (.opened s.sessions.length
      opening)).open_session ticket store catch_up).topic_of j = s.topic_of j := by
    intro j hj
    unfold topic_of
    rw [hold j hj]
  have hregistry : ((s.set_call k (.opened s.sessions.length opening)).open_session ticket store
      catch_up).registry = s.registry.insert ⟨ticket.V1.topic_id⟩ s.sessions.length := rfl
  constructor
  · intro i hi
    rw [hlength] at hi
    rcases Nat.lt_succ_iff_lt_or_eq.mp hi with hlt' | heq
    · rcases h.kept i hlt' with hpump | ⟨opening', hopened⟩
      · left
        unfold has_pump at hpump ⊢
        rw [hold i hlt']
        exact hpump
      · right
        obtain ⟨j, hj⟩ := List.mem_iff_getElem?.mp hopened
        have hjk : k ≠ j := by
          intro hkj
          rw [hkj, hj] at hk
          cases hk
        refine ⟨opening', List.mem_iff_getElem?.mpr ⟨j, ?_⟩⟩
        rw [← hj]
        exact List.getElem?_set_ne hjk
    · right
      rw [heq]
      exact ⟨opening, List.mem_iff_getElem?.mpr ⟨k, List.getElem?_set_self hlt⟩⟩
  · intro topic i hlookup
    rw [hregistry, HashMap.lookup_insert'] at hlookup
    split at hlookup
    · rename_i heq
      cases hlookup
      rw [heq]
      exact hnew
    · have hreg := h.registered topic i hlookup
      have hi : i < s.sessions.length := by
        unfold topic_of at hreg
        obtain ⟨hosted, hhosted, -⟩ := Option.map_eq_some_iff.mp hreg
        exact (List.getElem?_eq_some_iff.mp hhosted).1
      rw [htopic i hi]
      exact hreg
  · intro topic hmem
    rw [hregistry, AList.mem_insert]
    have hsplit : topic ∈ s.opened_topics ++ [(⟨ticket.V1.topic_id⟩ : TopicId)] := by
      have heq : ((s.set_call k (.opened s.sessions.length opening)).open_session ticket store
          catch_up).opened_topics = s.opened_topics ++ [⟨ticket.V1.topic_id⟩] := List.map_append
      rwa [heq] at hmem
    rcases List.mem_append.mp hsplit with hmem | hmem
    · exact .inr (h.listed topic hmem)
    · exact .inl (List.mem_singleton.mp hmem)
  · intro call hcall i hi
    rw [hlength]
    rcases List.mem_or_eq_of_mem_set hcall with hmem | heq
    · exact Nat.lt_succ_of_lt (h.calls call hmem i hi)
    · rw [heq] at hi
      cases hi
      exact Nat.lt_succ_self _
  · intro handle entry hlookup
    rw [hlength]
    exact Nat.lt_succ_of_lt (h.drops handle entry hlookup)
  · intro i hi
    rw [hlength]
    exact Nat.lt_succ_of_lt (h.left i hi)

theorem connected [Urls] (h : Hosting s) (k : Nat) (carrier : Except String Unit)
    (store : BlobHash → BlobStatus) : Hosting (s.connected k carrier store) := by
  unfold Service.connected
  split
  · rename_i ticket opening hk
    rcases carrier with e | u
    · exact h.end_call hk (fun i opening heq => nomatch heq)
    · exact h.open_session hk store _
  · exact h

theorem settle (h : Hosting s) (k : Nat) : Hosting (s.settle k) := by
  have hregister : ∀ {i : SessionId} {opening : Opening} (name : Option String) (mine : Bool),
      s.calls[k]? = some (.opened i opening) →
      Hosting ((s.register i name mine).2.set_call k (.registered (s.register i name mine).1)) := by
    intro i opening name mine hk
    have hi := h.calls _ (List.mem_of_getElem? hk) i rfl
    have hnext : Hosting { s with next_drop := s.next_drop + 1 } := h.congr rfl rfl rfl rfl rfl
    obtain ⟨hinserted, hpump⟩ := hnext.insert_drop s!"d{s.next_drop}"
      { session := i, name, mine } hi
    refine hinserted.set_call hk ?_ (fun j hj => nomatch hj)
    intro j opening' heq
    cases heq
    exact hpump
  unfold Service.settle
  split
  · rename_i i name hk
    exact hregister name true hk
  · rename_i i name hk
    exact hregister name false hk
  · rename_i i handle name mine hk
    have hi := h.calls _ (List.mem_of_getElem? hk) i rfl
    obtain ⟨hinserted, hpump⟩ := h.insert_drop handle { session := i, name, mine } hi
    refine hinserted.end_call hk ?_
    intro j opening' heq
    cases heq
    exact hpump
  · exact h

theorem answered (h : Hosting s) (k : Nat) : Hosting (s.answered k) := by
  unfold Service.answered
  split
  · rename_i handle hk
    exact h.end_call hk (fun i opening heq => nomatch heq)
  · exact h

theorem drop_leave (h : Hosting s) (handle : String) :
    Hosting ((s.drop_leave handle).toOption.getD s) := by
  unfold Service.drop_leave entry
  rcases hentry : s.drops.lookup handle with _ | entry
  · exact h
  have herased : Hosting { s with drops := s.drops.erase handle } := by
    refine h.with_drops ?_
    intro handle' entry' hlookup
    rw [HashMap.lookup_erase'] at hlookup
    split at hlookup
    · cases hlookup
    · exact h.drops handle' entry' hlookup
  refine herased.add_call ?_
  intro i hi
  cases hi
  exact h.drops handle entry hentry

theorem withdraw (h : Hosting s) (k : Nat) (announced_at_ms : BlobHash → UInt64)
    (draws : BlobHash → Draw) : Hosting (s.withdraw k announced_at_ms draws) := by
  unfold Service.withdraw
  split
  · rename_i handle i hk
    have hi := h.calls _ (List.mem_of_getElem? hk) i rfl
    have htopic : ∀ session : Session,
        (session.announce_withdrawal announced_at_ms draws).topic_id = session.topic_id :=
      fun session => congrArg SessionConfig.topic_id
        (step_extends session (.announce_withdrawal announced_at_ms draws)).config
    have hannounced := h.modify i
      (f := fun hosted =>
        { hosted with session := hosted.session.announce_withdrawal announced_at_ms draws })
      (fun hosted => htopic hosted.session) (fun _ _ hpump => hpump)
    have htaken := hannounced.modify i
      (f := fun hosted => { hosted with tasks := hosted.tasks.map fun task => (task.1, true) })
      (fun _ => rfl) (fun _ _ hpump => hpump)
    refine htaken.set_call hk (fun j opening heq => nomatch heq) ?_
    intro j hj
    cases hj
    simp only [Service.modify, List.length_modify]
    exact hi
  · exact h

theorem stop (h : Hosting s) (k : Nat) : Hosting (s.stop k) := by
  unfold Service.stop
  split
  · rename_i handle i hk
    have hi := h.calls _ (List.mem_of_getElem? hk) i rfl
    split
    · exact h
    · have hended := h.end_call hk (fun j opening heq => nomatch heq)
      refine { hended with left := ?_ }
      intro j hj
      rcases List.mem_append.mp hj with hold | hnew
      · exact h.left j hold
      · rw [List.mem_singleton.mp hnew]
        exact hi
  · exact h

theorem live_of_pump {i : SessionId} (h : s.has_pump i = true) : s.live i = true := by
  unfold live owned
  rw [h]
  simp

/-- The pump never sees its channel closed: it owns the sender itself. -/
theorem pump (h : Hosting s) (i : SessionId) : Hosting (s.pump i) := by
  unfold Service.pump
  split
  · exact h
  rename_i hosted hhosted
  split
  · exact h
  rename_i pump hpump
  have hlive : s.live i = true := by
    refine live_of_pump ?_
    unfold has_pump
    rw [hhosted, Option.any_some, hpump]
    rfl
  rcases hrecv : broadcast_recv EVENT_CHANNEL_CAPACITY hosted.session.events (!s.live i) pump.next
    with ⟨received, next⟩
  have hadvanced : Hosting (s.modify i fun hosted =>
      { hosted with pump := some { pump with next } }) :=
    h.modify i (fun _ => rfl) (fun _ _ _ => rfl)
  cases received with
  | Ok event =>
    simp only [on_session_event]
    split
    · split
      · exact hadvanced.congr rfl rfl rfl rfl rfl
      · exact hadvanced
    · exact hadvanced
  | Lagged missed => exact hadvanced
  | Closed =>
    exfalso
    rw [hlive] at hrecv
    unfold broadcast_recv at hrecv
    split at hrecv
    · cases hrecv
    · split at hrecv <;> cases hrecv
  | Pending => exact h

theorem session_step (h : Hosting s) (i : SessionId) (step : Step) :
    Hosting (s.session_step i step) := by
  unfold Service.session_step
  split
  · refine h.modify i ?_ (fun _ _ hpump => hpump)
    intro hosted
    exact congrArg SessionConfig.topic_id (step_extends hosted.session step).config
  · exact h

theorem spawned (h : Hosting s) (kind : WorkKind) (drop : String) (hash : Option BlobHash)
    (session : SessionId) : Hosting (s.spawn_task kind drop hash session) :=
  h.congr rfl rfl rfl rfl rfl

/-- Every act keeps the invariant. -/
theorem act [Urls] (self_addr : EndpointAddr) (h : Hosting s) (a : Act) :
    Hosting (s.act self_addr a) := by
  cases a with
  | drop_create options topic_id key => exact h.connect _ _
  | drop_join ticket => exact h.drop_join ticket
  | restore_drop ticket handle name mine => exact h.connect _ _
  | connected k carrier store => exact h.connected k carrier store
  | settle k => exact h.settle k
  | answer k => exact h.answered k
  | drop_leave handle => exact h.drop_leave handle
  | withdraw k announced_at_ms draws => exact h.withdraw k announced_at_ms draws
  | stop k => exact h.stop k
  | offer_publish handle =>
    simp only [Service.act, offer_publish]
    rcases s.entry handle with e | entry
    · exact h
    · exact h.spawned _ _ _ _
  | offer_fetch handle hash =>
    simp only [Service.act, offer_fetch]
    rcases s.entry handle with e | entry
    · exact h
    rcases hash with e | hash
    · exact h
    · exact h.spawned _ _ _ _
  | consent_answered k accept =>
    simp only [Service.act, consent_answered]
    split
    · exact h
    · have hanswered : Hosting { s with consents := s.consents.eraseIdx k } :=
        h.congr rfl rfl rfl rfl rfl
      split
      · exact hanswered.spawned _ _ _ _
      · exact hanswered
  | session_step i step => exact h.session_step i step
  | pump i => exact h.pump i
  | internal_ended i k => exact h.modify i (fun _ => rfl) (fun _ _ hpump => hpump)
  | work_ended k => exact h.congr rfl rfl rfl rfl rfl
  | rejoin_ended k => exact h.congr rfl rfl rfl rfl rfl

end Hosting

/-- Every run of the daemon keeps the invariant. -/
theorem run_hosting [Urls] (self_addr : EndpointAddr) (secret : SecretKey) (policy : DropPolicy)
    (acts : List Act) : Hosting ((Service.new secret policy).run self_addr acts) :=
  runs.invariant (fun _ a h => h.act self_addr a) (Hosting.of_new secret policy) acts

/-! ## No session is freed -/

namespace Hosting

variable {s : Service}

theorem live (h : Hosting s) {i : SessionId} (hi : i < s.sessions.length) : s.live i = true := by
  rcases h.kept i hi with hpump | ⟨opening, hopened⟩
  · exact live_of_pump hpump
  · have hcall : s.calls.any (fun call => call.session = some i) = true :=
      List.any_eq_true.mpr ⟨_, hopened, decide_eq_true rfl⟩
    unfold Service.live owned
    rw [hcall]
    simp

theorem upgrade (h : Hosting s) {i : SessionId} (hi : i < s.sessions.length) :
    s.upgrade i = some s.sessions[i].session := by
  unfold Service.upgrade
  rw [if_pos (h.live hi), List.getElem?_eq_getElem hi]
  rfl

theorem registered_lt (h : Hosting s) {topic : TopicId} {i : SessionId}
    (hlookup : s.registry.lookup topic = some i) : i < s.sessions.length := by
  have htopic := h.registered topic i hlookup
  unfold topic_of at htopic
  obtain ⟨hosted, hhosted, -⟩ := Option.map_eq_some_iff.mp htopic
  exact (List.getElem?_eq_some_iff.mp hhosted).1

theorem mem_opened_topics {topic : TopicId} :
    topic ∈ s.opened_topics ↔ ∃ i < s.sessions.length, s.topic_of i = some topic := by
  rw [List.mem_iff_getElem?]
  constructor
  · rintro ⟨i, hi⟩
    refine ⟨i, ?_, ?_⟩
    · have hlt := (List.getElem?_eq_some_iff.mp hi).1
      rwa [opened_topics, List.length_map] at hlt
    · rw [opened_topics, List.getElem?_map] at hi
      exact hi
  · rintro ⟨i, -, hi⟩
    refine ⟨i, ?_⟩
    rw [opened_topics, List.getElem?_map]
    exact hi

/-- Every topic that was ever opened takes capacity. -/
theorem active (h : Hosting s) : s.active = s.opened_topics.toFinset.card := by
  have hall : s.active = s.registry.len := by
    refine s.registry.count_all (p := fun i => (s.upgrade i).isSome) ?_
    intro topic i hlookup
    rw [h.upgrade (h.registered_lt hlookup)]
    rfl
  rw [hall]
  refine s.registry.len_eq_card ?_
  intro topic
  constructor
  · intro hmem
    obtain ⟨i, hlookup⟩ := Option.isSome_iff_exists.mp (AList.lookup_isSome.mpr hmem)
    exact mem_opened_topics.mpr ⟨i, h.registered_lt hlookup, h.registered topic i hlookup⟩
  · exact h.listed topic

/-- No drop is given up, so leaving has ended nothing where a drop was left
and done. -/
theorem leavesEnd_iff (h : Hosting s) : LeavesEnd s ↔ ∀ i, ¬ s.Ended i := by
  constructor
  · intro hends i hended
    have hfreed := hends.freed i hended
    rw [h.upgrade (h.left i hended.1)] at hfreed
    cases hfreed
  · intro hnone
    refine ⟨fun i hended => absurd hended (hnone i), fun i hended => absurd hended (hnone i), ?_⟩
    intro hhosts
    rw [h.active]
    congr 1
    ext topic
    rw [List.mem_toFinset, List.mem_toFinset, mem_opened_topics, hosted_topics, List.mem_filterMap]
    constructor
    · rintro ⟨i, hi, htopic⟩
      refine ⟨i, List.mem_filter.mpr ⟨List.mem_range.mpr hi, ?_⟩, htopic⟩
      exact (hhosts i hi).resolve_right (hnone i)
    · rintro ⟨i, hi, htopic⟩
      exact ⟨i, List.mem_range.mp (List.mem_filter.mp hi).1, htopic⟩

end Hosting

/-- In every state of the daemon a drop that is left and done is given up just
when there is none. The session of a left drop is live for good, and a request
for a new drop is refused just when 64 topics have been opened so far. -/
theorem leaves_end_iff [Urls] (self_addr : EndpointAddr) (secret : SecretKey) (policy : DropPolicy)
    (acts : List Act) :
    (LeavesEnd ((Service.new secret policy).run self_addr acts) ↔
      ∀ i, ¬ ((Service.new secret policy).run self_addr acts).Ended i) ∧
    (∀ i ∈ ((Service.new secret policy).run self_addr acts).left,
      (((Service.new secret policy).run self_addr acts).upgrade i).isSome = true) ∧
    ((∃ e, ((Service.new secret policy).run self_addr acts).check_session_capacity = .error e) ↔
      MAX_SESSIONS ≤
        ((Service.new secret policy).run self_addr acts).opened_topics.toFinset.card) := by
  have h := run_hosting self_addr secret policy acts
  generalize (Service.new secret policy).run self_addr acts = s at h
  refine ⟨h.leavesEnd_iff, ?_, ?_⟩
  · intro i hi
    rw [h.upgrade (h.left i hi)]
    rfl
  · rw [← h.active]
    unfold check_session_capacity
    constructor
    · rintro ⟨e, he⟩
      split at he
      · assumption
      · cases he
    · intro hfull
      exact ⟨_, if_pos hfull⟩

end Service

end Laws

/-! ## A drop that is left -/

namespace left_drop

local instance : Crypto := Crypto.clear

local instance : Urls := Urls.verbatim

open Service (Act)

def self_addr : EndpointAddr := .of_id (SecretKey.public ⟨.fill 32 1⟩)

def options : CreateOptions :=
  { «private» := false, auto_fetch_recommended := false, display_name := none }

/-- The n-th drop is created, and left at once. -/
def round (n : Nat) : List Act :=
  [.drop_create options ⟨.fill 32 (UInt8.ofNat n)⟩ ⟨.fill 32 0⟩,
   .connected 0 (.ok ()) (fun _ => .NotFound), .settle 0, .answer 0,
   .drop_leave s!"d{n + 1}",
   .withdraw 0 (fun _ => 0) (fun _ => { now := 0, sent_at_ms := 0, id := .fill 16 0
                                        nonce := .fill 24 0, carried := .ok () }),
   .internal_ended n 0, .stop 0]

/-- A daemon after some rounds. -/
def daemon (n : Nat) : Service :=
  (Service.new ⟨.fill 32 1⟩ {}).run self_addr ((List.range n).flatMap round)

theorem left_and_done : (daemon 1).Ended 0 := by
  refine ⟨?_, ?_, ?_⟩
  · decide +kernel
  · have hnone : (daemon 1).works.length = 0 := by decide +kernel
    rw [List.eq_nil_of_length_eq_zero hnone]
    exact fun _ h => nomatch h
  · have hnone : (daemon 1).consents.length = 0 := by decide +kernel
    rw [List.eq_nil_of_length_eq_zero hnone]
    exact fun _ h => nomatch h

/-- A drop that was created and left is served for ever, and after 64 of them
the daemon, which hosts none, takes no more. -/
theorem leaving_frees_nothing :
    ((daemon 1).upgrade 0).isSome = true ∧ ((daemon 64).drops.entries.length = 0 ∧
      (daemon 64).check_session_capacity = .error (.TooManySessions 64 64)) ∧
    ¬ ∀ [Crypto] [Urls] (self_addr : EndpointAddr) (secret : SecretKey) (policy : DropPolicy)
      (acts : List Act), ((Service.new secret policy).run self_addr acts).LeavesEnd := by
  have hlive : ((daemon 1).upgrade 0).isSome = true := by decide +kernel
  have hfull : (daemon 64).drops.entries.length = 0 ∧
      (daemon 64).check_session_capacity = .error (.TooManySessions 64 64) := by decide +kernel
  refine ⟨hlive, hfull, ?_⟩
  intro hends
  have hfreed := (hends self_addr ⟨.fill 32 1⟩ {} ((List.range 1).flatMap round)).freed 0 left_and_done
  have hsome : ((daemon 1).upgrade 0).isSome = true := hlive
  rw [show (daemon 1).upgrade 0 = none from hfreed] at hsome
  cases hsome

end left_drop

end iroh_drop
