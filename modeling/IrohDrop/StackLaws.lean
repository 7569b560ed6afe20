-- The laws of a protocol instance: when its sessions stay within their cap,
-- and when each topic with a live session is served.
import IrohDrop.Stack
import IrohDrop.Speech

open rust_std

namespace iroh_drop

section Laws

variable [Crypto]

namespace DropProtocol

/-! ## Steps -/

section Upgrades

variable (s : DropProtocol)

theorem upgrade_open_session (ticket : DropTicket) (store : BlobHash → BlobStatus)
    (j : SessionId) : (s.open_session ticket store).upgrade j =
      if j = s.sessions.length then
        some (.new s.secret s.policy s.decider ⟨ticket.V1.topic_id⟩ ticket ticket.drop_key store)
      else s.upgrade j := by
  unfold upgrade open_session
  dsimp only
  rcases Nat.lt_trichotomy j s.sessions.length with h | rfl | h
  · rw [if_neg h.ne, List.getElem?_append_left h]
  · rw [if_pos rfl, List.getElem?_concat_length]
    rfl
  · rw [if_neg h.ne', List.getElem?_eq_none (by rw [List.length_append, List.length_singleton]; omega),
      List.getElem?_eq_none h.le]

theorem upgrade_session_step (i : SessionId) (step : Step) (j : SessionId) :
    (s.session_step i step).upgrade j =
      if j = i then (s.upgrade j).map (fun session => session.step step) else s.upgrade j := by
  unfold upgrade session_step
  dsimp only
  rw [List.getElem?_modify]
  split
  · rename_i heq
    rw [if_pos heq.symm]
    rcases s.sessions[j]? with _ | opened
    · rfl
    · rcases hlive : opened.live with _ | _ <;> simp [Option.filter, hlive]
  · rename_i hne
    rw [if_neg (Ne.symm hne), id_map']

theorem upgrade_end_session (i j : SessionId) :
    (s.end_session i).upgrade j = if j = i then none else s.upgrade j := by
  unfold upgrade end_session
  dsimp only
  rw [List.getElem?_modify]
  split
  · rename_i heq
    rw [if_pos heq.symm]
    rcases s.sessions[j]? with _ | opened <;> rfl
  · rename_i hne
    rw [if_neg (Ne.symm hne), id_map']

end Upgrades

/-! ## The cap -/

/-- How many sessions are live. -/
def live_count (s : DropProtocol) : Nat := s.sessions.countP Opened.live

variable {s : DropProtocol}

theorem live_count_modify_le {i : SessionId} {f : Opened → Opened}
    (hf : ∀ opened, (f opened).live = true → opened.live = true) :
    (s.sessions.modify i f).countP Opened.live ≤ s.live_count := by
  unfold live_count
  induction s.sessions generalizing i with
  | nil => simp
  | cons opened rest ih =>
    cases i with
    | zero =>
      rw [List.modify_zero_cons, List.countP_cons, List.countP_cons]
      have := hf opened
      rcases hlive : (f opened).live with _ | _
      · simp
      · simp [this hlive]
    | succ i =>
      rw [List.modify_succ_cons, List.countP_cons, List.countP_cons]
      exact Nat.add_le_add_right ih _

theorem live_count_open_session (ticket : DropTicket) (store : BlobHash → BlobStatus) :
    (s.open_session ticket store).live_count = s.live_count + 1 := by
  unfold live_count open_session
  rw [List.countP_append]
  rfl

theorem connect_ok {s' : DropProtocol} {ticket : DropTicket} (h : s.connect ticket = .ok s') :
    s.check_session_capacity = .ok () ∧ s' = { s with calls := s.calls ++ [ticket] } := by
  unfold connect at h
  split at h
  · cases h
  · rename_i hcheck
    cases h
    exact ⟨hcheck, rfl⟩

/-- Every call that waits could get its session without one too many. -/
def Room (s : DropProtocol) : Prop := s.live_count + s.calls.length ≤ MAX_SESSIONS

theorem connect_room_iff (h : Room s) (ticket : DropTicket) :
    Room ((s.connect ticket).toOption.getD s) ↔
      (s.check_session_capacity = .ok () → s.live_count + s.calls.length < MAX_SESSIONS) := by
  rcases hconnect : s.connect ticket with e | s'
  · refine iff_of_true h (fun hcheck => ?_)
    unfold connect at hconnect
    rw [hcheck] at hconnect
    cases hconnect
  · obtain ⟨hcheck, rfl⟩ := connect_ok hconnect
    change s.live_count + (s.calls ++ [ticket]).length ≤ MAX_SESSIONS ↔ _
    rw [List.length_append, List.length_singleton]
    exact ⟨fun hroom _ => hroom, fun hadmitted => hadmitted hcheck⟩

theorem connected_room (h : Room s) (k : Nat) (carrier : Except String Unit)
    (store : BlobHash → BlobStatus) : Room (s.connected k carrier store) := by
  unfold connected
  split
  · exact h
  · rename_i ticket hticket
    have hlen : (s.calls.eraseIdx k).length + 1 = s.calls.length := by
      obtain ⟨hk, -⟩ := List.getElem?_eq_some_iff.mp hticket
      rw [List.length_eraseIdx_of_lt hk]
      omega
    unfold Room at h ⊢
    dsimp only
    split
    · change s.live_count + (s.calls.eraseIdx k).length ≤ MAX_SESSIONS
      omega
    · rw [live_count_open_session]
      change s.live_count + 1 + (s.calls.eraseIdx k).length ≤ MAX_SESSIONS
      omega

section Runs

variable [Urls]

/-- A call that is let in finds a place that no waiting call may still take. -/
def Admitted (s : DropProtocol) : Act → Prop
  | .create _ _ _ _ | .join _ =>
    s.check_session_capacity = .ok () → s.live_count + s.calls.length < MAX_SESSIONS
  | _ => True

theorem act_room_iff (h : Room s) (a : Act) : Room (s.act a) ↔ Admitted s a := by
  have hmodify (i : SessionId) (f : Opened → Opened)
      (hf : ∀ opened, (f opened).live = true → opened.live = true) :
      Room { s with sessions := s.sessions.modify i f } :=
    (Nat.add_le_add_right (live_count_modify_le hf) _).trans h
  cases a with
  | create options topic_id self_addr key => exact connect_room_iff h _
  | join ticket => exact connect_room_iff h _
  | connected k carrier store => exact iff_of_true (connected_room h k carrier store) trivial
  | cancelled k =>
    refine iff_of_true ?_ trivial
    exact (Nat.add_le_add_left (List.length_eraseIdx_le s.calls k) _).trans h
  | session_step i step => exact iff_of_true (hmodify i _ fun _ hlive => hlive) trivial
  | ended i => exact iff_of_true (hmodify i _ fun _ hlive => by cases hlive) trivial

/-- The carriers of the calls in front come, one after the other. -/
def carriers (store : BlobHash → BlobStatus) (n : Nat) : List Act :=
  List.replicate n (.connected 0 (.ok ()) store)

theorem room_iff_carriers : Room s ↔
    ∀ store n, (s.run (carriers store n)).live_count ≤ MAX_SESSIONS := by
  constructor
  · intro h store n
    have hroom : Room (s.run (carriers store n)) := by
      refine @runs.invariant_of_meets _ _ act Admitted Room
        (fun s a h hok => (act_room_iff h a).mpr hok) s h _ ?_
      induction n generalizing s with
      | zero => trivial
      | succ n ih => exact ⟨trivial, ih (connected_room h 0 (.ok ()) store)⟩
    exact (Nat.le_add_right _ _).trans hroom
  · intro h
    have hall (store : BlobHash → BlobStatus) : ∀ (calls : List DropTicket) (s : DropProtocol),
        s.calls = calls → (s.run (carriers store calls.length)).live_count =
          s.live_count + calls.length := by
      intro calls
      induction calls with
      | nil => exact fun s _ => rfl
      | cons ticket calls ih =>
        intro s hcalls
        have hconnected : s.connected 0 (.ok ()) store =
            { s with calls := calls }.open_session ticket store := by
          unfold connected
          rw [hcalls]
          rfl
        change ((s.connected 0 (.ok ()) store).run (carriers store calls.length)).live_count = _
        rw [hconnected, ih _ rfl, live_count_open_session]
        change s.live_count + 1 + calls.length = _
        rw [List.length_cons]
        omega
    exact (hall (fun _ => .NotFound) s.calls s rfl).symm.le.trans (h _ _)

/-- In every state of a run, however many of the waiting calls get their
carriers, the sessions stay within their cap: exactly when each call that is
let in finds a place that no waiting call may still take. -/
theorem sessions_capped_iff (secret : SecretKey) (policy : DropPolicy) (decider : OfferDecider)
    (acts : List Act) :
    (∀ past, past <+: acts → ∀ store n,
        (((new secret policy decider).run past).run (carriers store n)).live_count ≤
          MAX_SESSIONS) ↔
      runs.Meets act Admitted (new secret policy decider) acts := by
  have hnew : Room (new secret policy decider) := Nat.zero_le _
  have hroom : (∀ past, past <+: acts → Room ((new secret policy decider).run past)) ↔
      runs.Meets act Admitted (new secret policy decider) acts :=
    @runs.invariant_iff_meets _ _ act Admitted Room (fun s a h => act_room_iff h a) _ hnew acts
  rw [← hroom]
  constructor
  · intro h past hpast
    exact room_iff_carriers.mpr (h past hpast)
  · intro h past hpast
    exact room_iff_carriers.mp (h past hpast)

end Runs

/-! ## The registry -/

/-- The registry has sessions that were opened, for the topic that it is
asked for. -/
structure Indexed (s : DropProtocol) : Prop where
  opened : ∀ topic i, s.registry.lookup topic = some i → i < s.sessions.length
  topic : ∀ topic i session, s.registry.lookup topic = some i → s.upgrade i = some session →
    session.topic_id = topic

/-- Every topic with a live session is found. -/
def Served (s : DropProtocol) : Prop :=
  ∀ i session, s.upgrade i = some session → (s.live_sessions session.topic_id).isSome = true

/-- A page for the topic comes from a live session of it. -/
def AnswersFor (s : DropProtocol) (topic : TopicId) : Prop :=
  ∃ i inner, s.upgrade i = some inner ∧ inner.topic_id = topic ∧
    s.live_sessions topic = some inner ∧
    ∀ (request : SyncRequestV1) (peer : EndpointId), request.topic_id = topic.as_bytes →
      sync_page s.live_sessions request peer =
        if serves inner request peer then session_page inner.state request else empty_page

theorem answers_for_iff (hi : Indexed s) (topic : TopicId) :
    s.AnswersFor topic ↔ (s.live_sessions topic).isSome = true := by
  constructor
  · rintro ⟨-, inner, -, -, hfound, -⟩
    exact Option.isSome_of_eq_some hfound
  · intro h
    obtain ⟨inner, hfound⟩ := Option.isSome_iff_exists.mp h
    obtain ⟨i, hlookup, hupgrade⟩ := Option.bind_eq_some_iff.mp hfound
    refine ⟨i, inner, hupgrade, hi.topic topic i inner hlookup hupgrade, hfound, ?_⟩
    intro request peer htopic
    unfold sync_page
    rw [htopic, show (⟨topic.as_bytes⟩ : TopicId) = topic from rfl, hfound]

theorem step_topic (session : Session) (step : Step) :
    (session.step step).topic_id = session.topic_id :=
  congrArg SessionConfig.topic_id (run_extends session [step]).config

theorem indexed_open_session (hi : Indexed s) (ticket : DropTicket)
    (store : BlobHash → BlobStatus) : Indexed (s.open_session ticket store) := by
  have hlen : (s.open_session ticket store).sessions.length = s.sessions.length + 1 :=
    List.length_append
  have hlookup (topic : TopicId) : (s.open_session ticket store).registry.lookup topic =
      if topic = ⟨ticket.V1.topic_id⟩ then some s.sessions.length else s.registry.lookup topic :=
    HashMap.lookup_insert' s.registry ⟨ticket.V1.topic_id⟩ topic _
  constructor
  · intro topic i h
    rw [hlen]
    rw [hlookup] at h
    split at h
    · cases h
      exact Nat.lt_succ_self _
    · exact Nat.lt_succ_of_lt (hi.opened topic i h)
  · intro topic i session h hupgrade
    rw [hlookup] at h
    rw [upgrade_open_session] at hupgrade
    split at h
    · rename_i heq
      cases h
      rw [if_pos rfl] at hupgrade
      cases hupgrade
      exact heq.symm
    · rw [if_neg (hi.opened topic i h).ne] at hupgrade
      exact hi.topic topic i session h hupgrade

theorem served_open_session (hi : Indexed s) (h : Served s) (ticket : DropTicket)
    (store : BlobHash → BlobStatus) : Served (s.open_session ticket store) := by
  have hfound (topic : TopicId) (hother : topic ≠ ⟨ticket.V1.topic_id⟩) :
      (s.open_session ticket store).live_sessions topic = s.live_sessions topic := by
    unfold live_sessions
    change ((s.registry.insert ⟨ticket.V1.topic_id⟩ s.sessions.length).lookup topic).bind _ = _
    rw [HashMap.lookup_insert', if_neg hother]
    rcases hlookup : s.registry.lookup topic with _ | i
    · rfl
    · rw [Option.bind_some, Option.bind_some, upgrade_open_session,
        if_neg (hi.opened topic i hlookup).ne]
  have hnew : ((s.open_session ticket store).live_sessions ⟨ticket.V1.topic_id⟩).isSome = true := by
    unfold live_sessions
    change (((s.registry.insert ⟨ticket.V1.topic_id⟩ s.sessions.length).lookup _).bind _).isSome = _
    rw [HashMap.lookup_insert', if_pos rfl, Option.bind_some, upgrade_open_session, if_pos rfl]
    rfl
  intro i session hupgrade
  by_cases htopic : session.topic_id = ⟨ticket.V1.topic_id⟩
  · rw [htopic]
    exact hnew
  · rw [hfound _ htopic]
    rw [upgrade_open_session] at hupgrade
    split at hupgrade
    · cases hupgrade
      exact absurd rfl htopic
    · exact h i session hupgrade

theorem session_step_served (h : Served s) (i : SessionId) (step : Step) :
    Served (s.session_step i step) := by
  have hfound (topic : TopicId) (hsome : (s.live_sessions topic).isSome = true) :
      ((s.session_step i step).live_sessions topic).isSome = true := by
    obtain ⟨session, hsession⟩ := Option.isSome_iff_exists.mp hsome
    obtain ⟨k, hk, hupgrade⟩ := Option.bind_eq_some_iff.mp hsession
    unfold live_sessions
    change ((s.registry.lookup topic).bind _).isSome = true
    rw [hk, Option.bind_some, upgrade_session_step, hupgrade]
    split <;> rfl
  intro j session hsession
  rw [upgrade_session_step] at hsession
  split at hsession
  · obtain ⟨before, hbefore, rfl⟩ := Option.map_eq_some_iff.mp hsession
    rw [step_topic]
    exact hfound _ (h j before hbefore)
  · exact hfound _ (h j session hsession)

section Runs

variable [Urls]

/-- A session that the registry finds ends only as the last one of its topic. -/
def LastOfTopic (s : DropProtocol) : Act → Prop
  | .ended i => ∀ session, s.upgrade i = some session →
    s.registry.lookup session.topic_id = some i →
      ∀ j other, j ≠ i → s.upgrade j = some other → other.topic_id ≠ session.topic_id
  | _ => True

theorem end_session_served_iff (hi : Indexed s) (h : Served s) (i : SessionId) :
    Served (s.end_session i) ↔ LastOfTopic s (.ended i) := by
  have hfound (topic : TopicId) : (s.end_session i).live_sessions topic =
      if s.registry.lookup topic = some i then none else s.live_sessions topic := by
    unfold live_sessions
    change (s.registry.lookup topic).bind _ = _
    rcases hlookup : s.registry.lookup topic with _ | j
    · rfl
    · rw [Option.bind_some, Option.bind_some, upgrade_end_session]
      simp only [Option.some.injEq]
  constructor
  · intro hserved session hsession hlookup j other hne hother htopic
    have hstays : (s.end_session i).upgrade j = some other := by
      rw [upgrade_end_session, if_neg hne]
      exact hother
    have hlost := hserved j other hstays
    rw [htopic, hfound, if_pos hlookup] at hlost
    cases hlost
  · intro hlast j other hother
    rw [upgrade_end_session] at hother
    split at hother
    · cases hother
    · rename_i hne
      have hbefore := h j other hother
      rw [hfound, if_neg ?_]
      · exact hbefore
      · intro hlookup
        obtain ⟨session, hsession⟩ := Option.isSome_iff_exists.mp hbefore
        obtain ⟨k, hk, hupgrade⟩ := Option.bind_eq_some_iff.mp hsession
        obtain rfl : i = k := Option.some_inj.mp (hlookup.symm.trans hk)
        have htopic := hi.topic _ _ session hk hupgrade
        exact hlast session hupgrade (htopic ▸ hlookup) j other hne hother htopic.symm

theorem act_indexed (hi : Indexed s) (a : Act) : Indexed (s.act a) := by
  have hconnect (ticket : DropTicket) : Indexed ((s.connect ticket).toOption.getD s) := by
    rcases hresult : s.connect ticket with e | s'
    · exact hi
    · obtain ⟨-, rfl⟩ := connect_ok hresult
      exact ⟨hi.opened, hi.topic⟩
  cases a with
  | create options topic_id self_addr key => exact hconnect _
  | join ticket => exact hconnect ticket
  | connected k carrier store =>
    simp only [act, connected]
    split
    · exact hi
    · have hcalls : Indexed { s with calls := s.calls.eraseIdx k } := ⟨hi.opened, hi.topic⟩
      split
      · exact hcalls
      · exact indexed_open_session hcalls _ store
  | cancelled k => exact ⟨hi.opened, hi.topic⟩
  | session_step i step =>
    constructor
    · intro topic j h
      exact (hi.opened topic j h).trans_eq (List.length_modify ..).symm
    · intro topic j session h hupgrade
      change (s.session_step i step).upgrade j = _ at hupgrade
      rw [upgrade_session_step] at hupgrade
      split at hupgrade
      · obtain ⟨before, hbefore, rfl⟩ := Option.map_eq_some_iff.mp hupgrade
        rw [step_topic]
        exact hi.topic topic j before h hbefore
      · exact hi.topic topic j session h hupgrade
  | ended i =>
    constructor
    · intro topic j h
      exact (hi.opened topic j h).trans_eq (List.length_modify ..).symm
    · intro topic j session h hupgrade
      change (s.end_session i).upgrade j = _ at hupgrade
      rw [upgrade_end_session] at hupgrade
      split at hupgrade
      · cases hupgrade
      · exact hi.topic topic j session h hupgrade

theorem act_served_iff (h : Indexed s ∧ Served s) (a : Act) :
    Indexed (s.act a) ∧ Served (s.act a) ↔ LastOfTopic s a := by
  obtain ⟨hi, hserved⟩ := h
  rw [and_iff_right (act_indexed hi a)]
  have hconnect (ticket : DropTicket) : Served ((s.connect ticket).toOption.getD s) := by
    rcases hresult : s.connect ticket with e | s'
    · exact hserved
    · obtain ⟨-, rfl⟩ := connect_ok hresult
      exact hserved
  cases a with
  | create options topic_id self_addr key => exact iff_of_true (hconnect _) trivial
  | join ticket => exact iff_of_true (hconnect ticket) trivial
  | connected k carrier store =>
    refine iff_of_true ?_ trivial
    simp only [act, connected]
    split
    · exact hserved
    · have hcalls : Indexed { s with calls := s.calls.eraseIdx k } := ⟨hi.opened, hi.topic⟩
      split
      · exact hserved
      · exact served_open_session hcalls hserved _ store
  | cancelled k => exact iff_of_true hserved trivial
  | session_step i step => exact iff_of_true (session_step_served hserved i step) trivial
  | ended i => exact end_session_served_iff hi hserved i

/-- In every state of a run each topic with a live session is served from a
live session, exactly when a session that the registry finds ends only as the
last one of its topic. -/
theorem live_topics_served_iff (secret : SecretKey) (policy : DropPolicy) (decider : OfferDecider)
    (acts : List Act) :
    (∀ past, past <+: acts → ∀ i session,
        ((new secret policy decider).run past).upgrade i = some session →
          ((new secret policy decider).run past).AnswersFor session.topic_id) ↔
      runs.Meets act LastOfTopic (new secret policy decider) acts := by
  have hnone (i : SessionId) : (new secret policy decider).upgrade i = none := rfl
  have hnew : Indexed (new secret policy decider) ∧ Served (new secret policy decider) := by
    refine ⟨⟨?_, ?_⟩, ?_⟩
    · intro topic i h
      cases (AList.lookup_empty topic).symm.trans h
    · intro topic i session h _
      cases (AList.lookup_empty topic).symm.trans h
    · intro i session h
      cases (hnone i).symm.trans h
  have hserved : (∀ past, past <+: acts → Indexed ((new secret policy decider).run past) ∧
      Served ((new secret policy decider).run past)) ↔
        runs.Meets act LastOfTopic (new secret policy decider) acts :=
    @runs.invariant_iff_meets _ _ act LastOfTopic (fun s => Indexed s ∧ Served s)
      (fun s a h => act_served_iff h a) _ hnew acts
  have hindexed (past : List Act) : Indexed ((new secret policy decider).run past) :=
    @runs.invariant _ _ act Indexed (fun s a h => act_indexed h a) _ hnew.1 past
  rw [← hserved]
  constructor
  · intro h past hpast
    refine ⟨hindexed past, fun i session hupgrade => ?_⟩
    exact (answers_for_iff (hindexed past) _).mp (h past hpast i session hupgrade)
  · intro h past hpast i session hupgrade
    exact (answers_for_iff (hindexed past) _).mpr ((h past hpast).2 i session hupgrade)

end Runs

end DropProtocol

end Laws

/-! ## One topic, joined again -/

namespace joined_again

local instance : Crypto := Crypto.clear

local instance : Urls := Urls.verbatim

def secret : SecretKey := ⟨.fill 32 1⟩

def ticket : DropTicket := .nodeless (.fill 32 8) none

def store : BlobHash → BlobStatus := fun _ => .NotFound

/-- The topic is joined `n` times, one call after the other. -/
def joins : Nat → List DropProtocol.Act
  | 0 => []
  | n + 1 => .join ticket :: .connected 0 (.ok ()) store :: joins n

/-- Only one session of a topic is counted. -/
theorem joins_pass_the_cap :
    ¬ ∀ [Crypto] [Urls] (secret : SecretKey) (policy : DropPolicy) (decider : OfferDecider)
      (acts : List DropProtocol.Act),
      ((DropProtocol.new secret policy decider).run acts).live_count ≤ MAX_SESSIONS := by
  intro h
  have hcount : ((DropProtocol.new secret {} PolicyDecider).run
      (joins (MAX_SESSIONS + 1))).live_count = MAX_SESSIONS + 1 := by
    decide +kernel
  have hle := h secret {} PolicyDecider (joins (MAX_SESSIONS + 1))
  omega

/-- The newer of two sessions ends, and nothing finds the older one. -/
theorem the_older_session_is_not_found :
    ¬ ∀ [Crypto] [Urls] (secret : SecretKey) (policy : DropPolicy) (decider : OfferDecider)
      (acts : List DropProtocol.Act) (i : SessionId) (session : Session),
      ((DropProtocol.new secret policy decider).run acts).upgrade i = some session →
        ((DropProtocol.new secret policy decider).run acts).AnswersFor session.topic_id := by
  intro h
  have hserved := h secret {} PolicyDecider (joins 2 ++ [.ended 1]) 0
  have hlive : (((DropProtocol.new secret {} PolicyDecider).run
      (joins 2 ++ [.ended 1])).upgrade 0).map (fun session => session.topic_id) =
        some ⟨.fill 32 8⟩ := by
    decide +kernel
  have hnone : (((DropProtocol.new secret {} PolicyDecider).run
      (joins 2 ++ [.ended 1])).live_sessions ⟨.fill 32 8⟩).isSome = false := by
    decide +kernel
  generalize (DropProtocol.new secret {} PolicyDecider).run (joins 2 ++ [.ended 1]) = s
    at hserved hlive hnone
  obtain ⟨session, hsession, htopic⟩ := Option.map_eq_some_iff.mp hlive
  obtain ⟨-, inner, -, -, hfound, -⟩ := hserved session hsession
  rw [htopic] at hfound
  rw [hfound] at hnone
  cases hnone

end joined_again

end iroh_drop
