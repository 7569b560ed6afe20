-- The laws of consent: a question is answered by the UI that it was put to, as
-- long as no client answers the questions of another.
import IrohDrop.Control

open rust_std

namespace iroh_drop

/-- The id that a frame answers, and the answer. -/
def Frame.answer : Frame → Option (UInt64 × Except ApiError Value)
  | .Res id p => some (id, .ok p)
  | .Err id code msg => some (id, .error ⟨code, msg⟩)
  | _ => none

/-- The id and the UI of a question that is on its way, or out. -/
def ConsentTask.asked (self : ConsentTask) : Option (UInt64 × ClientId) :=
  match self.stage with
  | .sending id ui => some (id, ui)
  | .waiting id ui => some (id, ui)
  | _ => none

/-- The UI that a question goes to. -/
def ConsentTask.ui (self : ConsentTask) : Option ClientId :=
  match self.stage with
  | .targeted _ ui => some ui
  | .sending _ ui => some ui
  | .waiting _ ui => some ui
  | _ => none

/-- The question was not put to anybody yet. -/
def ConsentTask.early (self : ConsentTask) : Bool :=
  match self.stage with
  | .start | .asking | .numbered _ | .targeted _ _ => true
  | _ => false

namespace ControlApi

/-! ## What consent is -/

/-- The next frame that the daemon takes from the client is an answer. -/
def Brings (s : ControlApi) (c : ClientId) (id : UInt64) (result : Except ApiError Value) : Prop :=
  ∃ client roles token frame, s.clients[c]? = some client ∧ client.stage = .serving roles token ∧
    client.inbound.head? = some frame ∧ frame.answer = some (id, result)

/-- The question was put to this connection, and is not answered yet. -/
def Asked (s : ControlApi) (k : QuestionId) (id : UInt64) (c : ClientId) : Prop :=
  s.asks.pending.lookup id = some k ∧
    ∃ task, s.consents[k]? = some task ∧ task.asked = some (id, c)

def IsUi (s : ControlApi) (c : ClientId) : Prop :=
  ∃ client, s.clients[c]? = some client ∧ client.has_role .Ui = true

/-- A client that answers a question answers one that was put to it. -/
def Polite (s : ControlApi) (a : Act) : Prop :=
  ∀ c world id result k, a = .serve c world → s.Brings c id result →
    s.asks.pending.lookup id = some k → s.Asked k id c

/-- An answer leaves the questions alone that were put to another connection. -/
def LeavesOthers (s : ControlApi) (a : Act) : Prop :=
  ∀ c world id result k ui, a = .serve c world → s.Brings c id result → s.Asked k id ui → ui ≠ c →
    (s.act a).asks.pending.lookup id = some k

/-- On the way the UI that the question was put to answered it. -/
def AnsweredByUi (s : ControlApi) (acts : List Act) (k : QuestionId) (value : Value) : Prop :=
  ∃ before c world after id, acts = before ++ .serve c world :: after ∧
    (s.run before).Brings c id (.ok value) ∧ (s.run before).Asked k id c ∧ (s.run before).IsUi c

/-- On the way the daemon looked for a UI, was told to accept without one, and
there was none. -/
def AutoAccepted (s : ControlApi) (acts : List Act) (k : QuestionId) : Prop :=
  ∃ before timed_out after task, acts = before ++ .consent k timed_out :: after ∧
    (s.run before).consents[k]? = some task ∧ task.stage = .start ∧
    (s.run before).options.auto_accept = true ∧ (s.run before).has_live_ui = false

/-- The question had a yes. -/
def Consented (s : ControlApi) (acts : List Act) (k : QuestionId) : Prop :=
  s.AutoAccepted acts k ∨ ∃ value, s.AnsweredByUi acts k value ∧ accepts value = true

theorem AnsweredByUi.later {s : ControlApi} {acts : List Act} {k : QuestionId} {value : Value}
    (h : s.AnsweredByUi acts k value) (more : List Act) : s.AnsweredByUi (acts ++ more) k value := by
  obtain ⟨before, c, world, after, id, rfl, hrest⟩ := h
  exact ⟨before, c, world, after ++ more, id, by simp, hrest⟩

theorem Consented.later {s : ControlApi} {acts : List Act} {k : QuestionId}
    (h : s.Consented acts k) (more : List Act) : s.Consented (acts ++ more) k := by
  rcases h with ⟨before, timed_out, after, task, rfl, hrest⟩ | ⟨value, hanswered, haccepts⟩
  · exact .inl ⟨before, timed_out, after ++ more, task, by simp, hrest⟩
  · exact .inr ⟨value, hanswered.later more, haccepts⟩

/-! ## What a frame does -/

/-- What a turn of a connection can do to the questions: nothing, or answer
one that is pending. -/
inductive Served (s : ControlApi) (c : ClientId) : ControlApi → Prop where
  | quiet {s' : ControlApi} (options : s'.options = s.options) (consents : s'.consents = s.consents)
      (pending : s'.asks.pending = s.asks.pending) (roles : ∀ c, s.IsUi c → s'.IsUi c)
      (uis : ∀ ui ∈ s'.asks.uis, ui ∈ s.asks.uis ∨ s'.IsUi ui.2) : Served s c s'
  | answers {client : ClientConn} (id : UInt64) (result : Except ApiError Value)
      (brings : s.Brings c id result) (roles : ∀ c', s.IsUi c' → (s.set_client c client).IsUi c') :
      Served s c ((s.set_client c client).answer id result)

theorem isUi_set {s : ControlApi} {c : ClientId} {client client' : ClientConn}
    (h : s.clients[c]? = some client)
    (hrole : client.has_role .Ui = true → client'.has_role .Ui = true) (c' : ClientId)
    (hui : s.IsUi c') : (s.set_client c client').IsUi c' := by
  obtain ⟨client₁, hclient₁, hrole₁⟩ := hui
  by_cases hsame : c = c'
  · subst hsame
    have heq : client = client₁ := Option.some.inj (h.symm.trans hclient₁)
    subst heq
    refine ⟨client', ?_, hrole hrole₁⟩
    simp [set_client, (List.getElem?_eq_some_iff.mp h).1]
  · exact ⟨client₁, (List.getElem?_set_ne hsame).trans hclient₁, hrole₁⟩

theorem Served.clients {s : ControlApi} {c : ClientId} {client : ClientConn}
    (h : s.clients[c]? = some client) (client' : ClientConn)
    (hrole : client.has_role .Ui = true → client'.has_role .Ui = true) :
    s.Served c (s.set_client c client') :=
  .quiet rfl rfl rfl (isUi_set h hrole) (fun _ hmem => .inl hmem)

theorem push_has_role (client : ClientConn) (frame : Frame) (role : Role) :
    (client.push frame).has_role role = client.has_role role := by
  unfold ClientConn.push
  split <;> rfl

theorem served_disconnect {s : ControlApi} {c : ClientId} {client client' : ClientConn}
    {roles : List Role} (h : s.clients[c]? = some client)
    (hrole : client.has_role .Ui = true → roles.contains .Ui = true) (token : Option UInt64) :
    s.Served c (s.disconnect c client' roles token) := by
  refine .quiet rfl rfl ?_ (isUi_set h hrole) ?_
  · unfold disconnect
    rcases token with _ | token <;> rfl
  · intro ui hmem
    have hkept := (List.mem_filter.mp hmem).1
    rcases token with _ | token
    · exact .inl hkept
    · exact .inl (List.mem_filter.mp hkept).1

theorem served_welcome {s : ControlApi} {c : ClientId} {client client' : ClientConn}
    (h : s.clients[c]? = some client) (hgreeting : client.stage = .greeting) (roles : List Role) :
    s.Served c (s.welcome c client' roles) := by
  have hnone : client.has_role .Ui = false := by simp only [ClientConn.has_role, hgreeting]
  have hrole : ∀ client' : ClientConn, client.has_role .Ui = true → client'.has_role .Ui = true := by
    intro client' hui
    rw [hnone] at hui
    cases hui
  unfold welcome
  split
  · rename_i hui
    refine .quiet rfl rfl rfl (isUi_set h (hrole _)) ?_
    intro ui hmem
    rcases List.mem_append.mp hmem with hold | hnew
    · exact .inl hold
    · refine .inr ⟨{ client' with stage := .serving roles (some s.asks.next_ui) }, ?_, hui⟩
      rw [List.mem_singleton.mp hnew]
      simp [set_client, AskRouter.register_ui, (List.getElem?_eq_some_iff.mp h).1]
  · exact .clients h _ (hrole _)

theorem served_greet {s : ControlApi} {c : ClientId} {client client' : ClientConn}
    (h : s.clients[c]? = some client) (hgreeting : client.stage = .greeting) (world : ServeWorld)
    (frame : Option Frame) : s.Served c (s.greet c client' world frame) := by
  have hnone : client.has_role .Ui = false := by simp only [ClientConn.has_role, hgreeting]
  have hrole : ∀ client' : ClientConn, client.has_role .Ui = true → client'.has_role .Ui = true := by
    intro client' hui
    rw [hnone] at hui
    cases hui
  unfold greet
  split
  · split
    · split
      · exact served_welcome h hgreeting _
      · exact .clients h _ (hrole _)
    · exact .clients h _ (hrole _)
  · exact .clients h _ (hrole _)

theorem served_handle {s : ControlApi} {c : ClientId} {client : ClientConn} {roles : List Role}
    {token : Option UInt64} (h : s.clients[c]? = some client)
    (hstage : client.stage = .serving roles token) (world : ServeWorld) :
    s.Served c (s.handle c { client with inbound := client.inbound.tail } roles token world
      client.inbound.head?) := by
  have hrole : client.has_role .Ui = true → roles.contains .Ui = true := by
    simp only [ClientConn.has_role, hstage]
    exact id
  have hrest : client.has_role .Ui = true →
      { client with inbound := client.inbound.tail }.has_role .Ui = true := id
  unfold handle
  split
  · split
    · refine .clients h _ (fun hui => ?_)
      rw [push_has_role]
      exact hrest hui
    · exact served_disconnect h hrole token
  · rename_i id p hhead
    exact .answers id (.ok p) ⟨client, roles, token, _, h, hstage, hhead, rfl⟩ (isUi_set h hrest)
  · rename_i id code msg hhead
    exact .answers id (.error ⟨code, msg⟩) ⟨client, roles, token, _, h, hstage, hhead, rfl⟩
      (isUi_set h hrest)
  · exact .clients h _ hrest
  · exact served_disconnect h hrole token

theorem served (s : ControlApi) (c : ClientId) (world : ServeWorld) :
    s.Served c (s.serve c world) := by
  have hidle : s.Served c s := .quiet rfl rfl rfl (fun _ hui => hui) (fun _ hmem => .inl hmem)
  unfold serve
  split
  · exact hidle
  · rename_i client hclient
    split
    · exact hidle
    · simp only
      split
      · rename_i hstage
        exact served_greet hclient hstage world _
      · rename_i roles token hstage
        exact served_handle hclient hstage world
      · exact hidle

/-- An answer is taken off the table of pending questions. -/
theorem answered_not_pending {s : ControlApi} {c : ClientId} {id : UInt64}
    {result : Except ApiError Value} (h : s.Brings c id result) (world : ServeWorld) :
    (s.serve c world).asks.pending.lookup id = none := by
  obtain ⟨client, roles, token, frame, hclient, hstage, hhead, hanswer⟩ := h
  have hsome : ¬ (client.inbound.isEmpty ∧ client.inbound_open) := by
    rintro ⟨hempty, -⟩
    rw [List.isEmpty_iff.mp hempty] at hhead
    cases hhead
  have hgone : ∀ (s' : ControlApi) (result : Except ApiError Value),
      (s'.answer id result).asks.pending.lookup id = none := by
    intro s' result
    unfold answer
    split
    · exact (HashMap.lookup_erase' ..).trans (if_pos rfl)
    · rename_i hnone
      exact hnone
  unfold serve
  simp only [hclient, hsome, hstage, hhead, if_false]
  cases frame with
  | Res id' p =>
    cases hanswer
    exact hgone _ _
  | Err id' code msg =>
    cases hanswer
    exact hgone _ _
  | Req | Ask | Ev => cases hanswer

/-! ## What is pending -/

/-- Questions go to connections that said that they are a UI, a pending id
belongs to a question that was put to one and has no answer, and nobody
answers before. -/
structure Wired (s : ControlApi) : Prop where
  uis : ∀ ui ∈ s.asks.uis, s.IsUi ui.2
  asked : ∀ (k : QuestionId) task c, s.consents[k]? = some task → task.ui = some c → s.IsUi c
  pending : ∀ id k, s.asks.pending.lookup id = some k →
    ∃ task c, s.consents[k]? = some task ∧ task.asked = some (id, c) ∧ task.received = none
  fresh : ∀ (k : QuestionId) task, s.consents[k]? = some task → task.early = true →
    task.received = none

theorem asked_ui {task : ConsentTask} {id : UInt64} {c : ClientId}
    (h : task.asked = some (id, c)) : task.ui = some c := by
  unfold ConsentTask.asked at h
  unfold ConsentTask.ui
  split at h
  · rename_i hstage
    simp only [hstage]
    exact congrArg (Option.map Prod.snd) h
  · rename_i hstage
    simp only [hstage]
    exact congrArg (Option.map Prod.snd) h
  · cases h

theorem asked_not_early {task : ConsentTask} {id : UInt64} {c : ClientId}
    (h : task.asked = some (id, c)) : task.early = false := by
  unfold ConsentTask.asked at h
  unfold ConsentTask.early
  split at h
  · rename_i hstage
    simp only [hstage]
  · rename_i hstage
    simp only [hstage]
  · cases h

/-- A pending id was put to a UI. -/
theorem Wired.asked_of_pending {s : ControlApi} (h : s.Wired) {id : UInt64} {k : QuestionId}
    (hpending : s.asks.pending.lookup id = some k) : ∃ c, s.Asked k id c := by
  obtain ⟨task, c, htask, hasked, -⟩ := h.pending id k hpending
  exact ⟨c, hpending, task, htask, hasked⟩

theorem Asked.unique {s : ControlApi} {k : QuestionId} {id : UInt64} {c c' : ClientId}
    (h : s.Asked k id c) (h' : s.Asked k id c') : c = c' := by
  obtain ⟨-, task, htask, hasked⟩ := h
  obtain ⟨-, task', htask', hasked'⟩ := h'
  have heq : task = task' := Option.some.inj (htask.symm.trans htask')
  subst heq
  exact congrArg Prod.snd (Option.some.inj (hasked.symm.trans hasked'))

theorem Wired.asked_isUi {s : ControlApi} (h : s.Wired) {k : QuestionId} {id : UInt64}
    {c : ClientId} (hasked : s.Asked k id c) : s.IsUi c := by
  obtain ⟨-, task, htask, hto⟩ := hasked
  exact h.asked k task c htask (asked_ui hto)

/-- A change that leaves the questions and their ids as they are. -/
theorem Wired.clients {s s' : ControlApi} (h : s.Wired) (hroles : ∀ c, s.IsUi c → s'.IsUi c)
    (huis : ∀ ui ∈ s'.asks.uis, ui ∈ s.asks.uis ∨ s'.IsUi ui.2)
    (hpending : s'.asks.pending = s.asks.pending) (hconsents : s'.consents = s.consents) :
    s'.Wired := by
  constructor
  · intro ui hmem
    rcases huis ui hmem with hold | hnew
    · exact hroles ui.2 (h.uis ui hold)
    · exact hnew
  · intro k task c htask hui
    rw [hconsents] at htask
    exact hroles c (h.asked k task c htask hui)
  · rw [hpending, hconsents]
    exact h.pending
  · rw [hconsents]
    exact h.fresh

/-- One question moves on. -/
theorem Wired.moved {s s' : ControlApi} (h : s.Wired) {k : QuestionId} {task task' : ConsentTask}
    (htask : s.consents[k]? = some task) (hconsents : s'.consents = s.consents.set k task')
    (hroles : ∀ c, s.IsUi c → s'.IsUi c) (huis : ∀ ui ∈ s'.asks.uis, ui ∈ s.asks.uis)
    (hui : ∀ c, task'.ui = some c → s.IsUi c) (hfresh : task'.early = true → task'.received = none)
    (hpending : ∀ id j, s'.asks.pending.lookup id = some j →
      (j = k ∧ (∃ c, task'.asked = some (id, c)) ∧ task'.received = none) ∨
        j ≠ k ∧ s.asks.pending.lookup id = some j) : s'.Wired := by
  have hlt := (List.getElem?_eq_some_iff.mp htask).1
  constructor
  · exact fun ui hmem => hroles ui.2 (h.uis ui (huis ui hmem))
  · intro j t c ht htui
    rw [hconsents] at ht
    by_cases hsame : k = j
    · subst hsame
      rw [List.getElem?_set_self hlt] at ht
      cases ht
      exact hroles c (hui c htui)
    · rw [List.getElem?_set_ne hsame] at ht
      exact hroles c (h.asked j t c ht htui)
  · intro id j hlookup
    rw [hconsents]
    rcases hpending id j hlookup with ⟨rfl, ⟨c, hasked⟩, hnone⟩ | ⟨hother, hold⟩
    · exact ⟨task', c, List.getElem?_set_self hlt, hasked, hnone⟩
    · obtain ⟨t, c, ht, hasked, hnone⟩ := h.pending id j hold
      exact ⟨t, c, (List.getElem?_set_ne (Ne.symm hother)).trans ht, hasked, hnone⟩
  · intro j t ht hearly
    rw [hconsents] at ht
    by_cases hsame : k = j
    · subst hsame
      rw [List.getElem?_set_self hlt] at ht
      cases ht
      exact hfresh hearly
    · rw [List.getElem?_set_ne hsame] at ht
      exact h.fresh j t ht hearly

/-- A question that was not put to anybody has no pending id. -/
theorem Wired.not_pending {s : ControlApi} (h : s.Wired) {k : QuestionId} {task : ConsentTask}
    (htask : s.consents[k]? = some task) (hasked : task.asked = none) (id : UInt64) :
    s.asks.pending.lookup id ≠ some k := by
  intro hlookup
  obtain ⟨t, c, ht, hto, -⟩ := h.pending id k hlookup
  have heq : task = t := Option.some.inj (htask.symm.trans ht)
  subst heq
  rw [hasked] at hto
  cases hto

/-- A question has no pending id but the one that it was put under. -/
theorem Wired.pending_id {s : ControlApi} (h : s.Wired) {k : QuestionId} {task : ConsentTask}
    {id id' : UInt64} {c : ClientId} (htask : s.consents[k]? = some task)
    (hasked : task.asked = some (id, c)) (hlookup : s.asks.pending.lookup id' = some k) :
    id' = id ∧ task.received = none := by
  obtain ⟨t, c', ht, hto, hnone⟩ := h.pending id' k hlookup
  have heq : task = t := Option.some.inj (htask.symm.trans ht)
  subst heq
  exact ⟨congrArg Prod.fst (Option.some.inj (hto.symm.trans hasked)), hnone⟩

/-- An answer comes to the question that waits for it. -/
theorem Wired.answer {s : ControlApi} (h : s.Wired) (id : UInt64) (result : Except ApiError Value) :
    (s.answer id result).Wired := by
  unfold ControlApi.answer
  split
  · rename_i k hlookup
    obtain ⟨task, c, htask, hasked, -⟩ := h.pending id k hlookup
    have hmodify : s.consents.modify k (fun task => { task with received := some result }) =
        s.consents.set k { task with received := some result } := by
      rw [List.modify_eq_set_getElem?, htask]
      rfl
    refine h.moved htask hmodify (fun _ hui => hui) (fun _ hmem => hmem) ?_ ?_ ?_
    · exact fun c' hui => h.asked k task c' htask hui
    · intro hearly
      have hnot : task.early = false := asked_not_early hasked
      exact absurd (hnot.symm.trans hearly) (by decide)
    · intro id' j hlookup'
      rw [HashMap.lookup_erase'] at hlookup'
      split at hlookup'
      · cases hlookup'
      · rename_i hother
        refine .inr ⟨?_, hlookup'⟩
        rintro rfl
        exact hother (h.pending_id htask hasked hlookup').1
  · exact h

theorem Wired.serve {s : ControlApi} (h : s.Wired) (c : ClientId) (world : ServeWorld) :
    (s.serve c world).Wired := by
  have hserved := s.served c world
  generalize s.serve c world = s' at hserved ⊢
  cases hserved with
  | quiet _ consents pending roles uis => exact h.clients roles uis pending consents
  | answers id result _ roles =>
    exact Wired.answer (h.clients roles (fun _ hmem => .inl hmem) rfl rfl) id result

/-- A question that is not pending moves on. -/
theorem Wired.turned {s s' : ControlApi} (h : s.Wired) {k : QuestionId} {task task' : ConsentTask}
    (htask : s.consents[k]? = some task) (hidle : ∀ id, s.asks.pending.lookup id ≠ some k)
    (hconsents : s'.consents = s.consents.set k task') (hclients : s'.clients = s.clients)
    (huis : ∀ ui ∈ s'.asks.uis, ui ∈ s.asks.uis) (hpending : s'.asks.pending = s.asks.pending)
    (hui : ∀ c, task'.ui = some c → s.IsUi c)
    (hfresh : task'.early = true → task'.received = none) : s'.Wired := by
  have hroles : ∀ c, s.IsUi c → s'.IsUi c := by
    intro c hisUi
    unfold IsUi
    rw [hclients]
    exact hisUi
  refine h.moved htask hconsents hroles huis hui hfresh (fun id j hlookup => .inr ?_)
  rw [hpending] at hlookup
  exact ⟨fun hsame => hidle id (hsame ▸ hlookup), hlookup⟩

/-- What is decided is put to nobody any more. -/
theorem decided_over (s : ControlApi) (task : ConsentTask) (answer : Option Value) :
    { task with stage := s.decided answer }.ui = none ∧
      { task with stage := s.decided answer }.early = false := by
  rcases answer with _ | answer
  · exact ⟨rfl, rfl⟩
  · rcases haccepts : accepts answer
    · simp [decided, ConsentTask.ui, ConsentTask.early, haccepts]
    · simp [decided, ConsentTask.ui, ConsentTask.early, haccepts]

/-- A question that is not pending is decided. -/
theorem Wired.decided {s : ControlApi} (h : s.Wired) {k : QuestionId} {task : ConsentTask}
    (htask : s.consents[k]? = some task) (hidle : ∀ id, s.asks.pending.lookup id ≠ some k)
    (answer : Option Value) : (s.set_consent k task (s.decided answer)).Wired := by
  obtain ⟨hui, hearly⟩ := s.decided_over task answer
  refine h.turned htask hidle rfl rfl (fun _ hmem => hmem) rfl (fun c hc => ?_) (fun hc => ?_)
  · rw [hui] at hc
    cases hc
  · rw [hearly] at hc
    cases hc

/-- A question is given up. -/
theorem Wired.given_up {s : ControlApi} (h : s.Wired) {k : QuestionId} {task : ConsentTask}
    {id : UInt64} {c : ClientId} (htask : s.consents[k]? = some task)
    (hasked : task.asked = some (id, c)) :
    ((s.forget_pending id).set_consent k task (s.decided none)).Wired := by
  refine h.moved htask rfl (fun _ hui => hui) (fun _ hmem => hmem) (fun _ hui => nomatch hui)
    (fun hearly => nomatch hearly) (fun id' j hlookup => .inr ?_)
  have hlookup' : (s.asks.pending.erase id).lookup id' = some j := hlookup
  rw [HashMap.lookup_erase'] at hlookup'
  split at hlookup'
  · cases hlookup'
  · rename_i hother
    refine ⟨?_, hlookup'⟩
    rintro rfl
    exact hother (h.pending_id htask hasked hlookup').1

theorem target_mem {asks : AskRouter} {is_closed : ClientId → Bool} {c : ClientId}
    (h : asks.target is_closed = some c) : ∃ token, (token, c) ∈ asks.uis := by
  obtain ⟨⟨token, c'⟩, hfind, rfl⟩ := Option.map_eq_some_iff.mp h
  exact ⟨token, List.mem_reverse.mp (List.mem_of_find?_eq_some hfind)⟩

theorem Wired.consent {s : ControlApi} (h : s.Wired) (k : QuestionId) (timed_out : Bool) :
    (s.consent k timed_out).Wired := by
  unfold ControlApi.consent
  split
  · exact h
  rename_i task htask
  have hsame : ∀ ui ∈ s.asks.uis, ui ∈ s.asks.uis := fun _ hmem => hmem
  split
  · rename_i hstage
    have hidle := h.not_pending htask (by simp only [ConsentTask.asked, hstage])
    have hfresh := h.fresh k task htask (by simp only [ConsentTask.early, hstage])
    split
    · exact h.decided htask hidle _
    · exact h.turned htask hidle rfl rfl hsame rfl (fun _ hui => nomatch hui) (fun _ => hfresh)
  · rename_i hstage
    have hidle := h.not_pending htask (by simp only [ConsentTask.asked, hstage])
    have hfresh := h.fresh k task htask (by simp only [ConsentTask.early, hstage])
    exact h.turned htask hidle rfl rfl (fun _ hmem => (List.mem_filter.mp hmem).1) rfl
      (fun _ hui => nomatch hui) (fun _ => hfresh)
  · rename_i id hstage
    have hidle := h.not_pending htask (by simp only [ConsentTask.asked, hstage])
    have hfresh := h.fresh k task htask (by simp only [ConsentTask.early, hstage])
    split
    · rename_i ui htarget
      obtain ⟨token, hmem⟩ := target_mem htarget
      refine h.turned htask hidle rfl rfl hsame rfl (fun c hui => ?_) (fun _ => hfresh)
      cases hui
      exact h.uis _ hmem
    · exact h.decided htask hidle _
  · rename_i id ui hstage
    have hidle := h.not_pending htask (by simp only [ConsentTask.asked, hstage])
    have hfresh := h.fresh k task htask (by simp only [ConsentTask.early, hstage])
    refine h.moved htask rfl (fun _ hui => hui) hsame (fun c hui => ?_) (fun _ => hfresh)
      (fun id' j hlookup => ?_)
    · cases hui
      exact h.asked k task ui htask (by simp only [ConsentTask.ui, hstage])
    · have hlookup' : (s.asks.pending.insert id k).lookup id' = some j := hlookup
      rw [HashMap.lookup_insert'] at hlookup'
      split at hlookup'
      · rename_i heq
        cases hlookup'
        exact .inl ⟨rfl, ⟨ui, heq ▸ rfl⟩, hfresh⟩
      · exact .inr ⟨fun hj => hidle id' (hj ▸ hlookup'), hlookup'⟩
  · rename_i id ui hstage
    have hasked : task.asked = some (id, ui) := by simp only [ConsentTask.asked, hstage]
    unfold send_question
    split
    · rename_i client hclient
      split
      · refine h.moved htask rfl (isUi_set hclient fun hui => ?_) hsame (fun c hui => ?_)
          (fun hearly => nomatch hearly) (fun id' j hlookup => ?_)
        · rw [push_has_role]
          exact hui
        · cases hui
          exact h.asked k task ui htask (asked_ui hasked)
        · have hlookup' : s.asks.pending.lookup id' = some j := hlookup
          by_cases hj : j = k
          · subst hj
            obtain ⟨rfl, hnone⟩ := h.pending_id htask hasked hlookup'
            exact .inl ⟨rfl, ⟨ui, rfl⟩, hnone⟩
          · exact .inr ⟨hj, hlookup'⟩
      · exact h.given_up htask hasked
    · exact h.given_up htask hasked
  · rename_i id ui hstage
    have hasked : task.asked = some (id, ui) := by simp only [ConsentTask.asked, hstage]
    unfold await_answer
    split
    · rename_i value hreceived
      refine h.decided htask (fun id' hlookup => ?_) _
      have hnone := (h.pending_id htask hasked hlookup).2
      rw [hreceived] at hnone
      cases hnone
    · exact h.given_up htask hasked
    · split
      · exact h.given_up htask hasked
      · exact h
  · exact h
  · exact h

theorem isUi_modify {s : ControlApi} (c : ClientId) {f : ClientConn → ClientConn}
    (hf : ∀ client, (f client).has_role .Ui = client.has_role .Ui) (c' : ClientId)
    (hui : s.IsUi c') : (s.modify_client c f).IsUi c' := by
  obtain ⟨client, hclient, hrole⟩ := hui
  have hget : (s.modify_client c f).clients[c']? = if c = c' then some (f client) else some client := by
    simp only [modify_client, List.getElem?_modify, hclient]
    split <;> rfl
  by_cases hsame : c = c'
  · exact ⟨f client, hget.trans (if_pos hsame), (hf client).trans hrole⟩
  · exact ⟨client, hget.trans (if_neg hsame), hrole⟩

theorem Wired.modify_client {s : ControlApi} (h : s.Wired) (c : ClientId)
    {f : ClientConn → ClientConn} (hf : ∀ client, (f client).has_role .Ui = client.has_role .Ui) :
    (s.modify_client c f).Wired :=
  h.clients (isUi_modify c hf) (fun _ hmem => .inl hmem) rfl rfl

theorem Wired.attach {s : ControlApi} (h : s.Wired) : (s.act .attach).Wired := by
  refine h.clients (fun c hui => ?_) (fun _ hmem => .inl hmem) rfl rfl
  obtain ⟨client, hclient, hrole⟩ := hui
  exact ⟨client, (List.getElem?_append_left (List.getElem?_eq_some_iff.mp hclient).1).trans hclient,
    hrole⟩

/-- The questions that there were, or one that has just come up. -/
theorem spawned {s : ControlApi} {question : Value} {k : QuestionId} {task : ConsentTask}
    (h : (s.act (.spawn_consent question)).consents[k]? = some task) :
    s.consents[k]? = some task ∨ task = { question, stage := .start, received := none } := by
  have happend : (s.consents ++ [_])[k]? = some task := h
  rw [List.getElem?_append] at happend
  split at happend
  · exact .inl happend
  · have hmem := List.mem_of_getElem? happend
    exact .inr (List.mem_singleton.mp hmem)

theorem Wired.spawn_consent {s : ControlApi} (h : s.Wired) (question : Value) :
    (s.act (.spawn_consent question)).Wired := by
  constructor
  · exact h.uis
  · intro k task c htask hui
    rcases spawned htask with hold | rfl
    · exact h.asked k task c hold hui
    · cases hui
  · intro id k hlookup
    obtain ⟨task, c, htask, hrest⟩ := h.pending id k hlookup
    refine ⟨task, c, ?_, hrest⟩
    exact (List.getElem?_append_left (List.getElem?_eq_some_iff.mp htask).1).trans htask
  · intro k task htask hearly
    rcases spawned htask with hold | rfl
    · exact h.fresh k task hold hearly
    · rfl

theorem Wired.act {s : ControlApi} (h : s.Wired) (a : Act) : (s.act a).Wired := by
  cases a with
  | attach => exact h.attach
  | sent c frame =>
    refine h.modify_client c fun client => ?_
    split <;> rfl
  | hung_up c => exact h.modify_client c fun _ => rfl
  | stopped_reading c => exact h.modify_client c fun _ => rfl
  | serve c world => exact h.serve c world
  | spawn_consent question => exact h.spawn_consent question
  | consent k timed_out => exact h.consent k timed_out

theorem wired_new (options : ConsentOptions) : (new options).Wired :=
  ⟨fun _ hmem => (nomatch hmem), fun _ _ _ h => (nomatch h), fun _ _ h => (nomatch h),
    fun _ _ h => (nomatch h)⟩

theorem wired_run (options : ConsentOptions) (acts : List Act) :
    ((new options).run acts).Wired := by
  have hstep : ∀ (s : ControlApi) (a : Act), s.Wired → (s.act a).Wired := fun _ a h => h.act a
  exact runs.invariant hstep (wired_new options) acts

/-- Clients are polite just where their answers leave the questions of others
alone. -/
theorem Wired.polite_iff {s : ControlApi} (h : s.Wired) (a : Act) :
    s.Polite a ↔ s.LeavesOthers a := by
  constructor
  · intro hpolite c world id result k ui ha hbrings hasked hother
    exact absurd (hasked.unique (hpolite c world id result k ha hbrings hasked.1)) hother
  · rintro hleaves c world id result k rfl hbrings hlookup
    obtain ⟨ui, hasked⟩ := h.asked_of_pending hlookup
    by_cases hsame : ui = c
    · exact hsame ▸ hasked
    · have hstill := hleaves c world id result k ui rfl hbrings hasked hsame
      rw [show s.act (.serve c world) = s.serve c world from rfl,
        answered_not_pending hbrings world] at hstill
      cases hstill

/-! ## Where an answer comes from -/

/-- What can turn a question into a fetch. -/
def SaysYes (s : ControlApi) (task : ConsentTask) : Prop :=
  task.stage = .start ∧ s.options.auto_accept = true ∧ s.has_live_ui = false ∨
    ∃ value, task.received = some (.ok value) ∧ accepts value = true

theorem decided_fetching {s : ControlApi} {answer : Option Value} {out : String}
    (h : s.decided answer = .fetching out) : ∃ value, answer = some value ∧ accepts value = true := by
  unfold decided at h
  split at h
  · cases h
  · rename_i value
    split at h
    · rename_i haccepts
      exact ⟨value, rfl, haccepts⟩
    · cases h

/-- What a stretch of the consent flow can do to the questions: nothing, or
one of them moves on. -/
inductive Turned (s : ControlApi) (k : QuestionId) : ControlApi → Prop where
  | idle {s' : ControlApi} (consents : s'.consents = s.consents) : Turned s k s'
  | moves {s' : ControlApi} {task : ConsentTask} (stage : ConsentStage)
      (was : s.consents[k]? = some task) (consents : s'.consents = s.consents.set k { task with stage })
      (yes : ∀ out, stage = .fetching out → s.SaysYes task) : Turned s k s'

theorem turned_given_up {s : ControlApi} {k : QuestionId} {task : ConsentTask}
    (htask : s.consents[k]? = some task) (id : UInt64) :
    s.Turned k ((s.forget_pending id).set_consent k task (s.decided none)) :=
  .moves _ htask rfl (fun _ hstage => nomatch hstage)

theorem turned (s : ControlApi) (k : QuestionId) (timed_out : Bool) :
    s.Turned k (s.consent k timed_out) := by
  unfold consent
  split
  · exact .idle rfl
  rename_i task htask
  split
  · rename_i hstart
    split
    · rename_i hauto
      refine .moves _ htask rfl (fun out _ => .inl ⟨hstart, ?_⟩)
      simpa using hauto
    · exact .moves _ htask rfl (fun _ hstage => nomatch hstage)
  · exact .moves _ htask rfl (fun _ hstage => nomatch hstage)
  · split
    · exact .moves _ htask rfl (fun _ hstage => nomatch hstage)
    · exact .moves _ htask rfl (fun _ hstage => nomatch hstage)
  · exact .moves _ htask rfl (fun _ hstage => nomatch hstage)
  · rename_i id ui _
    unfold send_question
    split
    · split
      · exact .moves _ htask rfl (fun _ hstage => nomatch hstage)
      · exact turned_given_up htask id
    · exact turned_given_up htask id
  · rename_i id _ _
    unfold await_answer
    split
    · rename_i value hvalue
      refine .moves _ htask rfl (fun out hstage => .inr ⟨value, hvalue, ?_⟩)
      obtain ⟨_, heq, haccepts⟩ := decided_fetching hstage
      cases heq
      exact haccepts
    · exact turned_given_up htask id
    · split
      · exact turned_given_up htask id
      · exact .idle rfl
  · exact .idle rfl
  · exact .idle rfl

/-- The questions after a frame was taken: as they were, or one has the answer
that the frame brings. -/
theorem served_task {s s' : ControlApi} {c : ClientId} (h : s.Served c s') {k : QuestionId}
    {task' : ConsentTask} (htask : s'.consents[k]? = some task') :
    ∃ task, s.consents[k]? = some task ∧ task'.stage = task.stage ∧
      (task'.received = task.received ∨ ∃ id result, task'.received = some result ∧
        s.Brings c id result ∧ s.asks.pending.lookup id = some k) := by
  cases h with
  | quiet _ consents => exact ⟨task', consents ▸ htask, rfl, .inl rfl⟩
  | answers id result brings _ =>
    unfold answer at htask
    split at htask
    · rename_i j hlookup
      simp only [List.getElem?_modify, Option.map_eq_map] at htask
      obtain ⟨task, hold, hnew⟩ := Option.map_eq_some_iff.mp htask
      refine ⟨task, hold, ?_⟩
      by_cases hsame : j = k
      · subst hsame
        rw [if_pos rfl] at hnew
        subst hnew
        exact ⟨rfl, .inr ⟨id, result, rfl, brings, hlookup⟩⟩
      · rw [if_neg hsame] at hnew
        subst hnew
        exact ⟨rfl, .inl rfl⟩
    · exact ⟨task', htask, rfl, .inl rfl⟩

/-- The questions after a stretch of the consent flow. -/
theorem turned_task {s s' : ControlApi} {j : QuestionId} (h : s.Turned j s') {k : QuestionId}
    {task' : ConsentTask} (htask : s'.consents[k]? = some task') :
    ∃ task, s.consents[k]? = some task ∧ task'.received = task.received ∧
      (task'.stage = task.stage ∨
        j = k ∧ ∀ out, task'.stage = .fetching out → s.SaysYes task) := by
  cases h with
  | idle consents => exact ⟨task', consents ▸ htask, rfl, .inl rfl⟩
  | @moves task stage was consents yes =>
    rw [consents] at htask
    by_cases hsame : j = k
    · subst hsame
      rw [List.getElem?_set_self (List.getElem?_eq_some_iff.mp was).1] at htask
      cases htask
      exact ⟨task, was, rfl, .inr ⟨rfl, yes⟩⟩
    · rw [List.getElem?_set_ne hsame] at htask
      exact ⟨task', htask, rfl, .inl rfl⟩

/-- An answer that a question has, it had before, or the frame that was just
taken brings it. -/
theorem received_before {s : ControlApi} {a : Act} {k : QuestionId} {task' : ConsentTask}
    {value : Value} (htask : (s.act a).consents[k]? = some task')
    (hvalue : task'.received = some (.ok value)) :
    (∃ task, s.consents[k]? = some task ∧ task.received = some (.ok value)) ∨
      ∃ c world id, a = .serve c world ∧ s.Brings c id (.ok value) ∧
        s.asks.pending.lookup id = some k := by
  cases a with
  | attach | sent | hung_up | stopped_reading => exact .inl ⟨task', htask, hvalue⟩
  | serve c world =>
    obtain ⟨task, hold, -, hsame | ⟨id, result, hresult, hbrings, hlookup⟩⟩ :=
      served_task (s.served c world) htask
    · exact .inl ⟨task, hold, hsame ▸ hvalue⟩
    · cases hresult.symm.trans hvalue
      exact .inr ⟨c, world, id, rfl, hbrings, hlookup⟩
  | spawn_consent question =>
    rcases spawned htask with hold | rfl
    · exact .inl ⟨task', hold, hvalue⟩
    · cases hvalue
  | consent j timed_out =>
    obtain ⟨task, hold, hsame, -⟩ := turned_task (s.turned j timed_out) htask
    exact .inl ⟨task, hold, hsame ▸ hvalue⟩

/-- A fetch that a question started was started before, or the question has
just had its yes. -/
theorem fetching_before {s : ControlApi} {a : Act} {k : QuestionId} {task' : ConsentTask}
    {out : String} (htask : (s.act a).consents[k]? = some task')
    (hstage : task'.stage = .fetching out) :
    (∃ task, s.consents[k]? = some task ∧ task.stage = .fetching out) ∨
      ∃ timed_out task, a = .consent k timed_out ∧ s.consents[k]? = some task ∧ s.SaysYes task := by
  cases a with
  | attach | sent | hung_up | stopped_reading => exact .inl ⟨task', htask, hstage⟩
  | serve c world =>
    obtain ⟨task, hold, hsame, -⟩ := served_task (s.served c world) htask
    exact .inl ⟨task, hold, hsame ▸ hstage⟩
  | spawn_consent question =>
    rcases spawned htask with hold | rfl
    · exact .inl ⟨task', hold, hstage⟩
    · cases hstage
  | consent j timed_out =>
    obtain ⟨task, hold, -, hsame | ⟨rfl, hyes⟩⟩ := turned_task (s.turned j timed_out) htask
    · exact .inl ⟨task, hold, hsame ▸ hstage⟩
    · exact .inr ⟨timed_out, task, rfl, hold, hyes out hstage⟩

/-! ## Runs -/

/-- Every answer came from the UI that was asked, and every fetch had a yes. -/
structure Explained (s : ControlApi) (acts : List Act) : Prop where
  received : ∀ (k : QuestionId) task value, (s.run acts).consents[k]? = some task →
    task.received = some (.ok value) → s.AnsweredByUi acts k value
  fetching : ∀ (k : QuestionId) task out, (s.run acts).consents[k]? = some task →
    task.stage = .fetching out → s.Consented acts k

theorem Explained.act {options : ConsentOptions} {acts : List Act}
    (h : (new options).Explained acts) {a : Act}
    (hpolite : ((new options).run acts).Polite a) : (new options).Explained (acts ++ [a]) := by
  have hrun : (new options).run (acts ++ [a]) = ((new options).run acts).act a := by
    unfold run
    rw [runs.run_append]
    rfl
  constructor
  · intro k task' value htask hvalue
    rw [hrun] at htask
    rcases received_before htask hvalue with ⟨task, hold, hvalue'⟩ | ⟨c, world, id, rfl, hbrings, hlookup⟩
    · exact (h.received k task value hold hvalue').later [a]
    · have hasked := hpolite c world id _ k rfl hbrings hlookup
      exact ⟨acts, c, world, [], id, rfl, hbrings, hasked, (wired_run options acts).asked_isUi hasked⟩
  · intro k task' out htask hstage
    rw [hrun] at htask
    rcases fetching_before htask hstage with ⟨task, hold, hstage'⟩ | ⟨timed_out, task, rfl, hold, hyes⟩
    · exact (h.fetching k task out hold hstage').later [a]
    · rcases hyes with ⟨hstart, hauto, hnone⟩ | ⟨value, hvalue, haccepts⟩
      · exact .inl ⟨acts, timed_out, [], task, rfl, hold, hstart, hauto, hnone⟩
      · exact .inr ⟨value, (h.received k task value hold hvalue).later _, haccepts⟩

theorem explained_of_polite {options : ConsentOptions} {acts : List Act}
    (h : runs.Meets act Polite (new options) acts) : (new options).Explained acts := by
  induction acts using List.reverseRecOn with
  | nil => exact ⟨fun _ _ _ h => (nomatch h), fun _ _ _ h => (nomatch h)⟩
  | append_singleton acts a ih =>
    obtain ⟨hbefore, hpolite, -⟩ := (runs.meets_append _ acts [a]).mp h
    exact (ih hbefore).act hpolite

/-- Consent comes from the UI that was asked, and no other answer counts, just
where no client answers a question that was put to another connection. -/
theorem consent_comes_from_the_asked_iff (options : ConsentOptions) (acts : List Act) :
    ((∀ before a after, acts = before ++ a :: after →
        ((new options).run before).LeavesOthers a) ∧
      ∀ (k : QuestionId) task out, ((new options).run acts).consents[k]? = some task →
        task.stage = .fetching out → (new options).Consented acts k) ↔
    runs.Meets act Polite (new options) acts := by
  constructor
  · rintro ⟨hleaves, -⟩
    refine (runs.meets_iff_split _ _).mpr fun before a after heq => ?_
    exact ((wired_run options before).polite_iff a).mpr (hleaves before a after heq)
  · intro hpolite
    refine ⟨fun before a after heq => ?_, (explained_of_polite hpolite).fetching⟩
    exact ((wired_run options before).polite_iff a).mp
      ((runs.meets_iff_split _ _).mp hpolite before a after heq)

end ControlApi

/-! ## An observer that answers -/

namespace observer_answers

open ControlApi (Act)

def options : ConsentOptions := { auto_accept := false, download_dir := "downloads" }

def world : ServeWorld := { hello_result := .null, hello_error := "", reply := .ok .null }

def hello (role : String) : Frame :=
  .Req 0 "hello" (.object [("client", .string "c"), ("api", .pos_int 1),
    ("roles", .array [.string role])])

/-- An observer and a UI are attached, a question is put to the UI, and the
observer sends a yes under its id. -/
def asked : List Act :=
  [.attach, .sent 0 (hello "observer"), .serve 0 world, .attach, .sent 1 (hello "ui"),
    .serve 1 world, .spawn_consent .null, .consent 0 false, .consent 0 false, .consent 0 false,
    .consent 0 false, .consent 0 false, .sent 0 (.Res 1 (.object [("accept", .bool true)]))]

def control (acts : List Act) : ControlApi := (ControlApi.new options).run acts

/-- The question has started a fetch. -/
def fetches (s : ControlApi) : Bool :=
  s.consents[0]?.any fun task => match task.stage with
    | .fetching _ => true
    | _ => false

theorem brings : (control asked).Brings 0 1 (.ok (.object [("accept", .bool true)])) :=
  ⟨_, _, _, _, rfl, rfl, rfl, rfl⟩

theorem asks_the_ui : (control asked).Asked 0 1 1 := ⟨by decide +kernel, _, rfl, rfl⟩

/-- The answer of the observer starts the fetch that the UI was asked about. -/
theorem an_observer_consents :
    fetches (control (asked ++ [.serve 0 world, .consent 0 false])) = true ∧
      ¬ ∀ (options : ConsentOptions) (acts : List Act),
        (∀ before a after, acts = before ++ a :: after →
          ((ControlApi.new options).run before).LeavesOthers a) ∧
        ∀ (k : QuestionId) task out, ((ControlApi.new options).run acts).consents[k]? = some task →
          task.stage = .fetching out → (ControlApi.new options).Consented acts k := by
  refine ⟨by decide +kernel, fun h => ?_⟩
  have hleaves : (control asked).LeavesOthers (.serve 0 world) :=
    (h options (asked ++ [.serve 0 world])).1 asked _ [] rfl
  have hstill := hleaves 0 world 1 _ 0 1 rfl brings asks_the_ui (by decide)
  have hnone : ((control asked).act (.serve 0 world)).asks.pending.lookup 1 = none :=
    ControlApi.answered_not_pending brings world
  rw [hnone] at hstill
  cases hstill

end observer_answers

end iroh_drop
