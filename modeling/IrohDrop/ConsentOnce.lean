-- The law of consent questions: each offer that somebody else brings into a
-- drop leads to one question, as long as the channel of its session forgets
-- none before the pump of the drop has read it (service.rs).
import IrohDrop.Channels
import IrohDrop.Leaving
import IrohDrop.SessionEvents

open rust_std postcard

namespace iroh_drop

/-- The session of a request that is about to start its pump. -/
def Call.opened_session : Call → Option SessionId
  | .opened i _ => some i
  | _ => none

theorem opened_cons (call : Call) (calls : List Call) :
    (call :: calls).filterMap Call.opened_session =
      call.opened_session.toList ++ calls.filterMap Call.opened_session := by
  rcases h : call.opened_session with _ | i
  · rw [List.filterMap_cons_none h]
    rfl
  · rw [List.filterMap_cons_some h]
    rfl

section Laws

variable [Crypto]

/-! ## What the pumps see -/

/-- What a session has sent, and how much of it its pump is past. -/
structure SessionChannel where
  self_id : EndpointId
  events : List DropEvent
  next : Option Nat

/-- The channel has more to say, and that is all. -/
structure SessionChannel.Grows (a b : SessionChannel) : Prop where
  self_id : b.self_id = a.self_id
  events : a.events <+: b.events
  next : b.next = a.next

theorem SessionChannel.Grows.refl (a : SessionChannel) : a.Grows a :=
  ⟨rfl, List.prefix_refl _, rfl⟩

theorem SessionChannel.Grows.trans {a b c : SessionChannel} (h : a.Grows b) (h' : b.Grows c) :
    a.Grows c :=
  ⟨h'.self_id.trans h.self_id, h.events.trans h'.events, h'.next.trans h.next⟩

theorem grows_trans {a b c : List SessionChannel} (h : List.Forall₂ SessionChannel.Grows a b)
    (h' : List.Forall₂ SessionChannel.Grows b c) : List.Forall₂ SessionChannel.Grows a c := by
  induction h generalizing c with
  | nil => exact h'
  | cons hone _ ih =>
    cases h' with
    | cons hone' hrest' => exact .cons (hone.trans hone') (ih hrest')

/-- The pump reads on from there. -/
def SessionChannel.read_to (self : SessionChannel) (next : Nat) : SessionChannel :=
  { self with next := some next }

def Hosted.channel (self : Hosted) : SessionChannel :=
  { self_id := self.session.self_id, events := self.session.events
    next := self.pump.map Pump.next }

/-- The offers that others brought in, in the order in which the session told
of them. -/
def unsolicited (self_id : EndpointId) (events : List DropEvent) : List (EndpointId × OfferV1) :=
  (told_offers events).filter fun offer => offer.1 ≠ self_id

@[simp] theorem unsolicited_nil (self_id : EndpointId) : unsolicited self_id [] = [] := rfl

@[simp] theorem unsolicited_append (self_id : EndpointId) (events more : List DropEvent) :
    unsolicited self_id (events ++ more) =
      unsolicited self_id events ++ unsolicited self_id more := by
  simp [unsolicited]

namespace Service

variable {s s' : Service}

def channels (self : Service) : List SessionChannel := self.sessions.map Hosted.channel

def opened_sessions (self : Service) : List SessionId := self.calls.filterMap Call.opened_session

theorem channels_get {i : SessionId} {c : SessionChannel} :
    s.channels[i]? = some c ↔
      ∃ hosted : Hosted, s.sessions[i]? = some hosted ∧ hosted.channel = c := by
  rw [channels, List.getElem?_map, Option.map_eq_some_iff]

theorem channels_modify (i : SessionId) {f : Hosted → Hosted}
    (hf : ∀ hosted : Hosted, hosted.channel.Grows (f hosted).channel) :
    List.Forall₂ SessionChannel.Grows s.channels (s.modify i f).channels := by
  refine List.forall₂_iff_get.mpr ⟨by simp [channels, Service.modify], ?_⟩
  intro j hj hj'
  simp only [channels, Service.modify, List.get_eq_getElem, List.getElem_map, List.getElem_modify]
  split
  · exact hf _
  · exact .refl _

/-- A pump moves. -/
theorem channels_pumped {i : SessionId} {c : SessionChannel} {f : Hosted → Hosted} {next : Nat}
    (hi : s.channels[i]? = some c)
    (hf : ∀ hosted, s.sessions[i]? = some hosted → (f hosted).channel = c.read_to next) :
    (s.modify i f).channels = s.channels.set i (c.read_to next) := by
  apply List.ext_getElem?
  intro j
  obtain ⟨hosted, hhosted, hc⟩ := channels_get.mp hi
  have hlt := (List.getElem?_eq_some_iff.mp hi).1
  simp only [channels, Service.modify, List.getElem?_map, List.getElem?_modify, List.getElem?_set]
  by_cases hij : i = j
  · subst hij
    simp [hhosted, hf hosted hhosted]
    simpa [channels] using hlt
  · simp [hij]

end Service

/-! ## The book of questions -/

/-- What became of a question. -/
inductive ConsentOutcome where
  /-- A task fetches the offer. -/
  | fetched (task : String)
  /-- `offer.declined`. -/
  | declined
deriving DecidableEq

/-- The daemon, the questions that were decided, and how much each session had
sent when its pump subscribed. -/
structure ConsentBook where
  service : Service
  decided : List (Consent × ConsentOutcome)
  subscribed : SessionId → Nat

namespace ConsentBook

def new (secret : SecretKey) (policy : DropPolicy) : ConsentBook :=
  { service := .new secret policy, decided := [], subscribed := fun _ => 0 }

/-- What the answer to a question leads to. -/
def outcome (self : ConsentBook) (accept : Bool) : ConsentOutcome :=
  if accept then .fetched s!"t{self.service.next_task}" else .declined

/-- The questions that an act decides. -/
def decides (self : ConsentBook) : Service.Act → List (Consent × ConsentOutcome)
  | .consent_answered k accept =>
    self.service.consents[k]?.toList.map fun consent => (consent, self.outcome accept)
  | _ => []

/-- The session whose pump an act starts. -/
def starts (self : ConsentBook) : Service.Act → Option SessionId
  | .settle k => self.service.calls[k]?.bind Call.opened_session
  | _ => none

def sent (self : ConsentBook) (i : SessionId) : List DropEvent :=
  (self.service.channels[i]?.map SessionChannel.events).getD []

def act [Urls] (self_addr : EndpointAddr) (self : ConsentBook) (a : Service.Act) : ConsentBook :=
  { service := self.service.act self_addr a
    decided := self.decided ++ self.decides a
    subscribed := match self.starts a with
      | some i => Function.update self.subscribed i (self.sent i).length
      | none => self.subscribed }

def run [Urls] (self_addr : EndpointAddr) (self : ConsentBook) (acts : List Service.Act) :
    ConsentBook := runs.run (act self_addr) self acts

/-- All questions that there ever were. -/
def questions (self : ConsentBook) : List Consent :=
  self.decided.map Prod.fst ++ self.service.consents

/-- What questions ask about a session. -/
def about (i : SessionId) (questions : List Consent) : List (EndpointId × OfferV1) :=
  (questions.filter (·.session = i)).map fun consent => (consent.«from», consent.offer)

/-- Where the offers of a session begin to count: with the first one, or with the
first one after its pump subscribed. -/
def counted (self : ConsentBook) (early : Bool) (i : SessionId) : Nat :=
  if early then 0 else self.subscribed i

/-- For each offer of somebody else that a pump is past, there is one question,
out or decided, and there are no others. -/
def AskedOnce (early : Bool) (self : ConsentBook) : Prop :=
  ∀ i c next, self.service.channels[i]? = some c → c.next = some next →
    (about i self.questions).Perm
      (unsolicited c.self_id ((c.events.take next).drop (self.counted early i)))

/-- The offers of others that an act makes a pump pass over: those from before it
subscribed, and those that its channel has forgotten. -/
def passed_over (early : Bool) (self : ConsentBook) (a : Service.Act) :
    List (EndpointId × OfferV1) :=
  match a with
  | .settle k =>
    match self.service.calls[k]?.bind Call.opened_session with
    | some i =>
      match self.service.channels[i]? with
      | some c => if early then unsolicited c.self_id c.events else []
      | none => []
    | none => []
  | .pump i =>
    match self.service.channels[i]? with
    | some ⟨self_id, events, some next⟩ =>
      unsolicited self_id ((events.take (events.length - EVENT_CHANNEL_CAPACITY)).drop next)
    | _ => []
  | _ => []

/-- No offer is passed over. -/
def Hears (early : Bool) (self : ConsentBook) (a : Service.Act) : Prop :=
  self.passed_over early a = []

/-! ## What an act does -/

/-- What is known of every book of a run: a session that has no pump yet is
waited for once, a pump is no further than its channel, and questions are of
sessions with a pump. -/
structure Sound (b : ConsentBook) : Prop where
  opened : b.service.opened_sessions.Nodup
  waiting : ∀ i ∈ b.service.opened_sessions, ∃ c, b.service.channels[i]? = some c ∧ c.next = none
  reading : ∀ i c next, b.service.channels[i]? = some c → c.next = some next →
    b.subscribed i ≤ next ∧ next ≤ c.events.length
  pumped : ∀ question ∈ b.questions, ∃ c, b.service.channels[question.session]? = some c ∧
    c.next.isSome = true

/-- What an act can do to the channels and the questions. `lost` is what it makes
a pump pass over. -/
inductive Effect (early : Bool) (b : ConsentBook) (lost : List (EndpointId × OfferV1))
    (b' : ConsentBook) : Prop where
  | quiet (channels : List.Forall₂ SessionChannel.Grows b.service.channels b'.service.channels)
      (opened : b'.service.opened_sessions.Subperm b.service.opened_sessions)
      (questions : b'.questions.Perm b.questions) (subscribed : b'.subscribed = b.subscribed)
      (none : lost = [])
  | opens (c : SessionChannel) (fresh : c.next = none)
      (channels : b'.service.channels = b.service.channels ++ [c])
      (opened : b'.service.opened_sessions.Perm
        (b.service.channels.length :: b.service.opened_sessions))
      (questions : b'.questions = b.questions) (subscribed : b'.subscribed = b.subscribed)
      (none : lost = [])
  | subscribes (i : SessionId) (c : SessionChannel) (found : b.service.channels[i]? = some c)
      (channels : b'.service.channels = b.service.channels.set i (c.read_to c.events.length))
      (opened : b.service.opened_sessions.Perm (i :: b'.service.opened_sessions))
      (questions : b'.questions = b.questions)
      (subscribed : b'.subscribed = Function.update b.subscribed i c.events.length)
      (early_ones : lost = if early then unsolicited c.self_id c.events else [])
  | reads (i : SessionId) (c : SessionChannel) (next next' : Nat) (asked : List Consent)
      (found : b.service.channels[i]? = some c) (at_next : c.next = some next)
      (ahead : next ≤ next') (there : next' ≤ c.events.length)
      (channels : b'.service.channels = b.service.channels.set i (c.read_to next'))
      (opened : b'.service.opened_sessions = b.service.opened_sessions)
      (questions : b'.questions = b.questions ++ asked)
      (own : ∀ question ∈ asked, question.session = i)
      (subscribed : b'.subscribed = b.subscribed)
      (told : lost ++ about i asked = unsolicited c.self_id ((c.events.take next').drop next))

@[simp] theorem about_append (i : SessionId) (questions more : List Consent) :
    about i (questions ++ more) = about i questions ++ about i more := by
  simp [about]

theorem about_eq_nil {i : SessionId} {questions : List Consent}
    (h : ∀ question ∈ questions, question.session ≠ i) : about i questions = [] := by
  have hnone : questions.filter (·.session = i) = [] := by
    refine List.filter_eq_nil_iff.mpr fun question hquestion => ?_
    simpa using h question hquestion
  rw [about, hnone, List.map_nil]

theorem about_perm {questions more : List Consent} (h : questions.Perm more) (i : SessionId) :
    (about i questions).Perm (about i more) := (h.filter _).map _

/-- What is read on comes after what was read. -/
theorem drop_take_read {events : List DropEvent} {start next next' : Nat} (hstart : start ≤ next)
    (hnext : next ≤ next') :
    (events.take next').drop start =
      (events.take next).drop start ++ (events.take next').drop next := by
  have hsplit : events.take next' = events.take next ++ (events.take next').drop next := by
    conv_lhs => rw [← List.take_append_drop next (events.take next')]
    rw [List.take_take, Nat.min_eq_left hnext]
  by_cases hlen : start ≤ (events.take next).length
  · conv_lhs => rw [hsplit]
    rw [List.drop_append_of_le_length hlen]
  · have hshort : events.length < start := by
      rw [List.length_take] at hlen
      omega
    rw [List.drop_of_length_le (by rw [List.length_take]; omega),
      List.drop_of_length_le (by rw [List.length_take]; omega),
      List.drop_of_length_le (by rw [List.length_take]; omega), List.append_nil]

section Effects

variable {early : Bool} {b b' : ConsentBook} {lost : List (EndpointId × OfferV1)}

theorem grown_at {a b : List SessionChannel} (h : List.Forall₂ SessionChannel.Grows a b)
    {i : SessionId} {c : SessionChannel} (hi : a[i]? = some c) :
    ∃ c', b[i]? = some c' ∧ c.Grows c' := by
  induction h generalizing i with
  | nil => cases hi
  | cons hc _ ih =>
    cases i with
    | zero =>
      cases hi
      exact ⟨_, rfl, hc⟩
    | succ i => exact ih hi

theorem grown_from {a b : List SessionChannel} (h : List.Forall₂ SessionChannel.Grows a b)
    {i : SessionId} {c' : SessionChannel} (hi : b[i]? = some c') :
    ∃ c, a[i]? = some c ∧ c.Grows c' := by
  induction h generalizing i with
  | nil => cases hi
  | cons hc _ ih =>
    cases i with
    | zero =>
      cases hi
      exact ⟨_, rfl, hc⟩
    | succ i => exact ih hi

theorem get_set_cases {l : List SessionChannel} {i j : SessionId} {c c' : SessionChannel}
    (h : (l.set i c)[j]? = some c') : j = i ∧ c' = c ∨ j ≠ i ∧ l[j]? = some c' := by
  by_cases hji : j = i
  · subst hji
    rw [List.getElem?_set_self'] at h
    obtain ⟨-, -, rfl⟩ := Option.map_eq_some_iff.mp h
    exact .inl ⟨rfl, rfl⟩
  · rw [List.getElem?_set_ne (Ne.symm hji)] at h
    exact .inr ⟨hji, h⟩

/-- A pump that starts or moves stops no other. -/
theorem pumped_set {l : List SessionChannel} {i j : SessionId} {c c' : SessionChannel} {next : Nat}
    (hj : l[j]? = some c') (hsome : c'.next.isSome = true) :
    ∃ c₁, (l.set i (c.read_to next))[j]? = some c₁ ∧ c₁.next.isSome = true := by
  by_cases hij : i = j
  · subst hij
    exact ⟨c.read_to next, by simp [(List.getElem?_eq_some_iff.mp hj).1], rfl⟩
  · exact ⟨c', by rw [List.getElem?_set_ne hij, hj], hsome⟩

/-- A session that is waited for has asked nothing. -/
theorem Sound.silent (h : Sound b) {i : SessionId} (hi : i ∈ b.service.opened_sessions) :
    about i b.questions = [] := by
  refine about_eq_nil fun question hquestion heq => ?_
  obtain ⟨c, hc, hsome⟩ := h.pumped question hquestion
  obtain ⟨c', hc', hnone⟩ := h.waiting i hi
  rw [heq, hc'] at hc
  cases hc
  rw [hnone] at hsome
  cases hsome

theorem Sound.counted_le (h : Sound b) {i : SessionId} {c : SessionChannel} {next : Nat}
    (hi : b.service.channels[i]? = some c) (hnext : c.next = some next) :
    b.counted early i ≤ next := by
  unfold counted
  split
  · exact Nat.zero_le _
  · exact (h.reading i c next hi hnext).1

theorem Effect.sound (h : Sound b) (he : Effect early b lost b') : Sound b' := by
  cases he with
  | quiet channels opened questions subscribed none =>
    constructor
    · obtain ⟨l, hperm, hsub⟩ := opened
      exact hperm.nodup_iff.mp (h.opened.sublist hsub)
    · intro i hi
      obtain ⟨c, hc, hnone⟩ := h.waiting i (opened.subset hi)
      obtain ⟨c', hc', hgrows⟩ := grown_at channels hc
      exact ⟨c', hc', hgrows.next.trans hnone⟩
    · intro i c' next hc' hnext
      obtain ⟨c, hc, hgrows⟩ := grown_from channels hc'
      obtain ⟨hfrom, hto⟩ := h.reading i c next hc (hgrows.next.symm.trans hnext)
      rw [subscribed]
      exact ⟨hfrom, hto.trans hgrows.events.length_le⟩
    · intro question hquestion
      obtain ⟨c, hc, hsome⟩ := h.pumped question (questions.subset hquestion)
      obtain ⟨c', hc', hgrows⟩ := grown_at channels hc
      exact ⟨c', hc', by rw [hgrows.next, hsome]⟩
  | opens c fresh channels opened questions subscribed none =>
    have hold : ∀ {i : SessionId} {c₁ : SessionChannel}, b.service.channels[i]? = some c₁ →
        b'.service.channels[i]? = some c₁ := by
      intro i c₁ hi
      rw [channels, List.getElem?_append_left (List.getElem?_eq_some_iff.mp hi).1, hi]
    constructor
    · refine opened.nodup_iff.mpr (List.nodup_cons.mpr ⟨fun hmem => ?_, h.opened⟩)
      obtain ⟨c₁, hc₁, -⟩ := h.waiting _ hmem
      exact absurd (List.getElem?_eq_some_iff.mp hc₁).1 (Nat.lt_irrefl _)
    · intro i hi
      rcases List.mem_cons.mp (opened.subset hi) with rfl | hmem
      · exact ⟨c, by rw [channels]; simp, fresh⟩
      · obtain ⟨c₁, hc₁, hnone⟩ := h.waiting i hmem
        exact ⟨c₁, hold hc₁, hnone⟩
    · intro i c₁ next hi hnext
      rw [subscribed]
      rw [channels] at hi
      by_cases hlt : i < b.service.channels.length
      · rw [List.getElem?_append_left hlt] at hi
        exact h.reading i c₁ next hi hnext
      · rw [List.getElem?_append_right (Nat.le_of_not_lt hlt), List.getElem?_singleton] at hi
        split at hi
        · cases hi
          rw [fresh] at hnext
          cases hnext
        · cases hi
    · intro question hquestion
      rw [questions] at hquestion
      obtain ⟨c₁, hc₁, hsome⟩ := h.pumped question hquestion
      exact ⟨c₁, hold hc₁, hsome⟩
  | subscribes i c found channels opened questions subscribed early_ones =>
    have hnodup := List.nodup_cons.mp (opened.nodup_iff.mp h.opened)
    constructor
    · exact hnodup.2
    · intro j hj
      have hji : j ≠ i := fun heq => hnodup.1 (heq ▸ hj)
      obtain ⟨c₁, hc₁, hnone⟩ := h.waiting j (opened.symm.subset (List.mem_cons_of_mem i hj))
      exact ⟨c₁, by rw [channels, List.getElem?_set_ne hji.symm, hc₁], hnone⟩
    · intro j c₁ next hj hnext
      rw [subscribed]
      rw [channels] at hj
      rcases get_set_cases hj with ⟨rfl, rfl⟩ | ⟨hji, hold⟩
      · cases hnext
        simp [SessionChannel.read_to]
      · rw [Function.update_of_ne hji]
        exact h.reading j c₁ next hold hnext
    · intro question hquestion
      rw [questions] at hquestion
      obtain ⟨c₁, hc₁, hsome⟩ := h.pumped question hquestion
      rw [channels]
      exact pumped_set hc₁ hsome
  | reads i c next next' asked found at_next ahead there channels opened questions own subscribed
      told =>
    constructor
    · rw [opened]
      exact h.opened
    · rw [opened]
      intro j hj
      obtain ⟨c₁, hc₁, hnone⟩ := h.waiting j hj
      have hji : j ≠ i := by
        rintro rfl
        rw [found] at hc₁
        cases hc₁
        rw [at_next] at hnone
        cases hnone
      exact ⟨c₁, by rw [channels, List.getElem?_set_ne hji.symm, hc₁], hnone⟩
    · intro j c₁ next₁ hj hnext
      rw [subscribed]
      rw [channels] at hj
      rcases get_set_cases hj with ⟨rfl, rfl⟩ | ⟨hji, hold⟩
      · cases hnext
        exact ⟨(h.reading j c next found at_next).1.trans ahead, there⟩
      · exact h.reading j c₁ next₁ hold hnext
    · intro question hquestion
      rw [questions] at hquestion
      rw [channels]
      rcases List.mem_append.mp hquestion with hold | hnew
      · obtain ⟨c₁, hc₁, hsome⟩ := h.pumped question hold
        exact pumped_set hc₁ hsome
      · rw [own question hnew]
        exact pumped_set found (by rw [at_next]; rfl)

/-- The questions are the right ones after an act just when it passes over none. -/
theorem Effect.asked_once_iff (h : Sound b) (hasked : AskedOnce early b)
    (he : Effect early b lost b') : AskedOnce early b' ↔ lost = [] := by
  cases he with
  | quiet channels opened questions subscribed none =>
    refine iff_of_true ?_ none
    intro i c' next hc' hnext
    obtain ⟨c, hc, hgrows⟩ := grown_from channels hc'
    have hat : c.next = some next := hgrows.next.symm.trans hnext
    have hread : c'.events.take next = c.events.take next := by
      obtain ⟨more, hmore⟩ := hgrows.events
      rw [← hmore, List.take_append_of_le_length (h.reading i c next hc hat).2]
    have hcounted : b'.counted early i = b.counted early i := by simp only [counted, subscribed]
    rw [hgrows.self_id, hread, hcounted]
    exact (about_perm questions i).trans (hasked i c next hc hat)
  | opens c fresh channels opened questions subscribed none =>
    refine iff_of_true ?_ none
    intro i c₁ next hc₁ hnext
    have hcounted : b'.counted early i = b.counted early i := by simp only [counted, subscribed]
    rw [questions, hcounted]
    rw [channels] at hc₁
    by_cases hlt : i < b.service.channels.length
    · rw [List.getElem?_append_left hlt] at hc₁
      exact hasked i c₁ next hc₁ hnext
    · rw [List.getElem?_append_right (Nat.le_of_not_lt hlt), List.getElem?_singleton] at hc₁
      split at hc₁
      · cases hc₁
        rw [fresh] at hnext
        cases hnext
      · cases hc₁
  | subscribes i c found channels opened questions subscribed early_ones =>
    have hwaited : i ∈ b.service.opened_sessions := opened.symm.subset List.mem_cons_self
    have hmissed : unsolicited c.self_id
        ((c.events.take c.events.length).drop (b'.counted early i)) = lost := by
      rw [early_ones, counted, subscribed, Function.update_self, List.take_length]
      split
      · rw [List.drop_zero]
      · rw [List.drop_length, unsolicited_nil]
    constructor
    · intro hasked'
      have hi := hasked' i (c.read_to c.events.length) c.events.length
        (by rw [channels]; simp [(List.getElem?_eq_some_iff.mp found).1]) rfl
      rw [questions, h.silent hwaited] at hi
      rw [← hmissed]
      exact List.nil_perm.mp hi
    · intro hnone j c₁ next hj hnext
      rw [questions]
      rw [channels] at hj
      rcases get_set_cases hj with ⟨rfl, rfl⟩ | ⟨hji, hold⟩
      · cases hnext
        rw [h.silent hwaited]
        simp only [SessionChannel.read_to]
        rw [hmissed, hnone]
      · have hcounted : b'.counted early j = b.counted early j := by
          simp only [counted, subscribed, Function.update_of_ne hji]
        rw [hcounted]
        exact hasked j c₁ next hold hnext
  | reads i c next next' asked found at_next ahead there channels opened questions own subscribed
      told =>
    have hcounted : ∀ j, b'.counted early j = b.counted early j := by
      intro j
      simp only [counted, subscribed]
    have hold := hasked i c next found at_next
    have hread : unsolicited c.self_id ((c.events.take next').drop (b.counted early i)) =
        unsolicited c.self_id ((c.events.take next).drop (b.counted early i)) ++
          (lost ++ about i asked) := by
      rw [drop_take_read (h.counted_le found at_next) ahead, unsolicited_append, told]
    constructor
    · intro hasked'
      have hi := hasked' i (c.read_to next') next'
        (by rw [channels]; simp [(List.getElem?_eq_some_iff.mp found).1]) rfl
      rw [questions, about_append, hcounted] at hi
      simp only [SessionChannel.read_to] at hi
      rw [hread] at hi
      have hlength := hi.length_eq
      have hlength' := hold.length_eq
      simp only [List.length_append] at hlength
      exact List.eq_nil_of_length_eq_zero (by omega)
    · intro hnone j c₁ next₁ hj hnext
      rw [questions, about_append, hcounted]
      rw [channels] at hj
      rcases get_set_cases hj with ⟨rfl, rfl⟩ | ⟨hji, hstill⟩
      · cases hnext
        simp only [SessionChannel.read_to]
        rw [hread, hnone, List.nil_append]
        exact hold.append_right _
      · have hothers : about j asked = [] :=
          about_eq_nil fun question hquestion heq => hji (heq.symm.trans (own question hquestion))
        rw [hothers, List.append_nil]
        exact hasked j c₁ next₁ hstill hnext

end Effects

/-! ## The effect of each act -/

end ConsentBook

namespace Service

variable {s s' s'' : Service}

/-- A request that ends waits for its session no more. -/
theorem opened_end_call {k : Nat} {call : Call} (hk : s.calls[k]? = some call) :
    s.opened_sessions.Perm (call.opened_session.toList ++ (s.end_call k).opened_sessions) := by
  obtain ⟨hlt, rfl⟩ := List.getElem?_eq_some_iff.mp hk
  have hperm := (List.getElem_cons_eraseIdx_perm hlt).symm.filterMap Call.opened_session
  rwa [opened_cons] at hperm

/-- A request that moves on waits for the session of its new place. -/
theorem opened_set_call {k : Nat} {call : Call} (hk : s.calls[k]? = some call) (call' : Call) :
    (call.opened_session.toList ++ (s.set_call k call').opened_sessions).Perm
      (call'.opened_session.toList ++ s.opened_sessions) := by
  obtain ⟨hlt, rfl⟩ := List.getElem?_eq_some_iff.mp hk
  have hset := (List.set_perm_cons_eraseIdx hlt call').filterMap Call.opened_session
  have hold := (List.getElem_cons_eraseIdx_perm hlt).filterMap Call.opened_session
  rw [opened_cons] at hset hold
  refine (hset.append_left _).trans ?_
  rw [← List.append_assoc]
  refine (List.perm_append_comm.append_right _).trans ?_
  rw [List.append_assoc]
  exact hold.append_left _

/-- No pump moves, and nothing is asked or waited for that was not. -/
structure Still (s s' : Service) : Prop where
  channels : List.Forall₂ SessionChannel.Grows s.channels s'.channels
  opened : s'.opened_sessions.Subperm s.opened_sessions
  consents : s'.consents = s.consents

namespace Still

theorem of_sessions (hsessions : s'.sessions = s.sessions)
    (hopened : s'.opened_sessions.Subperm s.opened_sessions)
    (hconsents : s'.consents = s.consents) : Still s s' := by
  refine ⟨?_, hopened, hconsents⟩
  rw [Service.channels, Service.channels, hsessions]
  exact List.forall₂_same.mpr fun c _ => .refl c

theorem refl (s : Service) : Still s s := of_sessions rfl (List.Subperm.refl _) rfl

theorem trans (h : Still s s') (h' : Still s' s'') : Still s s'' := by
  refine ⟨?_, h'.opened.trans h.opened, h'.consents.trans h.consents⟩
  exact grows_trans h.channels h'.channels

theorem modify (s : Service) (i : SessionId) {f : Hosted → Hosted}
    (hf : ∀ hosted : Hosted, hosted.channel.Grows (f hosted).channel) : Still s (s.modify i f) :=
  ⟨channels_modify i hf, List.Subperm.refl _, rfl⟩

theorem add_call (s : Service) (call : Call) (hcall : call.opened_session = none) :
    Still s { s with calls := s.calls ++ [call] } := by
  refine of_sessions rfl ?_ rfl
  have hnone : [call].filterMap Call.opened_session = [] := by
    rw [List.filterMap_cons_none hcall]
    rfl
  simp only [opened_sessions, List.filterMap_append, hnone, List.append_nil]
  exact List.Subperm.refl _

theorem end_call (s : Service) (k : Nat) : Still s (s.end_call k) := by
  refine of_sessions rfl ?_ rfl
  exact ((List.eraseIdx_sublist s.calls k).filterMap _).subperm

theorem set_call {k : Nat} {call : Call} (hk : s.calls[k]? = some call)
    (hcall : call.opened_session = none) (call' : Call) (hcall' : call'.opened_session = none) :
    Still s (s.set_call k call') := by
  have hperm := opened_set_call hk call'
  rw [hcall, hcall'] at hperm
  exact of_sessions rfl hperm.subperm rfl

theorem kept {result : Except ApiError Service} (h : ∀ s', result = .ok s' → Still s s') :
    Still s (result.toOption.getD s) := by
  rcases result with e | s'
  · exact .refl s
  · exact h s' rfl

theorem connect {ticket : DropTicket} {opening : Opening} (h : s.connect ticket opening = .ok s') :
    Still s s' := by
  unfold Service.connect at h
  split at h
  · cases h
  · cases h
    exact .add_call s _ rfl

theorem drop_join [Urls] {ticket : String} (h : s.drop_join ticket = .ok s') : Still s s' := by
  unfold Service.drop_join at h
  split at h
  · cases h
  · simp only at h
    split at h
    · exact .connect h
    · obtain ⟨entry, -, h⟩ := bind_eq_ok.mp h
      cases h
      exact .of_sessions rfl (List.Subperm.refl _) rfl

theorem drop_leave {handle : String} (h : s.drop_leave handle = .ok s') : Still s s' := by
  obtain ⟨entry, -, h⟩ := bind_eq_ok.mp h
  cases h
  exact (Still.add_call s (.withdrawing handle entry.session) rfl).trans
    (.of_sessions rfl (List.Subperm.refl _) rfl)

end Still

/-- A session that was just opened has no pump. -/
theorem channels_open_session (s : Service) (ticket : DropTicket) (store : BlobHash → BlobStatus)
    (catch_up : Bool) :
    ∃ c : SessionChannel, c.next = none ∧
      (s.open_session ticket store catch_up).channels = s.channels ++ [c] := by
  refine ⟨_, ?_, List.map_append⟩
  rfl

/-- A drop comes into the table, and its pump subscribes. -/
theorem channels_insert_drop {i : SessionId} {c : SessionChannel} (hc : s.channels[i]? = some c)
    (handle : String) (name : Option String) (mine : Bool) :
    (s.insert_drop handle { session := i, name, mine }).channels =
      s.channels.set i (c.read_to c.events.length) := by
  refine channels_pumped (s := { s with drops := _ }) hc ?_
  intro hosted hhosted
  obtain ⟨hosted', hhosted', rfl⟩ := channels_get.mp hc
  rw [show s.sessions[i]? = some hosted from hhosted] at hhosted'
  cases hhosted'
  rfl

/-- A session that is waited for gets its pump. -/
theorem settled {k : Nat} {i : SessionId} {opening : Opening} {c : SessionChannel}
    (hk : s.calls[k]? = some (.opened i opening)) (hc : s.channels[i]? = some c) :
    (s.settle k).channels = s.channels.set i (c.read_to c.events.length) ∧
      s.opened_sessions.Perm (i :: (s.settle k).opened_sessions) ∧
      (s.settle k).consents = s.consents := by
  have hregistered : ∀ handle, s.opened_sessions.Perm
      (i :: (s.set_call k (.registered handle)).opened_sessions) :=
    fun handle => (opened_set_call hk (.registered handle)).symm
  unfold Service.settle
  rw [hk]
  rcases opening with name | name | ⟨handle, name, mine⟩
  · exact ⟨channels_insert_drop hc _ name true, hregistered _, rfl⟩
  · exact ⟨channels_insert_drop hc _ name false, hregistered _, rfl⟩
  · exact ⟨channels_insert_drop hc handle name mine, opened_end_call hk, rfl⟩

/-- The questions that an event starts. -/
def asks (handle : String) (i : SessionId) (self_id : EndpointId) : DropEvent → List Consent
  | .OfferReceived «from» offer =>
    if «from» ≠ self_id then [{ drop := handle, session := i, «from», offer }] else []
  | _ => []

theorem on_session_event_eq (s : Service) (handle : String) (i : SessionId) (self_id : EndpointId)
    (event : DropEvent) : s.on_session_event handle i self_id event =
      { s with consents := s.consents ++ asks handle i self_id event } := by
  unfold on_session_event asks
  cases event with
  | OfferReceived «from» offer =>
    simp only
    split
    · rfl
    · simp only [List.append_nil]
  | _ => simp only [List.append_nil]

theorem asks_session {handle : String} {i : SessionId} {self_id : EndpointId} {event : DropEvent} :
    ∀ question ∈ asks handle i self_id event, question.session = i := by
  intro question hquestion
  unfold asks at hquestion
  split at hquestion
  · split at hquestion
    · rw [List.mem_singleton.mp hquestion]
    · cases hquestion
  · cases hquestion

/-- The pump is past this many events. -/
def advanced (self : Service) (i : SessionId) (pump : Pump) (next : Nat) : Service :=
  self.modify i fun hosted => { hosted with pump := some { pump with next } }

/-- A turn of a pump finds a gap, an event, or nothing. It owns the session, so
its channel is open. -/
theorem pump_cases {i : SessionId} {hosted : Hosted} {pump : Pump}
    (hhosted : s.sessions[i]? = some hosted) (hpump : hosted.pump = some pump)
    (hle : pump.next ≤ hosted.session.events.length) :
    (s.pump i = s.advanced i pump
        (still_from EVENT_CHANNEL_CAPACITY hosted.session.events pump.next) ∧
      pump.next < still_from EVENT_CHANNEL_CAPACITY hosted.session.events pump.next) ∨
    (∃ event, s.pump i = (s.advanced i pump (pump.next + 1)).on_session_event pump.handle i
          hosted.session.self_id event ∧
        hosted.session.events[pump.next]? = some event ∧
        still_from EVENT_CHANNEL_CAPACITY hosted.session.events pump.next = pump.next) ∨
    (s.pump i = s ∧ pump.next = hosted.session.events.length) := by
  have hlive : s.live i = true := by
    refine Hosting.live_of_pump ?_
    unfold has_pump
    rw [hhosted, Option.any_some, hpump]
    rfl
  unfold Service.pump
  simp only [hhosted, hpump, hlive, Bool.not_true]
  rcases broadcast_recv_cases EVENT_CHANNEL_CAPACITY hle with
    ⟨missed, hrecv, hgap⟩ | ⟨event, hrecv, hevent, hfrom⟩ | ⟨hrecv, hend⟩
  · rw [hrecv]
    exact .inl ⟨rfl, hgap⟩
  · rw [hrecv]
    exact .inr (.inl ⟨event, rfl, hevent, hfrom⟩)
  · rw [hrecv]
    exact .inr (.inr ⟨rfl, hend⟩)

/-- A step of a session is more that it says. -/
theorem grows_step (hosted : Hosted) (step : Step) (tasks : List (Internal × Bool)) :
    hosted.channel.Grows { hosted with session := hosted.session.step step, tasks }.channel := by
  obtain ⟨added, hadded, -⟩ := hosted.session.step_tells step
  have hconfig := (step_extends hosted.session step).config
  refine ⟨?_, ⟨added, hadded.symm⟩, rfl⟩
  simp only [Hosted.channel, Session.self_id, hconfig]

end Service

namespace ConsentBook

variable {early : Bool} {b : ConsentBook}

/-- An act that nothing is decided by and no pump moves in. -/
theorem effect_of_still [Urls] {self_addr : EndpointAddr} {a : Service.Act}
    (hdecides : b.decides a = []) (hstarts : b.starts a = none)
    (hstill : Service.Still b.service (b.service.act self_addr a)) :
    Effect early b [] (b.act self_addr a) := by
  refine .quiet hstill.channels hstill.opened ?_ ?_ rfl
  · simp only [questions, act, hdecides, List.append_nil, hstill.consents]
    exact List.Perm.refl _
  · simp only [act, hstarts]

theorem effect_connected [Urls] (self_addr : EndpointAddr) (k : Nat)
    (carrier : Except String Unit) (store : BlobHash → BlobStatus) :
    Effect early b [] (b.act self_addr (.connected k carrier store)) := by
  have hidle : b.service.act self_addr (.connected k carrier store) = b.service →
      Effect early b [] (b.act self_addr (.connected k carrier store)) := by
    intro hsame
    exact effect_of_still rfl rfl (by rw [hsame]; exact .refl _)
  rcases hcall : b.service.calls[k]? with _ | call
  · exact hidle (by simp only [Service.act, Service.connected, hcall])
  cases call with
  | connecting ticket opening =>
    rcases carrier with e | u
    · refine effect_of_still rfl rfl ?_
      simp only [Service.act, Service.connected, hcall]
      exact .end_call _ k
    · have hservice : ∃ catch_up, b.service.act self_addr (.connected k (.ok u) store) =
          (b.service.set_call k (.opened b.service.sessions.length opening)).open_session ticket
            store catch_up := by
        simp only [Service.act]
        unfold Service.connected
        rw [hcall]
        exact ⟨_, rfl⟩
      obtain ⟨catch_up, hservice⟩ := hservice
      have hopened := Service.opened_set_call hcall (.opened b.service.sessions.length opening)
      obtain ⟨c, hfresh, hchannels⟩ := Service.channels_open_session
        (b.service.set_call k (.opened b.service.sessions.length opening)) ticket store catch_up
      refine .opens c hfresh ?_ ?_ ?_ rfl rfl
      · simp only [act, hservice, hchannels]
        rfl
      · simp only [act, hservice]
        rw [Service.channels, List.length_map]
        exact hopened
      · simp only [questions, act, hservice, decides, List.append_nil]
        rfl
  | _ => exact hidle (by simp only [Service.act, Service.connected, hcall])

theorem effect_settle [Urls] (h : Sound b) (self_addr : EndpointAddr) (k : Nat) :
    Effect early b (b.passed_over early (.settle k)) (b.act self_addr (.settle k)) := by
  rcases hwaits : b.service.calls[k]?.bind Call.opened_session with _ | i
  · have hnone : b.passed_over early (.settle k) = [] := by simp only [passed_over, hwaits]
    have hsame : b.service.settle k = b.service := by
      unfold Service.settle
      split
      all_goals first
        | rfl
        | (rename_i hk
           rw [hk] at hwaits
           cases hwaits)
    rw [hnone]
    exact effect_of_still rfl (by simp only [starts, hwaits])
      (by simp only [Service.act, hsame]; exact .refl _)
  · obtain ⟨call, hk, hcall⟩ := Option.bind_eq_some_iff.mp hwaits
    cases call with
    | opened j opening =>
      cases hcall
      have hmem : i ∈ b.service.opened_sessions :=
        List.mem_filterMap.mpr ⟨_, List.mem_of_getElem? hk, rfl⟩
      obtain ⟨c, hc, hnone⟩ := h.waiting i hmem
      have hsettled := Service.settled hk hc
      refine .subscribes i c hc hsettled.1 hsettled.2.1 ?_ ?_ ?_
      · simp only [questions, act, decides, List.append_nil, Service.act, hsettled.2.2]
      · simp only [act, starts, hwaits, sent, hc]
        rfl
      · simp only [passed_over, hwaits, hc]
    | _ => cases hcall

theorem effect_consent_answered [Urls] (self_addr : EndpointAddr) (k : Nat) (accept : Bool) :
    Effect early b [] (b.act self_addr (.consent_answered k accept)) := by
  rcases hk : b.service.consents[k]? with _ | consent
  · refine effect_of_still ?_ rfl ?_
    · simp only [decides, hk]
      rfl
    · simp only [Service.act, Service.consent_answered, hk]
      exact .refl _
  · obtain ⟨hlt, rfl⟩ := List.getElem?_eq_some_iff.mp hk
    have hsame : (b.service.consent_answered k accept).sessions = b.service.sessions ∧
        (b.service.consent_answered k accept).calls = b.service.calls ∧
        (b.service.consent_answered k accept).consents = b.service.consents.eraseIdx k := by
      simp only [Service.consent_answered, hk]
      split
      · exact ⟨rfl, rfl, rfl⟩
      · exact ⟨rfl, rfl, rfl⟩
    obtain ⟨hsessions, hcalls, hconsents⟩ := hsame
    refine .quiet ?_ ?_ ?_ rfl rfl
    · simp only [act, Service.act, Service.channels, hsessions]
      exact List.forall₂_same.mpr fun c _ => .refl c
    · simp only [act, Service.act, Service.opened_sessions, hcalls]
      exact List.Subperm.refl _
    · simp only [questions, act, Service.act, hconsents, decides, hk, Option.toList_some,
        List.map_cons, List.map_nil, List.map_append, List.append_assoc, List.singleton_append]
      exact (List.getElem_cons_eraseIdx_perm hlt).append_left _

theorem about_asks (handle : String) (i : SessionId) (self_id : EndpointId) (event : DropEvent) :
    about i (Service.asks handle i self_id event) = unsolicited self_id [event] := by
  cases event with
  | OfferReceived «from» offer =>
    by_cases hown : «from» = self_id
    · simp [Service.asks, about, unsolicited, told_offers, hown]
    · simp [Service.asks, about, unsolicited, told_offers, hown]
  | _ => rfl

theorem effect_pump [Urls] (h : Sound b) (self_addr : EndpointAddr) (i : SessionId) :
    Effect early b (b.passed_over early (.pump i)) (b.act self_addr (.pump i)) := by
  have hidle : b.passed_over early (.pump i) = [] → b.service.pump i = b.service →
      Effect early b (b.passed_over early (.pump i)) (b.act self_addr (.pump i)) := by
    intro hnone hsame
    rw [hnone]
    exact effect_of_still rfl rfl (by simp only [Service.act, hsame]; exact .refl _)
  rcases hhosted : b.service.sessions[i]? with _ | hosted
  · have hchannel : b.service.channels[i]? = none := by
      rw [Service.channels, List.getElem?_map, hhosted, Option.map_none]
    exact hidle (by simp only [passed_over, hchannel]) (by simp only [Service.pump, hhosted])
  have hchannel : b.service.channels[i]? = some hosted.channel :=
    Service.channels_get.mpr ⟨hosted, hhosted, rfl⟩
  rcases hpump : hosted.pump with _ | pump
  · refine hidle ?_ (by simp only [Service.pump, hhosted, hpump])
    simp only [passed_over, hchannel, Hosted.channel, hpump, Option.map_none]
  have hnext : hosted.channel.next = some pump.next := by
    simp only [Hosted.channel, hpump, Option.map_some]
  have hover : b.passed_over early (.pump i) = unsolicited hosted.session.self_id
      ((hosted.session.events.take (hosted.session.events.length - EVENT_CHANNEL_CAPACITY)).drop
        pump.next) := by
    simp only [passed_over, hchannel, Hosted.channel, hpump, Option.map_some]
  have hle : pump.next ≤ hosted.session.events.length := (h.reading i _ _ hchannel hnext).2
  have hmoved : ∀ next, (b.service.advanced i pump next).channels =
      b.service.channels.set i (hosted.channel.read_to next) := by
    intro next
    refine Service.channels_pumped hchannel fun hosted' hhosted' => ?_
    rw [hhosted] at hhosted'
    cases hhosted'
    rfl
  rcases Service.pump_cases hhosted hpump hle with
    ⟨hservice, hgap⟩ | ⟨event, hservice, hevent, hfrom⟩ | ⟨hservice, hend⟩
  · have hlast : still_from EVENT_CHANNEL_CAPACITY hosted.session.events pump.next =
        hosted.session.events.length - EVENT_CHANNEL_CAPACITY := by
      unfold still_from at hgap ⊢
      omega
    refine .reads i hosted.channel pump.next _ [] hchannel hnext (Nat.le_of_lt hgap)
      (still_from_le _ hle) ?_ ?_ ?_ (fun _ hnone => by cases hnone) rfl ?_
    · simp only [act, Service.act, hservice, hmoved]
    · simp only [act, Service.act, hservice]
      rfl
    · simp only [questions, act, Service.act, hservice, decides, List.append_nil]
      rfl
    · rw [hover, ← hlast]
      exact List.append_nil _
  · have hforgot : hosted.session.events.length - EVENT_CHANNEL_CAPACITY ≤ pump.next := by
      unfold still_from at hfrom
      omega
    have hnone : b.passed_over early (.pump i) = [] := by
      rw [hover, List.drop_of_length_le (by rw [List.length_take]; omega), unsolicited_nil]
    have hlt := (List.getElem?_eq_some_iff.mp hevent).1
    have hone : (hosted.session.events.take (pump.next + 1)).drop pump.next = [event] := by
      have hlength : (hosted.session.events.take pump.next).length = pump.next := by
        rw [List.length_take]
        omega
      rw [List.take_add_one, hevent, List.drop_append_of_le_length (by omega),
        List.drop_of_length_le (by omega)]
      rfl
    rw [Service.on_session_event_eq] at hservice
    refine .reads i hosted.channel pump.next (pump.next + 1)
      (Service.asks pump.handle i hosted.session.self_id event) hchannel hnext (Nat.le_succ _) hlt
      ?_ ?_ ?_ Service.asks_session rfl ?_
    · simp only [act, Service.act, hservice]
      exact hmoved _
    · simp only [act, Service.act, hservice]
      rfl
    · simp only [questions, act, Service.act, hservice, decides, List.append_nil]
      exact (List.append_assoc ..).symm
    · rw [hnone, List.nil_append, about_asks]
      exact (congrArg (unsolicited hosted.session.self_id) hone).symm
  · refine hidle ?_ hservice
    rw [hover, List.drop_of_length_le (by rw [List.length_take]; omega), unsolicited_nil]

theorem effect_act [Urls] (early : Bool) (h : Sound b) (self_addr : EndpointAddr)
    (a : Service.Act) : Effect early b (b.passed_over early a) (b.act self_addr a) := by
  cases a with
  | connected k carrier store => exact effect_connected self_addr k carrier store
  | settle k => exact effect_settle h self_addr k
  | consent_answered k accept => exact effect_consent_answered self_addr k accept
  | pump i => exact effect_pump h self_addr i
  | drop_create options topic_id key =>
    exact effect_of_still rfl rfl (.kept fun s' h => .connect h)
  | drop_join ticket => exact effect_of_still rfl rfl (.kept fun s' h => .drop_join h)
  | restore_drop ticket handle name mine =>
    exact effect_of_still rfl rfl (.kept fun s' h => .connect h)
  | answer k =>
    refine effect_of_still rfl rfl ?_
    simp only [Service.act, Service.answered]
    split
    · exact .end_call _ k
    · exact .refl _
  | drop_leave handle => exact effect_of_still rfl rfl (.kept fun s' h => .drop_leave h)
  | withdraw k announced_at_ms draws =>
    refine effect_of_still rfl rfl ?_
    simp only [Service.act, Service.withdraw]
    split
    · rename_i handle i hk
      have hsaid : Service.Still b.service
          (b.service.update_session i (·.announce_withdrawal announced_at_ms draws)) :=
        .modify _ i fun hosted =>
          Service.grows_step hosted (.announce_withdrawal announced_at_ms draws) hosted.tasks
      have htaken := hsaid.trans (Service.Still.modify _ i
        (f := fun hosted => { hosted with tasks := hosted.tasks.map fun task => (task.1, true) })
        fun hosted => .refl _)
      have hstill : ∀ s : Service, s.calls = b.service.calls →
          Service.Still s (s.set_call k (.stopping handle i)) := by
        intro s hcalls
        exact .set_call (by rw [hcalls, hk]) rfl _ rfl
      exact htaken.trans (hstill _ rfl)
    · exact .refl _
  | stop k =>
    refine effect_of_still rfl rfl ?_
    simp only [Service.act, Service.stop]
    split
    · split
      · exact .refl _
      · exact (Service.Still.end_call _ k).trans (.of_sessions rfl (List.Subperm.refl _) rfl)
    · exact .refl _
  | offer_publish handle =>
    refine effect_of_still rfl rfl (.kept fun s' h => ?_)
    obtain ⟨entry, -, h⟩ := bind_eq_ok.mp h
    cases h
    exact .of_sessions rfl (List.Subperm.refl _) rfl
  | offer_fetch handle hash =>
    refine effect_of_still rfl rfl (.kept fun s' h => ?_)
    obtain ⟨entry, -, h⟩ := bind_eq_ok.mp h
    obtain ⟨hash, -, h⟩ := bind_eq_ok.mp h
    cases h
    exact .of_sessions rfl (List.Subperm.refl _) rfl
  | session_step i step =>
    refine effect_of_still rfl rfl ?_
    simp only [Service.act, Service.session_step]
    split
    · exact .modify _ i fun hosted => Service.grows_step hosted step _
    · exact .refl _
  | internal_ended i k =>
    exact effect_of_still rfl rfl (.modify _ i fun hosted => .refl _)
  | work_ended k => exact effect_of_still rfl rfl (.of_sessions rfl (List.Subperm.refl _) rfl)
  | rejoin_ended k => exact effect_of_still rfl rfl (.of_sessions rfl (List.Subperm.refl _) rfl)

/-! ## Runs -/

theorem sound_new (secret : SecretKey) (policy : DropPolicy) : Sound (.new secret policy) := by
  constructor
  · exact List.nodup_nil
  · intro i hi
    cases hi
  · intro i c next hi
    cases hi
  · intro question hquestion
    cases hquestion

theorem askedOnce_new (secret : SecretKey) (policy : DropPolicy) :
    AskedOnce early (.new secret policy) := by
  intro i c next hi
  cases hi

/-- One act keeps the questions right just when it passes over no offer. -/
theorem act_asked_once_iff [Urls] (self_addr : EndpointAddr) (h : Sound b) (a : Service.Act)
    (hasked : AskedOnce early b) : AskedOnce early (b.act self_addr a) ↔ Hears early b a :=
  (effect_act early h self_addr a).asked_once_iff h hasked

theorem run_asked_once_iff [Urls] (self_addr : EndpointAddr) (secret : SecretKey)
    (policy : DropPolicy) (acts : List Service.Act) :
    (∀ past, past <+: acts → AskedOnce early (run self_addr (.new secret policy) past)) ↔
      runs.Meets (act self_addr) (Hears early) (.new secret policy) acts := by
  have hall : runs.Meets (act self_addr) (fun _ _ => True) (.new secret policy) acts :=
    (runs.meets_iff_split _ _).mpr fun _ _ _ _ => trivial
  exact runs.invariant_iff_meets_of (fun b a h => (effect_act early h self_addr a).sound h)
    (fun b a h hasked _ => act_asked_once_iff self_addr h a hasked) (sound_new secret policy)
    (askedOnce_new secret policy) hall

/-! ## Questions that come to an end -/

/-- Where a turn of a pump ends that has something to read. -/
def after_turn (c : SessionChannel) (next : Nat) : Nat :=
  if next + EVENT_CHANNEL_CAPACITY < c.events.length then
    c.events.length - EVENT_CHANNEL_CAPACITY
  else next + 1

theorem pump_turns [Urls] (self_addr : EndpointAddr) {i : SessionId} {c : SessionChannel}
    {next : Nat} (hi : b.service.channels[i]? = some (c.read_to next))
    (hlt : next < c.events.length) :
    (b.act self_addr (.pump i)).service.channels[i]? =
      some (c.read_to (after_turn c next)) := by
  obtain ⟨hosted, hhosted, hchannel⟩ := Service.channels_get.mp hi
  obtain ⟨-, hevents, hpumped⟩ := SessionChannel.mk.inj hchannel
  obtain ⟨pump, hpump, rfl⟩ := Option.map_eq_some_iff.mp hpumped
  have hmoved : ∀ next, (b.service.advanced i pump next).channels[i]? = some (c.read_to next) := by
    intro next
    have hset : (b.service.advanced i pump next).channels =
        b.service.channels.set i ((c.read_to pump.next).read_to next) := by
      refine Service.channels_pumped hi fun hosted' hhosted' => ?_
      rw [hhosted] at hhosted'
      cases hhosted'
      rw [← hchannel]
      rfl
    rw [hset]
    exact List.getElem?_set_self (List.getElem?_eq_some_iff.mp hi).1
  unfold after_turn
  rcases Service.pump_cases hhosted hpump (by rw [hevents]; omega) with
    ⟨hservice, hgap⟩ | ⟨event, hservice, -, hfrom⟩ | ⟨-, hend⟩
  · unfold still_from at hservice hgap
    rw [hevents] at hservice hgap
    rw [if_pos (by omega)]
    have hlast : max pump.next (c.events.length - EVENT_CHANNEL_CAPACITY) =
        c.events.length - EVENT_CHANNEL_CAPACITY := by omega
    rw [hlast] at hservice
    simp only [act, Service.act, hservice]
    exact hmoved _
  · unfold still_from at hfrom
    rw [hevents] at hfrom
    rw [if_neg (by omega)]
    rw [Service.on_session_event_eq] at hservice
    simp only [act, Service.act, hservice]
    exact hmoved _
  · rw [hevents] at hend
    omega

/-- A pump that is not behind passes over nothing. -/
theorem hears_near {i : SessionId} {c : SessionChannel} {next : Nat}
    (hi : b.service.channels[i]? = some (c.read_to next))
    (hroom : c.events.length ≤ next + EVENT_CHANNEL_CAPACITY) : Hears early b (.pump i) := by
  simp only [Hears, passed_over, hi, SessionChannel.read_to]
  rw [List.drop_of_length_le (by rw [List.length_take]; omega), unsolicited_nil]

/-- A pump that is not behind comes to the end of its channel. -/
theorem pumps_reach [Urls] (early : Bool) (self_addr : EndpointAddr) {i : SessionId}
    {c : SessionChannel} (n : Nat) :
    ∀ {b : ConsentBook} {next : Nat}, b.service.channels[i]? = some (c.read_to next) →
      next + n = c.events.length → n ≤ EVENT_CHANNEL_CAPACITY →
      ∃ more, runs.Meets (act self_addr) (Hears early) b more ∧
        (b.run self_addr more).service.channels[i]? = some (c.read_to c.events.length) ∧
        (b.run self_addr more).subscribed = b.subscribed := by
  induction n with
  | zero =>
    intro b next hi hlength _
    refine ⟨[], trivial, ?_, rfl⟩
    rwa [← hlength, Nat.add_zero]
  | succ n ih =>
    intro b next hi hlength hroom
    have hread := pump_turns self_addr hi (by omega)
    rw [after_turn, if_neg (by omega)] at hread
    have hhears : Hears early b (.pump i) := hears_near hi (by omega)
    obtain ⟨more, hmeets, hchannel, hsubscribed⟩ := ih hread (by omega) (by omega)
    exact ⟨.pump i :: more, ⟨hhears, hmeets⟩, hchannel, hsubscribed⟩

/-- The questions that are out can all be decided. -/
theorem answers_reach [Urls] (early : Bool) (self_addr : EndpointAddr) (n : Nat) :
    ∀ {b : ConsentBook}, b.service.consents.length = n →
      ∃ more, runs.Meets (act self_addr) (Hears early) b more ∧
        (b.run self_addr more).service.consents = [] ∧
        (b.run self_addr more).service.channels = b.service.channels ∧
        (b.run self_addr more).subscribed = b.subscribed := by
  induction n with
  | zero =>
    intro b hlength
    exact ⟨[], trivial, List.eq_nil_of_length_eq_zero hlength, rfl, rfl⟩
  | succ n ih =>
    intro b hlength
    obtain ⟨consent, rest, hconsents⟩ : ∃ consent rest, b.service.consents = consent :: rest :=
      List.exists_cons_of_length_eq_add_one hlength
    have hdecided : b.service.consent_answered 0 false = { b.service with consents := rest } := by
      simp [Service.consent_answered, hconsents]
    obtain ⟨more, hmeets, hnone, hchannels, hsubscribed⟩ :=
      ih (b := b.act self_addr (.consent_answered 0 false)) (by
        simp only [act, Service.act, hdecided]
        rw [hconsents] at hlength
        simpa using hlength)
    refine ⟨.consent_answered 0 false :: more, ⟨rfl, hmeets⟩, hnone, ?_, hsubscribed⟩
    refine hchannels.trans ?_
    simp only [act, Service.act, hdecided]
    rfl

/-- All questions are decided, the pump of the session is past what was sent, and
each offer of somebody else had one decision. -/
structure AllDecided (early : Bool) (b : ConsentBook) (i : SessionId) (c : SessionChannel) :
    Prop where
  questions : b.service.consents = []
  read : b.service.channels[i]? = some (c.read_to c.events.length)
  decisions : (about i (b.decided.map Prod.fst)).Perm
    (unsolicited c.self_id (c.events.drop (b.counted early i)))

/-- Unless its next turn passes over offers, a pump can come to the end of its
channel and its questions to their decisions. -/
theorem decides_all [Urls] (self_addr : EndpointAddr) {i : SessionId} {c : SessionChannel}
    {next : Nat} (hi : b.service.channels[i]? = some c) (hnext : c.next = some next)
    (hle : next ≤ c.events.length) (hhears : Hears early b (.pump i)) :
    ∃ more, runs.Meets (act self_addr) (Hears early) b more ∧
      (b.run self_addr more).service.consents = [] ∧
      (b.run self_addr more).service.channels[i]? = some (c.read_to c.events.length) := by
  have hat : b.service.channels[i]? = some (c.read_to next) := by
    rw [hi, SessionChannel.read_to, ← hnext]
  have hreached : ∃ more, runs.Meets (act self_addr) (Hears early) b more ∧
      (b.run self_addr more).service.channels[i]? = some (c.read_to c.events.length) := by
    by_cases hnear : c.events.length ≤ next + EVENT_CHANNEL_CAPACITY
    · obtain ⟨more, hmeets, hchannel, -⟩ :=
        pumps_reach early self_addr (c.events.length - next) hat (by omega) (by omega)
      exact ⟨more, hmeets, hchannel⟩
    · have hturned := pump_turns self_addr hat (by omega)
      rw [after_turn, if_pos (by omega)] at hturned
      obtain ⟨more, hmeets, hchannel, -⟩ :=
        pumps_reach early self_addr EVENT_CHANNEL_CAPACITY hturned (by omega)
          (Nat.le_refl _)
      exact ⟨.pump i :: more, ⟨hhears, hmeets⟩, hchannel⟩
  obtain ⟨reads, hreads, hchannel⟩ := hreached
  obtain ⟨answers, hanswers, hnone, hchannels, -⟩ :=
    answers_reach early self_addr _ (b := b.run self_addr reads) rfl
  refine ⟨reads ++ answers, (runs.meets_append _ _ _).mpr ⟨hreads, hanswers⟩, ?_, ?_⟩
  · rw [run, runs.run_append]
    exact hnone
  · rw [run, runs.run_append]
    exact (congrArg (·[i]?) hchannels).trans hchannel

theorem sound_run [Urls] (self_addr : EndpointAddr) (secret : SecretKey) (policy : DropPolicy)
    (acts : List Service.Act) : Sound (run self_addr (.new secret policy) acts) := by
  have hstep : ∀ (b : ConsentBook) (a : Service.Act), Sound b → Sound (b.act self_addr a) :=
    fun b a h => (effect_act false h self_addr a).sound h
  exact runs.invariant hstep (sound_new secret policy) acts

/-- A session tells of an offer just when it records it as new. In every state of
a run each one that somebody else brought in is asked about once just when no
pump passes over one. Then nothing is left behind: what a pump has not lost yet
comes to a decision, and to one alone. -/
theorem offers_are_asked_about_once_iff [Urls] (self_addr : EndpointAddr) (secret : SecretKey)
    (policy : DropPolicy) (early : Bool) (acts : List Service.Act) :
    (∀ (session : Session) (step : Step),
      TellsOf session (session.newly_recorded step) (session.step step)) ∧
    ((∀ past, past <+: acts → AskedOnce early (run self_addr (.new secret policy) past)) ↔
      runs.Meets (act self_addr) (Hears early) (.new secret policy) acts) ∧
    (runs.Meets (act self_addr) (Hears early) (.new secret policy) acts →
      ∀ i c next, (run self_addr (.new secret policy) acts).service.channels[i]? = some c →
        c.next = some next → Hears early (run self_addr (.new secret policy) acts) (.pump i) →
        ∃ more, AllDecided early (run self_addr (.new secret policy) (acts ++ more)) i c) := by
  refine ⟨Session.step_tells, run_asked_once_iff self_addr secret policy acts, ?_⟩
  intro hmeets i c next hi hnext hhears
  have hle := ((sound_run self_addr secret policy acts).reading i c next hi hnext).2
  obtain ⟨more, hmore, hnone, hread⟩ := decides_all self_addr hi hnext hle hhears
  have hall : runs.Meets (act self_addr) (Hears early) (.new secret policy) (acts ++ more) :=
    (runs.meets_append _ _ _).mpr ⟨hmeets, hmore⟩
  have hrun : run self_addr (run self_addr (.new secret policy) acts) more =
      run self_addr (.new secret policy) (acts ++ more) := (runs.run_append _ acts more).symm
  rw [hrun] at hnone hread
  have hasked := (run_asked_once_iff self_addr secret policy (acts ++ more)).mpr hall _
    (List.prefix_refl _) i _ _ hread rfl
  refine ⟨more, hnone, hread, ?_⟩
  rw [questions, hnone, List.append_nil] at hasked
  simpa [SessionChannel.read_to] using hasked

end ConsentBook

end Laws

/-! ## A pump that comes too late -/

namespace late_pump

local instance : Crypto := Crypto.clear

local instance : Urls := Urls.verbatim

open Service (Act)

def self_addr : EndpointAddr := .of_id (SecretKey.public ⟨.fill 32 1⟩)

def topic : TopicId := ⟨.fill 32 8⟩

/-- A public drop. -/
def ticket : DropTicket := .nodeless topic.as_bytes none

def offer : OfferV1 :=
  { blob_hash := ⟨.fill 32 3⟩, name := "a", size := 1, media_type := none, created_at_ms := none
    metadata := ∅ }

/-- Another member offers a file. -/
def frame : Bytes :=
  match (MessageV1.new (.Offer offer) (.fill 16 3) 0).encode ⟨.fill 32 2⟩ topic with
  | .ok bytes => bytes
  | .error _ => []

def hears : Act :=
  .session_step 0 (.received frame (SecretKey.public ⟨.fill 32 2⟩)
    { draw := { now := 0, sent_at_ms := 0, id := .fill 16 0, nonce := .fill 24 0
                carried := .ok () }
      announced_at_ms := 0 })

/-- `drop.join` answers `Ok`, and an offer comes. -/
def joined : List Act :=
  [.drop_join (String.ofList ticket.to_string_prefixed), .connected 0 (.ok ()) (fun _ => .NotFound),
   .settle 0, .answer 0, hears]

/-- As many more events as the channel of the session holds. -/
def burst : List Act := List.replicate EVENT_CHANNEL_CAPACITY (.session_step 0 .lagged)

def secret : SecretKey := ⟨.fill 32 1⟩

def heard : ConsentBook := .run self_addr (.new secret {}) joined

/-- The receive loop of the session runs, its pump has read nothing, and the offer
is the one event that was sent. -/
def Waits (self : Hosted) : Prop :=
  self.tasks.any (·.1 = .event_loop) = true ∧ self.pump.map Pump.next = some 0 ∧
    unsolicited self.session.self_id (self.session.events.take 1) =
      [(SecretKey.public ⟨.fill 32 2⟩, offer)]

instance (self : Hosted) : Decidable (Waits self) := inferInstanceAs (Decidable (_ ∧ _ ∧ _))

theorem heard_waits : ∃ hosted, heard.service.sessions[0]? = some hosted ∧ Waits hosted ∧
    hosted.session.events.length = 1 := by
  have hsome : heard.service.sessions[0]?.any (fun hosted => decide (Waits hosted ∧
      hosted.session.events.length = 1)) = true := by decide +kernel
  rcases hhosted : heard.service.sessions[0]? with _ | hosted
  · rw [hhosted] at hsome
    cases hsome
  · rw [hhosted] at hsome
    exact ⟨hosted, rfl, of_decide_eq_true hsome⟩

/-- The burst goes into the channel, and the pump does not get a turn. -/
theorem burst_sent (n : Nat) : ∀ {b : ConsentBook} {hosted : Hosted},
    b.service.sessions[0]? = some hosted → Waits hosted → 0 < hosted.session.events.length →
    ∃ hosted', (b.run self_addr (List.replicate n (.session_step 0 .lagged))).service.sessions[0]? =
        some hosted' ∧ Waits hosted' ∧
      hosted'.session.events.length = hosted.session.events.length + n := by
  induction n with
  | zero => exact fun hhosted hwaits _ => ⟨_, hhosted, hwaits, rfl⟩
  | succ n ih =>
    intro b hosted hhosted hwaits hsent
    obtain ⟨hloop, hnext, hfirst⟩ := hwaits
    have hmay : b.service.may_step 0 .lagged = true := by
      simp only [Service.may_step, hhosted, Option.any_some, hloop]
    obtain ⟨lagged, hlagged, hwarned⟩ : ∃ lagged : Hosted,
        (b.act self_addr (.session_step 0 .lagged)).service.sessions[0]? = some lagged ∧
          lagged =
            { hosted with session := hosted.session.lagged, tasks := hosted.tasks ++ [] } := by
      refine ⟨_, ?_, rfl⟩
      simp only [ConsentBook.act, Service.act, Service.session_step, if_pos hmay, Service.modify,
        List.getElem?_modify, if_true, hhosted]
      simp [Session.step, Session.lagged, Session.emit]
    have hevents : lagged.session.events =
        hosted.session.events ++ [.ProtocolWarning none .Lagged] := by rw [hwarned]; rfl
    have hstill : Waits lagged := by
      refine ⟨?_, ?_, ?_⟩
      · rw [hwarned]
        simpa using hloop
      · rw [hwarned]
        exact hnext
      · rw [hevents, List.take_append_of_le_length hsent, hwarned]
        exact hfirst
    have hlength : lagged.session.events.length = hosted.session.events.length + 1 := by
      rw [hevents, List.length_append, List.length_singleton]
    obtain ⟨hosted', hhosted', hwaits', hlength'⟩ := ih hlagged hstill (by omega)
    exact ⟨hosted', hhosted', hwaits', by omega⟩

/-- What came first is forgotten when the pump gets its turn: the offer is never
asked about. -/
theorem an_offer_is_never_asked_about :
    ¬ ∀ [Crypto] [Urls] (self_addr : EndpointAddr) (secret : SecretKey) (policy : DropPolicy)
      (acts : List Act), ConsentBook.AskedOnce false
        (ConsentBook.run self_addr (.new secret policy) acts) := by
  intro hall
  have hmeets := (ConsentBook.run_asked_once_iff self_addr secret {}
    (joined ++ burst ++ [.pump 0])).mp fun past _ => hall self_addr secret {} past
  have hhears := (runs.meets_iff_split _ _).mp hmeets (joined ++ burst) (.pump 0) [] rfl
  obtain ⟨hosted, hhosted, hwaits, hlength⟩ := heard_waits
  obtain ⟨flooded, hflooded, ⟨-, hnext, hfirst⟩, hsent⟩ :=
    burst_sent EVENT_CHANNEL_CAPACITY hhosted hwaits (by omega)
  have hrun : runs.run (ConsentBook.act self_addr) (.new secret {}) (joined ++ burst) =
      heard.run self_addr burst := runs.run_append _ joined burst
  have hchannel : (heard.run self_addr burst).service.channels[0]? =
      some ⟨flooded.session.self_id, flooded.session.events, some 0⟩ := by
    rw [← hnext, Service.channels_get, burst]
    exact ⟨flooded, hflooded, rfl⟩
  rw [hrun, ConsentBook.Hears] at hhears
  simp only [ConsentBook.passed_over, hchannel, hsent, hlength] at hhears
  rw [Nat.add_sub_cancel, List.drop_zero, hfirst] at hhears
  cases hhears

end late_pump

end iroh_drop
