-- What a joined ticket gives: a topic that the table hosts keeps the session that
-- it has, whatever the mode and the key of the ticket are.
import IrohDrop.KeptTickets

open rust_std postcard

namespace iroh_drop

section Laws

variable [Crypto]

/-! ## What is promised -/

/-- The session speaks the mode of the ticket, and reads with its key if it has
one. -/
structure Grants (session : SessionConfig) (ticket : DropTicket) : Prop where
  mode : session.mode = ticket.mode
  decrypts : ∀ key, ticket.drop_key = some key → session.drop_key = some key
  accepts : ∀ key, ticket.drop_key = some key → ∀ frame,
    Session.decode_for_session session frame = MessageV1.decode_sealed frame key ticket.topic

namespace Service

/-- What the session behind a handle was made with. -/
def behind (self : Service) (handle : String) : Option SessionConfig :=
  (self.session_of handle).bind fun i => self.sessions[i]?.map (·.session.toSessionConfig)

/-- What may happen in between. -/
def Reaches [Urls] (self_addr : EndpointAddr) (s s' : Service) : Prop :=
  ∃ acts, s.run self_addr acts = s'

/-- A `drop.join` of the ticket, from the state that it finds to the one in
which its drop is in the table under the handle that it answers with. -/
inductive JoinAnswers [Urls] (self_addr : EndpointAddr) (s : Service) (text : String)
    (ticket : DropTicket) : String → Service → Prop
  | already {handle : String} {s' : Service}
      (hosted : s.handle_for_topic ticket.topic = some handle) (joined : s.drop_join text = .ok s') :
      JoinAnswers self_addr s text ticket handle s'
  | opened {asked waiting locked : Service} (free : s.handle_for_topic ticket.topic = none)
      (joined : s.drop_join text = .ok asked) (carrier : Reaches self_addr asked waiting) {k : Nat}
      {name : Option String}
      (connecting : waiting.calls[k]? = some (.connecting ticket (.joined name)))
      {store : BlobHash → BlobStatus}
      (lock : Reaches self_addr (waiting.connected k (.ok ()) store) locked) {j : Nat}
      (opened : locked.calls[j]? = some (.opened waiting.sessions.length (.joined name))) :
      JoinAnswers self_addr s text ticket (locked.handle_of (.joined name)) (locked.settle j)

/-- If the topic is hosted, then with the mode of the ticket, and with its key
if it has one. -/
def Suits (s : Service) (ticket : DropTicket) : Prop :=
  ∀ handle hosted, s.handle_for_topic ticket.topic = some handle → s.behind handle = some hosted →
    hosted.mode = ticket.mode ∧ (ticket.drop_key = none ∨ hosted.drop_key = ticket.drop_key)

end Service

/-! ## What no step of a session changes -/

section Lasting

variable {α : Type} {f : Session → α}

/-- No step of a session changes this. -/
def Fixed (f : Session → α) : Prop := ∀ session step, f (Session.step session step) = f session

theorem fixed_config : Fixed (fun session => session.toSessionConfig) :=
  fun session step => (step_extends session step).config

namespace Service

/-- The sessions that were there are there, and are the same in this. -/
def Lasts (f : Session → α) (s s' : Service) : Prop :=
  ∀ (i : SessionId) a, s.sessions[i]?.map (f ·.session) = some a →
    s'.sessions[i]?.map (f ·.session) = some a

namespace Lasts

variable {s s' s'' : Service}

theorem refl (s : Service) : Lasts f s s := fun _ _ h => h

theorem trans (h : Lasts f s s') (h' : Lasts f s' s'') : Lasts f s s'' :=
  fun i a hi => h' i a (h i a hi)

theorem of_sessions (h : s'.sessions = s.sessions) : Lasts f s s' := by
  intro i a hi
  rwa [h]

theorem modify (s : Service) (i : SessionId) {g : Hosted → Hosted}
    (hg : ∀ hosted, f (g hosted).session = f hosted.session) : Lasts f s (s.modify i g) := by
  intro j a hj
  obtain ⟨hosted, hhosted, rfl⟩ := Option.map_eq_some_iff.mp hj
  simp only [Service.modify, List.getElem?_modify, hhosted]
  split
  · exact congrArg some (hg hosted)
  · rfl

theorem insert_drop (s : Service) (handle : String) (entry : DropEntry) :
    Lasts f s (s.insert_drop handle entry) := by
  have hdrops : Lasts f s { s with drops := s.drops.insert handle entry } := of_sessions rfl
  exact hdrops.trans (modify _ _ fun _ => rfl)

theorem open_session (s : Service) (ticket : DropTicket) (store : BlobHash → BlobStatus)
    (catch_up : Bool) : Lasts f s (s.open_session ticket store catch_up) := by
  intro i a hi
  obtain ⟨hosted, hhosted, -⟩ := Option.map_eq_some_iff.mp hi
  have hlt : i < s.sessions.length := (List.getElem?_eq_some_iff.mp hhosted).1
  have hget : (s.open_session ticket store catch_up).sessions[i]? = s.sessions[i]? :=
    List.getElem?_append_left hlt
  rwa [hget]

theorem connected [Urls] (s : Service) (k : Nat) (carrier : Except String Unit)
    (store : BlobHash → BlobStatus) : Lasts f s (s.connected k carrier store) := by
  unfold Service.connected
  split
  · rcases carrier with e | u
    · exact .of_sessions rfl
    · exact (Lasts.of_sessions rfl).trans (.open_session _ _ _ _)
  · exact .refl s

theorem settle (s : Service) (k : Nat) : Lasts f s (s.settle k) := by
  unfold Service.settle Service.register Service.register_restored
  split
  · exact ((Lasts.of_sessions rfl).trans (.insert_drop _ _ _)).trans (.of_sessions rfl)
  · exact ((Lasts.of_sessions rfl).trans (.insert_drop _ _ _)).trans (.of_sessions rfl)
  · exact (Lasts.insert_drop s _ _).trans (.of_sessions rfl)
  · exact .refl s

theorem pump (s : Service) (i : SessionId) : Lasts f s (s.pump i) := by
  unfold Service.pump
  split
  · exact .refl s
  rename_i hosted hhosted
  split
  · exact .refl s
  rename_i pump hpump
  rcases broadcast_recv EVENT_CHANNEL_CAPACITY hosted.session.events (!s.live i) pump.next
    with ⟨received, next⟩
  have hadvanced : Lasts f s (s.modify i fun hosted =>
      { hosted with pump := some { pump with next } }) := .modify s i fun _ => rfl
  cases received with
  | Ok event =>
    simp only [on_session_event]
    split
    · split
      · exact hadvanced.trans (.of_sessions rfl)
      · exact hadvanced
    · exact hadvanced
  | Lagged missed => exact hadvanced
  | Closed => exact .modify s i fun _ => rfl
  | Pending => exact .refl s

/-- What fails leaves the daemon as it was. -/
theorem kept {result : Except ApiError Service} (h : ∀ s', result = .ok s' → Lasts f s s') :
    Lasts f s (result.toOption.getD s) := by
  rcases result with e | s'
  · exact .refl s
  · exact h s' rfl

theorem connect {ticket : DropTicket} {opening : Opening} (h : s.connect ticket opening = .ok s') :
    Lasts f s s' := by
  unfold Service.connect at h
  split at h
  · cases h
  · cases h
    exact .of_sessions rfl

theorem drop_join [Urls] {ticket : String} (h : s.drop_join ticket = .ok s') : Lasts f s s' := by
  unfold Service.drop_join at h
  split at h
  · cases h
  · simp only at h
    split at h
    · exact .connect h
    · obtain ⟨entry, -, h⟩ := bind_eq_ok.mp h
      cases h
      exact .of_sessions rfl

theorem act [Urls] (hf : Fixed f) (self_addr : EndpointAddr) (s : Service) (a : Act) :
    Lasts f s (s.act self_addr a) := by
  cases a with
  | drop_create options topic_id key => exact .kept fun s' h => .connect h
  | drop_join ticket => exact .kept fun s' h => .drop_join h
  | restore_drop ticket handle name mine => exact .kept fun s' h => .connect h
  | connected k carrier store => exact .connected s k carrier store
  | settle k => exact .settle s k
  | answer k =>
    simp only [Service.act, Service.answered]
    split <;> exact .of_sessions rfl
  | drop_leave handle =>
    refine .kept fun s' h => ?_
    obtain ⟨entry, -, h⟩ := bind_eq_ok.mp h
    cases h
    exact .of_sessions rfl
  | withdraw k announced_at_ms draws =>
    simp only [Service.act, Service.withdraw]
    split
    · rename_i handle i hk
      have hsaid : Lasts f s (s.update_session i (·.announce_withdrawal announced_at_ms draws)) :=
        .modify s i fun hosted => hf hosted.session (.announce_withdrawal announced_at_ms draws)
      have htaken := hsaid.trans (Lasts.modify _ i
        (g := fun hosted => { hosted with tasks := hosted.tasks.map fun task => (task.1, true) })
        fun _ => rfl)
      exact htaken.trans (.of_sessions rfl)
    · exact .refl s
  | stop k =>
    simp only [Service.act, Service.stop]
    split
    · split <;> exact .of_sessions rfl
    · exact .refl s
  | offer_publish handle =>
    refine .kept fun s' h => ?_
    obtain ⟨entry, -, h⟩ := bind_eq_ok.mp h
    cases h
    exact .of_sessions rfl
  | offer_fetch handle hash =>
    refine .kept fun s' h => ?_
    obtain ⟨entry, -, h⟩ := bind_eq_ok.mp h
    obtain ⟨hash, -, h⟩ := bind_eq_ok.mp h
    cases h
    exact .of_sessions rfl
  | consent_answered k accept =>
    simp only [Service.act, Service.consent_answered]
    split
    · exact .refl s
    · split <;> exact .of_sessions rfl
  | session_step i step =>
    simp only [Service.act, Service.session_step]
    split
    · exact .modify s i fun hosted => hf hosted.session step
    · exact .refl s
  | pump i => exact .pump s i
  | internal_ended i k => exact .modify s i fun _ => rfl
  | work_ended k => exact .of_sessions rfl
  | rejoin_ended k => exact .of_sessions rfl

theorem run [Urls] (hf : Fixed f) (self_addr : EndpointAddr) (s : Service) (acts : List Act) :
    Lasts f s (s.run self_addr acts) :=
  runs.relation Lasts.refl (fun _ _ _ => Lasts.trans) (Lasts.act hf self_addr) s acts

end Lasts

end Service

end Lasting

/-! ## What is behind a handle -/

namespace Service

variable {s s' : Service}

/-- A topic is found at a drop of the table whose session is of the topic. -/
theorem hosted_topic {topic : TopicId} {handle : String}
    (h : s.handle_for_topic topic = some handle) :
    ∃ entry hosted, s.drops.lookup handle = some entry ∧
      s.sessions[entry.session]? = some hosted ∧ hosted.session.topic_id = topic := by
  obtain ⟨e, he, rfl⟩ := Option.map_eq_some_iff.mp h
  have htopic : s.topic_of e.2.session = some topic := by simpa using List.find?_some he
  obtain ⟨hosted, hhosted, htopic⟩ := Option.map_eq_some_iff.mp htopic
  exact ⟨e.2, hosted, AList.mem_lookup_iff.mpr (List.mem_of_find?_eq_some he), hhosted, htopic⟩

theorem behind_of_topic {topic : TopicId} {handle : String}
    (h : s.handle_for_topic topic = some handle) :
    ∃ config, s.behind handle = some config ∧ config.topic_id = topic := by
  obtain ⟨entry, hosted, hentry, hhosted, htopic⟩ := hosted_topic h
  refine ⟨hosted.session.toSessionConfig, ?_, htopic⟩
  unfold behind session_of
  rw [hentry, Option.map_some, Option.bind_some, hhosted, Option.map_some]

/-- A join of a hosted topic answers `Ok`, whatever else the ticket has. -/
theorem joins_hosted [Urls] {text : String} {ticket : DropTicket} {handle : String}
    (hparse : DropTicket.from_string_prefixed text.toList = .ok ticket)
    (hhosted : s.handle_for_topic ticket.topic = some handle) :
    ∃ s', s.drop_join text = .ok s' := by
  obtain ⟨entry, -, hentry, -, -⟩ := hosted_topic hhosted
  unfold Service.drop_join Service.entry
  rw [hparse]
  simp only [show s.handle_for_topic ⟨ticket.V1.topic_id⟩ = some handle from hhosted, hentry]
  exact ⟨_, rfl⟩

/-- A join of a hosted topic changes no session and no entry's session. -/
theorem behind_joined [Urls] {text : String} {ticket : DropTicket} {handle : String}
    (hparse : DropTicket.from_string_prefixed text.toList = .ok ticket)
    (hhosted : s.handle_for_topic ticket.topic = some handle) (h : s.drop_join text = .ok s') :
    s'.behind handle = s.behind handle := by
  have hdrops := (Keeps.drop_join s text).drops handle
  rw [h] at hdrops
  unfold Service.drop_join at h
  rw [hparse] at h
  change s'.session_of handle = s.session_of handle at hdrops
  simp only [show s.handle_for_topic ⟨ticket.V1.topic_id⟩ = some handle from hhosted] at h
  obtain ⟨entry, -, h⟩ := bind_eq_ok.mp h
  cases h
  unfold behind
  rw [hdrops]

/-- What the session of a ticket is made with. -/
def config_for (self : Service) (ticket : DropTicket) : SessionConfig :=
  { secret := self.secret, policy := self.policy, decider := self.decider
    topic_id := ticket.topic, mode := ticket.mode, drop_key := ticket.drop_key }

/-- A session that is opened for a ticket is behind the handle that it gets. -/
theorem behind_opened [Urls] {self_addr : EndpointAddr} {waiting locked : Service} {k j : Nat}
    {ticket : DropTicket} {opening : Opening} {store : BlobHash → BlobStatus}
    (hconnecting : waiting.calls[k]? = some (.connecting ticket opening))
    (hlock : Reaches self_addr (waiting.connected k (.ok ()) store) locked)
    (hopened : locked.calls[j]? = some (.opened waiting.sessions.length opening)) :
    ∃ config, (locked.settle j).behind (locked.handle_of opening) = some config ∧
      config.mode = ticket.mode ∧ config.drop_key = ticket.drop_key ∧
      config.topic_id = ticket.topic := by
  obtain ⟨acts, rfl⟩ := hlock
  have hnew : (waiting.connected k (.ok ()) store).sessions[waiting.sessions.length]?.map
      (·.session.toSessionConfig) =
        some (waiting.config_for ticket) := by
    unfold Service.connected
    rw [hconnecting]
    unfold Service.open_session
    simp only [set_call, List.getElem?_append_right (Nat.le_refl _), Nat.sub_self]
    rfl
  have hlast := (Lasts.run fixed_config self_addr _ acts).trans (Lasts.settle _ j) _ _ hnew
  refine ⟨waiting.config_for ticket, ?_, rfl, rfl, rfl⟩
  unfold behind
  rw [session_of_settle hopened, if_pos rfl, Option.bind_some]
  exact hlast

end Service

/-- A key is on sealed tickets only. -/
theorem sealed_of_key [Urls] {text : List Char} {ticket : DropTicket}
    (h : DropTicket.from_string_prefixed text = .ok ticket) {key : DropKey}
    (hkey : ticket.drop_key = some key) : ticket.mode = .Sealed := by
  obtain ⟨bytes, rest, -, -, -, hvalid⟩ := from_string_prefixed_eq_ok.mp h
  simp only [DropTicket.validate, bind_eq_ok, ensure_eq_ok] at hvalid
  obtain ⟨mode, hmode, -, hpublic, -⟩ := hvalid
  rw [DropTicket.from_wire_mode] at hmode
  cases hmode
  cases hsealed : ticket.mode with
  | Sealed => rfl
  | Public =>
    have hsome : ticket.V1.drop_key.isSome = true := by
      rw [← Option.isSome_map (f := DropKey.mk)]
      exact Option.isSome_iff_exists.mpr ⟨key, hkey⟩
    exact absurd ⟨hsealed, hsome⟩ hpublic

theorem grants_iff [Urls] {text : List Char} {ticket : DropTicket}
    (h : DropTicket.from_string_prefixed text = .ok ticket) {config : SessionConfig}
    (htopic : config.topic_id = ticket.topic) :
    Grants config ticket ↔ config.mode = ticket.mode ∧
      (ticket.drop_key = none ∨ config.drop_key = ticket.drop_key) := by
  constructor
  · intro hgrants
    refine ⟨hgrants.mode, ?_⟩
    rcases hkey : ticket.drop_key with _ | key
    · exact .inl rfl
    · exact .inr (hgrants.decrypts key hkey)
  · rintro ⟨hmode, hkeys⟩
    have hdecrypts : ∀ key, ticket.drop_key = some key → config.drop_key = some key := by
      intro key hkey
      rw [hkey] at hkeys
      exact hkeys.resolve_left nofun
    refine ⟨hmode, hdecrypts, fun key hkey frame => ?_⟩
    unfold Session.decode_for_session
    rw [hmode, sealed_of_key h hkey, hdecrypts key hkey, htopic]

namespace Service

/-- A `drop.join` that answers `Ok` gives what its ticket grants just when the
topic is free, or hosted with the mode and the key of the ticket. -/
theorem join_grants_iff [Urls] (self_addr : EndpointAddr) (s s' : Service) (text : String)
    (ticket : DropTicket) (hparse : DropTicket.from_string_prefixed text.toList = .ok ticket)
    (handle : String) (h : s.JoinAnswers self_addr text ticket handle s') :
    (∃ config, s'.behind handle = some config ∧ Grants config ticket) ↔ s.Suits ticket := by
  cases h with
  | already hhosted hjoined =>
    obtain ⟨config, hconfig, htopic⟩ := Service.behind_of_topic hhosted
    rw [Service.behind_joined hparse hhosted hjoined, hconfig]
    constructor
    · rintro ⟨config', heq, hgrants⟩ handle' hosted hhandle hbehind
      obtain rfl := Option.some.inj heq
      obtain rfl := Option.some.inj (hhosted.symm.trans hhandle)
      obtain rfl := Option.some.inj (hconfig.symm.trans hbehind)
      exact (grants_iff hparse htopic).mp hgrants
    · intro hsuits
      exact ⟨config, rfl, (grants_iff hparse htopic).mpr (hsuits handle config hhosted hconfig)⟩
  | opened hfree hjoined hcarrier hconnecting hlock hopened =>
    obtain ⟨config, hconfig, hmode, hkey, htopic⟩ :=
      Service.behind_opened hconnecting hlock hopened
    refine iff_of_true ⟨config, hconfig, (grants_iff hparse htopic).mpr ⟨hmode, .inr hkey⟩⟩ ?_
    intro handle' hosted hhandle
    rw [hfree] at hhandle
    cases hhandle

end Service

end Laws

/-! ## A relay that gets the key -/

namespace late_key

local instance : Crypto := Crypto.clear

local instance : Urls := Urls.verbatim

def self_addr : EndpointAddr := .of_id (SecretKey.public ⟨.fill 32 1⟩)

def key : DropKey := ⟨.fill 32 9⟩

/-- The ticket of a private drop, with its key. -/
def keyed : DropTicket := .nodeless (.fill 32 8) (some key)

def text (ticket : DropTicket) : String := String.ofList ticket.to_string_prefixed

theorem keyed_reads : DropTicket.from_string_prefixed (text keyed).toList = .ok keyed := by
  have hreads : (DropTicket.from_string_prefixed (text keyed).toList).toOption.isSome = true := by
    decide +kernel
  rcases hread : DropTicket.from_string_prefixed (text keyed).toList with e | back
  · rw [hread] at hreads
    cases hreads
  · unfold text at hread
    rw [String.toList_ofList] at hread
    rw [DropTicket.read_to_string hread]

def fresh : Service := .new ⟨.fill 32 1⟩ {}

/-- A join that waits for nobody. -/
def join (ticket : DropTicket) : List Service.Act :=
  [.drop_join (text ticket), .connected 0 (.ok ()) (fun _ => .NotFound), .settle 0, .answer 0]

/-- The daemon joined with the ticket for helpers, which has no key. -/
def relay : Service := fresh.run self_addr (join keyed.without_key)

theorem relay_run :
    (Service.new ⟨.fill 32 1⟩ {}).run self_addr (join keyed.without_key) = relay := rfl

theorem relay_hosts : relay.handle_for_topic keyed.topic = some "d1" := by decide +kernel

theorem relay_has_no_key : (relay.behind "d1").map SessionConfig.drop_key = some none := by
  decide +kernel

/-- The relay gets the ticket with the key, is told that it is in the drop, and
stays blind. -/
theorem a_relay_stays_blind :
    ¬ ∀ [Crypto] [Urls] (self_addr : EndpointAddr) (secret : SecretKey) (policy : DropPolicy)
      (acts : List Service.Act) (text : String) (ticket : DropTicket) (handle : String)
      (s' : Service), DropTicket.from_string_prefixed text.toList = .ok ticket →
        ((Service.new secret policy).run self_addr acts).JoinAnswers self_addr text ticket handle s' →
          ∃ config, s'.behind handle = some config ∧ Grants config ticket := by
  intro hall
  obtain ⟨s', hjoined⟩ := Service.joins_hosted keyed_reads relay_hosts
  have hgrants := hall self_addr ⟨.fill 32 1⟩ {} (join keyed.without_key) (text keyed) keyed "d1"
    s' keyed_reads
  rw [relay_run] at hgrants
  obtain ⟨config, hconfig, hgrants⟩ := hgrants (.already relay_hosts hjoined)
  rw [Service.behind_joined keyed_reads relay_hosts hjoined] at hconfig
  have hnone := relay_has_no_key
  rw [hconfig, Option.map_some, hgrants.decrypts key rfl] at hnone
  cases hnone

/-- The join of a daemon that is not in the drop waits for its carrier. -/
def asked : Service := { fresh with calls := [.connecting keyed (.joined none)] }

theorem fresh_joins : fresh.drop_join (text keyed) = .ok asked := by
  unfold Service.drop_join
  rw [keyed_reads]
  rfl

/-- A daemon that is not in the drop opens a session that reads. -/
theorem a_fresh_join_reads :
    let joined := (asked.connected 0 (.ok ()) fun _ => .NotFound).settle 0
    (∃ config, joined.behind "d1" = some config ∧ Grants config keyed) ↔ fresh.Suits keyed :=
  Service.join_grants_iff self_addr fresh _ (text keyed) keyed keyed_reads "d1"
    (@Service.JoinAnswers.opened _ _ self_addr fresh (text keyed) keyed asked asked _ rfl fresh_joins
      ⟨[], rfl⟩ 0 none rfl (fun _ => .NotFound) ⟨[], rfl⟩ 0 rfl)

end late_key

end iroh_drop
