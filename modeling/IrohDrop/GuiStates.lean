-- What holds of the window in every state that its worker comes to: its rows, its banner and
-- its lists (bridge.rs).
import IrohDrop.GuiWorker

open rust_std

namespace iroh_drop

/-! ## The rows -/

/-- A transfer goes on, or has failed, or is done: only a row that failed offers to try again,
and only one that is done shows files. -/
structure Transfer.Coherent (row : Transfer) : Prop where
  going : row.finished = false → row.failed = none ∧ row.saved_to = []
  failed : row.failed.isSome = true → row.saved_to = []

/-- The log is bounded, and each row is in one of its states. -/
structure UiState.Sound (state : UiState) : Prop where
  log : state.log.length ≤ 200
  rows : ∀ row ∈ state.transfers, row.Coherent

namespace UiState.Sound

variable {state : UiState}

theorem note (h : state.Sound) (line : String) : (state.note line).Sound where
  log := by
    have hlog := h.log
    unfold UiState.note
    simp only [List.length_append, List.length_singleton]
    split
    · rw [List.length_tail, List.length_append, List.length_singleton]
      omega
    · rw [List.length_append, List.length_singleton]
      omega
  rows := h.rows

theorem push (h : state.Sound) {row : Transfer} (hrow : row.Coherent) : (state.push row).Sound where
  log := h.log
  rows other hmem := by
    rcases List.mem_append.mp hmem with hmem | hmem
    · exact h.rows other hmem
    · rw [List.mem_singleton.mp hmem]
      exact hrow

/-- The row of a name that is open changes. -/
theorem change (h : state.Sound) {name : String} {k : Nat} {f : Transfer → Transfer}
    (hopen : state.open_row name = some k)
    (hf : ∀ row : Transfer, row.finished = false → row.Coherent → (f row).Coherent) :
    (state.change k f).Sound where
  log := h.log
  rows other hmem := by
    obtain ⟨row, hrow, -, hunfinished⟩ := UiState.open_row_some hopen
    rw [UiState.change_transfers hrow] at hmem
    rcases List.mem_or_eq_of_mem_set hmem with hmem | rfl
    · exact h.rows other hmem
    · exact hf row hunfinished (h.rows row (List.mem_of_getElem? hrow))

end UiState.Sound

theorem Bridge.apply_event_sound {bridge : Bridge} (h : bridge.state.Sound) (env : Envelope) :
    (bridge.apply_event env).state.Sound := by
  have hlearn : (bridge.learn_drop (env.p.str_of "hash") (env.p.str_of "drop")).state.Sound := by
    rw [Window.learn_drop_state]
    exact h
  unfold Bridge.apply_event
  simp only
  generalize bridge.learn_drop (env.p.str_of "hash") (env.p.str_of "drop") = learned at hlearn ⊢
  split
  · exact hlearn
  · change (learned.fetch_progress (env.p.str_of "hash") env.p).Sound
    unfold Bridge.fetch_progress
    simp only
    split
    · rename_i hopen
      exact hlearn.change hopen fun row _ hrow => ⟨hrow.going, hrow.failed⟩
    · exact hlearn.push ⟨fun _ => ⟨rfl, rfl⟩, fun _ => rfl⟩
  · change (learned.fetch_materialized (env.p.str_of "hash") env.p).Sound
    unfold Bridge.fetch_materialized
    simp only
    refine UiState.Sound.note ?_ _
    split
    · rename_i hopen
      refine hlearn.change hopen fun row hunfinished hrow => ⟨by rintro ⟨⟩, fun hfailed => ?_⟩
      rw [(hrow.going hunfinished).1] at hfailed
      cases hfailed
    · exact hlearn.push ⟨by rintro ⟨⟩, by rintro ⟨⟩⟩
  · change (learned.fetch_failed (env.p.str_of "hash") env.p).Sound
    unfold Bridge.fetch_failed
    simp only
    split
    · rename_i hopen
      exact hlearn.change hopen fun row hunfinished hrow =>
        ⟨by rintro ⟨⟩, fun _ => (hrow.going hunfinished).2⟩
    · exact hlearn.note _
  · exact hlearn.note _
  · exact hlearn.note _
  · exact hlearn

namespace gui

/-- Between two turns the banner shows no work, a link has a name, and each file that can be
had is in one of the drops that are shown. -/
structure Panel.Sound (panel : Panel) : Prop where
  busy : panel.busy = none
  link : panel.share_link.isSome = panel.share_link_name.isSome
  groups : ∀ row ∈ panel.available, ∃ drop ∈ panel.drops,
    row.drop = drop.handle ∧ row.group = drop.name

namespace Worker

/-- While the daemon is there. -/
structure Live {σ : Type} (w : Worker σ) : Prop where
  state : w.bridge.state.Sound
  panel : w.panel.Sound
  connected : w.panel.connected = true

/-- The window says so when the daemon went away. -/
structure Sound {σ : Type} (w : Worker σ) : Prop where
  state : w.bridge.state.Sound
  panel : w.panel.Sound
  gone : w.panel.connected = true ∨
    (w.running = false ∧ w.panel.error = some "the daemon went away")

section Laws

variable {σ : Type} (world : DaemonClient σ)

/-! ## Calls -/

/-- Nothing that the window shows has changed. -/
structure Still (w w' : Worker σ) : Prop where
  bridge : w'.bridge = w.bridge
  panel : w'.panel = w.panel

namespace Still

variable {w w' w'' : Worker σ}

theorem refl (w : Worker σ) : Still w w := ⟨rfl, rfl⟩

theorem trans (h : Still w w') (h' : Still w' w'') : Still w w'' :=
  ⟨h'.bridge.trans h.bridge, h'.panel.trans h.panel⟩

theorem set_busy (h : Still w w') (busy : Option String) :
    Still (w.set_busy busy) (w'.set_busy busy) :=
  ⟨h.bridge, congrArg (fun panel => { panel with busy }) h.panel⟩

theorem live (h : Still w w') (hlive : w.Live) : w'.Live where
  state := h.bridge ▸ hlive.state
  panel := h.panel ▸ hlive.panel
  connected := by
    rw [h.panel]
    exact hlive.connected

end Still

variable (w : Worker σ)

theorem call_still (method : String) (params : Value) : Still w (w.call world method params).2 :=
  ⟨rfl, rfl⟩

theorem sleep_still (length : Duration) : Still w (w.sleep world length) := ⟨rfl, rfl⟩

/-- The rows that are listed are of the drops that were asked about. -/
theorem list_available_groups (handles : List (String × String)) :
    ∀ row ∈ (w.list_available world handles).1, (row.drop, row.group) ∈ handles := by
  induction handles generalizing w with
  | nil => rintro _ ⟨⟩
  | cons handle handles ih =>
    have hrows := ih (w.call world "offer.list" (drop_params handle.1)).2
    unfold list_available
    simp only
    split
    · intro row hmem
      rcases List.mem_append.mp hmem with hmem | hmem
      · obtain ⟨item, -, hitem⟩ := List.mem_filterMap.mp hmem
        unfold available_row at hitem
        simp only at hitem
        split at hitem
        · cases hitem
          exact List.mem_cons_self
        · cases hitem
      · exact List.mem_cons_of_mem _ (hrows row hmem)
    · exact fun row hmem => List.mem_cons_of_mem _ (hrows row hmem)

/-- Whatever is said to the daemon. -/
theorem Talks.still {look : Bool} {w w' : Worker σ} (h : Talks world look w w') : Still w w' := by
  induction h with
  | refl => exact .refl _
  | call _ method params _ ih => exact ih.trans (call_still world _ method params)
  | sleep _ length ih => exact ih.trans (sleep_still world _ length)

/-! ## Operations -/

variable {world} {w}

namespace Live

theorem set_error (h : w.Live) (error : Option String) : (w.set_error error).Live :=
  ⟨h.state, ⟨h.panel.busy, h.panel.link, h.panel.groups⟩, h.connected⟩

theorem set_share (h : w.Live) (link name : String) :
    (w.set_share (some link) (some name)).Live :=
  ⟨h.state, ⟨h.panel.busy, rfl, h.panel.groups⟩, h.connected⟩

theorem note (h : w.Live) (line : String) : (w.note line).Live :=
  ⟨h.state.note line, h.panel, h.connected⟩

theorem set_transfers (h : w.Live) {transfers : List Transfer}
    (hrows : ∀ row ∈ transfers, row.Coherent) : (w.set_transfers transfers).Live :=
  ⟨⟨h.state.log, hrows⟩, h.panel, h.connected⟩

theorem set_incoming (h : w.Live) (incoming : List Incoming) :
    Live { w with panel := { w.panel with incoming } } :=
  ⟨h.state, ⟨h.panel.busy, h.panel.link, h.panel.groups⟩, h.connected⟩

/-- The drops and what can be had of them are listed together. -/
theorem refresh_status (h : w.Live) : (w.refresh_status world).Live := by
  unfold Worker.refresh_status
  simp only
  have hstatus := (w.call_still world "daemon.status" (.object [])).live h
  generalize (w.call world "daemon.status" (.object [])).1 = status
  generalize (w.call world "daemon.status" (.object [])).2 = asked at hstatus ⊢
  have hlisted := (asked.call_still world "drop.list" (.object [])).live hstatus
  generalize (asked.call world "drop.list" (.object [])).1 = listed
  generalize (asked.call world "drop.list" (.object [])).2 = asked at hlisted ⊢
  have hshown : asked.panel.busy = (asked.show_status status listed).busy ∧
      asked.panel.share_link = (asked.show_status status listed).share_link ∧
      asked.panel.share_link_name = (asked.show_status status listed).share_link_name ∧
      asked.panel.connected = (asked.show_status status listed).connected := by
    rcases status with _ | _ <;> rcases listed with _ | _ <;> exact ⟨rfl, rfl, rfl, rfl⟩
  obtain ⟨hbusy, hlink, hname, hconnected⟩ := hshown
  generalize asked.show_status status listed = panel at hbusy hlink hname hconnected ⊢
  have hstill := (list_available_talks world { asked with panel }
    (panel.drops.map fun d => (d.handle, d.name))).still
  have hgroups := list_available_groups world { asked with panel }
    (panel.drops.map fun d => (d.handle, d.name))
  generalize list_available world { asked with panel }
    (panel.drops.map fun d => (d.handle, d.name)) = rows at hstill hgroups ⊢
  refine ⟨hstill.bridge ▸ hlisted.state, ⟨?_, ?_, ?_⟩, ?_⟩
  all_goals simp only [hstill.panel]
  · exact hbusy ▸ hlisted.panel.busy
  · exact hlink ▸ hname ▸ hlisted.panel.link
  · intro row hrow
    obtain ⟨drop, hdrop, heq⟩ := List.mem_map.mp (hgroups row hrow)
    obtain ⟨hhandle, hgroup⟩ := Prod.mk.inj heq
    exact ⟨drop, hdrop, hhandle.symm, hgroup.symm⟩
  · exact hconnected ▸ hlisted.connected

theorem send (h : w.Live) (paths : List PathBuf) : (w.send world paths).Live := by
  unfold Worker.send
  simp only
  have hstill := (do_send_talks world
    (((w.set_busy (some "Preparing…")).set_error none).set_share none none) paths).still
  rcases hsent : (((w.set_busy (some "Preparing…")).set_error none).set_share none none).do_send
    world paths with ⟨e | link, sent⟩
  all_goals
    rw [hsent] at hstill
    have hidle : (sent.set_busy none).Live :=
      (hstill.set_busy none).live ⟨h.state, ⟨rfl, rfl, h.panel.groups⟩, h.connected⟩
  · exact hidle.set_error (some e)
  · exact (hidle.note _).set_share link (send_label paths)

theorem receive (h : w.Live) (input : String) : (w.receive world input).Live := by
  unfold Worker.receive
  simp only
  have hstill := (w.connecting.do_receive_talks world input).still
  rcases hreceived : w.connecting.do_receive world input with ⟨e | handle, joined⟩
  all_goals
    rw [hreceived] at hstill
    have hidle : (joined.set_busy none).Live :=
      (hstill.set_busy none).live ⟨h.state, ⟨rfl, h.panel.link, h.panel.groups⟩, h.connected⟩
  · exact hidle.set_error (some e)
  · exact ⟨hidle.state, hidle.panel, hidle.connected⟩

theorem fetch (h : w.Live) (drop pick : String) : (w.fetch world drop pick).Live := by
  have hcall := (w.call_still world "offer.fetch" (gui.fetch_params drop pick)).live h
  unfold Worker.fetch
  rcases hcalled : w.call world "offer.fetch" (gui.fetch_params drop pick) with ⟨e | v, called⟩
  all_goals rw [hcalled] at hcall
  · exact hcall.set_error _
  · exact hcall

theorem ticket (h : w.Live) (handle name : String) : (w.ticket world handle name).Live := by
  have hcall := (w.call_still world "drop.ticket" (drop_params handle)).live h
  unfold Worker.ticket
  rcases hcalled : w.call world "drop.ticket" (drop_params handle) with ⟨e | v, called⟩
  all_goals rw [hcalled] at hcall
  · exact hcall.set_error _
  · exact (hcall.set_share _ _).set_error _

theorem answer_card (h : w.Live) (id : UInt64) (accept : Bool) :
    (w.answer_card world id accept).Live := by
  have hanswered : (w.answer world id (if accept then some accepting else none)).Live :=
    ⟨h.state, h.panel, h.connected⟩
  have hcards := hanswered.set_incoming (w.panel.incoming.filter fun card => card.id ≠ id)
  cases accept
  · exact hcards.note "Declined."
  · exact hcards

/-- A row that failed goes on again; the others stay. -/
theorem reopen_coherent (drop name : String) {row : Transfer} (h : row.Coherent) :
    (reopen drop name row).Coherent := by
  unfold reopen
  split
  · rename_i hfailed
    exact ⟨fun _ => ⟨rfl, h.failed hfailed.2.2⟩, by rintro ⟨⟩⟩
  · exact h

theorem obey (h : w.Live) (cmd : Cmd) : (w.obey world cmd).Live := by
  cases cmd with
  | Send paths => exact h.send paths
  | Receive input => exact h.receive input
  | Answer id accept => exact h.answer_card id accept
  | Forget handle => exact (w.call_still world _ _).live h
  | Fetch drop pick name => exact (h.note _).fetch drop pick
  | Retry drop name =>
    refine (h.set_transfers fun row hrow => ?_).fetch drop name
    obtain ⟨before, hbefore, rfl⟩ := List.mem_map.mp hrow
    exact reopen_coherent drop name (h.state.rows before hbefore)
  | ClearFinished =>
    exact h.set_transfers fun row hrow => h.state.rows row (List.mem_of_mem_filter hrow)
  | DismissError => exact h.set_error none
  | Ticket handle name => exact h.ticket handle name

theorem tick (h : w.Live) : (w.tick world).Live := by
  have hcards := h.set_incoming (w.panel.incoming.filter fun card => w.now world < card.expires_at)
  unfold Worker.tick
  simp only
  split
  · exact hcards.note _
  · exact hcards

theorem ask (h : w.Live) (ask : AskRequest) : (w.ask world ask).Live := by
  unfold Worker.ask
  split
  · exact ⟨h.state, h.panel, h.connected⟩
  · exact h.set_incoming _

theorem event (h : w.Live) (env : Envelope) : (w.event world env).Live := by
  have hevent : Live { w with bridge := w.bridge.apply_event env } :=
    ⟨Bridge.apply_event_sound h.state env, h.panel, h.connected⟩
  unfold Worker.event
  simp only
  split
  · exact hevent.refresh_status
  · exact hevent

theorem sound (h : w.Live) : w.Sound := ⟨h.state, h.panel, .inl h.connected⟩

end Live

/-! ## Runs -/

theorem Sound.step (h : w.Sound) (turn : Duration × Turn) : (w.step world turn).Sound := by
  unfold Worker.step
  split
  · rename_i hrunning
    have hlive : w.Live := by
      refine ⟨h.state, h.panel, h.gone.resolve_right fun hgone => ?_⟩
      rw [hgone.1] at hrunning
      cases hrunning
    have hslept := (w.sleep_still world turn.1).live hlive
    obtain ⟨length, _ | (_ | cmd) | (_ | ask) | (_ | env) | _⟩ := turn
    · exact hslept.tick.sound
    · exact ⟨hslept.state, hslept.panel, .inl hslept.connected⟩
    · exact (hslept.obey cmd).refresh_status.sound
    · exact hslept.sound
    · exact (hslept.ask ask).sound
    · exact hslept.sound
    · exact (hslept.event env).sound
    · exact ⟨hslept.state, ⟨hslept.panel.busy, hslept.panel.link, hslept.panel.groups⟩,
        .inr ⟨rfl, rfl⟩⟩
  · exact h

theorem opened_sound (client : σ) {lines : List String} (hlines : lines.length ≤ 200) :
    (opened world client lines).Sound := by
  have hshown : (shown world client lines).Live :=
    ⟨⟨hlines, by rintro _ ⟨⟩⟩, ⟨rfl, rfl, by rintro _ ⟨⟩⟩, rfl⟩
  exact hshown.refresh_status.sound

theorem start_sound {tiers : Tiers σ} (h : start world tiers = .ok w) : w.Sound := by
  have hone : ∀ client (line : String), (opened world client [line]).Sound := fun client line =>
    opened_sound client (show [line].length ≤ 200 by simp)
  obtain ⟨_ | client, _ | _, _ | again, _ | embedded⟩ := tiers
  all_goals
    unfold start at h
    cases h
  all_goals first
    | exact hone _ _
    | exact opened_sound _ (Nat.zero_le _)

/-- However the window finds its daemon, and whatever its user and the daemon do: the log stays
within its bound, each row is going on, failed or done, the banner is idle between two turns, a
link has a name, what can be had is in a drop that is shown, and the window says when the daemon
went away. -/
theorem window_is_sound (world : DaemonClient σ) (tiers : Tiers σ) (worker : Worker σ)
    (hstart : start world tiers = .ok worker) (turns : List (Duration × Turn)) :
    (worker.run world turns).Sound :=
  runs.invariant (fun _ turn h => h.step turn) (start_sound hstart) turns

end Laws

end Worker

/-! ## A window -/

namespace a_window

/-- A daemon that only tells the time, which goes on by as much as one sleeps. -/
def world : DaemonClient Nat where
  hello _ := .object [("endpoint_id", .string "k1")]
  now client := client
  call client _ _ := (.ok (.object []), client)
  answer client _ _ := client
  sleep client length := client + length
  call_later _ _ _ := le_refl _
  answer_later _ _ _ := le_refl _
  sleep_later _ _ := le_refl _

def tiers : Tiers Nat :=
  { attach := .ok 0, start_helper := false
    attach_again := .error ⟨"internal", ""⟩, embedded := .error ⟨"internal", ""⟩ }

/-- Its user sends a file, and then the daemon goes away. -/
def turns : List (Duration × Turn) :=
  [(5, .cmd (some (.Send [⟨some "/a.txt", some "a.txt"⟩]))), (7, .closed), (9, .tick)]

theorem its_states_are_sound :
    ((Worker.opened world 0 []).run world turns).Sound :=
  Worker.window_is_sound world tiers _ rfl turns

end a_window

end gui

end iroh_drop
