-- What the window asks of the daemon: the calls of the commands that its user gives, and no
-- other that changes anything. A link is shown once all its files are published (bridge.rs).
import IrohDrop.GuiWorker

open rust_std

namespace iroh_drop

namespace gui

/-! ## What the user asks for -/

/-- The paths before the first one that is no text. -/
def sent_paths : List PathBuf → List String
  | [] => []
  | path :: paths =>
    match path.to_str with
    | some path => path :: sent_paths paths
    | none => []

def all_texts (paths : List PathBuf) : Bool := paths.all fun path => path.to_str.isSome

def publish_call (handle : Value) (path : String) : Call :=
  ("offer.publish", publish_params handle path)

/-- The calls that share some paths as one new drop, when this drop has the handle. -/
def send_calls (handle : Value) (paths : List PathBuf) : List Call :=
  ("drop.create", .object [("name", .string (send_label paths))]) ::
    ((sent_paths paths).map (publish_call handle) ++
      if all_texts paths then [("drop.ticket", .object [("drop", handle)])] else [])

/-- What a command asks of the daemon. Sending stops at the first call that fails. -/
def Asks (cmd : Cmd) (made : List Call) : Prop :=
  match cmd with
  | .Send paths => ∃ handle, made <+: send_calls handle paths
  | .Receive input => made = (extract_ticket input.toList).toList.map fun ticket =>
      ("drop.join", .object [("ticket", .string (String.ofList ticket))])
  | .Forget handle => made = [("drop.leave", drop_params handle)]
  | .Fetch drop pick _ => made = [("offer.fetch", fetch_params drop pick)]
  | .Retry drop name => made = [("offer.fetch", fetch_params drop name)]
  | .Ticket handle _ => made = [("drop.ticket", drop_params handle)]
  | .Answer _ _ | .ClearFinished | .DismissError => made = []

/-- The command has made a link, under this name. -/
def Shares (name : String) (cmd : Cmd) (made : List Call) : Prop :=
  match cmd with
  | .Send paths => (∃ handle, made = send_calls handle paths) ∧ all_texts paths = true ∧
      name = send_label paths
  | .Ticket _ label => name = label
  | _ => False

/-- It takes the link off that is shown. -/
def Cmd.sends : Cmd → Bool
  | .Send _ => true
  | _ => false

section Laws

variable {σ : Type} (world : DaemonClient σ)

namespace Worker

/-- The command that a turn is about. -/
def commanded (self : Worker σ) (turn : Duration × Turn) : List Cmd :=
  if self.running then
    match turn.2 with
    | .cmd (some cmd) => [cmd]
    | _ => []
  else []

/-- All commands that the worker took. -/
def commands (self : Worker σ) (turns : List (Duration × Turn)) : List Cmd :=
  runs.collect (step world) commanded self turns

/-! ## What the operations call -/

/-- These calls were made that change something, and the link is as it was. -/
structure Makes (made : List Call) (w w' : Worker σ) : Prop where
  calls : w'.calls.filter changes = w.calls.filter changes ++ made
  share_link : w'.panel.share_link = w.panel.share_link
  share_link_name : w'.panel.share_link_name = w.panel.share_link_name

namespace Makes

variable {made made' : List Call} {w w' w'' : Worker σ}

theorem refl (w : Worker σ) : Makes [] w w := ⟨(List.append_nil _).symm, rfl, rfl⟩

theorem trans (h : Makes made w w') (h' : Makes made' w' w'') : Makes (made ++ made') w w'' :=
  ⟨by rw [h'.calls, h.calls, List.append_assoc], h'.share_link.trans h.share_link,
    h'.share_link_name.trans h.share_link_name⟩

/-- An operation that makes no calls, after others. -/
theorem quiet (h : Makes made w w') (h' : Makes [] w' w'') : Makes made w w'' := by
  have htrans := h.trans h'
  rwa [List.append_nil] at htrans

end Makes

variable (w : Worker σ)

theorem call_makes {method : String} (params : Value) (h : changes (method, params) = true) :
    Makes [(method, params)] w (w.call world method params).2 where
  calls := by
    change (w.calls ++ [(method, params)]).filter changes = _
    rw [List.filter_append, List.filter_cons_of_pos h, List.filter_nil]
  share_link := rfl
  share_link_name := rfl

theorem look_makes {method : String} (params : Value) (h : changes (method, params) = false) :
    Makes [] w (w.call world method params).2 where
  calls := by
    change (w.calls ++ [(method, params)]).filter changes = _
    rw [List.filter_append, List.filter_cons_of_neg (by simp [h]), List.filter_nil]
  share_link := rfl
  share_link_name := rfl

theorem sleep_makes (length : Duration) : Makes [] w (w.sleep world length) :=
  ⟨(List.append_nil _).symm, rfl, rfl⟩

theorem set_busy_makes (busy : Option String) : Makes [] w (w.set_busy busy) :=
  ⟨(List.append_nil _).symm, rfl, rfl⟩

theorem set_error_makes (error : Option String) : Makes [] w (w.set_error error) :=
  ⟨(List.append_nil _).symm, rfl, rfl⟩

theorem note_makes (line : String) : Makes [] w (w.note line) :=
  ⟨(List.append_nil _).symm, rfl, rfl⟩

theorem set_transfers_makes (transfers : List Transfer) : Makes [] w (w.set_transfers transfers) :=
  ⟨(List.append_nil _).symm, rfl, rfl⟩

/-- What only looks at the daemon makes no calls that change it. -/
theorem Talks.makes {w w' : Worker σ} (h : Talks world true w w') : Makes [] w w' := by
  induction h with
  | refl => exact .refl _
  | call _ method params hlook ih => exact ih.quiet (look_makes world _ params (hlook rfl))
  | sleep _ length ih => exact ih.quiet (sleep_makes world _ length)

theorem refresh_status_makes : Makes [] w (w.refresh_status world) := by
  have hstatus := w.look_makes world (.object [])
    (show changes ("daemon.status", _) = false from rfl)
  have hlisted := (w.call world "daemon.status" (.object [])).2.look_makes world (.object [])
    (show changes ("drop.list", _) = false from rfl)
  have hasked := hstatus.quiet hlisted
  unfold refresh_status
  simp only
  generalize (w.call world "daemon.status" (.object [])).1 = status
  generalize (w.call world "daemon.status" (.object [])).2 = asked at hasked ⊢
  generalize (asked.call world "drop.list" (.object [])).1 = listed
  generalize (asked.call world "drop.list" (.object [])).2 = asked at hasked ⊢
  have hpanel : Makes [] asked { asked with panel := asked.show_status status listed } := by
    rcases status with _ | _ <;> rcases listed with _ | _ <;>
      exact ⟨(List.append_nil _).symm, rfl, rfl⟩
  have hrows := (list_available_talks world
    { asked with panel := asked.show_status status listed }
    ((asked.show_status status listed).drops.map fun d => (d.handle, d.name))).makes
  have hall := (hasked.quiet hpanel).quiet hrows
  exact ⟨hall.calls, hall.share_link, hall.share_link_name⟩

theorem receive_makes (input : String) :
    Makes ((extract_ticket input.toList).toList.map fun ticket =>
      ("drop.join", .object [("ticket", .string (String.ofList ticket))])) w
      (w.receive world input) := by
  have hconnecting : Makes [] w w.connecting :=
    (w.set_busy_makes _).quiet (set_error_makes _ none)
  have hreceive : Makes ((extract_ticket input.toList).toList.map fun ticket =>
      ("drop.join", .object [("ticket", .string (String.ofList ticket))])) w
      (w.connecting.do_receive world input).2 := by
    unfold do_receive
    rcases extract_ticket input.toList with _ | ticket
    · exact hconnecting
    · have hjoin := w.connecting.call_makes world
        (.object [("ticket", .string (String.ofList ticket))])
        (show changes ("drop.join", _) = true from rfl)
      have hmade := hconnecting.trans hjoin
      simp only
      rcases hjoined : w.connecting.call world "drop.join"
        (.object [("ticket", .string (String.ofList ticket))]) with ⟨e | joined, called⟩
      all_goals rw [hjoined] at hmade
      · exact hmade
      · exact hmade.quiet ((called.poll_talks world _ _).makes)
  unfold receive
  simp only
  rcases hreceived : w.connecting.do_receive world input with ⟨e | handle, joined⟩
  all_goals
    rw [hreceived] at hreceive
    have hidle := hreceive.quiet (joined.set_busy_makes none)
  · exact hidle.quiet (set_error_makes _ _)
  · exact ⟨hidle.calls, hidle.share_link, hidle.share_link_name⟩

theorem fetch_makes (drop pick : String) :
    Makes [("offer.fetch", fetch_params drop pick)] w (w.fetch world drop pick) := by
  have hcall := w.call_makes world (fetch_params drop pick)
    (show changes ("offer.fetch", _) = true from rfl)
  unfold fetch
  rcases hcalled : w.call world "offer.fetch" (fetch_params drop pick) with ⟨e | v, called⟩
  all_goals rw [hcalled] at hcall
  · exact hcall.quiet (called.set_error_makes _)
  · exact hcall

theorem answer_card_makes (id : UInt64) (accept : Bool) :
    Makes [] w (w.answer_card world id accept) := by
  cases accept <;> exact ⟨(List.append_nil _).symm, rfl, rfl⟩

theorem tick_makes : Makes [] w (w.tick world) := by
  unfold tick
  simp only
  split <;> exact ⟨(List.append_nil _).symm, rfl, rfl⟩

theorem ask_makes (ask : AskRequest) : Makes [] w (w.ask world ask) := by
  unfold Worker.ask
  split <;> exact ⟨(List.append_nil _).symm, rfl, rfl⟩

theorem event_makes (env : Envelope) : Makes [] w (w.event world env) := by
  have hevent : Makes [] w { w with bridge := w.bridge.apply_event env } :=
    ⟨(List.append_nil _).symm, rfl, rfl⟩
  unfold event
  simp only
  split
  · exact hevent.quiet (refresh_status_makes world _)
  · exact hevent

/-! ## Sending -/

/-- The loop publishes the paths in their order, up to the first that fails. -/
theorem publish_makes (handle : Value) (paths : List PathBuf) :
    ∃ made, Makes made w (w.publish world handle paths).2 ∧
      made <+: (sent_paths paths).map (publish_call handle) ∧
      ((w.publish world handle paths).1 = none →
        made = (sent_paths paths).map (publish_call handle) ∧ all_texts paths = true) := by
  induction paths generalizing w with
  | nil => exact ⟨[], .refl w, List.nil_prefix, fun _ => ⟨rfl, rfl⟩⟩
  | cons path paths ih =>
    unfold publish sent_paths all_texts
    rw [List.all_cons]
    rcases path.to_str with _ | path
    · exact ⟨[], .refl w, List.nil_prefix, by rintro ⟨⟩⟩
    · have hcall := w.call_makes world (publish_params handle path)
        (show changes ("offer.publish", _) = true from rfl)
      simp only
      rcases hcalled : w.call world "offer.publish" (publish_params handle path) with ⟨e | v, called⟩
      all_goals rw [hcalled] at hcall
      · exact ⟨[publish_call handle path], hcall, ⟨_, rfl⟩, by rintro ⟨⟩⟩
      · obtain ⟨made, hmade, hfirst, hall⟩ := ih called
        refine ⟨publish_call handle path :: made, hcall.trans hmade, ?_, fun hnone => ?_⟩
        · rw [List.map_cons]
          exact (List.prefix_cons_inj _).mpr hfirst
        · obtain ⟨hmade, htexts⟩ := hall hnone
          rw [hmade]
          exact ⟨rfl, htexts⟩

theorem do_send_makes (paths : List PathBuf) :
    ∃ handle made, Makes made w (w.do_send world paths).2 ∧ made <+: send_calls handle paths ∧
      ∀ link, (w.do_send world paths).1 = .ok link →
        made = send_calls handle paths ∧ all_texts paths = true := by
  have hcreate := w.call_makes world (.object [("name", .string (send_label paths))])
    (show changes ("drop.create", _) = true from rfl)
  unfold do_send send_calls
  rcases hcreated : w.call world "drop.create" (.object [("name", .string (send_label paths))])
    with ⟨e | v, created⟩
  all_goals
    rw [hcreated] at hcreate
    simp only
  · exact ⟨.null, _, hcreate, ⟨_, rfl⟩, by rintro _ ⟨⟩⟩
  · obtain ⟨published, hpublish, hfirst, hall⟩ :=
      created.publish_makes world ((v.get "drop").getD .null) paths
    refine ⟨(v.get "drop").getD .null, ?_⟩
    rcases hdone : created.publish world ((v.get "drop").getD .null) paths with ⟨_ | e, after⟩
    all_goals rw [hdone] at hpublish hall
    · obtain ⟨rfl, htexts⟩ := hall rfl
      have hticket := after.call_makes world (.object [("drop", (v.get "drop").getD .null)])
        (show changes ("drop.ticket", _) = true from rfl)
      rw [htexts, if_pos rfl]
      simp only
      rcases hticketed : after.call world "drop.ticket"
        (.object [("drop", (v.get "drop").getD .null)]) with ⟨e | ticket, ticketed⟩
      all_goals
        rw [hticketed] at hticket
        exact ⟨_, hcreate.trans (hpublish.trans hticket), List.prefix_rfl, fun _ _ => ⟨rfl, trivial⟩⟩
    · refine ⟨_, hcreate.trans hpublish, ?_, by rintro _ ⟨⟩⟩
      exact (List.prefix_cons_inj _).mpr (hfirst.trans (List.prefix_append _ _))

/-! ## What a command does -/

/-- These calls were made for a command, and the link that is shown is its own. Only a command
that sends takes a link off. -/
structure Serves (cmd : Cmd) (made : List Call) (w w' : Worker σ) : Prop where
  calls : w'.calls.filter changes = w.calls.filter changes ++ made
  asks : Asks cmd made
  link : w'.panel.share_link.isSome = true →
    (∃ name, w'.panel.share_link_name = some name ∧ Shares name cmd made) ∨
      (cmd.sends = false ∧ w.panel.share_link.isSome = true ∧
        w'.panel.share_link_name = w.panel.share_link_name)

variable {w} {w' w'' : Worker σ} {cmd : Cmd} {made : List Call}

theorem Serves.quiet (h : Serves cmd made w w') (h' : Makes [] w' w'') : Serves cmd made w w'' where
  calls := by rw [h'.calls, h.calls, List.append_nil]
  asks := h.asks
  link hlink := by
    rw [h'.share_link_name]
    exact h.link (h'.share_link ▸ hlink)

theorem Makes.serves (h : Makes made w w') (hasks : Asks cmd made) (hsends : cmd.sends = false) :
    Serves cmd made w w' where
  calls := h.calls
  asks := hasks
  link hlink := .inr ⟨hsends, h.share_link ▸ hlink, h.share_link_name⟩

variable (w)

theorem send_serves (paths : List PathBuf) :
    ∃ made, Serves (.Send paths) made w (w.send world paths) := by
  have hbusy : Makes [] w ((w.set_busy (some "Preparing…")).set_error none) :=
    (w.set_busy_makes _).quiet (set_error_makes _ none)
  unfold send
  simp only
  obtain ⟨handle, made, hmade, hfirst, hall⟩ :=
    (((w.set_busy (some "Preparing…")).set_error none).set_share none none).do_send_makes world paths
  have hcalls := hmade.calls
  have hnone := hmade.share_link
  rw [show (((w.set_busy (some "Preparing…")).set_error none).set_share none none).calls.filter
    changes = w.calls.filter changes from rfl] at hcalls
  rcases hsent : (((w.set_busy (some "Preparing…")).set_error none).set_share none none).do_send
    world paths with ⟨e | link, sent⟩
  all_goals rw [hsent] at hcalls hnone hall
  · refine ⟨made, hcalls, ⟨handle, hfirst⟩, fun hlink => ?_⟩
    rw [show ((sent.set_busy none).set_error (some e)).panel.share_link = sent.panel.share_link
      from rfl, hnone] at hlink
    cases hlink
  · obtain ⟨hdone, htexts⟩ := hall link rfl
    exact ⟨made, hcalls, ⟨handle, hfirst⟩,
      fun _ => .inl ⟨send_label paths, rfl, ⟨handle, hdone⟩, htexts, rfl⟩⟩

theorem ticket_serves (handle name : String) :
    Serves (.Ticket handle name) [("drop.ticket", drop_params handle)] w
      (w.ticket world handle name) := by
  have hcall := w.call_makes world (drop_params handle)
    (show changes ("drop.ticket", _) = true from rfl)
  unfold ticket
  rcases hcalled : w.call world "drop.ticket" (drop_params handle) with ⟨e | v, called⟩
  all_goals rw [hcalled] at hcall
  · exact (hcall.quiet (called.set_error_makes _)).serves rfl rfl
  · exact ⟨hcall.calls, rfl, fun _ => .inl ⟨name, rfl, rfl⟩⟩

theorem obey_serves (cmd : Cmd) : ∃ made, Serves cmd made w (w.obey world cmd) := by
  cases cmd with
  | Send paths => exact w.send_serves world paths
  | Ticket handle name => exact ⟨_, w.ticket_serves world handle name⟩
  | Receive input => exact ⟨_, (w.receive_makes world input).serves rfl rfl⟩
  | Answer id accept => exact ⟨_, (w.answer_card_makes world id accept).serves rfl rfl⟩
  | Forget handle =>
    have hcall := w.call_makes world (drop_params handle)
      (show changes ("drop.leave", _) = true from rfl)
    exact ⟨_, hcall.serves rfl rfl⟩
  | Fetch drop pick name =>
    have hfetch := (w.note_makes s!"getting {name}").trans (fetch_makes world _ drop pick)
    exact ⟨_, hfetch.serves rfl rfl⟩
  | Retry drop name =>
    have hfetch := (w.set_transfers_makes (w.transfers.map (reopen drop name))).trans
      (fetch_makes world _ drop name)
    exact ⟨_, hfetch.serves rfl rfl⟩
  | ClearFinished => exact ⟨_, (w.set_transfers_makes _).serves rfl rfl⟩
  | DismissError => exact ⟨_, (w.set_error_makes none).serves rfl rfl⟩

/-! ## Runs -/

/-- The calls that were made for each of the commands. A link that is shown was made by one of
them, and nothing was sent since. -/
structure Did (cmds : List Cmd) (made : List (List Call)) (w : Worker σ) : Prop where
  asks : List.Forall₂ Asks cmds made
  calls : w.calls.filter changes = made.flatten
  link : w.panel.share_link.isSome = true →
    ∃ name past cmd calls rest, w.panel.share_link_name = some name ∧
      cmds.zip made = past ++ (cmd, calls) :: rest ∧ Shares name cmd calls ∧
      ∀ later ∈ rest, later.1.sends = false

variable {w} {cmds : List Cmd} {all : List (List Call)}

theorem Did.quiet (h : Did cmds all w) (h' : Makes [] w w') : Did cmds all w' where
  asks := h.asks
  calls := by rw [h'.calls, h.calls, List.append_nil]
  link hlink := by
    rw [h'.share_link_name]
    exact h.link (h'.share_link ▸ hlink)

theorem Did.serve (h : Did cmds all w) (h' : Serves cmd made w w') :
    Did (cmds ++ [cmd]) (all ++ [made]) w' where
  asks := List.rel_append h.asks (.cons h'.asks .nil)
  calls := by rw [h'.calls, h.calls, List.flatten_append, List.flatten_singleton]
  link hlink := by
    have hzip : (cmds ++ [cmd]).zip (all ++ [made]) = cmds.zip all ++ [(cmd, made)] :=
      List.zip_append h.asks.length_eq
    rcases h'.link hlink with ⟨name, hname, hshares⟩ | ⟨hsends, hbefore, hsame⟩
    · exact ⟨name, cmds.zip all, cmd, made, [], hname, hzip, hshares, by rintro _ ⟨⟩⟩
    · obtain ⟨name, past, first, calls, rest, hname, hsplit, hshares, hlater⟩ := h.link hbefore
      refine ⟨name, past, first, calls, rest ++ [(cmd, made)], hsame.trans hname, ?_, hshares, ?_⟩
      · rw [hzip, hsplit, List.append_assoc, List.cons_append]
      · intro later hmem
        rcases List.mem_append.mp hmem with hmem | hmem
        · exact hlater later hmem
        · rw [List.mem_singleton.mp hmem]
          exact hsends

theorem Did.step (h : Did cmds all w) (turn : Duration × Turn) :
    ∃ more, Did (cmds ++ w.commanded turn) (all ++ more) (w.step world turn) := by
  have hsame : ∀ w', Makes [] w w' → ∃ more, Did (cmds ++ []) (all ++ more) w' := by
    intro w' hmakes
    refine ⟨[], ?_⟩
    rw [List.append_nil, List.append_nil]
    exact h.quiet hmakes
  unfold Worker.step commanded
  split
  · have hsleep := w.sleep_makes world turn.1
    obtain ⟨length, _ | (_ | cmd) | (_ | ask) | (_ | env) | _⟩ := turn
    · exact hsame _ (hsleep.quiet (tick_makes world _))
    · exact hsame _ ⟨hsleep.calls, hsleep.share_link, hsleep.share_link_name⟩
    · obtain ⟨made, hserves⟩ := (w.sleep world length).obey_serves world cmd
      exact ⟨[made], ((h.quiet hsleep).serve hserves).quiet (refresh_status_makes world _)⟩
    · exact hsame _ hsleep
    · exact hsame _ (hsleep.quiet (ask_makes world _ ask))
    · exact hsame _ hsleep
    · exact hsame _ (hsleep.quiet (event_makes world _ env))
    · exact hsame _ ⟨hsleep.calls, hsleep.share_link, hsleep.share_link_name⟩
  · exact hsame _ (.refl w)

theorem Did.run (h : Did [] [] w) (turns : List (Duration × Turn)) :
    ∃ all, Did (w.commands world turns) all (w.run world turns) := by
  induction turns using List.reverseRecOn with
  | nil => exact ⟨[], h⟩
  | append_singleton turns turn ih =>
    obtain ⟨all, hall⟩ := ih
    obtain ⟨more, hmore⟩ := hall.step world turn
    refine ⟨all ++ more, ?_⟩
    unfold commands Worker.run at hmore ⊢
    rw [runs.collect_concat, runs.run_concat]
    exact hmore

end Worker

end Laws

end gui

end iroh_drop
