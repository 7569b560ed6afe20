-- The law of consent at the window: which questions it answers by itself, which ones it shows,
-- and for how long (bridge.rs).
import IrohDrop.GuiWorker

open rust_std

namespace iroh_drop

namespace gui

/-! ## What consent is -/

/-- What happens at the window that its answers are about, and when. -/
inductive Notice where
  | received (handle : String) (at_ : Instant)
  | asked (ask : AskRequest) (at_ : Instant)
  | clicked (id : UInt64) (accept : Bool)
  | pruned (at_ : Instant)

namespace Notice

/-- The user asked for this drop, less than the grace before. -/
def consented (past : List Notice) (handle : String) (now : Instant) : Bool :=
  past.any fun
    | received other at_ => other = handle && now - at_ < RECEIVE_GRACE
    | _ => false

/-- The answer that goes out: the one that the user gives, and one to each question that the
user has answered already. -/
def answer (past : List Notice) : Notice → Option (UInt64 × Option Value)
  | asked ask now =>
    if consented past (ask.p.str_of "drop") now then some (ask.id, some accepting) else none
  | clicked id accept => some (id, if accept then some accepting else none)
  | _ => none

/-- The card of a question that the user has to answer. -/
def card (past : List Notice) : Notice → Option Incoming
  | asked ask now =>
    if consented past (ask.p.str_of "drop") now then none else some (incoming_of ask now)
  | _ => none

/-- A card stays until the user answers it, or it is seen to have expired. -/
def keeps (notice : Notice) (card : Incoming) : Bool :=
  match notice with
  | clicked id _ => card.id ≠ id
  | pruned now => now < card.expires_at
  | _ => true

/-- All answers, oldest first. -/
def answers (past : List Notice) : List Notice → List (UInt64 × Option Value)
  | [] => []
  | notice :: rest => (answer past notice).toList ++ answers (past ++ [notice]) rest

/-- The cards that are there in the end, oldest first. -/
def cards (past : List Notice) : List Notice → List Incoming
  | [] => []
  | notice :: rest =>
    (card past notice).toList.filter (fun card => rest.all fun later => later.keeps card) ++
      cards (past ++ [notice]) rest

theorem answers_concat (past notices : List Notice) (notice : Notice) :
    answers past (notices ++ [notice]) =
      answers past notices ++ (answer (past ++ notices) notice).toList := by
  induction notices generalizing past with
  | nil => simp [answers]
  | cons first rest ih =>
    simp only [List.cons_append, answers, ih, List.append_assoc, List.nil_append]

theorem cards_concat (past notices : List Notice) (notice : Notice) :
    cards past (notices ++ [notice]) =
      (cards past notices).filter (fun card => notice.keeps card) ++
        (card (past ++ notices) notice).toList := by
  induction notices generalizing past with
  | nil => simp [cards]
  | cons first rest ih =>
    simp only [List.cons_append, cards, ih, List.append_assoc, List.nil_append,
      List.filter_append, List.filter_filter, List.all_append, List.all_cons, List.all_nil,
      Bool.and_true]
    congr 2
    funext card
    exact Bool.and_comm _ _

end Notice

section Laws

variable {σ : Type} (world : DaemonClient σ)

namespace Worker

/-- What a turn is for the answers. -/
def noticed (self : Worker σ) : Turn → List Notice
  | .tick => [.pruned (self.now world)]
  | .ask (some ask) => [.asked ask (self.now world)]
  | .cmd (some (.Answer id accept)) => [.clicked id accept]
  | .cmd (some (.Receive input)) =>
    match self.connecting.do_receive world input with
    | (.ok handle, joined) => [.received handle (joined.now world)]
    | (.error _, _) => []
  | _ => []

def notices (self : Worker σ) (turn : Duration × Turn) : List Notice :=
  if self.running then (self.sleep world turn.1).noticed world turn.2 else []

/-- All that was noticed in a run. -/
def history (self : Worker σ) (turns : List (Duration × Turn)) : List Notice :=
  runs.collect (step world) (notices world) self turns

/-! ## What most operations leave alone -/

structure Leaves (w w' : Worker σ) : Prop where
  requested : w'.requested = w.requested
  answers : w'.answers = w.answers
  incoming : w'.panel.incoming = w.panel.incoming
  later : w.now world ≤ w'.now world

namespace Leaves

variable {world} {w w' w'' : Worker σ}

theorem refl (w : Worker σ) : Leaves world w w := ⟨rfl, rfl, rfl, le_refl _⟩

theorem trans (h : Leaves world w w') (h' : Leaves world w' w'') : Leaves world w w'' :=
  ⟨h'.requested.trans h.requested, h'.answers.trans h.answers, h'.incoming.trans h.incoming,
    le_trans h.later h'.later⟩

end Leaves

variable (w : Worker σ)

theorem call_leaves (method : String) (params : Value) :
    Leaves world w (w.call world method params).2 :=
  ⟨rfl, rfl, rfl, world.call_later w.client method params⟩

theorem sleep_leaves (length : Duration) : Leaves world w (w.sleep world length) :=
  ⟨rfl, rfl, rfl, le_trans (Nat.le_add_right _ _) (world.sleep_later w.client length)⟩

/-- Whatever is said to the daemon. -/
theorem Talks.leaves {look : Bool} {w w' : Worker σ} (h : Talks world look w w') :
    Leaves world w w' := by
  induction h with
  | refl => exact .refl _
  | call _ method params _ ih => exact ih.trans (call_leaves world _ method params)
  | sleep _ length ih => exact ih.trans (sleep_leaves world _ length)

theorem show_status_incoming (status listed : Except ApiError Value) :
    (w.show_status status listed).incoming = w.panel.incoming := by
  rcases status with _ | _ <;> rcases listed with _ | _ <;> rfl

theorem refresh_status_leaves : Leaves world w (w.refresh_status world) := by
  have hstatus := w.call_leaves world "daemon.status" (.object [])
  have hlisted := (w.call world "daemon.status" (.object [])).2.call_leaves world "drop.list"
    (.object [])
  unfold refresh_status
  simp only
  refine (hstatus.trans hlisted).trans ?_
  generalize (w.call world "daemon.status" (.object [])).1 = status
  generalize (w.call world "daemon.status" (.object [])).2 = asked
  generalize (asked.call world "drop.list" (.object [])).1 = listed
  generalize (asked.call world "drop.list" (.object [])).2 = asked
  have hpanel : Leaves world asked { asked with panel := asked.show_status status listed } :=
    ⟨rfl, rfl, asked.show_status_incoming status listed, le_refl _⟩
  refine hpanel.trans ?_
  have hrows := (list_available_talks world
    { asked with panel := asked.show_status status listed }
    ((asked.show_status status listed).drops.map fun d => (d.handle, d.name))).leaves
  exact ⟨hrows.requested, hrows.answers, hrows.incoming, hrows.later⟩

theorem set_busy_leaves (busy : Option String) : Leaves world w (w.set_busy busy) :=
  ⟨rfl, rfl, rfl, le_refl _⟩

theorem set_error_leaves (error : Option String) : Leaves world w (w.set_error error) :=
  ⟨rfl, rfl, rfl, le_refl _⟩

theorem set_share_leaves (link name : Option String) : Leaves world w (w.set_share link name) :=
  ⟨rfl, rfl, rfl, le_refl _⟩

theorem note_leaves (line : String) : Leaves world w (w.note line) := ⟨rfl, rfl, rfl, le_refl _⟩

theorem set_transfers_leaves (transfers : List Transfer) :
    Leaves world w (w.set_transfers transfers) :=
  ⟨rfl, rfl, rfl, le_refl _⟩

theorem send_leaves (paths : List PathBuf) : Leaves world w (w.send world paths) := by
  have hbusy := w.set_busy_leaves world (some "Preparing…")
  have herror := (w.set_busy (some "Preparing…")).set_error_leaves world none
  have hshare := ((w.set_busy (some "Preparing…")).set_error none).set_share_leaves world none none
  have hstart := (hbusy.trans herror).trans hshare
  unfold send
  simp only
  generalize ((w.set_busy (some "Preparing…")).set_error none).set_share none none = started
    at hstart ⊢
  have hsend := hstart.trans ((started.do_send_talks world paths).leaves)
  rcases hsent : started.do_send world paths with ⟨e | link, sent⟩
  all_goals
    rw [hsent] at hsend
    have hdone := hsend.trans (sent.set_busy_leaves world none)
  · exact hdone.trans (set_error_leaves world _ _)
  · exact (hdone.trans (note_leaves world _ _)).trans (set_share_leaves world _ _ _)

theorem fetch_leaves (drop pick : String) : Leaves world w (w.fetch world drop pick) := by
  have hcall := w.call_leaves world "offer.fetch" (fetch_params drop pick)
  unfold fetch
  rcases hcalled : w.call world "offer.fetch" (fetch_params drop pick) with ⟨e | v, called⟩
  all_goals rw [hcalled] at hcall
  · exact hcall.trans (called.set_error_leaves world _)
  · exact hcall

theorem ticket_leaves (handle name : String) : Leaves world w (w.ticket world handle name) := by
  have hcall := w.call_leaves world "drop.ticket" (drop_params handle)
  unfold ticket
  rcases hcalled : w.call world "drop.ticket" (drop_params handle) with ⟨e | v, called⟩
  all_goals rw [hcalled] at hcall
  · exact hcall.trans (called.set_error_leaves world _)
  · exact (hcall.trans (called.set_share_leaves world _ _)).trans (set_error_leaves world _ _)

theorem event_leaves (env : Envelope) : Leaves world w (w.event world env) := by
  have hevent : Leaves world w { w with bridge := w.bridge.apply_event env } :=
    ⟨rfl, rfl, rfl, le_refl _⟩
  unfold event
  simp only
  split
  · exact hevent.trans (refresh_status_leaves world _)
  · exact hevent

theorem closed_leaves : Leaves world w w.closed := ⟨rfl, rfl, rfl, le_refl _⟩

/-! ## What the window remembers -/

/-- The window has answered, and shows, what the notices of the past say. -/
structure Follows (past : List Notice) (w : Worker σ) : Prop where
  last : ∀ handle at_, .received handle at_ ∈ past →
    ∃ latest, w.requested.lookup handle = some latest ∧ at_ ≤ latest
  told : ∀ handle latest, w.requested.lookup handle = some latest → .received handle latest ∈ past
  gone : ∀ handle at_, .received handle at_ ∈ past → at_ ≤ w.now world
  answers : w.answers = Notice.answers [] past
  incoming : w.panel.incoming = Notice.cards [] past

variable {world} {w} {past : List Notice} {w' : Worker σ}

theorem Follows.leaves (h : Follows world past w) (hleaves : Leaves world w w') :
    Follows world past w' where
  last := by
    rw [hleaves.requested]
    exact h.last
  told := by
    rw [hleaves.requested]
    exact h.told
  gone handle at_ hmem := le_trans (h.gone handle at_ hmem) hleaves.later
  answers := hleaves.answers.trans h.answers
  incoming := hleaves.incoming.trans h.incoming

theorem Notice.consented_iff {handle : String} {now : Instant} :
    Notice.consented past handle now = true ↔
      ∃ at_, .received handle at_ ∈ past ∧ now - at_ < RECEIVE_GRACE := by
  unfold Notice.consented
  rw [List.any_eq_true]
  constructor
  · rintro ⟨notice, hmem, hnotice⟩
    cases notice with
    | received other at_ =>
      simp only [Bool.and_eq_true, decide_eq_true_eq] at hnotice
      obtain ⟨rfl, hgrace⟩ := hnotice
      exact ⟨at_, hmem, hgrace⟩
    | asked | clicked | pruned => cases hnotice
  · rintro ⟨at_, hmem, hgrace⟩
    exact ⟨.received handle at_, hmem, by simpa using hgrace⟩

/-- The last time counts, and it is the latest. -/
theorem Follows.solicited (h : Follows world past w) (handle : String) :
    w.solicited world handle = Notice.consented past handle (w.now world) := by
  rw [Bool.eq_iff_iff, Notice.consented_iff]
  unfold Worker.solicited
  rw [Option.any_eq_true]
  constructor
  · rintro ⟨latest, hlatest, hgrace⟩
    exact ⟨latest, h.told handle latest hlatest, of_decide_eq_true hgrace⟩
  · rintro ⟨at_, hmem, hgrace⟩
    obtain ⟨latest, hlatest, hle⟩ := h.last handle at_ hmem
    refine ⟨latest, hlatest, decide_eq_true ?_⟩
    exact lt_of_le_of_lt (Nat.sub_le_sub_left hle _) hgrace

/-- A notice that is no receipt is one more answer, or one card more or less. -/
theorem Follows.concat (h : Follows world past w) {notice : Notice}
    (hother : ∀ handle at_, notice ≠ .received handle at_)
    (hrequested : w'.requested = w.requested) (hlater : w.now world ≤ w'.now world)
    (hanswers : w'.answers = w.answers ++ (notice.answer past).toList)
    (hincoming : w'.panel.incoming =
      w.panel.incoming.filter (fun card => notice.keeps card) ++ (notice.card past).toList) :
    Follows world (past ++ [notice]) w' where
  last handle at_ hmem := by
    rw [hrequested]
    rcases List.mem_append.mp hmem with hmem | hmem
    · exact h.last handle at_ hmem
    · exact absurd (List.mem_singleton.mp hmem).symm (hother handle at_)
  told handle latest hlatest := by
    rw [hrequested] at hlatest
    exact List.mem_append_left _ (h.told handle latest hlatest)
  gone handle at_ hmem := by
    rcases List.mem_append.mp hmem with hmem | hmem
    · exact le_trans (h.gone handle at_ hmem) hlater
    · exact absurd (List.mem_singleton.mp hmem).symm (hother handle at_)
  answers := by rw [hanswers, h.answers, Notice.answers_concat, List.nil_append]
  incoming := by rw [hincoming, h.incoming, Notice.cards_concat, List.nil_append]

/-- A receipt is remembered with its time, and nothing was received later. -/
theorem Follows.received (h : Follows world past w) (handle : String) :
    Follows world (past ++ [.received handle (w.now world)])
      { w with requested := w.requested.insert handle (w.now world) } where
  last other at_ hmem := by
    have hle : at_ ≤ w.now world := by
      rcases List.mem_append.mp hmem with hmem | hmem
      · exact h.gone other at_ hmem
      · cases List.mem_singleton.mp hmem
        exact le_refl _
    by_cases hother : other = handle
    · subst hother
      exact ⟨w.now world, AList.lookup_insert _, hle⟩
    · have hmem : Notice.received other at_ ∈ past := by
        rcases List.mem_append.mp hmem with hmem | hmem
        · exact hmem
        · cases List.mem_singleton.mp hmem
          exact absurd rfl hother
      obtain ⟨latest, hlatest, hle⟩ := h.last other at_ hmem
      exact ⟨latest, (AList.lookup_insert_ne hother).trans hlatest, hle⟩
  told other latest hlatest := by
    by_cases hother : other = handle
    · subst hother
      cases Option.some.inj ((AList.lookup_insert _).symm.trans hlatest)
      exact List.mem_append_right _ (List.mem_singleton_self _)
    · have hlatest := (AList.lookup_insert_ne hother).symm.trans hlatest
      exact List.mem_append_left _ (h.told other latest hlatest)
  gone other at_ hmem := by
    rcases List.mem_append.mp hmem with hmem | hmem
    · exact h.gone other at_ hmem
    · cases List.mem_singleton.mp hmem
      exact le_refl _
  answers := by
    rw [Notice.answers_concat, ← h.answers]
    exact (List.append_nil _).symm
  incoming := by
    rw [Notice.cards_concat, ← h.incoming]
    exact ((List.append_nil _).trans (List.filter_eq_self.mpr fun _ _ => rfl)).symm

/-! ## One turn -/

theorem Follows.tick (h : Follows world past w) :
    Follows world (past ++ [.pruned (w.now world)]) (w.tick world) := by
  have hpruned : Follows world (past ++ [.pruned (w.now world)])
      { w with panel := { w.panel with
        incoming := w.panel.incoming.filter fun card => w.now world < card.expires_at } } := by
    refine h.concat (by rintro _ _ ⟨⟩) rfl (le_refl _) (List.append_nil _).symm ?_
    exact (List.append_nil _).symm
  unfold Worker.tick
  simp only
  split
  · exact hpruned.leaves (note_leaves world _ _)
  · exact hpruned

theorem Follows.ask (h : Follows world past w) (ask : AskRequest) :
    Follows world (past ++ [.asked ask (w.now world)]) (w.ask world ask) := by
  have hkeeps : w.panel.incoming.filter
      (fun card => (Notice.asked ask (w.now world)).keeps card) = w.panel.incoming :=
    List.filter_eq_self.mpr fun _ _ => rfl
  unfold Worker.ask
  rw [h.solicited]
  split
  · rename_i hconsented
    refine h.concat (by rintro _ _ ⟨⟩) rfl (world.answer_later _ _ _) ?_ ?_
    · rw [Notice.answer, if_pos hconsented]
      rfl
    · rw [hkeeps, Notice.card, if_pos hconsented]
      exact (List.append_nil _).symm
  · rename_i hasks
    refine h.concat (by rintro _ _ ⟨⟩) rfl (le_refl _) ?_ ?_
    · rw [Notice.answer, if_neg hasks]
      exact (List.append_nil _).symm
    · rw [hkeeps, Notice.card, if_neg hasks]
      rfl

theorem Follows.answer_card (h : Follows world past w) (id : UInt64) (accept : Bool) :
    Follows world (past ++ [.clicked id accept]) (w.answer_card world id accept) := by
  have hanswered : Follows world (past ++ [.clicked id accept])
      { w.answer world id (if accept then some accepting else none) with
        panel := { w.panel with
          incoming := w.panel.incoming.filter fun card => card.id ≠ id } } := by
    refine h.concat (by rintro _ _ ⟨⟩) rfl (world.answer_later _ _ _) rfl ?_
    exact (List.append_nil _).symm
  cases accept
  · exact hanswered.leaves (note_leaves world _ _)
  · exact hanswered

theorem Follows.receive (h : Follows world past w) (input : String) :
    Follows world (past ++ w.noticed world (.cmd (some (.Receive input))))
      (w.receive world input) := by
  have hconnecting : Leaves world w w.connecting :=
    (w.set_busy_leaves world _).trans (set_error_leaves world _ _)
  have hreceive := hconnecting.trans (w.connecting.do_receive_talks world input).leaves
  unfold Worker.receive noticed
  simp only
  rcases hreceived : w.connecting.do_receive world input with ⟨e | handle, joined⟩
  all_goals rw [hreceived] at hreceive
  · have hidle := (hreceive.trans (joined.set_busy_leaves world none)).trans
      (set_error_leaves world _ (some e))
    rw [List.append_nil]
    exact h.leaves hidle
  · have hidle := hreceive.trans (joined.set_busy_leaves world none)
    exact (h.leaves hidle).received handle

theorem Follows.obey (h : Follows world past w) (cmd : Cmd) :
    Follows world (past ++ w.noticed world (.cmd (some cmd))) (w.obey world cmd) := by
  have hsame : ∀ w', Leaves world w w' → Follows world (past ++ []) w' := by
    intro w' hleaves
    rw [List.append_nil]
    exact h.leaves hleaves
  cases cmd with
  | Answer id accept => exact h.answer_card id accept
  | Receive input => exact h.receive input
  | Send paths => exact hsame _ (w.send_leaves world paths)
  | Forget handle => exact hsame _ (w.call_leaves world _ _)
  | Fetch drop pick name =>
    exact hsame _ ((w.note_leaves world _).trans (fetch_leaves world _ drop pick))
  | Retry drop name =>
    exact hsame _ ((w.set_transfers_leaves world _).trans (fetch_leaves world _ drop name))
  | ClearFinished => exact hsame _ (w.set_transfers_leaves world _)
  | DismissError => exact hsame _ (w.set_error_leaves world none)
  | Ticket handle name => exact hsame _ (w.ticket_leaves world handle name)

theorem Follows.take (h : Follows world past w) (turn : Turn) :
    Follows world (past ++ w.noticed world turn) (w.take world turn) := by
  have hsame : ∀ w', Leaves world w w' → Follows world (past ++ []) w' := by
    intro w' hleaves
    rw [List.append_nil]
    exact h.leaves hleaves
  rcases turn with _ | (_ | cmd) | (_ | ask) | (_ | env) | _
  · exact h.tick
  · exact hsame _ ⟨rfl, rfl, rfl, le_refl _⟩
  · exact (h.obey cmd).leaves (refresh_status_leaves world _)
  · exact hsame _ (.refl w)
  · exact h.ask ask
  · exact hsame _ (.refl w)
  · exact hsame _ (w.event_leaves world env)
  · exact hsame _ (w.closed_leaves world)

theorem Follows.step (h : Follows world past w) (turn : Duration × Turn) :
    Follows world (past ++ w.notices world turn) (w.step world turn) := by
  unfold Worker.step notices
  split
  · exact (h.leaves (w.sleep_leaves world turn.1)).take turn.2
  · rw [List.append_nil]
    exact h

theorem Follows.run (h : Follows world [] w) (turns : List (Duration × Turn)) :
    Follows world (w.history world turns) (w.run world turns) := by
  induction turns using List.reverseRecOn with
  | nil => exact h
  | append_singleton turns turn ih =>
    have hstep := ih.step turn
    unfold history Worker.run at hstep ⊢
    rw [runs.collect_concat, runs.run_concat]
    exact hstep

theorem opened_follows (world : DaemonClient σ) (client : σ) (lines : List String) :
    Follows world [] (opened world client lines) := by
  have hshown : Follows world [] (shown world client lines) :=
    { last := by rintro _ _ ⟨⟩, told := by rintro _ _ ⟨⟩, gone := by rintro _ _ ⟨⟩
      answers := rfl, incoming := rfl }
  exact hshown.leaves (refresh_status_leaves world _)

/-- The window gives the answers that its user gives, and accepts by itself only what comes from
a drop that the user asked for less than the grace before. It shows all other questions, each
until the user answers it or it is seen to have expired. -/
theorem questions_wait_for_their_user (world : DaemonClient σ) (client : σ) (lines : List String)
    (turns : List (Duration × Turn)) :
    let worker := opened world client lines
    (worker.run world turns).answers = Notice.answers [] (worker.history world turns) ∧
      (worker.run world turns).panel.incoming = Notice.cards [] (worker.history world turns) := by
  intro worker
  have hfollows := (opened_follows world client lines).run turns
  exact ⟨hfollows.answers, hfollows.incoming⟩

end Worker

end Laws

end gui

end iroh_drop
