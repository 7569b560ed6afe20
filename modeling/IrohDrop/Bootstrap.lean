-- The law of bootstrap peers: a catch-up goes on to the next peer as long as
-- no peer sends a frame, and stops at the first one that does.
import IrohDrop.CatchUp

open rust_std postcard

namespace iroh_drop

/-! ## Budgets -/

/-- The leading frames that the budgets of an attempt let pass. -/
def within_budgets : Nat → Nat → List Bytes → List Bytes
  | _, _, [] => []
  | total, total_bytes, frame :: frames =>
    if total + 1 > MAX_TOTAL_FRAMES ∨ total_bytes + frame.length > MAX_TOTAL_BYTES_PER_ATTEMPT then
      []
    else frame :: within_budgets (total + 1) (total_bytes + frame.length) frames

/-- The budgets go on where the frames before left them, if these passed. -/
theorem within_budgets_append (total total_bytes : Nat) (frames rest : List Bytes) :
    (within_budgets total total_bytes frames = frames ∧
      within_budgets total total_bytes (frames ++ rest) =
        frames ++ within_budgets (total + frames.length)
          (total_bytes + DropState.bytes_of frames) rest) ∨
    (within_budgets total total_bytes frames ≠ frames ∧
      within_budgets total total_bytes (frames ++ rest) =
        within_budgets total total_bytes frames) := by
  induction frames generalizing total total_bytes with
  | nil => exact .inl ⟨rfl, rfl⟩
  | cons frame frames ih =>
    simp only [List.cons_append, within_budgets]
    split
    · exact .inr ⟨List.cons_ne_nil _ _ ∘ Eq.symm, rfl⟩
    · rcases ih (total + 1) (total_bytes + frame.length) with ⟨hall, happend⟩ | ⟨hsome, happend⟩
      · refine .inl ⟨by rw [hall], ?_⟩
        have hbytes : DropState.bytes_of (frame :: frames) =
            frame.length + DropState.bytes_of frames := List.sum_cons
        rw [happend, hbytes, List.length_cons, Nat.add_assoc total_bytes, Nat.add_assoc total,
          Nat.add_comm 1]
      · exact .inr ⟨fun h => hsome (List.cons.inj h).2, by rw [happend]⟩

section Laws

variable [Crypto]

/-! ## What a peer sends -/

/-- The pages that a peer sends to a session that follows its cursors, if no
budget but that of the pages ends the attempt. -/
def sent_pages (joiner : Session) (peer : SyncPeer) (page_size : UInt16) :
    Nat → UInt64 → List SyncResponseV1
  | 0, _ => []
  | left + 1, cursor =>
    match request_op SyncResponseV1.codec (peer.remotes left) OP_SYNC_PAGE
        (SyncRequestV1.codec.write (page_request joiner peer.id page_size cursor)) with
    | .ok (some response) =>
      if response.version ≠ WIRE_VERSION then []
      else response :: match response.next_cursor with
        | none => []
        | some next => if next > cursor then sent_pages joiner peer page_size left next else []
    | _ => []

/-- The frames of these pages, from the first one on. -/
def sent_frames (joiner : Session) (peer : SyncPeer) : List Bytes :=
  if !peer.connects then []
  else match negotiate (request_op HelloV1.codec peer.hello OP_HELLO []) with
    | none => []
    | some page_size =>
      (sent_pages joiner peer page_size MAX_PAGES_PER_ATTEMPT 0).flatMap SyncResponseV1.frames

/-- The frames that the session looks at. -/
def heard_frames (joiner : Session) (peer : SyncPeer) : List Bytes :=
  within_budgets 0 0 (sent_frames joiner peer)

theorem heard_frames_nil {joiner : Session} {peer : SyncPeer} (h : sent_frames joiner peer = []) :
    heard_frames joiner peer = [] := by
  rw [heard_frames, h]
  rfl

theorem page_request_congr {a b : Session} (h : b.toSessionConfig = a.toSessionConfig)
    (peer : EndpointId) (page_size : UInt16) (cursor : UInt64) :
    page_request b peer page_size cursor = page_request a peer page_size cursor := by
  have htopic : b.topic_id = a.topic_id := congrArg SessionConfig.topic_id h
  have hdrop : b.drop_key = a.drop_key := congrArg SessionConfig.drop_key h
  have hself : b.self_id = a.self_id := congrArg (fun c : SessionConfig => c.secret.public) h
  unfold page_request
  rw [htopic, hdrop, hself]

/-! ## One attempt -/

/-- What became of the frames of a page or of an attempt: those that the
budgets let pass are replayed, and the first one is always counted. -/
structure Pulled (joiner : Session) (pull : Pull) (sent : List Bytes) (spent : Prop) (pull' : Pull) :
    Prop where
  config : pull'.session.toSessionConfig = joiner.toSessionConfig
  frames : pull'.frames = pull.frames ++ within_budgets pull.total pull.total_bytes sent
  total : pull.total ≤ pull'.total
  counted : sent ≠ [] → pull.total < pull'.total
  spent : spent → sent ≠ []
  silent : sent = [] → pull'.session = pull.session ∧ pull'.total = pull.total

/-- Nothing is sent, and nothing is heard. -/
theorem Pulled.none {joiner : Session} {pull : Pull}
    (hconfig : pull.session.toSessionConfig = joiner.toSessionConfig) {spent : Prop}
    (hspent : ¬ spent) : Pulled joiner pull [] spent pull :=
  ⟨hconfig, (List.append_nil _).symm, Nat.le_refl _, fun h => absurd rfl h,
    fun h => absurd h hspent, fun _ => ⟨rfl, rfl⟩⟩

/-- The first frame exceeds a budget: it is counted, and not replayed. -/
theorem Pulled.cut {joiner : Session} {pull pull' : Pull}
    (hconfig : pull.session.toSessionConfig = joiner.toSessionConfig)
    (hsession : pull'.session = pull.session) (hreplays : pull'.replays = pull.replays)
    (htotal : pull'.total = pull.total + 1) {frame : Bytes} {frames : List Bytes}
    (hcut : within_budgets pull.total pull.total_bytes (frame :: frames) = []) {spent : Prop} :
    Pulled joiner pull (frame :: frames) spent pull' := by
  refine ⟨hsession ▸ hconfig, ?_, by omega, fun _ => by omega, fun _ => List.cons_ne_nil _ _, ?_⟩
  · rw [hcut, List.append_nil, Pull.frames, hreplays]
    rfl
  · intro h
    cases h

theorem replay_page_heard {joiner : Session} {peer : EndpointId} {arrivals : Nat → Arrival}
    {frames : List Bytes} {pull pull' : Pull} {done : Bool}
    (hconfig : pull.session.toSessionConfig = joiner.toSessionConfig)
    (h : replay_page peer arrivals frames pull = (done, pull')) :
    Pulled joiner pull frames (done = false) pull' ∧
      (within_budgets pull.total pull.total_bytes frames = frames ↔ done = true) ∧
      (done = true → pull'.cursor = pull.cursor ∧ pull'.total = pull.total + frames.length ∧
        pull'.total_bytes = pull.total_bytes + DropState.bytes_of frames) := by
  induction frames generalizing pull with
  | nil =>
    cases h
    exact ⟨.none hconfig Bool.noConfusion, ⟨fun _ => rfl, fun _ => rfl⟩, fun _ => ⟨rfl, rfl, rfl⟩⟩
  | cons frame frames ih =>
    have hone : DropState.bytes_of (frame :: frames) =
        frame.length + DropState.bytes_of frames := List.sum_cons
    unfold replay_page at h
    simp only at h
    by_cases hover : pull.total + 1 > MAX_TOTAL_FRAMES ∨
        pull.total_bytes + frame.length > MAX_TOTAL_BYTES_PER_ATTEMPT
    · have hcut : within_budgets pull.total pull.total_bytes (frame :: frames) = [] := if_pos hover
      have hstop : (false, { pull with total := pull.total + 1
                                       total_bytes := pull.total_bytes + frame.length }) =
          (done, pull') := by
        rw [← h]
        rcases hover with hframes | hbytes
        · rw [if_pos hframes]
        · rw [if_pos hbytes, ite_self]
      cases hstop
      refine ⟨?_, ?_, Bool.noConfusion⟩
      · apply Pulled.cut hconfig _ _ _ hcut <;> rfl
      · rw [hcut]
        exact ⟨fun h => absurd h.symm (List.cons_ne_nil _ _), Bool.noConfusion⟩
    · obtain ⟨hframes, hbytes⟩ := not_or.mp hover
      have hpass : within_budgets pull.total pull.total_bytes (frame :: frames) =
          frame :: within_budgets (pull.total + 1) (pull.total_bytes + frame.length) frames :=
        if_neg hover
      rw [if_neg hframes, if_neg hbytes] at h
      generalize hnext : Pull.take _ frame peer _ = next at h
      have hconfig' : next.session.toSessionConfig = joiner.toSessionConfig := by
        rw [← hnext]
        exact (take_config _ frame peer _).trans hconfig
      have htotal : next.total = pull.total + 1 := by rw [← hnext]; rfl
      have hsize : next.total_bytes = pull.total_bytes + frame.length := by rw [← hnext]; rfl
      have hcursor : next.cursor = pull.cursor := by rw [← hnext]; rfl
      have hreplayed : next.frames = pull.frames ++ [frame] := by
        rw [← hnext]
        simp [Pull.take, Pull.frames]
      obtain ⟨hheard, hiff, hdone⟩ := ih hconfig' h
      have hle := hheard.total
      refine ⟨⟨hheard.config, ?_, by omega, fun _ => by omega, fun _ => List.cons_ne_nil _ _, ?_⟩,
        ?_, ?_⟩
      · rw [hheard.frames, hpass, hreplayed, htotal, hsize, List.append_assoc,
          List.singleton_append]
      · intro h
        cases h
      · rw [hpass, List.cons_inj_right, ← htotal, ← hsize]
        exact hiff
      · intro heq
        obtain ⟨hcursor', hlen, hbytes'⟩ := hdone heq
        refine ⟨hcursor'.trans hcursor, ?_, ?_⟩
        · rw [hlen, htotal, List.length_cons]
          omega
        · rw [hbytes', hsize, hone]
          omega

/-- What follows a page that the budgets cut off is not heard. -/
theorem Pulled.cut_off {joiner : Session} {pull pull' : Pull} {sent : List Bytes} {spent : Prop}
    (h : Pulled joiner pull sent spent pull') (hspent : spent)
    (hcut : within_budgets pull.total pull.total_bytes sent ≠ sent) (rest : List Bytes)
    {spent' : Prop} : Pulled joiner pull (sent ++ rest) spent' pull' := by
  have hsent : sent ++ rest ≠ [] := fun hnil => h.spent hspent (List.append_eq_nil_iff.mp hnil).1
  have happend := (within_budgets_append pull.total pull.total_bytes sent rest).resolve_left
    (fun hall => hcut hall.1)
  refine ⟨h.config, ?_, h.total, fun _ => h.counted (h.spent hspent), fun _ => hsent,
    fun hnil => absurd hnil hsent⟩
  rw [happend.2]
  exact h.frames

/-- What follows a page that was heard to its end. -/
theorem Pulled.then {joiner : Session} {pull pull₁ pull' : Pull} {sent rest : List Bytes}
    {spent spent' : Prop} (h : Pulled joiner pull sent spent pull₁)
    (hall : within_budgets pull.total pull.total_bytes sent = sent)
    (htotal : pull₁.total = pull.total + sent.length)
    (hbytes : pull₁.total_bytes = pull.total_bytes + DropState.bytes_of sent)
    (hrest : Pulled joiner pull₁ rest spent' pull') :
    Pulled joiner pull (sent ++ rest) spent' pull' := by
  have happend := (within_budgets_append pull.total pull.total_bytes sent rest).resolve_right
    (fun hcut => hcut.1 hall)
  refine ⟨hrest.config, ?_, h.total.trans hrest.total, ?_, ?_, ?_⟩
  · rw [hrest.frames, h.frames, happend.2, htotal, hbytes, hall, List.append_assoc]
  · intro hsent
    by_cases hnil : sent = []
    · have hmore : rest ≠ [] := by
        rw [hnil, List.nil_append] at hsent
        exact hsent
      exact h.total.trans_lt (hrest.counted hmore)
    · exact (h.counted hnil).trans_le hrest.total
  · intro hspent hnil
    exact hrest.spent hspent (List.append_eq_nil_iff.mp hnil).2
  · intro hnil
    obtain ⟨hpage, hmore⟩ := List.append_eq_nil_iff.mp hnil
    obtain ⟨hsession, hsame⟩ := hrest.silent hmore
    obtain ⟨hsession₁, hsame₁⟩ := h.silent hpage
    exact ⟨hsession.trans hsession₁, hsame.trans hsame₁⟩

theorem pull_pages_heard {joiner : Session} {peer : SyncPeer} {page_size : UInt16} {left : Nat}
    {pull pull' : Pull} {ended : PullEnd}
    (hconfig : pull.session.toSessionConfig = joiner.toSessionConfig)
    (h : pull_pages peer.id page_size peer.remotes peer.arrivals left pull = (ended, pull')) :
    Pulled joiner pull
      ((sent_pages joiner peer page_size left pull.cursor).flatMap SyncResponseV1.frames)
      (ended = .frame_budget) pull' := by
  induction left generalizing pull with
  | zero =>
    cases h
    exact .none hconfig PullEnd.noConfusion
  | succ left ih =>
    unfold pull_pages at h
    unfold sent_pages
    simp only [page_request_congr hconfig] at h
    rcases hop : request_op SyncResponseV1.codec (peer.remotes left) OP_SYNC_PAGE
        (SyncRequestV1.codec.write (page_request joiner peer.id page_size pull.cursor))
      with e | _ | response
    · rw [hop] at h
      cases h
      exact .none hconfig PullEnd.noConfusion
    · rw [hop] at h
      cases h
      exact .none hconfig PullEnd.noConfusion
    rw [hop] at h
    simp only at h ⊢
    by_cases hversion : response.version ≠ WIRE_VERSION
    · rw [if_pos hversion] at h ⊢
      cases h
      exact .none hconfig PullEnd.noConfusion
    rw [if_neg hversion] at h ⊢
    rw [List.flatMap_cons]
    rcases hreplay : replay_page peer.id peer.arrivals response.frames pull with ⟨done, pull₁⟩
    obtain ⟨hheard, hiff, hdone⟩ := replay_page_heard hconfig hreplay
    rw [hreplay] at h
    cases done with
    | false =>
      -- The budgets cut the page off, and with it the attempt.
      cases h
      exact hheard.cut_off rfl (fun hall => Bool.noConfusion (hiff.mp hall)) _
    | true =>
      obtain ⟨hcursor, htotal, hbytes⟩ := hdone rfl
      refine hheard.then (hiff.mpr rfl) htotal hbytes ?_
      simp only at h
      rcases hnext : response.next_cursor with _ | next
      · rw [hnext] at h
        cases h
        exact .none hheard.config PullEnd.noConfusion
      · simp only [hnext, hcursor] at h ⊢
        by_cases hgt : next > pull.cursor
        · rw [if_pos hgt] at h ⊢
          have hrest := @ih { pull₁ with cursor := next } hheard.config h
          exact ⟨hrest.config, hrest.frames, hrest.total, hrest.counted, hrest.spent, hrest.silent⟩
        · rw [if_neg hgt] at h ⊢
          cases h
          exact .none hheard.config PullEnd.noConfusion

/-- The attempt before anything came. -/
def Pull.start (joiner : Session) : Pull :=
  { session := joiner, cursor := 0, total := 0, total_bytes := 0, replays := [] }

theorem sync_from_heard (joiner : Session) (peer : SyncPeer) :
    Pulled joiner (.start joiner) (sent_frames joiner peer)
      ((sync_from joiner peer).1 = some .frame_budget) (sync_from joiner peer).2 := by
  have hunasked : Pulled joiner (.start joiner) [] ((none : Option PullEnd) = some .frame_budget)
      (.start joiner) := Pulled.none (by rfl) (by simp)
  unfold sync_from sent_frames
  simp only
  split
  · exact hunasked
  · rcases negotiate (request_op HelloV1.codec peer.hello OP_HELLO []) with _ | page_size
    · exact hunasked
    · simp only
      rcases hpull : pull_pages peer.id page_size peer.remotes peer.arrivals MAX_PAGES_PER_ATTEMPT
        { session := joiner, cursor := 0, total := 0, total_bytes := 0, replays := [] }
        with ⟨ended, pull⟩
      have hheard := @pull_pages_heard _ joiner peer page_size _ (.start joiner) pull ended rfl hpull
      refine ⟨hheard.config, hheard.frames, hheard.total, hheard.counted, ?_, hheard.silent⟩
      intro hspent
      exact hheard.spent (Option.some.inj hspent)

/-- What an attempt replays is what the session looks at. -/
theorem sync_from_frames (joiner : Session) (peer : SyncPeer) :
    (sync_from joiner peer).2.frames = heard_frames joiner peer :=
  (sync_from_heard joiner peer).frames

/-- An attempt is the last one just when the peer sends a frame. -/
theorem last_attempt_iff (joiner : Session) (peer : SyncPeer) :
    ((sync_from joiner peer).1 = some .frame_budget ∨ (sync_from joiner peer).2.total > 0) ↔
      sent_frames joiner peer ≠ [] := by
  have hheard := sync_from_heard joiner peer
  constructor
  · rintro (hspent | htotal)
    · exact hheard.spent hspent
    · intro hnil
      have hzero : (sync_from joiner peer).2.total = 0 := (hheard.silent hnil).2
      omega
  · intro hsent
    exact .inr (hheard.counted hsent)

/-! ## All attempts -/

/-- The peers that a catch-up turns to, in order, and how each attempt went. -/
def attempts (self : Session) : List SyncPeer → List (SyncPeer × Pull)
  | [] => []
  | peer :: peers =>
    if self.mode = .Sealed ∧ self.drop_key = none then []
    else
      let (ended, pull) := sync_from self peer
      (peer, pull) ::
        if ended = some .frame_budget ∨ pull.total > 0 then [] else attempts pull.session peers

/-- The peers that are asked. -/
def asked (joiner : Session) (peers : List SyncPeer) : List SyncPeer :=
  (attempts joiner peers).map Prod.fst

/-- A catch-up leaves the session as its last attempt does. -/
theorem sync_catchup_attempts (s : Session) (peers : List SyncPeer) :
    sync_catchup s peers = ((attempts s peers).getLast?.map (fun a => a.2.session)).getD s := by
  induction peers generalizing s with
  | nil => rfl
  | cons peer peers ih =>
    unfold sync_catchup attempts
    split
    · rfl
    · simp only
      split
      · rfl
      · rw [ih, List.getLast?_cons]
        rcases (attempts (sync_from s peer).2.session peers).getLast? with _ | a <;> rfl

/-- A member that may ask for history: any but a blind relay. -/
def MayAsk (joiner : Session) : Prop := ¬(joiner.mode = .Sealed ∧ joiner.drop_key = none)

/-- Past the peers that send nothing, the catch-up goes on as it began. -/
theorem attempts_silent {joiner : Session} (hkey : MayAsk joiner) {before : List SyncPeer}
    (h : ∀ peer ∈ before, sent_frames joiner peer = []) (rest : List SyncPeer) :
    attempts joiner (before ++ rest) =
      before.map (fun peer => (peer, (sync_from joiner peer).2)) ++ attempts joiner rest := by
  induction before with
  | nil => rfl
  | cons peer before ih =>
    have hsilent := h peer List.mem_cons_self
    have hgoes : ¬((sync_from joiner peer).1 = some .frame_budget ∨
        (sync_from joiner peer).2.total > 0) :=
      fun hlast => (last_attempt_iff joiner peer).mp hlast hsilent
    have hsession : (sync_from joiner peer).2.session = joiner :=
      ((sync_from_heard joiner peer).silent hsilent).1
    have hrest := ih (fun p hp => h p (List.mem_cons_of_mem _ hp))
    rw [List.cons_append, attempts, if_neg hkey]
    simp only [if_neg hgoes, hsession, hrest, List.map_cons, List.cons_append]

/-- A peer that sends a frame is the last one. -/
theorem attempts_talker {joiner : Session} (hkey : MayAsk joiner) {talker : SyncPeer}
    (h : sent_frames joiner talker ≠ []) (rest : List SyncPeer) :
    attempts joiner (talker :: rest) = [(talker, (sync_from joiner talker).2)] := by
  rw [attempts, if_neg hkey]
  simp only [if_pos ((last_attempt_iff joiner talker).mpr h)]

/-- The peers up to the first one that sends a frame. -/
structure FirstTalker (joiner : Session) (peers : List SyncPeer) (silent : List SyncPeer)
    (talker : SyncPeer) (rest : List SyncPeer) : Prop where
  split : peers = silent ++ talker :: rest
  silent : ∀ peer ∈ silent, sent_frames joiner peer = []
  talks : sent_frames joiner talker ≠ []

theorem first_talker (joiner : Session) (peers : List SyncPeer) :
    (∀ peer ∈ peers, sent_frames joiner peer = []) ∨
      ∃ silent talker rest, FirstTalker joiner peers silent talker rest := by
  induction peers with
  | nil =>
    left
    intro peer hpeer
    cases hpeer
  | cons peer peers ih =>
    by_cases hsent : sent_frames joiner peer = []
    · rcases ih with hall | ⟨silent, talker, rest, hfirst⟩
      · left
        intro p hp
        rcases List.mem_cons.mp hp with rfl | hp
        · exact hsent
        · exact hall p hp
      · refine .inr ⟨peer :: silent, talker, rest, ?_, ?_, hfirst.talks⟩
        · rw [hfirst.split, List.cons_append]
        · intro p hp
          rcases List.mem_cons.mp hp with rfl | hp
          · exact hsent
          · exact hfirst.silent p hp
    · refine .inr ⟨[], peer, peers, rfl, ?_, hsent⟩
      intro p hp
      cases hp

theorem FirstTalker.attempts {joiner : Session} (hkey : MayAsk joiner)
    {peers silent rest : List SyncPeer} {talker : SyncPeer}
    (h : FirstTalker joiner peers silent talker rest) :
    attempts joiner peers =
      (silent ++ [talker]).map (fun peer => (peer, (sync_from joiner peer).2)) := by
  rw [h.split, attempts_silent hkey h.silent, attempts_talker hkey h.talks, List.map_append]
  rfl

theorem FirstTalker.asked {joiner : Session} (hkey : MayAsk joiner)
    {peers silent rest : List SyncPeer} {talker : SyncPeer}
    (h : FirstTalker joiner peers silent talker rest) :
    asked joiner peers = silent ++ [talker] := by
  unfold iroh_drop.asked
  rw [h.attempts hkey, List.map_map]
  exact List.map_id _

/-! ## An honest peer -/

/-- The frame is one of the drop: it verifies for the session. -/
def Verifies (s : Session) (frame : Bytes) : Prop :=
  ∃ verified, Session.decode_for_session s.toSessionConfig frame = .ok verified

/-- A member of the drop that can be reached, keeps frames of the drop alone,
and answers the first request with a page that is not empty. -/
structure HonestPeer (joiner : Session) (peer : SyncPeer) (sessions : SessionRegistry)
    (other : Session) : Prop extends ServedBy peer sessions joiner other where
  connects : peer.connects = true
  genuine : ∀ frame ∈ other.state.sync_log, Verifies joiner frame
  answers_first : ∃ page_size,
    negotiate (request_op HelloV1.codec peer.hello OP_HELLO []) = some page_size ∧
      ∃ response, request_op SyncResponseV1.codec (peer.remotes (MAX_PAGES_PER_ATTEMPT - 1))
        OP_SYNC_PAGE (SyncRequestV1.codec.write (page_request joiner peer.id page_size 0)) =
          .ok (some response) ∧ response.frames ≠ []

/-- The page of an honest peer is heard, and it is a page of its log. So its
joiner is no blind relay. -/
theorem HonestPeer.heard {joiner other : Session} {peer : SyncPeer} {sessions : SessionRegistry}
    (h : HonestPeer joiner peer sessions other) :
    MayAsk joiner ∧ ∃ frame ∈ heard_frames joiner peer, Verifies joiner frame := by
  obtain ⟨page_size, hnegotiate, response, hop, hframes⟩ := h.answers_first
  generalize hrequest : page_request joiner peer.id page_size 0 = request at hop
  have hpage : response = sync_page sessions request joiner.self_id := by
    rcases h.answers (MAX_PAGES_PER_ATTEMPT - 1)
      (control_request OP_SYNC_PAGE (SyncRequestV1.codec.write request)) with hnone | hserve
    · rw [request_op, hnone] at hop
      cases hop
    · exact request_op_page hserve hop
  have hhosted : sessions ⟨request.topic_id⟩ = some other := by
    rw [← hrequest, page_request_topic]
    exact h.hosted
  have hserves : serves other request joiner.self_id = true := by
    by_contra hno
    refine hframes ?_
    rw [hpage]
    simp only [sync_page, hhosted, if_neg hno]
    rfl
  have hkey : MayAsk joiner := by
    rintro ⟨hsealed, hdrop⟩
    rw [serves, h.mode, hsealed, h.drop_key, hdrop] at hserves
    cases hserves
  refine ⟨hkey, ?_⟩
  have hlog : response.frames ⊆ other.state.sync_log := by
    intro frame hframe
    rw [hpage] at hframe
    simp only [sync_page, hhosted, hserves, if_true, session_page_frames] at hframe
    exact List.mem_of_mem_drop (List.mem_of_mem_take (List.mem_of_mem_take hframe))
  have hversion : ¬ response.version ≠ WIRE_VERSION :=
    fun hne => hne (hpage ▸ sync_page_version _ _ _)
  -- The first frame of the page is within the budgets.
  obtain ⟨frame, frames, hcons⟩ := List.exists_cons_of_ne_nil hframes
  obtain ⟨verified, hdecode⟩ := h.genuine frame (hlog (hcons ▸ List.mem_cons_self))
  have hsize := Session.decode_for_session_length hdecode
  have hfits : ¬(0 + 1 > MAX_TOTAL_FRAMES ∨ 0 + frame.length > MAX_TOTAL_BYTES_PER_ATTEMPT) := by
    have hmax : MAX_MESSAGE_SIZE ≤ MAX_TOTAL_BYTES_PER_ATTEMPT := by decide
    have hcount : 0 < MAX_TOTAL_FRAMES := by decide
    omega
  refine ⟨frame, ?_, verified, hdecode⟩
  have hsent : ∃ rest, sent_frames joiner peer = frame :: rest := by
    have hleft : MAX_PAGES_PER_ATTEMPT = (MAX_PAGES_PER_ATTEMPT - 1) + 1 := by decide
    unfold sent_frames
    rw [h.connects, hnegotiate, hleft]
    simp only [Bool.not_true, Bool.false_eq_true, if_false]
    rw [sent_pages, hrequest, hop]
    simp only [if_neg hversion, List.flatMap_cons, hcons, List.cons_append]
    exact ⟨_, rfl⟩
  obtain ⟨rest, hsent⟩ := hsent
  rw [heard_frames, hsent, within_budgets, if_neg hfits]
  exact List.mem_cons_self

/-- A catch-up that leaves a peer unasked has heard a frame that verifies. -/
def StopsFairly (joiner : Session) (peers : List SyncPeer) : Prop :=
  asked joiner peers ≠ peers →
    ∃ attempt ∈ attempts joiner peers, ∃ frame ∈ attempt.2.frames, Verifies joiner frame

/-- An honest peer is asked just when no peer before it sends a frame. A
catch-up that stops early has heard a frame that verifies just when the first
peer before it that sends any sends one. -/
theorem honest_peer_asked_iff (joiner other : Session) (sessions : SessionRegistry)
    (before after : List SyncPeer) (honest : SyncPeer)
    (h : HonestPeer joiner honest sessions other) :
    ((before ++ [honest] <+: asked joiner (before ++ honest :: after) ∧
        StopsFairly joiner (before ++ honest :: after)) ↔
      ∀ peer ∈ before, sent_frames joiner peer = []) ∧
    (StopsFairly joiner (before ++ honest :: after) ↔
      ∀ silent talker rest, FirstTalker joiner before silent talker rest →
        ∃ frame ∈ heard_frames joiner talker, Verifies joiner frame) := by
  obtain ⟨hkey, frame, hframe, hverifies⟩ := h.heard
  have htalks : sent_frames joiner honest ≠ [] := by
    intro hnil
    rw [heard_frames_nil hnil] at hframe
    cases hframe
  -- When nobody before it talks, the honest peer is the first one to talk.
  have hreached : (∀ peer ∈ before, sent_frames joiner peer = []) →
      FirstTalker joiner (before ++ honest :: after) before honest after :=
    fun hsilent => ⟨rfl, hsilent, htalks⟩
  have hlater : ∀ {silent talker rest}, FirstTalker joiner before silent talker rest →
      FirstTalker joiner (before ++ honest :: after) silent talker
        (rest ++ honest :: after) := by
    intro silent talker rest hfirst
    refine ⟨?_, hfirst.silent, hfirst.talks⟩
    rw [hfirst.split]
    simp
  have hfair : StopsFairly joiner (before ++ honest :: after) ↔
      ∀ silent talker rest, FirstTalker joiner before silent talker rest →
        ∃ frame ∈ heard_frames joiner talker, Verifies joiner frame := by
    constructor
    · intro hstops silent talker rest hfirst
      have hall := (hlater hfirst).attempts hkey
      have hfew : asked joiner (before ++ honest :: after) ≠ before ++ honest :: after := by
        intro heq
        have hlen := congrArg List.length heq
        rw [(hlater hfirst).asked hkey, hfirst.split] at hlen
        simp at hlen
      obtain ⟨attempt, hattempt, frame', hframe', hverifies'⟩ := hstops hfew
      rw [hall, List.mem_map] at hattempt
      obtain ⟨peer, hpeer, rfl⟩ := hattempt
      rw [sync_from_frames] at hframe'
      rcases List.mem_append.mp hpeer with hsilent | hlast
      · rw [heard_frames_nil (hfirst.silent peer hsilent)] at hframe'
        cases hframe'
      · rw [List.mem_singleton.mp hlast] at hframe'
        exact ⟨frame', hframe', hverifies'⟩
    · intro hgenuine _
      rcases first_talker joiner before with hsilent | ⟨silent, talker, rest, hfirst⟩
      · refine ⟨(honest, (sync_from joiner honest).2), ?_, frame, ?_, hverifies⟩
        · rw [(hreached hsilent).attempts hkey]
          exact List.mem_map_of_mem (List.mem_append_right _ (List.mem_singleton_self honest))
        · rw [sync_from_frames]
          exact hframe
      · obtain ⟨frame', hframe', hverifies'⟩ := hgenuine silent talker rest hfirst
        refine ⟨(talker, (sync_from joiner talker).2), ?_, frame', ?_, hverifies'⟩
        · rw [(hlater hfirst).attempts hkey]
          exact List.mem_map_of_mem (List.mem_append_right _ (List.mem_singleton_self talker))
        · rw [sync_from_frames]
          exact hframe'
  refine ⟨?_, hfair⟩
  constructor
  · rintro ⟨hasked, -⟩
    rcases first_talker joiner before with hsilent | ⟨silent, talker, rest, hfirst⟩
    · exact hsilent
    · -- The catch-up ends before it comes to the honest peer.
      exfalso
      have hlen := hasked.length_le
      rw [(hlater hfirst).asked hkey, hfirst.split] at hlen
      simp at hlen
  · intro hsilent
    refine ⟨?_, hfair.mpr ?_⟩
    · rw [(hreached hsilent).asked hkey]
    · intro silent talker rest hfirst
      exfalso
      refine hfirst.talks (hsilent talker ?_)
      rw [hfirst.split]
      exact List.mem_append_right _ List.mem_cons_self

end Laws

/-! ## A peer that sends junk -/

namespace junk_first

local instance : Crypto := Crypto.clear

open spent_bucket (member other peer sessions)

def joiner : Session := member ⟨.fill 32 1⟩

/-- A member of the drop whose log is one offer. -/
def honest : SyncPeer := peer joiner.self_id

/-- A peer that answers each request with a frame of one byte. -/
def junk : SyncPeer :=
  { honest with
    remotes := fun _ _ => some (reply OP_SYNC_PAGE (SyncResponseV1.codec.write
      { version := WIRE_VERSION, next_cursor := none, frames := [[0]], oldest_cursor := 0
        truncated := false })) }

theorem verifies_of_isOk {s : Session} {frame : Bytes}
    (h : (Session.decode_for_session s.toSessionConfig frame).isOk = true) : Verifies s frame := by
  unfold Verifies
  rcases hd : Session.decode_for_session s.toSessionConfig frame with e | verified
  · rw [hd] at h
    cases h
  · exact ⟨verified, rfl⟩

theorem honest_peer : HonestPeer joiner honest sessions other := by
  refine { spent_bucket.served joiner rfl rfl with
           connects := rfl, genuine := ?_, answers_first := ?_ }
  · intro frame hframe
    have hlog : other.state.sync_log = [spent_bucket.frame] := rfl
    rw [hlog] at hframe
    rw [List.mem_singleton.mp hframe]
    exact verifies_of_isOk (by decide +kernel)
  · refine ⟨256, by decide +kernel, ?_⟩
    have hop : (match request_op SyncResponseV1.codec (honest.remotes (MAX_PAGES_PER_ATTEMPT - 1))
        OP_SYNC_PAGE (SyncRequestV1.codec.write (page_request joiner honest.id 256 0)) with
      | .ok (some response) => !response.frames.isEmpty
      | _ => false) = true := by decide +kernel
    split at hop
    · rename_i response heq
      refine ⟨response, heq, ?_⟩
      intro hnil
      rw [hnil] at hop
      cases hop
    · cases hop

/-- The honest peer alone is asked, and the frame that it sends verifies. -/
theorem an_honest_peer_is_asked_iff :
    (([] ++ [honest] <+: asked joiner ([] ++ honest :: []) ∧
        StopsFairly joiner ([] ++ honest :: [])) ↔
      ∀ peer ∈ [], sent_frames joiner peer = []) ∧
    (StopsFairly joiner ([] ++ honest :: []) ↔
      ∀ silent talker rest, FirstTalker joiner [] silent talker rest →
        ∃ frame ∈ heard_frames joiner talker, Verifies joiner frame) :=
  honest_peer_asked_iff joiner other sessions [] [] honest honest_peer

/-- After the junk of the first peer the honest one is not asked, and nothing
that was heard verifies. -/
theorem junk_starves_the_joiner :
    (asked joiner [junk, honest]).length = 1 ∧
      heard_frames joiner junk = [[0]] ∧ ¬ Verifies joiner [0] ∧
      ¬ ∀ [Crypto] (joiner other : Session) (sessions : SessionRegistry)
        (before after : List SyncPeer) (honest : SyncPeer)
        (_ : HonestPeer joiner honest sessions other),
        before ++ [honest] <+: asked joiner (before ++ honest :: after) ∧
          StopsFairly joiner (before ++ honest :: after) := by
  have hlen : (asked joiner [junk, honest]).length = 1 := by decide +kernel
  refine ⟨hlen, by decide +kernel, ?_, ?_⟩
  · rintro ⟨verified, hd⟩
    have herror : (Session.decode_for_session joiner.toSessionConfig [0]).isOk = false := by
      decide +kernel
    rw [hd] at herror
    cases herror
  · intro h
    have hle := (h joiner other sessions [junk] [] honest honest_peer).1.length_le
    change 2 ≤ (asked joiner [junk, honest]).length at hle
    omega

end junk_first

end iroh_drop
