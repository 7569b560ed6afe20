-- Fetches over whole runs of a session. Each tells of its end once, asks the
-- group a bounded number of times, and is over when its waits have ended
-- (session.rs).
import IrohDrop.FetchReports

open rust_std postcard

namespace iroh_drop

section Laws

variable [Crypto]

/-! ## One fetch in a run -/

namespace Session

/-- What a step adds to an account of the session, if the step is a stretch
of the `j`th fetch. -/
def added_by {α : Type} (j : Nat) (account : Session → List α) (s : Session) (i : Step) : List α :=
  match i with
  | .fetch_event k _ => if k = j then (account (s.step i)).drop (account s).length else []
  | _ => []

/-- The events that the `j`th fetch of the session emits in a run. -/
def told_by (s : Session) (j : Nat) (steps : List Step) : List DropEvent :=
  runs.collect step (added_by j Session.events) s steps

/-- The frames that the `j`th fetch hands to the carrier in a run. -/
def said_by (s : Session) (j : Nat) (steps : List Step) : List Bytes :=
  runs.collect step (added_by j Session.sent) s steps

/-- The `j`th fetch, as long as it is one that asks for bytes. -/
def downloads (s : Session) (j : Nat) : Bool :=
  s.fetches[j]?.any (fun task => task.stage.is_download)

/-- Whether the `j`th fetch came to a download. -/
def transferred (s : Session) (j : Nat) (steps : List Step) : Bool :=
  steps.inits.any (fun past => (s.run past).downloads j)

/-- Whether the step ends a wait of the `j`th fetch. -/
def wakes (j : Nat) (s : Session) : Step → Bool
  | .fetch_event k event => k == j && s.fetches[j]?.any (fun task => task.stage.wakes event)
  | _ => false

/-- The steps of a run that end a wait of the `j`th fetch. -/
def wakings (s : Session) (j : Nat) (steps : List Step) : List Step :=
  runs.collect step (fun s i => if s.wakes j i then [i] else []) s steps

/-- What a step does to the `j`th fetch of a session. -/
inductive StepOfFetch (s : Session) (j : Nat) (i : Step) : Prop where
  | moves (event : FetchEvent) (task : FetchTask) (step : i = .fetch_event j event)
      (before : s.fetches[j]? = some task)
      (after : (s.step i).fetches[j]? = some (s.fetch_step task event).1)
      (events : (s.step i).events = (s.fetch_step task event).2.events)
      (sent : (s.step i).sent = (s.fetch_step task event).2.sent)
  | waits (adds : ∀ {α : Type} (account : Session → List α), s.added_by j account i = [])
      (asleep : s.wakes j i = false) (same : (s.step i).fetches[j]? = s.fetches[j]?)
  | starts (task : FetchTask) (adds : ∀ {α : Type} (account : Session → List α),
        s.added_by j account i = [])
      (asleep : s.wakes j i = false) (before : s.fetches[j]? = none)
      (after : (s.step i).fetches[j]? = some task) (start : task.stage = .start)

theorem fetch_step_fetches (s : Session) (task : FetchTask) (event : FetchEvent) :
    (s.fetch_step task event).2.fetches = s.fetches := by
  have hmove := s.fetchMove_fetch_step task event
  generalize s.fetch_step task event = moved at hmove ⊢
  cases hmove with
  | goes_on spoke => exact spoke.accounts.2.2
  | writes bytes quiet => exact quiet.fetches
  | @finishes s' task' result spoke =>
    rw [s'.finish_fetch_fetches task' result]
    exact spoke.accounts.2.2

theorem step_of_fetch (s : Session) (j : Nat) (i : Step) : s.StepOfFetch j i := by
  by_cases hother : ∀ k event, i ≠ .fetch_event k event
  · have hadds : ∀ {α : Type} (account : Session → List α), s.added_by j account i = [] := by
      intro α account
      unfold added_by
      split
      · rename_i k event
        exact absurd rfl (hother k event)
      · rfl
    have hasleep : s.wakes j i = false := by
      unfold wakes
      split
      · rename_i k event
        exact absurd rfl (hother k event)
      · rfl
    obtain ⟨started, hfetches, hstart⟩ := s.step_starts hother
    rcases hbefore : s.fetches[j]? with _ | task
    · rcases hafter : (s.step i).fetches[j]? with _ | task
      · exact .waits hadds hasleep (hafter.trans hbefore.symm)
      · refine .starts task hadds hasleep hbefore hafter (hstart task ?_)
        rw [hfetches, List.getElem?_append_right (List.getElem?_eq_none_iff.mp hbefore)] at hafter
        exact List.mem_of_getElem? hafter
    · refine .waits hadds hasleep ?_
      rw [hfetches, List.getElem?_append_left (List.getElem?_eq_some_iff.mp hbefore).1]
  · push Not at hother
    obtain ⟨k, event, rfl⟩ := hother
    by_cases hk : k = j
    · subst hk
      rcases hbefore : s.fetches[k]? with _ | task
      · have hsame : s.step (.fetch_event k event) = s := by
          simp only [step, fetch_event, hbefore]
        refine .waits ?_ ?_ (by rw [hsame])
        · intro α account
          simp [added_by, hsame]
        · simp [wakes, hbefore]
      · refine .moves event task rfl hbefore ?_ ?_ ?_
        · simp only [step, fetch_event, hbefore, fetch_step_fetches]
          rw [List.getElem?_set_self (List.getElem?_eq_some_iff.mp hbefore).1]
        · simp only [step, fetch_event, hbefore]
        · simp only [step, fetch_event, hbefore]
    · refine .waits ?_ ?_ ?_
      · intro α account
        simp [added_by, hk]
      · simp [wakes, hk]
      · simp only [step, fetch_event]
        rcases s.fetches[k]? with _ | task
        · rfl
        · simp only [fetch_step_fetches]
          exact List.getElem?_set_ne hk

/-! ## What a fetch tells -/

variable {s : Session} {j : Nat}

theorem told_by_concat (s : Session) (j : Nat) (steps : List Step) (i : Step) :
    s.told_by j (steps ++ [i]) = s.told_by j steps ++ (s.run steps).added_by j Session.events i :=
  runs.collect_concat _ s steps i

theorem said_by_concat (s : Session) (j : Nat) (steps : List Step) (i : Step) :
    s.said_by j (steps ++ [i]) = s.said_by j steps ++ (s.run steps).added_by j Session.sent i :=
  runs.collect_concat _ s steps i

theorem wakings_concat (s : Session) (j : Nat) (steps : List Step) (i : Step) :
    s.wakings j (steps ++ [i]) =
      s.wakings j steps ++ (if (s.run steps).wakes j i then [i] else []) :=
  runs.collect_concat _ s steps i

theorem run_concat (s : Session) (steps : List Step) (i : Step) :
    s.run (steps ++ [i]) = (s.run steps).step i := runs.run_concat s steps i

theorem transferred_concat (s : Session) (j : Nat) (steps : List Step) (i : Step) :
    s.transferred j (steps ++ [i]) =
      (s.transferred j steps || ((s.run steps).step i).downloads j) := by
  unfold transferred
  rw [List.inits_append]
  simp [run_concat]

/-- A stretch of a fetch adds what it puts behind what was there. -/
theorem added_by_moves {α : Type} {account : Session → List α} {event : FetchEvent}
    {added : List α}
    (h : account (s.step (.fetch_event j event)) = account s ++ added) :
    s.added_by j account (.fetch_event j event) = added := by
  simp only [added_by, if_true, h, List.drop_left]

/-- The `j`th fetch so far: it told its news, and of its end if it is over. -/
structure Tale (s : Session) (j : Nat) (steps : List Step) (task : FetchTask) : Prop where
  sound : task.Sound (s.transferred j steps)
  told : ∃ news, (∀ e ∈ news, e.under_way task.hash) ∧
    s.told_by j steps = news ++ task.report s.self_id (s.transferred j steps)

/-- A fetch that is not there has told nothing. -/
def TaleSoFar (s : Session) (j : Nat) (steps : List Step) : Prop :=
  match (s.run steps).fetches[j]? with
  | none => s.told_by j steps = [] ∧ s.transferred j steps = false
  | some task => s.Tale j steps task

theorem run_self_id (s : Session) (steps : List Step) : (s.run steps).self_id = s.self_id :=
  congrArg (fun config => config.secret.public) (run_extends s steps).config

theorem downloads_some {task : FetchTask} (h : s.fetches[j]? = some task) :
    s.downloads j = task.stage.is_download := by
  unfold downloads
  rw [h]
  rfl

/-- A fetch that was left alone has the same tale. -/
theorem TaleSoFar.wait {steps : List Step} {i : Step} (h : s.TaleSoFar j steps)
    (hadds : (s.run steps).added_by j Session.events i = [])
    (hsame : ((s.run steps).step i).fetches[j]? = (s.run steps).fetches[j]?) :
    s.TaleSoFar j (steps ++ [i]) := by
  have htold : s.told_by j (steps ++ [i]) = s.told_by j steps := by
    rw [told_by_concat, hadds, List.append_nil]
  have hdownloads : ((s.run steps).step i).downloads j = (s.run steps).downloads j := by
    unfold downloads
    rw [hsame]
  have htransferred : s.transferred j (steps ++ [i]) = s.transferred j steps := by
    rw [transferred_concat, hdownloads]
    unfold TaleSoFar at h
    rcases hfetch : (s.run steps).fetches[j]? with _ | task
    · rw [downloads, hfetch]
      exact Bool.or_false _
    · rw [hfetch] at h
      rw [downloads_some hfetch]
      rcases hdownload : task.stage.is_download with _ | _
      · exact Bool.or_false _
      · rw [h.sound.download hdownload]
        rfl
  unfold TaleSoFar at h ⊢
  rw [run_concat, hsame]
  rcases hfetch : (s.run steps).fetches[j]? with _ | task
  · rw [hfetch] at h
    exact ⟨htold.trans h.1, htransferred.trans h.2⟩
  · rw [hfetch] at h
    refine ⟨?_, ?_⟩
    · rw [htransferred]
      exact h.sound
    · rw [htold, htransferred]
      exact h.told

/-- A fetch that begins has nothing to tell. -/
theorem TaleSoFar.begin {steps : List Step} {i : Step} {task : FetchTask}
    (h : s.TaleSoFar j steps) (hadds : (s.run steps).added_by j Session.events i = [])
    (hbefore : (s.run steps).fetches[j]? = none)
    (hafter : ((s.run steps).step i).fetches[j]? = some task) (hstart : task.stage = .start) :
    s.TaleSoFar j (steps ++ [i]) := by
  unfold TaleSoFar at h
  rw [hbefore] at h
  have htransferred : s.transferred j (steps ++ [i]) = false := by
    rw [transferred_concat, h.2, downloads_some hafter, hstart]
    rfl
  unfold TaleSoFar
  rw [run_concat, hafter]
  refine ⟨?_, [], by simp, ?_⟩
  · constructor
    all_goals rw [hstart]
    · trivial
    · exact fun _ => htransferred
    · intro h
      cases h
    · intro _ h
      cases h
    · intro h
      cases h
  · rw [told_by_concat, hadds, h.1, FetchTask.report, hstart]

/-- A stretch of a fetch adds to its tale. -/
theorem TaleSoFar.move {steps : List Step} {event : FetchEvent} {task : FetchTask}
    (h : s.TaleSoFar j steps) (hbefore : (s.run steps).fetches[j]? = some task)
    (hafter : ((s.run steps).step (.fetch_event j event)).fetches[j]? =
      some ((s.run steps).fetch_step task event).1)
    (hevents : ((s.run steps).step (.fetch_event j event)).events =
      ((s.run steps).fetch_step task event).2.events) :
    s.TaleSoFar j (steps ++ [.fetch_event j event]) := by
  by_cases hdone : ∃ r, task.stage = .done r
  · obtain ⟨r, hdone⟩ := hdone
    rw [fetch_step_done _ _ hdone] at hafter hevents
    refine h.wait ?_ (hafter.trans hbefore.symm)
    exact added_by_moves (hevents.trans (List.append_nil _).symm)
  · have hrunning : ∀ r, task.stage ≠ .done r := fun r hr => hdone ⟨r, hr⟩
    have hnone : ∀ transferred, task.report s.self_id transferred = [] := by
      intro transferred
      unfold FetchTask.report
      split
      · rename_i e hstage
        exact absurd hstage (hrunning _)
      · rename_i hstage
        exact absurd hstage (hrunning _)
      · rfl
    unfold TaleSoFar at h
    rw [hbefore] at h
    obtain ⟨news, hnews, htold⟩ := h.told
    rw [hnone, List.append_nil] at htold
    have hmoved := (s.run steps).told_fetch_step task event hrunning
    have htransferred := transferred_concat s j steps (.fetch_event j event)
    rw [downloads_some hafter] at htransferred
    unfold TaleSoFar
    rw [run_concat, hafter]
    generalize (s.run steps).fetch_step task event = after at *
    cases hmoved with
    | goes_on added events more hash running sound =>
      refine ⟨?_, news ++ added, ?_, ?_⟩
      · rw [htransferred]
        exact sound _ h.sound
      · rw [hash]
        intro e he
        rcases List.mem_append.mp he with he | he
        · exact hnews e he
        · exact more e he
      · have hreport : after.1.report s.self_id (s.transferred j (steps ++ [.fetch_event j event])) =
            [] := by
          unfold FetchTask.report
          split
          · rename_i e hstage
            exact absurd hstage (running _)
          · rename_i hstage
            exact absurd hstage (running _)
          · rfl
        rw [hreport, List.append_nil, told_by_concat, htold,
          added_by_moves (hevents.trans events)]
    | ends result hash stage events =>
      have hsame : s.transferred j (steps ++ [.fetch_event j event]) = s.transferred j steps := by
        rw [htransferred, stage]
        exact Bool.or_false _
      have hadded := events (s.transferred j steps) h.sound
      rw [run_self_id] at hadded
      refine ⟨?_, news, ?_, ?_⟩
      · constructor
        all_goals rw [stage]
        · trivial
        · intro h
          cases h
        · intro h
          cases h
        · intro _ h
          cases h
        · intro h
          cases h
      · rw [hash]
        exact hnews
      · rw [told_by_concat, htold, added_by_moves (hevents.trans hadded), hsame]

theorem tale (hnone : s.fetches[j]? = none) (steps : List Step) : s.TaleSoFar j steps := by
  induction steps using List.reverseRecOn with
  | nil =>
    unfold TaleSoFar
    have hrun : s.run [] = s := rfl
    rw [hrun, hnone]
    refine ⟨rfl, ?_⟩
    simp [transferred, downloads, hrun, hnone]
  | append_singleton steps i ih =>
    cases (s.run steps).step_of_fetch j i with
    | moves event task step before after events _ =>
      subst step
      exact ih.move before after events
    | waits adds _ same => exact ih.wait (adds _) same
    | starts task adds _ before after start => exact ih.begin (adds _) before after start

end Session

/-! ## What a fetch costs -/

/-- There are as many frames as ids, at most. -/
theorem Says.length {ids : List (FixedBytes 16)} {a b : Session} (h : Says a ids b) :
    ∃ said, b.sent = a.sent ++ said ∧ said.length ≤ ids.length := by
  induction h with
  | refl => exact ⟨[], (List.append_nil _).symm, Nat.le_refl _⟩
  | quiet _ hq ih =>
    obtain ⟨said, hsaid, hle⟩ := ih
    exact ⟨said, hq.sent.trans hsaid, hle⟩
  | fewer _ hsub ih =>
    obtain ⟨said, hsaid, hle⟩ := ih
    exact ⟨said, hsaid, hle.trans hsub.length_le⟩
  | @said ids b msg retain draw _ ih =>
    obtain ⟨said, hsaid, hle⟩ := ih
    unfold Session.broadcast_signed
    split
    · refine ⟨said, hsaid, ?_⟩
      rw [List.length_append]
      omega
    · rename_i bytes _
      refine ⟨said ++ [bytes], ?_, ?_⟩
      · rw [← List.append_assoc, ← hsaid]
        rfl
      · simp only [List.length_append, List.length_singleton]
        omega

theorem FetchMove.said {s : Session} {task : FetchTask} {ids : List (FixedBytes 16)}
    {after : FetchTask × Session} (h : Session.FetchMove s task ids after) :
    ∃ said, after.2.sent = s.sent ++ said ∧ said.length ≤ ids.length := by
  cases h with
  | goes_on spoke => exact spoke.length
  | writes bytes quiet => exact ⟨[], by rw [quiet.sent, List.append_nil], Nat.zero_le _⟩
  | @finishes s' task' result spoke =>
    obtain ⟨said, hsaid, hle⟩ := spoke.length
    exact ⟨said, (s'.finish_fetch_keeps task' result).2.1.trans hsaid, hle⟩

/-- A stretch spends frames and waits, and gives none back. -/
structure FetchCost (s : Session) (task : FetchTask) (event : FetchEvent)
    (after : FetchTask × Session) : Prop where
  frames : ∃ said, after.2.sent = s.sent ++ said ∧
    said.length + after.1.stage.frames_left ≤ task.stage.frames_left
  waits : after.1.stage.waits_left + (task.stage.wakes event).toNat ≤ task.stage.waits_left

theorem FetchCost.of_move {s : Session} {task : FetchTask} {event : FetchEvent}
    {ids : List (FixedBytes 16)} {after : FetchTask × Session}
    (h : Session.FetchMove s task ids after)
    (hframes : ids.length + after.1.stage.frames_left ≤ task.stage.frames_left)
    (hwaits : after.1.stage.waits_left + (task.stage.wakes event).toNat ≤
      task.stage.waits_left) : FetchCost s task event after := by
  obtain ⟨said, hsaid, hle⟩ := FetchMove.said h
  exact ⟨⟨said, hsaid, by omega⟩, hwaits⟩

omit [Crypto] in
theorem next_round_cost {attempt : Nat} (h : attempt < FETCH_ATTEMPTS) :
    (next_round attempt).frames_left ≤ 2 * (FETCH_ATTEMPTS - attempt) - 1 ∧
      (next_round attempt).waits_left + 1 ≤ 4 * (FETCH_ATTEMPTS - attempt) - 2 := by
  unfold next_round
  split
  · simp only [FetchStage.frames_left, FetchStage.waits_left]
    omega
  · simp only [FetchStage.frames_left, FetchStage.waits_left]
    omega

namespace Session

variable (s : Session) (task : FetchTask)

theorem run_round_stage (attempt : Nat) (world : FetchWorld) :
    (s.run_round task attempt world).1.stage = .downloading attempt (.ok ()) ∨
      (s.run_round task attempt world).1.stage = .asking attempt ∨
      ∃ r, (s.run_round task attempt world).1.stage = .done r := by
  unfold run_round
  split
  · exact .inl rfl
  · split
    · exact .inr (.inr ⟨_, rfl⟩)
    · exact .inr (.inl rfl)

theorem fail_attempt_stage (attempt : Nat) (error : DropError) (world : FetchWorld) :
    (s.fail_attempt task attempt error world).1.stage = .reasking attempt ∨
      ∃ r, (s.fail_attempt task attempt error world).1.stage = .done r := by
  unfold fail_attempt
  simp only
  split
  · exact .inr ⟨_, rfl⟩
  · exact .inl rfl

theorem finish_local_stage (world : FetchWorld) :
    ∃ r, (s.finish_local task world).1.stage = .done r := by
  unfold finish_local
  split <;> exact ⟨_, rfl⟩

theorem run_verify_stage (world : FetchWorld) :
    ∃ r, (s.run_verify task world).1.stage = .done r := by
  unfold run_verify
  split
  · exact ⟨_, rfl⟩
  · split
    · simp only
      split
      · exact ⟨_, rfl⟩
      · split <;> exact ⟨_, rfl⟩
    · exact ⟨_, rfl⟩

theorem download_item_stage (attempt : Nat) (outcome : Except DropError Unit)
    (item : DownloadProgressItem) (hstage : task.stage = .downloading attempt outcome) :
    ∃ outcome', (s.download_item task attempt outcome item).1.stage =
      .downloading attempt outcome' := by
  cases item with
  | TryProvider id => exact ⟨outcome, hstage⟩
  | ProviderFailed id now => exact ⟨outcome, hstage⟩
  | Progress downloaded => exact ⟨outcome, hstage⟩
  | PartComplete => exact ⟨outcome, rfl⟩
  | DownloadError => exact ⟨_, rfl⟩
  | Error reason => exact ⟨_, rfl⟩

theorem cost_fail_attempt {attempt : Nat} {outcome : Except DropError Unit} {event : FetchEvent}
    (error : DropError) (world : FetchWorld)
    (hstage : task.stage = .downloading attempt outcome) (hattempt : attempt < FETCH_ATTEMPTS) :
    FetchCost s task event (s.fail_attempt task attempt error world) := by
  have hrunning : ∀ r, task.stage ≠ .done r := by
    intro r h
    rw [hstage] at h
    cases h
  have hwake : (task.stage.wakes event).toNat ≤ 1 := Bool.toNat_le _
  refine .of_move (s.fetchMove_fail_attempt task attempt error world hrunning) ?_ ?_
  all_goals
    rw [hstage] at hwake ⊢
    rcases s.fail_attempt_stage task attempt error world with h | ⟨r, h⟩
    all_goals
      rw [h]
      simp only [FetchStage.frames_left, FetchStage.waits_left, List.length_singleton]
      omega

/-- Every stretch of a fetch is paid for. -/
theorem cost_fetch_step (event : FetchEvent) (hloop : task.stage.in_loop) :
    FetchCost s task event (s.fetch_step task event) := by
  have hidle : ∀ {event : FetchEvent}, task.stage.wakes event = false →
      FetchCost s task event (task, s) := by
    intro event hasleep
    refine ⟨⟨[], (List.append_nil _).symm, ?_⟩, ?_⟩
    · simp
    · simp [hasleep]
  cases event with
  | run world =>
    rcases hstage : task.stage with _ | attempt | attempt | ⟨attempt, outcome⟩ | attempt | _ | r
    all_goals simp only [fetch_step, hstage]
    · have hrunning : ∀ r, task.stage ≠ .done r := by simp [hstage]
      split
      · obtain ⟨r, hr⟩ := s.finish_local_stage task world
        refine .of_move (s.fetchMove_finish_local task world hrunning) ?_ ?_
        · rw [hstage, hr]
          show 1 + 0 ≤ 2 * FETCH_ATTEMPTS + 1
          decide
        · rw [hstage, hr]
          show 0 + 1 ≤ 14
          decide
      · refine ⟨⟨[], (List.append_nil _).symm, ?_⟩, ?_⟩
        all_goals
          rw [hstage]
          simp only [FetchStage.frames_left, FetchStage.waits_left, FetchStage.wakes]
          decide
    · have hrunning : ∀ r, task.stage ≠ .done r := by simp [hstage]
      rw [hstage] at hloop
      refine .of_move (s.fetchMove_run_round task attempt world hrunning) ?_ ?_
      all_goals
        rw [hstage]
        rcases s.run_round_stage task attempt world with h | h | ⟨r, h⟩
        all_goals
          rw [h]
          simp only [FetchStage.frames_left, FetchStage.waits_left, FetchStage.wakes,
            FetchStage.in_loop, Bool.toNat_true, List.length_singleton] at hloop ⊢
          omega
    · exact hidle (by rw [hstage]; rfl)
    · exact hidle (by rw [hstage]; rfl)
    · exact hidle (by rw [hstage]; rfl)
    · have hrunning : ∀ r, task.stage ≠ .done r := by simp [hstage]
      obtain ⟨r, hr⟩ := s.run_verify_stage task world
      refine .of_move (s.fetchMove_run_verify task world hrunning) ?_ ?_
      · rw [hstage, hr]
        exact Nat.le_refl 1
      · rw [hstage, hr]
        exact Nat.le_refl 1
    · exact hidle (by rw [hstage]; rfl)
  | poll timed_out =>
    rcases hstage : task.stage with _ | attempt | attempt | ⟨attempt, outcome⟩ | attempt | _ | r
    all_goals simp only [fetch_step, hstage]
    · exact hidle (by rw [hstage]; rfl)
    · exact hidle (by rw [hstage]; rfl)
    · rw [hstage] at hloop
      have hnext := next_round_cost hloop
      unfold poll_asking
      split
      · refine ⟨⟨[], (List.append_nil _).symm, ?_⟩, ?_⟩
        all_goals
          rw [hstage]
          have hwake := Bool.toNat_le timed_out
          simp only [begin_download, FetchStage.frames_left, FetchStage.waits_left,
            FetchStage.wakes, FetchStage.in_loop, List.length_nil] at hloop ⊢
          omega
      · split
        · refine ⟨⟨[], (List.append_nil _).symm, ?_⟩, ?_⟩
          · rw [hstage]
            show 0 + (next_round attempt).frames_left ≤ 2 * (FETCH_ATTEMPTS - attempt)
            omega
          · rw [hstage]
            have hwake := Bool.toNat_le timed_out
            show (next_round attempt).waits_left + timed_out.toNat ≤
              4 * (FETCH_ATTEMPTS - attempt)
            omega
        · rename_i hwait
          refine hidle ?_
          rw [hstage]
          exact Bool.not_eq_true _ ▸ hwait
    · exact hidle (by rw [hstage]; rfl)
    · rw [hstage] at hloop
      have hnext := next_round_cost hloop
      unfold poll_reasking
      split
      · refine ⟨⟨[], (List.append_nil _).symm, ?_⟩, ?_⟩
        · rw [hstage]
          show 0 + (next_round attempt).frames_left ≤ 2 * (FETCH_ATTEMPTS - attempt) - 1
          omega
        · rw [hstage]
          have hwake := Bool.toNat_le timed_out
          show (next_round attempt).waits_left + timed_out.toNat ≤
            4 * (FETCH_ATTEMPTS - attempt) - 2
          omega
      · rename_i hwait
        refine hidle ?_
        rw [hstage]
        exact Bool.not_eq_true _ ▸ fun h => hwait (.inr h)
    · exact hidle (by rw [hstage]; rfl)
    · exact hidle (by rw [hstage]; rfl)
  | stream_failed reason world =>
    rcases hstage : task.stage with _ | attempt | attempt | ⟨attempt, outcome⟩ | attempt | _ | r
    all_goals simp only [fetch_step, hstage]
    case downloading =>
      rw [hstage] at hloop
      exact s.cost_fail_attempt task _ world hstage hloop
    all_goals exact hidle (by rw [hstage]; rfl)
  | item item =>
    rcases hstage : task.stage with _ | attempt | attempt | ⟨attempt, outcome⟩ | attempt | _ | r
    all_goals simp only [fetch_step, hstage]
    case downloading =>
      obtain ⟨outcome', hdownload⟩ := s.download_item_stage task attempt outcome item hstage
      have hsent : (s.download_item task attempt outcome item).2.sent = s.sent := by
        cases item <;> rfl
      refine ⟨⟨[], by rw [hsent, List.append_nil], ?_⟩, ?_⟩
      all_goals
        rw [hdownload, hstage]
        simp [FetchStage.frames_left, FetchStage.waits_left, FetchStage.wakes]
    all_goals exact hidle (by rw [hstage]; rfl)
  | store_write bytes status =>
    rcases hstage : task.stage with _ | attempt | attempt | ⟨attempt, outcome⟩ | attempt | _ | r
    all_goals simp only [fetch_step, hstage]
    case downloading =>
      refine ⟨⟨[], (List.append_nil _).symm, ?_⟩, ?_⟩
      all_goals
        rw [hstage]
        simp [FetchStage.frames_left, FetchStage.waits_left, FetchStage.wakes]
    all_goals exact hidle (by rw [hstage]; rfl)
  | ended world =>
    rcases hstage : task.stage with _ | attempt | attempt | ⟨attempt, outcome⟩ | attempt | _ | r
    all_goals simp only [fetch_step, hstage]
    case downloading =>
      rw [hstage] at hloop
      rcases outcome with e | u
      · exact s.cost_fail_attempt task e world hstage hloop
      · refine ⟨⟨[], (List.append_nil _).symm, ?_⟩, ?_⟩
        all_goals
          rw [hstage]
          simp only [end_download, FetchStage.frames_left, FetchStage.waits_left,
            FetchStage.wakes, FetchStage.in_loop, Bool.toNat_true, List.length_nil] at hloop ⊢
          omega
    all_goals exact hidle (by rw [hstage]; rfl)

end Session

/-! ## Whole runs -/

omit [Crypto] in
/-- One of several lists gets longer: together they get longer by as much. -/
theorem perm_flatMap_extend {α : Type} {l : List Nat} (hl : l.Nodup) {k : Nat} (hk : k ∈ l)
    {f g : Nat → List α} {x : List α} (hg : ∀ j, g j = f j ++ if j = k then x else []) :
    (l.flatMap f ++ x).Perm (l.flatMap g) := by
  induction l with
  | nil => exact absurd hk List.not_mem_nil
  | cons a l ih =>
    obtain ⟨ha, hl⟩ := List.nodup_cons.mp hl
    rw [List.flatMap_cons, List.flatMap_cons, hg a]
    by_cases hak : a = k
    · subst hak
      have hrest : l.flatMap g = l.flatMap f := by
        refine List.flatMap_congr fun j hj => ?_
        have hne : j ≠ a := fun h => ha (h ▸ hj)
        rw [hg j, if_neg hne, List.append_nil]
      rw [if_pos rfl, hrest, List.append_assoc, List.append_assoc]
      exact List.perm_append_comm.append_left (f a)
    · rw [if_neg hak, List.append_nil, List.append_assoc]
      rcases List.mem_cons.mp hk with h | hk
      · exact absurd h.symm hak
      · exact (ih hl hk).append_left (f a)

/-- The ends of fetches among the events. -/
def told_ends (events : List DropEvent) : List (BlobHash × Option DropError) :=
  events.filterMap DropEvent.fetch_end

theorem told_ends_append (events more : List DropEvent) :
    told_ends (events ++ more) = told_ends events ++ told_ends more := List.filterMap_append

namespace Session

variable {s : Session} {j : Nat}

theorem told_by_none (hnone : s.fetches = []) {steps : List Step}
    (h : (s.run steps).fetches[j]? = none) : s.told_by j steps = [] := by
  have htale := tale (j := j) (by rw [hnone]; rfl) steps
  unfold TaleSoFar at htale
  rw [h] at htale
  exact htale.1

/-- The ends that the fetches told, in the order of the fetches. -/
def ends_by_fetch (s : Session) (steps : List Step) : List (BlobHash × Option DropError) :=
  (List.range (s.run steps).fetches.length).flatMap (fun j => told_ends (s.told_by j steps))

/-- A step that is no stretch of a fetch that is there tells of no end. -/
theorem ends_by_fetch_same (hnone : s.fetches = []) {steps : List Step} {i : Step}
    (hadds : ∀ j, (s.run steps).added_by j Session.events i = [])
    (hlength : (s.run steps).fetches.length ≤ ((s.run steps).step i).fetches.length) :
    s.ends_by_fetch (steps ++ [i]) = s.ends_by_fetch steps := by
  have htold : ∀ j, s.told_by j (steps ++ [i]) = s.told_by j steps := by
    intro j
    rw [told_by_concat, hadds j, List.append_nil]
  obtain ⟨m, hm⟩ := Nat.exists_eq_add_of_le hlength
  unfold ends_by_fetch
  simp only [htold]
  rw [run_concat, hm, List.range_add, List.flatMap_append]
  have hrest : ((List.range m).map ((s.run steps).fetches.length + ·)).flatMap
      (fun j => told_ends (s.told_by j steps)) = [] := by
    refine List.flatMap_eq_nil_iff.mpr fun j hj => ?_
    obtain ⟨k, -, rfl⟩ := List.mem_map.mp hj
    rw [told_by_none hnone (List.getElem?_eq_none (Nat.le_add_right _ _))]
    rfl
  rw [hrest, List.append_nil]

/-- What a session tells of ends is what its fetches tell. -/
theorem ends_perm (hnone : s.fetches = []) (hevents : s.events = []) (steps : List Step) :
    (told_ends (s.run steps).events).Perm (s.ends_by_fetch steps) := by
  induction steps using List.reverseRecOn with
  | nil =>
    have hrun : s.run [] = s := rfl
    simp [ends_by_fetch, hrun, hnone, hevents, told_ends]
  | append_singleton steps i ih =>
    by_cases hother : ∀ k event, i ≠ .fetch_event k event
    · obtain ⟨added, hadded, huntold⟩ := (s.run steps).untold_step hother
      obtain ⟨started, hstarted, -⟩ := (s.run steps).step_starts hother
      have hadds : ∀ j, (s.run steps).added_by j Session.events i = [] := by
        intro j
        unfold added_by
        split
        · rename_i k event
          exact absurd rfl (hother k event)
        · rfl
      have hsilent : told_ends added = [] := List.filterMap_eq_nil_iff.mpr huntold
      rw [ends_by_fetch_same hnone hadds (by rw [hstarted, List.length_append]; omega),
        run_concat, hadded, told_ends_append, hsilent, List.append_nil]
      exact ih
    · push Not at hother
      obtain ⟨k, event, rfl⟩ := hother
      rcases hbefore : (s.run steps).fetches[k]? with _ | task
      · have hsame : (s.run steps).step (.fetch_event k event) = s.run steps := by
          simp only [step, fetch_event, hbefore]
        have hadds : ∀ j,
            (s.run steps).added_by j Session.events (.fetch_event k event) = [] := by
          intro j
          simp [added_by, hsame]
        rw [ends_by_fetch_same hnone hadds (by rw [hsame]), run_concat, hsame]
        exact ih
      · have hk : k < (s.run steps).fetches.length := (List.getElem?_eq_some_iff.mp hbefore).1
        obtain ⟨added, hadded⟩ : ∃ added, ((s.run steps).step (.fetch_event k event)).events =
            (s.run steps).events ++ added := by
          obtain ⟨added, hadded, -⟩ := (s.run steps).tells_fetch_event k event
          exact ⟨added, hadded⟩
        have htold : ∀ j, told_ends (s.told_by j (steps ++ [.fetch_event k event])) =
            told_ends (s.told_by j steps) ++ if j = k then told_ends added else [] := by
          intro j
          rw [told_by_concat, told_ends_append]
          by_cases hj : j = k
          · rw [if_pos hj, hj, added_by_moves hadded]
          · have hkj : ¬ k = j := fun h => hj h.symm
            rw [if_neg hj, added_by, if_neg hkj]
            rfl
        have hlength : ((s.run steps).step (.fetch_event k event)).fetches.length =
            (s.run steps).fetches.length := by
          simp only [step, fetch_event, hbefore, fetch_step_fetches, List.length_set]
        unfold ends_by_fetch at ih ⊢
        rw [run_concat, hadded, told_ends_append, hlength]
        exact (ih.append_right _).trans
          (perm_flatMap_extend List.nodup_range (List.mem_range.mpr hk) htold)

/-- What a fetch has used of its frames and its waits. -/
def CostSoFar (s : Session) (j : Nat) (steps : List Step) : Prop :=
  match (s.run steps).fetches[j]? with
  | none => s.said_by j steps = [] ∧ s.wakings j steps = []
  | some task =>
    (s.said_by j steps).length + task.stage.frames_left ≤ 2 * FETCH_ATTEMPTS + 1 ∧
      (s.wakings j steps).length + task.stage.waits_left ≤ 14

theorem cost (hnone : s.fetches[j]? = none) (steps : List Step) : s.CostSoFar j steps := by
  induction steps using List.reverseRecOn with
  | nil =>
    unfold CostSoFar
    have hrun : s.run [] = s := rfl
    rw [hrun, hnone]
    exact ⟨rfl, rfl⟩
  | append_singleton steps i ih =>
    have htale := tale hnone steps
    unfold CostSoFar at ih ⊢
    rw [run_concat, said_by_concat, wakings_concat]
    cases (s.run steps).step_of_fetch j i with
    | moves event task step before after _ sent =>
      subst step
      unfold TaleSoFar at htale
      rw [before] at ih htale
      obtain ⟨⟨said, hsaid, hframes⟩, hwaits⟩ :=
        (s.run steps).cost_fetch_step task event htale.sound.in_loop
      have hwakes : (s.run steps).wakes j (.fetch_event j event) = task.stage.wakes event := by
        unfold wakes
        rw [before]
        simp
      rw [after, added_by_moves (sent.trans hsaid), hwakes]
      simp only [List.length_append]
      rcases hwake : task.stage.wakes event with _ | _
      all_goals
        rw [hwake] at hwaits
        simp only [Bool.toNat_true, Bool.toNat_false] at hwaits
        obtain ⟨ihframes, ihwaits⟩ := ih
        refine ⟨by omega, ?_⟩
        simp
        omega
    | waits adds asleep same =>
      rw [same, adds, asleep]
      simpa using ih
    | starts task adds asleep before after start =>
      rw [before] at ih
      rw [after, adds, asleep, ih.1, ih.2]
      simp only
      rw [start]
      exact ⟨Nat.le_refl _, Nat.le_refl _⟩

end Session

omit [Crypto] in
/-- A fetch that has no wait left is over. -/
theorem waits_left_zero {stage : FetchStage} (hloop : stage.in_loop) (h : stage.waits_left = 0) :
    ∃ r, stage = .done r := by
  cases stage with
  | done r => exact ⟨r, rfl⟩
  | start | verify => cases h
  | round attempt | asking attempt | downloading attempt outcome | reasking attempt =>
    simp only [FetchStage.in_loop, FetchStage.waits_left, FETCH_ATTEMPTS] at hloop h
    omega

section New

variable (secret : SecretKey) (policy : DropPolicy) (decider : OfferDecider) (topic_id : TopicId)
  (ticket : DropTicket) (drop_key : Option DropKey) (store : BlobHash → BlobStatus)

/-- In every run, a fetch that is over told of its end once, after its news,
unless its blob was here from the start; one that goes on told of no end; and
no end is told but by a fetch. -/
theorem fetches_tell_their_end_once (steps : List Step) :
    let s := Session.new secret policy decider topic_id ticket drop_key store
    (told_ends (s.run steps).events).Perm (s.ends_by_fetch steps) ∧
      ∀ j task, (s.run steps).fetches[j]? = some task →
        ∃ news, (∀ e ∈ news, e.under_way task.hash) ∧
          s.told_by j steps = news ++ task.report s.self_id (s.transferred j steps) := by
  intro s
  refine ⟨Session.ends_perm rfl rfl steps, fun j task htask => ?_⟩
  have htale := Session.tale (s := s) (j := j) rfl steps
  unfold Session.TaleSoFar at htale
  rw [htask] at htale
  exact htale.told

/-- In every run, a fetch says seven frames at most, whatever its session goes
through, and is over when fourteen of its waits have ended. -/
theorem fetches_end_with_their_waits (steps : List Step) (j : Nat) :
    let s := Session.new secret policy decider topic_id ticket drop_key store
    (s.said_by j steps).length ≤ 2 * FETCH_ATTEMPTS + 1 ∧ (s.wakings j steps).length ≤ 14 ∧
      ((s.wakings j steps).length = 14 →
        ∃ task r, (s.run steps).fetches[j]? = some task ∧ task.stage = .done r) := by
  intro s
  have htale := Session.tale (s := s) (j := j) rfl steps
  have hcost := Session.cost (s := s) (j := j) rfl steps
  unfold Session.CostSoFar at hcost
  unfold Session.TaleSoFar at htale
  rcases hfetch : (s.run steps).fetches[j]? with _ | task
  all_goals
    rw [hfetch] at hcost htale
    simp only at hcost
    obtain ⟨hframes, hwaits⟩ := hcost
  · rw [hframes, hwaits]
    exact ⟨Nat.zero_le _, Nat.zero_le _, fun h => by cases h⟩
  · refine ⟨by omega, by omega, fun hall => ?_⟩
    obtain ⟨r, hr⟩ := waits_left_zero htale.sound.in_loop (by omega)
    exact ⟨task, r, rfl, hr⟩

end New

end Laws

/-! ## A blob that nobody serves -/

namespace unserved_fetch

local instance : Crypto := Crypto.clear

def member : Session :=
  .new ⟨.fill 32 1⟩ {} PolicyDecider ⟨.fill 32 8⟩ (.nodeless (.fill 32 8) none) none
    (fun _ => .NotFound)

def hash : BlobHash := ⟨.fill 32 7⟩

def world : FetchWorld :=
  let draw : Draw :=
    { now := 0, sent_at_ms := 0, id := .fill 16 4, nonce := .fill 24 0, carried := .ok () }
  { draw, complete := { now := 0, tag_set := .ok (), announced_at_ms := 0, draw }
    exported := .ok () }

/-- Three rounds of asking, with nobody to answer. -/
def steps : List Step :=
  let round : List Step := [.fetch_event 0 (.run world), .fetch_event 0 (.poll true)]
  [.fetch hash, .fetch_event 0 (.run world)] ++ round ++ round ++ round ++
    [.fetch_event 0 (.run world)]

example : member.told_by 0 steps =
      [.FetchFailed hash (.Network (.NoProviders hash.to_hex))] ∧
    (member.said_by 0 steps).length = 3 ∧ (member.wakings 0 steps).length = 8 := by
  decide +kernel

end unserved_fetch

end iroh_drop
