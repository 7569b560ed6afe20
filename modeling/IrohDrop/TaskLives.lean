-- The laws of the tasks: while nobody cancels work that is over and no work ends
-- before its entry is there, each task has one life.
import IrohDrop.Tasks

open rust_std

namespace iroh_drop

/-! ## What is promised -/

/-- The work has come to its end. -/
def WorkStage.completed : WorkStage → Bool
  | .finished _ | .recorded _ | .ended _ => true
  | _ => false

/-- The spawned work is gone. -/
def WorkStage.gone : WorkStage → Bool
  | .ended _ | .dropped => true
  | _ => false

namespace TaskBoard

/-- The states of the entry, one after the other. -/
def writes_of (self : TaskBoard) (id : String) : List TaskState :=
  (self.writes.filter fun w => w.1 = id).map Prod.snd

/-- The states that the events tell, one after the other. -/
def events_of (self : TaskBoard) (id : String) : List TaskState :=
  (self.events.filter fun event => event.task = id).map TaskEvent.state

/-- A life, or the beginning of one: it starts, and it ends once. -/
def OneLife (states : List TaskState) : Prop :=
  states = [] ∨ states = [.running] ∨ ∃ last, last ≠ .running ∧ states = [.running, last]

/-- The task has one life, and the entry and the events tell the same one. -/
structure Honest (s : TaskBoard) (id : String) : Prop where
  recorded : OneLife (s.writes_of id)
  shown : (s.tasks.lookup id).map TaskEntry.state = (s.writes_of id).getLast?
  told : OneLife (s.events_of id)
  agrees : s.events_of id <+: s.writes_of id
  gone : ∀ job ∈ s.jobs, job.id = id → job.work.gone → ∀ entry, s.tasks.lookup id = some entry →
    entry.state ≠ .running
  completed : ∀ job ∈ s.jobs, job.id = id → job.work.completed →
    .cancelled ∉ s.writes_of id ∧ .cancelled ∉ s.events_of id
  settled : ∀ job ∈ s.jobs, job.id = id → job.work.gone → job.spawning = .announced →
    id ∉ s.cancelling → s.events_of id = s.writes_of id ∧ (s.writes_of id).length = 2

/-- The work ends after its entry is there and its event after the event of the
start, a cancel comes while the work goes on and is in time to stop it, and the
numbers of the tasks do not wrap. -/
def Fair (s : TaskBoard) : TaskStep → Prop
  | .spawn _ _ _ => s.next_task.toNat + 1 < 2 ^ 64
  | .complete k _ => s.jobs[k]?.all fun job => !job.aborted
  | .record k => s.jobs[k]?.all fun job => !job.work.completed || job.spawning ≠ .spawned
  | .announce_finished k => s.jobs[k]?.all fun job =>
      !job.work.completed || job.spawning = .announced
  | .cancel id => (s.tasks.lookup id).all fun entry => entry.state = .running &&
      s.jobs.all fun job => job.id ≠ id || !job.work.completed
  | .announce_cancelled j => s.cancelling[j]?.all fun id =>
      s.jobs.all fun job => job.id ≠ id || job.spawning = .announced
  | _ => True

instance (s : TaskBoard) (step : TaskStep) : Decidable (s.Fair step) := by
  unfold Fair; cases step <;> infer_instance

end TaskBoard

theorem TaskState.of_result_ne_running (result : Except String Unit) :
    TaskState.of_result result ≠ .running := by
  cases result <;> exact nofun

theorem TaskState.of_result_ne_cancelled (result : Except String Unit) :
    TaskState.of_result result ≠ .cancelled := by
  cases result <;> exact nofun

namespace TaskBoard

/-! ## One task -/

/-- What concerns one id: its entry, the cancels under way, and what was told. -/
structure View where
  entry : Option TaskEntry
  cancels : Nat
  writes : List TaskState
  events : List TaskState

def view (self : TaskBoard) (id : String) : View :=
  { entry := self.tasks.lookup id, cancels := self.cancelling.count id
    writes := self.writes_of id, events := self.events_of id }

end TaskBoard

/-- What is out of the event of the start. -/
def Spawning.events : Spawning → List TaskState
  | .announced => [.running]
  | _ => []

/-- The work goes on, or its end is not in the entry yet. -/
def WorkStage.going : WorkStage → Bool
  | .waiting | .polled | .finished _ => true
  | _ => false

/-- The work does not come to its end any more. -/
def WorkStage.stopped : WorkStage → Bool
  | .waiting | .polled | .dropped => true
  | _ => false

theorem WorkStage.stopped_of_going {work : WorkStage} (h : work.going)
    (hcompleted : work.completed = false) : work.stopped := by
  cases work with
  | waiting | polled => rfl
  | finished => cases hcompleted
  | recorded | ended | dropped => cases h

/-- What the entry and the events tell of a job at its stages. -/
inductive TaskLife (k : Nat) (spawning : Spawning) (aborted : Bool) (work : WorkStage) :
    TaskBoard.View → Prop
  | spawned (hspawning : spawning = .spawned) (haborted : aborted = false) (hwork : work.going) :
      TaskLife k spawning aborted work ⟨none, 0, [], []⟩
  | running (hspawning : spawning ≠ .spawned) (haborted : aborted = false) (hwork : work.going)
      {entry : TaskEntry} (hstate : entry.state = .running) (habort : entry.abort = some k) :
      TaskLife k spawning aborted work ⟨some entry, 0, [.running], spawning.events⟩
  | recorded (hspawning : spawning ≠ .spawned) (result : Except String Unit)
      (hwork : work = .recorded result) {entry : TaskEntry}
      (hstate : entry.state = .of_result result) :
      TaskLife k spawning aborted work
        ⟨some entry, 0, [.running, .of_result result], spawning.events⟩
  | ended (hspawning : spawning = .announced) (result : Except String Unit)
      (hwork : work = .ended result) {entry : TaskEntry}
      (hstate : entry.state = .of_result result) :
      TaskLife k spawning aborted work
        ⟨some entry, 0, [.running, .of_result result], [.running, .of_result result]⟩
  | cancelled (hspawning : spawning ≠ .spawned) (haborted : aborted = true) (hwork : work.stopped)
      {entry : TaskEntry} (hstate : entry.state = .cancelled) :
      TaskLife k spawning aborted work ⟨some entry, 1, [.running, .cancelled], spawning.events⟩
  | told (hspawning : spawning = .announced) (haborted : aborted = true) (hwork : work.stopped)
      {entry : TaskEntry} (hstate : entry.state = .cancelled) :
      TaskLife k spawning aborted work
        ⟨some entry, 0, [.running, .cancelled], [.running, .cancelled]⟩

/-- A job, and what is known of its id. -/
abbrev TaskJob.lives (job : TaskJob) (k : Nat) (view : TaskBoard.View) : Prop :=
  TaskLife k job.spawning job.aborted job.work view

namespace TaskBoard

variable {s : TaskBoard}

/-! ## What a step does to one task -/

@[simp] theorem view_set_job (s : TaskBoard) (k : Nat) (job : TaskJob) (id : String) :
    (s.set_job k job).view id = s.view id := rfl

theorem view_write_self (s : TaskBoard) (id : String) (entry : TaskEntry) :
    (s.write id entry).view id = { s.view id with
      entry := some entry, writes := (s.view id).writes ++ [entry.state] } := by
  have hentry : (s.write id entry).tasks.lookup id = some entry := AList.lookup_insert _
  unfold view
  rw [hentry]
  simp [writes_of, write, events_of]

theorem view_write_other (s : TaskBoard) {id other : String} (h : other ≠ id) (entry : TaskEntry) :
    (s.write id entry).view other = s.view other := by
  have hentry : (s.write id entry).tasks.lookup other = s.tasks.lookup other :=
    AList.lookup_insert_ne h
  unfold view
  rw [hentry]
  simp [Ne.symm h, writes_of, write, events_of]

theorem view_emit_self (s : TaskBoard) (event : TaskEvent) {id : String} (h : event.task = id) :
    (s.emit event).view id =
      { s.view id with events := (s.view id).events ++ [event.state] } := by
  simp [h, view, writes_of, emit, events_of]

theorem view_emit_other (s : TaskBoard) {event : TaskEvent} {other : String}
    (h : other ≠ event.task) : (s.emit event).view other = s.view other := by
  simp [view, Ne.symm h, writes_of, emit, events_of]

/-! ## All tasks -/

/-- Each job has an id of its own and one life, and nothing is known of ids
that are not given yet. -/
structure Regular (s : TaskBoard) : Prop where
  ids : (s.jobs.map TaskJob.id).Nodup
  numbered : ∀ job ∈ s.jobs, ∃ n : UInt64, n.toNat < s.next_task.toNat ∧ job.id = s!"t{n}"
  quiet : ∀ id, (∀ job ∈ s.jobs, job.id ≠ id) → s.view id = ⟨none, 0, [], []⟩
  lives : ∀ (k : Nat) job, s.jobs[k]? = some job → job.lives k (s.view job.id)

theorem regular_new : Regular .new :=
  ⟨List.nodup_nil, fun _ h => (nomatch h), fun _ _ => rfl, fun _ _ h => (nomatch h)⟩

/-- The job of an id. -/
theorem Regular.unique (h : s.Regular) {k j : Nat} {job other : TaskJob}
    (hk : s.jobs[k]? = some job) (hj : s.jobs[j]? = some other) (hid : other.id = job.id) :
    j = k := by
  have hlt : j < (s.jobs.map TaskJob.id).length := by
    rw [List.length_map]
    exact (List.getElem?_eq_some_iff.mp hj).1
  refine (List.getElem?_inj hlt h.ids).mp ?_
  rw [List.getElem?_map, List.getElem?_map, hk, hj, Option.map_some, Option.map_some, hid]

/-- A step of one job concerns its own id only. -/
theorem Regular.at_job (h : s.Regular) {k : Nat} {job : TaskJob} (job' : TaskJob)
    (hjob : s.jobs[k]? = some job)
    (hid : job'.id = job.id) {s' : TaskBoard} (hjobs : s'.jobs = s.jobs.set k job')
    (hnext : s'.next_task = s.next_task) (hother : ∀ id, id ≠ job.id → s'.view id = s.view id)
    (hlife : job'.lives k (s'.view job.id)) : s'.Regular := by
  have hids : s'.jobs.map TaskJob.id = s.jobs.map TaskJob.id := by
    refine List.ext_getElem? fun j => ?_
    rw [hjobs, List.getElem?_map, List.getElem?_map]
    by_cases hkj : k = j
    · subst hkj
      rw [List.getElem?_set_self (List.getElem?_eq_some_iff.mp hjob).1, hjob]
      exact congrArg some hid
    · rw [List.getElem?_set_ne hkj]
  have hmem : ∀ id, (∃ other ∈ s'.jobs, other.id = id) ↔ ∃ other ∈ s.jobs, other.id = id := by
    intro id
    rw [← List.mem_map, ← List.mem_map, hids]
  constructor
  · rw [hids]
    exact h.ids
  · intro other hother
    obtain ⟨old, hold, heq⟩ := (hmem other.id).mp ⟨other, hother, rfl⟩
    obtain ⟨n, hn, hname⟩ := h.numbered old hold
    exact ⟨n, by rw [hnext]; exact hn, heq ▸ hname⟩
  · intro id hnone
    have hold : ∀ other ∈ s.jobs, other.id ≠ id := by
      intro other hmem' heq
      obtain ⟨new, hnew, heq'⟩ := (hmem id).mpr ⟨other, hmem', heq⟩
      exact hnone new hnew heq'
    rw [hother id fun heq => hold job (List.mem_of_getElem? hjob) heq.symm]
    exact h.quiet id hold
  · intro j other hj
    rw [hjobs] at hj
    by_cases hkj : k = j
    · subst hkj
      rw [List.getElem?_set_self (List.getElem?_eq_some_iff.mp hjob).1, Option.some.injEq] at hj
      subst hj
      rw [hid]
      exact hlife
    · rw [List.getElem?_set_ne hkj] at hj
      have hne : other.id ≠ job.id := fun heq => hkj (h.unique hjob hj heq).symm
      rw [hother _ hne]
      exact h.lives j other hj

theorem Regular.spawn (h : s.Regular) (kind : WorkKind) (drop : String) (hash : Option BlobHash)
    (hroom : s.next_task.toNat + 1 < 2 ^ 64) : (s.spawn kind drop hash).Regular := by
  have hnext : (s.next_task + 1).toNat = s.next_task.toNat + 1 := by
    rw [UInt64.toNat_add, UInt64.toNat_one, Nat.mod_eq_of_lt hroom]
  have hfresh : ∀ job ∈ s.jobs, job.id ≠ s!"t{s.next_task}" := by
    intro job hjob heq
    obtain ⟨n, hn, hname⟩ := h.numbered job hjob
    rw [task_id_inj (hname.symm.trans heq)] at hn
    exact absurd hn (lt_irrefl _)
  constructor
  · change ((s.jobs ++ [_]).map TaskJob.id).Nodup
    rw [List.map_append, List.map_singleton, List.nodup_append]
    refine ⟨h.ids, List.nodup_singleton _, fun id hid id' hid' => ?_⟩
    obtain ⟨job, hjob, rfl⟩ := List.mem_map.mp hid
    rw [List.mem_singleton.mp hid']
    exact hfresh job hjob
  · intro job hjob
    change ∃ n : UInt64, n.toNat < (s.next_task + 1).toNat ∧ _
    rw [hnext]
    rcases List.mem_append.mp hjob with hold | hnew
    · obtain ⟨n, hn, hname⟩ := h.numbered job hold
      exact ⟨n, by omega, hname⟩
    · rw [List.mem_singleton.mp hnew]
      exact ⟨s.next_task, by omega, rfl⟩
  · exact fun id hnone => h.quiet id fun job hjob => hnone job (List.mem_append_left _ hjob)
  · intro k job hjob
    change (s.jobs ++ [_])[k]? = some job at hjob
    by_cases hk : k < s.jobs.length
    · rw [List.getElem?_append_left hk] at hjob
      exact h.lives k job hjob
    · have hlt := (List.getElem?_eq_some_iff.mp hjob).1
      rw [List.length_append, List.length_singleton] at hlt
      have hlast : k = s.jobs.length := by omega
      rw [hlast, List.getElem?_concat_length, Option.some.injEq] at hjob
      subst hjob
      change TaskLife _ _ _ _ (s.view _)
      rw [h.quiet _ hfresh]
      exact .spawned rfl rfl rfl

/-! ## One job -/

/-- A job moves on in what concerns nobody else. -/
theorem Regular.moved (h : s.Regular) {k : Nat} {job job' : TaskJob} (hjob : s.jobs[k]? = some job)
    (hid : job'.id = job.id) (hlife : ∀ v, job.lives k v → job'.lives k v) :
    (s.set_job k job').Regular :=
  h.at_job job' hjob hid rfl rfl (fun _ _ => rfl) (hlife _ (h.lives k job hjob))

theorem Regular.of_job (h : s.Regular) {k : Nat} {f : TaskJob → TaskBoard}
    (hf : ∀ job, s.jobs[k]? = some job → (f job).Regular) : (s.at_job k f).Regular := by
  unfold TaskBoard.at_job
  split
  · rename_i job hjob
    exact hf job hjob
  · exact h

theorem Regular.insert (h : s.Regular) {k : Nat} {job : TaskJob} (hjob : s.jobs[k]? = some job) :
    (s.insert k job).Regular := by
  have hlife := h.lives k job hjob
  unfold TaskBoard.insert
  split
  · rename_i hspawned
    refine h.at_job { job with spawning := .inserted } hjob rfl rfl rfl
      (fun id hne => view_write_other _ hne _) ?_
    rw [view_write_self, view_set_job]
    generalize s.view job.id = v at hlife
    cases hlife with
    | spawned _ haborted hwork =>
      exact TaskLife.running (by simp) haborted hwork rfl rfl
    | running hspawning | recorded hspawning | cancelled hspawning =>
      exact absurd hspawned hspawning
    | ended hspawning | told hspawning => exact nomatch hspawned.symm.trans hspawning
  · exact h

theorem Regular.announce_started (h : s.Regular) {k : Nat} {job : TaskJob}
    (hjob : s.jobs[k]? = some job) : (s.announce_started k job).Regular := by
  have hlife := h.lives k job hjob
  unfold TaskBoard.announce_started
  split
  · rename_i hinserted
    refine h.at_job { job with spawning := .announced } hjob rfl rfl rfl
      (fun id hne => view_emit_other _ hne) ?_
    rw [view_emit_self _ (.started job.id job.kind job.drop) (show _ = job.id from rfl),
      view_set_job]
    change TaskLife k .announced job.aborted job.work _
    generalize s.view job.id = v at hlife
    cases hlife with
    | spawned hspawning | ended hspawning | told hspawning =>
      exact nomatch hinserted.symm.trans hspawning
    | running _ haborted hwork hstate habort =>
      rw [hinserted]
      exact .running (by simp) haborted hwork hstate habort
    | recorded _ result hwork hstate =>
      rw [hinserted]
      exact .recorded (by simp) result hwork hstate
    | cancelled _ haborted hwork hstate =>
      rw [hinserted]
      exact .cancelled (by simp) haborted hwork hstate
  · exact h

theorem Regular.poll (h : s.Regular) {k : Nat} {job : TaskJob} (hjob : s.jobs[k]? = some job) :
    (s.poll k job).Regular := by
  unfold TaskBoard.poll
  split
  · rename_i hwaiting
    refine h.moved hjob rfl fun v hlife => ?_
    cases hlife with
    | spawned hspawning haborted _ =>
      exact .spawned hspawning haborted (by simp [haborted, WorkStage.going])
    | running hspawning haborted _ hstate habort =>
      exact .running hspawning haborted (by simp [haborted, WorkStage.going]) hstate habort
    | recorded _ _ hwork | ended _ _ hwork => exact nomatch hwaiting.symm.trans hwork
    | cancelled hspawning haborted _ hstate =>
      exact .cancelled hspawning haborted (by simp [haborted, WorkStage.stopped]) hstate
    | told hspawning haborted _ hstate =>
      exact .told hspawning haborted (by simp [haborted, WorkStage.stopped]) hstate
  · exact h

theorem Regular.pend (h : s.Regular) {k : Nat} {job : TaskJob} (hjob : s.jobs[k]? = some job) :
    (s.pend k job).Regular := by
  unfold TaskBoard.pend
  split
  · rename_i hpolled
    refine h.moved hjob rfl fun v hlife => ?_
    cases hlife with
    | spawned hspawning haborted _ => exact .spawned hspawning haborted rfl
    | running hspawning haborted _ hstate habort =>
      exact .running hspawning haborted rfl hstate habort
    | recorded _ _ hwork | ended _ _ hwork => exact nomatch hpolled.symm.trans hwork
    | cancelled hspawning haborted _ hstate => exact .cancelled hspawning haborted rfl hstate
    | told hspawning haborted _ hstate => exact .told hspawning haborted rfl hstate
  · exact h

theorem Regular.complete (h : s.Regular) {k : Nat} {job : TaskJob} (hjob : s.jobs[k]? = some job)
    (result : Except String Unit) (hfair : s.Fair (.complete k result)) :
    (s.complete k job result).Regular := by
  have hgoing : job.aborted = false := by
    simpa [Fair, hjob] using hfair
  unfold TaskBoard.complete
  split
  · rename_i hpolled
    refine h.moved hjob rfl fun v hlife => ?_
    cases hlife with
    | spawned hspawning haborted _ => exact .spawned hspawning haborted rfl
    | running hspawning haborted _ hstate habort =>
      exact .running hspawning haborted rfl hstate habort
    | recorded _ _ hwork | ended _ _ hwork => exact nomatch hpolled.symm.trans hwork
    | cancelled _ haborted | told _ haborted => exact nomatch hgoing.symm.trans haborted
  · exact h

theorem Regular.record (h : s.Regular) {k : Nat} {job : TaskJob} (hjob : s.jobs[k]? = some job)
    (hfair : s.Fair (.record k)) : (s.record k job).Regular := by
  have hlife := h.lives k job hjob
  unfold TaskBoard.record
  split
  · rename_i result hfinished
    have hentered : job.spawning ≠ .spawned := by
      simpa [Fair, hjob, hfinished, WorkStage.completed] using hfair
    simp only
    split
    · rename_i entry hentry
      refine h.at_job { job with work := .recorded result } hjob rfl rfl rfl
        (fun id hne => view_write_other _ hne _) ?_
      rw [view_write_self, view_set_job]
      generalize s.view job.id = v at hlife
      cases hlife with
      | spawned hspawning => exact absurd hspawning hentered
      | running => exact .recorded hentered result rfl rfl
      | recorded _ _ hwork | ended _ _ hwork => exact nomatch hfinished.symm.trans hwork
      | cancelled _ _ hwork | told _ _ hwork =>
        rw [hfinished] at hwork
        cases hwork
    · -- Work that ends has its entry.
      rename_i hnone
      have hentry : (s.view job.id).entry = none := hnone
      generalize s.view job.id = v at hlife hentry
      cases hlife with
      | spawned hspawning => exact absurd hspawning hentered
      | running | recorded | ended | cancelled | told => cases hentry
  · exact h

theorem Regular.announce_finished (h : s.Regular) {k : Nat} {job : TaskJob}
    (hjob : s.jobs[k]? = some job) (hfair : s.Fair (.announce_finished k)) :
    (s.announce_finished k job).Regular := by
  have hlife := h.lives k job hjob
  unfold TaskBoard.announce_finished
  split
  · rename_i result hrecorded
    have hannounced : job.spawning = .announced := by
      simpa [Fair, hjob, hrecorded, WorkStage.completed] using hfair
    refine h.at_job { job with work := .ended result } hjob rfl rfl rfl
      (fun id hne => view_emit_other _ hne) ?_
    rw [view_emit_self _ (.finished job.id result) (show _ = job.id from rfl), view_set_job]
    generalize s.view job.id = v at hlife
    cases hlife with
    | recorded _ result' hwork hstate =>
      rw [hrecorded, WorkStage.recorded.injEq] at hwork
      subst hwork
      rw [hannounced]
      exact .ended rfl result rfl hstate
    | ended _ _ hwork => exact nomatch hrecorded.symm.trans hwork
    | spawned _ _ hwork | running _ _ hwork | cancelled _ _ hwork | told _ _ hwork =>
      rw [hrecorded] at hwork
      cases hwork
  · exact h

/-! ## Cancels -/

theorem view_cancel_self (s : TaskBoard) (id : String) :
    { s with cancelling := s.cancelling ++ [id] }.view id =
      { s.view id with cancels := (s.view id).cancels + 1 } := by
  simp [view, writes_of, events_of]

theorem view_cancel_other (s : TaskBoard) {id other : String} (h : other ≠ id) :
    { s with cancelling := s.cancelling ++ [id] }.view other = s.view other := by
  simp [view, writes_of, events_of, Ne.symm h]

/-- A cancel under way is over. -/
theorem count_eraseIdx {j : Nat} {ids : List String} {id : String} (hj : ids[j]? = some id)
    (other : String) :
    (ids.eraseIdx j).count other + (if other = id then 1 else 0) = ids.count other := by
  obtain ⟨hlt, rfl⟩ := List.getElem?_eq_some_iff.mp hj
  have hperm := (List.getElem_cons_eraseIdx_perm hlt).count_eq other
  rw [List.count_cons] at hperm
  rw [← hperm]
  by_cases h : other = ids[j]
  · simp [h]
  · simp [h, Ne.symm h]

theorem Regular.job_of_entry (h : s.Regular) (id : String)
    (hknown : s.view id ≠ ⟨none, 0, [], []⟩) :
    ∃ (k : Nat) (job : TaskJob), s.jobs[k]? = some job ∧ job.id = id := by
  by_contra hnone
  refine hknown (h.quiet id fun job hjob heq => hnone ?_)
  obtain ⟨k, hk⟩ := List.mem_iff_getElem?.mp hjob
  exact ⟨k, job, hk, heq⟩

theorem Regular.task_cancel (h : s.Regular) (id : String) (hfair : s.Fair (.cancel id)) :
    (s.task_cancel id).Regular := by
  unfold TaskBoard.task_cancel
  split
  · exact h
  · rename_i entry hentry
    have hview : (s.view id).entry = some entry := hentry
    obtain ⟨k, job, hjob, rfl⟩ := h.job_of_entry id fun hnone => by
      rw [hnone] at hview
      cases hview
    simp only [Fair, hentry, Option.all_some, Bool.and_eq_true, decide_eq_true_eq, List.all_eq_true,
      Bool.or_eq_true] at hfair
    obtain ⟨hrunning, hgoing⟩ := hfair
    have hwork : job.work.completed = false := by
      simpa using hgoing job (List.mem_of_getElem? hjob)
    have hlife := h.lives k job hjob
    have habort : entry.abort = some k := by
      generalize s.view job.id = v at hlife hview
      cases hlife with
      | running _ _ _ _ habort =>
        obtain rfl := Option.some.inj hview
        exact habort
      | spawned => cases hview
      | recorded _ _ _ hstate | ended _ _ _ hstate =>
        obtain rfl := Option.some.inj hview
        exact absurd (hstate.symm.trans hrunning) (TaskState.of_result_ne_running _)
      | cancelled _ _ _ hstate | told _ _ _ hstate =>
        obtain rfl := Option.some.inj hview
        exact nomatch hstate.symm.trans hrunning
    simp only [habort]
    refine h.at_job { job with aborted := true } hjob rfl ?_ rfl (fun other hne => ?_) ?_
    · change s.jobs.modify k _ = _
      rw [List.modify_eq_set_getElem?, hjob]
      rfl
    · exact (view_cancel_other _ hne).trans (view_write_other _ hne _)
    · refine (view_cancel_self _ _).symm ▸ ?_
      rw [view_write_self]
      change TaskLife k job.spawning true job.work
        ⟨_, (s.view job.id).cancels + 1, (s.view job.id).writes ++ [.cancelled],
          (s.view job.id).events⟩
      generalize s.view job.id = v at hlife hview
      cases hlife with
      | running hspawning _ hgoing =>
        exact TaskLife.cancelled hspawning rfl (WorkStage.stopped_of_going hgoing hwork) rfl
      | spawned => cases hview
      | recorded _ _ hrec => simp [hrec, WorkStage.completed] at hwork
      | ended _ _ hend => simp [hend, WorkStage.completed] at hwork
      | cancelled _ _ _ hstate | told _ _ _ hstate =>
        obtain rfl := Option.some.inj hview
        exact nomatch hstate.symm.trans hrunning

theorem Regular.announce_cancelled (h : s.Regular) (j : Nat)
    (hfair : s.Fair (.announce_cancelled j)) : (s.announce_cancelled j).Regular := by
  unfold TaskBoard.announce_cancelled
  split
  · rename_i id hj
    have hcount : (s.view id).cancels ≠ 0 :=
      Nat.ne_of_gt (List.count_pos_iff.mpr (List.mem_of_getElem? hj))
    obtain ⟨k, job, hjob, rfl⟩ := h.job_of_entry id fun hnone => hcount (by rw [hnone])
    have hannounced : job.spawning = .announced := by
      simp only [Fair, hj, Option.all_some, List.all_eq_true, Bool.or_eq_true] at hfair
      simpa using hfair job (List.mem_of_getElem? hjob)
    have hlife := h.lives k job hjob
    refine h.at_job job hjob rfl ?_ rfl (fun other hne => ?_) ?_
    · obtain ⟨hlt, rfl⟩ := List.getElem?_eq_some_iff.mp hjob
      exact (List.set_getElem_self hlt).symm
    · have hout := count_eraseIdx hj other
      rw [if_neg hne, Nat.add_zero] at hout
      refine Eq.trans ?_ (view_emit_other s (show other ≠ (TaskEvent.cancelled job.id).task from hne))
      simp [view, writes_of, events_of, emit, hout]
    · have hout := count_eraseIdx hj job.id
      rw [if_pos rfl] at hout
      have hview :
          { s.emit (.cancelled job.id) with cancelling := s.cancelling.eraseIdx j }.view job.id =
            { s.view job.id with
              cancels := (s.view job.id).cancels - 1
              events := (s.view job.id).events ++ [.cancelled] } := by
        simp [view, writes_of, events_of, emit, ← hout, TaskEvent.task, TaskEvent.state]
      rw [hview]
      generalize s.view job.id = v at hlife hcount
      cases hlife with
      | spawned | running | recorded | ended | told => exact absurd rfl hcount
      | cancelled _ haborted hwork hstate =>
        rw [hannounced]
        exact .told hannounced haborted hwork hstate
  · exact h

/-! ## Runs -/

/-- A step that is fair keeps each life whole. -/
theorem Regular.step (h : s.Regular) (step : TaskStep) (hfair : s.Fair step) :
    (s.step step).Regular := by
  cases step with
  | spawn kind drop hash => exact h.spawn kind drop hash hfair
  | insert k => exact h.of_job fun job hjob => h.insert hjob
  | announce_started k => exact h.of_job fun job hjob => h.announce_started hjob
  | poll k => exact h.of_job fun job hjob => h.poll hjob
  | pend k => exact h.of_job fun job hjob => h.pend hjob
  | complete k result => exact h.of_job fun job hjob => h.complete hjob result hfair
  | record k => exact h.of_job fun job hjob => h.record hjob hfair
  | announce_finished k => exact h.of_job fun job hjob => h.announce_finished hjob hfair
  | cancel id => exact h.task_cancel id hfair
  | announce_cancelled j => exact h.announce_cancelled j hfair

theorem OneLife.of_two {last : TaskState} (h : last ≠ .running) : OneLife [.running, last] :=
  .inr (.inr ⟨last, h, rfl⟩)

theorem OneLife.of_prefix {told states : List TaskState} (h : OneLife states)
    (hfront : told <+: states) : OneLife told := by
  rcases h with rfl | rfl | ⟨last, hlast, rfl⟩
  · exact .inl (List.prefix_nil.mp hfront)
  · rcases List.prefix_cons_iff.mp hfront with rfl | ⟨rest, rfl, hrest⟩
    · exact .inl rfl
    · rw [List.prefix_nil.mp hrest]
      exact .inr (.inl rfl)
  · rcases List.prefix_cons_iff.mp hfront with rfl | ⟨rest, rfl, hrest⟩
    · exact .inl rfl
    · rcases List.prefix_cons_iff.mp hrest with rfl | ⟨none, rfl, hnone⟩
      · exact .inr (.inl rfl)
      · rw [List.prefix_nil.mp hnone]
        exact .of_two hlast

end TaskBoard

section Lives

open TaskBoard

variable {k : Nat} {spawning : Spawning} {aborted : Bool} {work : WorkStage} {v : View}

theorem TaskLife.recorded_once (h : TaskLife k spawning aborted work v) : OneLife v.writes := by
  cases h with
  | spawned => exact .inl rfl
  | running => exact .inr (.inl rfl)
  | recorded _ result | ended _ result => exact .of_two (TaskState.of_result_ne_running result)
  | cancelled | told => exact .of_two nofun

theorem TaskLife.shown (h : TaskLife k spawning aborted work v) :
    v.entry.map TaskEntry.state = v.writes.getLast? := by
  cases h with
  | spawned => rfl
  | running _ _ _ hstate | recorded _ _ _ hstate | ended _ _ _ hstate | cancelled _ _ _ hstate
  | told _ _ _ hstate => exact congrArg some hstate

/-- The events are the beginning of what the entry went through. -/
theorem TaskLife.agrees (h : TaskLife k spawning aborted work v) : v.events <+: v.writes := by
  cases h with
  | spawned => exact List.nil_prefix
  | running | recorded | cancelled =>
    cases spawning with
    | announced => exact ⟨_, rfl⟩
    | spawned | inserted => exact List.nil_prefix
  | ended | told => exact List.prefix_refl _

theorem TaskLife.gone (h : TaskLife k spawning aborted work v) (hgone : work.gone)
    {entry : TaskEntry} (hentry : v.entry = some entry) : entry.state ≠ .running := by
  cases h with
  | spawned => cases hentry
  | running _ _ hwork => cases work <;> cases hwork <;> cases hgone
  | recorded _ result _ hstate | ended _ result _ hstate =>
    obtain rfl := Option.some.inj hentry
    exact hstate ▸ TaskState.of_result_ne_running result
  | cancelled _ _ _ hstate | told _ _ _ hstate =>
    obtain rfl := Option.some.inj hentry
    exact hstate ▸ nofun

theorem TaskLife.completed (h : TaskLife k spawning aborted work v) (hcompleted : work.completed) :
    .cancelled ∉ v.writes := by
  cases h with
  | spawned => exact List.not_mem_nil
  | running => simp
  | recorded _ result | ended _ result =>
    simpa using (TaskState.of_result_ne_cancelled result).symm
  | cancelled _ _ hwork | told _ _ hwork => cases work <;> cases hwork <;> cases hcompleted

theorem TaskLife.settled (h : TaskLife k spawning aborted work v) (hgone : work.gone)
    (hcancels : v.cancels = 0) : v.events = v.writes ∧ v.writes.length = 2 := by
  cases h with
  | spawned _ _ hwork | running _ _ hwork => cases work <;> cases hwork <;> cases hgone
  | recorded _ _ hwork =>
    rw [hwork] at hgone
    cases hgone
  | ended | told => exact ⟨rfl, rfl⟩
  | cancelled => cases hcancels

end Lives

namespace TaskBoard

variable {s : TaskBoard}

/-- The task of a job that has one life is told of honestly. -/
theorem honest_of_life {k : Nat} {job : TaskJob} (h : job.lives k (s.view job.id))
    (honly : ∀ other ∈ s.jobs, other.id = job.id → other = job) : s.Honest job.id where
  recorded := h.recorded_once
  shown := h.shown
  told := h.recorded_once.of_prefix h.agrees
  agrees := h.agrees
  gone := fun other hmem hid hgone _ hentry => h.gone (honly other hmem hid ▸ hgone) hentry
  completed := fun other hmem hid hcompleted =>
    have hnot := h.completed (honly other hmem hid ▸ hcompleted)
    ⟨hnot, fun htold => hnot (h.agrees.subset htold)⟩
  settled := fun other hmem hid hgone _ hcancels =>
    h.settled (honly other hmem hid ▸ hgone) (List.count_eq_zero.mpr hcancels)

theorem Regular.honest (h : s.Regular) (id : String) : s.Honest id := by
  by_cases hjob : ∃ job ∈ s.jobs, job.id = id
  · obtain ⟨job, hmem, rfl⟩ := hjob
    obtain ⟨k, hk⟩ := List.mem_iff_getElem?.mp hmem
    have honly : ∀ other ∈ s.jobs, other.id = job.id → other = job := by
      intro other hother heq
      obtain ⟨j, hj⟩ := List.mem_iff_getElem?.mp hother
      rw [h.unique hk hj heq, hk] at hj
      exact (Option.some.inj hj).symm
    exact honest_of_life (h.lives k job hk) honly
  · have hnone : ∀ job ∈ s.jobs, job.id ≠ id := fun job hmem heq => hjob ⟨job, hmem, heq⟩
    have hview := h.quiet id hnone
    have hentry : s.tasks.lookup id = none := congrArg View.entry hview
    have hwrites : s.writes_of id = [] := congrArg View.writes hview
    have hevents : s.events_of id = [] := congrArg View.events hview
    constructor
    · exact .inl hwrites
    · rw [hentry, hwrites]
      rfl
    · exact .inl hevents
    · rw [hevents]
      exact List.nil_prefix
    · exact fun job hmem hid => absurd hid (hnone job hmem)
    · exact fun job hmem hid => absurd hid (hnone job hmem)
    · exact fun job hmem hid => absurd hid (hnone job hmem)

/-- In a run of fair steps each task has one life, in every state that the run
gets to. -/
theorem fair_runs_are_honest (steps : List TaskStep)
    (hfair : runs.Meets TaskBoard.step Fair .new steps) (past : List TaskStep)
    (hpast : past <+: steps) (id : String) : (TaskBoard.new.run past).Honest id := by
  obtain ⟨rest, rfl⟩ := hpast
  have hmeets := ((runs.meets_append _ past rest).mp hfair).1
  have hstep : ∀ s step, Regular s → Fair s step → Regular (TaskBoard.step s step) :=
    fun _ step h hfair => h.step step hfair
  exact (runs.invariant_of_meets hstep regular_new hmeets).honest id

end TaskBoard

/-! ## A cancel that comes late, and one in time -/

namespace late_cancel

/-- A fetch comes to its end, and then a client cancels it. -/
def steps : List TaskStep :=
  [.spawn .fetch "d1" none, .insert 0, .announce_started 0, .poll 0, .complete 0 (.ok ()),
    .record 0, .announce_finished 0, .cancel "t1", .announce_cancelled 0]

theorem written : (TaskBoard.new.run steps).writes_of "t1" = [.running, .done, .cancelled] := by
  decide +kernel

theorem a_finished_task_is_cancelled :
    ¬ ∀ (steps past : List TaskStep), past <+: steps →
      ∀ id, (TaskBoard.new.run past).Honest id := by
  intro h
  have hlife := (h steps steps (List.prefix_refl _) "t1").recorded
  rw [written] at hlife
  rcases hlife with hlife | hlife | ⟨last, -, hlife⟩ <;> simp at hlife

/-- Two fetches: one is cancelled while it waits, and the other ends. -/
def in_time : List TaskStep :=
  [.spawn .fetch "d1" none, .poll 0, .insert 0, .pend 0, .announce_started 0,
    .spawn .fetch "d1" none, .insert 1, .poll 1, .cancel "t1", .announce_cancelled 0, .poll 0,
    .announce_started 1, .complete 1 (.error "no providers"), .record 1, .announce_finished 1]

theorem both_are_told_of : (TaskBoard.new.run in_time).Honest "t1" :=
  TaskBoard.fair_runs_are_honest in_time (by decide +kernel) in_time (List.prefix_refl _) "t1"

end late_cancel

end iroh_drop
