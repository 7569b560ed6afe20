-- What one step of a persisting daemon can do: most steps work in memory
-- only, and a job has few ways to go on.
import IrohDrop.Persisting

open rust_std postcard volume

namespace iroh_drop

/-! ## Stages -/

namespace Stage

/-- The job has no file at hand, and nothing to save yet. -/
def idle : Stage → Bool
  | .waiting _ | .checking | .ending => true
  | _ => false

/-- What `persist_drop` has exported and not yet saved. -/
def save : Stage → Option (TopicId × List Bytes)
  | .listing save => save
  | .saving_table _ _ _ save => save
  | .saving_frames topic frames _ => some (topic, frames)
  | _ => none

/-- The target whose temporary file the job makes next. -/
def creates : Stage → Option DataFile
  | .saving_table _ _ .create _ => some DropStore.table_path
  | .saving_frames topic _ .create => some (DropStore.frames_path topic)
  | _ => none

/-- The table that the job renames into place next, by its stamp. -/
def renames : Stage → Option Nat
  | .saving_table stamp _ .rename _ => some stamp
  | _ => none

/-- The file that the job replaces. -/
def write [TableJson] : Stage → Option (DataFile × Bytes × Phase)
  | .saving_table _ table phase _ =>
    some (DropStore.table_path, TableJson.to_vec_pretty table, phase)
  | .saving_frames topic frames phase =>
    some (DropStore.frames_path topic, DropStore.frames_codec.write frames, phase)
  | _ => none

theorem write_idle [TableJson] {stage : Stage} (h : stage.idle = true) : stage.write = none := by
  cases stage with
  | waiting session => rfl
  | checking => rfl
  | ending => rfl
  | _ => cases h

theorem save_idle {stage : Stage} (h : stage.idle = true) : stage.save = none := by
  cases stage with
  | waiting session => rfl
  | checking => rfl
  | ending => rfl
  | _ => cases h

theorem write_after_table [TableJson] {save : Option (TopicId × List Bytes)} {path : DataFile}
    {bytes : Bytes} {phase : Phase} (h : (after_table save).write = some (path, bytes, phase)) :
    phase = .create := by
  cases save with
  | none => cases h
  | some save =>
    cases h
    rfl

theorem save_after_table (save : Option (TopicId × List Bytes)) : (after_table save).save = save := by
  cases save <;> rfl

theorem temp_of_write [TableJson] {stage : Stage} {path : DataFile} {bytes : Bytes} {phase : Phase}
    (h : stage.write = some (path, bytes, phase)) (hopened : phase.opened = true) :
    stage.temp = some (path.with_extension .tmp) := by
  cases stage with
  | saving_table stamp table phase save =>
    cases h
    exact if_pos hopened
  | saving_frames topic frames phase =>
    cases h
    exact if_pos hopened
  | _ => cases h

/-- A target is no temporary file. -/
theorem write_plain [TableJson] {stage : Stage} {path : DataFile} {bytes : Bytes} {phase : Phase}
    (h : stage.write = some (path, bytes, phase)) (other : DataFile) :
    path ≠ other.with_extension .tmp := by
  cases stage with
  | saving_table stamp table phase save =>
    cases h
    exact fun heq => nomatch congrArg DataFile.extension heq
  | saving_frames topic frames phase =>
    cases h
    exact fun heq => nomatch congrArg DataFile.extension heq
  | _ => cases h

end Stage

section Laws

variable [Crypto]

namespace Daemon

def stage_at (s : Daemon) (k : Nat) : Option Stage := s.jobs[k]?.map Job.stage

theorem stage_at_set {s : Daemon} {k : Nat} {job : Job} (hk : s.jobs[k]? = some job) (new : Job)
    (l : Nat) : (s.set_job k new).stage_at l = if l = k then some new.stage else s.stage_at l := by
  unfold stage_at set_job
  by_cases hl : l = k
  · subst hl
    rw [if_pos rfl, List.getElem?_set_self (List.getElem?_eq_some_iff.mp hk).1]
    rfl
  · rw [if_neg hl, List.getElem?_set_ne (fun heq => hl heq.symm)]

/-! ## Steps in memory -/

/-- Nothing but the memory changes, and whatever job begins is idle. -/
structure InMemory (s s' : Daemon) : Prop where
  dir : s'.dir = s.dir
  passed : s'.passed = s.passed
  exported : s'.exported = s.exported
  taken : s'.taken = s.taken
  saved : s'.saved = s.saved
  stages : ∀ k, s'.stage_at k = s.stage_at k ∨
    s.stage_at k = none ∧ ∀ stage, s'.stage_at k = some stage → stage.idle = true

namespace InMemory

variable {s s' s'' : Daemon}

theorem refl (s : Daemon) : InMemory s s := ⟨rfl, rfl, rfl, rfl, rfl, fun _ => .inl rfl⟩

/-- The files, the jobs and what was saved are as they were. -/
theorem of_eq (hdir : s'.dir = s.dir) (hpassed : s'.passed = s.passed)
    (hexported : s'.exported = s.exported) (htaken : s'.taken = s.taken)
    (hsaved : s'.saved = s.saved) (hjobs : s'.jobs = s.jobs) : InMemory s s' := by
  refine ⟨hdir, hpassed, hexported, htaken, hsaved, fun k => .inl ?_⟩
  unfold stage_at
  rw [hjobs]

theorem spawn (h : InMemory s s') {job : Job} (hidle : job.stage.idle = true) :
    InMemory s (s'.spawn job) := by
  refine ⟨h.dir, h.passed, h.exported, h.taken, h.saved, fun k => ?_⟩
  have hnew : (s'.spawn job).stage_at k = s'.stage_at k ∨
      s'.stage_at k = none ∧ (s'.spawn job).stage_at k = some job.stage ∨
      (s'.spawn job).stage_at k = none := by
    unfold stage_at Daemon.spawn
    rcases Nat.lt_trichotomy k s'.jobs.length with hlt | heq | hgt
    · rw [List.getElem?_append_left hlt]
      exact .inl rfl
    · subst heq
      right; left
      simp
    · right; right
      rw [List.getElem?_eq_none]
      · rfl
      · rw [List.length_append, List.length_singleton]
        exact hgt
  rcases hnew with heq | ⟨hnone, hsome⟩ | hnone
  · rw [heq]
    exact h.stages k
  · right
    constructor
    · rcases h.stages k with hsame | ⟨hold, -⟩
      · rwa [← hsame]
      · exact hold
    · intro stage hstage
      rw [hsome] at hstage
      cases hstage
      exact hidle
  · rcases h.stages k with hsame | ⟨hold, -⟩
    · rcases hs : s.stage_at k with _ | stage
      · exact .inl hnone
      · exfalso
        rw [hs] at hsame
        unfold stage_at Daemon.spawn at hnone
        unfold stage_at at hsame
        obtain ⟨old, hold, -⟩ := Option.map_eq_some_iff.mp hsame
        rw [List.getElem?_append_left (List.getElem?_eq_some_iff.mp hold).1, hold] at hnone
        cases hnone
    · exact .inl (hnone.trans hold.symm)

/-- A purpose may change, a stage does not. -/
theorem registered (s : Daemon) (topic : TopicId) : InMemory s (s.registered topic) := by
  refine ⟨rfl, rfl, rfl, rfl, rfl, fun k => .inl ?_⟩
  unfold stage_at Daemon.registered
  rw [List.getElem?_map, Option.map_map]
  congr 1
  funext job
  rcases job with ⟨purpose, handle, stage⟩
  cases purpose <;> rfl

theorem trans (h : InMemory s s') (h' : InMemory s' s'') (hjobs : s''.jobs = s'.jobs) :
    InMemory s s'' := by
  refine ⟨h'.dir.trans h.dir, h'.passed.trans h.passed, h'.exported.trans h.exported,
    h'.taken.trans h.taken, h'.saved.trans h.saved, fun k => ?_⟩
  have hsame : s''.stage_at k = s'.stage_at k := by
    unfold stage_at
    rw [hjobs]
  rw [hsame]
  exact h.stages k

theorem settle (s : Daemon) (k : Nat) : InMemory s (s.settle k) := by
  unfold Daemon.settle
  split
  · exact .of_eq rfl rfl rfl rfl rfl rfl
  · dsimp only
    split
    · exact .of_eq rfl rfl rfl rfl rfl rfl
    · refine InMemory.spawn ?_ rfl
      exact (InMemory.registered s _).trans (.of_eq rfl rfl rfl rfl rfl rfl) rfl
  · exact .of_eq rfl rfl rfl rfl rfl rfl

theorem drop_join [Urls] (s : Daemon) (self_addr : EndpointAddr) (ticket : String) :
    InMemory s (s.drop_join self_addr ticket) := by
  unfold Daemon.drop_join
  dsimp only
  split
  · exact .of_eq rfl rfl rfl rfl rfl rfl
  · split
    · exact .of_eq rfl rfl rfl rfl rfl rfl
    · refine InMemory.spawn ?_ ?_
      · exact .of_eq rfl rfl rfl rfl rfl rfl
      · dsimp only
        split <;> rfl

theorem drop_leave (s : Daemon) (handle : String) : InMemory s (s.drop_leave handle) := by
  unfold Daemon.drop_leave
  split
  · split
    · exact .refl s
    · refine InMemory.spawn ?_ rfl
      exact .of_eq rfl rfl rfl rfl rfl rfl
  · exact .refl s

theorem pump (s : Daemon) (i : SessionId) : InMemory s (s.pump i) := by
  unfold Daemon.pump schedule_persist
  dsimp only
  split
  · split <;> exact .of_eq rfl rfl rfl rfl rfl rfl
  · exact .of_eq rfl rfl rfl rfl rfl rfl

theorem act [Urls] (s : Daemon) (self_addr : EndpointAddr) (a : Service.Act) :
    InMemory s (s.act self_addr a) := by
  unfold Daemon.act
  split
  iterate 3
    · split
      · exact .of_eq rfl rfl rfl rfl rfl rfl
      · exact .refl s
  · split
    · exact .drop_join s self_addr _
    · exact .refl s
  · split
    · exact .drop_leave s _
    · exact .refl s
  · exact .settle s _
  · exact .pump s _
  · exact .refl s
  · exact .refl s
  · exact .of_eq rfl rfl rfl rfl rfl rfl

theorem restore [Urls] (s : Daemon) (self_addr : EndpointAddr) :
    InMemory s (s.restore self_addr) := by
  unfold Daemon.restore
  split
  · exact .refl s
  · split
    · exact .of_eq rfl rfl rfl rfl rfl rfl
    · dsimp only
      split <;> exact .of_eq rfl rfl rfl rfl rfl rfl

theorem restore_history (s : Daemon) (k : Nat) (now : Instant) :
    InMemory s (s.restore_history k now) := by
  unfold Daemon.restore_history
  split
  · split
    · exact .refl s
    · exact .of_eq rfl rfl rfl rfl rfl rfl
  · exact .refl s

theorem debounced (s : Daemon) (handle : String) : InMemory s (s.debounced handle) := by
  unfold Daemon.debounced
  split
  · refine InMemory.spawn ?_ rfl
    exact .of_eq rfl rfl rfl rfl rfl rfl
  · exact .refl s

theorem published [Urls] (s : Daemon) (self_addr : EndpointAddr) (k : Nat) :
    InMemory s (s.published self_addr k) := by
  unfold Daemon.published
  split
  · split
    · refine InMemory.spawn ?_ rfl
      exact .of_eq rfl rfl rfl rfl rfl rfl
    · exact .refl s
  · exact .refl s

theorem shutdown (s : Daemon) : InMemory s s.shutdown := by
  unfold Daemon.shutdown
  split
  · exact InMemory.spawn (.refl s) rfl
  · exact .refl s

/-- Every step works in memory only, but for those of the jobs and a restart. -/
theorem step [Urls] [TableJson] (self_addr : EndpointAddr) (s : Daemon) {op : DaemonOp}
    (hjob : ∀ k, op ≠ .job k) (hrestart : op ≠ .restart) : InMemory s (s.step self_addr op) := by
  cases op with
  | act a => exact .act s self_addr a
  | restore => exact .restore s self_addr
  | restore_history k now => exact .restore_history s k now
  | debounced handle => exact .debounced s handle
  | published k => exact .published s self_addr k
  | job k => exact absurd rfl (hjob k)
  | shutdown => exact .shutdown s
  | restart => exact absurd rfl hrestart

end InMemory

/-! ## Steps of a job -/

/-- What a step of a job can do. -/
inductive Worked [Urls] [TableJson] (self_addr : EndpointAddr) (s : Daemon) (k : Nat) :
    Daemon → Prop
  | idle : Worked self_addr s k s
  | waited {job : Job} {session : SessionId} {topic : TopicId} {again : Bool}
    (hk : s.jobs[k]? = some job) (stage : job.stage = .waiting session)
    (purpose : job.purpose = .leave topic again) :
    Worked self_addr s k (s.set_job k { job with stage := .removing topic })
  | removed {job : Job} {topic : TopicId} (hk : s.jobs[k]? = some job)
    (stage : job.stage = .removing topic) :
    Worked self_addr s k ({ s with dir := DropStore.remove_drop s.dir topic }.set_job k
      { job with stage := .listing none })
  | unlisted {job : Job} (hk : s.jobs[k]? = some job) (stage : job.stage = .checking)
    (session : s.service.session_of job.handle = none) :
    Worked self_addr s k (s.set_job k { job with stage := .ending })
  | checked {job : Job} {i : SessionId} {topic : TopicId} {ticket : DropTicket}
    (hk : s.jobs[k]? = some job) (stage : job.stage = .checking)
    (session : s.service.session_of job.handle = some i)
    (origin : s.service.origin i = some (topic, ticket)) :
    Worked self_addr s k (s.set_job k { job with stage := .exporting i topic })
  | exports {job : Job} {i : SessionId} {topic : TopicId} (frames : List Bytes)
    (hk : s.jobs[k]? = some job) (stage : job.stage = .exporting i topic) :
    Worked self_addr s k ({ s with exported := s.exported ++ [(topic, frames)] }.set_job k
      { job with stage := .listing (some (topic, frames)) })
  | lists {job : Job} {save : Option (TopicId × List Bytes)} (hk : s.jobs[k]? = some job)
    (stage : job.stage = .listing save) :
    Worked self_addr s k ({ s with
      passed := s.passed ++ [s.service.persisted_table self_addr]
      taken := s.taken ++ [s.service.persisted_table self_addr] }.set_job k { job with
        stage := .saving_table s.taken.length (s.service.persisted_table self_addr) .create save })
  | table_next {job : Job} {stamp : Nat} {table : List PersistedDrop} {phase next : Phase}
    {save : Option (TopicId × List Bytes)} (hk : s.jobs[k]? = some job)
    (stage : job.stage = .saving_table stamp table phase save)
    (goes_on : (DropStore.save_table table s.dir phase).2 = some next) :
    Worked self_addr s k ({ s with dir := (DropStore.save_table table s.dir phase).1 }.set_job k
      { job with stage := .saving_table stamp table next save })
  | table_done {job : Job} {stamp : Nat} {table : List PersistedDrop} {phase : Phase}
    {save : Option (TopicId × List Bytes)} (hk : s.jobs[k]? = some job)
    (stage : job.stage = .saving_table stamp table phase save)
    (done : (DropStore.save_table table s.dir phase).2 = none) :
    Worked self_addr s k ({ s with
      dir := (DropStore.save_table table s.dir phase).1, saved := stamp + 1 }.set_job k
      { job with stage := .after_table save })
  | frames_next {job : Job} {topic : TopicId} {frames : List Bytes} {phase next : Phase}
    (hk : s.jobs[k]? = some job) (stage : job.stage = .saving_frames topic frames phase)
    (goes_on : (DropStore.save_frames topic frames s.dir phase).2 = some next) :
    Worked self_addr s k ({ s with
      dir := (DropStore.save_frames topic frames s.dir phase).1 }.set_job k
      { job with stage := .saving_frames topic frames next })
  | frames_done {job : Job} {topic : TopicId} {frames : List Bytes} {phase : Phase}
    (hk : s.jobs[k]? = some job) (stage : job.stage = .saving_frames topic frames phase)
    (done : (DropStore.save_frames topic frames s.dir phase).2 = none) :
    Worked self_addr s k ({ s with
      dir := (DropStore.save_frames topic frames s.dir phase).1 }.set_job k
      { job with stage := .ending })
  /-- A persist ends, or a request that answers an error. -/
  | ended {job : Job} (hk : s.jobs[k]? = some job) (stage : job.stage = .ending) :
    Worked self_addr s k (s.set_job k { job with stage := .returned })
  | answered {job : Job} {ticket : DropTicket} (hk : s.jobs[k]? = some job)
    (stage : job.stage = .ending) (purpose : job.purpose = .opened ∨ job.purpose = .rejoined)
    (drop : s.service.drop job.handle = some ticket) :
    Worked self_addr s k ({ s with members := s.members ++ [(job.handle, ticket)] }.set_job k
      { job with stage := .returned })
  | left {job : Job} {topic : TopicId} {again : Bool} (hk : s.jobs[k]? = some job)
    (stage : job.stage = .ending) (purpose : job.purpose = .leave topic again) :
    Worked self_addr s k ({ s with
      forgotten := if again then s.forgotten else s.forgotten ++ [topic] }.set_job k
      { job with stage := .returned })
  | drained {job : Job} (hk : s.jobs[k]? = some job) (stage : job.stage = .ending)
    (purpose : job.purpose = .shutdown []) :
    Worked self_addr s k ({ s with service := { s.service with drops := ∅ } }.set_job k
      { job with stage := .returned })
  | next {job : Job} {handle : String} {rest : List String} (hk : s.jobs[k]? = some job)
    (stage : job.stage = .ending) (purpose : job.purpose = .shutdown (handle :: rest)) :
    Worked self_addr s k (s.set_job k ⟨.shutdown rest, handle, .checking⟩)

theorem worked [Urls] [TableJson] (self_addr : EndpointAddr) (s : Daemon) (k : Nat) :
    Worked self_addr s k (s.job self_addr k) := by
  unfold Daemon.job
  rcases hk : s.jobs[k]? with _ | job
  · exact .idle
  dsimp only
  rcases hstage : job.stage with session | topic | _ | ⟨i, topic⟩ | save |
    ⟨stamp, table, phase, save⟩ | ⟨topic, frames, phase⟩ | _ | _
  · -- waiting
    dsimp only
    split
    · rename_i topic again hpurpose
      split
      · exact .waited hk hstage hpurpose
      · exact .idle
    · exact .idle
  · exact .removed hk hstage
  · -- checking
    dsimp only
    split
    · rename_i hsession
      exact .unlisted hk hstage hsession
    · rename_i i hsession
      split
      · exact .idle
      · rename_i topic ticket horigin
        exact .checked hk hstage hsession horigin
  · -- exporting
    dsimp only
    split
    · exact .idle
    · exact .exports _ hk hstage
  · exact .lists hk hstage
  · -- saving_table
    dsimp only
    split
    · rename_i dir next hsave
      have h : Worked self_addr s k _ := .table_next hk hstage (congrArg Prod.snd hsave)
      rwa [hsave] at h
    · rename_i dir hsave
      have h : Worked self_addr s k _ := .table_done hk hstage (congrArg Prod.snd hsave)
      rwa [hsave] at h
  · -- saving_frames
    dsimp only
    split
    · rename_i dir next hsave
      have h : Worked self_addr s k _ := .frames_next hk hstage (congrArg Prod.snd hsave)
      rwa [hsave] at h
    · rename_i dir hsave
      have h : Worked self_addr s k _ := .frames_done hk hstage (congrArg Prod.snd hsave)
      rwa [hsave] at h
  · -- ending
    rcases job with ⟨_ | _ | _ | ⟨topic, again⟩ | _ | ⟨next, rest⟩, handle, stage⟩
    · exact .ended hk hstage
    · simp only [finish]
      split
      · rename_i ticket hdrop
        exact .answered hk hstage (.inl rfl) hdrop
      · exact .ended hk hstage
    · simp only [finish]
      split
      · rename_i ticket hdrop
        exact .answered hk hstage (.inr rfl) hdrop
      · exact .ended hk hstage
    · exact .left hk hstage rfl
    · exact .drained hk hstage rfl
    · exact .next hk hstage rfl
  · exact .idle

end Daemon

end Laws

end iroh_drop
