-- What the steps of a persisting daemon do to its books: the rows that it has
-- yet to restore, the handles that it knows, its members, and what its jobs are
-- for.
import IrohDrop.Membership
import IrohDrop.TableSaves

open rust_std postcard volume

namespace iroh_drop

section Laws

variable [Crypto]

/-! ## Drops that a restart is at work on -/

namespace Daemon

variable [Urls] [TableJson] {self_addr : EndpointAddr} {s s' : Daemon} {op : DaemonOp}

/-- A step takes up the next row, or no other drop than before. -/
theorem restoring_step (hs : Service.Hosting s.service) (hop : op ≠ .restart) {handle : String}
    {ticket : DropTicket} (hr : (s.step self_addr op).service.Restoring handle ticket) :
    s.service.Restoring handle ticket ∨ s.serving = false ∧ ∃ pd ∈ s.restoring,
      pd.handle = handle ∧ DropTicket.from_string_prefixed pd.ticket.toList = .ok ticket := by
  have hcalls : Service.CallsMove s.service (s.step self_addr op).service op.call
      (Begins s (s.step self_addr op) op) := calls_step hs hop
  have hlater := (serves_step self_addr s hop).later
  -- a call that was there before is at the same point
  have hold : ∀ call ∈ s.service.calls, ∀ i opening, call = .opened i opening →
      ∀ o, (s.step self_addr op).service.origin i = some o → s.service.origin i = some o :=
    fun call hcall i opening heq o ho => hlater.back (hs.calls call hcall i (by rw [heq]; rfl)) ho
  have hback : ∀ call ∈ s.service.calls,
      ((∃ name mine, call = .connecting ticket (.restored handle name mine)) ∨
        ∃ i topic name mine, call = .opened i (.restored handle name mine) ∧
          (s.step self_addr op).service.origin i = some (topic, ticket)) →
      s.service.Restoring handle ticket := by
    rintro call hcall (⟨name, mine, rfl⟩ | ⟨i, topic, name, mine, rfl, horigin⟩)
    · exact .inl ⟨name, mine, hcall⟩
    · exact .inr ⟨i, topic, name, mine, hcall, hold _ hcall i _ rfl _ horigin⟩
  obtain ⟨call, hcall, hform⟩ : ∃ call ∈ (s.step self_addr op).service.calls,
      (∃ name mine, call = .connecting ticket (.restored handle name mine)) ∨
        ∃ i topic name mine, call = .opened i (.restored handle name mine) ∧
          (s.step self_addr op).service.origin i = some (topic, ticket) := by
    rcases hr with ⟨name, mine, hmem⟩ | ⟨i, topic, name, mine, hmem, horigin⟩
    · exact ⟨_, hmem, .inl ⟨name, mine, rfl⟩⟩
    · exact ⟨_, hmem, .inr ⟨i, topic, name, mine, rfl, horigin⟩⟩
  cases hcalls with
  | same calls =>
    rw [calls] at hcall
    exact .inl (hback call hcall hform)
  | @added new begins calls =>
    rw [calls] at hcall
    rcases List.mem_append.mp hcall with hcall | hnew
    · exact .inl (hback call hcall hform)
    · rw [List.mem_singleton.mp hnew] at hform
      cases begins with
      | request serving restored asks =>
        rcases hform with ⟨name, mine, rfl⟩ | ⟨i, topic, name, mine, rfl, -⟩
        · cases restored
        · cases restored
      | @row ticket' pd restoring row reads number =>
        rcases hform with ⟨name, mine, heq⟩ | ⟨i, topic, name, mine, heq, -⟩
        · cases heq
          exact .inr ⟨restoring, pd, row, rfl, reads⟩
        · cases heq
  | @moved k old new found calls restored opens asks =>
    rw [calls] at hcall
    rcases List.mem_or_eq_of_mem_set hcall with hcall | rfl
    · exact .inl (hback call hcall hform)
    · rcases opens with hnone | ⟨ticket', opening, j, rfl, rfl, horigin⟩
      · rcases hform with ⟨name, mine, rfl⟩ | ⟨i, topic, name, mine, rfl, -⟩
        · cases hnone
        · cases hnone
      · rcases hform with ⟨name, mine, heq⟩ | ⟨i, topic, name, mine, heq, hi⟩
        · cases heq
        · cases heq
          rw [horigin] at hi
          cases hi
          exact .inl (.inl ⟨name, mine, List.mem_of_getElem? found⟩)
  | ended found at_call calls =>
    rw [calls] at hcall
    exact .inl (hback call (List.mem_of_mem_eraseIdx hcall) hform)

end Daemon

/-! ## The books -/

/-- No request waits for the job, or one that adds nothing to the table. -/
def Purpose.plain : Purpose → Bool
  | .opened | .leave _ _ => false
  | _ => true

namespace Daemon

/-- What a step that is no step of a job does to the books. -/
inductive Books (s s' : Daemon) : DaemonOp → Prop
  | same {op : DaemonOp}
      (fresh : ∀ i opening, s.opens op = some (i, opening) → (Call.opened i opening).restored ≠ none)
      (jobs : s'.jobs = s.jobs ∨
        ∃ job : Job, job.purpose.plain = true ∧ job.stage.idle = true ∧ s'.jobs = s.jobs ++ [job])
      (known : s'.known = s.known) (members : s'.members = s.members)
      (forgotten : s'.forgotten = s.forgotten)
      (restoring : s'.restoring = s.restoring ∨ ∃ pd, s.restoring = pd :: s'.restoring ∧
        s'.serving = false ∧ ∀ n, handle_number pd.handle = some n → n ≤ s'.max_handle) :
      Books s s' op
  | opened {k : Nat} {i : SessionId} {opening : Opening} {topic : TopicId} {ticket : DropTicket}
      (opens : s.opens (.act (.settle k)) = some (i, opening))
      (fresh : (Call.opened i opening).restored = none)
      (origin : s.service.origin i = some (topic, ticket))
      (jobs : s'.jobs =
        (s.registered topic).jobs ++ [⟨.opened, s.service.handle_of opening, .checking⟩])
      (known : s'.known = s.known ++ [s.service.handle_of opening])
      (members : s'.members = s.members)
      (forgotten : s'.forgotten = s.forgotten.filter (fun t => decide (t ≠ topic)))
      (restoring : s'.restoring = s.restoring) : Books s s' (.act (.settle k))
  | left {handle : String} {i : SessionId} {topic : TopicId} {ticket : DropTicket}
      (serving : s.serving = true) (session : s.service.session_of handle = some i)
      (origin : s.service.origin i = some (topic, ticket))
      (gone : s'.service.session_of handle = none)
      (jobs : s'.jobs = s.jobs ++ [⟨.leave topic (s'.service.handle_for_topic topic).isSome, handle,
        .waiting i⟩])
      (known : s'.known = s.known.filter (fun h => decide (h ≠ handle)))
      (members : s'.members = s.members.filter (fun m => decide (m.1 ≠ handle)))
      (forgotten : s'.forgotten = s.forgotten) (restoring : s'.restoring = s.restoring) :
      Books s s' (.act (.drop_leave handle))

variable [Urls] [TableJson] {self_addr : EndpointAddr} {s s' : Daemon} {op : DaemonOp}

omit [Urls] [TableJson] in
theorem Books.refl (s : Daemon) (hquiet : s.opens op = none) : Books s s op :=
  .same (fun i opening h => by rw [hquiet] at h; cases h) (.inl rfl) rfl rfl rfl (.inl rfl)

omit [Urls] [TableJson] in
/-- Only the service moves. -/
theorem Books.of_service (hquiet : s.opens op = none) (hjobs : s'.jobs = s.jobs)
    (hknown : s'.known = s.known) (hmembers : s'.members = s.members)
    (hforgotten : s'.forgotten = s.forgotten) (hrestoring : s'.restoring = s.restoring) :
    Books s s' op :=
  .same (fun i opening h => by rw [hquiet] at h; cases h) (.inl hjobs) hknown hmembers hforgotten
    (.inl hrestoring)

omit [Urls] [TableJson] in
theorem Books.of_spawn (hquiet : s.opens op = none) {job : Job} (hplain : job.purpose.plain = true)
    (hidle : job.stage.idle = true) (hjobs : s'.jobs = s.jobs ++ [job]) (hknown : s'.known = s.known)
    (hmembers : s'.members = s.members) (hforgotten : s'.forgotten = s.forgotten)
    (hrestoring : s'.restoring = s.restoring) : Books s s' op :=
  .same (fun i opening h => by rw [hquiet] at h; cases h) (.inr ⟨job, hplain, hidle, hjobs⟩) hknown
    hmembers hforgotten (.inl hrestoring)

omit [Urls] [TableJson] in
theorem Settles.books {k : Nat} (h : Settles s k s') : Books s s' (.act (.settle k)) := by
  cases h with
  | idle none =>
    refine .refl s ?_
    unfold opens
    grind
  | @restored i handle name mine found =>
    refine .same ?_ (.inl rfl) rfl rfl rfl (.inl rfl)
    intro j opening hopens
    simp only [opens, found] at hopens
    cases hopens
    intro hnone
    cases hnone
  | @fresh i opening topic ticket found fresh origin =>
    refine .opened ?_ fresh origin rfl rfl rfl rfl rfl
    simp only [opens, found]

omit [Urls] [TableJson] in
theorem books_leave (s : Daemon) (handle : String) (hserving : s.serving = true) :
    Books s (s.drop_leave handle) (.act (.drop_leave handle)) := by
  unfold Daemon.drop_leave
  split
  · rename_i entry service hentry hleave
    split
    · exact .refl s rfl
    · rename_i topic ticket horigin
      refine .left hserving ?_ horigin ?_ rfl rfl rfl rfl rfl
      · unfold Service.session_of
        rw [hentry, Option.map_some]
      · exact (Service.session_of_leave hleave handle).trans (if_pos rfl)
  · exact .refl s rfl

omit [TableJson] in
theorem books_act (hs : Service.Hosting s.service) (a : Service.Act) :
    Books s (s.act self_addr a) (.act a) := by
  cases a with
  | drop_create options topic_id key =>
    simp only [Daemon.act]
    split
    · exact .of_service rfl rfl rfl rfl rfl rfl
    · exact .refl s rfl
  | offer_publish handle =>
    simp only [Daemon.act]
    split
    · exact .of_service rfl rfl rfl rfl rfl rfl
    · exact .refl s rfl
  | offer_fetch handle hash =>
    simp only [Daemon.act]
    split
    · exact .of_service rfl rfl rfl rfl rfl rfl
    · exact .refl s rfl
  | drop_join text =>
    simp only [Daemon.act]
    split
    · unfold Daemon.drop_join
      dsimp only
      split
      · exact .of_service rfl rfl rfl rfl rfl rfl
      · split
        · exact .of_service rfl rfl rfl rfl rfl rfl
        · refine .of_spawn rfl rfl ?_ rfl rfl rfl rfl rfl
          dsimp only
          split <;> rfl
    · exact .refl s rfl
  | drop_leave handle =>
    simp only [Daemon.act]
    split
    · rename_i hserving
      exact books_leave s handle hserving
    · exact .refl s rfl
  | settle k => exact (settles hs k).books
  | pump i =>
    simp only [Daemon.act, Daemon.pump, schedule_persist]
    split
    · split <;> exact .of_service rfl rfl rfl rfl rfl rfl
    · exact .of_service rfl rfl rfl rfl rfl rfl
  | _ => exact .of_service rfl rfl rfl rfl rfl rfl

omit [TableJson] in
theorem books_restore (s : Daemon) : Books s (s.restore self_addr) .restore := by
  have hquiet : ∀ i opening, s.opens .restore = some (i, opening) →
      (Call.opened i opening).restored ≠ none := by
    intro i opening h
    cases h
  unfold Daemon.restore
  split
  · exact .refl s rfl
  · rename_i hbusy
    have hidle : s.serving = false := by
      rcases hs : s.serving with _ | _
      · rfl
      · simp [hs] at hbusy
    split
    · exact .of_service rfl rfl rfl rfl rfl rfl
    · rename_i pd rest hrows
      have hmax : ∀ n, n ≤ max s.max_handle n := by
        intro n
        rw [UInt64.le_iff_toNat_le, toNat_max]
        exact Nat.le_max_right _ _
      dsimp only
      split
      · refine .same hquiet (.inl rfl) rfl rfl rfl (.inr ⟨pd, hrows, hidle, fun n hn => ?_⟩)
        simp only [hn, hmax]
      · refine .same hquiet (.inl rfl) rfl rfl rfl (.inr ⟨pd, hrows, hidle, fun n hn => ?_⟩)
        simp only [hn, hmax]

theorem books_step (hs : Service.Hosting s.service) (hjob : ∀ k, op ≠ .job k)
    (hop : op ≠ .restart) : Books s (s.step self_addr op) op := by
  cases op with
  | act a => exact books_act hs a
  | restore => exact books_restore s
  | restore_history k now =>
    simp only [Daemon.step, Daemon.restore_history]
    split
    · split
      · exact .refl s rfl
      · exact .of_service rfl rfl rfl rfl rfl rfl
    · exact .refl s rfl
  | debounced handle =>
    simp only [Daemon.step, Daemon.debounced]
    split
    · exact .of_spawn rfl rfl rfl rfl rfl rfl rfl rfl
    · exact .refl s rfl
  | published k =>
    simp only [Daemon.step, Daemon.published]
    split
    · split
      · exact .of_spawn rfl rfl rfl rfl rfl rfl rfl rfl
      · exact .refl s rfl
    · exact .refl s rfl
  | job k => exact absurd rfl (hjob k)
  | shutdown =>
    simp only [Daemon.step, Daemon.shutdown]
    split
    · exact .of_spawn rfl rfl rfl rfl rfl rfl rfl rfl
    · exact .refl s rfl
  | restart => exact absurd rfl hop

end Daemon


/-! ## What a job does to the disk -/

namespace Daemon

variable [Urls] [TableJson] {self_addr : EndpointAddr} {s s' : Daemon} {k : Nat}

omit [Urls] [TableJson] in
theorem job_set {old new job' : Job} (hold : s.jobs[k]? = some old)
    (hset : (s.set_job k new).jobs[k]? = some job') : job' = new := by
  unfold set_job at hset
  rw [List.getElem?_set_self (List.getElem?_eq_some_iff.mp hold).1] at hset
  exact (Option.some.inj hset).symm

/-- A job that goes on is for what it was, and so is a shutdown for another drop. -/
theorem Worked.jobs (h : Worked self_addr s k s') : s'.jobs = s.jobs ∨
    ∃ job new, s.jobs[k]? = some job ∧ s'.jobs = s.jobs.set k new ∧
      (new.purpose = job.purpose ∧ new.handle = job.handle ∨
        ∃ rest rest', job.purpose = .shutdown rest ∧ new.purpose = .shutdown rest') := by
  cases h with
  | idle => exact .inl rfl
  | next hk stage purpose => exact .inr ⟨_, _, hk, rfl, .inr ⟨_, _, purpose, rfl⟩⟩
  | waited hk stage purpose => exact .inr ⟨_, _, hk, rfl, .inl ⟨rfl, rfl⟩⟩
  | removed hk stage => exact .inr ⟨_, _, hk, rfl, .inl ⟨rfl, rfl⟩⟩
  | unlisted hk stage session => exact .inr ⟨_, _, hk, rfl, .inl ⟨rfl, rfl⟩⟩
  | checked hk stage session origin => exact .inr ⟨_, _, hk, rfl, .inl ⟨rfl, rfl⟩⟩
  | exports frames hk stage => exact .inr ⟨_, _, hk, rfl, .inl ⟨rfl, rfl⟩⟩
  | lists hk stage => exact .inr ⟨_, _, hk, rfl, .inl ⟨rfl, rfl⟩⟩
  | table_next hk stage goes_on => exact .inr ⟨_, _, hk, rfl, .inl ⟨rfl, rfl⟩⟩
  | table_done hk stage done => exact .inr ⟨_, _, hk, rfl, .inl ⟨rfl, rfl⟩⟩
  | frames_next hk stage goes_on => exact .inr ⟨_, _, hk, rfl, .inl ⟨rfl, rfl⟩⟩
  | frames_done hk stage done => exact .inr ⟨_, _, hk, rfl, .inl ⟨rfl, rfl⟩⟩
  | ended hk stage => exact .inr ⟨_, _, hk, rfl, .inl ⟨rfl, rfl⟩⟩
  | answered hk stage purpose drop => exact .inr ⟨_, _, hk, rfl, .inl ⟨rfl, rfl⟩⟩
  | left hk stage purpose => exact .inr ⟨_, _, hk, rfl, .inl ⟨rfl, rfl⟩⟩
  | drained hk stage purpose => exact .inr ⟨_, _, hk, rfl, .inl ⟨rfl, rfl⟩⟩

/-- A step of a job is about its own stage. -/
theorem Worked.before (h : Worked self_addr s k s') {l : Nat} {job' : Job}
    (hl : s'.jobs[l]? = some job') : ∃ job, s.jobs[l]? = some job ∧ (l ≠ k → job' = job) ∧
      (job'.purpose = job.purpose ∧ job'.handle = job.handle ∨
        ∃ rest rest', job.purpose = .shutdown rest ∧ job'.purpose = .shutdown rest') := by
  rcases h.jobs with hsame | ⟨job, new, hk, hset, hpurpose⟩
  · rw [hsame] at hl
    exact ⟨job', hl, fun _ => rfl, .inl ⟨rfl, rfl⟩⟩
  · rw [hset] at hl
    by_cases hlk : l = k
    · subst hlk
      rw [List.getElem?_set_self (List.getElem?_eq_some_iff.mp hk).1] at hl
      cases hl
      exact ⟨job, hk, fun hne => absurd rfl hne, hpurpose⟩
    · rw [List.getElem?_set_ne (fun heq => hlk heq.symm)] at hl
      exact ⟨job', hl, fun _ => rfl, .inl ⟨rfl, rfl⟩⟩

/-- The files of the store and the tables that were taken, at a step of a job. -/
inductive DiskMove [Urls] [TableJson] (self_addr : EndpointAddr) (s s' : Daemon) (k : Nat) : Prop
  | same (table : s'.dir.read DropStore.table_path = s.dir.read DropStore.table_path)
      (frames : ∀ t, s'.dir.read (DropStore.frames_path t) = s.dir.read (DropStore.frames_path t))
      (taken : s'.taken = s.taken) (saved : s'.saved = s.saved)
  | removed {topic : TopicId} (stage : s.stage_at k = some (.removing topic))
      (table : s'.dir.read DropStore.table_path = s.dir.read DropStore.table_path)
      (frames : ∀ t, s'.dir.read (DropStore.frames_path t) =
        if t = topic then none else s.dir.read (DropStore.frames_path t))
      (taken : s'.taken = s.taken) (saved : s'.saved = s.saved)
  | listed {save : Option (TopicId × List Bytes)} (stage : s.stage_at k = some (.listing save))
      (dir : s'.dir = s.dir) (taken : s'.taken = s.taken ++ [s.service.persisted_table self_addr])
      (saved : s'.saved = s.saved)
  | tabled {stamp : Nat} {table : List PersistedDrop} {save : Option (TopicId × List Bytes)}
      (stage : s.stage_at k = some (.saving_table stamp table .rename save))
      (order : s.saved ≤ stamp) (given : s.taken[stamp]? = some table)
      (read : s'.dir.read DropStore.table_path = some (TableJson.to_vec_pretty table))
      (frames : ∀ t, s'.dir.read (DropStore.frames_path t) = s.dir.read (DropStore.frames_path t))
      (taken : s'.taken = s.taken) (saved : s'.saved = stamp + 1)
  | framed {topic : TopicId} {frames : List Bytes}
      (stage : s.stage_at k = some (.saving_frames topic frames .rename))
      (table : s'.dir.read DropStore.table_path = s.dir.read DropStore.table_path)
      (others : ∀ t, t ≠ topic →
        s'.dir.read (DropStore.frames_path t) = s.dir.read (DropStore.frames_path t))
      (taken : s'.taken = s.taken) (saved : s'.saved = s.saved)

omit [Urls] [TableJson] in
theorem stage_at_of {job : Job} {stage : Stage} (hk : s.jobs[k]? = some job)
    (hstage : job.stage = stage) : s.stage_at k = some stage := by
  unfold stage_at
  rw [hk, Option.map_some, hstage]

theorem Worked.disk (h : Worked self_addr s k s') (hsaves : Saves s) (hok : s.Orderly (.job k)) :
    DiskMove self_addr s s' k := by
  cases h with
  | idle => exact .same rfl (fun _ => rfl) rfl rfl
  | waited hk stage purpose => exact .same rfl (fun _ => rfl) rfl rfl
  | unlisted hk stage session => exact .same rfl (fun _ => rfl) rfl rfl
  | checked hk stage session origin => exact .same rfl (fun _ => rfl) rfl rfl
  | exports frames hk stage => exact .same rfl (fun _ => rfl) rfl rfl
  | ended hk stage => exact .same rfl (fun _ => rfl) rfl rfl
  | answered hk stage purpose drop => exact .same rfl (fun _ => rfl) rfl rfl
  | left hk stage purpose => exact .same rfl (fun _ => rfl) rfl rfl
  | drained hk stage purpose => exact .same rfl (fun _ => rfl) rfl rfl
  | next hk stage purpose => exact .same rfl (fun _ => rfl) rfl rfl
  | @removed job topic hk stage =>
    refine .removed (stage_at_of hk stage) ?_ ?_ rfl rfl
    · exact Volume.read_remove_ne (DropStore.table_ne_frames topic)
    · intro t
      split
      · rename_i heq
        subst heq
        exact Volume.read_remove
      · rename_i hne
        exact Volume.read_remove_ne fun heq => hne (DropStore.frames_inj heq)
  | lists hk stage => exact .listed (stage_at_of hk stage) rfl rfl rfl
  | @table_next job stamp table phase next save hk stage goes_on =>
    have hphase : phase ≠ .rename := DropStore.goes_on goes_on
    have hread : ∀ file, (∀ other : DataFile, file ≠ other.with_extension .tmp) →
        (DropStore.save_table table s.dir phase).1.read file = s.dir.read file := fun file hfile =>
      (hsaves.read_step (stage_at_of hk stage) rfl hfile).trans
        (if_neg fun hren => hphase hren.1)
    exact .same (hread _ DropStore.table_plain) (fun t => hread _ (DropStore.frames_plain t)) rfl rfl
  | @table_done job stamp table phase save hk stage done =>
    have hphase := DropStore.done done
    subst hphase
    have hat := stage_at_of hk stage
    refine .tabled hat ?_ (hsaves.given _ _ _ _ _ hat).2 ?_ (fun t => ?_) rfl rfl
    · exact hok.2 stamp (by rw [hat]; rfl)
    · exact (hsaves.read_step hat rfl DropStore.table_plain).trans (if_pos ⟨rfl, rfl⟩)
    · exact (hsaves.read_step hat rfl (DropStore.frames_plain t)).trans
        (if_neg fun hren => DropStore.table_ne_frames t hren.2.symm)
  | @frames_next job topic frames phase next hk stage goes_on =>
    have hphase : phase ≠ .rename := DropStore.goes_on goes_on
    have hread : ∀ file, (∀ other : DataFile, file ≠ other.with_extension .tmp) →
        (DropStore.save_frames topic frames s.dir phase).1.read file = s.dir.read file :=
      fun file hfile => (hsaves.read_step (stage_at_of hk stage) rfl hfile).trans
        (if_neg fun hren => hphase hren.1)
    exact .same (hread _ DropStore.table_plain) (fun t => hread _ (DropStore.frames_plain t)) rfl rfl
  | @frames_done job topic frames phase hk stage done =>
    have hphase := DropStore.done done
    subst hphase
    have hat := stage_at_of hk stage
    refine .framed hat ?_ (fun t hne => ?_) rfl rfl
    · exact (hsaves.read_step hat rfl DropStore.table_plain).trans
        (if_neg fun hren => DropStore.table_ne_frames topic hren.2)
    · exact (hsaves.read_step hat rfl (DropStore.frames_plain t)).trans
        (if_neg fun hren => hne (DropStore.frames_inj hren.2))

end Daemon

/-! ## The rows of a table -/

/-- The row is of a drop of this topic. -/
def PersistedDrop.IsOf [Urls] (self : PersistedDrop) (topic : TopicId) : Prop :=
  ∃ ticket, DropTicket.from_string_prefixed self.ticket.toList = .ok ticket ∧ ticket.topic = topic

namespace Service

variable [Urls] {self_addr : EndpointAddr} {s : Service}

/-- A row is of a drop that the service hosts. -/
theorem mem_persisted_table {row : PersistedDrop} :
    row ∈ s.persisted_table self_addr ↔ ∃ entry hosted, s.drops.lookup row.handle = some entry ∧
      s.sessions[entry.session]? = some hosted ∧
      row = { handle := row.handle, name := entry.name, mine := entry.mine
              ticket := String.ofList
                (hosted.session.current_ticket self_addr).to_string_prefixed } := by
  unfold persisted_table persisted_drop
  rw [List.mem_filterMap]
  constructor
  · rintro ⟨⟨handle, entry⟩, hmem, hrow⟩
    obtain ⟨hosted, hhosted, rfl⟩ := Option.map_eq_some_iff.mp hrow
    exact ⟨entry, hosted, AList.mem_lookup_iff.mpr hmem, hhosted, rfl⟩
  · rintro ⟨entry, hosted, hentry, hhosted, hrow⟩
    refine ⟨⟨row.handle, entry⟩, AList.mem_lookup_iff.mp hentry, ?_⟩
    dsimp only
    rw [hhosted, Option.map_some, ← hrow]

/-- What reads back of a row is of the topic that its handle hosts. -/
theorem row_topic (h : s.Rooted) {row : PersistedDrop} {topic : TopicId}
    (hrow : row ∈ s.persisted_table self_addr) (hof : row.IsOf topic) :
    s.topic_under row.handle = some topic := by
  obtain ⟨entry, hosted, hentry, hhosted, heq⟩ := mem_persisted_table.mp hrow
  obtain ⟨ticket, hread, rfl⟩ := hof
  rw [heq, String.toList_ofList] at hread
  have hticket := DropTicket.read_to_string hread
  have horigin : s.origin entry.session = some (hosted.session.topic_id, hosted.session.ticket) := by
    unfold origin
    rw [hhosted, Option.map_some]
  have htopic := h.topics _ _ horigin
  unfold topic_under session_of
  rw [hentry, Option.map_some, Option.bind_some, topic_of_origin, horigin, Option.map_some]
  change some hosted.session.topic_id = _
  rw [hticket, show hosted.session.topic_id = hosted.session.ticket.topic from htopic]
  rfl

end Service
end Laws

end iroh_drop
