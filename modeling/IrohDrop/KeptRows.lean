-- The law of the table: a drop that a request has answered Ok for has its row on
-- disk until it is left, where no table is taken without a drop that the process
-- knows of.
import IrohDrop.LeftDrops

open rust_std postcard volume

namespace iroh_drop

section Laws

variable [Crypto]

/-! ## Rows of a drop -/

/-- The row is what the daemon writes for a drop, wherever its peers are now. -/
def PersistedDrop.IsFor [Urls] (self : PersistedDrop) (drop : DropTicket) : Prop :=
  ∃ ticket : DropTicket, ticket.without_nodes = drop ∧
    self.ticket = String.ofList ticket.to_string_prefixed

/-- The table has the drop under the handle, and nothing else under it. -/
def HasRow [Urls] (table : List PersistedDrop) (handle : String) (drop : DropTicket) : Prop :=
  (∃ row ∈ table, row.handle = handle) ∧ ∀ row ∈ table, row.handle = handle → row.IsFor drop

/-- The next step of the job takes the table. -/
def Job.lists (self : Job) : Bool :=
  match self.stage with
  | .listing _ => true
  | _ => false

/-- The next step of the job answers a `drop.join` of a hosted topic. -/
def Job.rejoins (self : Job) : Bool :=
  match self.purpose, self.stage with
  | .rejoined, .ending => true
  | _, _ => false

/-- The drop has come into the map of the daemon, and its request has not saved
the table yet. -/
def Job.unsaved (self : Job) : Bool :=
  match self.purpose, self.stage with
  | .opened, .checking | .opened, .exporting _ _ | .opened, .listing _
  | .opened, .saving_table _ _ _ _ => true
  | _, _ => false

omit [Crypto] in
theorem Job.opened_of_unsaved {job : Job} (h : job.unsaved = true) : job.purpose = .opened := by
  unfold Job.unsaved at h
  split at h
  all_goals first
    | assumption
    | cases h

namespace Daemon

/-- Each drop that was answered `Ok` for, and not left, has its row on disk. -/
def KeepsRows [Urls] [TableJson] (s : Daemon) : Prop :=
  ∀ handle drop, (handle, drop) ∈ s.members →
    ∃ row ∈ DropStore.load_table s.dir, row.handle = handle ∧ row.IsFor drop

/-- The job that takes the step. -/
def job_of (s : Daemon) : DaemonOp → Option Job
  | .job k => s.jobs[k]?
  | _ => none

/-- The jobs are orderly, the numbers of the handles do not run out, a table is
taken only where every drop that was loaded or given, and not left, is in the
map, and a `drop.join` of a hosted topic is not answered before the request that
opened the drop has saved its table. -/
def Keeping (s : Daemon) (op : DaemonOp) : Prop :=
  s.Orderly op ∧ (∀ opened ∈ s.opens op, s.service.next_drop.toNat + 1 < 2 ^ 64) ∧
  s.max_handle.toNat + 1 < 2 ^ 64 ∧ ∀ job ∈ s.job_of op,
    (job.lists = true → ∀ handle ∈ s.known, s.service.session_of handle ≠ none) ∧
    (job.rejoins = true → ∀ other ∈ s.jobs, other.handle = job.handle → other.unsaved = false)

instance (s : Daemon) (op : DaemonOp) : Decidable (s.Keeping op) :=
  inferInstanceAs (Decidable (_ ∧ (∀ opened ∈ s.opens op, _) ∧ _ ∧ ∀ job ∈ s.job_of op, _ ∧ _))

/-! ## What keeps a row -/

variable [Urls] [TableJson]

/-- Whatever the process does next, and after a restart too, the row of the drop
is there. -/
structure Recorded (s : Daemon) (handle : String) (drop : DropTicket) : Prop where
  known : handle ∈ s.known
  hosted : ∀ other, s.service.drop handle = some other → other = drop
  coming : ∀ ticket, s.service.Restoring handle ticket → ticket.without_nodes = drop
  rows : ∀ row ∈ s.restoring, row.handle = handle → row.IsFor drop
  disk : HasRow (DropStore.load_table s.dir) handle drop
  later : ∀ l table, s.saved ≤ l → s.taken[l]? = some table → HasRow table handle drop

/-- What holds of the drop of a `drop.create` or `drop.join`, by where its
request is. -/
def OpenedAt (s : Daemon) (handle : String) (drop : DropTicket) : Stage → Prop
  | .saving_table stamp _ _ _ =>
    ∀ l table, stamp ≤ l → s.taken[l]? = some table → HasRow table handle drop
  | .saving_frames _ _ _ | .ending | .returned => s.Recorded handle drop
  | .waiting _ | .removing _ => False
  | .checking | .exporting _ _ | .listing _ => True

/-- What the runs keep. -/
structure Recording (s : Daemon) : Prop where
  saves : Saves s
  rooted : s.service.Rooted
  calls : Roster.Rows s
  served : s.serving = true → s.restoring = []
  /-- No table has two drops under one handle. -/
  tables : ∀ table ∈ s.passed, ∀ row ∈ table, ∃ drop, HasRow table row.handle drop
  hosted : ∀ handle, s.service.session_of handle ≠ none → handle ∈ s.known
  numbers : ∀ handle ∈ s.known, ∀ n, handle_number handle = some n →
    n.toNat < Roster.bound s ∨ ∃ row ∈ s.restoring, row.handle = handle
  members : ∀ handle drop, (handle, drop) ∈ s.members → s.Recorded handle drop
  rows : ∀ row ∈ s.restoring, ∃ drop, s.Recorded row.handle drop
  coming : ∀ handle ticket, s.service.Restoring handle ticket →
    s.Recorded handle ticket.without_nodes
  drops : ∀ handle drop, s.service.drop handle = some drop → s.Recorded handle drop ∨
    ∃ job ∈ s.jobs, job.handle = handle ∧ job.unsaved = true
  opened : ∀ job ∈ s.jobs, job.purpose = .opened → s.serving = true ∧
    (∀ n, handle_number job.handle = some n → n.toNat < Roster.bound s) ∧
    ∀ drop, s.service.drop job.handle = some drop → s.OpenedAt job.handle drop job.stage

theorem Recording.keeps {s : Daemon} (h : Recording s) : s.KeepsRows := by
  intro handle drop hmember
  obtain ⟨⟨row, hrow, hhandle⟩, hall⟩ := (h.members handle drop hmember).disk
  exact ⟨row, hrow, hhandle, hall row hrow hhandle⟩

theorem Recording.of_start (secret : SecretKey) (policy : DropPolicy) :
    Recording (.start secret policy) where
  saves := .of_start secret policy
  rooted := .of_new secret policy
  calls := .of_calls rfl
  served h := nomatch h
  tables _ h := nomatch h
  hosted _ h := absurd rfl h
  numbers _ h := nomatch h
  members _ _ h := nomatch h
  rows _ h := nomatch h
  coming _ _ h := by
    rcases h with ⟨name, mine, hmem⟩ | ⟨i, topic, name, mine, hmem, -⟩ <;> cases hmem
  drops _ _ h := nomatch h
  opened _ h := nomatch h

end Daemon

/-! ## The table that is taken -/

namespace Service

variable [Urls] {self_addr : EndpointAddr} {s : Service}

/-- A table that is taken has each drop of the map, and nothing else under its
handle. -/
theorem persisted_has_row (hs : s.Rooted) {handle : String} (h : s.session_of handle ≠ none) :
    ∃ drop, s.drop handle = some drop ∧ HasRow (s.persisted_table self_addr) handle drop := by
  obtain ⟨i, hi⟩ := Option.ne_none_iff_exists'.mp h
  obtain ⟨entry, hentry, rfl⟩ := Option.map_eq_some_iff.mp hi
  have hlt := hs.drops handle entry hentry
  have hhosted : s.sessions[entry.session]? = some s.sessions[entry.session] :=
    List.getElem?_eq_getElem hlt
  refine ⟨s.sessions[entry.session].session.ticket.without_nodes, ?_, ?_, ?_⟩
  · simp only [Service.drop, hi, Option.bind_some, origin, hhosted, Option.map_some]
  · refine ⟨{ handle, name := entry.name, mine := entry.mine, ticket := ?_ }, ?_, rfl⟩
    · exact String.ofList (s.sessions[entry.session].session.current_ticket
        self_addr).to_string_prefixed
    · exact mem_persisted_table.mpr ⟨entry, _, hentry, hhosted, rfl⟩
  · intro row hrow hhandle
    obtain ⟨entry', hosted, hentry', hhosted', heq⟩ := mem_persisted_table.mp hrow
    rw [hhandle, hentry] at hentry'
    cases hentry'
    rw [hhosted] at hhosted'
    cases hhosted'
    refine ⟨s.sessions[entry.session].session.current_ticket self_addr, ?_, ?_⟩
    · unfold Session.current_ticket
      rw [DropTicket.without_nodes_set]
    · rw [heq]

theorem session_of_row {row : PersistedDrop} (h : row ∈ s.persisted_table self_addr) :
    s.session_of row.handle ≠ none := by
  obtain ⟨entry, hosted, hentry, -, -⟩ := mem_persisted_table.mp h
  unfold session_of
  rw [hentry]
  exact fun heq => nomatch heq

end Service


namespace Daemon

section Steps

variable [Urls] [TableJson] {self_addr : EndpointAddr} {s s' : Daemon} {op : DaemonOp}
  {handle : String} {drop : DropTicket}

/-! ## Drops that come into the map -/

omit [Urls] [TableJson] in
/-- The drop under a handle is the one that was there, or the session that the
step puts into the map. -/
theorem TableMove.hosts (h : TableMove s s' op) (hs : Service.Hosting s.service)
    (hlater : Service.Later s.service s'.service) (hdrop : s'.service.drop handle = some drop) :
    s.service.drop handle = some drop ∨ ∃ i opening topic ticket, s.opens op = some (i, opening) ∧
      s.service.handle_of opening = handle ∧ s.service.origin i = some (topic, ticket) ∧
      drop = ticket.without_nodes := by
  have hsub : s'.service.session_of handle = none ∨
      s'.service.session_of handle = s.service.session_of handle →
        s.service.drop handle = some drop := by
    rintro (hnone | hsame)
    · unfold Service.drop at hdrop
      rw [hnone] at hdrop
      cases hdrop
    · rwa [← hlater.drop hs hsame]
  cases h with
  | kept quiet drops next_drop serving number => exact .inl (hsub (.inr (drops handle)))
  | served idle before after drops next_drop rows => exact .inl (hsub (.inr (drops handle)))
  | @settled k i opening found drops next_drop serving number =>
    by_cases hnew : handle = s.service.handle_of opening
    · obtain ⟨⟨topic, ticket⟩, horigin⟩ :=
        Service.origin_of_lt (hs.calls _ (List.mem_of_getElem? found) i rfl)
      refine .inr ⟨i, opening, topic, ticket, ?_, hnew.symm, horigin, ?_⟩
      · simp only [opens, found]
      · unfold Service.drop at hdrop
        rw [drops, if_pos hnew, Option.bind_some, hlater i _ horigin, Option.map_some] at hdrop
        exact (Option.some.inj hdrop).symm
    · refine .inl (hsub (.inr ?_))
      rw [drops, if_neg hnew]
  | @left left_handle before after drops next_drop number =>
    refine .inl (hsub ?_)
    rw [drops]
    split
    · exact .inl rfl
    · exact .inr rfl
  | emptied closing drops next_drop serving number => exact .inl (hsub (.inl (drops handle)))

omit [Urls] [TableJson] in
theorem opened_mem {i : SessionId} {opening : Opening} (h : s.opens op = some (i, opening)) :
    .opened i opening ∈ s.service.calls := by
  unfold opens at h
  split at h
  · split at h
    · rename_i hk
      cases h
      exact List.mem_of_getElem? hk
    · cases h
  · cases h

/-- A request gets a handle that no drop has, and no request before it got. -/
theorem Recording.unused (h : Recording s) {i : SessionId} {opening : Opening}
    (hopens : s.opens op = some (i, opening)) (hfresh : (Call.opened i opening).restored = none) :
    s.serving = true ∧ s.service.handle_of opening ∉ s.known ∧
      ∀ job ∈ s.jobs, job.purpose = .opened → job.handle ≠ s.service.handle_of opening := by
  have hserving : s.serving = true := by
    rcases hs : s.serving with _ | _
    · exact absurd hfresh (h.calls.rows hs _ (opened_mem hopens))
    · rfl
  have hnumber : handle_number (s.service.handle_of opening) = some s.service.next_drop := by
    cases opening with
    | created name => exact Roster.handle_number_fresh _
    | joined name => exact Roster.handle_number_fresh _
    | restored handle name mine => cases hfresh
  have hbound : Roster.bound s = s.service.next_drop.toNat := if_pos hserving
  refine ⟨hserving, fun hknown => ?_, fun job hjob hpurpose heq => ?_⟩
  · rcases h.numbers _ hknown _ hnumber with hlt | ⟨row, hrow, -⟩
    · omega
    · rw [h.served hserving] at hrow
      cases hrow
  · have hlt := (h.opened job hjob hpurpose).2.1 _ (heq ▸ hnumber)
    omega

/-! ## Steps that keep a row -/

/-- A recorded drop stays so, as long as it is known and its row is in the
tables. -/
theorem Recorded.step (h : s.Recorded handle drop) (hrec : Recording s)
    (htable : TableMove s s' op) (hlater : Service.Later s.service s'.service)
    (hknown : handle ∈ s'.known)
    (hcoming : ∀ ticket, s'.service.Restoring handle ticket → s.service.Restoring handle ticket ∨
      ∃ row ∈ s.restoring, row.handle = handle ∧
        DropTicket.from_string_prefixed row.ticket.toList = .ok ticket)
    (hrows : ∀ row ∈ s'.restoring, row ∈ s.restoring)
    (hdisk : HasRow (DropStore.load_table s'.dir) handle drop)
    (htaken : ∀ l table, s'.saved ≤ l → s'.taken[l]? = some table → HasRow table handle drop) :
    s'.Recorded handle drop where
  known := hknown
  hosted other hdrop := by
    rcases htable.hosts hrec.rooted.toHosting hlater hdrop with
      hold | ⟨i, opening, topic, ticket, hopens, hhandle, horigin, rfl⟩
    · exact h.hosted other hold
    · by_cases hfresh : (Call.opened i opening).restored = none
      · exact absurd (hhandle ▸ h.known) (hrec.unused hopens hfresh).2.1
      · obtain ⟨handle', ticket', hr, hhandle', horigin'⟩ :=
          restored_of_opens hrec.rooted hopens hfresh
        rw [horigin] at horigin'
        cases horigin'
        rw [hhandle] at hhandle'
        subst hhandle'
        exact h.coming _ hr
  coming ticket hr := by
    rcases hcoming ticket hr with hold | ⟨row, hrow, hhandle, hread⟩
    · exact h.coming ticket hold
    · obtain ⟨back, hback, htext⟩ := h.rows row hrow hhandle
      rw [htext, String.toList_ofList] at hread
      rw [DropTicket.read_to_string hread, hback]
  rows row hrow := h.rows row (hrows row hrow)
  disk := hdisk
  later := htaken


/-! ### Steps in memory -/

omit [Urls] [TableJson] in
/-- A handle is known until it is left. -/
theorem Books.knows (h : Books s s' op) (hknown : handle ∈ s.known) :
    handle ∈ s'.known ∨ s.serving = true ∧ s'.service.session_of handle = none ∧
      ∀ drop, (handle, drop) ∉ s'.members := by
  cases h with
  | same fresh jobs known members forgotten restoring =>
    rw [known]
    exact .inl hknown
  | opened opens fresh origin jobs known members forgotten restoring =>
    rw [known]
    exact .inl (List.mem_append_left _ hknown)
  | @left left_handle i topic ticket serving session origin gone jobs known members forgotten
      restoring =>
    by_cases heq : handle = left_handle
    · subst heq
      refine .inr ⟨serving, gone, fun drop hmem => ?_⟩
      rw [members] at hmem
      have hne := (List.mem_filter.mp hmem).2
      simp at hne
    · rw [known]
      exact .inl (List.mem_filter.mpr ⟨hknown, by simpa using heq⟩)

omit [Urls] [TableJson] in
/-- What is known was known, or was given now. -/
theorem Books.knew (h : Books s s' op) (hknown : handle ∈ s'.known) :
    handle ∈ s.known ∨ ∃ i opening, s.opens op = some (i, opening) ∧
      (Call.opened i opening).restored = none ∧ handle = s.service.handle_of opening := by
  cases h with
  | same fresh jobs known members forgotten restoring =>
    rw [known] at hknown
    exact .inl hknown
  | @opened k i opening topic ticket opens fresh origin jobs known members forgotten restoring =>
    rw [known] at hknown
    rcases List.mem_append.mp hknown with hold | hnew
    · exact .inl hold
    · exact .inr ⟨i, opening, opens, fresh, List.mem_singleton.mp hnew⟩
  | left serving session origin gone jobs known members forgotten restoring =>
    rw [known] at hknown
    exact .inl (List.mem_filter.mp hknown).1

omit [Urls] [TableJson] in
theorem Books.member (h : Books s s' op) (hmem : (handle, drop) ∈ s'.members) :
    (handle, drop) ∈ s.members := by
  cases h with
  | same fresh jobs known members forgotten restoring => rwa [members] at hmem
  | opened opens fresh origin jobs known members forgotten restoring => rwa [members] at hmem
  | left serving session origin gone jobs known members forgotten restoring =>
    rw [members] at hmem
    exact (List.mem_filter.mp hmem).1

omit [Urls] [TableJson] in
/-- The job of a request is there, or begins now. -/
theorem Books.opened_job (h : Books s s' op) {job' : Job} (hmem : job' ∈ s'.jobs)
    (hpurpose : job'.purpose = .opened) :
    job' ∈ s.jobs ∨ ∃ i opening, s.opens op = some (i, opening) ∧
      (Call.opened i opening).restored = none ∧ job' = ⟨.opened, s.service.handle_of opening, .checking⟩ := by
  cases h with
  | same fresh jobs known members forgotten restoring =>
    rcases jobs with hsame | ⟨job, hplain, hidle, hnew⟩
    · exact .inl (hsame ▸ hmem)
    · rw [hnew] at hmem
      rcases List.mem_append.mp hmem with hold | hlast
      · exact .inl hold
      · rw [← List.mem_singleton.mp hlast, hpurpose] at hplain
        cases hplain
  | @opened k i opening topic ticket opens fresh origin jobs known members forgotten restoring =>
    rw [jobs] at hmem
    rcases List.mem_append.mp hmem with hold | hlast
    · unfold registered at hold
      obtain ⟨job, hjob, rfl⟩ := List.mem_map.mp hold
      rcases job with ⟨purpose, handle, stage⟩
      cases purpose with
      | leave t again => cases hpurpose
      | persist => cases hpurpose
      | opened => exact .inl hjob
      | rejoined => cases hpurpose
      | shutdown rest => cases hpurpose
    · exact .inr ⟨i, opening, opens, fresh, List.mem_singleton.mp hlast⟩
  | left serving session origin gone jobs known members forgotten restoring =>
    rw [jobs] at hmem
    rcases List.mem_append.mp hmem with hold | hlast
    · exact .inl hold
    · rw [List.mem_singleton.mp hlast] at hpurpose
      cases hpurpose

omit [Urls] [TableJson] in
theorem Books.keeps_job (h : Books s s' op) {job : Job} (hmem : job ∈ s.jobs)
    (hpurpose : job.purpose = .opened) : job ∈ s'.jobs := by
  cases h with
  | same fresh jobs known members forgotten restoring =>
    rcases jobs with hsame | ⟨last, hplain, hidle, hnew⟩
    · rwa [hsame]
    · rw [hnew]
      exact List.mem_append_left _ hmem
  | opened opens fresh origin jobs known members forgotten restoring =>
    rw [jobs]
    refine List.mem_append_left _ (List.mem_map.mpr ⟨job, hmem, ?_⟩)
    rw [hpurpose]
  | left serving session origin gone jobs known members forgotten restoring =>
    rw [jobs]
    exact List.mem_append_left _ hmem

omit [Urls] [TableJson] in
/-- A handle of the map was in it, or the step puts its session there. -/
theorem TableMove.named (h : TableMove s s' op) (hhosted : s'.service.session_of handle ≠ none) :
    s.service.session_of handle ≠ none ∨ ∃ i opening, s.opens op = some (i, opening) ∧
      s.service.handle_of opening = handle := by
  cases h with
  | kept quiet drops next_drop serving number => exact .inl (drops handle ▸ hhosted)
  | served idle before after drops next_drop rows => exact .inl (drops handle ▸ hhosted)
  | @settled k i opening found drops next_drop serving number =>
    by_cases hnew : handle = s.service.handle_of opening
    · refine .inr ⟨i, opening, ?_, hnew.symm⟩
      simp only [opens, found]
    · rw [drops, if_neg hnew] at hhosted
      exact .inl hhosted
  | left before after drops next_drop number =>
    rw [drops] at hhosted
    split at hhosted
    · exact absurd rfl hhosted
    · exact .inl hhosted
  | emptied closing drops next_drop serving number => exact absurd (drops handle) hhosted

omit [Urls] [TableJson] in
theorem session_of_drop (h : s.service.drop handle = some drop) :
    s.service.session_of handle ≠ none := by
  intro hnone
  unfold Service.drop at h
  rw [hnone] at h
  cases h

/-- Where requests are served, a restart has nothing left to do. -/
theorem Recording.not_restoring (h : Recording s) (hserving : s.serving = true)
    {ticket : DropTicket} : ¬ s.service.Restoring handle ticket := by
  rintro (⟨name, mine, hmem⟩ | ⟨i, topic, name, mine, hmem, -⟩)
  · cases h.calls.requests hserving _ hmem
  · cases h.calls.requests hserving _ hmem

theorem Recording.hosted_step (h : Recording s) (hbooks : Books s s' op)
    (htable : TableMove s s' op) (hhosted : s'.service.session_of handle ≠ none) :
    handle ∈ s'.known := by
  have hold : handle ∈ s.known → handle ∈ s'.known := by
    intro hknown
    rcases hbooks.knows hknown with hsame | ⟨-, hgone, -⟩
    · exact hsame
    · exact absurd hgone hhosted
  rcases htable.named hhosted with hbefore | ⟨i, opening, hopens, rfl⟩
  · exact hold (h.hosted handle hbefore)
  · by_cases hfresh : (Call.opened i opening).restored = none
    · cases hbooks with
      | same fresh jobs known members forgotten restoring => exact absurd hfresh (fresh i opening hopens)
      | opened opens fresh origin jobs known members forgotten restoring =>
        rw [hopens] at opens
        cases opens
        rw [known]
        exact List.mem_append_right _ (List.mem_singleton_self _)
      | left serving session origin gone jobs known members forgotten restoring => cases hopens
    · obtain ⟨handle', ticket, hr, hhandle, -⟩ := restored_of_opens h.rooted hopens hfresh
      rw [hhandle] at hold ⊢
      exact hold (h.coming handle' ticket hr).known

theorem Recording.numbers_step (h : Recording s) (hbooks : Books s s' op)
    (htable : TableMove s s' op) (hok : s.Keeping op) (hknown : handle ∈ s'.known) {n : UInt64}
    (hn : handle_number handle = some n) :
    n.toNat < Roster.bound s' ∨ ∃ row ∈ s'.restoring, row.handle = handle := by
  have hroom : ∀ i opening, s.opens op = some (i, opening) →
      (Call.opened i opening).restored = none → s.service.next_drop.toNat + 1 < 2 ^ 64 :=
    fun i opening hopens _ => hok.2.1 _ hopens
  have hbound := Roster.bound_le h.calls htable hroom hok.2.2.1
  rcases hbooks.knew hknown with hold | ⟨i, opening, hopens, hfresh, rfl⟩
  · rcases h.numbers handle hold n hn with hlt | ⟨row, hrow, hhandle⟩
    · exact .inl (Nat.lt_of_lt_of_le hlt hbound)
    · cases hbooks with
      | same fresh jobs known members forgotten restoring =>
        rcases restoring with hsame | ⟨pd, hcons, hidle, hnumber⟩
        · rw [hsame]
          exact .inr ⟨row, hrow, hhandle⟩
        · rw [hcons] at hrow
          rcases List.mem_cons.mp hrow with rfl | hrest
          · -- The row that the restart comes to now is counted.
            have hle := hnumber n (hhandle ▸ hn)
            rw [UInt64.le_iff_toNat_le] at hle
            left
            simp only [Roster.bound, hidle, Bool.false_eq_true, if_false]
            omega
          · exact .inr ⟨row, hrest, hhandle⟩
      | opened opens fresh origin jobs known members forgotten restoring =>
        rw [restoring]
        exact .inr ⟨row, hrow, hhandle⟩
      | left serving session origin gone jobs known members forgotten restoring =>
        rw [restoring]
        exact .inr ⟨row, hrow, hhandle⟩
  · left
    cases htable with
    | @settled k i' opening' found drops next_drop serving number =>
      have hlt := hroom i opening hopens hfresh
      simp only [opens, found] at hopens
      cases hopens
      refine Roster.Named.below_opened h.calls found ?_ next_drop serving number hn
      cases opening with
      | created name => exact hlt
      | joined name => exact hlt
      | restored handle name mine => cases hfresh
    | kept quiet drops next_drop serving number =>
      rw [quiet] at hopens
      cases hopens
    | served idle before after drops next_drop rows => cases hopens
    | left before after drops next_drop number => cases hopens
    | emptied closing drops next_drop serving number => cases hopens

/-- A recorded drop stays so while the files and the tables that were taken are
as they were. -/
theorem Recorded.in_memory (h : s.Recorded handle drop) (hrec : Recording s)
    (hjob : ∀ k, op ≠ .job k) (hop : op ≠ .restart)
    (hknown : handle ∈ (s.step self_addr op).known) :
    (s.step self_addr op).Recorded handle drop := by
  have hs := hrec.rooted.toHosting
  have hmemory := InMemory.step self_addr s hjob hop
  have hbooks : Books s (s.step self_addr op) op := books_step hs hjob hop
  refine h.step hrec (table_step hs hop) (serves_step self_addr s hop).later hknown ?_ hbooks.rows
    ?_ ?_
  · intro ticket hr
    rcases restoring_step hs hop hr with hold | ⟨-, pd, hpd, hhandle, hread⟩
    · exact .inl hold
    · exact .inr ⟨pd, hpd, hhandle, hread⟩
  · rw [hmemory.dir]
    exact h.disk
  · intro l table hl htable
    rw [hmemory.saved] at hl
    rw [hmemory.taken] at htable
    exact h.later l table hl htable

theorem Recording.opened_step (h : Recording s) (hbooks : Books s s' op)
    (htable : TableMove s s' op) (hlater : Service.Later s.service s'.service)
    (hok : s.Keeping op) (hmemory : InMemory s s')
    (hrecorded : ∀ handle drop, s.Recorded handle drop → handle ∈ s'.known →
      s'.Recorded handle drop) {job : Job} (hmem : job ∈ s'.jobs) (hpurpose : job.purpose = .opened) :
    s'.serving = true ∧ (∀ n, handle_number job.handle = some n → n.toNat < Roster.bound s') ∧
      ∀ drop, s'.service.drop job.handle = some drop → s'.OpenedAt job.handle drop job.stage := by
  have hroom : ∀ i opening, s.opens op = some (i, opening) →
      (Call.opened i opening).restored = none → s.service.next_drop.toNat + 1 < 2 ^ 64 :=
    fun i opening hopens _ => hok.2.1 _ hopens
  rcases hbooks.opened_job hmem hpurpose with hold | ⟨i, opening, hopens, hfresh, rfl⟩
  · obtain ⟨hserving, hnumber, hat⟩ := h.opened job hold hpurpose
    refine ⟨htable.serves hserving, fun n hn => Nat.lt_of_lt_of_le (hnumber n hn)
      (Roster.bound_le h.calls htable hroom hok.2.2.1), fun drop hdrop => ?_⟩
    -- Nothing new comes under the handle of the job.
    have hbefore : s.service.drop job.handle = some drop := by
      rcases htable.hosts h.rooted.toHosting hlater hdrop with
        hbefore | ⟨i, opening, topic, ticket, hopens, hhandle, -, -⟩
      · exact hbefore
      · have hfresh := h.calls.requests hserving _ (opened_mem hopens)
        exact absurd hhandle.symm ((h.unused hopens hfresh).2.2 job hold hpurpose)
    have hknown := h.hosted_step hbooks htable (session_of_drop hdrop)
    have hat := hat drop hbefore
    rcases job with ⟨purpose, handle, stage⟩
    cases stage with
    | saving_table stamp table phase save =>
      intro l table' hl htaken
      rw [hmemory.taken] at htaken
      exact hat l table' hl htaken
    | saving_frames topic frames phase => exact hrecorded _ _ hat hknown
    | ending => exact hrecorded _ _ hat hknown
    | returned => exact hrecorded _ _ hat hknown
    | waiting session => exact hat
    | removing topic => exact hat
    | checking => trivial
    | exporting session topic => trivial
    | listing save => trivial
  · have hserving := (h.unused hopens hfresh).1
    refine ⟨htable.serves hserving, fun n hn => ?_, fun drop _ => trivial⟩
    have hknown : s.service.handle_of opening ∈ s'.known := by
      cases hbooks with
      | same fresh jobs known members forgotten restoring =>
        exact absurd hfresh (fresh i opening hopens)
      | opened opens fresh origin jobs known members forgotten restoring =>
        rw [hopens] at opens
        cases opens
        rw [known]
        exact List.mem_append_right _ (List.mem_singleton_self _)
      | left serving session origin gone jobs known members forgotten restoring => cases hopens
    rcases h.numbers_step hbooks htable hok hknown hn with hlt | ⟨row, hrow, -⟩
    · exact hlt
    · have hrow := hbooks.rows row hrow
      rw [h.served hserving] at hrow
      cases hrow

theorem Recording.in_memory (h : Recording s) (hok : s.Keeping op) (hjob : ∀ k, op ≠ .job k)
    (hop : op ≠ .restart) : Recording (s.step self_addr op) := by
  have hs := h.rooted.toHosting
  have hmemory := InMemory.step self_addr s hjob hop
  have hbooks : Books s (s.step self_addr op) op := books_step hs hjob hop
  have htable : TableMove s (s.step self_addr op) op := table_step hs hop
  have hserves := serves_step self_addr s hop
  have hrecorded : ∀ handle drop, s.Recorded handle drop →
      handle ∈ (s.step self_addr op).known → (s.step self_addr op).Recorded handle drop :=
    fun handle drop hrec hknown => hrec.in_memory h hjob hop hknown
  refine ⟨h.saves.in_memory hmemory, hserves.rooted h.rooted, h.calls.step (calls_step hs hop) htable,
    ?_, ?_, fun handle => h.hosted_step hbooks htable,
    fun handle hknown n hn => h.numbers_step hbooks htable hok hknown hn, ?_, ?_, ?_, ?_, ?_⟩
  · exact htable.restored hbooks h.served
  · rw [hmemory.passed]
    exact h.tables
  · -- members
    intro handle drop hmem
    have hold := h.members handle drop (hbooks.member hmem)
    rcases hbooks.knows hold.known with hknown | ⟨-, -, hleft⟩
    · exact hrecorded handle drop hold hknown
    · exact absurd hmem (hleft drop)
  · -- rows
    intro row hrow
    have hbefore := hbooks.rows row hrow
    obtain ⟨drop, hold⟩ := h.rows row hbefore
    rcases hbooks.knows hold.known with hknown | ⟨hserving, -, -⟩
    · exact ⟨drop, hrecorded _ drop hold hknown⟩
    · rw [h.served hserving] at hbefore
      cases hbefore
  · -- coming
    intro handle ticket hr
    have hold : s.Recorded handle ticket.without_nodes ∧ s.serving = false := by
      rcases restoring_step hs hop hr with hbefore | ⟨hidle, pd, hpd, rfl, hread⟩
      · refine ⟨h.coming handle ticket hbefore, ?_⟩
        rcases hserving : s.serving with _ | _
        · rfl
        · exact absurd hbefore (h.not_restoring hserving)
      · obtain ⟨drop, hold⟩ := h.rows pd hpd
        obtain ⟨back, hback, htext⟩ := hold.rows pd hpd rfl
        rw [htext, String.toList_ofList] at hread
        rw [DropTicket.read_to_string hread, hback]
        exact ⟨hold, hidle⟩
    rcases hbooks.knows hold.1.known with hknown | ⟨hserving, -, -⟩
    · exact hrecorded _ _ hold.1 hknown
    · rw [hold.2] at hserving
      cases hserving
  · -- drops
    intro handle drop hdrop
    have hknown := h.hosted_step hbooks htable (session_of_drop hdrop)
    rcases htable.hosts hs hserves.later hdrop with
      hbefore | ⟨i, opening, topic, ticket, hopens, hhandle, horigin, rfl⟩
    · rcases h.drops handle drop hbefore with hold | ⟨job, hmem, hhandle, hunsaved⟩
      · exact .inl (hrecorded handle drop hold hknown)
      · exact .inr ⟨job, hbooks.keeps_job hmem (Job.opened_of_unsaved hunsaved), hhandle, hunsaved⟩
    · by_cases hfresh : (Call.opened i opening).restored = none
      · right
        cases hbooks with
        | same fresh jobs known members forgotten restoring =>
          exact absurd hfresh (fresh i opening hopens)
        | opened opens fresh origin jobs known members forgotten restoring =>
          rw [hopens] at opens
          cases opens
          refine ⟨⟨.opened, s.service.handle_of opening, .checking⟩, ?_, hhandle, rfl⟩
          rw [jobs]
          exact List.mem_append_right _ (List.mem_singleton_self _)
        | left serving session origin gone jobs known members forgotten restoring => cases hopens
      · obtain ⟨handle', ticket', hr, hhandle', horigin'⟩ := restored_of_opens h.rooted hopens hfresh
        rw [horigin] at horigin'
        cases horigin'
        rw [hhandle] at hhandle'
        subst hhandle'
        exact .inl (hrecorded _ _ (h.coming _ _ hr) hknown)
  · exact fun job hmem hpurpose =>
      h.opened_step hbooks htable hserves.later hok hmemory hrecorded hmem hpurpose

/-! ### Steps of a job -/

theorem Worked.known {k : Nat} (hw : Worked self_addr s k s') : s'.known = s.known := by
  cases hw <;> rfl

theorem Worked.restoring {k : Nat} (hw : Worked self_addr s k s') {ticket : DropTicket}
    (hr : s'.service.Restoring handle ticket) : s.service.Restoring handle ticket := by
  cases hw <;> exact hr

/-- A drop is answered for at the end of its request. -/
theorem Worked.member {k : Nat} (hw : Worked self_addr s k s') (hmem : (handle, drop) ∈ s'.members) :
    (handle, drop) ∈ s.members ∨ ∃ job, s.jobs[k]? = some job ∧ job.stage = .ending ∧
      (job.purpose = .opened ∨ job.purpose = .rejoined) ∧ job.handle = handle ∧
      s.service.drop handle = some drop := by
  cases hw with
  | @answered job ticket hk stage purpose drop =>
    rcases List.mem_append.mp hmem with hold | hnew
    · exact .inl hold
    · cases List.mem_singleton.mp hnew
      exact .inr ⟨job, hk, stage, purpose, rfl, drop⟩
  | _ => exact .inl hmem

/-- A table that is passed was there, or is what the map has. -/
theorem Worked.passed {k : Nat} (hw : Worked self_addr s k s') {table : List PersistedDrop}
    (hmem : table ∈ s'.passed) : table ∈ s.passed ∨ table = s.service.persisted_table self_addr := by
  cases hw with
  | lists hk stage =>
    rcases List.mem_append.mp hmem with hold | hnew
    · exact .inl hold
    · exact .inr (List.mem_singleton.mp hnew)
  | _ => exact .inl hmem

/-- No drop comes into the map. -/
theorem Worked.hosts {k : Nat} (hw : Worked self_addr s k s')
    (hdrop : s'.service.drop handle = some drop) : s.service.drop handle = some drop := by
  cases hw with
  | drained hk stage purpose => cases hdrop
  | _ => exact hdrop

theorem Worked.session {k : Nat} (hw : Worked self_addr s k s')
    (hhosted : s'.service.session_of handle ≠ none) : s.service.session_of handle ≠ none := by
  cases hw with
  | drained hk stage purpose => exact absurd rfl hhosted
  | _ => exact hhosted

/-- A table that is taken while a drop is in the map has it. -/
theorem DiskMove.has_row {k stamp : Nat} (hdisk : DiskMove self_addr s s' k) (hrec : Recording s)
    (hhosted : (∃ save, s.stage_at k = some (.listing save)) → s.service.drop handle = some drop)
    (h : ∀ l table, stamp ≤ l → s.taken[l]? = some table → HasRow table handle drop) :
    ∀ l table, stamp ≤ l → s'.taken[l]? = some table → HasRow table handle drop := by
  intro l table hl htable
  cases hdisk with
  | same _ frames taken saved =>
    rw [taken] at htable
    exact h l table hl htable
  | removed stage _ frames taken saved =>
    rw [taken] at htable
    exact h l table hl htable
  | @listed save stage dir taken saved =>
    rw [taken] at htable
    rcases of_concat htable with hold | heq
    · exact h l table hl hold
    · subst heq
      have hdrop := hhosted ⟨save, stage⟩
      obtain ⟨drop', hdrop', hrow⟩ :=
        Service.persisted_has_row hrec.rooted (session_of_drop hdrop)
      rw [hdrop] at hdrop'
      cases hdrop'
      exact hrow
  | tabled stage order given read frames taken saved =>
    rw [taken] at htable
    exact h l table hl htable
  | framed stage _ others taken saved =>
    rw [taken] at htable
    exact h l table hl htable

/-- Where every known drop is in the map when a table is taken, a recorded drop
stays so. -/
theorem Recorded.worked (h : s.Recorded handle drop) {k : Nat} (hrec : Recording s)
    (hjson : TableJson.ReadsBack) (hok : s.Keeping (.job k)) (hw : Worked self_addr s k s')
    (hdisk : DiskMove self_addr s s' k) : s'.Recorded handle drop := by
  have hhosted : (∃ save, s.stage_at k = some (.listing save)) →
      s.service.drop handle = some drop := by
    rintro ⟨save, hstage⟩
    obtain ⟨job, hjob, hlisting⟩ := Option.map_eq_some_iff.mp hstage
    have hlists : job.lists = true := by
      unfold Job.lists
      rw [hlisting]
    obtain ⟨other, hother, -⟩ : ∃ other, s.service.drop handle = some other ∧
        HasRow (s.service.persisted_table self_addr) handle other :=
      Service.persisted_has_row hrec.rooted ((hok.2.2.2 job hjob).1 hlists handle h.known)
    rw [hother, h.hosted other hother]
  have hlater := hdisk.has_row hrec hhosted h.later
  have hsame : s'.dir.read DropStore.table_path = s.dir.read DropStore.table_path →
      HasRow (DropStore.load_table s'.dir) handle drop := fun hread => by
    rw [load_table_same hread]
    exact h.disk
  have hboth : HasRow (DropStore.load_table s'.dir) handle drop ∧ s.saved ≤ s'.saved := by
    cases hdisk with
    | same table frames taken saved => exact ⟨hsame table, Nat.le_of_eq saved.symm⟩
    | removed stage table frames taken saved => exact ⟨hsame table, Nat.le_of_eq saved.symm⟩
    | listed stage dir taken saved => exact ⟨hsame (by rw [dir]), Nat.le_of_eq saved.symm⟩
    | @tabled stamp table save stage order given read frames taken saved =>
      rw [load_table_of hjson read]
      exact ⟨h.later stamp table order given, by omega⟩
    | framed stage table others taken saved => exact ⟨hsame table, Nat.le_of_eq saved.symm⟩
  refine ⟨?_, fun other hdrop => h.hosted other (hw.hosts hdrop),
    fun ticket hr => h.coming ticket (hw.restoring hr), ?_, hboth.1, ?_⟩
  · rw [hw.known]
    exact h.known
  · rw [hw.served.2]
    exact h.rows
  · exact fun l table hl => hlater l table (Nat.le_trans hboth.2 hl)

/-- The table of a request is renamed into place. -/
theorem Recording.saved_now (h : Recording s) {k stamp : Nat} {table : List PersistedDrop}
    (hjson : TableJson.ReadsBack) (hw : Worked self_addr s k s')
    (hread : s'.dir.read DropStore.table_path = some (TableJson.to_vec_pretty table))
    (hgiven : s.taken[stamp]? = some table) (htaken : s'.taken = s.taken)
    (hsaved : s'.saved = stamp + 1) (hserving : s.serving = true)
    (hdrop : s.service.drop handle = some drop)
    (hfrom : ∀ l table, stamp ≤ l → s.taken[l]? = some table → HasRow table handle drop) :
    s'.Recorded handle drop where
  known := by
    rw [hw.known]
    exact h.hosted handle (session_of_drop hdrop)
  hosted other hother := by
    have hother := hw.hosts hother
    rw [hdrop] at hother
    exact (Option.some.inj hother).symm
  coming ticket hr := absurd (hw.restoring hr) (h.not_restoring hserving)
  rows row hrow := by
    rw [hw.served.2, h.served hserving] at hrow
    cases hrow
  disk := by
    rw [load_table_of hjson hread]
    exact hfrom stamp table (Nat.le_refl _) hgiven
  later l table' hl htable := by
    rw [hsaved] at hl
    rw [htaken] at htable
    exact hfrom l table' (Nat.le_of_succ_le hl) htable

theorem OpenedAt.mono {stage : Stage} (h : s.OpenedAt handle drop stage)
    (hfrom : ∀ stamp : Nat, (∀ l table, stamp ≤ l → s.taken[l]? = some table → HasRow table handle drop) →
      ∀ l table, stamp ≤ l → s'.taken[l]? = some table → HasRow table handle drop)
    (hrecorded : s.Recorded handle drop → s'.Recorded handle drop) :
    s'.OpenedAt handle drop stage := by
  cases stage with
  | saving_table stamp table phase save => exact hfrom stamp h
  | saving_frames topic frames phase => exact hrecorded h
  | ending => exact hrecorded h
  | returned => exact hrecorded h
  | waiting session => exact h
  | removing topic => exact h
  | checking => trivial
  | exporting session topic => trivial
  | listing save => trivial

/-- The stage that the job of a request goes on to has what is needed there. -/
theorem Worked.opened_at {k : Nat} (hw : Worked self_addr s k s')
    (hdisk : DiskMove self_addr s s' k) (hrec : Recording s) (hjson : TableJson.ReadsBack)
    (hok : s.Keeping (.job k)) {job job' : Job} (hk : s.jobs[k]? = some job)
    (hk' : s'.jobs[k]? = some job') (hpurpose : job.purpose = .opened) (hserving : s.serving = true)
    (hdrop : s.service.drop job.handle = some drop) (h : s.OpenedAt job.handle drop job.stage) :
    s'.OpenedAt job.handle drop job'.stage := by
  have hrest : ∀ {stage}, s.OpenedAt job.handle drop stage → s'.OpenedAt job.handle drop stage :=
    fun hat => hat.mono (fun _ => hdisk.has_row hrec (fun _ => hdrop))
      (fun hold => hold.worked hrec hjson hok hw hdisk)
  cases hw with
  | idle =>
    rw [hk] at hk'
    cases hk'
    exact h
  | waited hold stage purpose =>
    rw [hk] at hold
    cases hold
    rw [hpurpose] at purpose
    cases purpose
  | removed hold stage =>
    rw [hk] at hold
    cases hold
    rw [stage] at h
    exact h.elim
  | unlisted hold stage session =>
    rw [hk] at hold
    cases hold
    exact absurd session (session_of_drop hdrop)
  | checked hold stage session origin =>
    rw [job_set hold hk']
    trivial
  | exports frames hold stage =>
    rw [job_set (s := { s with exported := _ }) hold hk']
    trivial
  | lists hold stage =>
    rw [job_set (s := { s with passed := _, taken := _ }) hold hk']
    intro l table hl htable
    rcases of_concat (l := s.taken) htable with hbefore | heq
    · have := (List.getElem?_eq_some_iff.mp hbefore).1
      omega
    · subst heq
      obtain ⟨drop', hdrop', hrow⟩ :=
        Service.persisted_has_row hrec.rooted (session_of_drop hdrop)
      rw [hdrop] at hdrop'
      cases hdrop'
      exact hrow
  | table_next hold stage goes_on =>
    rw [hk] at hold
    cases hold
    rw [stage] at h
    have hat := hrest h
    rw [job_set (s := { s with dir := _ }) hk hk']
    exact hat
  | @table_done old stamp table phase save hold stage done =>
    rw [hk] at hold
    cases hold
    rw [stage] at h
    have hphase := DropStore.done done
    subst hphase
    have hat := stage_at_of hk stage
    have hread : (DropStore.save_table table s.dir .rename).1.read DropStore.table_path =
        some (TableJson.to_vec_pretty table) :=
      (hrec.saves.read_step hat rfl DropStore.table_plain).trans (if_pos ⟨rfl, rfl⟩)
    have hw' : Worked self_addr s k _ := .table_done hk stage done
    have hnow := hrec.saved_now hjson hw' hread (hrec.saves.given _ _ _ _ _ hat).2 rfl rfl hserving
      hdrop h
    rw [job_set (s := { s with dir := _, saved := _ }) hk hk']
    cases save <;> exact hnow
  | frames_next hold stage goes_on =>
    rw [hk] at hold
    cases hold
    rw [stage] at h
    have hat := hrest h
    rw [job_set (s := { s with dir := _ }) hk hk']
    exact hat
  | @frames_done old topic frames phase hold stage done =>
    rw [hk] at hold
    cases hold
    rw [stage] at h
    have hat := hrest h
    rw [job_set (s := { s with dir := _ }) hk hk']
    exact hat
  | ended hold stage =>
    rw [hk] at hold
    cases hold
    rw [stage] at h
    have hat := hrest h
    rw [job_set hk hk']
    exact hat
  | answered hold stage purpose drop =>
    rw [hk] at hold
    cases hold
    rw [stage] at h
    have hat := hrest h
    rw [job_set (s := { s with members := _ }) hk hk']
    exact hat
  | left hold stage purpose =>
    rw [hk] at hold
    cases hold
    rw [hpurpose] at purpose
    cases purpose
  | drained hold stage purpose =>
    rw [hk] at hold
    cases hold
    rw [hpurpose] at purpose
    cases purpose
  | next hold stage purpose =>
    rw [hk] at hold
    cases hold
    rw [hpurpose] at purpose
    cases purpose

theorem Recording.opened_worked (h : Recording s) {k : Nat} (hjson : TableJson.ReadsBack)
    (hok : s.Keeping (.job k)) (hw : Worked self_addr s k s') (hdisk : DiskMove self_addr s s' k)
    {l : Nat} {job' : Job} (hl : s'.jobs[l]? = some job') (hpurpose : job'.purpose = .opened) :
    s'.serving = true ∧ (∀ n, handle_number job'.handle = some n → n.toNat < Roster.bound s') ∧
      ∀ drop, s'.service.drop job'.handle = some drop →
        s'.OpenedAt job'.handle drop job'.stage := by
  obtain ⟨job, hjob, hother, ⟨hsame, hhandle⟩ | ⟨rest, rest', -, hshut⟩⟩ := hw.before hl
  · rw [hpurpose] at hsame
    obtain ⟨hserving, hnumber, hat⟩ := h.opened job (List.mem_of_getElem? hjob) hsame.symm
    rw [hhandle]
    refine ⟨hw.served.1 ▸ hserving, fun n hn => ?_, fun drop hdrop => ?_⟩
    · refine Nat.lt_of_lt_of_le (hnumber n hn) ?_
      exact Roster.bound_le h.calls hw.table (fun i opening hopens _ => hok.2.1 _ hopens) hok.2.2.1
    · have hbefore := hw.hosts hdrop
      by_cases hlk : l = k
      · subst hlk
        exact hw.opened_at hdisk h hjson hok hjob hl hsame.symm hserving hbefore (hat drop hbefore)
      · rw [hother hlk]
        exact (hat drop hbefore).mono (fun _ => hdisk.has_row h (fun _ => hbefore))
          (fun hold => hold.worked h hjson hok hw hdisk)
  · rw [hpurpose] at hshut
    cases hshut

/-- What `OpenedAt` says of a drop that is not saved yet, and of one that is. -/
theorem OpenedAt.recorded {job : Job} (h : s.OpenedAt handle drop job.stage)
    (hpurpose : job.purpose = .opened) : s.Recorded handle drop ∨ job.unsaved = true := by
  rcases job with ⟨purpose, name, stage⟩
  dsimp only at hpurpose
  subst hpurpose
  cases stage with
  | saving_table stamp table phase save => exact .inr rfl
  | saving_frames topic frames phase => exact .inl h
  | ending => exact .inl h
  | returned => exact .inl h
  | waiting session => exact h.elim
  | removing topic => exact h.elim
  | checking => exact .inr rfl
  | exporting session topic => exact .inr rfl
  | listing save => exact .inr rfl

/-- The job of a request goes on. -/
theorem Worked.after {k : Nat} (hw : Worked self_addr s k s') {job : Job} (hmem : job ∈ s.jobs)
    (hpurpose : job.purpose = .opened) :
    ∃ job' ∈ s'.jobs, job'.purpose = .opened ∧ job'.handle = job.handle := by
  obtain ⟨l, hl⟩ := List.getElem?_of_mem hmem
  have hlength : s'.jobs.length = s.jobs.length := by
    rcases hw.jobs with hsame | ⟨old, new, -, hset, -⟩
    · rw [hsame]
    · rw [hset, List.length_set]
  have hlt : l < s'.jobs.length := hlength ▸ (List.getElem?_eq_some_iff.mp hl).1
  have hat := List.getElem?_eq_getElem hlt
  obtain ⟨job', hjob', -, ⟨hsame, hhandle⟩ | ⟨rest, rest', hshut, -⟩⟩ := hw.before hat
  · rw [hl] at hjob'
    cases hjob'
    exact ⟨s'.jobs[l], List.getElem_mem hlt, hsame.trans hpurpose, hhandle⟩
  · rw [hl] at hjob'
    cases hjob'
    rw [hpurpose] at hshut
    cases hshut

/-- The rows of the table are what the next process knows. -/
theorem Recorded.restarted (h : HasRow (DropStore.load_table s.dir) handle drop) :
    s.restart.Recorded handle drop where
  known := by
    obtain ⟨row, hrow, hhandle⟩ := h.1
    exact List.mem_map.mpr ⟨row, hrow, hhandle⟩
  hosted _ hdrop := nomatch hdrop
  coming ticket hr := by
    rcases hr with ⟨name, mine, hmem⟩ | ⟨i, topic, name, mine, hmem, -⟩ <;> cases hmem
  rows := h.2
  disk := h
  later _ _ _ htable := nomatch htable

namespace Recording

theorem worked (h : Recording s) {k : Nat} (hjson : TableJson.ReadsBack)
    (hok : s.Keeping (.job k)) (hw : Worked self_addr s k s') (hserves : Serves self_addr s.service s'.service)
    (hcalls : Roster.Rows s') : Recording s' := by
  have hdisk := hw.disk h.saves hok.1
  have hrecorded : ∀ handle drop, s.Recorded handle drop → s'.Recorded handle drop :=
    fun handle drop hold => hold.worked h hjson hok hw hdisk
  have hopened : ∀ job ∈ s'.jobs, job.purpose = .opened → _ := fun job hmem hpurpose =>
    (List.getElem?_of_mem hmem).elim fun l hl => h.opened_worked hjson hok hw hdisk hl hpurpose
  refine ⟨h.saves.worked hok.1 hw, hserves.rooted h.rooted, hcalls, ?_, ?_, ?_, ?_, ?_, ?_, ?_, ?_,
    hopened⟩
  · rw [hw.served.1, hw.served.2]
    exact h.served
  · -- tables
    intro table htable row hrow
    rcases hw.passed htable with hold | rfl
    · exact h.tables table hold row hrow
    · obtain ⟨drop, -, hhas⟩ := Service.persisted_has_row h.rooted (Service.session_of_row hrow)
      exact ⟨drop, hhas⟩
  · intro handle hhosted
    rw [hw.known]
    exact h.hosted handle (hw.session hhosted)
  · intro handle hknown n hn
    rw [hw.known] at hknown
    rw [hw.served.2]
    rcases h.numbers handle hknown n hn with hlt | hrow
    · exact .inl (Nat.lt_of_lt_of_le hlt (Roster.bound_le h.calls hw.table
        (fun i opening hopens _ => hok.2.1 _ hopens) hok.2.2.1))
    · exact .inr hrow
  · -- members
    intro handle drop hmem
    rcases hw.member hmem with hold | ⟨job, hk, hstage, hpurpose, rfl, hdrop⟩
    · exact hrecorded handle drop (h.members handle drop hold)
    · refine hrecorded _ drop ?_
      rcases hpurpose with hpurpose | hpurpose
      · have hat := (h.opened job (List.mem_of_getElem? hk) hpurpose).2.2 drop hdrop
        rw [hstage] at hat
        exact hat
      · rcases h.drops job.handle drop hdrop with hold | ⟨other, hother, hsame, hunsaved⟩
        · exact hold
        · have hrejoins : job.rejoins = true := by
            unfold Job.rejoins
            rw [hpurpose, hstage]
          have hsaved := (hok.2.2.2 job hk).2 hrejoins other hother hsame
          rw [hunsaved] at hsaved
          cases hsaved
  · intro row hrow
    rw [hw.served.2] at hrow
    obtain ⟨drop, hold⟩ := h.rows row hrow
    exact ⟨drop, hrecorded _ drop hold⟩
  · exact fun handle ticket hr => hrecorded _ _ (h.coming handle ticket (hw.restoring hr))
  · -- drops
    intro handle drop hdrop
    rcases h.drops handle drop (hw.hosts hdrop) with hold | ⟨job, hmem, rfl, hunsaved⟩
    · exact .inl (hrecorded handle drop hold)
    · obtain ⟨job', hmem', hpurpose', hhandle⟩ := hw.after hmem (Job.opened_of_unsaved hunsaved)
      have hat := (hopened job' hmem' hpurpose').2.2 drop (hhandle ▸ hdrop)
      rcases hat.recorded hpurpose' with hnow | hstill
      · exact .inl (hhandle ▸ hnow)
      · exact .inr ⟨job', hmem', hhandle, hstill⟩

/-- A restart takes up the rows that are on disk. -/
theorem restart (h : Recording s) (hjson : TableJson.ReadsBack) : Recording s.restart where
  saves := h.saves.restart
  rooted := .of_new _ _
  calls := .of_calls rfl
  served hserving := nomatch hserving
  tables := h.tables
  hosted _ hhosted := absurd rfl hhosted
  numbers handle hknown n _ := by
    obtain ⟨row, hrow, rfl⟩ := List.mem_map.mp hknown
    exact .inr ⟨row, hrow, rfl⟩
  members handle drop hmem := .restarted (h.members handle drop hmem).disk
  rows row hrow := by
    have hhas : ∃ drop, HasRow (DropStore.load_table s.dir) row.handle drop := by
      rcases h.saves.table with hnone | ⟨table, hpassed, hread⟩
      · have hempty : DropStore.load_table s.dir = [] := by
          unfold DropStore.load_table
          rw [hnone]
        change row ∈ DropStore.load_table s.dir at hrow
        rw [hempty] at hrow
        cases hrow
      · have htable := load_table_of hjson hread
        rw [htable]
        exact h.tables table hpassed row (htable ▸ hrow)
    obtain ⟨drop, hhas⟩ := hhas
    exact ⟨drop, .restarted hhas⟩
  coming handle ticket hr := by
    rcases hr with ⟨name, mine, hmem⟩ | ⟨i, topic, name, mine, hmem, -⟩ <;> cases hmem
  drops _ _ hdrop := nomatch hdrop
  opened _ hmem := nomatch hmem

theorem step (h : Recording s) (hjson : TableJson.ReadsBack) (hok : s.Keeping op) :
    Recording (s.step self_addr op) := by
  by_cases hrestart : op = .restart
  · subst hrestart
    exact h.restart hjson
  have hs := h.rooted.toHosting
  by_cases hjob : ∃ k, op = .job k
  · obtain ⟨k, rfl⟩ := hjob
    exact h.worked hjson hok (Daemon.worked self_addr s k) (serves_step self_addr s hrestart)
      (h.calls.step (calls_step hs hrestart) (table_step hs hrestart))
  · exact h.in_memory hok (fun k heq => hjob ⟨k, heq⟩) hrestart

end Recording
end Steps

end Daemon

/-- In a run where no table is taken without a drop that the process knows of,
and no `drop.join` answers for a drop that is not saved yet, the table on disk
has the row of each drop that was answered `Ok` for, until it is left. -/
theorem answered_drops_keep_their_row [Urls] [TableJson] (hjson : TableJson.ReadsBack)
    (self_addr : EndpointAddr) (secret : SecretKey) (policy : DropPolicy) {ops : List DaemonOp}
    (h : runs.Meets (Daemon.step self_addr) Daemon.Keeping (.start secret policy) ops) :
    ∀ ops', ops' <+: ops → ((Daemon.start secret policy).run self_addr ops').KeepsRows := by
  rintro ops' ⟨rest, rfl⟩
  have hmeets := ((runs.meets_append _ ops' rest).mp h).1
  have hrecording : Daemon.Recording ((Daemon.start secret policy).run self_addr ops') :=
    runs.invariant_of_meets (fun _ _ hs hok => hs.step hjson hok)
      (Daemon.Recording.of_start secret policy) hmeets
  exact hrecording.keeps

end Laws

/-! ## A carrier that does not come -/

namespace lost_row

local instance : Crypto := Crypto.clear

local instance : Urls := Urls.verbatim

local instance : TableJson := TableJson.pretty

def self_addr : EndpointAddr := .of_id (SecretKey.public ⟨.fill 32 1⟩)

def options : CreateOptions :=
  { «private» := false, auto_fetch_recommended := false, display_name := none }

/-- A drop is created, and the request is answered. -/
def create (n : UInt8) : List DaemonOp :=
  [.act (.drop_create options ⟨.fill 32 n⟩ ⟨.fill 32 0⟩),
   .act (.connected 0 (.ok ()) (fun _ => .NotFound)), .act (.settle 0)] ++
  List.replicate 10 (.job 0)

/-- The process starts again, and comes to the only row of the table. -/
def again (carrier : Except String Unit) : List DaemonOp :=
  [.restart, .restore, .act (.connected 0 carrier (fun _ => .NotFound)), .act (.settle 0), .restore]

def daemon (ops : List DaemonOp) : Daemon := (Daemon.start ⟨.fill 32 1⟩ {}).run self_addr ops

/-- A second drop is created after a restart. -/
def run_of (carrier : Except String Unit) : List DaemonOp :=
  .restore :: (create 1 ++ again carrier ++ create 2)

theorem restored_keeping :
    runs.Meets (Daemon.step self_addr) Daemon.Keeping (.start ⟨.fill 32 1⟩ {}) (run_of (.ok ())) := by
  rw [show instTableJson = TableJson.ascii from TableJson.ascii_eq]
  decide +kernel

/-- The law at work on a drop that is restored, and another one beside it. -/
theorem answered_drops_keep_their_row_restored : (daemon (run_of (.ok ()))).KeepsRows :=
  answered_drops_keep_their_row TableJson.pretty_reads_back self_addr ⟨.fill 32 1⟩ {}
    restored_keeping (run_of (.ok ())) (List.prefix_refl _)

/-- The link of the first drop cannot be joined after the restart, and its row is
gone once the second one is saved. -/
theorem a_row_is_lost :
    ((daemon (run_of (.error "unreachable"))).members.map Prod.fst = ["d1", "d2"] ∧
      (DropStore.load_table (daemon (run_of (.error "unreachable"))).dir).map (·.handle) = ["d2"]) ∧
    ¬ ∀ [Crypto] [Urls] [TableJson], TableJson.ReadsBack →
      ∀ (self_addr : EndpointAddr) (secret : SecretKey) (policy : DropPolicy)
        (ops : List DaemonOp), ((Daemon.start secret policy).run self_addr ops).KeepsRows := by
  obtain ⟨hmembers, htable⟩ :
      (daemon (run_of (.error "unreachable"))).members.map Prod.fst = ["d1", "d2"] ∧
        (DropStore.load_table (daemon (run_of (.error "unreachable"))).dir).map (·.handle) =
          ["d2"] := by
    unfold daemon
    rw [show instTableJson = TableJson.ascii from TableJson.ascii_eq]
    decide +kernel
  refine ⟨⟨hmembers, htable⟩, ?_⟩
  intro hall
  have hkeeps : (daemon (run_of (.error "unreachable"))).KeepsRows :=
    hall TableJson.pretty_reads_back self_addr ⟨.fill 32 1⟩ {} (run_of (.error "unreachable"))
  have hmem : "d1" ∈ (daemon (run_of (.error "unreachable"))).members.map Prod.fst := by
    rw [hmembers]
    exact List.mem_cons_self
  obtain ⟨⟨handle, drop⟩, hmember, rfl⟩ := List.mem_map.mp hmem
  obtain ⟨row, hrow, hhandle, -⟩ := hkeeps _ drop hmember
  have hin := List.mem_map_of_mem (f := (·.handle)) hrow
  rw [htable, hhandle] at hin
  exact absurd hin (by decide)

end lost_row

end iroh_drop
