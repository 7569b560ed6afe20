-- The law of drop.leave: a drop that was left stays forgotten, where no persist
-- of it is past its entry check when its frames are removed.
import IrohDrop.PersistMoves

open rust_std postcard volume

namespace iroh_drop

section Laws

/-- What is in a list with one more at its end was in it, or is that one. -/
theorem of_concat {α : Type*} {l : List α} {last b : α} {k : Nat} (h : (l ++ [last])[k]? = some b) :
    l[k]? = some b ∨ last = b := by
  rw [List.getElem?_append] at h
  split at h
  · exact .inl h
  · exact .inr (List.mem_singleton.mp (List.mem_of_getElem? h)).symm

variable [Crypto]

/-- The topic whose frames the job has at hand. -/
def Stage.carries : Stage → Option TopicId
  | .exporting _ topic => some topic
  | stage => stage.save.map Prod.fst

/-- The topic whose frames the job removes next. -/
def Stage.removes : Stage → Option TopicId
  | .removing topic => some topic
  | _ => none

/-- The job has no step left. -/
def Stage.done : Stage → Bool
  | .returned => true
  | _ => false

omit [Crypto] in
theorem Stage.of_done {stage : Stage} (h : stage.done = true) : stage = .returned := by
  cases stage with
  | returned => rfl
  | _ => cases h

omit [Crypto] in
theorem Stage.carries_idle {stage : Stage} (h : stage.idle = true) : stage.carries = none := by
  cases stage with
  | waiting session => rfl
  | checking => rfl
  | ending => rfl
  | _ => cases h

omit [Crypto] in
theorem Stage.carries_after_table (save : Option (TopicId × List Bytes)) :
    (after_table save).carries = save.map Prod.fst := by
  cases save <;> rfl

namespace Daemon

variable [Urls] [TableJson]

/-- No row of a topic that was left for good, no frames of it, and no drop. -/
def Forgets (s : Daemon) : Prop :=
  ∀ topic ∈ s.forgotten, (∀ row ∈ DropStore.load_table s.dir, ¬ row.IsOf topic) ∧
    s.dir.read (DropStore.frames_path topic) = none ∧
    ∀ handle, s.service.topic_under handle ≠ some topic

omit [Urls] in
/-- The jobs are orderly, and the frames of a topic are removed where no other
job has them at hand. -/
def Forgetful (s : Daemon) (op : DaemonOp) : Prop :=
  s.Orderly op ∧ match op with
    | .job k => ∀ topic ∈ (s.stage_at k).bind Stage.removes, ∀ l < s.jobs.length, l ≠ k →
      (s.stage_at l).bind Stage.carries ≠ some topic
    | _ => True

omit [Urls] in
instance (s : Daemon) : ∀ op, Decidable (s.Forgetful op)
  | .job k => inferInstanceAs (Decidable (s.Orderly (.job k) ∧
      ∀ topic ∈ (s.stage_at k).bind Stage.removes, ∀ l < s.jobs.length, l ≠ k →
        (s.stage_at l).bind Stage.carries ≠ some topic))
  | .act a => inferInstanceAs (Decidable (s.Orderly (.act a) ∧ True))
  | .restore => inferInstanceAs (Decidable (s.Orderly .restore ∧ True))
  | .restore_history k now => inferInstanceAs (Decidable (s.Orderly (.restore_history k now) ∧ True))
  | .debounced handle => inferInstanceAs (Decidable (s.Orderly (.debounced handle) ∧ True))
  | .published k => inferInstanceAs (Decidable (s.Orderly (.published k) ∧ True))
  | .shutdown => inferInstanceAs (Decidable (s.Orderly .shutdown ∧ True))
  | .restart => inferInstanceAs (Decidable (s.Orderly .restart ∧ True))

/-! ## What holds of a topic while it is left, and after it -/

/-- No drop of the table is of the topic. -/
def Unhosted (s : Daemon) (topic : TopicId) : Prop :=
  ∀ handle, s.service.topic_under handle ≠ some topic

/-- The topic has no frames on disk, and no job has any. -/
def Unframed (s : Daemon) (topic : TopicId) : Prop :=
  s.dir.read (DropStore.frames_path topic) = none ∧
    ∀ l, (s.stage_at l).bind Stage.carries ≠ some topic

/-- The tables that were taken from here on have no row of the topic. -/
def RowlessFrom (s : Daemon) (topic : TopicId) (stamp : Nat) : Prop :=
  ∀ l table, stamp ≤ l → s.taken[l]? = some table → ∀ row ∈ table, ¬ row.IsOf topic

/-- The table on disk has none, and no later one has. -/
def Rowless (s : Daemon) (topic : TopicId) : Prop :=
  (∀ row ∈ DropStore.load_table s.dir, ¬ row.IsOf topic) ∧ s.RowlessFrom topic s.saved

/-- What holds of the topic of a `drop.leave`, by where the leave is. -/
def LeavesAt (s : Daemon) (topic : TopicId) : Stage → Prop
  | .waiting _ => s.Unhosted topic
  | .removing t => t = topic ∧ s.Unhosted topic
  | .listing save => save = none ∧ s.Unhosted topic ∧ s.Unframed topic
  | .saving_table stamp _ _ save =>
    save = none ∧ s.Unhosted topic ∧ s.Unframed topic ∧ s.RowlessFrom topic stamp
  | .ending => s.Unhosted topic ∧ s.Unframed topic ∧ s.Rowless topic
  | .returned => True
  | _ => False

/-- No restart brings the topic back. -/
structure Absent (s : Daemon) (topic : TopicId) : Prop where
  rows : ∀ row ∈ s.restoring, ¬ row.IsOf topic
  calls : ∀ handle ticket, s.service.Restoring handle ticket → ticket.topic ≠ topic

/-- What the runs keep. -/
structure Forgetting (s : Daemon) : Prop where
  saves : Saves s
  rooted : s.service.Rooted
  rows : Roster.Rows s
  served : s.serving = true → s.restoring = []
  leaves : ∀ (k : Nat) job topic, s.jobs[k]? = some job → job.purpose = .leave topic false →
    s.serving = true ∧ s.LeavesAt topic job.stage
  forgotten : ∀ topic ∈ s.forgotten,
    s.Unhosted topic ∧ s.Unframed topic ∧ s.Rowless topic ∧ s.Absent topic

namespace Forgetting

theorem forgets {s : Daemon} (h : Forgetting s) : s.Forgets := fun topic htopic =>
  let ⟨hunhosted, hunframed, hrowless, _⟩ := h.forgotten topic htopic
  ⟨hrowless.1, hunframed.1, hunhosted⟩

theorem of_start (secret : SecretKey) (policy : DropPolicy) : Forgetting (.start secret policy) where
  saves := .of_start secret policy
  rooted := .of_new secret policy
  rows := .of_calls rfl
  served h := nomatch h
  leaves _ _ _ hk := nomatch hk
  forgotten _ h := nomatch h

end Forgetting

end Daemon


namespace Daemon

section Steps

variable [Urls] [TableJson] {self_addr : EndpointAddr} {s s' : Daemon} {op : DaemonOp}
  {topic : TopicId}

/-! ### Steps in memory -/

omit [Urls] [TableJson] in
/-- Only a session of the topic that comes into the table makes it hosted. -/
theorem Unhosted.step (h : s.Unhosted topic) (hs : Service.Hosting s.service)
    (hlater : Service.Later s.service s'.service) (htable : TableMove s s' op)
    (hopens : ∀ i opening, s.opens op = some (i, opening) → s.service.topic_of i ≠ some topic) :
    s'.Unhosted topic := by
  have hsub : ∀ handle, s'.service.session_of handle = none ∨
      s'.service.session_of handle = s.service.session_of handle →
        s'.service.topic_under handle ≠ some topic := by
    rintro handle (hnone | hsame) ht
    · unfold Service.topic_under at ht
      rw [hnone] at ht
      cases ht
    · rw [hlater.topic_under hs hsame] at ht
      exact h handle ht
  intro handle
  cases htable with
  | kept quiet drops next_drop serving number => exact hsub handle (.inr (drops handle))
  | served idle before after drops next_drop rows => exact hsub handle (.inr (drops handle))
  | @settled k i opening found drops next_drop serving number =>
    by_cases hnew : handle = s.service.handle_of opening
    · have hi : i < s.service.sessions.length :=
        hs.calls _ (List.mem_of_getElem? found) i rfl
      obtain ⟨o, ho⟩ := Service.origin_of_lt hi
      intro ht
      unfold Service.topic_under at ht
      rw [drops, if_pos hnew, Option.bind_some, Service.topic_of_origin, hlater i o ho] at ht
      refine hopens i opening ?_ ?_
      · simp only [opens, found]
      · rw [Service.topic_of_origin, ho]
        exact ht
    · refine hsub handle (.inr ?_)
      rw [drops, if_neg hnew]
  | @left left_handle before after drops next_drop number =>
    refine hsub handle ?_
    rw [drops]
    split
    · exact .inl rfl
    · exact .inr rfl
  | emptied closing drops next_drop serving number => exact hsub handle (.inl (drops handle))

omit [Urls] [TableJson] in
theorem Unframed.in_memory (h : s.Unframed topic) (hs : InMemory s s') : s'.Unframed topic := by
  refine ⟨?_, fun l => ?_⟩
  · rw [hs.dir]
    exact h.1
  · rcases hs.stages l with hsame | ⟨-, hnew⟩
    · rw [hsame]
      exact h.2 l
    · rcases hl : s'.stage_at l with _ | stage
      · exact fun heq => nomatch heq
      · rw [Option.bind_some, Stage.carries_idle (hnew stage hl)]
        exact fun heq => nomatch heq

omit [TableJson] in
theorem RowlessFrom.in_memory {stamp : Nat} (h : s.RowlessFrom topic stamp) (hs : InMemory s s') :
    s'.RowlessFrom topic stamp := by
  unfold RowlessFrom
  rw [hs.taken]
  exact h

theorem Rowless.in_memory (h : s.Rowless topic) (hs : InMemory s s') : s'.Rowless topic := by
  unfold Rowless
  rw [hs.dir, hs.saved]
  exact ⟨h.1, RowlessFrom.in_memory h.2 hs⟩

theorem LeavesAt.mono {stage : Stage} (h : s.LeavesAt topic stage)
    (hunhosted : s.Unhosted topic → s'.Unhosted topic)
    (hunframed : s.Unhosted topic → s.Unframed topic → s'.Unframed topic)
    (hfrom : ∀ stamp, s.Unhosted topic → s.RowlessFrom topic stamp → s'.RowlessFrom topic stamp)
    (hrowless : s.Unhosted topic → s.Rowless topic → s'.Rowless topic) :
    s'.LeavesAt topic stage := by
  cases stage with
  | waiting session => exact hunhosted h
  | removing t => exact ⟨h.1, hunhosted h.2⟩
  | listing save => exact ⟨h.1, hunhosted h.2.1, hunframed h.2.1 h.2.2⟩
  | saving_table stamp table phase save =>
    exact ⟨h.1, hunhosted h.2.1, hunframed h.2.1 h.2.2.1, hfrom stamp h.2.1 h.2.2.2⟩
  | ending => exact ⟨hunhosted h.1, hunframed h.1 h.2.1, hrowless h.1 h.2.2⟩
  | returned => trivial
  | checking => exact h
  | exporting session t => exact h
  | saving_frames t frames phase => exact h

theorem LeavesAt.in_memory {stage : Stage} (h : s.LeavesAt topic stage) (hs : InMemory s s')
    (hunhosted : s.Unhosted topic → s'.Unhosted topic) : s'.LeavesAt topic stage :=
  h.mono hunhosted (fun _ hunframed => hunframed.in_memory hs)
    (fun _ _ hfrom => hfrom.in_memory hs) (fun _ hrowless => hrowless.in_memory hs)

omit [Urls] [TableJson] in
/-- Once it serves, a process goes on to serve. -/
theorem TableMove.serves (h : TableMove s s' op) (hserving : s.serving = true) :
    s'.serving = true := by
  cases h with
  | kept quiet drops next_drop serving number => rw [serving, hserving]
  | served idle before after drops next_drop rows => exact after
  | settled found drops next_drop serving number => rw [serving, hserving]
  | left before after drops next_drop number => exact after
  | emptied closing drops next_drop serving number => rw [serving, hserving]

omit [Urls] [TableJson] in
/-- A drop that a restart puts into the table is of its row. -/
theorem restored_of_opens (hs : s.service.Rooted) {i : SessionId} {opening : Opening}
    (hopens : s.opens op = some (i, opening)) (hrestored : (Call.opened i opening).restored ≠ none) :
    ∃ handle ticket, s.service.Restoring handle ticket ∧ s.service.handle_of opening = handle ∧
      s.service.origin i = some (ticket.topic, ticket) := by
  have hmem : .opened i opening ∈ s.service.calls := by
    unfold opens at hopens
    split at hopens
    · split at hopens
      · rename_i hk
        cases hopens
        exact List.mem_of_getElem? hk
      · cases hopens
    · cases hopens
  obtain ⟨⟨topic, ticket⟩, horigin⟩ := Service.origin_of_lt (hs.calls _ hmem i rfl)
  have htopic : topic = ticket.topic := hs.topics i _ horigin
  subst htopic
  cases opening with
  | restored handle name mine => exact ⟨handle, ticket, .inr ⟨i, _, name, mine, hmem, horigin⟩, rfl, horigin⟩
  | created name => exact absurd rfl hrestored
  | joined name => exact absurd rfl hrestored

omit [Urls] [TableJson] in
/-- What opens is a request where requests are served. -/
theorem fresh_of_opens (h : Roster.Rows s) (hserving : s.serving = true) {i : SessionId}
    {opening : Opening} (hopens : s.opens op = some (i, opening)) :
    (Call.opened i opening).restored = none := by
  unfold opens at hopens
  split at hopens
  · split at hopens
    · rename_i hk
      cases hopens
      exact h.requests hserving _ (List.mem_of_getElem? hk)
    · cases hopens
  · cases hopens

theorem Absent.step (h : s.Absent topic) (hs : Service.Hosting s.service) (hop : op ≠ .restart)
    (hrows : ∀ row ∈ (s.step self_addr op).restoring, row ∈ s.restoring) :
    (s.step self_addr op).Absent topic where
  rows row hrow := h.rows row (hrows row hrow)
  calls handle ticket hr := by
    rcases restoring_step hs hop hr with hold | ⟨-, pd, hpd, -, hread⟩
    · exact h.calls handle ticket hold
    · exact fun heq => h.rows pd hpd ⟨ticket, hread, heq⟩

omit [Urls] [TableJson] in
theorem Books.rows (h : Books s s' op) : ∀ row ∈ s'.restoring, row ∈ s.restoring := by
  intro row hrow
  cases h with
  | same fresh jobs known members forgotten restoring =>
    rcases restoring with hsame | ⟨pd, hcons, -⟩
    · rwa [hsame] at hrow
    · rw [hcons]
      exact List.mem_cons_of_mem _ hrow
  | opened opens fresh origin jobs known members forgotten restoring => rwa [restoring] at hrow
  | left serving session origin gone jobs known members forgotten restoring => rwa [restoring] at hrow

omit [Urls] [TableJson] in
/-- A process that serves has no rows left. -/
theorem TableMove.restored (h : TableMove s s' op) (hbooks : Books s s' op)
    (hserved : s.serving = true → s.restoring = []) (hserving : s'.serving = true) :
    s'.restoring = [] := by
  have hbefore : s.serving = true ∨ s'.restoring = [] := by
    cases h with
    | kept quiet drops next_drop serving number => exact .inl (serving ▸ hserving)
    | served idle before after drops next_drop rows => exact .inr rows
    | settled found drops next_drop serving number => exact .inl (serving ▸ hserving)
    | left before after drops next_drop number => exact .inl before
    | emptied closing drops next_drop serving number => exact .inl (serving ▸ hserving)
  rcases hbefore with hbefore | hrows
  · have hrows := hbooks.rows
    rw [hserved hbefore] at hrows
    exact List.eq_nil_iff_forall_not_mem.mpr fun row hrow => nomatch hrows row hrow
  · exact hrows

omit [Urls] [TableJson] in
/-- A leave whose topic is not hosted again was there before, or begins now. -/
theorem Books.leave (h : Books s s' op) {k : Nat} {job' : Job}
    (hk : s'.jobs[k]? = some job') (hpurpose : job'.purpose = .leave topic false) :
    (∃ job, s.jobs[k]? = some job ∧ job.purpose = .leave topic false ∧ job'.stage = job.stage ∧
      ∀ i opening, s.opens op = some (i, opening) → (Call.opened i opening).restored = none →
        s.service.topic_of i ≠ some topic) ∨
      s.serving = true ∧ s'.Unhosted topic ∧ ∃ i, job'.stage = .waiting i := by
  cases h with
  | same fresh jobs known members forgotten restoring =>
    have hopens : ∀ i opening, s.opens op = some (i, opening) →
        (Call.opened i opening).restored = none → s.service.topic_of i ≠ some topic :=
      fun i opening hopens hnone => absurd hnone (fresh i opening hopens)
    rcases jobs with hsame | ⟨job, hplain, hidle, hnew⟩
    · rw [hsame] at hk
      exact .inl ⟨job', hk, hpurpose, rfl, hopens⟩
    · rw [hnew] at hk
      rcases of_concat hk with hold | heq
      · exact .inl ⟨job', hold, hpurpose, rfl, hopens⟩
      · rw [heq, hpurpose] at hplain
        cases hplain
  | @opened j i opening topic' ticket opens fresh origin jobs known members forgotten restoring =>
    rw [jobs] at hk
    rcases of_concat hk with hold | heq
    · unfold registered at hold
      rw [List.getElem?_map] at hold
      obtain ⟨job, hjob, heq⟩ := Option.map_eq_some_iff.mp hold
      refine .inl ⟨job, hjob, ?_⟩
      rcases job with ⟨purpose, handle, stage⟩
      cases purpose with
      | leave t again =>
        subst heq
        simp only [Purpose.leave.injEq, Bool.or_eq_false_iff, decide_eq_false_iff_not] at hpurpose
        obtain ⟨rfl, rfl, hne⟩ := hpurpose
        refine ⟨rfl, rfl, fun i' opening' hopens hnone => ?_⟩
        rw [opens] at hopens
        cases hopens
        rw [Service.topic_of_origin, origin]
        exact fun heq => hne (Option.some.inj heq).symm
      | persist => subst heq; cases hpurpose
      | opened => subst heq; cases hpurpose
      | rejoined => subst heq; cases hpurpose
      | shutdown rest => subst heq; cases hpurpose
    · rw [← heq] at hpurpose
      cases hpurpose
  | @left handle i topic' ticket serving session origin gone jobs known members forgotten restoring =>
    rw [jobs] at hk
    rcases of_concat hk with hold | heq
    · exact .inl ⟨job', hold, hpurpose, rfl, fun i opening hopens => nomatch hopens⟩
    · subst heq
      simp only [Purpose.leave.injEq] at hpurpose
      obtain ⟨rfl, hagain⟩ := hpurpose
      refine .inr ⟨serving, fun other ht => ?_, i, rfl⟩
      have hsome := Service.handle_for_topic_of_hosted ht
      rw [Option.isSome_eq_false_iff, Option.isNone_iff_eq_none] at hagain
      exact hsome hagain

omit [Urls] [TableJson] in
theorem Books.forgets (h : Books s s' op) (ht : topic ∈ s'.forgotten) :
    topic ∈ s.forgotten ∧ ∀ i opening, s.opens op = some (i, opening) →
      (Call.opened i opening).restored = none → s.service.topic_of i ≠ some topic := by
  cases h with
  | same fresh jobs known members forgotten restoring =>
    exact ⟨forgotten ▸ ht, fun i opening hopens hnone => absurd hnone (fresh i opening hopens)⟩
  | @opened j i opening topic' ticket opens fresh origin jobs known members forgotten restoring =>
    rw [forgotten] at ht
    obtain ⟨hmem, hne⟩ := List.mem_filter.mp ht
    refine ⟨hmem, fun i' opening' hopens hnone => ?_⟩
    rw [opens] at hopens
    cases hopens
    rw [Service.topic_of_origin, origin]
    intro heq
    simp only [decide_eq_true_eq] at hne
    exact hne (Option.some.inj heq).symm
  | left serving session origin gone jobs known members forgotten restoring =>
    exact ⟨forgotten ▸ ht, fun i opening hopens => nomatch hopens⟩

theorem Forgetting.in_memory (h : Forgetting s) (hjob : ∀ k, op ≠ .job k) (hop : op ≠ .restart) :
    Forgetting (s.step self_addr op) := by
  have hs := h.rooted.toHosting
  have hmemory := InMemory.step self_addr s hjob hop
  have hbooks : Books s (s.step self_addr op) op := books_step hs hjob hop
  have htable : TableMove s (s.step self_addr op) op := table_step hs hop
  have hserves := serves_step self_addr s hop
  have hlater := hserves.later
  refine ⟨h.saves.in_memory hmemory, hserves.rooted h.rooted,
    h.rows.step (calls_step hs hop) htable, ?_, ?_, ?_⟩
  · exact htable.restored hbooks h.served
  · intro k job' topic hk hpurpose
    rcases hbooks.leave hk hpurpose with ⟨job, hjob, hold, hstage, hopens⟩ | ⟨hserving, hunhosted, i, hstage⟩
    · obtain ⟨hserving, hat⟩ := h.leaves k job topic hjob hold
      refine ⟨htable.serves hserving, ?_⟩
      rw [hstage]
      exact hat.in_memory hmemory fun hunhosted => hunhosted.step hs hlater htable
        fun i opening hopened => hopens i opening hopened (fresh_of_opens h.rows hserving hopened)
    · refine ⟨htable.serves hserving, ?_⟩
      rw [hstage]
      exact hunhosted
  · intro topic htopic
    obtain ⟨hold, hopens⟩ := hbooks.forgets htopic
    obtain ⟨hunhosted, hunframed, hrowless, habsent⟩ := h.forgotten topic hold
    refine ⟨hunhosted.step hs hlater htable fun i opening hopened => ?_, hunframed.in_memory hmemory,
      hrowless.in_memory hmemory, habsent.step hs hop hbooks.rows⟩
    by_cases hrestored : (Call.opened i opening).restored = none
    · exact hopens i opening hopened hrestored
    · obtain ⟨handle, ticket, hrestoring, -, horigin⟩ := restored_of_opens h.rooted hopened hrestored
      rw [Service.topic_of_origin, horigin]
      exact fun heq => habsent.calls handle ticket hrestoring (Option.some.inj heq)


/-! ### Steps of a job -/

omit [Urls] [TableJson] in
/-- A job that goes on to another stage, with the same frames at hand or others,
leaves the jobs without frames of the topic. -/
theorem carries_set {k : Nat} {job new : Job} (hk : s.jobs[k]? = some job)
    (h : ∀ l, (s.stage_at l).bind Stage.carries ≠ some topic)
    (hnew : new.stage.carries = job.stage.carries ∨ new.stage.carries ≠ some topic) (l : Nat) :
    ((s.set_job k new).stage_at l).bind Stage.carries ≠ some topic := by
  rw [stage_at_set hk]
  by_cases hl : l = k
  · rw [if_pos hl, Option.bind_some]
    rcases hnew with hsame | hother
    · rw [hsame]
      have hold := h k
      rwa [stage_at_of hk rfl, Option.bind_some] at hold
    · exact hother
  · rw [if_neg hl]
    exact h l

theorem Worked.unhosted {k : Nat} (hw : Worked self_addr s k s') (h : s.Unhosted topic) :
    s'.Unhosted topic := by
  cases hw with
  | drained hk stage purpose =>
    intro handle ht
    cases ht
  | _ => exact h

theorem Worked.carries {k : Nat} (hw : Worked self_addr s k s') (hunhosted : s.Unhosted topic)
    (h : ∀ l, (s.stage_at l).bind Stage.carries ≠ some topic) :
    ∀ l, (s'.stage_at l).bind Stage.carries ≠ some topic := by
  cases hw with
  | idle => exact h
  | waited hk stage purpose => exact carries_set hk h (.inr fun heq => nomatch heq)
  | removed hk stage => exact carries_set hk h (.inr fun heq => nomatch heq)
  | unlisted hk stage session => exact carries_set hk h (.inr fun heq => nomatch heq)
  | @checked job i topic' ticket hk stage session origin =>
    refine carries_set hk h (.inr fun heq => hunhosted job.handle ?_)
    cases heq
    unfold Service.topic_under
    rw [session, Option.bind_some, Service.topic_of_origin, origin, Option.map_some]
  | exports frames hk stage =>
    refine carries_set hk h (.inl ?_)
    rw [stage]
    rfl
  | lists hk stage =>
    refine carries_set hk h (.inl ?_)
    rw [stage]
    rfl
  | table_next hk stage goes_on =>
    refine carries_set hk h (.inl ?_)
    rw [stage]
    rfl
  | table_done hk stage done =>
    refine carries_set hk h (.inl ?_)
    rw [stage]
    exact Stage.carries_after_table _
  | frames_next hk stage goes_on =>
    refine carries_set hk h (.inl ?_)
    rw [stage]
    rfl
  | frames_done hk stage done => exact carries_set hk h (.inr fun heq => nomatch heq)
  | ended hk stage => exact carries_set hk h (.inr fun heq => nomatch heq)
  | answered hk stage purpose drop => exact carries_set hk h (.inr fun heq => nomatch heq)
  | left hk stage purpose => exact carries_set hk h (.inr fun heq => nomatch heq)
  | drained hk stage purpose => exact carries_set hk h (.inr fun heq => nomatch heq)
  | next hk stage purpose => exact carries_set hk h (.inr fun heq => nomatch heq)

/-- No job writes frames that no job has at hand. -/
theorem Worked.unframed {k : Nat} (hw : Worked self_addr s k s') (hdisk : DiskMove self_addr s s' k)
    (hunhosted : s.Unhosted topic) (h : s.Unframed topic) : s'.Unframed topic := by
  refine ⟨?_, hw.carries hunhosted h.2⟩
  have hgone := h.1
  cases hdisk with
  | same table frames taken saved => rw [frames, hgone]
  | removed stage table frames taken saved =>
    rw [frames]
    split
    · rfl
    · exact hgone
  | listed stage dir taken saved => rw [dir, hgone]
  | tabled stage order given read frames taken saved => rw [frames, hgone]
  | framed stage table others taken saved =>
    rw [others, hgone]
    rintro rfl
    refine h.2 k ?_
    rw [stage]
    rfl

/-- A table that is taken has no row of a topic that is not hosted. -/
theorem DiskMove.rowless_from {k stamp : Nat} (hdisk : DiskMove self_addr s s' k)
    (hs : s.service.Rooted) (hunhosted : s.Unhosted topic) (h : s.RowlessFrom topic stamp) :
    s'.RowlessFrom topic stamp := by
  intro l table hl htable row hrow
  cases hdisk with
  | same _ frames taken saved =>
    rw [taken] at htable
    exact h l table hl htable row hrow
  | removed stage _ frames taken saved =>
    rw [taken] at htable
    exact h l table hl htable row hrow
  | listed stage dir taken saved =>
    rw [taken] at htable
    rcases of_concat htable with hold | heq
    · exact h l table hl hold row hrow
    · subst heq
      exact fun hof => hunhosted row.handle (Service.row_topic hs hrow hof)
  | tabled stage order given read frames taken saved =>
    rw [taken] at htable
    exact h l table hl htable row hrow
  | framed stage _ others taken saved =>
    rw [taken] at htable
    exact h l table hl htable row hrow

omit [Urls] in
theorem load_table_of {table : List PersistedDrop} (hjson : TableJson.ReadsBack)
    (h : s.dir.read DropStore.table_path = some (TableJson.to_vec_pretty table)) :
    DropStore.load_table s.dir = table := by
  unfold DropStore.load_table
  rw [h]
  dsimp only
  rw [hjson table, Option.getD_some]

omit [Urls] in
theorem load_table_same (h : s'.dir.read DropStore.table_path = s.dir.read DropStore.table_path) :
    DropStore.load_table s'.dir = DropStore.load_table s.dir := by
  unfold DropStore.load_table
  rw [h]

/-- The table that is renamed into place is no older than the one before. -/
theorem DiskMove.rowless {k : Nat} (hdisk : DiskMove self_addr s s' k) (hjson : TableJson.ReadsBack)
    (hs : s.service.Rooted) (hunhosted : s.Unhosted topic) (h : s.Rowless topic) :
    s'.Rowless topic := by
  obtain ⟨hrows, hfrom⟩ := h
  have hfrom' := hdisk.rowless_from hs hunhosted hfrom
  cases hdisk with
  | same table frames taken saved => exact ⟨by rwa [load_table_same table], by rwa [saved]⟩
  | removed stage table frames taken saved =>
    exact ⟨by rwa [load_table_same table], by rwa [saved]⟩
  | listed stage dir taken saved => exact ⟨by rwa [dir], by rwa [saved]⟩
  | @tabled stamp table save stage order given read frames taken saved =>
    constructor
    · rw [load_table_of hjson read]
      exact hfrom stamp table order given
    · intro l table' hl
      rw [saved] at hl
      exact hfrom' l table' (by omega)
  | framed stage table others taken saved =>
    exact ⟨by rwa [load_table_same table], by rwa [saved]⟩

/-- The stage that the job of a leave goes on to has what its leave needs there. -/
theorem Worked.leaves_at {k : Nat} (hw : Worked self_addr s k s')
    (hdisk : DiskMove self_addr s s' k) (hjson : TableJson.ReadsBack) (hs : s.service.Rooted)
    (hok : s.Forgetful (.job k)) {job job' : Job} (hk : s.jobs[k]? = some job)
    (hk' : s'.jobs[k]? = some job') (hpurpose : job.purpose = .leave topic false)
    (h : s.LeavesAt topic job.stage) : s'.LeavesAt topic job'.stage := by
  have hrest : ∀ {stage}, s.LeavesAt topic stage → s'.LeavesAt topic stage := fun hat =>
    hat.mono hw.unhosted (fun hunhosted => hw.unframed hdisk hunhosted)
      (fun _ hunhosted => hdisk.rowless_from hs hunhosted)
      (fun hunhosted => hdisk.rowless hjson hs hunhosted)
  cases hw with
  | idle =>
    rw [hk] at hk'
    cases hk'
    exact h
  | @waited old session t again hold stage purpose =>
    rw [hk] at hold
    cases hold
    rw [hpurpose] at purpose
    cases purpose
    rw [job_set hk hk']
    rw [stage] at h
    exact ⟨rfl, h⟩
  | @removed old t hold stage =>
    rw [hk] at hold
    cases hold
    rw [job_set (s := { s with dir := DropStore.remove_drop s.dir t }) hk hk']
    rw [stage] at h
    obtain ⟨rfl, hunhosted⟩ := h
    refine ⟨rfl, hunhosted, Volume.read_remove, fun l => ?_⟩
    -- No other job has frames of the topic at hand now.
    have hothers := hok.2 t (by rw [stage_at_of hk stage]; rfl)
    rw [stage_at_set (s := { s with dir := DropStore.remove_drop s.dir t }) hk]
    split
    · exact fun heq => nomatch heq
    · rename_i hne
      intro hcarries
      refine hothers l ?_ hne hcarries
      obtain ⟨stage', hstage, -⟩ := Option.bind_eq_some_iff.mp hcarries
      obtain ⟨other, hother, -⟩ := Option.map_eq_some_iff.mp hstage
      exact (List.getElem?_eq_some_iff.mp hother).1
  | unlisted hold stage session =>
    rw [hk] at hold
    cases hold
    rw [stage] at h
    exact h.elim
  | checked hold stage session origin =>
    rw [hk] at hold
    cases hold
    rw [stage] at h
    exact h.elim
  | exports frames hold stage =>
    rw [hk] at hold
    cases hold
    rw [stage] at h
    exact h.elim
  | @lists old save hold stage =>
    rw [hk] at hold
    cases hold
    rw [stage] at h
    have hat := hrest h
    rw [job_set (s := { s with passed := _, taken := _ }) hk hk']
    refine ⟨hat.1, hat.2.1, hat.2.2, fun l table hl htable row hrow hof => ?_⟩
    -- Only the table that is taken now is at the stamp or after it.
    rcases of_concat (l := s.taken) htable with hold | heq
    · have := (List.getElem?_eq_some_iff.mp hold).1
      omega
    · subst heq
      exact h.2.1 row.handle (Service.row_topic hs hrow hof)
  | @table_next old stamp table phase next save hold stage goes_on =>
    rw [hk] at hold
    cases hold
    rw [stage] at h
    have hat := hrest h
    rw [job_set (s := { s with dir := _ }) hk hk']
    exact hat
  | @table_done old stamp table phase save hold stage done =>
    rw [hk] at hold
    cases hold
    rw [stage] at h
    have hat := hrest h
    rw [job_set (s := { s with dir := _, saved := _ }) hk hk']
    obtain ⟨hsave, hunhosted, hunframed, hfrom⟩ := hat
    subst hsave
    refine ⟨hunhosted, hunframed, ?_, fun l table' hl => hfrom l table' (Nat.le_of_succ_le hl)⟩
    -- The table on disk is now the one that the leave has taken.
    have hphase := DropStore.done done
    subst hphase
    have horder : s.saved ≤ stamp := hok.1.2 stamp (by rw [stage_at_of hk stage]; rfl)
    have hlater : stamp + 1 ≠ s.saved := by omega
    cases hdisk with
    | tabled stage' order given read frames taken saved =>
      rw [stage_at_of hk stage] at stage'
      cases stage'
      rw [load_table_of hjson read]
      exact h.2.2.2 stamp table (Nat.le_refl _) given
    | same table frames taken saved => exact absurd saved hlater
    | removed stage' table frames taken saved => exact absurd saved hlater
    | listed stage' dir taken saved => exact absurd saved hlater
    | framed stage' table others taken saved => exact absurd saved hlater
  | frames_next hold stage goes_on =>
    rw [hk] at hold
    cases hold
    rw [stage] at h
    exact h.elim
  | frames_done hold stage done =>
    rw [hk] at hold
    cases hold
    rw [stage] at h
    exact h.elim
  | ended hold stage =>
    rw [job_set hold hk']
    trivial
  | answered hold stage purpose drop =>
    rw [job_set (s := { s with members := _ }) hold hk']
    trivial
  | left hold stage purpose =>
    rw [job_set (s := { s with forgotten := _ }) hold hk']
    trivial
  | drained hold stage purpose =>
    rw [job_set (s := { s with service := _ }) hold hk']
    trivial
  | next hold stage purpose =>
    rw [hk] at hold
    cases hold
    rw [hpurpose] at purpose
    cases purpose

theorem Worked.absent {k : Nat} (hw : Worked self_addr s k s') (h : s.Absent topic) :
    s'.Absent topic := by
  cases hw with
  | idle => exact h
  | _ => exact ⟨h.rows, h.calls⟩

omit [TableJson] in
theorem Absent.of_serving (hrows : Roster.Rows s) (hserved : s.serving = true → s.restoring = [])
    (hserving : s.serving = true) : s.Absent topic where
  rows row hrow := by
    rw [hserved hserving] at hrow
    cases hrow
  calls handle ticket hr := by
    rcases hr with ⟨name, mine, hmem⟩ | ⟨i, topic, name, mine, hmem, -⟩
    · cases hrows.requests hserving _ hmem
    · cases hrows.requests hserving _ hmem

theorem Worked.served {k : Nat} (hw : Worked self_addr s k s') :
    s'.serving = s.serving ∧ s'.restoring = s.restoring := by
  cases hw <;> exact ⟨rfl, rfl⟩

/-- Only a leave that has not seen its topic hosted again adds to what is forgotten. -/
theorem Worked.forgets {k : Nat} (hw : Worked self_addr s k s') (ht : topic ∈ s'.forgotten) :
    topic ∈ s.forgotten ∨ ∃ job, s.jobs[k]? = some job ∧ job.stage = .ending ∧
      job.purpose = .leave topic false := by
  cases hw with
  | @left job t again hk stage purpose =>
    cases again with
    | false =>
      rcases List.mem_append.mp ht with hold | hnew
      · exact .inl hold
      · rw [List.mem_singleton.mp hnew]
        exact .inr ⟨job, hk, stage, purpose⟩
    | true => exact .inl ht
  | _ => exact .inl ht

/-- A leave among the jobs was there before. -/
theorem Worked.leave {k l : Nat} {job' : Job} (hw : Worked self_addr s k s')
    (hl : s'.jobs[l]? = some job') (hpurpose : job'.purpose = .leave topic false) :
    ∃ job, s.jobs[l]? = some job ∧ job.purpose = .leave topic false ∧
      (l ≠ k → job'.stage = job.stage) := by
  obtain ⟨job, hjob, hother, hsame⟩ := hw.before hl
  refine ⟨job, hjob, ?_, fun hne => by rw [hother hne]⟩
  rcases hsame with ⟨hpurpose', -⟩ | ⟨rest, rest', -, hshut⟩
  · rw [← hpurpose', hpurpose]
  · rw [hpurpose] at hshut
    cases hshut

namespace Forgetting

theorem worked (h : Forgetting s) {k : Nat} (hjson : TableJson.ReadsBack)
    (hok : s.Forgetful (.job k)) : Forgetting (s.step self_addr (.job k)) := by
  have hw : Worked self_addr s k (s.step self_addr (.job k)) := Daemon.worked self_addr s k
  have hdisk := hw.disk h.saves hok.1
  have hs := h.rooted
  have hop : DaemonOp.job k ≠ .restart := fun heq => nomatch heq
  have htable : TableMove s (s.step self_addr (.job k)) (.job k) := table_step hs.toHosting hop
  have hcalls : Service.CallsMove s.service (s.step self_addr (.job k)).service
      (DaemonOp.job k).call (Begins s (s.step self_addr (.job k)) (.job k)) :=
    calls_step hs.toHosting hop
  have hserves := serves_step self_addr s hop
  have hserving := hw.served
  have hkept : ∀ {topic}, s.Unhosted topic → s.Unframed topic → s.Rowless topic →
      s.Absent topic → (s.step self_addr (.job k)).Unhosted topic ∧
        (s.step self_addr (.job k)).Unframed topic ∧ (s.step self_addr (.job k)).Rowless topic ∧
        (s.step self_addr (.job k)).Absent topic := fun hunhosted hunframed hrowless habsent =>
    ⟨hw.unhosted hunhosted, hw.unframed hdisk hunhosted hunframed,
      hdisk.rowless hjson hs hunhosted hrowless, hw.absent habsent⟩
  refine ⟨h.saves.worked hok.1 hw, hserves.rooted hs, h.rows.step hcalls htable, ?_, ?_, ?_⟩
  · rw [hserving.1, hserving.2]
    exact h.served
  · intro l job' topic hl hpurpose
    obtain ⟨job, hjob, hold, hstage⟩ := hw.leave hl hpurpose
    obtain ⟨hserves, hat⟩ := h.leaves l job topic hjob hold
    refine ⟨hserving.1 ▸ hserves, ?_⟩
    by_cases hlk : l = k
    · subst hlk
      exact hw.leaves_at hdisk hjson hs hok hjob hl hold hat
    · rw [hstage hlk]
      exact hat.mono hw.unhosted (fun hunhosted => hw.unframed hdisk hunhosted)
        (fun _ hunhosted => hdisk.rowless_from hs hunhosted)
        (fun hunhosted => hdisk.rowless hjson hs hunhosted)
  · intro topic htopic
    rcases hw.forgets htopic with hold | ⟨job, hjob, hstage, hpurpose⟩
    · obtain ⟨hunhosted, hunframed, hrowless, habsent⟩ := h.forgotten topic hold
      exact hkept hunhosted hunframed hrowless habsent
    · obtain ⟨hserves, hat⟩ := h.leaves k job topic hjob hpurpose
      rw [hstage] at hat
      exact hkept hat.1 hat.2.1 hat.2.2 (.of_serving h.rows h.served hserves)

/-- A restart finds only the rows of the table. -/
theorem restart (h : Forgetting s) : Forgetting s.restart where
  saves := h.saves.restart
  rooted := .of_new _ _
  rows := .of_calls rfl
  served hserving := nomatch hserving
  leaves _ _ _ hk := nomatch hk
  forgotten topic htopic := by
    obtain ⟨-, hunframed, hrowless, -⟩ := h.forgotten topic htopic
    refine ⟨fun handle ht => ?_, ⟨hunframed.1, fun l heq => ?_⟩, ⟨hrowless.1, ?_⟩, ?_⟩
    · cases ht
    · cases heq
    · intro l table _ htaken
      cases htaken
    · refine ⟨hrowless.1, fun handle ticket hr => ?_⟩
      rcases hr with ⟨name, mine, hmem⟩ | ⟨i, topic, name, mine, hmem, -⟩
      · cases hmem
      · cases hmem

theorem step (h : Forgetting s) (hjson : TableJson.ReadsBack) {op : DaemonOp}
    (hok : s.Forgetful op) : Forgetting (s.step self_addr op) := by
  by_cases hjob : ∃ k, op = .job k
  · obtain ⟨k, rfl⟩ := hjob
    exact h.worked hjson hok
  · by_cases hrestart : op = .restart
    · subst hrestart
      exact h.restart
    · exact h.in_memory (fun k heq => hjob ⟨k, heq⟩) hrestart

end Forgetting
end Steps

end Daemon

/-- In a run whose jobs are orderly, and where no job has the frames of a topic
at hand when a leave removes them, a topic that was left for good has no row, no
frames and no drop. A restart does not bring it back. -/
theorem left_drops_stay_forgotten [Urls] [TableJson] (hjson : TableJson.ReadsBack)
    (self_addr : EndpointAddr) (secret : SecretKey) (policy : DropPolicy) {ops : List DaemonOp}
    (h : runs.Meets (Daemon.step self_addr) Daemon.Forgetful (.start secret policy) ops) :
    ∀ ops', ops' <+: ops → ((Daemon.start secret policy).run self_addr ops').Forgets := by
  rintro ops' ⟨rest, rfl⟩
  have hmeets := ((runs.meets_append _ ops' rest).mp h).1
  have hforgetting : Daemon.Forgetting ((Daemon.start secret policy).run self_addr ops') :=
    runs.invariant_of_meets (fun _ _ hs hok => hs.step hjson hok)
      (Daemon.Forgetting.of_start secret policy) hmeets
  exact hforgetting.forgets

end Laws

/-! ## A persist that a leave does not wait for -/

namespace late_persist

local instance : Crypto := Crypto.clear

local instance : Urls := Urls.verbatim

local instance : TableJson := TableJson.pretty

def self_addr : EndpointAddr := .of_id (SecretKey.public ⟨.fill 32 1⟩)

def options : CreateOptions :=
  { «private» := false, auto_fetch_recommended := false, display_name := none }

def topic : TopicId := ⟨.fill 32 1⟩

/-- A drop is created, and its session says something to its pump. -/
def created : List DaemonOp :=
  [.restore, .act (.drop_create options topic ⟨.fill 32 0⟩),
   .act (.connected 0 (.ok ()) (fun _ => .NotFound)), .act (.settle 0)] ++
  List.replicate 10 (.job 0) ++
  [.act (.session_step 0 (.neighbor_down self_addr.id)), .act (.pump 0)]

/-- The drop is left, up to the removal of its frames. -/
def leave : List DaemonOp :=
  [.act (.drop_leave "d1"),
   .act (.withdraw 0 (fun _ => 0) (fun _ => { now := 0, sent_at_ms := 0, id := .fill 16 0
                                              nonce := .fill 24 0, carried := .ok () })),
   .act (.internal_ended 0 0), .act (.stop 0)]

def daemon (ops : List DaemonOp) : Daemon := (Daemon.start ⟨.fill 32 1⟩ {}).run self_addr ops

/-- The persist first, and then the leave. -/
def in_turn : List DaemonOp :=
  created ++ [.debounced "d1"] ++ List.replicate 10 (.job 1) ++ leave ++ List.replicate 10 (.job 2)

theorem in_turn_forgetful :
    runs.Meets (Daemon.step self_addr) Daemon.Forgetful (.start ⟨.fill 32 1⟩ {}) in_turn := by
  rw [show instTableJson = TableJson.ascii from TableJson.ascii_eq]
  decide +kernel

/-- The law at work on a drop that is persisted and left. -/
theorem left_drops_stay_forgotten_in_turn : (daemon in_turn).Forgets :=
  left_drops_stay_forgotten TableJson.pretty_reads_back self_addr ⟨.fill 32 1⟩ {} in_turn_forgetful
    in_turn (List.prefix_refl _)

/-- The persist passes its entry check, the drop is left, and then the persist
goes on: to the file of the frames, or to an older table. -/
def late (before : Nat) : List DaemonOp :=
  created ++ [.debounced "d1"] ++ List.replicate before (.job 1) ++ leave ++
    List.replicate 10 (.job 2) ++ List.replicate 10 (.job 1)

/-- With every job done, the frames of a topic that was left are on disk, or its
row is, and a restart joins it again. -/
theorem a_late_persist_brings_a_drop_back :
    ((daemon (late 2)).forgotten = [topic] ∧
      (daemon (late 2)).dir.read (DropStore.frames_path topic) = some [0]) ∧
    ((daemon (late 3)).forgotten = [topic] ∧
      (daemon (late 3 ++ [.restart])).restoring.map (·.handle) = ["d1"]) ∧
    ¬ ∀ [Crypto] [Urls] [TableJson], TableJson.ReadsBack →
      ∀ (self_addr : EndpointAddr) (secret : SecretKey) (policy : DropPolicy)
        (ops : List DaemonOp),
        (∀ job ∈ ((Daemon.start secret policy).run self_addr ops).jobs, job.stage = .returned) →
        ((Daemon.start secret policy).run self_addr ops).Forgets := by
  obtain ⟨hforgotten, hframes, hdone⟩ : (daemon (late 2)).forgotten = [topic] ∧
      (daemon (late 2)).dir.read (DropStore.frames_path topic) = some [0] ∧
      ∀ job ∈ (daemon (late 2)).jobs, job.stage.done = true := by
    unfold daemon
    rw [show instTableJson = TableJson.ascii from TableJson.ascii_eq]
    decide +kernel
  have hrow : (daemon (late 3)).forgotten = [topic] ∧
      (daemon (late 3 ++ [.restart])).restoring.map (·.handle) = ["d1"] := by
    unfold daemon
    rw [show instTableJson = TableJson.ascii from TableJson.ascii_eq]
    decide +kernel
  refine ⟨⟨hforgotten, hframes⟩, hrow, ?_⟩
  intro hall
  have hforgets : (daemon (late 2)).Forgets := by
    refine hall TableJson.pretty_reads_back self_addr ⟨.fill 32 1⟩ {} (late 2) ?_
    exact fun job hjob => Stage.of_done (hdone job hjob)
  have hgone := (hforgets topic (hforgotten ▸ List.mem_singleton_self topic)).2.1
  rw [hframes] at hgone
  cases hgone

end late_persist

end iroh_drop
