-- The law of the saves: where no two jobs have one temporary file, and no
-- older table is renamed over a newer one, every file of the store is whole,
-- and the table on disk is the last one that was taken.
import IrohDrop.PersistSteps

open rust_std postcard volume

namespace iroh_drop

section Laws

variable [Crypto] [TableJson]

namespace Daemon

/-! ## What the files should be -/

/-- Each file is missing or whole, and with no job at work the table is the one
that was taken last. -/
structure FilesWhole (s : Daemon) : Prop where
  table : s.dir.read DropStore.table_path = none ∨
    ∃ table ∈ s.passed, s.dir.read DropStore.table_path = some (TableJson.to_vec_pretty table)
  frames : ∀ topic, s.dir.read (DropStore.frames_path topic) = none ∨
    ∃ frames, (topic, frames) ∈ s.exported ∧
      s.dir.read (DropStore.frames_path topic) = some (DropStore.frames_codec.write frames)
  latest : (∀ job ∈ s.jobs, job.stage = .returned) → ∀ table, s.taken.getLast? = some table →
    s.dir.read DropStore.table_path = some (TableJson.to_vec_pretty table)

/-- No other job has the temporary file of `path`. -/
def Free (s : Daemon) (k : Nat) (path : DataFile) : Prop :=
  ∀ l < s.jobs.length, l ≠ k → (s.stage_at l).bind Stage.temp ≠ some (path.with_extension .tmp)

/-- A job makes its temporary file only where no other job has it, and renames
its table only over one that was taken earlier. -/
def Orderly (s : Daemon) : DaemonOp → Prop
  | .job k =>
    (∀ path ∈ (s.stage_at k).bind Stage.creates, s.Free k path) ∧
      ∀ stamp ∈ (s.stage_at k).bind Stage.renames, s.saved ≤ stamp
  | _ => True

instance (s : Daemon) (k : Nat) (path : DataFile) : Decidable (s.Free k path) :=
  inferInstanceAs (Decidable (∀ l < s.jobs.length, l ≠ k → _ ≠ _))

instance (s : Daemon) : ∀ op, Decidable (s.Orderly op)
  | .job _ => inferInstanceAs (Decidable (_ ∧ _))
  | .act _ | .restore | .restore_history _ _ | .debounced _ | .published _ | .shutdown | .restart =>
    inferInstanceAs (Decidable True)

/-! ## The invariant -/

/-- The files that the jobs replace. -/
def writers (s : Daemon) (k : Nat) : Option (DataFile × Bytes × Phase) :=
  (s.stage_at k).bind Stage.write

/-- The jobs do not disturb each other, what they save is what was exported and
taken, and each table that was taken is on disk, past, or still to be saved. -/
structure Saves (s : Daemon) : Prop where
  tidy : Tidy (DataFile.with_extension · .tmp) s.writers s.dir
  given : ∀ k stamp table phase save, s.stage_at k = some (.saving_table stamp table phase save) →
    table ∈ s.passed ∧ s.taken[stamp]? = some table
  exported : ∀ k stage topic frames, s.stage_at k = some stage →
    stage.save = some (topic, frames) → (topic, frames) ∈ s.exported
  table : s.dir.read DropStore.table_path = none ∨
    ∃ table ∈ s.passed, s.dir.read DropStore.table_path = some (TableJson.to_vec_pretty table)
  frames : ∀ topic, s.dir.read (DropStore.frames_path topic) = none ∨
    ∃ frames, (topic, frames) ∈ s.exported ∧
      s.dir.read (DropStore.frames_path topic) = some (DropStore.frames_codec.write frames)
  on_disk : ∀ stamp table, s.saved = stamp + 1 → s.taken[stamp]? = some table →
    s.dir.read DropStore.table_path = some (TableJson.to_vec_pretty table)
  past : s.saved ≤ s.taken.length
  held : ∀ stamp, s.saved ≤ stamp → stamp < s.taken.length → ∃ k table phase save,
    s.stage_at k = some (.saving_table stamp table phase save)

namespace Saves

variable {s s' : Daemon}

theorem of_start (secret : SecretKey) (policy : DropPolicy) : Saves (.start secret policy) where
  tidy := ⟨fun _ _ _ _ h => (nomatch h), fun _ _ _ _ _ _ _ _ h => (nomatch h)⟩
  given _ _ _ _ _ h := nomatch h
  exported _ _ _ _ h := nomatch h
  table := .inl rfl
  frames _ := .inl rfl
  on_disk _ _ h := nomatch h
  past := Nat.le_refl 0
  held _ _ h := absurd h (Nat.not_lt_zero _)

omit [TableJson] in
theorem stage_returned (h : ∀ job ∈ s.jobs, job.stage = .returned) {k : Nat} {stage : Stage}
    (hk : s.stage_at k = some stage) : stage = .returned := by
  unfold stage_at at hk
  obtain ⟨job, hjob, rfl⟩ := Option.map_eq_some_iff.mp hk
  exact h job (List.mem_of_getElem? hjob)

/-- The invariant says what it should. -/
theorem whole (h : Saves s) : FilesWhole s where
  table := h.table
  frames := h.frames
  latest := by
    intro hreturned table hlast
    -- With no job at work, no table that was taken is still to be saved.
    have hsaved : s.taken.length ≤ s.saved := by
      by_contra hlt
      obtain ⟨k, table', phase, save, hk⟩ :=
        h.held s.saved (Nat.le_refl _) (Nat.lt_of_not_le hlt)
      cases stage_returned hreturned hk
    have heq := Nat.le_antisymm h.past hsaved
    rw [List.getLast?_eq_getElem?] at hlast
    have hpos : 0 < s.taken.length := by
      have := (List.getElem?_eq_some_iff.mp hlast).1
      omega
    exact h.on_disk (s.taken.length - 1) table (by omega) hlast

theorem in_memory (h : Saves s) (hs : InMemory s s') : Saves s' := by
  have hback : ∀ k stage, s'.stage_at k = some stage → stage.idle = false →
      s.stage_at k = some stage := by
    intro k stage hk hidle
    rcases hs.stages k with hsame | ⟨-, hnew⟩
    · rwa [← hsame]
    · rw [hnew stage hk] at hidle
      cases hidle
  obtain ⟨htidy, hgiven, hexported, htable, hframes, hdisk, hpast, hheld⟩ := h
  constructor
  · rw [hs.dir]
    refine htidy.subset ?_
    intro k n bytes phase hk
    left
    unfold writers at hk ⊢
    obtain ⟨stage, hstage, hwrite⟩ := Option.bind_eq_some_iff.mp hk
    have hidle : stage.idle = false := by
      rcases hi : stage.idle with _ | _
      · rfl
      · rw [Stage.write_idle hi] at hwrite
        cases hwrite
    rw [hback k stage hstage hidle]
    exact hwrite
  · intro k stamp table phase save hk
    rw [hs.passed, hs.taken]
    exact hgiven k stamp table phase save (hback k _ hk rfl)
  · intro k stage topic frames hk hsave
    rw [hs.exported]
    have hidle : stage.idle = false := by
      rcases hi : stage.idle with _ | _
      · rfl
      · rw [Stage.save_idle hi] at hsave
        cases hsave
    exact hexported k stage topic frames (hback k stage hk hidle) hsave
  · rw [hs.dir, hs.passed]
    exact htable
  · intro topic
    rw [hs.dir, hs.exported]
    exact hframes topic
  · intro stamp table hsaved htaken
    rw [hs.saved] at hsaved
    rw [hs.taken] at htaken
    rw [hs.dir]
    exact hdisk stamp table hsaved htaken
  · rw [hs.saved, hs.taken]
    exact hpast
  · intro stamp hsaved hlt
    rw [hs.saved] at hsaved
    rw [hs.taken] at hlt
    obtain ⟨k, table, phase, save, hk⟩ := hheld stamp hsaved hlt
    refine ⟨k, table, phase, save, ?_⟩
    rcases hs.stages k with hsame | ⟨hnone, -⟩
    · rw [hsame, hk]
    · rw [hnone] at hk
      cases hk

/-- A job that replaces no file goes on to where it replaces none either. -/
theorem goto (h : Saves s) {k : Nat} {old : Stage} (hk : s.stage_at k = some old)
    (hold : old.write = none) {new : Stage} (hnew : new.write = none)
    (hstages : ∀ l, s'.stage_at l = if l = k then some new else s.stage_at l)
    (hdir : s'.dir = s.dir) (hpassed : s'.passed = s.passed) (htaken : s'.taken = s.taken)
    (hsaved : s'.saved = s.saved) (hexported : s.exported ⊆ s'.exported)
    (hsave : ∀ topic frames, new.save = some (topic, frames) → (topic, frames) ∈ s'.exported) :
    Saves s' := by
  obtain ⟨htidy, hgiven, hexp, htable, hframes, hdisk, hpast, hheld⟩ := h
  constructor
  · rw [hdir]
    refine htidy.subset ?_
    intro l n bytes phase hl
    left
    unfold writers at hl ⊢
    rw [hstages] at hl
    split at hl
    · rw [Option.bind_some, hnew] at hl
      cases hl
    · exact hl
  · intro l stamp table phase save hl
    rw [hpassed, htaken]
    rw [hstages] at hl
    split at hl
    · cases hl
      cases hnew
    · exact hgiven l stamp table phase save hl
  · intro l stage topic frames hl hstage
    rw [hstages] at hl
    split at hl
    · cases hl
      exact hsave topic frames hstage
    · exact hexported (hexp l stage topic frames hl hstage)
  · rw [hdir, hpassed]
    exact htable
  · intro topic
    rw [hdir]
    rcases hframes topic with hnone | ⟨frames, hmem, hread⟩
    · exact .inl hnone
    · exact .inr ⟨frames, hexported hmem, hread⟩
  · intro stamp table hs ht
    rw [hsaved] at hs
    rw [htaken] at ht
    rw [hdir]
    exact hdisk stamp table hs ht
  · rw [hsaved, htaken]
    exact hpast
  · intro stamp hs hlt
    rw [hsaved] at hs
    rw [htaken] at hlt
    obtain ⟨l, table, phase, save, hl⟩ := hheld stamp hs hlt
    refine ⟨l, table, phase, save, ?_⟩
    rw [hstages, if_neg]
    · exact hl
    · rintro rfl
      rw [hk] at hl
      cases hl
      cases hold

/-- A job whose temporary file is free, or made already, takes one step with it. -/
theorem tidy_step (h : Saves s) {k : Nat} {stage new : Stage} {path : DataFile} {bytes : Bytes}
    {phase : Phase} (hk : s.stage_at k = some stage) (hwrite : stage.write = some (path, bytes, phase))
    (hfree : phase = .create → s.Free k path)
    (hstages : ∀ l, s'.stage_at l = if l = k then some new else s.stage_at l)
    (hdir : s'.dir = (DropStore.write_private path bytes s.dir phase).1)
    (hnew : ∀ n bytes' phase', new.write = some (n, bytes', phase') → phase' = .create ∨
      n = path ∧ bytes' = bytes ∧ (DropStore.write_private path bytes s.dir phase).2 = some phase') :
    Tidy (DataFile.with_extension · .tmp) s'.writers s'.dir := by
  have hwriter : s.writers k = some (path, bytes, phase) := by
    unfold writers
    rw [hk, Option.bind_some, hwrite]
  rw [hdir]
  refine h.tidy.step hwriter (Stage.write_plain hwrite) ?_ ?_ ?_
  · intro hcreate l m bytes' phase' hne hl hopened htemp
    unfold writers at hl
    obtain ⟨other, hother, hother'⟩ := Option.bind_eq_some_iff.mp hl
    have hlt : l < s.jobs.length := by
      unfold stage_at at hother
      obtain ⟨job, hjob, -⟩ := Option.map_eq_some_iff.mp hother
      exact (List.getElem?_eq_some_iff.mp hjob).1
    refine hfree hcreate l hlt hne ?_
    rw [hother, Option.bind_some, Stage.temp_of_write hother' hopened, ← htemp]
  · intro l hne
    unfold writers
    rw [hstages, if_neg hne]
  · intro n bytes' phase' hn
    unfold writers at hn
    rw [hstages, if_pos rfl, Option.bind_some] at hn
    exact hnew n bytes' phase' hn

/-- What the step of a job with a file does to the files of the store. -/
theorem read_step (h : Saves s) {k : Nat} {stage : Stage} {path : DataFile} {bytes : Bytes}
    {phase : Phase} (hk : s.stage_at k = some stage) (hwrite : stage.write = some (path, bytes, phase))
    {file : DataFile} (hfile : ∀ other : DataFile, file ≠ other.with_extension .tmp) :
    (DropStore.write_private path bytes s.dir phase).1.read file =
      if phase = .rename ∧ file = path then some bytes else s.dir.read file := by
  refine h.tidy.read_step (k := k) ?_ hfile
  unfold writers
  rw [hk, Option.bind_some, hwrite]

theorem remove (h : Saves s) (topic : TopicId) :
    Saves { s with dir := DropStore.remove_drop s.dir topic } := by
  obtain ⟨htidy, hgiven, hexported, htable, hframes, hdisk, hpast, hheld⟩ := h
  have hread : (DropStore.remove_drop s.dir topic).read DropStore.table_path =
      s.dir.read DropStore.table_path := Volume.read_remove_ne (DropStore.table_ne_frames topic)
  refine ⟨htidy.remove (DropStore.frames_plain topic), hgiven, hexported, ?_, ?_, ?_, hpast, hheld⟩
  · rw [hread]
    exact htable
  · intro other
    by_cases hsame : other = topic
    · subst hsame
      exact .inl Volume.read_remove
    · have hother : (DropStore.remove_drop s.dir topic).read (DropStore.frames_path other) =
          s.dir.read (DropStore.frames_path other) :=
        Volume.read_remove_ne fun heq => hsame (DropStore.frames_inj heq)
      rw [hother]
      exact hframes other
  · intro stamp table hsaved htaken
    rw [hread]
    exact hdisk stamp table hsaved htaken

/-- A table is taken, and is to be saved. -/
theorem lists (h : Saves s) {k : Nat} {save : Option (TopicId × List Bytes)}
    (hk : s.stage_at k = some (.listing save)) (table : List PersistedDrop)
    (hstages : ∀ l, s'.stage_at l =
      if l = k then some (.saving_table s.taken.length table .create save) else s.stage_at l)
    (hdir : s'.dir = s.dir) (hpassed : s'.passed = s.passed ++ [table])
    (htaken : s'.taken = s.taken ++ [table]) (hsaved : s'.saved = s.saved)
    (hexported : s'.exported = s.exported) : Saves s' := by
  obtain ⟨htidy, hgiven, hexp, htable, hframes, hdisk, hpast, hheld⟩ := h
  constructor
  · rw [hdir]
    refine htidy.subset ?_
    intro l n bytes phase hl
    unfold writers at hl ⊢
    rw [hstages] at hl
    split at hl
    · cases hl
      exact .inr rfl
    · exact .inl hl
  · intro l stamp table' phase save' hl
    rw [hpassed, htaken]
    rw [hstages] at hl
    split at hl
    · cases hl
      exact ⟨List.mem_append_right _ (List.mem_singleton_self table), List.getElem?_concat_length⟩
    · obtain ⟨hmem, hget⟩ := hgiven l stamp table' phase save' hl
      exact ⟨List.mem_append_left _ hmem, by
        rw [List.getElem?_append_left (List.getElem?_eq_some_iff.mp hget).1, hget]⟩
  · intro l stage topic frames hl hsave
    rw [hexported]
    rw [hstages] at hl
    split at hl
    · cases hl
      exact hexp k _ topic frames hk hsave
    · exact hexp l stage topic frames hl hsave
  · rw [hdir, hpassed]
    rcases htable with hnone | ⟨old, hmem, hread⟩
    · exact .inl hnone
    · exact .inr ⟨old, List.mem_append_left _ hmem, hread⟩
  · intro topic
    rw [hdir, hexported]
    exact hframes topic
  · intro stamp table' hs ht
    rw [hsaved] at hs
    rw [htaken, List.getElem?_append_left (by omega)] at ht
    rw [hdir]
    exact hdisk stamp table' hs ht
  · rw [hsaved, htaken, List.length_append]
    omega
  · intro stamp hs hlt
    rw [hsaved] at hs
    rw [htaken, List.length_append, List.length_singleton] at hlt
    rcases Nat.lt_succ_iff_lt_or_eq.mp hlt with hlt | rfl
    · obtain ⟨l, table', phase, save', hl⟩ := hheld stamp hs hlt
      refine ⟨l, table', phase, save', ?_⟩
      rw [hstages, if_neg]
      · exact hl
      · rintro rfl
        rw [hk] at hl
        cases hl
    · exact ⟨k, table, .create, save, by rw [hstages, if_pos rfl]⟩

/-- The temporary file of a table is made, or written. -/
theorem table_next (h : Saves s) {k stamp : Nat} {table : List PersistedDrop} {phase next : Phase}
    {save : Option (TopicId × List Bytes)}
    (hk : s.stage_at k = some (.saving_table stamp table phase save))
    (hfree : phase = .create → s.Free k DropStore.table_path)
    (hnext : (DropStore.save_table table s.dir phase).2 = some next)
    (hstages : ∀ l, s'.stage_at l =
      if l = k then some (.saving_table stamp table next save) else s.stage_at l)
    (hdir : s'.dir = (DropStore.save_table table s.dir phase).1) (hpassed : s'.passed = s.passed)
    (htaken : s'.taken = s.taken) (hsaved : s'.saved = s.saved)
    (hexported : s'.exported = s.exported) : Saves s' := by
  have hread : ∀ file, (∀ other : DataFile, file ≠ other.with_extension .tmp) →
      s'.dir.read file = s.dir.read file := by
    intro file hfile
    rw [hdir]
    exact (h.read_step hk rfl hfile).trans (if_neg fun hren => DropStore.goes_on hnext hren.1)
  have htidy : Tidy (DataFile.with_extension · .tmp) s'.writers s'.dir :=
    h.tidy_step hk rfl hfree hstages hdir (by
    intro n bytes phase' hn
    cases hn
    exact .inr ⟨rfl, rfl, hnext⟩)
  obtain ⟨-, hgiven, hexp, htable, hframes, hdisk, hpast, hheld⟩ := h
  refine ⟨htidy, ?_, ?_, ?_, ?_, ?_, ?_, ?_⟩
  · intro l stamp' table' phase' save' hl
    rw [hpassed, htaken]
    rw [hstages] at hl
    split at hl
    · cases hl
      exact hgiven k stamp table phase save hk
    · exact hgiven l stamp' table' phase' save' hl
  · intro l stage topic frames hl hsave
    rw [hexported]
    rw [hstages] at hl
    split at hl
    · cases hl
      exact hexp k _ topic frames hk hsave
    · exact hexp l stage topic frames hl hsave
  · rw [hread _ DropStore.table_plain, hpassed]
    exact htable
  · intro topic
    rw [hread _ (DropStore.frames_plain topic), hexported]
    exact hframes topic
  · intro stamp' table' hs ht
    rw [hsaved] at hs
    rw [htaken] at ht
    rw [hread _ DropStore.table_plain]
    exact hdisk stamp' table' hs ht
  · rw [hsaved, htaken]
    exact hpast
  · intro stamp' hs hlt
    rw [hsaved] at hs
    rw [htaken] at hlt
    obtain ⟨l, table', phase', save', hl⟩ := hheld stamp' hs hlt
    by_cases hlk : l = k
    · subst hlk
      rw [hk] at hl
      cases hl
      exact ⟨l, table, next, save, by rw [hstages, if_pos rfl]⟩
    · exact ⟨l, table', phase', save', by rw [hstages, if_neg hlk, hl]⟩

/-- A table is renamed over an older one. -/
theorem table_done (h : Saves s) {k stamp : Nat} {table : List PersistedDrop} {phase : Phase}
    {save : Option (TopicId × List Bytes)}
    (hk : s.stage_at k = some (.saving_table stamp table phase save)) (horder : s.saved ≤ stamp)
    (hdone : (DropStore.save_table table s.dir phase).2 = none)
    (hstages : ∀ l, s'.stage_at l = if l = k then some (.after_table save) else s.stage_at l)
    (hdir : s'.dir = (DropStore.save_table table s.dir phase).1) (hpassed : s'.passed = s.passed)
    (htaken : s'.taken = s.taken) (hsaved : s'.saved = stamp + 1)
    (hexported : s'.exported = s.exported) : Saves s' := by
  have hphase := DropStore.done hdone
  have hread : s'.dir.read DropStore.table_path = some (TableJson.to_vec_pretty table) := by
    rw [hdir]
    exact (h.read_step hk rfl DropStore.table_plain).trans (if_pos ⟨hphase, rfl⟩)
  have hframes_read : ∀ topic, s'.dir.read (DropStore.frames_path topic) =
      s.dir.read (DropStore.frames_path topic) := by
    intro topic
    rw [hdir]
    exact (h.read_step hk rfl (DropStore.frames_plain topic)).trans
      (if_neg fun hren => DropStore.table_ne_frames topic hren.2.symm)
  have htidy : Tidy (DataFile.with_extension · .tmp) s'.writers s'.dir :=
    h.tidy_step hk rfl (fun hcreate => by rw [hphase] at hcreate; cases hcreate) hstages hdir (fun _ _ _ hn => .inl (Stage.write_after_table hn))
  obtain ⟨-, hgiven, hexp, -, hframes, -, hpast, hheld⟩ := h
  obtain ⟨hmem, hget⟩ := hgiven k stamp table phase save hk
  refine ⟨htidy, ?_, ?_, ?_, ?_, ?_, ?_, ?_⟩
  · intro l stamp' table' phase' save' hl
    rw [hpassed, htaken]
    rw [hstages] at hl
    split at hl
    · rcases save with _ | save <;> cases hl
    · exact hgiven l stamp' table' phase' save' hl
  · intro l stage topic frames hl hsave
    rw [hexported]
    rw [hstages] at hl
    split at hl
    · cases hl
      rw [Stage.save_after_table] at hsave
      exact hexp k _ topic frames hk hsave
    · exact hexp l stage topic frames hl hsave
  · rw [hpassed]
    exact .inr ⟨table, hmem, hread⟩
  · intro topic
    rw [hframes_read, hexported]
    exact hframes topic
  · intro stamp' table' hs ht
    rw [hsaved] at hs
    rw [htaken, ← Nat.succ.inj hs, hget] at ht
    cases ht
    exact hread
  · rw [hsaved, htaken]
    exact (List.getElem?_eq_some_iff.mp hget).1
  · intro stamp' hs hlt
    rw [hsaved] at hs
    rw [htaken] at hlt
    obtain ⟨l, table', phase', save', hl⟩ := hheld stamp' (by omega) hlt
    refine ⟨l, table', phase', save', ?_⟩
    rw [hstages, if_neg]
    · exact hl
    · rintro rfl
      rw [hk] at hl
      cases hl
      omega

/-- A step with the frames of a drop. -/
theorem frames_step (h : Saves s) {k : Nat} {topic : TopicId} {frames : List Bytes} {phase : Phase}
    (hk : s.stage_at k = some (.saving_frames topic frames phase))
    (hfree : phase = .create → s.Free k (DropStore.frames_path topic)) {new : Stage}
    (hnew : (∃ next, (DropStore.save_frames topic frames s.dir phase).2 = some next ∧
      new = .saving_frames topic frames next) ∨ new = .ending)
    (hstages : ∀ l, s'.stage_at l = if l = k then some new else s.stage_at l)
    (hdir : s'.dir = (DropStore.save_frames topic frames s.dir phase).1)
    (hpassed : s'.passed = s.passed) (htaken : s'.taken = s.taken) (hsaved : s'.saved = s.saved)
    (hexported : s'.exported = s.exported) : Saves s' := by
  have hread : s'.dir.read DropStore.table_path = s.dir.read DropStore.table_path := by
    rw [hdir]
    exact (h.read_step hk rfl DropStore.table_plain).trans (if_neg fun hren => DropStore.table_ne_frames topic hren.2)
  have htidy : Tidy (DataFile.with_extension · .tmp) s'.writers s'.dir :=
    h.tidy_step hk rfl hfree hstages hdir (by
    intro n bytes phase' hn
    rcases hnew with ⟨next, hnext, rfl⟩ | rfl
    · cases hn
      exact .inr ⟨rfl, rfl, hnext⟩
    · cases hn)
  have hframes_read : ∀ other, s'.dir.read (DropStore.frames_path other) =
      if phase = .rename ∧ DropStore.frames_path other = DropStore.frames_path topic then
        some (DropStore.frames_codec.write frames)
      else s.dir.read (DropStore.frames_path other) := by
    intro other
    rw [hdir]
    exact h.read_step hk rfl (DropStore.frames_plain other)
  obtain ⟨-, hgiven, hexp, htable, hframes, hdisk, hpast, hheld⟩ := h
  refine ⟨htidy, ?_, ?_, ?_, ?_, ?_, ?_, ?_⟩
  · intro l stamp table phase' save hl
    rw [hpassed, htaken]
    rw [hstages] at hl
    split at hl
    · rcases hnew with ⟨next, -, rfl⟩ | rfl <;> cases hl
    · exact hgiven l stamp table phase' save hl
  · intro l stage topic' frames' hl hsave
    rw [hexported]
    rw [hstages] at hl
    split at hl
    · cases hl
      rcases hnew with ⟨next, -, rfl⟩ | rfl
      · exact hexp k _ topic' frames' hk hsave
      · cases hsave
    · exact hexp l stage topic' frames' hl hsave
  · rw [hread, hpassed]
    exact htable
  · intro other
    rw [hframes_read, hexported]
    split
    · rename_i hren
      rw [DropStore.frames_inj hren.2]
      exact .inr ⟨frames, hexp k _ topic frames hk rfl, rfl⟩
    · exact hframes other
  · intro stamp table hs ht
    rw [hsaved] at hs
    rw [htaken] at ht
    rw [hread]
    exact hdisk stamp table hs ht
  · rw [hsaved, htaken]
    exact hpast
  · intro stamp hs hlt
    rw [hsaved] at hs
    rw [htaken] at hlt
    obtain ⟨l, table, phase', save, hl⟩ := hheld stamp hs hlt
    refine ⟨l, table, phase', save, ?_⟩
    rw [hstages, if_neg]
    · exact hl
    · rintro rfl
      rw [hk] at hl
      cases hl

variable [Urls] {self_addr : EndpointAddr}

/-- An orderly step of a job keeps the invariant. -/
theorem worked (h : Saves s) {k : Nat} (hok : s.Orderly (.job k)) (hw : Worked self_addr s k s') :
    Saves s' := by
  have hat : ∀ {job : Job} {stage : Stage}, s.jobs[k]? = some job → job.stage = stage →
      s.stage_at k = some stage := by
    intro job stage hk hstage
    unfold stage_at
    rw [hk, Option.map_some, hstage]
  cases hw with
  | idle => exact h
  | waited hk stage purpose =>
    exact h.goto (hat hk stage) rfl rfl (stage_at_set hk _) rfl rfl rfl rfl (List.Subset.refl _)
      (fun _ _ hsave => nomatch hsave)
  | @removed _ topic hk stage =>
    have hk' : ({ s with dir := DropStore.remove_drop s.dir topic } : Daemon).stage_at k =
        some (.removing topic) := hat hk stage
    exact (h.remove topic).goto hk' rfl rfl (stage_at_set hk _) rfl rfl rfl rfl
      (List.Subset.refl _) (fun _ _ hsave => nomatch hsave)
  | unlisted hk stage session =>
    exact h.goto (hat hk stage) rfl rfl (stage_at_set hk _) rfl rfl rfl rfl (List.Subset.refl _)
      (fun _ _ hsave => nomatch hsave)
  | checked hk stage session origin =>
    exact h.goto (hat hk stage) rfl rfl (stage_at_set hk _) rfl rfl rfl rfl (List.Subset.refl _)
      (fun _ _ hsave => nomatch hsave)
  | exports frames hk stage =>
    refine h.goto (hat hk stage) rfl rfl (stage_at_set hk _) rfl rfl rfl rfl
      (List.subset_append_left _ _) ?_
    intro topic frames hsave
    cases hsave
    exact List.mem_append_right _ (List.mem_singleton_self _)
  | lists hk stage =>
    exact h.lists (hat hk stage) _ (stage_at_set hk _) rfl rfl rfl rfl rfl
  | table_next hk stage goes_on =>
    refine h.table_next (hat hk stage) ?_ goes_on (stage_at_set hk _) rfl rfl rfl rfl rfl
    rintro rfl
    exact hok.1 _ (by rw [hat hk stage]; rfl)
  | table_done hk stage done =>
    refine h.table_done (hat hk stage) ?_ done (stage_at_set hk _) rfl rfl rfl rfl rfl
    rw [DropStore.done done] at stage
    exact hok.2 _ (by rw [hat hk stage]; rfl)
  | frames_next hk stage goes_on =>
    refine h.frames_step (hat hk stage) ?_ (.inl ⟨_, goes_on, rfl⟩) (stage_at_set hk _) rfl rfl rfl
      rfl rfl
    rintro rfl
    exact hok.1 _ (by rw [hat hk stage]; rfl)
  | frames_done hk stage done =>
    refine h.frames_step (hat hk stage) ?_ (.inr rfl) (stage_at_set hk _) rfl rfl rfl rfl rfl
    rintro rfl
    exact hok.1 _ (by rw [hat hk stage]; rfl)
  | ended hk stage =>
    exact h.goto (hat hk stage) rfl rfl (stage_at_set hk _) rfl rfl rfl rfl (List.Subset.refl _)
      (fun _ _ hsave => nomatch hsave)
  | answered hk stage purpose drop =>
    exact h.goto (hat hk stage) rfl rfl (stage_at_set hk _) rfl rfl rfl rfl (List.Subset.refl _)
      (fun _ _ hsave => nomatch hsave)
  | left hk stage purpose =>
    exact h.goto (hat hk stage) rfl rfl (stage_at_set hk _) rfl rfl rfl rfl (List.Subset.refl _)
      (fun _ _ hsave => nomatch hsave)
  | drained hk stage purpose =>
    exact h.goto (hat hk stage) rfl rfl (stage_at_set hk _) rfl rfl rfl rfl (List.Subset.refl _)
      (fun _ _ hsave => nomatch hsave)
  | next hk stage purpose =>
    exact h.goto (hat hk stage) rfl rfl (stage_at_set hk _) rfl rfl rfl rfl (List.Subset.refl _)
      (fun _ _ hsave => nomatch hsave)

omit [Urls] in
/-- A crash leaves the files as they are. -/
theorem restart (h : Saves s) : Saves s.restart where
  tidy := ⟨fun _ _ _ _ hk => (nomatch hk), fun _ _ _ _ _ _ _ _ hk => (nomatch hk)⟩
  given _ _ _ _ _ hk := nomatch hk
  exported _ _ _ _ hk := nomatch hk
  table := h.table
  frames := h.frames
  on_disk _ _ hsaved := nomatch hsaved
  past := Nat.le_refl 0
  held _ _ hlt := absurd hlt (Nat.not_lt_zero _)

theorem step (h : Saves s) {op : DaemonOp} (hok : s.Orderly op) : Saves (s.step self_addr op) := by
  by_cases hjob : ∃ k, op = .job k
  · obtain ⟨k, rfl⟩ := hjob
    exact h.worked hok (Daemon.worked self_addr s k)
  · by_cases hrestart : op = .restart
    · subst hrestart
      exact h.restart
    · exact h.in_memory (.step self_addr s (fun k heq => hjob ⟨k, heq⟩) hrestart)

end Saves

end Daemon

/-- In a run whose jobs are orderly, every file is whole at every moment, and
with no job at work the table on disk is the last one that was taken. -/
theorem orderly_saves_stay_whole [Urls] (self_addr : EndpointAddr) (secret : SecretKey)
    (policy : DropPolicy) {ops : List DaemonOp}
    (h : runs.Meets (Daemon.step self_addr) Daemon.Orderly (.start secret policy) ops) :
    ∀ ops', ops' <+: ops → ((Daemon.start secret policy).run self_addr ops').FilesWhole := by
  rintro ops' ⟨rest, rfl⟩
  have hmeets := ((runs.meets_append _ ops' rest).mp h).1
  have hsaves : Daemon.Saves ((Daemon.start secret policy).run self_addr ops') :=
    runs.invariant_of_meets (fun _ _ hs hok => hs.step hok) (Daemon.Saves.of_start secret policy)
      hmeets
  exact hsaves.whole

end Laws

/-! ## Two drops that are created at once -/

namespace two_creates

local instance : Crypto := Crypto.clear

local instance : Urls := Urls.verbatim

local instance : TableJson := TableJson.pretty

def self_addr : EndpointAddr := .of_id (SecretKey.public ⟨.fill 32 1⟩)

def options : CreateOptions :=
  { «private» := false, auto_fetch_recommended := false, display_name := none }

/-- A drop is created, up to the persist that the request waits for. -/
def create (n : UInt8) : List DaemonOp :=
  [.act (.drop_create options ⟨.fill 32 n⟩ ⟨.fill 32 0⟩),
   .act (.connected 0 (.ok ()) (fun _ => .NotFound)), .act (.settle 0)]

def daemon (ops : List DaemonOp) : Daemon := (Daemon.start ⟨.fill 32 1⟩ {}).run self_addr ops

/-- One request after the other. -/
def in_turn : List DaemonOp :=
  .restore :: (create 1 ++ List.replicate 10 (.job 0) ++ create 2 ++ List.replicate 10 (.job 1))

theorem in_turn_orderly :
    runs.Meets (Daemon.step self_addr) Daemon.Orderly (.start ⟨.fill 32 1⟩ {}) in_turn := by
  rw [show instTableJson = TableJson.ascii from TableJson.ascii_eq]
  decide +kernel

/-- The law at work on two drops that are created in turn. -/
theorem orderly_saves_stay_whole_in_turn : (daemon in_turn).FilesWhole :=
  orderly_saves_stay_whole self_addr ⟨.fill 32 1⟩ {} in_turn_orderly in_turn (List.prefix_refl _)

/-- The first request has written its temporary file when the second one makes
that file anew. -/
def torn : List DaemonOp :=
  .restore :: (create 1 ++ create 2 ++ List.replicate 5 (.job 0) ++ List.replicate 4 (.job 1) ++
    [.job 0])

/-- The first request takes its table before the second one, and saves it after. -/
def stale : List DaemonOp :=
  .restore :: (create 1 ++ List.replicate 3 (.job 0) ++ create 2 ++ List.replicate 10 (.job 1) ++
    List.replicate 7 (.job 0))

/-- The table is cut to nothing, or the drop that was created last is not in
it when all is done. -/
theorem a_table_is_torn_or_stale :
    (daemon torn).dir.read DropStore.table_path = some [] ∧
      ((daemon stale).taken.map (·.map (·.handle)) = [["d1"], ["d2", "d1"]] ∧
        (daemon stale).dir.read DropStore.table_path =
          (daemon stale).taken[0]?.map TableJson.to_vec_pretty) ∧
      ¬ ∀ [Crypto] [Urls] [TableJson], TableJson.ReadsBack →
        ∀ (self_addr : EndpointAddr) (secret : SecretKey) (policy : DropPolicy)
          (ops : List DaemonOp), ((Daemon.start secret policy).run self_addr ops).FilesWhole := by
  have htorn : (daemon torn).dir.read DropStore.table_path = some [] := by decide +kernel
  have hstale : (daemon stale).taken.map (·.map (·.handle)) = [["d1"], ["d2", "d1"]] ∧
      (daemon stale).dir.read DropStore.table_path =
        (daemon stale).taken[0]?.map TableJson.to_vec_pretty := by
    unfold daemon
    rw [show instTableJson = TableJson.ascii from TableJson.ascii_eq]
    decide +kernel
  refine ⟨htorn, hstale, ?_⟩
  intro hall
  have hwhole : (daemon torn).FilesWhole :=
    hall TableJson.pretty_reads_back self_addr ⟨.fill 32 1⟩ {} torn
  rcases hwhole.table with hnone | ⟨table, -, hread⟩
  · rw [htorn] at hnone
    cases hnone
  · rw [htorn] at hread
    have hempty := TableJson.pretty_reads_back table
    rw [← Option.some.inj hread] at hempty
    cases hempty

end two_creates

end iroh_drop
