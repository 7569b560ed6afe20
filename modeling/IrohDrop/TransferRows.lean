-- The transfers that the window shows: `apply_event` of the bridge (bridge.rs), and
-- the law of its rows.
import IrohDrop.Control
import IrohDrop.EventBus

open rust_std

namespace iroh_drop

/-! ## Values -/

namespace Value

def as_array : Value → Option (List Value)
  | .array items => some items
  | _ => none

/-- `str_of`: a text that is not there is empty. -/
def str_of (self : Value) (key : String) : String := ((self.get key).bind as_str).getD ""

end Value

/-! ## The window -/

/-- One thing being sent or received. -/
structure Transfer where
  drop : String
  name : String
  done : UInt64
  total : Option UInt64
  finished : Bool
  failed : Option String
  saved_to : List String
deriving DecidableEq

/-- What the events change of the state of the window. -/
structure UiState where
  transfers : List Transfer
  log : List String

/-- The window, with the names and the drops of the hashes that it heard of. -/
structure Bridge where
  state : UiState
  names : HashMap String String
  drops_of : HashMap String String

namespace UiState

def note (self : UiState) (line : String) : UiState :=
  let log := self.log ++ [line]
  { self with log := if log.length > 200 then log.tail else log }

/-- The first row of a name that is not finished. -/
def open_row (self : UiState) (name : String) : Option Nat :=
  self.transfers.findIdx? (fun t => decide (t.name = name) && !t.finished)

def change (self : UiState) (k : Nat) (f : Transfer → Transfer) : UiState :=
  { self with transfers := self.transfers.modify k f }

def push (self : UiState) (row : Transfer) : UiState :=
  { self with transfers := self.transfers ++ [row] }

end UiState

namespace Bridge

def new : Bridge := { state := { transfers := [], log := [] }, names := ∅, drops_of := ∅ }

/-- The name that a hash goes by. -/
def label (self : Bridge) (hash : String) : String := (self.names.lookup hash).getD "file"

def drop_of (self : Bridge) (hash : String) : String := (self.drops_of.lookup hash).getD ""

def fetch_progress (self : Bridge) (hash : String) (p : Value) : UiState :=
  let name := self.label hash
  let done := ((p.get "downloaded").bind Value.as_u64).getD 0
  let total := (p.get "total").bind Value.as_u64
  match self.state.open_row name with
  | some k => self.state.change k fun row => { row with done, total }
  | none => self.state.push
      { drop := self.drop_of hash, name, done, total, finished := false, failed := none
        saved_to := [] }

def fetch_materialized (self : Bridge) (hash : String) (p : Value) : UiState :=
  let paths := (((p.get "paths").bind Value.as_array).getD []).filterMap Value.as_str
  let name := self.label hash
  let state := match self.state.open_row name with
    | some k => self.state.change k fun row => { row with finished := true, saved_to := paths }
    | none => self.state.push
        { drop := self.drop_of hash, name, done := 0, total := none, finished := true
          failed := none, saved_to := paths }
  state.note "Saved."

def fetch_failed (self : Bridge) (hash : String) (p : Value) : UiState :=
  let name := self.label hash
  let error := p.str_of "error"
  match self.state.open_row name with
  | some k => self.state.change k fun row => { row with finished := true, failed := some error }
  | none => self.state.note s!"Could not get {name}: {error}"

/-- An event that names a hash and a drop tells where the hash is. -/
def learn_drop (self : Bridge) (hash drop : String) : Bridge :=
  if hash ≠ "" ∧ drop ≠ "" then { self with drops_of := self.drops_of.insert hash drop } else self

def apply_event (self : Bridge) (env : Envelope) : Bridge :=
  let hash := env.p.str_of "hash"
  let self := self.learn_drop hash (env.p.str_of "drop")
  match env.e with
  | "offer.received" => { self with names := self.names.insert hash (env.p.str_of "name") }
  | "fetch.progress" => { self with state := self.fetch_progress hash env.p }
  | "fetch.materialized" => { self with state := self.fetch_materialized hash env.p }
  | "fetch.failed" => { self with state := self.fetch_failed hash env.p }
  | "offer.declined" => { self with state := self.state.note "Declined an offer." }
  | "peer.joined" => { self with state := self.state.note "Someone connected." }
  | _ => self

end Bridge

/-! ## Fetches and their events -/

/-- An event, and which fetch it is one of: a member of a collection is fetched
by the fetch of the collection. -/
structure TransferEvent where
  fetch : Nat
  env : Envelope

namespace TransferEvent

def hash (self : TransferEvent) : String := self.env.p.str_of "hash"

def drop (self : TransferEvent) : String := self.env.p.str_of "drop"

def is_progress (self : TransferEvent) : Bool := decide (self.env.e = "fetch.progress")

/-- The fetch has ended. -/
def is_end (self : TransferEvent) : Bool :=
  decide (self.env.e = "fetch.materialized" ∨ self.env.e = "fetch.failed")

end TransferEvent

/-- The window, and for the laws the event that each row was created by. -/
structure Window where
  bridge : Bridge
  origins : List TransferEvent

namespace Window

def new : Window := { bridge := .new, origins := [] }

/-- The rows. -/
def rows (self : Window) : List Transfer := self.bridge.state.transfers

def step (self : Window) (event : TransferEvent) : Window :=
  let bridge := self.bridge.apply_event event.env
  { bridge
    origins := self.origins ++
      List.replicate (bridge.state.transfers.length - self.rows.length) event }

def run (self : Window) (events : List TransferEvent) : Window := runs.run step self events

/-! ## What is promised -/

/-- The row of an event: it came from an event about the same hash, and about
the same drop if this one names a drop. -/
def Owns (event origin : TransferEvent) : Prop :=
  origin.hash = event.hash ∧ (event.drop ≠ "" → origin.drop = event.drop)

/-- A row that an event changes is its own. -/
def ChangesOwn (s : Window) (event : TransferEvent) : Prop :=
  ∀ (k : Nat) row row', s.rows[k]? = some row → (s.step event).rows[k]? = some row' → row' ≠ row →
    ∃ origin, s.origins[k]? = some origin ∧ Owns event origin

/-- Each fetch that went on has come to its end since. -/
def AllEnded (events : List TransferEvent) : Prop :=
  ∀ past event rest, events = past ++ event :: rest → event.is_progress = true →
    ∃ e ∈ rest, e.is_end = true ∧ e.fetch = event.fetch

theorem allEnded_nil : AllEnded [] := by
  intro past event rest h
  cases past <;> cases h

theorem allEnded_cons {event : TransferEvent} {events : List TransferEvent} :
    AllEnded (event :: events) ↔ (event.is_progress = true →
      ∃ e ∈ events, e.is_end = true ∧ e.fetch = event.fetch) ∧ AllEnded events := by
  constructor
  · intro h
    exact ⟨h [] event events rfl, fun past other rest heq => h (event :: past) other rest (heq ▸ rfl)⟩
  · rintro ⟨hfirst, hrest⟩ past other rest heq
    cases past with
    | nil =>
      obtain ⟨rfl, rfl⟩ := List.cons.inj heq
      exact hfirst
    | cons first past =>
      obtain ⟨rfl, rfl⟩ := List.cons.inj heq
      exact hrest past other rest rfl

/-- Each row shows its own transfer: no event changes the row of another one,
and once all fetches have ended all rows are finished. -/
structure ShowsOwn (events : List TransferEvent) : Prop where
  own : ∀ past event rest, events = past ++ event :: rest → (new.run past).ChangesOwn event
  closed : ∀ past, past <+: events → AllEnded past →
    ∀ row ∈ (new.run past).rows, row.finished = true

/-- The name that the event goes by. -/
def label (s : Window) (event : TransferEvent) : String := s.bridge.label event.hash

/-- The rows that are not finished, with their origins. -/
def open_rows (s : Window) : List (Transfer × TransferEvent) :=
  (s.rows.zip s.origins).filter (fun r => !r.1.finished)

/-- No unfinished row of another hash or drop has the name that a fetch event
goes by, and the rows that a fetch has created have the name that its end goes
by. -/
def Tidy (s : Window) (event : TransferEvent) : Prop :=
  event.is_progress = true ∨ event.is_end = true → ∀ r ∈ s.open_rows,
    (r.1.name = s.label event → r.2.hash = event.hash ∧
      (event.drop = "" ∨ r.2.drop = event.drop)) ∧
    (event.is_end = true → r.2.fetch = event.fetch → r.1.name = s.label event)

instance (s : Window) (event : TransferEvent) : Decidable (s.Tidy event) := by
  unfold Tidy; infer_instance

/-! ## What one event does -/

variable {s : Window} {event : TransferEvent}

/-- What an event does to the rows: nothing, or it changes the unfinished row of
its name, or it puts a row there when its name has none. -/
inductive Effect (s : Window) (event : TransferEvent) : Window → Prop
  | same {s' : Window} (hrows : s'.rows = s.rows) (horigins : s'.origins = s.origins)
      (hclosed : event.is_end = true → ∀ row ∈ s.rows, row.name = s.label event →
        row.finished = true) : Effect s event s'
  | changed {s' : Window} (k : Nat) {row row' : Transfer} (hrow : s.rows[k]? = some row)
      (hname : row.name = s.label event) (hopen : row.finished = false)
      (hrows : s'.rows = s.rows.set k row') (horigins : s'.origins = s.origins)
      (hname' : row'.name = row.name) (hfinished : row'.finished = event.is_end)
      (hkind : event.is_progress = true ∨ event.is_end = true) : Effect s event s'
  | pushed {s' : Window} {row : Transfer} (hrows : s'.rows = s.rows ++ [row])
      (horigins : s'.origins = s.origins ++ [event]) (hname : row.name = s.label event)
      (hnone : ∀ row ∈ s.rows, row.name = s.label event → row.finished = true)
      (hfinished : row.finished = event.is_end)
      (hkind : event.is_progress = true ∨ event.is_end = true) : Effect s event s'

end Window

namespace UiState

theorem open_row_some {state : UiState} {name : String} {k : Nat}
    (h : state.open_row name = some k) :
    ∃ row, state.transfers[k]? = some row ∧ row.name = name ∧ row.finished = false := by
  obtain ⟨hlt, hrow, -⟩ := List.findIdx?_eq_some_iff_getElem.mp h
  refine ⟨state.transfers[k], List.getElem?_eq_getElem hlt, ?_⟩
  simpa using hrow

theorem open_row_unfinished {state : UiState} {name : String} {k : Nat} {row : Transfer}
    (h : state.open_row name = some k) (hrow : state.transfers[k]? = some row) :
    row.finished = false := by
  obtain ⟨other, hother, -, hopen⟩ := open_row_some h
  rw [hrow] at hother
  rwa [Option.some.inj hother]

theorem open_row_none {state : UiState} {name : String} (h : state.open_row name = none) :
    ∀ row ∈ state.transfers, row.name = name → row.finished = true := by
  intro row hmem hname
  have hrow := List.findIdx?_eq_none_iff.mp h row hmem
  rw [decide_eq_true hname] at hrow
  simpa using hrow

theorem change_transfers {state : UiState} {k : Nat} {row : Transfer}
    (h : state.transfers[k]? = some row) (f : Transfer → Transfer) :
    (state.change k f).transfers = state.transfers.set k (f row) := by
  change state.transfers.modify k f = _
  rw [List.modify_eq_set_getElem?, h]
  rfl

end UiState

namespace Window

variable {s : Window} {event : TransferEvent}

@[simp] theorem learn_drop_state (self : Bridge) (hash drop : String) :
    (self.learn_drop hash drop).state = self.state := by
  unfold Bridge.learn_drop
  split <;> rfl

@[simp] theorem learn_drop_label (self : Bridge) (hash drop hash' : String) :
    (self.learn_drop hash drop).label hash' = self.label hash' := by
  unfold Bridge.learn_drop
  split <;> rfl

/-- The origins after an event that changes a row. -/
theorem origins_step (hrows : (s.step event).rows.length = s.rows.length) :
    (s.step event).origins = s.origins := by
  change s.origins ++ List.replicate ((s.step event).rows.length - s.rows.length) event = _
  rw [hrows, Nat.sub_self, List.replicate_zero, List.append_nil]

theorem origins_push (hrows : (s.step event).rows.length = s.rows.length + 1) :
    (s.step event).origins = s.origins ++ [event] := by
  change s.origins ++ List.replicate ((s.step event).rows.length - s.rows.length) event = _
  rw [hrows, Nat.add_sub_cancel_left, List.replicate_one]

/-- An event that finds the row of its name changes it, and one that finds none
may put one there. -/
theorem effect_of_found {rows : List Transfer} (hkind : event.is_progress = true ∨ event.is_end = true)
    (hstep : (s.step event).rows = rows)
    (hfound : ∀ k row, s.bridge.state.open_row (s.label event) = some k →
      s.rows[k]? = some row → ∃ row', rows = s.rows.set k row' ∧ row'.name = row.name ∧
        row'.finished = event.is_end)
    (hmissing : s.bridge.state.open_row (s.label event) = none →
      rows = s.rows ∨ ∃ row, rows = s.rows ++ [row] ∧ row.name = s.label event ∧
        row.finished = event.is_end) : Effect s event (s.step event) := by
  rcases hrow : s.bridge.state.open_row (s.label event) with _ | k
  · have hnone := UiState.open_row_none hrow
    rcases hmissing hrow with hsame | ⟨row, hpush, hname, hfinished⟩
    · rw [hsame] at hstep
      exact .same hstep (origins_step (by rw [hstep])) fun _ => hnone
    · rw [hpush] at hstep
      exact .pushed hstep (origins_push (by rw [hstep, List.length_append]; rfl)) hname hnone
        hfinished hkind
  · obtain ⟨row, hk, hname, hopen⟩ := UiState.open_row_some hrow
    obtain ⟨row', hset, hname', hfinished⟩ := hfound k row hrow hk
    rw [hset] at hstep
    exact .changed k hk hname hopen hstep (origins_step (by rw [hstep, List.length_set])) hname'
      hfinished hkind

theorem effect_progress (he : event.env.e = "fetch.progress") :
    Effect s event (s.step event) := by
  have hend : event.is_end = false := by simp [TransferEvent.is_end, he]
  have hstep : (s.step event).rows =
      ((s.bridge.learn_drop event.hash event.drop).fetch_progress event.hash
        event.env.p).transfers := by
    change (s.bridge.apply_event event.env).state.transfers = _
    unfold Bridge.apply_event
    rw [he]
    rfl
  refine effect_of_found (.inl (by simp [TransferEvent.is_progress, he])) hstep
    (fun k row hopen hrow => ?_) fun hopen => ?_
  · have hopen' : s.bridge.state.open_row (s.bridge.label event.hash) = some k := hopen
    simp only [Bridge.fetch_progress, learn_drop_label, learn_drop_state, hopen']
    exact ⟨_, UiState.change_transfers hrow _, rfl, (UiState.open_row_unfinished hopen hrow).trans
      hend.symm⟩
  · have hopen' : s.bridge.state.open_row (s.bridge.label event.hash) = none := hopen
    simp only [Bridge.fetch_progress, learn_drop_label, learn_drop_state, hopen']
    exact .inr ⟨_, rfl, rfl, hend.symm⟩

theorem effect_materialized (he : event.env.e = "fetch.materialized") :
    Effect s event (s.step event) := by
  have hend : event.is_end = true := by simp [TransferEvent.is_end, he]
  have hstep : (s.step event).rows =
      ((s.bridge.learn_drop event.hash event.drop).fetch_materialized event.hash
        event.env.p).transfers := by
    change (s.bridge.apply_event event.env).state.transfers = _
    unfold Bridge.apply_event
    rw [he]
    rfl
  refine effect_of_found (.inr hend) hstep (fun k row hopen hrow => ?_) fun hopen => ?_
  · have hopen' : s.bridge.state.open_row (s.bridge.label event.hash) = some k := hopen
    simp only [Bridge.fetch_materialized, learn_drop_label, learn_drop_state, hopen']
    exact ⟨_, UiState.change_transfers hrow _, rfl, hend.symm⟩
  · have hopen' : s.bridge.state.open_row (s.bridge.label event.hash) = none := hopen
    simp only [Bridge.fetch_materialized, learn_drop_label, learn_drop_state, hopen']
    exact .inr ⟨_, rfl, rfl, hend.symm⟩

theorem effect_failed (he : event.env.e = "fetch.failed") : Effect s event (s.step event) := by
  have hend : event.is_end = true := by simp [TransferEvent.is_end, he]
  have hstep : (s.step event).rows =
      ((s.bridge.learn_drop event.hash event.drop).fetch_failed event.hash
        event.env.p).transfers := by
    change (s.bridge.apply_event event.env).state.transfers = _
    unfold Bridge.apply_event
    rw [he]
    rfl
  refine effect_of_found (.inr hend) hstep (fun k row hopen hrow => ?_) fun hopen => .inl ?_
  · have hopen' : s.bridge.state.open_row (s.bridge.label event.hash) = some k := hopen
    simp only [Bridge.fetch_failed, learn_drop_label, learn_drop_state, hopen']
    exact ⟨_, UiState.change_transfers hrow _, rfl, hend.symm⟩
  · have hopen' : s.bridge.state.open_row (s.bridge.label event.hash) = none := hopen
    simp only [Bridge.fetch_failed, learn_drop_label, learn_drop_state, hopen']
    rfl

theorem effect_step (s : Window) (event : TransferEvent) : Effect s event (s.step event) := by
  by_cases hprogress : event.env.e = "fetch.progress"
  · exact effect_progress hprogress
  by_cases hmaterialized : event.env.e = "fetch.materialized"
  · exact effect_materialized hmaterialized
  by_cases hfailed : event.env.e = "fetch.failed"
  · exact effect_failed hfailed
  -- Any other event leaves the rows alone.
  have hrows : (s.step event).rows = s.rows := by
    change (s.bridge.apply_event event.env).state.transfers = s.bridge.state.transfers
    have hlearned : (s.bridge.learn_drop event.hash event.drop).state.transfers =
        s.bridge.state.transfers := by rw [learn_drop_state]
    unfold Bridge.apply_event
    dsimp only
    split
    · exact hlearned
    · exact absurd ‹_› hprogress
    · exact absurd ‹_› hmaterialized
    · exact absurd ‹_› hfailed
    · exact hlearned
    · exact hlearned
    · exact hlearned
  refine .same hrows (origins_step (by rw [hrows])) fun hend => ?_
  simp [TransferEvent.is_end, hmaterialized, hfailed] at hend

/-! ## Rows and their fetches -/

/-- The rows of a run, and their origins. -/
structure Placed (past : List TransferEvent) (s : Window) : Prop where
  length : s.origins.length = s.rows.length
  /-- No two unfinished rows have one name. -/
  single : ∀ (k j : Nat) row other, s.rows[k]? = some row → s.rows[j]? = some other →
    row.finished = false → other.finished = false → row.name = other.name → k = j
  /-- The fetch of an unfinished row went on, and has not ended since. -/
  going : ∀ (k : Nat) row origin, s.rows[k]? = some row → s.origins[k]? = some origin →
    row.finished = false → ∃ before after, past = before ++ origin :: after ∧
      origin.is_progress = true ∧ ∀ e ∈ after, ¬ (e.is_end = true ∧ e.fetch = origin.fetch)

theorem placed_new : Placed [] new :=
  ⟨rfl, fun _ _ _ _ h => (nomatch h), fun _ _ _ h => (nomatch h)⟩

/-- A row that is not finished is an open one. -/
theorem mem_open_rows {k : Nat} {row : Transfer} {origin : TransferEvent}
    (hrow : s.rows[k]? = some row) (horigin : s.origins[k]? = some origin)
    (hopen : row.finished = false) : (row, origin) ∈ s.open_rows := by
  refine List.mem_filter.mpr ⟨?_, by rw [hopen]; rfl⟩
  refine List.mem_of_getElem? (i := k) ?_
  rw [List.getElem?_zip_eq_some]
  exact ⟨hrow, horigin⟩

theorem Placed.origin_of {past : List TransferEvent} (h : Placed past s) {k : Nat} {row : Transfer}
    (hrow : s.rows[k]? = some row) : ∃ origin, s.origins[k]? = some origin := by
  have hlt := (List.getElem?_eq_some_iff.mp hrow).1
  rw [← h.length] at hlt
  exact ⟨_, List.getElem?_eq_getElem hlt⟩

/-- The fetch of a row that stays open does not end. -/
theorem Placed.goes_on {past : List TransferEvent} (h : Placed past s) {k : Nat} {row : Transfer}
    {origin : TransferEvent} (hrow : s.rows[k]? = some row) (horigin : s.origins[k]? = some origin)
    (hopen : row.finished = false) (hstays : ¬ (event.is_end = true ∧ event.fetch = origin.fetch)) :
    ∃ before after, past ++ [event] = before ++ origin :: after ∧ origin.is_progress = true ∧
      ∀ e ∈ after, ¬ (e.is_end = true ∧ e.fetch = origin.fetch) := by
  obtain ⟨before, after, rfl, hprogress, hafter⟩ := h.going k row origin hrow horigin hopen
  refine ⟨before, after ++ [event], by simp, hprogress, fun e he => ?_⟩
  rcases List.mem_append.mp he with he | he
  · exact hafter e he
  · rw [List.mem_singleton.mp he]
    exact hstays

/-- An end leaves no row of its fetch open. -/
theorem Placed.ends {past : List TransferEvent} (h : Placed past s) (htidy : s.Tidy event)
    {k : Nat} {row : Transfer} {origin : TransferEvent} (hrow : s.rows[k]? = some row)
    (horigin : s.origins[k]? = some origin) (hopen : row.finished = false)
    (hends : event.is_end = true ∧ event.fetch = origin.fetch) :
    ∃ row', (s.step event).rows[k]? = some row' ∧ row'.finished = true := by
  have hname : row.name = s.label event :=
    ((htidy (.inr hends.1)) _ (mem_open_rows hrow horigin hopen)).2 hends.1 hends.2.symm
  cases effect_step s event with
  | same hrows _ hclosed =>
    have hfinished := hclosed hends.1 row (List.mem_of_getElem? hrow) hname
    rw [hopen] at hfinished
    cases hfinished
  | changed j hother hname' hopen' hrows horigins hkeep hfinished hkind =>
    rename_i other row'
    obtain rfl : k = j := h.single k j row other hrow hother hopen hopen' (hname.trans hname'.symm)
    refine ⟨row', ?_, hfinished.trans hends.1⟩
    rw [hrows]
    exact List.getElem?_set_self (List.getElem?_eq_some_iff.mp hrow).1
  | pushed _ _ _ hnone _ _ =>
    have hfinished := hnone row (List.mem_of_getElem? hrow) hname
    rw [hopen] at hfinished
    cases hfinished

/-- A row after an event is one that was there, maybe less open, or a new one. -/
theorem row_of_step {k : Nat} {row : Transfer} (hrow : (s.step event).rows[k]? = some row) :
    (∃ old, s.rows[k]? = some old ∧ old.name = row.name ∧
      (row.finished = false → old.finished = false)) ∨
    (k = s.rows.length ∧ row.name = s.label event ∧ row.finished = event.is_end ∧
      (event.is_progress = true ∨ event.is_end = true) ∧
      ∀ row ∈ s.rows, row.name = s.label event → row.finished = true) := by
  cases effect_step s event with
  | same hrows horigins hclosed =>
    rw [hrows] at hrow
    exact .inl ⟨row, hrow, rfl, id⟩
  | changed j hother hname hopen hrows horigins hkeep hfinished hkind =>
    rename_i other row'
    rw [hrows] at hrow
    by_cases heq : j = k
    · subst heq
      rw [List.getElem?_set_self (List.getElem?_eq_some_iff.mp hother).1] at hrow
      obtain rfl := Option.some.inj hrow
      exact .inl ⟨other, hother, hkeep.symm, fun _ => hopen⟩
    · rw [List.getElem?_set_ne heq] at hrow
      exact .inl ⟨row, hrow, rfl, id⟩
  | pushed hrows horigins hname hnone hfinished hkind =>
    rw [hrows] at hrow
    by_cases hlt : k < s.rows.length
    · rw [List.getElem?_append_left hlt] at hrow
      exact .inl ⟨row, hrow, rfl, id⟩
    · have hlast := (List.getElem?_eq_some_iff.mp hrow).1
      rw [List.length_append, List.length_singleton] at hlast
      obtain rfl : k = s.rows.length := by omega
      rw [List.getElem?_append_right (Nat.le_refl _), Nat.sub_self] at hrow
      obtain rfl := Option.some.inj hrow
      exact .inr ⟨rfl, hname, hfinished, hkind, hnone⟩

/-- The origins only grow, by the event of a new row. -/
theorem origins_of_step (s : Window) (event : TransferEvent) :
    (s.step event).origins = s.origins ∧ (s.step event).rows.length = s.rows.length ∨
      (s.step event).origins = s.origins ++ [event] ∧
        (s.step event).rows.length = s.rows.length + 1 := by
  cases effect_step s event with
  | same hrows horigins hclosed => exact .inl ⟨horigins, by rw [hrows]⟩
  | changed j hother hname hopen hrows horigins hkeep hfinished hkind =>
    exact .inl ⟨horigins, by rw [hrows, List.length_set]⟩
  | pushed hrows horigins hname hnone hfinished hkind =>
    exact .inr ⟨horigins, by rw [hrows, List.length_append, List.length_singleton]⟩

theorem Placed.step {past : List TransferEvent} (h : Placed past s) (htidy : s.Tidy event) :
    Placed (past ++ [event]) (s.step event) := by
  have hnever : ∀ (j : Nat) other, s.rows[j]? = some other → other.finished = false →
      (∀ row ∈ s.rows, row.name = s.label event → row.finished = true) →
      other.name ≠ s.label event := by
    intro j other hj hopen hnone hname
    have hfinished := hnone other (List.mem_of_getElem? hj) hname
    rw [hopen] at hfinished
    cases hfinished
  constructor
  · rcases origins_of_step s event with ⟨horigins, hrows⟩ | ⟨horigins, hrows⟩
    · rw [horigins, hrows, h.length]
    · rw [horigins, hrows, List.length_append, List.length_singleton, h.length]
  · intro k j row other hk hj hopen hopen' hname
    rcases row_of_step hk with ⟨old, hold, hkeep, hwas⟩ | ⟨rfl, hlabel, -, -, hnone⟩
    · rcases row_of_step hj with ⟨old', hold', hkeep', hwas'⟩ | ⟨rfl, hlabel', -, -, hnone'⟩
      · exact h.single k j old old' hold hold' (hwas hopen) (hwas' hopen')
          (hkeep.trans (hname.trans hkeep'.symm))
      · exact absurd (hkeep.trans (hname.trans hlabel')) (hnever k old hold (hwas hopen) hnone')
    · rcases row_of_step hj with ⟨old', hold', hkeep', hwas'⟩ | ⟨rfl, -, -, -, -⟩
      · exact absurd (hkeep'.trans (hname.symm.trans hlabel))
          (hnever j old' hold' (hwas' hopen') hnone)
      · rfl
  · intro k row origin hk horigin hopen
    rcases row_of_step hk with ⟨old, hold, -, hwas⟩ | ⟨rfl, -, hfinished, hkind, -⟩
    · have horigin' : s.origins[k]? = some origin := by
        have hlt : k < s.origins.length := by
          rw [h.length]
          exact (List.getElem?_eq_some_iff.mp hold).1
        rcases origins_of_step s event with ⟨horigins, -⟩ | ⟨horigins, -⟩
        · rwa [horigins] at horigin
        · rwa [horigins, List.getElem?_append_left hlt] at horigin
      refine h.goes_on hold horigin' (hwas hopen) fun hends => ?_
      obtain ⟨row', hrow', hdone⟩ := h.ends htidy hold horigin' (hwas hopen) hends
      rw [hk] at hrow'
      rw [← Option.some.inj hrow', hopen] at hdone
      cases hdone
    · have hprogress : event.is_progress = true := by
        rw [hopen] at hfinished
        rw [← hfinished] at hkind
        exact hkind.resolve_right nofun
      have hevent : origin = event := by
        rcases origins_of_step s event with ⟨-, hrows⟩ | ⟨horigins, -⟩
        · have hlt := (List.getElem?_eq_some_iff.mp hk).1
          omega
        · rw [horigins, ← h.length, List.getElem?_append_right (Nat.le_refl _),
            Nat.sub_self] at horigin
          exact (Option.some.inj horigin).symm
      rw [hevent]
      exact ⟨past, [], rfl, hprogress, fun _ he => nomatch he⟩

/-! ## Runs -/

theorem Placed.changes_own {past : List TransferEvent} (h : Placed past s) (htidy : s.Tidy event) :
    s.ChangesOwn event := by
  intro k row row' hk hk' hne
  obtain ⟨origin, horigin⟩ := h.origin_of hk
  refine ⟨origin, horigin, ?_⟩
  cases effect_step s event with
  | same hrows horigins hclosed =>
    rw [hrows, hk] at hk'
    exact absurd (Option.some.inj hk').symm hne
  | changed j hother hname hopen hrows horigins hkeep hfinished hkind =>
    rename_i other changed
    rw [hrows] at hk'
    by_cases heq : j = k
    · subst heq
      rw [hk] at hother
      obtain rfl := Option.some.inj hother
      obtain ⟨hhash, hdrop⟩ := (htidy hkind _ (mem_open_rows hk horigin hopen)).1 hname
      exact ⟨hhash, fun hnames => hdrop.resolve_left hnames⟩
    · rw [List.getElem?_set_ne heq, hk] at hk'
      exact absurd (Option.some.inj hk').symm hne
  | pushed hrows horigins hname hnone hfinished hkind =>
    rw [hrows, List.getElem?_append_left (List.getElem?_eq_some_iff.mp hk).1, hk] at hk'
    exact absurd (Option.some.inj hk').symm hne

theorem Placed.closed {past : List TransferEvent} (h : Placed past s) (hended : AllEnded past) :
    ∀ row ∈ s.rows, row.finished = true := by
  intro row hmem
  obtain ⟨k, hk⟩ := List.mem_iff_getElem?.mp hmem
  obtain ⟨origin, horigin⟩ := h.origin_of hk
  by_contra hopen
  obtain ⟨before, after, hpast, hprogress, hafter⟩ :=
    h.going k row origin hk horigin (by simpa using hopen)
  obtain ⟨e, he, hends⟩ := hended before origin after hpast hprogress
  exact hafter e he hends

end Window

/-- While no unfinished row of another hash or drop has the name that a fetch
event goes by, and the rows that a fetch has created have the name that its end
goes by, each row shows its own transfer. -/
theorem rows_show_their_own (events : List TransferEvent)
    (htidy : runs.Meets Window.step Window.Tidy .new events) : Window.ShowsOwn events := by
  have hsplit := (runs.meets_iff_split Window.new events).mp htidy
  have hplaced : ∀ past, past <+: events → Window.Placed past (Window.new.run past) :=
    fun past hpast => @runs.invariant_along _ _ Window.step Window.Placed _ _ Window.placed_new
      (fun past event rest hl h => h.step (hsplit past event rest hl)) past hpast
  constructor
  · rintro past event rest rfl
    exact (hplaced past (List.prefix_append _ _)).changes_own (hsplit past event rest rfl)
  · intro past hpast hended
    exact (hplaced past hpast).closed hended

namespace shared_names

def event (fetch : Nat) (e : String) (fields : List (String × Value)) : TransferEvent :=
  { fetch, env := { seq := 1, e, p := .object fields } }

def offered (hash name : String) : TransferEvent :=
  event 0 "offer.received" [("drop", .string "d1"), ("hash", .string hash), ("name", .string name)]

def progress (fetch : Nat) (hash : String) (downloaded : UInt64) : TransferEvent :=
  event fetch "fetch.progress" [("drop", .string "d1"), ("hash", .string hash),
    ("downloaded", .pos_int downloaded), ("total", .pos_int 100)]

def materialized (fetch : Nat) (hash : String) : TransferEvent :=
  event fetch "fetch.materialized" [("task", .string "t1"), ("hash", .string hash),
    ("paths", .array [.string "/tmp"])]

/-- Two files of different names, at the same time. -/
def two_names : List TransferEvent :=
  [offered "aa" "a.txt", offered "bb" "b.txt", progress 1 "aa" 1, progress 2 "bb" 2,
   materialized 2 "bb", materialized 1 "aa"]

/-- Two files of one name. -/
def one_name : List TransferEvent :=
  [offered "aa" "a.txt", offered "bb" "a.txt", progress 1 "aa" 1, progress 2 "bb" 2]

/-- A collection and its one member, which was never offered. -/
def album : List TransferEvent :=
  [offered "aa" "album", progress 1 "aa" 1, progress 1 "bb" 2, materialized 1 "aa"]

theorem two_names_two_rows : Window.ShowsOwn two_names ∧
    (Window.new.run two_names).rows.map Transfer.name = ["a.txt", "b.txt"] :=
  ⟨rows_show_their_own two_names (by decide +kernel), by decide +kernel⟩

theorem album_ended : Window.AllEnded album := by
  have hlast : materialized 1 "aa" ∈ [progress 1 "bb" 2, materialized 1 "aa"] :=
    List.mem_cons_of_mem _ List.mem_cons_self
  refine Window.allEnded_cons.mpr ⟨fun h => absurd h (by decide), ?_⟩
  refine Window.allEnded_cons.mpr ⟨fun _ => ⟨_, hlast, by decide, rfl⟩, ?_⟩
  refine Window.allEnded_cons.mpr ⟨fun _ => ⟨_, List.mem_cons_self, by decide, rfl⟩, ?_⟩
  refine Window.allEnded_cons.mpr ⟨fun h => absurd h (by decide), ?_⟩
  exact Window.allEnded_nil

/-- The second file of a name changes the row of the first, and the member of
a collection leaves a row that never ends. -/
theorem rows_are_mixed_up :
    ¬ (Window.new.run (one_name.take 3)).ChangesOwn (progress 2 "bb" 2) ∧
    (Window.AllEnded album ∧ ∃ row ∈ (Window.new.run album).rows, row.finished = false) ∧
    ¬ ∀ events : List TransferEvent, Window.ShowsOwn events := by
  have hchanged : ¬ (Window.new.run (one_name.take 3)).ChangesOwn (progress 2 "bb" 2) := by
    intro h
    have hrow : ∃ row, (Window.new.run (one_name.take 3)).rows[0]? = some row ∧
        ∃ row', ((Window.new.run (one_name.take 3)).step (progress 2 "bb" 2)).rows[0]? = some row' ∧
          row' ≠ row := by decide +kernel
    obtain ⟨row, hk, row', hk', hne⟩ := hrow
    obtain ⟨origin, horigin, hhash, -⟩ := h 0 row row' hk hk' hne
    have hother : ((Window.new.run (one_name.take 3)).origins[0]?.map TransferEvent.hash) =
        some "aa" := by decide +kernel
    rw [horigin, Option.map_some, hhash] at hother
    exact absurd hother (by decide +kernel)
  have hopen : ∃ row ∈ (Window.new.run album).rows, row.finished = false := by decide +kernel
  refine ⟨hchanged, ⟨album_ended, hopen⟩, fun h => ?_⟩
  exact hchanged ((h one_name).own (one_name.take 3) (progress 2 "bb" 2) [] rfl)

end shared_names

end iroh_drop
