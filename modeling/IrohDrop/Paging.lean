-- The laws of paging: however the log of a member slides between two
-- requests, the pages that follow a cursor neither skip nor repeat a frame.
import IrohDrop.History
import IrohDrop.SyncPages

open rust_std postcard

namespace iroh_drop

section Laws

variable [Crypto]

/-! ## Paging -/

/-- A page that a member served: its state then, the cursor that was asked
for, and the answer. -/
structure ServedPage where
  state : DropState
  cursor : UInt64
  response : SyncResponseV1

/-- A member and a requester that pages through its log. The cursor is that
of the next request; there is none after the last page. -/
structure Paging where
  inner : Session
  cursor : Option UInt64
  pages : List ServedPage

/-- What happens meanwhile: the member retains a frame, or serves a page. -/
inductive PagingStep where
  | retain (retain : Retain) (frame : Bytes)
  | sync_page (max_frames : UInt16) (key_proof : Option (FixedBytes 32))

namespace Paging

def start (inner : Session) : Paging := { inner, cursor := some 0, pages := [] }

def request (self : Paging) (cursor : UInt64) (max_frames : UInt16)
    (key_proof : Option (FixedBytes 32)) : SyncRequestV1 :=
  { version := WIRE_VERSION, topic_id := self.inner.topic_id.as_bytes, cursor, max_frames
    key_proof }

def step (peer : EndpointId) (self : Paging) : PagingStep → Paging
  | .retain retain frame =>
    { self with inner := { self.inner with state := self.inner.state.retain retain frame } }
  | .sync_page max_frames key_proof =>
    match self.cursor with
    | none => self
    | some cursor =>
      let response := sync_page (fun _ => some self.inner)
        (self.request cursor max_frames key_proof) peer
      { self with
        cursor := response.next_cursor
        pages := self.pages ++ [{ state := self.inner.state, cursor, response }] }

def run (peer : EndpointId) (self : Paging) (steps : List PagingStep) : Paging :=
  runs.run (step peer) self steps

end Paging

/-! ## Positions -/

/-- The position after the last frame of the log. -/
def DropState.log_end (self : DropState) : Nat := self.sync_log_start + self.sync_log.length

/-- The frame at an absolute position, if it is still retained. -/
def DropState.frame_at (self : DropState) (position : Nat) : Option Bytes :=
  if position < self.sync_log_start then none else self.sync_log[position - self.sync_log_start]?

namespace ServedPage

/-- The position of the first frame of the page: the cursor, or the oldest
frame that is left. -/
def first (self : ServedPage) : Nat := max self.cursor.toNat self.state.sync_log_start

def positions (self : ServedPage) : List Nat := List.range' self.first self.response.frames.length

/-- The position after the last frame of the page. -/
def stop (self : ServedPage) : Nat := self.first + self.response.frames.length

theorem mem_positions (self : ServedPage) (p : Nat) :
    p ∈ self.positions ↔ self.first ≤ p ∧ p < self.stop := by
  unfold positions stop
  rw [List.mem_range'_1]

end ServedPage

/-- What a page gives: the frames at its positions, which are all positions
from the cursor on that are still retained, up to the next cursor or up to
the end of the log. -/
structure PageRight (page : ServedPage) : Prop where
  frames : page.positions.map page.state.frame_at = page.response.frames.map some
  progress : ∀ next, page.response.next_cursor = some next → page.cursor < next
  next : ∀ next, page.response.next_cursor = some next → next.toNat = page.stop
  last : page.response.next_cursor = none → page.state.log_end ≤ page.stop
  truncated : page.response.truncated = true ↔
    0 < page.cursor ∧ page.cursor.toNat < page.state.sync_log_start

/-! ## One page -/

/-- A page keeps a frame at least, if the first one that was asked for fits
the budget. -/
theorem page_window_pos {state : DropState} (request : SyncRequestV1)
    (hshort : ∀ frame ∈ state.sync_log, frame.length ≤ MAX_MESSAGE_SIZE)
    (hmore : page_start state request.cursor < state.sync_log.length) :
    0 < (page_window state request).length := by
  have hmax : MAX_MESSAGE_SIZE ≤ MAX_RESPONSE_BYTES := by decide
  have hclamp := clamp_max_frames_pos request.max_frames
  unfold page_window
  rcases hw : wanted_frames state request with _ | ⟨frame, frames⟩
  · have hlen := congrArg List.length hw
    simp only [wanted_frames, List.length_take, List.length_drop, List.length_nil] at hlen
    omega
  · have hmem : frame ∈ state.sync_log := by
      have hframe : frame ∈ wanted_frames state request := hw ▸ List.mem_cons_self ..
      exact List.mem_of_mem_drop (List.mem_of_mem_take hframe)
    have hfits := hshort frame hmem
    rw [kept_frames, if_neg (by omega), List.take_succ_cons, List.length_cons]
    exact Nat.succ_pos _

theorem page_window_length_le (state : DropState) (request : SyncRequestV1) :
    (page_window state request).length ≤
      state.sync_log.length - page_start state request.cursor := by
  simp only [page_window, wanted_frames, List.length_take, List.length_drop]
  omega

/-- The frames of a page stand in the log one after the other. -/
theorem page_window_eq (state : DropState) (request : SyncRequestV1) :
    page_window state request = (state.sync_log.drop (page_start state request.cursor)).take
      (page_window state request).length := by
  have hkept := kept_frames_le MAX_RESPONSE_BYTES (wanted_frames state request)
  have hlen : (page_window state request).length =
      kept_frames MAX_RESPONSE_BYTES (wanted_frames state request) := by
    rw [page_window, List.length_take, Nat.min_eq_left hkept]
  rw [hlen, page_window]
  conv_lhs => rw [wanted_frames]
  rw [List.take_take]
  congr 1
  simp only [wanted_frames, List.length_take] at hkept ⊢
  omega

theorem session_page_right {state : DropState} (request : SyncRequestV1)
    (hshort : ∀ frame ∈ state.sync_log, frame.length ≤ MAX_MESSAGE_SIZE)
    (hend : state.log_end < 2 ^ 64) :
    PageRight { state, cursor := request.cursor, response := session_page state request } := by
  have hstart : state.sync_log_start + page_start state request.cursor =
      max request.cursor.toNat state.sync_log_start := by
    unfold page_start
    omega
  have hle := page_window_length_le state request
  have hsize : UInt64.size = 2 ^ 64 := rfl
  unfold DropState.log_end at hend
  constructor
  · -- The i-th position is that of the i-th frame.
    simp only [ServedPage.positions, ServedPage.first, session_page_frames, ← hstart]
    apply List.ext_getElem
    · simp
    intro i hi _
    simp only [List.getElem_map, List.getElem_range', one_mul, DropState.frame_at]
    rw [if_neg (by omega)]
    have hindex : state.sync_log_start + page_start state request.cursor + i -
        state.sync_log_start = page_start state request.cursor + i := by omega
    rw [hindex, ← List.getElem?_drop]
    simp only [List.length_map, List.length_range'] at hi
    have hwindow := congrArg (fun l => l[i]?) (page_window_eq state request)
    simp only [List.getElem?_take, hi, if_true] at hwindow
    rw [← hwindow, List.getElem?_eq_getElem hi]
  · intro next hnext
    simp only [session_page_next_cursor, page_next] at hnext
    split at hnext
    · cases hnext
    · rename_i hmore
      cases hnext
      have hpos := page_window_pos request hshort (by omega)
      rw [UInt64.lt_iff_toNat_lt, UInt64.toNat_ofNat_of_lt' (by omega)]
      change request.cursor.toNat < _
      unfold page_start at hpos hle hmore ⊢
      omega
  · intro next hnext
    simp only [session_page_next_cursor, page_next] at hnext
    split at hnext
    · cases hnext
    · cases hnext
      rw [UInt64.toNat_ofNat_of_lt' (by omega)]
      simp only [ServedPage.stop, ServedPage.first, session_page_frames]
      omega
  · intro hnext
    simp only [session_page_next_cursor, page_next] at hnext
    split at hnext
    · simp only [ServedPage.stop, ServedPage.first, session_page_frames, DropState.log_end]
      omega
    · cases hnext
  · have hoffset : (session_page state request).truncated = decide (request.cursor ≠ 0 ∧
        request.cursor < UInt64.ofNat state.sync_log_start) := by
      simp only [session_page, DropState.sync_frames]
      split <;> rfl
    have hzero : request.cursor ≠ 0 ↔ 0 < request.cursor := by
      rw [UInt64.lt_iff_toNat_lt, ne_eq, ← UInt64.toNat_inj, UInt64.toNat_zero]
      omega
    rw [hoffset, decide_eq_true_eq, hzero, UInt64.lt_iff_toNat_lt (a := request.cursor),
      UInt64.toNat_ofNat_of_lt' (by omega)]

/-! ## Frames retained meanwhile -/

/-- Retaining slides the log: frames go off the front, and the new one, if it
is kept, to the end. -/
theorem DropState.retain_slides (s : DropState) (retain : Retain) (frame : Bytes) :
    ∃ k ≤ s.sync_log.length, (s.retain retain frame).sync_log_start = s.sync_log_start + k ∧
      ((s.retain retain frame).sync_log = s.sync_log.drop k ++ [frame] ∨
        k = 0 ∧ (s.retain retain frame).sync_log = s.sync_log) := by
  have hslides : ∀ s : DropState, ∃ k ≤ s.sync_log.length,
      (s.retain_frame frame).sync_log_start = s.sync_log_start + k ∧
      (s.retain_frame frame).sync_log = s.sync_log.drop k ++ [frame] := by
    intro s
    simp only [DropState.retain_frame]
    generalize s.sync_log_bytes = bytes
    generalize s.sync_log_start = start
    induction s.sync_log generalizing bytes start with
    | nil => exact ⟨0, Nat.le_refl 0, rfl, rfl⟩
    | cons front rest ih =>
      unfold DropState.evict_frames
      split
      · obtain ⟨k, hk, hstart, hlog⟩ := ih (bytes - front.length) (start + 1)
        refine ⟨k + 1, Nat.succ_le_succ hk, ?_, ?_⟩
        · rw [hstart]
          omega
        · rw [hlog, List.drop_succ_cons]
      · exact ⟨0, Nat.zero_le _, rfl, rfl⟩
  by_cases hkeeps : s.keeps retain frame
  · cases retain with
    | Yes =>
      obtain ⟨k, hk, hstart, hlog⟩ := hslides s
      exact ⟨k, hk, hstart, .inl hlog⟩
    | No => exact absurd hkeeps id
    | Unknown =>
      simp only [DropState.keeps] at hkeeps
      simp only [DropState.retain, DropState.retain_unknown_frame]
      rw [if_neg (by omega)]
      obtain ⟨k, hk, hstart, hlog⟩ := hslides { s with
        unknown_frames := s.unknown_frames + 1
        unknown_frames_bytes := s.unknown_frames_bytes + frame.length }
      exact ⟨k, hk, hstart, .inl hlog⟩
  · rw [DropState.retain_of_not_keeps hkeeps]
    exact ⟨0, Nat.zero_le _, rfl, .inr ⟨rfl, rfl⟩⟩

/-! ## Whole runs -/

namespace Paging

/-- The position that the requester has come to. -/
def reached (self : Paging) : Nat := (self.pages.getLast?.map ServedPage.stop).getD 0

/-- What a retained frame and a request are promised to be: the frame is no
longer than a message, its position fits the counter, and the requester is
one that the member serves. -/
def Fits (peer : EndpointId) (self : Paging) : PagingStep → Prop
  | .retain _ frame =>
    frame.length ≤ MAX_MESSAGE_SIZE ∧ self.inner.state.log_end + 1 < 2 ^ 64
  | .sync_page max_frames key_proof => ∀ cursor, self.cursor = some cursor →
    serves self.inner (self.request cursor max_frames key_proof) peer = true

/-- The pages so far: each is right, they do not overlap, and whatever they
left out was gone when the cursor came to it. -/
structure Paged (s : Paging) : Prop where
  short : ∀ frame ∈ s.inner.state.sync_log, frame.length ≤ MAX_MESSAGE_SIZE
  fits : s.inner.state.log_end < 2 ^ 64
  cursor : ∀ cursor, s.cursor = some cursor → cursor.toNat = s.reached
  right : ∀ page ∈ s.pages, PageRight page
  increasing : (s.pages.flatMap ServedPage.positions).Pairwise (· < ·)
  passed : ∀ p ∈ s.pages.flatMap ServedPage.positions, p < s.reached
  covered : ∀ p < s.reached, ∃ page ∈ s.pages, page.cursor.toNat ≤ p ∧
    (p ∈ page.positions ∨ p < page.state.sync_log_start)

theorem paged_start {inner : Session}
    (hshort : ∀ frame ∈ inner.state.sync_log, frame.length ≤ MAX_MESSAGE_SIZE)
    (hend : inner.state.log_end < 2 ^ 64) : (start inner).Paged := by
  refine ⟨hshort, hend, ?_, ?_, List.Pairwise.nil, ?_, ?_⟩
  · intro cursor h
    cases h
    rfl
  · intro page h
    cases h
  · intro p h
    cases h
  · intro p h
    exact absurd h (Nat.not_lt_zero p)

theorem paged_retain {s : Paging} (h : s.Paged) (peer : EndpointId) (retain : Retain)
    {frame : Bytes} (hf : s.Fits peer (.retain retain frame)) :
    (s.step peer (.retain retain frame)).Paged := by
  obtain ⟨hframe, hfits⟩ := hf
  obtain ⟨k, hk, hstart, hlog⟩ := s.inner.state.retain_slides retain frame
  refine ⟨?_, ?_, h.cursor, h.right, h.increasing, h.passed, h.covered⟩
  · intro f hmem
    change f ∈ (s.inner.state.retain retain frame).sync_log at hmem
    rcases hlog with hlog | ⟨-, hlog⟩
    · rw [hlog] at hmem
      rcases List.mem_append.mp hmem with hold | hnew
      · exact h.short f (List.mem_of_mem_drop hold)
      · rw [List.mem_singleton.mp hnew]
        exact hframe
    · rw [hlog] at hmem
      exact h.short f hmem
  · change (s.inner.state.retain retain frame).log_end < _
    unfold DropState.log_end at hfits ⊢
    rw [hstart]
    rcases hlog with hlog | ⟨rfl, hlog⟩
    · rw [hlog, List.length_append, List.length_drop, List.length_singleton]
      omega
    · rw [hlog]
      omega

theorem paged_sync_page {s : Paging} (h : s.Paged) (peer : EndpointId) (max_frames : UInt16)
    (key_proof : Option (FixedBytes 32)) (hf : s.Fits peer (.sync_page max_frames key_proof)) :
    (s.step peer (.sync_page max_frames key_proof)).Paged := by
  unfold step
  rcases hc : s.cursor with _ | cursor
  · exact h
  simp only
  have hserved : sync_page (fun _ => some s.inner) (s.request cursor max_frames key_proof) peer =
      session_page s.inner.state (s.request cursor max_frames key_proof) := by
    simp only [sync_page, hf cursor hc, if_true]
  rw [hserved]
  have hright := session_page_right (s.request cursor max_frames key_proof) h.short h.fits
  change PageRight ⟨s.inner.state, cursor, _⟩ at hright
  generalize session_page s.inner.state (s.request cursor max_frames key_proof) = response
    at hright
  generalize hpage : ({ state := s.inner.state, cursor, response } : ServedPage) = page at hright
  have hcursor : cursor.toNat = s.reached := h.cursor cursor hc
  have hfirst : s.reached ≤ page.first := by
    rw [← hcursor, ← hpage]
    exact Nat.le_max_left _ _
  have hreached : reached { s with cursor := response.next_cursor, pages := s.pages ++ [page] } =
      page.stop := by
    simp only [reached, List.getLast?_append, List.getLast?_singleton, Option.some_or,
      Option.map_some, Option.getD_some]
  have hstop : page.first ≤ page.stop := Nat.le_add_right _ _
  have hpositions : (s.pages ++ [page]).flatMap ServedPage.positions =
      s.pages.flatMap ServedPage.positions ++ page.positions := by
    rw [List.flatMap_append, List.flatMap_singleton]
  refine ⟨h.short, h.fits, ?_, ?_, ?_, ?_, ?_⟩
  · intro next hnext
    rw [hreached]
    exact hright.next next (by rw [← hpage]; exact hnext)
  · intro p hp
    rcases List.mem_append.mp hp with hold | hnew
    · exact h.right p hold
    · rw [List.mem_singleton.mp hnew]
      exact hright
  · simp only [hpositions]
    refine List.pairwise_append.mpr ⟨h.increasing, List.pairwise_lt_range', ?_⟩
    intro p hp q hq
    have hpast := h.passed p hp
    have hpage := ((page.mem_positions q).mp hq).1
    omega
  · intro p hp
    rw [hreached]
    simp only [hpositions] at hp
    rcases List.mem_append.mp hp with hold | hnew
    · have hpast := h.passed p hold
      omega
    · exact ((page.mem_positions p).mp hnew).2
  · intro p hp
    rw [hreached] at hp
    rcases Nat.lt_or_ge p s.reached with hpast | hahead
    · obtain ⟨q, hq, hcovers⟩ := h.covered p hpast
      exact ⟨q, List.mem_append_left _ hq, hcovers⟩
    · refine ⟨page, List.mem_append_right _ (List.mem_singleton_self page), ?_, ?_⟩
      · rw [← hpage]
        exact hcursor.le.trans hahead
      · rcases Nat.lt_or_ge p page.first with hgone | hstands
        · right
          rw [← hpage] at hgone ⊢
          change p < s.inner.state.sync_log_start
          simp only [ServedPage.first] at hgone
          omega
        · exact .inl ((page.mem_positions p).mpr ⟨hstands, hp⟩)

theorem paged_run {peer : EndpointId} {s : Paging} (h : s.Paged) {steps : List PagingStep}
    (hf : runs.Meets (step peer) (Fits peer) s steps) : (s.run peer steps).Paged := by
  have hstep : ∀ (s : Paging) (i : PagingStep), s.Paged → s.Fits peer i → (s.step peer i).Paged := by
    intro s i h hf
    cases i with
    | retain retain frame => exact paged_retain h peer retain hf
    | sync_page max_frames key_proof => exact paged_sync_page h peer max_frames key_proof hf
  exact runs.invariant_of_meets hstep h hf

/-! ## A log that stands still -/

def page_frames (s : Paging) : List Bytes := s.pages.flatMap (fun page => page.response.frames)

/-- The pages so far are the first frames of a log that does not change. -/
structure Standing (s : Paging) (n : Nat) : Prop where
  frames : s.page_frames = s.inner.state.sync_log.take n
  cursor : ∀ cursor, s.cursor = some cursor →
    page_start s.inner.state cursor = n ∧ n ≤ s.inner.state.sync_log.length
  ended : s.cursor = none → s.inner.state.sync_log.length ≤ n

theorem standing_sync_page {s : Paging} {n : Nat} (hs : s.Standing n) (hp : s.Paged)
    {peer : EndpointId} {max_frames : UInt16} {key_proof : Option (FixedBytes 32)}
    (hf : s.Fits peer (.sync_page max_frames key_proof)) :
    ∃ n', (s.step peer (.sync_page max_frames key_proof)).Standing n' ∧
      (s.step peer (.sync_page max_frames key_proof)).inner = s.inner ∧
      ((s.step peer (.sync_page max_frames key_proof)).cursor = none ∨ n < n') := by
  unfold step
  rcases hc : s.cursor with _ | cursor
  · exact ⟨n, hs, rfl, .inl hc⟩
  simp only
  have hserved : sync_page (fun _ => some s.inner) (s.request cursor max_frames key_proof) peer =
      session_page s.inner.state (s.request cursor max_frames key_proof) := by
    simp only [sync_page, hf cursor hc, if_true]
  have hstart : page_start s.inner.state (s.request cursor max_frames key_proof).cursor = n :=
    (hs.cursor cursor hc).1
  have hpos := page_window_pos (s.request cursor max_frames key_proof) hp.short
  have hle := page_window_length_le s.inner.state (s.request cursor max_frames key_proof)
  have hwindow := page_window_eq s.inner.state (s.request cursor max_frames key_proof)
  have hnext := session_page_next_cursor s.inner.state (s.request cursor max_frames key_proof)
  rw [hserved]
  unfold page_next at hnext
  rw [hstart] at hpos hle hwindow hnext
  generalize hk : (page_window s.inner.state (s.request cursor max_frames key_proof)).length = k
    at hpos hle hwindow hnext
  have hframes : page_frames { s with
      cursor := (session_page s.inner.state (s.request cursor max_frames key_proof)).next_cursor
      pages := s.pages ++ [⟨s.inner.state, cursor,
        session_page s.inner.state (s.request cursor max_frames key_proof)⟩] } =
      s.inner.state.sync_log.take (n + k) := by
    have hold := hs.frames
    unfold page_frames at hold ⊢
    simp only [List.flatMap_append, List.flatMap_singleton, hold, session_page_frames, hwindow]
    exact List.take_add.symm
  have hend := hp.fits
  unfold DropState.log_end at hend
  refine ⟨n + k, ⟨hframes, ?_, ?_⟩, trivial, ?_⟩
  · intro next heq
    simp only [hnext] at heq
    split at heq
    · cases heq
    · cases heq
      have hsize : UInt64.size = 2 ^ 64 := rfl
      unfold page_start
      rw [UInt64.toNat_ofNat_of_lt' (by omega)]
      change s.inner.state.sync_log_start + (n + k) - s.inner.state.sync_log_start = n + k ∧
        n + k ≤ s.inner.state.sync_log.length
      omega
  · intro heq
    simp only [hnext] at heq
    split at heq
    · assumption
    · cases heq
  · simp only [hnext]
    by_cases hmore : s.inner.state.sync_log.length ≤ n + k
    · exact .inl (if_pos hmore)
    · exact .inr (by omega)

/-- The requests of a requester to whom nothing else happens. -/
def requests (asked : List (UInt16 × Option (FixedBytes 32))) : List PagingStep :=
  asked.map (fun p => .sync_page p.1 p.2)

/-- No page follows the last one. -/
theorem ended_run {peer : EndpointId} {s : Paging} (h : s.cursor = none)
    (asked : List (UInt16 × Option (FixedBytes 32))) :
    (s.run peer (requests asked)).cursor = none := by
  induction asked generalizing s with
  | nil => exact h
  | cons p asked ih =>
    refine ih (s := s.step peer (.sync_page p.1 p.2)) ?_
    unfold step
    rw [h]
    exact h

theorem standing_run {peer : EndpointId} {s : Paging} {n : Nat} (hs : s.Standing n)
    (hp : s.Paged) {asked : List (UInt16 × Option (FixedBytes 32))}
    (hf : runs.Meets (step peer) (Fits peer) s (requests asked)) :
    ∃ n', (s.run peer (requests asked)).Standing n' ∧
      (s.run peer (requests asked)).inner = s.inner ∧
      ((s.run peer (requests asked)).cursor = none ∨ n + asked.length ≤ n') := by
  induction asked generalizing s n with
  | nil => exact ⟨n, hs, rfl, .inr (Nat.le_refl _)⟩
  | cons p asked ih =>
    obtain ⟨hfirst, hrest⟩ := hf
    obtain ⟨m, hstanding, hinner, hmore⟩ := standing_sync_page hs hp hfirst
    have hpaged := paged_sync_page hp peer p.1 p.2 hfirst
    obtain ⟨n', hstanding', hinner', hmore'⟩ := ih hstanding hpaged hrest
    refine ⟨n', hstanding', hinner'.trans hinner, ?_⟩
    rcases hmore with hended | hgt
    · exact .inl (ended_run hended asked)
    · rcases hmore' with hended | hle
      · exact .inl hended
      · exact .inr (by rw [List.length_cons]; omega)

/-- The pages that follow a cursor through a log that slides give each
position at most once, in order, and leave out only what was gone when the
cursor came to it. With nothing retained meanwhile they are the log. -/
theorem paging_neither_skips_nor_repeats (inner : Session) (peer : EndpointId)
    (steps : List PagingStep)
    (hshort : ∀ frame ∈ inner.state.sync_log, frame.length ≤ MAX_MESSAGE_SIZE)
    (hend : inner.state.log_end < 2 ^ 64)
    (hf : runs.Meets (step peer) (Fits peer) (start inner) steps) :
    let s := (start inner).run peer steps
    (∀ page ∈ s.pages, PageRight page) ∧
      (s.pages.flatMap ServedPage.positions).Pairwise (· < ·) ∧
      (∀ p < s.reached, ∃ page ∈ s.pages, page.cursor.toNat ≤ p ∧
        (p ∈ page.positions ∨ p < page.state.sync_log_start)) ∧
      (∀ cursor, s.cursor = some cursor → cursor.toNat = s.reached) ∧
      ∀ asked, steps = requests asked →
        (s.cursor = none → s.page_frames = inner.state.sync_log) ∧
        (inner.state.sync_log.length < asked.length → s.cursor = none) := by
  intro s
  have hpaged := paged_start hshort hend
  have h : s.Paged := paged_run hpaged hf
  refine ⟨h.right, h.increasing, h.covered, h.cursor, ?_⟩
  rintro asked rfl
  have hstanding : (start inner).Standing 0 := by
    refine ⟨rfl, ?_, ?_⟩
    · intro cursor hc
      cases hc
      exact ⟨Nat.zero_sub _, Nat.zero_le _⟩
    · intro hc
      cases hc
  obtain ⟨n, hn, hinner, hmore⟩ := standing_run hstanding hpaged hf
  have hlog : s.inner.state.sync_log = inner.state.sync_log :=
    congrArg (fun inner : Session => inner.state.sync_log) hinner
  constructor
  · intro hended
    have hall := hn.ended hended
    rw [← hlog]
    exact hn.frames.trans (List.take_of_length_le hall)
  · intro hlong
    rcases hc : s.cursor with _ | cursor
    · rfl
    · rcases hmore with hended | hle
      · exact hc.symm.trans hended
      · have hinside := (hn.cursor cursor hc).2
        change n ≤ s.inner.state.sync_log.length at hinside
        rw [hlog] at hinside
        omega

end Paging

end Laws

/-! ## A log that slides -/

namespace sliding_log

local instance : Crypto := Crypto.clear

def topic : TopicId := ⟨.fill 32 8⟩

/-- A member of a public drop whose log is two frames. -/
def member : Session :=
  let s := Session.new ⟨.fill 32 1⟩ {} PolicyDecider topic (.nodeless topic.as_bytes none) none
    (fun _ => .NotFound)
  { s with state := { s.state with sync_log := [[1], [2]], sync_log_bytes := 2 } }

def peer : EndpointId := SecretKey.public ⟨.fill 32 2⟩

/-- A third frame comes between two pages. -/
def steps : List PagingStep :=
  [.sync_page 1 none, .retain .Yes [3], .sync_page 1 none, .sync_page 1 none]

def paging : Paging := (Paging.start member).run peer steps

/-- The law at work: each frame is served, and served once. -/
theorem paging_neither_skips_nor_repeats_at_member :
    paging.page_frames = [[1], [2], [3]] ∧
      (paging.pages.flatMap ServedPage.positions).Pairwise (· < ·) := by
  have hfits : runs.Meets (Paging.step peer) (Paging.Fits peer) (Paging.start member) steps := by
    refine ⟨?_, ?_, ?_, ?_, trivial⟩
    · exact fun _ _ => rfl
    · exact ⟨by decide, by decide +kernel⟩
    · exact fun _ _ => rfl
    · exact fun _ _ => rfl
  refine ⟨by decide +kernel, ?_⟩
  exact (Paging.paging_neither_skips_nor_repeats member peer steps (by decide) (by decide)
    hfits).2.1

end sliding_log

end iroh_drop
