-- Offers that are handled at the same time, one atomic operation at a time:
-- the gossip loop and the catch-ups each run `handle_offer`, while automatic
-- fetches end (session.rs).
import IrohDrop.Run
import IrohDrop.Runs

open rust_std

namespace iroh_drop

variable [Crypto]

/-! ## Handlers -/

/-- Where an execution of `handle_offer` is, and what it has read so far. -/
inductive OfferStage where
  | asked
  | active_read (active : Nat)
  | judged (allowed : Bool)
  | known (allowed is_known : Bool)
  | decided (decision : OfferDecision)
  | recorded (decision : OfferDecision)
  | fetchable (decision : OfferDecision)
  | loaded (decision : OfferDecision) (active : Nat)
  | cleared (active : Nat) (spent : UInt64)
  | reserved
  | counted
  | over
deriving DecidableEq

structure OfferHandler where
  author : EndpointId
  offer : OfferV1
  delivered_from : EndpointId
  stage : OfferStage

/-- Where the task of an automatic fetch is once `fetch_inner` is under way. -/
inductive AutoStage where
  | running
  | failed
  | succeeded
  | refunded
  | ended (kept : Bool)
deriving DecidableEq

structure AutoTask where
  offer : OfferV1
  stage : AutoStage

namespace OfferHandler

/-- The next atomic operation of `handle_offer`, and the fetch that it spawns. -/
def next (self : OfferHandler) (s : Session) (now : Instant) :
    OfferHandler × Session × List AutoTask :=
  let go (stage : OfferStage) (s : Session) : OfferHandler × Session × List AutoTask :=
    ({ self with stage }, s, [])
  match self.stage with
  | .asked =>
    if s.policy.auto_fetch ∧ self.author ≠ s.self_id then go (.active_read s.active_fetches) s
    else go (.judged false) s
  | .active_read active =>
    go (.judged (s.policy.check_auto_fetch self.offer active s.auto_fetch_bytes).isOk) s
  | .judged allowed => go (.known allowed (decide (self.offer.blob_hash ∈ s.state.offers))) s
  | .known allowed is_known =>
    match s.decider self.offer
      { author := self.author, delivered_from := self.delivered_from, is_new := !is_known
        policy_allows_auto_fetch := allowed } with
    | .Reject reason => go .over (s.emit (.OfferRejected self.author (.Policy reason)))
    | decision => go (.decided decision) s
  | .decided decision =>
    match s.state.record_offer_bounded self.author self.offer now with
    | (.QuotaExceeded, state) =>
      go .over ({ s with state }.emit (.OfferRejected self.author .QuotaExceeded))
    | (.Known, state) => go .over { s with state }
    | (.New evicted, state) =>
      let s := { s with state }
      let s :=
        if evicted = [] then s
        else s.emit (.ProtocolWarning none (.InventoryEvicted evicted.length))
      go (.recorded decision) (s.emit (.OfferReceived self.author self.offer))
  | .recorded decision =>
    if s.policy.auto_fetch = false ∨ self.author = s.self_id then go .over s
    else if s.already_local self.offer.blob_hash then go .over s
    else go (.fetchable decision) s
  | .fetchable decision => go (.loaded decision s.active_fetches) s
  | .loaded decision active =>
    match s.policy.check_auto_fetch self.offer active s.auto_fetch_bytes with
    | .error e => go .over (s.emit (.OfferRejected self.author (.Policy e.text)))
    | .ok () =>
      if decision ≠ .Accept then go .over s
      else if s.guarded then go (.cleared active s.auto_fetch_bytes) s
      else go .over s
  | .cleared _ _ =>
    go .reserved { s with auto_fetch_bytes := s.auto_fetch_bytes + self.offer.size }
  | .reserved => go .counted { s with active_fetches := s.active_fetches + 1 }
  | .counted => ({ self with stage := .over }, s, [⟨self.offer, .running⟩])
  | .over => go .over s

/-- The fetch of this handler is counted as active, and has no task yet. -/
def held (self : OfferHandler) : Nat :=
  match self.stage with
  | .counted => 1
  | _ => 0

/-- The bytes that this handler has reserved for a fetch with no task yet. -/
def bytes (self : OfferHandler) : Nat :=
  match self.stage with
  | .reserved | .counted => self.offer.size.toNat
  | _ => 0

/-- The handler is between its look at the counters and its own increments. -/
def window (self : OfferHandler) : Bool :=
  match self.stage with
  | .loaded _ _ | .cleared _ _ | .reserved => true
  | _ => false

/-- The handler is between its two increments. -/
def halfway (self : OfferHandler) : Bool :=
  match self.stage with
  | .reserved => true
  | _ => false

end OfferHandler

namespace AutoTask

/-- The next atomic operation of the task once `fetch_inner` has returned. -/
def next (self : AutoTask) (s : Session) : AutoTask × Session :=
  match self.stage with
  | .failed =>
    ({ self with stage := .refunded },
      { s with auto_fetch_bytes := s.auto_fetch_bytes - self.offer.size })
  | .succeeded =>
    ({ self with stage := .ended true }, { s with active_fetches := s.active_fetches - 1 })
  | .refunded =>
    ({ self with stage := .ended false }, { s with active_fetches := s.active_fetches - 1 })
  | .running | .ended _ => (self, s)

/-- `fetch_inner` returns. -/
def returns (self : AutoTask) (ok : Bool) : AutoTask :=
  match self.stage with
  | .running => { self with stage := if ok then .succeeded else .failed }
  | _ => self

/-- The fetch has not ended. -/
def held (self : AutoTask) : Nat :=
  match self.stage with
  | .ended _ => 0
  | _ => 1

/-- The bytes of a fetch that is under way, or has succeeded. -/
def bytes (self : AutoTask) : Nat :=
  match self.stage with
  | .refunded | .ended false => 0
  | _ => self.offer.size.toNat

end AutoTask

/-! ## The machine -/

/-- The start of a fetch: what its handler had read, and what was under way. -/
structure FetchStart where
  offer : OfferV1
  active : Nat
  spent : UInt64
  fetches : Nat
  bytes : Nat

/-- A session, the offers that are being handled, the automatic fetches, and
the starts of these for the laws. -/
structure Desk where
  session : Session
  handlers : List OfferHandler
  tasks : List AutoTask
  starts : List FetchStart

/-- `other` is whatever else the session does meanwhile. -/
inductive DeskStep where
  | arrive (author : EndpointId) (offer : OfferV1) (delivered_from : EndpointId)
  | handle (k : Nat) (now : Instant)
  | fetch_returns (j : Nat) (ok : Bool)
  | task (j : Nat)
  | other (session : Session)

namespace Desk

/-- The automatic fetches that are started and not ended. -/
def fetches (self : Desk) : Nat :=
  (self.handlers.map OfferHandler.held).sum + (self.tasks.map AutoTask.held).sum

/-- The sizes of the automatic fetches that are under way or have succeeded. -/
def bytes (self : Desk) : Nat :=
  (self.handlers.map OfferHandler.bytes).sum + (self.tasks.map AutoTask.bytes).sum

/-- What is noted down when a handler is about to reserve. -/
def noted (self : Desk) (handler : OfferHandler) : List FetchStart :=
  match handler.stage with
  | .cleared active spent => [⟨handler.offer, active, spent, self.fetches, self.bytes⟩]
  | _ => []

def handle (self : Desk) (k : Nat) (now : Instant) : Desk :=
  match self.handlers[k]? with
  | none => self
  | some handler =>
    let (handler', session, spawned) := handler.next self.session now
    { session, handlers := self.handlers.set k handler', tasks := self.tasks ++ spawned
      starts := self.starts ++ self.noted handler }

def fetch_returns (self : Desk) (j : Nat) (ok : Bool) : Desk :=
  match self.tasks[j]? with
  | none => self
  | some task => { self with tasks := self.tasks.set j (task.returns ok) }

def task (self : Desk) (j : Nat) : Desk :=
  match self.tasks[j]? with
  | none => self
  | some task =>
    let (task', session) := task.next self.session
    { self with session, tasks := self.tasks.set j task' }

def step (self : Desk) : DeskStep → Desk
  | .arrive author offer delivered_from =>
    { self with handlers := self.handlers ++ [⟨author, offer, delivered_from, .asked⟩] }
  | .handle k now => self.handle k now
  | .fetch_returns j ok => self.fetch_returns j ok
  | .task j => self.task j
  | .other session =>
    { self with session := { session with
        toSessionConfig := self.session.toSessionConfig
        active_fetches := self.session.active_fetches
        auto_fetch_bytes := self.session.auto_fetch_bytes } }

def run (self : Desk) (steps : List DeskStep) : Desk := runs.run step self steps

/-- A session with no offer at hand. -/
def idle (session : Session) : Desk := { session, handlers := [], tasks := [], starts := [] }

end Desk

/-! ## Without interleaving -/

/-- An execution of `handle_offer` from the start to its end. -/
def OfferHandler.finish (now : Instant) : Nat → OfferHandler → Session →
    Session × List AutoTask
  | 0, _, s => (s, [])
  | n + 1, self, s =>
    let (handler, s, spawned) := self.next s now
    let (s, later) := handler.finish now n s
    (s, spawned ++ later)

namespace OfferHandler

variable {now : Instant}

/-- An operation that spawns nothing. -/
theorem finish_next {self handler : OfferHandler} {s s' : Session} (n : Nat)
    (h : self.next s now = (handler, s', [])) :
    self.finish now (n + 1) s = handler.finish now n s' := by
  rw [finish, h]
  simp only [List.nil_append]

theorem finish_over (n : Nat) {self : OfferHandler} (h : self.stage = .over) (s : Session) :
    self.finish now n s = (s, []) := by
  induction n with
  | zero => rfl
  | succ n ih =>
    have hnext : self.next s now = (self, s, []) := by
      simp only [next, h]
      rw [← h]
    rw [finish_next n hnext, ih]

/-- What a handler does is what the session came to, but for the fetches, and
it spawns the fetches that the session has more. -/
def Matches (s s' : Session) (r : Session × List AutoTask) : Prop :=
  { s' with fetches := s.fetches } = r.1 ∧
    s'.fetches = s.fetches ++ r.2.map (fun task =>
      { hash := task.offer.blob_hash, auto := some task.offer.size, stage := .start
        current_provider := none, last_error := none, total := none, stored := 0 })

/-- An operation after which the handler is over, and no fetch is spawned. -/
theorem matches_over {self handler : OfferHandler} {s t s' : Session} (n : Nat)
    (h : self.next t now = (handler, s', [])) (hover : handler.stage = .over)
    (hfetches : s'.fetches = s.fetches) : Matches s s' (self.finish now (n + 1) t) := by
  rw [finish_next n h, finish_over n hover]
  constructor
  · rw [← hfetches]
  · rw [hfetches, List.map_nil, List.append_nil]

variable (author : EndpointId) (offer : OfferV1) (delivered_from : EndpointId)
  (decision : OfferDecision)

/-- The evaluation of the automatic fetch, for an offer that is recorded. -/
theorem finish_recorded (s : Session) (n : Nat) :
    Matches s (s.evaluate_auto_fetch author offer decision)
      (finish now (n + 7) ⟨author, offer, delivered_from, .recorded decision⟩ s) := by
  have hnext := next.eq_def ⟨author, offer, delivered_from, .recorded decision⟩ s now
  unfold Session.evaluate_auto_fetch
  simp only at hnext
  split
  · rename_i hoff
    rw [if_pos hoff] at hnext
    exact matches_over _ hnext rfl rfl
  · rename_i hon
    rw [if_neg hon] at hnext
    split
    · rename_i hlocal
      rw [if_pos hlocal] at hnext
      exact matches_over _ hnext rfl rfl
    · rename_i hlocal
      rw [if_neg hlocal] at hnext
      have hload : next ⟨author, offer, delivered_from, .fetchable decision⟩ s now =
          (⟨author, offer, delivered_from, .loaded decision s.active_fetches⟩, s, []) := rfl
      rw [finish_next (n + 6) hnext, finish_next (n + 5) hload]
      have hcleared := next.eq_def
        ⟨author, offer, delivered_from, .loaded decision s.active_fetches⟩ s now
      simp only at hcleared
      split
      · rename_i hcheck
        rw [hcheck] at hcleared
        exact matches_over _ hcleared rfl rfl
      · rename_i hcheck
        rw [hcheck] at hcleared
        simp only at hcleared
        split
        · rename_i hrefused
          rw [if_pos hrefused] at hcleared
          exact matches_over _ hcleared rfl rfl
        · rename_i haccepted
          rw [if_neg haccepted] at hcleared
          split
          · rename_i hguard
            rw [if_pos hguard] at hcleared
            rw [finish_next (n + 4) hcleared, finish_next (n + 3) rfl, finish_next (n + 2) rfl,
              finish, next]
            simp only
            rw [finish_over _ rfl]
            exact ⟨rfl, rfl⟩
          · rename_i hguard
            rw [if_neg hguard] at hcleared
            exact matches_over _ hcleared rfl rfl

theorem finish_decided (s : Session) (n : Nat) :
    Matches s (s.record_received author offer decision now)
      (finish now (n + 8) ⟨author, offer, delivered_from, .decided decision⟩ s) := by
  have hnext := next.eq_def ⟨author, offer, delivered_from, .decided decision⟩ s now
  unfold Session.record_received
  simp only at hnext
  rcases hrecord : s.state.record_offer_bounded author offer now with ⟨evicted | _ | _, state⟩
  · rw [hrecord] at hnext
    simp only at hnext ⊢
    rw [finish_next (n + 7) hnext]
    have h : Matches _ _ (finish now (n + 7) _ _) :=
      finish_recorded author offer delivered_from decision
      ((if evicted = [] then { s with state } else
        { s with state }.emit (.ProtocolWarning none (.InventoryEvicted evicted.length))).emit
          (.OfferReceived author offer)) n
    have hfetches : ((if evicted = [] then { s with state } else
        { s with state }.emit (.ProtocolWarning none (.InventoryEvicted evicted.length))).emit
          (.OfferReceived author offer)).fetches = s.fetches := by
      split
      · rfl
      · rfl
    unfold Matches at h ⊢
    rw [hfetches] at h
    exact h
  all_goals
    rw [hrecord] at hnext
    exact matches_over _ hnext rfl rfl

/-- What comes after the first look at the counters. -/
theorem finish_judged (s : Session) (n : Nat) :
    Matches s (s.handle_offer author offer delivered_from now)
      (finish now (n + 10)
        ⟨author, offer, delivered_from, .judged (s.policy_allows author offer)⟩ s) := by
  have hknown : next ⟨author, offer, delivered_from, .judged (s.policy_allows author offer)⟩ s
      now = (⟨author, offer, delivered_from, .known (s.policy_allows author offer)
        (decide (offer.blob_hash ∈ s.state.offers))⟩, s, []) := rfl
  have hnext := next.eq_def ⟨author, offer, delivered_from, .known (s.policy_allows author offer)
    (decide (offer.blob_hash ∈ s.state.offers))⟩ s now
  have hdecision : s.decider offer
      { author, delivered_from, is_new := !decide (offer.blob_hash ∈ s.state.offers)
        policy_allows_auto_fetch := s.policy_allows author offer } =
      s.offer_decision author offer delivered_from := by
    unfold Session.offer_decision
    rw [decide_not]
  rw [finish_next (n + 9) hknown]
  simp only [hdecision] at hnext
  unfold Session.handle_offer
  rcases hanswer : s.offer_decision author offer delivered_from with _ | _ | reason
  · rw [hanswer] at hnext
    rw [finish_next (n + 8) hnext]
    exact finish_decided author offer delivered_from .Accept s n
  · rw [hanswer] at hnext
    rw [finish_next (n + 8) hnext]
    exact finish_decided author offer delivered_from .RecordOnly s n
  · rw [hanswer] at hnext
    exact matches_over _ hnext rfl rfl

end OfferHandler

/-- A handler that nobody disturbs does what `handle_offer` does. -/
theorem finish_handle_offer (s : Session) (author : EndpointId) (offer : OfferV1)
    (delivered_from : EndpointId) (now : Instant) :
    OfferHandler.Matches s (s.handle_offer author offer delivered_from now)
      (OfferHandler.finish now 12 ⟨author, offer, delivered_from, .asked⟩ s) := by
  have hnext := OfferHandler.next.eq_def ⟨author, offer, delivered_from, .asked⟩ s now
  simp only at hnext
  by_cases hlooks : s.policy.auto_fetch ∧ author ≠ s.self_id
  · have hallows : s.policy_allows author offer =
        (s.policy.check_auto_fetch offer s.active_fetches s.auto_fetch_bytes).isOk := by
      unfold Session.policy_allows
      rw [hlooks.1, decide_eq_true hlooks.2]
      rfl
    have hjudged : OfferHandler.next
        ⟨author, offer, delivered_from, .active_read s.active_fetches⟩ s now =
        (⟨author, offer, delivered_from, .judged (s.policy_allows author offer)⟩, s, []) := by
      rw [hallows]
      rfl
    rw [if_pos hlooks] at hnext
    rw [OfferHandler.finish_next 11 hnext, OfferHandler.finish_next 10 hjudged]
    exact OfferHandler.finish_judged author offer delivered_from s 0
  · have hallows : s.policy_allows author offer = false := by
      unfold Session.policy_allows
      rcases hauto : s.policy.auto_fetch
      · rfl
      · have hself : author = s.self_id := by
          by_contra hne
          exact hlooks ⟨hauto, hne⟩
        simp [hself]
    rw [if_neg hlooks, ← hallows] at hnext
    rw [OfferHandler.finish_next 11 hnext]
    exact OfferHandler.finish_judged author offer delivered_from s 1

end iroh_drop
