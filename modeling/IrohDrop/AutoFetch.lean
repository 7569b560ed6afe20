-- The law of automatic fetches: what they store stays within the policy as
-- long as every transfer keeps to the size that was reserved for it.
import IrohDrop.Moves

open rust_std

namespace iroh_drop

/-- One member of a list changes, and the sum changes by it. -/
theorem sum_map_set {α : Type} (f : α → Nat) {l : List α} {i : Nat} {old : α}
    (h : l[i]? = some old) (new : α) :
    ((l.set i new).map f).sum + f old = (l.map f).sum + f new := by
  induction l generalizing i with
  | nil => cases h
  | cons a l ih =>
    cases i with
    | zero =>
      cases h
      simp only [List.set_cons_zero, List.map_cons, List.sum_cons]
      omega
    | succ i =>
      have hrest := ih h
      simp only [List.set_cons_succ, List.map_cons, List.sum_cons]
      omega

/-! ## Policy -/

theorem check_auto_fetch_ok {policy : DropPolicy} {offer : OfferV1} {active : Nat} {spent : UInt64}
    (h : policy.check_auto_fetch offer active spent = .ok ()) :
    offer.size ≤ policy.max_blob_size := by
  simp only [DropPolicy.check_auto_fetch, bind_eq_ok, ensure_eq_ok, exists_const] at h
  exact h.1

section Laws

variable [Crypto]

/-! ## What an automatic fetch takes -/

/-- A fetch that is over, and failed. -/
def FetchTask.failed (self : FetchTask) : Bool :=
  match self.stage with
  | .done (.error _) => true
  | _ => false

/-- The bytes that an automatic fetch has put into the store. -/
def FetchTask.auto_stored (self : FetchTask) : Nat :=
  match self.auto with
  | none => 0
  | some _ => self.stored

/-- The bytes that are reserved for an automatic fetch. One that failed has
given them back. -/
def FetchTask.reserved (self : FetchTask) : Nat :=
  match self.auto with
  | none => 0
  | some size => if self.failed then 0 else size.toNat

/-- The bytes that an automatic fetch has left in the store when it failed. -/
def FetchTask.wasted (self : FetchTask) : Nat :=
  if self.failed then self.auto_stored else 0

/-- The policy holds for what automatic fetches have stored, each by itself
and all together. -/
structure WithinPolicy (s : Session) : Prop where
  blob : ∀ task ∈ s.fetches, task.auto_stored ≤ s.policy.max_blob_size.toNat
  total : (s.fetches.map FetchTask.auto_stored).sum ≤ s.policy.max_total_auto_fetch_bytes.toNat

/-- A transfer of an automatic fetch stays within the size that the offer
advertised, and an offer is taken up only where its size fits the budget
beside what is reserved and what failed fetches have left in the store. -/
structure KeepsReserve (s : Session) (i : Step) : Prop where
  writes : ∀ j bytes status task size attempt outcome,
    i = .fetch_event j (.store_write bytes status) → s.fetches[j]? = some task →
    task.stage = .downloading attempt outcome → task.auto = some size →
    task.stored + bytes ≤ size.toNat
  offers : ∀ frame peer world verified offer active, i.intake = some (frame, peer, world) →
    Session.decode_for_session s.toSessionConfig frame = .ok verified →
    verified.body = some (.Offer offer) → s.policy.auto_fetch = true →
    s.policy.check_auto_fetch offer active s.auto_fetch_bytes = .ok () →
    s.auto_fetch_bytes.toNat + (s.fetches.map FetchTask.wasted).sum + offer.size.toNat ≤
      s.policy.max_total_auto_fetch_bytes.toNat

/-- The accounts: what is reserved is the sum over the fetches, no fetch
stores more than what was reserved for it, and the budget holds what is
reserved beside what failed fetches have left. -/
structure Budgeted (s : Session) : Prop where
  sizes : ∀ task ∈ s.fetches, ∀ size, task.auto = some size →
    size ≤ s.policy.max_blob_size ∧ task.stored ≤ size.toNat
  sum : (s.fetches.map FetchTask.reserved).sum = s.auto_fetch_bytes.toNat
  budget : s.auto_fetch_bytes.toNat + (s.fetches.map FetchTask.wasted).sum ≤
    s.policy.max_total_auto_fetch_bytes.toNat

theorem auto_stored_le {s : Session} (h : Budgeted s) {task : FetchTask} (htask : task ∈ s.fetches) :
    task.auto_stored ≤ task.reserved + task.wasted := by
  unfold FetchTask.wasted FetchTask.reserved FetchTask.auto_stored
  rcases hauto : task.auto with _ | size
  · exact Nat.zero_le _
  · obtain ⟨-, hstored⟩ := h.sizes task htask size hauto
    cases task.failed
    · simpa using hstored
    · simp

/-- Accounts that add up are within the policy. -/
theorem Budgeted.within {s : Session} (h : Budgeted s) : WithinPolicy s := by
  constructor
  · intro task htask
    unfold FetchTask.auto_stored
    rcases hauto : task.auto with _ | size
    · exact Nat.zero_le _
    · obtain ⟨hblob, hstored⟩ := h.sizes task htask size hauto
      exact hstored.trans (UInt64.le_iff_toNat_le.mp hblob)
  · calc (s.fetches.map FetchTask.auto_stored).sum
        ≤ (s.fetches.map fun task => task.reserved + task.wasted).sum :=
          List.sum_le_sum fun task htask => auto_stored_le h htask
      _ = s.auto_fetch_bytes.toNat + (s.fetches.map FetchTask.wasted).sum := by
          rw [List.sum_map_add, h.sum]
      _ ≤ s.policy.max_total_auto_fetch_bytes.toNat := h.budget

theorem Budgeted.congr {s s' : Session} (h : Budgeted s)
    (hconfig : s'.toSessionConfig = s.toSessionConfig)
    (hbytes : s'.auto_fetch_bytes = s.auto_fetch_bytes) (hfetches : s'.fetches = s.fetches) :
    Budgeted s' := by
  have hpolicy : s'.policy = s.policy := congrArg SessionConfig.policy hconfig
  constructor
  · rw [hfetches, hpolicy]
    exact h.sizes
  · rw [hfetches, hbytes]
    exact h.sum
  · rw [hfetches, hbytes, hpolicy]
    exact h.budget

theorem Budgeted.spoke {s s' : Session} {ids : List (FixedBytes 16)} (h : Budgeted s)
    (hspoke : Says s ids s') : Budgeted s' := by
  obtain ⟨hconfig, hbytes, hfetches⟩ := hspoke.accounts
  exact h.congr hconfig hbytes hfetches

/-! ## Reservations -/

/-- An offer that is taken up within the budget. -/
theorem Budgeted.spawn {s : Session} (h : Budgeted s) {offer : OfferV1}
    (hblob : offer.size ≤ s.policy.max_blob_size)
    (hfits : s.auto_fetch_bytes.toNat + (s.fetches.map FetchTask.wasted).sum + offer.size.toNat ≤
      s.policy.max_total_auto_fetch_bytes.toNat) : Budgeted (s.spawn_auto_fetch offer) := by
  have hmax := s.policy.max_total_auto_fetch_bytes.toNat_lt
  have hexact : (s.auto_fetch_bytes + offer.size).toNat =
      s.auto_fetch_bytes.toNat + offer.size.toNat := by
    rw [UInt64.toNat_add, Nat.mod_eq_of_lt (by omega)]
  constructor
  · intro task htask size hauto
    rcases List.mem_append.mp htask with hold | hnew
    · exact h.sizes task hold size hauto
    · rw [List.mem_singleton.mp hnew] at hauto ⊢
      cases hauto
      exact ⟨hblob, Nat.zero_le _⟩
  · have hsum := h.sum
    simp only [Session.spawn_auto_fetch, List.map_append, List.sum_append, List.map_cons,
      List.map_nil, List.sum_cons, List.sum_nil, FetchTask.reserved, FetchTask.failed, hexact, hsum,
      Bool.false_eq_true, if_false, Nat.add_zero]
  · simp only [Session.spawn_auto_fetch, List.map_append, List.sum_append, List.map_cons,
      List.map_nil, List.sum_cons, List.sum_nil, FetchTask.wasted, FetchTask.failed, hexact,
      Bool.false_eq_true, if_false, Nat.add_zero]
    omega

/-- A fetch that the user started is nobody's account. -/
theorem Budgeted.start_fetch {s : Session} (h : Budgeted s) (hash : BlobHash) :
    Budgeted (s.start_fetch hash) := by
  constructor
  · intro task htask size hauto
    rcases List.mem_append.mp htask with hold | hnew
    · exact h.sizes task hold size hauto
    · rw [List.mem_singleton.mp hnew] at hauto
      cases hauto
  · have hsum := h.sum
    simpa [Session.start_fetch, FetchTask.reserved] using hsum
  · have hbudget := h.budget
    simpa [Session.start_fetch, FetchTask.wasted, FetchTask.failed] using hbudget

/-! ## Fetches -/

namespace Session

variable (s : Session) (task : FetchTask)

/-- What is done stays as it is. -/
theorem fetch_step_done {result : Except DropError Unit} (h : task.stage = .done result)
    (event : FetchEvent) : s.fetch_step task event = (task, s) := by
  cases event <;> simp only [fetch_step, h]

theorem finish_local_stored (world : FetchWorld) :
    (s.finish_local task world).1.stored = task.stored := by
  unfold finish_local
  split <;> rfl

theorem run_round_stored (attempt : Nat) (world : FetchWorld) :
    (s.run_round task attempt world).1.stored = task.stored := by
  unfold run_round
  split
  · rfl
  · split <;> rfl

theorem fail_attempt_stored (attempt : Nat) (error : DropError) (world : FetchWorld) :
    (s.fail_attempt task attempt error world).1.stored = task.stored := by
  unfold fail_attempt
  simp only
  split <;> rfl

theorem run_verify_stored (world : FetchWorld) :
    (s.run_verify task world).1.stored = task.stored := by
  unfold run_verify
  split
  · rfl
  · split
    · simp only
      split
      · rfl
      · split <;> rfl
    · rfl

/-- Only a transfer puts bytes into the store. -/
theorem fetch_step_stored {event : FetchEvent}
    (h : ∀ bytes status, event ≠ .store_write bytes status) :
    (s.fetch_step task event).1.stored = task.stored := by
  cases event with
  | run world =>
    simp only [fetch_step]
    split
    · split
      · exact s.finish_local_stored task world
      · rfl
    · exact s.run_round_stored task _ world
    · exact s.run_verify_stored task world
    · rfl
  | poll timed_out =>
    simp only [fetch_step]
    split
    · unfold poll_asking
      split
      · rfl
      · split <;> rfl
    · unfold poll_reasking
      split <;> rfl
    · rfl
  | stream_failed reason world =>
    simp only [fetch_step]
    split
    · exact s.fail_attempt_stored task _ _ world
    · rfl
  | item item =>
    simp only [fetch_step]
    split
    · cases item <;> rfl
    · rfl
  | store_write bytes status => exact absurd rfl (h bytes status)
  | ended world =>
    simp only [fetch_step]
    split
    · unfold end_download
      split
      · rfl
      · exact s.fail_attempt_stored task _ _ world
    · rfl

end Session

/-! ## Steps -/

/-- One fetch moves on: its reservation moves with the counter, and what it
gives back covers what it leaves. -/
theorem Budgeted.replace {s s' : Session} (h : Budgeted s) {j : Nat} {task task' : FetchTask}
    (htask : s.fetches[j]? = some task) (hconfig : s'.toSessionConfig = s.toSessionConfig)
    (hfetches : s'.fetches = s.fetches.set j task') (hauto : task'.auto = task.auto)
    (hstored : ∀ size, task.auto = some size → task'.stored ≤ size.toNat)
    (hbytes : s'.auto_fetch_bytes.toNat + task.reserved =
      s.auto_fetch_bytes.toNat + task'.reserved)
    (hleft : task'.reserved + task'.wasted ≤ task.reserved + task.wasted) : Budgeted s' := by
  have hpolicy : s'.policy = s.policy := congrArg SessionConfig.policy hconfig
  have hreserved := sum_map_set FetchTask.reserved htask task'
  have hwasted := sum_map_set FetchTask.wasted htask task'
  have hsum := h.sum
  have hbudget := h.budget
  constructor
  · intro t ht size hsize
    rw [hfetches] at ht
    rw [hpolicy]
    rcases List.mem_or_eq_of_mem_set ht with hold | rfl
    · exact h.sizes t hold size hsize
    · rw [hauto] at hsize
      exact ⟨(h.sizes task (List.mem_of_getElem? htask) size hsize).1, hstored size hsize⟩
  · rw [hfetches]
    omega
  · rw [hfetches, hpolicy]
    omega

/-- The accounts after an event of a fetch, from what its stretch leaves. -/
theorem Budgeted.fetch_event {s : Session} {j : Nat} {event : FetchEvent} (h : Budgeted s)
    (hmove : ∀ task, s.fetches[j]? = some task → ∀ task' s', s.fetch_step task event = (task', s') →
      Budgeted { s' with fetches := s'.fetches.set j task' }) :
    Budgeted (s.fetch_event j event) := by
  unfold Session.fetch_event
  split
  · exact h
  · rename_i task htask
    exact hmove task htask _ _ rfl

/-- What a fetch stores, it stores within what was reserved for it. -/
theorem Budgeted.store_write {s : Session} (h : Budgeted s) {j bytes : Nat} {status : BlobStatus}
    (hok : KeepsReserve s (.fetch_event j (.store_write bytes status))) :
    Budgeted (s.fetch_event j (.store_write bytes status)) := by
  refine h.fetch_event fun task htask task' s' hstep => ?_
  simp only [Session.fetch_step] at hstep
  split at hstep
  · rename_i attempt outcome hstage
    cases hstep
    refine h.replace htask rfl rfl rfl (fun size hsize => ?_) ?_ ?_
    · exact hok.writes j bytes status task size attempt outcome rfl htask hstage hsize
    · simp only [FetchTask.reserved, FetchTask.failed, hstage]
    · simp only [FetchTask.reserved, FetchTask.wasted, FetchTask.failed, hstage]
      exact Nat.le_refl _
  · cases hstep
    refine h.replace htask rfl rfl rfl (fun size hsize => ?_) rfl (Nat.le_refl _)
    exact (h.sizes task (List.mem_of_getElem? htask) size hsize).2

/-- The fetch with its result. -/
def FetchTask.ended (self : FetchTask) (result : Except DropError Unit) : FetchTask :=
  { self with stage := .done result }

namespace FetchTask

variable {task : FetchTask} {size : UInt64}

theorem reserved_running (hrunning : task.failed = false) (hauto : task.auto = some size) :
    task.reserved = size.toNat := by
  simp only [reserved, hauto, hrunning, Bool.false_eq_true, if_false]

theorem reserved_manual (hauto : task.auto = none) : task.reserved = 0 := by
  simp only [reserved, hauto]

theorem wasted_running (hrunning : task.failed = false) : task.wasted = 0 := by
  simp only [wasted, hrunning, Bool.false_eq_true, if_false]

theorem wasted_manual (hauto : task.auto = none) : task.wasted = 0 := by
  simp only [wasted, auto_stored, hauto, ite_self]

theorem reserved_failed (task : FetchTask) (e : DropError) :
    (task.ended (.error e)).reserved = 0 := by
  unfold reserved
  split <;> rfl

theorem wasted_failed (e : DropError) (hauto : task.auto = some size) :
    (task.ended (.error e)).wasted = task.stored := by
  have hstored : (task.ended (.error e)).auto_stored = task.stored := by
    simp only [auto_stored, ended, hauto]
  exact hstored

/-- A fetch that ends leaves what it gives back, at most. -/
theorem ended_left (hrunning : task.failed = false)
    (hstored : ∀ size, task.auto = some size → task.stored ≤ size.toNat)
    (result : Except DropError Unit) :
    (task.ended result).reserved + (task.ended result).wasted ≤ task.reserved + task.wasted := by
  rcases hauto : task.auto with _ | size
  · have hauto' : (task.ended result).auto = none := hauto
    rw [reserved_manual hauto', wasted_manual hauto']
    exact Nat.zero_le _
  · have hauto' : (task.ended result).auto = some size := hauto
    rw [reserved_running hrunning hauto]
    rcases result with e | _
    · rw [reserved_failed, wasted_failed e hauto]
      have hfits := hstored size hauto
      omega
    · rw [reserved_running rfl hauto', wasted_running rfl]
      exact Nat.le_add_right _ _

end FetchTask

/-- What a fetch has reserved is part of the counter. -/
theorem Budgeted.reserved_le {s : Session} (h : Budgeted s) {task : FetchTask} {size : UInt64}
    (htask : task ∈ s.fetches) (hrunning : task.failed = false) (hauto : task.auto = some size) :
    size ≤ s.auto_fetch_bytes := by
  rw [UInt64.le_iff_toNat_le, ← h.sum, ← FetchTask.reserved_running hrunning hauto]
  exact List.le_sum_of_mem (List.mem_map_of_mem htask)

theorem Session.finish_fetch_fetches (s : Session) (task : FetchTask)
    (result : Except DropError Unit) : (s.finish_fetch task result).2.fetches = s.fetches := by
  unfold finish_fetch
  rcases result with e | _ <;> rcases task.auto with _ | size
  all_goals rfl

/-- The counter moves with the reservation. -/
theorem Session.finish_fetch_bytes (s : Session) {task : FetchTask} (hrunning : task.failed = false)
    (hle : ∀ size, task.auto = some size → size ≤ s.auto_fetch_bytes)
    (result : Except DropError Unit) :
    (s.finish_fetch task result).2.auto_fetch_bytes.toNat + task.reserved =
      s.auto_fetch_bytes.toNat + (task.ended result).reserved := by
  unfold finish_fetch
  rcases hauto : task.auto with _ | size
  · have hauto' : (task.ended result).auto = none := hauto
    rw [FetchTask.reserved_manual hauto, FetchTask.reserved_manual hauto']
    rcases result with e | _
    all_goals rfl
  · have hauto' : (task.ended result).auto = some size := hauto
    rw [FetchTask.reserved_running hrunning hauto]
    rcases result with e | _
    · have hback := UInt64.toNat_sub_of_le _ _ (hle size hauto)
      have hle' := UInt64.le_iff_toNat_le.mp (hle size hauto)
      rw [FetchTask.reserved_failed]
      exact (congrArg (· + size.toNat) hback).trans (Nat.sub_add_cancel hle')
    · rw [FetchTask.reserved_running rfl hauto']
      rfl

/-- A fetch ends, and its reservation with it. -/
theorem Budgeted.finish {s s₁ : Session} {ids : List (FixedBytes 16)} (h : Budgeted s) {j : Nat}
    {task task' : FetchTask} (htask : s.fetches[j]? = some task) (hspoke : Says s ids s₁)
    (hrunning : task.failed = false) (hauto : task'.auto = task.auto)
    (hstored : task'.stored = task.stored) (hstage : task'.stage = task.stage)
    (result : Except DropError Unit) :
    Budgeted { (s₁.finish_fetch task' result).2 with
      fetches := (s₁.finish_fetch task' result).2.fetches.set j (task'.ended result) } := by
  obtain ⟨hconfig, hbytes, hfetches⟩ := hspoke.accounts
  have hmem := List.mem_of_getElem? htask
  have hrunning' : task'.failed = false := by
    rw [← hrunning]
    simp only [FetchTask.failed, hstage]
  have hwithin : ∀ size, task'.auto = some size → task'.stored ≤ size.toNat := by
    intro size hs
    rw [hstored]
    exact (h.sizes task hmem size (hauto ▸ hs)).2
  have hle : ∀ size, task'.auto = some size → size ≤ s₁.auto_fetch_bytes := by
    intro size hs
    rw [hbytes]
    exact h.reserved_le hmem hrunning (hauto ▸ hs)
  have hreserved : task'.reserved = task.reserved := by
    simp only [FetchTask.reserved, hauto, hrunning, hrunning']
  have hended : (task'.ended result).auto = task.auto := hauto
  refine h.replace htask ?_ ?_ hended ?_ ?_ ?_
  · exact (s₁.finish_fetch_keeps task' result).1.trans hconfig
  · exact congrArg (fun l => l.set j (task'.ended result))
      ((s₁.finish_fetch_fetches task' result).trans hfetches)
  · intro size hs
    exact hwithin size (hauto.trans hs)
  · rw [← hreserved, ← hbytes]
    exact s₁.finish_fetch_bytes hrunning' hle result
  · rw [← hreserved, FetchTask.wasted_running hrunning, ← FetchTask.wasted_running hrunning']
    exact FetchTask.ended_left hrunning' hwithin result

/-- Every event of a fetch but a transfer. -/
theorem Budgeted.moved {s : Session} (h : Budgeted s) (j : Nat) {event : FetchEvent}
    (hevent : ∀ bytes status, event ≠ .store_write bytes status) :
    Budgeted (s.fetch_event j event) := by
  refine h.fetch_event fun task htask task' s' hstep => ?_
  have hsize := h.sizes task (List.mem_of_getElem? htask)
  by_cases hdone : ∃ result, task.stage = .done result
  · obtain ⟨result, hdone⟩ := hdone
    rw [s.fetch_step_done task hdone] at hstep
    cases hstep
    exact h.replace htask rfl rfl rfl (fun size hs => (hsize size hs).2) rfl (Nat.le_refl _)
  · have hstored := s.fetch_step_stored task hevent
    have hfetch := s.fetchMove_fetch_step task event
    have hrunning : task.failed = false := by
      unfold FetchTask.failed
      split
      · rename_i e hstage
        exact absurd ⟨_, hstage⟩ hdone
      · rfl
    rw [hstep] at hstored hfetch
    cases hfetch with
    | goes_on spoke auto _ running =>
      obtain ⟨hconfig, hbytes, hfetches⟩ := spoke.accounts
      have hrunning' : task'.failed = false := by
        unfold FetchTask.failed
        split
        · rename_i e hstage
          exact absurd ⟨_, running _ hstage⟩ hdone
        · rfl
      have hstored' : ∀ size, task.auto = some size → task'.stored ≤ size.toNat := by
        intro size hs
        rw [show task'.stored = task.stored from hstored]
        exact (hsize size hs).2
      refine h.replace htask hconfig (congrArg (·.set j task') hfetches) auto hstored' ?_ ?_
      · simp only [FetchTask.reserved, auto, hrunning, hrunning']
        exact congrArg (· + _) (congrArg UInt64.toNat hbytes)
      · simp only [FetchTask.reserved, FetchTask.wasted, auto, hrunning, hrunning']
        exact Nat.le_refl _
    | writes bytes quiet _ =>
      have hnone : bytes = 0 := Nat.left_eq_add.mp hstored.symm
      subst hnone
      exact h.replace htask quiet.config (congrArg (fun l => l.set j task) quiet.fetches) rfl
        (fun size hs => (hsize size hs).2)
        (congrArg (· + _) (congrArg UInt64.toNat quiet.auto_fetch_bytes)) (Nat.le_refl _)
    | @finishes s₁ task₁ result spoke auto stored _ =>
      -- The stage that the task comes with makes no difference to its end.
      have hauto : ({ task₁ with stage := task.stage } : FetchTask).auto = task.auto := auto
      exact h.finish htask spoke hrunning hauto stored rfl result

/-- A message of the wire: an offer that it carries is taken up within the
budget. -/
theorem Budgeted.took {s : Session} (h : Budgeted s) {i : Step} (hok : KeepsReserve s i)
    {frame : Bytes} {peer : EndpointId} {world : IntakeWorld} {verified : VerifiedMessage}
    (hintake : i.intake = some (frame, peer, world))
    (hdecoded : Session.decode_for_session s.toSessionConfig frame = .ok verified) :
    Budgeted (s.handle_message verified peer frame world) := by
  rcases ha : s.admits peer world.draw.now
  · have hquiet := s.handle_message_limited ha verified frame
    exact h.congr hquiet.config hquiet.auto_fetch_bytes hquiet.fetches
  rcases hf : s.state.is_fresh verified.key world.draw.now
  · obtain ⟨s₁, heq, hconfig, -, -, hbytes, hfetches⟩ := s.handle_message_known ha hf frame
    rw [heq]
    exact h.congr hconfig hbytes hfetches
  rw [s.handle_message_fresh ha hf frame]
  have htaken : Budgeted (s.taken verified peer frame world.draw.now) := h.congr rfl rfl rfl
  have hdispatched := (s.taken verified peer frame world.draw.now).dispatched verified peer world
  generalize (s.taken verified peer frame world.draw.now).dispatch verified peer world = s'
    at hdispatched ⊢
  cases hdispatched with
  | quietly quiet _ => exact htaken.congr quiet.config quiet.auto_fetch_bytes quiet.fetches
  | @reserves s₁ offer quiet body auto check =>
    have hfits := hok.offers frame peer world verified offer _ hintake hdecoded body auto check
    have hpolicy : s₁.policy = s.policy := congrArg SessionConfig.policy quiet.config
    have hbytes : s₁.auto_fetch_bytes = s.auto_fetch_bytes := quiet.auto_fetch_bytes
    have hfetches : s₁.fetches = s.fetches := quiet.fetches
    refine (htaken.congr quiet.config quiet.auto_fetch_bytes quiet.fetches).spawn ?_ ?_
    · rw [hpolicy]
      exact check_auto_fetch_ok check
    · rw [hpolicy, hbytes, hfetches]
      exact hfits
  | @answers s₁ request quiet _ _ =>
    have hanswering := htaken.congr quiet.config quiet.auto_fetch_bytes quiet.fetches
    unfold Session.reply_available
    simp only
    split
    · exact hanswering.congr rfl rfl rfl
    · exact hanswering

/-- Frames that are read back open no account. -/
theorem Budgeted.restore_history {s : Session} (h : Budgeted s) (frames : List (Bytes × Instant)) :
    Budgeted (s.restore_history frames).2 := by
  induction frames generalizing s with
  | nil => exact h
  | cons frame frames ih =>
    obtain ⟨frame, now⟩ := frame
    rw [Session.restore_history_cons]
    apply ih
    have hrestored := s.restored frame now
    generalize (s.restore_frame frame now).2 = s₁ at hrestored ⊢
    cases hrestored with
    | skipped => exact h
    | noted _ _ config _ _ bytes fetches => exact h.congr config bytes fetches
    | kept _ _ _ _ config _ _ bytes fetches => exact h.congr config bytes fetches

/-- A step that keeps to its reserve keeps the accounts. -/
theorem Budgeted.step {s : Session} {i : Step} (h : Budgeted s) (hok : KeepsReserve s i) :
    Budgeted (s.step i) := by
  have hstepped := stepped s i
  generalize s.step i = s' at hstepped ⊢
  cases hstepped with
  | spoke spoke => exact h.spoke spoke
  | took verified intake decoded => exact h.took hok intake decoded
  | restored frames => exact h.restore_history frames
  | fetches hash => exact h.start_fetch hash
  | fetched j event =>
    by_cases hevent : ∃ bytes status, event = .store_write bytes status
    · obtain ⟨bytes, status, rfl⟩ := hevent
      exact h.store_write hok
    · exact h.moved j (fun bytes status heq => hevent ⟨bytes, status, heq⟩)

theorem budgeted_new (secret : SecretKey) (policy : DropPolicy) (decider : OfferDecider)
    (topic_id : TopicId) (ticket : DropTicket) (drop_key : Option DropKey)
    (store : BlobHash → BlobStatus) :
    Budgeted (.new secret policy decider topic_id ticket drop_key store) :=
  ⟨fun _ htask => (nomatch htask), rfl, Nat.zero_le _⟩

/-- Automatic fetches take no more disk than the policy allows, in every state
of a run whose transfers and offers keep to what was reserved. -/
theorem auto_fetch_stays_within_policy (secret : SecretKey) (policy : DropPolicy)
    (decider : OfferDecider) (topic_id : TopicId) (ticket : DropTicket) (drop_key : Option DropKey)
    (store : BlobHash → BlobStatus) (steps : List Step)
    (h : runs.Meets Session.step KeepsReserve
      (.new secret policy decider topic_id ticket drop_key store) steps)
    (past : List Step) (hpast : past <+: steps) :
    WithinPolicy ((Session.new secret policy decider topic_id ticket drop_key store).run past) := by
  obtain ⟨rest, rfl⟩ := hpast
  have hmeets := ((runs.meets_append _ past rest).mp h).1
  exact (runs.invariant_of_meets (fun _ _ hinv hok => hinv.step hok)
    (budgeted_new secret policy decider topic_id ticket drop_key store) hmeets).within

end Laws

/-! ## An offer that understates its size -/

namespace understated_offer

local instance : Crypto := Crypto.clear

def topic : TopicId := ⟨.fill 32 8⟩
def author : SecretKey := ⟨.fill 32 2⟩

def policy : DropPolicy :=
  { auto_fetch := true, max_blob_size := 10, max_total_auto_fetch_bytes := 10 }

/-- A member whose policy takes ten bytes. -/
def member : Session :=
  .new ⟨.fill 32 1⟩ policy PolicyDecider topic (.nodeless topic.as_bytes none) none
    (fun _ => .NotFound)

/-- A blob of one byte, as its author has it. -/
def offer : OfferV1 :=
  { blob_hash := ⟨.fill 32 7⟩, name := "a", size := 1, media_type := none, created_at_ms := none
    metadata := ∅ }

def frame : Bytes :=
  match Session.encode_for_session { member.toSessionConfig with secret := author }
    (.new (.Offer offer) (.fill 16 3) 0) (.fill 24 0) with
  | .ok bytes => bytes
  | .error _ => []

def draw : Draw :=
  { now := 0, sent_at_ms := 0, id := .fill 16 4, nonce := .fill 24 0, carried := .ok () }

def fetched : FetchWorld :=
  { draw, complete := { now := 0, tag_set := .ok (), announced_at_ms := 0, draw }
    exported := .ok () }

/-- The offer comes, and its blob of `bytes` bytes is fetched. -/
def steps (bytes : Nat) : List Step :=
  [.received frame author.public { draw, announced_at_ms := 0 }, .fetch_event 0 (.run fetched),
    .fetch_event 0 (.run fetched), .fetch_event 0 (.store_write bytes (.Partial none))]

theorem decoded : (Session.decode_for_session member.toSessionConfig frame).toOption.bind
    VerifiedMessage.body = some (.Offer offer) := by decide +kernel

/-- One byte is reserved, a thousand are stored, and the policy allows ten. -/
theorem a_transfer_exceeds_the_policy :
    ((member.run (steps 1000)).fetches.map FetchTask.auto_stored).sum = 1000 ∧
      ¬ ∀ [Crypto] (secret : SecretKey) (policy : DropPolicy) (decider : OfferDecider)
        (topic_id : TopicId) (ticket : DropTicket) (drop_key : Option DropKey)
        (store : BlobHash → BlobStatus) (steps : List Step),
        WithinPolicy ((Session.new secret policy decider topic_id ticket drop_key store).run
          steps) := by
  have hstored : ((member.run (steps 1000)).fetches.map FetchTask.auto_stored).sum = 1000 := by
    decide +kernel
  have hpolicy : (member.run (steps 1000)).policy.max_total_auto_fetch_bytes.toNat = 10 := by
    decide +kernel
  refine ⟨hstored, fun h => ?_⟩
  have hwithin : WithinPolicy (member.run (steps 1000)) := h _ _ _ _ _ _ _ _
  have htotal := hwithin.total
  rw [hstored, hpolicy] at htotal
  exact absurd htotal (by decide)

theorem keeps_received {s : Session} {content : Bytes} {peer : EndpointId} {world : IntakeWorld}
    (h : (Session.decode_for_session s.toSessionConfig content).toOption.bind VerifiedMessage.body =
      some (.Offer offer))
    (hfits : s.auto_fetch_bytes.toNat + (s.fetches.map FetchTask.wasted).sum + offer.size.toNat ≤
      s.policy.max_total_auto_fetch_bytes.toNat) :
    KeepsReserve s (.received content peer world) := by
  refine ⟨fun _ _ _ _ _ _ _ h => (nomatch h), ?_⟩
  intro content' peer' world' verified offer' active hintake hverified hbody _ _
  simp only [Step.intake, Option.some.injEq, Prod.mk.injEq] at hintake
  obtain ⟨rfl, -, -⟩ := hintake
  have hsame : offer' = offer := by
    simpa [hverified, Except.toOption, hbody] using h
  rw [hsame]
  exact hfits

theorem keeps_run (s : Session) (world : FetchWorld) : KeepsReserve s (.fetch_event 0 (.run world)) :=
  ⟨fun _ _ _ _ _ _ _ h => (nomatch h), fun _ _ _ _ _ _ h => (nomatch h)⟩

theorem keeps_write {s : Session} {status : BlobStatus}
    (h : (s.fetches[0]?).map (fun task => (task.auto, task.stored)) = some (some 1, 0)) :
    KeepsReserve s (.fetch_event 0 (.store_write 1 status)) := by
  refine ⟨?_, fun _ _ _ _ _ _ h => (nomatch h)⟩
  intro j bytes status' task size attempt outcome hevent htask _ hauto
  obtain ⟨rfl, hwrite⟩ := Step.fetch_event.inj hevent
  obtain ⟨rfl, -⟩ := FetchEvent.store_write.inj hwrite
  simp only [htask, hauto, Option.map_some, Option.some.injEq, Prod.mk.injEq] at h
  obtain ⟨rfl, hstored⟩ := h
  rw [hstored]
  decide

/-- The offer fits the budget, and its one transfer what it reserved. -/
theorem honest : runs.Meets Session.step KeepsReserve member (steps 1) :=
  ⟨keeps_received decoded (by decide +kernel), keeps_run _ _, keeps_run _ _,
    keeps_write (by decide +kernel), trivial⟩

/-- The law at work on an honest offer. -/
theorem an_honest_fetch_stays_within_policy : WithinPolicy (member.run (steps 1)) :=
  auto_fetch_stays_within_policy _ _ _ _ _ _ _ (steps 1) honest (steps 1) (List.prefix_refl _)

end understated_offer

end iroh_drop
