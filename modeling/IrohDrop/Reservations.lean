-- The law of reservations: the two counters are what they stand for, and stay
-- within the policy, as long as no automatic fetch starts while another
-- handler is between its look at the counters and its own increments.
import IrohDrop.AutoFetch
import IrohDrop.OfferHandlers

open rust_std

namespace iroh_drop

/-- A member of a list of which one member changed. -/
theorem getElem?_set_cases {α : Type} {l : List α} {k i : Nat} {new x : α}
    (h : (l.set k new)[i]? = some x) : (i = k ∧ x = new) ∨ (i ≠ k ∧ l[i]? = some x) := by
  rw [List.getElem?_set] at h
  split at h
  · rename_i hik
    split at h
    · cases h
      exact .inl ⟨hik.symm, rfl⟩
    · cases h
  · rename_i hik
    exact .inr ⟨fun heq => hik heq.symm, h⟩

theorem check_auto_fetch_room {policy : DropPolicy} {offer : OfferV1} {active : Nat}
    {spent : UInt64} (h : policy.check_auto_fetch offer active spent = .ok ()) :
    active < policy.max_concurrent_fetches ∧
      saturating_add spent offer.size ≤ policy.max_total_auto_fetch_bytes := by
  simp only [DropPolicy.check_auto_fetch, bind_eq_ok, ensure_eq_ok, exists_const] at h
  exact ⟨h.2.2.1, h.2.2.2⟩

/-- A sum that passed the check fits the counter, where the policy sets a
limit or the sum fits anyway. -/
theorem reserve_fits {held spent size max : UInt64} (hle : held ≤ spent)
    (hcheck : saturating_add spent size ≤ max)
    (hfits : max.toNat < 2 ^ 64 - 1 ∨ held.toNat + size.toNat < 2 ^ 64) :
    (held + size).toNat = held.toNat + size.toNat ∧ held + size ≤ max := by
  have hle' := UInt64.le_iff_toNat_le.mp hle
  have hcheck' := UInt64.le_iff_toNat_le.mp hcheck
  have hmax := max.toNat_lt
  have hsum : held.toNat + size.toNat < 2 ^ 64 ∧ held.toNat + size.toNat ≤ max.toNat := by
    unfold saturating_add at hcheck'
    split at hcheck'
    · rename_i hsmall
      rw [UInt64.toNat_add, Nat.mod_eq_of_lt hsmall] at hcheck'
      omega
    · have htop : (UInt64.ofNat (2 ^ 64 - 1)).toNat = 2 ^ 64 - 1 := by decide
      rw [htop] at hcheck'
      omega
  have hexact : (held + size).toNat = held.toNat + size.toNat := by
    rw [UInt64.toNat_add, Nat.mod_eq_of_lt hsum.1]
  exact ⟨hexact, UInt64.le_iff_toNat_le.mpr (hexact ▸ hsum.2)⟩

section Laws

variable [Crypto]

/-! ## What one operation does -/

/-- The counters and the configuration stay. -/
structure SameAccounts (a b : Session) : Prop where
  config : b.toSessionConfig = a.toSessionConfig
  active_fetches : b.active_fetches = a.active_fetches
  auto_fetch_bytes : b.auto_fetch_bytes = a.auto_fetch_bytes

namespace OfferHandler

/-- What the handler has read covers the counters as they are now. -/
def Covers (s : Session) (self : OfferHandler) : Prop :=
  match self.stage with
  | .loaded _ active => s.active_fetches ≤ active
  | .cleared active spent => s.active_fetches ≤ active ∧ s.auto_fetch_bytes ≤ spent ∧
      s.policy.check_auto_fetch self.offer active spent = .ok ()
  | .reserved => s.active_fetches < s.policy.max_concurrent_fetches
  | _ => True

/-- What one operation of a handler does: nothing to the accounts, one of the
two increments, or the spawn. -/
inductive Moved (self : OfferHandler) (s : Session) : OfferHandler × Session × List AutoTask → Prop
  where
  | quietly {handler : OfferHandler} {s' : Session} (accounts : SameAccounts s s')
      (held : handler.held = self.held) (bytes : handler.bytes = self.bytes)
      (whole : handler.halfway = false)
      (uncleared : ∀ active spent, self.stage ≠ .cleared active spent)
      (window : handler.window = true →
        self.window = true ∨ ∃ decision, self.stage = .fetchable decision)
      (covers : self.Covers s → handler.Covers s') : Moved self s (handler, s', [])
  | reserves {active : Nat} {spent : UInt64} (stage : self.stage = .cleared active spent) :
      Moved self s ({ self with stage := .reserved },
        { s with auto_fetch_bytes := s.auto_fetch_bytes + self.offer.size }, [])
  | counts (stage : self.stage = .reserved) :
      Moved self s ({ self with stage := .counted },
        { s with active_fetches := s.active_fetches + 1 }, [])
  | spawns (stage : self.stage = .counted) :
      Moved self s ({ self with stage := .over }, s, [⟨self.offer, .running⟩])

/-- A handler that is outside the window before and after. -/
theorem Moved.outside {self : OfferHandler} {s s' : Session} {stage : OfferStage}
    (accounts : SameAccounts s s') (hheld : self.held = 0) (hbytes : self.bytes = 0)
    (huncleared : ∀ active spent, self.stage ≠ .cleared active spent)
    (hstage : (match stage with
      | .loaded _ _ | .cleared _ _ | .reserved | .counted => False
      | _ => True)) :
    Moved self s ({ self with stage }, s', []) := by
  have hall : held { self with stage } = 0 ∧ bytes { self with stage } = 0 ∧
      halfway { self with stage } = false ∧ window { self with stage } = false ∧
      Covers s' { self with stage } := by
    cases stage <;> first | exact hstage.elim | exact ⟨rfl, rfl, rfl, rfl, trivial⟩
  obtain ⟨hheld', hbytes', hhalfway, hwindow, hcovers⟩ := hall
  refine .quietly accounts (hheld'.trans hheld.symm) (hbytes'.trans hbytes.symm) hhalfway huncleared
    (fun h => ?_) (fun _ => hcovers)
  rw [hwindow] at h
  cases h

theorem moved (self : OfferHandler) (s : Session) (now : Instant) :
    Moved self s (self.next s now) := by
  have hsame : SameAccounts s s := ⟨rfl, rfl, rfl⟩
  unfold next
  rcases hstage : self.stage with _ | active | allowed | ⟨allowed, is_known⟩ | decision | decision |
    decision | ⟨decision, active⟩ | ⟨active, spent⟩ | _ | _ | _
  case cleared => exact .reserves hstage
  case reserved => exact .counts hstage
  case counted => exact .spawns hstage
  all_goals
    have hheld : self.held = 0 := by simp [held, hstage]
    have hbytes : self.bytes = 0 := by simp [bytes, hstage]
    have huncleared : ∀ active spent, self.stage ≠ .cleared active spent := by simp [hstage]
    simp only
  case asked =>
    split
    · exact .outside hsame hheld hbytes huncleared trivial
    · exact .outside hsame hheld hbytes huncleared trivial
  case active_read => exact .outside hsame hheld hbytes huncleared trivial
  case judged => exact .outside hsame hheld hbytes huncleared trivial
  case known =>
    split
    · exact .outside ⟨rfl, rfl, rfl⟩ hheld hbytes huncleared trivial
    · exact .outside hsame hheld hbytes huncleared trivial
  case decided =>
    split
    · exact .outside ⟨rfl, rfl, rfl⟩ hheld hbytes huncleared trivial
    · exact .outside ⟨rfl, rfl, rfl⟩ hheld hbytes huncleared trivial
    · refine .outside ?_ hheld hbytes huncleared trivial
      split
      · exact ⟨rfl, rfl, rfl⟩
      · exact ⟨rfl, rfl, rfl⟩
  case recorded =>
    split
    · exact .outside hsame hheld hbytes huncleared trivial
    · split
      · exact .outside hsame hheld hbytes huncleared trivial
      · exact .outside hsame hheld hbytes huncleared trivial
  case fetchable =>
    exact .quietly hsame hheld.symm hbytes.symm rfl huncleared (fun _ => .inr ⟨_, hstage⟩)
      (fun _ => le_refl _)
  case loaded =>
    split
    · exact .outside ⟨rfl, rfl, rfl⟩ hheld hbytes huncleared trivial
    · rename_i hcheck
      split
      · exact .outside hsame hheld hbytes huncleared trivial
      · split
        · refine .quietly hsame hheld.symm hbytes.symm rfl huncleared
            (fun _ => .inl (by simp [window, hstage])) (fun hcovers => ?_)
          simp only [Covers, hstage] at hcovers
          exact ⟨hcovers, UInt64.le_refl _, hcheck⟩
        · exact .outside hsame hheld hbytes huncleared trivial
  all_goals exact .outside hsame hheld hbytes huncleared trivial

end OfferHandler

/-! ## The accounts -/

namespace Desk

/-- The counters are what they stand for and within the policy, and each fetch
that was started had passed the check, with counters that covered all that was
under way. -/
structure Exact (desk : Desk) : Prop where
  active : desk.session.active_fetches = desk.fetches
  active_le : desk.session.active_fetches ≤ desk.session.policy.max_concurrent_fetches
  bytes : desk.session.auto_fetch_bytes.toNat = desk.bytes
  bytes_le : desk.session.auto_fetch_bytes ≤ desk.session.policy.max_total_auto_fetch_bytes
  starts : ∀ start ∈ desk.starts,
    desk.session.policy.check_auto_fetch start.offer start.active start.spent = .ok () ∧
      start.fetches ≤ start.active ∧ start.bytes ≤ start.spent.toNat

/-- What a step must find. A handler that looks at the counters finds no other
between its two increments. A handler that reserves finds no other between its
look at the counters and its increments, and where the policy sets no limit to
the bytes, a sum that still fits the counter. -/
def Undisturbed (self : Desk) : DeskStep → Prop
  | .handle k _ => ∀ handler, self.handlers[k]? = some handler → match handler.stage with
    | .fetchable _ =>
      ∀ j other, j ≠ k → self.handlers[j]? = some other → other.halfway = false
    | .cleared _ _ =>
      (∀ j other, j ≠ k → self.handlers[j]? = some other → other.window = false) ∧
      (self.session.policy.max_total_auto_fetch_bytes.toNat < 2 ^ 64 - 1 ∨
        self.session.auto_fetch_bytes.toNat + handler.offer.size.toNat < 2 ^ 64)
    | _ => True
  | _ => True

/-- The invariant behind it: what a handler in the window has read covers the
counters, and a handler between its increments is alone in the window. -/
structure Accounted (desk : Desk) : Prop extends Exact desk where
  covers : ∀ handler ∈ desk.handlers, handler.Covers desk.session
  alone : ∀ (i j : Nat) (a b : OfferHandler), desk.handlers[i]? = some a → desk.handlers[j]? = some b →
    i ≠ j → a.halfway = true → b.window = false

variable {desk : Desk}

/-- Counters that are as large as before or smaller are covered as before. -/
theorem covers_of_le {handler : OfferHandler} {s s' : Session}
    (hconfig : s'.toSessionConfig = s.toSessionConfig)
    (hactive : s'.active_fetches ≤ s.active_fetches)
    (hbytes : s'.auto_fetch_bytes ≤ s.auto_fetch_bytes) (h : handler.Covers s) :
    handler.Covers s' := by
  have hpolicy : s'.policy = s.policy := congrArg SessionConfig.policy hconfig
  unfold OfferHandler.Covers at h ⊢
  rw [hpolicy]
  rcases hstage : handler.stage with _ | active | allowed | ⟨allowed, is_known⟩ | decision |
    decision | decision | ⟨decision, active⟩ | ⟨active, spent⟩ | _ | _ | _
  case loaded =>
    rw [hstage] at h
    exact hactive.trans h
  case cleared =>
    rw [hstage] at h
    exact ⟨hactive.trans h.1, UInt64.le_trans hbytes h.2.1, h.2.2⟩
  case reserved =>
    rw [hstage] at h
    exact lt_of_le_of_lt hactive h
  all_goals trivial

/-- A handler outside the window has read nothing that must be covered. -/
theorem covers_of_outside {handler : OfferHandler} (h : handler.window = false) (s : Session) :
    handler.Covers s := by
  unfold OfferHandler.window at h
  unfold OfferHandler.Covers
  split <;> first | trivial | (rename_i hstage; simp [hstage] at h)

theorem window_of_halfway {handler : OfferHandler} (h : handler.halfway = true) :
    handler.window = true := by
  unfold OfferHandler.halfway at h
  unfold OfferHandler.window
  split at h
  · rename_i hstage
    rw [hstage]
  · cases h

/-- One handler changes, and the counters by as much as it holds more. -/
theorem Accounted.replace (h : desk.Accounted) {k : Nat} {handler handler' : OfferHandler}
    (hk : desk.handlers[k]? = some handler) {session : Session} {spawned : List AutoTask}
    {starts : List FetchStart}
    (hactive : session.active_fetches + handler.held =
      desk.session.active_fetches + handler'.held + (spawned.map AutoTask.held).sum)
    (hactive_le : session.active_fetches ≤ session.policy.max_concurrent_fetches)
    (hbytes : session.auto_fetch_bytes.toNat + handler.bytes =
      desk.session.auto_fetch_bytes.toNat + handler'.bytes + (spawned.map AutoTask.bytes).sum)
    (hbytes_le : session.auto_fetch_bytes ≤ session.policy.max_total_auto_fetch_bytes)
    (hstarts : ∀ start ∈ starts,
      session.policy.check_auto_fetch start.offer start.active start.spent = .ok () ∧
        start.fetches ≤ start.active ∧ start.bytes ≤ start.spent.toNat)
    (hnew : handler'.Covers session)
    (hcovers : ∀ j other, j ≠ k → desk.handlers[j]? = some other → other.Covers session)
    (hhalfway : handler'.halfway = true → ∀ j other, j ≠ k → desk.handlers[j]? = some other →
      other.window = false)
    (hwindow : handler'.window = true → ∀ j other, j ≠ k → desk.handlers[j]? = some other →
      other.halfway = false) :
    Accounted ⟨session, desk.handlers.set k handler', desk.tasks ++ spawned, starts⟩ := by
  have hheld := sum_map_set OfferHandler.held hk handler'
  have hsize := sum_map_set OfferHandler.bytes hk handler'
  have hold := h.active
  have hold' := h.bytes
  unfold fetches at hold
  unfold Desk.bytes at hold'
  refine ⟨⟨?_, hactive_le, ?_, hbytes_le, hstarts⟩, fun x hx => ?_, fun i j a b ha hb hne hhalf => ?_⟩
  · simp only [fetches, List.map_append, List.sum_append]
    omega
  · simp only [Desk.bytes, List.map_append, List.sum_append]
    omega
  · obtain ⟨i, hi⟩ := List.mem_iff_getElem?.mp hx
    rcases getElem?_set_cases hi with ⟨-, rfl⟩ | ⟨hik, hold⟩
    · exact hnew
    · exact hcovers i x hik hold
  · rcases getElem?_set_cases ha with ⟨rfl, rfl⟩ | ⟨hik, hold⟩
    · rcases getElem?_set_cases hb with ⟨rfl, -⟩ | ⟨hjk, hold'⟩
      · exact absurd rfl hne
      · exact hhalfway hhalf j b hjk hold'
    · rcases getElem?_set_cases hb with ⟨rfl, rfl⟩ | ⟨hjk, hold'⟩
      · by_contra hin
        have hnot := hwindow (by simpa using hin) i a hik hold
        rw [hhalf] at hnot
        cases hnot
      · exact h.alone i j a b hold hold' hne hhalf

end Desk

namespace Desk

variable {desk : Desk}

theorem accounted_handle (h : desk.Accounted) (k : Nat) (now : Instant)
    (hcalm : desk.Undisturbed (.handle k now)) : (desk.handle k now).Accounted := by
  unfold handle
  rcases hk : desk.handlers[k]? with _ | handler
  · exact h
  · have hcalm := hcalm handler hk
    have hcovers := h.covers handler (List.mem_of_getElem? hk)
    have hothers : ∀ j other, j ≠ k → desk.handlers[j]? = some other →
        other.Covers desk.session := fun j other _ hj => h.covers other (List.mem_of_getElem? hj)
    simp only
    have hmoved := handler.moved desk.session now
    generalize hr : handler.next desk.session now = r at hmoved
    cases hmoved with
    | @quietly handler' session accounts held bytes whole uncleared window covers =>
      have hpolicy : session.policy = desk.session.policy :=
        congrArg SessionConfig.policy accounts.config
      have hnoted : desk.noted handler = [] := by
        unfold noted
        split
        · rename_i active spent hstage
          exact absurd hstage (uncleared active spent)
        · rfl
      rw [hnoted]
      refine h.replace hk ?_ ?_ ?_ ?_ ?_ (covers hcovers) ?_ ?_ ?_
      · rw [accounts.active_fetches, held]
        rfl
      · rw [accounts.active_fetches, hpolicy]
        exact h.active_le
      · rw [accounts.auto_fetch_bytes, bytes]
        rfl
      · rw [accounts.auto_fetch_bytes, hpolicy]
        exact h.bytes_le
      · rw [List.append_nil, hpolicy]
        exact h.starts
      · intro j other hj hother
        exact covers_of_le accounts.config accounts.active_fetches.le
          (accounts.auto_fetch_bytes ▸ UInt64.le_refl _) (hothers j other hj hother)
      · intro hhalf
        rw [whole] at hhalf
        cases hhalf
      · intro hin j other hj hother
        rcases window hin with hin | ⟨decision, hstage⟩
        · by_contra hhalf
          have hnot := h.alone j k other handler hother hk hj (by simpa using hhalf)
          rw [hin] at hnot
          cases hnot
        · rw [hstage] at hcalm
          exact hcalm j other hj hother
    | @reserves active spent stage =>
      rw [stage] at hcalm
      simp only [OfferHandler.Covers, stage] at hcovers
      obtain ⟨hactive_le, hspent_le, hcheck⟩ := hcovers
      obtain ⟨hroom, hbudget⟩ := check_auto_fetch_room hcheck
      obtain ⟨hexact, hmax⟩ := reserve_fits hspent_le hbudget hcalm.2
      have hnoted : desk.noted handler =
          [⟨handler.offer, active, spent, desk.fetches, desk.bytes⟩] := by
        unfold noted
        rw [stage]
      rw [hnoted]
      refine h.replace hk ?_ h.active_le ?_ hmax ?_ ?_ ?_ ?_ ?_
      · simp only [OfferHandler.held, stage, List.map_nil, List.sum_nil]
        rfl
      · simp only [OfferHandler.bytes, stage, List.map_nil, List.sum_nil, hexact]
      · intro start hstart
        rcases List.mem_append.mp hstart with hstart | hstart
        · exact h.starts start hstart
        · rw [List.mem_singleton.mp hstart]
          refine ⟨hcheck, ?_, ?_⟩
          · rw [← h.active]
            exact hactive_le
          · rw [← h.bytes]
            exact UInt64.le_iff_toNat_le.mp hspent_le
      · exact lt_of_le_of_lt hactive_le hroom
      · intro j other hj hother
        exact covers_of_outside (hcalm.1 j other hj hother) _
      · intro _
        exact hcalm.1
      · intro _ j other hj hother
        by_contra hhalf
        have hin := window_of_halfway (by simpa using hhalf)
        rw [hcalm.1 j other hj hother] at hin
        cases hin
    | counts stage =>
      simp only [OfferHandler.Covers, stage] at hcovers
      have hhalf : handler.halfway = true := by simp [OfferHandler.halfway, stage]
      have hnoted : desk.noted handler = [] := by
        unfold noted
        rw [stage]
      have halone : ∀ j other, j ≠ k → desk.handlers[j]? = some other → other.window = false :=
        fun j other hj hother => h.alone k j handler other hk hother (Ne.symm hj) hhalf
      rw [hnoted]
      refine h.replace hk ?_ (Nat.succ_le_of_lt hcovers) ?_ h.bytes_le ?_ trivial ?_ ?_ ?_
      · simp only [OfferHandler.held, stage, List.map_nil, List.sum_nil]
      · simp only [OfferHandler.bytes, stage, List.map_nil, List.sum_nil]
        rfl
      · rw [List.append_nil]
        exact h.starts
      · intro j other hj hother
        exact covers_of_outside (halone j other hj hother) _
      · intro hhalf'
        cases hhalf'
      · intro hin
        cases hin
    | spawns stage =>
      have hnoted : desk.noted handler = [] := by
        unfold noted
        rw [stage]
      rw [hnoted]
      refine h.replace hk ?_ h.active_le ?_ h.bytes_le ?_ trivial hothers ?_ ?_
      · simp only [OfferHandler.held, stage, AutoTask.held, List.map_cons, List.map_nil,
          List.sum_cons, List.sum_nil]
        omega
      · simp only [OfferHandler.bytes, stage, AutoTask.bytes, List.map_cons, List.map_nil,
          List.sum_cons, List.sum_nil]
        omega
      · rw [List.append_nil]
        exact h.starts
      · intro hhalf
        cases hhalf
      · intro hin
        cases hin

end Desk

namespace Desk

variable {desk : Desk}

/-- One task changes, and the counters by as much as it holds less. -/
theorem Accounted.replace_task (h : desk.Accounted) {j : Nat} {task task' : AutoTask}
    (hj : desk.tasks[j]? = some task) {session : Session}
    (hconfig : session.toSessionConfig = desk.session.toSessionConfig)
    (hactive : session.active_fetches + task.held = desk.session.active_fetches + task'.held)
    (hactive_le : session.active_fetches ≤ desk.session.active_fetches)
    (hbytes : session.auto_fetch_bytes.toNat + task.bytes =
      desk.session.auto_fetch_bytes.toNat + task'.bytes)
    (hbytes_le : session.auto_fetch_bytes ≤ desk.session.auto_fetch_bytes) :
    Accounted { desk with session, tasks := desk.tasks.set j task' } := by
  have hpolicy : session.policy = desk.session.policy := congrArg SessionConfig.policy hconfig
  have hheld := sum_map_set AutoTask.held hj task'
  have hsize := sum_map_set AutoTask.bytes hj task'
  have hold := h.active
  have hold' := h.bytes
  unfold fetches at hold
  unfold Desk.bytes at hold'
  refine ⟨⟨?_, ?_, ?_, ?_, ?_⟩, fun x hx => ?_, h.alone⟩
  · simp only [fetches]
    omega
  · rw [hpolicy]
    exact hactive_le.trans h.active_le
  · simp only [Desk.bytes]
    omega
  · rw [hpolicy]
    exact UInt64.le_trans hbytes_le h.bytes_le
  · rw [hpolicy]
    exact h.starts
  · exact covers_of_le hconfig hactive_le hbytes_le (h.covers x hx)

/-- What a task holds is part of the counters. -/
theorem Accounted.task_le (h : desk.Accounted) {j : Nat} {task : AutoTask}
    (hj : desk.tasks[j]? = some task) :
    task.held ≤ desk.session.active_fetches ∧
      task.bytes ≤ desk.session.auto_fetch_bytes.toNat := by
  have hmem := List.mem_of_getElem? hj
  rw [h.active, h.bytes]
  exact ⟨(List.le_sum_of_mem (List.mem_map_of_mem hmem)).trans (Nat.le_add_left _ _),
    (List.le_sum_of_mem (List.mem_map_of_mem hmem)).trans (Nat.le_add_left _ _)⟩

theorem accounted_task (h : desk.Accounted) (j : Nat) : (desk.task j).Accounted := by
  unfold Desk.task
  rcases hj : desk.tasks[j]? with _ | task
  · exact h
  · obtain ⟨hheld_le, hbytes_le⟩ := h.task_le hj
    simp only
    unfold AutoTask.next
    rcases hstage : task.stage with _ | _ | _ | _ | kept
    case failed =>
      have hbytes : task.bytes = task.offer.size.toNat := by simp [AutoTask.bytes, hstage]
      rw [hbytes] at hbytes_le
      have hle : task.offer.size ≤ desk.session.auto_fetch_bytes :=
        UInt64.le_iff_toNat_le.mpr hbytes_le
      have hsub := UInt64.toNat_sub_of_le _ _ hle
      refine h.replace_task hj rfl ?_ (le_refl _) ?_ ?_
      · simp only [AutoTask.held, hstage]
      · rw [hbytes, hsub]
        simp only [AutoTask.bytes]
        omega
      · rw [UInt64.le_iff_toNat_le, hsub]
        exact Nat.sub_le _ _
    case succeeded =>
      have hheld : task.held = 1 := by simp [AutoTask.held, hstage]
      refine h.replace_task hj rfl ?_ (Nat.sub_le _ _) ?_ (UInt64.le_refl _)
      · rw [hheld] at hheld_le ⊢
        simp only [AutoTask.held]
        omega
      · simp only [AutoTask.bytes, hstage]
    case refunded =>
      have hheld : task.held = 1 := by simp [AutoTask.held, hstage]
      refine h.replace_task hj rfl ?_ (Nat.sub_le _ _) ?_ (UInt64.le_refl _)
      · rw [hheld] at hheld_le ⊢
        simp only [AutoTask.held]
        omega
      · simp only [AutoTask.bytes, hstage]
    all_goals exact h.replace_task hj rfl rfl (le_refl _) rfl (UInt64.le_refl _)

theorem accounted_fetch_returns (h : desk.Accounted) (j : Nat) (ok : Bool) :
    (desk.fetch_returns j ok).Accounted := by
  unfold fetch_returns
  rcases hj : desk.tasks[j]? with _ | task
  · exact h
  · have hsame : (task.returns ok).held = task.held ∧ (task.returns ok).bytes = task.bytes := by
      unfold AutoTask.returns
      split
      · rename_i hstage
        rcases ok
        all_goals simp [AutoTask.held, AutoTask.bytes, hstage]
      · exact ⟨rfl, rfl⟩
    refine h.replace_task hj rfl ?_ (le_refl _) ?_ (UInt64.le_refl _)
    · rw [hsame.1]
    · rw [hsame.2]

theorem accounted_arrive (h : desk.Accounted) (author : EndpointId) (offer : OfferV1)
    (delivered_from : EndpointId) :
    Accounted { desk with
      handlers := desk.handlers ++ [⟨author, offer, delivered_from, .asked⟩] } := by
  have hmem : ∀ (i : Nat) (x : OfferHandler),
      (desk.handlers ++ [⟨author, offer, delivered_from, .asked⟩])[i]? = some x →
      desk.handlers[i]? = some x ∨ x = ⟨author, offer, delivered_from, .asked⟩ := by
    intro i x hx
    rw [List.getElem?_append] at hx
    split at hx
    · exact .inl hx
    · exact .inr (List.mem_singleton.mp (List.mem_of_getElem? hx))
  refine ⟨⟨?_, h.active_le, ?_, h.bytes_le, h.starts⟩, fun x hx => ?_, fun i j a b ha hb hne hhalf => ?_⟩
  · have hactive := h.active
    simpa [fetches, OfferHandler.held] using hactive
  · have hbytes := h.bytes
    simpa [Desk.bytes, OfferHandler.bytes] using hbytes
  · obtain ⟨i, hi⟩ := List.mem_iff_getElem?.mp hx
    rcases hmem i x hi with hi | rfl
    · exact h.covers x (List.mem_of_getElem? hi)
    · trivial
  · rcases hmem i a ha with ha | rfl
    · rcases hmem j b hb with hb | rfl
      · exact h.alone i j a b ha hb hne hhalf
      · rfl
    · cases hhalf

theorem accounted_step (h : desk.Accounted) (step : DeskStep) (hcalm : desk.Undisturbed step) :
    (desk.step step).Accounted := by
  cases step with
  | arrive author offer delivered_from => exact accounted_arrive h author offer delivered_from
  | handle k now => exact accounted_handle h k now hcalm
  | fetch_returns j ok => exact accounted_fetch_returns h j ok
  | task j => exact accounted_task h j
  | other session =>
    refine ⟨⟨h.active, h.active_le, h.bytes, h.bytes_le, h.starts⟩, fun x hx => ?_, h.alone⟩
    exact covers_of_le rfl (le_refl _) (UInt64.le_refl _) (h.covers x hx)

theorem accounted_idle {session : Session} (hactive : session.active_fetches = 0)
    (hbytes : session.auto_fetch_bytes = 0) : (idle session).Accounted where
  active := hactive
  active_le := hactive ▸ Nat.zero_le _
  bytes := by
    change session.auto_fetch_bytes.toNat = 0
    rw [hbytes]
    rfl
  bytes_le := by
    change session.auto_fetch_bytes ≤ _
    rw [hbytes, UInt64.le_iff_toNat_le]
    exact Nat.zero_le _
  starts start hstart := by cases hstart
  covers handler hmem := by cases hmem
  alone i j a b ha := by cases ha

end Desk

/-- In every run of a session's offer handlers and automatic fetches, each step
of which is undisturbed, the counters are exact in every state reached. -/
theorem undisturbed_runs_are_exact (secret : SecretKey) (policy : DropPolicy)
    (decider : OfferDecider) (topic_id : TopicId) (ticket : DropTicket)
    (drop_key : Option DropKey) (store : BlobHash → BlobStatus) (steps : List DeskStep)
    (hcalm : runs.Meets Desk.step Desk.Undisturbed
      (Desk.idle (Session.new secret policy decider topic_id ticket drop_key store)) steps)
    (past : List DeskStep) (hpast : past <+: steps) :
    ((Desk.idle (Session.new secret policy decider topic_id ticket drop_key store)).run
      past).Exact := by
  obtain ⟨rest, rfl⟩ := hpast
  have hmeets := ((runs.meets_append _ past rest).mp hcalm).1
  have hstep : ∀ desk step, Desk.Accounted desk → _ → Desk.Accounted (Desk.step desk step) :=
    fun desk step h hstep => Desk.accounted_step h step hstep
  exact (runs.invariant_of_meets hstep (Desk.accounted_idle rfl rfl) hmeets).toExact

end Laws

/-! ## Two offers at once -/

namespace two_offers

local instance : Crypto := Crypto.clear

def topic : TopicId := ⟨.fill 32 8⟩
def author : SecretKey := ⟨.fill 32 2⟩

/-- One automatic fetch at a time. -/
def policy : DropPolicy := { auto_fetch := true, max_concurrent_fetches := 1 }

def member : Session :=
  .new ⟨.fill 32 1⟩ policy PolicyDecider topic (.nodeless topic.as_bytes none) none
    (fun _ => .NotFound)

def offer (n : UInt8) : OfferV1 :=
  { blob_hash := ⟨.fill 32 n⟩, name := "a", size := 3, media_type := none, created_at_ms := none
    metadata := ∅ }

def arrive (n : UInt8) : DeskStep := .arrive author.public (offer n) author.public

/-- Both handlers look at the counters before either of them reserves. -/
def at_once : List DeskStep :=
  [arrive 1, arrive 2] ++ List.replicate 8 (.handle 0 0) ++ List.replicate 8 (.handle 1 0) ++
    List.replicate 2 (.handle 0 0) ++ List.replicate 2 (.handle 1 0)

/-- Two fetches are active where the policy allows one. -/
theorem two_fetches_pass_the_limit :
    ¬ ∀ [Crypto] (secret : SecretKey) (policy : DropPolicy) (decider : OfferDecider)
      (topic_id : TopicId) (ticket : DropTicket) (drop_key : Option DropKey)
      (store : BlobHash → BlobStatus) (steps : List DeskStep),
      ((Desk.idle (Session.new secret policy decider topic_id ticket drop_key store)).run
        steps).Exact := by
  intro h
  have hexact : ((Desk.idle member).run at_once).Exact := h _ _ _ _ _ _ _ _
  have hactive : ((Desk.idle member).run at_once).session.active_fetches = 2 := by decide +kernel
  have hmax : ((Desk.idle member).run at_once).session.policy.max_concurrent_fetches = 1 := by
    decide +kernel
  have hle := hexact.active_le
  rw [hactive, hmax] at hle
  exact absurd hle (by decide)

/-- A handler that is alone is not disturbed. -/
theorem lone_handler {desk : Desk} (hone : desk.handlers.length = 1)
    (hmax : desk.session.policy.max_total_auto_fetch_bytes.toNat < 2 ^ 64 - 1) (n : Nat) :
    runs.Meets Desk.step Desk.Undisturbed desk (List.replicate n (.handle 0 0)) := by
  induction n generalizing desk with
  | zero => trivial
  | succ n ih =>
    have hother : ∀ (j : Nat) (other : OfferHandler), j ≠ 0 → desk.handlers[j]? ≠ some other := by
      intro j other hj hother
      have hlt := (List.getElem?_eq_some_iff.mp hother).1
      omega
    refine ⟨fun handler _ => ?_, ih ?_ ?_⟩
    · split
      · exact fun j other hj h => absurd h (hother j other hj)
      · exact ⟨fun j other hj h => absurd h (hother j other hj), .inl hmax⟩
      · trivial
    · simp only [Desk.step, Desk.handle]
      split
      · exact hone
      · rw [List.length_set]
        exact hone
    · simp only [Desk.step, Desk.handle]
      split
      · exact hmax
      · rename_i handler _
        have hmoved := handler.moved desk.session 0
        generalize handler.next desk.session 0 = r at hmoved ⊢
        cases hmoved with
        | quietly accounts => exact accounts.config ▸ hmax
        | reserves => exact hmax
        | counts => exact hmax
        | spawns => exact hmax

/-- One offer, fetched to its end. -/
def one_by_one : List DeskStep :=
  arrive 1 :: (List.replicate 11 (.handle 0 0) ++ [.fetch_returns 0 true, .task 0])

theorem undisturbed_runs_are_exact_at_member :
    ((Desk.idle member).run one_by_one).Exact ∧
      ((Desk.idle member).run one_by_one).session.auto_fetch_bytes = 3 := by
  refine ⟨undisturbed_runs_are_exact _ _ _ _ _ _ _ one_by_one ?_ one_by_one List.prefix_rfl,
    by decide +kernel⟩
  refine ⟨trivial, (runs.meets_append _ _ _).mpr ⟨lone_handler rfl ?_ 11, trivial, trivial, trivial⟩⟩
  decide +kernel

end two_offers

end iroh_drop
