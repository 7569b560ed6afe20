-- The rate limiter over a run: no peer gets more than its rate allows while it is
-- tracked, none is refused before that, and no peer feels the others (limits.rs).
import IrohDrop.Limits
import IrohDrop.TokenBucket

open rust_std token_bucket

namespace iroh_drop

section Laws

variable [Crypto]

/-! ## Calls -/

/-- A call of `allow_at`. -/
structure RateCall where
  peer : EndpointId
  now : Instant

structure RateAnswer where
  call : RateCall
  allowed : Bool

/-- The clock readings of some calls never go back. -/
def InSequence (calls : List RateCall) : Prop := calls.Pairwise (fun a b => a.now ≤ b.now)

namespace PeerRateLimiter

/-- The limiter after some calls. -/
def after (self : PeerRateLimiter) (calls : List RateCall) : PeerRateLimiter :=
  calls.foldl (fun limiter call => (limiter.allow_at call.peer call.now).2) self

/-- What it answers to some calls. -/
def answers (self : PeerRateLimiter) : List RateCall → List RateAnswer
  | [] => []
  | call :: calls =>
    ⟨call, (self.allow_at call.peer call.now).1⟩ ::
      (self.allow_at call.peer call.now).2.answers calls

/-- A peer that has a bucket does not lose it during these calls. -/
def Stays (self : PeerRateLimiter) (peer : EndpointId) (calls : List RateCall) : Prop :=
  ∀ before call rest, calls = before ++ call :: rest →
    peer ∈ (self.after before).buckets → peer ∈ (self.after (before ++ [call])).buckets

/-- The buckets and the queue hold the same peers, each once, and not too many. -/
structure Sound (limiter : PeerRateLimiter) : Prop where
  same : ∀ peer, peer ∈ limiter.buckets ↔ peer ∈ limiter.order
  nodup : limiter.order.Nodup
  length : limiter.order.length ≤ MAX_TRACKED_PEERS

/-- The answers to a peer. -/
def answers_to (peer : EndpointId) (answers : List RateAnswer) : List RateAnswer :=
  answers.filter (fun a => decide (a.call.peer = peer))

/-- How many of these answers let a call through. -/
def granted (answers : List RateAnswer) : Nat := answers.countP RateAnswer.allowed

/-! ## One call -/

variable {self : PeerRateLimiter} {peer other : EndpointId} {now : Instant}

@[simp] theorem after_nil : self.after [] = self := rfl

theorem after_append (calls calls' : List RateCall) :
    self.after (calls ++ calls') = (self.after calls).after calls' := by
  simp [after]

theorem answers_append (calls calls' : List RateCall) :
    self.answers (calls ++ calls') = self.answers calls ++ (self.after calls).answers calls' := by
  induction calls generalizing self with
  | nil => rfl
  | cons call calls ih =>
    simp only [List.cons_append, answers, ih]
    rfl

theorem answers_concat (calls : List RateCall) (call : RateCall) :
    self.answers (calls ++ [call]) = self.answers calls ++
      [⟨call, ((self.after calls).allow_at call.peer call.now).1⟩] := answers_append calls [call]

/-- What the peer finds in its bucket. -/
def tokens (self : PeerRateLimiter) (peer : EndpointId) (now : Instant) : ℚ :=
  match self.buckets.lookup peer with
  | none => self.rate.burst
  | some bucket => bucket.refill self.rate now

/-- Eviction takes the peers in front, with their buckets. -/
theorem evict_go_spec (self : PeerRateLimiter) {buckets : HashMap EndpointId Bucket} {order : List EndpointId}
    (hsame : ∀ peer, peer ∈ buckets ↔ peer ∈ order) (hnodup : order.Nodup) :
    Sound (evict.go self buckets order) ∧
      (evict.go self buckets order).rate = self.rate ∧
      (evict.go self buckets order).order = order.drop (order.length - MAX_TRACKED_PEERS) ∧
      ∀ peer ∈ (evict.go self buckets order).order,
        (evict.go self buckets order).buckets.lookup peer = buckets.lookup peer := by
  induction order generalizing buckets with
  | nil => exact ⟨⟨hsame, hnodup, Nat.zero_le _⟩, rfl, List.drop_nil.symm, fun _ _ => rfl⟩
  | cons old rest ih =>
    obtain ⟨hnot, hrest⟩ := List.nodup_cons.mp hnodup
    rw [List.length_cons]
    unfold evict.go
    by_cases hfull : rest.length + 1 > MAX_TRACKED_PEERS
    · rw [if_pos hfull]
      have hsame' : ∀ peer, peer ∈ buckets.erase old ↔ peer ∈ rest := by
        intro peer
        rw [AList.mem_erase, hsame, List.mem_cons]
        constructor
        · rintro ⟨hne, rfl | hmem⟩
          · exact absurd rfl hne
          · exact hmem
        · intro hmem
          exact ⟨fun heq => hnot (heq ▸ hmem), .inr hmem⟩
      obtain ⟨hsound, hrate, horder, hlookup⟩ := ih hsame' hrest
      refine ⟨hsound, hrate, ?_, ?_⟩
      · rw [horder, show rest.length + 1 - MAX_TRACKED_PEERS =
          rest.length - MAX_TRACKED_PEERS + 1 by omega, List.drop_succ_cons]
      · intro peer hpeer
        have hmem : peer ∈ rest := by
          rw [horder] at hpeer
          exact List.mem_of_mem_drop hpeer
        rw [hlookup peer hpeer, HashMap.lookup_erase', if_neg]
        rintro rfl
        exact hnot hmem
    · rw [if_neg hfull]
      refine ⟨⟨hsame, hnodup, by simpa using hfull⟩, rfl, ?_, fun _ _ => rfl⟩
      rw [show rest.length + 1 - MAX_TRACKED_PEERS = 0 by omega, List.drop_zero]

omit [Crypto] in
theorem paid (tokens : ℚ) : (if 1 ≤ tokens then (true, tokens - 1) else (false, tokens)) =
    (decide (1 ≤ tokens), tokens - if 1 ≤ tokens then 1 else 0) := by
  by_cases h : 1 ≤ tokens <;> simp [h]

/-- What one call does: the peer pays where it can and keeps its bucket, and any
other one has its bucket as it was, or none. -/
theorem allow_at_does (h : Sound self) (peer : EndpointId) (now : Instant) :
    Sound (self.allow_at peer now).2 ∧
      (self.allow_at peer now).2.rate = self.rate ∧
      (self.allow_at peer now).1 = decide (1 ≤ self.tokens peer now) ∧
      (self.allow_at peer now).2.buckets.lookup peer =
        some ⟨self.tokens peer now - if 1 ≤ self.tokens peer now then 1 else 0, now⟩ ∧
      ∀ other, other ≠ peer →
        (self.allow_at peer now).2.buckets.lookup other = self.buckets.lookup other ∨
        (self.allow_at peer now).2.buckets.lookup other = none := by
  generalize hleft : self.tokens peer now - (if 1 ≤ self.tokens peer now then 1 else 0) = left
  rcases hlookup : self.buckets.lookup peer with _ | bucket
  · have habsent : peer ∉ self.order := by
      rw [← h.same, ← AList.lookup_isSome, hlookup]
      simp
    have htokens : self.tokens peer now = self.rate.burst := by simp [tokens, hlookup]
    have hsame : ∀ x, x ∈ self.buckets.insert peer ⟨left, now⟩ ↔ x ∈ self.order ++ [peer] := by
      intro x
      rw [AList.mem_insert, h.same, List.mem_append, List.mem_singleton, or_comm]
    have hnodup : (self.order ++ [peer]).Nodup := by
      rw [List.nodup_append]
      refine ⟨h.nodup, List.nodup_singleton _, ?_⟩
      rintro a ha b hb rfl
      exact habsent (List.mem_singleton.mp hb ▸ ha)
    have hcall : self.allow_at peer now = (decide (1 ≤ self.rate.burst),
        evict { self with buckets := self.buckets.insert peer ⟨left, now⟩
                          order := self.order ++ [peer] }) := by
      simp only [allow_at, hlookup, paid, if_true, ← hleft, htokens]
    obtain ⟨hsound, hrate, horder, hkept⟩ := evict_go_spec { self with
      buckets := self.buckets.insert peer ⟨left, now⟩, order := self.order ++ [peer] } hsame hnodup
    rw [hcall, htokens]
    refine ⟨hsound, hrate, rfl, ?_, ?_⟩
    · refine (hkept peer ?_).trans (AList.lookup_insert _)
      -- the new peer is at the back, and there is room for more than one
      rw [horder, List.drop_append_of_le_length (by
        rw [List.length_append, List.length_singleton]
        unfold MAX_TRACKED_PEERS
        omega)]
      simp
    · intro other hother
      rcases hfound : (evict { self with
          buckets := self.buckets.insert peer ⟨left, now⟩
          order := self.order ++ [peer] }).buckets.lookup other with _ | bucket
      · exact .inr rfl
      · have hmem := (hsound.same other).mp (AList.lookup_isSome.mp (by
          change ((evict _).buckets.lookup other).isSome = true
          rw [hfound]
          rfl))
        refine .inl (hfound.symm.trans ((hkept other hmem).trans ?_))
        exact AList.lookup_insert_ne hother
  · have htokens : self.tokens peer now = bucket.refill self.rate now := by simp [tokens, hlookup]
    have hcall : self.allow_at peer now = (decide (1 ≤ self.tokens peer now),
        { self with buckets := self.buckets.insert peer ⟨left, now⟩ }) := by
      simp only [allow_at, hlookup, paid, ← hleft, htokens]
      rfl
    have hmem : peer ∈ self.order := by
      rw [← h.same, ← AList.lookup_isSome, hlookup]
      rfl
    rw [hcall]
    refine ⟨⟨?_, h.nodup, h.length⟩, rfl, rfl, AList.lookup_insert _, ?_⟩
    · intro x
      rw [AList.mem_insert, h.same]
      constructor
      · rintro (rfl | hx)
        · exact hmem
        · exact hx
      · exact Or.inr
    · exact fun other hother => .inl (AList.lookup_insert_ne hother)

/-! ## A run -/

variable {rate : Rate} {calls : List RateCall} {call : RateCall}

theorem after_concat (calls : List RateCall) (call : RateCall) :
    self.after (calls ++ [call]) = ((self.after calls).allow_at call.peer call.now).2 := by
  simp [after]

theorem sound_after (h : Sound self) (calls : List RateCall) : Sound (self.after calls) := by
  induction calls using List.reverseRecOn with
  | nil => exact h
  | append_singleton calls call ih =>
    rw [after_concat]
    exact (allow_at_does ih _ _).1

theorem rate_after (h : Sound self) (calls : List RateCall) :
    (self.after calls).rate = self.rate := by
  induction calls using List.reverseRecOn with
  | nil => rfl
  | append_singleton calls call ih =>
    rw [after_concat, (allow_at_does (sound_after h calls) _ _).2.1, ih]

theorem sound_new (rate : Rate) : Sound (.new rate) :=
  ⟨fun _ => Iff.rfl.trans (by simp [new]), List.nodup_nil, Nat.zero_le _⟩

/-- A peer that was just answered has a bucket. -/
theorem mem_after_call (h : Sound self) (calls : List RateCall) (call : RateCall) :
    call.peer ∈ (self.after (calls ++ [call])).buckets := by
  rw [after_concat, ← AList.lookup_isSome,
    (allow_at_does (sound_after h calls) call.peer call.now).2.2.2.1]
  rfl

theorem Stays.left {l : List RateCall} (h : self.Stays peer (calls ++ l)) :
    self.Stays peer calls := by
  intro before call rest hsplit
  exact h before call (rest ++ l) (by rw [hsplit, List.append_assoc]; rfl)

theorem Stays.mem (h : self.Stays peer calls) {before since : List RateCall}
    (hsplit : calls = before ++ since) (hmem : peer ∈ (self.after before).buckets) :
    peer ∈ (self.after calls).buckets := by
  induction since using List.reverseRecOn generalizing calls with
  | nil => simpa [hsplit] using hmem
  | append_singleton since call ih =>
    have hbefore : self.Stays peer (before ++ since) := by
      apply Stays.left (l := [call])
      rw [List.append_assoc, ← hsplit]
      exact h
    rw [hsplit, ← List.append_assoc]
    exact h (before ++ since) call [] (by simp [hsplit]) (ih hbefore rfl)

/-! ## One peer -/

/-- What a peer was answered and when, newest first. -/
def history (peer : EndpointId) (answers : List RateAnswer) : List (Instant × Bool) :=
  ((answers_to peer answers).map (fun a => (a.call.now, a.allowed))).reverse

/-- The clock in seconds. -/
def in_secs (requests : List (Instant × Bool)) : List (ℚ × Bool) :=
  requests.map (fun request => (Duration.as_secs request.1, request.2))

omit [Crypto] in
theorem in_secs_cons (t : Instant) (taken : Bool) (older : List (Instant × Bool)) :
    in_secs ((t, taken) :: older) = (Duration.as_secs t, taken) :: in_secs older := rfl

/-- The bucket that these requests leave. -/
def Leaves (rate : Rate) (bucket : Option Bucket) : List (Instant × Bool) → Prop
  | [] => bucket = none
  | (t, taken) :: older => bucket = some
      ⟨found rate.burst rate.per_second (in_secs older) (Duration.as_secs t) -
        if taken then 1 else 0, t⟩

theorem history_concat (answers : List RateAnswer) (answer : RateAnswer) :
    history peer (answers ++ [answer]) =
      if answer.call.peer = peer then
        (answer.call.now, answer.allowed) :: history peer answers
      else history peer answers := by
  unfold history answers_to
  by_cases h : answer.call.peer = peer
  · simp [h]
  · simp [h]

omit [Crypto] in
theorem as_secs_sub {a b : Instant} (h : b ≤ a) :
    Duration.as_secs (a - b) = Duration.as_secs a - Duration.as_secs b := by
  unfold Duration.as_secs
  rw [Nat.cast_sub h]
  ring

/-- What a peer finds is what its requests left and what has flowed in since. -/
theorem Leaves.tokens {requests : List (Instant × Bool)}
    (h : Leaves self.rate (self.buckets.lookup peer) requests)
    (hnow : ∀ request ∈ requests, request.1 ≤ now) :
    self.tokens peer now =
      found self.rate.burst self.rate.per_second (in_secs requests) (Duration.as_secs now) := by
  rcases requests with _ | ⟨⟨t, taken⟩, older⟩
  · rw [Leaves] at h
    simp [PeerRateLimiter.tokens, h, in_secs, found]
  · rw [Leaves] at h
    have ht := hnow (t, taken) (by simp)
    simp only [PeerRateLimiter.tokens, h, Bucket.refill, as_secs_sub ht]
    rw [in_secs_cons, found, mul_comm]

/-- What a peer was answered, it asked. -/
theorem history_times (self : PeerRateLimiter) (calls : List RateCall) :
    ∀ request ∈ history peer (self.answers calls), ∃ call ∈ calls, request.1 = call.now := by
  induction calls using List.reverseRecOn with
  | nil => exact fun _ h => nomatch h
  | append_singleton calls call ih =>
    intro request hrequest
    rw [answers_concat, history_concat] at hrequest
    split at hrequest
    · rcases List.mem_cons.mp hrequest with rfl | hrequest
      · exact ⟨call, by simp, rfl⟩
      · obtain ⟨earlier, hmem, heq⟩ := ih request hrequest
        exact ⟨earlier, by simp [hmem], heq⟩
    · obtain ⟨earlier, hmem, heq⟩ := ih request hrequest
      exact ⟨earlier, by simp [hmem], heq⟩

/-- Since it had no bucket, the answers to a peer that stays are those of a bucket of
its own. -/
theorem stands_alone (h : Sound self) (hnone : peer ∉ self.buckets)
    (hcalls : InSequence calls) (hstays : self.Stays peer calls) :
    Leaves self.rate ((self.after calls).buckets.lookup peer) (history peer (self.answers calls)) ∧
      Answered self.rate.burst self.rate.per_second
        (in_secs (history peer (self.answers calls))) := by
  induction calls using List.reverseRecOn with
  | nil => exact ⟨AList.lookup_eq_none.mpr hnone, trivial⟩
  | append_singleton calls call ih =>
    obtain ⟨hbefore, -, hlast⟩ := List.pairwise_append.mp hcalls
    obtain ⟨hleaves, hanswered⟩ := ih hbefore hstays.left
    have hsound := sound_after h calls
    have hrate := rate_after h calls
    obtain ⟨-, -, hallowed, hlookup, hothers⟩ := allow_at_does hsound call.peer call.now
    rw [after_concat, answers_concat, history_concat]
    by_cases hpeer : call.peer = peer
    · subst hpeer
      have hnow : ∀ request ∈ history call.peer (self.answers calls), request.1 ≤ call.now := by
        intro request hrequest
        obtain ⟨earlier, hmem, heq⟩ := history_times self calls request hrequest
        exact heq ▸ hlast earlier hmem call (by simp)
      rw [← hrate] at hleaves
      have htokens := hleaves.tokens hnow
      rw [hrate] at htokens
      rw [if_pos rfl, hlookup, hallowed, htokens]
      refine ⟨?_, decide_eq_true_iff, hanswered⟩
      simp [Leaves]
    · rw [if_neg hpeer]
      have hsame : ((self.after calls).allow_at call.peer call.now).2.buckets.lookup peer =
          (self.after calls).buckets.lookup peer := by
        rcases hothers peer (Ne.symm hpeer) with hsame | hgone
        · exact hsame
        · have hstill := hstays calls call [] rfl
          rw [after_concat, ← AList.lookup_isSome, ← AList.lookup_isSome, hgone] at hstill
          rcases hwas : (self.after calls).buckets.lookup peer with _ | bucket
          · exact hgone
          · rw [hwas] at hstill
            exact absurd (hstill rfl) (by simp)
      rw [hsame]
      exact ⟨hleaves, hanswered⟩

/-! ## Since a bucket was made -/

theorem Stays.append {calls' : List RateCall} (h : self.Stays peer calls)
    (h' : (self.after calls).Stays peer calls') : self.Stays peer (calls ++ calls') := by
  induction calls' using List.reverseRecOn with
  | nil => simpa using h
  | append_singleton calls' call ih =>
    intro before last rest hsplit hmem
    rcases List.eq_nil_or_concat rest with rfl | ⟨rest, final, rfl⟩
    · rw [← List.append_assoc] at hsplit
      obtain ⟨rfl, heq⟩ := List.append_inj' hsplit rfl
      obtain rfl : call = last := by simpa using heq
      rw [List.append_assoc, after_append]
      rw [after_append] at hmem
      exact h' calls' call [] rfl hmem
    · rw [List.concat_eq_append, ← List.append_assoc, ← List.cons_append, ← List.append_assoc]
        at hsplit
      obtain ⟨hfront, -⟩ := List.append_inj' hsplit rfl
      exact ih h'.left before last rest hfront hmem

theorem Stays.concat (h : Sound self) (hstays : self.Stays peer calls) (hpeer : call.peer = peer) :
    self.Stays peer (calls ++ [call]) := by
  apply hstays.append
  intro before last rest hsplit _
  obtain ⟨rfl, heq, -⟩ : before = [] ∧ call = last ∧ rest = [] := by
    rcases before with _ | ⟨first, before⟩
    · simpa using hsplit
    · simp at hsplit
  rw [← hpeer, heq]
  exact mem_after_call (sound_after h calls) [] last

/-- There is a moment since which the peer had no bucket, or has not lost it. -/
theorem exists_since (hnone : peer ∉ self.buckets) (calls : List RateCall) :
    ∃ before since, calls = before ++ since ∧ peer ∉ (self.after before).buckets ∧
      (self.after before).Stays peer since := by
  induction calls using List.reverseRecOn with
  | nil => exact ⟨[], [], rfl, hnone, fun before _ _ h => by simp at h⟩
  | append_singleton calls call ih =>
    obtain ⟨before, since, rfl, habsent, hstays⟩ := ih
    by_cases hgone : peer ∈ (self.after (before ++ since)).buckets ∧
        peer ∉ (self.after (before ++ since ++ [call])).buckets
    · exact ⟨before ++ since ++ [call], [], by simp, hgone.2, fun before _ _ h => by simp at h⟩
    · refine ⟨before, since ++ [call], by simp, habsent, hstays.append ?_⟩
      intro front last rest hsplit hmem
      obtain ⟨rfl, rfl, -⟩ : front = [] ∧ call = last ∧ rest = [] := by
        rcases front with _ | ⟨first, front⟩
        · simpa using hsplit
        · simp at hsplit
      simp only [← after_append, after_nil, List.nil_append] at hmem ⊢
      by_contra hnot
      exact hgone ⟨hmem, hnot⟩

/-! ## Windows -/

theorem history_append (answers answers' : List RateAnswer) :
    history peer (answers ++ answers') = history peer answers' ++ history peer answers := by
  simp [history, answers_to]

omit [Crypto] in
theorem in_secs_append (requests requests' : List (Instant × Bool)) :
    in_secs (requests ++ requests') = in_secs requests ++ in_secs requests' :=
  List.map_append

theorem takes_history (answers : List RateAnswer) :
    takes (in_secs (history peer answers)) = granted (answers_to peer answers) := by
  simp [takes, in_secs, history, granted, List.countP_map]
  rfl

/-- In some calls that lie close together, and take no bucket from it, a peer gets no
more than its rate allows. -/
theorem granted_le (h : Sound self) (hnone : peer ∉ self.buckets) (hburst : 1 ≤ self.rate.burst)
    (hrate : 0 ≤ self.rate.per_second) {before window : List RateCall}
    (hcalls : InSequence (before ++ window)) (hstays : (self.after before).Stays peer window)
    {d : Duration} (hspan : ∀ a ∈ window, ∀ b ∈ window, a.now ≤ b.now + d) :
    (granted (answers_to peer ((self.after before).answers window)) : ℚ) ≤
      self.rate.burst + self.rate.per_second * Duration.as_secs d := by
  obtain ⟨old, since, rfl, habsent, hsince⟩ := exists_since hnone before
  rw [List.append_assoc] at hcalls
  rw [after_append] at hstays ⊢
  have hsound := sound_after h old
  have hall := hsince.append hstays
  obtain ⟨-, hanswered⟩ :=
    stands_alone hsound habsent (List.pairwise_append.mp hcalls).2.1 hall
  rw [rate_after h, answers_append, history_append, in_secs_append] at hanswered
  rw [← takes_history]
  refine takes_le hburst hrate (by unfold Duration.as_secs; positivity) hanswered ?_
  have htimes : ∀ request ∈ in_secs (history peer (((self.after old).after since).answers window)),
      ∃ call ∈ window, request.1 = Duration.as_secs call.now := by
    intro request hrequest
    obtain ⟨answered, hmem, rfl⟩ := List.mem_map.mp hrequest
    obtain ⟨call, hcall, heq⟩ := history_times _ window answered hmem
    exact ⟨call, hcall, congrArg Duration.as_secs heq⟩
  intro a ha b hb
  obtain ⟨first, hfirst, hafirst⟩ := htimes a ha
  obtain ⟨last, hlast, hblast⟩ := htimes b hb
  have hle : (first.now : ℚ) ≤ last.now + d := by exact_mod_cast hspan first hfirst last hlast
  rw [hafirst, hblast]
  unfold Duration.as_secs
  linarith

/-- A request of the history is a call, and the newer ones are the answers since. -/
theorem call_of_history (self : PeerRateLimiter) {newer older : List (ℚ × Bool)} {t : ℚ}
    {taken : Bool}
    (h : in_secs (history peer (self.answers calls)) = newer ++ (t, taken) :: older) :
    ∃ before first recent, calls = before ++ first :: recent ∧ first.peer = peer ∧
      Duration.as_secs first.now = t ∧
      in_secs (history peer ((self.after before).answers (first :: recent))) =
        newer ++ [(t, taken)] := by
  induction calls using List.reverseRecOn generalizing newer with
  | nil => simp [answers, history, answers_to, in_secs] at h
  | append_singleton calls call ih =>
    have hstep : ∀ before recent : List RateCall, calls = before ++ recent →
        ((self.after before).after recent) = self.after calls := by
      rintro before recent rfl
      exact (after_append before recent).symm
    rw [answers_concat, history_concat] at h
    by_cases hpeer : call.peer = peer
    · rw [if_pos hpeer, in_secs_cons] at h
      rcases newer with _ | ⟨last, newer⟩
      · obtain ⟨hlast, -⟩ := List.cons.inj h
        obtain ⟨rfl, rfl⟩ := Prod.mk.inj hlast
        refine ⟨calls, call, [], rfl, hpeer, rfl, ?_⟩
        simp [answers, history, answers_to, hpeer, in_secs]
      · obtain ⟨rfl, hrest⟩ := List.cons.inj h
        obtain ⟨before, first, recent, hsplit, hfirst, htime, heq⟩ := ih hrest
        refine ⟨before, first, recent ++ [call], by simp [hsplit], hfirst, htime, ?_⟩
        rw [← List.cons_append, answers_concat, history_concat, if_pos hpeer,
          in_secs_cons, hstep _ _ hsplit, heq]
        rfl
    · rw [if_neg hpeer] at h
      obtain ⟨before, first, recent, hsplit, hfirst, htime, heq⟩ := ih h
      refine ⟨before, first, recent ++ [call], by simp [hsplit], hfirst, htime, ?_⟩
      rw [← List.cons_append, answers_concat, history_concat, if_neg hpeer, heq]

/-- A peer is refused only where one call more would have been too many for some time
up to now during which it had its bucket. -/
theorem refused_only (h : Sound self) (hnone : call.peer ∉ self.buckets)
    (hburst : 1 ≤ self.rate.burst) {before : List RateCall} (hcalls : InSequence (before ++ [call]))
    (hrefused : ((self.after before).allow_at call.peer call.now).1 = false) :
    ∃ old first recent, before = old ++ first :: recent ∧ first.peer = call.peer ∧
      (∀ front back, recent = front ++ back →
        call.peer ∈ (self.after (old ++ first :: front)).buckets) ∧
      self.rate.burst + self.rate.per_second * Duration.as_secs (call.now - first.now) <
        granted (answers_to call.peer ((self.after old).answers (first :: recent))) + 1 := by
  obtain ⟨old, since, rfl, habsent, hsince⟩ := exists_since hnone before
  rw [List.append_assoc] at hcalls
  rw [after_append] at hrefused
  have hsound := sound_after h old
  obtain ⟨-, hanswered⟩ := stands_alone hsound habsent (List.pairwise_append.mp hcalls).2.1
    (hsince.concat hsound rfl)
  rw [rate_after h, answers_concat, history_concat, if_pos rfl, hrefused,
    in_secs_cons] at hanswered
  have hfound := fun hle => Bool.false_ne_true (hanswered.1.mpr hle)
  obtain ⟨newer, t, taken, older, hsplit, hlt⟩ := refused_of_found hburst hfound
  obtain ⟨front, first, recent, rfl, hfirst, rfl, heq⟩ := call_of_history _ hsplit
  refine ⟨old ++ front, first, recent, by simp, hfirst, ?_, ?_⟩
  · rintro inner back rfl
    have hmem : call.peer ∈ ((self.after old).after (front ++ [first])).buckets := by
      rw [← hfirst]
      exact mem_after_call hsound front first
    have hstays : (self.after old).Stays call.peer (front ++ first :: inner) := by
      apply Stays.left (l := back)
      simpa using hsince
    have hsplit : front ++ first :: inner = (front ++ [first]) ++ inner := by simp
    have hstill := hstays.mem hsplit hmem
    rw [List.append_assoc, after_append]
    exact hstill
  · have hle : first.now ≤ call.now := by
      have hpairs := (List.pairwise_append.mp (List.pairwise_append.mp hcalls).2.1).2.2
      exact hpairs first (by simp) call (by simp)
    rw [after_append, ← takes_history, heq, as_secs_sub hle]
    exact hlt

/-! ## One peer among others -/

theorem answers_to_append (answers answers' : List RateAnswer) :
    answers_to peer (answers ++ answers') = answers_to peer answers ++ answers_to peer answers' :=
  List.filter_append _ _

theorem answers_to_self (self : PeerRateLimiter) (hcalls : ∀ call ∈ calls, call.peer = peer) :
    answers_to peer (self.answers calls) = self.answers calls := by
  induction calls using List.reverseRecOn with
  | nil => rfl
  | append_singleton calls call ih =>
    rw [answers_concat, answers_to_append, ih (fun c hc => hcalls c (by simp [hc]))]
    simp [answers_to, hcalls call (by simp)]

/-- The answer to a peer is what its own bucket holds. -/
theorem allowed_iff (h : Sound self) (hnone : call.peer ∉ self.buckets)
    (hcalls : InSequence (calls ++ [call])) (hstays : self.Stays call.peer calls) :
    ((self.after calls).allow_at call.peer call.now).1 = true ↔
      1 ≤ found self.rate.burst self.rate.per_second
        (in_secs (history call.peer (self.answers calls))) (Duration.as_secs call.now) := by
  obtain ⟨-, hanswered⟩ := stands_alone h hnone hcalls (hstays.concat h rfl)
  rw [answers_concat, history_concat, if_pos rfl, in_secs_cons] at hanswered
  exact hanswered.1

/-- While a peer stays, it is answered as if it were alone. -/
theorem answers_alone (h : Sound self) (hnone : peer ∉ self.buckets) (hcalls : InSequence calls)
    (hstays : self.Stays peer calls) :
    answers_to peer (self.answers calls) =
      (PeerRateLimiter.new self.rate).answers
        (calls.filter (fun call => decide (call.peer = peer))) := by
  induction calls using List.reverseRecOn with
  | nil => rfl
  | append_singleton calls call ih =>
    have hbefore : InSequence calls := (List.pairwise_append.mp hcalls).1
    have hsame := ih hbefore hstays.left
    rw [answers_concat, answers_to_append, hsame, List.filter_append]
    by_cases hpeer : call.peer = peer
    · subst hpeer
      have hown : ∀ c ∈ calls.filter (fun c => decide (c.peer = call.peer)), c.peer = call.peer :=
        fun c hc => by simpa using (List.mem_filter.mp hc).2
      have halone : (PeerRateLimiter.new self.rate).Stays call.peer
          (calls.filter (fun c => decide (c.peer = call.peer))) := by
        intro before last rest hsplit _
        rw [← hown last (by rw [hsplit]; simp)]
        exact mem_after_call (sound_new _) before last
      have hsorted : InSequence (calls.filter (fun c => decide (c.peer = call.peer)) ++ [call]) := by
        refine List.Pairwise.sublist ?_ hcalls
        exact List.filter_sublist.append (List.Sublist.refl _)
      have hhistory : history call.peer (self.answers calls) = history call.peer
          ((PeerRateLimiter.new self.rate).answers
            (calls.filter (fun c => decide (c.peer = call.peer)))) := by
        unfold history
        rw [hsame, answers_to_self _ hown]
      have hiff := (allowed_iff h hnone hcalls hstays.left).trans (hhistory ▸
        (allowed_iff (sound_new self.rate) (by simp [new]) hsorted halone).symm)
      rw [List.filter_cons_of_pos (by simp), List.filter_nil, answers_concat,
        Bool.eq_iff_iff.mpr hiff]
      simp [answers_to]
    · rw [List.filter_cons_of_neg (by simpa using hpeer), List.filter_nil, List.append_nil]
      simp [answers_to, hpeer]

/-! ## The promise -/

theorem late_calls (x : Instant) (h : InSequence calls) :
    ∀ c ∈ calls.dropWhile (fun c => decide (c.now < x)), x ≤ c.now := by
  induction calls with
  | nil => exact fun _ hc => nomatch hc
  | cons call calls ih =>
    obtain ⟨hfirst, hrest⟩ := List.pairwise_cons.mp h
    intro c hc
    by_cases hearly : call.now < x
    · rw [List.dropWhile_cons_of_pos (by simpa using hearly)] at hc
      exact ih hrest c hc
    · rw [List.dropWhile_cons_of_neg (by simpa using hearly)] at hc
      have hle : x ≤ call.now := Nat.le_of_not_lt hearly
      rcases List.mem_cons.mp hc with rfl | hmem
      · exact hle
      · exact hle.trans (hfirst c hmem)

theorem early_calls (x : Instant) :
    ∀ c ∈ calls.takeWhile (fun c => decide (c.now < x)), c.now < x :=
  fun _ hc => by simpa using List.mem_takeWhile_imp hc

/-- The calls within some time stand together. -/
theorem window_split (start stop : Instant) (h : InSequence calls) :
    ∃ before window late, calls = before ++ (window ++ late) ∧ (∀ c ∈ before, c.now < start) ∧
      (∀ c ∈ window, start ≤ c.now ∧ c.now ≤ stop) ∧ ∀ c ∈ late, stop < c.now := by
  have hlate := late_calls start h
  have hsorted : InSequence (calls.dropWhile (fun c => decide (c.now < start))) :=
    h.sublist (List.dropWhile_sublist _)
  generalize hrest : calls.dropWhile (fun c => decide (c.now < start)) = rest at hlate hsorted
  refine ⟨calls.takeWhile (fun c => decide (c.now < start)),
    rest.takeWhile (fun c => decide (c.now < stop + 1)),
    rest.dropWhile (fun c => decide (c.now < stop + 1)), ?_, early_calls start, ?_, ?_⟩
  · rw [List.takeWhile_append_dropWhile, ← hrest, List.takeWhile_append_dropWhile]
  · intro c hc
    exact ⟨hlate c (List.takeWhile_subset _ hc), Nat.lt_succ_iff.mp (early_calls _ c hc)⟩
  · exact fun c hc => late_calls (stop + 1) hsorted c hc

/-- The answers that let a peer through within some time. -/
def granted_within (peer : EndpointId) (start stop : Instant) (answers : List RateAnswer) : Nat :=
  (answers.filter (fun a => decide (a.call.peer = peer ∧ start ≤ a.call.now ∧ a.call.now ≤ stop ∧
    a.allowed = true))).length

theorem answers_calls (self : PeerRateLimiter) (calls : List RateCall) :
    ∀ a ∈ self.answers calls, a.call ∈ calls := by
  induction calls generalizing self with
  | nil => exact fun _ h => nomatch h
  | cons call calls ih =>
    intro a ha
    rcases List.mem_cons.mp ha with rfl | ha
    · exact List.mem_cons_self
    · exact List.mem_cons_of_mem _ (ih _ a ha)

theorem granted_within_window {before window late : List RateCall} {start stop : Instant}
    (hbefore : ∀ c ∈ before, c.now < start) (hwindow : ∀ c ∈ window, start ≤ c.now ∧ c.now ≤ stop)
    (hlate : ∀ c ∈ late, stop < c.now) :
    granted_within peer start stop (self.answers (before ++ (window ++ late))) =
      granted (answers_to peer ((self.after before).answers window)) := by
  have hnone : ∀ (limiter : PeerRateLimiter) (calls : List RateCall),
      (∀ c ∈ calls, c.now < start ∨ stop < c.now) →
      (limiter.answers calls).filter (fun a => decide (a.call.peer = peer ∧ start ≤ a.call.now ∧
        a.call.now ≤ stop ∧ a.allowed = true)) = [] := by
    intro limiter calls hcalls
    rw [List.filter_eq_nil_iff]
    intro a ha hall
    have hin := hcalls _ (answers_calls _ _ a ha)
    simp only [decide_eq_true_eq] at hall
    obtain ⟨-, hge, hle, -⟩ := hall
    rcases hin with hlt | hlt
    · exact absurd hge (Nat.not_le.mpr hlt)
    · exact absurd hle (Nat.not_le.mpr hlt)
  unfold granted_within granted answers_to
  rw [answers_append, answers_append, List.filter_append, List.filter_append,
    hnone _ _ (fun c hc => .inl (hbefore c hc)), hnone _ _ (fun c hc => .inr (hlate c hc)),
    List.nil_append, List.append_nil, List.countP_eq_length_filter, List.filter_filter]
  congr 1
  apply List.filter_congr
  intro a ha
  obtain ⟨hge, hle⟩ := hwindow _ (answers_calls _ _ a ha)
  cases a.allowed <;> simp [hge, hle]

/-- The limiter keeps its promise: what a peer gets within any time during which it
does not lose its bucket, when it is refused, that the others do not matter to it, and
how many buckets there are. -/
theorem limiter_keeps_its_promise (rate : Rate) (calls : List RateCall) (hburst : 1 ≤ rate.burst)
    (hrate : 0 ≤ rate.per_second) (hcalls : InSequence calls) :
    (∀ (peer : EndpointId) (start : Instant) (d : Duration),
      (∀ before call rest, calls = before ++ call :: rest → start ≤ call.now →
        call.now ≤ start + d → peer ∈ ((new rate).after before).buckets →
        peer ∈ ((new rate).after (before ++ [call])).buckets) →
      (granted_within peer start (start + d) ((new rate).answers calls) : ℚ) ≤
        rate.burst + rate.per_second * Duration.as_secs d) ∧
    (∀ before call rest, calls = before ++ call :: rest →
      (((new rate).after before).allow_at call.peer call.now).1 = false →
      ∃ old first recent, before = old ++ first :: recent ∧ first.peer = call.peer ∧
        (∀ front back, recent = front ++ back →
          call.peer ∈ ((new rate).after (old ++ first :: front)).buckets) ∧
        rate.burst + rate.per_second * Duration.as_secs (call.now - first.now) <
          granted (answers_to call.peer (((new rate).after old).answers (first :: recent))) + 1) ∧
    (∀ (peer : EndpointId) (before since rest : List RateCall), calls = before ++ since ++ rest →
      peer ∉ ((new rate).after before).buckets → ((new rate).after before).Stays peer since →
      answers_to peer (((new rate).after before).answers since) =
        (new rate).answers (since.filter (fun call => decide (call.peer = peer)))) ∧
    HashMap.len ((new rate).after calls).buckets ≤ MAX_TRACKED_PEERS ∧
    Sound ((new rate).after calls) := by
  have hnew := sound_new rate
  have hnone : ∀ peer : EndpointId, peer ∉ (new rate).buckets := by simp [new]
  have hsound := sound_after hnew calls
  refine ⟨?_, ?_, ?_, ?_, hsound⟩
  · intro peer start d hkept
    obtain ⟨before, window, late, rfl, hbefore, hwindow, hlate⟩ :=
      window_split start (start + d) hcalls
    rw [granted_within_window hbefore hwindow hlate]
    rw [← List.append_assoc] at hcalls
    refine granted_le hnew (hnone peer) hburst hrate (List.pairwise_append.mp hcalls).1 ?_ ?_
    · intro front call rest hsplit hmem
      have htime := hwindow call (by simp [hsplit])
      rw [← after_append] at hmem
      have hstill := hkept (before ++ front) call (rest ++ late) (by simp [hsplit]) htime.1 htime.2
        hmem
      rwa [List.append_assoc, after_append] at hstill
    · intro a ha b hb
      exact (hwindow a ha).2.trans (Nat.add_le_add_right (hwindow b hb).1 d)
  · rintro before call rest rfl hrefused
    have hprefix : InSequence (before ++ [call]) := by
      have h : InSequence ((before ++ [call]) ++ rest) := by simpa using hcalls
      exact (List.pairwise_append.mp h).1
    exact refused_only hnew (hnone _) hburst hprefix hrefused
  · rintro peer before since rest rfl habsent hstays
    have hsince : InSequence since :=
      (List.pairwise_append.mp (List.pairwise_append.mp hcalls).1).2.1
    have halone := answers_alone (sound_after hnew before) habsent hsince hstays
    rwa [rate_after hnew] at halone
  · rw [HashMap.len_eq_card _ hsound.same, List.toFinset_card_of_nodup hsound.nodup]
    exact hsound.length

end PeerRateLimiter

end Laws

/-! ## Two peers -/

namespace two_peers

local instance : Crypto := Crypto.clear

def peer (n : UInt8) : EndpointId := SecretKey.public ⟨.fill 32 n⟩

def rate : Rate := ⟨1, 1⟩

/-- Two calls of one peer, and one of another in between. -/
def calls : List RateCall := [⟨peer 1, 0⟩, ⟨peer 2, 0⟩, ⟨peer 1, 5⟩]

open PeerRateLimiter in
/-- The second call of the one is refused: it has had its burst. -/
theorem limiter_keeps_its_promise_at_two :
    (∃ old first recent, [⟨peer 1, 0⟩, ⟨peer 2, 0⟩] = old ++ first :: recent ∧
      first.peer = peer 1 ∧
      (∀ front back, recent = front ++ back →
        peer 1 ∈ ((new rate).after (old ++ first :: front)).buckets) ∧
      rate.burst + rate.per_second * Duration.as_secs (5 - first.now) <
        granted (answers_to (peer 1) (((new rate).after old).answers (first :: recent))) + 1) ∧
    HashMap.len ((new rate).after calls).buckets ≤ MAX_TRACKED_PEERS := by
  have h := limiter_keeps_its_promise rate calls (by decide +kernel) (by decide +kernel)
    (by unfold InSequence; decide)
  exact ⟨h.2.1 [⟨peer 1, 0⟩, ⟨peer 2, 0⟩] ⟨peer 1, 5⟩ [] rfl (by decide +kernel), h.2.2.2.1⟩

end two_peers

end iroh_drop
