-- The laws of the replay: while the calls of `emit` get to the ring and to the
-- channel in the order of their numbers, nobody misses an event unawares.
import IrohDrop.EventBus
import IrohDrop.Numbered

open rust_std numbered

namespace iroh_drop

/-- The number of an event. -/
def Envelope.number (self : Envelope) : Nat := self.seq.toNat

/-! ## What is promised -/

namespace EventStream

/-- A replay from any number has each event once, in order, and all of those
that have a number from there up to the largest, or says that some are gone. -/
def ReplayTells (s : EventStream) : Prop :=
  ∀ start : UInt64,
    (s.bus.replay start).1.Pairwise (fun x y => x.seq < y.seq) ∧
      ((s.bus.replay start).2 = false → ∀ env ∈ s.emitted, start ≤ env.seq →
        (∃ last ∈ (s.bus.replay start).1, env.seq ≤ last.seq) → env ∈ (s.bus.replay start).1)

end EventStream

/-- A client that was not told otherwise has seen each event between two that
it has seen. -/
def Watcher.MissesNothing (w : Watcher) (emitted : List Envelope) : Prop :=
  w.told = false → ∀ env ∈ emitted, (∃ first ∈ w.seen, first.seq ≤ env.seq) →
    (∃ last ∈ w.seen, env.seq ≤ last.seq) → env ∈ w.seen

namespace EventStream

/-- A call gets to the ring, or to the channel, before those of larger numbers,
and the counter does not wrap. -/
def InTurn (s : EventStream) : StreamStep → Prop
  | .take _ _ => s.bus.seq.toNat + 1 < 2 ^ 64
  | .append j => s.calls[j]?.all fun call => call.in_ring ||
      s.calls.all fun other => other.in_ring || decide (call.env.seq ≤ other.env.seq)
  | .send j => s.calls[j]?.all fun call => !call.in_ring ||
      s.calls.all fun other => decide (call.env.seq ≤ other.env.seq)
  | _ => True

instance (s : EventStream) (step : StreamStep) : Decidable (s.InTurn step) := by
  unfold InTurn; cases step <;> infer_instance

end EventStream

/-! ## Feeds -/

/-- The notices are the values of the channel from one place up to another, as
far as none is a gap. -/
def Follows (sent : List Envelope) : Nat → List Notice → Nat → Prop
  | p, [], next => p = next
  | p, .event env :: pipe, next => sent[p]? = some env ∧ Follows sent (p + 1) pipe next
  | _, .truncated _ :: _, _ => True

section Feeds

variable {sent : List Envelope} {p next : Nat} {pipe : List Notice}

theorem Follows.later (h : Follows sent p pipe next) (env : Envelope) :
    Follows (sent ++ [env]) p pipe next := by
  induction pipe generalizing p with
  | nil => exact h
  | cons notice pipe ih =>
    cases notice with
    | event value =>
      refine ⟨?_, ih h.2⟩
      rw [List.getElem?_append_left (List.getElem?_eq_some_iff.mp h.1).1]
      exact h.1
    | truncated missed => trivial

theorem Follows.event (h : Follows sent p pipe next) {env : Envelope}
    (henv : sent[next]? = some env) : Follows sent p (pipe ++ [.event env]) (next + 1) := by
  induction pipe generalizing p with
  | nil =>
    have hp : p = next := h
    exact ⟨hp ▸ henv, congrArg (· + 1) hp⟩
  | cons notice pipe ih =>
    cases notice with
    | event value => exact ⟨h.1, ih h.2⟩
    | truncated missed => trivial

theorem Follows.truncated (h : Follows sent p pipe next) (missed next' : Nat) :
    Follows sent p (pipe ++ [.truncated missed]) next' := by
  induction pipe generalizing p with
  | nil => trivial
  | cons notice pipe ih =>
    cases notice with
    | event value => exact ⟨h.1, ih h.2⟩
    | truncated missed => trivial

theorem Follows.forward {feed : Feed} {bus : EventBus} (h : Follows bus.sent p feed.pipe feed.next) :
    Follows bus.sent p (feed.forward bus).pipe (feed.forward bus).next := by
  unfold Feed.forward broadcast_recv
  split
  · rename_i env next heq
    split at heq
    · cases heq
    · split at heq
      · rename_i value hvalue
        cases heq
        exact h.event hvalue
      · cases heq
  · rename_i missed next heq
    exact h.truncated missed next
  · exact h
  · exact h

end Feeds

/-! ## A client in the middle of its events -/

/-- How far a client has come: the bus has put the first `a` events into the
ring, and the first `m` into the channel. -/
inductive Placed (emitted : List Envelope) (m a : Nat) (w : Watcher) : Prop where
  | told (h : w.told = true)
  | blank (seen : w.seen = []) (last : w.last = none) (resume : w.resume = none)
      (feed : ∀ feed, w.feed = some feed → ∃ p, Follows (emitted.take m) p feed.pipe feed.next)
  | going (lo hi : Nat) (n : UInt64) (span : Spans emitted w.seen lo hi) (ring : hi ≤ a)
      (sent : lo ≤ m) (last : w.last = some n) (above : lo < n.toNat) (below : n.toNat ≤ hi)
      (feed : ∀ feed, w.feed = some feed → ∃ p, lo ≤ p ∧ p ≤ m ∧
        Follows (emitted.take m) p feed.pipe feed.next ∧ (w.resume = none → p ≤ hi))
      (resume : ∀ start, w.resume = some start → start.toNat = n.toNat + 1)

section Laws

variable {emitted : List Envelope} {m a : Nat} {w : Watcher}

theorem Placed.misses_nothing (h : Placed emitted m a w)
    (hnum : Numbered Envelope.number 1 emitted) : w.MissesNothing emitted := by
  rintro htold env henv ⟨first, hfirst, hlow⟩ ⟨last, hlast, hhigh⟩
  cases h with
  | told h =>
    rw [h] at htold
    cases htold
  | blank seen =>
    rw [seen] at hfirst
    cases hfirst
  | going lo hi n span =>
    exact span.between hnum hfirst hlast henv (UInt64.le_iff_toNat_le.mp hlow)
      (UInt64.le_iff_toNat_le.mp hhigh)

theorem Placed.new : Placed emitted m a .new :=
  .blank rfl rfl rfl fun _ h => nomatch h

/-- A call takes a number. -/
theorem Placed.take (h : Placed emitted m a w) (ha : a ≤ emitted.length) (hm : m ≤ a)
    (env : Envelope) : Placed (emitted ++ [env]) m a w := by
  have hsame : (emitted ++ [env]).take m = emitted.take m :=
    List.take_append_of_le_length (hm.trans ha)
  cases h with
  | told h => exact .told h
  | blank seen last resume feed =>
    refine .blank seen last resume ?_
    rwa [hsame]
  | going lo hi n span ring sent last above below feed resume =>
    refine .going lo hi n (span.grow (ring.trans ha) env) ring sent last above below ?_ resume
    rwa [hsame]

/-- A call gets to the ring. -/
theorem Placed.append (h : Placed emitted m a w) : Placed emitted m (a + 1) w := by
  cases h with
  | told h => exact .told h
  | blank seen last resume feed => exact .blank seen last resume feed
  | going lo hi n span ring sent last above below feed resume =>
    exact .going lo hi n span (Nat.le_succ_of_le ring) sent last above below feed resume

/-- A call gets to the channel. -/
theorem Placed.send (h : Placed emitted m a w) {env : Envelope} (henv : emitted[m]? = some env) :
    Placed emitted (m + 1) a w := by
  have hnext : emitted.take (m + 1) = emitted.take m ++ [env] := by
    rw [List.take_add_one, henv, Option.toList_some]
  cases h with
  | told h => exact .told h
  | blank seen last resume feed =>
    refine .blank seen last resume fun f hf => ?_
    obtain ⟨p, hfollows⟩ := feed f hf
    exact ⟨p, hnext ▸ hfollows.later env⟩
  | going lo hi n span ring sent last above below feed resume =>
    refine .going lo hi n span ring (Nat.le_succ_of_le sent) last above below (fun f hf => ?_) resume
    obtain ⟨p, hlo, hp, hfollows, hhi⟩ := feed f hf
    exact ⟨p, hlo, Nat.le_succ_of_le hp, hnext ▸ hfollows.later env, hhi⟩

theorem Placed.disconnect (h : Placed emitted m a w) : Placed emitted m a w.disconnect := by
  cases h with
  | told h => exact .told h
  | blank seen last resume feed => exact .blank seen last rfl fun _ h => nomatch h
  | going lo hi n span ring sent last above below feed resume =>
    exact .going lo hi n span ring sent last above below (fun _ h => nomatch h) fun _ h => nomatch h

theorem Placed.connect {bus : EventBus} (h : Placed emitted m a w) (hm : m ≤ emitted.length)
    (hsent : bus.sent = emitted.take m) (hroom : a + 1 < 2 ^ 64) :
    Placed emitted m a (w.connect bus) := by
  have hlength : bus.sent.length = m := by
    rw [hsent, List.length_take_of_le hm]
  unfold Watcher.connect
  split
  · exact h
  · cases h with
    | told h => exact .told h
    | blank seen last resume feed =>
      refine .blank seen last (by rw [last]; rfl) fun f hf => ?_
      cases hf
      exact ⟨m, hlength.symm⟩
    | going lo hi n span ring sent last above below feed resume =>
      refine .going lo hi n span ring sent last above below (fun f hf => ?_) fun start hstart => ?_
      · cases hf
        refine ⟨m, sent, le_refl m, hlength.symm, fun hnone => ?_⟩
        rw [last] at hnone
        cases hnone
      · rw [last, Option.map_some, Option.some.injEq] at hstart
        rw [← hstart, UInt64.toNat_add, UInt64.toNat_one]
        exact Nat.mod_eq_of_lt (by omega)

theorem Placed.forward {bus : EventBus} (h : Placed emitted m a w)
    (hsent : bus.sent = emitted.take m) : Placed emitted m a (w.forward bus) := by
  have hfeed : ∀ f, (w.forward bus).feed = some f → ∃ before, w.feed = some before ∧
      ∀ p, Follows (emitted.take m) p before.pipe before.next →
        Follows (emitted.take m) p f.pipe f.next := by
    intro f hf
    obtain ⟨before, hbefore, rfl⟩ := Option.map_eq_some_iff.mp hf
    refine ⟨before, hbefore, fun p hfollows => ?_⟩
    rw [← hsent] at hfollows ⊢
    exact hfollows.forward
  cases h with
  | told h => exact .told h
  | blank seen last resume feed =>
    refine .blank seen last resume fun f hf => ?_
    obtain ⟨before, hbefore, hkept⟩ := hfeed f hf
    obtain ⟨p, hfollows⟩ := feed before hbefore
    exact ⟨p, hkept p hfollows⟩
  | going lo hi n span ring sent last above below feed resume =>
    refine .going lo hi n span ring sent last above below (fun f hf => ?_) resume
    obtain ⟨before, hbefore, hkept⟩ := hfeed f hf
    obtain ⟨p, hlo, hp, hfollows, hhi⟩ := feed before hbefore
    exact ⟨p, hlo, hp, hkept p hfollows, hhi⟩

/-- An event of the channel is the next one, or one that was seen. -/
theorem Placed.event (h : Placed emitted m a w) (hnum : Numbered Envelope.number 1 emitted)
    (hm : m ≤ a) {next : Nat} {env : Envelope} {pipe : List Notice}
    (hfeed : w.feed = some ⟨next, .event env :: pipe⟩) (hresume : w.resume = none) :
    Placed emitted m a { w.see [env] with feed := some ⟨next, pipe⟩ } := by
  have hplace : ∀ p, (emitted.take m)[p]? = some env →
      emitted[p]? = some env ∧ p < m ∧ env.seq.toNat = p + 1 := by
    intro p hp
    have hlt : p < m := by
      by_contra hge
      rw [List.getElem?_take_eq_none (Nat.le_of_not_lt hge)] at hp
      cases hp
    rw [List.getElem?_take_of_lt hlt] at hp
    exact ⟨hp, hlt, (hnum p env hp).trans (Nat.add_comm _ _)⟩
  cases h with
  | told h => exact .told h
  | blank seen last resume feed =>
    obtain ⟨p, henv, hfollows⟩ := feed _ hfeed
    obtain ⟨hp, hlt, hseq⟩ := hplace p henv
    refine .going p (p + 1) env.seq ?_ (by omega) hlt.le rfl (by omega) (by omega) (fun f hf => ?_)
      fun start hstart => ?_
    · change Spans emitted (w.seen ++ [env]) p (p + 1)
      rw [seen]
      exact Spans.singleton hp
    · cases hf
      exact ⟨p + 1, by omega, hlt, hfollows, fun _ => le_refl _⟩
    · rw [show w.resume = some start from hstart] at hresume
      cases hresume
  | going lo hi n span ring sent last above below feed resume =>
    obtain ⟨p, hlo, -, ⟨henv, hfollows⟩, hhi⟩ := feed _ hfeed
    obtain ⟨hp, hlt, hseq⟩ := hplace p henv
    refine .going lo (max hi (p + 1)) env.seq
      (span.append (Spans.singleton hp) hlo (hhi hresume)) (by omega) sent rfl (by omega) (by omega)
      (fun f hf => ?_) fun start hstart => ?_
    · cases hf
      exact ⟨p + 1, by omega, hlt, hfollows, fun _ => Nat.le_max_right _ _⟩
    · rw [show w.resume = some start from hstart] at hresume
      cases hresume

theorem Placed.receive (h : Placed emitted m a w) (hnum : Numbered Envelope.number 1 emitted)
    (hm : m ≤ a) : Placed emitted m a w.receive := by
  unfold Watcher.receive
  split
  · rename_i next env pipe hfeed hresume
    exact h.event hnum hm hfeed hresume
  · exact .told rfl
  · exact h

/-! ## The replay -/

/-- The ring has the last events that got to it. -/
structure Kept (bus : EventBus) (emitted : List Envelope) (a : Nat) : Prop where
  numbered : Numbered Envelope.number 1 emitted
  within : a ≤ emitted.length
  ring : bus.ring = (emitted.take a).drop (a - EVENT_RING)

theorem toNat_max_one (start : UInt64) : (max start 1).toNat = max start.toNat 1 := by
  change (if start ≤ 1 then 1 else start).toNat = max start.toNat 1
  split
  · rename_i hle
    rw [UInt64.le_iff_toNat_le, UInt64.toNat_one] at hle
    rw [UInt64.toNat_one, Nat.max_eq_right hle]
  · rename_i hgt
    rw [UInt64.le_iff_toNat_le, UInt64.toNat_one] at hgt
    exact (Nat.max_eq_left (by omega)).symm

variable {bus : EventBus}

/-- The replay is the end of the events that got to the ring. -/
theorem Kept.replay (h : Kept bus emitted a) (start : UInt64) :
    (bus.replay start).1 =
      (emitted.take a).drop (max (a - EVENT_RING) (max start.toNat 1 - 1)) := by
  have hring : Numbered Envelope.number (1 + (a - EVENT_RING)) bus.ring := by
    rw [h.ring]
    exact (h.numbered.take a).drop _
  have hfilter : (bus.replay start).1 =
      bus.ring.filter (fun env => decide (max start.toNat 1 ≤ env.number)) := by
    unfold EventBus.replay
    refine List.filter_congr fun env _ => decide_eq_decide.mpr ?_
    rw [UInt64.le_iff_toNat_le, toNat_max_one]
    rfl
  have hstart : a - EVENT_RING + (max start.toNat 1 - (1 + (a - EVENT_RING))) =
      max (a - EVENT_RING) (max start.toNat 1 - 1) := by omega
  rw [hfilter, hring.filter_ge, h.ring, List.drop_drop, hstart]

/-- Nothing from the number on is gone. -/
theorem Kept.not_truncated (h : Kept bus emitted a) {start : UInt64}
    (hkept : (bus.replay start).2 = false) : a - EVENT_RING ≤ max start.toNat 1 - 1 := by
  by_cases ha : a ≤ EVENT_RING
  · omega
  · have hlt : a - EVENT_RING < emitted.length := by
      have := h.within
      have : 0 < EVENT_RING := by decide
      omega
    have hhead : bus.ring.head? = some emitted[a - EVENT_RING] := by
      rw [h.ring, List.head?_drop, List.getElem?_take_of_lt (by
        have : 0 < EVENT_RING := by decide
        omega), List.getElem?_eq_getElem hlt]
    unfold EventBus.replay at hkept
    simp only [hhead, Option.map_some, Option.getD_some, decide_eq_false_iff_not,
      UInt64.not_lt] at hkept
    have hnumber := h.numbered _ _ (List.getElem?_eq_getElem hlt)
    rw [UInt64.le_iff_toNat_le, toNat_max_one] at hkept
    unfold Envelope.number at hnumber
    omega

theorem Placed.catch_up (h : Placed emitted m a w) (hkept : Kept bus emitted a) (hm : m ≤ a) :
    Placed emitted m a (w.catch_up bus) := by
  unfold Watcher.catch_up
  split
  · rename_i f start hfeed hresume
    rcases htruncated : (bus.replay start).2 with _ | _
    · cases h with
      | told h => exact .told (by simp [h])
      | blank _ _ resume =>
        rw [resume] at hresume
        cases hresume
      | going lo hi n span ring sent last above below feed resume =>
        have hstart := resume start hresume
        have hold := hkept.not_truncated htruncated
        -- The replay starts right after the last event that was seen.
        have hevents : (bus.replay start).1 = (emitted.take a).drop n.toNat := by
          have hplace : max (a - EVENT_RING) (max start.toNat 1 - 1) = n.toNat := by omega
          rw [hkept.replay, hplace]
        have hspan : Spans emitted (w.seen ++ (bus.replay start).1) lo a := by
          have hmore : Spans emitted (bus.replay start).1 n.toNat a := by
            rw [hevents]
            exact Spans.slice emitted n.toNat a
          have hboth := span.append hmore above.le below
          rwa [Nat.max_eq_right ring] at hboth
        obtain ⟨n', hlast, habove, hbelow⟩ : ∃ n' : UInt64,
            (((bus.replay start).1.getLast?.map Envelope.seq) <|> w.last) = some n' ∧
              lo < n'.toNat ∧ n'.toNat ≤ a := by
          rcases hget : (bus.replay start).1.getLast? with _ | env
          · exact ⟨n, last, above, below.trans ring⟩
          · have henv := List.mem_of_getLast? hget
            rw [hevents] at henv
            obtain ⟨j, hj₁, hj₂, hj⟩ := (Spans.slice emitted n.toNat a env).mp henv
            have hnumber : env.seq.toNat = 1 + j := hkept.numbered j env hj
            exact ⟨env.seq, rfl, by omega, by omega⟩
        refine .going lo a n' hspan (le_refl a) sent hlast habove hbelow (fun f hf => ?_)
          fun _ h => nomatch h
        obtain ⟨p, hlo, hp, hfollows, -⟩ := feed f hf
        exact ⟨p, hlo, hp, hfollows, fun _ => hp.trans hm⟩
    · exact .told (by simp [htruncated])
  · exact h

end Laws

/-! ## The bus in turn -/

namespace EventStream

/-- The first `a` events have got to the ring and the first `m` to the channel;
the calls of the others are under way. -/
structure Regular (s : EventStream) (m a : Nat) : Prop where
  kept : Kept s.bus s.emitted a
  counter : s.bus.seq.toNat = s.emitted.length + 1
  behind : m ≤ a
  sent : s.bus.sent = s.emitted.take m
  calls : (s.calls.map EmitCall.env).Perm (s.emitted.drop m)
  placed : ∀ call ∈ s.calls, call.in_ring = decide (call.env.number ≤ a)
  watchers : ∀ w ∈ s.watchers, Placed s.emitted m a w

variable {s : EventStream} {m a : Nat}

theorem regular_new : Regular .new 0 0 :=
  ⟨⟨.nil, Nat.zero_le _, rfl⟩, rfl, le_refl 0, rfl, .refl _, fun _ h => (nomatch h),
    fun _ h => (nomatch h)⟩

/-- The number of a call that is under way. -/
theorem Regular.number (h : Regular s m a) {call : EmitCall} (hcall : call ∈ s.calls) :
    ∃ i, m ≤ i ∧ s.emitted[i]? = some call.env ∧ call.env.number = i + 1 := by
  have hmem : call.env ∈ s.emitted.drop m := h.calls.mem_iff.mp (List.mem_map_of_mem hcall)
  obtain ⟨i, hi⟩ := List.mem_iff_getElem?.mp hmem
  rw [List.getElem?_drop] at hi
  exact ⟨m + i, Nat.le_add_right m i, hi, (h.kept.numbered _ _ hi).trans (Nat.add_comm _ _)⟩

theorem Regular.emitted_of_call (h : Regular s m a) {call : EmitCall} (hcall : call ∈ s.calls) :
    call.env ∈ s.emitted :=
  List.mem_of_mem_drop (h.calls.mem_iff.mp (List.mem_map_of_mem hcall))

theorem Regular.envs_nodup (h : Regular s m a) : (s.calls.map EmitCall.env).Nodup := by
  refine h.calls.nodup_iff.mpr ?_
  refine (h.kept.numbered.drop m).pairwise.imp ?_
  rintro x y hlt rfl
  exact absurd hlt (lt_irrefl _)

/-- The call of an event that did not get to the channel. -/
theorem Regular.call (h : Regular s m a) {i : Nat} (hi : i < s.emitted.length) (hm : m ≤ i) :
    ∃ call ∈ s.calls, call.env.number = i + 1 := by
  have hmem : s.emitted[i] ∈ s.emitted.drop m := by
    refine List.mem_iff_getElem?.mpr ⟨i - m, ?_⟩
    rw [List.getElem?_drop, Nat.add_sub_cancel' hm, List.getElem?_eq_getElem hi]
  obtain ⟨call, hcall, henv⟩ := List.mem_map.mp (h.calls.mem_iff.mpr hmem)
  refine ⟨call, hcall, ?_⟩
  rw [henv, h.kept.numbered i _ (List.getElem?_eq_getElem hi), Nat.add_comm]

theorem Regular.take (h : Regular s m a) (e : String) (p : Value)
    (hroom : s.bus.seq.toNat + 1 < 2 ^ 64) : Regular (s.take e p) m a := by
  have hnumber : (s.bus.take e p).1.number = 1 + s.emitted.length :=
    h.counter.trans (Nat.add_comm _ _)
  have hwithin := h.kept.within
  have hsame : ∀ n ≤ a, (s.emitted ++ [(s.bus.take e p).1]).take n = s.emitted.take n := fun n hn =>
    List.take_append_of_le_length (hn.trans hwithin)
  refine ⟨⟨h.kept.numbered.concat hnumber, ?_, ?_⟩, ?_, h.behind, ?_, ?_, ?_, ?_⟩
  · change a ≤ (s.emitted ++ [_]).length
    rw [List.length_append]
    exact Nat.le_add_right_of_le hwithin
  · change s.bus.ring = ((s.emitted ++ [(s.bus.take e p).1]).take a).drop (a - EVENT_RING)
    rw [hsame a (le_refl a)]
    exact h.kept.ring
  · change (s.bus.seq + 1).toNat = (s.emitted ++ [_]).length + 1
    rw [UInt64.toNat_add, UInt64.toNat_one, List.length_append, List.length_singleton,
      Nat.mod_eq_of_lt hroom, h.counter]
  · exact h.sent.trans (hsame m h.behind).symm
  · change ((s.calls ++ [_]).map EmitCall.env).Perm ((s.emitted ++ [_]).drop m)
    rw [List.map_append, List.drop_append_of_le_length (h.behind.trans hwithin)]
    exact h.calls.append_right _
  · intro call hcall
    rcases List.mem_append.mp hcall with hold | hnew
    · exact h.placed call hold
    · rw [List.mem_singleton.mp hnew]
      refine (decide_eq_false ?_).symm
      change ¬ (s.bus.take e p).1.number ≤ a
      omega
  · exact fun w hw => (h.watchers w hw).take hwithin h.behind _

/-- The call that gets to the ring is the one of the next event. -/
theorem Regular.append_at (h : Regular s m a) {j : Nat} {env : Envelope}
    (hcall : s.calls[j]? = some ⟨env, false⟩) (hturn : s.InTurn (.append j)) :
    s.emitted[a]? = some env ∧ env.number = a + 1 := by
  obtain ⟨i, -, hi, hnumber⟩ := h.number (List.mem_of_getElem? hcall)
  have hout : a < env.number := by
    have hplaced := h.placed _ (List.mem_of_getElem? hcall)
    exact Nat.lt_of_not_le (of_decide_eq_false hplaced.symm)
  have hlt := (List.getElem?_eq_some_iff.mp hi).1
  have hnum : env.number = i + 1 := hnumber
  obtain ⟨other, hother, hnext⟩ := h.call (i := a) (by omega) h.behind
  have hleast : env.number ≤ other.env.number := by
    simp only [InTurn, hcall, Option.all_some, Bool.false_or, List.all_eq_true, Bool.or_eq_true,
      decide_eq_true_eq] at hturn
    refine UInt64.le_iff_toNat_le.mp ((hturn other hother).resolve_left ?_)
    rw [h.placed other hother, decide_eq_true_eq]
    omega
  have hia : i = a := by omega
  exact ⟨hia ▸ hi, by omega⟩

theorem map_env_set {calls : List EmitCall} {j : Nat} {env : Envelope} {in_ring in_ring' : Bool}
    (h : calls[j]? = some ⟨env, in_ring⟩) :
    (calls.set j ⟨env, in_ring'⟩).map EmitCall.env = calls.map EmitCall.env := by
  refine List.ext_getElem? fun k => ?_
  rw [List.getElem?_map, List.getElem?_map]
  by_cases hjk : j = k
  · subst hjk
    rw [List.getElem?_set_self (List.getElem?_eq_some_iff.mp h).1, h]
    rfl
  · rw [List.getElem?_set_ne hjk]

theorem Regular.append (h : Regular s m a) {j : Nat} {env : Envelope}
    (hcall : s.calls[j]? = some ⟨env, false⟩) (hturn : s.InTurn (.append j)) :
    Regular { s with bus := s.bus.append env, calls := s.calls.set j ⟨env, true⟩ } m (a + 1) := by
  obtain ⟨henv, hnumber⟩ := h.append_at hcall hturn
  have hlt := (List.getElem?_eq_some_iff.mp henv).1
  have hringLength : s.bus.ring.length = a - (a - EVENT_RING) := by
    rw [h.kept.ring, List.length_drop, List.length_take_of_le h.kept.within]
  have hring : (s.bus.append env).ring = (s.emitted.take (a + 1)).drop (a + 1 - EVENT_RING) := by
    have hnext : s.emitted.take (a + 1) = s.emitted.take a ++ [env] := by
      rw [List.take_add_one, henv, Option.toList_some]
    have hpos : 0 < EVENT_RING := by decide
    unfold EventBus.append
    simp only
    rw [hringLength, hnext, List.drop_append_of_le_length (by
      rw [List.length_take_of_le h.kept.within]
      omega), h.kept.ring]
    split
    · have hplace : a - EVENT_RING + 1 = a + 1 - EVENT_RING := by omega
      rw [List.tail_drop, hplace]
    · have hplace : a - EVENT_RING = a + 1 - EVENT_RING := by omega
      rw [hplace]
  refine ⟨⟨h.kept.numbered, hlt, hring⟩, h.counter, Nat.le_succ_of_le h.behind, h.sent, ?_, ?_, ?_⟩
  · change ((s.calls.set j ⟨env, true⟩).map EmitCall.env).Perm _
    rw [map_env_set hcall]
    exact h.calls
  · intro call hmem
    obtain ⟨k, hk⟩ := List.mem_iff_getElem?.mp hmem
    by_cases hjk : j = k
    · subst hjk
      rw [List.getElem?_set_self (List.getElem?_eq_some_iff.mp hcall).1, Option.some.injEq] at hk
      subst hk
      exact (decide_eq_true hnumber.le).symm
    · rw [List.getElem?_set_ne hjk] at hk
      rw [h.placed call (List.mem_of_getElem? hk)]
      have hne : call.env.number ≠ a + 1 := by
        intro heq
        have hsame := h.kept.numbered.inj (h.emitted_of_call (List.mem_of_getElem? hk))
          (List.mem_of_getElem? henv) (heq.trans hnumber.symm)
        have hlt : j < (s.calls.map EmitCall.env).length := by
          rw [List.length_map]
          exact (List.getElem?_eq_some_iff.mp hcall).1
        refine hjk ((List.getElem?_inj hlt h.envs_nodup).mp ?_)
        rw [List.getElem?_map, List.getElem?_map, hcall, hk]
        exact congrArg some hsame.symm
      exact decide_eq_decide.mpr (by omega)
  · exact fun w hw => (h.watchers w hw).append

/-- The call that gets to the channel is the one of the next event. -/
theorem Regular.send_at (h : Regular s m a) {j : Nat} {env : Envelope}
    (hcall : s.calls[j]? = some ⟨env, true⟩) (hturn : s.InTurn (.send j)) :
    s.emitted[m]? = some env ∧ m + 1 ≤ a := by
  obtain ⟨i, him, hi, hnumber⟩ := h.number (List.mem_of_getElem? hcall)
  have hin : env.number ≤ a := of_decide_eq_true (h.placed _ (List.mem_of_getElem? hcall)).symm
  have hlt := (List.getElem?_eq_some_iff.mp hi).1
  have hnum : env.number = i + 1 := hnumber
  obtain ⟨other, hother, hnext⟩ := h.call (i := m) (by omega) (le_refl m)
  have hleast : env.number ≤ other.env.number := by
    simp only [InTurn, hcall, Option.all_some, Bool.not_true, Bool.false_or, List.all_eq_true,
      decide_eq_true_eq] at hturn
    exact UInt64.le_iff_toNat_le.mp (hturn other hother)
  have him : i = m := by omega
  exact ⟨him ▸ hi, by omega⟩

theorem Regular.send (h : Regular s m a) {j : Nat} {env : Envelope}
    (hcall : s.calls[j]? = some ⟨env, true⟩) (hturn : s.InTurn (.send j)) :
    Regular { s with bus := s.bus.send env, calls := s.calls.eraseIdx j } (m + 1) a := by
  obtain ⟨henv, hbehind⟩ := h.send_at hcall hturn
  obtain ⟨hj, hget⟩ := List.getElem?_eq_some_iff.mp hcall
  refine ⟨⟨h.kept.numbered, h.kept.within, h.kept.ring⟩, h.counter, hbehind, ?_, ?_, ?_, ?_⟩
  · change s.bus.sent ++ [env] = s.emitted.take (m + 1)
    rw [h.sent, List.take_add_one, henv, Option.toList_some]
  · have hcalls : (env :: (s.calls.eraseIdx j).map EmitCall.env).Perm
        (env :: s.emitted.drop (m + 1)) := by
      have hone := (List.getElem_cons_eraseIdx_perm hj).map EmitCall.env
      rw [List.map_cons, hget] at hone
      obtain ⟨hm, hat⟩ := List.getElem?_eq_some_iff.mp henv
      have hdrop : s.emitted.drop m = env :: s.emitted.drop (m + 1) := by
        rw [List.drop_eq_getElem_cons hm, hat]
      exact hone.trans (hdrop ▸ h.calls)
    exact hcalls.cons_inv
  · exact fun call hmem => h.placed call (List.mem_of_mem_eraseIdx hmem)
  · exact fun w hw => (h.watchers w hw).send henv

theorem Regular.modify_watcher (h : Regular s m a) (k : Nat) {f : Watcher → Watcher}
    (hf : ∀ w, Placed s.emitted m a w → Placed s.emitted m a (f w)) :
    Regular (s.modify_watcher k f) m a := by
  refine ⟨h.kept, h.counter, h.behind, h.sent, h.calls, h.placed, fun w hw => ?_⟩
  obtain ⟨i, hi⟩ := List.mem_iff_getElem?.mp hw
  change (s.watchers.modify k f)[i]? = some w at hi
  rw [List.getElem?_modify, Option.map_eq_map, Option.map_eq_some_iff] at hi
  obtain ⟨before, hbefore, rfl⟩ := hi
  have hold := h.watchers before (List.mem_of_getElem? hbefore)
  split
  · exact hf before hold
  · exact hold

theorem Regular.step (h : Regular s m a) (step : StreamStep) (hturn : s.InTurn step) :
    ∃ m a, Regular (s.step step) m a := by
  have hm := h.behind.trans h.kept.within
  cases step with
  | take e p => exact ⟨m, a, h.take e p hturn⟩
  | append j =>
    change ∃ m a, Regular (s.append j) m a
    unfold EventStream.append
    split
    · rename_i env hcall
      exact ⟨m, a + 1, h.append hcall hturn⟩
    · exact ⟨m, a, h⟩
  | send j =>
    change ∃ m a, Regular (s.send j) m a
    unfold EventStream.send
    split
    · rename_i env hcall
      exact ⟨m + 1, a, h.send hcall hturn⟩
    · exact ⟨m, a, h⟩
  | watch =>
    refine ⟨m, a, h.kept, h.counter, h.behind, h.sent, h.calls, h.placed, fun w hw => ?_⟩
    rcases List.mem_append.mp hw with hold | hnew
    · exact h.watchers w hold
    · rw [List.mem_singleton.mp hnew]
      exact .new
  | connect k =>
    refine ⟨m, a, h.modify_watcher k fun w hw => hw.connect hm h.sent ?_⟩
    have hcounter := s.bus.seq.toNat_lt
    rw [h.counter] at hcounter
    have := h.kept.within
    omega
  | forward k => exact ⟨m, a, h.modify_watcher k fun w hw => hw.forward h.sent⟩
  | receive k => exact ⟨m, a, h.modify_watcher k fun w hw => hw.receive h.kept.numbered h.behind⟩
  | catch_up k => exact ⟨m, a, h.modify_watcher k fun w hw => hw.catch_up h.kept h.behind⟩
  | disconnect k => exact ⟨m, a, h.modify_watcher k fun w hw => hw.disconnect⟩

theorem Regular.replay_tells (h : Regular s m a) : s.ReplayTells := by
  intro start
  rw [h.kept.replay]
  constructor
  · have hpairs := ((h.kept.numbered.take a).drop
      (max (a - EVENT_RING) (max start.toNat 1 - 1))).pairwise
    exact hpairs.imp fun hlt => UInt64.lt_iff_toNat_lt.mpr hlt
  · rintro htold env henv hstart ⟨last, hlast, hle⟩
    have hold := h.kept.not_truncated htold
    obtain ⟨i, hi, hnumber⟩ := h.kept.numbered.getElem?_of_mem henv
    have hspan := Spans.slice s.emitted (max (a - EVENT_RING) (max start.toNat 1 - 1)) a
    obtain ⟨j, -, hja, hj⟩ := (hspan last).mp hlast
    have hlastNumber := h.kept.numbered j last hj
    rw [UInt64.le_iff_toNat_le] at hstart hle
    unfold Envelope.number at hnumber hlastNumber
    exact (hspan env).mpr ⟨i, by omega, by omega, hi⟩

/-- In every run in which the calls of `emit` keep the order of their numbers,
every replay is complete or says that it is not, and no client misses an event
unless it is told so. -/
theorem calls_in_turn_lose_no_event (steps : List StreamStep)
    (hturn : runs.Meets EventStream.step InTurn .new steps) (past : List StreamStep)
    (hpast : past <+: steps) :
    (EventStream.new.run past).ReplayTells ∧
      ∀ w ∈ (EventStream.new.run past).watchers,
        w.MissesNothing (EventStream.new.run past).emitted := by
  obtain ⟨rest, rfl⟩ := hpast
  have hmeets := ((runs.meets_append _ past rest).mp hturn).1
  have hstep : ∀ s step, (∃ m a, Regular s m a) → InTurn s step →
      ∃ m a, Regular (EventStream.step s step) m a :=
    fun s step ⟨m, a, h⟩ hstep => h.step step hstep
  obtain ⟨m, a, h⟩ := runs.invariant_of_meets hstep ⟨0, 0, regular_new⟩ hmeets
  exact ⟨h.replay_tells, fun w hw => (h.watchers w hw).misses_nothing h.kept.numbered⟩

end EventStream

/-! ## Two calls at once -/

namespace crossed_calls

/-- An event is out, and two more calls take their numbers; the second one gets
to the ring first. -/
def steps : List StreamStep :=
  [.take "drop.joined" .null, .append 0, .send 0, .take "offer.received" .null,
    .take "peer.joined" .null, .append 1]

def waiting : Envelope := ⟨2, "offer.received", .null⟩
def recorded : Envelope := ⟨3, "peer.joined", .null⟩

theorem emitted : (EventStream.new.run steps).emitted =
    [⟨1, "drop.joined", .null⟩, waiting, recorded] := rfl

theorem replayed : (EventStream.new.run steps).bus.replay 2 = ([recorded], false) := rfl

/-- A client reads on from the second event, and the replay has the third only. -/
theorem a_replay_skips_an_event :
    ¬ ∀ (steps past : List StreamStep), past <+: steps →
      (EventStream.new.run past).ReplayTells ∧
        ∀ w ∈ (EventStream.new.run past).watchers,
          w.MissesNothing (EventStream.new.run past).emitted := by
  intro h
  have htells := ((h steps steps (List.prefix_refl _)).1 2).2
  rw [replayed] at htells
  have hmem := htells rfl waiting (by simp [emitted]) (by decide)
    ⟨recorded, List.mem_singleton_self _, by decide⟩
  have heq := List.mem_singleton.mp hmem
  exact absurd (congrArg Envelope.seq heq) (by decide)

/-- A client that comes back when the calls go on one after the other. -/
def follow : List StreamStep :=
  [.watch, .connect 0, .take "drop.joined" .null, .append 0, .send 0, .forward 0, .receive 0,
    .disconnect 0, .take "offer.received" .null, .append 0, .send 0, .connect 0, .catch_up 0]

theorem a_client_comes_back :
    (EventStream.new.run follow).ReplayTells ∧
      ∀ w ∈ (EventStream.new.run follow).watchers,
        w.MissesNothing (EventStream.new.run follow).emitted :=
  EventStream.calls_in_turn_lose_no_event follow (by decide +kernel) follow (List.prefix_refl _)

end crossed_calls

end iroh_drop
