-- The dedup cache over a run: it remembers the young ones among the last keys that
-- it let in, and nothing else (state.rs).
import IrohDrop.History
import IrohDrop.RecentKeys

open rust_std recent_keys

namespace iroh_drop

section Laws

variable [Crypto]

/-! ## Calls -/

/-- A call of `check_and_insert`, which reads the clock when it looks for what has
expired, and again when it lets a key in. -/
structure SeenCall where
  key : DedupKey
  checked : Instant
  inserted : Instant

/-- The clock readings of some calls never go back. -/
def InClock (calls : List SeenCall) : Prop :=
  (calls.flatMap (fun call => [call.checked, call.inserted])).Pairwise (· ≤ ·)

instance (calls : List SeenCall) : Decidable (InClock calls) :=
  inferInstanceAs (Decidable (List.Pairwise _ _))

namespace DedupCache

/-- `check_and_insert` with both of its clock readings. -/
def check_and_insert_at (self : DedupCache) (call : SeenCall) : Bool × DedupCache :=
  let self := self.evict_expired call.checked
  if call.key ∈ self.entries then (false, self)
  else
    let self := self.make_room
    (true, { self with entries := self.entries.insert call.key call.inserted
                       order := self.order ++ [call.key] })

theorem check_and_insert_eq (self : DedupCache) (key : DedupKey) (now : Instant) :
    self.check_and_insert key now = self.check_and_insert_at ⟨key, now, now⟩ := rfl

/-- The entries and the queue hold the same keys, each once and oldest first, and
no more of them than the capacity. -/
structure Sound (cache : DedupCache) : Prop where
  same : ∀ key, key ∈ cache.entries ↔ key ∈ cache.order
  nodup : cache.order.Nodup
  sorted : cache.order.Pairwise
    (fun a b => ∀ s ∈ cache.entries.lookup a, ∀ t ∈ cache.entries.lookup b, s ≤ t)
  length : HashMap.len cache.entries ≤ cache.capacity

/-- The cache stands for these entries, oldest first. -/
structure Stands (entries : HashMap DedupKey Instant) (order : List DedupKey)
    (listed : List (DedupKey × Instant)) : Prop where
  order : order = listed.map Prod.fst
  nodup : (listed.map Prod.fst).Nodup
  entries : ∀ key at_, entries.lookup key = some at_ ↔ (key, at_) ∈ listed

variable {entries : HashMap DedupKey Instant} {order : List DedupKey}
  {listed : List (DedupKey × Instant)}

theorem Stands.mem (h : Stands entries order listed) {key : DedupKey} :
    key ∈ entries ↔ key ∈ listed.map Prod.fst := by
  rw [← AList.lookup_isSome, Option.isSome_iff_exists]
  simp [h.entries]

theorem Stands.len (h : Stands entries order listed) : HashMap.len entries = listed.length := by
  have hcard := HashMap.len_eq_card entries (fun _ => h.mem)
  rw [hcard, List.toFinset_card_of_nodup h.nodup, List.length_map]

/-- The oldest entry goes. -/
theorem Stands.pop {entry : DedupKey × Instant} {rest : List (DedupKey × Instant)}
    (h : Stands entries order (entry :: rest)) :
    Stands (entries.erase entry.1) (rest.map Prod.fst) rest := by
  obtain ⟨hnot, hnodup⟩ := List.nodup_cons.mp h.nodup
  refine ⟨rfl, hnodup, ?_⟩
  intro key at_
  rw [HashMap.lookup_erase']
  by_cases hkey : key = entry.1
  · rw [if_pos hkey]
    constructor
    · intro hnone
      cases hnone
    · intro hmem
      exact absurd (List.mem_map.mpr ⟨_, hmem, hkey⟩) hnot
  · rw [if_neg hkey, h.entries, List.mem_cons]
    constructor
    · rintro (rfl | hmem)
      · exact absurd rfl hkey
      · exact hmem
    · exact Or.inr

/-- A key that is not there goes in at the back. -/
theorem Stands.push (h : Stands entries order listed) {key : DedupKey}
    (hnew : key ∉ listed.map Prod.fst) (at_ : Instant) :
    Stands (entries.insert key at_) (order ++ [key]) (listed ++ [(key, at_)]) := by
  refine ⟨by simp [h.order], ?_, ?_⟩
  · rw [List.map_append, List.nodup_append]
    refine ⟨h.nodup, List.nodup_singleton _, ?_⟩
    rintro a ha b hb rfl
    obtain rfl : a = key := List.mem_singleton.mp hb
    exact hnew ha
  · intro other time
    rw [HashMap.lookup_insert', List.mem_append, List.mem_singleton]
    by_cases hother : other = key
    · have habsent : (key, time) ∉ listed := fun hmem => hnew (List.mem_map.mpr ⟨_, hmem, rfl⟩)
      simp [hother, habsent, eq_comm]
    · simp [hother, h.entries]

/-! ## One call -/

/-- What has expired is what is no longer young. -/
theorem Stands.evict_expired_go (self : DedupCache) (now : Instant)
    (h : Stands entries order listed) (htime : InTime listed) :
    Stands (evict_expired.go self now entries order).entries
        (evict_expired.go self now entries order).order (listed.filter (young self.ttl now)) ∧
      (evict_expired.go self now entries order).capacity = self.capacity ∧
      (evict_expired.go self now entries order).ttl = self.ttl := by
  induction listed generalizing entries order with
  | nil =>
    obtain rfl := h.order
    exact ⟨h, rfl, rfl⟩
  | cons entry rest ih =>
    obtain rfl := h.order
    have hlookup : entries.lookup entry.1 = some entry.2 := (h.entries _ _).mpr (by simp)
    have hexpired : expired self.ttl entries now entry.1 = !young self.ttl now entry := by
      simp only [expired, hlookup, young, ← decide_not, Nat.not_le]
    rw [List.map_cons]
    unfold evict_expired.go
    by_cases hyoung : young self.ttl now entry = true
    · rw [if_neg (by simp [hexpired, hyoung]), filter_young_cons htime hyoung]
      exact ⟨h, rfl, rfl⟩
    · rw [if_pos (by simpa [hexpired] using hyoung), List.filter_cons_of_neg hyoung]
      exact ih h.pop (List.pairwise_cons.mp htime).2

/-- The oldest entries make room, one by one. -/
theorem Stands.make_room_go (self : DedupCache) (h : Stands entries order listed) :
    Stands (make_room.go self entries order).entries (make_room.go self entries order).order
        (listed.drop (listed.length + 1 - self.capacity)) ∧
      (make_room.go self entries order).capacity = self.capacity ∧
      (make_room.go self entries order).ttl = self.ttl := by
  induction listed generalizing entries order with
  | nil =>
    obtain rfl := h.order
    simpa [make_room.go] using h
  | cons entry rest ih =>
    obtain rfl := h.order
    have hlen := h.len
    rw [List.map_cons]
    rw [List.length_cons] at hlen ⊢
    unfold make_room.go
    by_cases hfull : HashMap.len entries ≥ self.capacity
    · rw [if_pos hfull, show rest.length + 1 + 1 - self.capacity =
        rest.length + 1 - self.capacity + 1 by omega, List.drop_succ_cons]
      exact ih h.pop
    · rw [if_neg hfull, show rest.length + 1 + 1 - self.capacity = 0 by omega]
      exact ⟨h, rfl, rfl⟩

/-! ## A run -/

/-- A cache, and the keys that it let in, oldest first. -/
structure SeenRun where
  cache : DedupCache
  accepted : List (DedupKey × Instant) := []

namespace SeenRun

def call (self : SeenRun) (call : SeenCall) : SeenRun :=
  let (new, cache) := self.cache.check_and_insert_at call
  { cache, accepted := if new then self.accepted ++ [(call.key, call.inserted)] else self.accepted }

/-- The calls on a cache that is empty. -/
def of (capacity : Nat) (ttl : Duration) (calls : List SeenCall) : SeenRun :=
  calls.foldl SeenRun.call { cache := .new capacity ttl }

/-- At the time of the last look, the cache stands for what is live of the keys that
it let in. -/
structure Remembers (capacity : Nat) (ttl : Duration) (looked : Instant) (run : SeenRun) :
    Prop where
  caps : run.cache.capacity = capacity ∧ run.cache.ttl = ttl
  time : InTime run.accepted
  stands : Stands run.cache.entries run.cache.order (live capacity ttl looked run.accepted)

variable {self : SeenRun} {capacity : Nat} {ttl : Duration} {looked : Instant} {c : SeenCall}

theorem Remembers.evicted (h : Remembers capacity ttl looked self) (hle : looked ≤ c.checked) :
    Stands (self.cache.evict_expired c.checked).entries
        (self.cache.evict_expired c.checked).order (live capacity ttl c.checked self.accepted) ∧
      (self.cache.evict_expired c.checked).capacity = capacity ∧
      (self.cache.evict_expired c.checked).ttl = ttl := by
  have hsub := live_sublist capacity ttl looked self.accepted
  have hgo := h.stands.evict_expired_go self.cache c.checked (h.time.sublist hsub)
  rw [h.caps.1, h.caps.2, live_later hle] at hgo
  exact hgo

/-- A key is known when it is live. -/
theorem Remembers.known_iff (h : Remembers capacity ttl looked self) (hle : looked ≤ c.checked) :
    (self.cache.check_and_insert_at c).1 = false ↔
      c.key ∈ (live capacity ttl c.checked self.accepted).map Prod.fst := by
  rw [← (h.evicted hle).1.mem]
  unfold check_and_insert_at
  by_cases hmem : c.key ∈ (self.cache.evict_expired c.checked).entries
  · simp [hmem]
  · simp [hmem]

theorem Remembers.call (h : Remembers capacity ttl looked self) (hpos : 1 ≤ capacity)
    (hle : looked ≤ c.checked) (hclock : c.checked ≤ c.inserted)
    (hlast : ∀ e ∈ self.accepted, e.2 ≤ c.inserted) :
    Remembers capacity ttl c.checked (self.call c) := by
  obtain ⟨hstands, hcapacity, httl⟩ := h.evicted hle
  unfold SeenRun.call check_and_insert_at
  by_cases hmem : c.key ∈ (self.cache.evict_expired c.checked).entries
  · simp only [if_pos hmem]
    exact ⟨⟨hcapacity, httl⟩, h.time, hstands⟩
  · simp only [if_neg hmem]
    have hroom := hstands.make_room_go (self.cache.evict_expired c.checked)
    rw [hcapacity, httl] at hroom
    obtain ⟨hdropped, hcapacity', httl'⟩ := hroom
    have hnew : c.key ∉ (live capacity ttl c.checked self.accepted).map Prod.fst :=
      fun hin => hmem (hstands.mem.mpr hin)
    have hyoung : young ttl c.checked (c.key, c.inserted) = true := by
      simp [young, Nat.sub_eq_zero_of_le hclock]
    refine ⟨⟨hcapacity', httl'⟩, h.time.append hlast, ?_⟩
    simp only [if_true]
    rw [live_append hpos h.time hyoung]
    apply hdropped.push
    intro hin
    exact hnew (List.map_subset _ (List.drop_subset _ _) hin)

theorem in_clock_last {calls : List SeenCall} {c : SeenCall} (h : InClock (calls ++ [c])) :
    InClock calls ∧ c.checked ≤ c.inserted ∧
      ∀ before ∈ calls, before.checked ≤ c.checked ∧ before.inserted ≤ c.checked := by
  unfold InClock at h
  rw [List.flatMap_append, List.pairwise_append] at h
  obtain ⟨hcalls, hlast, hle⟩ := h
  refine ⟨hcalls, by simpa using hlast, ?_⟩
  intro before hmem
  constructor
  · exact hle _ (List.mem_flatMap.mpr ⟨before, hmem, by simp⟩) _ (by simp)
  · exact hle _ (List.mem_flatMap.mpr ⟨before, hmem, by simp⟩) _ (by simp)

theorem of_append (capacity : Nat) (ttl : Duration) (calls : List SeenCall) (c : SeenCall) :
    of capacity ttl (calls ++ [c]) = (of capacity ttl calls).call c := by
  simp [of]

/-- What was let in was let in by a call. -/
theorem accepted_by {capacity : Nat} {ttl : Duration} {calls : List SeenCall} :
    ∀ e ∈ (of capacity ttl calls).accepted, ∃ c ∈ calls, e.2 = c.inserted := by
  induction calls using List.reverseRecOn with
  | nil => exact fun _ h => nomatch h
  | append_singleton calls c ih =>
    intro e he
    rw [of_append] at he
    unfold SeenRun.call at he
    simp only at he
    split at he
    · rcases List.mem_append.mp he with hbefore | hlast
      · obtain ⟨before, hmem, heq⟩ := ih e hbefore
        exact ⟨before, by simp [hmem], heq⟩
      · exact ⟨c, by simp, by rw [List.mem_singleton.mp hlast]⟩
    · obtain ⟨before, hmem, heq⟩ := ih e he
      exact ⟨before, by simp [hmem], heq⟩

/-- The calls leave a cache that stands for what is live at the last look. -/
theorem remembers {capacity : Nat} (ttl : Duration) (hpos : 1 ≤ capacity) {calls : List SeenCall}
    (hcalls : InClock calls) :
    ∃ looked, Remembers capacity ttl looked (of capacity ttl calls) ∧
      (looked = 0 ∨ ∃ c ∈ calls, looked = c.checked) := by
  induction calls using List.reverseRecOn with
  | nil =>
    refine ⟨0, ⟨⟨rfl, rfl⟩, List.Pairwise.nil, ?_⟩, .inl rfl⟩
    constructor <;> simp [of, DedupCache.new, live]
  | append_singleton calls c ih =>
    obtain ⟨hbefore, hclock, hle⟩ := in_clock_last hcalls
    obtain ⟨looked, hremembers, hlooked⟩ := ih hbefore
    have hchecked : looked ≤ c.checked := by
      rcases hlooked with rfl | ⟨before, hmem, rfl⟩
      · exact Nat.zero_le _
      · exact (hle before hmem).1
    refine ⟨c.checked, ?_, .inr ⟨c, by simp, rfl⟩⟩
    rw [of_append]
    apply hremembers.call hpos hchecked hclock
    intro e he
    obtain ⟨before, hmem, heq⟩ := accepted_by e he
    exact heq ▸ (hle before hmem).2.trans hclock

theorem Remembers.sound (h : Remembers capacity ttl looked self) : self.cache.Sound := by
  refine ⟨fun key => ?_, ?_, ?_, ?_⟩
  · rw [h.stands.mem, h.stands.order]
  · rw [h.stands.order]
    exact h.stands.nodup
  · rw [h.stands.order, List.pairwise_map]
    have hsorted : InTime (live capacity ttl looked self.accepted) :=
      h.time.sublist (live_sublist _ _ _ _)
    refine List.Pairwise.imp_of_mem ?_ hsorted
    intro a b ha hb hab s hs t ht
    rw [(h.stands.entries a.1 a.2).mpr ha, Option.mem_some_iff] at hs
    rw [(h.stands.entries b.1 b.2).mpr hb, Option.mem_some_iff] at ht
    rw [← hs, ← ht]
    exact hab
  · rw [h.stands.len, h.caps.1]
    exact live_length_le _ _ _ _

end SeenRun

/-- The cache refuses a key just when it let the same key in no longer than its time
ago, and fewer other keys than its capacity since; its entries and its queue agree. -/
theorem dedup_remembers_exactly (capacity : Nat) (ttl : Duration) (calls : List SeenCall)
    (hpos : 1 ≤ capacity) (hcalls : InClock calls) :
    (SeenRun.of capacity ttl calls).cache.Sound ∧
      HashMap.len (SeenRun.of capacity ttl calls).cache.entries ≤ capacity ∧
      ∀ c, InClock (calls ++ [c]) →
        (((SeenRun.of capacity ttl calls).cache.check_and_insert_at c).1 = false ↔
          ∃ before at_ after,
            (SeenRun.of capacity ttl calls).accepted = before ++ (c.key, at_) :: after ∧
              c.checked - at_ ≤ ttl ∧ after.length < capacity) := by
  obtain ⟨looked, hremembers, hlooked⟩ := SeenRun.remembers ttl hpos hcalls
  refine ⟨hremembers.sound, ?_, ?_⟩
  · exact hremembers.sound.length.trans (Nat.le_of_eq hremembers.caps.1)
  · intro c hc
    have hle : looked ≤ c.checked := by
      rcases hlooked with rfl | ⟨before, hmem, rfl⟩
      · exact Nat.zero_le _
      · exact ((SeenRun.in_clock_last hc).2.2 before hmem).1
    rw [hremembers.known_iff hle, List.mem_map]
    constructor
    · rintro ⟨⟨key, at_⟩, hmem, rfl⟩
      obtain ⟨before, after, h⟩ := mem_live_iff.mp hmem
      exact ⟨before, at_, after, h⟩
    · rintro ⟨before, at_, after, h⟩
      exact ⟨(c.key, at_), mem_live_iff.mpr ⟨before, after, h⟩, rfl⟩

end DedupCache

end Laws

/-! ## Three keys in a cache of two -/

namespace three_keys

local instance : Crypto := Crypto.clear

def key (n : UInt8) : DedupKey := (SecretKey.public ⟨.fill 32 1⟩, .fill 16 n)

def calls : List SeenCall := [⟨key 1, 0, 1⟩, ⟨key 2, 2, 2⟩, ⟨key 3, 4, 5⟩]

open DedupCache in
theorem dedup_remembers_exactly_at_three :
    (SeenRun.of 2 (.from_secs 600) calls).cache.Sound ∧
      HashMap.len (SeenRun.of 2 (.from_secs 600) calls).cache.entries ≤ 2 ∧
      ∀ c, InClock (calls ++ [c]) →
        (((SeenRun.of 2 (.from_secs 600) calls).cache.check_and_insert_at c).1 = false ↔
          ∃ before at_ after,
            (SeenRun.of 2 (.from_secs 600) calls).accepted = before ++ (c.key, at_) :: after ∧
              c.checked - at_ ≤ Duration.from_secs 600 ∧ after.length < 2) :=
  dedup_remembers_exactly 2 (.from_secs 600) calls (by decide) (by decide)

end three_keys

end iroh_drop
