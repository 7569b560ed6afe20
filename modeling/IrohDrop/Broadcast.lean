-- A broadcast channel whose readers first replay a log into it: who hears
-- what, and when each hears everything once.
import Mathlib.Data.List.Nodup
import Mathlib.Data.List.Basic
import Mathlib.Tactic.Tauto

namespace broadcast

variable {K T : Type} [DecidableEq T]

/-- A reader of a topic: what it has heard, what it has yet to replay from the
log, and what it is owed. -/
structure Reader (K T : Type) where
  topic : T
  live : Bool
  got : List K
  loaded : Bool
  rest : List K
  owed : List K

/-- The messages that are still to be sent, and the readers. -/
structure Board (K T : Type) where
  pending : List K
  readers : List (Reader K T)

/-- What is yet to be sent, in whatever way. -/
def Board.pool (b : Board K T) : List K := b.pending ++ b.readers.flatMap Reader.rest

variable (topic : K → T)

/-- A message on the channel reaches every live reader of its topic. -/
def Reader.hear (x : K) (r : Reader K T) : Reader K T :=
  if r.live = true ∧ topic x = r.topic then { r with got := r.got ++ [x] } else r

def Board.send (b : Board K T) (x : K) : Board K T :=
  { b with readers := b.readers.map (Reader.hear topic x) }

/-- Each reader has heard messages of its topic, good ones, each once. What is
yet to be sent is good, and new to every reader, and a reader that has read the
log lacks nothing of what it is owed but what is yet to be sent, or is among
`lost`. -/
structure Sound (good : K → Prop) (lost : List K) (b : Board K T) : Prop where
  pool_nodup : b.pool.Nodup
  pool_new : ∀ x ∈ b.pool, good x ∧ ∀ r ∈ b.readers, x ∉ r.got
  once : ∀ r ∈ b.readers, r.got.Nodup
  heard : ∀ r ∈ b.readers, ∀ x ∈ r.got, good x ∧ topic x = r.topic
  live : ∀ r ∈ b.readers, r.loaded = true → r.live = true
  owed_topic : ∀ r ∈ b.readers, ∀ x ∈ r.owed, topic x = r.topic
  owed : ∀ r ∈ b.readers, r.loaded = true → ∀ x ∈ r.owed,
    x ∈ r.got ∨ x ∈ b.pending ∨ x ∈ r.rest ∨ x ∈ lost

variable {topic} {good : K → Prop} {lost : List K} {b : Board K T}

omit [DecidableEq T] in
theorem mem_pool_of_rest {r : Reader K T} (hr : r ∈ b.readers) {x : K} (hx : x ∈ r.rest) :
    x ∈ b.pool :=
  List.mem_append_right _ (List.mem_flatMap.mpr ⟨r, hr, hx⟩)

/-! ## Sending -/

theorem hear_rest (x : K) (r : Reader K T) : (r.hear topic x).rest = r.rest := by
  unfold Reader.hear
  split <;> rfl

/-- Hearing a message changes what a reader has heard, and nothing else. -/
theorem hear_same (x : K) (r : Reader K T) :
    (r.hear topic x).topic = r.topic ∧ (r.hear topic x).live = r.live ∧
      (r.hear topic x).loaded = r.loaded ∧ (r.hear topic x).owed = r.owed := by
  unfold Reader.hear
  split <;> exact ⟨rfl, rfl, rfl, rfl⟩

theorem hear_got {x y : K} {r : Reader K T} :
    y ∈ (r.hear topic x).got ↔ y ∈ r.got ∨ y = x ∧ r.live = true ∧ topic x = r.topic := by
  unfold Reader.hear
  split
  · rename_i h
    rw [List.mem_append, List.mem_singleton, and_iff_left h]
  · rename_i h
    exact ⟨.inl, fun hy => hy.resolve_right fun hx => h hx.2⟩

theorem send_pool (b : Board K T) (x : K) : (b.send topic x).pool = b.pool := by
  unfold Board.pool Board.send
  rw [List.flatMap_map]
  simp only [hear_rest]

/-- A message that is new to all reaches all that are owed it. -/
theorem Sound.send {x : K} (h : Sound topic good [x] b) (hgood : good x) (hpool : x ∉ b.pool)
    (hnew : ∀ r ∈ b.readers, x ∉ r.got) : Sound topic good [] (b.send topic x) := by
  have hreaders : ∀ r' ∈ (b.send topic x).readers, ∃ r ∈ b.readers, r.hear topic x = r' :=
    fun r' hr' => List.mem_map.mp hr'
  constructor
  · rw [send_pool]
    exact h.pool_nodup
  · rw [send_pool]
    intro y hy
    refine ⟨(h.pool_new y hy).1, fun r' hr' hgot => ?_⟩
    obtain ⟨r, hr, rfl⟩ := hreaders r' hr'
    rcases hear_got.mp hgot with hgot | ⟨rfl, -⟩
    · exact (h.pool_new y hy).2 r hr hgot
    · exact hpool hy
  · intro r' hr'
    obtain ⟨r, hr, rfl⟩ := hreaders r' hr'
    unfold Reader.hear
    split
    · refine List.nodup_append.mpr ⟨h.once r hr, List.nodup_singleton x, ?_⟩
      rintro y hy z hz rfl
      rw [List.mem_singleton.mp hz] at hy
      exact hnew r hr hy
    · exact h.once r hr
  · intro r' hr' y hy
    obtain ⟨r, hr, rfl⟩ := hreaders r' hr'
    rw [(hear_same x r).1]
    rcases hear_got.mp hy with hy | ⟨rfl, -, hsame⟩
    · exact h.heard r hr y hy
    · exact ⟨hgood, hsame⟩
  · intro r' hr' hloaded
    obtain ⟨r, hr, rfl⟩ := hreaders r' hr'
    rw [(hear_same x r).2.2.1] at hloaded
    rw [(hear_same x r).2.1]
    exact h.live r hr hloaded
  · intro r' hr' y hy
    obtain ⟨r, hr, rfl⟩ := hreaders r' hr'
    rw [(hear_same x r).2.2.2] at hy
    rw [(hear_same x r).1]
    exact h.owed_topic r hr y hy
  · intro r' hr' hloaded y hy
    obtain ⟨r, hr, rfl⟩ := hreaders r' hr'
    rw [(hear_same x r).2.2.1] at hloaded
    rw [(hear_same x r).2.2.2] at hy
    rw [hear_rest, hear_got]
    rcases h.owed r hr hloaded y hy with hgot | hpending | hrest | hlost
    · exact .inl (.inl hgot)
    · exact .inr (.inl hpending)
    · exact .inr (.inr (.inl hrest))
    · obtain rfl := List.mem_singleton.mp hlost
      exact .inl (.inr ⟨rfl, h.live r hr hloaded, h.owed_topic r hr y hy⟩)

/-! ## Taking a message out of the pool -/

omit [DecidableEq T] in
theorem Sound.act {x : K} {before after : List K} (h : Sound topic good [] b)
    (hpending : b.pending = before ++ x :: after) :
    Sound topic good [x] { b with pending := before ++ after } ∧ good x ∧
      x ∉ ({ b with pending := before ++ after } : Board K T).pool ∧
      ∀ r ∈ b.readers, x ∉ r.got := by
  have hperm : b.pool.Perm (x :: ({ b with pending := before ++ after } : Board K T).pool) := by
    unfold Board.pool
    rw [hpending, List.append_assoc, List.cons_append, List.append_assoc]
    exact List.perm_middle
  have hnodup := hperm.nodup_iff.mp h.pool_nodup
  obtain ⟨hout, hrest⟩ := List.nodup_cons.mp hnodup
  have hx : x ∈ b.pool := hperm.mem_iff.mpr List.mem_cons_self
  refine ⟨⟨hrest, fun y hy => h.pool_new y (hperm.mem_iff.mpr (List.mem_cons_of_mem _ hy)), h.once,
    h.heard, h.live, h.owed_topic, ?_⟩, (h.pool_new x hx).1, hout, (h.pool_new x hx).2⟩
  intro r hr hloaded y hy
  rcases h.owed r hr hloaded y hy with hgot | hmem | hmem | hlost
  · exact .inl hgot
  · rw [hpending] at hmem
    rcases List.mem_append.mp hmem with hmem | hmem
    · exact .inr (.inl (List.mem_append_left _ hmem))
    · rcases List.mem_cons.mp hmem with rfl | hmem
      · exact .inr (.inr (.inr List.mem_cons_self))
      · exact .inr (.inl (List.mem_append_right _ hmem))
  · exact .inr (.inr (.inl hmem))
  · cases hlost

omit [DecidableEq T] in
/-- The next message of a reader's replay. -/
theorem Sound.next {x : K} {before after : List (Reader K T)} {r : Reader K T} {rest : List K}
    (h : Sound topic good [] b) (hreaders : b.readers = before ++ r :: after)
    (hr : r.rest = x :: rest) :
    let b' : Board K T := { b with readers := before ++ { r with rest } :: after }
    Sound topic good [x] b' ∧ good x ∧ x ∉ b'.pool ∧ ∀ r ∈ b'.readers, x ∉ r.got := by
  intro b'
  have hperm : b.pool.Perm (x :: b'.pool) := by
    unfold Board.pool
    simp only [b', hreaders, List.flatMap_append, List.flatMap_cons, hr, ← List.append_assoc]
    rw [List.append_assoc, List.cons_append, List.append_assoc _ rest]
    exact List.perm_middle
  have hnodup := hperm.nodup_iff.mp h.pool_nodup
  obtain ⟨hout, hrest⟩ := List.nodup_cons.mp hnodup
  have hx : x ∈ b.pool := hperm.mem_iff.mpr List.mem_cons_self
  -- Each reader is as it was, but for the one message less.
  have hold : ∀ r' ∈ b'.readers, ∃ old ∈ b.readers, r'.topic = old.topic ∧ r'.got = old.got ∧
      r'.live = old.live ∧ r'.loaded = old.loaded ∧ r'.owed = old.owed ∧
        ∀ y ∈ old.rest, y = x ∨ y ∈ r'.rest := by
    intro r' hr'
    rcases List.mem_append.mp hr' with hr' | hr'
    · exact ⟨r', hreaders ▸ List.mem_append_left _ hr', rfl, rfl, rfl, rfl, rfl, fun _ => .inr⟩
    · rcases List.mem_cons.mp hr' with rfl | hr'
      · refine ⟨r, hreaders ▸ List.mem_append_right _ List.mem_cons_self, rfl, rfl, rfl, rfl, rfl,
          fun y hy => ?_⟩
        rw [hr] at hy
        exact List.mem_cons.mp hy
      · exact ⟨r', hreaders ▸ List.mem_append_right _ (List.mem_cons_of_mem _ hr'), rfl, rfl, rfl,
          rfl, rfl, fun _ => .inr⟩
  have hgot : ∀ y ∈ b.pool, ∀ r' ∈ b'.readers, y ∉ r'.got := by
    intro y hy r' hr'
    obtain ⟨old, hmem, -, hgot, -⟩ := hold r' hr'
    rw [hgot]
    exact (h.pool_new y hy).2 old hmem
  refine ⟨⟨hrest, fun y hy => ?_, ?_, ?_, ?_, ?_, ?_⟩, (h.pool_new x hx).1, hout, hgot x hx⟩
  · have hy' := hperm.mem_iff.mpr (List.mem_cons_of_mem _ hy)
    exact ⟨(h.pool_new y hy').1, hgot y hy'⟩
  · intro r' hr'
    obtain ⟨old, hmem, -, hsame, -⟩ := hold r' hr'
    rw [hsame]
    exact h.once old hmem
  · intro r' hr' y hy
    obtain ⟨old, hmem, htopic, hsame, -⟩ := hold r' hr'
    rw [hsame] at hy
    rw [htopic]
    exact h.heard old hmem y hy
  · intro r' hr' hloaded
    obtain ⟨old, hmem, -, -, hlive, hload, -⟩ := hold r' hr'
    rw [hlive]
    exact h.live old hmem (hload ▸ hloaded)
  · intro r' hr' y hy
    obtain ⟨old, hmem, htopic, -, -, -, howed, -⟩ := hold r' hr'
    rw [htopic]
    exact h.owed_topic old hmem y (howed ▸ hy)
  · intro r' hr' hloaded y hy
    obtain ⟨old, hmem, -, hsame, -, hload, howed, hkeep⟩ := hold r' hr'
    rcases h.owed old hmem (hload ▸ hloaded) y (howed ▸ hy) with hgot | hpending | hrest' | hlost
    · exact .inl (hsame ▸ hgot)
    · exact .inr (.inl hpending)
    · rcases hkeep y hrest' with rfl | hin
      · exact .inr (.inr (.inr List.mem_cons_self))
      · exact .inr (.inr (.inl hin))
    · cases hlost

omit [DecidableEq T] in
/-- Nobody reads the topic of the message: nobody is owed it. -/
theorem Sound.forget {x : K} (h : Sound topic good [x] b)
    (hnone : ∀ r ∈ b.readers, topic x ≠ r.topic) : Sound topic good [] b := by
  refine ⟨h.pool_nodup, h.pool_new, h.once, h.heard, h.live, h.owed_topic, ?_⟩
  intro r hr hloaded y hy
  rcases h.owed r hr hloaded y hy with hgot | hpending | hrest | hlost
  · exact .inl hgot
  · exact .inr (.inl hpending)
  · exact .inr (.inr (.inl hrest))
  · obtain rfl := List.mem_singleton.mp hlost
    exact absurd (h.owed_topic r hr y hy) (hnone r hr)

/-! ## Coming in -/

omit [DecidableEq T] in
/-- A message of a good sender that nobody has heard yet: all readers of its
topic are owed it from now on. -/
theorem Sound.arrive {x : K} (owe : Reader K T → List K) (h : Sound topic good [] b)
    (hgood : good x) (hpool : x ∉ b.pool) (hnew : ∀ r ∈ b.readers, x ∉ r.got)
    (howe : ∀ r, ∀ y ∈ owe r, y ∈ r.owed ∨ y = x ∧ topic x = r.topic) :
    Sound topic good []
      ⟨b.pending ++ [x], b.readers.map (fun r => { r with owed := owe r })⟩ := by
  have hpools : (⟨b.pending ++ [x], b.readers.map (fun r => { r with owed := owe r })⟩ :
      Board K T).pool.Perm (x :: b.pool) := by
    unfold Board.pool
    rw [List.flatMap_map, List.append_assoc]
    exact List.perm_middle
  have hold : ∀ r' ∈ b.readers.map (fun r => { r with owed := owe r }),
      ∃ r ∈ b.readers, { r with owed := owe r } = r' := fun r' hr' => List.mem_map.mp hr'
  constructor
  · exact hpools.nodup_iff.mpr (List.nodup_cons.mpr ⟨hpool, h.pool_nodup⟩)
  · intro y hy
    have hy : y = x ∨ y ∈ b.pool := List.mem_cons.mp (hpools.mem_iff.mp hy)
    have hy' : good y ∧ ∀ r ∈ b.readers, y ∉ r.got := by
      rcases hy with rfl | hy
      · exact ⟨hgood, hnew⟩
      · exact h.pool_new y hy
    refine ⟨hy'.1, fun r' hr' => ?_⟩
    obtain ⟨r, hr, rfl⟩ := hold r' hr'
    exact hy'.2 r hr
  · intro r' hr'
    obtain ⟨r, hr, rfl⟩ := hold r' hr'
    exact h.once r hr
  · intro r' hr'
    obtain ⟨r, hr, rfl⟩ := hold r' hr'
    exact h.heard r hr
  · intro r' hr'
    obtain ⟨r, hr, rfl⟩ := hold r' hr'
    exact h.live r hr
  · intro r' hr' y hy
    obtain ⟨r, hr, rfl⟩ := hold r' hr'
    rcases howe r y hy with hy | ⟨rfl, htopic⟩
    · exact h.owed_topic r hr y hy
    · exact htopic
  · intro r' hr' hloaded y hy
    obtain ⟨r, hr, rfl⟩ := hold r' hr'
    rcases howe r y hy with hy | ⟨rfl, -⟩
    · exact (h.owed r hr hloaded y hy).imp_right (.imp_left (List.mem_append_left _))
    · exact .inr (.inl (List.mem_append_right _ List.mem_cons_self))

/-! ## Readers -/

omit [DecidableEq T] in
/-- A new reader has nothing to replay and has heard nothing. -/
theorem Sound.join {r : Reader K T} (h : Sound topic good [] b) (hgot : r.got = [])
    (hrest : r.rest = []) (hloaded : r.loaded = false)
    (howed : ∀ x ∈ r.owed, topic x = r.topic) :
    Sound topic good [] { b with readers := b.readers ++ [r] } := by
  have hpool : ({ b with readers := b.readers ++ [r] } : Board K T).pool = b.pool := by
    simp [Board.pool, hrest]
  have hmem : ∀ r' ∈ b.readers ++ [r], r' ∈ b.readers ∨ r' = r := by
    intro r' hr'
    simpa using hr'
  constructor
  · rw [hpool]
    exact h.pool_nodup
  · rw [hpool]
    intro x hx
    refine ⟨(h.pool_new x hx).1, fun r' hr' => ?_⟩
    rcases hmem r' hr' with hr' | rfl
    · exact (h.pool_new x hx).2 r' hr'
    · simp [hgot]
  · intro r' hr'
    rcases hmem r' hr' with hr' | rfl
    · exact h.once r' hr'
    · simp [hgot]
  · intro r' hr'
    rcases hmem r' hr' with hr' | rfl
    · exact h.heard r' hr'
    · simp [hgot]
  · intro r' hr' hload
    rcases hmem r' hr' with hr' | rfl
    · exact h.live r' hr' hload
    · rw [hloaded] at hload
      cases hload
  · intro r' hr'
    rcases hmem r' hr' with hr' | rfl
    · exact h.owed_topic r' hr'
    · exact howed
  · intro r' hr' hload
    rcases hmem r' hr' with hr' | rfl
    · exact h.owed r' hr' hload
    · rw [hloaded] at hload
      cases hload

omit [DecidableEq T] in
/-- A reader goes live, or takes up a log to replay: messages that are new to
all. Once it has a log, it lacks nothing that it is owed but what is there. -/
theorem Sound.load {before after : List (Reader K T)} {r r' : Reader K T}
    (h : Sound topic good [] b) (hreaders : b.readers = before ++ r :: after)
    (hrest : r.rest = []) (htopic : r'.topic = r.topic) (hgot : r'.got = r.got)
    (howed : r'.owed = r.owed) (hlive : r'.live = true) (hnodup : r'.rest.Nodup)
    (hnew : ∀ x ∈ r'.rest, good x ∧ x ∉ b.pool ∧ ∀ r ∈ b.readers, x ∉ r.got)
    (hall : r'.loaded = true → ∀ x ∈ r.owed, x ∈ r.got ∨ x ∈ b.pending ∨ x ∈ r'.rest) :
    Sound topic good [] { b with readers := before ++ r' :: after } := by
  have hmid : r ∈ b.readers := hreaders ▸ List.mem_append_right _ List.mem_cons_self
  have hpool : ({ b with readers := before ++ r' :: after } : Board K T).pool.Perm
      (r'.rest ++ b.pool) := by
    unfold Board.pool
    simp only [hreaders, List.flatMap_append, List.flatMap_cons, hrest, List.nil_append]
    have hfront : (b.pending ++ before.flatMap Reader.rest ++ r'.rest).Perm
        (r'.rest ++ (b.pending ++ before.flatMap Reader.rest)) := List.perm_append_comm
    simpa [List.append_assoc] using hfront.append_right (after.flatMap Reader.rest)
  have hold : ∀ s ∈ before ++ r' :: after, s ∈ b.readers ∨ s = r' := by
    intro s hs
    rcases List.mem_append.mp hs with hs | hs
    · exact .inl (hreaders ▸ List.mem_append_left _ hs)
    · rcases List.mem_cons.mp hs with rfl | hs
      · exact .inr rfl
      · exact .inl (hreaders ▸ List.mem_append_right _ (List.mem_cons_of_mem _ hs))
  constructor
  · refine hpool.nodup_iff.mpr (List.nodup_append.mpr ⟨hnodup, h.pool_nodup, ?_⟩)
    rintro x hx y hy rfl
    exact (hnew x hx).2.1 hy
  · intro x hx
    have hx' : good x ∧ ∀ s ∈ b.readers, x ∉ s.got := by
      rcases List.mem_append.mp (hpool.mem_iff.mp hx) with hx | hx
      · exact ⟨(hnew x hx).1, (hnew x hx).2.2⟩
      · exact h.pool_new x hx
    refine ⟨hx'.1, fun s hs => ?_⟩
    rcases hold s hs with hs | rfl
    · exact hx'.2 s hs
    · rw [hgot]
      exact hx'.2 r hmid
  · intro s hs
    rcases hold s hs with hs | rfl
    · exact h.once s hs
    · exact hgot ▸ h.once r hmid
  · intro s hs
    rcases hold s hs with hs | rfl
    · exact h.heard s hs
    · rw [hgot, htopic]
      exact h.heard r hmid
  · intro s hs hload
    rcases hold s hs with hs | rfl
    · exact h.live s hs hload
    · exact hlive
  · intro s hs
    rcases hold s hs with hs | rfl
    · exact h.owed_topic s hs
    · rw [howed, htopic]
      exact h.owed_topic r hmid
  · intro s hs hload x hx
    rcases hold s hs with hs | rfl
    · exact h.owed s hs hload x hx
    · rw [howed] at hx
      rw [hgot]
      rcases hall hload x hx with hx | hx | hx
      · exact .inl hx
      · exact .inr (.inl hx)
      · exact .inr (.inr (.inl hx))

end broadcast
