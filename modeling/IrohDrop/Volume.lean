-- Files under names: a name stands for a file, and a file that is open stays
-- the same file when its name moves. A writer that replaces a file makes a
-- temporary one, writes it, and renames it over the target.
import Mathlib.Logic.Function.Basic
import Mathlib.Data.List.Basic

namespace volume

/-! ## The files of a directory -/

/-- A directory without hard links: each name stands for a file of its own. A
file is a number, and stays when no name stands for it any more. -/
structure Volume (ν β : Type) where
  file : ν → Option Nat
  data : List (List β)
  there : ∀ n i, file n = some i → i < data.length
  apart : ∀ m n i, file m = some i → file n = some i → m = n

/-- What a write at the start of a file makes of it. -/
def overlay {β : Type} (bytes old : List β) : List β := bytes ++ old.drop bytes.length

@[simp] theorem overlay_nil {β : Type} (bytes : List β) : overlay bytes [] = bytes := by
  simp [overlay]

namespace Volume

variable {ν β : Type}

def empty : Volume ν β where
  file _ := none
  data := []
  there _ _ h := nomatch h
  apart _ _ _ h := nomatch h

/-- What stands under a name. -/
def read (self : Volume ν β) (n : ν) : Option (List β) := (self.file n).bind (self.data[·]?)

/-- Write at the start of an open file. -/
def write (self : Volume ν β) (i : Nat) (bytes : List β) : Volume ν β :=
  { self with
    data := self.data.modify i (overlay bytes)
    there := fun n j hj => by
      rw [List.length_modify]
      exact self.there n j hj }

@[simp] theorem file_write (v : Volume ν β) (i : Nat) (bytes : List β) : (v.write i bytes).file = v.file := rfl

theorem read_write {v : Volume ν β} {n : ν} {i : Nat} (h : v.file n = some i) (bytes : List β) :
    (v.write i bytes).read n = (v.read n).map (overlay bytes) := by
  unfold read
  simp [h, write]

theorem read_write_ne {v : Volume ν β} {n : ν} {i : Nat} (h : v.file n ≠ some i) (bytes : List β) :
    (v.write i bytes).read n = v.read n := by
  unfold read
  rcases hn : v.file n with _ | j
  · simp [hn]
  · have hne : i ≠ j := by
      rintro rfl
      exact h hn
    simp [hn, write, hne]

variable [DecidableEq ν]

/-- Open for writing: what the file held is gone, and a name that stands for
nothing gets a new file. -/
def create (self : Volume ν β) (n : ν) : Nat × Volume ν β :=
  match h : self.file n with
  | some i =>
    (i, { self with
          data := self.data.set i []
          there := fun m j hj => by
            rw [List.length_set]
            exact self.there m j hj })
  | none =>
    (self.data.length, {
      file := fun m => if m = n then some self.data.length else self.file m
      data := self.data ++ [[]]
      there := fun m j hj => by
        rw [List.length_append, List.length_singleton]
        split at hj
        · cases hj
          exact Nat.lt_succ_self _
        · exact Nat.lt_succ_of_lt (self.there m j hj)
      apart := fun l m j hl hm => by
        split at hl <;> split at hm
        · rename_i hl' hm'
          rw [hl', hm']
        · cases hl
          exact absurd (self.there m _ hm) (Nat.lt_irrefl _)
        · cases hm
          exact absurd (self.there l _ hl) (Nat.lt_irrefl _)
        · exact self.apart l m j hl hm })

/-- The file gets another name, which stood for another file or for none. -/
def rename (self : Volume ν β) (source target : ν) : Volume ν β :=
  match h : self.file source with
  | none => self
  | some i =>
    { self with
      file := fun n =>
        if n = target then some i else if n = source then none else self.file n
      there := fun n j hj => by
        split at hj
        · cases hj
          exact self.there source i h
        · split at hj
          · cases hj
          · exact self.there n j hj
      apart := fun l m j hl hm => by
        split at hl <;> split at hm
        · rename_i hl' hm'
          rw [hl', hm']
        · cases hl
          split at hm
          · cases hm
          · rename_i hne
            exact absurd (self.apart m source i hm h) hne
        · cases hm
          split at hl
          · cases hl
          · rename_i hne
            exact absurd (self.apart l source i hl h) hne
        · split at hl
          · cases hl
          · split at hm
            · cases hm
            · exact self.apart l m j hl hm }

/-- The name stands for nothing any more. -/
def remove (self : Volume ν β) (n : ν) : Volume ν β :=
  { self with
    file := fun m => if m = n then none else self.file m
    there := fun m j hj => by
      split at hj
      · cases hj
      · exact self.there m j hj
    apart := fun l m j hl hm => by
      split at hl
      · cases hl
      · split at hm
        · cases hm
        · exact self.apart l m j hl hm }

variable {v : Volume ν β} {m n : ν} {i : Nat}

theorem file_create : (v.create n).2.file n = some (v.create n).1 := by
  unfold create
  split
  · assumption
  · exact if_pos rfl

theorem file_create_ne (h : m ≠ n) : (v.create n).2.file m = v.file m := by
  unfold create
  split
  · rfl
  · exact if_neg h

theorem read_create : (v.create n).2.read n = some [] := by
  unfold create read
  split
  · rename_i i hi
    simp only [hi, Option.bind_some]
    rw [List.getElem?_set_self (v.there n i hi)]
  · simp

theorem read_create_ne (h : m ≠ n) : (v.create n).2.read m = v.read m := by
  unfold read
  rw [file_create_ne h]
  rcases hm : v.file m with _ | j
  · rfl
  have hj := v.there m j hm
  unfold create
  split
  · rename_i i hi
    have hne : i ≠ j := by
      rintro rfl
      exact h (v.apart m n i hm hi)
    simp only [Option.bind_some, List.getElem?_set_ne hne]
  · simp only [Option.bind_some, List.getElem?_append_left hj]

theorem file_rename_ne (hsource : n ≠ m) {target : ν} (htarget : n ≠ target) :
    (v.rename m target).file n = v.file n := by
  unfold rename
  split
  · rfl
  · simp only [if_neg htarget, if_neg hsource]

theorem read_rename_ne (hsource : n ≠ m) {target : ν} (htarget : n ≠ target) :
    (v.rename m target).read n = v.read n := by
  unfold read
  rw [file_rename_ne hsource htarget]
  unfold rename
  split <;> rfl

theorem read_rename {target : ν} {bytes : List β} (h : v.read m = some bytes) :
    (v.rename m target).read target = some bytes := by
  unfold read at h ⊢
  obtain ⟨i, hi, hbytes⟩ := Option.bind_eq_some_iff.mp h
  unfold rename
  split
  · rename_i hnone
    rw [hnone] at hi
    cases hi
  · rename_i j hj
    rw [hj] at hi
    cases hi
    simpa using hbytes

theorem file_remove_ne (h : m ≠ n) : (v.remove n).file m = v.file m := if_neg h

theorem read_remove : (v.remove n).read n = none := by
  simp [read, remove]

theorem read_remove_ne (h : m ≠ n) : (v.remove n).read m = v.read m := by
  unfold read
  rw [file_remove_ne h]
  rfl

end Volume

/-! ## Replacing a file -/

/-- Where a writer is: before it makes the temporary file, before it writes
it, before it renames it. -/
inductive Phase where
  | create
  | write (file : Nat)
  | rename
deriving DecidableEq

namespace Phase

variable {ν β : Type} [DecidableEq ν]

/-- One step of a writer, and where it is then. -/
def step (temp target : ν) (bytes : List β) (v : Volume ν β) : Phase → Volume ν β × Option Phase
  | .create => ((v.create temp).2, some (.write (v.create temp).1))
  | .write i => (v.write i bytes, some .rename)
  | .rename => (v.rename temp target, none)

/-- The temporary file is there. -/
def opened : Phase → Bool
  | .create => false
  | .write _ | .rename => true

/-- The temporary file is as the writer left it. -/
def Holds (temp : ν) (bytes : List β) (v : Volume ν β) : Phase → Prop
  | .create => True
  | .write i => v.file temp = some i ∧ v.read temp = some []
  | .rename => v.read temp = some bytes

variable {temp target other : ν} {bytes bytes' : List β} {v : Volume ν β} {phase phase' next : Phase}

/-- A writer that nobody disturbs goes on to the rename. -/
theorem holds_step (h : phase.Holds temp bytes v)
    (hnext : (phase.step temp target bytes v).2 = some next) :
    next.Holds temp bytes (phase.step temp target bytes v).1 := by
  cases phase with
  | create =>
    cases hnext
    exact ⟨v.file_create, v.read_create⟩
  | write i =>
    cases hnext
    change (v.write i bytes).read temp = some bytes
    rw [Volume.read_write h.1, h.2]
    simp
  | rename => cases hnext

/-- No other name is touched before the rename. -/
theorem read_step (h : phase.Holds temp bytes v) (htemp : other ≠ temp)
    (hother : phase = .rename → other ≠ target) :
    (phase.step temp target bytes v).1.read other = v.read other := by
  cases phase with
  | create => exact v.read_create_ne htemp
  | write i =>
    refine Volume.read_write_ne ?_ bytes
    intro heq
    exact htemp (v.apart other temp i heq h.1)
  | rename => exact v.read_rename_ne htemp (hother rfl)

/-- The rename puts all the bytes in place. -/
theorem read_renamed (h : (Phase.rename).Holds temp bytes v) :
    ((Phase.rename).step temp target bytes v).1.read target = some bytes :=
  v.read_rename h

/-- A writer with a temporary file of its own is not disturbed. -/
theorem Holds.apart {temp' : ν} (h : phase.Holds temp bytes v)
    (h' : phase'.Holds temp' bytes' v) (hopened : phase'.opened = true)
    (htemp : temp' ≠ temp) (htarget : temp' ≠ target) :
    phase'.Holds temp' bytes' (phase.step temp target bytes v).1 := by
  have hread : (phase.step temp target bytes v).1.read temp' = v.read temp' :=
    read_step h htemp (fun _ => htarget)
  cases phase' with
  | create => cases hopened
  | rename => exact hread.trans h'
  | write i =>
    refine ⟨?_, hread.trans h'.2⟩
    cases phase with
    | create => exact (v.file_create_ne htemp).trans h'.1
    | write j => exact h'.1
    | rename => exact (v.file_rename_ne htemp htarget).trans h'.1

/-- The removal of another name disturbs no writer. -/
theorem Holds.remove (h : phase.Holds temp bytes v) (hne : temp ≠ other) :
    phase.Holds temp bytes (v.remove other) := by
  cases phase with
  | create => trivial
  | write i => exact ⟨(v.file_remove_ne hne).trans h.1, (v.read_remove_ne hne).trans h.2⟩
  | rename => exact (v.read_remove_ne hne).trans h

end Phase

/-! ## Many writers -/

section Writers

variable {ι ν β : Type}

/-- Writers at work, each with its target, its bytes and its phase: whoever
has its temporary file has it to itself, as it left it. -/
structure Tidy (temp : ν → ν) (writers : ι → Option (ν × List β × Phase)) (v : Volume ν β) :
    Prop where
  holds : ∀ k n bytes phase, writers k = some (n, bytes, phase) → phase.Holds (temp n) bytes v
  alone : ∀ k l m n bytes bytes' phase phase', writers k = some (m, bytes, phase) →
    writers l = some (n, bytes', phase') → phase.opened = true → phase'.opened = true →
    temp m = temp n → k = l

namespace Tidy

variable {temp : ν → ν} {writers writers' : ι → Option (ν × List β × Phase)} {v : Volume ν β}
  {k : ι} {m n : ν} {bytes : List β} {phase : Phase}

/-- Writers stop, or begin. -/
theorem subset (h : Tidy temp writers v)
    (hw : ∀ k n bytes phase, writers' k = some (n, bytes, phase) →
      writers k = some (n, bytes, phase) ∨ phase = .create) : Tidy temp writers' v where
  holds k n bytes phase hk := by
    rcases hw k n bytes phase hk with hold | rfl
    · exact h.holds k n bytes phase hold
    · trivial
  alone k l m n bytes bytes' phase phase' hk hl hopened hopened' htemp := by
    rcases hw k m bytes phase hk with hk | rfl
    · rcases hw l n bytes' phase' hl with hl | rfl
      · exact h.alone k l m n bytes bytes' phase phase' hk hl hopened hopened' htemp
      · cases hopened'
    · cases hopened

/-- Another writer with the same temporary file would have to be at work on it. -/
theorem temp_ne (h : Tidy temp writers v) (hk : writers k = some (n, bytes, phase))
    (hfree : phase = .create → ∀ l m bytes' phase', l ≠ k → writers l = some (m, bytes', phase') →
      phase'.opened = true → temp m ≠ temp n) {l : ι} {bytes' : List β} {phase' : Phase}
    (hne : l ≠ k) (hl : writers l = some (m, bytes', phase')) (hopened : phase'.opened = true) :
    temp m ≠ temp n := by
  intro htemp
  rcases hphase : phase.opened with _ | _
  · have hcreate : phase = .create := by
      cases phase with
      | create => rfl
      | write i => cases hphase
      | rename => cases hphase
    exact hfree hcreate l m bytes' phase' hne hl hopened htemp
  · exact hne (h.alone l k m n bytes' bytes phase' phase hl hk hopened hphase htemp)

variable [DecidableEq ν]

/-- One writer takes a step. One that makes its temporary file finds it free. -/
theorem step (h : Tidy temp writers v) (hk : writers k = some (n, bytes, phase))
    (hplain : ∀ m, n ≠ temp m)
    (hfree : phase = .create → ∀ l m bytes' phase', l ≠ k → writers l = some (m, bytes', phase') →
      phase'.opened = true → temp m ≠ temp n)
    (hother : ∀ l, l ≠ k → writers' l = writers l)
    (hself : ∀ n' bytes' phase', writers' k = some (n', bytes', phase') → phase' = .create ∨
      n' = n ∧ bytes' = bytes ∧ (phase.step (temp n) n bytes v).2 = some phase') :
    Tidy temp writers' (phase.step (temp n) n bytes v).1 where
  holds l m bytes' phase' hl := by
    by_cases hlk : l = k
    · subst hlk
      rcases hself m bytes' phase' hl with rfl | ⟨rfl, rfl, hnext⟩
      · trivial
      · exact Phase.holds_step (h.holds l m bytes' phase hk) hnext
    · rw [hother l hlk] at hl
      rcases hphase : phase'.opened with _ | _
      · cases phase' with
        | create => trivial
        | write i => cases hphase
        | rename => cases hphase
      · exact Phase.Holds.apart (h.holds k n bytes phase hk) (h.holds l m bytes' phase' hl) hphase
          (h.temp_ne hk hfree hlk hl hphase) (fun heq => hplain m heq.symm)
  alone i j m m' bytes₁ bytes₂ phase₁ phase₂ hi hj hopened₁ hopened₂ htemp := by
    by_cases hik : i = k
    · by_cases hjk : j = k
      · rw [hik, hjk]
      · subst hik
        rw [hother j hjk] at hj
        rcases hself m bytes₁ phase₁ hi with rfl | ⟨rfl, -, -⟩
        · cases hopened₁
        · exact absurd htemp.symm (h.temp_ne hk hfree hjk hj hopened₂)
    · rw [hother i hik] at hi
      by_cases hjk : j = k
      · subst hjk
        rcases hself m' bytes₂ phase₂ hj with rfl | ⟨rfl, -, -⟩
        · cases hopened₂
        · exact absurd htemp (h.temp_ne hk hfree hik hi hopened₁)
      · rw [hother j hjk] at hj
        exact h.alone i j m m' bytes₁ bytes₂ phase₁ phase₂ hi hj hopened₁ hopened₂ htemp

/-- What a step makes of a file that is nobody's temporary one. -/
theorem read_step (h : Tidy temp writers v) (hk : writers k = some (n, bytes, phase))
    (hm : ∀ n, m ≠ temp n) : (phase.step (temp n) n bytes v).1.read m =
      if phase = .rename ∧ m = n then some bytes else v.read m := by
  have hholds := h.holds k n bytes phase hk
  split
  · rename_i hren
    obtain ⟨rfl, rfl⟩ := hren
    exact Phase.read_renamed hholds
  · rename_i hren
    exact Phase.read_step hholds (hm n) (fun hphase heq => hren ⟨hphase, heq⟩)

/-- A file that is nobody's temporary one goes. -/
theorem remove (h : Tidy temp writers v) (hm : ∀ n, m ≠ temp n) :
    Tidy temp writers (v.remove m) where
  holds k n bytes phase hk := (h.holds k n bytes phase hk).remove (fun heq => hm n heq.symm)
  alone := h.alone

end Tidy

end Writers

end volume
