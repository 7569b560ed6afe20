-- The room book: tickets that are saved under names, so that nobody types one twice (rooms.rs).
-- What the book says of a name is what was done with this name.
import IrohDrop.Inventory
import IrohDrop.OrderedMaps
import IrohDrop.Runs

open rust_std

namespace iroh_drop

/-- One saved drop. The times are in seconds. -/
structure Room where
  ticket : String
  created_at : Nat
  last_used : Nat
  note : Option String
deriving DecidableEq

structure Rooms where
  rooms : BTreeMap String Room
deriving DecidableEq

inductive RoomError where
  | Pick (reason : String)
  | Config (reason : String)
deriving DecidableEq

namespace Rooms

def default : Rooms := ⟨∅⟩

def get (self : Rooms) (name : String) : Option Room := self.rooms.get name

def room_text (ticket : DropTicket) : String := String.ofList ticket.to_string_prefixed

def ticket [Urls] [Crypto] [Crates] (self : Rooms) (name : String) : Except RoomError DropTicket :=
  match self.get name with
  | none => .error (.Pick s!"no room named {Crates.debug name}; try `rooms`")
  | some room =>
    match DropTicket.from_string_prefixed room.ticket.toList with
    | .ok ticket => .ok ticket
    | .error e =>
      .error (.Config s!"room {Crates.debug name} has an unusable ticket: {e.text}")

/-- All rooms, most recently used first. -/
def list (self : Rooms) : List (String × Room) :=
  self.rooms.entries.insertionSort fun a b => b.2.last_used ≤ a.2.last_used

/-- The room after it is saved or refreshed: it keeps the time it was created, and its note. -/
def Room.refresh (self : Room) (ticket : DropTicket) (now : Nat) : Room :=
  { self with
      ticket := room_text ticket, last_used := now
      note := self.note <|> ticket.V1.options.display_name }

def set (self : Rooms) (name : String) (ticket : DropTicket) (now : Nat) : Rooms :=
  let note := ticket.V1.options.display_name
  let entry := (self.get name).getD
    { ticket := room_text ticket, created_at := now, last_used := now, note }
  ⟨self.rooms.insert name (Room.refresh entry ticket now)⟩

/-- Whether it was there, and the book without it. -/
def remove (self : Rooms) (name : String) : Bool × Rooms :=
  ((self.get name).isSome, ⟨self.rooms.remove name⟩)

def len (self : Rooms) : Nat := self.rooms.entries.length

def is_empty (self : Rooms) : Bool := self.rooms.entries.isEmpty

/-! ## Looking up -/

theorem get_eq_some {self : Rooms} {name : String} {room : Room} :
    self.get name = some room ↔ (name, room) ∈ self.rooms.entries := by
  unfold get BTreeMap.get
  rw [Option.map_eq_some_iff]
  constructor
  · rintro ⟨⟨other, found⟩, hfound, rfl⟩
    have hname := List.find?_some hfound
    rw [decide_eq_true_eq] at hname
    exact hname ▸ List.mem_of_find?_eq_some hfound
  · intro hmem
    rcases hfound : self.rooms.entries.find? (fun e => decide (e.1 = name)) with _ | ⟨other, found⟩
    · have hnone := List.find?_eq_none.mp hfound (name, room) hmem
      exact absurd (decide_eq_true rfl) hnone
    · have hname := List.find?_some hfound
      rw [decide_eq_true_eq] at hname
      simp only at hname
      subst hname
      have hsame := self.rooms.value_unique (List.mem_of_find?_eq_some hfound) hmem
      exact ⟨(other, found), hfound, hsame⟩

theorem get_set (self : Rooms) (name other : String) (ticket : DropTicket) (now : Nat) :
    (self.set name ticket now).get other =
      if other = name then
        some (Room.refresh ((self.get name).getD
          { ticket := room_text ticket, created_at := now, last_used := now
            note := ticket.V1.options.display_name }) ticket now)
      else self.get other := by
  ext room
  rw [get_eq_some]
  refine BTreeMap.mem_insert.trans ?_
  by_cases hother : other = name
  · rw [if_pos hother, Option.some.injEq]
    constructor
    · rintro (⟨-, rfl⟩ | ⟨hne, -⟩)
      · rfl
      · exact absurd hother hne
    · rintro rfl
      exact .inl ⟨hother, rfl⟩
  · rw [if_neg hother, get_eq_some]
    constructor
    · rintro (⟨hsame, -⟩ | ⟨-, hmem⟩)
      · exact absurd hsame hother
      · exact hmem
    · intro hmem
      exact .inr ⟨hother, hmem⟩

theorem get_remove (self : Rooms) (name other : String) :
    (self.remove name).2.get other = if other = name then none else self.get other := by
  ext room
  rw [get_eq_some]
  refine BTreeMap.mem_remove.trans ?_
  split
  · rename_i hother
    constructor
    · rintro ⟨hne, -⟩
      exact absurd hother hne
    · rintro ⟨⟩
  · rename_i hother
    rw [get_eq_some]
    exact and_iff_right hother

/-! ## What was done with a name -/

/-- What is done with the book, and when. -/
inductive Entry where
  | set (name : String) (ticket : DropTicket) (now : Nat)
  | remove (name : String)

def write (self : Rooms) : Entry → Rooms
  | .set name ticket now => self.set name ticket now
  | .remove name => (self.remove name).2

def run (self : Rooms) (entries : List Entry) : Rooms := runs.run write self entries

/-- The tickets that were saved under a name since it was last removed, oldest first, and when. -/
def saved (name : String) : List Entry → List (DropTicket × Nat) → List (DropTicket × Nat)
  | [], since => since
  | .set other ticket now :: entries, since =>
    saved name entries (if other = name then since ++ [(ticket, now)] else since)
  | .remove other :: entries, since => saved name entries (if other = name then [] else since)

theorem saved_concat (name : String) (entries : List Entry) (entry : Entry)
    (since : List (DropTicket × Nat)) :
    saved name (entries ++ [entry]) since = saved name [entry] (saved name entries since) := by
  induction entries generalizing since with
  | nil => rfl
  | cons first entries ih => cases first <;> exact ih _

/-- What the book says of a name: the last ticket, the first and the last time, and the first
name that the drop itself had. -/
def told : List (DropTicket × Nat) → Option Room
  | [] => none
  | first :: rest =>
    let last := (first :: rest).getLast (List.cons_ne_nil first rest)
    some
      { ticket := room_text last.1, created_at := first.2, last_used := last.2
        note := (first :: rest).findSome? fun visit => visit.1.V1.options.display_name }

theorem told_concat (since : List (DropTicket × Nat)) (ticket : DropTicket) (now : Nat) :
    told (since ++ [(ticket, now)]) =
      some (Room.refresh ((told since).getD
        { ticket := room_text ticket, created_at := now, last_used := now
          note := ticket.V1.options.display_name }) ticket now) := by
  cases since with
  | nil =>
    rcases hname : ticket.V1.options.display_name with _ | name <;>
      simp [told, Room.refresh, hname]
  | cons first rest =>
    rw [List.cons_append, told, told, Option.getD_some]
    refine congrArg some ?_
    have hlast : (first :: (rest ++ [(ticket, now)])).getLast (List.cons_ne_nil _ _) =
        (ticket, now) := by
      rw [List.getLast_cons (by simp), List.getLast_concat]
    rw [hlast]
    simp only [Room.refresh, Room.mk.injEq, true_and]
    rw [← List.cons_append, List.findSome?_append]
    generalize (first :: rest).findSome? _ = earlier
    rcases earlier with _ | name
    · simp
    · rfl

theorem get_run (entries : List Entry) (name : String) :
    (run default entries).get name = told (saved name entries []) := by
  induction entries using List.reverseRecOn with
  | nil => rfl
  | append_singleton entries entry ih =>
    unfold run at ih ⊢
    rw [runs.run_concat, saved_concat]
    cases entry with
    | set other ticket now =>
      refine (get_set _ other name ticket now).trans ?_
      by_cases hother : other = name
      · subst hother
        rw [if_pos rfl, saved, if_pos rfl, saved, told_concat, ih]
      · rw [if_neg (Ne.symm hother), saved, if_neg hother, saved, ih]
    | remove other =>
      refine (get_remove _ other name).trans ?_
      by_cases hother : other = name
      · subst hother
        rw [if_pos rfl, saved, if_pos rfl]
        rfl
      · rw [if_neg (Ne.symm hother), saved, if_neg hother, saved, ih]

/-- Whatever was saved and removed, and whatever the clock showed: the book has the names that
were saved since they were last removed, each with what was done with it since; and it lists each
of them once, the most recently used first and rooms of the same time by their names. -/
theorem book_tells_its_history (entries : List Entry) :
    let book := run default entries
    (∀ name, book.get name = told (saved name entries [])) ∧
      (∀ name room, (name, room) ∈ book.list ↔ told (saved name entries []) = some room) ∧
      book.list.Pairwise fun a b => b.2.last_used < a.2.last_used ∨
        a.2.last_used = b.2.last_used ∧ a.1 < b.1 := by
  intro book
  refine ⟨get_run entries, fun name room => ?_, ?_⟩
  · rw [← get_run, get_eq_some]
    exact List.mem_insertionSort _
  · have hsorted := book.rooms.sorted_by_value fun room => OrderDual.toDual room.last_used
    exact hsorted.imp fun h => h.imp id fun heq => ⟨OrderDual.toDual.injective heq.1, heq.2⟩

end Rooms

end iroh_drop
