-- The commands that save rooms and use them, each a process of its own: sharing into a room and
-- receiving from it keep to the drop that the room stands for (main.rs of the command line).
import IrohDrop.KeptTickets
import IrohDrop.Links
import IrohDrop.Rooms

open rust_std postcard

namespace iroh_drop

/-- The TOML of the room book. -/
class RoomToml where
  to_string_pretty : Rooms → Except String (List Char)
  from_str : List Char → Except String Rooms
  /-- What is written reads back. -/
  reads_back : ∀ rooms text, to_string_pretty rooms = .ok text → from_str text = .ok rooms

namespace Rooms

variable [RoomToml]

/-- The book of a file, which may not be there yet. -/
def load_from (file : Option (List Char)) : Except RoomError Rooms :=
  match file with
  | none => .ok default
  | some text => (RoomToml.from_str text).mapError .Config

/-- The file after a save. A book that cannot be written leaves it as it was. -/
def save_to (self : Rooms) (file : Option (List Char)) : Option (List Char) :=
  match RoomToml.to_string_pretty self with
  | .ok text => some text
  | .error _ => file

theorem load_save {self : Rooms} {text : List Char}
    (h : RoomToml.to_string_pretty self = .ok text) : load_from (some text) = .ok self := by
  rw [load_from, RoomToml.reads_back self text h]
  rfl

end Rooms

section Commands

variable [Urls] [Crypto]

/-- A session when a ticket is made of it, and whether this ticket is to be short. -/
structure Visit where
  session : Session
  self_addr : EndpointAddr
  short_tickets : Bool

namespace Visit

/-- The session, which joined with this ticket. -/
def joined (self : Visit) (ticket : DropTicket) : Session := { self.session with ticket }

def ticket_for (self : Visit) (ticket : DropTicket) : DropTicket :=
  if self.short_tickets then (self.joined ticket).short_ticket self.self_addr
  else (self.joined ticket).current_ticket self.self_addr

/-- The nodes of this ticket. -/
def nodes (self : Visit) (ticket : DropTicket) : List EndpointAddr :=
  let nodes := (self.joined ticket).ticket_nodes self.self_addr
  if self.short_tickets then nodes.map fun addr => .of_id addr.id else nodes

end Visit

namespace cli

/-- A ticket, a link, or a text with one of them. -/
def read_ticket (text : List Char) : Except TicketError DropTicket :=
  let text := DropTicket.trim text
  DropTicket.from_string_prefixed ((ticket_from_text text).getD text)

/-- A command that runs: the ticket that its session was created or joined with, and the room
that it saves. -/
structure Process where
  ticket : DropTicket
  saves : Option String

/-- The room book on the disk, and the commands that were started. -/
structure Desk where
  file : Option (List Char)
  processes : List Process

/-- What happens at a desk. A command that was started goes on while others run, and saves its
room at any time after. -/
inductive Act where
  | share (room : Option String) (created : DropTicket)
  | receive (given : Option (List Char)) (room save_as : Option String)
  | remember (process : Nat) (visit : Visit) (now : Nat)
  | forget (name : String)

namespace Desk

variable [Crates] [RoomToml]

def start (self : Desk) (ticket : DropTicket) (saves : Option String) : Desk :=
  { self with processes := self.processes ++ [{ ticket, saves }] }

/-- Sharing into a room joins the drop of this room, if it has one that can be read. -/
def share (self : Desk) (room : Option String) (created : DropTicket) : Desk :=
  match room with
  | none => self.start created none
  | some name =>
    match Rooms.load_from self.file with
    | .error _ => self
    | .ok rooms => self.start ((rooms.ticket name).toOption.getD created) (some name)

/-- The drop to receive from: the ticket that is given, or that of a room. -/
def resolve_source (self : Desk) (given : Option (List Char)) (room : Option String) :
    Option DropTicket :=
  match given, room with
  | some text, _ => (read_ticket text).toOption
  | none, some name =>
    match Rooms.load_from self.file with
    | .error _ => none
    | .ok rooms => (rooms.ticket name).toOption
  | none, none => none

def receive (self : Desk) (given : Option (List Char)) (room save_as : Option String) : Desk :=
  match self.resolve_source given room with
  | none => self
  | some ticket => self.start ticket (save_as <|> room)

def remember_room (self : Desk) (name : String) (ticket : DropTicket) (now : Nat) : Desk :=
  match Rooms.load_from self.file with
  | .error _ => self
  | .ok rooms => { self with file := (rooms.set name ticket now).save_to self.file }

def remember (self : Desk) (process : Nat) (visit : Visit) (now : Nat) : Desk :=
  match self.processes[process]? with
  | none => self
  | some p =>
    match p.saves with
    | none => self
    | some name => self.remember_room name (visit.ticket_for p.ticket) now

def forget (self : Desk) (name : String) : Desk :=
  match Rooms.load_from self.file with
  | .error _ => self
  | .ok rooms =>
    let (was_there, rooms) := rooms.remove name
    if was_there then { self with file := rooms.save_to self.file } else self

def step (self : Desk) : Act → Desk
  | .share room created => self.share room created
  | .receive given room save_as => self.receive given room save_as
  | .remember process visit now => self.remember process visit now
  | .forget name => self.forget name

def run (self : Desk) (acts : List Act) : Desk := runs.run step self acts

end Desk

end cli

end Commands

/-! ## Tickets of a session -/

/-- The same drop: its topic and key, under the same options. -/
structure SameDrop (a b : DropTicket) : Prop where
  topic : a.V1.topic_id = b.V1.topic_id
  options : a.V1.options = b.V1.options
  mode : a.mode = b.mode
  key : a.drop_key = b.drop_key

theorem SameDrop.refl (ticket : DropTicket) : SameDrop ticket ticket := ⟨rfl, rfl, rfl, rfl⟩

theorem SameDrop.trans {a b c : DropTicket} (h : SameDrop a b) (h' : SameDrop b c) :
    SameDrop a c :=
  ⟨h.topic.trans h'.topic, h.options.trans h'.options, h.mode.trans h'.mode, h.key.trans h'.key⟩

theorem varintLen_le (n : Nat) : varintLen n ≤ 10 := writeVarint_length_le 10 n

section Laws

variable [Urls] [Crypto]

/-- The name of a ticket that was read keeps to its limit. -/
theorem read_name_fits {s : List Char} {ticket : DropTicket}
    (h : DropTicket.from_string_prefixed s = .ok ticket) :
    ∀ name ∈ ticket.V1.options.display_name, name.utf8ByteSize ≤ MAX_DISPLAY_NAME_LEN := by
  obtain ⟨bytes, rest, -, -, -, hvalid⟩ := from_string_prefixed_eq_ok.mp h
  simp only [DropTicket.validate, bind_eq_ok, ensure_eq_ok] at hvalid
  obtain ⟨_, -, _, -, _, -, _, -, hname⟩ := hvalid
  exact hname

/-- A node that is named by its id alone is small. -/
theorem node_size_of_id (id : EndpointId) : node_size (.of_id id) = 35 := rfl

theorem of_id_fits (id : EndpointId) : NodeFits (.of_id id) where
  v4 := Nat.zero_le _
  v6 := Nat.zero_le _
  relay := by rintro url ⟨⟩

/-- Nodes that are named by their ids alone always fit into a ticket. -/
theorem ids_fit (ids : List EndpointId) (hfew : ids.length ≤ MAX_BOOTSTRAP_NODES)
    {display_name : Option String}
    (hname : ∀ name ∈ display_name, name.utf8ByteSize ≤ MAX_DISPLAY_NAME_LEN) (keyed : Bool) :
    Fits (ids.map .of_id) display_name keyed where
  few := by rwa [List.length_map]
  node_fits := by
    intro node hnode
    obtain ⟨id, -, rfl⟩ := List.mem_map.mp hnode
    exact of_id_fits id
  name := hname
  short := by
    have hsizes : ((ids.map EndpointAddr.of_id).map node_size).sum = ids.length * 35 := by
      have hsame : node_size ∘ EndpointAddr.of_id = fun _ => 35 := funext node_size_of_id
      rw [List.map_map, hsame, List.map_const', List.sum_replicate, smul_eq_mul]
    have hcount := varintLen_le (ids.map EndpointAddr.of_id).length
    have htext : (display_name.map string_size).getD 0 ≤ 265 := by
      rcases display_name with _ | name
      · exact Nat.zero_le _
      · have hsize := hname name rfl
        have hlen := varintLen_le name.utf8ByteSize
        simp only [Option.map_some, Option.getD_some, string_size, MAX_DISPLAY_NAME_LEN] at hsize ⊢
        omega
    have hkey : (if keyed = true then 33 else 1) ≤ 33 := by split <;> omega
    simp only [MAX_BOOTSTRAP_NODES] at hfew
    simp only [DropTicket.text_len, ticket_size, hsizes, MAX_TICKET_LEN]
    omega

namespace Visit

variable (visit : Visit) (ticket : DropTicket)

theorem ticket_for_nodes :
    (visit.ticket_for ticket).V1.bootstrap_nodes = (visit.nodes ticket).map .from := by
  unfold ticket_for nodes
  rcases visit.short_tickets with _ | _
  · rfl
  · exact short_ticket_nodes (visit.joined ticket) visit.self_addr

theorem ticket_for_same : SameDrop (visit.ticket_for ticket) ticket := by
  unfold ticket_for
  split <;> exact ⟨rfl, rfl, rfl, rfl⟩

theorem ticket_for_made (h : Made ticket) : Made (visit.ticket_for ticket) := by
  unfold ticket_for
  split
  · exact (h.set_bootstrap_nodes _).set_bootstrap_nodes _
  · exact h.set_bootstrap_nodes _

theorem short_nodes_fit (hshort : visit.short_tickets = true)
    (hname : ∀ name ∈ ticket.V1.options.display_name, name.utf8ByteSize ≤ MAX_DISPLAY_NAME_LEN) :
    Fits (visit.nodes ticket) ticket.V1.options.display_name ticket.V1.drop_key.isSome := by
  have hfew : (((visit.joined ticket).ticket_nodes visit.self_addr).map
      EndpointAddr.id).length ≤ MAX_BOOTSTRAP_NODES := by
    rw [List.length_map]
    exact List.length_take_le _ _
  have hfit := ids_fit _ hfew hname ticket.V1.drop_key.isSome
  unfold nodes
  rw [if_pos hshort]
  rwa [List.map_map] at hfit

/-- What is saved of a session reads back as its drop. -/
theorem saved_text_reads_back (h : Made ticket)
    (hfits : Fits (visit.nodes ticket) ticket.V1.options.display_name ticket.V1.drop_key.isSome) :
    ∃ back, DropTicket.from_string_prefixed (Rooms.room_text (visit.ticket_for ticket)).toList =
      .ok back ∧ SameDrop back ticket := by
  have hback := (reads_back_iff (visit.ticket_for_made ticket h)
    (visit.ticket_for_nodes ticket)).mpr
  have hsame := visit.ticket_for_same ticket
  have hkey : (visit.ticket_for ticket).V1.drop_key.isSome = ticket.V1.drop_key.isSome := by
    unfold ticket_for
    split <;> rfl
  rw [hsame.options, hkey] at hback
  obtain ⟨back, hread, htopic, hoptions, hmode, hdrop, -⟩ := hback hfits
  refine ⟨back, ?_, SameDrop.trans ⟨htopic, hoptions, hmode, hdrop⟩ hsame⟩
  rw [Rooms.room_text, String.toList_ofList]
  exact hread

end Visit

/-! ## Reading a room -/

namespace Rooms

variable [Crates] {self : Rooms} {name other : String} {ticket t : DropTicket}

theorem ticket_eq_ok : self.ticket name = .ok t ↔ ∃ room, self.get name = some room ∧
    DropTicket.from_string_prefixed room.ticket.toList = .ok t := by
  unfold Rooms.ticket
  rcases self.get name with _ | room
  · constructor
    · rintro ⟨⟩
    · rintro ⟨room, ⟨⟩, -⟩
  · simp only [Option.some.injEq, exists_eq_left']
    rcases DropTicket.from_string_prefixed room.ticket.toList with e | back
    · constructor <;> rintro ⟨⟩
    · simp only [Except.ok.injEq]

theorem ticket_set (now : Nat) : (self.set name ticket now).ticket name = .ok t ↔
    DropTicket.from_string_prefixed (room_text ticket).toList = .ok t := by
  rw [ticket_eq_ok, get_set, if_pos rfl]
  simp only [Option.some.injEq, exists_eq_left', Room.refresh]

theorem ticket_set_ne (h : other ≠ name) (now : Nat) :
    (self.set name ticket now).ticket other = self.ticket other := by
  unfold Rooms.ticket
  rw [get_set, if_neg h]

theorem ticket_remove_ne (h : other ≠ name) :
    (self.remove name).2.ticket other = self.ticket other := by
  unfold Rooms.ticket
  rw [get_remove, if_neg h]

end Rooms

namespace cli

namespace Desk

variable [Crates] [RoomToml] {name : String} {drop : DropTicket} {since : Nat} {desk : Desk}

/-! ## What a room stands for -/

/-- The room is there, and its ticket is one of this drop. -/
def Stands (name : String) (drop : DropTicket) (desk : Desk) : Prop :=
  ∃ rooms ticket, Rooms.load_from desk.file = .ok rooms ∧ rooms.ticket name = .ok ticket ∧
    SameDrop ticket drop

/-- What is done leaves the room to its drop: nobody forgets it, or saves another drop under its
name. What is saved under it comes from a command that was started since, and its ticket is short
or keeps to the limits of a ticket. -/
def Minds (name : String) (since : Nat) (desk : Desk) : Act → Prop
  | .share _ _ => True
  | .receive given room save_as =>
    (save_as <|> room) = some name → given = none ∧ room = some name
  | .remember process visit _ => ∀ p, desk.processes[process]? = some p → p.saves = some name →
    since ≤ process ∧ (visit.short_tickets = true ∨
      Fits (visit.nodes p.ticket) p.ticket.V1.options.display_name p.ticket.V1.drop_key.isSome)
  | .forget other => other ≠ name

/-- The room stands for the drop, and so does each command that was started since and will save
the room. -/
structure Kept (name : String) (drop : DropTicket) (since : Nat) (desk : Desk) : Prop where
  stands : Stands name drop desk
  later : since ≤ desk.processes.length
  joined : ∀ k p, since ≤ k → desk.processes[k]? = some p → p.saves = some name →
    SameDrop p.ticket drop ∧ ∃ s, DropTicket.from_string_prefixed s = .ok p.ticket

namespace Kept

/-- A command that was started with another room, or with the ticket of this one. -/
theorem start (h : Kept name drop since desk) {ticket : DropTicket} {saves : Option String}
    (hticket : saves = some name →
      SameDrop ticket drop ∧ ∃ s, DropTicket.from_string_prefixed s = .ok ticket) :
    Kept name drop since (desk.start ticket saves) where
  stands := h.stands
  later := by
    rw [Desk.start, List.length_append]
    exact Nat.le_add_right_of_le h.later
  joined k p hk hp hsaves := by
    by_cases hold : k < desk.processes.length
    · refine h.joined k p hk ?_ hsaves
      rwa [Desk.start, List.getElem?_append_left hold] at hp
    · rw [Desk.start, List.getElem?_append_right (Nat.le_of_not_lt hold)] at hp
      rw [List.mem_singleton.mp (List.mem_of_getElem? hp)] at hsaves ⊢
      exact hticket hsaves

/-- The ticket that the room has now. -/
theorem room_ticket (h : Kept name drop since desk) {rooms : Rooms}
    (hload : Rooms.load_from desk.file = .ok rooms) :
    ∃ ticket, rooms.ticket name = .ok ticket ∧ SameDrop ticket drop ∧
      ∃ s, DropTicket.from_string_prefixed s = .ok ticket := by
  obtain ⟨rooms', ticket, hload', hticket, hsame⟩ := h.stands
  rw [hload] at hload'
  cases hload'
  obtain ⟨room, -, hread⟩ := Rooms.ticket_eq_ok.mp hticket
  exact ⟨ticket, hticket, hsame, _, hread⟩

theorem share (h : Kept name drop since desk) (room : Option String) (created : DropTicket) :
    Kept name drop since (desk.share room created) := by
  unfold Desk.share
  rcases room with _ | other
  · exact h.start (by rintro ⟨⟩)
  · simp only
    split
    · exact h
    · rename_i rooms hload
      refine h.start fun hsaves => ?_
      cases hsaves
      obtain ⟨ticket, hticket, hsame, hread⟩ := h.room_ticket hload
      rw [hticket]
      exact ⟨hsame, hread⟩

theorem receive (h : Kept name drop since desk) {given : Option (List Char)}
    {room save_as : Option String}
    (hminds : (save_as <|> room) = some name → given = none ∧ room = some name) :
    Kept name drop since (desk.receive given room save_as) := by
  unfold Desk.receive
  split
  · exact h
  · rename_i ticket hsource
    refine h.start fun hsaves => ?_
    obtain ⟨rfl, rfl⟩ := hminds hsaves
    unfold resolve_source at hsource
    simp only at hsource
    split at hsource
    · cases hsource
    · rename_i rooms hload
      obtain ⟨ticket', hticket, hsame, hread⟩ := h.room_ticket hload
      rw [hticket] at hsource
      cases hsource
      exact ⟨hsame, hread⟩

/-- A book where the room stands for the drop, on the disk. -/
theorem save (h : Kept name drop since desk) {rooms : Rooms} {ticket : DropTicket}
    (hticket : rooms.ticket name = .ok ticket) (hsame : SameDrop ticket drop) :
    Kept name drop since { desk with file := rooms.save_to desk.file } where
  stands := by
    rcases htext : RoomToml.to_string_pretty rooms with e | text
    · simp only [Rooms.save_to, htext]
      exact h.stands
    · simp only [Rooms.save_to, htext]
      exact ⟨rooms, ticket, Rooms.load_save htext, hticket, hsame⟩
  later := h.later
  joined := h.joined

theorem remember_room (h : Kept name drop since desk) {other : String} {ticket : DropTicket}
    (now : Nat) (hback : other = name → ∃ back,
      DropTicket.from_string_prefixed (Rooms.room_text ticket).toList = .ok back ∧
        SameDrop back drop) : Kept name drop since (desk.remember_room other ticket now) := by
  unfold Desk.remember_room
  split
  · exact h
  · rename_i rooms hload
    by_cases hother : other = name
    · obtain ⟨back, hread, hsame⟩ := hback hother
      subst hother
      exact h.save ((Rooms.ticket_set now).mpr hread) hsame
    · obtain ⟨kept, hticket, hsame, -⟩ := h.room_ticket hload
      refine h.save ?_ hsame
      rwa [Rooms.ticket_set_ne (Ne.symm hother)]

theorem remember (h : Kept name drop since desk) {process : Nat} {visit : Visit} (now : Nat)
    (hminds : Minds name since desk (.remember process visit now)) :
    Kept name drop since (desk.remember process visit now) := by
  unfold Desk.remember
  rcases hp : desk.processes[process]? with _ | p
  · exact h
  · simp only
    rcases hsaves : p.saves with _ | other
    · exact h
    · refine h.remember_room now fun hother => ?_
      subst hother
      obtain ⟨hsince, hfits⟩ := hminds p hp hsaves
      obtain ⟨hsame, s, hread⟩ := h.joined process p hsince hp hsaves
      have hshort : visit.short_tickets = true → _ := fun hshort =>
        visit.short_nodes_fit p.ticket hshort (read_name_fits hread)
      obtain ⟨back, hback, hsame'⟩ :=
        visit.saved_text_reads_back p.ticket (.read hread) (hfits.elim hshort id)
      exact ⟨back, hback, hsame'.trans hsame⟩

theorem forget (h : Kept name drop since desk) {other : String} (hother : other ≠ name) :
    Kept name drop since (desk.forget other) := by
  unfold Desk.forget
  split
  · exact h
  · rename_i rooms hload
    simp only
    split
    · obtain ⟨ticket, hticket, hsame, -⟩ := h.room_ticket hload
      refine h.save ?_ hsame
      rwa [Rooms.ticket_remove_ne (Ne.symm hother)]
    · exact h

theorem step (h : Kept name drop since desk) {act : Act} (hminds : Minds name since desk act) :
    Kept name drop since (desk.step act) := by
  cases act with
  | share room created => exact h.share room created
  | receive given room save_as => exact h.receive hminds
  | remember process visit now => exact h.remember now hminds
  | forget other => exact h.forget hminds

end Kept

end Desk

end cli

end Laws

/-! ## A room of a team -/

namespace team_room

local instance : Crypto := Crypto.clear

local instance : Urls := Urls.verbatim

local instance : Crates where
  hash_of _ := ⟨.fill 32 0⟩
  to_vec_pretty _ := .error "not here"
  from_slice _ := .error "not here"
  debug s := "\"" ++ s ++ "\""

def drop : DropTicket := .nodeless (.fill 32 8) none

def team : Room :=
  { ticket := Rooms.room_text drop, created_at := 5, last_used := 5, note := none }

def rooms : Rooms := ⟨(∅ : BTreeMap String Room).insert "team" team⟩

/-- The file of this room book, and no other. -/
def file : List Char := "[rooms.team]".toList

local instance : RoomToml where
  to_string_pretty book := if book = rooms then .ok file else .error "not here"
  from_str text := if text = file then .ok rooms else .error "expected a table"
  reads_back book text h := by
    split at h
    · rename_i hbook
      cases h
      rw [if_pos rfl, hbook]
    · cases h

def desk : cli.Desk := { file := some file, processes := [] }

def self_addr : EndpointAddr := .of_id (SecretKey.public ⟨.fill 32 1⟩)

def visit : Visit :=
  { session := .new ⟨.fill 32 1⟩ {} PolicyDecider ⟨.fill 32 8⟩ drop none (fun _ => .NotFound)
    self_addr, short_tickets := true }

/-- Somebody shares into the room, receives from it and from another drop, and the first of
these saves it. -/
def acts : List cli.Act :=
  [.share (some "team") (.nodeless (.fill 32 9) none), .receive none (some "team") none,
    .receive (some drop.to_string_prefixed) none (some "other"), .remember 0 visit 9,
    .forget "other"]

end team_room

end iroh_drop
