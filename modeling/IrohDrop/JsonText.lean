-- The text of a frame on the control socket, and how many bytes it has (frame.rs,
-- transport/mod.rs).
import IrohDrop.Control
import IrohDrop.DropStore
import IrohDrop.TicketTrip

open rust_std

namespace iroh_drop

open DropTicket (str_len)

/-! ## Writing -/

namespace json_text

/-- The parts with commas between them. -/
def commas (parts : List (List Char)) : List Char := List.intercalate [','] parts

def array (items : List (List Char)) : List Char := '[' :: (commas items ++ [']'])

def member (key : String) (text : List Char) : List Char :=
  table_json.text_of key ++ ':' :: text

def object (members : List (List Char)) : List Char :=
  '\x7b' :: (commas members ++ ['\x7d'])

def number (n : Nat) : List Char := Nat.toDigits 10 n

end json_text

section Text

variable (write_f64 : UInt64 → List Char)

mutual

/-- `serde_json::to_string`. A map is written in the order of its keys. -/
def Value.text : Value → List Char
  | .null => "null".toList
  | .bool b => (toString b).toList
  | .pos_int n => json_text.number n.toNat
  | .neg_int n => '-' :: json_text.number n.toInt.natAbs
  | .float bits => write_f64 bits
  | .string s => table_json.text_of s
  | .array items => json_text.array (Value.texts items)
  | .object fields =>
    json_text.object (((Value.entries fields).insertionSort fun a b => a.1 ≤ b.1).map
      fun entry => json_text.member entry.1 entry.2)

def Value.texts : List Value → List (List Char)
  | [] => []
  | item :: items => item.text :: Value.texts items

def Value.entries : List (String × Value) → List (String × List Char)
  | [] => []
  | (key, value) :: fields => (key, value.text) :: Value.entries fields

end

namespace Frame

/-- A frame with its tag before its fields. -/
def line (t : String) (fields : List (String × Value)) : List Char :=
  json_text.object ((("t", .string t) :: fields).map fun field =>
    json_text.member field.1 (field.2.text write_f64))

/-- The frame as one line, without the newline. -/
def to_line : Frame → List Char
  | .Req id m p => line write_f64 "req" [("id", .pos_int id), ("m", .string m), ("p", p)]
  | .Res id p => line write_f64 "res" [("id", .pos_int id), ("p", p)]
  | .Err id code msg =>
    line write_f64 "err" [("id", .pos_int id), ("code", .string code), ("msg", .string msg)]
  | .Ask id q p => line write_f64 "ask" [("id", .pos_int id), ("q", .string q), ("p", p)]
  | .Ev seq e p => line write_f64 "ev" [("seq", .pos_int seq), ("e", .string e), ("p", p)]

end Frame

end Text

/-! ## Reading lines -/

/-- The largest frame that is read, in bytes. -/
def MAX_FRAME_BYTES : Nat := 1024 * 1024

/-- What `spawn_reader` makes of the lines it gets: the frames that it hands on, and
whether it reads on after them. `from_line` is `serde_json::from_str`. -/
def spawn_reader (from_line : List Char → Option Frame) : List (List Char) → List Frame × Bool
  | [] => ([], true)
  | line :: lines =>
    if MAX_FRAME_BYTES < str_len line then ([], false)
    else
      let (frames, reads_on) := spawn_reader from_line lines
      if (DropTicket.trim line).isEmpty then (frames, reads_on)
      else ((from_line line).toList ++ frames, reads_on)

/-- The reader goes on just when no line is over the cap. -/
theorem spawn_reader_reads_on (from_line : List Char → Option Frame) (lines : List (List Char)) :
    (spawn_reader from_line lines).2 = true ↔ ∀ line ∈ lines, str_len line ≤ MAX_FRAME_BYTES := by
  induction lines with
  | nil => simp [spawn_reader]
  | cons line lines ih =>
    rw [List.forall_mem_cons, ← ih, spawn_reader]
    by_cases hlong : MAX_FRAME_BYTES < str_len line
    · have hnot : ¬str_len line ≤ MAX_FRAME_BYTES := by omega
      simp [hlong, hnot]
    · have hshort : str_len line ≤ MAX_FRAME_BYTES := by omega
      by_cases hblank : (DropTicket.trim line).isEmpty
      · simp [hlong, hshort, hblank]
      · simp [hlong, hshort, hblank]

/-! ## Bytes -/

namespace json_text

/-- The bytes of a text between its quotes, and those. -/
def text_cost (s : String) : Nat := (s.toList.map fun c => str_len (table_json.escape c)).sum + 2

/-- The bytes of a list of parts in brackets, given those of the parts. -/
def list_cost (parts : List Nat) : Nat := max 2 ((parts.map (· + 1)).sum + 1)

def number_cost (n : Nat) : Nat := (number n).length

def bool_cost (b : Bool) : Nat := if b then 4 else 5

theorem str_len_nil : str_len [] = 0 := rfl

theorem str_len_append (s s' : List Char) : str_len (s ++ s') = str_len s + str_len s' := by
  simp [str_len]

theorem str_len_cons (c : Char) (s : List Char) : str_len (c :: s) = c.utf8Size + str_len s := by
  simp [str_len]

theorem str_len_text_of (s : String) : str_len (table_json.text_of s) = text_cost s := by
  have hquote : str_len [table_json.quote] = 1 := by decide
  have hbody (l : List Char) : str_len (l.flatMap table_json.escape) =
      (l.map fun c => str_len (table_json.escape c)).sum := by
    induction l with
    | nil => rfl
    | cons c l ih =>
      rw [List.flatMap_cons, str_len_append, ih, List.map_cons, List.sum_cons]
  unfold table_json.text_of text_cost
  rw [← List.singleton_append, str_len_append, str_len_append, hbody, hquote]
  omega

theorem str_len_number (n : Nat) : str_len (number n) = number_cost n := by
  refine DropTicket.str_len_ascii fun c hc => ?_
  have hdigit : c.isDigit = true := Nat.isDigit_of_mem_toDigits (by decide) (by decide) hc
  rw [Char.utf8Size_eq_one_iff, UInt32.le_iff_toNat_le]
  simp only [Char.isDigit, Bool.and_eq_true, decide_eq_true_eq] at hdigit
  exact (UInt32.le_iff_toNat_le.mp hdigit.2).trans (by decide)

/-- A number of 64 bits has twenty digits at most. -/
theorem number_cost_le (n : UInt64) : number_cost n.toNat ≤ 20 := by
  refine (Nat.length_toDigits_le_iff (by decide) (by decide)).mpr ?_
  exact n.toNat_lt.trans_le (by decide)

theorem str_len_commas (parts : List (List Char)) :
    str_len (commas parts) + 2 = list_cost (parts.map str_len) := by
  have hnext (part : List Char) (parts : List (List Char)) :
      str_len (commas (part :: parts)) + 1 =
        (((part :: parts).map str_len).map (· + 1)).sum := by
    induction parts generalizing part with
    | nil => simp [commas]
    | cons next parts ih =>
      have hstep : commas (part :: next :: parts) = part ++ ',' :: commas (next :: parts) := by
        simp [commas]
      have hcomma : ','.utf8Size = 1 := by decide
      rw [hstep, str_len_append, str_len_cons, hcomma, List.map_cons, List.map_cons, List.sum_cons,
        ← ih next]
      omega
  cases parts with
  | nil => rfl
  | cons part parts =>
    have hsum := hnext part parts
    unfold list_cost
    rw [← hsum]
    omega

theorem str_len_array (items : List (List Char)) :
    str_len (array items) = list_cost (items.map str_len) := by
  have hopen : '['.utf8Size = 1 := by decide
  have hclose : str_len [']'] = 1 := by decide
  unfold array
  rw [str_len_cons, str_len_append, hopen, hclose, ← str_len_commas]
  omega

theorem str_len_object (members : List (List Char)) :
    str_len (object members) = list_cost (members.map str_len) := by
  have hopen : '\x7b'.utf8Size = 1 := by decide
  have hclose : str_len ['\x7d'] = 1 := by decide
  unfold object
  rw [str_len_cons, str_len_append, hopen, hclose, ← str_len_commas]
  omega

theorem str_len_member (key : String) (text : List Char) :
    str_len (member key text) = text_cost key + 1 + str_len text := by
  have hcolon : ':'.utf8Size = 1 := by decide
  unfold member
  rw [str_len_append, str_len_cons, str_len_text_of, hcolon, Nat.add_assoc]

theorem list_cost_cons (part : Nat) (parts : List Nat) :
    list_cost (part :: parts) = part + (parts.map (· + 1)).sum + 2 := by
  unfold list_cost
  rw [List.map_cons, List.sum_cons]
  omega

theorem list_cost_perm {parts parts' : List Nat} (h : parts.Perm parts') :
    list_cost parts = list_cost parts' := by
  unfold list_cost
  rw [(h.map _).sum_eq]

/-! ### Texts -/

theorem text_cost_append (s s' : String) :
    text_cost (s ++ s') + 2 = text_cost s + text_cost s' := by
  unfold text_cost
  rw [String.toList_append, List.map_append, List.sum_append]
  omega

/-- Escaping makes a character at most six times as long. -/
theorem escape_le (c : Char) : str_len (table_json.escape c) ≤ 6 * c.utf8Size := by
  have hpos := c.utf8Size_pos
  have hslash : '\\'.utf8Size = 1 := rfl
  have hshort (letter : Char) (hletter : letter.utf8Size = 1) :
      str_len ['\\', letter] ≤ 6 * c.utf8Size := by
    simp only [str_len_cons, hslash, hletter, str_len_nil]
    omega
  unfold table_json.escape
  split
  · simp only [str_len_cons, hslash, str_len_nil]
    omega
  split
  · exact hshort _ rfl
  split
  · exact hshort _ rfl
  split
  · exact hshort _ rfl
  split
  · exact hshort _ rfl
  split
  · exact hshort _ rfl
  split
  · rename_i hlow
    have hdigit : ∀ n < 16, (hex_digit n).utf8Size = 1 := by decide
    have hhigh := hdigit (c.toNat / 16) (by omega)
    have hrest := hdigit (c.toNat % 16) (by omega)
    have hu : 'u'.utf8Size = 1 := rfl
    have hzero : '0'.utf8Size = 1 := rfl
    simp only [str_len_cons, hslash, hu, hzero, hhigh, hrest, str_len_nil]
    omega
  · simp only [str_len_cons, str_len_nil]
    omega

theorem text_cost_le (s : String) : text_cost s ≤ 6 * str_len s.toList + 2 := by
  have hsum (l : List Char) : (l.map fun c => str_len (table_json.escape c)).sum ≤
      6 * str_len l := by
    induction l with
    | nil => exact Nat.zero_le _
    | cons c l ih =>
      have hc := escape_le c
      rw [List.map_cons, List.sum_cons, str_len_cons]
      omega
  unfold text_cost
  have hchars := hsum s.toList
  omega

/-- A character of one byte that is not escaped. -/
def IsBare (c : Char) : Prop :=
  32 ≤ c.toNat ∧ c.toNat < 128 ∧ c ≠ table_json.quote ∧ c ≠ '\\'

theorem IsBare.escape {c : Char} (h : IsBare c) : table_json.escape c = [c] := by
  obtain ⟨hlow, -, hquote, hslash⟩ := h
  have hnot (control : Char) (hcontrol : control.toNat < 32) : c ≠ control := by
    rintro rfl
    omega
  unfold table_json.escape
  rw [if_neg (fun h => h.elim hquote hslash), if_neg (hnot _ (by decide)),
    if_neg (hnot _ (by decide)), if_neg (hnot _ (by decide)), if_neg (hnot _ (by decide)),
    if_neg (hnot _ (by decide)), if_neg (by omega)]

theorem text_cost_bare {s : String} (h : ∀ c ∈ s.toList, IsBare c) :
    text_cost s = s.toList.length + 2 := by
  have hone : ∀ c ∈ s.toList, str_len (table_json.escape c) = 1 := by
    intro c hc
    have hsize : c.utf8Size = 1 := by
      rw [Char.utf8Size_eq_one_iff, UInt32.le_iff_toNat_le]
      exact Nat.lt_succ_iff.mp (h c hc).2.1
    rw [(h c hc).escape]
    simpa [str_len] using hsize
  unfold text_cost
  rw [List.map_congr_left hone]
  simp

/-- A number as a text. -/
theorem text_cost_decimal (n : Nat) : text_cost (toString n) = number_cost n + 2 := by
  have hlist : (toString n).toList = number n := Nat.toList_repr
  have hbare : ∀ c ∈ (toString n).toList, IsBare c := by
    intro c hc
    rw [hlist] at hc
    have hdigit := Nat.isDigit_of_mem_toDigits (by decide) (by decide) hc
    have hrange : 48 ≤ c.toNat ∧ c.toNat ≤ 57 := by
      simp only [Char.isDigit, Bool.and_eq_true, decide_eq_true_eq, ge_iff_le] at hdigit
      exact ⟨hdigit.1, hdigit.2⟩
    have hnot (other : Char) (hother : other.toNat < 48 ∨ 57 < other.toNat) : c ≠ other := by
      rintro rfl
      omega
    exact ⟨by omega, by omega, hnot _ (by decide), hnot _ (by decide)⟩
  rw [text_cost_bare hbare, hlist]
  rfl

end json_text

open json_text

/-! ## The bytes of a value -/

section Costs

variable (write_f64 : UInt64 → List Char)

namespace Value

theorem texts_eq (items : List Value) :
    Value.texts write_f64 items = items.map (text write_f64) := by
  induction items with
  | nil => rfl
  | cons item items ih => rw [Value.texts, ih, List.map_cons]

theorem entries_eq (fields : List (String × Value)) : Value.entries write_f64 fields =
    fields.map fun field => (field.1, field.2.text write_f64) := by
  induction fields with
  | nil => rfl
  | cons field fields ih => rw [Value.entries, ih, List.map_cons]

/-- The bytes of a value as JSON. -/
def cost (value : Value) : Nat := str_len (value.text write_f64)

@[simp] theorem cost_null : cost write_f64 .null = 4 := rfl

@[simp] theorem cost_bool (b : Bool) : cost write_f64 (.bool b) = bool_cost b := by
  cases b <;> rfl

@[simp] theorem cost_pos_int (n : UInt64) : cost write_f64 (.pos_int n) = number_cost n.toNat :=
  str_len_number _

@[simp] theorem cost_string (s : String) : cost write_f64 (.string s) = text_cost s :=
  str_len_text_of s

@[simp] theorem cost_array (items : List Value) :
    cost write_f64 (.array items) = list_cost (items.map (cost write_f64)) := by
  unfold cost
  rw [text, texts_eq, str_len_array, List.map_map]
  rfl

@[simp] theorem cost_object (fields : List (String × Value)) : cost write_f64 (.object fields) =
    list_cost (fields.map fun field => text_cost field.1 + 1 + cost write_f64 field.2) := by
  unfold cost
  rw [text, entries_eq, str_len_object, List.map_map]
  refine (list_cost_perm ((List.perm_insertionSort _ _).map _)).trans ?_
  rw [List.map_map]
  exact congrArg list_cost (List.map_congr_left fun field _ => str_len_member _ _)

/-- Beside its key and value, an entry takes a colon and a comma or bracket. -/
theorem cost_fields (field : String × Value) (fields : List (String × Value)) :
    cost write_f64 (.object (field :: fields)) =
      ((field :: fields).map fun field => text_cost field.1 + cost write_f64 field.2 + 2).sum +
        1 := by
  have hfield (field : String × Value) : text_cost field.1 + 1 + cost write_f64 field.2 + 1 =
      text_cost field.1 + cost write_f64 field.2 + 2 := by omega
  rw [cost_object, List.map_cons, list_cost_cons, List.map_map, List.map_cons, List.sum_cons]
  simp only [Function.comp_def, hfield]
  omega

/-- What is around the values of a record is known from its keys. -/
theorem cost_record {field : String × Value} {fields : List (String × Value)} (keys : List String)
    (hkeys : (field :: fields).map Prod.fst = keys) {around : Nat}
    (haround : (keys.map fun key => text_cost key + 2).sum + 1 = around) :
    cost write_f64 (.object (field :: fields)) =
      around + ((field :: fields).map fun field => cost write_f64 field.2).sum := by
  have hsplit (l : List (String × Value)) :
      (l.map fun field => text_cost field.1 + cost write_f64 field.2 + 2).sum =
        ((l.map Prod.fst).map fun key => text_cost key + 2).sum +
          (l.map fun field => cost write_f64 field.2).sum := by
    rw [List.map_map, ← List.sum_map_add]
    refine congrArg List.sum (List.map_congr_left fun field _ => ?_)
    dsimp only [Function.comp_apply]
    omega
  rw [cost_fields, hsplit, hkeys, ← haround]
  omega

end Value

namespace Frame

theorem line_cost (t : String) (fields : List (String × Value)) :
    str_len (line write_f64 t fields) =
      text_cost t + (fields.map fun field => text_cost field.1 + field.2.cost write_f64 + 2).sum +
        6 := by
  have htag : text_cost "t" = 3 := rfl
  have hfield (field : String × Value) :
      str_len (member field.1 (field.2.text write_f64)) + 1 =
        text_cost field.1 + field.2.cost write_f64 + 2 := by
    rw [str_len_member]
    unfold Value.cost
    omega
  have hfirst : str_len (member "t" ((Value.string t).text write_f64)) = text_cost t + 4 := by
    rw [str_len_member, Value.text, str_len_text_of, htag]
    omega
  unfold line
  rw [str_len_object, List.map_map, List.map_cons, list_cost_cons, List.map_map,
    Function.comp_apply, hfirst]
  simp only [Function.comp_def, hfield]
  omega

/-- The bytes of a frame as a line. -/
def cost : Frame → Nat
  | .Req id m p => 27 + number_cost id.toNat + text_cost m + p.cost write_f64
  | .Res id p => 22 + number_cost id.toNat + p.cost write_f64
  | .Err id code msg => 32 + number_cost id.toNat + text_cost code + text_cost msg
  | .Ask id q p => 27 + number_cost id.toNat + text_cost q + p.cost write_f64
  | .Ev seq e p => 27 + number_cost seq.toNat + text_cost e + p.cost write_f64

theorem str_len_to_line (frame : Frame) :
    str_len (frame.to_line write_f64) = frame.cost write_f64 := by
  cases frame with
  | Req id m p =>
    have hkeys : text_cost "req" + text_cost "id" + text_cost "m" + text_cost "p" = 15 := rfl
    simp only [to_line, cost, line_cost, List.map_cons, List.map_nil, List.sum_cons, List.sum_nil,
      Value.cost_pos_int, Value.cost_string]
    omega
  | Res id p =>
    have hkeys : text_cost "res" + text_cost "id" + text_cost "p" = 12 := rfl
    simp only [to_line, cost, line_cost, List.map_cons, List.map_nil, List.sum_cons, List.sum_nil,
      Value.cost_pos_int]
    omega
  | Err id code msg =>
    have hkeys : text_cost "err" + text_cost "id" + text_cost "code" + text_cost "msg" = 20 := rfl
    simp only [to_line, cost, line_cost, List.map_cons, List.map_nil, List.sum_cons, List.sum_nil,
      Value.cost_pos_int, Value.cost_string]
    omega
  | Ask id q p =>
    have hkeys : text_cost "ask" + text_cost "id" + text_cost "q" + text_cost "p" = 15 := rfl
    simp only [to_line, cost, line_cost, List.map_cons, List.map_nil, List.sum_cons, List.sum_nil,
      Value.cost_pos_int, Value.cost_string]
    omega
  | Ev seq e p =>
    have hkeys : text_cost "ev" + text_cost "seq" + text_cost "e" + text_cost "p" = 15 := rfl
    simp only [to_line, cost, line_cost, List.map_cons, List.map_nil, List.sum_cons, List.sum_nil,
      Value.cost_pos_int, Value.cost_string]
    omega

/-- The client takes the frame. -/
def Readable (frame : Frame) : Prop := str_len (frame.to_line write_f64) ≤ MAX_FRAME_BYTES

theorem readable_iff (frame : Frame) :
    frame.Readable write_f64 ↔ frame.cost write_f64 ≤ MAX_FRAME_BYTES := by
  unfold Readable
  rw [str_len_to_line]

end Frame

end Costs

end iroh_drop
