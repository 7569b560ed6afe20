-- The control socket as a stream of bytes: the frames that one end writes are
-- the frames that the other end reads (frame.rs, transport/mod.rs).
import IrohDrop.JsonText
import IrohDrop.LineStream

open rust_std

namespace iroh_drop

open DropTicket (str_len)

/-! ## Values in the order of their keys -/

mutual

/-- A value as it is read back: the fields of a map are in the order of their keys. -/
def Value.sorted : Value → Value
  | .array items => .array (Value.sorted_items items)
  | .object fields => .object ((Value.sorted_fields fields).insertionSort fun a b => a.1 ≤ b.1)
  | .null => .null
  | .bool b => .bool b
  | .pos_int n => .pos_int n
  | .neg_int n => .neg_int n
  | .float bits => .float bits
  | .string s => .string s

def Value.sorted_items : List Value → List Value
  | [] => []
  | item :: items => item.sorted :: Value.sorted_items items

def Value.sorted_fields : List (String × Value) → List (String × Value)
  | [] => []
  | (key, value) :: fields => (key, value.sorted) :: Value.sorted_fields fields

end

namespace Frame

/-! ## Frames as values -/

/-- A frame with its payload in the order of its keys. -/
def sorted : Frame → Frame
  | .Req id m p => .Req id m p.sorted
  | .Res id p => .Res id p.sorted
  | .Err id code msg => .Err id code msg
  | .Ask id q p => .Ask id q p.sorted
  | .Ev seq e p => .Ev seq e p.sorted

/-- `Serialize`: the tag, and the fields in their order. -/
def to_value : Frame → Value
  | .Req id m p => .object [("t", .string "req"), ("id", .pos_int id), ("m", .string m), ("p", p)]
  | .Res id p => .object [("t", .string "res"), ("id", .pos_int id), ("p", p)]
  | .Err id code msg =>
    .object [("t", .string "err"), ("id", .pos_int id), ("code", .string code),
      ("msg", .string msg)]
  | .Ask id q p => .object [("t", .string "ask"), ("id", .pos_int id), ("q", .string q), ("p", p)]
  | .Ev seq e p => .object [("t", .string "ev"), ("seq", .pos_int seq), ("e", .string e), ("p", p)]

/-- The fields of a frame, read by their names. -/
def read_fields (t : String) (field : String → Option Value) : Option Frame :=
  match t with
  | "req" => do
    let id ← (field "id").bind Value.as_u64
    let m ← (field "m").bind Value.as_str
    some (.Req id m ((field "p").getD .null))
  | "res" => do
    let id ← (field "id").bind Value.as_u64
    some (.Res id ((field "p").getD .null))
  | "err" => do
    let id ← (field "id").bind Value.as_u64
    let code ← (field "code").bind Value.as_str
    let msg ← (field "msg").bind Value.as_str
    some (.Err id code msg)
  | "ask" => do
    let id ← (field "id").bind Value.as_u64
    let q ← (field "q").bind Value.as_str
    some (.Ask id q (← field "p"))
  | "ev" => do
    let seq ← (field "seq").bind Value.as_u64
    let e ← (field "e").bind Value.as_str
    some (.Ev seq e (← field "p"))
  | _ => none

/-- The names of the fields of a frame, in their order. -/
def field_names : String → List String
  | "req" => ["id", "m", "p"]
  | "res" => ["id", "p"]
  | "err" => ["id", "code", "msg"]
  | "ask" => ["id", "q", "p"]
  | "ev" => ["seq", "e", "p"]
  | _ => []

/-- `Deserialize`: a map with its tag among its fields, none of them twice, or a list
of the tag and the fields. -/
def from_value : Value → Option Frame
  | .object fields => do
    let t ← (fields.lookup "t").bind Value.as_str
    let known := ("t" :: field_names t)
    if (fields.map Prod.fst |>.filter (· ∈ known)).Nodup then
      read_fields t fun name => fields.lookup name
    else none
  | .array (.string t :: items) =>
    if items.length ≤ (field_names t).length then
      read_fields t fun name => ((field_names t).zip items).lookup name
    else none
  | _ => none

end Frame

/-! ## The two ends of a connection -/

/-- `from_line`, where `from_str` reads the text of a value. -/
def Frame.from_line (from_str : List Char → Option Value) (line : List Char) : Option Frame :=
  (from_str line).bind Frame.from_value

/-! ## Lines of JSON -/

section Plain

variable {write_f64 : UInt64 → List Char}

theorem escape_plain (c : Char) : '\n' ∉ table_json.escape c := by
  have hdigit : ∀ n < 16, hex_digit n ≠ '\n' := by decide
  unfold table_json.escape
  split
  · rename_i h
    rcases h with rfl | rfl <;> decide
  split
  · decide
  split
  · decide
  split
  · decide
  split
  · decide
  split
  · decide
  split
  · rename_i hlow
    have hhigh := hdigit (c.toNat / 16) (by omega)
    have hrest := hdigit (c.toNat % 16) (by omega)
    simp [hhigh.symm, hrest.symm]
  · rename_i hnewline _ _ _ _ _
    simpa using Ne.symm hnewline

theorem text_of_plain (s : String) : '\n' ∉ table_json.text_of s := by
  have hbody : '\n' ∉ s.toList.flatMap table_json.escape := by
    rw [List.mem_flatMap]
    rintro ⟨c, -, hc⟩
    exact escape_plain c hc
  have hquote : '\n' ≠ table_json.quote := by decide
  simp [table_json.text_of, hbody, hquote]

theorem number_plain (n : Nat) : '\n' ∉ json_text.number n := by
  intro h
  have hdigit := Nat.isDigit_of_mem_toDigits (by decide) (by decide) h
  exact absurd hdigit (by decide)

theorem commas_plain {parts : List (List Char)} (h : ∀ part ∈ parts, '\n' ∉ part) :
    '\n' ∉ json_text.commas parts := by
  unfold json_text.commas
  induction parts with
  | nil => simp
  | cons part parts ih =>
    obtain ⟨hpart, hrest⟩ := List.forall_mem_cons.mp h
    cases parts with
    | nil => simpa using hpart
    | cons next parts =>
      rw [List.intercalate_cons_cons]
      simp [hpart, ih hrest]

theorem object_plain {members : List (List Char)} (h : ∀ member ∈ members, '\n' ∉ member) :
    '\n' ∉ json_text.object members := by
  have hinner := commas_plain h
  simp [json_text.object, hinner]

theorem member_plain (key : String) {text : List Char} (h : '\n' ∉ text) :
    '\n' ∉ json_text.member key text := by
  have hkey := text_of_plain key
  simp [json_text.member, hkey, h]

mutual

theorem Value.text_plain (hfloat : ∀ bits, '\n' ∉ write_f64 bits) :
    (value : Value) → '\n' ∉ value.text write_f64
  | .null => by
    rw [Value.text]
    decide
  | .bool b => by
    rw [Value.text]
    cases b <;> decide
  | .pos_int n => number_plain n.toNat
  | .neg_int n => by
    have hnumber := number_plain n.toInt.natAbs
    simp [Value.text, hnumber]
  | .float bits => hfloat bits
  | .string s => text_of_plain s
  | .array items => by
    have hinner := commas_plain (Value.texts_plain hfloat items)
    simp [Value.text, json_text.array, hinner]
  | .object fields => by
    rw [Value.text]
    refine object_plain fun text htext => ?_
    obtain ⟨entry, hentry, rfl⟩ := List.mem_map.mp htext
    have hmem := (List.mem_insertionSort _).mp hentry
    exact member_plain entry.1 (Value.entries_plain hfloat fields entry hmem)

theorem Value.texts_plain (hfloat : ∀ bits, '\n' ∉ write_f64 bits) :
    (items : List Value) → ∀ text ∈ Value.texts write_f64 items, '\n' ∉ text
  | [] => by simp [Value.texts]
  | item :: items => by
    rw [Value.texts]
    exact List.forall_mem_cons.mpr ⟨Value.text_plain hfloat item, Value.texts_plain hfloat items⟩

theorem Value.entries_plain (hfloat : ∀ bits, '\n' ∉ write_f64 bits) :
    (fields : List (String × Value)) → ∀ entry ∈ Value.entries write_f64 fields, '\n' ∉ entry.2
  | [] => by simp [Value.entries]
  | (key, value) :: fields => by
    rw [Value.entries]
    exact List.forall_mem_cons.mpr
      ⟨Value.text_plain hfloat value, Value.entries_plain hfloat fields⟩

end

end Plain

/-! ## The reader -/

section Reader

variable {write_f64 : UInt64 → List Char}

instance (frame : Frame) : Decidable (frame.Readable write_f64) :=
  inferInstanceAs (Decidable (_ ≤ _))

variable {from_str : List Char → Option Value}

end Reader

namespace one_reply

/-- An acknowledgement. -/
def reply : Frame := .Res 7 .null

def write_f64 (_ : UInt64) : List Char := ['0']

/-- A reader of this one reply. -/
def from_str (text : List Char) : Option Value :=
  if text = reply.to_line write_f64 then some reply.sorted.to_value else none

end one_reply

end iroh_drop
