-- The store of a daemon beside its blobs: the table of its drops, and the
-- retained frames of each (persist.rs).
import IrohDrop.Inventory
import IrohDrop.ManifestPaths
import IrohDrop.KeptTickets
import IrohDrop.Volume

open rust_std postcard volume

namespace iroh_drop

/-! ## Rows -/

/-- A row of the table. -/
structure PersistedDrop where
  handle : String
  name : Option String
  mine : Bool
  ticket : String
deriving DecidableEq

/-- What the store takes from `serde_json`. Texts and flags always serialise. -/
class TableJson where
  to_vec_pretty : List PersistedDrop → Bytes
  from_slice : Bytes → Option (List PersistedDrop)

/-- A table that was serialised reads back. -/
def TableJson.ReadsBack [TableJson] : Prop :=
  ∀ drops, from_slice (to_vec_pretty drops) = some drops

/-! ## Files -/

inductive Stem where
  | drops
  | frames (topic : TopicId)
deriving DecidableEq

inductive Extension where
  | json
  | bin
  | tmp
deriving DecidableEq

/-- The name of a file in the directory of the store. -/
structure DataFile where
  stem : Stem
  extension : Extension
deriving DecidableEq

/-- `Path::with_extension`. -/
def DataFile.with_extension (self : DataFile) (extension : Extension) : DataFile :=
  { self with extension }

namespace DropStore

def table_path : DataFile := ⟨.drops, .json⟩

def frames_path (topic : TopicId) : DataFile := ⟨.frames topic, .bin⟩

def frames_codec : Codec (List Bytes) := .list .bytes

/-- A file that is missing or does not parse is an empty table. -/
def load_table [TableJson] (dir : Volume DataFile UInt8) : List PersistedDrop :=
  match dir.read table_path with
  | none => []
  | some bytes => (TableJson.from_slice bytes).getD []

def load_frames (dir : Volume DataFile UInt8) (topic : TopicId) : List Bytes :=
  match dir.read (frames_path topic) with
  | none => []
  | some bytes =>
    match frames_codec.read bytes with
    | .ok (frames, _rest) => frames
    | .error _ => []

def remove_drop (dir : Volume DataFile UInt8) (topic : TopicId) : Volume DataFile UInt8 :=
  dir.remove (frames_path topic)

/-- One file operation of `write_private`, and the one that comes next. -/
def write_private (path : DataFile) (bytes : Bytes) (dir : Volume DataFile UInt8) (phase : Phase) :
    Volume DataFile UInt8 × Option Phase :=
  phase.step (path.with_extension .tmp) path bytes dir

/-- `write_private` of the table. -/
def save_table [TableJson] (drops : List PersistedDrop) (dir : Volume DataFile UInt8)
    (phase : Phase) : Volume DataFile UInt8 × Option Phase :=
  write_private table_path (TableJson.to_vec_pretty drops) dir phase

/-- `write_private` of the frames of one drop. -/
def save_frames (topic : TopicId) (frames : List Bytes) (dir : Volume DataFile UInt8)
    (phase : Phase) : Volume DataFile UInt8 × Option Phase :=
  write_private (frames_path topic) (frames_codec.write frames) dir phase

/-! ## Laws of the files -/

theorem table_plain (other : DataFile) : table_path ≠ other.with_extension .tmp :=
  fun h => nomatch congrArg DataFile.extension h

theorem frames_plain (topic : TopicId) (other : DataFile) :
    frames_path topic ≠ other.with_extension .tmp :=
  fun h => nomatch congrArg DataFile.extension h

theorem table_ne_frames (topic : TopicId) : table_path ≠ frames_path topic :=
  fun h => nomatch congrArg DataFile.stem h

theorem frames_inj {topic topic' : TopicId}
    (h : frames_path topic = frames_path topic') : topic = topic' := by
  cases h
  rfl

/-- Only the rename is the last step. -/
theorem goes_on {path : DataFile} {bytes : Bytes} {dir : Volume DataFile UInt8} {phase next : Phase}
    (h : (write_private path bytes dir phase).2 = some next) : phase ≠ .rename := by
  rintro rfl
  cases h

theorem done {path : DataFile} {bytes : Bytes} {dir : Volume DataFile UInt8} {phase : Phase}
    (h : (write_private path bytes dir phase).2 = none) : phase = .rename := by
  cases phase with
  | create => cases h
  | write i => cases h
  | rename => rfl

end DropStore

/-! ## The text of a table -/

namespace table_json

def quote : Char := '\x22'

/-- A character as it stands between quotes. -/
def escape (c : Char) : List Char :=
  if c = quote ∨ c = '\\' then ['\\', c]
  else if c = '\n' then ['\\', 'n']
  else if c = '\r' then ['\\', 'r']
  else if c = '\t' then ['\\', 't']
  else if c = '\x08' then ['\\', 'b']
  else if c = '\x0c' then ['\\', 'f']
  else if c.toNat < 32 then
    ['\\', 'u', '0', '0', hex_digit (c.toNat / 16), hex_digit (c.toNat % 16)]
  else [c]

def text_of (s : String) : List Char := quote :: (s.toList.flatMap escape ++ [quote])

def lead_handle : List Char := "  \x7b\n    \"handle\": ".toList
def lead_name : List Char := ",\n    \"name\": ".toList
def lead_mine : List Char := ",\n    \"mine\": ".toList
def lead_ticket : List Char := ",\n    \"ticket\": ".toList
def row_end : List Char := "\n  \x7d".toList
def null : List Char := "null".toList

def text_of_row (row : PersistedDrop) : List Char :=
  lead_handle ++ (text_of row.handle ++ (lead_name ++ ((row.name.map text_of).getD null ++
    (lead_mine ++ ((toString row.mine).toList ++
      (lead_ticket ++ (text_of row.ticket ++ row_end)))))))

/-- The rows after the first one, and the end of the table. -/
def text_of_rows : List PersistedDrop → List Char
  | [] => "\n]".toList
  | row :: rows => ",\n".toList ++ (text_of_row row ++ text_of_rows rows)

/-- A table, indented by two. -/
def text_of_table : List PersistedDrop → List Char
  | [] => "[]".toList
  | row :: rows => "[\n".toList ++ (text_of_row row ++ text_of_rows rows)

/-! ## Reading it -/

def expect (lead s : List Char) : Option (List Char) := DropTicket.strip_prefix lead s

/-- One character between quotes. -/
def read_char : List Char → Option (Char × List Char)
  | '\\' :: 'n' :: rest => some ('\n', rest)
  | '\\' :: 'r' :: rest => some ('\r', rest)
  | '\\' :: 't' :: rest => some ('\t', rest)
  | '\\' :: 'b' :: rest => some ('\x08', rest)
  | '\\' :: 'f' :: rest => some ('\x0c', rest)
  | '\\' :: 'u' :: '0' :: '0' :: hi :: lo :: rest =>
    match hex_value hi, hex_value lo with
    | some hi, some lo => some (Char.ofNat (16 * hi + lo), rest)
    | _, _ => none
  | '\\' :: c :: rest => some (c, rest)
  | c :: rest => some (c, rest)
  | [] => none

/-- Up to the closing quote, `fuel` characters at most. -/
def read_chars : Nat → List Char → Option (List Char × List Char)
  | 0, _ => none
  | fuel + 1, s =>
    if s.head? = some quote then some ([], s.tail)
    else do
      let (c, rest) ← read_char s
      let (chars, rest) ← read_chars fuel rest
      return (c :: chars, rest)

def read_text (s : List Char) : Option (String × List Char) := do
  let rest ← expect [quote] s
  let (chars, rest) ← read_chars rest.length rest
  return (String.ofList chars, rest)

def read_name (s : List Char) : Option (Option String × List Char) :=
  match expect null s with
  | some rest => some (none, rest)
  | none => do
    let (name, rest) ← read_text s
    return (some name, rest)

def read_flag (s : List Char) : Option (Bool × List Char) :=
  match expect "true".toList s with
  | some rest => some (true, rest)
  | none => do
    let rest ← expect "false".toList s
    return (false, rest)

def read_row (s : List Char) : Option (PersistedDrop × List Char) := do
  let s ← expect lead_handle s
  let (handle, s) ← read_text s
  let s ← expect lead_name s
  let (name, s) ← read_name s
  let s ← expect lead_mine s
  let (mine, s) ← read_flag s
  let s ← expect lead_ticket s
  let (ticket, s) ← read_text s
  let s ← expect row_end s
  return ({ handle, name, mine, ticket }, s)

/-- The rows after the first one, `fuel` at most. -/
def read_rows : Nat → List Char → Option (List PersistedDrop)
  | 0, _ => none
  | fuel + 1, s =>
    if s = "\n]".toList then some []
    else do
      let s ← expect ",\n".toList s
      let (row, s) ← read_row s
      let rows ← read_rows fuel s
      return row :: rows

def read_table (s : List Char) : Option (List PersistedDrop) :=
  if s = "[]".toList then some []
  else do
    let s ← expect "[\n".toList s
    let (row, s) ← read_row s
    let rows ← read_rows s.length s
    return row :: rows

end table_json

/-- The text that `serde_json` writes, and a reader that takes no other. -/
@[reducible] def TableJson.pretty : TableJson where
  to_vec_pretty drops := (String.ofList (table_json.text_of_table drops)).toByteArray.data.toList
  from_slice bytes :=
    (String.fromUTF8? ⟨bytes.toArray⟩).bind fun s => table_json.read_table s.toList

/-! ## What was written reads back -/

namespace table_json

theorem expect_append (lead s : List Char) : expect lead (lead ++ s) = some s := by
  unfold expect DropTicket.strip_prefix
  rw [if_pos (List.prefix_append _ _), List.drop_left]

theorem expect_none {lead s : List Char} {c d : Char} (hlead : lead.head? = some c)
    (hs : s.head? = some d) (hne : c ≠ d) : expect lead s = none := by
  unfold expect DropTicket.strip_prefix
  rw [if_neg]
  rintro ⟨rest, rfl⟩
  cases lead with
  | nil => cases hlead
  | cons a lead =>
    cases hlead
    cases hs
    exact hne rfl

/-- A control character goes by its number. -/
theorem escape_control (c : Char) (h : c.toNat < 32) :
    ∀ rest, read_char (['\\', 'u', '0', '0', hex_digit (c.toNat / 16), hex_digit (c.toNat % 16)] ++
      rest) = some (c, rest) := by
  intro rest
  have hhi := (hex_value_digit (c.toNat / 16) (by omega)).1
  have hlo := (hex_value_digit (c.toNat % 16) (by omega)).1
  simp only [List.cons_append, List.nil_append, read_char, hhi, hlo]
  rw [Nat.div_add_mod, Char.ofNat_toNat]

theorem read_escape (c : Char) (rest : List Char) :
    read_char (escape c ++ rest) = some (c, rest) := by
  unfold escape
  split
  · rename_i h
    rcases h with rfl | rfl <;> rfl
  split
  · rename_i h
    rw [h]
    rfl
  split
  · rename_i h
    rw [h]
    rfl
  split
  · rename_i h
    rw [h]
    rfl
  split
  · rename_i h
    rw [h]
    rfl
  split
  · rename_i h
    rw [h]
    rfl
  split
  · rename_i h
    exact escape_control c h rest
  · rename_i h _ _ _ _ _ _
    have hslash : c ≠ '\\' := fun heq => h (.inr heq)
    unfold read_char
    split <;> simp_all

theorem escape_head (c : Char) : ∃ head tail, escape c = head :: tail ∧ head ≠ quote := by
  have hslash : '\\' ≠ quote := by decide
  unfold escape
  split
  · exact ⟨_, _, rfl, hslash⟩
  rename_i h
  split
  · exact ⟨_, _, rfl, hslash⟩
  split
  · exact ⟨_, _, rfl, hslash⟩
  split
  · exact ⟨_, _, rfl, hslash⟩
  split
  · exact ⟨_, _, rfl, hslash⟩
  split
  · exact ⟨_, _, rfl, hslash⟩
  split
  · exact ⟨_, _, rfl, hslash⟩
  · exact ⟨c, [], rfl, fun heq => h (.inl heq)⟩

theorem read_chars_escape (chars rest : List Char) (fuel : Nat) (h : chars.length < fuel) :
    read_chars fuel (chars.flatMap escape ++ quote :: rest) = some (chars, rest) := by
  induction chars generalizing fuel with
  | nil =>
    obtain ⟨fuel, rfl⟩ := Nat.exists_eq_add_one_of_ne_zero (Nat.ne_zero_of_lt h)
    rfl
  | cons c chars ih =>
    obtain ⟨fuel, rfl⟩ := Nat.exists_eq_add_one_of_ne_zero (Nat.ne_zero_of_lt h)
    obtain ⟨head, tail, hescape, hne⟩ := escape_head c
    have hhead : (escape c ++ (chars.flatMap escape ++ quote :: rest)).head? ≠ some quote := by
      rw [hescape]
      exact fun heq => hne (Option.some.inj heq)
    rw [List.flatMap_cons, List.append_assoc]
    unfold read_chars
    rw [if_neg hhead, read_escape]
    simp only [Option.bind_eq_bind, Option.bind_some]
    rw [ih fuel (Nat.lt_of_succ_lt_succ h)]
    rfl

theorem length_le_escaped (chars : List Char) : chars.length ≤ (chars.flatMap escape).length := by
  induction chars with
  | nil => exact Nat.le_refl _
  | cons c chars ih =>
    obtain ⟨head, tail, hescape, -⟩ := escape_head c
    rw [List.flatMap_cons, List.length_append, hescape, List.length_cons, List.length_cons]
    omega

theorem read_text_of (s : String) (rest : List Char) :
    read_text (text_of s ++ rest) = some (s, rest) := by
  have hlong := length_le_escaped s.toList
  have hsplit : text_of s ++ rest = [quote] ++ (s.toList.flatMap escape ++ quote :: rest) := by
    unfold text_of
    simp
  have hfuel : s.toList.length < (s.toList.flatMap escape ++ quote :: rest).length := by
    rw [List.length_append, List.length_cons]
    omega
  unfold read_text
  rw [hsplit, expect_append]
  simp only [Option.bind_eq_bind, Option.bind_some]
  rw [read_chars_escape _ _ _ hfuel]
  simp

theorem read_name_of (name : Option String) (rest : List Char) :
    read_name ((name.map text_of).getD null ++ rest) = some (name, rest) := by
  unfold read_name
  cases name with
  | none =>
    simp only [Option.map_none, Option.getD_none]
    rw [expect_append]
  | some name =>
    simp only [Option.map_some, Option.getD_some]
    have hnone : expect null (text_of name ++ rest) = none :=
      expect_none (c := 'n') (d := quote) (by decide) rfl (by decide)
    rw [hnone, read_text_of]
    rfl

theorem read_flag_of (flag : Bool) (rest : List Char) :
    read_flag ((toString flag).toList ++ rest) = some (flag, rest) := by
  unfold read_flag
  cases flag with
  | true =>
    rw [show toString true = "true" from rfl, expect_append]
  | false =>
    have hnone : expect "true".toList ((toString false).toList ++ rest) = none :=
      expect_none (c := 't') (d := 'f') (by decide) (by
        rw [List.head?_append_of_ne_nil _ (by decide)]
        decide) (by decide)
    rw [hnone, show toString false = "false" from rfl, expect_append]
    rfl

theorem read_row_of (row : PersistedDrop) (rest : List Char) :
    read_row (text_of_row row ++ rest) = some (row, rest) := by
  unfold read_row text_of_row
  simp only [List.append_assoc, expect_append, read_text_of, read_name_of, read_flag_of,
    Option.bind_eq_bind, Option.bind_some, pure]

theorem read_rows_of (rows : List PersistedDrop) (fuel : Nat) (h : rows.length < fuel) :
    read_rows fuel (text_of_rows rows) = some rows := by
  induction rows generalizing fuel with
  | nil =>
    obtain ⟨fuel, rfl⟩ := Nat.exists_eq_add_one_of_ne_zero (Nat.ne_zero_of_lt h)
    rfl
  | cons row rows ih =>
    obtain ⟨fuel, rfl⟩ := Nat.exists_eq_add_one_of_ne_zero (Nat.ne_zero_of_lt h)
    have hne : text_of_rows (row :: rows) ≠ "\n]".toList := by
      intro heq
      have hhead := congrArg List.head? heq
      exact absurd hhead (by
        unfold text_of_rows
        rw [List.head?_append_of_ne_nil _ (by decide)]
        decide)
    unfold read_rows
    rw [if_neg hne]
    unfold text_of_rows
    simp only [expect_append, read_row_of, Option.bind_eq_bind, Option.bind_some]
    rw [ih fuel (Nat.lt_of_succ_lt_succ h)]
    rfl

theorem length_lt_rows (rows : List PersistedDrop) : rows.length < (text_of_rows rows).length := by
  induction rows with
  | nil => decide
  | cons row rows ih =>
    have hlead : (",\n".toList).length = 2 := by decide
    unfold text_of_rows
    rw [List.length_cons, List.length_append, List.length_append, hlead]
    omega

theorem read_table_of (drops : List PersistedDrop) :
    read_table (text_of_table drops) = some drops := by
  cases drops with
  | nil => rfl
  | cons row rows =>
    have hne : text_of_table (row :: rows) ≠ "[]".toList := by
      intro heq
      have hopen : "[\n".toList = ['[', '\n'] := by decide
      have hempty : "[]".toList = ['[', ']'] := by decide
      unfold text_of_table at heq
      rw [hopen, hempty] at heq
      have hsecond : '\n' = ']' := (List.cons.inj (List.cons.inj heq).2).1
      exact absurd hsecond (by decide)
    unfold read_table
    rw [if_neg hne]
    unfold text_of_table
    simp only [expect_append, read_row_of, Option.bind_eq_bind, Option.bind_some]
    rw [read_rows_of rows _ (length_lt_rows rows)]
    rfl

end table_json

namespace table_json

theorem fromUTF8_bytes (s : String) :
    String.fromUTF8? ⟨s.toByteArray.data.toList.toArray⟩ = some s := by
  unfold String.fromUTF8?
  rw [dif_pos (by simpa using s.isValidUTF8)]
  rfl

theorem bytes_ofList (s : List Char) :
    (String.ofList s).toByteArray.data.toList = s.flatMap String.utf8EncodeChar := by
  rw [String.toByteArray_ofList, List.utf8Encode]
  simp

/-- A byte below 128 is a character of its own. -/
theorem utf8_ascii {b : UInt8} (h : b < 128) :
    String.utf8EncodeChar (Char.ofNat b.toNat) = [b] := by
  have hall : ∀ n : Fin 128, String.utf8EncodeChar (Char.ofNat (UInt8.ofNat n.val).toNat) =
      [UInt8.ofNat n.val] := by decide
  have hb := hall ⟨b.toNat, UInt8.lt_iff_toNat_lt.mp h⟩
  simpa using hb

theorem bytes_ascii {bytes : Bytes} (h : ∀ b ∈ bytes, b < 128) :
    bytes.flatMap (fun b => String.utf8EncodeChar (Char.ofNat b.toNat)) = bytes := by
  induction bytes with
  | nil => rfl
  | cons b rest ih =>
    simp only [List.forall_mem_cons] at h
    rw [List.flatMap_cons, utf8_ascii h.1, ih h.2]
    rfl

end table_json

theorem TableJson.pretty_reads_back : @TableJson.ReadsBack TableJson.pretty := by
  intro drops
  change (String.fromUTF8? ⟨((String.ofList (table_json.text_of_table
    drops)).toByteArray.data.toList).toArray⟩).bind _ = some drops
  rw [table_json.fromUTF8_bytes, Option.bind_some, String.toList_ofList]
  exact table_json.read_table_of drops

/-- `TableJson.pretty` as the kernel runs it: a text of single bytes is not decoded. -/
@[reducible] def TableJson.ascii : TableJson where
  to_vec_pretty drops := (table_json.text_of_table drops).flatMap String.utf8EncodeChar
  from_slice bytes :=
    if bytes.all (fun b => decide (b < 128)) then
      table_json.read_table (bytes.map (fun b => Char.ofNat b.toNat))
    else TableJson.pretty.from_slice bytes

theorem TableJson.ascii_eq : TableJson.pretty = TableJson.ascii := by
  have hwrite : TableJson.pretty.to_vec_pretty = TableJson.ascii.to_vec_pretty := by
    funext drops
    exact table_json.bytes_ofList _
  have hread : TableJson.pretty.from_slice = TableJson.ascii.from_slice := by
    funext bytes
    change TableJson.pretty.from_slice bytes = if _ then _ else _
    split
    · rename_i hall
      have hbytes : bytes = (String.ofList
          (bytes.map (fun b => Char.ofNat b.toNat))).toByteArray.data.toList := by
        rw [table_json.bytes_ofList, List.flatMap_map]
        exact (table_json.bytes_ascii (by simpa using hall)).symm
      change (String.fromUTF8? ⟨bytes.toArray⟩).bind _ = _
      rw [show (⟨bytes.toArray⟩ : ByteArray) = ⟨(String.ofList
        (bytes.map (fun b => Char.ofNat b.toNat))).toByteArray.data.toList.toArray⟩ by rw [← hbytes],
        table_json.fromUTF8_bytes, Option.bind_some, String.toList_ofList]
    · rfl
  have heta : ∀ json : TableJson, json = ⟨json.to_vec_pretty, json.from_slice⟩ := fun _ => rfl
  rw [heta TableJson.pretty, heta TableJson.ascii, hwrite, hread]

end iroh_drop
