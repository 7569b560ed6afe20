-- The links of a ticket, and how a ticket is pulled out of a pasted text (service.rs,
-- bridge.rs, lib.rs and main.rs of the control surfaces).
import IrohDrop.TicketTrip

namespace iroh_drop

open DropTicket

/-! ## Links -/

def LINK_SCHEME : List Char := "iroh-drop".toList

def app_link (ticket : List Char) : List Char := LINK_SCHEME ++ "://receive/".toList ++ ticket

/-- `str::trim_end_matches`. -/
def trim_end_matches (c : Char) (s : List Char) : List Char :=
  (s.reverse.dropWhile (fun x => decide (x = c))).reverse

def web_link (base ticket : List Char) : List Char :=
  trim_end_matches '/' base ++ "/#".toList ++ ticket

/-! ## Extraction -/

/-- `str::find` of a text: where it first stands. -/
def find (pat : List Char) : List Char → Option Nat
  | [] => if pat = [] then some 0 else none
  | c :: rest => if pat <+: c :: rest then some 0 else (find pat rest).map (· + 1)

/-- Where either prefix of a ticket first stands. -/
def prefix_start (input : List Char) : Option Nat :=
  ((find TICKET_PREFIX input).toList ++ (find LEGACY_TICKET_PREFIX input).toList).min?

/-- `c.is_ascii_lowercase() || c.is_ascii_digit()`. -/
def is_ticket_char (c : Char) : Bool :=
  decide (('a' ≤ c ∧ c ≤ 'z') ∨ ('0' ≤ c ∧ c ≤ '9'))

namespace gui

def extract_ticket (input : List Char) : Option (List Char) :=
  let input := trim input
  match prefix_start input with
  | none => none
  | some start =>
    let ticket := (input.drop start).takeWhile is_ticket_char
    if str_len ticket > 32 then some ticket else none

end gui

/-- The slice from the first prefix up to the first character that no ticket has. -/
def slice_from_text (input : List Char) : Option (List Char) :=
  match prefix_start input with
  | none => none
  | some start =>
    let end_ := match (input.drop start).findIdx? (fun c => !is_ticket_char c) with
      | none => input.length
      | some offset => start + offset
    let candidate := (input.take end_).drop start
    if str_len candidate > 32 then some candidate else none

namespace mcp

def ticket_from_text (input : List Char) : Option (List Char) := slice_from_text input

end mcp

namespace cli

def ticket_from_text (input : List Char) : Option (List Char) := slice_from_text input

end cli

/-! ## Where a prefix stands -/

/-- A prefix of a ticket stands at this place. -/
def MentionedAt (input : List Char) (i : Nat) : Prop :=
  TICKET_PREFIX <+: input.drop i ∨ LEGACY_TICKET_PREFIX <+: input.drop i

instance (input : List Char) (i : Nat) : Decidable (MentionedAt input i) :=
  inferInstanceAs (Decidable (_ ∨ _))

theorem find_eq_some {pat input : List Char} (hpat : pat ≠ []) {i : Nat} :
    find pat input = some i ↔ pat <+: input.drop i ∧ ∀ j < i, ¬ pat <+: input.drop j := by
  induction input generalizing i with
  | nil =>
    unfold find
    simp [hpat]
  | cons c rest ih =>
    unfold find
    by_cases hhere : pat <+: c :: rest
    · rw [if_pos hhere, Option.some.injEq]
      constructor
      · rintro rfl
        exact ⟨hhere, by omega⟩
      · rintro ⟨-, hbefore⟩
        by_contra hne
        exact hbefore 0 (by omega) hhere
    · rw [if_neg hhere]
      rcases i with _ | i
      · simp [hhere]
      · simp only [Option.map_eq_some_iff, Nat.add_right_cancel_iff, exists_eq_right, ih,
          List.drop_succ_cons]
        constructor
        · rintro ⟨hthere, hbefore⟩
          refine ⟨hthere, ?_⟩
          intro j hj
          rcases j with _ | j
          · exact hhere
          · exact hbefore j (by omega)
        · rintro ⟨hthere, hbefore⟩
          exact ⟨hthere, fun j hj => hbefore (j + 1) (by omega)⟩

theorem find_eq_none {pat input : List Char} (hpat : pat ≠ []) :
    find pat input = none ↔ ∀ i, ¬ pat <+: input.drop i := by
  constructor
  · intro hnone i hi
    have hex : ∃ j, pat <+: input.drop j := ⟨i, hi⟩
    have hfirst : find pat input = some (Nat.find hex) :=
      (find_eq_some hpat).mpr ⟨Nat.find_spec hex, fun _ hj => Nat.find_min hex hj⟩
    rw [hnone] at hfirst
    cases hfirst
  · intro hall
    rcases hfind : find pat input with _ | i
    · rfl
    · exact absurd ((find_eq_some hpat).mp hfind).1 (hall i)

theorem prefixes_ne_nil : TICKET_PREFIX ≠ [] ∧ LEGACY_TICKET_PREFIX ≠ [] := by decide

theorem prefix_start_eq_some {input : List Char} {i : Nat} :
    prefix_start input = some i ↔
      MentionedAt input i ∧ ∀ j < i, ¬ MentionedAt input j := by
  obtain ⟨hnew, hold⟩ := prefixes_ne_nil
  unfold prefix_start MentionedAt
  rcases hfirst : find TICKET_PREFIX input with _ | a <;>
    rcases hsecond : find LEGACY_TICKET_PREFIX input with _ | b
  · have h1 := (find_eq_none hnew).mp hfirst
    have h2 := (find_eq_none hold).mp hsecond
    simp [h1, h2]
  · have h1 := (find_eq_none hnew).mp hfirst
    have h2 : find LEGACY_TICKET_PREFIX input = some i ↔ _ := find_eq_some hold
    simp [h1, ← h2, hsecond]
  · have h1 : find TICKET_PREFIX input = some i ↔ _ := find_eq_some hnew
    have h2 := (find_eq_none hold).mp hsecond
    simp [h2, ← h1, hfirst]
  · obtain ⟨ha, hbeforea⟩ := (find_eq_some hnew).mp hfirst
    obtain ⟨hb, hbeforeb⟩ := (find_eq_some hold).mp hsecond
    have hmin : ([a] ++ [b]).min? = some (min a b) := rfl
    simp only [Option.toList_some, hmin, Option.some.injEq]
    constructor
    · rintro rfl
      refine ⟨?_, ?_⟩
      · rcases Nat.le_total a b with h | h
        · exact .inl (by rwa [Nat.min_eq_left h])
        · exact .inr (by rwa [Nat.min_eq_right h])
      · intro j hj
        rw [not_or]
        exact ⟨hbeforea j (by omega), hbeforeb j (by omega)⟩
    · rintro ⟨hi, hbefore⟩
      have hle : ¬ i < min a b := by
        intro hlt
        rcases hi with h | h
        · exact hbeforea i (by omega) h
        · exact hbeforeb i (by omega) h
      have hge : ¬ min a b < i := by
        intro hlt
        rcases Nat.le_total a b with h | h
        · exact hbefore a (by omega) (.inl ha)
        · exact hbefore b (by omega) (.inr hb)
      omega

theorem prefix_start_eq_none {input : List Char} :
    prefix_start input = none ↔ ∀ i, ¬ MentionedAt input i := by
  constructor
  · intro hnone i hi
    have hex : ∃ j, MentionedAt input j := ⟨i, hi⟩
    have hfirst : prefix_start input = some (Nat.find hex) :=
      prefix_start_eq_some.mpr ⟨Nat.find_spec hex, fun _ hj => Nat.find_min hex hj⟩
    rw [hnone] at hfirst
    cases hfirst
  · intro hall
    rcases hfind : prefix_start input with _ | i
    · rfl
    · exact absurd (prefix_start_eq_some.mp hfind).1 (hall i)

/-! ## What is pulled out -/

/-- The characters of a ticket from some place on. -/
def run_at (input : List Char) (start : Nat) : List Char :=
  (input.drop start).takeWhile is_ticket_char

theorem take_findIdx (p : Char → Bool) (s : List Char) :
    s.take ((s.findIdx? (fun c => !p c)).getD s.length) = s.takeWhile p := by
  induction s with
  | nil => rfl
  | cons c s ih =>
    by_cases hc : p c = true
    · rw [List.takeWhile_cons_of_pos hc, ← ih]
      rcases hfind : s.findIdx? (fun c => !p c) with _ | k <;> simp [List.findIdx?_cons, hc, hfind]
    · simp [List.findIdx?_cons, hc]

theorem slice_from_text_eq (input : List Char) :
    slice_from_text input = (prefix_start input).bind (fun start =>
      if str_len (run_at input start) > 32 then some (run_at input start) else none) := by
  unfold slice_from_text
  rcases prefix_start input with _ | start
  · rfl
  · have hcandidate : (input.take (match (input.drop start).findIdx? (fun c => !is_ticket_char c) with
        | none => input.length
        | some offset => start + offset)).drop start = run_at input start := by
      unfold run_at
      rw [← take_findIdx]
      rcases (input.drop start).findIdx? (fun c => !is_ticket_char c) with _ | offset
      · simp
      · simp [List.drop_take]
    simp only [hcandidate]
    rfl

theorem extract_ticket_eq (input : List Char) :
    gui.extract_ticket input = slice_from_text (trim input) := by
  rw [slice_from_text_eq]
  rcases hfind : prefix_start (trim input) with _ | start <;>
    simp only [gui.extract_ticket, hfind] <;> rfl

theorem mentionedAt_append (before input : List Char) (i : Nat) :
    MentionedAt (before ++ input) (before.length + i) ↔ MentionedAt input i := by
  unfold MentionedAt
  rw [List.drop_length_add_append]

/-- What comes before the first prefix does not matter. -/
theorem slice_append_left {before input : List Char}
    (h : ∀ i < before.length, ¬ MentionedAt (before ++ input) i) :
    slice_from_text (before ++ input) = slice_from_text input := by
  rw [slice_from_text_eq, slice_from_text_eq]
  rcases hfind : prefix_start input with _ | start
  · have hnone : prefix_start (before ++ input) = none := by
      rw [prefix_start_eq_none] at hfind ⊢
      intro i hi
      by_cases hlt : i < before.length
      · exact h i hlt hi
      · refine hfind (i - before.length) ((mentionedAt_append before input _).mp ?_)
        rwa [Nat.add_sub_cancel' (Nat.le_of_not_lt hlt)]
    rw [hnone]
    rfl
  · have hsome : prefix_start (before ++ input) = some (before.length + start) := by
      rw [prefix_start_eq_some] at hfind ⊢
      refine ⟨(mentionedAt_append before input start).mpr hfind.1, ?_⟩
      intro j hj hmention
      by_cases hlt : j < before.length
      · exact h j hlt hmention
      · refine hfind.2 (j - before.length) (by omega) ((mentionedAt_append before input _).mp ?_)
        rwa [Nat.add_sub_cancel' (Nat.le_of_not_lt hlt)]
    have hrun : run_at (before ++ input) (before.length + start) = run_at input start := by
      unfold run_at
      rw [List.drop_length_add_append]
    rw [hsome, Option.bind_some, Option.bind_some, hrun]

/-- A text that begins with another one lies in the front, or reaches past it. -/
theorem prefix_append_cases {pat front back : List Char} (h : pat <+: front ++ back) :
    pat <+: front ∨ ∃ rest, rest ≠ [] ∧ pat = front ++ rest ∧ rest <+: back := by
  rcases List.prefix_or_prefix_of_prefix h (List.prefix_append front back) with hshort | hlong
  · exact .inl hshort
  · obtain ⟨rest, rfl⟩ := hlong
    rcases rest with _ | ⟨c, rest⟩
    · exact .inl (by simp)
    · exact .inr ⟨c :: rest, by simp, rfl, (List.prefix_append_right_inj front).mp h⟩

/-- What follows a prefix does not make another one where it has none of its
characters, or does not go on as it would. -/
theorem mentionedAt_left {front back : List Char} {i : Nat} (hi : i < front.length)
    (h : ∀ c, back.head? = some c → c ∉ TICKET_PREFIX.tail ∧ c ∉ LEGACY_TICKET_PREFIX.tail) :
    MentionedAt (front ++ back) i ↔ MentionedAt front i := by
  have hcons := List.drop_eq_getElem_cons hi
  have hpat : ∀ pat : List Char, (∀ c, back.head? = some c → c ∉ pat.tail) →
      (pat <+: front.drop i ++ back ↔ pat <+: front.drop i) := by
    intro pat hhead
    constructor
    · intro hstarts
      rcases prefix_append_cases hstarts with hshort | ⟨rest, hne, heq, hrest⟩
      · exact hshort
      · rcases rest with _ | ⟨c, rest⟩
        · exact absurd rfl hne
        · obtain ⟨tail, rfl⟩ := hrest
          refine absurd ?_ (hhead c rfl)
          rw [heq, hcons, List.cons_append, List.tail_cons]
          exact List.mem_append_right _ List.mem_cons_self
    · exact fun hstarts => hstarts.trans (List.prefix_append _ _)
  unfold MentionedAt
  rw [List.drop_append_of_le_length hi.le, hpat _ (fun c hc => (h c hc).1),
    hpat _ (fun c hc => (h c hc).2)]

/-- Characters that no ticket has. -/
def Stops (s : List Char) : Prop := ∀ c ∈ s, is_ticket_char c = false

theorem prefix_chars : ∀ c ∈ TICKET_PREFIX ++ LEGACY_TICKET_PREFIX, is_ticket_char c = true := by
  have hall : (TICKET_PREFIX ++ LEGACY_TICKET_PREFIX).all is_ticket_char = true := by decide
  exact List.all_eq_true.mp hall

theorem not_mentionedAt_stop {front back : List Char} (hfront : Stops front) {i : Nat}
    (hi : i < front.length) : ¬ MentionedAt (front ++ back) i := by
  have hcons := List.drop_eq_getElem_cons hi
  have hstop := hfront front[i] (List.getElem_mem hi)
  have hchar := prefix_chars
  unfold MentionedAt
  rw [List.drop_append_of_le_length hi.le, hcons]
  rintro (hstarts | hstarts)
  · have hhead : 'd' = front[i] := (List.cons_prefix_cons.mp hstarts).1
    rw [← hhead] at hstop
    exact absurd hstop (by decide)
  · have hhead : 'd' = front[i] := (List.cons_prefix_cons.mp hstarts).1
    rw [← hhead] at hstop
    exact absurd hstop (by decide)

theorem MentionedAt.lt {input : List Char} {i : Nat} (h : MentionedAt input i) :
    i < input.length := by
  by_contra hge
  unfold MentionedAt at h
  rw [List.drop_eq_nil_of_le (Nat.le_of_not_lt hge), List.prefix_nil, List.prefix_nil] at h
  exact h.elim prefixes_ne_nil.1 prefixes_ne_nil.2

theorem takeWhile_stop {front back : List Char}
    (h : ∀ c, back.head? = some c → is_ticket_char c = false) :
    (front ++ back).takeWhile is_ticket_char = front.takeWhile is_ticket_char := by
  have hback : back.takeWhile is_ticket_char = [] := by
    cases back with
    | nil => rfl
    | cons c back => rw [List.takeWhile_cons_of_neg (by simp [h c rfl])]
  rw [List.takeWhile_append, hback, List.append_nil]
  split
  · rename_i hall
    exact ((List.takeWhile_prefix _).eq_of_length hall).symm
  · rfl

theorem prefix_start_congr {input input' : List Char}
    (h : ∀ i, MentionedAt input i ↔ MentionedAt input' i) :
    prefix_start input = prefix_start input' := by
  ext i
  simp only [prefix_start_eq_some, h]

/-- What comes after the characters of a ticket does not matter. -/
theorem slice_append_right {input after_ : List Char} (h : Stops after_) :
    slice_from_text (input ++ after_) = slice_from_text input := by
  have hhead : ∀ c, after_.head? = some c → is_ticket_char c = false :=
    fun c hc => h c (List.mem_of_mem_head? hc)
  have hmention : ∀ i, MentionedAt (input ++ after_) i ↔ MentionedAt input i := by
    intro i
    by_cases hi : i < input.length
    · apply mentionedAt_left hi
      intro c hc
      have hstop := hhead c hc
      constructor
      · intro hmem
        have hchar := prefix_chars c (List.mem_append_left _ (List.mem_of_mem_tail hmem))
        exact Bool.false_ne_true (hstop.symm.trans hchar)
      · intro hmem
        have hchar := prefix_chars c (List.mem_append_right _ (List.mem_of_mem_tail hmem))
        exact Bool.false_ne_true (hstop.symm.trans hchar)
    · refine iff_of_false ?_ (fun hmention => hi hmention.lt)
      intro hmention
      have hlt := hmention.lt
      rw [List.length_append] at hlt
      obtain ⟨k, rfl⟩ := Nat.exists_eq_add_of_le (Nat.le_of_not_lt hi)
      have hinner := (mentionedAt_append input after_ k).mp hmention
      have hk : k < after_.length := by omega
      have hquiet := @not_mentionedAt_stop after_ [] h k hk
      rw [List.append_nil] at hquiet
      exact hquiet hinner
  rw [slice_from_text_eq, slice_from_text_eq, prefix_start_congr hmention]
  rcases hfind : prefix_start input with _ | start
  · rfl
  · have hlt := (prefix_start_eq_some.mp hfind).1.lt
    have hrun : run_at (input ++ after_) start = run_at input start := by
      unfold run_at
      rw [List.drop_append_of_le_length hlt.le, takeWhile_stop hhead]
    rw [Option.bind_some, Option.bind_some, hrun]

/-- The three surfaces pull the same ticket out of the same text. -/
theorem extract_ticket_agrees (input : List Char) :
    gui.extract_ticket input = slice_from_text input := by
  have hspace : ∀ c, DropTicket.is_whitespace c = true → is_ticket_char c = false := by
    intro c hc
    by_contra hticket
    simp only [is_ticket_char, decide_eq_true_eq, Bool.not_eq_false] at hticket
    have hrange : (97 ≤ c.toNat ∧ c.toNat ≤ 122) ∨ (48 ≤ c.toNat ∧ c.toNat ≤ 57) := hticket
    simp only [DropTicket.is_whitespace, Bool.or_eq_true, Bool.and_eq_true, decide_eq_true_eq] at hc
    omega
  have hleft : ∀ s, slice_from_text (s.dropWhile DropTicket.is_whitespace) = slice_from_text s := by
    intro s
    conv_rhs => rw [← List.takeWhile_append_dropWhile (p := DropTicket.is_whitespace) (l := s)]
    refine (slice_append_left fun i hi => not_mentionedAt_stop ?_ hi).symm
    exact fun c hc => hspace c (List.mem_takeWhile_imp hc)
  have hright : ∀ s, slice_from_text (s.reverse.dropWhile DropTicket.is_whitespace).reverse =
      slice_from_text s := by
    intro s
    have hsplit : s = (s.reverse.dropWhile DropTicket.is_whitespace).reverse ++
        (s.reverse.takeWhile DropTicket.is_whitespace).reverse := by
      rw [← List.reverse_append, List.takeWhile_append_dropWhile, List.reverse_reverse]
    conv_rhs => rw [hsplit]
    refine (slice_append_right fun c hc => hspace c ?_).symm
    exact List.mem_takeWhile_imp (List.mem_reverse.mp hc)
  rw [extract_ticket_eq, trim, hright, hleft]

/-! ## The text of a ticket -/

theorem ticket_chars (ticket : DropTicket) :
    ∀ c ∈ ticket.to_string_prefixed, is_ticket_char c = true := by
  have hlower : base32.alphabet.all (fun c => is_ticket_char c.toLower) = true := by decide
  intro c hc
  rcases List.mem_append.mp hc with hc | hc
  · exact prefix_chars c (List.mem_append_left _ hc)
  · obtain ⟨d, hd, rfl⟩ := List.mem_map.mp hc
    exact List.all_eq_true.mp hlower d (base32.encode_mem _ d hd)

/-- Base32 of a topic alone is longer than what passes for a typo. -/
theorem ticket_len (ticket : DropTicket) : 32 < str_len ticket.to_string_prefixed := by
  have hplain := plain_text (DropTicketV1.codec.write ticket.V1)
  have hbytes : 32 ≤ (DropTicketV1.codec.write ticket.V1).length := by
    simp only [DropTicketV1.codec, postcard.Codec.imap_write_length,
      postcard.Codec.pair_write_length, postcard.Codec.fixed_write_length]
    omega
  unfold to_string_prefixed
  rw [str_len_ascii (fun c hc => (hplain c hc).2), List.length_append, DropTicket.to_ascii_lowercase,
    List.length_map, base32.encode_length]
  omega

theorem ticket_head (ticket : DropTicket) : ticket.to_string_prefixed.head? = some 'd' := rfl

theorem ticket_mentioned (ticket : DropTicket) (after_ : List Char) :
    MentionedAt (ticket.to_string_prefixed ++ after_) 0 :=
  .inl ((List.prefix_append _ _).trans (List.prefix_append _ _))

/-! ## Shared links -/

/-- The first prefix in this text, where there is one, begins a copy of the ticket
that ends before the text does. -/
def Clear (before ticket : List Char) : Prop :=
  ∀ i, MentionedAt before i → (∀ j < i, ¬ MentionedAt before j) →
    ∃ c, is_ticket_char c = false ∧ ticket ++ [c] <+: before.drop i

theorem clear_of_none {before ticket : List Char} (h : ∀ i, ¬ MentionedAt before i) :
    Clear before ticket :=
  fun i hi => absurd hi (h i)

/-- A ticket comes out of a text just when nothing before it is taken for one. -/
theorem slice_ticket_iff (ticket : DropTicket) (before after_ : List Char)
    (hafter : ∀ c, after_.head? = some c → is_ticket_char c = false) :
    slice_from_text (before ++ (ticket.to_string_prefixed ++ after_)) =
        some ticket.to_string_prefixed ↔ Clear before ticket.to_string_prefixed := by
  have hhead : ∀ c, (ticket.to_string_prefixed ++ after_).head? = some c →
      c ∉ TICKET_PREFIX.tail ∧ c ∉ LEGACY_TICKET_PREFIX.tail := by
    intro c hc
    have hd : c = 'd' := by
      rw [List.head?_append, ticket_head] at hc
      exact (Option.some.inj hc).symm
    rw [hd]
    decide
  have hmention : ∀ i < before.length, MentionedAt (before ++ (ticket.to_string_prefixed ++ after_)) i ↔
      MentionedAt before i := fun i hi => mentionedAt_left hi hhead
  have hlen := ticket_len ticket
  by_cases hnone : ∀ i, ¬ MentionedAt before i
  · refine iff_of_true ?_ (clear_of_none hnone)
    rw [slice_append_left fun i hi h => hnone i ((hmention i hi).mp h), slice_from_text_eq,
      prefix_start_eq_some.mpr ⟨ticket_mentioned ticket after_, by omega⟩, Option.bind_some]
    have hrun : run_at (ticket.to_string_prefixed ++ after_) 0 = ticket.to_string_prefixed := by
      unfold run_at
      rw [List.drop_zero, takeWhile_stop hafter]
      exact List.takeWhile_eq_self_iff.mpr (ticket_chars ticket)
    rw [hrun, if_pos hlen]
  · obtain ⟨i, hfind⟩ : ∃ i, prefix_start before = some i := by
      rw [← Option.isSome_iff_exists, ← Option.ne_none_iff_isSome]
      exact fun h => hnone (prefix_start_eq_none.mp h)
    obtain ⟨hi, hfirst⟩ := prefix_start_eq_some.mp hfind
    have hlt := hi.lt
    have hwhole : prefix_start (before ++ (ticket.to_string_prefixed ++ after_)) = some i :=
      prefix_start_eq_some.mpr ⟨(hmention i hlt).mpr hi,
        fun j hj h => hfirst j hj ((hmention j (hj.trans hlt)).mp h)⟩
    have hrun : run_at (before ++ (ticket.to_string_prefixed ++ after_)) i =
        (before.drop i ++ (ticket.to_string_prefixed ++ after_)).takeWhile is_ticket_char := by
      unfold run_at
      rw [List.drop_append_of_le_length hlt.le]
    rw [slice_from_text_eq, hwhole, Option.bind_some, hrun]
    constructor
    · intro hslice j hj hjfirst
      obtain rfl : j = i := by
        by_contra hne
        rcases Nat.lt_or_gt_of_ne hne with h | h
        · exact hfirst j h hj
        · exact hjfirst i h hi
      have hsame : (before.drop j ++ (ticket.to_string_prefixed ++ after_)).takeWhile
          is_ticket_char = ticket.to_string_prefixed := by
        split at hslice
        · exact Option.some.inj hslice
        · cases hslice
      have hsplit := List.takeWhile_append_dropWhile (p := is_ticket_char) (l := before.drop j)
      rcases hrest : (before.drop j).dropWhile is_ticket_char with _ | ⟨c, rest⟩
      · -- the run goes on into the ticket, and is longer than it
        rw [hrest, List.append_nil] at hsplit
        have hall := List.takeWhile_eq_self_iff.mp hsplit
        rw [List.takeWhile_append_of_pos hall, takeWhile_stop hafter,
          List.takeWhile_eq_self_iff.mpr (ticket_chars ticket)] at hsame
        have hlength := congrArg List.length hsame
        rw [List.length_append, List.length_drop] at hlength
        omega
      · have hc : is_ticket_char c = false := by
          have hhead := List.head?_dropWhile_not is_ticket_char (before.drop j)
          rw [hrest] at hhead
          simpa using hhead
        rw [hrest] at hsplit
        rw [← hsplit, List.append_assoc, List.takeWhile_append_of_pos
          (fun x hx => List.mem_takeWhile_imp hx), List.cons_append,
          List.takeWhile_cons_of_neg (by simp [hc]), List.append_nil] at hsame
        refine ⟨c, hc, rest, ?_⟩
        rw [List.append_assoc, ← hsame]
        exact hsplit
    · intro hclear
      obtain ⟨c, hc, tail, htail⟩ := hclear i hi hfirst
      have hsame : (before.drop i ++ (ticket.to_string_prefixed ++ after_)).takeWhile
          is_ticket_char = ticket.to_string_prefixed := by
        rw [← htail, List.append_assoc, List.append_assoc,
          List.takeWhile_append_of_pos (ticket_chars ticket), List.singleton_append,
          List.takeWhile_cons_of_neg (by simp [hc]), List.append_nil]
      rw [hsame, if_pos hlen]

/-! ## The three surfaces -/

/-- Each surface pulls the ticket out of the text. -/
def PulledOut (input : List Char) (ticket : DropTicket) : Prop :=
  gui.extract_ticket input = some ticket.to_string_prefixed ∧
    mcp.ticket_from_text input = some ticket.to_string_prefixed ∧
    cli.ticket_from_text input = some ticket.to_string_prefixed

theorem pulledOut_iff (input : List Char) (ticket : DropTicket) :
    PulledOut input ticket ↔ slice_from_text input = some ticket.to_string_prefixed := by
  unfold PulledOut mcp.ticket_from_text cli.ticket_from_text
  rw [extract_ticket_agrees, and_self, and_self]

/-- A link gives its ticket back, the one of the app always, the one of the web and a
text in the words of a person just when nothing in front is taken for a ticket; and
the surfaces agree on every text. -/
theorem links_give_the_ticket_back_iff (ticket : DropTicket) (base before after_ : List Char)
    (hafter : ∀ c, after_.head? = some c → is_ticket_char c = false) :
    PulledOut (app_link ticket.to_string_prefixed) ticket ∧
    (PulledOut (web_link base ticket.to_string_prefixed) ticket ↔
      Clear (trim_end_matches '/' base ++ "/#".toList) ticket.to_string_prefixed) ∧
    (PulledOut (before ++ ticket.to_string_prefixed ++ after_) ticket ↔
      Clear before ticket.to_string_prefixed) ∧
    ∀ input, gui.extract_ticket input = mcp.ticket_from_text input ∧
      mcp.ticket_from_text input = cli.ticket_from_text input := by
  have hend : ∀ front : List Char,
      (PulledOut (front ++ ticket.to_string_prefixed) ticket ↔
        Clear front ticket.to_string_prefixed) := by
    intro front
    rw [pulledOut_iff, ← slice_ticket_iff ticket front [] (by simp), List.append_nil]
  refine ⟨?_, hend _, ?_, fun input => ⟨extract_ticket_agrees input, rfl⟩⟩
  · refine (hend _).mpr (clear_of_none ?_)
    rw [← prefix_start_eq_none]
    decide +kernel
  · rw [pulledOut_iff, List.append_assoc]
    exact slice_ticket_iff ticket before after_ hafter

/-! ## A host with a ticket's name -/

namespace ticket_host

def ticket : DropTicket := .nodeless (.fill 32 8) none

def text : List Char := ticket.to_string_prefixed

/-- A link on a plain host, and a sentence around the ticket. -/
theorem links_give_the_ticket_back_plainly :
    PulledOut (web_link "https://drop.example/".toList text) ticket ∧
      PulledOut ("my drop: ".toList ++ text ++ ". thanks!".toList) ticket := by
  have hperiod : ∀ c, ". thanks!".toList.head? = some c → is_ticket_char c = false := by
    intro c hc
    obtain rfl : '.' = c := Option.some.inj hc
    decide
  obtain ⟨-, hweb, hchat, -⟩ := links_give_the_ticket_back_iff ticket
    "https://drop.example/".toList "my drop: ".toList ". thanks!".toList hperiod
  have hnone : prefix_start (trim_end_matches '/' "https://drop.example/".toList ++ "/#".toList) =
      none := by decide +kernel
  have hchatter : prefix_start "my drop: ".toList = none := by decide +kernel
  exact ⟨hweb.mpr (clear_of_none (prefix_start_eq_none.mp hnone)),
    hchat.mpr (clear_of_none (prefix_start_eq_none.mp hchatter))⟩

/-- The name of the host is taken for a ticket, and too short for one; a word in
front of the ticket is. -/
theorem a_host_hides_the_ticket :
    gui.extract_ticket (web_link "https://drop2.example".toList text) = none ∧
      gui.extract_ticket ("my drop1 link: ".toList ++ text) = none ∧
      ¬ ∀ (ticket : DropTicket) (base before after_ : List Char),
        (∀ c, after_.head? = some c → is_ticket_char c = false) →
        PulledOut (app_link ticket.to_string_prefixed) ticket ∧
          PulledOut (web_link base ticket.to_string_prefixed) ticket ∧
          PulledOut (before ++ ticket.to_string_prefixed ++ after_) ticket ∧
          ∀ input, gui.extract_ticket input = mcp.ticket_from_text input ∧
            mcp.ticket_from_text input = cli.ticket_from_text input := by
  have hhost : gui.extract_ticket (web_link "https://drop2.example".toList text) = none := by
    decide +kernel
  refine ⟨hhost, by decide +kernel, ?_⟩
  intro hall
  have hweb := (hall ticket "https://drop2.example".toList [] [] (by simp)).2.1.1
  rw [show ticket.to_string_prefixed = text from rfl, hhost] at hweb
  cases hweb

end ticket_host

end iroh_drop
