-- The round trip of a ticket: what is handed out reads back just when it keeps
-- to the limits that the reader checks.
import IrohDrop.Session

open rust_std postcard

namespace iroh_drop

namespace DropTicket

/-! ## Text -/

theorem dropWhile_none {s : List Char} (h : ∀ c ∈ s, is_whitespace c = false) :
    s.dropWhile is_whitespace = s := by
  cases s with
  | nil => rfl
  | cons c s => rw [List.dropWhile_cons, h c List.mem_cons_self, if_neg (by decide)]

theorem trim_none {s : List Char} (h : ∀ c ∈ s, is_whitespace c = false) : trim s = s := by
  unfold trim
  rw [dropWhile_none h, dropWhile_none (fun c hc => h c (List.mem_reverse.mp hc)),
    List.reverse_reverse]

theorem str_len_ascii {s : List Char} (h : ∀ c ∈ s, c.utf8Size = 1) : str_len s = s.length := by
  unfold str_len
  induction s with
  | nil => rfl
  | cons c s ih =>
    rw [List.map_cons, List.sum_cons, h c List.mem_cons_self,
      ih (fun d hd => h d (List.mem_cons_of_mem c hd)), List.length_cons, Nat.add_comm]

/-- What the text of a ticket is made of: lowercase symbols that take one byte
each and are no white space. -/
theorem alphabet_lower : ∀ c ∈ base32.alphabet, c.toLower.toUpper = c ∧
    is_whitespace c.toLower = false ∧ c.toLower.utf8Size = 1 := by
  have hall : base32.alphabet.all (fun c => c.toLower.toUpper = c ∧
      is_whitespace c.toLower = false ∧ c.toLower.utf8Size = 1) = true := by decide +kernel
  exact fun c hc => of_decide_eq_true (List.all_eq_true.mp hall c hc)

theorem prefix_plain : ∀ c ∈ TICKET_PREFIX, is_whitespace c = false ∧ c.utf8Size = 1 := by
  have hall : TICKET_PREFIX.all (fun c => is_whitespace c = false ∧ c.utf8Size = 1) = true := by
    decide +kernel
  exact fun c hc => of_decide_eq_true (List.all_eq_true.mp hall c hc)

theorem upper_lower {s : List Char} (h : ∀ c ∈ s, c ∈ base32.alphabet) :
    to_ascii_uppercase (to_ascii_lowercase s) = s := by
  unfold to_ascii_uppercase to_ascii_lowercase
  rw [List.map_map]
  refine (List.map_congr_left fun c hc => (alphabet_lower c (h c hc)).1).trans ?_
  exact List.map_id s

theorem plain_text (bytes : Bytes) :
    ∀ c ∈ TICKET_PREFIX ++ to_ascii_lowercase (base32.encode bytes),
      is_whitespace c = false ∧ c.utf8Size = 1 := by
  intro c hc
  rcases List.mem_append.mp hc with hc | hc
  · exact prefix_plain c hc
  · obtain ⟨d, hd, rfl⟩ := List.mem_map.mp hc
    exact (alphabet_lower d (base32.encode_mem bytes d hd)).2

/-- The characters that some bytes take in a ticket. -/
def text_len (bytes : Nat) : Nat := 5 + (8 * bytes + 4) / 5

/-- Bytes come back from their text unless it is too long. -/
theorem ticket_bytes_text (bytes : Bytes) :
    ticket_bytes (TICKET_PREFIX ++ to_ascii_lowercase (base32.encode bytes)) =
      if text_len bytes.length ≤ MAX_TICKET_LEN then .ok bytes
      else .error (.TooLong (text_len bytes.length)) := by
  have hplain := plain_text bytes
  have hlen : str_len (TICKET_PREFIX ++ to_ascii_lowercase (base32.encode bytes)) =
      text_len bytes.length := by
    rw [str_len_ascii (fun c hc => (hplain c hc).2), List.length_append, to_ascii_lowercase,
      List.length_map, base32.encode_length]
    rfl
  have hstrip : strip_prefix TICKET_PREFIX
      (TICKET_PREFIX ++ to_ascii_lowercase (base32.encode bytes)) =
      some (to_ascii_lowercase (base32.encode bytes)) := by
    unfold strip_prefix
    rw [if_pos (List.prefix_append _ _), List.drop_left]
  unfold ticket_bytes
  simp only [trim_none (fun c hc => (hplain c hc).1), hlen, hstrip]
  split
  · rename_i hle
    have hensure : (ensure (text_len bytes.length ≤ MAX_TICKET_LEN)
        (.TooLong (text_len bytes.length)) : Except TicketError Unit) = .ok () :=
      ensure_eq_ok.mpr hle
    simp only [hensure, ok_or, bind, Except.bind, pure, Except.pure,
      upper_lower (base32.encode_mem bytes), base32.decode_encode]
  · rename_i hgt
    simp only [ensure, hgt, if_false]
    rfl

end DropTicket

/-! ## Sizes -/

theorem option_write_length {α : Type} (c : Codec α) (o : Option α) :
    ((Codec.option c).write o).length = 1 + (o.map (fun a => (c.write a).length)).getD 0 := by
  cases o with
  | none => rfl
  | some a => exact Nat.add_comm _ _

theorem TicketAddrV1.codec_sized : TicketAddrV1.codec.Sized := by
  have hpos : ∀ (n : Nat) (a : FixedBytes n × UInt16),
      0 < ((Codec.pair (.fixed n) .u16).write a).length := by
    intro n a
    have hport : 0 < (Codec.u16.write a.2).length := writeVarint_length_pos 2 _
    rw [Codec.pair_write_length]
    omega
  have hsocket : ∀ n, (Codec.list (.pair (.fixed n) .u16)).Sized := fun n =>
    Codec.list_sized (Codec.pair_sized (Codec.fixed_sized n) Codec.u16_sized) (hpos n)
  exact Codec.imap_sized (Codec.pair_sized (Codec.fixed_sized 32)
    (Codec.pair_sized (Codec.option_sized Codec.string_sized)
      (Codec.pair_sized (hsocket 4) (hsocket 16)))) _ _ _

theorem DropTicketV1.codec_sized : DropTicketV1.codec.Sized := by
  have hpos : ∀ node : TicketAddrV1, 0 < (TicketAddrV1.codec.write node).length := by
    intro node
    simp only [TicketAddrV1.codec, Codec.imap_write_length, Codec.pair_write_length,
      Codec.fixed_write_length]
    omega
  exact Codec.imap_sized (Codec.pair_sized Codec.u16_sized (Codec.pair_sized (Codec.fixed_sized 32)
    (Codec.pair_sized (Codec.list_sized TicketAddrV1.codec_sized hpos)
      (Codec.pair_sized (Codec.imap_sized (Codec.pair_sized Codec.bool_sized
          (Codec.option_sized Codec.string_sized)) _ _ _)
        (Codec.pair_sized Codec.u8_sized (Codec.option_sized (Codec.fixed_sized 32))))))) _ _ _

/-! ## Addresses -/

section Addresses

variable [Urls]

def TransportAddr.v4 : TransportAddr → Option (FixedBytes 4 × UInt16)
  | .Ip (.V4 ip port) => some (ip, port)
  | _ => none

def TransportAddr.v6 : TransportAddr → Option (FixedBytes 16 × UInt16)
  | .Ip (.V6 ip port _ _) => some (ip, port)
  | _ => none

def TransportAddr.relay : TransportAddr → Option RelayUrl
  | .Relay url => some url
  | _ => none

/-- Transports go into the wire form one by one. -/
theorem foldl_add (transports : List TransportAddr) (out : TicketAddrV1) :
    transports.foldl TicketAddrV1.add out =
      { endpoint_id := out.endpoint_id
        relay_url := ((transports.filterMap TransportAddr.relay).getLast?.map
          RelayUrl.to_string).or out.relay_url
        direct_v4 := out.direct_v4 ++ transports.filterMap TransportAddr.v4
        direct_v6 := out.direct_v6 ++ transports.filterMap TransportAddr.v6 } := by
  induction transports generalizing out with
  | nil => simp
  | cons t transports ih =>
    rw [List.foldl_cons, ih]
    rcases t with url | (⟨ip, port⟩ | ⟨ip, port, flowinfo, scope_id⟩) | ⟨id, data⟩
    · simp only [TicketAddrV1.add, TransportAddr.relay, TransportAddr.v4, TransportAddr.v6,
        List.filterMap_cons, List.getLast?_cons]
      rcases (transports.filterMap TransportAddr.relay).getLast? with _ | last <;> simp
    all_goals
      simp only [TicketAddrV1.add, List.filterMap_cons, TransportAddr.relay, TransportAddr.v4,
        TransportAddr.v6, List.append_assoc, List.singleton_append]

variable [Crypto]

namespace EndpointAddr

/-- The IPv4 addresses of a peer, with their ports. -/
def v4 (self : EndpointAddr) : List (FixedBytes 4 × UInt16) :=
  self.transports.filterMap TransportAddr.v4

def v6 (self : EndpointAddr) : List (FixedBytes 16 × UInt16) :=
  self.transports.filterMap TransportAddr.v6

/-- The relay that goes into a ticket: the last one. -/
def relay (self : EndpointAddr) : Option RelayUrl :=
  (self.transports.filterMap TransportAddr.relay).getLast?

/-- The same peer at the same IP addresses. -/
def SameIps (a b : EndpointAddr) : Prop :=
  a.id = b.id ∧ (∀ ip, ip ∈ a.v4 ↔ ip ∈ b.v4) ∧ ∀ ip, ip ∈ a.v6 ↔ ip ∈ b.v6

end EndpointAddr

theorem from_eq (addr : EndpointAddr) : TicketAddrV1.from addr =
    { endpoint_id := addr.id.as_bytes, relay_url := addr.relay.map RelayUrl.to_string
      direct_v4 := addr.v4, direct_v6 := addr.v6 } := by
  unfold TicketAddrV1.from
  rw [foldl_add]
  simp [EndpointAddr.relay, EndpointAddr.v4, EndpointAddr.v6]

theorem mem_from_parts {id : EndpointId} {addrs : List TransportAddr} {t : TransportAddr} :
    t ∈ (EndpointAddr.from_parts id addrs).transports ↔ t ∈ addrs := by
  have hmem : t ∈ (BTreeMap.ofList (addrs.map (fun a => (a, ())))).entries.map Prod.fst ↔
      t ∈ (addrs.map (fun a => (a, ()))).map Prod.fst := BTreeMap.mem_ofList
  rw [List.map_map, show Prod.fst ∘ (fun a : TransportAddr => (a, ())) = fun a => a from rfl,
    List.map_id'] at hmem
  exact hmem

/-- A peer comes back from its wire form, at the same addresses. -/
theorem try_from_from (addr : EndpointAddr) :
    ∃ back, EndpointAddr.try_from (TicketAddrV1.from addr) = .ok back ∧ back.SameIps addr := by
  have hrelay : ∃ relays, TicketAddrV1.relay (TicketAddrV1.from addr) = .ok relays ∧
      ∀ t ∈ relays, ∃ url, t = .Relay url := by
    rw [from_eq]
    unfold TicketAddrV1.relay
    rcases addr.relay with _ | url
    · exact ⟨[], rfl, fun t ht => nomatch ht⟩
    · refine ⟨[.Relay url], ?_, ?_⟩
      · simp [ok_or, bind, Except.bind, pure, Except.pure]
      · intro t ht
        exact ⟨url, List.mem_singleton.mp ht⟩
  obtain ⟨relays, hok, honly⟩ := hrelay
  refine ⟨.from_parts addr.id (relays ++ addr.v4.map (fun a => .Ip (.V4 a.1 a.2)) ++
    addr.v6.map (fun a => .Ip (.V6 a.1 a.2 0 0))), ?_, rfl, ?_, ?_⟩
  · unfold EndpointAddr.try_from
    rw [hok, from_eq]
    simp only [ok_or, EndpointId.from_as_bytes, bind, Except.bind, pure, Except.pure]
  · intro ip
    unfold EndpointAddr.v4
    simp only [List.mem_filterMap, mem_from_parts, List.mem_append, List.mem_map]
    constructor
    · rintro ⟨t, (hrelay | ⟨ip', hip', rfl⟩) | ⟨ip', hip', rfl⟩, ht⟩
      · obtain ⟨url, rfl⟩ := honly t hrelay
        cases ht
      · cases ht
        exact hip'
      · cases ht
    · intro hip
      exact ⟨.Ip (.V4 ip.1 ip.2), .inl (.inr ⟨ip, hip, rfl⟩), rfl⟩
  · intro ip
    unfold EndpointAddr.v6
    simp only [List.mem_filterMap, mem_from_parts, List.mem_append, List.mem_map]
    constructor
    · rintro ⟨t, (hrelay | ⟨ip', hip', rfl⟩) | ⟨ip', hip', rfl⟩, ht⟩
      · obtain ⟨url, rfl⟩ := honly t hrelay
        cases ht
      · cases ht
      · cases ht
        exact hip'
    · intro hip
      exact ⟨.Ip (.V6 ip.1 ip.2 0 0), .inr ⟨ip, hip, rfl⟩, rfl⟩

/-! ## Limits -/

/-- The limits that a reader puts on a node. -/
structure NodeFits (node : EndpointAddr) : Prop where
  v4 : node.v4.length ≤ MAX_DIRECT_ADDRS
  v6 : node.v6.length ≤ MAX_DIRECT_ADDRS
  relay : ∀ url ∈ node.relay, url.to_string.utf8ByteSize ≤ MAX_RELAY_URL_LEN

theorem validate_node_iff (node : EndpointAddr) :
    DropTicket.validate_node (.from node) = .ok () ↔ NodeFits node := by
  obtain ⟨back, hback, -⟩ := try_from_from node
  unfold DropTicket.validate_node
  rw [hback, from_eq]
  simp only [bind_eq_ok, ensure_eq_ok, exists_const, Option.mem_def, Option.map_eq_some_iff,
    forall_exists_index, and_imp, forall_apply_eq_imp_iff₂, pure, Except.pure]
  constructor
  · rintro ⟨⟨hv4, hv6⟩, hrelay, -⟩
    exact ⟨hv4, hv6, hrelay⟩
  · rintro ⟨hv4, hv6, hrelay⟩
    exact ⟨⟨hv4, hv6⟩, hrelay, back, rfl, trivial⟩

/-- The bytes of a string and of its length. -/
def string_size (s : String) : Nat := varintLen s.utf8ByteSize + s.utf8ByteSize

def node_size (node : EndpointAddr) : Nat :=
  32 + (1 + (node.relay.map (fun url => string_size url.to_string)).getD 0) +
    (varintLen node.v4.length + (node.v4.map (fun a => 4 + (Codec.u16.write a.2).length)).sum) +
    (varintLen node.v6.length + (node.v6.map (fun a => 16 + (Codec.u16.write a.2).length)).sum)

/-- The bytes of a ticket: its version, topic, nodes, options, mode and key. -/
def ticket_size (nodes : List EndpointAddr) (display_name : Option String) (keyed : Bool) : Nat :=
  1 + 32 + (varintLen nodes.length + (nodes.map node_size).sum) +
    (1 + (1 + (display_name.map string_size).getD 0)) + 1 + (if keyed then 33 else 1)

theorem node_write_length (node : EndpointAddr) :
    (TicketAddrV1.codec.write (.from node)).length = node_size node := by
  rw [from_eq]
  simp only [TicketAddrV1.codec, Codec.imap_write_length, Codec.pair_write_length,
    Codec.fixed_write_length, option_write_length, Codec.list_write_length, Option.map_map,
    node_size]
  have hrelay : (fun s => (Codec.string.write s).length) ∘ RelayUrl.to_string =
      fun url : RelayUrl => string_size url.to_string := by
    funext url
    exact Codec.string_write_length url.to_string
  rw [hrelay]
  omega

theorem ticket_write_length (ticket : DropTicket) (hversion : ticket.V1.version = TICKET_SCHEMA_VERSION)
    (nodes : List EndpointAddr) (hnodes : ticket.V1.bootstrap_nodes = nodes.map .from) :
    (DropTicketV1.codec.write ticket.V1).length =
      ticket_size nodes ticket.V1.options.display_name ticket.V1.drop_key.isSome := by
  have hone : (Codec.u16.write TICKET_SCHEMA_VERSION).length = 1 := by decide
  have hbool : ∀ b, (Codec.bool.write b).length = 1 := fun _ => rfl
  have hmode : ∀ b, (Codec.u8.write b).length = 1 := fun _ => rfl
  have hname : (fun s => (Codec.string.write s).length) = string_size := by
    funext s
    exact Codec.string_write_length s
  have hsizes : (fun node => (TicketAddrV1.codec.write node).length) ∘ TicketAddrV1.from =
      node_size := by
    funext node
    exact node_write_length node
  simp only [DropTicketV1.codec, DropTicketOptionsV1.codec, Codec.imap_write_length,
    Codec.pair_write_length, Codec.fixed_write_length, option_write_length,
    Codec.list_write_length, hversion, hnodes, hone, hbool, hmode, hname, List.map_map, hsizes,
    List.length_map, ticket_size]
  rcases ticket.V1.drop_key with _ | key
  · simp only [Option.map_none, Option.getD_none, Option.isSome_none, Bool.false_eq_true, if_false]
    omega
  · simp only [Option.map_some, Option.getD_some, Option.isSome_some, if_true]
    omega

/-- What is read is a ticket of this version that passes the checks. -/
theorem from_string_prefixed_eq_ok {s : List Char} {ticket : DropTicket} :
    DropTicket.from_string_prefixed s = .ok ticket ↔
      ∃ bytes rest, DropTicket.ticket_bytes s = .ok bytes ∧
        DropTicketV1.codec.read bytes = .ok (ticket.V1, rest) ∧
        ticket.V1.version = TICKET_SCHEMA_VERSION ∧ DropTicket.validate ticket.V1 = .ok () := by
  unfold DropTicket.from_string_prefixed
  rcases hbytes : DropTicket.ticket_bytes s with e | bytes
  · simp [bind, Except.bind]
  rcases hread : DropTicketV1.codec.read bytes with e | ⟨v1, rest⟩
  · simp [bind, Except.bind, hread]
  simp only [bind, Except.bind, hread, ensure]
  by_cases hversion : v1.version = TICKET_SCHEMA_VERSION
  · simp only [hversion, if_true]
    split
    · rename_i u hvalid
      simp only [pure, Except.pure, Except.ok.injEq]
      constructor
      · rintro rfl
        exact ⟨bytes, rest, rfl, hread, hversion, hvalid⟩
      · rintro ⟨bytes', rest', rfl, hread', -, -⟩
        rw [hread] at hread'
        cases hread'
        rfl
    · rename_i e hvalid
      constructor
      · intro h
        cases h
      · rintro ⟨bytes', rest', hbytes', hread', -, hvalid'⟩
        cases hbytes'
        rw [hread] at hread'
        cases hread'
        rw [hvalid] at hvalid'
        cases hvalid'
  · simp only [hversion, if_false]
    constructor
    · intro h
      cases h
    · rintro ⟨bytes', rest', hbytes', hread', hversion', -⟩
      cases hbytes'
      rw [hread] at hread'
      cases hread'
      exact absurd hversion' hversion

/-! ## Tickets -/

/-- A ticket that this crate makes, or reads. -/
inductive Made : DropTicket → Prop
  | new (topic_id : FixedBytes 32) (nodes : List EndpointAddr) (options : DropTicketOptionsV1) :
    Made (.new topic_id nodes options)
  | new_private (topic_id : FixedBytes 32) (nodes : List EndpointAddr)
    (options : DropTicketOptionsV1) (key : DropKey) : Made (.new_private topic_id nodes options key)
  | without_key {ticket : DropTicket} : Made ticket → Made ticket.without_key
  | set_bootstrap_nodes {ticket : DropTicket} (nodes : List EndpointAddr) :
    Made ticket → Made (ticket.set_bootstrap_nodes nodes)
  | read {s : List Char} {ticket : DropTicket} :
    DropTicket.from_string_prefixed s = .ok ticket → Made ticket

/-- Such a ticket has the version of this crate, and no key if it is public. -/
theorem Made.well_formed {ticket : DropTicket} (h : Made ticket) :
    ticket.V1.version = TICKET_SCHEMA_VERSION ∧
      ¬(ticket.mode = .Public ∧ ticket.V1.drop_key.isSome = true) := by
  induction h with
  | new topic_id nodes options => exact ⟨rfl, fun hkey => nomatch hkey.2⟩
  | new_private topic_id nodes options key => exact ⟨rfl, fun hkey => nomatch hkey.1⟩
  | without_key hmade ih => exact ⟨ih.1, fun hkey => nomatch hkey.2⟩
  | set_bootstrap_nodes nodes hmade ih => exact ih
  | read hread =>
    obtain ⟨bytes, rest, -, -, hversion, hvalid⟩ := from_string_prefixed_eq_ok.mp hread
    refine ⟨hversion, ?_⟩
    simp only [DropTicket.validate, bind_eq_ok, ensure_eq_ok] at hvalid
    obtain ⟨mode, hmode, -, hkey, -⟩ := hvalid
    rw [DropTicket.from_wire_mode] at hmode
    cases hmode
    exact hkey

/-- The limits that a reader puts on a ticket with these nodes. -/
structure Fits (nodes : List EndpointAddr) (display_name : Option String) (keyed : Bool) : Prop where
  few : nodes.length ≤ MAX_BOOTSTRAP_NODES
  node_fits : ∀ node ∈ nodes, NodeFits node
  name : ∀ name ∈ display_name, name.utf8ByteSize ≤ MAX_DISPLAY_NAME_LEN
  short : DropTicket.text_len (ticket_size nodes display_name keyed) ≤ MAX_TICKET_LEN

/-- The string of the ticket is accepted, and stands for the same topic,
options, mode and key, and for the same peers in the same order, each at the
same IP addresses. -/
def ReadsBack (ticket : DropTicket) (nodes : List EndpointAddr) : Prop :=
  ∃ back, DropTicket.from_string_prefixed ticket.to_string_prefixed = .ok back ∧
    back.V1.topic_id = ticket.V1.topic_id ∧ back.V1.options = ticket.V1.options ∧
    back.mode = ticket.mode ∧ back.drop_key = ticket.drop_key ∧
    List.Forall₂ EndpointAddr.SameIps back.bootstrap_nodes nodes

/-- The nodes of a ticket convert back one by one, and none is left out. -/
theorem nodes_read (nodes : List EndpointAddr) :
    List.Forall₂ EndpointAddr.SameIps
      ((nodes.map TicketAddrV1.from).filterMap (fun a => (EndpointAddr.try_from a).toOption))
      nodes := by
  induction nodes with
  | nil => exact .nil
  | cons node nodes ih =>
    obtain ⟨back, hback, hsame⟩ := try_from_from node
    have hsome : (EndpointAddr.try_from (.from node)).toOption = some back := by
      rw [hback]
      rfl
    rw [List.map_cons, List.filterMap_cons, hsome]
    exact .cons hsame ih

theorem bootstrap_nodes_from {ticket : DropTicket} {nodes : List EndpointAddr}
    (h : ticket.V1.bootstrap_nodes = nodes.map .from) :
    List.Forall₂ EndpointAddr.SameIps ticket.bootstrap_nodes nodes := by
  unfold DropTicket.bootstrap_nodes
  rw [h]
  exact nodes_read nodes

theorem validate_iff {ticket : DropTicket}
    (hkey : ¬(ticket.mode = .Public ∧ ticket.V1.drop_key.isSome = true)) {nodes : List EndpointAddr}
    (hnodes : ticket.V1.bootstrap_nodes = nodes.map .from) :
    DropTicket.validate ticket.V1 = .ok () ↔ nodes.length ≤ MAX_BOOTSTRAP_NODES ∧
      (∀ node ∈ nodes, NodeFits node) ∧
      ∀ name ∈ ticket.V1.options.display_name, name.utf8ByteSize ≤ MAX_DISPLAY_NAME_LEN := by
  simp only [DropTicket.validate, bind_eq_ok, ensure_eq_ok, DropTicket.from_wire_mode,
    check_all_eq_ok, hnodes, List.length_map, List.forall_mem_map, validate_node_iff, exists_const,
    Except.ok.injEq, exists_eq_left']
  constructor
  · rintro ⟨-, hfew, hfit, hname⟩
    exact ⟨hfew, hfit, hname⟩
  · rintro ⟨hfew, hfit, hname⟩
    exact ⟨hkey, hfew, hfit, hname⟩

/-- A ticket reads back just when it keeps to the limits. -/
theorem reads_back_iff {ticket : DropTicket} (hmade : Made ticket) {nodes : List EndpointAddr}
    (hnodes : ticket.V1.bootstrap_nodes = nodes.map .from) :
    ReadsBack ticket nodes ↔
      Fits nodes ticket.V1.options.display_name ticket.V1.drop_key.isSome := by
  obtain ⟨hversion, hkey⟩ := hmade.well_formed
  have hsize := ticket_write_length ticket hversion nodes hnodes
  have htext := DropTicket.ticket_bytes_text (DropTicketV1.codec.write ticket.V1)
  rw [hsize] at htext
  have hback : ∀ back, DropTicket.from_string_prefixed ticket.to_string_prefixed = .ok back ↔
      back = ticket ∧ Fits nodes ticket.V1.options.display_name ticket.V1.drop_key.isSome := by
    intro back
    rw [from_string_prefixed_eq_ok]
    unfold DropTicket.to_string_prefixed
    rw [htext]
    by_cases hshort : DropTicket.text_len (ticket_size nodes ticket.V1.options.display_name
        ticket.V1.drop_key.isSome) ≤ MAX_TICKET_LEN
    · have hlt : (DropTicketV1.codec.write ticket.V1).length < 2 ^ 64 := by
        rw [hsize]
        simp only [DropTicket.text_len, MAX_TICKET_LEN] at hshort
        omega
      have hread := DropTicketV1.codec.read_write_nil (DropTicketV1.codec_sized ticket.V1 hlt)
      simp only [if_pos hshort, Except.ok.injEq]
      constructor
      · rintro ⟨bytes, rest, rfl, hread', hversion', hvalid⟩
        rw [hread] at hread'
        have hsame : back = ticket := DropTicket.ext (Prod.mk.inj (Except.ok.inj hread')).1.symm
        subst hsame
        obtain ⟨hfew, hfit, hname⟩ := (validate_iff hkey hnodes).mp hvalid
        exact ⟨rfl, hfew, hfit, hname, hshort⟩
      · rintro ⟨rfl, hfits⟩
        exact ⟨_, [], rfl, hread, hversion,
          (validate_iff hkey hnodes).mpr ⟨hfits.few, hfits.node_fits, hfits.name⟩⟩
    · simp only [if_neg hshort]
      constructor
      · rintro ⟨bytes, rest, hbytes, -⟩
        cases hbytes
      · rintro ⟨-, hfits⟩
        exact absurd hfits.short hshort
  constructor
  · rintro ⟨back, hread, -⟩
    exact ((hback back).mp hread).2
  · intro hfits
    exact ⟨ticket, (hback ticket).mpr ⟨rfl, hfits⟩, rfl, rfl, rfl, rfl, bootstrap_nodes_from hnodes⟩

/-! ## What a session hands out -/

theorem create_ticket_made (options : CreateOptions) (topic_id : TopicId)
    (self_addr : EndpointAddr) (key : DropKey) :
    Made (create_ticket options topic_id self_addr key) := by
  unfold create_ticket
  split
  · exact .new_private _ _ _ _
  · exact .new _ _ _

theorem create_ticket_parts (options : CreateOptions) (topic_id : TopicId)
    (self_addr : EndpointAddr) (key : DropKey) :
    (create_ticket options topic_id self_addr key).V1.bootstrap_nodes = [self_addr].map .from ∧
      (create_ticket options topic_id self_addr key).V1.options.display_name =
        options.display_name ∧
      (create_ticket options topic_id self_addr key).V1.drop_key.isSome = options.private := by
  unfold create_ticket
  cases options.private <;> exact ⟨rfl, rfl, rfl⟩

theorem ids_of_sameIps {a b : List EndpointAddr} (h : List.Forall₂ EndpointAddr.SameIps a b) :
    a.map (fun addr => EndpointAddr.of_id addr.id) =
      b.map (fun addr => EndpointAddr.of_id addr.id) := by
  induction h with
  | nil => rfl
  | cons hab _ ih => rw [List.map_cons, List.map_cons, ih, hab.1]

/-- A short ticket lists the peers of the full one, by id only. -/
theorem short_ticket_nodes (session : Session) (self_addr : EndpointAddr) :
    (session.short_ticket self_addr).V1.bootstrap_nodes =
      ((session.ticket_nodes self_addr).map (fun a => .of_id a.id)).map .from := by
  have hsame : List.Forall₂ EndpointAddr.SameIps
      (session.current_ticket self_addr).bootstrap_nodes (session.ticket_nodes self_addr) :=
    nodes_read (session.ticket_nodes self_addr)
  exact congrArg (List.map TicketAddrV1.from) (ids_of_sameIps hsame)

/-- The ticket of a new drop, and the full and the short ticket of a session,
read back just when they keep to the limits. -/
theorem tickets_read_back_iff :
    (∀ (options : CreateOptions) (topic_id : TopicId) (self_addr : EndpointAddr) (key : DropKey),
      ReadsBack (create_ticket options topic_id self_addr key) [self_addr] ↔
        Fits [self_addr] options.display_name options.private) ∧
    ∀ session : Session, Made session.ticket → ∀ self_addr : EndpointAddr,
      (ReadsBack (session.current_ticket self_addr) (session.ticket_nodes self_addr) ↔
        Fits (session.ticket_nodes self_addr) session.ticket.V1.options.display_name
          session.ticket.V1.drop_key.isSome) ∧
      (ReadsBack (session.short_ticket self_addr)
          ((session.ticket_nodes self_addr).map (fun a => .of_id a.id)) ↔
        Fits ((session.ticket_nodes self_addr).map (fun a => .of_id a.id))
          session.ticket.V1.options.display_name session.ticket.V1.drop_key.isSome) := by
  refine ⟨?_, ?_⟩
  · intro options topic_id self_addr key
    obtain ⟨hnodes, hname, hkeyed⟩ := create_ticket_parts options topic_id self_addr key
    rw [reads_back_iff (create_ticket_made options topic_id self_addr key) hnodes, hname, hkeyed]
  · intro session hmade self_addr
    have hcurrent : Made (session.current_ticket self_addr) := hmade.set_bootstrap_nodes _
    exact ⟨reads_back_iff hcurrent rfl,
      reads_back_iff (hcurrent.set_bootstrap_nodes _) (short_ticket_nodes session self_addr)⟩

end Addresses

/-! ## A host with nine addresses -/

namespace many_addresses

local instance : Crypto := Crypto.clear

local instance : Urls := Urls.verbatim

def self_id : EndpointId := SecretKey.public ⟨.fill 32 1⟩

/-- An endpoint with one IPv4 address for each of its interfaces. -/
def self_addr (interfaces : Nat) : EndpointAddr :=
  .from_parts self_id ((List.range interfaces).map fun n =>
    .Ip (.V4 (.fill 4 (UInt8.ofNat (n + 1))) 4433))

def options (display_name : Option String) : CreateOptions :=
  { «private» := false, auto_fetch_recommended := false, display_name }

def topic_id : TopicId := ⟨.fill 32 8⟩
def key : DropKey := ⟨.fill 32 0⟩

def session : Session :=
  .new ⟨.fill 32 1⟩ {} PolicyDecider topic_id (create_ticket (options none) topic_id (self_addr 8) key)
    none (fun _ => .NotFound)

/-- The law at work on a session of a host with eight addresses. -/
theorem eight_addresses_read_back_iff :
    (ReadsBack (session.current_ticket (self_addr 8)) (session.ticket_nodes (self_addr 8)) ↔
      Fits (session.ticket_nodes (self_addr 8)) session.ticket.V1.options.display_name
        session.ticket.V1.drop_key.isSome) ∧
    (ReadsBack (session.short_ticket (self_addr 8))
        ((session.ticket_nodes (self_addr 8)).map (fun a => .of_id a.id)) ↔
      Fits ((session.ticket_nodes (self_addr 8)).map (fun a => .of_id a.id))
        session.ticket.V1.options.display_name session.ticket.V1.drop_key.isSome) :=
  tickets_read_back_iff.2 session
    (.new topic_id.as_bytes [self_addr 8] { auto_fetch_recommended := false, display_name := none })
    (self_addr 8)

/-- The ticket of a new drop, read back. -/
def trip (display_name : Option String) (interfaces : Nat) : Except TicketError DropTicket :=
  DropTicket.from_string_prefixed
    (create_ticket (options display_name) topic_id (self_addr interfaces) key).to_string_prefixed

/-- A ninth address, or a name of 256 bytes, makes a ticket that nobody can
read. -/
theorem nine_addresses_are_refused :
    (trip none 9).toOption.isNone = true ∧
      (trip (some (String.ofList (List.replicate 256 'a'))) 1).toOption.isNone = true ∧
      (trip none 8).toOption.isSome = true ∧
      ¬ ∀ [Crypto] [Urls] (options : CreateOptions) (topic_id : TopicId)
        (self_addr : EndpointAddr) (key : DropKey),
        ReadsBack (create_ticket options topic_id self_addr key) [self_addr] := by
  have hnine : (trip none 9).toOption.isNone = true := by decide +kernel
  refine ⟨hnine, by decide +kernel, by decide +kernel, ?_⟩
  intro hall
  obtain ⟨back, hback, -⟩ := hall (options none) topic_id (self_addr 9) key
  have hsome : trip none 9 = .ok back := hback
  rw [hsome] at hnine
  cases hnine

end many_addresses

end iroh_drop
