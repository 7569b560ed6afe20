-- Drop tickets: the capability that lets a peer join, as an address list and
-- a key, and the string form that people pass on (ticket.rs).
import IrohDrop.Base32
import IrohDrop.Crypto
import IrohDrop.Message

open rust_std postcard

namespace iroh_drop

/-! ## Limits -/

def TICKET_PREFIX : List Char := "drop2".toList
def LEGACY_TICKET_PREFIX : List Char := "drop1".toList
def TICKET_SCHEMA_VERSION : UInt16 := 3
def MAX_TICKET_LEN : Nat := 8192
def MAX_BOOTSTRAP_NODES : Nat := 16
def MAX_DIRECT_ADDRS : Nat := 8
def MAX_RELAY_URL_LEN : Nat := 255
def MAX_DISPLAY_NAME_LEN : Nat := 255

inductive TicketError where
  | BadPrefix
  | TooLong (len : Nat)
  | UnsupportedVersion (version : UInt16)
  | Malformed (reason : String)
  | TooManyBootstrap (count : Nat)
  | DisplayNameTooLong
deriving DecidableEq

def TicketError.text : TicketError → String
  | .UnsupportedVersion version => s!"unsupported ticket version {version}"
  | .Malformed reason => s!"malformed ticket encoding: {reason}"
  | .BadPrefix => "ticket does not start with the `drop1` prefix"
  | .TooLong len => s!"ticket too long ({len} chars, max {MAX_TICKET_LEN})"
  | .TooManyBootstrap count => s!"too many bootstrap nodes ({count}, max {MAX_BOOTSTRAP_NODES})"
  | .DisplayNameTooLong => "display name too long (max 255 UTF-8 bytes)"

/-! ## Addresses -/

/-- The URL parser. It gives the serialized form of the URL that it read. -/
class Urls where
  parse : String → Option String
  /-- A serialized URL reads back as itself. -/
  parse_serialized : ∀ s t, parse s = some t → parse t = some t

/-- Any text is a URL, and its own serialized form. -/
@[reducible] def Urls.verbatim : Urls where
  parse := some
  parse_serialized _ _ _ := rfl

/-- A relay URL, as its serialized form. -/
structure RelayUrl [Urls] where
  to_string : String
  parses : Urls.parse to_string = some to_string
deriving DecidableEq

section Addresses

variable [Urls]

def RelayUrl.parse (s : String) : Option RelayUrl :=
  match h : Urls.parse s with
  | some t => some ⟨t, Urls.parse_serialized s t h⟩
  | none => none

@[simp] theorem RelayUrl.parse_to_string (url : RelayUrl) : RelayUrl.parse url.to_string = some url := by
  have := url.parses
  unfold RelayUrl.parse
  split
  · rename_i t h
    rw [this] at h
    cases url
    simp_all
  · rename_i h
    rw [this] at h
    cases h

inductive SocketAddr where
  | V4 (ip : FixedBytes 4) (port : UInt16)
  | V6 (ip : FixedBytes 16) (port : UInt16) (flowinfo scope_id : UInt32)
deriving DecidableEq

/-- How a peer is reached. Custom transports never leave the process. -/
inductive TransportAddr where
  | Relay (url : RelayUrl)
  | Ip (addr : SocketAddr)
  | Custom (id : UInt64) (data : Bytes)
deriving DecidableEq

/-- The order of a derived `Ord`: the variant first, then its fields. -/
def TransportAddr.key : TransportAddr → List Nat
  | .Relay url => 0 :: (ascii url.to_string).map UInt8.toNat
  | .Ip (.V4 ip port) => 1 :: ip.digits ++ [port.toNat]
  | .Ip (.V6 ip port flowinfo scope_id) =>
    2 :: ip.digits ++ [port.toNat, flowinfo.toNat, scope_id.toNat]
  | .Custom id data => 3 :: id.toNat :: data.map UInt8.toNat

omit [Urls] in
theorem ascii_injective : Function.Injective ascii := by
  intro a b h
  apply String.toByteArray_inj.mp
  have : a.toByteArray.data = b.toByteArray.data := Array.toList_inj.mp h
  cases ha : a.toByteArray
  cases hb : b.toByteArray
  simp_all

theorem TransportAddr.key_injective : Function.Injective TransportAddr.key := by
  have hbytes : Function.Injective (List.map UInt8.toNat) :=
    List.map_injective_iff.mpr (fun _ _ => UInt8.toNat_inj.mp)
  have hlen : ∀ {n : Nat} (a : FixedBytes n), a.digits.length = n := by simp [FixedBytes.digits]
  intro a b h
  rcases a with ⟨u, hu⟩ | (⟨ip, port⟩ | ⟨ip, port, fl, sc⟩) | ⟨id, data⟩ <;>
    rcases b with ⟨u', hu'⟩ | (⟨ip', port'⟩ | ⟨ip', port', fl', sc'⟩) | ⟨id', data'⟩ <;>
    obtain ⟨hvariant, h⟩ := List.cons.inj h
  -- Only the same variants begin with the same number.
  any_goals contradiction
  · cases ascii_injective (hbytes h)
    rfl
  · obtain ⟨hip, hport⟩ := List.append_inj h (by rw [hlen, hlen])
    simp only [List.cons.injEq, and_true, UInt16.toNat_inj] at hport
    rw [FixedBytes.digits_injective 4 hip, hport]
  · obtain ⟨hip, hrest⟩ := List.append_inj h (by rw [hlen, hlen])
    simp only [List.cons.injEq, and_true, UInt16.toNat_inj, UInt32.toNat_inj] at hrest
    rw [FixedBytes.digits_injective 16 hip, hrest.1, hrest.2.1, hrest.2.2]
  · obtain ⟨hid, hdata⟩ := List.cons.inj h
    rw [UInt64.toNat_inj.mp hid, hbytes hdata]

instance : LinearOrder TransportAddr := LinearOrder.lift' TransportAddr.key TransportAddr.key_injective

end Addresses

/-- An ordered set is an ordered map to nothing. -/
abbrev BTreeSet (κ : Type) [LinearOrder κ] := BTreeMap κ Unit

structure EndpointAddr [Urls] [Crypto] where
  id : EndpointId
  addrs : BTreeSet TransportAddr
deriving DecidableEq

/-- A drop-owned wire address for a bootstrap node. -/
structure TicketAddrV1 where
  endpoint_id : FixedBytes 32
  relay_url : Option String
  direct_v4 : List (FixedBytes 4 × UInt16)
  direct_v6 : List (FixedBytes 16 × UInt16)
deriving DecidableEq

section Conversion

variable [Urls] [Crypto]

/-- `EndpointAddr::from(id)`: no addresses. -/
def EndpointAddr.of_id (id : EndpointId) : EndpointAddr := ⟨id, ∅⟩

def EndpointAddr.from_parts (id : EndpointId) (addrs : List TransportAddr) : EndpointAddr :=
  ⟨id, BTreeMap.ofList (addrs.map (fun a => (a, ())))⟩

/-- The transports of an address, in the order of the set. -/
def EndpointAddr.transports (self : EndpointAddr) : List TransportAddr :=
  self.addrs.entries.map Prod.fst

/-- One transport of an address goes into its wire form. A relay replaces
the relay before it. -/
def TicketAddrV1.add (out : TicketAddrV1) : TransportAddr → TicketAddrV1
  | .Relay url => { out with relay_url := some url.to_string }
  | .Ip (.V4 ip port) => { out with direct_v4 := out.direct_v4 ++ [(ip, port)] }
  | .Ip (.V6 ip port _ _) => { out with direct_v6 := out.direct_v6 ++ [(ip, port)] }
  | .Custom _ _ => out

def TicketAddrV1.from (addr : EndpointAddr) : TicketAddrV1 :=
  addr.transports.foldl TicketAddrV1.add
    { endpoint_id := addr.id.as_bytes, relay_url := none, direct_v4 := [], direct_v6 := [] }

/-- The relay of a wire address, if it has one. -/
def TicketAddrV1.relay (wire : TicketAddrV1) : Except TicketError (List TransportAddr) :=
  match wire.relay_url with
  | none => .ok []
  | some url => do
    let url ← ok_or (RelayUrl.parse url) (.Malformed "bootstrap relay url")
    return [.Relay url]

/-- `EndpointAddr::try_from`. -/
def EndpointAddr.try_from (wire : TicketAddrV1) : Except TicketError EndpointAddr := do
  let id ← ok_or (EndpointId.from_bytes wire.endpoint_id) (.Malformed "bootstrap endpoint id")
  let relay ← wire.relay
  return .from_parts id (relay ++ wire.direct_v4.map (fun a => .Ip (.V4 a.1 a.2)) ++
    wire.direct_v6.map (fun a => .Ip (.V6 a.1 a.2 0 0)))

end Conversion

/-! ## Modes -/

/-- The mode of a drop: plain frames of family 3, or sealed ones of family 4. -/
inductive DropMode where
  | Public
  | Sealed
deriving DecidableEq

def DropMode.from_wire (v : UInt8) : Except TicketError DropMode :=
  if v = 0 then .ok .Public
  else if v = 1 then .ok .Sealed
  else .error (.Malformed s!"unknown mode {v}")

def DropMode.to_wire : DropMode → UInt8
  | .Public => 0
  | .Sealed => 1

@[simp] theorem DropMode.from_to_wire (m : DropMode) : from_wire m.to_wire = .ok m := by
  cases m <;> rfl

/-! ## Tickets -/

structure DropTicketOptionsV1 where
  auto_fetch_recommended : Bool := false
  display_name : Option String := none
deriving DecidableEq

structure DropTicketV1 where
  version : UInt16
  topic_id : FixedBytes 32
  bootstrap_nodes : List TicketAddrV1
  options : DropTicketOptionsV1
  mode : UInt8
  drop_key : Option (FixedBytes 32)
deriving DecidableEq

def TicketAddrV1.codec : Codec TicketAddrV1 :=
  .imap (.pair (.fixed 32) (.pair (.option .string)
      (.pair (.list (.pair (.fixed 4) .u16)) (.list (.pair (.fixed 16) .u16)))))
    (fun p => ⟨p.1, p.2.1, p.2.2.1, p.2.2.2⟩)
    (fun a => (a.endpoint_id, a.relay_url, a.direct_v4, a.direct_v6)) (fun _ => rfl)

def DropTicketOptionsV1.codec : Codec DropTicketOptionsV1 :=
  .imap (.pair .bool (.option .string)) (fun p => ⟨p.1, p.2⟩)
    (fun o => (o.auto_fetch_recommended, o.display_name)) (fun _ => rfl)

def DropTicketV1.codec : Codec DropTicketV1 :=
  .imap (.pair .u16 (.pair (.fixed 32) (.pair (.list TicketAddrV1.codec)
      (.pair DropTicketOptionsV1.codec (.pair .u8 (.option (.fixed 32)))))))
    (fun p => ⟨p.1, p.2.1, p.2.2.1, p.2.2.2.1, p.2.2.2.2.1, p.2.2.2.2.2⟩)
    (fun t => (t.version, t.topic_id, t.bootstrap_nodes, t.options, t.mode, t.drop_key))
    (fun _ => rfl)

/-- A ticket whose mode is one of the known ones, as construction and decode
make sure. -/
structure DropTicket where
  V1 : DropTicketV1
  mode_known : ∃ m, DropMode.from_wire V1.mode = .ok m

namespace DropTicket

@[ext] theorem ext {a b : DropTicket} (h : a.V1 = b.V1) : a = b := by
  cases a; cases b; simp_all

def mode (self : DropTicket) : DropMode :=
  match h : DropMode.from_wire self.V1.mode with
  | .ok m => m
  | .error _ => False.elim (by obtain ⟨m, hm⟩ := self.mode_known; rw [hm] at h; cases h)

theorem from_wire_mode (self : DropTicket) : DropMode.from_wire self.V1.mode = .ok self.mode := by
  obtain ⟨m, hm⟩ := self.mode_known
  unfold mode
  split
  · assumption
  · rename_i h
    rw [hm] at h
    cases h

def drop_key (self : DropTicket) : Option DropKey := self.V1.drop_key.map DropKey.mk

/-- A ticket that lists no nodes: private with a key, public without one. -/
def nodeless (topic_id : FixedBytes 32) : Option DropKey → DropTicket
  | none =>
    { V1 := { version := TICKET_SCHEMA_VERSION, topic_id, bootstrap_nodes := [], options := {}
              mode := 0, drop_key := none }
      mode_known := ⟨.Public, rfl⟩ }
  | some key =>
    { V1 := { version := TICKET_SCHEMA_VERSION, topic_id, bootstrap_nodes := [], options := {}
              mode := 1, drop_key := some key.as_bytes }
      mode_known := ⟨.Sealed, rfl⟩ }

section Nodes

variable [Urls] [Crypto]

def new (topic_id : FixedBytes 32) (bootstrap_nodes : List EndpointAddr)
    (options : DropTicketOptionsV1) : DropTicket where
  V1 := { version := TICKET_SCHEMA_VERSION, topic_id
          bootstrap_nodes := bootstrap_nodes.map TicketAddrV1.from, options
          mode := DropMode.Public.to_wire, drop_key := none }
  mode_known := ⟨.Public, rfl⟩

def new_private (topic_id : FixedBytes 32) (bootstrap_nodes : List EndpointAddr)
    (options : DropTicketOptionsV1) (drop_key : DropKey) : DropTicket where
  V1 := { version := TICKET_SCHEMA_VERSION, topic_id
          bootstrap_nodes := bootstrap_nodes.map TicketAddrV1.from, options
          mode := DropMode.Sealed.to_wire, drop_key := some drop_key.as_bytes }
  mode_known := ⟨.Sealed, rfl⟩

/-- The ticket of a blind relay. -/
def without_key (self : DropTicket) : DropTicket :=
  { self with V1 := { self.V1 with drop_key := none } }

def bootstrap_nodes (self : DropTicket) : List EndpointAddr :=
  self.V1.bootstrap_nodes.filterMap (fun a => (EndpointAddr.try_from a).toOption)

def set_bootstrap_nodes (self : DropTicket) (nodes : List EndpointAddr) : DropTicket :=
  { self with V1 := { self.V1 with bootstrap_nodes := nodes.map TicketAddrV1.from } }

/-- The checks on one bootstrap address. -/
def validate_node (node : TicketAddrV1) : Except TicketError Unit := do
  ensure (node.direct_v4.length ≤ MAX_DIRECT_ADDRS ∧ node.direct_v6.length ≤ MAX_DIRECT_ADDRS)
    (.Malformed "too many direct addresses")
  ensure (∀ url ∈ node.relay_url, url.utf8ByteSize ≤ MAX_RELAY_URL_LEN)
    (.Malformed "relay url too long")
  let _ ← EndpointAddr.try_from node

def validate (ticket : DropTicketV1) : Except TicketError Unit := do
  let mode ← DropMode.from_wire ticket.mode
  ensure (¬(mode = .Public ∧ ticket.drop_key.isSome))
    (.Malformed "public ticket must not carry a drop key")
  ensure (ticket.bootstrap_nodes.length ≤ MAX_BOOTSTRAP_NODES)
    (.TooManyBootstrap ticket.bootstrap_nodes.length)
  check_all validate_node ticket.bootstrap_nodes
  ensure (∀ name ∈ ticket.options.display_name, name.utf8ByteSize ≤ MAX_DISPLAY_NAME_LEN)
    .DisplayNameTooLong

theorem mode_of_validate {ticket : DropTicketV1} {u : Unit} (h : validate ticket = .ok u) :
    ∃ m, DropMode.from_wire ticket.mode = .ok m := by
  obtain ⟨m, hm, -⟩ := bind_eq_ok.mp h
  exact ⟨m, hm⟩

end Nodes

/-! ## The string form -/

/-- `str::len`: the bytes of the UTF-8 form. -/
def str_len (s : List Char) : Nat := (s.map Char.utf8Size).sum

/-- `char::is_whitespace`: the property `White_Space`. -/
def is_whitespace (c : Char) : Bool :=
  (0x09 ≤ c.toNat && c.toNat ≤ 0x0D) || c.toNat = 0x20 || c.toNat = 0x85 || c.toNat = 0xA0 ||
    c.toNat = 0x1680 || (0x2000 ≤ c.toNat && c.toNat ≤ 0x200A) || c.toNat = 0x2028 ||
    c.toNat = 0x2029 || c.toNat = 0x202F || c.toNat = 0x205F || c.toNat = 0x3000

/-- `str::trim`. -/
def trim (s : List Char) : List Char :=
  ((s.dropWhile is_whitespace).reverse.dropWhile is_whitespace).reverse

/-- `str::strip_prefix`. -/
def strip_prefix (lead s : List Char) : Option (List Char) :=
  if lead <+: s then some (s.drop lead.length) else none

def to_ascii_lowercase (s : List Char) : List Char := s.map Char.toLower
def to_ascii_uppercase (s : List Char) : List Char := s.map Char.toUpper

/-- How a base32 error reads. The position that it names is left out. -/
def base32_text : base32.Error → String
  | .Symbol => "invalid symbol"
  | .Length => "invalid length"
  | .Trailing => "non-zero trailing bits"

def to_string_prefixed (self : DropTicket) : List Char :=
  TICKET_PREFIX ++ to_ascii_lowercase (base32.encode (DropTicketV1.codec.write self.V1))

/-- The bytes that a ticket string stands for. -/
def ticket_bytes (s : List Char) : Except TicketError Bytes := do
  let s := trim s
  ensure (str_len s ≤ MAX_TICKET_LEN) (.TooLong (str_len s))
  let encoded ← ok_or
    (match strip_prefix TICKET_PREFIX s with
      | some encoded => some encoded
      | none => strip_prefix LEGACY_TICKET_PREFIX s) .BadPrefix
  match base32.decode (to_ascii_uppercase encoded) with
  | .ok bytes => return bytes
  | .error e => throw (.Malformed s!"base32: {base32_text e}")

def from_string_prefixed [Urls] [Crypto] (s : List Char) : Except TicketError DropTicket := do
  let bytes ← ticket_bytes s
  let ticket ← match DropTicketV1.codec.read bytes with
    | .ok (ticket, _rest) => .ok ticket
    | .error e => .error (.Malformed s!"postcard: {error_text e}")
  ensure (ticket.version = TICKET_SCHEMA_VERSION) (.UnsupportedVersion ticket.version)
  match h : validate ticket with
  | .ok _ => return ⟨ticket, mode_of_validate h⟩
  | .error e => throw e

end DropTicket

end iroh_drop
