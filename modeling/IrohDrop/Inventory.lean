-- The listing of a drop, and the picks of a user in it (inventory.rs,
-- state.rs, hash.rs).
import IrohDrop.Collections
import IrohDrop.PublishedOffers

namespace rust_std

def BTreeMap.get {κ ν : Type} [LinearOrder κ] (m : BTreeMap κ ν) (k : κ) : Option ν :=
  (m.entries.find? (fun e => decide (e.1 = k))).map Prod.snd

end rust_std

open rust_std

namespace iroh_drop

/-! ## Text -/

/-- `char::is_whitespace`. -/
def is_whitespace (c : Char) : Bool :=
  let n := c.toNat
  decide ((9 ≤ n ∧ n ≤ 13) ∨ n = 0x20 ∨ n = 0x85 ∨ n = 0xa0 ∨ n = 0x1680 ∨
    (0x2000 ≤ n ∧ n ≤ 0x200a) ∨ n = 0x2028 ∨ n = 0x2029 ∨ n = 0x202f ∨ n = 0x205f ∨ n = 0x3000)

/-- `str::trim`. -/
def str_trim (s : String) : String :=
  String.ofList ((s.toList.dropWhile is_whitespace).reverse.dropWhile is_whitespace).reverse

/-- The value of some decimal digits. -/
def decimal : List Char → Nat → Option Nat
  | [], value => some value
  | c :: rest, value =>
    if '0' ≤ c ∧ c ≤ '9' then decimal rest (10 * value + (c.toNat - '0'.toNat)) else none

/-- `str::parse::<u64>`, which `str::parse::<usize>` is as well. -/
def parse_u64 (s : String) : Option Nat :=
  let digits := match s.toList with
    | '+' :: rest => rest
    | all => all
  if digits = [] then none else (decimal digits 0).filter (fun value => decide (value < 2 ^ 64))

def to_ascii_lowercase (s : String) : String :=
  String.ofList (s.toList.map (fun c =>
    if 'A' ≤ c ∧ c ≤ 'Z' then Char.ofNat (c.toNat + 32) else c))

def BlobHash.matches_prefix (self : BlobHash) (p : String) : Bool :=
  let p := to_ascii_lowercase (str_trim p)
  decide (p ≠ "") && p.toList.isPrefixOf self.to_hex.toList

/-! ## Names -/

/-- Why a hash or a name was not found. -/
inductive ResolveOfferError where
  | NotFound
  | Ambiguous (candidates : List BlobHash)
deriving DecidableEq

variable [Crypto]

namespace DropState

/-- The offer has the name, or an alias of it. -/
def goes_by (record : OfferRecord) (name : String) : Bool :=
  decide (record.offer.name = name ∨ name ∈ record.aliases)

/-- Find an offer by hash, by a prefix of the hash that is its own, or by a
name that is its own. -/
def find_offer (self : DropState) (hash_or_name : String) : Except ResolveOfferError BlobHash :=
  match BlobHash.from_hex hash_or_name with
  | .ok hash => .ok hash
  | .error _ =>
    match self.offers.keys.filter (fun hash => hash.matches_prefix hash_or_name) with
    | [hash] => .ok hash
    | [] =>
      match (self.offers.entries.filter (fun e => goes_by e.2 hash_or_name)).map (fun e => e.1) with
      | [] => .error .NotFound
      | [hash] => .ok hash
      | hashes => .error (.Ambiguous hashes)
    | hashes => .error (.Ambiguous hashes)

end DropState

/-! ## The listing -/

structure InventoryItem where
  index : Nat
  name : String
  hash : BlobHash
  size : UInt64
  media_type : Option String
  is_collection : Bool
  members : Option Nat
  content_size : UInt64
  status : LocalBlobStatus
  aliases : List String

/-- One line of the listing. What a publisher says of a collection is not
trusted: where it does not parse, the size of the blob stands. -/
def inventory_item (position : Nat) (record : OfferRecord) : InventoryItem :=
  let is_collection := decide (record.offer.media_type = some COLLECTION_MEDIA_TYPE)
  { index := position + 1
    name := record.offer.name
    hash := record.offer.blob_hash
    size := record.offer.size
    media_type := record.offer.media_type
    is_collection
    members := ((record.offer.metadata.get META_MEMBERS).bind parse_u64).filter
      (fun _ => is_collection)
    content_size := ((((record.offer.metadata.get META_TOTAL_BYTES).bind parse_u64).filter
      (fun _ => is_collection)).map UInt64.ofNat).getD record.offer.size
    status := record.local_status
    aliases := (record.aliases.keys.filter (fun name => decide (name ≠ record.offer.name))).insertionSort
      (fun a b => a ≤ b) }

namespace Session

/-- The listing of a session, first seen first. -/
def inventory (self : Session) : List InventoryItem :=
  self.offers.zipIdx.map (fun p => inventory_item p.2 p.1)

variable [Crates]

/-- The hash that a pick of the user stands for: a number of the listing, a
name or an alias, or a prefix of a hash. -/
def resolve_pick (self : Session) (input : String) : Except SdkError BlobHash :=
  let input := str_trim input
  let items := self.inventory
  if input = "" then .error (.Pick "nothing to pick")
  else
    match parse_u64 input with
    | some index =>
      match items.find? (fun item => decide (item.index = index)) with
      | some item => .ok item.hash
      | none => .error (.Pick s!"no item {index} in this drop ({items.length} known)")
    | none =>
      match items.filter (fun item => decide (item.name = input ∨ input ∈ item.aliases)) with
      | [item] => .ok item.hash
      | [] =>
        match self.state.find_offer input with
        | .ok hash => .ok hash
        | .error _ =>
          match items.filter (fun item => item.hash.matches_prefix input) with
          | [item] => .ok item.hash
          | [] => .error (.Pick s!"nothing here matches {Crates.debug input}; try `list`")
          | matching => .error (.Pick
              s!"{Crates.debug input} matches {matching.length} hashes; use more characters")
      | matching => .error (.Pick
          s!"{Crates.debug input} matches {matching.length} items; pick by number instead")

end Session

/-! ## What is shown -/

namespace DropState

variable {s : DropState}

/-- What a name stands for is in the table, unless the name is a hash itself. -/
theorem find_offer_ok {name : String} {hash : BlobHash} (h : s.find_offer name = .ok hash)
    (hname : BlobHash.from_hex name ≠ .ok hash) : hash ∈ s.offers := by
  unfold find_offer at h
  split at h
  · rename_i parsed hparsed
    cases h
    exact absurd hparsed hname
  · split at h
    · rename_i found hfound
      cases h
      have hmem : hash ∈ s.offers.keys.filter (fun x => x.matches_prefix name) := by
        rw [hfound]
        exact List.mem_singleton_self hash
      exact AList.mem_keys.mpr (List.mem_filter.mp hmem).1
    · split at h
      · cases h
      · rename_i found hfound
        cases h
        have hmem : hash ∈ (s.offers.entries.filter (fun e => goes_by e.2 name)).map
            (fun e => e.1) := by
          rw [hfound]
          exact List.mem_singleton_self hash
        obtain ⟨e, he, rfl⟩ := List.mem_map.mp hmem
        exact AList.mem_keys.mpr (List.mem_map_of_mem (List.mem_filter.mp he).1)
      · cases h
    · cases h

end DropState

namespace Session

variable {s : Session}

theorem mem_inventory {item : InventoryItem} (h : item ∈ s.inventory) :
    ∃ record ∈ s.offers, record.offer.blob_hash = item.hash := by
  obtain ⟨⟨record, position⟩, hmem, rfl⟩ := List.mem_map.mp h
  exact ⟨record, (List.mem_zipIdx hmem).2.2 ▸ List.getElem_mem _, rfl⟩

variable [Crates]

/-- What a pick stands for is listed or in the table, unless it is a hash
itself. -/
theorem resolve_pick_ok {input : String} {hash : BlobHash}
    (h : s.resolve_pick input = .ok hash)
    (hinput : BlobHash.from_hex (str_trim input) ≠ .ok hash) :
    (∃ item ∈ s.inventory, item.hash = hash) ∨ hash ∈ s.state.offers := by
  unfold resolve_pick at h
  simp only at h
  split at h
  · cases h
  · split at h
    · split at h
      · rename_i item hitem
        cases h
        exact .inl ⟨item, List.mem_of_find?_eq_some hitem, rfl⟩
      · cases h
    · split at h
      · rename_i item hitem
        cases h
        have hmem : item ∈ s.inventory.filter
            (fun item => decide (item.name = str_trim input ∨ str_trim input ∈ item.aliases)) := by
          rw [hitem]
          exact List.mem_singleton_self item
        exact .inl ⟨item, (List.mem_filter.mp hmem).1, rfl⟩
      · split at h
        · rename_i found hfound
          cases h
          exact .inr (DropState.find_offer_ok hfound hinput)
        · split at h
          · rename_i item hitem
            cases h
            have hmem : item ∈ s.inventory.filter
                (fun item => item.hash.matches_prefix (str_trim input)) := by
              rw [hitem]
              exact List.mem_singleton_self item
            exact .inl ⟨item, (List.mem_filter.mp hmem).1, rfl⟩
          · cases h
          · cases h
      · cases h

/-- The hash is among the offers, in the listing, or what some name stands for
that is not the hash itself. -/
def shows (s : Session) (hash : BlobHash) : Prop :=
  (∃ record ∈ s.offers, record.offer.blob_hash = hash) ∨
  (∃ item ∈ s.inventory, item.hash = hash) ∨
  (∃ name, BlobHash.from_hex name ≠ .ok hash ∧ s.state.find_offer name = .ok hash) ∨
  ∃ input, BlobHash.from_hex (str_trim input) ≠ .ok hash ∧ s.resolve_pick input = .ok hash

/-- All that is shown comes from the table. -/
theorem shows_iff (h : Keyed s.state) (hash : BlobHash) : s.shows hash ↔ hash ∈ s.state.offers := by
  have hrecord : (∃ record ∈ s.offers, record.offer.blob_hash = hash) ↔ hash ∈ s.state.offers := by
    constructor
    · rintro ⟨record, hmem, rfl⟩
      obtain ⟨x, hlookup⟩ := mem_offers.mp hmem
      rw [h x record hlookup]
      exact AList.lookup_isSome.mp (by rw [hlookup]; rfl)
    · intro hmem
      obtain ⟨record, hlookup⟩ := Option.isSome_iff_exists.mp (AList.lookup_isSome.mpr hmem)
      exact ⟨record, mem_offers.mpr ⟨hash, hlookup⟩, h hash record hlookup⟩
  have hitem : (∃ item ∈ s.inventory, item.hash = hash) → hash ∈ s.state.offers := by
    rintro ⟨item, hmem, rfl⟩
    exact hrecord.mp (mem_inventory hmem)
  constructor
  · rintro (hoffer | hlisted | ⟨name, hname, hfound⟩ | ⟨input, hinput, hpicked⟩)
    · exact hrecord.mp hoffer
    · exact hitem hlisted
    · exact DropState.find_offer_ok hfound hname
    · exact (resolve_pick_ok hpicked hinput).elim hitem id
  · exact fun hmem => .inl (hrecord.mpr hmem)

end Session

end iroh_drop
