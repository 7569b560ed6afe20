-- The list of the hosted drops, with how many files and bytes each one has
-- (`Service::drop_list` in service.rs).
import IrohDrop.Daemon
import IrohDrop.Picks

open rust_std postcard

namespace iroh_drop

/-! ## Sums of 64-bit numbers -/

/-- How the daemon was built: with overflow checks, or without. -/
inductive Profile where
  | dev
  | release

/-- `a + b`. An overflow panics where it is checked, and wraps where it is not. -/
def add_u64 (profile : Profile) (a b : UInt64) : Option UInt64 :=
  if a.toNat + b.toNat < UInt64.size then some (a + b)
  else match profile with
    | .dev => none
    | .release => some (a + b)

/-- `Iterator::sum`. -/
def sum_u64 (profile : Profile) (values : List UInt64) : Option UInt64 :=
  values.foldlM (add_u64 profile) 0

theorem add_u64_of_lt {a b : UInt64} (h : a.toNat + b.toNat < UInt64.size) (profile : Profile) :
    ∃ c, add_u64 profile a b = some c ∧ c.toNat = a.toNat + b.toNat := by
  refine ⟨a + b, if_pos h, ?_⟩
  rw [UInt64.toNat_add]
  exact Nat.mod_eq_of_lt h

theorem foldlM_add_of_lt {values : List UInt64} {start : UInt64}
    (h : start.toNat + (values.map UInt64.toNat).sum < UInt64.size) (profile : Profile) :
    ∃ total, values.foldlM (add_u64 profile) start = some total ∧
      total.toNat = start.toNat + (values.map UInt64.toNat).sum := by
  induction values generalizing start with
  | nil => exact ⟨start, rfl, rfl⟩
  | cons value values ih =>
    rw [List.map_cons, List.sum_cons] at h ⊢
    obtain ⟨next, hnext, hvalue⟩ := add_u64_of_lt (a := start) (b := value) (by omega) profile
    obtain ⟨total, htotal, hsum⟩ := @ih next (by omega)
    refine ⟨total, ?_, by omega⟩
    rw [List.foldlM_cons, hnext]
    exact htotal

theorem foldlM_add_of_ge {values : List UInt64} {start : UInt64}
    (h : UInt64.size ≤ start.toNat + (values.map UInt64.toNat).sum) :
    values.foldlM (add_u64 .dev) start = none := by
  induction values generalizing start with
  | nil =>
    have hlt := start.toNat_lt_size
    simp at h
    omega
  | cons value values ih =>
    rw [List.map_cons, List.sum_cons] at h
    rw [List.foldlM_cons]
    by_cases hfits : start.toNat + value.toNat < UInt64.size
    · obtain ⟨next, hnext, hvalue⟩ := add_u64_of_lt hfits .dev
      rw [hnext]
      exact ih (by omega)
    · rw [add_u64, if_neg hfits]
      rfl

/-- A sum below the limit is what it is in both builds. -/
theorem sum_u64_of_lt {values : List UInt64} (h : (values.map UInt64.toNat).sum < UInt64.size)
    (profile : Profile) :
    ∃ total, sum_u64 profile values = some total ∧
      total.toNat = (values.map UInt64.toNat).sum := by
  obtain ⟨total, htotal, hsum⟩ :=
    @foldlM_add_of_lt values 0 (by simpa using h) profile
  exact ⟨total, htotal, by simpa using hsum⟩

/-- A sum at the limit or above panics where it is checked. -/
theorem sum_u64_of_ge {values : List UInt64} (h : UInt64.size ≤ (values.map UInt64.toNat).sum) :
    sum_u64 .dev values = none :=
  foldlM_add_of_ge (by simpa using h)

theorem parse_u64_lt {s : String} {value : Nat} (h : parse_u64 s = some value) :
    value < UInt64.size := by
  unfold parse_u64 at h
  simp only [] at h
  split at h
  all_goals
    split at h
    · cases h
    · rw [Option.filter_eq_some_iff] at h
      simpa using h.2

section Laws

variable [Crypto]

/-! ## The list -/

/-- A drop of the list. -/
structure DropRow where
  drop : String
  name : Option String
  mine : Bool
  topic : TopicId
  peers : Nat
  offers : Nat
  files : UInt64
  bytes : UInt64
  human_size : String

/-- How many files an item counts as: a folder as its members. -/
def InventoryItem.files (self : InventoryItem) : Nat := self.members.getD 1

/-- One drop of the list; `human_bytes` is how a size is written. -/
def drop_row (human_bytes : UInt64 → String) (profile : Profile) (handle : String)
    (entry : DropEntry) (session : Session) : Option DropRow := do
  let items := session.inventory
  let files ← sum_u64 profile (items.map (fun item => UInt64.ofNat item.files))
  let bytes ← sum_u64 profile (items.map InventoryItem.content_size)
  return {
    drop := handle
    name := entry.name
    mine := entry.mine
    topic := session.topic_id
    peers := HashMap.len session.state.known_peers
    offers := items.length
    files
    bytes
    human_size := human_bytes bytes }

namespace Service

/-- The drops of the table, with their sessions. -/
def listed_drops (self : Service) : List (String × DropEntry × Session) :=
  self.drops.entries.filterMap (fun e =>
    self.sessions[e.2.session]?.map (fun hosted => (e.1, e.2, hosted.session)))

/-- `drop.list`. Nothing is what a panic leaves. -/
def drop_list (self : Service) (human_bytes : UInt64 → String) (profile : Profile) :
    Option (List DropRow) := do
  let list ← self.listed_drops.mapM (fun d => drop_row human_bytes profile d.1 d.2.1 d.2.2)
  return list.insertionSort (fun a b => a.drop ≤ b.drop)

end Service

/-! ## What it says of a drop -/

namespace Session

/-- The files of a drop. -/
def total_files (self : Session) : Nat := (self.inventory.map InventoryItem.files).sum

/-- The bytes of a drop. -/
def total_bytes (self : Session) : Nat :=
  (self.inventory.map (fun item => item.content_size.toNat)).sum

/-- Both totals of a drop fit their types. -/
def TotalsFit (self : Session) : Prop :=
  self.total_files < UInt64.size ∧ self.total_bytes < UInt64.size

end Session

/-- The row has the totals of the session, or as much of them as fits. -/
structure DropRow.Counts (row : DropRow) (session : Session) : Prop where
  files : row.files.toNat = min session.total_files (UInt64.size - 1)
  bytes : row.bytes.toNat = min session.total_bytes (UInt64.size - 1)

/-- However the daemon was built, the list is there, and has every drop of the
table with its totals. -/
def Service.ListsTotals (self : Service) (human_bytes : UInt64 → String) : Prop :=
  ∀ profile, ∃ rows, self.drop_list human_bytes profile = some rows ∧
    rows.length = self.listed_drops.length ∧
    ∀ d ∈ self.listed_drops, ∃ row ∈ rows, row.drop = d.1 ∧ row.Counts d.2.2

/-- A count that was read fits its type. -/
theorem inventory_item_files_lt (position : Nat) (record : OfferRecord) :
    (inventory_item position record).files < UInt64.size := by
  unfold InventoryItem.files
  rcases hmembers : (inventory_item position record).members with _ | members
  · decide
  · have hsome : ((record.offer.metadata.get META_MEMBERS).bind parse_u64).filter
        (fun _ => decide (record.offer.media_type = some COLLECTION_MEDIA_TYPE)) = some members :=
      hmembers
    rw [Option.filter_eq_some_iff, Option.bind_eq_some_iff] at hsome
    obtain ⟨⟨text, -, hparsed⟩, -⟩ := hsome
    exact parse_u64_lt hparsed

theorem Session.inventory_files_lt {s : Session} {item : InventoryItem} (h : item ∈ s.inventory) :
    item.files < UInt64.size := by
  obtain ⟨p, -, rfl⟩ := List.mem_map.mp h
  exact inventory_item_files_lt p.2 p.1

theorem Session.files_sum (s : Session) :
    ((s.inventory.map (fun item => UInt64.ofNat item.files)).map UInt64.toNat).sum =
      s.total_files := by
  unfold Session.total_files
  rw [List.map_map]
  congr 1
  apply List.map_congr_left
  intro item hitem
  exact UInt64.toNat_ofNat_of_lt' (s.inventory_files_lt hitem)

theorem Session.bytes_sum (s : Session) :
    ((s.inventory.map InventoryItem.content_size).map UInt64.toNat).sum = s.total_bytes := by
  rw [List.map_map]
  rfl

/-- A drop whose totals fit has its row, which counts them. -/
theorem drop_row_of_fit {session : Session} (h : session.TotalsFit)
    (human_bytes : UInt64 → String) (profile : Profile) (handle : String) (entry : DropEntry) :
    ∃ row, drop_row human_bytes profile handle entry session = some row ∧
      row.drop = handle ∧ row.Counts session := by
  obtain ⟨files, hfiles, hfiles'⟩ :=
    sum_u64_of_lt (by rw [session.files_sum]; exact h.1) profile
  obtain ⟨bytes, hbytes, hbytes'⟩ :=
    sum_u64_of_lt (by rw [session.bytes_sum]; exact h.2) profile
  rw [session.files_sum] at hfiles'
  rw [session.bytes_sum] at hbytes'
  refine ⟨_, by simp only [drop_row, hfiles, hbytes]; rfl, rfl, ?_, ?_⟩
  · have hlt := h.1
    rw [hfiles']
    omega
  · have hlt := h.2
    rw [hbytes']
    omega

/-- One whose totals do not fit has none, where overflows are checked. -/
theorem fit_of_drop_row {session : Session} {human_bytes : UInt64 → String} {handle : String}
    {entry : DropEntry} {row : DropRow}
    (h : drop_row human_bytes .dev handle entry session = some row) : session.TotalsFit := by
  simp only [drop_row, Option.bind_eq_bind, Option.bind_eq_some_iff] at h
  obtain ⟨files, hfiles, bytes, hbytes, -⟩ := h
  constructor
  · by_contra hlarge
    rw [sum_u64_of_ge (by rw [session.files_sum]; exact Nat.le_of_not_lt hlarge)] at hfiles
    cases hfiles
  · by_contra hlarge
    rw [sum_u64_of_ge (by rw [session.bytes_sum]; exact Nat.le_of_not_lt hlarge)] at hbytes
    cases hbytes

/-- The list is there with all totals just when those of every drop fit. -/
theorem drop_list_totals_iff (self : Service) (human_bytes : UInt64 → String) :
    self.ListsTotals human_bytes ↔ ∀ d ∈ self.listed_drops, d.2.2.TotalsFit := by
  constructor
  · intro hlists d hd
    obtain ⟨rows, hrows, -, -⟩ := hlists .dev
    unfold Service.drop_list at hrows
    rw [Option.bind_eq_bind, Option.bind_eq_some_iff] at hrows
    obtain ⟨list, hlist, -⟩ := hrows
    obtain ⟨row, -, hrow⟩ := forall₂_of_mem (mapM_eq_some.mp hlist).flip hd
    exact fit_of_drop_row hrow
  · intro hfit profile
    have hall : ∀ d ∈ self.listed_drops, ∃ row,
        drop_row human_bytes profile d.1 d.2.1 d.2.2 = some row ∧ row.drop = d.1 ∧
          row.Counts d.2.2 :=
      fun d hd => drop_row_of_fit (hfit d hd) human_bytes profile d.1 d.2.1
    obtain ⟨list, hlist⟩ := mapM_isSome (fun d hd => (hall d hd).imp fun _ h => h.1)
    have hmatch := mapM_eq_some.mp hlist
    refine ⟨_, by rw [Service.drop_list, hlist]; rfl, ?_, ?_⟩
    · rw [List.length_insertionSort]
      exact hmatch.length_eq.symm
    · intro d hd
      obtain ⟨row, hmem, hrow⟩ := forall₂_of_mem hmatch.flip hd
      obtain ⟨row', hrow', hdrop, hcounts⟩ := hall d hd
      cases hrow.symm.trans hrow'
      exact ⟨row, (List.mem_insertionSort _).mpr hmem, hdrop, hcounts⟩

end Laws

namespace huge_sizes

local instance : Crypto := Crypto.clear

local instance : Urls := Urls.verbatim

open Service (Act)

def self_addr : EndpointAddr := .of_id (SecretKey.public ⟨.fill 32 1⟩)

def options : CreateOptions :=
  { «private» := false, auto_fetch_recommended := false, display_name := none }

def topic : TopicId := ⟨.fill 32 8⟩

/-- Somebody who offers what is as large as a number can say. -/
def offer (n : UInt8) : OfferV1 :=
  { blob_hash := ⟨.fill 32 n⟩, name := "a", size := 0xffffffffffffffff, media_type := none
    created_at_ms := none, metadata := ∅ }

def frame (n : UInt8) : Bytes :=
  match (MessageV1.new (.Offer (offer n)) (.fill 16 n) 0).encode ⟨.fill 32 2⟩ topic with
  | .ok bytes => bytes
  | .error _ => []

def hears (n : UInt8) : Act :=
  .session_step 0 (.received (frame n) (SecretKey.public ⟨.fill 32 2⟩)
    { draw := { now := n.toNat, sent_at_ms := 0, id := .fill 16 0, nonce := .fill 24 0
                carried := .ok () }
      announced_at_ms := 0 })

/-- A drop is created, and some offers come. -/
def acts (offers : List UInt8) : List Act :=
  [.drop_create options topic ⟨.fill 32 0⟩, .connected 0 (.ok ()) (fun _ => .NotFound), .settle 0,
   .answer 0] ++ offers.map hears

def daemon (offers : List UInt8) : Service :=
  (Service.new ⟨.fill 32 1⟩ {}).run self_addr (acts offers)

/-- Two offers of that size are more than a list can count. -/
theorem two_offers_break_the_list :
    ¬ ∀ [Crypto] [Urls] (self_addr : EndpointAddr) (secret : SecretKey) (policy : DropPolicy)
      (acts : List Act) (human_bytes : UInt64 → String),
      ((Service.new secret policy).run self_addr acts).ListsTotals human_bytes := by
  intro h
  obtain ⟨rows, hrows, -⟩ := h self_addr ⟨.fill 32 1⟩ {} (acts [1, 2]) (fun _ => "") .dev
  have hnone : ((daemon [1, 2]).drop_list (fun _ => "") .dev).isNone = true := by decide +kernel
  have hsome : (daemon [1, 2]).drop_list (fun _ => "") .dev = some rows := hrows
  rw [hsome] at hnone
  cases hnone

end huge_sizes

end iroh_drop
