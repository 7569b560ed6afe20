-- What a pick of the user comes to: a number of the listing, and the name of an item,
-- read in the order of the source (inventory.rs).
import IrohDrop.Inventory

open rust_std

namespace iroh_drop

/-! ## Lists without repetitions -/

/-- Exactly one element passes, and it is this one. -/
theorem filter_eq_singleton_iff {α : Type} {l : List α} (hn : l.Nodup) {p : α → Bool} {a : α} :
    l.filter p = [a] ↔ a ∈ l ∧ p a = true ∧ ∀ b ∈ l, p b = true → b = a := by
  constructor
  · intro h
    have hmem : ∀ b, b ∈ l.filter p ↔ b = a := by simp [h]
    obtain ⟨ha, hpa⟩ := List.mem_filter.mp ((hmem a).mpr rfl)
    exact ⟨ha, hpa, fun b hb hpb => (hmem b).mp (List.mem_filter.mpr ⟨hb, hpb⟩)⟩
  · rintro ⟨ha, hpa, honly⟩
    apply List.perm_singleton.mp
    rw [List.perm_ext_iff_of_nodup (hn.filter p) (List.nodup_singleton a)]
    intro b
    rw [List.mem_filter, List.mem_singleton]
    constructor
    · exact fun hb => honly b hb.1 hb.2
    · rintro rfl
      exact ⟨ha, hpa⟩

section Laws

variable [Crypto]

/-! ## Items -/

namespace InventoryItem

/-- The item has the name, or an alias of it. -/
def goes_by (self : InventoryItem) (text : String) : Prop :=
  self.name = text ∨ text ∈ self.aliases

instance (self : InventoryItem) (text : String) : Decidable (self.goes_by text) :=
  inferInstanceAs (Decidable (_ ∨ _))

end InventoryItem

theorem inventory_item_goes_by (position : Nat) (record : OfferRecord) (text : String) :
    (inventory_item position record).goes_by text ↔ DropState.goes_by record text = true := by
  have hkeys : text ∈ record.aliases.keys ↔ text ∈ record.aliases := AList.mem_keys.symm
  simp only [InventoryItem.goes_by, DropState.goes_by, inventory_item, List.mem_insertionSort,
    List.mem_filter, hkeys, decide_eq_true_eq]
  by_cases hname : record.offer.name = text
  · simp [hname]
  · simp [hname, Ne.symm hname]

namespace Session

variable {s : Session}

theorem inventory_getElem? (s : Session) (n : Nat) :
    s.inventory[n]? = s.offers[n]?.map (inventory_item n) := by
  simp [inventory, List.getElem?_map, List.getElem?_zipIdx, Function.comp_def]

theorem inventory_index {n : Nat} {item : InventoryItem} (h : s.inventory[n]? = some item) :
    item.index = n + 1 := by
  rw [inventory_getElem?] at h
  obtain ⟨record, -, rfl⟩ := Option.map_eq_some_iff.mp h
  rfl

/-- The items stand for the records of the table. -/
theorem mem_inventory_iff {hash : BlobHash} {p : InventoryItem → Prop} {q : OfferRecord → Prop}
    (hkeyed : Keyed s.state) (hp : ∀ n record, p (inventory_item n record) ↔ q record) :
    (∃ item ∈ s.inventory, item.hash = hash ∧ p item) ↔
      ∃ record, s.state.offers.lookup hash = some record ∧ q record := by
  constructor
  · rintro ⟨item, hitem, rfl, hpitem⟩
    obtain ⟨n, hn⟩ := List.mem_iff_getElem?.mp hitem
    rw [inventory_getElem?] at hn
    obtain ⟨record, hrecord, rfl⟩ := Option.map_eq_some_iff.mp hn
    obtain ⟨x, hx⟩ := mem_offers.mp (List.mem_of_getElem? hrecord)
    refine ⟨record, ?_, (hp n record).mp hpitem⟩
    rw [← hkeyed x record hx] at hx
    exact hx
  · rintro ⟨record, hlookup, hq⟩
    obtain ⟨n, hn⟩ := List.mem_iff_getElem?.mp (mem_offers.mpr ⟨hash, hlookup⟩)
    refine ⟨inventory_item n record, ?_, hkeyed hash record hlookup, (hp n record).mpr hq⟩
    apply List.mem_of_getElem? (i := n)
    rw [inventory_getElem?, hn]
    rfl

theorem offers_hashes (hkeyed : Keyed s.state) :
    (s.offers.map (fun record => record.offer.blob_hash)).Perm s.state.offers.keys := by
  have hkeys : s.state.offers.entries.map (fun e => e.2.offer.blob_hash) =
      s.state.offers.keys := by
    apply List.map_congr_left
    intro e he
    exact hkeyed e.1 e.2 ((List.mem_dlookup_iff s.state.offers.nodupKeys).mpr he)
  rw [← hkeys]
  unfold offers
  refine ((List.perm_insertionSort _ _).map _).trans (List.Perm.of_eq ?_)
  rw [List.map_map]
  rfl

/-- No hash is listed twice. -/
theorem inventory_hashes (hkeyed : Keyed s.state) :
    (s.inventory.map InventoryItem.hash).Nodup := by
  have hsame : s.inventory.map InventoryItem.hash =
      s.offers.map (fun record => record.offer.blob_hash) := by
    apply List.ext_getElem?
    intro n
    rw [List.getElem?_map, inventory_getElem?, List.getElem?_map, Option.map_map]
    rfl
  rw [hsame]
  exact (offers_hashes hkeyed).nodup_iff.mpr s.state.offers.keys_nodup

theorem inventory_inj (hkeyed : Keyed s.state) {a b : InventoryItem} (ha : a ∈ s.inventory)
    (hb : b ∈ s.inventory) (h : a.hash = b.hash) : a = b :=
  List.inj_on_of_nodup_map (inventory_hashes hkeyed) ha hb h

/-! ## Numbers -/

/-- The item that a number stands for. -/
theorem find_number (s : Session) (n : Nat) :
    s.inventory.find? (fun item => decide (item.index = n)) =
      if n = 0 then none else s.inventory[n - 1]? := by
  rcases hfind : s.inventory.find? (fun item => decide (item.index = n)) with _ | item
  · by_cases hn : n = 0
    · rw [if_pos hn, hfind]
    · rw [if_neg hn, hfind]
      rcases hget : s.inventory[n - 1]? with _ | item
      · rfl
      · have hnone := List.find?_eq_none.mp hfind item (List.mem_of_getElem? hget)
        have hindex := inventory_index hget
        simp only [decide_eq_true_eq] at hnone
        omega
  · obtain ⟨k, hk⟩ := List.mem_iff_getElem?.mp (List.mem_of_find?_eq_some hfind)
    have hindex := inventory_index hk
    have hsame := List.find?_some hfind
    simp only [decide_eq_true_eq] at hsame
    rw [if_neg (by omega)]
    obtain rfl : k = n - 1 := by omega
    rw [hfind, hk]

/-! ## Hashes -/

/-- The text is the hash, or a prefix of it and of no other hash in the listing. -/
def Spells (s : Session) (text : String) (hash : BlobHash) : Prop :=
  match BlobHash.from_hex text with
  | .ok read => read = hash
  | .error _ => hash.matches_prefix text = true ∧
    ∀ other ∈ s.inventory, other.hash.matches_prefix text = true → other.hash = hash

theorem listed_iff (hkeyed : Keyed s.state) (hash : BlobHash) :
    hash ∈ s.state.offers.keys ↔ ∃ item ∈ s.inventory, item.hash = hash := by
  have hitems := @mem_inventory_iff _ s hash (fun _ => True) (fun _ => True) hkeyed (by simp)
  simp only [and_true] at hitems
  rw [hitems, ← AList.mem_keys, ← AList.lookup_isSome, Option.isSome_iff_exists]

/-- Where nobody goes by the text, the table knows it as a hash or not at all. -/
theorem find_offer_unnamed (hkeyed : Keyed s.state) {text : String} {hash : BlobHash}
    (hnone : ∀ item ∈ s.inventory, ¬ item.goes_by text)
    (hlisted : ∃ item ∈ s.inventory, item.hash = hash) :
    s.state.find_offer text = .ok hash ↔ s.Spells text hash := by
  have hnames : s.state.offers.entries.filter (fun e => DropState.goes_by e.2 text) = [] := by
    rw [List.filter_eq_nil_iff]
    intro e he hgoes
    have hlookup : s.state.offers.lookup e.1 = some e.2 :=
      (List.mem_dlookup_iff s.state.offers.nodupKeys).mpr he
    have hitems := @mem_inventory_iff _ s e.1 (fun item => item.goes_by text)
      (fun record => DropState.goes_by record text = true) hkeyed
      (fun n record => inventory_item_goes_by n record text)
    obtain ⟨item, hitem, -, hitemgoes⟩ := hitems.mpr ⟨e.2, hlookup, hgoes⟩
    exact hnone item hitem hitemgoes
  unfold Spells DropState.find_offer
  rcases BlobHash.from_hex text with e | read
  · have hone : s.state.offers.keys.filter (fun x => x.matches_prefix text) = [hash] ↔
        hash.matches_prefix text = true ∧
          ∀ other ∈ s.inventory, other.hash.matches_prefix text = true → other.hash = hash := by
      rw [filter_eq_singleton_iff s.state.offers.keys_nodup]
      constructor
      · rintro ⟨-, hmatches, honly⟩
        exact ⟨hmatches, fun other hother =>
          honly other.hash ((listed_iff hkeyed _).mpr ⟨other, hother, rfl⟩)⟩
      · rintro ⟨hmatches, honly⟩
        refine ⟨(listed_iff hkeyed hash).mpr hlisted, hmatches, fun x hx hxmatches => ?_⟩
        obtain ⟨other, hother, rfl⟩ := (listed_iff hkeyed x).mp hx
        exact honly other hother hxmatches
    simp only [← hone]
    split
    · rename_i x hx
      simp [hx]
    · rename_i hx
      simp [hx, hnames]
    · rename_i hmany hx
      refine iff_of_false (by simp) ?_
      intro hsingle
      exact hmany hash hsingle
  · simp

/-! ## How a name is read -/

/-- When the name of an item, as a pick, comes to the item: how the trimmed name is
read. -/
inductive ComesBack (s : Session) (item : InventoryItem) : Prop where
  | number (read : parse_u64 (str_trim item.name) = some item.index)
  | name (read : parse_u64 (str_trim item.name) = none) (whole : str_trim item.name = item.name)
      (some : item.name ≠ "")
  | alias (read : parse_u64 (str_trim item.name) = none) (some : str_trim item.name ≠ "")
      (known : str_trim item.name ∈ item.aliases)
      (own : ∀ other ∈ s.inventory, other.goes_by (str_trim item.name) → other.hash = item.hash)
  | hash (read : parse_u64 (str_trim item.name) = none) (some : str_trim item.name ≠ "")
      (unknown : ∀ other ∈ s.inventory, ¬ other.goes_by (str_trim item.name))
      (spells : s.Spells (str_trim item.name) item.hash)

theorem ComesBack.number_iff {item : InventoryItem} {n : Nat}
    (hread : parse_u64 (str_trim item.name) = some n) : s.ComesBack item ↔ n = item.index := by
  constructor
  · rintro (hnumber | ⟨hnone, -, -⟩ | ⟨hnone, -, -, -⟩ | ⟨hnone, -, -, -⟩)
    · rw [hread] at hnumber
      exact Option.some.inj hnumber
    all_goals
      rw [hread] at hnone
      cases hnone
  · rintro rfl
    exact .number hread

theorem not_comesBack_blank {item : InventoryItem} (h : str_trim item.name = "") :
    ¬ s.ComesBack item := by
  rintro (hnumber | ⟨-, hwhole, hname⟩ | ⟨-, hleft, -, -⟩ | ⟨-, hleft, -, -⟩)
  · rw [h] at hnumber
    cases hnumber
  · exact hname (hwhole ▸ h)
  · exact hleft h
  · exact hleft h

/-! ## Picks -/

variable [Crates]

/-- A pick that reads as a number is that number of the listing, whatever else it
might be. -/
theorem resolve_pick_number {input : String} {n : Nat} (h : parse_u64 (str_trim input) = some n) :
    (∀ item, s.inventory[n - 1]? = some item → n ≠ 0 → s.resolve_pick input = .ok item.hash) ∧
      ((s.inventory[n - 1]? = none ∨ n = 0) → ∃ e, s.resolve_pick input = .error e) := by
  have hsome : str_trim input ≠ "" := by
    intro hempty
    rw [hempty] at h
    cases h
  unfold resolve_pick
  simp only [hsome, if_false, h, find_number]
  constructor
  · intro item hitem hn
    rw [if_neg hn, hitem]
  · intro hnone
    by_cases hn : n = 0
    · rw [if_pos hn]
      exact ⟨_, rfl⟩
    · rw [if_neg hn, hnone.resolve_right hn]
      exact ⟨_, rfl⟩

/-- A number is the pick of an item just when it is the number of that item. -/
theorem resolve_pick_number_iff (hkeyed : Keyed s.state) {input : String} {n : Nat}
    (hread : parse_u64 (str_trim input) = some n) {item : InventoryItem}
    (hitem : item ∈ s.inventory) : s.resolve_pick input = .ok item.hash ↔ n = item.index := by
  obtain ⟨hfound, hmissing⟩ := @resolve_pick_number _ s _ input n hread
  obtain ⟨k, hk⟩ := List.mem_iff_getElem?.mp hitem
  have hindex := inventory_index hk
  by_cases hn : n = 0
  · obtain ⟨e, he⟩ := hmissing (.inr hn)
    rw [he]
    exact iff_of_false (by simp) (by omega)
  · rcases hat : s.inventory[n - 1]? with _ | other
    · obtain ⟨e, he⟩ := hmissing (.inl hat)
      rw [he]
      refine iff_of_false (by simp) ?_
      rintro rfl
      rw [hindex, Nat.add_sub_cancel, hk] at hat
      cases hat
    · rw [hfound other hat hn]
      have hother := inventory_index hat
      constructor
      · intro hok
        rw [← inventory_inj hkeyed (List.mem_of_getElem? hat) hitem (Except.ok.inj hok)]
        omega
      · rintro rfl
        rw [hindex, Nat.add_sub_cancel, hk] at hat
        rw [Option.some.inj hat]

theorem resolve_pick_blank {input : String} (h : str_trim input = "") :
    s.resolve_pick input = .error (.Pick "nothing to pick") := by
  unfold resolve_pick
  simp [h]

/-- A pick that is no number, and that nobody goes by, is read as a hash. -/
theorem resolve_pick_unnamed (hkeyed : Keyed s.state) {input : String} {hash : BlobHash}
    (hsome : str_trim input ≠ "") (hread : parse_u64 (str_trim input) = none)
    (hnone : ∀ item ∈ s.inventory, ¬ item.goes_by (str_trim input))
    (hlisted : ∃ item ∈ s.inventory, item.hash = hash) :
    s.resolve_pick input = .ok hash ↔ s.Spells (str_trim input) hash := by
  have hnames : s.inventory.filter (fun item =>
      decide (item.name = str_trim input ∨ str_trim input ∈ item.aliases)) = [] := by
    rw [List.filter_eq_nil_iff]
    intro item hitem hgoes
    exact hnone item hitem (of_decide_eq_true hgoes)
  unfold resolve_pick
  simp only [hsome, if_false, hread, hnames]
  rcases hfind : s.state.find_offer (str_trim input) with e | found
  · have hspells : ∀ item ∈ s.inventory, ¬ s.Spells (str_trim input) item.hash := by
      intro item hitem hspells
      have hfound := (find_offer_unnamed hkeyed hnone ⟨item, hitem, rfl⟩).mpr hspells
      rw [hfind] at hfound
      cases hfound
    -- A hash that is alone with its prefix in the listing is alone in the table.
    have hstarts : ∀ item, s.inventory.filter
        (fun item => item.hash.matches_prefix (str_trim input)) ≠ [item] := by
      intro item hsingle
      obtain ⟨hitem, hmatches, honly⟩ :=
        (filter_eq_singleton_iff (inventory_hashes hkeyed).of_map).mp hsingle
      refine hspells item hitem ?_
      unfold Spells
      split
      · rename_i read hhex
        unfold DropState.find_offer at hfind
        rw [hhex] at hfind
        cases hfind
      · exact ⟨hmatches, fun other hother hom => by rw [honly other hother hom]⟩
    obtain ⟨item, hitem, rfl⟩ := hlisted
    refine iff_of_false ?_ (hspells item hitem)
    simp only
    split
    · rename_i x hx
      exact absurd hx (hstarts x)
    · simp
    · simp
  · rw [← find_offer_unnamed hkeyed hnone hlisted, hfind]
    simp

/-- A pick that is no number, and that somebody goes by, is that item's if the others do
not go by it. -/
theorem resolve_pick_named (hkeyed : Keyed s.state) {input : String} {item : InventoryItem}
    (hsome : str_trim input ≠ "") (hread : parse_u64 (str_trim input) = none)
    (hnamed : ∃ other ∈ s.inventory, other.goes_by (str_trim input)) (hitem : item ∈ s.inventory) :
    s.resolve_pick input = .ok item.hash ↔ item.goes_by (str_trim input) ∧
      ∀ other ∈ s.inventory, other.goes_by (str_trim input) → other.hash = item.hash := by
  have hone : s.inventory.filter (fun item =>
      decide (item.name = str_trim input ∨ str_trim input ∈ item.aliases)) = [item] ↔
      item.goes_by (str_trim input) ∧
        ∀ other ∈ s.inventory, other.goes_by (str_trim input) → other.hash = item.hash := by
    rw [filter_eq_singleton_iff (inventory_hashes hkeyed).of_map]
    simp only [decide_eq_true_eq]
    constructor
    · rintro ⟨-, hgoes, honly⟩
      exact ⟨hgoes, fun other hother hog => by rw [honly other hother hog]⟩
    · rintro ⟨hgoes, honly⟩
      exact ⟨hitem, hgoes, fun other hother hog =>
        inventory_inj hkeyed hother hitem (honly other hother hog)⟩
  unfold resolve_pick
  simp only [hsome, if_false, hread, ← hone]
  split
  · rename_i other hother
    have hmem : other ∈ s.inventory := by
      have : other ∈ [other] := List.mem_singleton_self other
      rw [← hother] at this
      exact (List.mem_filter.mp this).1
    rw [hother]
    constructor
    · intro hok
      rw [inventory_inj hkeyed hmem hitem (Except.ok.inj hok)]
    · intro hsame
      rw [(List.cons.inj hsame).1]
  · rename_i hnil
    obtain ⟨other, hother, hgoes⟩ := hnamed
    rw [List.filter_eq_nil_iff] at hnil
    exact absurd (decide_eq_true hgoes) (hnil other hother)
  · rename_i hmany hx
    refine iff_of_false (by simp) ?_
    intro hsingle
    exact hmany item hsingle

theorem pick_by_own_name_iff (hkeyed : Keyed s.state) {item : InventoryItem}
    (hitem : item ∈ s.inventory)
    (hown : ∀ other ∈ s.inventory, other.goes_by item.name → other.hash = item.hash) :
    s.resolve_pick item.name = .ok item.hash ↔ s.ComesBack item := by
  rcases hread : parse_u64 (str_trim item.name) with _ | n
  · by_cases hsome : str_trim item.name = ""
    · rw [resolve_pick_blank hsome]
      exact iff_of_false (by simp) (not_comesBack_blank hsome)
    · by_cases hnamed : ∃ other ∈ s.inventory, other.goes_by (str_trim item.name)
      · rw [resolve_pick_named hkeyed hsome hread hnamed hitem]
        constructor
        · rintro ⟨hwhole | hknown, honly⟩
          · exact .name hread hwhole.symm (fun hempty => hsome (hwhole ▸ hempty))
          · exact .alias hread hsome hknown honly
        · rintro (hnumber | ⟨-, hwhole, -⟩ | ⟨-, -, hknown, honly⟩ | ⟨-, -, hunknown, -⟩)
          · rw [hread] at hnumber
            cases hnumber
          · rw [hwhole]
            exact ⟨.inl rfl, hown⟩
          · exact ⟨.inr hknown, honly⟩
          · obtain ⟨other, hother, hgoes⟩ := hnamed
            exact absurd hgoes (hunknown other hother)
      · have hnone : ∀ other ∈ s.inventory, ¬ other.goes_by (str_trim item.name) :=
          fun other hother hgoes => hnamed ⟨other, hother, hgoes⟩
        rw [resolve_pick_unnamed hkeyed hsome hread hnone ⟨item, hitem, rfl⟩]
        constructor
        · exact fun hspells => .hash hread hsome hnone hspells
        · rintro (hnumber | ⟨-, hwhole, -⟩ | ⟨-, -, hknown, -⟩ | ⟨-, -, -, hspells⟩)
          · rw [hread] at hnumber
            cases hnumber
          · exact absurd (.inl hwhole.symm) (hnone item hitem)
          · exact absurd (.inr hknown) (hnone item hitem)
          · exact hspells
  · rw [resolve_pick_number_iff hkeyed hread hitem, ComesBack.number_iff hread]

end Session

/-- The name of an item that no other item goes by is a pick of that item, exactly when
the trimmed name is read so. -/
theorem pick_by_name_iff [Crates] (secret : SecretKey) (policy : DropPolicy)
    (decider : OfferDecider) (topic_id : TopicId) (ticket : DropTicket) (drop_key : Option DropKey)
    (store : BlobHash → BlobStatus) (steps : List Step) {s : Session}
    (hs : s = (Session.new secret policy decider topic_id ticket drop_key store).run steps)
    {item : InventoryItem} (hitem : item ∈ s.inventory)
    (hown : ∀ other ∈ s.inventory, other.goes_by item.name → other.hash = item.hash) :
    s.resolve_pick item.name = .ok item.hash ↔ s.ComesBack item := by
  subst hs
  have hkeyed : Keyed (Session.new secret policy decider topic_id ticket drop_key store).state :=
    fun x record hlookup => by cases hlookup
  have hinv := runs.invariant Session.step_keyed ⟨tableKept_new secret.public, hkeyed⟩ steps
  exact Session.pick_by_own_name_iff hinv.2 hitem hown

end Laws

/-! ## Names that read as something else -/

namespace picked_names

local instance : Crypto := Crypto.clear

local instance : Crates where
  hash_of _ := ⟨.fill 32 7⟩
  to_vec_pretty _ := .error "no collection"
  from_slice _ := .error "no collection"
  debug s := "\"" ++ s ++ "\""

def topic : TopicId := ⟨.fill 32 8⟩

def member : Session :=
  .new ⟨.fill 32 1⟩ {} PolicyDecider topic (.nodeless topic.as_bytes none) none (fun _ => .NotFound)

def draw (n : UInt8) : Draw :=
  { now := 0, sent_at_ms := 0, id := .fill 16 n, nonce := .fill 24 0, carried := .ok () }

/-- The n-th file that is shared, at the n-th instant. -/
def shared (n : UInt8) (name : String) : Step :=
  .publish_bytes_with name [n] none ∅
    { imported := .ok ⟨.fill 32 n⟩, guessed := none, tag_set := .ok (), now := n.toNat
      created_at_ms := 0, announced_at_ms := 1, offer_draw := draw (2 * n)
      provider_draw := draw (2 * n + 1) }

/-- A drop with a file whose name is the number of another one. -/
def steps : List Step := [shared 1 "2", shared 2 "notes.txt"]

theorem notes_are_picked : ∃ item ∈ (member.run steps).inventory, item.name = "notes.txt" ∧
    ((member.run steps).resolve_pick item.name = .ok item.hash ↔
      (member.run steps).ComesBack item) := by
  have hitem : ∃ item ∈ (member.run steps).inventory, item.name = "notes.txt" ∧
      ∀ other ∈ (member.run steps).inventory, other.goes_by item.name → other.hash = item.hash := by
    decide +kernel
  obtain ⟨item, hmem, hname, hown⟩ := hitem
  exact ⟨item, hmem, hname, pick_by_name_iff ⟨.fill 32 1⟩ {} PolicyDecider topic
    (.nodeless topic.as_bytes none) none (fun _ => .NotFound) steps rfl hmem hown⟩

/-- The pick of the file "2" comes to the notes. -/
theorem the_file_named_two_is_not_picked : ∃ item ∈ (member.run steps).inventory,
    validate_name item.name = .ok () ∧
      (∀ other ∈ (member.run steps).inventory, other.goes_by item.name → other.hash = item.hash) ∧
      ∃ other ∈ (member.run steps).inventory, other.hash ≠ item.hash ∧
        (member.run steps).resolve_pick item.name = .ok other.hash := by
  decide +kernel

end picked_names

end iroh_drop
