-- What an input denotes among the offers, and when the answer of `find_offer`
-- is that (state.rs).
import IrohDrop.Inventory

open rust_std

namespace iroh_drop

section Laws

/-! ## Answers -/

/-- What a list of candidates comes to: one is the answer, several are an
error. -/
def pick_only : List BlobHash → Except ResolveOfferError BlobHash
  | [] => .error .NotFound
  | [hash] => .ok hash
  | hashes => .error (.Ambiguous hashes)

/-- The answer tells the hashes with the property, and only these: the one that
there is, each of several once, or that there is none. -/
def Tells (answer : Except ResolveOfferError BlobHash) (P : BlobHash → Prop) : Prop :=
  match answer with
  | .ok hash => ∀ x, P x ↔ x = hash
  | .error .NotFound => ∀ x, ¬ P x
  | .error (.Ambiguous hashes) => 2 ≤ hashes.length ∧ hashes.Nodup ∧ ∀ x, P x ↔ x ∈ hashes

theorem tells_pick_only {hashes : List BlobHash} (h : hashes.Nodup) :
    Tells (pick_only hashes) (fun x => x ∈ hashes) := by
  match hashes with
  | [] => exact fun x hx => List.not_mem_nil hx
  | [hash] => exact fun x => List.mem_singleton
  | first :: second :: rest =>
    exact ⟨by simp, h, fun x => Iff.rfl⟩

/-- An answer tells one property only. -/
theorem Tells.iff {answer : Except ResolveOfferError BlobHash} {P Q : BlobHash → Prop}
    (h : Tells answer P) : Tells answer Q ↔ ∀ x, P x ↔ Q x := by
  constructor
  · intro h' x
    match answer, h, h' with
    | .ok hash, h, h' => rw [h x, h' x]
    | .error .NotFound, h, h' => exact ⟨fun hp => absurd hp (h x), fun hq => absurd hq (h' x)⟩
    | .error (.Ambiguous hashes), h, h' => rw [h.2.2 x, h'.2.2 x]
  · intro heq
    have hsame : P = Q := funext fun x => propext (heq x)
    rwa [← hsame]

variable [Crypto]

namespace DropState

variable {s : DropState}

/-! ## Readings -/

/-- The input is a prefix of the hash of an offer. -/
def starts (self : DropState) (input : String) (hash : BlobHash) : Prop :=
  hash ∈ self.offers ∧ hash.matches_prefix input

/-- The input is the display name of an offer, or an alias. -/
def named (self : DropState) (input : String) (hash : BlobHash) : Prop :=
  ∃ record, self.offers.lookup hash = some record ∧ goes_by record input

/-- The input stands for the offer in one of its readings. -/
def denotes (self : DropState) (input : String) (hash : BlobHash) : Prop :=
  self.starts input hash ∨ self.named input hash

def prefix_matches (self : DropState) (input : String) : List BlobHash :=
  self.offers.keys.filter (fun hash => hash.matches_prefix input)

def name_matches (self : DropState) (input : String) : List BlobHash :=
  (self.offers.entries.filter (fun e => goes_by e.2 input)).map (fun e => e.1)

theorem mem_prefix_matches {input : String} {hash : BlobHash} :
    hash ∈ s.prefix_matches input ↔ s.starts input hash := by
  unfold prefix_matches starts
  rw [List.mem_filter, AList.mem_keys]

theorem mem_name_matches {input : String} {hash : BlobHash} :
    hash ∈ s.name_matches input ↔ s.named input hash := by
  unfold name_matches named
  simp only [List.mem_map, List.mem_filter]
  constructor
  · rintro ⟨e, ⟨he, hname⟩, rfl⟩
    exact ⟨e.2, (List.mem_dlookup_iff s.offers.nodupKeys).mpr he, hname⟩
  · rintro ⟨record, hrecord, hname⟩
    exact ⟨⟨hash, record⟩, ⟨(List.mem_dlookup_iff s.offers.nodupKeys).mp hrecord, hname⟩, rfl⟩

theorem nodup_prefix_matches (s : DropState) (input : String) :
    (s.prefix_matches input).Nodup :=
  s.offers.keys_nodup.filter _

theorem nodup_name_matches (s : DropState) (input : String) : (s.name_matches input).Nodup :=
  s.offers.keys_nodup.sublist (List.filter_sublist.map _)

/-! ## The lookup -/

/-- The readings are tried in turn, and the first that finds something decides. -/
theorem find_offer_eq {input : String} (h : ∀ hash, BlobHash.from_hex input ≠ .ok hash) :
    s.find_offer input = if s.prefix_matches input = [] then pick_only (s.name_matches input)
      else pick_only (s.prefix_matches input) := by
  unfold find_offer
  split
  · rename_i hash hparsed
    exact absurd hparsed (h hash)
  · have hprefixes : s.offers.keys.filter (fun hash => hash.matches_prefix input) =
        s.prefix_matches input := rfl
    have hnames : (s.offers.entries.filter (fun e => goes_by e.2 input)).map (fun e => e.1) =
        s.name_matches input := rfl
    rw [hprefixes, hnames]
    split
    · rename_i hash hfound
      rw [hfound, if_neg (List.cons_ne_nil _ _)]
      rfl
    · rename_i hfound
      rw [hfound, if_pos rfl]
      split <;> simp_all [pick_only]
    · rename_i hmany hnone
      rw [if_neg hnone]
      unfold pick_only
      split
      · contradiction
      · exact absurd ‹_› (hmany _)
      · rfl

/-- The answer is what the input denotes in any of its readings. -/
def NeverGuesses (self : DropState) (input : String) : Prop :=
  Tells (self.find_offer input) (self.denotes input)

/-- The lookup of an input that is no full hash never guesses just when no hash
of an offer starts with the input, or the hash of each offer of that name does. -/
theorem never_guesses_iff (s : DropState) (input : String)
    (hinput : ∀ hash, BlobHash.from_hex input ≠ .ok hash) :
    s.NeverGuesses input ↔
      (∀ hash, ¬ s.starts input hash) ∨ ∀ hash, s.named input hash → s.starts input hash := by
  unfold NeverGuesses
  rw [find_offer_eq hinput]
  by_cases hnone : s.prefix_matches input = []
  · have hstarts : ∀ hash, ¬ s.starts input hash := by
      intro hash hstart
      rw [← mem_prefix_matches, hnone] at hstart
      cases hstart
    rw [if_pos hnone, (tells_pick_only (s.nodup_name_matches input)).iff]
    refine ⟨fun _ => .inl hstarts, fun _ hash => ?_⟩
    rw [mem_name_matches]
    exact ⟨.inr, fun hdenotes => hdenotes.resolve_left (hstarts hash)⟩
  · obtain ⟨first, hfirst⟩ := List.exists_mem_of_ne_nil _ hnone
    rw [if_neg hnone, (tells_pick_only (s.nodup_prefix_matches input)).iff]
    constructor
    · exact fun h => .inr fun hash hname => mem_prefix_matches.mp ((h hash).mpr (.inr hname))
    · rintro (hstarts | hnamed) hash
      · exact absurd (mem_prefix_matches.mp hfirst) (hstarts first)
      · rw [mem_prefix_matches]
        exact ⟨.inl, fun hdenotes => hdenotes.elim id (hnamed hash)⟩

end DropState

end Laws

/-! ## A name that is a prefix -/

namespace shadowed_name

local instance : Crypto := Crypto.clear

def author : EndpointId := SecretKey.public ⟨.fill 32 1⟩

def offer (hash : BlobHash) (name : String) : OfferV1 :=
  { blob_hash := hash, name, size := 1, media_type := none, created_at_ms := none, metadata := ∅ }

/-- The offer of a file, and another one whose hash starts with the name. -/
def table : DropState :=
  let s := (DropState.new author).record_offer author (offer ⟨.fill 32 7⟩ "cafe") 0
  (s.2.record_offer (SecretKey.public ⟨.fill 32 2⟩)
    (offer ⟨⟨0xca :: 0xfe :: List.replicate 30 0, by decide⟩⟩ "notes") 0).2

/-- An input of another length than a hash has is none. -/
theorem no_full_hash {input : String} (h : input.utf8ByteSize ≠ 64) (hash : BlobHash) :
    BlobHash.from_hex input ≠ .ok hash := by
  intro hparsed
  simp only [BlobHash.from_hex, bind_eq_ok, ensure_eq_ok] at hparsed
  obtain ⟨-, hlength, -⟩ := hparsed
  exact h hlength

/-- The name of one offer resolves to another. -/
theorem a_hash_shadows_a_name :
    ¬ ∀ [Crypto] (s : DropState) (input : String), (∀ hash, BlobHash.from_hex input ≠ .ok hash) →
      s.NeverGuesses input := by
  intro h
  have hfound : table.find_offer "cafe" =
      .ok ⟨⟨0xca :: 0xfe :: List.replicate 30 0, by decide⟩⟩ := by decide +kernel
  have htells := h table "cafe" (no_full_hash (by decide +kernel))
  unfold DropState.NeverGuesses at htells
  rw [hfound] at htells
  have hnamed : table.named "cafe" ⟨.fill 32 7⟩ := by
    refine ⟨_, (by rfl : table.offers.lookup ⟨.fill 32 7⟩ = some _), ?_⟩
    decide +kernel
  exact absurd ((htells _).mp (.inr hnamed)) (by decide +kernel)

/-- A name that is no prefix of a hash. -/
theorem a_plain_name_is_found :
    table.NeverGuesses "notes" ↔
      (∀ hash, ¬ table.starts "notes" hash) ∨
        ∀ hash, table.named "notes" hash → table.starts "notes" hash :=
  DropState.never_guesses_iff table "notes" (no_full_hash (by decide +kernel))

end shadowed_name

end iroh_drop
