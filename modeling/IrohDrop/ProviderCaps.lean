-- The cap on the providers of one blob: assertions keep it, and the other
-- operations keep it as long as there is room for what they add.
import IrohDrop.OfferRuns
import IrohDrop.Tombstones

open rust_std

namespace iroh_drop

section Laws

variable [Crypto]

/-! ## One set -/

namespace ProviderSet

variable {set : ProviderSet}

/-- The number of entries, live and withdrawn. -/
def len (set : ProviderSet) : Nat := HashMap.len set.providers

/-- There is an entry for the peer, or room for one. -/
def takes (set : ProviderSet) (id : EndpointId) : Prop :=
  id ∈ set.providers ∨ set.len < MAX_PROVIDERS_PER_BLOB

instance (set : ProviderSet) (id : EndpointId) : Decidable (set.takes id) := by
  unfold takes; infer_instance

/-- An entry more stays within the cap just when there is one for the peer,
or room for it. -/
theorem len_insert_le_iff (h : set.len ≤ MAX_PROVIDERS_PER_BLOB) (id : EndpointId)
    (info : ProviderInfo) :
    HashMap.len (set.providers.insert id info) ≤ MAX_PROVIDERS_PER_BLOB ↔ set.takes id := by
  unfold takes len at *
  rw [HashMap.len_insert]
  split
  · rename_i hmem
    exact ⟨fun _ => .inl hmem, fun _ => h⟩
  · rename_i hnew
    constructor
    · exact .inr
    · exact fun htakes => htakes.resolve_left hnew

theorem len_add_le_iff (h : set.len ≤ MAX_PROVIDERS_PER_BLOB) (id : EndpointId)
    (is_original : Bool) : (set.add id is_original).len ≤ MAX_PROVIDERS_PER_BLOB ↔ set.takes id :=
  len_insert_le_iff h id _

theorem len_mark_failure_le_iff (h : set.len ≤ MAX_PROVIDERS_PER_BLOB) (id : EndpointId)
    (now : Instant) : (set.mark_failure id now).len ≤ MAX_PROVIDERS_PER_BLOB ↔ set.takes id :=
  len_insert_le_iff h id _

theorem len_mark_success (set : ProviderSet) (id : EndpointId) :
    (set.mark_success id).len = set.len :=
  HashMap.len_modify _ _ _

/-- Removing entries that are there, each once, takes away as many. -/
theorem len_remove_all (set : ProviderSet) {l : List (EndpointId × ProviderInfo)}
    (hn : (l.map Prod.fst).Nodup) (hmem : ∀ e ∈ l, e.1 ∈ set.providers) :
    (l.foldl (fun set e => set.remove e.1) set).len + l.length = set.len := by
  induction l generalizing set with
  | nil => rfl
  | cons e l ih =>
    obtain ⟨hfirst, hrest⟩ := List.nodup_cons.mp hn
    have hlater : ∀ e' ∈ l, e'.1 ∈ (set.remove e.1).providers := fun e' he' =>
      AList.mem_erase.mpr ⟨fun heq => hfirst (heq ▸ List.mem_map_of_mem he'),
        hmem e' (List.mem_cons_of_mem e he')⟩
    have hone : (set.remove e.1).len = set.len - 1 := by
      change HashMap.len (set.providers.erase e.1) = _
      rw [HashMap.len_erase, if_pos (hmem e List.mem_cons_self)]
      rfl
    have hpos : 0 < set.len :=
      List.length_pos_of_mem (AList.mem_keys.mp (hmem e List.mem_cons_self))
    have hrec := ih (set.remove e.1) hrest hlater
    rw [hone] at hrec
    rw [List.foldl_cons, List.length_cons]
    omega

/-- Enforcing the cap brings a set within it. -/
theorem len_enforce_cap_le (set : ProviderSet) : set.enforce_cap.len ≤ MAX_PROVIDERS_PER_BLOB := by
  unfold enforce_cap
  split
  · assumption
  · rename_i hover
    extract_lets ranked
    have hperm : ranked.Perm set.entries := List.perm_insertionSort worse set.entries
    have hnodup : (ranked.map Prod.fst).Nodup :=
      (hperm.map Prod.fst).nodup_iff.mpr set.entries_nodup
    have hlen : ranked.length = set.len := by
      rw [hperm.length_eq]
      unfold entries len HashMap.len AList.keys List.keys
      rw [List.length_map, List.length_map]
    have hremoved := set.len_remove_all (l := ranked.take (HashMap.len set.providers -
        MAX_PROVIDERS_PER_BLOB))
      (by rw [List.map_take]; exact hnodup.sublist (List.take_sublist _ _)) (fun e he => by
        have hentry := hperm.mem_iff.mp (List.mem_of_mem_take he)
        exact AList.lookup_isSome.mp (by rw [(set.mem_entries e.1 e.2).mp hentry]; rfl))
    have hdef : HashMap.len set.providers = set.len := rfl
    rw [List.length_take, hlen, hdef] at hremoved
    rw [hdef] at hover ⊢
    omega

/-- An assertion keeps the set within the cap. -/
theorem len_record_le (h : set.len ≤ MAX_PROVIDERS_PER_BLOB) (id : EndpointId) (ms : UInt64)
    (frame_id : FixedBytes 16) (withdrawn : Bool) :
    (set.record id ms frame_id withdrawn).2.len ≤ MAX_PROVIDERS_PER_BLOB := by
  let x : Assertion := ⟨ms, frame_id, withdrawn⟩
  by_cases hnewer : set.knows_newer id x
  · -- A stale assertion is one of a peer that has an entry.
    obtain ⟨info, hinfo, hlt⟩ := hnewer
    have hmem : id ∈ set.providers := AList.lookup_isSome.mp (by rw [hinfo]; rfl)
    have hstale : assertion_lt ms frame_id info.announced_at_ms info.last_frame_id := hlt
    unfold record
    simp only [hinfo, Option.getD_some]
    rw [if_pos hstale]
    exact (len_insert_le_iff h id info).mpr (.inl hmem)
  · have hrecord := record_fresh hnewer
    change (set.record id x.announced_at_ms x.frame_id x.withdrawn).2.len ≤ _
    rw [hrecord]
    exact len_enforce_cap_le _

end ProviderSet

/-! ## All sets -/

/-- No blob has more providers than the cap. -/
def Capped (s : DropState) : Prop := ∀ hash, (s.provider_set hash).len ≤ MAX_PROVIDERS_PER_BLOB

namespace DropState

variable {s : DropState}

/-- The operation adds no provider to a blob that has no room for it. -/
def fits (s : DropState) : Op → Prop
  | .record_offer_inner author offer _ =>
    (offer.blob_hash ∉ s.offers ∧ ¬ s.author_has_quota author) ∨
      (s.provider_set offer.blob_hash).takes author
  | .add_provider hash => (s.provider_set hash).takes s.self_endpoint_id
  | .mark_failure hash id _ => hash ∉ s.providers ∨ (s.provider_set hash).takes id
  | _ => True

/-- Where one set changes, the cap is kept just when it is kept there. -/
theorem capped_iff_of_set {s s' : DropState} (h : Capped s) {hash : BlobHash} {set : ProviderSet}
    (hsets : ∀ hash', s'.provider_set hash' = if hash' = hash then set else s.provider_set hash') :
    Capped s' ↔ set.len ≤ MAX_PROVIDERS_PER_BLOB := by
  constructor
  · intro hcapped
    have hat := hcapped hash
    rwa [hsets, if_pos rfl] at hat
  · intro hset hash'
    rw [hsets]
    split
    · exact hset
    · exact h hash'

theorem provider_set_insert {s s' : DropState} {hash : BlobHash} {set : ProviderSet}
    (h : s'.providers = s.providers.insert hash set) (hash' : BlobHash) :
    s'.provider_set hash' = if hash' = hash then set else s.provider_set hash' := by
  unfold provider_set
  rw [h, HashMap.lookup_insert']
  split <;> rfl

theorem Capped.of_providers {s s' : DropState} (h : Capped s) (heq : s'.providers = s.providers) :
    Capped s' := by
  intro hash
  have hset : s'.provider_set hash = s.provider_set hash := by
    unfold provider_set
    rw [heq]
  rw [hset]
  exact h hash

/-- An offer adds its author to the providers of its hash, unless the author
is over its quota. What the table evicts for it is another hash. -/
theorem record_offer_inner_capped_iff (hk : TableKept s) (h : Capped s) (author : EndpointId)
    (offer : OfferV1) (now : Instant) :
    Capped (s.record_offer_inner author offer now).2 ↔
      (offer.blob_hash ∉ s.offers ∧ ¬ s.author_has_quota author) ∨
        (s.provider_set offer.blob_hash).takes author := by
  have hadd := ProviderSet.len_add_le_iff (h offer.blob_hash) author true
  have hnoted : ∀ hash', (s.offer_noted author offer.blob_hash).provider_set hash' =
      if hash' = offer.blob_hash then (s.provider_set offer.blob_hash).add author true
      else s.provider_set hash' := provider_set_insert rfl
  have hcapped : ∀ s' : DropState,
      s'.providers = (s.offer_noted author offer.blob_hash).providers →
      (Capped s' ↔ (s.provider_set offer.blob_hash).takes author) :=
    fun s' heq => (capped_iff_of_set h (provider_set_insert heq)).trans hadd
  have hrecorded := offer_recorded hk author offer now
  generalize s.record_offer_inner author offer now = result at hrecorded ⊢
  cases hrecorded with
  | known record hrecord =>
    have hmem : offer.blob_hash ∈ s.offers := AList.lookup_isSome.mp (by rw [hrecord]; rfl)
    refine (hcapped _ ?_).trans ⟨.inr, fun hor => hor.resolve_left (fun hnew => hnew.1 hmem)⟩
    rfl
  | refused hnew hspent => exact ⟨fun _ => .inl ⟨hnew, hspent⟩, fun _ => h⟩
  | listed hnew hquota hroom =>
    refine (hcapped _ ?_).trans ⟨.inr, fun hor => hor.resolve_left (fun hnot => hnot.2 hquota)⟩
    rfl
  | replaced hnew hquota hfull oldest rest record horder hrecord =>
    have hne : offer.blob_hash ≠ oldest := fun heq =>
      hnew (heq ▸ oldest_was_listed hk hnew hfull horder)
    have hforgot : ∀ hash', ((s.offer_listed author offer now).forget_oldest oldest rest
        record).provider_set hash' = if hash' = oldest then {}
          else (s.offer_noted author offer.blob_hash).provider_set hash' := by
      intro hash'
      change ((s.offer_noted author offer.blob_hash).providers.erase oldest |>.lookup hash').getD {}
        = _
      rw [HashMap.lookup_erase']
      split <;> rfl
    constructor
    · intro hkept
      have hat := hkept offer.blob_hash
      rw [hforgot, if_neg hne, hnoted, if_pos rfl] at hat
      exact .inr (hadd.mp hat)
    · intro hor hash'
      have htakes := hor.resolve_left (fun hnot => hnot.2 hquota)
      rw [hforgot]
      split
      · exact Nat.zero_le _
      · exact (hcapped _ rfl).mpr htakes hash'

/-- An operation keeps every set within the cap just when it fits. -/
theorem perform_capped_iff (hk : TableKept s) (h : Capped s) (op : Op) :
    Capped (s.perform op) ↔ s.fits op := by
  cases op with
  | note_peer peer =>
    obtain ⟨known, order, hnoted⟩ := s.note_peer_tables peer
    simp only [perform, hnoted]
    exact ⟨fun _ => trivial, fun _ => h⟩
  | check_and_insert key now => exact ⟨fun _ => trivial, fun _ => h⟩
  | retain r frame =>
    exact ⟨fun _ => trivial, fun _ => Capped.of_providers h (s.retain_tables r frame).2.1⟩
  | record_offer_inner author offer now => exact record_offer_inner_capped_iff hk h author offer now
  | assert_provider hash peer ms id withdrawn =>
    have hsets (hash' : BlobHash) :
        (s.perform (.assert_provider hash peer ms id withdrawn)).provider_set hash' =
          if hash' = hash then _ else s.provider_set hash' := provider_set_insert rfl hash'
    rw [capped_iff_of_set h hsets]
    exact ⟨fun _ => trivial, fun _ => ProviderSet.len_record_le (h hash) peer ms id withdrawn⟩
  | set_local_status hash status => exact ⟨fun _ => trivial, fun _ => h⟩
  | add_provider hash =>
    have hsets (hash' : BlobHash) : (s.perform (.add_provider hash)).provider_set hash' =
        if hash' = hash then _ else s.provider_set hash' := provider_set_insert rfl hash'
    rw [capped_iff_of_set h hsets]
    exact ProviderSet.len_add_le_iff (h hash) s.self_endpoint_id false
  | mark_failure hash id now =>
    rcases hset : s.providers.lookup hash with _ | set
    · have hsame : (s.perform (.mark_failure hash id now)).providers = s.providers := by
        simp only [perform, HashMap.modify, hset]
      exact ⟨fun _ => .inl (AList.lookup_eq_none.mp hset), fun _ => Capped.of_providers h hsame⟩
    · have hmem : hash ∈ s.providers := AList.lookup_isSome.mp (by rw [hset]; rfl)
      have hat : s.provider_set hash = set := by
        unfold provider_set
        rw [hset]
        rfl
      have hsets : (s.perform (.mark_failure hash id now)).providers =
          s.providers.insert hash (set.mark_failure id now) := by
        simp only [perform, HashMap.modify, hset]
      rw [capped_iff_of_set h (provider_set_insert hsets),
        ProviderSet.len_mark_failure_le_iff (hat ▸ h hash), ← hat]
      exact ⟨.inr, fun hor => hor.resolve_left (fun hnot => hnot hmem)⟩
  | mark_success hash id =>
    refine ⟨fun _ => trivial, fun _ => ?_⟩
    rcases hset : s.providers.lookup hash with _ | set
    · have hsame : (s.perform (.mark_success hash id)).providers = s.providers := by
        simp only [perform, HashMap.modify, hset]
      exact Capped.of_providers h hsame
    · have hat : s.provider_set hash = set := by
        unfold provider_set
        rw [hset]
        rfl
      have hsets : (s.perform (.mark_success hash id)).providers =
          s.providers.insert hash (set.mark_success id) := by
        simp only [perform, HashMap.modify, hset]
      rw [capped_iff_of_set h (provider_set_insert hsets), ProviderSet.len_mark_success, ← hat]
      exact h hash

end DropState

/-! ## Runs -/

/-- After each operation of a sequence no blob has more providers than the
cap just when every operation fits. -/
theorem providers_per_blob_capped_iff (self_endpoint_id : EndpointId) (ops : List DropState.Op) :
    (∀ past, past <+: ops →
      ∀ hash set, (past.foldl DropState.perform (.new self_endpoint_id)).providers.lookup hash =
        some set → set.len ≤ MAX_PROVIDERS_PER_BLOB) ↔
    runs.Meets DropState.perform DropState.fits (.new self_endpoint_id) ops := by
  have hstep : ∀ (s : DropState) (op : DropState.Op), TableKept s ∧ Capped s →
      (TableKept (s.perform op) ∧ Capped (s.perform op) ↔ s.fits op) := by
    rintro s op ⟨hk, hc⟩
    rw [← DropState.perform_capped_iff hk hc op]
    exact ⟨And.right, fun h => ⟨DropState.perform_table hk op, h⟩⟩
  have hkept : ∀ (s : DropState) (op : DropState.Op), TableKept s → TableKept (s.perform op) :=
    fun _ op h => DropState.perform_table h op
  have htable (past : List DropState.Op) :
      TableKept (runs.run DropState.perform (.new self_endpoint_id) past) :=
    runs.invariant hkept (tableKept_new self_endpoint_id) past
  rw [← runs.invariant_iff_meets hstep ⟨tableKept_new self_endpoint_id, fun _ => Nat.zero_le _⟩ ops]
  refine forall₂_congr fun past _ => ?_
  rw [← runs.run_eq_foldl]
  constructor
  · intro h
    refine ⟨htable past, fun hash => ?_⟩
    unfold DropState.provider_set
    rcases hset : (runs.run DropState.perform (.new self_endpoint_id) past).providers.lookup hash
      with _ | set
    · exact Nat.zero_le _
    · exact h hash set hset
  · rintro ⟨-, hcapped⟩ hash set hset
    have hat := hcapped hash
    unfold DropState.provider_set at hat
    rwa [hset] at hat

end Laws

/-! ## Offers of one blob by many authors -/

namespace many_offerers

local instance : Crypto := Crypto.clear

def author (k : Nat) : EndpointId := SecretKey.public ⟨.fill 32 (UInt8.ofNat k)⟩

def offer : OfferV1 :=
  { blob_hash := ⟨.fill 32 7⟩, name := "a", size := 1, media_type := none, created_at_ms := none,
    metadata := ∅ }

/-- One author more than the cap offers the blob. -/
def ops : List DropState.Op :=
  (List.range (MAX_PROVIDERS_PER_BLOB + 1)).map (fun k => .record_offer_inner (author k) offer 0)

/-- All of them are its providers. -/
theorem offers_exceed_the_cap :
    ((ops.foldl DropState.perform (.new (author 0))).providers.lookup offer.blob_hash).map
      ProviderSet.len = some (MAX_PROVIDERS_PER_BLOB + 1) ∧
    ¬ ∀ [Crypto] (self_endpoint_id : EndpointId) (ops : List DropState.Op) (hash : BlobHash)
      (set : ProviderSet), (ops.foldl DropState.perform (.new self_endpoint_id)).providers.lookup
        hash = some set → set.len ≤ MAX_PROVIDERS_PER_BLOB := by
  have hlen : ((ops.foldl DropState.perform (.new (author 0))).providers.lookup
      offer.blob_hash).map ProviderSet.len = some (MAX_PROVIDERS_PER_BLOB + 1) := by
    decide +kernel
  refine ⟨hlen, fun h => ?_⟩
  obtain ⟨set, hset, hover⟩ := Option.map_eq_some_iff.mp hlen
  have hle := h (author 0) ops offer.blob_hash set hset
  omega

end many_offerers

end iroh_drop
