-- The offer table in a run of a session: whatever happens, it stays booked
-- and within its cap.
import IrohDrop.Calls
import IrohDrop.OfferTable

open rust_std postcard

namespace iroh_drop

section Laws

variable [Crypto]

theorem TableKept.of_same {a b : DropState} (h : TableKept a) (hoffers : b.offers = a.offers)
    (horder : b.offer_order = a.offer_order)
    (hcounts : b.offers_per_author = a.offers_per_author) : TableKept b := by
  refine ⟨⟨?_, ?_, ?_, ?_, ?_⟩, ?_⟩
  · rw [horder]
    exact h.nodup
  · rw [horder, hoffers]
    exact h.queued
  · unfold DropState.records_of
    rw [hcounts, hoffers]
    exact h.counted
  · rw [hcounts]
    exact h.positive
  · unfold DropState.records_of
    rw [hoffers]
    exact h.quota
  · rw [hoffers]
    exact h.cap

namespace DropState

variable {s : DropState}

/-- A status is no account: it changes neither who offered a hash nor when. -/
theorem set_local_status_kept (h : TableKept s) (hash : BlobHash) (status : LocalBlobStatus) :
    TableKept (s.set_local_status hash status) := by
  have hcounts : ∀ author, (s.set_local_status hash status).records_of author =
      s.records_of author := by
    intro author
    unfold records_of set_local_status HashMap.modify
    simp only
    split
    · rename_i record hrecord
      exact HashMap.count_insert_old s.offers hrecord _ _ rfl
    · rfl
  refine ⟨⟨h.nodup, ?_, ?_, h.positive, ?_⟩, ?_⟩
  · intro x
    exact (h.queued x).trans (HashMap.mem_modify s.offers hash x _).symm
  · intro author
    rw [hcounts]
    exact h.counted author
  · intro author
    rw [hcounts]
    exact h.quota author
  · change HashMap.len (HashMap.modify s.offers hash _) ≤ _
    rw [HashMap.len_modify]
    exact h.cap

theorem retain_tables (s : DropState) (r : Retain) (frame : Bytes) :
    (s.retain r frame).offers = s.offers ∧ (s.retain r frame).providers = s.providers ∧
      (s.retain r frame).offer_order = s.offer_order ∧
      (s.retain r frame).offers_per_author = s.offers_per_author := by
  cases r with
  | Yes => exact ⟨rfl, rfl, rfl, rfl⟩
  | No => exact ⟨rfl, rfl, rfl, rfl⟩
  | Unknown =>
    unfold retain retain_unknown_frame
    simp only
    split <;> exact ⟨rfl, rfl, rfl, rfl⟩

theorem perform_table (h : TableKept s) (op : Op) : TableKept (s.perform op) := by
  cases op with
  | note_peer peer =>
    obtain ⟨known, order, hnoted⟩ := s.note_peer_tables peer
    simp only [perform, hnoted]
    exact h.of_same rfl rfl rfl
  | check_and_insert key now => exact h.of_same rfl rfl rfl
  | retain r frame =>
    obtain ⟨hoffers, -, horder, hcounts⟩ := s.retain_tables r frame
    exact h.of_same hoffers horder hcounts
  | record_offer_inner author offer now => exact record_offer_inner_kept h author offer now
  | assert_provider hash peer announced_at_ms frame_id withdrawn => exact h.of_same rfl rfl rfl
  | set_local_status hash status => exact set_local_status_kept h hash status
  | add_provider hash => exact h.of_same rfl rfl rfl
  | mark_failure hash id now => exact h.of_same rfl rfl rfl
  | mark_success hash id => exact h.of_same rfl rfl rfl

end DropState

namespace Session

theorem step_table (s : Session) (i : Step) (h : TableKept s.state) :
    TableKept (s.step i).state := by
  by_cases hup : ∃ peer now, i = .neighbor_up peer now
  · obtain ⟨peer, now, rfl⟩ := hup
    simp only [step, neighbor_up_state]
    exact h.of_same rfl rfl rfl
  · have hcalls := s.calls_step (fun peer now heq => hup ⟨peer, now, heq⟩)
    exact hcalls.keeps (fun _ op h _ => DropState.perform_table h op) h

/-- The offer table of a session is booked and within its cap after any run. -/
theorem run_table (secret : SecretKey) (policy : DropPolicy) (decider : OfferDecider)
    (topic_id : TopicId) (ticket : DropTicket) (drop_key : Option DropKey)
    (store : BlobHash → BlobStatus) (steps : List Step) :
    TableKept ((new secret policy decider topic_id ticket drop_key store).run steps).state :=
  runs.invariant step_table (tableKept_new secret.public) steps

end Session

end Laws

end iroh_drop
