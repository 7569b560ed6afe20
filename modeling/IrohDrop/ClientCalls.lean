-- The laws of the calls of a client: when no call is left behind at the end of the
-- reader, each one comes to its end.
import IrohDrop.Client

open rust_std

namespace iroh_drop

/-! ## What is promised -/

/-- The reply, or that there is none. -/
def IsOutcome (reply : Option (Except ApiError Value)) (outcome : Except ApiError Value) : Prop :=
  match reply with
  | some received => outcome = received
  | none => ∃ msg, outcome = .error (disconnected msg)

/-- A step of the client and of its tasks that is no new call. -/
def ClientStep.is_call : ClientStep → Bool
  | .call _ _ => true
  | _ => false

namespace Client

/-- The first reply to a number that the reader got. -/
def reply_to (self : Client) (id : UInt64) : Option (Except ApiError Value) := self.heard.lookup id

/-- Without a new call, a call can come to its end with the right outcome. -/
def Resolves (s : Client) (c : Nat) : Prop :=
  ∃ steps : List ClientStep, (∀ step ∈ steps, step.is_call = false) ∧
    ∃ call outcome, (s.run steps).calls[c]? = some call ∧ call.stage = .resolved outcome ∧
      IsOutcome ((s.run steps).reply_to call.id) outcome

/-- After the end of the reader, each call that is in the table, or was, can
come to its end. -/
def NoCallHangs (s : Client) : Prop :=
  s.reader.is_ended → ∀ (c : Nat) call, s.calls[c]? = some call → call.stage ≠ .numbered →
    s.Resolves c

/-- Nothing more comes for the reader. -/
def at_end (self : Client) : Bool :=
  match self.reader, self.inbound with
  | .reading, [] => self.socket_reader_ended
  | _, _ => false

/-- At the end of the reader the requests on the way have their replies and the
others find the channel closed, no later call finds it open, and the numbers of
the calls do not wrap. -/
def Timely (s : Client) : ClientStep → Prop
  | .call _ _ => s.next_id.toNat + 1 < 2 ^ 64
  | .register _ => s.reader.is_ended → s.writer.is_ended
  | .read => s.at_end → s.calls.all fun call =>
      match call.stage with
      | .numbered | .resolved _ => true
      | .registered => s.writer.is_ended
      | .waiting => call.received.isSome
  | _ => True

instance (s : Client) (step : ClientStep) : Decidable (s.Timely step) := by
  unfold Timely; cases step <;> infer_instance

/-! ## Requests and replies -/

end Client

/-- The request that is being written. -/
def WriterTask.held : WriterTask → List UInt64
  | .holding frame => frame.request_id.toList
  | _ => []

/-- The numbers of the requests on the way and of what was made of them. -/
def Client.Asked (s : Client) (id : UInt64) : Prop :=
  id ∈ s.outbound.filterMap Frame.request_id ∨ id ∈ s.writer.held ∨ id ∈ s.written ∨
    id ∈ s.lines.filterMap Line.reply_id ∨ id ∈ s.inbound.filterMap Frame.reply_id ∨
    id ∈ s.heard.map Prod.fst

/-- The request went out. -/
def ClientCall.sent (self : ClientCall) : Bool :=
  match self.stage with
  | .waiting => true
  | .resolved _ => self.received.isSome
  | _ => false

namespace Client

variable {s : Client}

/-- What holds of the call at a place. -/
structure Placed (s : Client) (c : Nat) (call : ClientCall) : Prop where
  number : call.id.toNat = c + 1
  received : call.received = s.reply_to call.id
  pending : call.stage = .registered ∨ call.stage = .waiting → call.received = none →
    s.pending.lookup call.id = some c
  outcome : ∀ outcome, call.stage = .resolved outcome → IsOutcome call.received outcome
  ended : s.reader.is_ended → call.stage = .registered → s.writer.is_ended
  answered : s.reader.is_ended → call.stage = .waiting → call.received.isSome

/-- The request of a number went out. -/
def Sent (s : Client) (id : UInt64) : Prop :=
  ∃ (c : Nat) (call : ClientCall), s.calls[c]? = some call ∧ call.id = id ∧ call.sent = true

structure Regular (s : Client) : Prop where
  next : s.next_id.toNat = s.calls.length + 1
  placed : ∀ (c : Nat) call, s.calls[c]? = some call → s.Placed c call
  listed : ∀ id (c : Nat), s.pending.lookup id = some c →
    ∃ call, s.calls[c]? = some call ∧ call.id = id ∧ call.received = none
  sent : ∀ id, s.Asked id → s.Sent id

theorem regular_start {first : Option Frame} (h : start first = .ok s) : s.Regular := by
  unfold start at h
  split at h
  · cases h
    refine ⟨rfl, fun _ _ h => (nomatch h), fun _ _ h => (nomatch h), fun _ h => ?_⟩
    simp [Asked, WriterTask.held] at h
  · cases h
  · cases h

/-- A number belongs to one call. -/
theorem Regular.unique (h : s.Regular) {c d : Nat} {call other : ClientCall}
    (hc : s.calls[c]? = some call) (hd : s.calls[d]? = some other) (hid : other.id = call.id) :
    d = c := by
  have hnumber := (h.placed d other hd).number
  rw [hid, (h.placed c call hc).number] at hnumber
  omega

/-- A request that did not go out has no reply. -/
theorem Regular.unheard (h : s.Regular) {c : Nat} {call : ClientCall} (hc : s.calls[c]? = some call)
    (hsent : call.sent = false) : call.received = none := by
  rw [(h.placed c call hc).received]
  refine List.lookup_eq_none_iff.mpr fun entry hentry => ?_
  by_contra heq
  have hmem : s.Asked call.id := by
    have hid : entry.1 = call.id := by simpa using Eq.symm (by simpa using heq)
    exact .inr (.inr (.inr (.inr (.inr (List.mem_map.mpr ⟨entry, hentry, hid⟩)))))
  obtain ⟨d, other, hd, hid, hother⟩ := h.sent _ hmem
  obtain rfl := h.unique hc hd hid
  rw [hc] at hd
  obtain rfl := Option.some.inj hd
  rw [hsent] at hother
  cases hother

/-! ## What a step leaves as it is -/

/-- The calls stay as they are. -/
theorem Regular.same_calls (h : s.Regular) {s' : Client} (hnext : s'.next_id = s.next_id)
    (hcalls : s'.calls = s.calls) (hpending : s'.pending = s.pending)
    (hheard : ∀ id, s'.reply_to id = s.reply_to id)
    (hasked : ∀ id, s'.Asked id → s.Asked id ∨ s.Sent id)
    (hreader : s'.reader.is_ended → s.reader.is_ended)
    (hwriter : s.writer.is_ended → s'.writer.is_ended) : s'.Regular := by
  constructor
  · rw [hnext, hcalls]
    exact h.next
  · intro c call hc
    rw [hcalls] at hc
    have hplaced := h.placed c call hc
    constructor
    · exact hplaced.number
    · exact hplaced.received.trans (hheard _).symm
    · rw [hpending]
      exact hplaced.pending
    · exact hplaced.outcome
    · exact fun hended hstage => hwriter (hplaced.ended (hreader hended) hstage)
    · exact fun hended => hplaced.answered (hreader hended)
  · rw [hpending, hcalls]
    exact h.listed
  · unfold Sent
    rw [hcalls]
    exact fun id hid => (hasked id hid).elim (h.sent id) fun hsent => hsent

/-- Frames move on. -/
theorem Regular.moved (h : s.Regular) {s' : Client} (hnext : s'.next_id = s.next_id)
    (hcalls : s'.calls = s.calls) (hpending : s'.pending = s.pending)
    (hheard : ∀ id, s'.reply_to id = s.reply_to id) (hasked : ∀ id, s'.Asked id → s.Asked id)
    (hreader : s'.reader.is_ended → s.reader.is_ended)
    (hwriter : s.writer.is_ended → s'.writer.is_ended) : s'.Regular :=
  h.same_calls hnext hcalls hpending hheard (fun id hid => .inl (hasked id hid)) hreader hwriter

/-- One call moves on, and keeps its number. -/
theorem Regular.changed (h : s.Regular) {c : Nat} {call : ClientCall} (call' : ClientCall)
    (hc : s.calls[c]? = some call) (hid : call'.id = call.id)
    (hsent : call.sent → call'.sent) {s' : Client}
    (hnext : s'.next_id = s.next_id) (hcalls : s'.calls = s.calls.set c call')
    (hheard : ∀ id, id ≠ call.id → s'.reply_to id = s.reply_to id)
    (hreader : s'.reader = s.reader) (hwriter : s'.writer = s.writer)
    (hpending : ∀ id, id ≠ call.id → s'.pending.lookup id = s.pending.lookup id)
    (hlisted : ∀ d, s'.pending.lookup call.id = some d → d = c ∧ call'.received = none)
    (hasked : ∀ id, s'.Asked id → s.Asked id ∨ id = call.id ∧ call'.sent)
    (hplaced : s'.Placed c call') : s'.Regular := by
  have hlt := (List.getElem?_eq_some_iff.mp hc).1
  have hself : s'.calls[c]? = some call' := by
    rw [hcalls, List.getElem?_set_self hlt]
  have hother : ∀ d, c ≠ d → s'.calls[d]? = s.calls[d]? := fun d hne => by
    rw [hcalls, List.getElem?_set_ne hne]
  constructor
  · rw [hnext, hcalls, List.length_set]
    exact h.next
  · intro d other hd
    by_cases hcd : c = d
    · subst hcd
      rw [hself] at hd
      obtain rfl := Option.some.inj hd
      exact hplaced
    · rw [hother d hcd] at hd
      have hold := h.placed d other hd
      have hne : other.id ≠ call.id := fun heq => hcd (h.unique hc hd heq).symm
      constructor
      · exact hold.number
      · exact hold.received.trans (hheard _ hne).symm
      · rw [hpending _ hne]
        exact hold.pending
      · exact hold.outcome
      · rw [hreader, hwriter]
        exact hold.ended
      · rw [hreader]
        exact hold.answered
  · intro id d hd
    by_cases heq : id = call.id
    · subst heq
      obtain ⟨rfl, hnone⟩ := hlisted d hd
      exact ⟨call', hself, hid, hnone⟩
    · rw [hpending id heq] at hd
      obtain ⟨other, hother', rfl, hnone⟩ := h.listed id d hd
      have hcd : c ≠ d := fun hcd => heq (by
        subst hcd
        rw [hc] at hother'
        exact congrArg ClientCall.id (Option.some.inj hother').symm)
      exact ⟨other, (hother d hcd).trans hother', rfl, hnone⟩
  · intro id hmem
    rcases hasked id hmem with hold | ⟨rfl, hnew⟩
    · obtain ⟨d, other, hd, rfl, hother'⟩ := h.sent id hold
      by_cases hcd : c = d
      · subst hcd
        rw [hc] at hd
        obtain rfl := Option.some.inj hd
        exact ⟨c, call', hself, hid, hsent hother'⟩
      · exact ⟨d, other, (hother d hcd).trans hd, rfl, hother'⟩
    · exact ⟨c, call', hself, hid, hnew⟩

theorem Regular.of_call (h : s.Regular) {c : Nat} {f : ClientCall → Client}
    (hf : ∀ call, s.calls[c]? = some call → (f call).Regular) : (s.at_call c f).Regular := by
  unfold at_call
  split
  · rename_i call hc
    exact hf call hc
  · exact h

/-! ## A step of a call -/

theorem Regular.call (h : s.Regular) (m : String) (p : Value)
    (hroom : s.next_id.toNat + 1 < 2 ^ 64) : (s.call m p).Regular := by
  have hnext : (s.next_id + 1).toNat = s.next_id.toNat + 1 := by
    rw [UInt64.toNat_add, UInt64.toNat_one, Nat.mod_eq_of_lt hroom]
  have hold : ∀ (c : Nat) call, s.calls[c]? = some call → (s.call m p).calls[c]? = some call := by
    intro c call hc
    exact (List.getElem?_append_left (List.getElem?_eq_some_iff.mp hc).1).trans hc
  constructor
  · change (s.next_id + 1).toNat = (s.calls ++ [_]).length + 1
    rw [hnext, h.next, List.length_append, List.length_singleton]
  · intro c call hc
    change (s.calls ++ [_])[c]? = some call at hc
    by_cases hlt : c < s.calls.length
    · rw [List.getElem?_append_left hlt] at hc
      exact { h.placed c call hc with }
    · have hlen := (List.getElem?_eq_some_iff.mp hc).1
      rw [List.length_append, List.length_singleton] at hlen
      have hlast : c = s.calls.length := by omega
      rw [hlast, List.getElem?_concat_length, Option.some.injEq] at hc
      subst hc
      have hnone : s.reply_to s.next_id = none := by
        refine List.lookup_eq_none_iff.mpr fun entry hentry => ?_
        by_contra heq
        obtain ⟨d, other, hd, hid, -⟩ := h.sent entry.1
          (.inr (.inr (.inr (.inr (.inr (List.mem_map_of_mem hentry))))))
        have hnumber := (h.placed d other hd).number
        have hlt' := (List.getElem?_eq_some_iff.mp hd).1
        have heq' : entry.1 = s.next_id := by simpa using Eq.symm (by simpa using heq)
        rw [hid, heq', h.next] at hnumber
        omega
      constructor
      · exact h.next.trans (by rw [hlast])
      · exact hnone.symm
      · exact fun hstage => hstage.elim nofun nofun
      · exact fun _ hstage => nomatch hstage
      · exact fun _ hstage => nomatch hstage
      · exact fun _ hstage => nomatch hstage
  · intro id c hc
    obtain ⟨call, hcall, hrest⟩ := h.listed id c hc
    exact ⟨call, hold c call hcall, hrest⟩
  · intro id hid
    obtain ⟨c, call, hcall, hrest⟩ := h.sent id hid
    exact ⟨c, call, hold c call hcall, hrest⟩

theorem Regular.register (h : s.Regular) {c : Nat} {call : ClientCall}
    (hc : s.calls[c]? = some call) (htimely : s.Timely (.register c)) :
    (s.register c call).Regular := by
  unfold Client.register
  split
  · rename_i hstage
    have hnone := h.unheard hc (by rw [ClientCall.sent, hstage])
    have hplaced := h.placed c call hc
    refine h.changed { call with stage := .registered } hc rfl
      (fun hsent => ?_) rfl rfl (fun _ _ => rfl) rfl rfl (fun id hne => AList.lookup_insert_ne hne)
      (fun d hd => ?_) (fun id hid => .inl hid) ?_
    · rw [ClientCall.sent, hstage] at hsent
      cases hsent
    · rw [AList.lookup_insert, Option.some.injEq] at hd
      exact ⟨hd.symm, hnone⟩
    · constructor
      · exact hplaced.number
      · exact hplaced.received
      · exact fun _ _ => AList.lookup_insert _
      · exact fun _ hstage' => nomatch hstage'
      · exact fun hended _ => htimely hended
      · exact fun _ hstage' => nomatch hstage'
  · exact h

theorem Regular.send (h : s.Regular) {c : Nat} {call : ClientCall} (hc : s.calls[c]? = some call) :
    (s.send c call).Regular := by
  unfold Client.send
  split
  · rename_i hstage
    have hnone := h.unheard hc (by rw [ClientCall.sent, hstage])
    have hplaced := h.placed c call hc
    have hlisted : ∀ d, s.pending.lookup call.id = some d → d = c ∧ call.received = none := by
      intro d hd
      rw [hplaced.pending (.inl hstage) hnone, Option.some.injEq] at hd
      exact ⟨hd.symm, hnone⟩
    have hunsent : call.sent = false := by rw [ClientCall.sent, hstage]
    split
    · refine h.changed { call with stage := .resolved _ } hc rfl
        (fun hsent => absurd hsent (by simp [hunsent])) rfl rfl (fun _ _ => rfl) rfl rfl
        (fun _ _ => rfl) hlisted (fun id hid => .inl hid) ?_
      constructor
      · exact hplaced.number
      · exact hplaced.received
      · exact fun hstage' => hstage'.elim nofun nofun
      · intro outcome hout
        obtain rfl := CallStage.resolved.inj hout
        rw [hnone]
        exact ⟨_, rfl⟩
      · exact fun _ hstage' => nomatch hstage'
      · exact fun _ hstage' => nomatch hstage'
    · rename_i hwriter
      split
      · refine h.changed { call with stage := .waiting } hc rfl
          (fun _ => rfl) rfl rfl (fun _ _ => rfl) rfl rfl (fun _ _ => rfl) hlisted
          (fun id hid => ?_) ?_
        · rcases hid with hid | hid
          · rw [List.filterMap_append, List.mem_append] at hid
            rcases hid with hid | hid
            · exact .inl (.inl hid)
            · exact .inr ⟨List.mem_singleton.mp hid, rfl⟩
          · exact .inl (.inr hid)
        · constructor
          · exact hplaced.number
          · exact hplaced.received
          · exact fun _ => hplaced.pending (.inl hstage)
          · exact fun _ hstage' => nomatch hstage'
          · exact fun _ hstage' => nomatch hstage'
          · exact fun hended => absurd (hplaced.ended hended hstage) hwriter
      · exact h
  · exact h

theorem Regular.wake (h : s.Regular) {c : Nat} {call : ClientCall} (hc : s.calls[c]? = some call) :
    (s.wake c call).Regular := by
  unfold Client.wake
  split
  · rename_i hstage
    have hplaced := h.placed c call hc
    split
    · rename_i outcome hreceived
      refine h.changed { call with stage := .resolved outcome } hc rfl
        (fun _ => ?_) rfl rfl (fun _ _ => rfl) rfl rfl (fun _ _ => rfl) (fun d hd => ?_)
        (fun id hid => .inl hid) ?_
      · rw [ClientCall.sent, hreceived]
        rfl
      · obtain ⟨other, hother, hid, hnone⟩ := h.listed _ d hd
        obtain rfl := h.unique hc hother hid
        rw [hc] at hother
        obtain rfl := Option.some.inj hother
        exact ⟨rfl, hnone⟩
      · constructor
        · exact hplaced.number
        · exact hplaced.received
        · exact fun hstage' => hstage'.elim nofun nofun
        · intro outcome' hout
          obtain rfl := CallStage.resolved.inj hout
          rw [hreceived]
          rfl
        · exact fun _ hstage' => nomatch hstage'
        · exact fun _ hstage' => nomatch hstage'
    · -- The sender of a call that waits is in the table.
      rename_i hnone
      rw [if_pos (hplaced.pending (.inr hstage) hnone)]
      exact h
  · exact h

/-! ## A step of a task -/

section Lists

variable {α β : Type} {f : α → Option β} {a : α} {l : List α} {b : β}

theorem mem_filterMap_cons : b ∈ (a :: l).filterMap f ↔ f a = some b ∨ b ∈ l.filterMap f := by
  simp [List.mem_filterMap]

theorem mem_filterMap_concat : b ∈ (l ++ [a]).filterMap f ↔ b ∈ l.filterMap f ∨ f a = some b := by
  simp [List.mem_filterMap]

end Lists

theorem Regular.answer (h : s.Regular) (id : UInt64) (q : String) (answer : Option Value) :
    (s.answer id q answer).Regular := by
  unfold Client.answer
  split
  · refine h.moved rfl rfl rfl (fun _ => rfl) (fun id' hasked => ?_) (fun hended => hended)
      fun hended => hended
    rcases hasked with hasked | hasked
    · rcases mem_filterMap_concat.mp hasked with hasked | hasked
      · exact .inl hasked
      · cases answer <;> cases hasked
    · exact .inr hasked
  · exact h

theorem Regular.take (h : s.Regular) : s.take.Regular := by
  unfold Client.take
  split
  · rename_i frame rest hidle houtbound
    have hgoing : s.writer.is_ended → False := by
      rw [hidle]
      exact nofun
    refine h.moved rfl rfl rfl (fun _ => rfl) (fun id hasked => ?_) (fun hended => hended)
      fun hended => (hgoing hended).elim
    rw [Asked, houtbound, mem_filterMap_cons]
    rcases hasked with hasked | hasked | hasked
    · exact .inl (.inr hasked)
    · exact .inl (.inl (Option.mem_toList.mp hasked))
    · exact .inr (.inr hasked)
  · exact h

theorem Regular.write (h : s.Regular) (written : Bool) : (s.write written).Regular := by
  unfold Client.write
  split
  · rename_i frame hholding
    have hheld : s.writer.held = frame.request_id.toList := by rw [hholding]; rfl
    have hgoing : s.writer.is_ended → False := by
      rw [hholding]
      exact nofun
    split
    · refine h.moved rfl rfl rfl (fun _ => rfl) (fun id hasked => ?_) (fun hended => hended)
        fun hended => (hgoing hended).elim
      rcases hasked with hasked | hasked | hasked | hasked
      · exact .inl hasked
      · cases hasked
      · rcases List.mem_append.mp hasked with hasked | hasked
        · exact .inr (.inr (.inl hasked))
        · exact .inr (.inl (hheld ▸ hasked))
      · exact .inr (.inr (.inr hasked))
    · refine h.moved rfl rfl rfl (fun _ => rfl) (fun id hasked => ?_) (fun hended => hended)
        fun _ => rfl
      rcases hasked with hasked | hasked | hasked
      · cases hasked
      · cases hasked
      · exact .inr (.inr hasked)
  · exact h

/-- The reader of the socket is over, or takes a line off the socket. -/
theorem Regular.receive (h : s.Regular) : s.receive.Regular := by
  have hover : Regular { s with socket_reader_ended := true } :=
    h.moved rfl rfl rfl (fun _ => rfl) (fun _ => id) id id
  have hskipped : ∀ line rest, s.lines = line :: rest → Regular { s with lines := rest } := by
    intro line rest hlines
    refine h.moved rfl rfl rfl (fun _ => rfl) (fun id hasked => ?_) (fun hended => hended)
      fun hended => hended
    rw [Asked, hlines, mem_filterMap_cons]
    simp only [Asked] at hasked
    tauto
  unfold Client.receive
  split
  · exact h
  · split
    · split
      · exact hover
      · exact h
    · rename_i rest hlines
      exact hskipped _ rest hlines
    · rename_i rest hlines
      exact hskipped _ rest hlines
    · exact hover
    · rename_i frame rest hlines
      split
      · exact hover
      · split
        · refine h.moved rfl rfl rfl (fun _ => rfl) (fun id hasked => ?_) (fun hended => hended)
            fun hended => hended
          simp only [Asked, mem_filterMap_concat] at hasked
          rw [Asked, hlines, mem_filterMap_cons]
          tauto
        · exact h

theorem Regular.respond (h : s.Regular) : s.respond.Regular := by
  unfold Client.respond
  split
  · split
    · exact h.moved rfl rfl rfl (fun _ => rfl) (fun _ hasked => hasked) nofun fun hended => hended
    · split
      · refine h.moved rfl rfl rfl (fun _ => rfl) (fun id hasked => ?_) nofun fun hended => hended
        rcases hasked with hasked | hasked
        · rcases mem_filterMap_concat.mp hasked with hasked | hasked
          · exact .inl hasked
          · cases hasked
        · exact .inr hasked
      · exact h
  · exact h

theorem Regular.tell (h : s.Regular) {line : Line}
    (hline : ∀ id, line.reply_id = some id → s.Asked id) : (s.tell line).Regular := by
  unfold Client.tell
  split
  · exact h
  · refine h.moved rfl rfl rfl (fun _ => rfl) (fun id hasked => ?_) (fun hended => hended)
      fun hended => hended
    have hnew := hline id
    simp only [Asked, mem_filterMap_concat] at hasked hnew ⊢
    tauto

theorem Regular.reply (h : s.Regular) (j : Nat) (outcome : Except ApiError Value) :
    (s.reply j outcome).Regular := by
  unfold Client.reply
  split
  · rename_i id hj
    refine h.tell fun id' hid => ?_
    have heq : id = id' := by
      cases outcome with
      | ok p => exact Option.some.inj hid
      | error e => exact Option.some.inj hid
    exact .inr (.inr (.inl (heq ▸ List.mem_of_getElem? hj)))
  · exact h

/-! ## The reader -/

theorem lookup_concat (l : List (UInt64 × Except ApiError Value)) (id other : UInt64)
    (outcome : Except ApiError Value) :
    (l ++ [(id, outcome)]).lookup other =
      (l.lookup other).or (if other = id then some outcome else none) := by
  rw [List.lookup_append, List.lookup_cons, List.lookup_nil]
  by_cases heq : other = id
  · simp [heq]
  · simp [heq, beq_eq_false_iff_ne.mpr heq]

/-- The first reply to a call goes to the call, and later ones to nobody. -/
theorem Regular.hand_over (h : s.Regular) {id : UInt64} (hid : s.Sent id)
    (outcome : Except ApiError Value) : (s.hand_over id outcome).Regular := by
  obtain ⟨c, call, hc, rfl, hsent⟩ := hid
  have hplaced := h.placed c call hc
  have hother : ∀ other : UInt64, other ≠ call.id →
      (s.heard ++ [(call.id, outcome)]).lookup other = s.reply_to other := by
    intro other hne
    rw [lookup_concat, if_neg hne, Option.or_none, reply_to]
  have hself : (s.heard ++ [(call.id, outcome)]).lookup call.id =
      call.received.or (some outcome) := by
    rw [lookup_concat, if_pos rfl, hplaced.received, reply_to]
  have hasked : ∀ other, Asked { s with heard := s.heard ++ [(call.id, outcome)] } other →
      s.Asked other ∨ other = call.id := by
    intro other hmem
    simp only [Asked, List.map_append, List.map_singleton, List.mem_append,
      List.mem_singleton] at hmem ⊢
    tauto
  unfold Client.hand_over
  cases hreceived : call.received with
  | none =>
    have hwaiting : call.stage = .waiting := by
      revert hsent
      unfold ClientCall.sent
      split
      · exact fun _ => ‹_›
      · rw [hreceived]
        exact nofun
      · exact nofun
    simp only [hplaced.pending (.inr hwaiting) hreceived]
    refine h.changed { call with received := some outcome } hc rfl (fun _ => ?_) rfl ?_
      hother rfl rfl (fun id hne => AList.lookup_erase_ne hne) (fun d hd => ?_)
      (fun id hid => (hasked id hid).imp_right fun heq => ⟨heq, ?_⟩) ?_
    · rw [ClientCall.sent, hwaiting]
    · change s.calls.modify c _ = _
      rw [List.modify_eq_set_getElem?, hc]
      rfl
    · rw [AList.lookup_erase] at hd
      cases hd
    · rw [ClientCall.sent, hwaiting]
    · constructor
      · exact hplaced.number
      · rw [hreceived] at hself
        exact hself.symm
      · exact nofun
      · intro out hout
        rw [hwaiting] at hout
        cases hout
      · exact hplaced.ended
      · exact fun _ _ => rfl
  | some received =>
    have hnobody : s.pending.lookup call.id = none := by
      by_contra hsome
      obtain ⟨d, hd⟩ := Option.ne_none_iff_exists'.mp hsome
      obtain ⟨other, hother', hid, hnone⟩ := h.listed _ d hd
      obtain rfl := h.unique hc hother' hid
      rw [hc] at hother'
      obtain rfl := Option.some.inj hother'
      exact nomatch hreceived.symm.trans hnone
    simp only [hnobody]
    refine h.same_calls rfl rfl rfl (fun other => ?_)
      (fun other hmem => (hasked other hmem).imp_right fun heq => ⟨c, call, hc, heq.symm, hsent⟩)
      (fun hended => hended) fun hended => hended
    by_cases heq : other = call.id
    · subst heq
      rw [hreceived] at hself
      exact hself.trans (hreceived.symm.trans hplaced.received)
    · exact hother other heq

theorem Regular.handle_frame (h : s.Regular) {frame : Frame}
    (hsent : ∀ id, frame.reply_id = some id → s.Sent id) : (s.handle_frame frame).Regular := by
  cases frame with
  | Res id p => exact h.hand_over (hsent id rfl) (.ok p)
  | Err id code msg => exact h.hand_over (hsent id rfl) (.error ⟨code, msg⟩)
  | Ev seq e p => exact h.moved rfl rfl rfl (fun _ => rfl) (fun _ => id) id id
  | Ask id' q p => exact h.moved rfl rfl rfl (fun _ => rfl) (fun _ => id) id id
  | Req id' m p => exact h.moved rfl rfl rfl (fun _ => rfl) (fun _ => id) nofun id

/-- At the end of the reader nobody waits who will not come to an end. -/
theorem Regular.read (h : s.Regular) (htimely : s.Timely .read) : s.read.Regular := by
  unfold Client.read
  split
  · rename_i frame rest hreading hinbound
    have hrest : Regular { s with inbound := rest } := by
      refine h.moved rfl rfl rfl (fun _ => rfl) (fun id hid => ?_) (fun hended => hended)
        fun hended => hended
      rw [Asked, hinbound, mem_filterMap_cons]
      simp only [Asked] at hid
      tauto
    refine hrest.handle_frame fun id hid => h.sent id ?_
    rw [Asked, hinbound, mem_filterMap_cons]
    tauto
  · rename_i hreading hinbound
    split
    · rename_i hover
      have hend : s.at_end = true := by
        rw [at_end, hreading, hinbound]
        exact hover
      have hall := List.all_eq_true.mp (htimely hend)
      refine ⟨h.next, fun c call hc => ?_, h.listed, h.sent⟩
      have hplaced := h.placed c call hc
      have hcall := hall call (List.mem_of_getElem? hc)
      refine { hplaced with ended := fun _ hstage => ?_, answered := fun _ hstage => ?_ }
      · rw [hstage] at hcall
        exact hcall
      · rw [hstage] at hcall
        exact hcall
    · exact h
  · exact h

/-! ## Runs -/

theorem Regular.step (h : s.Regular) (step : ClientStep) (htimely : s.Timely step) :
    (s.step step).Regular := by
  cases step with
  | call m p => exact h.call m p htimely
  | register c => exact h.of_call fun call hc => h.register hc htimely
  | send c => exact h.of_call fun call hc => h.send hc
  | wake c => exact h.of_call fun call hc => h.wake hc
  | answer id q answer => exact h.answer id q answer
  | take => exact h.take
  | write written => exact h.write written
  | receive => exact h.receive
  | break_off => exact h.moved rfl rfl rfl (fun _ => rfl) (fun _ => id) id id
  | read => exact h.read htimely
  | respond => exact h.respond
  | reply j outcome => exact h.reply j outcome
  | tell line =>
    change Regular (if line.reply_id.isNone then s.tell line else s)
    split
    · rename_i hline
      refine h.tell fun id hid => ?_
      rw [hid] at hline
      cases hline
    · exact h
  | hang_up => exact h.moved rfl rfl rfl (fun _ => rfl) (fun _ => id) id id

/-- One step of its own ends a call that nobody replies to any more. -/
theorem Resolves.of_step {c : Nat} {call : ClientCall} {step : ClientStep}
    (hstep : step.is_call = false) (hc : (s.step step).calls[c]? = some call)
    {outcome : Except ApiError Value} (hstage : call.stage = .resolved outcome)
    (hreply : IsOutcome ((s.step step).reply_to call.id) outcome) : s.Resolves c := by
  refine ⟨[step], fun other hother => ?_, call, outcome, hc, hstage, hreply⟩
  rw [List.mem_singleton.mp hother]
  exact hstep

theorem at_call_of {c : Nat} {call : ClientCall} (hc : s.calls[c]? = some call)
    (f : ClientCall → Client) : s.at_call c f = f call := by
  rw [at_call, hc]

theorem set_call_self {c : Nat} {call : ClientCall} (hc : s.calls[c]? = some call)
    (call' : ClientCall) : (s.set_call c call').calls[c]? = some call' :=
  List.getElem?_set_self (List.getElem?_eq_some_iff.mp hc).1

theorem Regular.no_call_hangs (h : s.Regular) : s.NoCallHangs := by
  intro hended c call hc hnumbered
  have hplaced := h.placed c call hc
  cases hstage : call.stage with
  | numbered => exact absurd hstage hnumbered
  | registered =>
    -- The channel is closed, so the send fails.
    have hnone := h.unheard hc (by rw [ClientCall.sent, hstage])
    have hsend : s.step (.send c) = s.set_call c
        { call with stage := .resolved (.error (disconnected "daemon went away")) } := by
      refine (at_call_of hc _).trans ?_
      simp only [Client.send, hstage, hplaced.ended hended hstage, if_true]
    refine .of_step rfl (by rw [hsend]; exact set_call_self hc _) rfl ?_
    rw [hsend]
    change IsOutcome (s.reply_to call.id) _
    rw [← hplaced.received, hnone]
    exact ⟨_, rfl⟩
  | waiting =>
    obtain ⟨outcome, hreceived⟩ := Option.isSome_iff_exists.mp (hplaced.answered hended hstage)
    have hwake : s.step (.wake c) = s.set_call c { call with stage := .resolved outcome } := by
      refine (at_call_of hc _).trans ?_
      simp only [Client.wake, hstage, hreceived]
    refine .of_step rfl (by rw [hwake]; exact set_call_self hc _) rfl ?_
    rw [hwake]
    change IsOutcome (s.reply_to call.id) _
    rw [← hplaced.received, hreceived]
    exact rfl
  | resolved outcome =>
    refine ⟨[], nofun, call, outcome, hc, hstage, ?_⟩
    change IsOutcome (s.reply_to call.id) _
    rw [← hplaced.received]
    exact hplaced.outcome outcome hstage

/-- In a run of timely steps no call is left without an end. -/
theorem timely_runs_leave_no_call {first : Option Frame} (h : start first = .ok s)
    (steps : List ClientStep) (htimely : runs.Meets Client.step Timely s steps)
    (past : List ClientStep) (hpast : past <+: steps) : (s.run past).NoCallHangs := by
  obtain ⟨rest, rfl⟩ := hpast
  have hmeets := ((runs.meets_append _ past rest).mp htimely).1
  have hstep : ∀ s step, Regular s → Timely s step → Regular (Client.step s step) :=
    fun _ step h htimely => h.step step htimely
  exact (runs.invariant_of_meets hstep (regular_start h) hmeets).no_call_hangs

end Client

/-! ## A daemon that goes away -/

namespace gone_daemon

def first : Option Frame := some (.Res 0 .null)

def connected : Client :=
  { hello := .null, next_id := 1, pending := ∅, calls := [], events := [], asks := []
    outbound := [], writer := .idle, lines := [], hung_up := false
    socket_reader_ended := false, inbound := [], reader := .reading, written := [], heard := [] }

theorem started : Client.start first = .ok connected := rfl

/-- A request is written, and the daemon goes away before it replies. -/
def steps : List ClientStep :=
  [.call "drop.list" .null, .register 0, .send 0, .take, .write true, .hang_up, .receive, .read]

def asking : ClientCall :=
  { id := 1, m := "drop.list", p := .null, stage := .waiting, received := none }

/-- The reader is over, and the sender of the call is still in the table. -/
structure Stuck (s : Client) : Prop where
  ended : s.reader = .ended
  calls : s.calls = [asking]
  pending : s.pending.lookup 1 = some 0

theorem stuck : Stuck (connected.run steps) := ⟨rfl, rfl, by decide +kernel⟩

theorem Stuck.same {s s' : Client} (h : Stuck s) (hreader : s'.reader = s.reader)
    (hcalls : s'.calls = s.calls) (hpending : s'.pending = s.pending) : Stuck s' :=
  ⟨hreader.trans h.ended, hcalls.trans h.calls, hpending ▸ h.pending⟩

/-- No step of the client wakes the call. -/
theorem Stuck.step {s : Client} (h : Stuck s) {step : ClientStep} (hstep : step.is_call = false) :
    Stuck (s.step step) := by
  have hat : ∀ (c : Nat) (f : ClientCall → Client), (c = 0 → f asking = s) →
      Stuck (s.at_call c f) := by
    intro c f hf
    unfold Client.at_call
    rw [h.calls]
    cases c with
    | zero => exact (hf rfl).symm ▸ h
    | succ c => exact h
  cases step with
  | call m p => cases hstep
  | register c => exact hat c _ fun _ => rfl
  | send c => exact hat c _ fun _ => rfl
  | wake c =>
    refine hat c _ fun hc => ?_
    subst hc
    simp only [Client.wake, asking, h.pending, if_true]
  | answer id q answer =>
    change Stuck (s.answer id q answer)
    unfold Client.answer
    split <;> exact h.same rfl rfl rfl
  | take =>
    change Stuck s.take
    unfold Client.take
    split <;> exact h.same rfl rfl rfl
  | write written =>
    change Stuck (s.write written)
    unfold Client.write
    repeat' split
    all_goals exact h.same rfl rfl rfl
  | receive =>
    change Stuck s.receive
    unfold Client.receive
    repeat' split
    all_goals exact h.same rfl rfl rfl
  | break_off => exact h.same rfl rfl rfl
  | read =>
    change Stuck s.read
    simp only [Client.read, h.ended]
    exact h
  | respond =>
    change Stuck s.respond
    simp only [Client.respond, h.ended]
    exact h
  | reply j outcome =>
    change Stuck (s.reply j outcome)
    unfold Client.reply Client.tell
    repeat' split
    all_goals exact h.same rfl rfl rfl
  | tell line =>
    change Stuck (if line.reply_id.isNone then s.tell line else s)
    unfold Client.tell
    repeat' split
    all_goals exact h.same rfl rfl rfl
  | hang_up => exact h.same rfl rfl rfl

theorem Stuck.run {s : Client} (h : Stuck s) {more : List ClientStep}
    (hmore : ∀ step ∈ more, step.is_call = false) : Stuck (s.run more) := by
  induction more generalizing s with
  | nil => exact h
  | cons step more ih =>
    exact ih (h.step (hmore step List.mem_cons_self)) fun other hother =>
      hmore other (List.mem_cons_of_mem _ hother)

/-- The call waits for a reply that does not come, whatever the client does. -/
theorem a_call_waits_forever :
    ¬ ∀ (first : Option Frame) (s : Client), Client.start first = .ok s →
      ∀ steps past : List ClientStep, past <+: steps → (s.run past).NoCallHangs := by
  intro h
  have hstuck := stuck
  have hcall : (connected.run steps).calls[0]? = some asking := by
    rw [hstuck.calls]
    rfl
  obtain ⟨more, hmore, call, outcome, hc, hstage, -⟩ :=
    h first connected started steps steps (List.prefix_refl _) rfl 0 asking hcall nofun
  rw [(hstuck.run hmore).calls] at hc
  obtain rfl := Option.some.inj hc
  cases hstage

/-- The reply comes before the daemon goes away, and the next call finds the
channel closed. -/
def late : List ClientStep :=
  [.call "drop.list" .null, .register 0, .send 0, .take, .write true, .reply 0 (.ok .null),
    .hang_up, .receive, .receive, .read, .answer 3 "offer.accept" none, .take, .write false, .read,
    .call "task.list" .null, .register 1, .send 1, .wake 0]

theorem no_call_is_left : (connected.run late).NoCallHangs :=
  Client.timely_runs_leave_no_call started late (by decide +kernel) late (List.prefix_refl _)

end gone_daemon

end iroh_drop
