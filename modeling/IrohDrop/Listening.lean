-- The law of subscriptions: each receiver gets each frame of another author
-- once, as long as no call of `on_extension` reads a log that holds what is on
-- the channels already.
import IrohDrop.Broadcast
import IrohDrop.Extensions
import IrohDrop.Hearing

open rust_std postcard

namespace iroh_drop

section Laws

variable [Crypto]

/-! ## The channels -/

namespace Session

/-- Nothing went to a channel, and the channels are the same. -/
structure SameChannels (a b : Session) : Prop where
  config : b.toSessionConfig = a.toSessionConfig
  extension_sinks : b.extension_sinks = a.extension_sinks
  delivered : b.delivered = a.delivered

variable (s : Session)

theorem SameChannels.refl : SameChannels s s := ⟨rfl, rfl, rfl⟩

variable {s} in
theorem SameChannels.trans {b c : Session} (h : SameChannels s b) (h' : SameChannels b c) :
    SameChannels s c :=
  ⟨h'.1.trans h.1, h'.2.trans h.2, h'.3.trans h.3⟩

theorem sameChannels_broadcast (body : MessageBodyV1) (draw : Draw) :
    SameChannels s (s.broadcast body draw).2 := by
  unfold broadcast broadcast_signed
  split
  · exact .refl s
  · exact ⟨rfl, rfl, rfl⟩

theorem sameChannels_send_extension («namespace» : FixedBytes 16) (local_kind : UInt32)
    (schema_version : UInt16) (payload : Bytes) (draw : Draw) :
    SameChannels s (s.send_extension «namespace» local_kind schema_version payload draw).2 := by
  unfold send_extension
  split
  · exact .refl s
  · exact s.sameChannels_broadcast _ draw

theorem sameChannels_evaluate_auto_fetch (author : EndpointId) (offer : OfferV1)
    (decision : OfferDecision) :
    SameChannels s (s.evaluate_auto_fetch author offer decision) := by
  unfold evaluate_auto_fetch
  split
  · exact .refl s
  · split
    · exact .refl s
    · split
      · exact ⟨rfl, rfl, rfl⟩
      · split
        · exact .refl s
        · split
          · exact ⟨rfl, rfl, rfl⟩
          · exact .refl s

theorem sameChannels_handle_offer (author : EndpointId) (offer : OfferV1)
    (delivered_from : EndpointId) (now : Instant) :
    SameChannels s (s.handle_offer author offer delivered_from now) := by
  unfold handle_offer
  split
  · exact ⟨rfl, rfl, rfl⟩
  · unfold record_received
    split
    · exact ⟨rfl, rfl, rfl⟩
    · exact ⟨rfl, rfl, rfl⟩
    · rename_i evicted state _
      have hwarned : SameChannels s
          ((if evicted = [] then { s with state } else
            { s with state }.emit (.ProtocolWarning none (.InventoryEvicted evicted.length))).emit
              (.OfferReceived author offer)) := by
        split
        · exact ⟨rfl, rfl, rfl⟩
        · exact ⟨rfl, rfl, rfl⟩
      exact hwarned.trans (sameChannels_evaluate_auto_fetch _ author offer _)

theorem sameChannels_handle_provider (author : EndpointId) (provider : ProviderV1)
    (id : FixedBytes 16) : SameChannels s (s.handle_provider author provider id) := by
  unfold handle_provider
  rcases provider.state
  all_goals
    simp only
    split
    · exact ⟨rfl, rfl, rfl⟩
    · exact ⟨rfl, rfl, rfl⟩

theorem sameChannels_handle_request (hash : BlobHash) (asker : EndpointId) (world : IntakeWorld) :
    SameChannels s (s.handle_request hash asker world) := by
  have hreply : ∀ s : Session, SameChannels s (s.reply_available hash world) := by
    intro s
    unfold reply_available
    simp only
    split
    · exact ⟨rfl, rfl, rfl⟩
    · exact .refl s
  unfold handle_request
  simp only
  split
  · exact ⟨rfl, rfl, rfl⟩
  · split
    · exact ⟨rfl, rfl, rfl⟩
    · split
      · exact ⟨rfl, rfl, rfl⟩
      · exact ⟨(hreply _).1, (hreply _).2, (hreply _).3⟩

end Session

/-! ## What goes to a channel -/

namespace Session

variable (s : Session)

theorem sameChannels_take_token (delivered_from : EndpointId) (now : Instant) :
    SameChannels s (s.take_token delivered_from now).2 := ⟨rfl, rfl, rfl⟩

theorem sameChannels_note_message (verified : VerifiedMessage) (delivered_from : EndpointId)
    (now : Instant) : SameChannels s (s.note_message verified delivered_from now).2 :=
  ⟨rfl, rfl, rfl⟩

/-- Acting on a message that is no extension frame touches no channel. -/
theorem sameChannels_dispatch {verified : VerifiedMessage} (h : verified.item = none)
    (delivered_from : EndpointId) (world : IntakeWorld) :
    SameChannels s (s.dispatch verified delivered_from world) := by
  unfold VerifiedMessage.item at h
  unfold dispatch
  rcases hbody : verified.body with _ | (offer | provider | request | ext)
  · simp only
    split
    · exact ⟨rfl, rfl, rfl⟩
    · exact .refl s
  · exact s.sameChannels_handle_offer _ _ _ _
  · exact s.sameChannels_handle_provider _ _ _
  · exact s.sameChannels_handle_request _ _ _
  · rw [hbody] at h
    cases h

/-- One frame more went to the channel of its namespace. -/
structure Delivers (a : Session) (frame : ExtensionFrame) (b : Session) : Prop where
  config : b.toSessionConfig = a.toSessionConfig
  extension_sinks : b.extension_sinks = a.extension_sinks
  delivered : b.delivered = a.delivered ++ [frame]

/-- An extension frame goes to the channel of its namespace, if there is one. -/
theorem delivers_dispatch {verified : VerifiedMessage} {item : Item} (h : verified.item = some item)
    (delivered_from : EndpointId) (world : IntakeWorld) :
    (item.1 ∈ s.extension_sinks ∧ ∃ frame : ExtensionFrame, frame.item = item ∧
      Delivers s frame (s.dispatch verified delivered_from world)) ∨
    (item.1 ∉ s.extension_sinks ∧
      SameChannels s (s.dispatch verified delivered_from world)) := by
  unfold VerifiedMessage.item at h
  split at h
  · rename_i ext hbody
    cases h
    simp only [dispatch, hbody, handle_extension]
    by_cases hsink : ext.namespace ∈ s.extension_sinks
    · refine .inl ⟨hsink, ⟨verified.author, verified.message.id, ext.namespace, ext.local_kind,
        ext.schema_version, ext.payload⟩, rfl, ?_⟩
      rw [if_pos hsink]
      exact ⟨rfl, rfl, rfl⟩
    · refine .inr ⟨hsink, ?_⟩
      rw [if_neg hsink]
      exact .refl s
  · cases h

/-- A retained frame goes to the channel again, if it is one of the namespace. -/
theorem delivers_replay_extension («namespace» : FixedBytes 16) (frame : Bytes) :
    (∃ item : Item, item.1 = «namespace» ∧
      items_of s.toSessionConfig «namespace» [frame] = [item] ∧
      ∃ sent : ExtensionFrame, sent.item = item ∧
        Delivers s sent (s.replay_extension «namespace» frame)) ∨
    (items_of s.toSessionConfig «namespace» [frame] = [] ∧
      s.replay_extension «namespace» frame = s) := by
  unfold replay_extension items_of
  rcases hread : decode_for_session s.toSessionConfig frame with e | verified
  · exact .inr ⟨by simp [frame_item, hread], rfl⟩
  · rcases hbody : verified.body with _ | (offer | provider | request | ext)
    case some.Extension =>
      simp only [hbody]
      by_cases hsame : ext.namespace = «namespace»
      · refine .inl ⟨(ext.namespace, verified.key), hsame, ?_, ⟨verified.author,
          verified.message.id, ext.namespace, ext.local_kind, ext.schema_version, ext.payload⟩,
          rfl, ?_⟩
        · simp [frame_item, hread, VerifiedMessage.item, hbody, hsame]
        · rw [if_pos hsame]
          exact ⟨rfl, rfl, rfl⟩
      · refine .inr ⟨?_, if_neg hsame⟩
        simp [frame_item, hread, VerifiedMessage.item, hbody, hsame]
    all_goals
      refine .inr ⟨?_, by simp [hbody]⟩
      simp [frame_item, hread, VerifiedMessage.item, hbody]

end Session

/-! ## Receivers as readers -/

namespace Listener

/-- The receiver is on the channel. -/
def live (self : Listener) : Bool :=
  match self.stage with
  | .opened => false
  | .subscribed _ | .replaying _ _ => true

/-- The call has read the log. -/
def loaded (self : Listener) : Bool :=
  match self.stage with
  | .opened | .subscribed _ => false
  | .replaying _ _ => true

/-- The receiver is on the channel from a position that exists. -/
def placed (self : Listener) (n : Nat) : Prop :=
  match self.stage with
  | .opened => True
  | .subscribed start | .replaying start _ => start ≤ n

/-- A receiver as a reader of its namespace. -/
def reader (c : SessionConfig) (delivered : List ExtensionFrame) (self : Listener) :
    broadcast.Reader Item (FixedBytes 16) where
  topic := self.namespace
  live := self.live
  got := (self.got delivered).map ExtensionFrame.item
  loaded := self.loaded
  rest := items_of c self.namespace self.rest
  owed := self.owed

variable {self : Listener} {c : SessionConfig} {delivered : List ExtensionFrame}

theorem placed.mono {n m : Nat} (h : self.placed n) (hle : n ≤ m) : self.placed m := by
  unfold placed at h ⊢
  rcases hstage : self.stage with _ | start | ⟨start, rest⟩
  · trivial
  all_goals
    rw [hstage] at h
    exact le_trans h hle

/-- A frame that goes to a channel is heard by the receivers of its namespace. -/
theorem reader_hear (h : self.placed delivered.length) (frame : ExtensionFrame) :
    self.reader c (delivered ++ [frame]) =
      (self.reader c delivered).hear Prod.fst frame.item := by
  have hgot : self.got (delivered ++ [frame]) = self.got delivered ++
      if self.live = true ∧ frame.namespace = self.namespace then [frame] else [] := by
    unfold placed at h
    unfold got live
    rcases hstage : self.stage with _ | start | ⟨start, rest⟩
    · simp
    all_goals
      rw [hstage] at h
      simp only [List.drop_append_of_le_length h, List.filter_append, true_and]
      by_cases hsame : frame.namespace = self.namespace
      · simp [hsame]
      · simp [hsame]
  unfold reader broadcast.Reader.hear
  rw [hgot]
  by_cases hhears : self.live = true ∧ frame.namespace = self.namespace
  · have hhears' : self.live = true ∧ frame.item.1 = self.namespace := hhears
    simp [hhears, hhears']
  · have hhears' : ¬ (self.live = true ∧ frame.item.1 = self.namespace) := hhears
    simp only [if_neg hhears, if_neg hhears', List.append_nil]

end Listener

theorem items_of_topic {c : SessionConfig} {«namespace» : FixedBytes 16} {frames : List Bytes}
    {item : Item} (h : item ∈ items_of c «namespace» frames) : item.1 = «namespace» := by
  simpa using (List.mem_filter.mp h).2

theorem items_of_cons (c : SessionConfig) («namespace» : FixedBytes 16) (frame : Bytes)
    (frames : List Bytes) :
    items_of c «namespace» (frame :: frames) =
      items_of c «namespace» [frame] ++ items_of c «namespace» frames := by
  unfold items_of
  rw [← List.singleton_append, List.filterMap_append, List.filter_append]

namespace Hub

/-- What is on its way to the channels, and who listens. -/
def board (self : Hub) : broadcast.Board Item (FixedBytes 16) where
  pending := self.pending.filterMap (fun p => p.1.item)
  readers := self.listeners.map
    (Listener.reader self.session.toSessionConfig self.session.delivered)

/-- A frame of another author. -/
def foreign (self : Hub) (item : Item) : Prop := item.2.1 ≠ self.session.self_id

/-- A frame that is new to all receivers, and not on its way to them. -/
def unheard (self : Hub) (item : Item) : Prop :=
  item ∉ self.board.pool ∧ ∀ r ∈ self.board.readers, item ∉ r.got

/-- The extension frame that a message brings in, if it is let in and is new. -/
def brings (self : Hub) (content : Bytes) (delivered_from : EndpointId) (now : Instant) :
    Option Item :=
  match Session.decode_for_session self.session.toSessionConfig content with
  | .error _ => none
  | .ok verified =>
    if self.session.admits delivered_from now = true ∧
        self.session.state.is_fresh verified.key now = true then verified.item
    else none

/-- What a step must find: a call that reads the log finds no frame there that
is the session's own, or that went to a receiver or is on its way to one, and
the log still has what it had at the call. A message that passes the dedup
cache is not the session's own, and did not come before. -/
def Calm (self : Hub) : HubStep → Prop
  | .snapshot k => ∀ l, self.listeners[k]? = some l → l.live = true → l.loaded = false →
      (self.log_items l.namespace).Nodup ∧
      (∀ item ∈ self.log_items l.namespace, self.foreign item ∧ self.unheard item) ∧
      ∀ item ∈ l.owed, item ∈ self.log_items l.namespace ∨ item ∈ self.board.pending ∨
        item ∈ (l.got self.session.delivered).map ExtensionFrame.item
  | .take content delivered_from world =>
      ∀ item, self.brings content delivered_from world.draw.now = some item →
        self.foreign item ∧ self.unheard item
  | _ => True

/-- The receivers as the session means them: of the frames of others in its
namespace each gets each once, and once its call has returned it lacks none
but those that are on their way. -/
structure Serves (hub : Hub) : Prop where
  own : ∀ l ∈ hub.listeners, ∀ frame ∈ l.got hub.session.delivered,
    frame.namespace = l.namespace ∧ frame.author ≠ hub.session.self_id
  once : ∀ l ∈ hub.listeners, ((l.got hub.session.delivered).map ExtensionFrame.item).Nodup
  all : ∀ l ∈ hub.listeners, l.returned → ∀ item ∈ l.owed,
    item ∈ (l.got hub.session.delivered).map ExtensionFrame.item ∨
      ∃ verified delivered_from, (verified, delivered_from) ∈ hub.pending ∧
        verified.item = some item

/-- The invariant behind it. -/
structure Regular (hub : Hub) : Prop where
  board : broadcast.Sound Prod.fst hub.foreign [] hub.board
  placed : ∀ l ∈ hub.listeners, l.placed hub.session.delivered.length
  sinks : ∀ l ∈ hub.listeners, l.namespace ∈ hub.session.extension_sinks

variable {hub : Hub}

theorem Regular.serves (h : hub.Regular) : hub.Serves where
  own l hl frame hframe := by
    have hr := List.mem_map_of_mem
      (f := Listener.reader hub.session.toSessionConfig hub.session.delivered) hl
    obtain ⟨hforeign, htopic⟩ := h.board.heard _ hr frame.item (List.mem_map_of_mem hframe)
    exact ⟨htopic, hforeign⟩
  once l hl := h.board.once _ (List.mem_map_of_mem hl)
  all l hl hreturned item hitem := by
    obtain ⟨start, hstage⟩ := hreturned
    have hloaded : l.loaded = true := by simp [Listener.loaded, hstage]
    rcases h.board.owed _ (List.mem_map_of_mem hl) hloaded item hitem
      with hgot | hpending | hrest | hlost
    · exact .inl hgot
    · obtain ⟨⟨verified, peer⟩, hmem, heq⟩ := List.mem_filterMap.mp hpending
      exact .inr ⟨verified, peer, hmem, heq⟩
    · simp [Listener.reader, Listener.rest, hstage, items_of] at hrest
    · cases hlost

theorem regular_quiet (session : Session) : (quiet session).Regular where
  board := by
    constructor <;> simp [quiet, board, broadcast.Board.pool]
  placed l hl := by cases hl
  sinks l hl := by cases hl

end Hub

/-! ## Steps of a call -/

namespace Hub

variable {hub : Hub}

theorem split_at {k : Nat} {l : Listener} {after : List Listener}
    (h : hub.listeners.drop k = l :: after) :
    hub.listeners = hub.listeners.take k ++ l :: after ∧ hub.listeners[k]? = some l := by
  constructor
  · rw [← h, List.take_append_drop]
  · rw [← List.head?_drop, h]
    rfl

/-- A listener is in another stage: the rest is as it was. -/
theorem Regular.swap (h : hub.Regular) {k : Nat} {l : Listener} (l' : Listener)
    {after : List Listener}
    (hdrop : hub.listeners.drop k = l :: after) (hnamespace : l'.namespace = l.namespace)
    (hplaced : l'.placed hub.session.delivered.length)
    (hboard : broadcast.Sound Prod.fst hub.foreign []
      { hub.board with
        readers :=
          (hub.listeners.take k).map
            (Listener.reader hub.session.toSessionConfig hub.session.delivered) ++
          l'.reader hub.session.toSessionConfig hub.session.delivered ::
          after.map (Listener.reader hub.session.toSessionConfig hub.session.delivered) }) :
    Regular { hub with listeners := hub.listeners.take k ++ l' :: after } := by
  obtain ⟨hlisteners, -⟩ := split_at hdrop
  have hmem : ∀ x ∈ hub.listeners.take k ++ l' :: after, x ∈ hub.listeners ∨ x = l' := by
    intro x hx
    rw [hlisteners]
    simp only [List.mem_append, List.mem_cons] at hx ⊢
    tauto
  constructor
  · have heq : Hub.board { hub with listeners := hub.listeners.take k ++ l' :: after } =
        { hub.board with
          readers :=
            (hub.listeners.take k).map
              (Listener.reader hub.session.toSessionConfig hub.session.delivered) ++
            l'.reader hub.session.toSessionConfig hub.session.delivered ::
            after.map (Listener.reader hub.session.toSessionConfig hub.session.delivered) } := by
      simp only [Hub.board, List.map_append, List.map_cons]
    rw [heq]
    exact hboard
  · intro x hx
    rcases hmem x hx with hx | rfl
    · exact h.placed x hx
    · exact hplaced
  · intro x hx
    rcases hmem x hx with hx | rfl
    · exact h.sinks x hx
    · rw [hnamespace]
      exact h.sinks l (hlisteners ▸ List.mem_append_right _ List.mem_cons_self)

theorem board_split {k : Nat} {l : Listener} {after : List Listener}
    (h : hub.listeners.drop k = l :: after) :
    hub.board.readers =
      (hub.listeners.take k).map
        (Listener.reader hub.session.toSessionConfig hub.session.delivered) ++
      l.reader hub.session.toSessionConfig hub.session.delivered ::
      after.map (Listener.reader hub.session.toSessionConfig hub.session.delivered) := by
  have hlisteners := (split_at h).1
  unfold board
  rw [hlisteners, List.map_append, List.map_cons, ← hlisteners]

theorem regular_open_channel (h : hub.Regular) («namespace» : FixedBytes 16) :
    (hub.open_channel «namespace»).Regular := by
  have hsinks : ∀ x, x ∈ hub.session.extension_sinks ∨ x = «namespace» →
      x ∈ hub.session.extension_sinks.insert «namespace» () := by
    intro x hx
    rw [AList.mem_insert]
    exact hx.symm
  constructor
  · have hjoin := h.board.join (r := Listener.reader hub.session.toSessionConfig
        hub.session.delivered ⟨«namespace», .opened, (hub.log_items «namespace»).filter
          (fun item => decide (item.2.1 ≠ hub.session.self_id))⟩)
      (by simp [Listener.reader, Listener.got]) rfl rfl
      (fun item hitem => items_of_topic (List.mem_filter.mp hitem).1)
    unfold open_channel board
    rw [List.map_append]
    exact hjoin
  · intro l hl
    rcases List.mem_append.mp hl with hl | hl
    · exact h.placed l hl
    · rw [List.mem_singleton.mp hl]
      trivial
  · intro l hl
    rcases List.mem_append.mp hl with hl | hl
    · exact hsinks _ (.inl (h.sinks l hl))
    · rw [List.mem_singleton.mp hl]
      exact hsinks _ (.inr rfl)

theorem regular_subscribe (h : hub.Regular) (k : Nat) : (hub.subscribe k).Regular := by
  unfold subscribe on_listener
  rcases hdrop : hub.listeners.drop k with _ | ⟨l, after⟩
  · exact h
  · simp only
    rcases hstage : l.stage with _ | start | ⟨start, rest⟩
    · simp only
      refine h.swap { l with stage := .subscribed hub.session.delivered.length } hdrop rfl
        (le_refl _) ?_
      refine h.board.load (board_split hdrop) ?_ rfl ?_ rfl rfl ?_ ?_ ?_
      · simp [Listener.reader, Listener.rest, hstage, items_of]
      · simp [Listener.reader, Listener.got, hstage]
      · simp [Listener.reader, Listener.rest, items_of]
      · simp [Listener.reader, Listener.rest, items_of]
      · intro hloaded
        cases hloaded
    all_goals
      simp only
      rw [← (split_at hdrop).1]
      exact h

theorem regular_snapshot (h : hub.Regular) (k : Nat) (hcalm : hub.Calm (.snapshot k)) :
    (hub.snapshot k).Regular := by
  unfold snapshot on_listener
  rcases hdrop : hub.listeners.drop k with _ | ⟨l, after⟩
  · exact h
  · obtain ⟨hlisteners, hget⟩ := split_at hdrop
    simp only
    rcases hstage : l.stage with _ | start | ⟨start, rest⟩
    case subscribed =>
      simp only
      obtain ⟨hnodup, hnew, howed⟩ := hcalm l hget (by simp [Listener.live, hstage])
        (by simp [Listener.loaded, hstage])
      have hplaced : l.placed hub.session.delivered.length :=
        h.placed l (hlisteners ▸ List.mem_append_right _ List.mem_cons_self)
      refine h.swap { l with stage := .replaying start hub.session.state.sync_log } hdrop rfl
        ?_ ?_
      · simpa [Listener.placed, hstage] using hplaced
      · refine h.board.load (board_split hdrop) ?_ rfl ?_ rfl rfl hnodup hnew ?_
        · simp [Listener.reader, Listener.rest, hstage, items_of]
        · simp [Listener.reader, Listener.got, hstage]
        · intro _ item hitem
          rcases howed item hitem with hlog | hpending | hgot
          · exact .inr (.inr hlog)
          · exact .inr (.inl hpending)
          · exact .inl hgot
    all_goals
      simp only
      rw [← hlisteners]
      exact h

/-! ## Frames that go to a channel -/

/-- A frame that goes to a channel, new to all that listen. -/
theorem Regular.deliver {frame : ExtensionFrame} {session : Session}
    (hsent : Session.Delivers hub.session frame session)
    {pending : List (VerifiedMessage × EndpointId)} {listeners : List Listener}
    (hplaced : ∀ l ∈ listeners, l.placed hub.session.delivered.length)
    (hsinks : ∀ l ∈ listeners, l.namespace ∈ hub.session.extension_sinks)
    (hboard : broadcast.Sound Prod.fst hub.foreign [frame.item]
      (Hub.board ⟨hub.session, pending, listeners⟩))
    (hgood : hub.foreign frame.item)
    (hnew : unheard ⟨hub.session, pending, listeners⟩ frame.item) :
    Regular ⟨session, pending, listeners⟩ := by
  have hself : ∀ item, foreign ⟨session, pending, listeners⟩ item ↔ hub.foreign item := by
    intro item
    unfold foreign Session.self_id
    rw [hsent.config]
  constructor
  · have hsend := hboard.send hgood hnew.1 hnew.2
    have heq : Hub.board ⟨session, pending, listeners⟩ =
        broadcast.Board.send Prod.fst (Hub.board ⟨hub.session, pending, listeners⟩) frame.item := by
      unfold Hub.board broadcast.Board.send
      simp only [List.map_map]
      congr 1
      refine List.map_congr_left fun l hl => ?_
      rw [hsent.config, hsent.delivered]
      exact Listener.reader_hear (hplaced l hl) frame
    rw [heq]
    simpa only [funext fun item => propext (hself item)] using hsend
  · intro l hl
    refine (hplaced l hl).mono ?_
    rw [hsent.delivered, List.length_append]
    exact Nat.le_add_right _ _
  · intro l hl
    rw [hsent.extension_sinks]
    exact hsinks l hl

end Hub

namespace Hub

variable {hub : Hub}

theorem regular_replay (h : hub.Regular) (k : Nat) : (hub.replay k).Regular := by
  unfold replay
  split
  · rename_i «namespace» start frame rest owed after hdrop
    obtain ⟨hlisteners, -⟩ := split_at hdrop
    have hmid : (⟨«namespace», .replaying start (frame :: rest), owed⟩ : Listener) ∈
        hub.listeners := hlisteners ▸ List.mem_append_right _ List.mem_cons_self
    have hplaced : (⟨«namespace», .replaying start rest, owed⟩ : Listener).placed
        hub.session.delivered.length := (h.placed _ hmid :)
    have hmem : ∀ l ∈ hub.listeners.take k ++ ⟨«namespace», .replaying start rest, owed⟩ :: after,
        l ∈ hub.listeners ∨ l = ⟨«namespace», .replaying start rest, owed⟩ := by
      intro l hl
      rw [hlisteners]
      simp only [List.mem_append, List.mem_cons] at hl ⊢
      tauto
    rcases hub.session.delivers_replay_extension «namespace» frame
      with ⟨item, -, hitem, sent, rfl, hsent⟩ | ⟨hitem, hsame⟩
    · -- The frame is one of the namespace: it leaves the replay for the channel.
      have hrest : ((⟨«namespace», .replaying start (frame :: rest), owed⟩ : Listener).reader
          hub.session.toSessionConfig hub.session.delivered).rest =
          sent.item :: items_of hub.session.toSessionConfig «namespace» rest := by
        simp only [Listener.reader, Listener.rest]
        rw [items_of_cons, hitem, List.singleton_append]
      obtain ⟨hsound, hgood, hpool, hnew⟩ := h.board.next (board_split hdrop) hrest
      have heq : Hub.board ⟨hub.session, hub.pending,
          hub.listeners.take k ++ ⟨«namespace», .replaying start rest, owed⟩ :: after⟩ =
          { hub.board with
            readers :=
              (hub.listeners.take k).map
                (Listener.reader hub.session.toSessionConfig hub.session.delivered) ++
              (⟨«namespace», .replaying start rest, owed⟩ : Listener).reader
                hub.session.toSessionConfig hub.session.delivered ::
              after.map (Listener.reader hub.session.toSessionConfig hub.session.delivered) } := by
        simp only [Hub.board, List.map_append, List.map_cons]
      refine Regular.deliver hsent ?_ ?_ (heq ▸ hsound) hgood ?_
      · intro l hl
        rcases hmem l hl with hl | rfl
        · exact h.placed l hl
        · exact hplaced
      · intro l hl
        rcases hmem l hl with hl | rfl
        · exact h.sinks l hl
        · exact (h.sinks _ hmid :)
      · unfold unheard
        rw [heq]
        exact ⟨hpool, hnew⟩
    · rw [hsame]
      refine h.swap ⟨«namespace», .replaying start rest, owed⟩ hdrop rfl hplaced ?_
      have hreader : (⟨«namespace», .replaying start rest, owed⟩ : Listener).reader
          hub.session.toSessionConfig hub.session.delivered =
          (⟨«namespace», .replaying start (frame :: rest), owed⟩ : Listener).reader
            hub.session.toSessionConfig hub.session.delivered := by
        simp only [Listener.reader, Listener.rest, Listener.live, Listener.loaded, Listener.got]
        rw [items_of_cons _ _ frame, hitem, List.nil_append]
      rw [hreader, ← board_split hdrop]
      exact h.board
  · exact h

/-- A session that touches no channel. -/
theorem Regular.same (h : hub.Regular) {session : Session}
    (hsame : Session.SameChannels hub.session session) : Regular { hub with session } := by
  constructor
  · have hboard : Hub.board { hub with session } = hub.board := by
      unfold Hub.board
      rw [hsame.config, hsame.delivered]
    have hforeign : Hub.foreign { hub with session } = hub.foreign := by
      unfold Hub.foreign Session.self_id
      rw [hsame.config]
    rw [hboard, hforeign]
    exact h.board
  · intro l hl
    rw [hsame.delivered]
    exact h.placed l hl
  · intro l hl
    rw [hsame.extension_sinks]
    exact h.sinks l hl

/-- A message is retained: the receivers of its namespace are owed it. -/
theorem Regular.arrive (h : hub.Regular) {verified : VerifiedMessage} (delivered_from : EndpointId)
    (hnew : ∀ item, verified.item = some item → hub.foreign item ∧ hub.unheard item) :
    Regular { hub with
      pending := hub.pending ++ [(verified, delivered_from)]
      listeners := hub.listeners.map (fun l => l.owe hub.session.self_id verified.item) } := by
  constructor
  · rcases hitem : verified.item with _ | item
    · have hboard : Hub.board { hub with
          pending := hub.pending ++ [(verified, delivered_from)]
          listeners := hub.listeners.map (fun l => l.owe hub.session.self_id none) } =
          hub.board := by
        unfold Hub.board
        rw [List.filterMap_append, List.map_map]
        simp [hitem, Function.comp_def, Listener.owe]
      rw [hboard]
      exact h.board
    · obtain ⟨hgood, hpool, hgot⟩ := hnew item hitem
      have harrive := h.board.arrive (fun r => r.owed ++
        ((some item).filter (fun item : Item =>
          decide (item.1 = r.topic ∧ item.2.1 ≠ hub.session.self_id))).toList)
        hgood hpool hgot ?_
      · have hboard : Hub.board { hub with
            pending := hub.pending ++ [(verified, delivered_from)]
            listeners := hub.listeners.map
              (fun l => l.owe hub.session.self_id (some item)) } =
            ⟨hub.board.pending ++ [item], hub.board.readers.map (fun r => { r with
              owed := r.owed ++ ((some item).filter (fun item : Item =>
                decide (item.1 = r.topic ∧ item.2.1 ≠ hub.session.self_id))).toList })⟩ := by
          unfold Hub.board
          rw [List.filterMap_append, List.map_map, List.map_map]
          simp only [List.filterMap_cons, hitem, List.filterMap_nil]
          rfl
        rw [hboard]
        exact harrive
      · intro r y hy
        rcases List.mem_append.mp hy with hy | hy
        · exact .inl hy
        · simp only [Option.mem_toList, Option.filter_eq_some_iff, Option.some.injEq,
            decide_eq_true_eq] at hy
          obtain ⟨rfl, htopic, -⟩ := hy
          exact .inr ⟨rfl, htopic⟩
  · intro l hl
    obtain ⟨l', hl', rfl⟩ := List.mem_map.mp hl
    exact h.placed l' hl'
  · intro l hl
    obtain ⟨l', hl', rfl⟩ := List.mem_map.mp hl
    exact h.sinks l' hl'

theorem regular_take (h : hub.Regular) (content : Bytes) (delivered_from : EndpointId)
    (world : IntakeWorld) (hcalm : hub.Calm (.take content delivered_from world)) :
    (hub.take content delivered_from world).Regular := by
  unfold take
  rcases hread : Session.decode_for_session hub.session.toSessionConfig content with e | verified
  · refine h.same ?_
    unfold Session.receive
    rw [hread]
    exact ⟨rfl, rfl, rfl⟩
  · simp only
    rcases htoken : hub.session.take_token delivered_from world.draw.now with ⟨_ | _, s₁⟩
    · have hsame := hub.session.sameChannels_take_token delivered_from world.draw.now
      rw [htoken] at hsame
      exact h.same ⟨hsame.1, hsame.2, hsame.3⟩
    · have hsame := hub.session.sameChannels_take_token delivered_from world.draw.now
      rw [htoken] at hsame
      rcases hnote : s₁.note_message verified delivered_from world.draw.now with ⟨_ | _, s₂⟩
      · have hsame' := s₁.sameChannels_note_message verified delivered_from world.draw.now
        rw [hnote] at hsame'
        simp only [hnote]
        exact h.same (hsame.trans hsame')
      · have hsame' := s₁.sameChannels_note_message verified delivered_from world.draw.now
        rw [hnote] at hsame'
        have hkept : Session.SameChannels hub.session (s₂.retain verified content) :=
          (hsame.trans hsame').trans ⟨rfl, rfl, rfl⟩
        have hbrings : hub.brings content delivered_from world.draw.now = verified.item := by
          have hadmits : hub.session.admits delivered_from world.draw.now = true := by
            unfold Session.admits
            rw [htoken]
          have hfresh : hub.session.state.is_fresh verified.key world.draw.now = true := by
            rw [← Session.note_message_fst, htoken, hnote]
          unfold brings
          rw [hread]
          exact if_pos ⟨hadmits, hfresh⟩
        have hnew : ∀ item, verified.item = some item → hub.foreign item ∧ hub.unheard item :=
          fun item hitem => hcalm item (hbrings.trans hitem)
        simp only [hnote]
        exact (h.arrive delivered_from hnew).same hkept

end Hub

namespace Hub

variable {hub : Hub}

theorem regular_act (h : hub.Regular) (j : Nat) (world : IntakeWorld) :
    (hub.act j world).Regular := by
  unfold act
  split
  · rename_i verified delivered_from after hdrop
    have hpending : hub.pending = hub.pending.take j ++ (verified, delivered_from) :: after := by
      rw [← hdrop, List.take_append_drop]
    rcases hitem : verified.item with _ | item
    · have hboard : Hub.board { hub with pending := hub.pending.take j ++ after } = hub.board := by
        have hsplit : hub.pending.filterMap (fun p => p.1.item) =
            (hub.pending.take j ++ after).filterMap (fun p => p.1.item) := by
          rw [hpending, List.filterMap_append, List.filterMap_cons, hitem, ← hpending,
            List.filterMap_append]
        unfold Hub.board
        rw [hsplit]
      have hnow : Regular { hub with pending := hub.pending.take j ++ after } := by
        refine ⟨?_, h.placed, h.sinks⟩
        rw [hboard]
        exact h.board
      exact hnow.same (hub.session.sameChannels_dispatch hitem delivered_from world)
    · have hsplit : hub.board.pending =
          (hub.pending.take j).filterMap (fun p => p.1.item) ++
            item :: after.filterMap (fun p => p.1.item) := by
        unfold Hub.board
        rw [hpending, List.filterMap_append, List.filterMap_cons, hitem, ← hpending]
      obtain ⟨hsound, hgood, hpool, hgot⟩ := h.board.act hsplit
      have hboard : Hub.board ⟨hub.session, hub.pending.take j ++ after, hub.listeners⟩ =
          { hub.board with
            pending := (hub.pending.take j).filterMap (fun p => p.1.item) ++
              after.filterMap (fun p => p.1.item) } := by
        unfold Hub.board
        rw [List.filterMap_append]
      rcases hub.session.delivers_dispatch hitem delivered_from world
        with ⟨-, frame, rfl, hsent⟩ | ⟨hsink, hsame⟩
      · refine Regular.deliver hsent h.placed h.sinks (hboard ▸ hsound) hgood ?_
        unfold unheard
        rw [hboard]
        exact ⟨hpool, hgot⟩
      · have hnow : Regular ⟨hub.session, hub.pending.take j ++ after, hub.listeners⟩ := by
          refine ⟨?_, h.placed, h.sinks⟩
          rw [hboard]
          refine hsound.forget fun r hr htopic => ?_
          obtain ⟨l, hl, rfl⟩ := List.mem_map.mp hr
          exact hsink (htopic ▸ h.sinks l hl)
        exact hnow.same hsame
  · exact h

theorem regular_step (h : hub.Regular) (step : HubStep) (hcalm : hub.Calm step) :
    (hub.step step).Regular := by
  cases step with
  | open_channel «namespace» => exact regular_open_channel h «namespace»
  | subscribe k => exact regular_subscribe h k
  | snapshot k => exact regular_snapshot h k hcalm
  | replay k => exact regular_replay h k
  | take content delivered_from world => exact regular_take h content delivered_from world hcalm
  | act j world => exact regular_act h j world
  | send_extension «namespace» local_kind schema_version payload draw =>
    exact h.same
      (hub.session.sameChannels_send_extension «namespace» local_kind schema_version payload draw)

end Hub

/-- In every run of calls, messages and sends from a session that nobody
listens to, each step of which is calm, the receivers are served: each gets the
frames of other authors in its namespace, each once, and no others. -/
theorem calm_runs_serve (session : Session) (steps : List HubStep)
    (hcalm : runs.Meets Hub.step Hub.Calm (Hub.quiet session) steps) (past : List HubStep)
    (hpast : past <+: steps) : ((Hub.quiet session).run past).Serves := by
  obtain ⟨rest, rfl⟩ := hpast
  have hmeets := ((runs.meets_append _ past rest).mp hcalm).1
  have hstep : ∀ hub step, Hub.Regular hub → Hub.Calm hub step → Hub.Regular (Hub.step hub step) :=
    fun hub step h hstep => Hub.regular_step h step hstep
  exact (runs.invariant_of_meets hstep (Hub.regular_quiet session) hmeets).serves

end Laws

/-! ## A frame that comes back -/

namespace own_echo

local instance : Crypto := Crypto.clear

def topic : TopicId := ⟨.fill 32 8⟩
def author : SecretKey := ⟨.fill 32 2⟩
def game : FixedBytes 16 := .fill 16 5

def member : Session :=
  .new ⟨.fill 32 1⟩ {} PolicyDecider topic (.nodeless topic.as_bytes none) none (fun _ => .NotFound)

def draw : Draw :=
  { now := 0, sent_at_ms := 0, id := .fill 16 4, nonce := .fill 24 0, carried := .ok () }

/-- The member sends a frame, and subscribes to the namespace afterwards. -/
def sent_first : List HubStep :=
  [.send_extension game 0 1 [1, 2] draw, .open_channel game, .subscribe 0, .snapshot 0, .replay 0]

/-- The member gets its own frame. -/
theorem a_sender_hears_itself :
    ¬ ∀ [Crypto] (_ : Crypto.Works) (secret : SecretKey) (policy : DropPolicy)
      (decider : OfferDecider) (topic_id : TopicId) (ticket : DropTicket)
      (drop_key : Option DropKey) (store : BlobHash → BlobStatus) (steps : List HubStep),
      ((Hub.quiet (Session.new secret policy decider topic_id ticket drop_key store)).run
        steps).Serves := by
  intro h
  have hserves : ((Hub.quiet member).run sent_first).Serves :=
    h Crypto.clear_works _ _ _ _ _ _ _ _
  have hgot : ((Hub.quiet member).run sent_first).listeners.map (fun l =>
      (l.got ((Hub.quiet member).run sent_first).session.delivered).map ExtensionFrame.author) =
      [[((Hub.quiet member).run sent_first).session.self_id]] := by decide +kernel
  rcases hlisteners : ((Hub.quiet member).run sent_first).listeners with _ | ⟨l, rest⟩
  · rw [hlisteners] at hgot
    cases hgot
  · rw [hlisteners, List.map_cons, List.cons.injEq] at hgot
    have hself := List.mem_singleton_self ((Hub.quiet member).run sent_first).session.self_id
    rw [← hgot.1] at hself
    obtain ⟨frame, hframe, hauthor⟩ := List.mem_map.mp hself
    exact (hserves.own l (hlisteners ▸ List.mem_cons_self) frame hframe).2 hauthor

/-- A frame of another member. -/
def content : Bytes :=
  match (MessageV1.new (.Extension ⟨game, 0, 1, [1, 2]⟩) (.fill 16 3) 0).encode author topic with
  | .ok bytes => bytes
  | .error _ => []

def world : IntakeWorld := { draw, announced_at_ms := 0 }

/-- A subscription, and a frame of another member that comes in. -/
def heard : List HubStep :=
  [.open_channel game, .subscribe 0, .snapshot 0, .take content author.public world, .act 0 world]

theorem calm_runs_serve_at_member :
    ((Hub.quiet member).run heard).Serves ∧
      ((Hub.quiet member).run heard).listeners.map (fun l =>
        (l.got ((Hub.quiet member).run heard).session.delivered).map ExtensionFrame.author) =
        [[author.public]] := by
  refine ⟨calm_runs_serve member heard ?_ heard List.prefix_rfl, by decide +kernel⟩
  refine ⟨trivial, trivial, ?_, ?_, trivial, trivial⟩
  · intro l hl _ _
    have hlog : ((Hub.quiet member).run (heard.take 2)).log_items l.namespace = [] := by
      have hempty : ((Hub.quiet member).run (heard.take 2)).session.state.sync_log = [] := by
        decide +kernel
      unfold Hub.log_items
      rw [hempty]
      rfl
    have howed : ((Hub.quiet member).run (heard.take 2)).listeners.map Listener.owed = [[]] := by
      decide +kernel
    have hl' : l.owed ∈ ((Hub.quiet member).run (heard.take 2)).listeners.map Listener.owed :=
      List.mem_map_of_mem (List.mem_of_getElem? hl)
    rw [howed, List.mem_singleton] at hl'
    change (((Hub.quiet member).run (heard.take 2)).log_items l.namespace).Nodup ∧ (∀ item ∈
      ((Hub.quiet member).run (heard.take 2)).log_items l.namespace, _) ∧ _
    rw [hlog, hl']
    exact ⟨List.nodup_nil, fun _ hitem => absurd hitem List.not_mem_nil,
      fun _ hitem => absurd hitem List.not_mem_nil⟩
  · intro item hitem
    have hbrings : ((Hub.quiet member).run (heard.take 3)).brings content author.public
        world.draw.now = some (game, author.public, .fill 16 3) := by decide +kernel
    change ((Hub.quiet member).run (heard.take 3)).brings content author.public
      world.draw.now = some item at hitem
    rw [hbrings] at hitem
    cases hitem
    have hpool : ((Hub.quiet member).run (heard.take 3)).board.pool = [] := by decide +kernel
    have hgot : ∀ got ∈ ((Hub.quiet member).run (heard.take 3)).board.readers.map
        broadcast.Reader.got, got = [] := by decide +kernel
    refine ⟨?_, ?_, fun r hr => ?_⟩
    · change author.public ≠ member.self_id
      decide +kernel
    · change _ ∉ ((Hub.quiet member).run (heard.take 3)).board.pool
      rw [hpool]
      exact List.not_mem_nil
    · rw [hgot _ (List.mem_map_of_mem hr)]
      exact List.not_mem_nil

end own_echo

end iroh_drop
