-- How many bytes the replies of the control API take as JSON, from the texts and
-- numbers that they tell (service.rs).
import IrohDrop.ApiDaemon
import IrohDrop.JsonText

open rust_std postcard

namespace iroh_drop

open json_text

/-! ## Texts and numbers -/

theorem text_cost_no_drop (handle : String) :
    text_cost s!"no drop {handle}" = 8 + text_cost handle := by
  have hlead : text_cost "no drop " = 10 := rfl
  have happend : text_cost s!"no drop {handle}" + 2 = text_cost "no drop " + text_cost handle :=
    text_cost_append "no drop " handle
  omega

theorem text_cost_no_method (m : String) :
    text_cost s!"no method {m}" = 10 + text_cost m := by
  have hlead : text_cost "no method " = 12 := rfl
  have happend : text_cost s!"no method {m}" + 2 = text_cost "no method " + text_cost m :=
    text_cost_append "no method " m
  omega

/-- Two digits a byte, of which none is escaped. -/
theorem text_cost_hex (b : Bytes) : text_cost (hex_lower b) = 2 * b.length + 2 := by
  have hdigit : ∀ n < 16, DropTicket.str_len (table_json.escape (hex_digit n)) = 1 := by decide
  unfold text_cost hex_lower
  rw [String.toList_ofList]
  induction b with
  | nil => rfl
  | cons x b ih =>
    have hhigh : x.toNat / 16 < 16 := Nat.div_lt_of_lt_mul x.toNat_lt
    have hlow : x.toNat % 16 < 16 := Nat.mod_lt _ (by decide)
    rw [List.flatMap_cons, List.map_append, List.sum_append, List.length_cons]
    simp only [List.map_cons, List.map_nil, List.sum_cons, List.sum_nil, hdigit _ hhigh,
    hdigit _ hlow]
    omega

@[simp] theorem TopicId.text_cost_to_string (topic : TopicId) : text_cost topic.to_string = 66 := by
  unfold TopicId.to_string
  rw [text_cost_hex, topic.as_bytes.length_eq]

@[simp] theorem BlobHash.text_cost_to_hex (hash : BlobHash) : text_cost hash.to_hex = 66 := by
  unfold BlobHash.to_hex
  rw [text_cost_hex, hash.as_bytes.length_eq]

@[simp] theorem EndpointId.text_cost_to_string [Crypto] (id : EndpointId) :
    text_cost id.to_string = 66 := by
  unfold EndpointId.to_string
  rw [text_cost_hex, id.as_bytes.length_eq]

/-- What is not there is `null`. -/
def optional_cost {α : Type} (cost : α → Nat) : Option α → Nat
  | some a => cost a
  | none => 4

/-- A `usize`. -/
def count_cost (n : Nat) : Nat := number_cost (UInt64.ofNat n).toNat

section Costs

variable (write_f64 : UInt64 → List Char)

namespace Value

theorem cost_number (n : Nat) : (number n).cost write_f64 = count_cost n := cost_pos_int _ _

theorem cost_optional {α : Type} (to_value : α → Value) (x : Option α) :
    (optional to_value x).cost write_f64 =
      optional_cost (fun a => (to_value a).cost write_f64) x := by
  cases x with
  | none => rfl
  | some a => rfl

theorem cost_optional_string (x : Option String) :
    (optional string x).cost write_f64 = optional_cost text_cost x := by
  rw [cost_optional]
  exact congrArg (optional_cost · x) (funext (cost_string write_f64))

theorem cost_optional_number (x : Option Nat) :
    (optional number x).cost write_f64 = optional_cost count_cost x := by
  rw [cost_optional]
  exact congrArg (optional_cost · x) (funext (cost_number write_f64))

end Value

/-! ## Rows -/

/-- A recorded event. -/
def Envelope.cost (self : Envelope) : Nat :=
  18 + number_cost self.seq.toNat + text_cost self.e + self.p.cost write_f64

theorem Envelope.cost_to_value (self : Envelope) :
    self.to_value.cost write_f64 = self.cost write_f64 := by
  have haround : (["seq", "e", "p"].map fun key => text_cost key + 2).sum + 1 = 18 := rfl
  unfold to_value Envelope.cost
  refine (Value.cost_record write_f64 _ (by rfl) haround).trans ?_
  simp only [List.map_cons, List.map_nil, List.sum_cons, List.sum_nil, Value.cost_pos_int,
    Value.cost_string]
  omega

def TaskEntry.cost (self : TaskEntry) (id : String) : Nat :=
  42 + text_cost id + text_cost self.kind.text + text_cost self.drop +
    optional_cost (fun _ => 66) self.hash + text_cost self.state.text

theorem TaskEntry.cost_to_value (self : TaskEntry) (id : String) :
    (self.to_value id).cost write_f64 = self.cost id := by
  have haround : (["task", "kind", "drop", "hash", "state"].map
      fun key => text_cost key + 2).sum + 1 = 42 := rfl
  unfold to_value TaskEntry.cost
  refine (Value.cost_record write_f64 _ (by rfl) haround).trans ?_
  simp only [List.map_cons, List.map_nil, List.sum_cons, List.sum_nil, Value.cost_string,
    Value.cost_optional, BlobHash.text_cost_to_hex]
  omega

/-- A row of `drop.list`. -/
def DropRow.cost (self : DropRow) : Nat :=
  151 + text_cost self.drop + optional_cost text_cost self.name + bool_cost self.mine +
    count_cost self.peers + count_cost self.offers + number_cost self.files.toNat +
    number_cost self.bytes.toNat + text_cost self.human_size

theorem DropRow.cost_to_value (self : DropRow) : self.to_value.cost write_f64 = self.cost := by
  have haround : (["drop", "name", "mine", "topic", "peers", "offers", "files", "bytes",
      "human_size"].map fun key => text_cost key + 2).sum + 1 = 85 := rfl
  unfold to_value DropRow.cost
  refine (Value.cost_record write_f64 _ (by rfl) haround).trans ?_
  simp only [List.map_cons, List.map_nil, List.sum_cons, List.sum_nil, Value.cost_string,
    Value.cost_optional_string, Value.cost_bool, Value.cost_number, Value.cost_pos_int,
    TopicId.text_cost_to_string]
  omega

/-- An item of `offer.list`. -/
def InventoryItem.cost (human_bytes : UInt64 → String) (self : InventoryItem) : Nat :=
  156 + count_cost self.index + text_cost self.name + number_cost self.content_size.toNat +
    text_cost (human_bytes self.content_size) + text_cost self.kind +
    bool_cost self.is_collection + optional_cost count_cost self.members +
    text_cost (status_str self.status)

theorem InventoryItem.cost_to_value (human_bytes : UInt64 → String) (self : InventoryItem) :
    (self.to_value human_bytes).cost write_f64 = self.cost human_bytes := by
  have haround : (["n", "name", "hash", "size", "human_size", "kind", "is_collection", "members",
      "status"].map fun key => text_cost key + 2).sum + 1 = 90 := rfl
  unfold to_value InventoryItem.cost
  refine (Value.cost_record write_f64 _ (by rfl) haround).trans ?_
  simp only [List.map_cons, List.map_nil, List.sum_cons, List.sum_nil, Value.cost_string,
    Value.cost_optional_number, Value.cost_bool, Value.cost_number, Value.cost_pos_int,
    BlobHash.text_cost_to_hex]
  omega

/-! ## Replies -/

section Rows

variable {α : Type} {to_value : α → Value} {cost : α → Nat}
  (hcost : ∀ item, (to_value item).cost write_f64 = cost item)

include hcost

theorem cost_rows (items : List α) :
    (Value.array (items.map to_value)).cost write_f64 = list_cost (items.map cost) := by
  rw [Value.cost_array, List.map_map]
  exact congrArg list_cost (List.map_congr_left fun item _ => hcost item)

/-- An object with one list. -/
theorem cost_listing (key : String) (items : List α) :
    (Value.object [(key, .array (items.map to_value))]).cost write_f64 =
      text_cost key + list_cost (items.map cost) + 3 := by
  simp only [Value.cost_fields, List.map_cons, List.map_nil, List.sum_cons, List.sum_nil,
    cost_rows write_f64 hcost]
  omega

end Rows

theorem cost_drops_reply (rows : List DropRow) :
    (drops_reply rows).cost write_f64 = 10 + list_cost (rows.map DropRow.cost) := by
  have hkey : text_cost "drops" = 7 := rfl
  unfold drops_reply
  rw [cost_listing write_f64 (DropRow.cost_to_value write_f64), hkey]
  omega

theorem cost_items_reply (human_bytes : UInt64 → String) (items : List InventoryItem) :
    (items_reply human_bytes items).cost write_f64 =
      10 + list_cost (items.map (InventoryItem.cost human_bytes)) := by
  have hkey : text_cost "items" = 7 := rfl
  unfold items_reply
  rw [cost_listing write_f64 (InventoryItem.cost_to_value write_f64 human_bytes), hkey]
  omega

theorem cost_tasks_reply (tasks : List (String × TaskEntry)) :
    (tasks_reply tasks).cost write_f64 =
      10 + list_cost (tasks.map fun task => task.2.cost task.1) := by
  have hkey : text_cost "tasks" = 7 := rfl
  unfold tasks_reply
  rw [cost_listing write_f64 fun task => task.2.cost_to_value write_f64 task.1, hkey]
  omega

theorem cost_replay_reply (replayed : List Envelope × Bool) :
    (replay_reply replayed).cost write_f64 =
      24 + list_cost (replayed.1.map (Envelope.cost write_f64)) + bool_cost replayed.2 := by
  have haround : (["events", "truncated"].map fun key => text_cost key + 2).sum + 1 = 24 := rfl
  unfold replay_reply
  refine (Value.cost_record write_f64 _ (by rfl) haround).trans ?_
  simp only [List.map_cons, List.map_nil, List.sum_cons, List.sum_nil,
    cost_rows write_f64 (Envelope.cost_to_value write_f64), Value.cost_bool]
  omega

def ticket_cost (options : ApiOptions) (ticket : List Char) : Nat :=
  31 + text_cost (String.ofList (app_link ticket)) +
    optional_cost (fun base : String => text_cost (String.ofList (web_link base.toList ticket)))
      options.link_base +
    text_cost (String.ofList ticket)

theorem cost_ticket_reply (options : ApiOptions) (ticket : List Char) :
    (ticket_reply options ticket).cost write_f64 = ticket_cost options ticket := by
  have haround : (["link", "web_link", "ticket"].map
      fun key => text_cost key + 2).sum + 1 = 31 := rfl
  unfold ticket_reply ticket_cost
  refine (Value.cost_record write_f64 _ (by rfl) haround).trans ?_
  simp only [List.map_cons, List.map_nil, List.sum_cons, List.sum_nil, Value.cost_string,
    Value.cost_optional]
  omega

theorem cost_created_reply (handle : String) (topic : TopicId) (ticket : List Char) :
    (created_reply handle topic ticket).cost write_f64 =
      94 + text_cost handle + text_cost (String.ofList ticket) := by
  have haround : (["drop", "topic", "ticket"].map fun key => text_cost key + 2).sum + 1 = 28 := rfl
  unfold created_reply
  refine (Value.cost_record write_f64 _ (by rfl) haround).trans ?_
  simp only [List.map_cons, List.map_nil, List.sum_cons, List.sum_nil, Value.cost_string,
    TopicId.text_cost_to_string]
  omega

theorem cost_joined_reply (handle : String) (topic : TopicId) :
    (joined_reply handle topic).cost write_f64 = 84 + text_cost handle := by
  have haround : (["drop", "topic"].map fun key => text_cost key + 2).sum + 1 = 18 := rfl
  unfold joined_reply
  refine (Value.cost_record write_f64 _ (by rfl) haround).trans ?_
  simp only [List.map_cons, List.map_nil, List.sum_cons, List.sum_nil, Value.cost_string,
    TopicId.text_cost_to_string]
  omega

theorem cost_already_reply (handle : String) (topic : TopicId) :
    (already_reply handle topic).cost write_f64 = 99 + text_cost handle := by
  have haround : (["drop", "topic", "already"].map fun key => text_cost key + 2).sum + 1 = 29 := rfl
  have htrue : bool_cost true = 4 := rfl
  unfold already_reply
  refine (Value.cost_record write_f64 _ (by rfl) haround).trans ?_
  simp only [List.map_cons, List.map_nil, List.sum_cons, List.sum_nil, Value.cost_string,
    Value.cost_bool, TopicId.text_cost_to_string, htrue]
  omega

theorem cost_task_started_reply (task : String) :
    (task_started_reply task).cost write_f64 = 9 + text_cost task := by
  have haround : (["task"].map fun key => text_cost key + 2).sum + 1 = 9 := rfl
  unfold task_started_reply
  refine (Value.cost_record write_f64 _ (by rfl) haround).trans ?_
  simp only [List.map_cons, List.map_nil, List.sum_cons, List.sum_nil, Value.cost_string]
  omega

def status_cost (options : ApiOptions) (drops : Nat) (current : UInt64) : Nat :=
  153 + bool_cost options.offline + bool_cost options.mdns + bool_cost options.store_path.isSome +
    text_cost options.download_dir + count_cost drops + number_cost current.toNat

theorem cost_status_reply [Crypto] (options : ApiOptions) (endpoint_id : EndpointId) (drops : Nat)
    (current : UInt64) : (status_reply options endpoint_id drops current).cost write_f64 =
      status_cost options drops current := by
  have haround : (["endpoint_id", "offline", "mdns", "persistent_store", "download_dir", "drops",
      "seq"].map fun key => text_cost key + 2).sum + 1 = 87 := rfl
  unfold status_reply status_cost
  refine (Value.cost_record write_f64 _ (by rfl) haround).trans ?_
  simp only [List.map_cons, List.map_nil, List.sum_cons, List.sum_nil, Value.cost_string,
    Value.cost_bool, Value.cost_number, Value.cost_pos_int, EndpointId.text_cost_to_string]
  omega

theorem cost_hello_reply_le [Crypto] (endpoint_id : EndpointId) (current : UInt64) :
    (hello_reply endpoint_id current).cost write_f64 ≤ 500 := by
  have haround : (["api", "daemon", "wire", "endpoint_id", "methods", "events_from"].map
      fun key => text_cost key + 2).sum + 1 = 67 := rfl
  have hversions : number_cost API_VERSION.toUInt64.toNat + text_cost DAEMON_VERSION +
      number_cost WIRE_VERSION.toUInt64.toNat = 9 := by decide
  have hmethods : list_cost (methods.map fun m => text_cost m) ≤ 250 := by decide
  have hcurrent := number_cost_le current
  unfold hello_reply
  refine (Value.cost_record write_f64 _ (by rfl) haround).trans_le ?_
  simp only [List.map_cons, List.map_nil, List.sum_cons, List.sum_nil, Value.cost_string,
    Value.cost_array, Value.cost_pos_int, EndpointId.text_cost_to_string, List.map_map,
    Function.comp_def]
  omega

/-! ## What an offer tells -/

theorem cost_timeout : number_cost CONSENT_TIMEOUT_MS.toNat = 6 := rfl

theorem cost_consent_question [Crypto] (human_bytes : UInt64 → String) (consent : Consent) :
    (consent_question human_bytes consent).cost write_f64 =
      249 + text_cost consent.drop + text_cost consent.offer.name +
        number_cost consent.offer.size.toNat + text_cost (human_bytes consent.offer.size) +
        optional_cost text_cost consent.offer.media_type +
        optional_cost text_cost (consent.offer.metadata.get META_MEMBERS) := by
  have haround : (["drop", "from", "name", "size", "human_size", "media_type", "members",
      "known", "hash", "expires_in_ms"].map fun key => text_cost key + 2).sum + 1 = 106 := rfl
  have hknown : bool_cost false = 5 := rfl
  unfold consent_question
  refine (Value.cost_record write_f64 _ (by rfl) haround).trans ?_
  simp only [List.map_cons, List.map_nil, List.sum_cons, List.sum_nil, Value.cost_string,
    Value.cost_optional_string, Value.cost_bool, Value.cost_pos_int, EndpointId.text_cost_to_string,
    BlobHash.text_cost_to_hex, hknown, cost_timeout]
  generalize consent.offer.metadata.get META_MEMBERS = members
  omega

theorem cost_offer_received [Crypto] (human_bytes : UInt64 → String) (handle : String)
    («from» : EndpointId) (offer : OfferV1) :
    ((DropEvent.OfferReceived «from» offer).tell human_bytes handle).2.cost write_f64 =
      201 + text_cost handle + text_cost offer.name + number_cost offer.size.toNat +
        text_cost (human_bytes offer.size) + optional_cost text_cost offer.media_type := by
  have haround : (["drop", "from", "hash", "name", "size", "human_size", "media_type"].map
      fun key => text_cost key + 2).sum + 1 = 69 := rfl
  unfold DropEvent.tell
  refine (Value.cost_record write_f64 _ (by rfl) haround).trans ?_
  simp only [List.map_cons, List.map_nil, List.sum_cons, List.sum_nil, Value.cost_string,
    Value.cost_optional_string, Value.cost_pos_int, EndpointId.text_cost_to_string,
    BlobHash.text_cost_to_hex]
  omega

end Costs

end iroh_drop
