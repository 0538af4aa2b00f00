import RunnerKit.Jobs.Text
import RunnerKit.Jobs.Value
import RunnerKit.Threads.Wire

/-!
# The items of a thread queue

`queue/item.rs` and `StoredItem` of `queue/store.rs`. An item is stored as the JSON text
of its derived form: a struct is an object of its fields, a variant with data is an object
with its name as the one member. `ItemJson` stands for the JSON library and for the JSON
forms of the contract types; a command that creates a thread is never queued, and has no
form here.
-/

namespace RunnerKit.Threads

open Jobs (Uuid Value)

/-! ## Threads and items -/

/-- The id of a thread is a UUIDv7. -/
def IsV7 (id : Uuid) : Prop := id.extractLsb' 76 4 = 7#4 ∧ id.extractLsb' 62 2 = 2#2

instance (id : Uuid) : Decidable (IsV7 id) :=
  inferInstanceAs (Decidable (id.extractLsb' 76 4 = 7#4 ∧ id.extractLsb' 62 2 = 2#2))

abbrev ThreadRef := {id : Uuid // IsV7 id}

def ThreadRef.fromUuid (id : Uuid) : Option ThreadRef :=
  if h : IsV7 id then some ⟨id, h⟩ else none

inductive ItemKind where
  | wholeMessage | opening | chunk | closing
deriving DecidableEq

inductive Payload (β : Type) where
  | command (body : CommandBody β)
  | chunk (seq : UInt64) (chunk : Chunk β)

structure Item (β : Type) where
  id : Uuid
  thread : Uuid
  agent : Uuid
  message : Uuid
  entries : List Uuid
  kind : ItemKind
  payload : Payload β

structure StoredItem where
  thread : ThreadRef
  id : Uuid
  bytes : List UInt8
deriving DecidableEq

/-! ## The JSON form -/

structure ItemJson (β : Type) where
  toVec : Value → Except String (List UInt8)
  fromSlice : List UInt8 → Except String Value
  /-- What is said of a value that is not the form of an item. -/
  misfit : Value → String
  parseStr : String → Option Uuid
  storeValue : StoreMessage β → Value
  storeOf : Value → Option (StoreMessage β)
  completeValue : CompleteMessage β → Value
  completeOf : Value → Option (CompleteMessage β)
  failValue : FailMessage β → Value
  failOf : Value → Option (FailMessage β)
  chunkValue : Chunk β → Value
  chunkOf : Value → Option (Chunk β)

/-- What is assumed of them: each form reads back. -/
structure ItemJson.Inverse {β : Type} (json : ItemJson β) : Prop where
  text : ∀ value bytes, json.toVec value = .ok bytes → json.fromSlice bytes = .ok value
  parse : ∀ id : Uuid, json.parseStr id.hyphenated = some id
  store : ∀ message, json.storeOf (json.storeValue message) = some message
  complete : ∀ message, json.completeOf (json.completeValue message) = some message
  fail : ∀ message, json.failOf (json.failValue message) = some message
  chunk : ∀ chunk, json.chunkOf (json.chunkValue chunk) = some chunk

def ItemKind.name : ItemKind → String
  | .wholeMessage => "WholeMessage"
  | .opening => "Opening"
  | .chunk => "Chunk"
  | .closing => "Closing"

def ItemKind.ofName (name : String) : Option ItemKind :=
  [ItemKind.wholeMessage, .opening, .chunk, .closing].find? fun kind => kind.name = name

/-- The variant of an enum and its data. -/
def variantOf : Value → Option (String × Value)
  | .object [(name, value)] => some (name, value)
  | _ => none

def asU64 : Value → Option UInt64
  | .number text => (text.toNat?.filter (· < 2 ^ 64)).map UInt64.ofNat
  | _ => none

namespace ItemJson

variable {β : Type} (json : ItemJson β)

def bodyValue : CommandBody β → Value
  | .store message => .object [("Store", json.storeValue message)]
  | .complete message => .object [("Complete", json.completeValue message)]
  | .fail message => .object [("Fail", json.failValue message)]

def bodyOf (value : Value) : Option (CommandBody β) := do
  match ← variantOf value with
  | ("Store", value) => (json.storeOf value).map .store
  | ("Complete", value) => (json.completeOf value).map .complete
  | ("Fail", value) => (json.failOf value).map .fail
  | _ => none

def payloadValue : Payload β → Value
  | .command body => .object [("Command", json.bodyValue body)]
  | .chunk seq chunk =>
      .object [("Chunk", .object [("seq", .number (Nat.repr seq.toNat)),
        ("chunk", json.chunkValue chunk)])]

def payloadOf (value : Value) : Option (Payload β) := do
  match ← variantOf value with
  | ("Command", value) => (json.bodyOf value).map .command
  | ("Chunk", value) =>
      match ← value.structFields ["seq", "chunk"] with
      | [seq, chunk] =>
          let seq ← asU64 seq
          let chunk ← json.chunkOf chunk
          return .chunk seq chunk
      | _ => none
  | _ => none

def itemValue (item : Item β) : Value :=
  .object [("id", .string item.id.hyphenated), ("thread", .string item.thread.hyphenated),
    ("agent", .string item.agent.hyphenated), ("message", .string item.message.hyphenated),
    ("entries", .array (item.entries.map fun entry => .string entry.hyphenated)),
    ("kind", .string item.kind.name), ("payload", json.payloadValue item.payload)]

def uuidOf (value : Value) : Option Uuid := value.asStr.bind json.parseStr

def itemOf (value : Value) : Option (Item β) := do
  match ← value.structFields ["id", "thread", "agent", "message", "entries", "kind", "payload"]
  with
  | [id, thread, agent, message, entries, kind, payload] =>
      let id ← json.uuidOf id
      let thread ← json.uuidOf thread
      let agent ← json.uuidOf agent
      let message ← json.uuidOf message
      let entries ← entries.asArray
      let entries ← entries.mapM json.uuidOf
      let kind ← kind.asStr.bind ItemKind.ofName
      let payload ← json.payloadOf payload
      return ⟨id, thread, agent, message, entries, kind, payload⟩
  | _ => none

end ItemJson

namespace Item

variable {β : Type} (json : ItemJson β)

def stored (item : Item β) (thread : ThreadRef) : Except Error StoredItem :=
  match json.toVec (json.itemValue item) with
  | .error text => .error (.store text)
  | .ok bytes => .ok ⟨thread, item.id, bytes⟩

def read (kept : StoredItem) : Except Error (Item β) :=
  match json.fromSlice kept.bytes with
  | .error text => .error (.store ("a kept item cannot be read: " ++ text))
  | .ok value =>
      match json.itemOf value with
      | none => .error (.store ("a kept item cannot be read: " ++ json.misfit value))
      | some item =>
          match ThreadRef.fromUuid item.thread with
          | none => .error (.store "a kept item names a thread that is not a UUIDv7")
          | some thread =>
              if thread ≠ kept.thread ∨ item.id ≠ kept.id then
                .error
                  (.store "a kept item does not match the thread or id it was kept under")
              else .ok item

end Item

/-! ## The round trip -/

variable {β : Type} {json : ItemJson β}

@[simp] theorem ItemKind.ofName_name (kind : ItemKind) :
    ItemKind.ofName kind.name = some kind := by
  cases kind <;> rfl

@[simp] theorem asU64_number (n : UInt64) : asU64 (.number (Nat.repr n.toNat)) = some n := by
  have hlt : n.toNat < 2 ^ 64 := n.toNat_lt
  simpa [asU64, Nat.toNat?_repr] using hlt

namespace ItemJson.Inverse

theorem body (h : json.Inverse) (body : CommandBody β) :
    json.bodyOf (json.bodyValue body) = some body := by
  cases body with
  | store message => simp [bodyOf, bodyValue, variantOf, h.store]
  | complete message => simp [bodyOf, bodyValue, variantOf, h.complete]
  | fail message => simp [bodyOf, bodyValue, variantOf, h.fail]

theorem payload (h : json.Inverse) (payload : Payload β) :
    json.payloadOf (json.payloadValue payload) = some payload := by
  cases payload with
  | command body => simp [payloadOf, payloadValue, variantOf, h.body]
  | chunk seq chunk =>
      simp [payloadOf, payloadValue, variantOf, Value.structFields, Value.get, h.chunk]

theorem uuid (h : json.Inverse) (id : Uuid) :
    json.uuidOf (.string id.hyphenated) = some id := by
  simp [uuidOf, Value.asStr, h.parse]

theorem uuids (h : json.Inverse) (ids : List Uuid) :
    (ids.map fun id => Value.string id.hyphenated).mapM json.uuidOf = some ids := by
  induction ids with
  | nil => rfl
  | cons id ids ih => simp [List.mapM_cons, h.uuid, ih]

theorem item (h : json.Inverse) (item : Item β) :
    json.itemOf (json.itemValue item) = some item := by
  simp [itemOf, itemValue, Value.structFields, Value.get, h.uuid, h.uuids, h.payload,
    Value.asArray, Value.asStr]

end ItemJson.Inverse

@[simp] theorem ThreadRef.fromUuid_val (thread : ThreadRef) :
    ThreadRef.fromUuid thread.val = some thread := by
  simp [fromUuid, thread.property]

/-- An item that is stored under its thread reads back. -/
theorem Item.read_stored (h : json.Inverse) {item : Item β} {thread : ThreadRef}
    {kept : StoredItem} (hthread : item.thread = thread.val)
    (hstored : item.stored json thread = .ok kept) :
    kept.thread = thread ∧ kept.id = item.id ∧ Item.read json kept = .ok item := by
  unfold Item.stored at hstored
  split at hstored
  · cases hstored
  · rename_i bytes hbytes
    cases hstored
    refine ⟨rfl, rfl, ?_⟩
    simp only [Item.read, h.text _ _ hbytes, h.item, hthread, ThreadRef.fromUuid_val]
    simp

/-! ## Items with JSON values

Where the JSON of the contract is kept as a value, the forms can be written out. The texts
are those of a list of items. -/

def optionalValue : Option Uuid → Value
  | none => .null
  | some id => .string id.hyphenated

def idOf (value : Value) : Option Uuid := value.asStr.map Jobs.readDigits

def optionalOf : Value → Option (Option Uuid)
  | .null => some none
  | value => (idOf value).map some

def deliveryValue : AiDelivery Value → Value
  | .streaming => .string "Streaming"
  | .completed turn => .object [("Completed", turn)]

def deliveryOf : Value → Option (AiDelivery Value)
  | .string "Streaming" => some .streaming
  | .object [("Completed", turn)] => some (.completed turn)
  | _ => none

def storeValue (message : StoreMessage Value) : Value :=
  .object [("message_id", .string message.messageId.hyphenated),
    ("thread_id", .string message.threadId.hyphenated),
    ("parent_message_id", optionalValue message.parentMessageId),
    ("job_id", optionalValue message.jobId),
    ("acting_user_id", optionalValue message.actingUserId),
    ("impersonator_id", optionalValue message.impersonatorId),
    ("agent_id", .string message.message.agentId.hyphenated),
    ("author_name", .string message.message.authorName),
    ("delivery", deliveryValue message.message.delivery)]

def storeOf (value : Value) : Option (StoreMessage Value) := do
  match ← value.structFields ["message_id", "thread_id", "parent_message_id", "job_id",
    "acting_user_id", "impersonator_id", "agent_id", "author_name", "delivery"] with
  | [message, thread, parent, job, acting, impersonator, agent, author, delivery] =>
      let message ← idOf message
      let thread ← idOf thread
      let parent ← optionalOf parent
      let job ← optionalOf job
      let acting ← optionalOf acting
      let impersonator ← optionalOf impersonator
      let agent ← idOf agent
      let author ← author.asStr
      let delivery ← deliveryOf delivery
      return ⟨message, thread, parent, job, acting, impersonator, ⟨agent, author, delivery⟩⟩
  | _ => none

def sealValue (streamSeal : StreamSeal) : Value :=
  .object [("last_seq", .number (Nat.repr streamSeal.lastSeq)), ("hash", .string streamSeal.hash)]

def sealRead (value : Value) : Option StreamSeal := do
  match ← value.structFields ["last_seq", "hash"] with
  | [.number lastSeq, hash] =>
      let lastSeq ← lastSeq.toNat?
      let hash ← hash.asStr
      return ⟨lastSeq, hash⟩
  | _ => none

/-- The form of a completion and of a failure, whose seal may be missing. -/
def closingValue (message thread : Uuid) (streamSeal : Option StreamSeal) (closure : Value)
    (acting : Option Uuid) : Value :=
  .object [("message_id", .string message.hyphenated), ("thread_id", .string thread.hyphenated),
    ("stream_seal", streamSeal.elim .null sealValue), ("closure", closure),
    ("acting_user_id", optionalValue acting)]

def closingOf (value : Value) : Option (FailMessage Value) := do
  match ← value.structFields ["message_id", "thread_id", "stream_seal", "closure",
    "acting_user_id"] with
  | [message, thread, streamSeal, closure, acting] =>
      let message ← idOf message
      let thread ← idOf thread
      let streamSeal ← if streamSeal.isNull then some none else (sealRead streamSeal).map some
      let acting ← optionalOf acting
      return ⟨message, thread, streamSeal, closure, acting⟩
  | _ => none

def chunkValue : Chunk Value → Value
  | .delta json => .object [("Delta", json)]
  | .entry json => .object [("Entry", json)]
  | Chunk.annotation after json => .object [("Annotation", .array [.string after.hyphenated, json])]
  | .keepalive => .string "Keepalive"

def chunkOf : Value → Option (Chunk Value)
  | .object [("Delta", json)] => some (.delta json)
  | .object [("Entry", json)] => some (.entry json)
  | .object [("Annotation", .array [after, json])] =>
      (idOf after).map fun after => Chunk.annotation after json
  | .string "Keepalive" => some .keepalive
  | _ => none

def plainJson : ItemJson Value where
  toVec value := .ok value.bytes
  fromSlice _ := .error "expected value"
  misfit _ := "no item"
  parseStr text := some (Jobs.readDigits text)
  storeValue := storeValue
  storeOf := storeOf
  completeValue message :=
    closingValue message.messageId message.threadId (some message.streamSeal) message.closure
      message.actingUserId
  completeOf value := do
    let message ← closingOf value
    let streamSeal ← message.streamSeal
    return ⟨message.messageId, message.threadId, streamSeal, message.closure, message.actingUserId⟩
  failValue message :=
    closingValue message.messageId message.threadId message.streamSeal message.closure
      message.actingUserId
  failOf := closingOf
  chunkValue := chunkValue
  chunkOf := chunkOf

/-- The store of these items: no other one is written. -/
def knownJson (known : List (Item Value)) : ItemJson Value :=
  { plainJson with
    toVec := fun value =>
      if known.any fun item => (plainJson.itemValue item).same value then .ok value.bytes
      else .error "an unknown item"
    fromSlice := fun text =>
      match known.find? fun item => (plainJson.itemValue item).bytes = text with
      | some item => .ok (plainJson.itemValue item)
      | none => .error "expected value" }

@[simp] theorem idOf_string (id : Uuid) : idOf (.string id.hyphenated) = some id := by
  simp [idOf, Value.asStr, Jobs.readDigits_hyphenated]

@[simp] theorem optionalOf_optionalValue (id : Option Uuid) :
    optionalOf (optionalValue id) = some id := by
  cases id <;> simp [optionalOf, optionalValue]

@[simp] theorem deliveryOf_deliveryValue (delivery : AiDelivery Value) :
    deliveryOf (deliveryValue delivery) = some delivery := by
  cases delivery <;> rfl

@[simp] theorem storeOf_storeValue (message : StoreMessage Value) :
    storeOf (storeValue message) = some message := by
  simp [storeOf, storeValue, Value.structFields, Value.get, Value.asStr]

@[simp] theorem sealRead_sealValue (streamSeal : StreamSeal) :
    sealRead (sealValue streamSeal) = some streamSeal := by
  simp [sealRead, sealValue, Value.structFields, Value.get, Value.asStr, Nat.toNat?_repr]

@[simp] theorem closingOf_closingValue (message thread : Uuid) (streamSeal : Option StreamSeal)
    (closure : Value) (acting : Option Uuid) :
    closingOf (closingValue message thread streamSeal closure acting) =
      some ⟨message, thread, streamSeal, closure, acting⟩ := by
  cases streamSeal with
  | none => simp [closingOf, closingValue, Value.structFields, Value.get, Value.isNull]
  | some streamSeal =>
      have hsome : (sealValue streamSeal).isNull = false := rfl
      simp [closingOf, closingValue, Value.structFields, Value.get, hsome]

@[simp] theorem chunkOf_chunkValue (chunk : Chunk Value) :
    chunkOf (chunkValue chunk) = some chunk := by
  cases chunk <;> simp [chunkOf, chunkValue]

theorem knownJson_inverse {known : List (Item Value)}
    (hknown : (known.map fun item => (plainJson.itemValue item).bytes).Nodup) :
    (knownJson known).Inverse where
  text value bytes hbytes := by
    simp only [knownJson] at hbytes
    split at hbytes
    · rename_i hany
      cases hbytes
      obtain ⟨item, hmem, hsame⟩ := List.any_eq_true.mp hany
      obtain rfl := Value.same_eq hsame
      cases hfind : known.find? fun other =>
          (plainJson.itemValue other).bytes = (plainJson.itemValue item).bytes with
      | none => simpa using List.find?_eq_none.mp hfind item hmem
      | some other =>
          -- no other item of the list has this text
          have htext := List.find?_some hfind
          obtain rfl : other = item :=
            List.inj_on_of_nodup_map hknown (List.mem_of_find?_eq_some hfind) hmem
              (by simpa using htext)
          simp only [knownJson, hfind]
    · cases hbytes
  parse id := congrArg some (Jobs.readDigits_hyphenated id)
  store := storeOf_storeValue
  complete message := by simp [knownJson, plainJson]
  fail message := by simp [knownJson, plainJson]
  chunk := chunkOf_chunkValue

end RunnerKit.Threads
