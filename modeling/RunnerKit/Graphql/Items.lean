import RunnerKit.Graphql.Decode
import RunnerKit.Jobs.Inbox

/-!
# The unread items of a reply

`graphql/items.rs` and the run-level read of `graphql/unread.rs`. Each entry of the
reply is read alone. Of a mail only the id is kept in its item, after the whole of it
was read.
-/

namespace RunnerKit.Graphql

open RunnerKit.Jobs

structure Mail where
  mailId : Uuid
  «from» : Uuid
  author : String
  sourceConversation : Option Uuid
  subject : String
  body : String
  attachments : List MailAttachment

/-! ## Parts of an entry -/

/-- The white space of Unicode, which `trim` takes away. -/
def isWhitespace (ch : Char) : Bool :=
  let n := ch.toNat
  decide (9 ≤ n ∧ n ≤ 13) || decide (8192 ≤ n ∧ n ≤ 8202) ||
    [32, 133, 160, 5760, 8232, 8233, 8239, 8287, 12288].contains n

def author (entry : Value) : Except Error String := do
  let author ← string entry "author"
  if author.toList.all isWhitespace then .error (unreadable "author") else .ok author

def kind (noticeType : String) : CallNoticeKind :=
  if noticeType = "ACCEPTED" then .accepted
  else if noticeType = "QUEUE_POSITION" then .queuePosition
  else if noticeType = "STARTED" then .runStarted
  else if noticeType = "RUN_COMPLETED" then .runCompleted
  else if noticeType = "JOB_FAILED" then .jobFailed
  else if noticeType = "JOB_CANCELLED" then .jobCancelled
  else if noticeType = "REFUSED" then .refused
  else .unknown

def failureKind : Option String → Except Error (Option FailureKind)
  | none => .ok none
  | some word =>
      if word = "TRANSIENT" then .ok (some .transient)
      else if word = "PERMANENT" then .ok (some .permanent)
      else .error (unreadable "failureReport")

def report (value : Value) : Except Error FailureReportView :=
  if value.asObject.isNone then .error (unreadable "failureReport")
  else do
    let word ← optString value "kind"
    let kind ← failureKind word
    let reasonCode ← string value "reason_code"
    return ⟨kind, reasonCode, (value.get "params").getD .null,
      (value.get "diagnostic").getD .null⟩

def optional {α : Type} (entry : Value) (key : String) (read : Value → Except Error α) :
    Except Error (Option α) :=
  match entry.get key with
  | none | some .null => .ok none
  | some found => (read found).map some

namespace Contract

variable (c : Contract)

def directMail (entry : Value) : Except Error Mail := do
  let mailId ← c.uuid entry "mailId"
  let sender ← c.uuid entry "from"
  let author ← author entry
  let sourceConversation ← c.optUuid entry "sourceConversationId"
  let subject ← string entry "subject"
  let body ← string entry "body"
  let attachments ← c.mailAttachments entry "attachments"
  return ⟨mailId, sender, author, sourceConversation, subject, body, attachments⟩

/-- The child job of a notice: required when the kind is known and not a refusal. -/
def childJobId (entry : Value) (kind : CallNoticeKind) : Except Error (Option Uuid) :=
  if kind ≠ .unknown ∧ kind ≠ .refused then (c.uuid entry "jobId").map some
  else c.optUuid entry "jobId"

def notice (entry : Value) (itemId : Uuid) (address : Option Uuid) :
    Except Error CallNotice := do
  let noticeType ← string entry "noticeType"
  let kind := kind noticeType
  let childJobId ← c.childJobId entry kind
  let position ← optInteger entry "position"
  let message ← optString entry "message"
  let report ← optional entry "failureReport" report
  let inlined ← optional entry "answer" answer
  let resultRef ← c.optUuid entry "resultId"
  return {
    itemId := itemId, address := address, kind := kind
    noticeType := if kind = .unknown then some noticeType else none
    childJobId := childJobId, position := position, message := message
    report := report, inline := inlined, resultRef := resultRef }

/-! ## An entry -/

def item (entry : Value) : Except Error UnreadItem := do
  let itemId ← c.uuid entry "itemId"
  let address ← c.optUuid entry "address"
  let itemKind ← string entry "itemKind"
  if itemKind = "MAIL" then do
    let mail ← c.directMail entry
    return .directMail itemId address mail.mailId
  else if itemKind = "CC_NOTICE" then do
    let mailId ← c.uuid entry "mailId"
    let subject ← string entry "subject"
    return .ccNotice itemId address mailId subject
  else if itemKind = "NOTICE" then do
    let notice ← c.notice entry itemId address
    return .callNotice notice
  else if itemKind = "MAIL_NOTICE" then do
    let mailId ← c.optUuid entry "mailId"
    let text ← string entry "message"
    return .mailNotice itemId address mailId text
  else do
    let message ← optString entry "message"
    return .unknown itemId address itemKind message

/-- The child job that an entry names, whatever else of it can be read. -/
def namedChild (entry : Value) : Option Uuid :=
  if (entry.get "itemKind").bind Value.asStr = some "NOTICE" then
    (c.uuid entry "jobId").toOption
  else none

def read (entry : Value) : Read :=
  match c.item entry with
  | .ok found => .item found
  | .error error =>
      .bad ⟨(c.uuid entry "itemId").toOption, c.namedChild entry, error⟩

/-! ## The run-level read -/

/-- The entries of a reply. -/
def entries (data : Except Error Value) : Except Error (List Value) := do
  let root ← call .read c.unreadRoot data
  list root "items"

def unreadEach (data : Except Error Value) : Except Error (List Read) :=
  (c.entries data).map fun entries => entries.map c.read

/-! ## What a notice names -/

variable {c}

theorem childJobId_ok {entry : Value} {kind : CallNoticeKind} {child : Option Uuid}
    (h : c.childJobId entry kind = .ok child) (hkind : kind ≠ .unknown ∧ kind ≠ .refused) :
    ∃ id, c.uuid entry "jobId" = .ok id ∧ child = some id := by
  rw [childJobId, if_pos hkind] at h
  cases hid : c.uuid entry "jobId" with
  | error error =>
      rw [hid] at h
      cases h
  | ok id =>
      rw [hid] at h
      cases h
      exact ⟨id, rfl, rfl⟩

theorem notice_ok {entry : Value} {itemId : Uuid} {address : Option Uuid} {found : CallNotice}
    (h : c.notice entry itemId address = .ok found) :
    found.itemId = itemId ∧
      (found.kind ≠ .unknown ∧ found.kind ≠ .refused →
        ∃ id, c.uuid entry "jobId" = .ok id ∧ found.childJobId = some id) := by
  obtain ⟨noticeType, -, h⟩ := bind_ok h
  obtain ⟨child, hchild, h⟩ := bind_ok h
  obtain ⟨position, -, h⟩ := bind_ok h
  obtain ⟨message, -, h⟩ := bind_ok h
  obtain ⟨report, -, h⟩ := bind_ok h
  obtain ⟨inlined, -, h⟩ := bind_ok h
  obtain ⟨resultRef, -, h⟩ := bind_ok h
  cases h
  exact ⟨rfl, fun hkind => childJobId_ok hchild hkind⟩

/-- An item has the id of its entry, and a call notice comes from a notice. -/
theorem item_ok {entry : Value} {found : UnreadItem} (h : c.item entry = .ok found) :
    c.uuid entry "itemId" = .ok found.itemId ∧
      ∀ notice, found = .callNotice notice →
        (entry.get "itemKind").bind Value.asStr = some "NOTICE" ∧
          ∃ address, c.notice entry notice.itemId address = .ok notice := by
  obtain ⟨itemId, hid, h⟩ := bind_ok h
  obtain ⟨address, -, h⟩ := bind_ok h
  obtain ⟨itemKind, hkind, h⟩ := bind_ok h
  split at h
  · obtain ⟨mail, -, h⟩ := bind_ok h
    cases h
    exact ⟨hid, fun notice h => by cases h⟩
  · split at h
    · obtain ⟨mailId, -, h⟩ := bind_ok h
      obtain ⟨subject, -, h⟩ := bind_ok h
      cases h
      exact ⟨hid, fun notice h => by cases h⟩
    · split at h
      · rename_i hnotice
        obtain ⟨found, hfound, h⟩ := bind_ok h
        cases h
        have hitem : found.itemId = itemId := (notice_ok hfound).1
        refine ⟨?_, ?_⟩
        · rw [hid, ← hitem]
          rfl
        · intro notice h
          cases h
          rw [← hnotice]
          exact ⟨string_ok hkind, address, hitem ▸ hfound⟩
      · split at h
        · obtain ⟨mailId, -, h⟩ := bind_ok h
          obtain ⟨text, -, h⟩ := bind_ok h
          cases h
          exact ⟨hid, fun notice h => by cases h⟩
        · obtain ⟨message, -, h⟩ := bind_ok h
          cases h
          exact ⟨hid, fun notice h => by cases h⟩

end Contract

end RunnerKit.Graphql
