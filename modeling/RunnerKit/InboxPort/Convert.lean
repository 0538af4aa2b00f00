import RunnerKit.Graphql.Items
import RunnerKit.InboxPort.Listing
import RunnerKit.Jobs.Text

/-!
# The items of a page

`adapter/inbox_port/convert.rs` and `notice_text.rs`, beside the calls of `items`. The
items of a page are converted together, and each is a step of its own: a direct mail
whose recipients the book does not keep asks jobs for them. The first that fails fails
the call, and the others are dropped.

The checks of the contract types are not in this repository; a `Port` stands for them.
-/

namespace RunnerKit.InboxPort

open RunnerKit.Jobs RunnerKit.Lib RunnerKit.Graphql

structure Recipients where
  «to» : List Uuid
  cc : List Uuid

/-- What the constructors of the contract accept, and the mail that came with a direct
mail. -/
structure Port where
  isV7 : Uuid → Bool
  isBlank : String → Bool
  isEntry : Uuid → String → Bool
  mailOf : Uuid → Mail

inductive InboxItem where
  | to (mailId sender : Uuid) (author : String) (source : Uuid) (recipients : Recipients)
      (subject body : String) (attachmentNames : List String)
  | cc (mailId : Uuid) (subject : String)
  | entry (entryId : Uuid) (text : String)

def InboxItem.id : InboxItem → Uuid
  | .to mailId .. | .cc mailId _ | .entry mailId _ => mailId

/-! ## The texts of notices -/

def callName (notice : CallNotice) : String :=
  match notice.childJobId with
  | some job => "The call " ++ Uuid.hyphenated job
  | none => "A call"

def resultLines (notice : CallNotice) : List String :=
  (match notice.inline with
    | some content =>
        ("Result: " ++ content.message) ::
          content.attachments.map fun attachment =>
            "Result attachment: " ++ attachment.name
    | none => []) ++
  (match notice.resultRef with
    | some reference =>
        ["The result is kept by jobs under the reference " ++ Uuid.hyphenated reference ++ "."]
    | none => [])

def failureLines (notice : CallNotice) : List String :=
  notice.report.toList.map fun report => "Reason code: " ++ report.reasonCode

def noticeLine (notice : CallNotice) : String :=
  let name := callName notice
  match notice.kind with
  | .accepted => name ++ " was accepted."
  | .queuePosition =>
      match notice.position with
      | some position => name ++ " waits at position " ++ toString position ++ " in the queue."
      | none => name ++ " waits in the queue."
  | .runStarted => name ++ " started."
  | .runCompleted => name ++ " completed."
  | .jobFailed => name ++ " failed."
  | .jobCancelled => name ++ " was cancelled."
  | .refused => name ++ " was refused."
  | .unknown =>
      match notice.noticeType with
      | some noticeType => name ++ " has a notice of the type " ++ noticeType ++ "."
      | none => name ++ " has a notice of an unknown type."

def callNoticeText (notice : CallNotice) : String :=
  "\n".intercalate (noticeLine notice :: notice.message.toList ++
    match notice.kind with
    | .runCompleted => resultLines notice
    | .jobFailed => failureLines notice
    | _ => [])

def unknownItemText (itemKind : String) (message : Option String) : String :=
  "\n".intercalate (("An item of the kind " ++ itemKind ++ " arrived.") :: message.toList)

/-! ## One item -/

def cannot (what : String) : Error :=
  .unreadable ("an unread item cannot be made into an item of the inbox port: " ++ what)

def check (ok : Bool) (what : String) : Except Error Unit :=
  if ok then .ok () else .error (cannot what)

namespace Port

variable (port : Port)

def entryId (id : Uuid) : Except Error Uuid := do
  check (port.isV7 id) "an id is not a UUIDv7"
  return id

def agentId (id : Uuid) : Except Error Uuid := do
  check (port.isV7 id) "an agent id is not a UUIDv7"
  return id

def mailId (id : Uuid) : Except Error Uuid := do
  check (port.isV7 id) "a mail id is not a UUIDv7"
  return id

def noticeEntry (id : Uuid) (text : String) : Except Error InboxItem := do
  let id ← port.entryId id
  check (!port.isBlank text) "a blank notice"
  check (port.isEntry id text) "a notice is not an entry of the inbox"
  return .entry id text

def mailTo (mail : Mail) (agent : Uuid) (recipients : Recipients) : Except Error InboxItem := do
  check (recipients.to.contains agent) "a direct mail does not list the agent in to"
  let source ← mail.sourceConversation.elim
    (.error (cannot "a direct mail has no source conversation")) .ok
  let id ← port.mailId mail.mailId
  let sender ← port.agentId mail.from
  check (!port.isBlank mail.author) "a blank author name"
  check (port.isV7 source) "a source conversation is not a UUIDv7"
  let toIds ← recipients.to.mapM port.agentId
  let ccIds ← recipients.cc.mapM port.agentId
  return .to id sender mail.author source ⟨toIds, ccIds⟩ mail.subject mail.body
    (mail.attachments.map MailAttachment.name)

/-- `convert`, with the recipients if the item is a direct mail. -/
def convertItem (agent : Uuid) (recipients : Recipients) :
    UnreadItem → Except Error InboxItem
  | .directMail itemId _ _ => port.mailTo (port.mailOf itemId) agent recipients
  | .ccNotice _ _ mail subject => do
      let id ← port.mailId mail
      return .cc id subject
  | .callNotice notice => port.noticeEntry notice.itemId (callNoticeText notice)
  | .mailNotice itemId _ _ text => port.noticeEntry itemId text
  | .unknown itemId _ itemKind message =>
      port.noticeEntry itemId (unknownItemText itemKind message)

end Port

/-- The mail whose recipients an item needs. -/
def mailOfItem : UnreadItem → Option Uuid
  | .directMail _ _ mailId => some mailId
  | _ => none

/-! ## The calls of `items` with their conversions -/

inductive Conversion where
  | waiting
  | asking (mail : Uuid)
  | made (item : InboxItem)

abbrev Answer := Except Error (List InboxItem × Option Uuid)

/-- `conversions` are the items of the page that a call converts. -/
structure Converting where
  sys : Sys
  recipients : Uuid → Option Recipients
  conversions : ℕ → List (UnreadItem × Conversion)
  answers : List (ℕ × Answer)

inductive ConvertEvent where
  /-- A step of a call up to its conversions or behind them, or one of `mark_read`. -/
  | base (event : Event)
  /-- The book is not found, it does not serve the agent, or the cursor is not an id. -/
  | rejected (listing : ℕ) (error : Error)
  | look (listing i : ℕ)
  | answered (listing i : ℕ) (result : Except Error Recipients)
  | joined (listing : ℕ)

namespace Converting

variable (port : Port)

def setConversions (f : Converting) (c : ℕ) (items : List (UnreadItem × Conversion)) :
    Converting :=
  { f with conversions := Function.update f.conversions c items }

def answer (f : Converting) (c : ℕ) (result : Answer) : Converting :=
  { f.setConversions c [] with answers := f.answers ++ [(c, result)] }

def madeItems (f : Converting) (c : ℕ) : List InboxItem :=
  (f.conversions c).filterMap fun
    | (_, .made item) => some item
    | _ => none

/-- The call has come to the conversions, or it has given its page. -/
def arrive (f : Converting) (c : ℕ) : Converting :=
  match f.sys.listings c with
  | none => f
  | some l =>
      match l.place with
      | .converting cut => f.setConversions c (cut.page.map fun item => (item, .waiting))
      | .idle => f.answer c (.ok (f.madeItems c, if l.finished then none else l.after))
      | _ => f

def baseStep (f : Converting) : Event → Option Converting
  | .converted _ _ => none
  | .step c => (f.sys.step (.step c)).map fun sys => { f with sys := sys }.arrive c
  | .readDone c (.error error) =>
      (f.sys.step (.readDone c (.error error))).map fun sys =>
        { f with sys := sys }.answer c (.error error)
  | .drop c =>
      (f.sys.step (.drop c)).map fun sys => { f with sys := sys }.setConversions c []
  | event => (f.sys.step event).map fun sys => { f with sys := sys }

def isIdle (f : Converting) (c : ℕ) : Bool :=
  match f.sys.listings c with
  | some l =>
      match l.place with
      | .idle => !l.finished
      | _ => false
  | none => false

/-- The call fails, with its other conversions. -/
def fail (f : Converting) (c : ℕ) (error : Error) : Option Converting :=
  (f.sys.step (.converted c false)).map fun sys =>
    { f with sys := sys }.answer c (.error error)

/-- One conversion has ended. -/
def settle (f : Converting) (c i : ℕ) (item : UnreadItem) :
    Except Error InboxItem → Option Converting
  | .ok made => some (f.setConversions c ((f.conversions c).set i (item, .made made)))
  | .error error => f.fail c error

def agentOf (f : Converting) (c : ℕ) : Uuid := (f.sys.listings c).elim 0 Listing.agent

/-- The first poll of a conversion. -/
def look (f : Converting) (c i : ℕ) (item : UnreadItem) : Option Converting :=
  match mailOfItem item with
  | none => f.settle c i item (port.convertItem (f.agentOf c) ⟨[], []⟩ item)
  | some mail =>
      match f.recipients mail with
      | some kept => f.settle c i item (port.convertItem (f.agentOf c) kept item)
      | none => some (f.setConversions c ((f.conversions c).set i (item, .asking mail)))

def keepRecipients (f : Converting) (mail : Uuid) (recipients : Recipients) : Converting :=
  { f with recipients := Function.update f.recipients mail (some recipients) }

/-- The answer of jobs to `read_mail`. -/
def answered (f : Converting) (c i : ℕ) (item : UnreadItem) (mail : Uuid) :
    Except Error Recipients → Option Converting
  | .ok recipients =>
      (f.keepRecipients mail recipients).settle c i item
        (port.convertItem (f.agentOf c) recipients item)
  | .error error => f.fail c error

def isMade : UnreadItem × Conversion → Bool
  | (_, .made _) => true
  | _ => false

def step (f : Converting) : ConvertEvent → Option Converting
  | .base event => f.baseStep event
  | .rejected c error => if f.isIdle c then some (f.answer c (.error error)) else none
  | .look c i =>
      match (f.conversions c)[i]? with
      | some (item, .waiting) => f.look port c i item
      | _ => none
  | .answered c i result =>
      match (f.conversions c)[i]? with
      | some (item, .asking mail) => f.answered port c i item mail result
      | _ => none
  | .joined c =>
      if (f.conversions c).all isMade then
        (f.sys.step (.converted c true)).map fun sys => { f with sys := sys }
      else none

def machine (f : Converting) : Machine Converting ConvertEvent := ⟨f, step port⟩

end Converting

end RunnerKit.InboxPort
