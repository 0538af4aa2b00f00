import RunnerKit.Book.Making
import RunnerKit.InboxPort.Listing

/-!
# The callers of an agent book

Any number of callers on one book: agent lookups of node entries
(`adapter/node_entry.rs`, `adapter/agent_port.rs`) and the sends and marks of
inboxes (`adapter/inbox_port/mod.rs`, `sending.rs`, `marking.rs`). Each section
under a lock is a step. A lookup that adds an agent holds the lock of the agents
from the look at its key until the agent is added, and hands over the
Registration in between; what the others hand over may come between the two.

What is handed over is the order in which the writer of the book is called. The
gate of a mark and the Finish that a mark may bring along are those of
`InboxPort/Waiting`; the mail contract refuses a mail before it comes here. A
fresh id is of version 7 and no id of the book.
-/

namespace RunnerKit.Book

open RunnerKit.Jobs RunnerKit.Queue RunnerKit.Lib
open RunnerKit.InboxPort (MailEntry)

/-! ## What a caller hands over -/

/-- `NodeEntry`, with the label of its inbox if it has one. -/
structure NodeEntry where
  node : String
  inbox : Option String
deriving DecidableEq

def NodeEntry.inboxKey (entry : NodeEntry) : Option AgentKey :=
  entry.inbox.map fun label => ⟨entry.node, label⟩

structure MailAttachment where
  name : String
  document : String
deriving DecidableEq

/-- The mail of the inbox contract. -/
structure NewMail where
  id : Uuid
  author : String
  source : Uuid
  subject : String
  body : String
  recipients : List Uuid
  cc : List Uuid
  attachments : List MailAttachment
deriving DecidableEq

def documentContentType : String := "text/plain"

def attachmentId (mailId : Uuid) (position : ℕ) : Uuid :=
  mailId ^^^ BitVec.ofNat 128 (position + 1)

def inputOf (agent : Uuid) (mail : NewMail) : NewMailInput where
  mailId := mail.id
  fromAddress := agent
  author := mail.author
  sourceConversation := mail.source
  subject := mail.subject
  body := mail.body
  recipients := mail.recipients
  cc := mail.cc
  attachments := mail.attachments.mapIdx fun position attachment =>
    { attachmentId := attachmentId mail.id position
      name := attachment.name
      contentType := documentContentType
      content := attachment.document }

/-! ## The state -/

/-- What a caller wants of the agent that it resolves. -/
inductive Task where
  | send (mail : NewMail)
  | markRead (entryId : Uuid)

/-- Where a caller is; the agent of a place behind `resolving` is the one it resolved. -/
inductive Caller where
  | looking (key : AgentKey) (hasInbox : Bool)
  /-- It holds the lock of the agents. -/
  | registering
  | resolving (inboxKey : Option AgentKey) (agent : Uuid) (task : Task)
  /-- `key_of` gave the key of the inbox. -/
  | named (agent : Uuid) (task : Task)
  | resolved (agent : Uuid) (task : Task)
  /-- The mail was not taken before. -/
  | sending (agent : Uuid) (mail : NewMail)
  | looked (agent entryId : Uuid) (listed : MailEntry)
  /-- The item was not marked before. -/
  | marking (agent entryId : Uuid) (listed : MailEntry)
  | answered (agentId : Uuid)
  | returned (result : Except Error Unit)

def Caller.ended : Caller → Bool
  | .answered _ | .returned _ => true
  | _ => false

/-- The lock of the agents while a new agent is registered under it. -/
structure Registering where
  caller : ℕ
  key : AgentKey
  agentId : Uuid
  hasInbox : Bool
  registration : ℕ

structure Sys where
  book : AgentBook
  lock : Option Registering
  inbox : InboxPort.Inbox
  takenMails : List Uuid
  callers : ℕ → Option Caller
  /-- What the lookups gave. -/
  answers : List (AgentKey × Uuid)

/-- The book was made, and nobody has called. -/
def Sys.new (book : AgentBook) : Sys where
  book := book
  lock := none
  inbox := .new
  takenMails := []
  callers := fun _ => none
  answers := []

inductive Event where
  | agentId (c : ℕ) (entry : NodeEntry) (label : String)
  | send (c : ℕ) (entry : NodeEntry) (agent : Uuid) (mail : NewMail)
  | markRead (c : ℕ) (entry : NodeEntry) (agent entryId : Uuid)
  | step (c : ℕ) (fresh : Uuid)
  /-- A listing records what it gives. -/
  | recordListed (agent entryId : Uuid) (entry : MailEntry)
  /-- A write of another kind is handed over. -/
  | handOver (write : Write)

/-! ## The parts of a book -/

def AgentBook.handOver (book : AgentBook) (write : Write) : AgentBook :=
  { book with handed := book.handed ++ [write] }

namespace Agents

def keyOf (agents : Agents) (agentId : Uuid) : Option AgentKey := agents.byId agentId

def slotOf (agents : Agents) (agentId : Uuid) : Option Slot :=
  (agents.byId agentId).bind agents.byKey

def holdsInbox (agents : Agents) (agentId : Uuid) : Bool :=
  (agents.slotOf agentId).any Slot.hasInbox

end Agents

/-- The writes that only the callers of a book hand over. -/
def Write.ofBook : Write → Bool
  | .registration _ _ | .mail _ | .marker _ _ _ _ => true
  | _ => false

def notHeld : Error := .invalidInput "the agent does not hold the inbox of this node"

/-! ## The steps -/

namespace Sys

variable (s : Sys)

def goTo (c : ℕ) (caller : Caller) : Sys :=
  { s with callers := Function.update s.callers c (some caller) }

def answer (c : ℕ) (key : AgentKey) (agentId : Uuid) : Sys :=
  { s.goTo c (.answered agentId) with answers := s.answers ++ [(key, agentId)] }

/-- `agent_for`, up to the hand-over if the key is new. -/
def agentFor (c : ℕ) (key : AgentKey) (hasInbox : Bool) (fresh : Uuid) : Option Sys :=
  match s.book.agents.find key with
  | some found => some (s.answer c key found.agentId)
  | none =>
      if isV7 fresh ∧ fresh ∉ s.book.listed.map BookedAgent.agentId then
        some { s.goTo c .registering with
          book := s.book.handOver (s.book.registration fresh hasInbox)
          lock := some ⟨c, key, fresh, hasInbox, s.book.handed.length⟩ }
      else none

/-- The agent is added, and the lock is free again. -/
def addAgent (r : Registering) : Sys :=
  { s.answer r.caller r.key r.agentId with
    book := { s.book with
      agents := (s.book.agents.add r.key r.agentId r.hasInbox r.registration).2 }
    lock := none }

/-- The first half of `resolve`. -/
def compareKey (c : ℕ) (inboxKey : Option AgentKey) (agent : Uuid) (task : Task) : Sys :=
  match inboxKey with
  | none => s.goTo c (.returned (.error notHeld))
  | some key =>
      if s.book.agents.keyOf agent = some key then s.goTo c (.named agent task)
      else s.goTo c (.returned (.error notHeld))

/-- The other half. -/
def compareInbox (c : ℕ) (agent : Uuid) (task : Task) : Sys :=
  if s.book.agents.holdsInbox agent then s.goTo c (.resolved agent task)
  else s.goTo c (.returned (.error notHeld))

def takeMail (c : ℕ) (agent : Uuid) (mail : NewMail) : Sys :=
  if mail.id ∈ s.takenMails then s.goTo c (.returned (.ok ()))
  else { s.goTo c (.sending agent mail) with takenMails := mail.id :: s.takenMails }

def lookListed (c : ℕ) (agent entryId : Uuid) : Sys :=
  match s.inbox.listed agent entryId with
  | none => s.goTo c (.returned (.ok ()))
  | some listed => s.goTo c (.looked agent entryId listed)

def mark (c : ℕ) (agent entryId : Uuid) (listed : MailEntry) : Sys :=
  if listed.itemId ∈ s.inbox.marked agent then s.goTo c (.returned (.ok ()))
  else { s.goTo c (.marking agent entryId listed) with
    inbox := s.inbox.mark agent listed.itemId }

def sendMail (c : ℕ) (agent : Uuid) (mail : NewMail) : Sys :=
  { s.goTo c (.returned (.ok ())) with book := s.book.handOver (.mail (inputOf agent mail)) }

def holdMarker (c : ℕ) (agent entryId : Uuid) (listed : MailEntry) : Sys :=
  { s.goTo c (.returned (.ok ())) with
    book := s.book.handOver (.marker s.book.core.runId listed.itemId agent entryId) }

/-- The sections of the agents wait for their lock. -/
def whenFree (next : Option Sys) : Option Sys := if s.lock.isNone then next else none

def stepOf (c : ℕ) (fresh : Uuid) : Caller → Option Sys
  | .looking key hasInbox => s.whenFree (s.agentFor c key hasInbox fresh)
  | .registering => s.lock.bind fun r => if r.caller = c then some (s.addAgent r) else none
  | .resolving inboxKey agent task => s.whenFree (some (s.compareKey c inboxKey agent task))
  | .named agent task => s.whenFree (some (s.compareInbox c agent task))
  | .resolved agent (.send mail) => some (s.takeMail c agent mail)
  | .resolved agent (.markRead entryId) => some (s.lookListed c agent entryId)
  | .sending agent mail => some (s.sendMail c agent mail)
  | .looked agent entryId listed => some (s.mark c agent entryId listed)
  | .marking agent entryId listed => some (s.holdMarker c agent entryId listed)
  | .answered _ | .returned _ => none

/-- A number is used for one call after the other. -/
def call (c : ℕ) (caller : Caller) : Option Sys :=
  if (s.callers c).all Caller.ended then some (s.goTo c caller) else none

def step : Event → Option Sys
  | .agentId c entry label =>
      s.call c (.looking ⟨entry.node, label⟩ (decide (entry.inbox = some label)))
  | .send c entry agent mail => s.call c (.resolving entry.inboxKey agent (.send mail))
  | .markRead c entry agent entryId =>
      s.call c (.resolving entry.inboxKey agent (.markRead entryId))
  | .step c fresh => (s.callers c).bind fun caller => s.stepOf c fresh caller
  | .recordListed agent entryId entry =>
      some { s with inbox := s.inbox.recordListed agent entryId entry }
  | .handOver write =>
      if Write.ofBook write then none else some { s with book := s.book.handOver write }

end Sys

def machine (book : AgentBook) : Machine Sys Event := ⟨Sys.new book, Sys.step⟩

end RunnerKit.Book
