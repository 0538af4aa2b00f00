import RunnerKit.Jobs.Inbox
import RunnerKit.Lib.Machine
import RunnerKit.Lib.Paging

/-!
# The listing of an inbox

`adapter/inbox_port/listing.rs` and `marking.rs`, with the parts of
`book/inbox.rs` they use. A listing is a caller that follows the cursors; each
call of `items` reads, cuts a page, converts it and records what it gave. The
lock sections and the answers of jobs are steps of their own, so calls of other
listings and of `mark_read` may come between any two of them.

Two answers are left to the environment: an unread read, and whether a page can
be converted. The gate and the marker that `mark_read` hands over are those of
the write queue.
-/

namespace RunnerKit.InboxPort

open RunnerKit.Jobs RunnerKit.Lib RunnerKit.Lib.Paging

/-! ## The inbox of a book -/

inductive EntryKind where
  | directMail | ccNotice
  | callNotice (kind : CallNoticeKind)
  | mailNotice | unknown
deriving DecidableEq

structure MailEntry where
  itemId : Uuid
  childJobId : Option Uuid
  kind : EntryKind
deriving DecidableEq

/-- The id under which an item is given, and what the book keeps of it. -/
def convert : UnreadItem → Uuid × MailEntry
  | .directMail itemId _ mailId => (mailId, ⟨itemId, none, .directMail⟩)
  | .ccNotice itemId _ mailId _ => (mailId, ⟨itemId, none, .ccNotice⟩)
  | .callNotice notice =>
      (notice.itemId, ⟨notice.itemId, notice.childJobId, .callNotice notice.kind⟩)
  | .mailNotice itemId _ _ _ => (itemId, ⟨itemId, none, .mailNotice⟩)
  | .unknown itemId _ _ _ => (itemId, ⟨itemId, none, .unknown⟩)

/-- The parts of the inbox are kept by agent. -/
structure Inbox where
  listed : Uuid → Uuid → Option MailEntry
  marked : Uuid → List Uuid
  snapshots : Uuid → Option (List UnreadItem)

namespace Inbox

def new : Inbox :=
  { listed := fun _ _ => none, marked := fun _ => [], snapshots := fun _ => none }

def recordListed (inbox : Inbox) (agent entryId : Uuid) (entry : MailEntry) :
    Inbox :=
  { inbox with
    listed := Function.update inbox.listed agent
      (Function.update (inbox.listed agent) entryId (some entry)) }

def mark (inbox : Inbox) (agent itemId : Uuid) : Inbox :=
  { inbox with
    marked := Function.update inbox.marked agent (itemId :: inbox.marked agent) }

def keepSnapshot (inbox : Inbox) (agent : Uuid) (items : List UnreadItem) : Inbox :=
  { inbox with snapshots := Function.update inbox.snapshots agent (some items) }

def dropSnapshot (inbox : Inbox) (agent : Uuid) : Inbox :=
  { inbox with snapshots := Function.update inbox.snapshots agent none }

end Inbox

/-! ## Cutting a page -/

def afterItem (items : List UnreadItem) (after : Uuid) : Option (List UnreadItem) :=
  afterKey UnreadItem.itemId after items

def laterThan (items : List UnreadItem) (after : Uuid) : List UnreadItem :=
  items.filter fun item => after < item.itemId

/-- The first half of `rest_of_listing`: the snapshot holds the item of the
cursor. -/
def restOfSnapshot (snapshot : Option (List UnreadItem)) (after : Option Uuid) :
    Option (List UnreadItem × List UnreadItem) :=
  after.bind fun after =>
    snapshot.bind fun kept => (afterItem kept after).map fun rest => (rest, kept)

/-- The second half: what a new read holds behind the cursor. -/
def restOfRead (read : List UnreadItem) : Option Uuid → List UnreadItem
  | none => read
  | some after => (afterItem read after).getD (laterThan read after)

def leaveOutMarked (marked : List Uuid) (items : List UnreadItem) :
    List UnreadItem :=
  items.filter fun item => decide (item.itemId ∉ marked)

def nextCursor (page : List UnreadItem) (more : Bool) : Option Uuid :=
  if more then page.getLast?.map UnreadItem.itemId else none

/-! ## A call of `items` -/

/-- What a call has cut: `read` is the read that `rest` comes from, and `fresh`
says whether the call made it itself. -/
structure Cut where
  read : List UnreadItem
  fresh : Bool
  page : List UnreadItem
  next : Option Uuid

inductive Place where
  | idle
  | starting (limit : ℕ)
  | reading (limit : ℕ)
  | cutting (limit : ℕ) (rest read : List UnreadItem) (fresh : Bool)
  | converting (cut : Cut)
  | keeping (cut : Cut)
  | recording (cut : Cut) (rest : List UnreadItem)

/-- A caller that began with the cursor `begun` and goes on with `after`. -/
structure Listing where
  agent : Uuid
  begun : Option Uuid
  after : Option Uuid
  finished : Bool
  place : Place

inductive Obs where
  | page (listing : ℕ) (read : Option (List UnreadItem)) (items : List UnreadItem)
      (next : Option Uuid)
  | marked (agent itemId : Uuid)

structure Sys where
  inbox : Inbox
  /-- The registration of the agent is queued. -/
  queued : Uuid → Bool
  listings : ℕ → Option Listing
  nextListing : ℕ
  log : List Obs

inductive Event where
  | begin (agent : Uuid) (after : Option Uuid)
  | items (listing limit : ℕ)
  | step (listing : ℕ)
  | readDone (listing : ℕ) (result : Except Error (List UnreadItem))
  | converted (listing : ℕ) (ok : Bool)
  | drop (listing : ℕ)
  | registrationEnded (agent : Uuid)
  | markRead (agent entryId : Uuid)

namespace Sys

def init : Sys :=
  { inbox := .new, queued := fun _ => true, listings := fun _ => none
    nextListing := 0, log := [] }

def setListing (s : Sys) (c : ℕ) (l : Listing) : Sys :=
  { s with listings := Function.update s.listings c (some l) }

def moveTo (s : Sys) (c : ℕ) (l : Listing) (place : Place) : Sys :=
  s.setListing c { l with place := place }

def begin (s : Sys) (agent : Uuid) (after : Option Uuid) : Sys :=
  { s.setListing s.nextListing ⟨agent, after, after, false, .idle⟩ with
    nextListing := s.nextListing + 1 }

/-- The call gives its page, and the caller goes on behind the next cursor. -/
def give (s : Sys) (c : ℕ) (l : Listing) (read : Option (List UnreadItem))
    (page : List UnreadItem) (next : Option Uuid) : Sys :=
  { s.setListing c { l with
      after := next.or l.after, finished := next.isNone, place := .idle } with
    log := s.log ++ [.page c read page next] }

/-- The check of the registration and the look at the snapshot. -/
def start (s : Sys) (c : ℕ) (l : Listing) (limit : ℕ) : Sys :=
  if s.queued l.agent then s.give c l none [] none
  else match restOfSnapshot (s.inbox.snapshots l.agent) l.after with
    | some (rest, kept) => s.moveTo c l (.cutting limit rest kept false)
    | none => s.moveTo c l (.reading limit)

/-- The page is cut from what is left and not marked. -/
def cutPage (s : Sys) (c : ℕ) (l : Listing) (limit : ℕ)
    (rest read : List UnreadItem) (fresh : Bool) : Sys :=
  let unmarked := leaveOutMarked (s.inbox.marked l.agent) rest
  let page := unmarked.take limit
  s.moveTo c l (.converting
    ⟨read, fresh, page, nextCursor page (decide (limit < unmarked.length))⟩)

/-- The snapshot is kept for the next page, or dropped with the last one. -/
def keep (s : Sys) (c : ℕ) (l : Listing) (cut : Cut) : Sys :=
  let s' := s.moveTo c l (.recording cut cut.page)
  match cut.next.isSome, cut.fresh with
  | true, true => { s' with inbox := s.inbox.keepSnapshot l.agent cut.read }
  | true, false => s'
  | false, _ => { s' with inbox := s.inbox.dropSnapshot l.agent }

def record (s : Sys) (c : ℕ) (l : Listing) (cut : Cut) : List UnreadItem → Sys
  | [] => s.give c l (some cut.read) cut.page cut.next
  | item :: rest =>
      { s.moveTo c l (.recording cut rest) with
        inbox := s.inbox.recordListed l.agent (convert item).1 (convert item).2 }

def listingStep (s : Sys) (c : ℕ) (l : Listing) : Option Sys :=
  match l.place with
  | .starting limit => some (s.start c l limit)
  | .cutting limit rest read fresh => some (s.cutPage c l limit rest read fresh)
  | .keeping cut => some (s.keep c l cut)
  | .recording cut rest => some (s.record c l cut rest)
  | _ => none

def readDone (s : Sys) (c : ℕ) (l : Listing) :
    Except Error (List UnreadItem) → Option Sys
  | .ok read =>
      match l.place with
      | .reading limit =>
          some (s.moveTo c l (.cutting limit (restOfRead read l.after) read true))
      | _ => none
  | .error _ =>
      match l.place with
      | .reading _ => some (s.moveTo c l .idle)
      | _ => none

def converted (s : Sys) (c : ℕ) (l : Listing) (ok : Bool) : Option Sys :=
  match l.place with
  | .converting cut => some (s.moveTo c l (if ok then .keeping cut else .idle))
  | _ => none

/-- The future of the call is dropped where it waits. -/
def drop (s : Sys) (c : ℕ) (l : Listing) : Option Sys :=
  match l.place with
  | .reading _ | .converting _ => some (s.moveTo c l .idle)
  | _ => none

/-- `mark_read`, up to the hold of the marker. -/
def markRead (s : Sys) (agent entryId : Uuid) : Sys :=
  match s.inbox.listed agent entryId with
  | none => s
  | some entry =>
      if entry.itemId ∈ s.inbox.marked agent then s
      else
        { s with
          inbox := s.inbox.mark agent entry.itemId
          log := s.log ++ [.marked agent entry.itemId] }

def step (s : Sys) : Event → Option Sys
  | .begin agent after => some (s.begin agent after)
  | .items c limit =>
      (s.listings c).bind fun l =>
        match l.place with
        | .idle =>
            if l.finished || limit == 0 then none
            else some (s.moveTo c l (.starting limit))
        | _ => none
  | .step c => (s.listings c).bind (s.listingStep c)
  | .readDone c result => (s.listings c).bind fun l => s.readDone c l result
  | .converted c ok => (s.listings c).bind fun l => s.converted c l ok
  | .drop c => (s.listings c).bind (s.drop c)
  | .registrationEnded agent =>
      some { s with queued := Function.update s.queued agent false }
  | .markRead agent entryId => some (s.markRead agent entryId)

def machine : Machine Sys Event := ⟨init, step⟩

end Sys

end RunnerKit.InboxPort
