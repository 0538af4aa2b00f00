import RunnerKit.EndWait.Store
import RunnerKit.InboxPort.Listing
import RunnerKit.Lib.Log
import RunnerKit.Queue.Write

/-!
# Waits and marks of an inbox

`adapter/inbox_port/waiting.rs` and `marking.rs` over the listings of
`InboxPort.Listing`, with the doorbells of `book/inbox.rs` and the arrivals of
`book/mod.rs`. Each lock section of a wait, of a mark and of `arrival_ended` is a
step of its own. A wait owns the receiver of its watch, so the queue of its wakes
is kept with it; the senders are gone with the book.

The lookup of the book and the unread reads are answered by the environment. A
caller of the book keeps it alive; a wait keeps it alive except while it is
parked.
-/

namespace RunnerKit.InboxPort.Waiting

open RunnerKit.Jobs RunnerKit.Lib

/-! ## Waits -/

inductive Wake where
  | item (item : ItemArrived)
  | feedEnded (error : Error)

/-- The lookup is not part of the crate; its errors are texts here. -/
inductive PortError where
  | fault (error : Error)
  | lookup (text : String)
deriving DecidableEq

inductive WaitPlace where
  | subscribing | checking | head | looking | reading
  | filtering (items : List UnreadItem)
  | emptied | parked | draining | done

structure Wait where
  agent : Uuid
  watching : Bool
  wakes : List Wake
  registrationOpen : Bool
  first : Bool
  place : WaitPlace

namespace Wait

/-- The wait holds the book strongly. -/
def holds (wait : Wait) : Bool :=
  match wait.place with
  | .parked | .draining | .done => false
  | .head => wait.first
  | _ => true

def moveTo (wait : Wait) (place : WaitPlace) : Wait := { wait with place := place }

/-- The receiver of the watch exists. -/
def receives (wait : Wait) : Bool :=
  match wait.place with
  | .done => false
  | _ => wait.watching

end Wait

/-! ## Marks -/

inductive MarkPlace where
  | looking
  | marking (listed : MailEntry)
  | holding (listed : MailEntry)
  | done

structure MarkCall where
  agent : Uuid
  entryId : Uuid
  place : MarkPlace

def finishOf (runId : Uuid) (listed : MailEntry) : Option Queue.Write :=
  match listed.kind, listed.childJobId with
  | .callNotice .runCompleted, some jobId => some (.finish runId jobId listed.itemId)
  | _, _ => none

def markerOf (runId : Uuid) (call : MarkCall) (listed : MailEntry) : Queue.Write :=
  .marker runId listed.itemId call.agent call.entryId

/-! ## The book and its callers -/

inductive Obs where
  | subscribed (wait : ℕ)
  | doorbell (address itemId : Uuid)
  | registrationEnded (agent : Uuid)
  | feedEnded (error : Error)
  | openedAgain
  | bookDropped
  | readStarted (wait : ℕ)
  | readFailed (wait : ℕ) (error : Error)
  /-- The end of a read, with what of it is not marked. -/
  | readHeld (wait : ℕ) (read unmarked : List UnreadItem)
  /-- The wait finds nothing. -/
  | emptied (wait : ℕ)
  | returned (wait : ℕ) (agent : Uuid) (result : Except PortError Unit)
  | marked (call : ℕ) (agent itemId : Uuid)
  | held (call : ℕ) (marker : Queue.Write) (follow : Option Queue.Write)
  | cut (listing : ℕ) (agent : Uuid) (page : List UnreadItem)
  | gave (listing : ℕ) (agent : Uuid) (page : List UnreadItem)

structure Sys where
  runId : Uuid
  port : InboxPort.Sys
  /-- The agents that hold the inbox of the node entry. -/
  inboxes : Uuid → Bool
  ends : EndWait.Held
  book : Bool
  /-- The callers of `arrival_ended` before their `wake_all`. -/
  due : List Error
  waits : ℕ → Option Wait
  nextWait : ℕ
  marks : ℕ → Option MarkCall
  nextMark : ℕ
  log : List Obs

inductive Event where
  | agent (agent : Uuid)
  | listing (event : InboxPort.Event)
  | registrationEnded (agent : Uuid)
  | arrival (event : Arrival)
  | arrivalEnded (error : Error)
  | wakeAll (i : ℕ)
  | arrivalOpenAgain
  | dropBook
  | wait (agent : Uuid) (lookup : Option String)
  | waitStep (wait : ℕ)
  | readDone (wait : ℕ) (result : Except Error (List UnreadItem))
  /-- The branches of the `select!`. -/
  | woken (wait : ℕ)
  | registered (wait : ℕ)
  | dropWait (wait : ℕ)
  | markRead (agent entryId : Uuid) (lookup : Option String)
  | markStep (call : ℕ)

def notHolder : Error :=
  .invalidInput "the agent does not hold the inbox of this node"

namespace Sys

def init (runId : Uuid) : Sys :=
  { runId := runId, port := .init, inboxes := fun _ => false, ends := .new, book := true
    due := [], waits := fun _ => none, nextWait := 0, marks := fun _ => none
    nextMark := 0, log := [] }

def setWait (s : Sys) (w : ℕ) (wait : Wait) : Sys :=
  { s with waits := Function.update s.waits w (some wait) }

def setMark (s : Sys) (c : ℕ) (call : MarkCall) : Sys :=
  { s with marks := Function.update s.marks c (some call) }

def told (s : Sys) (more : List Obs) : Sys := { s with log := s.log ++ more }

section Fields

variable (s : Sys) (more : List Obs)

@[simp] theorem told_log : (s.told more).log = s.log ++ more := rfl
@[simp] theorem told_waits : (s.told more).waits = s.waits := rfl
@[simp] theorem told_port : (s.told more).port = s.port := rfl
@[simp] theorem told_marks : (s.told more).marks = s.marks := rfl
@[simp] theorem told_ends : (s.told more).ends = s.ends := rfl
@[simp] theorem told_due : (s.told more).due = s.due := rfl
@[simp] theorem told_book : (s.told more).book = s.book := rfl
@[simp] theorem told_nextWait : (s.told more).nextWait = s.nextWait := rfl
@[simp] theorem told_nextMark : (s.told more).nextMark = s.nextMark := rfl
@[simp] theorem told_runId : (s.told more).runId = s.runId := rfl

end Fields

/-! ## Who holds the book -/

def listingHolds (s : Sys) (c : ℕ) : Bool :=
  match s.port.listings c with
  | some l => match l.place with
      | .idle => false
      | _ => true
  | none => false

def waitHolds (s : Sys) (w : ℕ) : Bool := ((s.waits w).map Wait.holds).getD false

def markHolds (s : Sys) (c : ℕ) : Bool :=
  match s.marks c with
  | some call => match call.place with
      | .done => false
      | _ => true
  | none => false

def borrowed (s : Sys) : Bool :=
  !s.due.isEmpty || (List.range s.port.nextListing).any s.listingHolds ||
    (List.range s.nextWait).any s.waitHolds || (List.range s.nextMark).any s.markHolds

/-- `resolve`: the book of the instance, for an agent that holds the inbox. -/
def resolve (s : Sys) (agent : Uuid) : Option String → Except PortError Unit
  | some text => .error (.lookup text)
  | none => if s.inboxes agent then .ok () else .error (.fault notHolder)

/-! ## The callers of the book -/

/-- `wake_address` and `wake_all`. -/
def wake (s : Sys) (wakes : Wait → Bool) (wake : Wake) : Sys :=
  { s with
    waits := fun w => (s.waits w).map fun wait =>
      if wait.receives && wakes wait then { wait with wakes := wait.wakes ++ [wake] }
      else wait }

def arrival (s : Sys) : Arrival → Sys
  | .item item =>
      match item.address with
      | none => s
      | some address =>
          (s.wake (fun wait => wait.agent == address) (.item item)).told
            [.doorbell address item.itemId]
  | .syncEnd child ended => { s with ends := (s.ends.record child (.ok ended)).2 }
  | .unreadable (some child) error =>
      { s with ends := (s.ends.record child (.error error)).2 }
  | .unreadable none _ => s

def arrivalEnded (s : Sys) (error : Error) : Sys :=
  if error.isUnreadable then s
  else
    { s with
      ends := if error.isInfraMissing then s.ends.infraMissing error else s.ends
      due := s.due ++ [error]
      log := s.log ++ [.feedEnded error] }

/-! ## A wait -/

def fail (s : Sys) (w : ℕ) (wait : Wait) (error : PortError) : Sys :=
  (s.setWait w (wait.moveTo .done)).told [.returned w wait.agent (.error error)]

/-- A wake that is taken from the watch; `ended` of the source. -/
def took (s : Sys) (w : ℕ) (wait : Wait) : Option Sys :=
  match wait.wakes with
  | .item _ :: rest =>
      some (s.setWait w { wait with wakes := rest, place := .draining })
  | .feedEnded error :: _ => some (s.fail w wait (.fault error))
  | [] => if s.book then none else some (s.fail w wait (.fault .bookDropped))

/-- The wait finds nothing; only the first time it looks at what the book keeps. -/
def empty (s : Sys) (w : ℕ) (wait : Wait) : Sys :=
  if wait.first then
    match s.ends.kept with
    | some error => s.fail w wait (.fault error)
    | none => s.setWait w { wait with first := false, place := .parked }
  else s.setWait w (wait.moveTo .parked)

def waitStep (s : Sys) (w : ℕ) (wait : Wait) : Option Sys :=
  match wait.place with
  | .subscribing =>
      some ((s.setWait w { wait with watching := true, place := .checking }).told
        [.subscribed w])
  | .checking =>
      some (s.setWait w { wait with
        registrationOpen := s.port.queued wait.agent, place := .head })
  | .head =>
      if s.book then
        some (s.setWait w { wait with
          registrationOpen := wait.registrationOpen && s.port.queued wait.agent
          place := .looking })
      else some (s.fail w wait (.fault .bookDropped))
  | .looking =>
      if s.port.queued wait.agent then
        some ((s.setWait w (wait.moveTo .emptied)).told [.emptied w])
      else some ((s.setWait w (wait.moveTo .reading)).told [.readStarted w])
  | .filtering items =>
      let unmarked := leaveOutMarked (s.port.inbox.marked wait.agent) items
      if unmarked.isEmpty then
        some ((s.setWait w (wait.moveTo .emptied)).told
          [.readHeld w items unmarked, .emptied w])
      else
        some ((s.setWait w (wait.moveTo .done)).told
          [.readHeld w items unmarked, .returned w wait.agent (.ok ())])
  | .emptied => some (s.empty w wait)
  | .draining =>
      match wait.wakes, s.book with
      | [], true => some (s.setWait w (wait.moveTo .head))
      | _, _ => s.took w wait
  | _ => none

def readDone (s : Sys) (w : ℕ) (wait : Wait) :
    Except Error (List UnreadItem) → Option Sys
  | .ok items =>
      match wait.place with
      | .reading => some (s.setWait w (wait.moveTo (.filtering items)))
      | _ => none
  | .error error =>
      match wait.place with
      | .reading =>
          some ((s.told [.readFailed w error]).fail w wait (.fault error))
      | _ => none

def woken (s : Sys) (w : ℕ) (wait : Wait) : Option Sys :=
  match wait.place with
  | .parked => s.took w wait
  | _ => none

def registered (s : Sys) (w : ℕ) (wait : Wait) : Option Sys :=
  match wait.place with
  | .parked =>
      if wait.registrationOpen && !s.port.queued wait.agent then
        some (s.setWait w { wait with registrationOpen := false, place := .draining })
      else none
  | _ => none

/-- The future of the wait is dropped where it waits. -/
def dropWait (s : Sys) (w : ℕ) (wait : Wait) : Option Sys :=
  match wait.place with
  | .reading | .parked => some (s.setWait w (wait.moveTo .done))
  | _ => none

def wait (s : Sys) (agent : Uuid) (lookup : Option String) : Sys :=
  let made : Wait := ⟨agent, false, [], false, true, .subscribing⟩
  let s' : Sys := { s with nextWait := s.nextWait + 1 }
  match s.resolve agent lookup with
  | .ok () => s'.setWait s.nextWait made
  | .error error => s'.fail s.nextWait made error

/-! ## A mark -/

def markRead (s : Sys) (agent entryId : Uuid) (lookup : Option String) : Sys :=
  match s.resolve agent lookup with
  | .ok () =>
      { s.setMark s.nextMark ⟨agent, entryId, .looking⟩ with
        nextMark := s.nextMark + 1 }
  | .error _ => s

def markStep (s : Sys) (c : ℕ) (call : MarkCall) : Option Sys :=
  match call.place with
  | .looking =>
      some (s.setMark c { call with
        place := match s.port.inbox.listed call.agent call.entryId with
          | some listed => .marking listed
          | none => .done })
  | .marking listed =>
      if listed.itemId ∈ s.port.inbox.marked call.agent then
        some (s.setMark c { call with place := .done })
      else
        some (({ s with
          port := { s.port with
            inbox := s.port.inbox.mark call.agent listed.itemId } } : Sys).setMark c
          { call with place := .holding listed } |>.told
            [.marked c call.agent listed.itemId])
  | .holding listed =>
      some ((s.setMark c { call with place := .done }).told
        [.held c (markerOf s.runId call listed) (finishOf s.runId listed)])
  | .done => none

/-! ## The machine -/

/-- What a step of a listing tells: a cut when it has just cut its page, and the
page that it gives. -/
def listingTold (before after : InboxPort.Sys) : InboxPort.Event → List Obs
  | .step c =>
      match before.listings c, after.listings c with
      | some l, some l' =>
          match l.place, l'.place with
          | .cutting .., .converting cut => [.cut c l.agent cut.page]
          | .recording cut [], _ => [.gave c l.agent cut.page]
          | .starting _, .idle => [.gave c l.agent []]
          | _, _ => []
      | _, _ => []
  | _ => []

/-- A call of `items` begins with `resolve`; the marks and the end of a
registration have events of their own here. -/
def listingAllowed (s : Sys) : InboxPort.Event → Bool
  | .markRead .. | .registrationEnded _ => false
  | .items c _ =>
      s.book && ((s.port.listings c).map fun l => s.inboxes l.agent).getD false
  | _ => s.book

def step (s : Sys) : Event → Option Sys
  | .agent agent =>
      if s.book then some { s with inboxes := Function.update s.inboxes agent true }
      else none
  | .listing event =>
      if s.listingAllowed event then
        (s.port.step event).map fun port =>
          ({ s with port := port } : Sys).told (listingTold s.port port event)
      else none
  | .registrationEnded agent =>
      if s.port.queued agent then
        some (({ s with
          port := { s.port with
            queued := Function.update s.port.queued agent false } } : Sys).told
          [.registrationEnded agent])
      else none
  | .arrival event => if s.book then some (s.arrival event) else none
  | .arrivalEnded error => if s.book then some (s.arrivalEnded error) else none
  | .wakeAll i =>
      (s.due[i]?).map fun error =>
        ({ s with due := s.due.eraseIdx i } : Sys).wake (fun _ => true) (.feedEnded error)
  | .arrivalOpenAgain =>
      if s.book then some (({ s with ends := s.ends.reopened } : Sys).told [.openedAgain])
      else none
  | .dropBook =>
      if s.book && !s.borrowed then some (({ s with book := false } : Sys).told [.bookDropped])
      else none
  | .wait agent lookup =>
      if s.book || lookup.isSome then some (s.wait agent lookup) else none
  | .waitStep w => (s.waits w).bind (s.waitStep w)
  | .readDone w result => (s.waits w).bind fun wait => s.readDone w wait result
  | .woken w => (s.waits w).bind (s.woken w)
  | .registered w => (s.waits w).bind (s.registered w)
  | .dropWait w => (s.waits w).bind (s.dropWait w)
  | .markRead agent entryId lookup =>
      if s.book || lookup.isSome then some (s.markRead agent entryId lookup) else none
  | .markStep c => (s.marks c).bind (s.markStep c)

def machine (runId : Uuid) : Machine Sys Event := ⟨init runId, step⟩

end Sys

end RunnerKit.InboxPort.Waiting
