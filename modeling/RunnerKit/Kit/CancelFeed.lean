import RunnerKit.Kit.RunLoop
import RunnerKit.Lib.Log

/-!
# The cancel feed of br-jobs-runner-kit

`transport/cancel.rs` beside the run loop. A future of `next` lives in one `select!`
of the loop: every other branch drops it where it waits, and what is left of it is the
watch that the feed holds. The watches are numbered in the order in which they were
opened; the first one is opened before the loop.

The parser of a UUID is not in this repository.
-/

namespace RunnerKit.Kit

open RunnerKit.Jobs RunnerKit.Lib

/-! ## The feed -/

inductive Operation where
  | put | delete | purge
deriving DecidableEq

structure WatchEntry where
  key : String
  operation : Operation

/-- Where the future of `next` waits. It is idle before its first poll, and when there
is none. -/
inductive FeedPlace where
  | idle | watching | sleeping | reopening
deriving DecidableEq

structure CancelFeed where
  watch : Option ℕ
  opened : ℕ
  place : FeedPlace

inductive FeedEvent where
  | poll
  | entry (entry : WatchEntry)
  /-- The watch gave an error, or it ended. -/
  | failed
  | ended
  | slept
  | reopened (ok : Bool)

namespace CancelFeed

/-- The feed after `open`. -/
def opened0 : CancelFeed := { watch := some 0, opened := 1, place := .idle }

def told (runId : Uuid) : Operation → CancelEvent
  | .put => .cancelled runId
  | .delete | .purge => .cleared runId

/-- What `next` makes of an entry; a key that is not a run id is passed over. -/
def eventOf (parseStr : String → Option Uuid) (entry : WatchEntry) : Option CancelEvent :=
  (parseStr entry.key).map fun runId => told runId entry.operation

/-- A part of `next`, and the event with which it returns. -/
def step (parseStr : String → Option Uuid) (feed : CancelFeed) :
    FeedEvent → Option (CancelFeed × Option CancelEvent)
  | .poll =>
      if feed.place = .idle then
        some ({ feed with
          place := if feed.watch.isSome then .watching else .sleeping }, none)
      else none
  | .entry entry =>
      if feed.place = .watching then
        match eventOf parseStr entry with
        | none => some (feed, none)
        | some event => some ({ feed with place := .idle }, some event)
      else none
  | .failed | .ended =>
      if feed.place = .watching then
        some ({ feed with watch := none, place := .sleeping }, none)
      else none
  | .slept =>
      if feed.place = .sleeping then some ({ feed with place := .reopening }, none)
      else none
  | .reopened true =>
      if feed.place = .reopening then
        some (⟨some feed.opened, feed.opened + 1, .idle⟩, some .reset)
      else none
  | .reopened false =>
      if feed.place = .reopening then some ({ feed with place := .sleeping }, none)
      else none

def drop (feed : CancelFeed) : CancelFeed := { feed with place := .idle }

end CancelFeed

/-! ## The loop and its feed -/

/-- `yielded` are the entries of the watches, and `given` the events of the feed. -/
structure Fed where
  loop : Sys
  feed : CancelFeed
  yielded : List (ℕ × WatchEntry)
  given : List CancelEvent

inductive FedEvent where
  | loop (event : Event)
  | feed (event : FeedEvent)
  | heartbeat

namespace Fed

variable (decode : Value → Decoded) (parseStr : String → Option Uuid)

def init (pool : SlotPool) : Fed :=
  { loop := .init pool, feed := .opened0, yielded := [], given := [] }

/-- The entry with which the watch of the feed woke it. -/
def yields (s : Fed) : FeedEvent → List (ℕ × WatchEntry)
  | .entry entry => (s.feed.watch.map fun watch => (watch, entry)).toList
  | _ => []

/-- An event that the feed gives is handled at once. -/
def feedStep (s : Fed) (event : FeedEvent) : Option Fed :=
  (s.feed.step parseStr event).map fun (feed, given) =>
    { loop := given.elim s.loop s.loop.onCancel
      feed := feed
      yielded := s.yielded ++ s.yields event
      given := s.given ++ given.toList }

/-- The other branches of the `select!`, behind which the future of `next` is gone. -/
def isBranch : Event → Bool
  | .shutdown | .deadline | .message _ | .join _ => true
  | _ => false

def loopStep (s : Fed) : Event → Option Fed
  | .cancel _ => none
  | event =>
      (s.loop.step decode event).map fun loop =>
        { s with
          loop := loop
          feed := if isBranch event then s.feed.drop else s.feed }

def step (s : Fed) : FedEvent → Option Fed
  | .loop event => s.loopStep decode event
  | .feed event => if s.loop.selecting then s.feedStep parseStr event else none
  | .heartbeat => if s.loop.selecting then some { s with feed := s.feed.drop } else none

def machine (pool : SlotPool) : Machine Fed FedEvent := ⟨init pool, step decode parseStr⟩

end Fed

end RunnerKit.Kit
