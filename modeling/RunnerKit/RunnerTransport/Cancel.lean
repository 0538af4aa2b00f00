import RunnerKit.Jobs.Model
import RunnerKit.Lib.Machine

/-!
# The cancel feed and the orders of the runner

`runner_transport/cancel.rs` with the task `cancel_orders` of the toolkit that
reads it. The feed polls its watch only when it has nothing left to give, so a
step is one entry of the watch or one event given.

The key format, the JSON decoder and the name of the bucket are not in this
repository; a `Wire` stands for them.
-/

namespace RunnerKit.RunnerTransport

open RunnerKit.Jobs RunnerKit.Lib

/-! ## What comes from outside -/

structure CancelRun where
  runId : Uuid

/-- The categories of `serde_json`. -/
inductive Category where
  | io | badSyntax | data | eof

structure JsonError where
  category : Category
  line : ℕ
  column : ℕ

structure Wire where
  parseStr : String → Option Uuid
  runCancelKey : Uuid → String
  display : Uuid → String
  fromSlice : List UInt8 → Except JsonError CancelRun
  cancelBucket : String

inductive Operation where
  | put | delete | purge
deriving DecidableEq

structure Entry where
  key : String
  operation : Operation
  value : List UInt8
  seenCurrent : Bool

/-! ## The feed -/

inductive CancelEvent where
  | orderMade (runId : Uuid)
  | orderDeleted (runId : Uuid)
  | replayComplete
deriving DecidableEq

structure CancelFeed where
  pending : List (Except Error CancelEvent)
  replayed : Bool
  ended : Option Error

def Category.text : Category → String
  | .io => "a read failure"
  | .badSyntax => "a syntax error"
  | .data => "a value of the wrong shape"
  | .eof => "an unexpected end"

def unreadableJson (what : String) (error : JsonError) : Error :=
  .unreadable (what ++ ": " ++ error.category.text ++ " at line " ++
    toString error.line ++ " column " ++ toString error.column)

namespace Wire

variable (w : Wire)

def runOf (key : String) : Option Uuid :=
  match w.parseStr key with
  | some runId => if w.runCancelKey runId = key then some runId else none
  | none => none

/-- The event of a put on the key of `runId`. -/
def made (runId : Uuid) (value : List UInt8) : Except Error CancelEvent :=
  match w.fromSlice value with
  | .ok order =>
      if order.runId = runId then .ok (.orderMade runId)
      else .error (.unreadable ("the cancel order of the key " ++ w.display runId ++
        " names another Run"))
  | .error e =>
      .error (unreadableJson ("the cancel order of the key " ++ w.display runId) e)

end Wire

namespace CancelFeed

variable (w : Wire)

def push (feed : CancelFeed) (event : Except Error CancelEvent) : CancelFeed :=
  { feed with pending := feed.pending ++ [event] }

def order (feed : CancelFeed) (runId : Uuid) (entry : Entry) : CancelFeed :=
  match entry.operation with
  | .put => feed.push (w.made runId entry.value)
  | .delete | .purge =>
      if feed.replayed then feed.push (.ok (.orderDeleted runId)) else feed

def take (feed : CancelFeed) (entry : Entry) : CancelFeed :=
  let feed := match w.runOf entry.key with
    | some runId => feed.order w runId entry
    | none => feed
  if !feed.replayed && entry.seenCurrent then
    { feed with replayed := true }.push (.ok .replayComplete)
  else feed

/-- The feed of a bucket that stores this many messages. -/
def opened (stored : ℕ) : CancelFeed :=
  if stored = 0 then ⟨[.ok .replayComplete], true, none⟩ else ⟨[], false, none⟩

/-- Why the feed ends after an error of the watch. -/
def failed (missing : Bool) (text : String) : Error :=
  if missing then .infraMissing ("the bucket " ++ w.cancelBucket ++ " is missing")
  else .lost ⟨.transport, "the cancel watch failed: " ++ text⟩

end CancelFeed

/-! ## The orders of the runner -/

/-- The orders that the runner knows, and those of a replay under way. -/
structure Orders where
  complete : Bool
  replayed : Finset Uuid
  known : Finset Uuid

def Orders.event (orders : Orders) : Except Error CancelEvent → Orders
  | .ok (.orderMade runId) =>
      if orders.complete then { orders with known := insert runId orders.known }
      else { orders with replayed := insert runId orders.replayed }
  | .ok (.orderDeleted runId) =>
      if orders.complete then { orders with known := orders.known.erase runId }
      else { orders with replayed := orders.replayed.erase runId }
  | .ok .replayComplete => ⟨true, ∅, orders.replayed⟩
  | .error _ => orders

/-! ## The machine -/

structure Sys where
  feed : CancelFeed
  orders : Orders
  taken : List Entry
  given : List (Except Error CancelEvent)

inductive Event where
  | entry (entry : Entry)
  | watchFailed (missing : Bool) (text : String)
  | watchEnded
  | next

namespace Sys

def init (stored : ℕ) : Sys :=
  { feed := .opened stored, orders := ⟨false, ∅, ∅⟩, taken := [], given := [] }

/-- The feed has nothing to give: `next` polls the watch. -/
def polls (s : Sys) : Bool := s.feed.pending.isEmpty && s.feed.ended.isNone

def give (s : Sys) (event : Except Error CancelEvent) : Sys :=
  { s with orders := s.orders.event event, given := s.given ++ [event] }

def step (w : Wire) (s : Sys) : Event → Option Sys
  | .entry entry =>
      if s.polls then
        some { s with feed := s.feed.take w entry, taken := s.taken ++ [entry] }
      else none
  | .watchFailed missing text =>
      if s.polls then
        some { s with feed := { s.feed with ended := some (CancelFeed.failed w missing text) } }
      else none
  | .watchEnded =>
      if s.polls then
        some { s with feed := { s.feed with
          ended := some (.lost ⟨.transport, "the cancel watch ended"⟩) } }
      else none
  | .next =>
      match s.feed.pending with
      | event :: rest =>
          some ({ s with feed := { s.feed with pending := rest } }.give event)
      | [] => s.feed.ended.map fun error => s.give (.error error)

def machine (w : Wire) (stored : ℕ) : Machine Sys Event := ⟨init stored, step w⟩

end Sys

end RunnerKit.RunnerTransport
