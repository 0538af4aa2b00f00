import RunnerKit.RunnerTransport.Cancel
import RunnerKit.RunnerTransport.Fail
import RunnerKit.RunnerTransport.Feed

/-!
# The mode feed

`runner_transport/mode.rs`, `mode_sink.rs` and `feed.rs` over the history of
the mode key. The watch of the Fabric is created some time after its first
poll; it then sends the entry of that moment and each later one, in order, to
the sink. A call of `Feed::next` runs from one await to the next in one step,
and may be dropped at each of them.

A value carries the place in the history where it stands, which the code does
not have.
-/

namespace RunnerKit.RunnerTransport

open RunnerKit.Jobs RunnerKit.Lib

namespace Mode

/-! ## The key -/

inductive DispatchMode where
  | push | claim
deriving DecidableEq

inductive ModeEvent where
  | mode (mode : DispatchMode)
  | noEntry
deriving DecidableEq

abbrev ModeItem := Except Error ModeEvent

/-- What the key holds. -/
inductive Entry where
  | removed
  | put (value : Value)
  | notJson

def Entry.isJson : Entry → Bool
  | .notJson => false
  | _ => true

/-- The decoder of the entry and the name of the bucket. -/
structure ModeWire where
  fromValue : Value → Except JsonError DispatchMode
  bucket : String

namespace ModeWire

variable (w : ModeWire)

def read (value : Value) : ModeItem :=
  match w.fromValue value with
  | .ok mode => .ok (.mode mode)
  | .error e => .error (unreadableJson "the dispatch mode entry" e)

/-- An entry as `project` and `retract` send it, and as `start` reads it. -/
def item : Entry → ModeItem
  | .removed => .ok .noEntry
  | .put value => w.read value
  | .notJson => .error (Fail.unreadablePayload w.bucket)

def bucketError (error : FabricError) : Error :=
  Fail.fabric ("the bucket " ++ w.bucket) error

end ModeWire

/-! ## The feed -/

structure Item where
  event : ModeItem
  position : ℕ

structure ModeFeed where
  pending : List Item
  last : Option ModeEvent
  started : Bool
  ended : Option Error

namespace ModeFeed

def init : ModeFeed := ⟨[], none, false, none⟩

def push (feed : ModeFeed) (item : Item) : ModeFeed :=
  match item.event with
  | .ok event =>
      if feed.last = some event then feed
      else { feed with last := some event, pending := feed.pending ++ [item] }
  | .error _ => { feed with last := none, pending := feed.pending ++ [item] }

/-- `drain`, with what the receiver holds. -/
def drain (feed : ModeFeed) (items : List Item) : ModeFeed := items.foldl push feed

end ModeFeed

/-! ## The watch and the calls -/

/-- How the watch ends. -/
inductive Outcome where
  | done
  | fabric (error : FabricError)
  | sinkClosed

inductive Watch where
  | unborn
  /-- It sends from `start` on, and next the entry at `cursor`. -/
  | watching (start cursor : ℕ)
  | «over» (outcome : Outcome)

/-- Where a call is. All but the first are awaits. -/
inductive Await where
  /-- In `start`, before the poll of the watch. -/
  | starting
  | reading
  | selecting
  /-- In `watch_ended`, at the opening of the bucket. -/
  | classifying (error : FabricError)

structure Sys where
  history : List Entry
  watch : Watch
  receiver : List Item
  feed : ModeFeed
  /-- The error that `Feed` keeps. -/
  kept : Option Error
  call : Option Await
  given : List Item
  /-- A completed watch was polled. -/
  spoilt : Bool

inductive Event where
  | write (entry : Entry)
  /-- The watch is created; it may report a removed key. -/
  | created (marker : Bool)
  | deliver
  | next
  | pollPending
  | watchReady (outcome : Outcome)
  | pollOver
  | read
  | readFailed (error : FabricError)
  | recv
  | closed
  | reopened (missing : Option FabricError)
  | drop

def endedText : String := "the dispatch mode watch ended"

namespace Sys

/-- The key holds nothing before the writes of `past`. -/
def init (past : List Entry) : Sys :=
  { history := .removed :: past, watch := .unborn, receiver := [], feed := .init
    kept := none, call := none, given := [], spoilt := false }

/-- The place of the latest entry. -/
def here (s : Sys) : ℕ := s.history.length - 1

def latest (s : Sys) : Entry := s.history.getLastD .removed

/-- The feed gives an item; `Feed::next` keeps the error that ends it. -/
def give (s : Sys) (item : Item) : Sys :=
  { s with
    call := none
    given := s.given ++ [item]
    kept := keepEnd s.kept item.event }

/-- The head of the loop of `next`. -/
def loop (s : Sys) : Sys :=
  match s.feed.pending with
  | item :: rest => { s with feed := { s.feed with pending := rest } }.give item
  | [] =>
      match s.feed.ended with
      | some error => s.give ⟨.error error, s.here⟩
      | none =>
          if s.feed.started then { s with call := some .selecting }
          else { s with call := some .starting }

def next (s : Sys) : Sys :=
  match s.kept with
  | some error => s.give ⟨.error error, s.here⟩
  | none => s.loop

def endWith (s : Sys) (error : Error) : Sys :=
  { s with feed := { s.feed with ended := some error } }

def pushBack (s : Sys) (error : Error) : Sys :=
  { s with feed := { s.feed with pending := s.feed.pending ++ [⟨.error error, s.here⟩] } }

/-- The drain at the start of `watch_ended`. -/
def drained (s : Sys) (outcome : Outcome) : Sys :=
  { s with watch := .over outcome, receiver := [], feed := s.feed.drain s.receiver }

def watchEnded (s : Sys) (outcome : Outcome) : Sys :=
  match outcome with
  | .done => ((s.drained outcome).endWith (Fail.lost endedText)).loop
  | .fabric error =>
      match error with
      | .decode subject =>
          (((s.drained outcome).pushBack (Fail.unreadablePayload subject)).endWith
            (Fail.lost "the dispatch mode watch ended on an entry that is not JSON")).loop
      | error => { s.drained outcome with call := some (.classifying error) }
  | .sinkClosed => ((s.drained outcome).endWith (Fail.lost "the mode feed was dropped")).loop

/-- What the direct read of `start` gives is pushed. -/
def initial (s : Sys) (event : ModeItem) : Sys :=
  { s with feed := { s.feed with started := true }.push ⟨event, s.here⟩ }.loop

/-- Where a new watch starts: at the entry of the moment, or behind a removed one
that the watch does not report. -/
def firstTold (s : Sys) (marker : Bool) : ℕ :=
  match s.latest with
  | .removed => if marker then s.here else s.here + 1
  | _ => s.here

def create (s : Sys) (marker : Bool) : Sys :=
  { s with watch := .watching (s.firstTold marker) (s.firstTold marker) }

end Sys

variable (w : ModeWire)

def step (s : Sys) : Event → Option Sys
  | .write entry => some { s with history := s.history ++ [entry] }
  | .created marker =>
      match s.watch with
      | .unborn => some (s.create marker)
      | _ => none
  | .deliver =>
      match s.watch with
      | .watching start cursor =>
          match s.history[cursor]? with
          | some entry =>
              if entry.isJson then
                some { s with
                  watch := .watching start (cursor + 1)
                  receiver := s.receiver ++ [⟨w.item entry, cursor⟩] }
              else none
          | none => none
      | _ => none
  | .next =>
      match s.call with
      | none => some s.next
      | some _ => none
  | .pollPending =>
      match s.call, s.watch with
      | some .starting, .over _ => none
      | some .starting, _ => some { s with call := some .reading }
      | _, _ => none
  | .watchReady outcome =>
      match s.call, s.watch with
      | _, .over _ => none
      | some .starting, _ => some (s.watchEnded outcome)
      | some .selecting, _ => some (s.watchEnded outcome)
      | _, _ => none
  | .pollOver =>
      match s.call, s.watch with
      | some .starting, .over _ => some { s with call := none, spoilt := true }
      | some .selecting, .over _ => some { s with call := none, spoilt := true }
      | _, _ => none
  | .read =>
      match s.call with
      | some .reading =>
          if s.latest.isJson then some (s.initial (w.item s.latest)) else none
      | _ => none
  | .readFailed error =>
      match s.call with
      | some .reading =>
          match error with
          | .decode subject => some (s.initial (.error (Fail.unreadablePayload subject)))
          | error => some (s.endWith (w.bucketError error)).loop
      | _ => none
  | .recv =>
      match s.call, s.receiver with
      | some .selecting, item :: rest =>
          some { s with receiver := rest, feed := s.feed.push item }.loop
      | _, _ => none
  | .closed =>
      match s.call, s.receiver, s.watch with
      | some .selecting, [], .over _ => some (s.endWith (Fail.lost endedText)).loop
      | _, _, _ => none
  | .reopened missing =>
      match s.call with
      | some (.classifying error) =>
          some (s.endWith (w.bucketError (missing.getD error))).loop
      | _ => none
  | .drop =>
      match s.call with
      | none | some .starting => none
      | some _ => some { s with call := none }

def machine (past : List Entry) : Machine Sys Event := ⟨Sys.init past, step w⟩

end Mode

end RunnerKit.RunnerTransport
