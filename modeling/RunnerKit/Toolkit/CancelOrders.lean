import RunnerKit.Lib.Log
import RunnerKit.RunnerTransport.LiveOrders
import RunnerKit.Toolkit.Claims

/-!
# Cancel orders and the registry of the runs

`cancel_orders` of `feeds.rs` over the feed of the transport, the registry of
`shared.rs`, and the slots up to the places where they ask for work: the sending of
a claim, and a poll of the trigger feed in `push_step`. What the registry does under
its lock is one step; the publication of the loop state is a step of its own.

The cancel of a host is not modelled: it triggers tokens and nothing else.
-/

namespace RunnerKit.Toolkit.CancelOrders

open RunnerKit.Jobs RunnerKit.Lib RunnerKit.RunnerTransport

/-! ## The registry -/

/-- A record is known by the number of its making. -/
structure Registry where
  runs : Uuid → Option ℕ
  knownCancels : Finset Uuid
  /-- The records whose cancel token is triggered. -/
  triggered : Finset ℕ
  made : ℕ

namespace Registry

def init : Registry := ⟨fun _ => none, ∅, ∅, 0⟩

def registerRun (registry : Registry) (runId : Uuid) : Registry :=
  match registry.runs runId with
  | some _ => registry
  | none =>
      { registry with
        runs := Function.update registry.runs runId (some registry.made)
        triggered :=
          if runId ∈ registry.knownCancels then insert registry.made registry.triggered
          else registry.triggered
        made := registry.made + 1 }

def forgetRun (registry : Registry) (runId : Uuid) : Registry :=
  { registry with runs := Function.update registry.runs runId none }

def orderMade (registry : Registry) (runId : Uuid) : Registry :=
  { registry with
    knownCancels := insert runId registry.knownCancels
    triggered := registry.triggered ∪ (registry.runs runId).toFinset }

def orderDeleted (registry : Registry) (runId : Uuid) : Registry :=
  { registry with knownCancels := registry.knownCancels.erase runId }

def replaceOrders (registry : Registry) (orders : Finset Uuid) : Registry :=
  { registry with
    knownCancels := orders
    triggered :=
      registry.triggered ∪ orders.biUnion fun runId => (registry.runs runId).toFinset }

/-- A token is triggered for another reason: the drain, a panic of the body. -/
def trigger (registry : Registry) (record : ℕ) : Registry :=
  { registry with triggered := insert record registry.triggered }

end Registry

/-! ## The places -/

/-- Where a slot is in the `select` of `push_step`. -/
inductive Push where
  | out
  /-- It is about to poll `unusable`, which comes first. -/
  | selecting
  /-- It is about to poll `next_trigger`. -/
  | reading
deriving DecidableEq

/-- Where `cancel_orders` is. -/
inductive Task where
  | resetting
  | opening
  | reading
  /-- The orders are replaced, the loop state does not say so yet. -/
  | completing
  | closing
  | waiting
deriving DecidableEq

/-- Each with whether the replay of the feed opened last is complete. -/
inductive Obs where
  | read (slot : ℕ) (complete : Bool)
  | asked (slot : ℕ) (complete : Bool)
deriving DecidableEq

/-! ## The whole -/

structure Sys where
  base : Toolkit.Sys
  registry : Registry
  task : Task
  /-- What the bucket held when the feed was opened. -/
  stored : ℕ
  feed : CancelFeed
  taken : List Entry
  given : List (Except Error CancelEvent)
  complete : Bool
  replayed : Finset Uuid
  push : ℕ → Push
  log : List Obs

inductive Event where
  | base (event : Toolkit.Event)
  | reset
  | opened (stored : ℕ)
  | openFailed
  | feed (event : RunnerTransport.Event)
  | publish
  | close
  | beat
  | taskPanics
  | register (runId : Uuid)
  | forget (runId : Uuid)
  | trigger (record : ℕ)
  | poll (slot : ℕ)
  | next (slot : ℕ) (ready : Bool)
  | leave (slot : ℕ)

/-- What makes `unusable` ready. -/
def unusable (state : LoopState) (mode : Mode) : Bool :=
  !(state.canAsk && decide (state.mode = mode))

def isPanic : SlotEvent → Bool
  | .panic => true
  | _ => false

namespace Sys

def init : Sys :=
  { base := .init, registry := .init, task := .resetting
    stored := 1, feed := .opened 1, taken := [], given := []
    complete := false, replayed := ∅, push := fun _ => .out, log := [] }

def observe (s : Sys) (obs : Obs) : Sys := { s with log := s.log ++ [obs] }

def setPush (s : Sys) (i : ℕ) (push : Push) : Sys :=
  { s with push := Function.update s.push i push }

def sendModify (s : Sys) (complete : Bool) : Sys :=
  { s with
    base := s.base.sendModify { s.base.loopState with replayComplete := complete } }

/-! ### The task of the cancel orders -/

/-- A new feed, with a replay of its own. -/
def openFeed (s : Sys) (stored : ℕ) : Sys :=
  { s with
    task := .reading, stored := stored, feed := .opened stored, taken := [], given := []
    complete := false, replayed := ∅ }

def consume (s : Sys) (event : Except Error CancelEvent) : Sys :=
  let s := { s with given := s.given ++ [event] }
  match event with
  | .ok (.orderMade runId) =>
      if s.complete then { s with registry := s.registry.orderMade runId }
      else { s with replayed := insert runId s.replayed }
  | .ok (.orderDeleted runId) =>
      if s.complete then { s with registry := s.registry.orderDeleted runId }
      else { s with replayed := s.replayed.erase runId }
  | .ok .replayComplete =>
      { s with
        complete := true, registry := s.registry.replaceOrders s.replayed
        replayed := ∅, task := .completing }
  | .error (.unreadable _) => s
  | .error _ => { s with task := .closing }

def polls (s : Sys) : Bool := s.feed.pending.isEmpty && s.feed.ended.isNone

/-- `next` of the feed: one entry of the watch, or one event given. -/
def feedStep (w : Wire) (s : Sys) : RunnerTransport.Event → Option Sys
  | .entry entry =>
      if s.polls then
        some { s with feed := s.feed.take w entry, taken := s.taken ++ [entry] }
      else none
  | .watchFailed missing text =>
      if s.polls then
        some { s with feed := { s.feed with ended := some (CancelFeed.failed w missing text) } }
      else none
  | .watchEnded =>
      if s.polls then
        some { s with feed := { s.feed with
          ended := some (.lost ⟨.transport, "the cancel watch ended"⟩) } }
      else none
  | .next =>
      match s.feed.pending with
      | event :: rest =>
          some ({ s with feed := { s.feed with pending := rest } }.consume event)
      | [] => s.feed.ended.map fun error => s.consume (.error error)

/-! ### The slots -/

/-- What a slot does beside the step itself. -/
def beside (s : Sys) (t : Toolkit.Sys) (i : ℕ) : SlotEvent → Sys
  | .look =>
      if s.base.drain then { s with base := t }
      else { s with base := t }.observe (.read i s.complete)
  | .send _ => { s with base := t }.observe (.asked i s.complete)
  | .ask | .answer =>
      match t.slots i with
      | .working _ => { s with base := t }.setPush i .selecting
      | _ => { s with base := t }
  | .panic => { s with base := t }.setPush i .out
  | _ => { s with base := t }

/-- A slot in the `select` makes no other step of its own, but it can panic there. -/
def slotStep (s : Sys) (i : ℕ) (event : SlotEvent) : Option Sys :=
  if s.push i = .out ∨ isPanic event = true then
    (s.base.slotStep i event).map fun t => s.beside t i event
  else none

def baseStep (s : Sys) : Toolkit.Event → Option Sys
  | .slot i event => s.slotStep i event
  | .replay _ => none
  | event => (s.base.step event).map fun t => { s with base := t }

/-- The poll of `unusable` reads the loop state. -/
def poll (s : Sys) (i : ℕ) : Sys :=
  (s.setPush i (if unusable s.base.loopState .push then .out else .reading)).observe
    (.read i s.complete)

/-- A step of the task that reads the cancel orders. -/
def taskStep (w : Wire) (s : Sys) : Task → Event → Option Sys
  | .resetting, .reset => some { s.sendModify false with task := .opening }
  | .opening, .opened stored => some (s.openFeed stored)
  | .opening, .openFailed => some { s with task := .closing }
  | .reading, .feed event => s.feedStep w event
  | .completing, .publish => some { s.sendModify true with task := .reading }
  | .closing, .close => some { s.sendModify false with task := .waiting }
  | .waiting, .beat => some { s with task := .resetting }
  | _, .taskPanics => some { s with task := .waiting }
  | _, _ => none

def step (w : Wire) (s : Sys) : Event → Option Sys
  | .base event => s.baseStep event
  | .register runId => some { s with registry := s.registry.registerRun runId }
  | .forget runId => some { s with registry := s.registry.forgetRun runId }
  | .trigger record => some { s with registry := s.registry.trigger record }
  | .poll i => if s.push i = .selecting then some (s.poll i) else none
  | .next i ready =>
      if s.push i = .reading then
        some ((s.setPush i (if ready then .out else .selecting)).observe
          (.asked i s.complete))
      else none
  | .leave i =>
      if s.push i = .reading ∧ s.base.drain = true then some (s.setPush i .out) else none
  | event => s.taskStep w s.task event

def machine (w : Wire) : Machine Sys Event := ⟨init, step w⟩

end Sys

/-! ## What the log says -/

def readAfter (slot : ℕ) (last : Option Bool) : Obs → Option Bool
  | .read i complete => if i = slot then some complete else last
  | .asked _ _ => last

/-- What the slot found when it last read the loop state. -/
def lastRead (slot : ℕ) (log : List Obs) : Option Bool := log.foldl (readAfter slot) none

@[simp] theorem lastRead_snoc (slot : ℕ) (log : List Obs) (obs : Obs) :
    lastRead slot (log ++ [obs]) = readAfter slot (lastRead slot log) obs := by
  simp [lastRead]

/-- Work is asked for behind a read of the loop state at which the replay of the feed
was complete. -/
def AsksAfterComplete (pre : List Obs) (obs : Obs) : Prop :=
  ∀ i complete, obs = .asked i complete → lastRead i pre = some true

end RunnerKit.Toolkit.CancelOrders
