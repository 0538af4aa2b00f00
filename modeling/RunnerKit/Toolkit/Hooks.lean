import RunnerKit.Book.Making
import RunnerKit.Lib.Log
import RunnerKit.Lib.Machine

/-!
# Lifecycle hooks

The part of a `RunRecord` that hooks are about, `hooks.rs`, `exec_observer.rs` and the
run from the return of its executor on: `settle` of `run/settle.rs`, and `abort_run` of
`drain.rs` behind the drop of the slot. The observations come from any thread; what the
record does under its lock is one step, and so is each read of the phase, each removal
of a hook and each wake-up.

`hooks_returned` waits on a `Notify`: a `Notified` made before the look at the hooks is
woken by every `notify_waiters` behind it.
-/

namespace RunnerKit.Toolkit.Hooks

open RunnerKit.Book RunnerKit.Jobs RunnerKit.Lib

/-! ## The record -/

inductive Phase where
  | live | executorReturned | aborted | dropped
deriving DecidableEq

structure InstanceInfo where
  id : Uuid
  node : String
  hooked : Bool

structure InstanceEnded where
  instanceId : Uuid
  node : String
  agents : List BookedAgent
deriving DecidableEq

structure RunRecord where
  phase : Phase
  /-- The agents of the book, as long as the record holds it. -/
  book : Option (List BookedAgent)
  lastAgents : List BookedAgent
  runningHooks : List Uuid
  instances : List InstanceInfo

namespace RunRecord

def new : RunRecord := ⟨.live, none, [], [], []⟩

def find (record : RunRecord) (id : Uuid) : Option InstanceInfo :=
  record.instances.find? fun info => info.id = id

def instanceCreated (record : RunRecord) (id : Uuid) (node : String) : RunRecord :=
  { record with
    instances := (record.instances.filter fun info => info.id ≠ id) ++ [⟨id, node, false⟩] }

def unhookedInstances (record : RunRecord) : List Uuid :=
  (record.instances.filter fun info => !info.hooked).map InstanceInfo.id

def agents (record : RunRecord) : List BookedAgent := record.book.getD record.lastAgents

def markHooked (id : Uuid) (info : InstanceInfo) : InstanceInfo :=
  if info.id = id then { info with hooked := true } else info

def claimHook (record : RunRecord) (id : Uuid) : Option (InstanceEnded × RunRecord) :=
  match record.find id with
  | none => none
  | some info =>
      if info.hooked then none
      else
        some (⟨id, info.node, record.agents.filter fun agent => agent.key.node = info.node⟩,
          { record with
            instances := record.instances.map (markHooked id)
            runningHooks := record.runningHooks ++ [id] })

/-- `hook_returned` before it notifies. -/
def removeHook (record : RunRecord) (id : Uuid) : RunRecord :=
  { record with runningHooks := record.runningHooks.filter fun running => running ≠ id }

def takeBook (record : RunRecord) : RunRecord :=
  match record.book with
  | some agents => { record with book := none, lastAgents := agents }
  | none => record

end RunRecord

/-! ## The places -/

/-- Where the report of an instance is, `observe` of its `InstanceCreated`. -/
inductive Report where
  | none
  | recorded
  /-- It has read that the run is live no more. -/
  | late
  | ended
deriving DecidableEq

/-- Where the task of a hook is. -/
inductive Hook where
  | none
  | running
  /-- The hook has returned, or panicked. -/
  | returned
  | removed
  | ended
deriving DecidableEq

def Hook.isAlive : Hook → Bool
  | .running | .returned | .removed => true
  | _ => false

/-- Where the run is. `aborting` tells the steps of `abort_run` from those of
`settle`. -/
inductive Run where
  | body
  | settling
  /-- In `observations_ended`. -/
  | observing
  | returned
  | phased (aborting : Bool)
  | calling (aborting : Bool) (pending : List Uuid)
  | looping
  /-- The `Notified` is enabled; it may be notified already. -/
  | checking (notified : Bool)
  | parked (notified : Bool)
  /-- In `drained`. -/
  | draining
  | settled
  | dropped
  /-- The slot was dropped, `abort_run` is next. -/
  | gone
  | abortCalled
  | abortBookTaken
  | ended
deriving DecidableEq

/-- `call_all` of `settle` or of `abort_run` has ended. -/
def Run.called : Run → Bool
  | .looping | .checking _ | .parked _ | .draining | .settled | .dropped => true
  | .abortCalled | .abortBookTaken | .ended => true
  | _ => false

/-- Where a slot that is aborted ends. -/
def Run.awaits : Run → Bool
  | .body | .observing | .parked _ | .draining => true
  | _ => false

/-- What `notify_waiters` does. -/
def Run.notify : Run → Run
  | .checking _ => .checking true
  | .parked _ => .parked true
  | run => run

inductive Obs where
  | claimed (ended : InstanceEnded)
  | returned (id : Uuid)
  /-- `hooks_returned` has found no running hook. -/
  | checked
  | settled
deriving DecidableEq

/-! ## The whole -/

structure Sys where
  record : RunRecord
  observationsExpected : Bool
  observationsOver : Bool
  reports : Uuid → Report
  hooks : Uuid → Hook
  run : Run
  log : List Obs

inductive Event where
  /-- The agents of the book change. -/
  | book (agents : List BookedAgent)
  | created (id : Uuid) (node : String)
  | readsPhase (id : Uuid)
  | callsLate (id : Uuid)
  | eventHandled (id : Uuid)
  /-- The outcome is observed, or the observer is dropped. -/
  | endObservations
  | hookReturns (id : Uuid)
  | hookRemoved (id : Uuid)
  | hookNotifies (id : Uuid)
  /-- The body ends, a panic included; the executor may have returned. -/
  | bodyEnds (expected : Bool)
  | looks
  | observed
  | setsPhase
  | snapshot
  | calls (id : Uuid)
  | called
  | enables
  | checks
  | wakes
  | drained
  | removed
  | slotDropped
  | bookTaken

namespace Sys

def init : Sys :=
  { record := .new, observationsExpected := false, observationsOver := false
    reports := fun _ => .none, hooks := fun _ => .none, run := .body, log := [] }

def setReport (s : Sys) (id : Uuid) (report : Report) : Sys :=
  { s with reports := Function.update s.reports id report }

def setHook (s : Sys) (id : Uuid) (hook : Hook) : Sys :=
  { s with hooks := Function.update s.hooks id hook }

def observe (s : Sys) (obs : Obs) : Sys := { s with log := s.log ++ [obs] }

/-- `call_once`; `hook` tells whether the runner has a hook. -/
def callOnce (hook : Bool) (s : Sys) (id : Uuid) : Sys :=
  if hook then
    match s.record.claimHook id with
    | none => s
    | some (ended, record) =>
        ({ s with record := record }.setHook id .running).observe (.claimed ended)
  else s

/-- A step of an observation or of the task of a hook. -/
def besideStep (hook : Bool) (s : Sys) : Event → Option Sys
  | .book agents => some { s with record := { s.record with book := some agents } }
  | .created id node =>
      if s.reports id = .none then
        some ({ s with record := s.record.instanceCreated id node }.setReport id .recorded)
      else none
  | .readsPhase id =>
      if s.reports id = .recorded then
        some (s.setReport id (if s.record.phase ≠ .live then .late else .ended))
      else none
  | .callsLate id =>
      if s.reports id = .late then some ((s.callOnce hook id).setReport id .ended) else none
  | .eventHandled id => some (s.callOnce hook id)
  | .endObservations => some { s with observationsOver := true }
  | .hookReturns id =>
      if s.hooks id = .running then some ((s.setHook id .returned).observe (.returned id))
      else none
  | .hookRemoved id =>
      if s.hooks id = .returned then
        some ({ s with record := s.record.removeHook id }.setHook id .removed)
      else none
  | .hookNotifies id =>
      if s.hooks id = .removed then some ({ s with run := s.run.notify }.setHook id .ended)
      else none
  | _ => none

def setPhase (s : Sys) (phase : Phase) : Sys := { s with record := { s.record with phase := phase } }

/-- A step of the run. -/
def runStep (hook : Bool) (s : Sys) : Run → Event → Option Sys
  | .body, .bodyEnds expected => some { s with observationsExpected := expected, run := .settling }
  | .settling, .looks =>
      some { s with
        run := if s.observationsExpected && !s.observationsOver then .observing else .returned }
  | .observing, .observed =>
      if s.observationsOver then some { s with run := .returned } else none
  | .returned, .setsPhase =>
      some { s.setPhase .executorReturned with run := .phased false }
  | .gone, .setsPhase => some { s.setPhase .aborted with run := .phased true }
  | .phased aborting, .snapshot =>
      some { s with run := .calling aborting s.record.unhookedInstances }
  | .calling aborting pending, .calls id =>
      if id ∈ pending then
        some { s.callOnce hook id with run := .calling aborting (pending.erase id) }
      else none
  | .calling aborting pending, .called =>
      if pending = [] then
        some { s with run := if aborting then .abortCalled else .looping }
      else none
  | .looping, .enables => some { s with run := .checking false }
  | .checking notified, .checks =>
      if s.record.runningHooks = [] then
        some ({ s with run := .draining }.observe .checked)
      else some { s with run := .parked notified }
  | .parked true, .wakes => some { s with run := .looping }
  | .draining, .drained => some ({ s with run := .settled }.observe .settled)
  | .settled, .removed => some { s.setPhase .dropped with run := .dropped }
  | .dropped, .bookTaken => some { s with record := s.record.takeBook, run := .ended }
  | .abortCalled, .bookTaken =>
      some { s with record := s.record.takeBook, run := .abortBookTaken }
  | .abortBookTaken, .removed => some { s.setPhase .aborted with run := .ended }
  | run, .slotDropped => if run.awaits then some { s with run := .gone } else none
  | _, _ => none

def step (hook : Bool) (s : Sys) (e : Event) : Option Sys :=
  (s.besideStep hook e).or (s.runStep hook s.run e)

def machine (hook : Bool) : Machine Sys Event := ⟨init, step hook⟩

end Sys

/-! ## What the log says -/

def isClaim (id : Uuid) : Obs → Bool
  | .claimed ended => decide (ended.instanceId = id)
  | _ => false

def isChecked : Obs → Bool
  | .checked => true
  | _ => false

/-- Each hook that was claimed has returned. -/
def AllReturned (log : List Obs) : Prop :=
  ∀ ended, .claimed ended ∈ log → .returned ended.instanceId ∈ log

/-- `settle` returns behind a last look at the hooks, and each hook that was claimed
before that look has returned before it. -/
def SettledAfter (pre : List Obs) (obs : Obs) : Prop :=
  obs = .settled → .checked ∈ pre ∧ AllReturned (upto isChecked pre)

end RunnerKit.Toolkit.Hooks
