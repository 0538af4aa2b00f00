import RunnerKit.Kit.Slots
import RunnerKit.Lib.Machine

/-!
# The run loop of br-jobs-runner-kit

`run_loop.rs` as one machine. Every branch of the `select!` is an event, with
the guard of the branch; the claim of a trigger goes on over the publish of the
Started and the settling of the delivery, and meanwhile the loop does nothing
else. The run tasks end at any time, and so does the workload in them.

The presence of the instance and the facts that a workload emits itself touch
neither slots nor tokens nor terminal facts, so they are left out.
-/

namespace RunnerKit.Kit

open RunnerKit.Jobs RunnerKit.Lib

/-! ## Triggers, outcomes and facts -/

structure Trigger where
  runId : Uuid
  jobId : Uuid
  attempt : ℕ
  config : Option Value

inductive AckKind where
  | ack | nak | term
deriving DecidableEq

structure FailureReport where
  kind : Option FailureKind
  reasonCode : String
  params : Value
  diagnostic : Value

/-- The hint is a number of whole seconds. -/
inductive RunOutcome where
  | completed
  | failed (report : FailureReport) (retryAfter : Option ℕ)

inductive RunFact where
  | completed (runId : Uuid)
  | failed (runId : Uuid) (report : FailureReport) (retryAfterSeconds : Option ℤ)

def i64Max : ℕ := 2 ^ 63 - 1

def factOf (runId : Uuid) : RunOutcome → RunFact
  | .completed => .completed runId
  | .failed report retryAfter =>
      .failed runId report (retryAfter.map fun secs => ((min secs i64Max : ℕ) : ℤ))

/-- What the decoding of the config gives. The payload itself is handed to the
workload, which is the environment. -/
inductive Decoded where
  | payload
  | error (text : String)
  | panicked

inductive TaskEnd where
  | returned (outcome : RunOutcome)
  | panicked

/-- The end of a run task whose workload, if it is called, ends so. -/
def executeRun (decode : Value → Decoded) (config : Option Value)
    (workload : TaskEnd) : TaskEnd :=
  match decode (config.getD .null) with
  | .payload => workload
  | .error text =>
      .returned (.failed ⟨none, "payload_invalid", .null, .string text⟩ none)
  | .panicked => .panicked

/-! ## The state of the loop -/

inductive TaskState where
  | running | returned | panicked
deriving DecidableEq

/-- A task of the `JoinSet`; its number is that of the delivery. -/
structure Task where
  number : ℕ
  runId : Uuid
  config : Option Value
  state : TaskState

/-- Where the loop stands: at its head, settling a delivery, publishing the
Started of a claimed trigger, or acking the trigger whose Started was
accepted. -/
inductive Point where
  | head
  | settling (delivery : ℕ) (kind : AckKind)
  | publishing (delivery : ℕ) (trigger : Trigger)
  | accepted (delivery : ℕ) (trigger : Trigger)
  | over

inductive Obs where
  | taken (delivery : ℕ)
  | started (delivery : ℕ) (runId : Uuid)
  | settled (delivery : ℕ) (kind : AckKind)
  | spawned (delivery : ℕ) (runId : Uuid)
  | fact (delivery : ℕ) (fact : RunFact)
  | panicked (delivery : ℕ)
  | joined (delivery : ℕ) (runId : Uuid)
  | dropped (delivery : ℕ)

structure Sys where
  slots : SlotPool
  cancels : CancelSet
  tokens : Uuid → Option ℕ
  /-- The tokens that were cancelled. -/
  fired : Finset ℕ
  runs : List Task
  draining : Bool
  point : Point
  next : ℕ
  log : List Obs

inductive CancelEvent where
  | cancelled (runId : Uuid)
  | cleared (runId : Uuid)
  | reset

inductive Event where
  | shutdown
  | deadline
  /-- A trigger message, with what its payload decodes to. -/
  | message (trigger : Option Trigger)
  | published (accepted : Bool)
  | settled
  | cancel (event : CancelEvent)
  | join (number : ℕ)
  | leave
  | ended (number : ℕ) (workload : TaskEnd)
  | dropped (number : ℕ)

namespace Sys

variable (decode : Value → Decoded)

def init (pool : SlotPool) : Sys :=
  { slots := pool, cancels := ∅, tokens := fun _ => none, fired := ∅, runs := []
    draining := false, point := .head, next := 0, log := [] }

/-- The loop has nothing to wait for. -/
def drained (s : Sys) : Bool := s.draining && s.runs.isEmpty

/-- The loop waits in its `select!`. -/
def selecting (s : Sys) : Bool :=
  match s.point with
  | .head => !s.drained
  | _ => false

/-! ## The claim of a trigger -/

/-- `accept_trigger` up to its first await. -/
def acceptTrigger (s : Sys) (trigger : Option Trigger) : Sys :=
  let s' : Sys := { s with next := s.next + 1, log := s.log ++ [.taken s.next] }
  match trigger with
  | none => { s' with point := .settling s.next .term }
  | some trigger =>
      if s.cancels.isCancelled trigger.runId then
        { s' with point := .settling s.next .ack }
      else
        let (decision, slots) := s.slots.tryClaim trigger.runId
        match decision with
        | .claimed => { s' with slots := slots, point := .publishing s.next trigger }
        | .alreadyInFlight => { s' with point := .settling s.next .ack }
        | .atCapacity => { s' with point := .settling s.next .nak }
        | .draining => { s' with point := .settling s.next .nak }

/-- The Started was accepted, or the trigger goes to another instance. -/
def publishedStarted (s : Sys) (delivery : ℕ) (trigger : Trigger) : Bool → Sys
  | true =>
      { s with
        point := .accepted delivery trigger
        log := s.log ++ [.started delivery trigger.runId] }
  | false =>
      { s with
        slots := s.slots.release trigger.runId
        point := .settling delivery .nak }

def spawn (s : Sys) (delivery : ℕ) (trigger : Trigger) : Sys :=
  { s with
    tokens := Function.update s.tokens trigger.runId (some delivery)
    fired := if s.cancels.isCancelled trigger.runId then insert delivery s.fired
      else s.fired
    runs := s.runs ++ [⟨delivery, trigger.runId, trigger.config, .running⟩]
    point := .head
    log := s.log ++ [.settled delivery .ack, .spawned delivery trigger.runId] }

/-! ## The other branches -/

def onCancel (s : Sys) : CancelEvent → Sys
  | .reset => { s with cancels := CancelSet.replaceWithReplay [] }
  | .cancelled runId =>
      { s with
        cancels := s.cancels.applyPut runId
        fired := match s.tokens runId with
          | some token => insert token s.fired
          | none => s.fired }
  | .cleared runId => { s with cancels := s.cancels.applyDelete runId }

def taskOf (s : Sys) (number : ℕ) : Option Task :=
  s.runs.find? fun t => t.number == number

def removeTask (s : Sys) (number : ℕ) : List Task :=
  s.runs.filter fun t => t.number != number

/-- `join_next`: only a task that returned gives its run id back. -/
def joinNext (s : Sys) (task : Task) : Option Sys :=
  match task.state with
  | .running => none
  | .returned =>
      some { s with
        slots := s.slots.release task.runId
        tokens := Function.update s.tokens task.runId none
        runs := s.removeTask task.number
        log := s.log ++ [.joined task.number task.runId] }
  | .panicked =>
      some { s with
        runs := s.removeTask task.number
        log := s.log ++ [.joined task.number task.runId] }

def setState (s : Sys) (number : ℕ) (state : TaskState) : List Task :=
  s.runs.map fun t => if t.number = number then { t with state := state } else t

def taskEnded (s : Sys) (task : Task) : TaskEnd → Sys
  | .returned outcome =>
      { s with
        runs := s.setState task.number .returned
        log := s.log ++ [.fact task.number (factOf task.runId outcome)] }
  | .panicked =>
      { s with
        runs := s.setState task.number .panicked
        log := s.log ++ [.panicked task.number] }

/-! ## The machine -/

def step (s : Sys) : Event → Option Sys
  | .shutdown =>
      if s.selecting && !s.draining then
        some { s with draining := true, slots := s.slots.beginDrain }
      else none
  | .deadline =>
      if s.selecting && s.draining then some { s with point := .over } else none
  | .message trigger =>
      if s.selecting && !s.draining && s.slots.hasFreeSlot then
        some (s.acceptTrigger trigger)
      else none
  | .published accepted =>
      match s.point with
      | .publishing delivery trigger =>
          some (s.publishedStarted delivery trigger accepted)
      | _ => none
  | .settled =>
      match s.point with
      | .settling delivery kind =>
          some { s with point := .head, log := s.log ++ [.settled delivery kind] }
      | .accepted delivery trigger => some (s.spawn delivery trigger)
      | _ => none
  | .cancel event => if s.selecting then some (s.onCancel event) else none
  | .join number =>
      if s.selecting then (s.taskOf number).bind s.joinNext else none
  | .leave =>
      match s.point with
      | .head => if s.drained then some { s with point := .over } else none
      | _ => none
  | .ended number workload =>
      (s.taskOf number).bind fun task =>
        if task.state = .running then
          some (s.taskEnded task (executeRun decode task.config workload))
        else none
  | .dropped number =>
      -- an aborted task is dropped at its next await
      match s.point with
      | .over =>
          (s.taskOf number).bind fun task =>
            if task.state = .running then
              some { s with
                runs := s.removeTask number, log := s.log ++ [.dropped number] }
            else none
      | _ => none

def machine (pool : SlotPool) : Machine Sys Event := ⟨init pool, step decode⟩

/-- The run task ends by a panic. -/
def panics (s : Sys) : Event → Bool
  | .ended number workload =>
      match s.taskOf number with
      | some task =>
          match executeRun decode task.config workload with
          | .panicked => true
          | .returned _ => false
      | none => false
  | _ => false

end Sys

end RunnerKit.Kit
