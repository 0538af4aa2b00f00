import RunnerKit.Lib.Machine
import RunnerKit.Queue.Write

/-!
# The drain and the ends of the runs

`drain.rs`, `closings.rs`, `run/closing.rs` and the end of a run in
`run/mod.rs`, with the parts of `record.rs` and `shared.rs` they use. A run is
executed in a slot; its closing is a task of its own. The drain waits for both,
and at the timeout it aborts what is left and makes the report. Every lock
section of every party is a step.

A task that is aborted ends at a point where it waits, which is then the
environment's choice; one that has none ahead ends by itself. The two awaits of
many handles, one after the other, let the drain go on when all of them have
ended. A `HashMap` gives its entries in any order.
-/

namespace RunnerKit.Toolkit.Drain

open RunnerKit.Jobs RunnerKit.Queue RunnerKit.Lib

/-! ## The record of a run -/

inductive Phase where
  | live | executorReturned | aborted | dropped
deriving DecidableEq

structure InstanceInfo where
  id : Uuid
  hooked : Bool

/-- Of the delivery queue only the names of its waiting writes are kept here;
`leftUnsent` is what waited in it as it was dropped. -/
structure RunRecord where
  runId : Uuid
  jobId : Uuid
  phase : Phase
  cancelled : Bool
  executorRunning : Bool
  instances : List InstanceInfo
  runningHooks : List Uuid
  queue : Option (List WriteName)
  leftUnsent : Option (List WriteName)

namespace RunRecord

def new (runId jobId : Uuid) : RunRecord :=
  { runId := runId, jobId := jobId, phase := .live, cancelled := false
    executorRunning := false, instances := [], runningHooks := []
    queue := none, leftUnsent := none }

/-- The record gives up its queue; no one else holds it by then. -/
def takeQueue (record : RunRecord) : RunRecord :=
  { record with queue := none, leftUnsent := record.queue.or record.leftUnsent }

/-- `hooks::call_all`: the hook is called for every instance it was not called
for yet. -/
def callAll (record : RunRecord) : RunRecord :=
  { record with
    instances := record.instances.map fun info => { info with hooked := true }
    runningHooks := record.runningHooks ++
      (record.instances.filter fun info => !info.hooked).map InstanceInfo.id }

end RunRecord

structure DrainedRun where
  jobId : Uuid
  runId : Uuid
  aborted : Bool
  executorRunning : Bool
  instancesWithoutReturn : List Uuid
  unsent : List WriteName

def drainedRun (record : RunRecord) (aborted : Bool) : DrainedRun :=
  { jobId := record.jobId, runId := record.runId, aborted := aborted
    executorRunning := aborted && record.executorRunning
    instancesWithoutReturn := if aborted then record.runningHooks else []
    unsent := record.queue.getD [] }

/-! ## The parties -/

/-- Where the execution of a run stands. A run is `abandoned` when its slot was
dropped or panicked; it is `refusing` and then `unopened` when its delivery queue
could not be opened. The closing is `aborted` when its task was dropped. -/
inductive Place where
  | unknown | executing | abandoned | refusing | unopened
  | spawned | closing | closed | queueTaken | removed | forgotten
  | aborted
deriving DecidableEq

/-- The run has reached its closing. -/
def Place.reached : Place → Bool
  | .unknown | .executing | .abandoned | .refusing | .unopened => false
  | _ => true

/-- The body of the closing has ended. -/
def Place.bodyEnded : Place → Bool
  | .closed | .queueTaken | .removed | .forgotten => true
  | _ => false

/-- A slot between two awaits of the run it executes. -/
inductive Slot where
  | idle | ended
  | executing (run : ℕ)
  | forgetting (run : ℕ)
  | spawned (run : ℕ)
  | added (run : ℕ)
deriving DecidableEq

/-- What is next of `abort_run`. -/
inductive AbortStage where
  | phase | cancel | hooks | look
  | instances (run : DrainedRun)
  | queue (run : DrainedRun)
  | forget (run : DrainedRun)

/-- What is next for a run whose closing was taken. -/
inductive TakenStage where
  | look
  | queue (run : DrainedRun)
  | forget (run : DrainedRun)

inductive Stage where
  | running | waiting | slotsAborted | closingsTaken
  | aborting (rest : List ℕ)
  | abortingRun (run : ℕ) (stage : AbortStage) (rest : List ℕ)
  | reporting (rest : List ℕ)
  | reportingRun (run : ℕ) (stage : TakenStage) (rest : List ℕ)
  | done

/-- `taken` are the closings that the drain took, and `report` names each run
with its entry. -/
structure Sys where
  records : ℕ → Option RunRecord
  places : ℕ → Place
  nextRun : ℕ
  registry : List ℕ
  closings : List ℕ
  slots : ℕ → Slot
  numSlots : ℕ
  stage : Stage
  taken : List ℕ
  report : List (ℕ × DrainedRun)

inductive RunEvent where
  | opened
  | executorReturned
  | executorRunning (running : Bool)
  | instanceCreated (id : Uuid)
  | hookReturned (id : Uuid)
  | handedOver (name : WriteName)
  | writeEnded (name : WriteName)
  | cancelled

/-- What the code of the author, the queue task and the feeds do to a record. -/
def RunRecord.after (record : RunRecord) : RunEvent → RunRecord
  | .opened => { record with queue := some [] }
  | .executorReturned => { record.callAll with phase := .executorReturned }
  | .executorRunning running => { record with executorRunning := running }
  | .instanceCreated id =>
      { record with instances := ⟨id, false⟩ :: record.instances }
  | .hookReturned id =>
      { record with runningHooks := record.runningHooks.filter (· ≠ id) }
  | .handedOver name =>
      { record with queue := record.queue.map fun waiting => waiting ++ [name] }
  | .writeEnded name =>
      { record with queue := record.queue.map fun waiting => waiting.erase name }
  | .cancelled => { record with cancelled := true }

/-- What only the execution of a run does. -/
def RunEvent.ofExecution : RunEvent → Bool
  | .opened | .executorReturned | .executorRunning _ => true
  | _ => false

inductive Event where
  | take (slot : ℕ) (runId jobId : Uuid)
  | unopened (slot : ℕ)
  | ended (slot : ℕ)
  | slot (slot : ℕ)
  | slotPanics (slot : ℕ)
  | slotDropped (slot : ℕ)
  | slotReturns (slot : ℕ)
  | run (run : ℕ) (event : RunEvent)
  | bodyEnds (run : ℕ)
  | closing (run : ℕ)
  | closingDropped (run : ℕ)
  | shutdown
  | allEnded
  | timeout
  | takeClosings (order : List ℕ)
  | readRuns (order : List ℕ)
  | drain

namespace Sys

def init (numSlots : ℕ) : Sys :=
  { records := fun _ => none, places := fun _ => .unknown, nextRun := 0
    registry := [], closings := [], slots := fun _ => .idle
    numSlots := numSlots, stage := .running, taken := [], report := [] }

def runId (s : Sys) (r : ℕ) : Option Uuid := (s.records r).map RunRecord.runId

def setPlace (s : Sys) (r : ℕ) (place : Place) : Sys :=
  { s with places := Function.update s.places r place }

def setSlot (s : Sys) (i : ℕ) (slot : Slot) : Sys :=
  { s with slots := Function.update s.slots i slot }

def setRecord (s : Sys) (r : ℕ) (record : RunRecord) : Sys :=
  { s with records := Function.update s.records r (some record) }

def modify (s : Sys) (r : ℕ) (f : RunRecord → RunRecord) : Sys :=
  { s with records := Function.update s.records r ((s.records r).map f) }

/-! ## The registries -/

/-- `register_run`. -/
def registerRun (s : Sys) (i : ℕ) (runId jobId : Uuid) : Sys :=
  if ∃ r ∈ s.registry, s.runId r = some runId then s
  else
    { ((s.setRecord s.nextRun (.new runId jobId)).setPlace s.nextRun
        .executing).setSlot i (.executing s.nextRun) with
      nextRun := s.nextRun + 1
      registry := s.nextRun :: s.registry }

/-- The entries of a map by run id, without that of the run `r`. -/
def without (s : Sys) (r : ℕ) (entries : List ℕ) : List ℕ :=
  entries.filter fun r' => decide (s.runId r' ≠ s.runId r)

def forgetRun (s : Sys) (r : ℕ) : Sys :=
  { s with registry := s.without r s.registry }

def addClosing (s : Sys) (r : ℕ) : Sys :=
  { s with closings := r :: s.without r s.closings }

def removeClosing (s : Sys) (r : ℕ) : Sys :=
  { s with closings := s.without r s.closings }

/-! ## A slot -/

/-- The delivery queue of the run could not be opened. -/
def refuse (s : Sys) (i r : ℕ) : Sys :=
  ((s.modify r RunRecord.takeQueue).setPlace r .refusing).setSlot i (.forgetting r)

/-- The end of `execute`: the instances of the run are removed and its closing
is spawned. -/
def spawnClosing (s : Sys) (i r : ℕ) : Sys :=
  ((s.modify r fun record => { record with phase := .dropped }).setPlace r
    .spawned).setSlot i (.spawned r)

/-- The parts of a run in its slot that do not wait. -/
def slotStep (s : Sys) (i : ℕ) : Option Sys :=
  match s.slots i with
  | .forgetting r => some (((s.forgetRun r).setPlace r .unopened).setSlot i .idle)
  | .spawned r => some ((s.addClosing r).setSlot i (.added r))
  | .added r => some ((s.setPlace r .closing).setSlot i .idle)
  | _ => none

/-- The execution of a run ends without a closing. -/
def abandon (s : Sys) (i : ℕ) (slot : Slot) : Sys :=
  match s.slots i with
  | .executing r => (s.setPlace r .abandoned).setSlot i slot
  | _ => s.setSlot i slot

/-- The slots were aborted. -/
def slotsStopped (s : Sys) : Bool :=
  match s.stage with
  | .running | .waiting => false
  | _ => true

/-! ## A run and its closing -/

def closingStep (s : Sys) (r : ℕ) : Option Sys :=
  match s.places r with
  | .closed => some ((s.modify r RunRecord.takeQueue).setPlace r .queueTaken)
  | .queueTaken => some ((s.removeClosing r).setPlace r .removed)
  | .removed => some ((s.forgetRun r).setPlace r .forgotten)
  | _ => none

/-! ## The drain -/

def slotsEnded (s : Sys) : Bool :=
  (List.range s.numSlots).all fun i => decide (s.slots i = .ended)

def abortStep (s : Sys) (r : ℕ) (rest : List ℕ) : AbortStage → Option Sys
  | .phase =>
      some { s.modify r fun record => { record with phase := .aborted } with
        stage := .abortingRun r .cancel rest }
  | .cancel =>
      some { s.modify r fun record => { record with cancelled := true } with
        stage := .abortingRun r .hooks rest }
  | .hooks =>
      some { s.modify r RunRecord.callAll with stage := .abortingRun r .look rest }
  | .look => (s.records r).map fun record =>
      { s with stage := .abortingRun r (.instances (drainedRun record true)) rest }
  | .instances run =>
      some { s.modify r fun record => { record with phase := .aborted } with
        stage := .abortingRun r (.queue run) rest }
  | .queue run =>
      some { s.modify r RunRecord.takeQueue with
        stage := .abortingRun r (.forget run) rest }
  | .forget run =>
      some { s.forgetRun r with
        stage := .aborting rest, report := s.report ++ [(r, run)] }

def takenStep (s : Sys) (r : ℕ) (rest : List ℕ) : TakenStage → Option Sys
  | .look => (s.records r).map fun record =>
      { s with stage := .reportingRun r (.queue (drainedRun record false)) rest }
  | .queue run =>
      some { s.modify r RunRecord.takeQueue with
        stage := .reportingRun r (.forget run) rest }
  | .forget run =>
      some { s.forgetRun r with
        stage := .reporting rest
        report := if run.unsent.isEmpty then s.report else s.report ++ [(r, run)] }

/-- The ids of the closings that were taken hold the id of this run. -/
def closingTaken (s : Sys) (r : ℕ) : Bool :=
  s.taken.any fun t => decide (s.runId t = s.runId r)

def drainStep (s : Sys) : Option Sys :=
  match s.stage with
  | .aborting [] => some { s with stage := .reporting s.taken }
  | .aborting (r :: rest) =>
      some { s with stage :=
        if s.closingTaken r then .aborting rest else .abortingRun r .phase rest }
  | .abortingRun r stage rest => s.abortStep r rest stage
  | .reporting [] => some { s with stage := .done }
  | .reporting (r :: rest) => some { s with stage := .reportingRun r .look rest }
  | .reportingRun r stage rest => s.takenStep r rest stage
  | _ => none

/-! ## The machine -/

def runStep (s : Sys) (r : ℕ) (event : RunEvent) : Option Sys :=
  if event.ofExecution && decide (s.places r ≠ .executing) then none
  else (s.records r).map fun record => s.setRecord r (record.after event)

def step (s : Sys) : Event → Option Sys
  | .take i runId jobId =>
      if s.slots i = .idle ∧ i < s.numSlots then some (s.registerRun i runId jobId)
      else none
  | .unopened i =>
      match s.slots i with
      | .executing r => some (s.refuse i r)
      | _ => none
  | .ended i =>
      match s.slots i with
      | .executing r => some (s.spawnClosing i r)
      | _ => none
  | .slot i => s.slotStep i
  | .slotPanics i =>
      match s.slots i with
      | .executing _ => some (s.abandon i .idle)
      | _ => none
  | .slotDropped i =>
      match s.slotsStopped, s.slots i with
      | true, .idle | true, .executing _ => some (s.abandon i .ended)
      | _, _ => none
  | .slotReturns i =>
      match s.stage, s.slots i with
      | .running, _ => none
      | _, .idle => some (s.setSlot i .ended)
      | _, _ => none
  | .run r event => s.runStep r event
  | .bodyEnds r =>
      if s.places r = .closing then some (s.setPlace r .closed) else none
  | .closing r => s.closingStep r
  | .closingDropped r =>
      if r ∈ s.taken ∧ (s.places r = .spawned ∨ s.places r = .closing) then
        some (s.setPlace r .aborted)
      else none
  | .shutdown =>
      match s.stage with
      | .running => some { s with stage := .waiting }
      | _ => none
  | .allEnded =>
      match s.stage with
      | .waiting =>
          if s.slotsEnded ∧ s.closings = [] then some { s with stage := .done }
          else none
      | _ => none
  | .timeout =>
      match s.stage with
      | .waiting => some { s with stage := .slotsAborted }
      | _ => none
  | .takeClosings order =>
      match s.stage with
      | .slotsAborted =>
          if s.slotsEnded ∧ order.Perm s.closings then
            some { s with closings := [], taken := order, stage := .closingsTaken }
          else none
      | _ => none
  | .readRuns order =>
      match s.stage with
      | .closingsTaken =>
          if (∀ t ∈ s.taken, s.places t = .forgotten ∨ s.places t = .aborted) ∧
              order.Perm s.registry then
            some { s with stage := .aborting order }
          else none
      | _ => none
  | .drain => s.drainStep

def machine (numSlots : ℕ) : Machine Sys Event := ⟨init numSlots, step⟩

end Sys

end RunnerKit.Toolkit.Drain
