import RunnerKit.Jobs.Model
import RunnerKit.Lib.Log
import RunnerKit.Lib.Machine

/-!
# What becomes of a work item

`execute` of `run/mod.rs`, `run/queue.rs`, `settle_known` and the drain checks of
`slot.rs`, and the registry of `shared.rs`, for any number of slots at once: each item
that a slot takes goes its way through registration, the making of the delivery queue,
the wait for its started fact and the body, and each of these is a step of its own. The
drain drops a slot where it waits, and forgets the runs once all slots have ended.

The making of the queue, the end of the started fact and the end of the body are the
environment's choice.
-/

namespace RunnerKit.Toolkit.Dispose

open RunnerKit.Jobs RunnerKit.Lib

/-! ## Items -/

inductive Source where
  | trigger | claim
deriving DecidableEq

/-- How the started fact of a run ends: delivered, refused, removed for another
reason. -/
inductive Started where
  | accepted | refused | failed
deriving DecidableEq

inductive Ending where
  | executed
  | givenBack
  | droppedForDrain
  | duplicate (record : ℕ)
  | leftPending (record : ℕ)
  | alreadyHeld
  | unmade
  | refused
  | failed
deriving DecidableEq

/-- Where an item is. A record is known by the item that registered it. -/
inductive Place where
  | got
  | kept
  | known (record : ℕ)
  | registered
  | unmade
  /-- Given back, if it came by a trigger; the run is still to be forgotten. -/
  | returning
  | starting
  | accepted
  | executing
  | closing
  | refused
  | dismissed
  | failed
  | over (ending : Ending)
  /-- The task that held it was dropped here. -/
  | gone (place : Place)
deriving DecidableEq

structure Item where
  runId : Uuid
  source : Source
  place : Place

/-- What a slot does with an item. -/
inductive Act where
  | registered
  /-- The run was registered by another item; whether its started fact is pending. -/
  | met (record : ℕ) (pending : Bool)
  | gaveBack
  | acked
  | startedEnded (started : Started)
  | executes
deriving DecidableEq

inductive Obs where
  | act (item : ℕ) (runId : Uuid) (act : Act)
  | forgot (runId : Uuid)
deriving DecidableEq

/-! ## Places -/

namespace Place

/-- In a slot. -/
def inSlot : Place → Bool
  | .closing | .over _ | .gone _ => false
  | _ => true

/-- Where a slot waits, and ends when it is dropped. -/
def awaits : Place → Bool
  | .registered | .starting | .executing => true
  | _ => false

/-- The item has registered its run and is in its slot. -/
def holds : Place → Bool
  | .registered | .unmade | .returning | .starting | .accepted | .executing => true
  | .refused | .dismissed | .failed => true
  | _ => false

/-- Where the run is forgotten next, and how the item ends. -/
def forgets : Place → Option Ending
  | .returning => some .unmade
  | .dismissed => some .refused
  | .failed => some .failed
  | .closing => some .executed
  | _ => none

end Place

def Started.place : Started → Place
  | .accepted => .accepted
  | .refused => .refused
  | .failed => .failed

/-- `started_ended` is stored. -/
def Started.ends : Started → Bool
  | .failed => false
  | _ => true

def Source.acks : Source → List Act
  | .trigger => [.acked]
  | .claim => []

def Source.givesBack : Source → List Act
  | .trigger => [.gaveBack]
  | .claim => []

/-! ## The whole -/

structure Sys where
  runs : Uuid → Option ℕ
  startedPending : ℕ → Bool
  items : ℕ → Option Item
  next : ℕ
  draining : Bool
  /-- All slots have ended. -/
  slotsEnded : Bool
  log : List Obs

inductive Event where
  | gives (runId : Uuid) (source : Source)
  | drain
  | checks (item : ℕ)
  | registers (item : ℕ)
  | settles (item : ℕ)
  | queueMade (item : ℕ) (made : Bool)
  | givesBack (item : ℕ)
  | startedEnds (item : ℕ) (started : Started)
  | acks (item : ℕ)
  | bodyEnds (item : ℕ)
  | forgets (item : ℕ)
  | slotDropped (item : ℕ)
  | slotsEnd
  | closingAborted (item : ℕ)
  | drainForgets (runId : Uuid)

/-- The item that an event is about. -/
def Event.item : Event → Option ℕ
  | .checks i | .registers i | .settles i | .queueMade i _ | .givesBack i => some i
  | .startedEnds i _ | .acks i | .bodyEnds i | .forgets i | .slotDropped i => some i
  | .closingAborted i => some i
  | _ => none

namespace Sys

def init : Sys :=
  { runs := fun _ => none, startedPending := fun _ => true, items := fun _ => none, next := 0
    draining := false, slotsEnded := false, log := [] }

/-- The item goes to another place, after these acts. -/
def move (s : Sys) (i : ℕ) (item : Item) (place : Place) (acts : List Act) : Sys :=
  { s with
    items := Function.update s.items i (some { item with place := place })
    log := s.log ++ acts.map (.act i item.runId) }

def forgetRun (s : Sys) (runId : Uuid) : Sys :=
  { s with runs := Function.update s.runs runId none, log := s.log ++ [.forgot runId] }

/-- `given_back_when_draining`, and `dropped_for_drain` of a claim. -/
def check (s : Sys) (i : ℕ) (item : Item) : Sys :=
  if s.draining then
    match item.source with
    | .trigger => s.move i item (.over .givenBack) [.gaveBack]
    | .claim => s.move i item (.over .droppedForDrain) []
  else s.move i item .kept []

/-- `register_run`. -/
def register (s : Sys) (i : ℕ) (item : Item) : Sys :=
  match s.runs item.runId with
  | some record => s.move i item (.known record) []
  | none =>
      { s.move i item .registered [.registered] with
        runs := Function.update s.runs item.runId (some i) }

/-- `settle_known`. -/
def settle (s : Sys) (i : ℕ) (item : Item) (record : ℕ) : Sys :=
  match item.source with
  | .trigger =>
      if s.startedPending record then
        s.move i item (.over (.leftPending record)) [.met record true]
      else s.move i item (.over (.duplicate record)) [.met record false, .acked]
  | .claim => s.move i item (.over .alreadyHeld) []

/-- The end of the started fact, with `started_ended`. -/
def startedEnd (s : Sys) (i : ℕ) (item : Item) (started : Started) : Sys :=
  { s.move i item started.place [.startedEnded started] with
    startedPending :=
      if started.ends then Function.update s.startedPending i false else s.startedPending }

def itemStep (s : Sys) (i : ℕ) (item : Item) : Place → Event → Option Sys
  | .got, .checks _ => some (s.check i item)
  | .kept, .registers _ => some (s.register i item)
  | .known record, .settles _ => some (s.settle i item record)
  | .registered, .queueMade _ made =>
      some (s.move i item (if made then .starting else .unmade) [])
  | .unmade, .givesBack _ => some (s.move i item .returning item.source.givesBack)
  | .starting, .startedEnds _ started => some (s.startedEnd i item started)
  | .accepted, .acks _ => some (s.move i item .executing (item.source.acks ++ [.executes]))
  | .refused, .acks _ => some (s.move i item .dismissed item.source.acks)
  | .executing, .bodyEnds _ => some (s.move i item .closing [])
  | place, .forgets _ =>
      place.forgets.map fun ending => (s.move i item (.over ending) []).forgetRun item.runId
  | place, .slotDropped _ =>
      if place.awaits then some (s.move i item (.gone place) []) else none
  | .closing, .closingAborted _ =>
      if s.slotsEnded then some (s.move i item (.gone .closing) []) else none
  | _, _ => none

/-- No item is in a slot. -/
def allEnded (s : Sys) : Bool :=
  (List.range s.next).all fun i => (s.items i).all fun item => !item.place.inSlot

def step (s : Sys) : Event → Option Sys
  | .gives runId source =>
      if s.slotsEnded then none
      else
        some { s with
          items := Function.update s.items s.next (some ⟨runId, source, .got⟩)
          next := s.next + 1 }
  | .drain => some { s with draining := true }
  | .slotsEnd => if s.allEnded then some { s with slotsEnded := true } else none
  | .drainForgets runId => if s.slotsEnded then some (s.forgetRun runId) else none
  | event =>
      event.item.bind fun i =>
        (s.items i).bind fun item => s.itemStep i item item.place event

def machine : Machine Sys Event := ⟨init, step⟩

end Sys

/-! ## What the log says -/

def actOf (i : ℕ) : Obs → Option Act
  | .act item _ act => if item = i then some act else none
  | .forgot _ => none

/-- What was done with the item. -/
def acts (i : ℕ) (log : List Obs) : List Act := log.filterMap (actOf i)

def isForgot (runId : Uuid) : Obs → Bool
  | .forgot run => decide (run = runId)
  | _ => false

/-- The started fact of the run that the record stands for was delivered or refused. -/
def StartedOver (record : ℕ) (runId : Uuid) (log : List Obs) : Prop :=
  ∃ started, started.ends = true ∧ .act record runId (.startedEnded started) ∈ log

/-- A trigger for a registered run finds its started fact as it is. -/
def MetRight (pre : List Obs) (obs : Obs) : Prop :=
  ∀ i runId record pending, obs = .act i runId (.met record pending) →
    (pending = false ↔ StartedOver record runId pre)

/-- A trigger is acknowledged behind the end of the started fact of its run. -/
def AckedAfter (pre : List Obs) (obs : Obs) : Prop :=
  ∀ i runId, obs = .act i runId .acked → ∃ record, StartedOver record runId pre

/-- No other item of the run is executed until the run is forgotten. -/
def ExecutesAlone (pre : List Obs) (obs : Obs) : Prop :=
  ∀ i runId, obs = .act i runId .executes → ∀ j,
    .act j runId .executes ∉ since (isForgot runId) pre

/-- The ways a trigger is disposed of. -/
inductive Disposed : List Act → Prop where
  | executed : Disposed [.registered, .startedEnded .accepted, .acked, .executes]
  | givenBack : Disposed [.gaveBack]
  | unmade : Disposed [.registered, .gaveBack]
  | duplicate (record : ℕ) : Disposed [.met record false, .acked]
  | leftPending (record : ℕ) : Disposed [.met record true]
  | refused : Disposed [.registered, .startedEnded .refused, .acked]
  | failed : Disposed [.registered, .startedEnded .failed]

end RunnerKit.Toolkit.Dispose
