import RunnerKit.Lib.Machine
import RunnerKit.Queue.Shared

/-!
# The queue task, its callers and the drained calls

`queue/task.rs`, with the callers of `hand_over`, `enqueue` and `hold` and the
calls of `drained`, as one machine. Every lock section, every report, every
answer and every signal is a step of its own, so a run of the machine is one
interleaving of all parties.

The gates of the task are not kept apart from the held markers: `gates` and
`held` have the same sequence numbers, and a gate may end at any time. The
`select!` of the task takes its ready branch by priority; the machine allows
any branch, and so has every run of the task.
-/

namespace RunnerKit.Queue

open RunnerKit.Jobs RunnerKit.Lib

/-! ## The task -/

inductive Phase where
  | created | sending | retrying
deriving DecidableEq

/-- The running future of `attempts`, with its own copy of the write. -/
structure Attempt where
  seq : ℕ
  write : Write
  phase : Phase

/-- The four parts of `complete`, in their order. -/
inductive Stage where
  | reporting | removing | sending | signalling
deriving DecidableEq

structure Completion where
  entry : Entry
  result : WriteResult
  stage : Stage

/-- Where the task stands; a completion under way returns to that place.
`dropping` and `draining` are the drop of the task before and after its lock
section, with the entries it has collected. -/
inductive Point where
  | unpolled | looping | heading | selecting
  | dropping (rest : List Entry)
  | draining (rest : List Entry)
  | gone

structure Task where
  held : List (Entry × Option Write)
  entry : Option Entry
  attempt : Option Attempt
  completing : Option Completion
  point : Point

/-! ## Callers and drained calls -/

/-- What is left of a hand-over that queued nothing: the table of ended keys,
the answer to the `WriteEnd`, the report. -/
inductive CallStage where
  | table | answer | report
deriving DecidableEq

/-- What a hand-over has still to do after its lock section: a queued write
notifies the task, any other ends in the hand-over itself. -/
inductive Call where
  | notify
  | unqueued (write : Write) (removal : Removal) (stage : CallStage)

/-- A drained call: it has subscribed, it is about to look, it is parked in
`changed`, or it is about to take its snapshot. -/
inductive Drain where
  | subscribed (seen : ℕ)
  | checking (upto seen : ℕ)
  | parked (upto seen : ℕ)
  | leaving

/-! ## The log of a run -/

inductive Obs where
  | enqueued (entry : Entry)
  | held (entry : Entry) (follow : Option Write)
  | unqueued (chan : Chan) (write : Write) (removal : Removal)
  | returned (chan : Chan)
  | joined (marker : Entry) (follow : Option Entry)
  | sent (seq : ℕ) (write : Write)
  | retrying (seq : ℕ) (report : QueueReport)
  | reported (entry : Entry) (report : QueueReport)
  | callReported (chan : Chan) (report : QueueReport)
  | processed (seq : ℕ)
  | ended (chan : Chan) (result : WriteResult)
  | dropped
  | drainCalled (drain : ℕ)
  | drainReturned (drain : ℕ) (state : QueueState)

structure Sys where
  st : State
  wake : Bool
  progress : ℕ
  stop : Bool
  task : Task
  calls : Chan → Option Call
  drains : ℕ → Option Drain
  nextChan : Chan
  nextDrain : ℕ
  log : List Obs

inductive TaskEvent where
  | takeNewHeld
  | nextHead
  | send
  | attemptEnded (outcome : Outcome)
  | gateEnded (seq : ℕ) (gate : Gate) (now : ℕ)
  | woken
  | stopSeen
  | drop
  | dropLocked
  | dropNext

inductive DrainEvent where
  | read
  | check
  | wake
  | leave
  | abandon

inductive Event where
  | enqueue (write : Write) (now : ℕ)
  | hold (write : Write) (follow : Option Write) (now : ℕ)
  | call (chan : Chan)
  | stopNow
  | stopCancel
  | complete
  | task (event : TaskEvent)
  | drain
  | drained (drain : ℕ) (event : DrainEvent)

namespace Sys

def init : Sys :=
  { st := .new, wake := false, progress := 0, stop := false
    task := { held := [], entry := none, attempt := none, completing := none
              point := .unpolled }
    calls := fun _ => none, drains := fun _ => none
    nextChan := 0, nextDrain := 0, log := [] }

/-! ## Steps of the callers -/

def setCall (s : Sys) (chan : Chan) (call : Option Call) : Sys :=
  { s with calls := Function.update s.calls chan call }

def observe (s : Sys) (obs : Obs) : Sys := { s with log := s.log ++ [obs] }

/-- The section of `enqueue`. -/
def enqueue (s : Sys) (write : Write) (now : ℕ) : Sys :=
  { s with
    st := s.st.enqueue write s.nextChan now
    calls := Function.update s.calls s.nextChan (some .notify)
    nextChan := s.nextChan + 1
    log := s.log ++ [.enqueued (s.st.nextEntry write s.nextChan)] }

/-- The section of `hold`. -/
def hold (s : Sys) (write : Write) (follow : Option Write) (now : ℕ) : Sys :=
  { s with
    st := s.st.hold write follow s.nextChan now
    calls := Function.update s.calls s.nextChan (some .notify)
    nextChan := s.nextChan + 1
    log := s.log ++ [.held (s.st.nextEntry write s.nextChan) follow] }

/-- The call goes on to `finish_unqueued`. -/
def unqueue (s : Sys) (write : Write) (removal : Removal) : Sys :=
  { s with
    calls := Function.update s.calls s.nextChan
      (some (.unqueued write removal .table))
    nextChan := s.nextChan + 1
    log := s.log ++ [.unqueued s.nextChan write removal] }

def callNotify (s : Sys) (chan : Chan) : Sys :=
  { s with
    wake := true
    calls := Function.update s.calls chan none
    log := s.log ++ [.returned chan] }

def callTable (s : Sys) (chan : Chan) (write : Write) (removal : Removal) :
    Sys :=
  { s with
    st := s.st.recordEnd write (.err removal)
    calls := Function.update s.calls chan
      (some (.unqueued write removal .answer)) }

def callAnswer (s : Sys) (chan : Chan) (write : Write) (removal : Removal) :
    Sys :=
  { s with
    calls := Function.update s.calls chan
      (some (.unqueued write removal .report))
    log := s.log ++ [.ended chan (.err removal)] }

def callReport (s : Sys) (chan : Chan) (write : Write) (removal : Removal) :
    Sys :=
  { s with
    calls := Function.update s.calls chan none
    log := s.log ++
      [.callReported chan (.removed write.name removal), .returned chan] }

def callStep (s : Sys) (chan : Chan) : Option Sys :=
  (s.calls chan).map fun call =>
    match call with
    | .notify => s.callNotify chan
    | .unqueued write removal .table => s.callTable chan write removal
    | .unqueued write removal .answer => s.callAnswer chan write removal
    | .unqueued write removal .report => s.callReport chan write removal

/-! ## Steps of the task -/

def atPoint (s : Sys) (point : Point) : Sys :=
  { s with task := { s.task with point := point } }

def startCompletion (s : Sys) (entry : Entry) (result : WriteResult) : Sys :=
  { s with
    task := { s.task with completing := some ⟨entry, result, .reporting⟩ } }

def takeNewHeld (s : Sys) : Sys :=
  { s with
    st := { s.st with newHeld := [] }
    task := { s.task with
      held := s.task.held ++ s.st.newHeld.map fun h => (h.entry, h.follow)
      point := .heading } }

/-- The head was taken out of the queue and nothing removes it. -/
def takeHead (s : Sys) (head : Entry) (st : State) : Sys :=
  { s with
    st := st
    task := { s.task with
      entry := some head
      attempt := some ⟨head.seq, head.write, .created⟩
      point := .selecting } }

/-- The head is completed as removed, and the loop of `next_head` goes on. -/
def skipHead (s : Sys) (head : Entry) (removal : Removal) (st : State) : Sys :=
  { s with
    st := st
    task := { s.task with
      completing := some ⟨head, .err removal, .reporting⟩ } }

/-- One round of `take_head` and the loop in `next_head`. -/
def nextHead (s : Sys) : Sys :=
  match s.task.entry with
  | some _ => s.atPoint .selecting
  | none =>
      match s.st.popHead with
      | none => s.atPoint .selecting
      | some (head, st) =>
          match blocked head.write s.st.ended with
          | some removal => s.skipHead head removal st
          | none => s.takeHead head st

def setPhase (s : Sys) (attempt : Attempt) (phase : Phase) : Sys :=
  { s with
    task := { s.task with attempt := some { attempt with phase := phase } } }

def send (s : Sys) (attempt : Attempt) : Sys :=
  (s.setPhase attempt .sending).observe (.sent attempt.seq attempt.write)

/-- `record_failure`, and the wait before the next send. -/
def retry (s : Sys) (attempt : Attempt) (error : Error) : Sys :=
  ({ s with
      st := s.st.recordFailure attempt.seq attempt.write.name error }.setPhase
    attempt .retrying).observe
      (.retrying attempt.seq (.retrying attempt.write.name error))

/-- The attempt is over; the entry that was in flight is completed. -/
def attemptDone (s : Sys) (result : WriteResult) : Sys :=
  { s with
    task := { s.task with
      attempt := none
      entry := none
      completing := s.task.entry.map fun entry => ⟨entry, result, .reporting⟩
      point := .looping } }

/-- `held.remove`. -/
def takeHeld (seq : ℕ) : List (Entry × Option Write) →
    Option ((Entry × Option Write) × List (Entry × Option Write))
  | [] => none
  | item :: rest =>
      if item.1.seq = seq then some (item, rest)
      else (takeHeld seq rest).map fun found => (found.1, item :: found.2)

def endHeld (s : Sys) (held : List (Entry × Option Write)) (marker : Entry)
    (removal : Removal) : Sys :=
  { s with
    task := { s.task with
      held := held
      completing := some ⟨marker, .err removal, .reporting⟩
      point := .looping } }

def joinHeld (s : Sys) (held : List (Entry × Option Write)) (marker : Entry)
    (follow : Option Write) (now : ℕ) : Sys :=
  { s with
    st := s.st.join marker follow s.nextChan now
    wake := true
    task := { s.task with held := held, point := .looping }
    nextChan := if follow.isSome then s.nextChan + 1 else s.nextChan
    log := s.log ++
      [.joined marker (follow.map fun w => s.st.nextEntry w s.nextChan)] }

def gateEnded (s : Sys) (held : List (Entry × Option Write)) (marker : Entry)
    (follow : Option Write) (gate : Gate) (now : ℕ) : Sys :=
  match gate with
  | .stored =>
      if s.st.stopped then s.endHeld held marker .leftUnsent
      else s.joinHeld held marker follow now
  | .dropped => s.endHeld held marker .dependsOnRemoved

/-- One part of `complete`. -/
def completeStep (s : Sys) (entry : Entry) (result : WriteResult) :
    Stage → Sys
  | .reporting =>
      { s with
        task := { s.task with completing := some ⟨entry, result, .removing⟩ }
        log := s.log ++
          [.reported entry (QueueReport.ofResult entry.write.name result)] }
  | .removing =>
      { s with
        st := s.st.finish entry result
        task := { s.task with completing := some ⟨entry, result, .sending⟩ }
        log := s.log ++ [.processed entry.seq] }
  | .sending =>
      { s with
        task := { s.task with completing := some ⟨entry, result, .signalling⟩ }
        log := s.log ++ [.ended entry.chan result] }
  | .signalling =>
      { s with
        progress := s.progress + 1
        task := { s.task with completing := none } }

/-- The drop of the task up to its lock section: the gates and the attempt
are dropped, the entries in the task are collected. -/
def dropTask (s : Sys) : Sys :=
  { s with
    task := { s.task with
      held := []
      entry := none
      attempt := none
      point := .dropping (s.task.entry.toList ++ s.task.held.map Prod.fst) } }

def sortBySeq (entries : List Entry) : List Entry :=
  entries.insertionSort fun a b => a.seq ≤ b.seq

def dropLocked (s : Sys) (rest : List Entry) : Sys :=
  { s with
    st := { s.st with stopped := true, fifo := [], newHeld := [] }
    task := { s.task with
      point := .draining (sortBySeq
        (rest ++ s.st.fifo ++ s.st.newHeld.map Held.entry)) }
    log := s.log ++ [.dropped] }

def dropNext (s : Sys) : List Entry → Sys
  | [] => s.atPoint .gone
  | entry :: rest =>
      (s.startCompletion entry (.err .leftUnsent)).atPoint (.draining rest)

/-! ## Steps of the drained calls -/

def setDrain (s : Sys) (d : ℕ) (drain : Option Drain) : Sys :=
  { s with drains := Function.update s.drains d drain }

def drain (s : Sys) : Sys :=
  { s with
    drains := Function.update s.drains s.nextDrain (some (.subscribed s.progress))
    nextDrain := s.nextDrain + 1 }

/-- The call reads its target; the log dates it here. -/
def readTarget (s : Sys) (d seen : ℕ) : Sys :=
  (s.setDrain d (some (.checking s.st.nextSeq seen))).observe (.drainCalled d)

/-! ## The machine -/

/-- A step of the task outside of `complete`. -/
def taskStep (s : Sys) : TaskEvent → Option Sys
  | .takeNewHeld =>
      match s.task.point with
      | .unpolled | .looping => some s.takeNewHeld
      | _ => none
  | .nextHead =>
      match s.task.point with
      | .heading => some s.nextHead
      | _ => none
  | .send =>
      match s.task.point, s.task.attempt with
      | .selecting, some attempt =>
          if attempt.phase = .sending then none else some (s.send attempt)
      | _, _ => none
  | .attemptEnded outcome =>
      match s.task.point, s.task.attempt with
      | .selecting, some attempt =>
          if attempt.phase = .sending then
            match judge attempt.write outcome with
            | .resend error => some (s.retry attempt error)
            | .final result => some (s.attemptDone result)
          else none
      | _, _ => none
  | .gateEnded seq gate now =>
      match s.task.point, takeHeld seq s.task.held with
      | .selecting, some ((marker, follow), held) =>
          some (s.gateEnded held marker follow gate now)
      | _, _ => none
  | .woken =>
      match s.task.point with
      | .selecting =>
          if s.wake then some ({ s with wake := false }.atPoint .looping)
          else none
      | _ => none
  | .stopSeen =>
      match s.task.point with
      | .selecting => if s.stop then some s.dropTask else none
      | _ => none
  | .drop =>
      match s.task.point with
      | .unpolled | .selecting => some s.dropTask
      | _ => none
  | .dropLocked =>
      match s.task.point with
      | .dropping rest => some (s.dropLocked rest)
      | _ => none
  | .dropNext =>
      match s.task.point with
      | .draining rest => some (s.dropNext rest)
      | _ => none

def drainedStep (s : Sys) (d : ℕ) : DrainEvent → Option Sys
  | .read =>
      match s.drains d with
      | some (.subscribed seen) => some (s.readTarget d seen)
      | _ => none
  | .check =>
      match s.drains d with
      | some (.checking upto seen) =>
          some (s.setDrain d (some
            (if s.st.waitsBelow upto then .parked upto seen else .leaving)))
      | _ => none
  | .wake =>
      match s.drains d with
      | some (.parked upto seen) =>
          if s.progress = seen then none
          else some (s.setDrain d (some (.checking upto s.progress)))
      | _ => none
  | .leave =>
      match s.drains d with
      | some .leaving =>
          some ((s.setDrain d none).observe (.drainReturned d s.st.snapshot))
      | _ => none
  | .abandon => some (s.setDrain d none)

def step (s : Sys) : Event → Option Sys
  | .enqueue write now =>
      some (match s.st.unqueuedBy write with
        | some removal => s.unqueue write removal
        | none => s.enqueue write now)
  | .hold write follow now =>
      some (if s.st.stopped then s.unqueue write .leftUnsent
        else s.hold write follow now)
  | .call chan => s.callStep chan
  | .stopNow => some { s with st := { s.st with stopped := true } }
  | .stopCancel => if s.st.stopped then some { s with stop := true } else none
  | .complete =>
      s.task.completing.map fun c => s.completeStep c.entry c.result c.stage
  | .task event =>
      match s.task.completing with
      | none => s.taskStep event
      | some _ => none
  | .drain => some s.drain
  | .drained d event => s.drainedStep d event

def machine : Machine Sys Event := ⟨init, step⟩

end Sys

end RunnerKit.Queue
