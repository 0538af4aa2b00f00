import RunnerKit.Queue.HandOvers
import RunnerKit.Toolkit.Finish

/-!
# A Run over its delivery queue

`run/mod.rs`, `run/settle.rs`, `run/finish.rs` and `run/closing.rs`, over the
delivery queue with its history. The Run opens its queue with the Started,
executes its body, settles, hands over what its ending asks for and leaves the
awaits to its closing. The queue task, the nodes with their facts, markers and
mails, and the drop of the Run are the environment.

A hand-over is a call of the Run, so the Run goes on when the call has
returned. Settling is one step: its waits decide when the Run goes on and not
how it ends.
-/

namespace RunnerKit.Toolkit.RunEnd

open RunnerKit.Jobs RunnerKit.Book RunnerKit.Queue RunnerKit.Lib

/-! ## The kinds of write that a Run hands over itself -/

def isTerminal : Write → Bool
  | .fact (.completed _) _ => true
  | .fact (.failed _ _) _ => true
  | _ => false

def isCompleted : Write → Bool
  | .fact (.completed _) _ => true
  | _ => false

def isFailed : Write → Bool
  | .fact (.failed _ _) _ => true
  | _ => false

def isAnswer : Write → Bool
  | .answer _ => true
  | _ => false

def isSavedState : Write → Bool
  | .savedState _ => true
  | _ => false

/-- A write of the nodes of the Run: no Started, answer, saved state or
terminal fact. -/
def ofNodes (write : Write) : Bool :=
  !write.isStarted && !isAnswer write && !isSavedState write && !isTerminal write

/-! ## Where a Run stands -/

inductive Place (σ : Type) where
  | created
  | opening
  | unopened
  | executing
  | settling (ending : Ending σ)
  /-- The answer, the saved state and the completed fact, in this order. -/
  | handing (answer : Option Content) (saved : Option Value)
  | failing (failed : Failed)
  | awaitAnswer
  | awaitSaved (answer : Option WriteResult)
  | awaitCompleted (answer saved : Option WriteResult)
  | awaitFailed
  | closing
  | draining (drain : ℕ)
  | over
  | aborted

structure Sys (σ : Type) where
  queue : Queue.Sys
  notes : List Note
  place : Place σ
  /-- The ending of the body. -/
  ending : Option (Ending σ)
  answer : Option Chan
  saved : Option Chan
  completed : Option Chan
  failed : Option Chan

inductive Event (σ : Type) where
  | queue (event : Queue.Event)
  | opened (startId : Uuid) (now : ℕ)
  | started
  | bodyEnded (ending : Ending σ)
  | settled (agents : List BookedAgent)
  | handOver (messageId : Uuid) (now : ℕ)
  | awaited
  | drain
  | drained
  | abort

/-- The result that a `WriteEnd` gives. -/
def resultOf (log : List Queue.Obs) (chan : Chan) : Option WriteResult :=
  ((results log).find? fun p => p.1 == chan).map Prod.snd

def Obs.returns (d : ℕ) : Queue.Obs → Bool
  | .drainReturned drain _ => drain == d
  | _ => false

namespace Sys

variable {σ : Type} (plan : Plan σ)

def init : Sys σ :=
  { queue := .init, notes := [], place := .created, ending := none
    answer := none, saved := none, completed := none, failed := none }

/-- One step of the queue, noted in its history. -/
def onQueue (s : Sys σ) (event : Queue.Event) : Option (Sys σ) :=
  (Queue.Sys.notedStep (s.queue, s.notes) event).map fun p =>
    { s with queue := p.1, notes := p.2 }

/-- The last hand-over of the Run has returned. -/
def returned (s : Sys σ) : Bool :=
  [some 0, s.answer, s.saved, s.completed, s.failed].all fun chan =>
    (chan.bind s.queue.calls).isNone

/-- The queue is dropped with the Run that owns it. -/
def dropped (s : Sys σ) : Bool :=
  match s.place with
  | .unopened | .over | .aborted => true
  | _ => false

/-- What the environment may do to the queue. The Run alone hands over the
Started and the writes of its end. -/
def allowed (s : Sys σ) : Queue.Event → Bool
  | .enqueue write _ => ofNodes write
  | .hold write follow _ => ofNodes write && follow.all ofNodes
  | .stopNow | .stopCancel => s.dropped
  | _ => true

/-- The writes of `hand_over`, and the failed fact of the closing. -/
def handOver (s : Sys σ) (messageId : Uuid) (now : ℕ) : Option (Sys σ) :=
  let chan := s.queue.nextChan
  match s.place with
  | .handing (some content) saved =>
      (s.onQueue (.enqueue (.answer content) now)).map fun t =>
        { t with answer := some chan, place := .handing none saved }
  | .handing none (some value) =>
      (s.onQueue (.enqueue (.savedState value) now)).map fun t =>
        { t with saved := some chan, place := .handing none none }
  | .handing none none =>
      (s.onQueue (.enqueue (.fact (.completed plan.runId) messageId) now)).map
        fun t => { t with completed := some chan, place := .awaitAnswer }
  | .failing failed =>
      (s.onQueue (.enqueue (.fact (.failed plan.runId failed) messageId) now)).map
        fun t => { t with failed := some chan, place := .awaitFailed }
  | _ => none

def afterSettle (s : Sys σ) : Plan.Handing → Sys σ
  | .nothing => { s with place := .closing }
  | .failed failed => { s with place := .failing failed }
  | .completed answer saved => { s with place := .handing answer saved }

/-- `await_end`: a write that was not handed over gives nothing. -/
def awaitEnd (s : Sys σ) (chan : Option Chan) : Option (Option WriteResult) :=
  match chan with
  | none => some none
  | some chan => (resultOf s.queue.log chan).map some

/-- The awaits of the closing, in their order. -/
def awaited (s : Sys σ) : Option (Sys σ) :=
  match s.place with
  | .awaitAnswer =>
      (s.awaitEnd s.answer).map fun answer => { s with place := .awaitSaved answer }
  | .awaitSaved answer =>
      (s.awaitEnd s.saved).map fun saved =>
        { s with place := .awaitCompleted answer saved }
  | .awaitCompleted answer saved =>
      (s.completed.bind (resultOf s.queue.log)).map fun result =>
        match closingFailed plan.mapping answer saved result with
        | some failed => { s with place := .failing failed }
        | none => { s with place := .closing }
  | .awaitFailed =>
      (s.failed.bind (resultOf s.queue.log)).map fun _ => { s with place := .closing }
  | _ => none

/-- The future that stands at this place is dropped. -/
def abortable (s : Sys σ) : Bool :=
  match s.place with
  | .created | .unopened | .over | .aborted => false
  | _ => true

/-- A step that the Run takes itself, after its last hand-over returned. -/
def ownStep (s : Sys σ) : Event σ → Option (Sys σ)
  | .queue _ => none
  | .opened startId now =>
      match s.place with
      | .created =>
          (s.onQueue (.enqueue (.started plan.runId startId) now)).map fun t =>
            { t with place := .opening }
      | _ => none
  | .started =>
      match s.place with
      | .opening =>
          (resultOf s.queue.log 0).map fun result =>
            if result = .ok then { s with place := .executing }
            else { s with place := .unopened }
      | _ => none
  | .bodyEnded ending =>
      match s.place with
      | .executing => some { s with place := .settling ending, ending := some ending }
      | _ => none
  | .settled agents =>
      match s.place with
      | .settling ending => some (s.afterSettle (plan.handing agents ending))
      | _ => none
  | .handOver messageId now => s.handOver plan messageId now
  | .awaited => s.awaited plan
  | .drain =>
      match s.place with
      | .closing =>
          (s.onQueue .drain).map fun t =>
            { t with place := .draining s.queue.nextDrain }
      | _ => none
  | .drained =>
      match s.place with
      | .draining d =>
          if s.queue.log.any (Obs.returns d) then some { s with place := .over }
          else none
      | _ => none
  | .abort => if s.abortable then some { s with place := .aborted } else none

def step (s : Sys σ) : Event σ → Option (Sys σ)
  | .queue event =>
      match s.place with
      | .created => none
      | _ => if s.allowed event then s.onQueue event else none
  | event => if s.returned then s.ownStep plan event else none

def machine : Machine (Sys σ) (Event σ) := ⟨init, step plan⟩

end Sys

end RunnerKit.Toolkit.RunEnd
