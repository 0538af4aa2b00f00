import RunnerKit.Jobs.Inbox
import RunnerKit.Lib.Machine

/-!
# The end store of a book and its waits

`endwait/store.rs`, `endwait/mod.rs` and the arrivals of `book/mod.rs`. The
store is shared by the callers of the book and by the polls of the waits, which
hold it weakly. Its lock sections, the signals behind them and the parts of a
poll are steps of their own, so a run is one interleaving of all threads.

A signal adds one to the number of the watch channel. A caller of the book
keeps the book alive, so the book is dropped only when no signal is due. The
counters have no upper bound here.
-/

namespace RunnerKit.EndWait

open RunnerKit.Jobs RunnerKit.Lib

/-! ## What the lock guards -/

abbrev Outcome := Except Error SyncEnd

structure Held where
  outcomes : Uuid → Option Outcome
  kept : Option Error
  last : Option Error
  generation : ℕ

namespace Held

def new : Held :=
  { outcomes := fun _ => none, kept := none, last := none, generation := 0 }

/-- The section of `record`; it tells whether the outcome was stored. -/
def record (held : Held) (child : Uuid) (outcome : Outcome) : Bool × Held :=
  match held.outcomes child with
  | some _ => (false, held)
  | none =>
      (true,
        { held with outcomes := Function.update held.outcomes child (some outcome) })

def infraMissing (held : Held) (error : Error) : Held :=
  { held with
    generation := held.generation + 1
    kept := some error
    last := some error }

def reopened (held : Held) : Held := { held with kept := none }

def feedEnded : Error := .infraMissing "the arrival feed ended"

def decide (held : Held) (child : Uuid) (opened : ℕ) : Option Outcome :=
  match held.outcomes child with
  | some outcome => some outcome
  | none =>
      match held.kept with
      | some error => some (.error error)
      | none =>
          if held.generation ≠ opened then some (.error (held.last.getD feedEnded))
          else none

end Held

/-! ## Waits -/

inductive Place where
  | opening | opened
  | unpolled | top | upgraded
  | decided (decision : Option Outcome)
  | checking | parked
  /-- The wait that was opened on a dropped store. -/
  | ready
  | done

structure Wait where
  child : Uuid
  generation : ℕ
  seen : ℕ
  place : Place

/-- The places with a strong reference to the store. -/
def Wait.holds (wait : Wait) : Bool :=
  match wait.place with
  | .opening | .opened | .upgraded | .decided _ => true
  | _ => false

def Wait.moveTo (wait : Wait) (place : Place) : Wait := { wait with place := place }

inductive Obs where
  | recorded (child : Uuid) (outcome : Outcome)
  | failed (error : Error)
  | reopened
  | opened (wait : ℕ)
  | gave (wait : ℕ) (child : Uuid) (outcome : Outcome)
  | dropped

/-- `due` counts the callers between their lock section and their signal. -/
structure Sys where
  held : Held
  version : ℕ
  book : Bool
  due : ℕ
  waits : ℕ → Option Wait
  nextWait : ℕ
  log : List Obs

inductive Event where
  | arrival (event : Arrival)
  | arrivalEnded (error : Error)
  | arrivalOpenAgain
  | signal
  | dropBook
  | watching (child : Uuid)
  | poll (wait : ℕ)
  /-- The next part of an opening or of a poll that is under way. -/
  | step (wait : ℕ)
  | abandon (wait : ℕ)

namespace Sys

def init : Sys :=
  { held := .new, version := 0, book := true, due := 0
    waits := fun _ => none, nextWait := 0, log := [] }

/-! ## The callers of the book -/

def record (s : Sys) (child : Uuid) (outcome : Outcome) : Sys :=
  { s with
    held := (s.held.record child outcome).2
    due := if (s.held.record child outcome).1 then s.due + 1 else s.due
    log := s.log ++ [.recorded child outcome] }

/-- `AgentBook::arrival`, as far as the ends of child jobs go. -/
def arrival (s : Sys) : Arrival → Sys
  | .item _ => s
  | .syncEnd child ended => s.record child (.ok ended)
  | .unreadable (some child) error => s.record child (.error error)
  | .unreadable none _ => s

/-- `AgentBook::arrival_ended`, as far as the ends of child jobs go. -/
def arrivalEnded (s : Sys) (error : Error) : Sys :=
  if error.isUnreadable then s
  else if error.isInfraMissing then
    { s with
      held := s.held.infraMissing error
      due := s.due + 1
      log := s.log ++ [.failed error] }
  else s

def arrivalOpenAgain (s : Sys) : Sys :=
  { s with held := s.held.reopened, log := s.log ++ [.reopened] }

def signal (s : Sys) : Sys :=
  { s with due := s.due - 1, version := s.version + 1 }

/-! ## The waits -/

def setWait (s : Sys) (w : ℕ) (wait : Wait) : Sys :=
  { s with waits := Function.update s.waits w (some wait) }

/-- Someone has a strong reference to the store. -/
def alive (s : Sys) : Bool :=
  s.book || (List.range s.nextWait).any fun w => (s.waits w).any Wait.holds

/-- A strong reference was given up; with the last one the store is dropped. -/
def released (s : Sys) : Sys :=
  if s.alive then s else { s with log := s.log ++ [.dropped] }

def dropBook (s : Sys) : Sys := { s with book := false }.released

/-- `watching_weak`, up to the section of `open`. -/
def watching (s : Sys) (child : Uuid) : Sys :=
  let place : Place := if s.alive then .opening else .ready
  { s with
    waits := Function.update s.waits s.nextWait (some ⟨child, 0, 0, place⟩)
    nextWait := s.nextWait + 1 }

/-- The section of `open`: the generation and a new receiver. -/
def openSection (s : Sys) (w : ℕ) (wait : Wait) : Sys :=
  { s.setWait w ⟨wait.child, s.held.generation, s.version, .opened⟩ with
    log := s.log ++ [.opened w] }

/-- The wait ends with an outcome. -/
def give (s : Sys) (w : ℕ) (wait : Wait) (outcome : Outcome) : Sys :=
  { s.setWait w (wait.moveTo .done) with
    log := s.log ++ [.gave w wait.child outcome] }

def upgrade (s : Sys) (w : ℕ) (wait : Wait) : Sys :=
  if s.alive then s.setWait w (wait.moveTo .upgraded)
  else s.give w wait (.error .bookDropped)

/-- `decide`, and what the poll will give if it gives something. -/
def decideSection (s : Sys) (w : ℕ) (wait : Wait) : Sys :=
  let decision := s.held.decide wait.child wait.generation
  { s.setWait w (wait.moveTo (.decided decision)) with
    log := match decision with
      | some outcome => s.log ++ [.gave w wait.child outcome]
      | none => s.log }

/-- The strong reference is dropped; the poll ends or goes on to `changed`. -/
def leave (s : Sys) (w : ℕ) (wait : Wait) : Option Outcome → Sys
  | some _ => (s.setWait w (wait.moveTo .done)).released
  | none => (s.setWait w (wait.moveTo .checking)).released

/-- `changed` of the watch channel: a value that was not seen comes before the
end of the channel. -/
def check (s : Sys) (w : ℕ) (wait : Wait) : Sys :=
  if wait.seen ≠ s.version then
    s.setWait w { wait with seen := s.version, place := .top }
  else if s.alive then s.setWait w (wait.moveTo .parked)
  else s.give w wait (.error .bookDropped)

def poll (s : Sys) (w : ℕ) (wait : Wait) : Option Sys :=
  match wait.place with
  | .unpolled => some (s.setWait w (wait.moveTo .top))
  | .parked => some (s.setWait w (wait.moveTo .checking))
  | .ready => some (s.give w wait (.error .bookDropped))
  | _ => none

def waitStep (s : Sys) (w : ℕ) (wait : Wait) : Option Sys :=
  match wait.place with
  | .opening => some (s.openSection w wait)
  | .opened => some (s.setWait w (wait.moveTo .unpolled)).released
  | .top => some (s.upgrade w wait)
  | .upgraded => some (s.decideSection w wait)
  | .decided decision => some (s.leave w wait decision)
  | .checking => some (s.check w wait)
  | _ => none

/-- A future is dropped between two polls. -/
def abandon (s : Sys) (w : ℕ) (wait : Wait) : Option Sys :=
  match wait.place with
  | .unpolled | .parked | .ready | .done =>
      some { s with waits := Function.update s.waits w none }
  | _ => none

/-! ## The machine -/

def step (s : Sys) : Event → Option Sys
  | .arrival event => if s.book then some (s.arrival event) else none
  | .arrivalEnded error => if s.book then some (s.arrivalEnded error) else none
  | .arrivalOpenAgain => if s.book then some s.arrivalOpenAgain else none
  | .signal => if s.due = 0 then none else some s.signal
  | .dropBook => if s.book = true ∧ s.due = 0 then some s.dropBook else none
  | .watching child => some (s.watching child)
  | .poll w => (s.waits w).bind (s.poll w)
  | .step w => (s.waits w).bind (s.waitStep w)
  | .abandon w => (s.waits w).bind (s.abandon w)

def machine : Machine Sys Event := ⟨init, step⟩

end Sys

end RunnerKit.EndWait
