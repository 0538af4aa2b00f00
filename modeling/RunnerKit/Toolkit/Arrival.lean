import RunnerKit.EndWait.Decided

/-!
# The keeper of the arrival feed

`keep` and `one_feed` of `run/arrival.rs`, over the end store of the book of
the Run. The keeper is the one caller of `arrival`, `arrival_ended` and
`arrival_open_again`; the waits of the Run go on beside it, between any two of
its steps. A panic of the opener, of the feed or of the sink can come at every
step, but not between a lock section of the store and its signal, where the
source calls nothing that panics.

What the calls of the sink do to the inbox is one part without effect here.
-/

namespace RunnerKit.Toolkit.Arrival

open RunnerKit.Jobs RunnerKit.Lib
open RunnerKit.EndWait (Sys Obs Outcome)

/-! ## The places of the keeper -/

/-- The parts of `arrival_ended`: it was called, the store has kept an
`InfraMissing` and is to signal, the inbox is woken. -/
inductive Telling where
  | called | signalling | waking

/-- Where `keep` stands. `reopening` and `reopened` are before and after
`arrival_open_again`, with the flag still set; `storing` owes the signal of an event. -/
inductive KeepPlace where
  | opening | reopening | reopened | reading | storing
  /-- `one_feed` tells the end; the feed, if there was one, is dropped with the return. -/
  | ending (error : Error) (part : Telling)
  /-- `keep` tells the panic with its text, inside `catch_unwind`. -/
  | panicked (text : String) (part : Telling)
  | resting | gone

/-- A feed is open and its events are taken. -/
def KeepPlace.reads : KeepPlace → Bool
  | .reading | .storing => true
  | _ => false

/-- `arrival_ended` runs. -/
def KeepPlace.tells : KeepPlace → Bool
  | .ending _ _ | .panicked _ _ => true
  | _ => false

/-- What happened, in order. Feeds are numbered by their openings. -/
inductive Note where
  | opened (feed : ℕ)
  | closed (feed : ℕ)
  | ended (error : Error)
  | panicked
  | book (obs : Obs)

structure Keeper where
  store : Sys
  place : KeepPlace
  wasCut : Bool
  feed : Option ℕ
  feeds : ℕ
  log : List Note

inductive KeepEvent where
  | openOk
  | openErr (error : Error)
  | next (arrival : Arrival)
  | nextErr (error : Error)
  /-- The next part of what runs without an await. -/
  | go
  | panic (text : String)
  | beat
  | abort
  /-- A step of the waits, or of the book once the keeper is gone. -/
  | aside (event : EndWait.Event)

/-- The events of the waits. -/
def ofWait : EndWait.Event → Bool
  | .watching _ | .poll _ | .step _ | .abandon _ => true
  | _ => false

namespace Keeper

def init : Keeper :=
  { store := .init, place := .opening, wasCut := false, feed := none, feeds := 0, log := [] }

variable (k : Keeper)

/-- The store goes on, and its observations are noted. -/
def onStore (store : Sys) : Keeper :=
  { k with
    store := store
    log := k.log ++ (store.log.drop k.store.log.length).map .book }

def atPlace (place : KeepPlace) : Keeper := { k with place := place }

/-- The feed is dropped, if one is open. -/
def drop : Keeper :=
  { k with
    feed := none
    log := k.log ++ k.feed.toList.map .closed }

/-- `one_feed` returns after an end. -/
def finish : Keeper := { k.drop with wasCut := true, place := .resting }

/-- The next part of `arrival_ended`, with what follows its last part. -/
def tell (error : Error) (place : Telling → KeepPlace) : Telling → Option Keeper
  | .called =>
      if error.isUnreadable then some k.finish
      else if error.isInfraMissing then
        (k.store.step (.arrivalEnded error)).map fun store =>
          (k.onStore store).atPlace (place .signalling)
      else some (k.atPlace (place .waking))
  | .signalling =>
      (k.store.step .signal).map fun store => (k.onStore store).atPlace (place .waking)
  | .waking => some k.finish

def openOk : Keeper :=
  { k with
    place := if k.wasCut then .reopening else .reading
    feed := some k.feeds
    feeds := k.feeds + 1
    log := k.log ++ [.opened k.feeds] }

/-- The feed or the opener gives an error. -/
def endWith (error : Error) : Keeper :=
  { k with
    place := .ending error .called
    log := k.log ++ [.ended error] }

/-- The part of the keeper that runs without an await. -/
def go : Option Keeper :=
  match k.place with
  | .reopening =>
      (k.store.step .arrivalOpenAgain).map fun store => (k.onStore store).atPlace .reopened
  | .reopened => some { k with wasCut := false, place := .reading }
  | .storing => (k.store.step .signal).map fun store => (k.onStore store).atPlace .reading
  | .ending error part => k.tell error (.ending error) part
  | .panicked text part =>
      k.tell (.invalidInput s!"the arrival task panicked: {text}") (.panicked text) part
  | _ => none

/-- The cycle unwinds: the feed is dropped and the panic will be told. -/
def unwind (text : String) : Keeper :=
  { k.drop with
    place := .panicked text .called
    log := k.drop.log ++ [.panicked] }

def panic (text : String) : Option Keeper :=
  match k.place with
  | .opening | .reopening | .reopened | .reading => some (k.unwind text)
  | .ending _ .called | .ending _ .waking => some (k.unwind text)
  -- the second `catch_unwind`
  | .panicked _ .called | .panicked _ .waking => some { k with wasCut := true, place := .resting }
  | _ => none

def step : KeepEvent → Option Keeper
  | .openOk =>
      match k.place with
      | .opening => some k.openOk
      | _ => none
  | .openErr error =>
      match k.place with
      | .opening => some (k.endWith error)
      | _ => none
  | .next arrival =>
      match k.place with
      | .reading =>
          (k.store.step (.arrival arrival)).map fun store =>
            (k.onStore store).atPlace (if store.due = 0 then .reading else .storing)
      | _ => none
  | .nextErr error =>
      match k.place with
      | .reading => some (k.endWith error)
      | _ => none
  | .go => k.go
  | .panic text => k.panic text
  | .beat =>
      match k.place with
      | .resting => some (k.atPlace .opening)
      | _ => none
  | .abort =>
      match k.place with
      | .opening | .reading | .resting => some (k.drop.atPlace .gone)
      | _ => none
  | .aside event =>
      match k.place, event with
      | .gone, .dropBook => (k.store.step event).map k.onStore
      | _, event => if ofWait event then (k.store.step event).map k.onStore else none

def machine : Machine Keeper KeepEvent := ⟨init, step⟩

end Keeper

end RunnerKit.Toolkit.Arrival
