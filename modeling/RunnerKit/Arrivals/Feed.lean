import RunnerKit.Arrivals.Resolve
import RunnerKit.Lib.Machine

/-!
# The arrival feed

`ArrivalFeed` of `arrival/mod.rs`: the opening, which opens the raw feed before it
reads the unread items, and `next`, whose future may be dropped at each of its
two awaits and called again. Around it stands jobs: it stores items, rings for an
item after it stored it, and an item is unread until it is marked. It serves a
read at one moment while the read is awaited. A ring reaches the raw feed from
the moment it is open; the raw feed may also give events again, payloads that
cannot be read, and its end.

The history keeps what the feed started with, each thing the raw feed gave with
the read made for it, and what each call of `next` returned.
-/

namespace RunnerKit.Arrivals

open RunnerKit.Jobs RunnerKit.Lib

namespace Feed

abbrev Raw := Except Error ItemArrived

/-- An item that jobs stores: its doorbell event, and what a read gives of it. -/
structure Item where
  event : ItemArrived
  read : Read

/-- What the raw feed gave, and the result of the read that was made for it. -/
structure Entry where
  raw : Raw
  read : Option (Except Error (List Read))

namespace Entry

/-- The arrivals that an entry brings, as a feed that nobody drops gives them. -/
def arrivals : Entry → List Arrival
  | ⟨.ok event, none⟩ => [.item event]
  | ⟨.ok event, some reads⟩ => live event reads
  | ⟨.error error, _⟩ => if error.isUnreadable then [.unreadable none error] else []

/-- The error that ends the feed at this entry. -/
def error : Entry → Option Error
  | ⟨.ok _, none⟩ => none
  | ⟨.ok event, some reads⟩ => (resolve event reads).2
  | ⟨.error error, _⟩ => if error.isUnreadable then none else some error

/-- The event whose read is still to be made. -/
def pending : Entry → Option ItemArrived
  | ⟨.ok event, none⟩ => if isRunLevelNotice event then some event else none
  | _ => none

/-- A read is made for a run-level notice alone. -/
def fits : Entry → Bool
  | ⟨_, none⟩ => true
  | ⟨.ok event, some _⟩ => isRunLevelNotice event
  | ⟨.error _, some _⟩ => false

end Entry

/-! ## The state -/

/-- Where the calls of the feed's owner stand. -/
inductive Place where
  | closed
  | opening
  | idle
  | top
  | reading (event : ItemArrived)
  | waiting
deriving DecidableEq

def Place.isOpen : Place → Bool
  | .closed | .opening => false
  | _ => true

/-- The places where a read is awaited. -/
def Place.reads : Place → Bool
  | .opening | .reading _ => true
  | _ => false

/-- `seen` is what jobs served to the read that is under way. -/
structure Sys where
  place : Place
  seen : Option (List Read)
  buffer : List Arrival
  resolving : Option ItemArrived
  ended : Option Error
  unread : List Item
  unrung : List Item
  queue : List Raw
  rung : List Raw
  start : List Arrival
  story : List Entry
  results : List (Except Error Arrival)

def Sys.new : Sys where
  place := .closed
  seen := none
  buffer := []
  resolving := none
  ended := none
  unread := []
  unrung := []
  queue := []
  rung := []
  start := []
  story := []
  results := []

/-- `opened` and `read` are the ends of the reads, with the error if one failed. -/
inductive Event where
  | store (item : Item)
  | ring (i : ℕ)
  | mark (itemId : Uuid)
  | raw (raw : Raw)
  | «open»
  | serve
  | opened (failed : Option Error)
  | dropOpen
  | next
  | step
  | heard
  | read (failed : Option Error)
  | drop

namespace Sys

/-- The result of `unread_each`: an error, or what was served. -/
def reads (s : Sys) : Option Error → Option (Except Error (List Read))
  | none => s.seen.map .ok
  | some error => some (.error error)

/-- The raw feed has one more event for its owner. -/
def push (s : Sys) (raw : Raw) : Sys :=
  { s with queue := s.queue ++ [raw], rung := s.rung ++ [raw] }

def give (s : Sys) (result : Except Error Arrival) : Sys :=
  { s with results := s.results ++ [result], place := .idle }

/-- The loop of `next`, up to its next await. -/
def turn (s : Sys) : Sys :=
  match s.buffer with
  | arrival :: rest => { s with buffer := rest }.give (.ok arrival)
  | [] =>
      match s.ended with
      | some error => s.give (.error error)
      | none =>
          match s.resolving with
          | some event => { s with place := .reading event, seen := none }
          | none => { s with place := .waiting }

def record (s : Sys) (raw : Raw) : Sys := { s with story := s.story ++ [⟨raw, none⟩] }

/-- What `next` does with what the raw feed gives. -/
def hear (s : Sys) : Raw → Sys
  | .ok event =>
      { s.record (.ok event) with
        buffer := s.buffer ++ [.item event]
        resolving := if isRunLevelNotice event then some event else s.resolving
        place := .top }
  | .error error =>
      if error.isUnreadable then
        (s.record (.error error)).give (.ok (.unreadable none error))
      else { s.record (.error error) with ended := some error }.give (.error error)

/-- The end of `resolve`; the entry of the event gets its read. -/
def resolved (s : Sys) (event : ItemArrived) (reads : Except Error (List Read)) : Sys :=
  let (found, failed) := resolve event reads
  { s with
    resolving := none
    buffer := s.buffer ++ found
    ended := failed.or s.ended
    story := s.story.dropLast ++ [⟨.ok event, some reads⟩]
    place := .top }

def step (s : Sys) : Event → Option Sys
  | .store item => some { s with unread := s.unread ++ [item], unrung := s.unrung ++ [item] }
  | .ring i =>
      s.unrung[i]?.map fun item =>
        let s : Sys := { s with unrung := s.unrung.eraseIdx i }
        if s.place = .closed then s else s.push (.ok item.event)
  | .mark itemId =>
      some { s with unread := s.unread.filter fun item => item.event.itemId ≠ itemId }
  | .raw raw => if s.place = .closed then none else some (s.push raw)
  | .open =>
      if s.place = .closed then some { s with place := .opening, seen := none } else none
  | .serve =>
      if s.place.reads then some { s with seen := some (s.unread.map Item.read) } else none
  | .opened failed =>
      if s.place = .opening then
        (s.reads failed).map fun reads =>
          match fromRaw reads with
          | .ok buffer => { s with buffer := buffer, start := buffer, place := .idle }
          | .error _ => { s with place := .closed, queue := [], rung := [] }
      else none
  | .dropOpen =>
      if s.place = .opening then
        some { s with place := .closed, queue := [], rung := [] }
      else none
  | .next => if s.place = .idle then some { s with place := .top } else none
  | .step => if s.place = .top then some s.turn else none
  | .heard =>
      match s.place, s.queue with
      | .waiting, raw :: rest => some ({ s with queue := rest }.hear raw)
      | _, _ => none
  | .read failed =>
      match s.place with
      | .reading event => (s.reads failed).map (s.resolved event)
      | _ => none
  | .drop =>
      match s.place with
      | .reading _ | .waiting => some { s with place := .idle }
      | _ => none

/-- What the calls of `next` gave. -/
def given (s : Sys) : List Arrival := s.results.filterMap Except.toOption

end Sys

def machine : Machine Sys Event where
  init := .new
  step := Sys.step

end Feed

end RunnerKit.Arrivals
