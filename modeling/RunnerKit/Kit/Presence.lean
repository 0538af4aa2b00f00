import RunnerKit.Kit.RunLoop

/-!
# The presence of an instance

`PresenceSession` of br-jobs-runner-core, and the run loop of `RunLoop` with it.
The loop polls the session at its head, puts what it gives into the presence
bucket, and then waits in its `select!` until the next heartbeat at most. When
the loop is left, the entry is deleted.

Times are in nanoseconds. A write that fails is only logged, so how it ends makes
no difference to the loop. The bytes of an entry are not looked at.
-/

namespace RunnerKit.Kit

open RunnerKit.Jobs RunnerKit.Lib

/-! ## The session -/

inductive PresenceAction where
  | publishReady | publishDraining | delete
deriving DecidableEq

inductive NextDue where
  | now
  | instant (due : ℕ)
  | never
deriving DecidableEq

inductive PresenceConfigError where
  | zeroInterval | intervalNotBelowTtl
deriving DecidableEq

inductive Phase where
  | ready | draining | closed
deriving DecidableEq

structure PresenceSession where
  interval : ℕ
  phase : Phase
  lastPublish : Option ℕ
deriving DecidableEq

/-- What is published in a phase. -/
def Phase.action : Phase → Option PresenceAction
  | .ready => some .publishReady
  | .draining => some .publishDraining
  | .closed => none

namespace PresenceSession

def new (ttl heartbeatInterval : ℕ) : Except PresenceConfigError PresenceSession :=
  if heartbeatInterval = 0 then .error .zeroInterval
  else if ttl ≤ heartbeatInterval then .error .intervalNotBelowTtl
  else .ok ⟨heartbeatInterval, .ready, none⟩

variable (session : PresenceSession)

def nextDue : NextDue :=
  if session.phase = .closed then .never
  else
    match session.lastPublish with
    | none => .now
    | some last => .instant (last + session.interval)

def isDue (now : ℕ) : Bool :=
  match session.nextDue with
  | .now => true
  | .instant due => due ≤ now
  | .never => false

def poll (now : ℕ) : Option PresenceAction × PresenceSession :=
  match session.phase.action with
  | none => (none, session)
  | some action =>
      if session.isDue now then (some action, { session with lastPublish := some now })
      else (none, session)

def beginDrain : PresenceSession :=
  if session.phase = .ready then { session with phase := .draining, lastPublish := none }
  else session

def close : Option PresenceAction × PresenceSession :=
  if session.phase = .closed then (none, session)
  else (some .delete, { session with phase := .closed })

end PresenceSession

/-! ## The loop with its presence -/

namespace Present

inductive Point where
  | head
  /-- What the poll at that time gave is being written. -/
  | writing (action : PresenceAction) (time : ℕ)
  /-- Behind the poll at that time. -/
  | polled (time : ℕ)
  | closing
  | deleting
  | over
deriving DecidableEq

inductive Obs where
  | wrote (action : PresenceAction) (time : ℕ)
  /-- A trigger message is taken. -/
  | took (time : ℕ)
deriving DecidableEq

structure Sys where
  loop : Kit.Sys
  presence : PresenceSession
  point : Point
  now : ℕ
  log : List Obs

inductive Event where
  | poll
  /-- The write has ended, one way or the other. -/
  | written
  | loop (event : Kit.Event)
  | heartbeat
  | close
  | tick

/-- The step of a run task, which the loop does not wait for. -/
def ofTask : Kit.Event → Bool
  | .ended _ _ | .dropped _ => true
  | _ => false

def isShutdown : Kit.Event → Bool
  | .shutdown => true
  | _ => false

def isMessage : Kit.Event → Bool
  | .message _ => true
  | _ => false

/-- The instant the last branch of the `select!` sleeps to. -/
def heartbeatDue (time : ℕ) : NextDue → ℕ
  | .now => time
  | .instant due => due
  | .never => time + 3600 * 10 ^ 9

namespace Sys

variable (decode : Value → Decoded) (s : Sys)

def init (pool : SlotPool) (presence : PresenceSession) : Sys :=
  { loop := .init pool, presence := presence, point := .head, now := 0, log := [] }

def poll : Sys :=
  match s.presence.poll s.now with
  | (some action, presence) =>
      { s with
        presence := presence
        point := .writing action s.now
        log := s.log ++ [.wrote action s.now] }
  | (none, presence) => { s with presence := presence, point := .polled s.now }

/-- Where the presence is after a step of the loop. -/
def pointAfter (time : ℕ) (loop : Kit.Sys) : Point :=
  match loop.point with
  | .head => .head
  | .over => .closing
  | _ => .polled time

/-- The loop has taken a step of its own. -/
def stepped (event : Kit.Event) (time : ℕ) (loop : Kit.Sys) : Sys :=
  { s with
    loop := loop
    presence := if isShutdown event then s.presence.beginDrain else s.presence
    point := pointAfter time loop
    log := if isMessage event then s.log ++ [.took s.now] else s.log }

def close : Sys :=
  match s.presence.close with
  | (some action, presence) =>
      { s with
        presence := presence
        point := .deleting
        log := s.log ++ [.wrote action s.now] }
  | (none, presence) => { s with presence := presence, point := .over }

def step : Event → Option Sys
  | .poll => if s.point = .head then some s.poll else none
  | .written =>
      match s.point with
      | .writing _ time => some { s with point := .polled time }
      | .deleting => some { s with point := .over }
      | _ => none
  | .loop event =>
      if ofTask event then (s.loop.step decode event).map fun loop => { s with loop := loop }
      else
        match s.point with
        | .polled time => (s.loop.step decode event).map (s.stepped event time)
        | _ => none
  | .heartbeat =>
      match s.point with
      | .polled time =>
          if s.loop.selecting ∧ heartbeatDue time s.presence.nextDue ≤ s.now then
            some { s with point := .head }
          else none
      | _ => none
  | .close => if s.point = .closing then some s.close else none
  | .tick => some { s with now := s.now + 1 }

end Sys

/-- The loop starts with the session that `new` gave it. -/
def machine (decode : Value → Decoded) (pool : SlotPool) (presence : PresenceSession) :
    Machine Sys Event :=
  ⟨Sys.init pool presence, Sys.step decode⟩

end Present

end RunnerKit.Kit
