import RunnerKit.Jobs.Text
import RunnerKit.Lib.Machine
import RunnerKit.Queue.Shared
import RunnerKit.RunnerTransport.Cancel
import RunnerKit.RunnerTransport.Fail

/-!
# The session of a child command

`runner_transport/outcomes.rs` under `attempts` of `queue/task.rs`: one create,
finish or cancel write with all its attempts. The subscription of the session
buffers the outcome events it receives; what a call is doing is the await it is at,
and the outcome wait of the queue may cut it at each of them.

The Fabric is not in this repository. A wait on its awaiter gives the first event
of the command that is buffered, and gives nothing only while none is.
-/

namespace RunnerKit.RunnerTransport.Outcomes

open RunnerKit.Jobs RunnerKit.Lib RunnerKit.Queue

/-! ## The command -/

/-- A create, a finish or a cancel. -/
def isChild : Write → Bool
  | .create _ => true
  | .finish _ _ _ => true
  | .cancel _ _ _ => true
  | _ => false

structure ChildWrite where
  write : Write
  child : isChild write = true

def ChildWrite.commandId (command : ChildWrite) : Uuid :=
  match command.write with
  | .create create => create.commandId
  | .finish _ _ commandId => commandId
  | .cancel _ _ commandId => commandId
  | _ => 0

def ChildWrite.operation (command : ChildWrite) : Jobs.Operation :=
  match command.write with
  | .create _ => .create
  | .finish _ _ _ => .finish
  | _ => .cancel

/-- `IntegrationCommand`: made once, with the instant of its making. -/
structure Envelope where
  commandId : Uuid
  occurredAt : ℤ
  write : Write

/-! ## What comes from outside -/

structure CorrelatedMatch where
  correlation : Uuid
  subject : String
  payload : List UInt8

/-- The reason and the message of a rejection event. -/
structure Rejected where
  reasonCode : String
  message : String

/-- The decoders of the two rejection events, the subjects of the outcomes and the
names of the streams. -/
structure SessionWire where
  creationRejected : List UInt8 → Except JsonError Rejected
  commandRejected : List UInt8 → Except JsonError Rejected
  success : Jobs.Operation → String
  rejection : Jobs.Operation → String
  integrationEvt : String
  integrationCmd : String

namespace SessionWire

variable (w : SessionWire)

def decode (operation : Jobs.Operation) (payload : List UInt8) : Except JsonError Rejected :=
  match operation with
  | .create => w.creationRejected payload
  | _ => w.commandRejected payload

def outcomeOf (operation : Jobs.Operation) (found : CorrelatedMatch) : Except Error Unit :=
  if found.subject = w.success operation then .ok ()
  else if found.subject ≠ w.rejection operation then
    .error (.unreadable ("an outcome event on an unexpected subject: " ++ found.subject))
  else
    match w.decode operation found.payload with
    | .ok rejected =>
        .error (.refused ⟨operation, .ofWord rejected.reasonCode, rejected.message, none⟩)
    | .error e => .error (unreadableJson "the outcome of a command" e)

def events : String := "the stream " ++ w.integrationEvt

def commands : String := "the stream " ++ w.integrationCmd

end SessionWire

/-- What a wait on the awaiter finds, and what it leaves. -/
def awaitCorrelation (commandId : Uuid) :
    List CorrelatedMatch → Option (CorrelatedMatch × List CorrelatedMatch)
  | [] => none
  | found :: rest =>
      if found.correlation = commandId then some (found, rest)
      else awaitCorrelation commandId rest

/-! ## The session and its write -/

structure Session where
  envelope : Envelope
  /-- What the subscription has buffered. -/
  awaiter : Option (List CorrelatedMatch)
  published : Bool

/-- Where the task of the write is. Only `sending` is no await: the call is about
to publish. -/
inductive Place where
  /-- Before the first attempt, or in the wait before the next. -/
  | retrying
  | subscribing
  /-- In `hear`, before a resend. -/
  | looking
  | sending
  | publishing
  | hearing
  | done (result : WriteResult)

inductive Obs where
  | subscribed (buffered : List CorrelatedMatch)
  | received (event : CorrelatedMatch)
  | heard (event : CorrelatedMatch)
  | silent
  | lost
  | published (envelope : Envelope)
  | retried (error : Error)
  | ended (result : WriteResult)

structure Sys where
  session : Session
  place : Place
  log : List Obs

inductive Event where
  /-- An outcome event arrives; no subscription, no buffer. -/
  | arrive (event : CorrelatedMatch)
  | attempt
  | subscribed (buffered : List CorrelatedMatch)
  | subscribeFailed (error : FabricError)
  | subscribeTimedOut
  | heard
  | silent
  | awaiterLost (error : FabricError)
  | send
  | confirmed
  | publishFailed (error : FabricError)
  | publishTimedOut
  /-- The outcome wait of the queue fires. -/
  | cut

namespace Sys

def init (command : ChildWrite) (now : ℤ) : Sys :=
  { session := ⟨⟨command.commandId, now, command.write⟩, none, false⟩
    place := .retrying, log := [] }

def observe (s : Sys) (obs : Obs) : Sys := { s with log := s.log ++ [obs] }

/-- What `attempts` does with the end of one attempt. -/
def judged (s : Sys) (outcome : Outcome) : Sys :=
  match judge s.session.envelope.write outcome with
  | .resend error => { s with place := .retrying }.observe (.retried error)
  | .final result => { s with place := .done result }.observe (.ended result)

/-- `run` after `subscribe`. -/
def afterSubscribe (s : Sys) : Sys :=
  { s with place := if s.session.published then .looking else .sending }

def setAwaiter (s : Sys) (awaiter : Option (List CorrelatedMatch)) : Sys :=
  { s with session := { s.session with awaiter := awaiter } }

def outcome : Except Error Unit → Outcome
  | .ok () => .ok
  | .error error => .error error

end Sys

variable (w : SessionWire) (command : ChildWrite)

def step (s : Sys) : Event → Option Sys
  | .arrive event =>
      match s.session.awaiter with
      | some buffered =>
          some ((s.setAwaiter (some (buffered ++ [event]))).observe (.received event))
      | none => some s
  | .attempt =>
      match s.place with
      | .retrying =>
          match s.session.awaiter with
          | some _ => some s.afterSubscribe
          | none => some { s with place := .subscribing }
      | _ => none
  | .subscribed buffered =>
      match s.place with
      | .subscribing =>
          some ((s.setAwaiter (some buffered)).observe (.subscribed buffered)).afterSubscribe
      | _ => none
  | .subscribeFailed error =>
      match s.place with
      | .subscribing => some (s.judged (.error (Fail.fabricUnsent w.events error)))
      | _ => none
  | .subscribeTimedOut =>
      match s.place with
      | .subscribing =>
          some (s.judged (.error (.waitFired "the outcome events could not be awaited in time")))
      | _ => none
  | .heard =>
      match s.place, s.session.awaiter.bind (awaitCorrelation s.session.envelope.commandId) with
      | .looking, some (found, rest) =>
          some (((s.setAwaiter (some rest)).observe (.heard found)).judged
            (Sys.outcome (w.outcomeOf command.operation found)))
      | .hearing, some (found, rest) =>
          some (((s.setAwaiter (some rest)).observe (.heard found)).judged
            (Sys.outcome (w.outcomeOf command.operation found)))
      | _, _ => none
  | .silent =>
      match s.place, s.session.awaiter.bind (awaitCorrelation s.session.envelope.commandId) with
      | .looking, none => some ({ s with place := .sending }.observe .silent)
      | .hearing, none =>
          some ((s.observe .silent).judged
            (.error (.waitFired "no outcome event came within the wait")))
      | _, _ => none
  | .awaiterLost error =>
      match s.place with
      | .looking =>
          some (((s.setAwaiter none).observe .lost).judged
            (.error (Fail.fabric "the outcome events" error)))
      | .hearing =>
          some (((s.setAwaiter none).observe .lost).judged
            (.error (Fail.fabric "the outcome events" error)))
      | _ => none
  | .send =>
      match s.place with
      | .sending =>
          some ({ s with
            session := { s.session with published := true }
            place := .publishing }.observe (.published s.session.envelope))
      | _ => none
  | .confirmed =>
      match s.place with
      | .publishing => some { s with place := .hearing }
      | _ => none
  | .publishFailed error =>
      match s.place with
      | .publishing => some (s.judged (.error (Fail.fabric w.commands error)))
      | _ => none
  | .publishTimedOut =>
      match s.place with
      | .publishing =>
          some (s.judged (.error (.waitFired "the command was not confirmed by the bus")))
      | _ => none
  | .cut =>
      match s.place with
      | .subscribing | .looking | .publishing | .hearing => some (s.judged .timedOut)
      | _ => none

def machine (now : ℤ) : Machine Sys Event := ⟨.init command now, step w command⟩

end RunnerKit.RunnerTransport.Outcomes
