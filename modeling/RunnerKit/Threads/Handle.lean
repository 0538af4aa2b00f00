import RunnerKit.Lib.Prog
import RunnerKit.Threads.Wire

/-!
# The handle of a stream

The handle, its writers and the sinks made from them share one `Core`. Every
write holds the gate (an async mutex over the chunks) while it takes the next
number and publishes; a closing holds it while it seals and registers itself,
and gives it up before its command is sent. The flags are read and written in
short sections, each one action.

A response sink of a handle, and its control, write each of their deltas with
the same `push`; each such write is a call here. The log records what a call
begins with, what it takes and sends, and how that ends; the code keeps no log.
-/

namespace RunnerKit.Threads

open Lib
open Jobs (Uuid)

variable {β : Type}

/-! ## Requests and answers -/

inductive MessageStatus where
  | streaming | completed | failed | cancelled
deriving DecidableEq

structure Outcome where
  commandId : Uuid
  status : Option MessageStatus
deriving DecidableEq

structure Closing where
  commandId : Uuid
  threadId : Uuid
  messageId : Uuid
  kind : ClosureKind
  detail : Option String
  actingUserId : Option Uuid
  wait : ℕ

inductive Write (β : Type) where
  | delta (value : Delta β)
  | entry (value : TurnEntry β)
  | annotation (after : Uuid) (value : Annotation β)
  | keepalive

def Write.build (message : Uuid) : Write β → Except Error (Chunk β)
  | .delta value => deltaChunk message value
  | .entry value => entryChunk value
  | Write.annotation after value => annotationChunk after value
  | .keepalive => .ok .keepalive

namespace Stream

/-- What the backend is asked. -/
inductive Ask (β : Type) where
  | chunk (messageId : Uuid) (seq : ℕ) (chunk : Chunk β) (wait : ℕ)
  | command (command : Command β) (wait : ℕ)

def Ask.Reply : Ask β → Type
  | .chunk .. => Except Error Unit
  | .command .. => Except Error Outcome

inductive Op (β : Type) where
  | write (write : Write β)
  | close (closing : Closing)

/-- A closing that was begun. `none` stands for one that was removed again. -/
inductive Flag where
  | waiting | refused | lost | confirmed
deriving DecidableEq

inductive Obs (β : Type) where
  | called (i : ℕ) (op : Op β)
  | taken (i seq : ℕ) (chunk : Chunk β)
  | acked (seq : ℕ)
  /-- The publish failed or was dropped. -/
  | broke (seq : ℕ)
  | sent (i id : ℕ) (kind : ClosureKind) (command : Command β)
  | settled (id : ℕ) (outcome : Option Flag)
  | ended (i : ℕ) (op : Op β) (result : Except Error (Option Outcome))

/-! ## The shared state -/

structure Core (β : Type) where
  gate : Option ℕ
  chunks : List (Chunk β)
  broken : Bool
  closings : ℕ → Option Flag
  nextClosing : ℕ
  log : List (Obs β)

namespace Core

def init : Core β where
  gate := none
  chunks := []
  broken := false
  closings := fun _ => none
  nextClosing := 0
  log := []

variable (core : Core β)

def observe (obs : Obs β) : Core β := { core with log := core.log ++ [obs] }

def gateFree : Bool := core.gate.isNone

def takeGate (i : ℕ) : Core β := { core with gate := some i }

def releaseGate : Core β := { core with gate := none }

/-- `any` over the values of the map of closings. -/
def anyClosing (p : Flag → Bool) : Bool :=
  (List.range core.nextClosing).any fun id => (core.closings id).any p

def confirmed : Bool := core.anyClosing (· == .confirmed)

def judgeChunk : Except Error Unit :=
  if core.confirmed then .error .streamClosed
  else if core.broken then .error .streamBroken
  else if core.anyClosing (· != .refused) then .error .streamClosed
  else .ok ()

/-- `sealed` of the source: the closing is a Completed one. -/
def judgeClosing (completed : Bool) : Except Error Unit :=
  if core.confirmed then .error .streamClosed
  else if completed && core.broken then .error .streamBroken
  else .ok ()

def healthy : Bool := !core.broken && !core.anyClosing (· != .refused)

def take (i seq : ℕ) (chunk : Chunk β) : Core β :=
  { core with chunks := core.chunks ++ [chunk] }.observe (.taken i seq chunk)

def breakHandle (seq : ℕ) : Core β := { core with broken := true }.observe (.broke seq)

def beginClosing (i : ℕ) (kind : ClosureKind) (command : Command β) : Core β :=
  { core with
    closings := Function.update core.closings core.nextClosing (some .waiting)
    nextClosing := core.nextClosing + 1 }.observe
      (.sent i core.nextClosing kind command)

def settle (id : ℕ) (outcome : Option Flag) : Core β :=
  { core with closings := Function.update core.closings id outcome }.observe
    (.settled id outcome)

end Core

/-! ## The calls -/

/-- What a handle is made with. -/
structure Handle (β : Type) where
  lib : Library β
  messageId : Uuid
  wait : ℕ

abbrev Call (β α : Type) := Prog (Core β) (Ask.Reply (β := β)) Error α

namespace Handle

variable (handle : Handle β)

/-- A dropped or failed publish breaks the handle before the gate is free. -/
def publish (seq : ℕ) (chunk : Chunk β) : Call β Unit :=
  .call (.chunk handle.messageId seq chunk handle.wait) (Core.breakHandle · seq) fun
    | .ok () => Prog.modify (Core.observe · (.acked seq))
    | .error _ => do
        Prog.modify (Core.breakHandle · seq)
        .fail .streamBroken

def push (i : ℕ) (build : Except Error (Chunk β)) : Call β Unit := do
  Prog.acquire Core.gateFree (Core.takeGate · i)
  Prog.guarded Core.releaseGate do
    let judged ← Prog.gets Core.judgeChunk
    Prog.ofExcept judged
    let chunk ← Prog.ofExcept build
    let length ← Prog.gets fun core => core.chunks.length
    let seq ← Prog.ofExcept (seqOf length .streamBroken)
    Prog.modify (Core.take · i seq chunk)
    handle.publish seq chunk

def parts (closing : Closing) (reason : ClosureReason) (streamSeal : Option StreamSeal) :
    CloseParts where
  commandId := closing.commandId
  threadId := closing.threadId
  messageId := closing.messageId
  reason := reason
  streamSeal := streamSeal
  actingUserId := closing.actingUserId

/-- The checks before the handle is looked at. -/
def precheck (closing : Closing) : Except Error ClosureReason := do
  requireWait closing.wait "the outcome wait"
  let reason ← closing.kind.reason handle.lib closing.detail
  if handle.messageId ≠ closing.messageId then
    .error (.invalid "the handle belongs to another message")
  return reason

/-- The command of the closing, decided under the gate, and its number. -/
def register (i : ℕ) (closing : Closing) (reason : ClosureReason) :
    Call β (ℕ × Command β) := do
  let completed := decide (closing.kind = .completed)
  let judged ← Prog.gets (Core.judgeClosing · completed)
  Prog.ofExcept judged
  let chunks ← Prog.gets Core.chunks
  let content := carriesContent chunks
  if completed && !content then
    .fail (.invalid "a Completed closing needs at least one chunk to seal")
  else
    let healthy ← Prog.gets Core.healthy
    let streamSeal ← Prog.ofExcept
      (if content && (completed || healthy) then (sealOf handle.lib chunks).map some
        else .ok none)
    let command ← Prog.ofExcept (Threads.closing handle.lib (parts closing reason streamSeal))
    .atom (Core.beginClosing · i closing.kind command) fun core =>
      .ret (core.nextClosing, command)

/-- The command is on its way; a drop here leaves the closing lost. -/
def sendClosing (id : ℕ) (command : Command β) (wait : ℕ) : Call β Outcome :=
  .call (.command command wait) (Core.settle · id (some .lost)) fun
    | .ok outcome => do
        Prog.modify (Core.settle · id (some .confirmed))
        .ret outcome
    | .error (.unavailable failure) => do
        Prog.modify (Core.settle · id none)
        .fail (.unavailable failure)
    | .error (.refused refusal) => do
        Prog.modify (Core.settle · id (some .refused))
        .fail (.refused refusal)
    | .error other => do
        Prog.modify (Core.settle · id (some .lost))
        .fail other

def closeMessage (i : ℕ) (closing : Closing) : Call β Outcome := do
  let reason ← Prog.ofExcept (handle.precheck closing)
  Prog.acquire Core.gateFree (Core.takeGate · i)
  let (id, command) ← Prog.guarded Core.releaseGate (handle.register i closing reason)
  sendClosing id command closing.wait

def body (i : ℕ) : Op β → Call β (Option Outcome)
  | .write write => do
      handle.push i (write.build handle.messageId)
      return none
  | .close closing => do
      let outcome ← handle.closeMessage i closing
      return some outcome

def prog (i : ℕ) (op : Op β) : Call β Unit := do
  Prog.modify (Core.observe · (.called i op))
  let result ← (handle.body i op).attempt
  Prog.modify (Core.observe · (.ended i op result))

def world : World (Core β) (Ask.Reply (β := β)) Error (Op β) Empty where
  init := Core.init
  prog := handle.prog
  env := fun _ e => nomatch e

end Handle

end Stream

end RunnerKit.Threads
