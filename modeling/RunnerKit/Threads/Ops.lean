import RunnerKit.Lib.Prog
import RunnerKit.Lib.Table
import RunnerKit.Threads.Delivery
import RunnerKit.Threads.Response

/-!
# The operations of the adapter

`adapter/ops/`, `adapter/inner.rs`, `adapter/accept.rs`, `adapter/lane.rs`, and the sink and the
control of a response of the adapter (`response/sink.rs`, `response/control.rs`). Each operation
is a call with awaits. Two locks belong to a thread: the place in its order, which an operation
holds while it works, and its memory; a response has a lock of its state. A guard that is dropped
gives back what its call holds.

Work that is detached goes on when the future of its caller is dropped; a drop there stands for
the end of the runtime. A wait for a change is a wait for what it looks for, so the changes that
are told are not in the state. A task that was spawned is a call that takes it up; it may be
dropped at any await, aborted or not, and a run says how often its loop goes round. The worker
of a thread is a part of the environment. `Threads.Delivery` has the queue in more detail.

The log says what happened; the code keeps none.
-/

namespace RunnerKit.Threads.Ops

open Lib
open Jobs (Uuid)
open Delivery (Ended QueueInner Queued ReportKind TaskPlace retryable)
open Response (DeltaOp Messages ModelResponse ResponseDelta stopsCompletion wholeResponseDeltas
  wrap)

variable {β D B U E : Type}

/-! ## What the operations are given -/

structure AiTurnRef where
  id : Uuid
  agent : Uuid
  author : String
deriving DecidableEq

structure WriteContext where
  agent : Uuid
  author : String
  jobId : Option Uuid
  actingUserId : Option Uuid
  impersonatorId : Option Uuid
deriving DecidableEq

/-- A fault of this crate, or the error of the write context. -/
inductive PortError where
  | fault (error : Error)
  | context (text : String)

/-- A conversation and the ids of its turns. -/
structure Conversation where
  id : Uuid
  turns : List Uuid
deriving DecidableEq

inductive Context where
  | conversation (conversation : Conversation)
  | other

/-- An input turn, with what the library writes for it. -/
structure InputTurn (β : Type) where
  id : Uuid
  entries : List Uuid
  json : Except String β

/-- Tool results are an entry of their own kind. -/
structure RuntimeToolResults (β : Type) where
  id : Uuid
  json : Except String β

def RuntimeToolResults.entry (results : RuntimeToolResults β) : TurnEntry β :=
  ⟨results.id, .other, results.json⟩

/-- The libraries, the ids that are made, and the interval. -/
structure Settings (β D B U E : Type) where
  lib : Library β
  json : ItemJson β
  messages : Messages D B U E
  /-- `ResponseDraft::new` -/
  draft : Uuid → Uuid → D
  /-- `Chunk::delta` -/
  deltaJson : ResponseDelta B U E → Except String β
  /-- `Conversation::from_parts` -/
  fromParts : Uuid → List Uuid → Except String Conversation
  newId : ℕ → Uuid
  keepaliveInterval : ℕ

/-! ## The memory of a thread -/

/-- `keepalive` is the task of the turn. -/
structure TurnState (β : Type) where
  agent : Uuid
  chunks : List (Chunk β)
  entries : Finset Uuid
  closed : Bool
  lastItemAt : ℕ
  keepalive : Option ℕ

def TurnState.closedBy (agent : Uuid) (now : ℕ) : TurnState β := ⟨agent, [], ∅, true, now, none⟩

/-- A response by the number of its shared state, and its lane. -/
structure ResponseControl where
  cell : ℕ
  thread : ThreadRef
  message : Uuid
deriving DecidableEq

structure OpenResponse where
  agent : Uuid
  control : ResponseControl
deriving DecidableEq

structure Mem (β : Type) where
  turns : Table Uuid (TurnState β)
  responses : Table Uuid OpenResponse
  tip : Option Uuid

def Mem.default : Mem β := ⟨∅, ∅, none⟩

/-- What the sink and the control of a response share. -/
structure Shared (D : Type) where
  draft : D
  sent : Bool
  done : Bool
  failure : Option Error
  lock : Option ℕ

def Shared.keep (shared : Shared D) (error : Error) : Shared D :=
  { shared with failure := shared.failure.orElse fun () => some error }

namespace Mem

variable (mem : Mem β)

/-- What `push_chunk` writes once its item is accepted. -/
def pushed (message : Uuid) (entries : List Uuid) (chunk : Chunk β) (now : ℕ) : Mem β :=
  { mem with
    turns := mem.turns.modify message fun state =>
      { state with
        chunks := state.chunks ++ [chunk]
        entries := state.entries ∪ entries.toFinset
        lastItemAt := now } }

def opened (message : Uuid) (state : TurnState β) : Mem β :=
  { mem with turns := mem.turns.insert message state }

def closed (message agent : Uuid) (now : ℕ) : Mem β :=
  let state := (mem.turns.lookup message).getD (.closedBy agent now)
  { mem with turns := mem.turns.insert message { state with closed := true, keepalive := none } }

/-- A keepalive was not kept: the next try comes after the interval. -/
def retryAt (message : Uuid) (now : ℕ) : Mem β :=
  { mem with turns := mem.turns.modify message fun state => { state with lastItemAt := now } }

/-- The turns of an agent. -/
def turnsOf (agent : Uuid) : List Uuid := (mem.turns.retain fun _ state => state.agent = agent).keys

/-- The responses of an agent. -/
def responsesOf (agent : Uuid) : List ResponseControl :=
  Table.values (mem.responses.retain fun _ response => response.agent = agent) |>.map
    OpenResponse.control

def holdsOf (agent : Uuid) : Bool :=
  !(mem.turnsOf agent).isEmpty || !(mem.responsesOf agent).isEmpty

/-- The agent holds nothing more. -/
def without (agent : Uuid) : Mem β :=
  { mem with
    turns := mem.turns.retain fun _ state => state.agent ≠ agent
    responses := mem.responses.retain fun _ response => response.agent ≠ agent }

end Mem

/-! ## The shared state -/

structure QueueReport where
  kind : ReportKind
  thread : ThreadRef
  messageId : Uuid
  itemKind : ItemKind
  itemId : Uuid
  error : Option Error

inductive Obs (β : Type) where
  /-- `new` has put an item of the store into the queue. -/
  | leftover (t : ThreadRef) (item : Item β)
  /-- The call has put an item into the queue, behind so many that wait. -/
  | queued (i : ℕ) (t : ThreadRef) (item : Item β) (time waiting : ℕ)
  /-- The item is accepted by a stopped adapter, which does not send it. -/
  | unsent (i : ℕ) (t : ThreadRef) (item : Item β) (time waiting : ℕ)
  /-- A keepalive is to be queued. -/
  | decided (i : ℕ) (t : ThreadRef) (message : Uuid) (mem : Mem β) (queue : QueueInner β)
  /-- It was not kept, and the next try is set. -/
  | unkept (i : ℕ) (t : ThreadRef) (message : Uuid) (error : Error) (mem : Mem β)
      (queue : QueueInner β)
  | report (report : QueueReport)
  /-- The opening of a message is refused for good. -/
  | refused (t : ThreadRef) (item : Item β)
  | ended (t : ThreadRef) (item : Item β) (how : Ended)
  /-- The end of an instance begins, with the memory that it finds. -/
  | ending (i : ℕ) (agent : Uuid) (mem : ThreadRef → Mem β)
  /-- It has taken the turns of the agent off a thread. -/
  | dropped (i : ℕ) (t : ThreadRef) (agent : Uuid) (turns : List Uuid)
  /-- It has returned. -/
  | returned (i : ℕ) (agent : Uuid)

structure Inner (β D : Type) where
  slots : List ThreadRef
  order : ThreadRef → Option ℕ
  memLock : ThreadRef → Option ℕ
  mem : ThreadRef → Mem β
  queue : ThreadRef → QueueInner β
  worker : ThreadRef → TaskPlace β
  shared : ℕ → Shared D
  nextShared : ℕ
  /-- The sinks that were given out. -/
  sinks : List ResponseControl
  /-- The keepalive tasks that have not begun. -/
  tasks : ℕ → Option (ThreadRef × Uuid)
  nextTask : ℕ
  numbers : ℕ
  ids : ℕ
  now : ℕ
  refused : Uuid → Bool
  broken : Uuid → Bool
  stopped : Bool
  /-- The items that `new` has still to enqueue. -/
  leftovers : List (ThreadRef × Item β)
  log : List (Obs β)

namespace Inner

variable (s : Inner β D)

def observe (obs : Obs β) : Inner β D := { s with log := s.log ++ [obs] }

/-- `slot`: makes the slot of the thread if there is none. -/
def addSlot (t : ThreadRef) : Inner β D :=
  { s with slots := if t ∈ s.slots then s.slots else s.slots ++ [t] }

def built : Bool := s.leftovers.isEmpty

/-! Guards. -/

def orderFree (t : ThreadRef) : Bool := (s.order t).isNone

def takeOrder (i : ℕ) (t : ThreadRef) : Inner β D :=
  { s with order := Function.update s.order t (some i) }

def releaseOrder (i : ℕ) (t : ThreadRef) : Inner β D :=
  if s.order t = some i then { s with order := Function.update s.order t none } else s

def memFree (t : ThreadRef) : Bool := (s.memLock t).isNone

def takeMem (i : ℕ) (t : ThreadRef) : Inner β D :=
  { s with memLock := Function.update s.memLock t (some i) }

def releaseMem (i : ℕ) (t : ThreadRef) : Inner β D :=
  if s.memLock t = some i then { s with memLock := Function.update s.memLock t none } else s

def setShared (c : ℕ) (shared : Shared D) : Inner β D :=
  { s with shared := Function.update s.shared c shared }

def sharedFree (c : ℕ) : Bool := (s.shared c).lock.isNone

def takeShared (i c : ℕ) : Inner β D := s.setShared c { s.shared c with lock := some i }

def releaseShared (i c : ℕ) : Inner β D :=
  if (s.shared c).lock = some i then s.setShared c { s.shared c with lock := none } else s

/-! The state. -/

def setMem (t : ThreadRef) (mem : Mem β) : Inner β D :=
  { s with mem := Function.update s.mem t mem }

def setTip (t : ThreadRef) (tip : Option Uuid) : Inner β D :=
  s.setMem t { s.mem t with tip := tip }

def setQueue (t : ThreadRef) (queue : QueueInner β) : Inner β D :=
  { s with queue := Function.update s.queue t queue }

def setWorker (t : ThreadRef) (place : TaskPlace β) : Inner β D :=
  { s with worker := Function.update s.worker t place }

/-- The part of `enqueue` behind the lock of the queue. -/
def push (t : ThreadRef) (item : Item β) (no : ℕ) : Inner β D :=
  s.setQueue t
    { s.queue t with
      dropped := fun entry => (s.queue t).dropped entry && !item.entries.contains entry
      items := (s.queue t).items ++ [⟨item, no⟩]
      lastNo := no
      workerRunning := true }

/-- The section of `enqueue`: a stopped adapter says that it sends nothing. -/
def enqueued (i : ℕ) (t : ThreadRef) (item : Item β) (no : ℕ) : Inner β D :=
  if s.stopped then
    (s.observe (.unsent i t item s.now (s.queue t).items.length)).observe
      (.report ⟨.unsent, t, item.message, item.kind, item.id, none⟩)
  else (s.push t item no).observe (.queued i t item s.now (s.queue t).items.length)

def spawnKeepalives (t : ThreadRef) (message : Uuid) : Inner β D :=
  { s with
    tasks := Function.update s.tasks s.nextTask (some (t, message))
    nextTask := s.nextTask + 1 }

def begin (task : ℕ) : Inner β D := { s with tasks := Function.update s.tasks task none }

/-- `pair` -/
def newShared (draft : D) : Inner β D :=
  { s with
    shared := Function.update s.shared s.nextShared ⟨draft, false, false, none, none⟩
    nextShared := s.nextShared + 1 }

def giveSink (sink : ResponseControl) : Inner β D := { s with sinks := s.sinks ++ [sink] }

def putResponse (t : ThreadRef) (entry : Uuid) (response : OpenResponse) : Inner β D :=
  s.setMem t { s.mem t with responses := (s.mem t).responses.insert entry response }

def removeResponse (t : ThreadRef) (entry : Uuid) : Inner β D :=
  s.setMem t { s.mem t with responses := (s.mem t).responses.erase entry }

/-- The marks of messages whose turns have ended are taken away. -/
def unbreak (messages : List Uuid) : Inner β D :=
  { s with broken := fun message => s.broken message && !messages.contains message }

def dropAgent (i : ℕ) (t : ThreadRef) (agent : Uuid) : Inner β D :=
  (s.setMem t ((s.mem t).without agent)).observe
    (.dropped i t agent ((s.mem t).turnsOf agent))

/-- The turn is open, and the interval since its last item has passed. -/
def due (interval : ℕ) (t : ThreadRef) (message : Uuid) : Bool :=
  ((s.mem t).turns.lookup message).any fun state =>
    !state.closed && decide (state.lastItemAt + interval ≤ s.now)

end Inner

/-! ## Questions -/

inductive Ask where
  | context (t : ThreadRef)
  | append (stored : StoredItem)
  | readContext (t : ThreadRef)

def Ask.Reply : Ask → Type
  | .context _ => Except PortError WriteContext
  | .append _ => Except Error Unit
  | .readContext _ => Except Error (Option Context)

abbrev Call (β D ε α : Type) := Prog (Inner β D) Ask.Reply ε α

def append (stored : StoredItem) : Call β D Error Unit :=
  .call (.append stored) id fun kept : Except Error Unit =>
    Prog.ofExcept (kept.mapError Error.fromStore)

def contextFor (t : ThreadRef) : Call β D PortError WriteContext :=
  .call (.context t) id fun ctx : Except PortError WriteContext => Prog.ofExcept ctx

def readContext (t : ThreadRef) : Call β D Error (Option Context) :=
  .call (.readContext t) id fun answer : Except Error (Option Context) => Prog.ofExcept answer

def newId (settings : Settings β D B U E) {ε : Type} : Call β D ε Uuid :=
  .atom (fun s => { s with ids := s.ids + 1 }) fun s => .ret (settings.newId s.ids)

/-! ## Locks -/

/-- The work under the order of a thread that the call holds. -/
def runOrdered {ε α : Type} (i : ℕ) (t : ThreadRef) (work : Call β D ε α) : Call β D ε α :=
  Prog.guarded (Inner.releaseOrder · i t) work

def ordered {ε α : Type} (i : ℕ) (t : ThreadRef) (work : Call β D ε α) : Call β D ε α := do
  Prog.acquire (Inner.orderFree · t) (Inner.takeOrder · i t)
  runOrdered i t work

/-- The scope of a guard of the memory of a thread. -/
def withMem {ε α : Type} (i : ℕ) (t : ThreadRef) (work : Call β D ε α) : Call β D ε α := do
  Prog.acquire (Inner.memFree · t) (Inner.takeMem · i t)
  Prog.guarded (Inner.releaseMem · i t) work

/-- The scope of a guard of the state of a response. -/
def withShared {ε α : Type} (i c : ℕ) (work : Call β D ε α) : Call β D ε α := do
  Prog.acquire (Inner.sharedFree · c) (Inner.takeShared · i c)
  Prog.guarded (Inner.releaseShared · i c) work

section

variable (settings : Settings β D B U E)

/-! ## Items -/

structure StoreParts where
  threadId : Uuid
  messageId : Uuid
  parentMessageId : Option Uuid
  jobId : Option Uuid
  actingUserId : Option Uuid
  impersonatorId : Option Uuid

/-- `wire::store` -/
def store (commandId : Uuid) (parts : StoreParts) (turn : AiTurn β) : Command β where
  id := commandId
  body := .store
    { messageId := parts.messageId, threadId := parts.threadId,
      parentMessageId := parts.parentMessageId, jobId := parts.jobId,
      actingUserId := parts.actingUserId, impersonatorId := parts.impersonatorId,
      message := turn }

def storeParts (t : ThreadRef) (message : Uuid) (tip : Option Uuid) (ctx : WriteContext) :
    StoreParts where
  threadId := t
  messageId := message
  parentMessageId := tip
  jobId := ctx.jobId
  actingUserId := ctx.actingUserId
  impersonatorId := ctx.impersonatorId

def commandItem (t : ThreadRef) (command : Command β) (agent message : Uuid)
    (entries : List Uuid) (kind : ItemKind) : Item β where
  id := command.id
  thread := t
  agent := agent
  message := message
  entries := entries
  kind := kind
  payload := .command command.body

def chunkItem (t : ThreadRef) (id agent message : Uuid) (entries : List Uuid) (seq : ℕ)
    (chunk : Chunk β) : Item β where
  id := id
  thread := t
  agent := agent
  message := message
  entries := entries
  kind := .chunk
  payload := .chunk (UInt64.ofNat seq) chunk

def openingItem (t : ThreadRef) (id : Uuid) (tip : Option Uuid) (turn : AiTurnRef)
    (ctx : WriteContext) : Item β :=
  commandItem t
    (store id (storeParts t turn.id tip ctx) ⟨turn.agent, turn.author, .streaming⟩)
    turn.agent turn.id [] .opening

def wholeItem (t : ThreadRef) (id : Uuid) (tip : Option Uuid) (turn : InputTurn β) (body : β)
    (ctx : WriteContext) : Item β :=
  commandItem t
    (store id (storeParts t turn.id tip ctx) ⟨ctx.agent, ctx.author, .completed body⟩)
    ctx.agent turn.id turn.entries .wholeMessage

def closingItem (t : ThreadRef) (command : Command β) (agent message : Uuid) : Item β :=
  commandItem t command agent message [] .closing

/-! ## Acceptance -/

def enqueue {ε : Type} (i : ℕ) (t : ThreadRef) (item : Item β) : Call β D ε Unit :=
  .atom (fun s => { s with numbers := s.numbers + 1 }) fun s =>
    .atom (Inner.enqueued · i t item (s.numbers + 1)) fun s =>
      if s.stopped || (s.queue t).workerRunning then .ret ()
      else Prog.modify (Inner.setWorker · t .spawned)

def accept (i : ℕ) (t : ThreadRef) (item : Item β) : Call β D Error Unit := do
  let stopped ← Prog.gets Inner.stopped
  if stopped then .fail (.store "the adapter is stopped")
  else
    let stored ← Prog.ofExcept (item.stored settings.json t)
    append stored
    enqueue i t item

/-! ## Turns -/

def closedTurn : Error := .invalid "the closing of this turn was already accepted"

def startKeepalives {ε : Type} (t : ThreadRef) (message : Uuid) : Call β D ε (Option ℕ) := do
  let stopped ← Prog.gets Inner.stopped
  if stopped then return none
  else
    .atom (Inner.spawnKeepalives · t message) fun s => do
      let stopped ← Prog.gets Inner.stopped
      return if stopped then none else some s.nextTask

def ensureTurn (i : ℕ) (t : ThreadRef) (turn : AiTurnRef) (ctx : WriteContext) :
    Call β D Error Unit := do
  let held ← Prog.gets fun s => (s.mem t).turns.lookup turn.id
  match held with
  | some state => if state.closed then .fail closedTurn else return ()
  | none =>
      let id ← newId settings
      let tip ← Prog.gets fun s => (s.mem t).tip
      accept settings i t (openingItem t id tip turn ctx)
      Prog.modify (Inner.setTip · t (some turn.id))
      let now ← Prog.gets Inner.now
      let keepalive ← startKeepalives t turn.id
      Prog.modify fun s =>
        s.setMem t ((s.mem t).opened turn.id ⟨turn.agent, [], ∅, false, now, keepalive⟩)

def pushChunk (i : ℕ) (t : ThreadRef) (message : Uuid) (entries : List Uuid) (chunk : Chunk β)
    (itemId : Uuid) : Call β D Error Unit := do
  let held ← Prog.gets fun s => (s.mem t).turns.lookup message
  match held with
  | none => .fail .streamClosed
  | some state =>
      if state.closed then .fail .streamClosed
      else
        let seq ← Prog.ofExcept (seqOf state.chunks.length (.invalid "too many chunks"))
        accept settings i t (chunkItem t itemId state.agent message entries seq chunk)
        Prog.modify fun s => s.setMem t ((s.mem t).pushed message entries chunk s.now)

/-! ## Responses -/

/-- `send_delta` of the lane. -/
def sendDelta (i : ℕ) (lane : ResponseControl) (delta : ResponseDelta B U E) :
    Call β D Error Unit := do
  let completes := match delta.op with | .responseCompleted _ => true | _ => false
  let chunk ← Prog.ofExcept
    (deltaChunk lane.message ⟨delta.turn, delta.entry, completes, settings.deltaJson delta⟩)
  withMem i lane.thread do
    let id ← newId settings
    pushChunk settings i lane.thread lane.message [delta.entry] chunk id

def keepFailure {ε : Type} (c : ℕ) (error : Error) : Call β D ε Unit :=
  Prog.modify fun s => s.setShared c ((s.shared c).keep error)

def setSent {ε : Type} (c : ℕ) : Call β D ε Unit :=
  Prog.modify fun s => s.setShared c { s.shared c with sent := true }

def setDone {ε : Type} (c : ℕ) : Call β D ε Unit :=
  Prog.modify fun s => s.setShared c { s.shared c with done := true }

def setDraft {ε : Type} (c : ℕ) (draft : D) : Call β D ε Unit :=
  Prog.modify fun s => s.setShared c { s.shared c with draft := draft }

/-- `deliver` of a sink, which holds the state. -/
def deliver {ε : Type} (i : ℕ) (sink : ResponseControl) (delta : ResponseDelta B U E) :
    Call β D ε Unit := do
  let shared ← Prog.gets fun s => s.shared sink.cell
  if shared.done || shared.failure.isSome then return ()
  else
    match delta.op, settings.messages.apply shared.draft delta with
    | .responseCompleted _, .ok _ => return ()
    | _, .error code => keepFailure sink.cell (Error.library code)
    | _, .ok draft =>
        setDraft sink.cell draft
        let sent ← (sendDelta settings i sink delta).attempt
        match sent with
        | .ok () => setSent sink.cell
        | .error error => keepFailure sink.cell error

/-- `send` of a sink that was given out. -/
def send {ε : Type} (i : ℕ) (sink : ResponseControl) (delta : ResponseDelta B U E) :
    Call β D ε Unit := do
  Prog.acquire (fun s => s.sinks.contains sink) id
  ordered i sink.thread (withShared i sink.cell (deliver settings i sink delta))

/-- The deltas of a completion, each given to the lane and then to the draft. -/
def sendAll (i : ℕ) (control : ResponseControl) :
    List (ResponseDelta B U E) → Call β D Error Unit
  | [] => return ()
  | delta :: rest => do
      let sent ← (sendDelta settings i control delta).attempt
      match sent with
      | .error error =>
          keepFailure control.cell error
          .fail error
      | .ok () =>
          setSent control.cell
          let draft ← Prog.gets fun s => (s.shared control.cell).draft
          let draft ← Prog.ofExcept
            ((settings.messages.apply draft delta).mapError Error.library)
          setDraft control.cell draft
          sendAll i control rest

section

variable [DecidableEq B] [DecidableEq U] [DecidableEq E]

def complete (i : ℕ) (control : ResponseControl) (response : ModelResponse B U E) :
    Call β D Error Unit :=
  withShared i control.cell do
    let shared ← Prog.gets fun s => s.shared control.cell
    if shared.done then .fail (.invalid "the response is already completed or discarded")
    else
      match shared.failure.filter stopsCompletion with
      | some kept => .fail kept
      | none =>
          let deltas ← Prog.ofExcept
            (wholeResponseDeltas settings.messages shared.draft response)
          sendAll settings i control deltas
          setDone control.cell

end

def discard (i : ℕ) (control : ResponseControl) : Call β D Error Unit :=
  withShared i control.cell do
    let shared ← Prog.gets fun s => s.shared control.cell
    if shared.done || !shared.sent then return ()
    else
      match shared.failure with
      | some .streamBroken | some .streamClosed => return ()
      | _ =>
          let sent ← (sendDelta settings i control
            (wrap settings.messages shared.draft .responseInterrupted)).attempt
          match sent with
          | .ok () => setDone control.cell
          | .error .streamClosed => keepFailure control.cell .streamClosed
          | .error error =>
              keepFailure control.cell error
              .fail error

def «end» {ε : Type} (i : ℕ) (control : ResponseControl) : Call β D ε Unit :=
  withShared i control.cell (setDone control.cell)

/-- `controls`: a response with the lane of its turn. -/
def controls {ε : Type} (t : ThreadRef) (turn : AiTurnRef) (entry : Uuid) :
    Call β D ε ResponseControl :=
  .atom (Inner.newShared · (settings.draft turn.id entry)) fun s =>
    .ret ⟨s.nextShared, t, turn.id⟩

/-! ## The operations on responses -/

/-- `fault` of what goes wrong. -/
def faulty {α : Type} (work : Call β D Error α) : Call β D PortError α :=
  work.mapError PortError.fault

def needsOpening (i : ℕ) (t : ThreadRef) (turn : AiTurnRef) : Call β D Error Bool :=
  withMem i t do
    let held ← Prog.gets fun s => (s.mem t).turns.lookup turn.id
    match held with
    | none => return true
    | some state => if state.closed then .fail closedTurn else return false

/-- `ordered_with_context`, and the work it is called for: the order is left once, for the
context, if the turn needs an opening. -/
def orderedWithContext {α : Type} (i : ℕ) (t : ThreadRef) (turn : AiTurnRef)
    (work : Option WriteContext → Call β D Error α) : Call β D PortError α := do
  let done ← faulty <| ordered i t do
    let needs ← needsOpening i t turn
    if needs then return none
    else do
      let a ← work none
      return some a
  match done with
  | some a => return a
  | none =>
      let ctx ← contextFor t
      faulty (ordered i t (work (some ctx)))

def heldResponse (i : ℕ) (t : ThreadRef) (entry : Uuid) :
    Call β D Error (Option ResponseControl) :=
  withMem i t do
    let held ← Prog.gets fun s => (s.mem t).responses.lookup entry
    return held.map OpenResponse.control

/-- The work of `open_response`. -/
def openWork (i : ℕ) (t : ThreadRef) (turn : AiTurnRef) (entry : Uuid)
    (ctx : Option WriteContext) : Call β D Error ResponseControl := do
  let earlier ← withMem i t do
    match ctx with
    | some ctx => ensureTurn settings i t turn ctx
    | none => pure ()
    let held ← Prog.gets fun s => (s.mem t).responses.lookup entry
    return held.map OpenResponse.control
  match earlier with
  | some earlier =>
      discard settings i earlier
      «end» i earlier
  | none => pure ()
  let control ← controls settings t turn entry
  withMem i t (Prog.modify (Inner.putResponse · t entry ⟨turn.agent, control⟩))
  return control

def openResponse (i : ℕ) (t : ThreadRef) (turn : AiTurnRef) (entry : Uuid) :
    Call β D PortError Unit := do
  Prog.modify (Inner.addSlot · t)
  let sink ← orderedWithContext i t turn (openWork settings i t turn entry)
  Prog.modify (Inner.giveSink · sink)

section

variable [DecidableEq B] [DecidableEq U] [DecidableEq E]

/-- The work of `complete_response`. -/
def completeWork (i : ℕ) (t : ThreadRef) (turn : AiTurnRef) (entry : Uuid)
    (response : ModelResponse B U E) (ctx : WriteContext) : Call β D Error Unit := do
  let held ← withMem i t do
    ensureTurn settings i t turn ctx
    let held ← Prog.gets fun s => (s.mem t).responses.lookup entry
    return held.map OpenResponse.control
  let control ← match held with
    | some control => Prog.ret control
    | none => controls settings t turn entry
  complete settings i control response
  «end» i control
  withMem i t (Prog.modify (Inner.removeResponse · t entry))

def completeResponse (i : ℕ) (t : ThreadRef) (turn : AiTurnRef) (entry : Uuid)
    (response : ModelResponse B U E) : Call β D PortError Unit := do
  let ctx ← contextFor t
  Prog.modify (Inner.addSlot · t)
  faulty (ordered i t (completeWork settings i t turn entry response ctx))

end

/-- The work of `discard_response`. -/
def discardWork (i : ℕ) (t : ThreadRef) (entry : Uuid) : Call β D Error Unit := do
  let held ← heldResponse i t entry
  match held with
  | none => return ()
  | some control =>
      discard settings i control
      «end» i control
      withMem i t (Prog.modify (Inner.removeResponse · t entry))

def discardResponse (i : ℕ) (t : ThreadRef) (entry : Uuid) : Call β D PortError Unit := do
  Prog.modify (Inner.addSlot · t)
  faulty (ordered i t (discardWork settings i t entry))

def openResult (i : ℕ) (t : ThreadRef) (turn : AiTurnRef) : Call β D PortError Unit := do
  Prog.modify (Inner.addSlot · t)
  orderedWithContext i t turn fun
    | none => return ()
    | some ctx => withMem i t (ensureTurn settings i t turn ctx)

/-! ## The other operations on turns -/

def addInputTurn (i : ℕ) (t : ThreadRef) (turn : InputTurn β) : Call β D PortError Unit := do
  let ctx ← contextFor t
  let body ← faulty (Prog.ofExcept (turn.json.mapError Error.invalid))
  Prog.modify (Inner.addSlot · t)
  faulty <| ordered i t <| withMem i t do
    let id ← newId settings
    let tip ← Prog.gets fun s => (s.mem t).tip
    accept settings i t (wholeItem t id tip turn body ctx)
    Prog.modify (Inner.setTip · t (some turn.id))

def entryIntoTurn (i : ℕ) (t : ThreadRef) (turn : AiTurnRef) (ctx : WriteContext)
    (entry : Uuid) (chunk : Chunk β) : Call β D PortError Unit := do
  Prog.modify (Inner.addSlot · t)
  faulty <| ordered i t <| withMem i t do
    ensureTurn settings i t turn ctx
    let id ← newId settings
    pushChunk settings i t turn.id [entry] chunk id

def addEntry (i : ℕ) (t : ThreadRef) (turn : AiTurnRef) (entry : TurnEntry β) :
    Call β D PortError Unit := do
  match entry.kind with
  | .modelResponse | .turnClosure =>
      .fail (.fault (.invalid "an entry that is a model response or a closure"))
  | .other =>
      let chunk ← faulty (Prog.ofExcept (entryChunk entry))
      let ctx ← contextFor t
      entryIntoTurn settings i t turn ctx entry.id chunk

def completeResult (i : ℕ) (t : ThreadRef) (turn : AiTurnRef)
    (results : RuntimeToolResults β) : Call β D PortError Unit := do
  let chunk ← faulty (Prog.ofExcept (entryChunk results.entry))
  let ctx ← contextFor t
  entryIntoTurn settings i t turn ctx results.entry.id chunk

def addAnnotation (i : ℕ) (t : ThreadRef) (message entry : Uuid)
    (value : Threads.Annotation β) : Call β D PortError Unit := do
  let chunk ← faulty (Prog.ofExcept (annotationChunk entry value))
  Prog.modify (Inner.addSlot · t)
  faulty <| ordered i t <| withMem i t do
    let held ← Prog.gets fun s => (s.mem t).turns.lookup message
    match held with
    | none => .fail (.invalid "the adapter holds no open state of this turn")
    | some state =>
        if state.closed then .fail closedTurn
        else if entry ∉ state.entries then
          .fail (.invalid "the entry is not one that this adapter queued into this turn")
        else
          let id ← newId settings
          pushChunk settings i t message [] chunk id

/-- The work of `close_turn`. -/
def closeWork (i : ℕ) (t : ThreadRef) (turn : AiTurnRef) (reason : ClosureReason)
    (kind : ClosureKind) (ctx : WriteContext) : Call β D Error Unit :=
  withMem i t do
    let held ← Prog.gets fun s => (s.mem t).turns.lookup turn.id
    if held.any TurnState.closed then .fail closedTurn
    else
      let chunks := (held.map TurnState.chunks).getD []
      let content := carriesContent chunks
      if kind = .completed ∧ !content then
        .fail (.invalid "a Completed closing for a turn that holds no state or no chunk")
      else
        let healthy ← Prog.gets fun s => !s.broken turn.id
        let streamSeal ← Prog.ofExcept
          (if content && (kind = .completed || healthy) then
            (sealOf settings.lib chunks).map some
          else .ok none)
        let id ← newId settings
        let command ← Prog.ofExcept
          (closing settings.lib ⟨id, t, turn.id, reason, streamSeal, ctx.actingUserId⟩)
        accept settings i t (closingItem t command turn.agent turn.id)
        Prog.modify fun s => s.setMem t ((s.mem t).closed turn.id turn.agent s.now)

def closeTurn (i : ℕ) (t : ThreadRef) (turn : AiTurnRef) (reason : ClosureReason) :
    Call β D PortError Unit := do
  let kind ← faulty (Prog.ofExcept (ClosureKind.of reason))
  let ctx ← contextFor t
  Prog.modify (Inner.addSlot · t)
  faulty (ordered i t (closeWork settings i t turn reason kind ctx))

/-! ## Waits and reads -/

/-- The first item that waits was accepted after the target, or none waits. -/
def Inner.past (s : Inner β D) (t : ThreadRef) (target : ℕ) : Bool :=
  (s.queue t).items.head?.all fun head => decide (target < head.no)

def waitPast {ε : Type} (t : ThreadRef) (target : ℕ) : Call β D ε Unit :=
  Prog.acquire (Inner.past · t target) id

def drained {ε : Type} (t : ThreadRef) : Call β D ε Unit := do
  let there ← Prog.gets fun s => decide (t ∈ s.slots)
  if there then
    let target ← Prog.gets fun s => (s.queue t).lastNo
    waitPast t target
  else return ()

def read (i : ℕ) (t : ThreadRef) : Call β D PortError Conversation := do
  drained t
  let context ← faulty (readContext t)
  match context with
  | none => .fail (.fault (.invalid "the thread does not exist"))
  | some .other => .fail (.fault (.unreadable "the context holds no conversation"))
  | some (.conversation conversation) =>
      Prog.modify (Inner.addSlot · t)
      withMem i t (Prog.modify (Inner.setTip · t conversation.turns.getLast?))
      if conversation.id = t then return conversation
      else
        faulty (Prog.ofExcept
          ((settings.fromParts t conversation.turns).mapError Error.library))

/-! ## The end of an instance -/

/-- The slot with its target if the agent has an item or anything in the memory there. -/
def involved {ε : Type} (i : ℕ) (agent : Uuid) (t : ThreadRef) :
    Call β D ε (Option (ThreadRef × ℕ)) := do
  let holdsItem ← Prog.gets fun s => (s.queue t).items.any fun queued => queued.item.agent = agent
  let holdsState ← withMem i t (Prog.gets fun s => (s.mem t).holdsOf agent)
  if holdsItem || holdsState then
    let target ← Prog.gets fun s => (s.queue t).lastNo
    return some (t, target)
  else return none

def allInvolved {ε : Type} (i : ℕ) (agent : Uuid) :
    List ThreadRef → Call β D ε (List (ThreadRef × ℕ))
  | [] => return []
  | t :: rest => do
      let found ← involved i agent t
      let others ← allInvolved i agent rest
      return found.toList ++ others

def endOn {ε : Type} (i : ℕ) (agent : Uuid) (t : ThreadRef) : Call β D ε Unit :=
  ordered i t do
    let gone ← withMem i t do
      let turns ← Prog.gets fun s => (s.mem t).turnsOf agent
      Prog.modify (Inner.unbreak · turns)
      .atom (Inner.dropAgent · i t agent) fun s => .ret ((s.mem t).responsesOf agent)
    Prog.each («end» i) gone

/-- The order in which a map is visited. -/
structure Visit where
  visit : List ThreadRef → List ThreadRef
  perm : ∀ slots, (visit slots).Perm slots

def instanceEnded {ε : Type} (i : ℕ) (agent : Uuid) (order : Visit) : Call β D ε Unit :=
  .atom (fun s => s.observe (.ending i agent s.mem)) fun s => do
    let waits ← allInvolved i agent (order.visit s.slots)
    Prog.each (fun (t, target) => waitPast t target) waits
    Prog.each (fun (t, _) => endOn i agent t) waits
    Prog.modify (Inner.observe · (.returned i agent))

/-! ## Keepalives -/

def dueAt {ε : Type} (i : ℕ) (t : ThreadRef) (message : Uuid) : Call β D ε (Option ℕ) :=
  withMem i t do
    let held ← Prog.gets fun s => (s.mem t).turns.lookup message
    return (held.filter fun state => !state.closed).map fun state =>
      state.lastItemAt + settings.keepaliveInterval

/-- The work of `queue_keepalive`. -/
def keepaliveWork (i : ℕ) (t : ThreadRef) (message : Uuid) : Call β D Error Unit :=
  withMem i t do
    let due ← Prog.gets fun s => s.due settings.keepaliveInterval t message
    let idle ← Prog.gets fun s => (s.queue t).items.isEmpty
    let refused ← Prog.gets fun s => s.refused message
    if !due || !idle || refused then return ()
    else
      let id ← newId settings
      Prog.modify fun s => s.observe (.decided i t message (s.mem t) (s.queue t))
      let kept ← (pushChunk settings i t message [] .keepalive id).attempt
      match kept with
      | .ok () => return ()
      | .error error =>
          Prog.modify fun s => s.setMem t ((s.mem t).retryAt message s.now)
          Prog.modify fun s => s.observe (.unkept i t message error (s.mem t) (s.queue t))
          Prog.modify fun s =>
            s.observe (.report ⟨.itemRefused, t, message, .chunk, id, some error⟩)

def queueKeepalive {ε : Type} (i : ℕ) (t : ThreadRef) (message : Uuid) : Call β D ε Unit := do
  let _ ← (ordered i t (keepaliveWork settings i t message)).attempt
  return ()

def queueEmptied {ε : Type} (t : ThreadRef) : Call β D ε Unit :=
  Prog.acquire (fun s => (s.queue t).items.isEmpty) id

/-- The loop of a keepalive task. -/
def keepalives {ε : Type} (i : ℕ) (t : ThreadRef) (message : Uuid) : ℕ → Call β D ε Unit
  | 0 => return ()
  | rounds + 1 => do
      let stopped ← Prog.gets Inner.stopped
      let refused ← Prog.gets fun s => s.refused message
      if stopped || refused then return ()
      else
        let due ← dueAt settings i t message
        match due with
        | none => return ()
        | some due =>
            let now ← Prog.gets Inner.now
            if now < due then Prog.acquire (fun s => decide (due ≤ s.now)) id
            else
              queueEmptied t
              queueKeepalive settings i t message
            keepalives i t message rounds

/-- A task that was spawned begins. -/
def keepaliveTask {ε : Type} (i task rounds : ℕ) : Call β D ε Unit := do
  Prog.acquire (fun s => (s.tasks task).isSome) id
  .atom (Inner.begin · task) fun s =>
    match s.tasks task with
    | some (t, message) => keepalives settings i t message rounds
    | none => return ()

end

/-! ## The system -/

inductive Op (β B U E : Type) where
  | addInputTurn (t : ThreadRef) (turn : InputTurn β)
  | addEntry (t : ThreadRef) (turn : AiTurnRef) (entry : TurnEntry β)
  | completeResult (t : ThreadRef) (turn : AiTurnRef) (results : RuntimeToolResults β)
  | addAnnotation (t : ThreadRef) (message entry : Uuid) (value : Threads.Annotation β)
  | closeTurn (t : ThreadRef) (turn : AiTurnRef) (reason : ClosureReason)
  | openResponse (t : ThreadRef) (turn : AiTurnRef) (entry : Uuid)
  | completeResponse (t : ThreadRef) (turn : AiTurnRef) (entry : Uuid)
      (response : ModelResponse B U E)
  | discardResponse (t : ThreadRef) (entry : Uuid)
  | openResult (t : ThreadRef) (turn : AiTurnRef)
  | send (sink : ResponseControl) (delta : ResponseDelta B U E)
  | read (t : ThreadRef)
  | instanceEnded (agent : Uuid) (order : Visit)
  | keepalives (task rounds : ℕ)

/-- What the adapter does not decide, with the sections of `new` and of a worker. -/
inductive Env where
  /-- `new` puts the next item of the store into its queue. -/
  | keep
  /-- The next section of the worker of the thread. -/
  | work (t : ThreadRef)
  /-- Threads answers the attempt. -/
  | answer (t : ThreadRef) (answer : Except Error (Option MessageStatus))
  /-- The wait between two attempts is over, or the store has answered. -/
  | goOn (t : ThreadRef)
  /-- The worker is aborted at an await. -/
  | cut (t : ThreadRef)
  | stop
  | tick

namespace Inner

variable (s : Inner β D)

/-- `end_item` takes the item out of the queue. -/
def pop (t : ThreadRef) (head : Queued β) (how : Ended) : Inner β D :=
  s.setQueue t
    { s.queue t with
      items := (s.queue t).items.tail
      lastFailure := none
      dropped := fun entry =>
        (s.queue t).dropped entry || (how ≠ .delivered && head.item.entries.contains entry) }

/-- The opening of the message is refused. -/
def refuse (t : ThreadRef) (item : Item β) : Inner β D :=
  { s with refused := Function.update s.refused item.message true }.observe (.refused t item)

/-- `run` and `end_item` -/
def work (t : ThreadRef) : Option (Inner β D) :=
  match s.worker t with
  | .spawned => some (s.setWorker t .looking)
  | .looking =>
      match (s.queue t).items with
      | [] => some ((s.setQueue t { s.queue t with workerRunning := false }).setWorker t .left)
      | head :: _ => some (s.setWorker t (.took head))
  | .took head =>
      if head.item.kind ≠ .opening ∧ s.refused head.item.message then
        some (s.setWorker t (.ending head .unsent))
      else some (s.setWorker t (.attempting head))
  | .answered head (.ok _) => some (s.setWorker t (.ending head .delivered))
  | .answered head (.error error) =>
      if retryable head.item.kind error then
        some ((s.setQueue t { s.queue t with lastFailure := some (head.item.id, error) }).setWorker
          t (.sleeping head))
      else if head.item.kind = .opening then
        some ((s.refuse t head.item).setWorker t (.ending head .refused))
      else some (s.setWorker t (.ending head .refused))
  | .ending head how =>
      some ({ s with
        broken :=
          if head.item.kind = ItemKind.chunk ∧ how ≠ Ended.delivered then
            Function.update s.broken head.item.message true
          else s.broken }.setWorker t (.popping head how))
  | .popping head how =>
      some (((s.pop t head how).setWorker t (.removing head)).observe
        (.ended t head.item how))
  | _ => none

/-- The next turn of the loop of `new`: a worker is started at the first item of a thread. -/
def keepNext : Option (Inner β D) :=
  match s.leftovers with
  | [] => none
  | (t, item) :: leftovers =>
      let next := { (s.addSlot t).push t item (s.numbers + 1) with
        numbers := s.numbers + 1
        leftovers := leftovers }.observe (.leftover t item)
      some (if (s.queue t).workerRunning then next else next.setWorker t .spawned)

def env : Env → Option (Inner β D)
  | .keep => s.keepNext
  | .work t => s.work t
  | .answer t answer =>
      match s.worker t with
      | .attempting head => some (s.setWorker t (.answered head answer))
      | _ => none
  | .goOn t =>
      match s.worker t with
      | .sleeping _ | .removing _ => some (s.setWorker t .looking)
      | _ => none
  | .cut t =>
      match s.worker t with
      | .spawned | .attempting _ | .sleeping _ | .removing _ =>
          if s.stopped then some (s.setWorker t .cut) else none
      | _ => none
  | .stop => if s.built then some { s with stopped := true } else none
  | .tick => some { s with now := s.now + 1 }

end Inner

section

variable [DecidableEq B] [DecidableEq U] [DecidableEq E] (settings : Settings β D B U E)

def Inner.init (draft : D) (leftovers : List (ThreadRef × Item β)) : Inner β D where
  slots := []
  order := fun _ => none
  memLock := fun _ => none
  mem := fun _ => Mem.default
  queue := fun _ => QueueInner.default
  worker := fun _ => .left
  shared := fun _ => ⟨draft, false, false, none, none⟩
  nextShared := 0
  sinks := []
  tasks := fun _ => none
  nextTask := 0
  numbers := 0
  ids := 0
  now := 0
  refused := fun _ => false
  broken := fun _ => false
  stopped := false
  leftovers := leftovers
  log := []

def ignoring {ε α : Type} (work : Call β D ε α) : Call β D PortError Unit := do
  let _ ← work.attempt
  return ()

def body (i : ℕ) : Op β B U E → Call β D PortError Unit
  | .addInputTurn t turn => addInputTurn settings i t turn
  | .addEntry t turn entry => addEntry settings i t turn entry
  | .completeResult t turn results => completeResult settings i t turn results
  | Op.addAnnotation t message entry value => addAnnotation settings i t message entry value
  | .closeTurn t turn reason => closeTurn settings i t turn reason
  | .openResponse t turn entry => openResponse settings i t turn entry
  | .completeResponse t turn entry response => completeResponse settings i t turn entry response
  | .discardResponse t entry => discardResponse settings i t entry
  | .openResult t turn => openResult settings i t turn
  | .send sink delta => send settings i sink delta
  | .read t => ignoring (read settings i t)
  | .instanceEnded agent order => instanceEnded i agent order
  | .keepalives task rounds => keepaliveTask settings i task rounds

/-- The adapter is there once `new` has returned it. -/
def prog (i : ℕ) (op : Op β B U E) : Call β D PortError Unit := do
  Prog.acquire Inner.built id
  body settings i op

/-- An adapter on what its store has kept. -/
def world (leftovers : List (ThreadRef × Item β)) :
    World (Inner β D) Ask.Reply PortError (Op β B U E) Env where
  init := Inner.init (settings.draft 0 0) leftovers
  prog := prog settings
  env := Inner.env

end

end RunnerKit.Threads.Ops
