import RunnerKit.Jobs.Value
import RunnerKit.Lib.Log
import RunnerKit.Lib.Machine
import RunnerKit.Threads.Wire

/-!
# One response: its sink and its control

`response/`. The draft and its deltas are those of the message library, which `Messages`
stands for; a delta that a draft rejects leaves it as it is. The state of a response is
behind a lock that a call holds until it returns, so one call at a time is at the lane; the
failure that is kept changes under that lock too. A call whose future is dropped at the lane
lets go of the lock, whether the lane takes the delta or not.
-/

namespace RunnerKit.Threads.Response

open Lib
open Jobs (Uuid Value)

/-! ## Responses and deltas -/

structure Metadata (U : Type) where
  usage : Option U
  model : Option String
  providerResponseId : Option String
deriving DecidableEq

structure ModelResponse (B U E : Type) where
  metadata : Metadata U
  blocks : List B
  ending : E
deriving DecidableEq

inductive DeltaOp (B U E : Type) where
  | responseStarted (metadata : Metadata U)
  | responseMetadataUpdated (update : Metadata U)
  | blockInserted (block : B)
  | blockFinalized (id : Uuid) (block : B)
  | responseCompleted (ending : E)
  | responseInterrupted
  /-- An operation that this crate only passes on. -/
  | other (json : Value)

structure ResponseDelta (B U E : Type) where
  turn : Uuid
  entry : Uuid
  op : DeltaOp B U E

structure Slot where
  block : Uuid
  «open» : Bool

structure Messages (D B U E : Type) where
  fresh : D
  turn : D → Uuid
  entry : D → Uuid
  /-- The next draft, or the code of the error. -/
  apply : D → ResponseDelta B U E → Except String D
  metadata : D → Metadata U
  slots : D → List Slot
  unstarted : D → Bool
  intoResponse : D → Option (ModelResponse B U E)
  blockId : B → Uuid

variable {D B U E : Type} [DecidableEq B] [DecidableEq U] [DecidableEq E]

section

variable (lib : Messages D B U E)

def foldFrom (draft : D) (deltas : List (ResponseDelta B U E)) : Except String D :=
  deltas.foldlM lib.apply draft

/-! ## The deltas of a whole response -/

def unreachableResponse : Error :=
  .invalid "the whole response cannot be reached by more deltas from what was sent"

/-- What the response says and the draft does not hold. -/
def metadataUpdate (draft : D) (response : ModelResponse B U E) : Option (Metadata U) :=
  let held := lib.metadata draft
  let usage := response.metadata.usage.filter fun usage => some usage ≠ held.usage
  let model := response.metadata.model.filter fun model => some model ≠ held.model
  let id := response.metadata.providerResponseId.filter fun id =>
    some id ≠ held.providerResponseId
  if usage.isSome ∨ model.isSome ∨ id.isSome then some ⟨usage, model, id⟩ else none

/-- The finalizations of the open slots, whose blocks are those of the response. -/
def finalizations : List Slot → List B → Except Error (List (DeltaOp B U E))
  | slot :: slots, block :: blocks =>
      if slot.block ≠ lib.blockId block then .error unreachableResponse
      else do
        let rest ← finalizations slots blocks
        return (if slot.open then [.blockFinalized (lib.blockId block) block] else []) ++ rest
  | _, _ => .ok []

/-- The operations, before they are checked on a copy of the draft. -/
def wholeResponseOps (draft : D) (response : ModelResponse B U E) :
    Except Error (List (DeltaOp B U E)) :=
  let slots := lib.slots draft
  if slots.isEmpty ∧ lib.unstarted draft then
    .ok (.responseStarted response.metadata :: response.blocks.map .blockInserted ++
      [.responseCompleted response.ending])
  else if slots.length > response.blocks.length then .error unreachableResponse
  else do
    let finalized ← finalizations lib slots response.blocks
    return ((metadataUpdate lib draft response).toList.map .responseMetadataUpdated ++ finalized ++
      (response.blocks.drop slots.length).map .blockInserted ++
        [.responseCompleted response.ending])

def wrap (draft : D) (op : DeltaOp B U E) : ResponseDelta B U E :=
  ⟨lib.turn draft, lib.entry draft, op⟩

def wholeResponseDeltas (draft : D) (response : ModelResponse B U E) :
    Except Error (List (ResponseDelta B U E)) :=
  match wholeResponseOps lib draft response with
  | .error error => .error error
  | .ok ops =>
      let deltas := ops.map (wrap lib draft)
      match foldFrom lib draft deltas with
      | .error _ => .error unreachableResponse
      | .ok fold =>
          if lib.intoResponse fold ≠ some response then .error unreachableResponse
          else .ok deltas

end

/-! ## The state -/

/-- The call that holds the state, and the delta that it has given to the lane. -/
inductive Holder (B U E : Type) where
  | free
  | sink (delta : ResponseDelta B U E)
  | complete (response : ModelResponse B U E) (delta : ResponseDelta B U E)
      (rest : List (ResponseDelta B U E))
  | discard (delta : ResponseDelta B U E)

inductive Obs (B U E : Type) where
  /-- The delta is given to the lane. -/
  | given (delta : ResponseDelta B U E)
  | taken (delta : ResponseDelta B U E)
  | refused (delta : ResponseDelta B U E) (error : Error)
  | completed (response : ModelResponse B U E) (result : Except Error Unit)
  | discarded (result : Except Error Unit)

structure Shared (D B U E : Type) where
  draft : D
  sent : Bool
  done : Bool
  failure : Option Error
  holder : Holder B U E
  log : List (Obs B U E)

inductive Event (B U E : Type) where
  | send (delta : ResponseDelta B U E)
  | complete (response : ModelResponse B U E)
  | discard
  /-- `end`, which the adapter calls when the response leaves its map. -/
  | «end»
  /-- The lane has answered. -/
  | answer (result : Except Error Unit)
  /-- The future of the call is dropped at the lane. -/
  | drop (taken : Bool)

/-- The errors that no completion goes past. -/
def stopsCompletion : Error → Bool
  | .streamBroken | .streamClosed | .store _ => true
  | _ => false

namespace Shared

def new (draft : D) : Shared D B U E := ⟨draft, false, false, none, .free, []⟩

variable (s : Shared D B U E)

def observe (obs : Obs B U E) : Shared D B U E := { s with log := s.log ++ [obs] }

def keep (error : Error) : Shared D B U E :=
  { s with failure := s.failure.orElse fun () => some error }

/-- The call gives a delta to the lane. -/
def give (holder : Holder B U E) (delta : ResponseDelta B U E) : Shared D B U E :=
  { s with holder := holder, log := s.log ++ [.given delta] }

/-- The call returns. -/
def giveUp (obs : Obs B U E) : Shared D B U E :=
  { s with holder := .free, log := s.log ++ [obs] }

section

variable (lib : Messages D B U E)

def deliver (delta : ResponseDelta B U E) : Shared D B U E :=
  if s.done ∨ s.failure.isSome then s
  else
    match delta.op, lib.apply s.draft delta with
    | .responseCompleted _, .ok _ => s
    | _, .error code => s.keep (Error.library code)
    | _, .ok draft => { s with draft := draft }.give (.sink delta) delta

/-- The next delta of a completion, or its end. -/
def next (response : ModelResponse B U E) : List (ResponseDelta B U E) → Shared D B U E
  | [] => { s with done := true }.giveUp (.completed response (.ok ()))
  | delta :: rest => s.give (.complete response delta rest) delta

def complete (response : ModelResponse B U E) : Shared D B U E :=
  if s.done then
    s.giveUp (.completed response
      (.error (.invalid "the response is already completed or discarded")))
  else
    match s.failure.filter stopsCompletion with
    | some kept => s.giveUp (.completed response (.error kept))
    | none =>
        match wholeResponseDeltas lib s.draft response with
        | .error error => s.giveUp (.completed response (.error error))
        | .ok deltas => s.next response deltas

def discard : Shared D B U E :=
  if s.done ∨ s.sent = false then s.giveUp (.discarded (.ok ()))
  else
    match s.failure with
    | some .streamBroken | some .streamClosed => s.giveUp (.discarded (.ok ()))
    | _ =>
        let delta := wrap lib s.draft .responseInterrupted
        s.give (.discard delta) delta

def answer (result : Except Error Unit) : Option (Shared D B U E) :=
  match s.holder, result with
  | .free, _ => none
  | .sink delta, .ok () =>
      some { s.observe (.taken delta) with sent := true, holder := .free }
  | .sink delta, .error error =>
      some ({ s.observe (.refused delta error) with holder := .free }.keep error)
  | .complete response delta rest, .ok () =>
      let s := { s.observe (.taken delta) with sent := true }
      match lib.apply s.draft delta with
      | .error code => some (s.giveUp (.completed response (.error (Error.library code))))
      | .ok draft => some ({ s with draft := draft }.next response rest)
  | .complete response delta _, .error error =>
      some (((s.observe (.refused delta error)).keep error).giveUp
        (.completed response (.error error)))
  | .discard delta, .ok () =>
      some ({ s.observe (.taken delta) with done := true }.giveUp (.discarded (.ok ())))
  | .discard delta, .error .streamClosed =>
      some (((s.observe (.refused delta .streamClosed)).keep .streamClosed).giveUp
        (.discarded (.ok ())))
  | .discard delta, .error error =>
      some (((s.observe (.refused delta error)).keep error).giveUp (.discarded (.error error)))

/-- The delta that is at the lane. -/
def Holder.delta? : Holder B U E → Option (ResponseDelta B U E)
  | .free => none
  | .sink delta | .complete _ delta _ | .discard delta => some delta

def step : Event B U E → Option (Shared D B U E)
  | .send delta => match s.holder with | .free => some (s.deliver lib delta) | _ => none
  | .complete response =>
      match s.holder with | .free => some (s.complete lib response) | _ => none
  | .discard => match s.holder with | .free => some (s.discard lib) | _ => none
  | .end => match s.holder with | .free => some { s with done := true } | _ => none
  | .answer result => s.answer lib result
  | .drop taken =>
      (Holder.delta? s.holder).map fun delta =>
        { s with holder := .free, log := s.log ++ if taken then [.taken delta] else [] }

end

end Shared

def machine (lib : Messages D B U E) : Machine (Shared D B U E) (Event B U E) :=
  ⟨Shared.new lib.fresh, fun s e => s.step lib e⟩

end RunnerKit.Threads.Response
