import RunnerKit.Jobs.Model
import RunnerKit.Lib.Machine

/-!
# The slots and the dispatch mode

`shared.rs`, `slot.rs` and `feeds.rs` of the toolkit as far as claims go: the
mode feed bumps the epoch and then publishes the mode, a slot dates its claim
by the epoch, and a stopping refusal stops the claims of that epoch. Each
load, store and publication is a step of its own, so is each answer of jobs.

A claim counts as sent at the load of its epoch, which is the last thing
`claim_step` does before the call.
-/

namespace RunnerKit.Toolkit

open RunnerKit.Lib

/-! ## Shared values -/

abbrev Epoch := BitVec 64

/-- `u64::MAX`. -/
def notStopped : Epoch := BitVec.allOnes 64

inductive Mode where
  | noEntry | push | claim
deriving DecidableEq

structure LoopState where
  mode : Mode
  replayComplete : Bool

def LoopState.canAsk (state : LoopState) : Bool :=
  state.mode ≠ .noEntry && state.replayComplete

def mustWait (state : LoopState) (holdsClaim claimsBlocked : Bool) : Bool :=
  !state.canAsk || (claimsBlocked && (state.mode ≠ .push || holdsClaim))

/-! ## A slot -/

/-- The places of the loop `run`. A slot that holds a claim repeats it. -/
inductive Slot where
  | top (held : Option Jobs.Uuid)
  /-- It has read the loop state and its version. -/
  | looked (held : Option Jobs.Uuid) (state : LoopState) (version : ℕ)
  /-- In `claims_stopped`, between the two loads. -/
  | asked (held : Option Jobs.Uuid) (state : LoopState) (version : ℕ)
      (stopped : Epoch)
  | waiting (held : Option Jobs.Uuid) (version : ℕ)
  | claiming (held : Option Jobs.Uuid)
  | sent (claimId : Jobs.Uuid) (claim : ℕ) (epoch : Epoch)
  /-- In `stop_claims`, before the load. -/
  | stopping (claim : ℕ) (epoch : Epoch)
  /-- In `stop_claims`, before the store. -/
  | storing (claim : ℕ) (epoch : Epoch)
  | pausing (claimId : Jobs.Uuid)
  /-- In `push_step` or in a Run. -/
  | working (held : Option Jobs.Uuid)
  | left

def Slot.claims (held : Option Jobs.Uuid) (state : LoopState) : Bool :=
  held.isSome || decide (state.mode = .claim)

/-- Where the loop goes once it knows whether the claims are blocked. -/
def Slot.choose (held : Option Jobs.Uuid) (state : LoopState) (version : ℕ)
    (claimsBlocked : Bool) : Slot :=
  if mustWait state held.isSome claimsBlocked then .waiting held version
  else if Slot.claims held state && !claimsBlocked then .claiming held
  else .working held

/-- What a claim gives. -/
inductive Reply where
  | work
  | none
  | error (error : Jobs.Error)

def Slot.reply (claimId : Jobs.Uuid) (claim : ℕ) (epoch : Epoch) : Reply → Slot
  | .work => .working .none
  | .none => .top .none
  | .error (.refused refusal) =>
      match refusal.reason with
      | .busy => .pausing claimId
      | .instanceUnknown => .pausing claimId
      | .claimSpent => .top .none
      | _ => .stopping claim epoch
  | .error (.invalidInput _) => .stopping claim epoch
  | .error _ => .pausing claimId

/-! ## The whole -/

inductive Obs where
  | given (mode : Mode)
  | sent (claim : ℕ)
  | processed (claim : ℕ)
  | asked (slot : ℕ)
  | answered (slot : ℕ) (stopped : Bool)
deriving DecidableEq

structure Sys where
  modeEpoch : Epoch
  stoppedEpoch : Epoch
  loopState : LoopState
  version : ℕ
  /-- In `mode_changed`, between the bump and the publication. -/
  feed : Option Mode
  drain : Bool
  slots : ℕ → Slot
  claims : ℕ
  log : List Obs

inductive SlotEvent where
  | look
  | ask
  | answer
  | wake
  | send (fresh : Jobs.Uuid)
  | reply (reply : Reply)
  | stopLoad
  | stopStore
  | resume
  | panic

inductive Event where
  | given (mode : Mode)
  | publish
  | replay (complete : Bool)
  | drain
  | slot (slot : ℕ) (event : SlotEvent)

namespace Sys

def init : Sys :=
  { modeEpoch := 0, stoppedEpoch := notStopped
    loopState := ⟨.noEntry, false⟩, version := 0, feed := none, drain := false
    slots := fun _ => .top none, claims := 0, log := [] }

/-- What `claims_stopped` gives when nothing happens between its loads. -/
def claimsStopped (s : Sys) : Bool := decide (s.stoppedEpoch = s.modeEpoch)

def setSlot (s : Sys) (i : ℕ) (slot : Slot) : Sys :=
  { s with slots := Function.update s.slots i slot }

def observe (s : Sys) (obs : Obs) : Sys := { s with log := s.log ++ [obs] }

/-- `send_modify` on the loop state. -/
def sendModify (s : Sys) (state : LoopState) : Sys :=
  { s with loopState := state, version := s.version + 1 }

/-- The first step of `mode_changed`. -/
def bump (s : Sys) (mode : Mode) : Sys :=
  { s with modeEpoch := s.modeEpoch + 1, feed := some mode }.observe (.given mode)

/-- The second step of `mode_changed`. -/
def publish (s : Sys) (mode : Mode) : Sys :=
  { s with feed := none }.sendModify { s.loopState with mode := mode }

/-- The first load of `claims_stopped`, for a slot that claims. -/
def ask (s : Sys) (i : ℕ) (held : Option Jobs.Uuid) (state : LoopState)
    (version : ℕ) : Sys :=
  if Slot.claims held state then
    (s.setSlot i (.asked held state version s.stoppedEpoch)).observe (.asked i)
  else s.setSlot i (Slot.choose held state version false)

/-- The second load of `claims_stopped`. -/
def answer (s : Sys) (i : ℕ) (held : Option Jobs.Uuid) (state : LoopState)
    (version : ℕ) (stopped : Epoch) : Sys :=
  (s.setSlot i (Slot.choose held state version (stopped = s.modeEpoch))).observe
    (.answered i (stopped = s.modeEpoch))

/-- The start of `claim_step`. -/
def send (s : Sys) (i : ℕ) (held : Option Jobs.Uuid) (fresh : Jobs.Uuid) : Sys :=
  { s.setSlot i (.sent (held.getD fresh) s.claims s.modeEpoch) with
    claims := s.claims + 1 }.observe (.sent s.claims)

/-- The load of `stop_claims`: a refusal of an older claim ends here. -/
def stopLoad (s : Sys) (i claim : ℕ) (epoch : Epoch) : Sys :=
  if epoch = s.modeEpoch then s.setSlot i (.storing claim epoch)
  else (s.setSlot i (.top none)).observe (.processed claim)

/-- The store of `stop_claims`. -/
def stopStore (s : Sys) (i claim : ℕ) (epoch : Epoch) : Sys :=
  { s.setSlot i (.top none) with stoppedEpoch := epoch }.observe (.processed claim)

def slotStep (s : Sys) (i : ℕ) : SlotEvent → Option Sys
  | .look =>
      match s.slots i with
      | .top held =>
          if s.drain then some (s.setSlot i .left)
          else some (s.setSlot i (.looked held s.loopState s.version))
      | _ => none
  | .ask =>
      match s.slots i with
      | .looked held state version => some (s.ask i held state version)
      | _ => none
  | .answer =>
      match s.slots i with
      | .asked held state version stopped =>
          some (s.answer i held state version stopped)
      | _ => none
  | .wake =>
      match s.slots i with
      | .waiting held version =>
          if s.version ≠ version then some (s.setSlot i (.top held))
          else if s.drain then some (s.setSlot i .left)
          else none
      | _ => none
  | .send fresh =>
      match s.slots i with
      | .claiming held => some (s.send i held fresh)
      | _ => none
  | .reply reply =>
      match s.slots i with
      | .sent claimId claim epoch =>
          some (s.setSlot i (Slot.reply claimId claim epoch reply))
      | _ => none
  | .stopLoad =>
      match s.slots i with
      | .stopping claim epoch => some (s.stopLoad i claim epoch)
      | _ => none
  | .stopStore =>
      match s.slots i with
      | .storing claim epoch => some (s.stopStore i claim epoch)
      | _ => none
  | .resume =>
      match s.slots i with
      | .pausing claimId => some (s.setSlot i (.top (some claimId)))
      | .working held => some (s.setSlot i (.top held))
      | _ => none
  | .panic =>
      match s.slots i with
      | .left => none
      | _ => some (s.setSlot i (.top none))

def step (s : Sys) : Event → Option Sys
  | .given mode =>
      match s.feed with
      | none => some (s.bump mode)
      | some _ => none
  | .publish => s.feed.map s.publish
  | .replay complete =>
      some (s.sendModify { s.loopState with replayComplete := complete })
  | .drain => some { s with drain := true }
  | .slot i event => s.slotStep i event

def machine : Machine Sys Event := ⟨init, step⟩

end Sys

end RunnerKit.Toolkit
