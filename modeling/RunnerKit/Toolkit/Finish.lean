import RunnerKit.Book.Making
import RunnerKit.Jobs.Text
import RunnerKit.Queue.Shared

/-!
# How a Run ends

`failure.rs`, `run/finish.rs` and the saved document of `saved_state.rs`: what
the ending of a body and the agents of the Run make it hand over. The code of
the runner author runs in between: the answer, the serialisation of the state
and the mapping of failures. Each of these may fail or panic.
-/

namespace RunnerKit.Toolkit

open RunnerKit.Jobs RunnerKit.Book RunnerKit.Queue

/-- What the code of the runner author gives: a value, an error or a panic. -/
inductive Made (α : Type) where
  | made (value : α)
  | err (text : String)
  | panicked (text : String)

/-! ## Failures -/

/-- What a mapping reads. None of the failures that are found here has a cause,
so the reported cause is left out. -/
structure ReportedFailure where
  reasonCode : String
  text : String

structure FailureOverride where
  kind : Option FailureKind
  reasonCode : Option String
  params : Option Value
  diagnostic : Option Value
  retryAfterSeconds : Option ℤ

def FailureOverride.default : FailureOverride := ⟨none, none, none, none, none⟩

/-- A mapping that panics gives the text of its panic. -/
abbrev FailureMapping := ReportedFailure → Except String FailureOverride

structure Found where
  reasonCode : String
  text : String
  kind : FailureKind

def Found.permanent (reasonCode text : String) : Found :=
  ⟨reasonCode, text, .permanent⟩

def Found.overridden (found : Found) (chosen : FailureOverride) : Failed :=
  { kind := chosen.kind.getD found.kind
    reasonCode := chosen.reasonCode.getD found.reasonCode
    params := chosen.params.getD (.object [])
    diagnostic := chosen.diagnostic.getD (.string found.text)
    retryAfterSeconds := chosen.retryAfterSeconds }

def failedOf (found : Found) (mapping : Option FailureMapping) : Failed :=
  match mapping with
  | none => found.overridden .default
  | some map =>
      match map ⟨found.reasonCode, found.text⟩ with
      | .ok chosen => found.overridden chosen
      | .error text =>
          { kind := found.kind, reasonCode := "panic", params := .object []
            diagnostic := .string text, retryAfterSeconds := none }

/-! ## The plan of a Run -/

/-- What the Run reads of its plan and its work. `jsonText` and `jsonValue` are
the serialisation of the state, read as text and as a value. -/
structure Plan (σ : Type) where
  runId : Uuid
  call : Option CallMode
  answer : Option (σ → Made Content)
  canRestart : Bool
  mapping : Option FailureMapping
  jsonText : σ → Made String
  jsonValue : σ → Made Value

inductive Ending (σ : Type) where
  | ended (state : σ)
  | failed (failed : Failed)
  | cancelled

namespace Plan

variable {σ : Type} (plan : Plan σ)

/-- Why no answer or no saved state was made: a failure that was found, or a
panic that goes on to the executor. -/
inductive Unmade where
  | found (found : Found)
  | panicked (text : String)

/-- The answer function runs under a catch of its own. -/
def answerOf (state : σ) : Except Unmade Content :=
  match plan.answer with
  | some answer =>
      match answer state with
      | .made content => .ok content
      | .err text => .error (.found (.permanent "answer_not_made" text))
      | .panicked text => .error (.found (.permanent "panic" text))
  | none =>
      match plan.jsonText state with
      | .made message => .ok ⟨message, []⟩
      | .err text => .error (.found (.permanent "answer_not_made" text))
      | .panicked text => .error (.panicked text)

def savedAgent (agent : BookedAgent) : Value :=
  .object [("agent_id", .string (Uuid.hyphenated agent.agentId)),
    ("has_inbox", .bool agent.hasInbox), ("label", .string agent.key.label),
    ("node", .string agent.key.node)]

/-- `saved_state::encode`. -/
def encode (state : σ) (agents : List BookedAgent) : Made Value :=
  match plan.jsonValue state with
  | .made fields =>
      .made (.object [("agents", .array (agents.map savedAgent)), ("fields", fields)])
  | .err text => .err text
  | .panicked text => .panicked text

def savedOf (state : σ) (agents : List BookedAgent) : Except Unmade Value :=
  match plan.encode state agents with
  | .made value => .ok value
  | .err text => .error (.found (.permanent "saved_state_not_made" text))
  | .panicked text => .error (.panicked text)

def madeWrites (state : σ) (agents : List BookedAgent) :
    Except Unmade (Option Content × Option Value) := do
  let answer ←
    if plan.call = some .sync then some <$> plan.answerOf state else .ok none
  let saved ←
    if plan.canRestart && agents.any BookedAgent.hasInbox then
      some <$> plan.savedOf state agents
    else .ok none
  return (answer, saved)

/-- What `hand_over` hands over, with the panics that `execute` catches. -/
inductive Handing where
  | nothing
  | failed (failed : Failed)
  | completed (answer : Option Content) (saved : Option Value)

def handing (agents : List BookedAgent) : Ending σ → Handing
  | .cancelled => .nothing
  | .failed failed => .failed failed
  | .ended state =>
      match plan.madeWrites state agents with
      | .ok (answer, saved) => .completed answer saved
      | .error (.found found) => .failed (failedOf found plan.mapping)
      | .error (.panicked text) =>
          .failed (failedOf (.permanent "panic" text) plan.mapping)

end Plan

/-! ## The cause of a failed closing -/

def causeText : Removal → Option String
  | .refused error => some error.display
  | .failed error => some error.display
  | _ => none

/-- The removal of one write that the completed fact depends on. -/
def causeOf (code : String) : Option WriteResult → Option (String × String)
  | some (.err removal) => (causeText removal).map fun text => (code, text)
  | _ => none

/-- The answer is looked at first. -/
def closingCause (answer saved : Option WriteResult) : Option (String × String) :=
  (causeOf "answer_refused" answer).or (causeOf "saved_state_refused" saved)

/-- A Run whose completed fact was removed with a write that it depends on
fails with the text of that write's cause. -/
def closingFailed (mapping : Option FailureMapping) (answer saved : Option WriteResult)
    (completed : WriteResult) : Option Failed :=
  if completed = .err .dependsOnRemoved then
    (closingCause answer saved).map fun p => failedOf (.permanent p.1 p.2) mapping
  else none

end RunnerKit.Toolkit
