import RunnerKit.Jobs.Model

/-!
# The errors of the Fabric

`runner_transport/fail.rs` for the errors of `br-util-nats-fabric`: which of
them say that a stream or a bucket is missing, that a wait fired, that a
payload cannot be decoded, or that the answer is lost.
-/

namespace RunnerKit.RunnerTransport

open RunnerKit.Jobs

/-- The cases of `FabricError` that are told apart, with the text of any
other. -/
inductive FabricError where
  | consumeNoStream
  | publishNoStream
  | publishTimeout (detail : String)
  | subjectNotCovered
  | kv (detail : String) (display : String)
  | decode (subject : String)
  | other (display : String)
deriving DecidableEq

namespace Fail

def streamNotFoundText : String := "stream not found"

def contains (detail part : String) : Bool := decide (part.toList <:+: detail.toList)

def missing (object : String) : Error := .infraMissing (object ++ " is missing")

def unreadablePayload (subject : String) : Error :=
  .unreadable (subject ++ ": the payload cannot be decoded")

def lost (text : String) : Error := .lost ⟨.transport, text⟩

def fabric (object : String) : FabricError → Error
  | .consumeNoStream | .publishNoStream | .subjectNotCovered => missing object
  | .kv detail display =>
      if contains detail streamNotFoundText then missing object
      else lost (object ++ ": " ++ display)
  | .publishTimeout detail => .waitFired (object ++ ": " ++ detail)
  | .decode subject => unreadablePayload subject
  | .other display => lost (object ++ ": " ++ display)

/-- The same for a call that sent nothing. -/
def fabricUnsent (object : String) (error : FabricError) : Error :=
  match fabric object error with
  | .lost failure => .unavailable failure
  | other => other

/-- No error of the Fabric is a refusal of jobs. -/
theorem fabric_ne_refused (object : String) (error : FabricError) (refusal : Refusal) :
    fabric object error ≠ .refused refusal := by
  intro h
  unfold fabric at h
  split at h
  any_goals split at h
  all_goals cases h

theorem fabricUnsent_ne_refused (object : String) (error : FabricError)
    (refusal : Refusal) : fabricUnsent object error ≠ .refused refusal := by
  intro h
  unfold fabricUnsent at h
  split at h
  · cases h
  · exact fabric_ne_refused object error refusal h

end Fail

end RunnerKit.RunnerTransport
