import Mathlib

/-!
# The values of br-runner-jobs

The error type and the data that the writes of a Run carry. Identifiers are
the 128 bits of a UUID; an instant and a time stamp are numbers of
nanoseconds. A refusal reason of the source compares by its word and every
known word is read as its own variant, so equality of the inductive type is
the comparison of the source.
-/

namespace RunnerKit.Jobs

abbrev Uuid := BitVec 128

instance : LawfulBEq Uuid := inferInstance

/-- A JSON value. The map of an object is the list of its members; a number is
kept as its text. -/
inductive Value where
  | null
  | bool (b : Bool)
  | number (text : String)
  | string (text : String)
  | array (items : List Value)
  | object (members : List (String × Value))

/-! ## Errors -/

inductive Cause where
  | waitFired | transport | noListener
deriving DecidableEq

structure Failure where
  cause : Cause
  text : String
deriving DecidableEq

inductive CredentialKind where
  | noUsable | fetchFailed
deriving DecidableEq

structure CredentialFailure where
  kind : CredentialKind
  text : String
deriving DecidableEq

inductive Operation where
  | claim | startedFact | create | finish | cancel | mail | registration
  | readMarker | agentList | upload | payload | result | savedState
  | attachment | read | size
deriving DecidableEq

inductive RefusalReason where
  | instanceUnknown | notClaimMode | instanceDraining | runnerTypeRetired
  | claimSpent | malformedClaim | busy | runUnknown | runNotStarted | runEnded
  | runRemoved | instanceMismatch | agentIdInOtherTree | agentIdNotFinished
  | itemNotYours | malformed | runHeld | runReservedElsewhere | runNotPending
  | notRequester | runnerNotWorkingTheJob | actingRunMissing
  | actingRunNotLive | jobUnknown | jobTerminal | passportRequired
  | passportUserMismatch | passportParentMismatch | initialJobMismatch
  | parentTerminal | parentJobUnknown | invalidPriority | payloadTooLarge
  | payloadNotUploaded | payloadUploaderMismatch | modeRequired
  | callerAddressNotHeld | callerAddressNotOfRun | maxAttemptsAboveCeiling
  | idReuse | duplicateActiveEntity | malformedPayload | mailNotYours
  | unknown (word : String)
deriving DecidableEq

structure Refusal where
  operation : Operation
  reason : RefusalReason
  message : String
  retryAfterMs : Option ℕ
deriving DecidableEq

inductive Error where
  | invalidInput (text : String)
  | credential (failure : CredentialFailure)
  | unauthenticated
  | unavailable (failure : Failure)
  | lost (failure : Failure)
  | refused (refusal : Refusal)
  | infraMissing (text : String)
  | unreadable (text : String)
  | bookDropped
deriving DecidableEq

def Error.waitFired (text : String) : Error := .lost ⟨.waitFired, text⟩

/-! ## What a write carries -/

structure ContentAttachment where
  name : String
  contentType : String
  content : String
deriving DecidableEq

structure Content where
  message : String
  attachments : List ContentAttachment
deriving DecidableEq

inductive PayloadForm where
  | inline (content : Content)
  | kept
  | reference (service documentId : String)
deriving DecidableEq

inductive CallMode where
  | sync
  | background (callerAddress : Uuid)
deriving DecidableEq

structure AgentDeclaration where
  agentId : Uuid
  hasInbox : Bool
  canRestart : Bool
deriving DecidableEq

structure NewMailAttachment where
  attachmentId : Uuid
  name : String
  contentType : String
  content : String
deriving DecidableEq

structure NewMailInput where
  mailId : Uuid
  fromAddress : Uuid
  author : String
  sourceConversation : Uuid
  subject : String
  body : String
  recipients : List Uuid
  cc : List Uuid
  attachments : List NewMailAttachment
deriving DecidableEq

inductive FailureKind where
  | transient | permanent
deriving DecidableEq

structure Failed where
  kind : FailureKind
  reasonCode : String
  params : Value
  diagnostic : Value
  retryAfterSeconds : Option ℤ

inductive Fact where
  | plan (runId : Uuid) (steps : List String) (declarationId : Option Uuid)
  | step (runId : Uuid) (index : ℕ) (label : String) (startedAt : ℤ)
  | completed (runId : Uuid)
  | failed (runId : Uuid) (failed : Failed)

structure CreateChild where
  commandId : Uuid
  jobId : Uuid
  runnerType : String
  mode : CallMode
  config : Option Value
  payload : PayloadForm
  passport : Value
  parentJobId : Uuid
  initialJobId : Uuid
  runId : Uuid
  maxAttempts : Option ℤ

end RunnerKit.Jobs
