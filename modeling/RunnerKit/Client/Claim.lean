import RunnerKit.Jobs.Text
import RunnerKit.Jobs.Value
import RunnerKit.RunnerTransport.Cancel

/-!
# What a claim gives

`JobsClient::claim` of `client.rs` and the parser of a run object in
`work/parse.rs`, over the answer of the transport. The decoders of the contract are
not in this repository; a `ClaimWire` stands for them.
-/

namespace RunnerKit.Client

open RunnerKit.Jobs RunnerKit.RunnerTransport

/-! ## What comes from outside -/

inductive WireMode where
  | sync | background

structure TriggerV2 where
  jobId : Uuid
  runId : Uuid
  attempt : ℕ
  parentJobId : Uuid
  initialJobId : Uuid
  passport : Value
  triggeredBy : Option Uuid
  config : Option Value
  payload : Option PayloadForm
  mode : Option WireMode
  callerAddress : Option Uuid
  restartOfRunId : Option Uuid

structure ClaimReplyV2 where
  reason : Option String
  retryAfterMs : Option ℕ

structure ClaimWire where
  fromSlice : List UInt8 → Except JsonError Value
  trigger : Value → Except JsonError TriggerV2
  readsPassport : Value → Bool
  reply : Value → Except JsonError ClaimReplyV2
  parseUuid : String → Option Uuid

/-! ## The run object -/

def known : List String :=
  ["version", "run_id", "job_id", "attempt", "parent_job_id", "initial_job_id", "passport",
    "triggered_by", "config", "payload", "mode", "caller_address", "restart"]

structure Parsed where
  wire : TriggerV2
  call : Option CallMode
  unknown : List (String × Value)

structure Unreadable where
  error : Error
  jobId : Option Uuid
  runId : Option Uuid

namespace ClaimWire

variable (w : ClaimWire)

def lenientId (value : Value) (key : String) : Option Uuid :=
  ((value.get key).bind Value.asStr).bind w.parseUuid

def callMode (wire : TriggerV2) : Except String (Option CallMode) :=
  match wire.mode, wire.callerAddress with
  | none, _ => .ok none
  | some .sync, _ => .ok (some .sync)
  | some .background, some callerAddress => .ok (some (.background callerAddress))
  | some .background, none => .error "a background call with no caller address"

/-- The error of a run object that cannot be read. -/
def parseTrigger (value : Value) : Except Error Parsed :=
  match value.asObject with
  | none => .error (.unreadable "the trigger is not an object")
  | some members =>
      match w.trigger value with
      | .error e => .error (unreadableJson "the trigger" e)
      | .ok wire =>
          if !w.readsPassport wire.passport then
            .error (.unreadable "the Passport of the trigger cannot be read")
          else
            match callMode wire with
            | .error text => .error (.unreadable text)
            | .ok call =>
                .ok ⟨wire, call, members.filter fun member => !known.contains member.1⟩

def parsed (value : Value) : Except Unreadable Parsed :=
  match w.parseTrigger value with
  | .ok parsed => .ok parsed
  | .error error =>
      .error ⟨error, w.lenientId value "job_id", w.lenientId value "run_id"⟩

/-! ## The claim -/

/-- The run of the reply, if it has one that is not null. -/
def runOf (value : Value) : Option Value :=
  (value.get "run").filter fun run => !run.isNull

/-- The reply object, read without its run. -/
def shell (value : Value) : Except JsonError ClaimReplyV2 :=
  match runOf value with
  | some _ => w.reply (value.remove "run")
  | none => w.reply value

def refusal (word : String) (reply : ClaimReplyV2) : Refusal :=
  let refusal : Refusal := ⟨.claim, .ofWord word, "", none⟩
  if refusal.reason = .busy then { refusal with retryAfterMs := reply.retryAfterMs }
  else refusal

/-- What a reply gives, once its bytes are JSON. -/
def replied (value : Value) : Except Error (Option Parsed) :=
  if value.asObject.isNone then .error (.unreadable "the claim reply is not an object")
  else
    match w.shell value with
    | .error e => .error (unreadableJson "the claim reply" e)
    | .ok reply =>
        match reply.reason with
        | some word => .error (.refused (refusal word reply))
        | none =>
            match runOf value with
            | none => .ok none
            | some run =>
                match w.parsed run with
                | .ok work => .ok (some work)
                | .error unreadable => .error unreadable.error

/-- `claim`, with what the transport answers to the request. -/
def claim (claimId : Uuid) (wait : ℕ) (answer : Except Error (List UInt8)) :
    Except Error (Option Parsed) :=
  if wait = 0 then .error (.invalidInput "the claim wait is zero")
  else if claimId = 0 then .error (.invalidInput "the claim id is nil")
  else
    match answer with
    | .error error => .error error
    | .ok raw =>
        match w.fromSlice raw with
        | .error e => .error (unreadableJson "the claim reply" e)
        | .ok value => w.replied value

end ClaimWire

end RunnerKit.Client
