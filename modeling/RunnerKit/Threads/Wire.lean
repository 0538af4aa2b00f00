import RunnerKit.Jobs.Model

/-!
# What br-runner-threads puts on the wire

Errors, the chunks of a stream and their seal, and the commands that store and
close a message. The libraries under the crate are the parameter `Library`: how
a value is written as library JSON is part of the value (`β` is a piece of such
JSON), what the hash over chunks is and which details a closure takes are its
functions. The failures and credential failures of the crate have the fields
of those of br-runner-jobs.
-/

namespace RunnerKit.Threads

open Jobs (Uuid Value Failure CredentialFailure)

/-! ## Errors -/

structure Refusal where
  code : String
  reason : Option String
  params : List (String × Value)
  message : String
  commandId : Option Uuid

inductive Error where
  | invalidInput (reason : String)
  | credential (failure : CredentialFailure)
  | unauthenticated
  | unavailable (failure : Failure)
  | lost (failure : Failure)
  | refused (refusal : Refusal)
  | unreadable (text : String)
  | streamBroken
  | streamClosed
  | infraMissing (text : String)
  | store (text : String)

def failureText (failure : Failure) : String :=
  let cause :=
    match failure.cause with
    | .waitFired => "the wait fired"
    | .transport => "the transport failed"
    | .noListener => "no listener"
  cause ++ ": " ++ failure.text

def credentialText (failure : CredentialFailure) : String :=
  let kind :=
    match failure.kind with
    | .noUsable => "no usable credential"
    | .fetchFailed => "credential fetch failed"
  kind ++ ": " ++ failure.text

namespace Error

/-- The `Display` of the error. -/
def text : Error → String
  | .invalidInput reason => "invalid input: " ++ reason
  | .credential failure => credentialText failure
  | .unauthenticated => "unauthenticated"
  | .unavailable failure => "unavailable, " ++ failureText failure
  | .lost failure => "lost, " ++ failureText failure
  | .refused refusal => "refused: " ++ refusal.code
  | .unreadable text => "unreadable: " ++ text
  | .streamBroken => "stream broken"
  | .streamClosed => "stream closed"
  | .infraMissing text => "infra missing: " ++ text
  | .store text => "store: " ++ text

def invalid (reason : String) : Error := .invalidInput reason

/-- An error of the message library, kept by its code. -/
def library (code : String) : Error := .invalidInput code

def fromStore : Error → Error
  | .store text => .store text
  | other => .store other.text

end Error

/-! ## Checks of the input -/

def requireV7 (id : Uuid) (what : String) : Except Error Uuid :=
  if id.extractLsb' 76 4 = 7#4 ∧ id.extractLsb' 62 2 = 2#2 then .ok id
  else .error (.invalid (what ++ " is not a UUIDv7"))

/-- A wait is its number of nanoseconds. -/
def requireWait (wait : ℕ) (what : String) : Except Error Unit :=
  if wait = 0 then .error (.invalid (what ++ " is zero")) else .ok ()

/-! ## Chunks and closures -/

inductive Chunk (β : Type) where
  | delta (json : β)
  | entry (json : β)
  | annotation (after : Uuid) (json : β)
  | keepalive
deriving DecidableEq

def Chunk.isKeepalive {β : Type} : Chunk β → Bool
  | .keepalive => true
  | _ => false

inductive ClosureKind where
  | completed | cancelled | interrupted | budgetExhausted | failed
deriving DecidableEq

/-- A closure reason of the message library: of a kind that the crate knows,
with its detail, or of another one. -/
inductive ClosureReason where
  | known (kind : ClosureKind) (detail : Option String)
  | unknown
deriving DecidableEq

structure Library (β : Type) where
  sealHash : List (Chunk β) → Except String String
  /-- Whether a closure of this kind takes the detail; else the error's code. -/
  closureDetail : ClosureKind → String → Except String Unit
  closureJson : ClosureReason → Except String β

variable {β : Type}

def ClosureKind.of : ClosureReason → Except Error ClosureKind
  | .known kind _ => .ok kind
  | .unknown => .error (.invalid "a closure reason this library does not know")

def ClosureKind.reason (lib : Library β) (kind : ClosureKind) (detail : Option String) :
    Except Error ClosureReason :=
  match kind, detail with
  | .failed, none => .error (.invalid "a Failed closing needs a detail")
  | kind, some detail =>
      (lib.closureDetail kind detail).mapError Error.library |>.map
        fun () => .known kind (some detail)
  | kind, none => .ok (.known kind none)

structure StreamSeal where
  lastSeq : ℕ
  hash : String
deriving DecidableEq

def carriesContent (chunks : List (Chunk β)) : Bool :=
  chunks.any fun chunk => !chunk.isKeepalive

def sealOf (lib : Library β) (chunks : List (Chunk β)) : Except Error StreamSeal :=
  match lib.sealHash chunks with
  | .error text => .error (.invalid text)
  | .ok hash =>
      match chunks.length with
      | 0 => .error (.invalid "a seal needs at least one chunk")
      | count + 1 => .ok ⟨count, hash⟩

/-- `u64::try_from` of a length. -/
def seqOf (length : ℕ) (error : Error) : Except Error ℕ :=
  if length < 2 ^ 64 then .ok length else .error error

/-! ## What is written as a chunk

Each value comes with what the library writes for it. -/

inductive EntryKind where
  | modelResponse | turnClosure | other
deriving DecidableEq

structure TurnEntry (β : Type) where
  id : Uuid
  kind : EntryKind
  json : Except String β

structure Delta (β : Type) where
  turn : Uuid
  entry : Uuid
  completes : Bool
  json : Except String β

structure Annotation (β : Type) where
  wire : Except Error β

def deltaChunk (message : Uuid) (delta : Delta β) : Except Error (Chunk β) :=
  if delta.turn ≠ message then .error (.invalid "a delta names another AI turn")
  else (delta.json.mapError Error.invalid).map .delta

def entryChunk (entry : TurnEntry β) : Except Error (Chunk β) :=
  match entry.kind with
  | .modelResponse | .turnClosure =>
      .error (.invalid "an entry chunk is neither a model response nor a closure")
  | .other => (entry.json.mapError Error.invalid).map .entry

def annotationChunk (after : Uuid) (value : Annotation β) : Except Error (Chunk β) :=
  value.wire.map ( Chunk.annotation after)

/-! ## Commands -/

/-- What an AI turn of a stored message holds: nothing yet, or the whole turn,
whose annotations the adapter leaves empty. -/
inductive AiDelivery (β : Type) where
  | streaming
  | completed (turn : β)

structure AiTurn (β : Type) where
  agentId : Uuid
  authorName : String
  delivery : AiDelivery β

structure StoreMessage (β : Type) where
  messageId : Uuid
  threadId : Uuid
  parentMessageId : Option Uuid
  jobId : Option Uuid
  actingUserId : Option Uuid
  impersonatorId : Option Uuid
  message : AiTurn β

structure CompleteMessage (β : Type) where
  messageId : Uuid
  threadId : Uuid
  streamSeal : StreamSeal
  closure : β
  actingUserId : Option Uuid

structure FailMessage (β : Type) where
  messageId : Uuid
  threadId : Uuid
  streamSeal : Option StreamSeal
  closure : β
  actingUserId : Option Uuid

inductive CommandBody (β : Type) where
  | store (message : StoreMessage β)
  | complete (message : CompleteMessage β)
  | fail (message : FailMessage β)

structure Command (β : Type) where
  id : Uuid
  body : CommandBody β

/-- The seal that a command carries. -/
def CommandBody.streamSeal? : CommandBody β → Option StreamSeal
  | .store _ => none
  | .complete message => some message.streamSeal
  | .fail message => message.streamSeal

structure CloseParts where
  commandId : Uuid
  threadId : Uuid
  messageId : Uuid
  reason : ClosureReason
  streamSeal : Option StreamSeal
  actingUserId : Option Uuid

def closingBody (kind : ClosureKind) (parts : CloseParts) (closure : β) :
    Except Error (CommandBody β) :=
  match kind, parts.streamSeal with
  | .completed, some streamSeal =>
      .ok (.complete
        { messageId := parts.messageId, threadId := parts.threadId,
          streamSeal := streamSeal, closure := closure,
          actingUserId := parts.actingUserId })
  | .completed, none => .error (.invalid "a Completed closing needs a seal")
  | _, streamSeal =>
      .ok (.fail
        { messageId := parts.messageId, threadId := parts.threadId,
          streamSeal := streamSeal, closure := closure,
          actingUserId := parts.actingUserId })

def closing (lib : Library β) (parts : CloseParts) : Except Error (Command β) := do
  let _ ← requireV7 parts.commandId "a command id"
  let kind ← ClosureKind.of parts.reason
  let closure ← (lib.closureJson parts.reason).mapError Error.invalid
  let body ← closingBody kind parts closure
  return { id := parts.commandId, body := body }

/-! ## What these give -/

theorem bind_ok {ε α γ : Type} {x : Except ε α} {f : α → Except ε γ} {c : γ}
    (h : x >>= f = .ok c) : ∃ a, x = .ok a ∧ f a = .ok c := by
  cases x with
  | error e => cases h
  | ok a => exact ⟨a, rfl, h⟩

theorem sealOf_lastSeq {lib : Library β} {chunks : List (Chunk β)}
    {streamSeal : StreamSeal} (h : sealOf lib chunks = .ok streamSeal) :
    streamSeal.lastSeq + 1 = chunks.length ∧
      lib.sealHash chunks = .ok streamSeal.hash := by
  unfold sealOf at h
  split at h
  · cases h
  · rename_i hash hhash
    split at h
    · cases h
    · rename_i count hcount
      cases h
      exact ⟨hcount.symm, hhash⟩

theorem closingBody_streamSeal {kind : ClosureKind} {parts : CloseParts} {closure : β}
    {body : CommandBody β} (h : closingBody kind parts closure = .ok body) :
    body.streamSeal? = parts.streamSeal := by
  unfold closingBody at h
  split at h
  · rename_i streamSeal hseal
    cases h
    exact hseal.symm
  · cases h
  · cases h
    rfl

/-- The command carries the seal it was given. -/
theorem closing_streamSeal {lib : Library β} {parts : CloseParts} {command : Command β}
    (h : closing lib parts = .ok command) :
    command.body.streamSeal? = parts.streamSeal := by
  obtain ⟨_, _, h⟩ := bind_ok h
  obtain ⟨_, _, h⟩ := bind_ok h
  obtain ⟨_, _, h⟩ := bind_ok h
  obtain ⟨body, hbody, h⟩ := bind_ok h
  cases h
  exact closingBody_streamSeal hbody

end RunnerKit.Threads
