import RunnerKit.Calls.Child
import RunnerKit.Graphql.Items
import RunnerKit.Jobs.Text

/-!
# One call of a RunnerTool

`call/` of br-runner-as-tool. A call prepares its payload, hands over the upload
and the create of one child Job, and in sync mode waits for the end of the call,
takes the Result, hands over the finish and runs the result processor. The waits
look for the cancel view at different places: the builder, the Result read and
the processor after the view (`race.rs`), the end of the call and the end of the
create before it (`sync_call.rs`). Each look is a step of its own, and the view,
the end of the create and the end wait move between any two steps. The host may
drop the future of the call at an await.

The blocks of a tool content, their constructors and the text of the arguments
are those of the contract crate, so they are parameters here; `χ` are the causes
of the author and of the contract crate. An end of a kind that the library does
not know is left out.
-/

namespace RunnerKit.AsTool

open RunnerKit.Jobs RunnerKit.Queue RunnerKit.Calls RunnerKit.Lib

variable {β χ : Type}

/-! ## What a call gives -/

structure ToolContent (β : Type) where
  blocks : List β
  isError : Bool

/-- The causes of a fault: of the author or the contract crate, an error of the
jobs client, and `CreateRemoved`. -/
inductive Cause (χ : Type) where
  | other (cause : χ)
  | jobs (error : Jobs.Error)
  | createRemoved (removal : Removal)

inductive Stop (χ : Type) where
  | flag (text : String)
  | fault (cause : Cause χ)
  | cancelled

inductive AuthorFailure (χ : Type) where
  | refused (text : String)
  | fault (cause : χ)

def AuthorFailure.stop : AuthorFailure χ → Stop χ
  | .refused text => .flag text
  | .fault cause => .fault (.other cause)

/-! ## The tool -/

inductive ToolMode where
  | sync
  | background (callerAddress : Uuid)

def ToolMode.callMode : ToolMode → CallMode
  | .sync => .sync
  | .background callerAddress => .background callerAddress

inductive PayloadKind where
  | inline | kept

/-- `author.rs`: what a payload builder gives. -/
inductive Payload where
  | content (content : Content)
  | reference (service documentId : String)

/-- `RunnerToolCode`, with the identifiers that the call makes, the JSON text of
its arguments, and the constructors of the contract crate. -/
structure Tool (β χ : Type) where
  runnerType : String
  mode : ToolMode
  config : Option Value
  maxAttempts : Option ℤ
  kind : PayloadKind
  keep : Bool
  builder : Bool
  processor : Bool
  child : Uuid
  createId : Uuid
  cancelId : Uuid
  finishId : Uuid
  arguments : Except χ String
  text : String → Except χ β
  errorText : String → Except χ (ToolContent β)

namespace Tool

variable (tool : Tool β χ)

def textBlock (text : String) : Except (Stop χ) β :=
  (tool.text text).mapError fun cause => .fault (.other cause)

def blank (text : String) : Bool := text.toList.all Graphql.isWhitespace

/-- `content.rs`. -/
def defaultContent (result : Content) : Except (Stop χ) (ToolContent β) := do
  let message ←
    if blank result.message then pure []
    else (fun block => [block]) <$> tool.textBlock result.message
  let attachments ← result.attachments.mapM fun attachment =>
    tool.textBlock ("Attachment " ++ attachment.name ++ " (" ++ attachment.contentType ++
      "):\n" ++ attachment.content)
  let blocks := message ++ attachments
  if blocks.isEmpty then
    let nothing ← tool.textBlock ("The runner " ++ tool.runnerType ++ " returned nothing.")
    pure ⟨[nothing], false⟩
  else pure ⟨blocks, false⟩

def endedText (outcome message : String) : String :=
  "The runner " ++ tool.runnerType ++ " " ++ outcome ++ ".\n" ++ message

def refusalText : Jobs.Error → String
  | .refused refusal =>
      if blank refusal.message then refusal.reason.asStr else refusal.message
  | other => other.display

def removed : Removal → Stop χ
  | .refused error => .flag (refusalText error)
  | .failed error => .fault (.jobs error)
  | removal => .fault (.createRemoved removal)

def readStop : Jobs.Error → Stop χ
  | .refused refusal =>
      .flag ("The Result read of the runner " ++ tool.runnerType ++ " was refused: " ++
        refusalText (.refused refusal))
  | other => .fault (.jobs other)

/-- The text of a background call that was handed over. -/
def acknowledgement : Except (Stop χ) (ToolContent β) := do
  let block ← tool.textBlock ("The runner " ++ tool.runnerType ++
    " was asked to do the work as the child Job " ++ tool.child.hyphenated ++
    ". The create was handed over to jobs and is not confirmed until the notice " ++
    "\"accepted\" reaches you. The notice \"refused\" tells you that jobs refused " ++
    "the create. The answer comes later by mail. " ++
    "The notices of this work name the child Job " ++ tool.child.hyphenated ++ ".")
  pure ⟨[block], false⟩

/-! ## What a call returns -/

def flag (text fallback : String) : Except (Cause χ) (ToolContent β) :=
  (tool.errorText (if blank text then fallback else text)).mapError .other

/-- `into_result`, and the content of a call that did not stop. -/
def intoResult : Except (Stop χ) (ToolContent β) → Except (Cause χ) (ToolContent β)
  | .ok content => .ok content
  | .error (.flag text) => tool.flag text "The call was refused."
  | .error (.fault cause) => .error cause
  | .error .cancelled =>
      tool.flag ("The call to the runner " ++ tool.runnerType ++ " was cancelled.")
        "The call was cancelled."

end Tool

/-! ## The state -/

structure Prepared where
  form : PayloadForm
  upload : Option Content

def withContent (tool : Tool β χ) (content : Content) : Prepared :=
  match tool.kind with
  | .kept => ⟨.kept, some content⟩
  | .inline => ⟨.inline content, none⟩

inductive Act (β χ : Type) where
  | builder
  | built (result : Except (AuthorFailure χ) Payload)
  | readResult (reference : ResultRef) (keep : Bool)
  | processor (result : Content)
  | processed (result : Except (AuthorFailure χ) (List β))
  /-- The handle did not take the call that follows. -/
  | refused (error : Jobs.Error)
  | returned (result : Except (Cause χ) (ToolContent β))

/-- What `unless_cancelled` waits for. -/
inductive Work where
  | build
  | read (reference : ResultRef)
  | process (result : Content)

inductive Place (β χ : Type) where
  | start
  /-- `unless_cancelled`: the view first, then the work. -/
  | guard (view : Bool) (work : Work)
  | uploadView (content : Content)
  | upload (content : Content)
  | createView (form : PayloadForm)
  | create (form : PayloadForm)
  /-- The three branches of the race, while the end of the create is awaited or
  was taken. -/
  | raceEnd (createEnd : Bool)
  | raceCreated (createEnd : Bool)
  | raceView (createEnd : Bool)
  | unlessDead (createEnd : Bool) (stop : Stop χ)
  | cancel (stop : Stop χ)
  | view (read : Except (Stop χ) Content)
  | finish (read : Except (Stop χ) Content)
  | backgroundView
  | give (result : Except (Stop χ) (ToolContent β))
  | done

structure Sys (β χ : Type) where
  cancel : Bool
  createEnd : Option WriteResult
  waitEnd : Option (Except Jobs.Error SyncEnd)
  place : Place β χ
  log : List (Obs (Act β χ))

def Sys.new : Sys β χ where
  cancel := false
  createEnd := none
  waitEnd := none
  place := .start
  log := []

inductive Answer (β χ : Type) where
  | nothing
  | built (result : Except (AuthorFailure χ) Payload)
  | read (result : Except Jobs.Error Content)
  | processed (result : Except (AuthorFailure χ) (List β))
  | taken (result : Except Jobs.Error Unit)

inductive Event (β χ : Type) where
  | trigger
  | createEnds (result : WriteResult)
  | waitEnds (result : Except Jobs.Error SyncEnd)
  | step (answer : Answer β χ)
  | abandon

/-! ## The call -/

def Sys.goTo (s : Sys β χ) (place : Place β χ) : Sys β χ := { s with place := place }

def Sys.say (s : Sys β χ) (obs : List (Obs (Act β χ))) : Sys β χ :=
  { s with log := s.log ++ obs }

def stopWith (stop : Stop χ) : Place β χ := .give (.error stop)

/-- `hand_upload` does nothing when there is no upload. -/
def handOver (prepared : Prepared) : Place β χ :=
  match prepared.upload with
  | some content => .uploadView content
  | none => .createView prepared.form

def Tool.createInput (tool : Tool β χ) (form : PayloadForm) : CreateChildInput :=
  { CreateChildInput.new tool.child tool.createId tool.runnerType tool.mode.callMode form with
    config := tool.config
    maxAttempts := tool.maxAttempts }

/-- Where a call goes whose create was taken. -/
def Tool.created (tool : Tool β χ) : Place β χ :=
  match tool.mode with
  | .sync => .raceEnd true
  | .background _ => .backgroundView

def Sys.dead (s : Sys β χ) (createEnd : Bool) : Bool :=
  createEnd && match s.createEnd with
    | some (.err _) => true
    | _ => false

/-- The view was seen triggered, and the call stops. -/
def Sys.stopped (s : Sys β χ) : Sys β χ := (s.say [.triggered]).goTo (stopWith .cancelled)

/-- `take_result` of an end that holds the Result, or none at all. -/
def Sys.took (s : Sys β χ) (result : Content) : Sys β χ :=
  (s.say [.read (.ok result)]).goTo (.view (.ok result))

/-- `settle`. -/
def Sys.settle (tool : Tool β χ) (s : Sys β χ) : SyncEnd → Sys β χ
  | .completed (some content) _ => s.took content
  | .completed none (some reference) =>
      (s.say [.own (.readResult reference tool.keep)]).goTo (.guard true (.read reference))
  | .completed none none => s.took ⟨"", []⟩
  | .failed _ message => s.goTo (stopWith (.flag (tool.endedText "failed" message)))
  | .cancelled message => s.goTo (stopWith (.flag (tool.endedText "cancelled" message)))

/-- `process`. -/
def Sys.process (tool : Tool β χ) (s : Sys β χ) (result : Content) : Sys β χ :=
  if tool.processor then
    (s.say [.own (.processor result)]).goTo (.guard true (.process result))
  else s.goTo (.give (tool.defaultContent result))

/-- The poll of the work of `unless_cancelled`. -/
def Sys.pollWork (tool : Tool β χ) (s : Sys β χ) : Work → Answer β χ → Option (Sys β χ)
  | work, .nothing => some (s.goTo (.guard true work))
  | .build, .built (.ok (.content content)) =>
      some ((s.say [.own (.built (.ok (.content content)))]).goTo
        (handOver (withContent tool content)))
  | .build, .built (.ok (.reference service documentId)) =>
      some ((s.say [.own (.built (.ok (.reference service documentId)))]).goTo
        (handOver ⟨.reference service documentId, none⟩))
  | .build, .built (.error failure) =>
      some ((s.say [.own (.built (.error failure))]).goTo (stopWith failure.stop))
  | .read _, .read (.ok result) => some (s.took result)
  | .read _, .read (.error error) =>
      some ((s.say [.read (.error error)]).goTo (.view (.error (tool.readStop error))))
  | .process _, .processed (.ok blocks) =>
      some ((s.say [.own (.processed (.ok blocks))]).goTo (.give (.ok ⟨blocks, false⟩)))
  | .process _, .processed (.error failure) =>
      some ((s.say [.own (.processed (.error failure))]).goTo (stopWith failure.stop))
  | _, _ => none

/-- The next action of the call. -/
def Sys.run (tool : Tool β χ) (s : Sys β χ) (answer : Answer β χ) : Option (Sys β χ) :=
  match s.place, answer with
  | .start, .nothing =>
      some (if tool.builder then (s.say [.own .builder]).goTo (.guard true .build)
        else match tool.arguments with
          | .ok message => s.goTo (handOver (withContent tool ⟨message, []⟩))
          | .error cause => s.goTo (stopWith (.fault (.other cause))))
  | .guard true work, .nothing =>
      some (if s.cancel then s.stopped else s.goTo (.guard false work))
  | .guard false work, answer => s.pollWork tool work answer
  | .uploadView content, .nothing =>
      some (if s.cancel then s.stopped else s.goTo (.upload content))
  | .upload content, .taken (.ok ()) =>
      some ((s.say [.upload tool.child content true]).goTo (.createView .kept))
  | .upload content, .taken (.error error) =>
      some (((s.say [.own (.refused error)]).say [.upload tool.child content false]).goTo
        (stopWith (.fault (.jobs error))))
  | .createView form, .nothing =>
      some (if s.cancel then s.stopped else s.goTo (.create form))
  | .create form, .taken (.ok ()) =>
      some ((s.say [.create (tool.createInput form) true]).goTo tool.created)
  | .create form, .taken (.error error) =>
      some (((s.say [.own (.refused error)]).say [.create (tool.createInput form) false]).goTo
        (stopWith (.fault (.jobs error))))
  | .raceEnd createEnd, .nothing =>
      some (match s.waitEnd with
        | none => s.goTo (.raceCreated createEnd)
        | some (.ok ended) => (s.say [.ended (.ok ended)]).settle tool ended
        | some (.error error) =>
            (s.say [.ended (.error error)]).goTo
              (.unlessDead createEnd (.fault (.jobs error))))
  | .raceCreated false, .nothing => some (s.goTo (.raceView false))
  | .raceCreated true, .nothing =>
      some (match s.createEnd with
        | none => s.goTo (.raceView true)
        | some .ok => (s.say [.created .ok]).goTo (.raceEnd false)
        | some (.err removal) =>
            (s.say [.created (.err removal)]).goTo (stopWith (Tool.removed removal)))
  | .raceView createEnd, .nothing =>
      some (if s.cancel then (s.say [.triggered]).goTo (.unlessDead createEnd .cancelled)
        else s.goTo (.raceEnd createEnd))
  | .unlessDead createEnd stop, .nothing =>
      some ((s.say [.looked (s.dead createEnd)]).goTo
        (if s.dead createEnd then stopWith stop else .cancel stop))
  | .cancel stop, .taken _ =>
      some ((s.say [.cancel tool.child tool.cancelId]).goTo (stopWith stop))
  | .view read, .nothing =>
      some (if s.cancel then s.stopped else (s.say [.passed]).goTo (.finish read))
  | .finish read, .taken _ =>
      let s := s.say [.finish tool.child tool.finishId]
      some (match read with
        | .ok result => s.process tool result
        | .error stop => s.goTo (stopWith stop))
  | .backgroundView, .nothing =>
      some (if s.cancel then (s.say [.triggered]).goTo (.unlessDead true .cancelled)
        else s.goTo (.give tool.acknowledgement))
  | .give result, .nothing =>
      some ((s.say [.own (.returned (tool.intoResult result))]).goTo .done)
  | _, _ => none

/-- The places where the call awaits something. -/
def Place.awaits : Place β χ → Bool
  | .guard true _ | .raceEnd _ => true
  | _ => false

def Sys.step (tool : Tool β χ) (s : Sys β χ) : Event β χ → Option (Sys β χ)
  | .trigger => some { s with cancel := true }
  | .createEnds result =>
      if s.createEnd.isSome then none else some { s with createEnd := some result }
  | .waitEnds result =>
      if s.waitEnd.isSome then none else some { s with waitEnd := some result }
  | .step answer => s.run tool answer
  | .abandon => if s.place.awaits then some ((s.say [.gone]).goTo .done) else none

def machine (tool : Tool β χ) : Machine (Sys β χ) (Event β χ) where
  init := .new
  step := Sys.step tool

end RunnerKit.AsTool
