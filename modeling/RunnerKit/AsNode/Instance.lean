import RunnerKit.Calls.Child
import RunnerKit.Jobs.Text

/-!
# One instance of a RunnerAsNode

`instance.rs`, `signals.rs`, `sync_call.rs`, `finish.rs` and `outcome.rs` of
br-runner-as-node. The task of an instance reads its input, asks the author for
the request and for a caller handle, calls one child Job and ends with at most
one event. At each await a guard looks for the drop of the event end, then for
the cancel view, then for the work itself; each of these polls is a step of its
own, and so is each of the actions between two awaits. The input channel, the
event end and the cancel view belong to the graph, the end of the create to the
delivery queue, and the end wait to the end store: they move between any two
steps.

A function of the author may panic when it is called, before there is anything
to poll, and at each poll of what it gave; the task then unwinds and leaves its
ends as it is. An end of a kind that the library does not know is left out.
-/

namespace RunnerKit.AsNode

open RunnerKit.Jobs RunnerKit.Queue RunnerKit.Calls RunnerKit.Lib

variable {σ υ χ : Type}

/-! ## What the author gives and gets -/

inductive Payload where
  | inline (content : Content)
  | kept (content : Content)
  | reference (service documentId : String)

structure JobSpec where
  payload : Payload
  config : Option Value

/-- `outcome.rs`: the outcome that the response function is called with. -/
inductive Outcome where
  | completed (inline : Option Content) (resultRef : Option ResultRef)
  | failed (report : Option FailureReportView) (message : String)
  | cancelled (message : String)
  | refusal (reason message : String)

def Outcome.fromEnd : SyncEnd → Outcome
  | .completed inline resultRef => .completed inline resultRef
  | .failed report message => .failed report message
  | .cancelled message => .cancelled message

def Outcome.fromRefusal (refusal : Refusal) : Outcome :=
  .refusal refusal.reason.asStr refusal.message

def Outcome.isCompleted : Outcome → Bool
  | .completed _ _ => true
  | _ => false

/-! ## Events and errors -/

/-- `error.rs`; `χ` are the causes of the author. -/
inductive Error (χ : Type) where
  | callerSource (cause : χ)
  | upload (error : Jobs.Error)
  | create (error : Jobs.Error)
  | createRemoved (what : String) (source : Option Jobs.Error)
  | endWait (error : Jobs.Error)

inductive Failure (χ : Type) where
  | author (cause : χ)
  | library (error : Error χ)

inductive NodeEvent (υ χ : Type) where
  | result (update : υ)
  | failed (failure : Failure χ)
  | cancelled

def removed : Removal → Error χ
  | .failed error =>
      .createRemoved "the delivery queue gave it up after a failure" (some error)
  | .refused error =>
      .createRemoved
        "the delivery queue refused it with an error that is no refusal" (some error)
  | .dependsOnRemoved => .createRemoved "the upload it depends on was removed" none
  | .leftUnsent => .createRemoved "the delivery queue left it unsent" none

/-! ## The state -/

/-- What comes from the author or from the handle at a step of the task. -/
inductive Answer (υ χ : Type) where
  | nothing
  | spec (result : Except χ JobSpec)
  | caller (result : Except χ Unit)
  | update (result : Except χ υ)
  | taken (result : Except Jobs.Error Unit)
  | panicked

/-- The functions of the author that the instance calls, what it is answered, and what
it sends. -/
inductive Act (σ υ χ : Type) where
  | request (state : σ)
  | source
  | response (state : σ) (outcome : Outcome)
  | answered (answer : Answer υ χ)
  | sent (event : NodeEvent υ χ)

/-- What the guard of an await waits for. -/
inductive Work (σ : Type) where
  | input
  | request (state : σ)
  | source (state : σ) (spec : JobSpec)
  /-- The end of the call and, if it is not known yet, the end of the create. -/
  | hear (state : σ) (createEnd : Bool)
  | response (state : σ) (outcome : Outcome)

/-- What a guard does next: the call that makes its work, the three polls, and the second
half of `hear`. -/
inductive Look where
  | called | dropped | cancel | work | created

inductive Place (σ υ χ : Type) where
  | guard (look : Look) (work : Work σ)
  | close (first : σ)
  | drain (first : σ)
  | upload (state : σ) (spec : JobSpec) (content : Content)
  | create (state : σ) (spec : JobSpec)
  | unlessDead (createEnd : Bool) (event : NodeEvent υ χ)
  | cancel (event : NodeEvent υ χ)
  | view (state : σ) (outcome : Outcome)
  | finish (state : σ) (outcome : Outcome)
  | settle (event : NodeEvent υ χ)
  | drop (event : NodeEvent υ χ)
  | send (event : NodeEvent υ χ)
  | done

/-- `parts` and `max_attempts`, and the identifiers that this instance makes. -/
structure Node where
  runnerType : String
  maxAttempts : Option ℤ
  child : Uuid
  createId : Uuid
  cancelId : Uuid
  finishId : Uuid

/-- `accepted` are all inputs that the channel took. -/
structure Sys (σ υ χ : Type) where
  inputs : List σ
  inputEnd : Bool
  reading : Bool
  dropped : Bool
  cancel : Bool
  createEnd : Option WriteResult
  waitEnd : Option (Except Jobs.Error SyncEnd)
  place : Place σ υ χ
  accepted : List σ
  log : List (Obs (Act σ υ χ))

def Sys.new : Sys σ υ χ where
  inputs := []
  inputEnd := true
  reading := true
  dropped := false
  cancel := false
  createEnd := none
  waitEnd := none
  place := .guard .dropped .input
  accepted := []
  log := []

inductive Event (σ υ χ : Type) where
  | input (state : σ)
  | dropInput
  | dropEvents
  | trigger
  | createEnds (result : WriteResult)
  | waitEnds (result : Except Jobs.Error SyncEnd)
  | step (answer : Answer υ χ)

/-! ## The task -/

def Sys.goTo (s : Sys σ υ χ) (place : Place σ υ χ) : Sys σ υ χ := { s with place := place }

def Sys.say (s : Sys σ υ χ) (obs : List (Obs (Act σ υ χ))) : Sys σ υ χ :=
  { s with log := s.log ++ obs }

/-- Every answer is logged as it comes. -/
def Sys.answered (s : Sys σ υ χ) : Answer υ χ → Sys σ υ χ
  | .nothing => s
  | answer => s.say [.own (.answered answer)]

@[simp] theorem answered_place (s : Sys σ υ χ) (answer : Answer υ χ) :
    (s.answered answer).place = s.place := by
  cases answer <;> rfl

/-- `Stop::Gone`: the task ends, and its reader with it. -/
def Sys.leave (s : Sys σ υ χ) : Sys σ υ χ :=
  { s with inputs := [], reading := false, place := .done }

/-- The place of an instance that fails. -/
def failWith (failure : Failure χ) : Place σ υ χ := .settle (.failed failure)

/-- What the cancel view does to a guard's work: the wait for the child Job hands
over a cancel first. -/
def Work.cancelled : Work σ → Place σ υ χ
  | .hear _ createEnd => .unlessDead createEnd .cancelled
  | _ => .settle .cancelled

/-- The input of `create_child`. -/
def Node.createInput (node : Node) (spec : JobSpec) : CreateChildInput :=
  { CreateChildInput.new node.child node.createId node.runnerType .sync
      (match spec.payload with
        | .inline content => .inline content
        | .kept _ => .kept
        | .reference service documentId => .reference service documentId) with
    config := spec.config
    maxAttempts := node.maxAttempts }

/-- The first action of `hand_over`. -/
def handOver (state : σ) (spec : JobSpec) : Place σ υ χ :=
  match spec.payload with
  | .kept content => .upload state spec content
  | _ => .create state spec

/-- The response function is called with the outcome. -/
def Sys.respond (s : Sys σ υ χ) (state : σ) (outcome : Outcome) : Sys σ υ χ :=
  (s.say [.own (.response state outcome)]).goTo (.guard .called (.response state outcome))

/-- A function of the author panics, and the task unwinds. -/
def Sys.unwind (s : Sys σ υ χ) : Work σ → Option (Sys σ υ χ)
  | .request _ | .source _ _ | .response _ _ => some s.leave
  | .input | .hear _ _ => none

/-- The poll of the work that a guard waits for. -/
def Sys.pollWork (s : Sys σ υ χ) : Work σ → Answer υ χ → Option (Sys σ υ χ)
  | .input, .nothing =>
      match s.inputs with
      | first :: later => some { s with inputs := later, place := .close first }
      | [] =>
          some (if s.inputEnd then s.goTo (.guard .dropped .input) else s.leave)
  | .request state, .nothing => some (s.goTo (.guard .dropped (.request state)))
  | .request state, .spec (.ok spec) =>
      some ((s.say [.own .source]).goTo (.guard .called (.source state spec)))
  | .request _, .spec (.error cause) => some (s.goTo (failWith (.author cause)))
  | .source state spec, .nothing => some (s.goTo (.guard .dropped (.source state spec)))
  | .source state spec, .caller (.ok ()) => some (s.goTo (handOver state spec))
  | .source _ _, .caller (.error cause) =>
      some (s.goTo (failWith (.library (.callerSource cause))))
  | .hear state createEnd, .nothing =>
      match s.waitEnd with
      | none => some (s.goTo (.guard .created (.hear state createEnd)))
      | some (.ok ended) =>
          some ((s.say [.ended (.ok ended)]).goTo (.view state (Outcome.fromEnd ended)))
      | some (.error error) =>
          some ((s.say [.ended (.error error)]).goTo
            (.unlessDead createEnd (.failed (.library (.endWait error)))))
  | .response state outcome, .nothing =>
      some (s.goTo (.guard .dropped (.response state outcome)))
  | .response _ _, .update (.ok update) => some (s.goTo (.settle (.result update)))
  | .response _ _, .update (.error cause) => some (s.goTo (failWith (.author cause)))
  | work, .panicked => s.unwind work
  | _, _ => none

/-- The second half of `hear`: the end of the create. -/
def Sys.pollCreated (s : Sys σ υ χ) : Work σ → Option (Sys σ υ χ)
  | .hear state true =>
      match s.createEnd with
      | none => some (s.goTo (.guard .dropped (.hear state true)))
      | some .ok =>
          some ((s.say [.created .ok]).goTo (.guard .dropped (.hear state false)))
      | some (.err (.refused (.refused refusal))) =>
          some ((s.say [.created (.err (.refused (.refused refusal)))]).goTo
            (.view state (Outcome.fromRefusal refusal)))
      | some (.err removal) =>
          some ((s.say [.created (.err removal)]).goTo
            (failWith (.library (removed removal))))
  | .hear state false => some (s.goTo (.guard .dropped (.hear state false)))
  | _ => none

/-- `now_or_never` of the end of the create, if that is not known yet. -/
def Sys.dead (s : Sys σ υ χ) (createEnd : Bool) : Bool :=
  createEnd && match s.createEnd with
    | some (.err _) => true
    | _ => false

/-- The next action of the task. -/
def Sys.run (node : Node) (s : Sys σ υ χ) (answer : Answer υ χ) : Option (Sys σ υ χ) :=
  match s.place, answer with
  | .guard .called work, .nothing => some (s.goTo (.guard .dropped work))
  | .guard .called work, .panicked => s.unwind work
  | .guard .dropped work, .nothing =>
      some (if s.dropped then (s.say [.gone]).leave
        else s.goTo (.guard .cancel work))
  | .guard .cancel work, .nothing =>
      some (if s.cancel then (s.say [.triggered]).goTo work.cancelled
        else s.goTo (.guard .work work))
  | .guard .work work, answer => s.pollWork work answer
  | .guard .created work, .nothing => s.pollCreated work
  | .close first, .nothing => some ({ s with reading := false }.goTo (.drain first))
  | .drain first, .nothing =>
      let state := s.inputs.getLastD first
      some (({ s with inputs := [] }.say [.own (.request state)]).goTo
        (.guard .called (.request state)))
  | .upload state spec content, .taken (.ok ()) =>
      some ((s.say [.upload node.child content true]).goTo (.create state spec))
  | .upload _ _ content, .taken (.error error) =>
      some ((s.say [.upload node.child content false]).goTo
        (failWith (.library (.upload error))))
  | .create state spec, .taken (.ok ()) =>
      some ((s.say [.create (node.createInput spec) true]).goTo
        (.guard .dropped (.hear state true)))
  | .create _ spec, .taken (.error error) =>
      some ((s.say [.create (node.createInput spec) false]).goTo
        (failWith (.library (.create error))))
  | .unlessDead createEnd event, .nothing =>
      some ((s.say [.looked (s.dead createEnd)]).goTo
        (if s.dead createEnd then .settle event else .cancel event))
  | .cancel event, .taken _ =>
      some ((s.say [.cancel node.child node.cancelId]).goTo (.settle event))
  | .view state outcome, .nothing =>
      some (if s.cancel then (s.say [.triggered]).goTo (.settle .cancelled)
        else if outcome.isCompleted then (s.say [.passed]).goTo (.finish state outcome)
        else (s.say [.passed]).respond state outcome)
  | .finish state outcome, .taken _ =>
      some ((s.say [.finish node.child node.finishId]).respond state outcome)
  | .settle event, .nothing => some ({ s with reading := false }.goTo (.drop event))
  | .drop event, .nothing => some ({ s with inputs := [] }.goTo (.send event))
  | .send event, .nothing => some ((s.say [.own (.sent event)]).goTo .done)
  | _, _ => none

/-- An input is taken until the reader is closed; the create of a child Job ends,
and its wait gives an end, once. -/
def Sys.step (node : Node) (s : Sys σ υ χ) : Event σ υ χ → Option (Sys σ υ χ)
  | .input state =>
      if s.inputEnd && s.reading then
        some { s with inputs := s.inputs ++ [state], accepted := s.accepted ++ [state] }
      else none
  | .dropInput => some { s with inputEnd := false }
  | .dropEvents => some { s with dropped := true }
  | .trigger => some { s with cancel := true }
  | .createEnds result =>
      if s.createEnd.isSome then none else some { s with createEnd := some result }
  | .waitEnds result =>
      if s.waitEnd.isSome then none else some { s with waitEnd := some result }
  | .step answer => (s.answered answer).run node answer

def machine (node : Node) : Machine (Sys σ υ χ) (Event σ υ χ) where
  init := .new
  step := Sys.step node

end RunnerKit.AsNode
