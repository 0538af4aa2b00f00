import RunnerKit.Jobs.Inbox
import RunnerKit.Lib.Refine
import RunnerKit.Queue.Write

/-!
# The call of one child Job

What a caller may do with the handle of its Run while it calls one child Job
(`caller/mod.rs`), as a machine of its own: the stages of the call, and for each
thing the caller does or hears the stage that follows. Nothing here is
translated from a caller; the callers refine this machine.

`Rules` are the rules of order that every call keeps, `Settled` says what is
known of the child Job when a call that created one is over.
-/

namespace RunnerKit.Calls

open RunnerKit.Jobs RunnerKit.Queue RunnerKit.Lib

variable {π : Type}

/-- `caller/input.rs`. -/
structure CreateChildInput where
  jobId : Uuid
  commandId : Uuid
  runnerType : String
  mode : CallMode
  config : Option Value
  payload : PayloadForm
  maxAttempts : Option ℤ

def CreateChildInput.new (jobId commandId : Uuid) (runnerType : String) (mode : CallMode)
    (payload : PayloadForm) : CreateChildInput where
  jobId := jobId
  commandId := commandId
  runnerType := runnerType
  mode := mode
  config := none
  payload := payload
  maxAttempts := none

/-! ## What a caller does and hears -/

/-- `own` is what a caller does besides. An upload and a create are taken by the
handle, or not; `looked` is the poll of the end of the create before a cancel. -/
inductive Obs (π : Type) where
  | own (act : π)
  | upload (child : Uuid) (content : Content) (taken : Bool)
  | create (input : CreateChildInput) (taken : Bool)
  | created (result : WriteResult)
  | ended (result : Except Error SyncEnd)
  | looked (removed : Bool)
  | read (result : Except Error Content)
  | passed
  | triggered
  | gone
  | cancel (child commandId : Uuid)
  | finish (child commandId : Uuid)

inductive Kind where
  | own | upload | create | created | ended | looked | read | passed | triggered
  | gone | cancel | finish
deriving DecidableEq

def Obs.kind : Obs π → Kind
  | .own _ => .own
  | .upload .. => .upload
  | .create .. => .create
  | .created _ => .created
  | .ended _ => .ended
  | .looked _ => .looked
  | .read _ => .read
  | .passed => .passed
  | .triggered => .triggered
  | .gone => .gone
  | .cancel .. => .cancel
  | .finish .. => .finish

/-- The kinds that hand something over to the handle. -/
def Kind.handsOver : Kind → Bool
  | .upload | .create | .cancel | .finish => true
  | _ => false

/-! ## The stages of a call -/

inductive Stage where
  | idle
  | uploaded (child : Uuid)
  /-- The create was taken, and maybe it is known to be delivered. -/
  | waiting (child : Uuid) (delivered : Bool)
  /-- The call stops: unless the create is dead, a cancel is due. -/
  | stopped (child : Uuid) (delivered : Bool)
  | owing (child : Uuid)
  /-- The completed end is in hand. -/
  | completed (child : Uuid)
  | due (child : Uuid)
  | closed
deriving DecidableEq

def Stage.step : Stage → Obs π → Option Stage
  | t, .own _ => some t
  | .idle, .upload child _ taken => some (if taken then .uploaded child else .closed)
  | .idle, .create input taken =>
      if input.payload = .kept then none
      else some (if taken then .waiting input.jobId false else .closed)
  | .uploaded child, .create input taken =>
      if input.payload = .kept ∧ input.jobId = child then
        some (if taken then .waiting child false else .closed)
      else none
  | .waiting child false, .created .ok => some (.waiting child true)
  | .waiting _ false, .created (.err _) => some .closed
  | .waiting child _, .ended (.ok (.completed _ _)) => some (.completed child)
  | .waiting _ _, .ended (.ok _) => some .closed
  | .waiting child delivered, .ended (.error _) => some (.stopped child delivered)
  | .waiting child delivered, .triggered => some (.stopped child delivered)
  | .stopped child delivered, .looked removed =>
      if removed then if delivered then none else some .closed else some (.owing child)
  | .owing child, .cancel named _ => if named = child then some .closed else none
  | .completed child, .read _ => some (.completed child)
  | .completed child, .passed => some (.due child)
  | .due child, .finish named _ => if named = child then some .closed else none
  | .closed, .passed => some .closed
  | .idle, .triggered | .uploaded _, .triggered | .completed _, .triggered
  | .closed, .triggered => some .closed
  | .idle, .gone | .waiting _ _, .gone | .completed _, .gone | .closed, .gone => some .closed
  | _, _ => none

def call : Machine Stage (Obs π) where
  init := .idle
  step := Stage.step

/-! ## The rules of a call -/

def Taken (child : Uuid) (log : List (Obs π)) : Prop :=
  ∃ input : CreateChildInput, input.jobId = child ∧ Obs.create input true ∈ log

def Uploaded (child : Uuid) (log : List (Obs π)) : Prop :=
  ∃ content, Obs.upload child content true ∈ log

/-- The create is not known to be removed, and no end of the call came. -/
def Unknown (log : List (Obs π)) : Prop :=
  (∀ ended, Obs.ended (.ok ended) ∉ log) ∧ ∀ removal, Obs.created (.err removal) ∉ log

/-- What a call must stop for: the cancel view, or an error of the end wait. -/
def Stops (log : List (Obs π)) : Prop :=
  Obs.triggered ∈ log ∨ ∃ error, Obs.ended (.error error) ∈ log

def Completed (log : List (Obs π)) : Prop :=
  ∃ inline resultRef, Obs.ended (.ok (.completed inline resultRef)) ∈ log

def Free (kinds : List Kind) (log : List (Obs π)) : Prop := ∀ x ∈ log, x.kind ∉ kinds

/-- What holds before each thing a caller does. -/
def Rule (past : List (Obs π)) : Obs π → Prop
  | .upload _ _ _ =>
      Free [.upload, .create, .cancel, .finish, .triggered, .gone] past
  | .create input _ =>
      Free [.create, .cancel, .finish, .triggered, .gone] past ∧
        (input.payload = .kept ↔ Uploaded input.jobId past) ∧
        ∀ child content taken, Obs.upload child content taken ∈ past →
          child = input.jobId ∧ taken = true
  | .cancel child _ =>
      Free [.cancel, .finish, .gone] past ∧ Taken child past ∧ Unknown past ∧
        Stops past ∧ Obs.looked false ∈ past
  | .finish child _ =>
      Free [.cancel, .finish, .triggered, .gone] past ∧ Taken child past ∧
        Completed past ∧ Obs.passed ∈ past
  | _ => True

abbrev Rules (log : List (Obs π)) : Prop := Always Rule log

/-- The child Job of a call is accounted for: its end came, its create is known to be
removed, a cancel of it was handed over, or nobody waits for it any more: the call saw
that its event end was dropped, or its own future was, and hands nothing over then. -/
inductive Settled (log : List (Obs π)) (child : Uuid) : Prop where
  | ended (result : SyncEnd) (heard : Obs.ended (.ok result) ∈ log)
  | removed (removal : Removal) (heard : Obs.created (.err removal) ∈ log)
  | dead (looked : Obs.looked true ∈ log)
  | cancelled (commandId : Uuid) (handed : Obs.cancel child commandId ∈ log)
  | gone (seen : Obs.gone ∈ log)

/-! ## Every call keeps the rules -/

/-- The kinds that may stand in the log of a call at this stage. -/
def Stage.kinds : Stage → List Kind
  | .idle => [.own]
  | .uploaded _ => [.own, .upload]
  | .waiting _ _ => [.own, .upload, .create, .created]
  | .stopped _ _ => [.own, .upload, .create, .created, .ended, .triggered]
  | .owing _ => [.own, .upload, .create, .created, .ended, .triggered, .looked]
  | .completed _ => [.own, .upload, .create, .created, .ended, .read]
  | .due _ => [.own, .upload, .create, .created, .ended, .read, .passed]
  | .closed =>
      [.own, .upload, .create, .created, .ended, .looked, .read, .passed, .triggered,
        .gone, .cancel, .finish]

/-- What the log of a call says at a stage. -/
def Stage.Known (log : List (Obs π)) : Stage → Prop
  | .idle => True
  | .uploaded child =>
      Uploaded child log ∧
        ∀ named content taken, Obs.upload named content taken ∈ log →
          named = child ∧ taken = true
  | .waiting child delivered =>
      Taken child log ∧ (∀ removal, Obs.created (.err removal) ∉ log) ∧
        (delivered = false → ∀ result, Obs.created result ∉ log)
  | .stopped child delivered =>
      Taken child log ∧ Unknown log ∧ Stops log ∧
        (delivered = false → ∀ result, Obs.created result ∉ log)
  | .owing child => Taken child log ∧ Unknown log ∧ Stops log ∧ Obs.looked false ∈ log
  | .completed child => Taken child log ∧ Completed log
  | .due child => Taken child log ∧ Completed log ∧ Obs.passed ∈ log
  | .closed => True

/-- Whose create was taken, at a stage. -/
def Stage.Of (log : List (Obs π)) (child : Uuid) : Stage → Prop
  | .waiting named _ | .stopped named _ | .owing named | .completed named | .due named =>
      child = named
  | .closed => Settled log child
  | _ => False

structure Kept (log : List (Obs π)) (t : Stage) : Prop where
  rules : Rules log
  kinds : ∀ x ∈ log, x.kind ∈ t.kinds
  known : t.Known log
  child : ∀ input : CreateChildInput, Obs.create input true ∈ log → t.Of log input.jobId

section Step

variable {t u : Stage} {x : Obs π} {log : List (Obs π)}

theorem Stage.step_own (t : Stage) (act : π) : t.step (.own act) = some t := by
  cases t <;> rfl

theorem Stage.own_mem_kinds (t : Stage) : Kind.own ∈ t.kinds := by
  cases t <;> simp [Stage.kinds]

/-- The kinds of a stage, and the one that is added, are those of the next stage. -/
theorem Stage.step_kinds (h : t.step x = some u) :
    x.kind ∈ u.kinds ∧ ∀ k ∈ t.kinds, k ∈ u.kinds := by
  unfold Stage.step at h
  split at h
  · cases h
    exact ⟨t.own_mem_kinds, fun _ hk => hk⟩
  all_goals (try split_ifs at h) <;> cases h <;> simp [Stage.kinds, Obs.kind]

theorem Stage.step_upload {child : Uuid} {content : Content} {taken : Bool}
    (h : t.step (.upload child content taken : Obs π) = some u) : t = .idle := by
  cases t <;> first | rfl | cases h

theorem Stage.step_create {input : CreateChildInput} {taken : Bool}
    (h : t.step (.create input taken : Obs π) = some u) :
    (t = .idle ∧ input.payload ≠ .kept ∨ t = .uploaded input.jobId ∧ input.payload = .kept) ∧
      u = if taken then .waiting input.jobId false else .closed := by
  cases t with
  | idle =>
      simp only [Stage.step] at h
      split at h <;> cases h
      rename_i hpayload
      exact ⟨Or.inl ⟨rfl, hpayload⟩, rfl⟩
  | uploaded child =>
      simp only [Stage.step] at h
      split at h <;> cases h
      rename_i hboth
      obtain ⟨hpayload, rfl⟩ := hboth
      exact ⟨Or.inr ⟨rfl, hpayload⟩, rfl⟩
  | _ => cases h

theorem Stage.step_cancel {child commandId : Uuid}
    (h : t.step (.cancel child commandId : Obs π) = some u) : t = .owing child ∧ u = .closed := by
  cases t with
  | owing named =>
      simp only [Stage.step] at h
      split at h <;> cases h
      rename_i heq
      exact ⟨by rw [heq], rfl⟩
  | _ => cases h

theorem Stage.step_finish {child commandId : Uuid}
    (h : t.step (.finish child commandId : Obs π) = some u) : t = .due child ∧ u = .closed := by
  cases t with
  | due named =>
      simp only [Stage.step] at h
      split at h <;> cases h
      rename_i heq
      exact ⟨by rw [heq], rfl⟩
  | _ => cases h

/-! ### The rules -/

theorem Kept.free (h : Kept log t) {kinds : List Kind} (hfree : ∀ k ∈ t.kinds, k ∉ kinds) :
    Free kinds log :=
  fun y hy => hfree _ (h.kinds y hy)

/-- The next thing that a call does or hears keeps the rules. -/
theorem Kept.rule (h : Kept log t) (hs : t.step x = some u) : Rule log x := by
  cases x with
  | upload child content taken =>
      obtain rfl := Stage.step_upload hs
      exact h.free (by simp [Stage.kinds])
  | create input taken =>
      rcases (Stage.step_create hs).1 with ⟨rfl, hpayload⟩ | ⟨rfl, hpayload⟩
      · have hown : Free [.upload] log := h.free (by simp [Stage.kinds])
        have hno : ∀ child content taken, Obs.upload child content taken ∉ log :=
          fun child content taken hin => hown _ hin List.mem_cons_self
        refine ⟨h.free (by simp [Stage.kinds]), ⟨fun hkept => absurd hkept hpayload, ?_⟩, ?_⟩
        · rintro ⟨content, hin⟩
          exact absurd hin (hno _ _ _)
        · exact fun child content taken hin => absurd hin (hno _ _ _)
      · have hknown : Stage.Known log (.uploaded input.jobId) := h.known
        refine ⟨h.free (by simp [Stage.kinds]), ⟨fun _ => hknown.1, fun _ => hpayload⟩, hknown.2⟩
  | cancel child commandId =>
      obtain ⟨rfl, -⟩ := Stage.step_cancel hs
      have hknown : Stage.Known log (.owing child) := h.known
      exact ⟨h.free (by simp [Stage.kinds]), hknown⟩
  | finish child commandId =>
      obtain ⟨rfl, -⟩ := Stage.step_finish hs
      have hknown : Stage.Known log (.due child) := h.known
      exact ⟨h.free (by simp [Stage.kinds]), hknown⟩
  | _ => trivial

/-! ### What is known -/

theorem Stage.Known.own {act : π} (h : t.Known log) : t.Known (log ++ [.own act]) := by
  cases t with
  | uploaded child =>
      refine ⟨h.1.imp fun _ hin => List.mem_append_left _ hin, fun named content taken hin => ?_⟩
      rcases List.mem_append.mp hin with hin | hin
      · exact h.2 named content taken hin
      · cases List.mem_singleton.mp hin
  | _ => simp_all [Stage.Known, Taken, Unknown, Stops, Completed]

theorem Kept.not_mem (h : Kept log t) {y : Obs π} (hy : y.kind ∉ t.kinds) : y ∉ log :=
  fun hin => hy (h.kinds y hin)

theorem Kept.known_step (h : Kept log t) (hs : t.step x = some u) :
    u.Known (log ++ [x]) := by
  have hknown := h.known
  have hno : ∀ y : Obs π, y.kind ∉ t.kinds → y ∉ log := fun y => h.not_mem
  unfold Stage.step at hs
  split at hs
  · cases hs
    exact hknown.own
  all_goals (try split_ifs at hs) <;> cases hs <;> try trivial
  all_goals
    simp_all [Stage.Known, Stage.kinds, Obs.kind, Taken, Uploaded, Unknown, Stops, Completed]

/-! ### The child Job -/

theorem Settled.mono {child : Uuid} (h : Settled log child) : Settled (log ++ [x]) child := by
  have hmem : ∀ {y : Obs π}, y ∈ log → y ∈ log ++ [x] := List.mem_append_left _
  cases h with
  | ended result hin => exact .ended result (hmem hin)
  | removed removal hin => exact .removed removal (hmem hin)
  | dead hin => exact .dead (hmem hin)
  | cancelled commandId hin => exact .cancelled commandId (hmem hin)
  | gone hin => exact .gone (hmem hin)

/-- The child Job whose create was taken is that of the next stage, or it is
accounted for. -/
theorem Stage.Of.step {child : Uuid} (h : t.Of log child) (hknown : t.Known log)
    (hs : t.step x = some u) : u.Of (log ++ [x]) child := by
  have hlast : x ∈ log ++ [x] := List.mem_append_right _ List.mem_cons_self
  have hcompleted : Completed log → Settled (log ++ [x]) child := by
    rintro ⟨inline, resultRef, hin⟩
    exact .ended _ (List.mem_append_left _ hin)
  unfold Stage.step at hs
  split at hs
  · cases hs
    cases t with
    | closed => exact Settled.mono h
    | _ => exact h
  all_goals (try split_ifs at hs) <;> cases hs
  -- the child Job is the same, or what came accounts for it
  all_goals first
    | exact h
    | exact h.elim
    | exact Settled.mono h
    | exact Settled.ended _ hlast
    | exact Settled.removed _ hlast
    | exact Settled.gone hlast
    | exact hcompleted hknown.2
    | exact hcompleted hknown.2.1
    | skip
  · rename_i hremoved _
    subst hremoved
    exact Settled.dead hlast
  · rename_i hnamed
    obtain rfl : child = _ := h
    subst hnamed
    exact Settled.cancelled _ hlast

theorem Kept.child_step (h : Kept log t) (hs : t.step x = some u) :
    ∀ input : CreateChildInput, Obs.create input true ∈ log ++ [x] →
      u.Of (log ++ [x]) input.jobId := by
  intro input hin
  rcases List.mem_append.mp hin with hin | hin
  · exact (h.child input hin).step h.known hs
  · -- this is the create
    cases List.mem_singleton.mp hin
    obtain ⟨-, rfl⟩ := Stage.step_create hs
    rfl

/-- What holds of a call is kept by the next thing that it does or hears. -/
theorem Kept.step (h : Kept log t) (hs : t.step x = some u) : Kept (log ++ [x]) u where
  rules := always_snoc.mpr ⟨h.rules, h.rule hs⟩
  kinds := by
    obtain ⟨hx, hold⟩ := Stage.step_kinds hs
    intro y hy
    rcases List.mem_append.mp hy with hy | hy
    · exact hold _ (h.kinds y hy)
    · rw [List.mem_singleton.mp hy]
      exact hx
  known := h.known_step hs
  child := h.child_step hs

end Step

theorem kept_init : Kept ([] : List (Obs π)) .idle where
  rules := always_nil
  kinds := by simp
  known := trivial
  child := by simp

/-- Every run of a call keeps the rules. -/
theorem kept_of_run {log : List (Obs π)} {t : Stage} (h : call.run log = some t) : Kept log t :=
  Machine.run_invariant kept_init (fun hkept hs => hkept.step hs) h

/-! ## What was heard is so -/

/-- What a caller looks at: the end of the create, the end wait, the cancel view,
and whether anybody still waits for it. -/
structure World where
  createEnd : Option WriteResult
  waitEnd : Option (Except Error SyncEnd)
  cancel : Bool
  gone : Bool

def World.Bears (w : World) : Obs π → Prop
  | .ended result => w.waitEnd = some result
  | .created result => w.createEnd = some result
  | .looked true => ∃ removal, w.createEnd = some (.err removal)
  | .triggered => w.cancel = true
  | .gone => w.gone = true
  | _ => True

/-- Ends stay as they came, and what was triggered or is gone stays so. -/
structure World.Stays (w w' : World) : Prop where
  createEnd : ∀ result, w.createEnd = some result → w'.createEnd = some result
  waitEnd : ∀ result, w.waitEnd = some result → w'.waitEnd = some result
  cancel : w.cancel = true → w'.cancel = true
  gone : w.gone = true → w'.gone = true

/-- A step of a caller says only what is so. -/
def Says (w : World) (log : List (Obs π)) (w' : World) (log' : List (Obs π)) : Prop :=
  w.Stays w' ∧ ∃ more, log' = log ++ more ∧ ∀ x ∈ more, w.Bears x

section World

variable {w w' : World} {x y : Obs π} {log log' : List (Obs π)}

theorem World.Stays.refl (w : World) : w.Stays w :=
  ⟨fun _ h => h, fun _ h => h, id, id⟩

theorem World.Stays.bears (h : w.Stays w') (hx : w.Bears x) : w'.Bears x := by
  cases x with
  | ended result => exact h.waitEnd _ hx
  | created result => exact h.createEnd _ hx
  | looked removed =>
      cases removed with
      | true => exact hx.imp fun _ => h.createEnd _
      | false => exact trivial
  | triggered => exact h.cancel hx
  | gone => exact h.gone hx
  | _ => exact trivial

/-- The end of a create comes once. -/
theorem World.stays_createEnd {result : WriteResult} (hnone : ¬w.createEnd.isSome = true) :
    w.Stays { w with createEnd := some result } := by
  refine ⟨fun other h => ?_, fun _ h => h, id, id⟩
  rw [h] at hnone
  exact absurd rfl hnone

theorem World.stays_waitEnd {result : Except Error SyncEnd}
    (hnone : ¬w.waitEnd.isSome = true) : w.Stays { w with waitEnd := some result } := by
  refine ⟨fun _ h => h, fun other h => ?_, id, id⟩
  rw [h] at hnone
  exact absurd rfl hnone

theorem Says.nothing (hstays : w.Stays w') (hlog : log' = log) : Says w log w' log' :=
  ⟨hstays, [], by rw [hlog, List.append_nil], by simp⟩

theorem Says.one (hlog : log' = log ++ [x]) (hx : w.Bears x) : Says w log w log' :=
  ⟨.refl w, [x], hlog, by simpa using hx⟩

theorem Says.two (hlog : log' = log ++ [x] ++ [y]) (hx : w.Bears x) (hy : w.Bears y) :
    Says w log w log' := by
  refine ⟨.refl w, [x] ++ [y], hlog.trans (List.append_assoc log [x] [y]), ?_⟩
  intro z hz
  rcases List.mem_append.mp hz with hz | hz
  · rw [List.mem_singleton.mp hz]
    exact hx
  · rw [List.mem_singleton.mp hz]
    exact hy

/-- One more thing that is so is said before. -/
theorem Says.after (hx : w.Bears x) (h : Says w (log ++ [x]) w' log') : Says w log w' log' := by
  obtain ⟨hstays, more, hlog, hmore⟩ := h
  refine ⟨hstays, [x] ++ more, hlog.trans (List.append_assoc log [x] more), ?_⟩
  intro y hy
  rcases List.mem_append.mp hy with hy | hy
  · rw [List.mem_singleton.mp hy]
    exact hx
  · exact hmore y hy

theorem Says.bears (h : Says w log w' log') (hold : ∀ x ∈ log, w.Bears x) :
    ∀ x ∈ log', w'.Bears x := by
  obtain ⟨hstays, more, hlog, hmore⟩ := h
  intro x hx
  rw [hlog] at hx
  rcases List.mem_append.mp hx with hx | hx
  · exact hstays.bears (hold x hx)
  · exact hstays.bears (hmore x hx)

end World

end RunnerKit.Calls
