import RunnerKit.AsTool.Call

/-!
# The call of a child Job that a RunnerTool makes

A call of the tool refines the call of one child Job. In background mode it
leaves the child Job to itself once the create was taken, so such a call may end
at the stage that still waits.
-/

namespace RunnerKit.AsTool

open RunnerKit.Jobs RunnerKit.Queue RunnerKit.Calls RunnerKit.Lib

variable {β χ : Type} {tool : Tool β χ} {s s' : Sys β χ} {t : Stage}

/-- The call is over, or in background mode left to itself. -/
def Over (tool : Tool β χ) (t : Stage) : Prop :=
  t = .idle ∨ t = .closed ∨ tool.mode ≠ .sync ∧ t = .waiting tool.child false

/-- The stage of the call at each place. -/
def Fits (tool : Tool β χ) : Place β χ → Stage → Prop
  | .start, t | .guard _ .build, t | .uploadView _, t | .upload _, t => t = .idle
  | .createView form, t | .create form, t =>
      t = if form = .kept then .uploaded tool.child else .idle
  | .raceEnd createEnd, t | .raceCreated createEnd, t | .raceView createEnd, t =>
      t = .waiting tool.child (!createEnd)
  | .backgroundView, t => tool.mode ≠ .sync ∧ t = .waiting tool.child false
  | .unlessDead createEnd _, t => t = .stopped tool.child (!createEnd)
  | .cancel _, t => t = .owing tool.child
  | .guard _ (.read _), t | .view _, t => t = .completed tool.child
  | .finish _, t => t = .due tool.child
  | .guard _ (.process _), t => t = .closed
  | .give _, t | .done, t => Over tool t

/-- A step appends what the call can do at its stage. -/
def Moved (tool : Tool β χ) (s : Sys β χ) (t : Stage) (s' : Sys β χ) : Prop :=
  call.Takes s.log t s'.log (Fits tool s'.place)

theorem Moved.said {u : Stage} {x : Obs (Act β χ)} (hlog : s'.log = s.log ++ [x])
    (hstep : t.step x = some u) (hfits : Fits tool s'.place u) : Moved tool s t s' :=
  Machine.Takes.said hlog hstep hfits

theorem Moved.after {u : Stage} {x : Obs (Act β χ)} (hstep : t.step x = some u)
    (h : Moved tool (s.say [x]) u s') : Moved tool s t s' :=
  Machine.Takes.after hstep h

theorem Moved.own {act : Act β χ} (h : Moved tool (s.say [.own act]) t s') :
    Moved tool s t s' :=
  .after (t.step_own act) h

/-- The view was seen triggered where nothing is owed to the child Job. -/
theorem moved_stopped (hstep : t.step (.triggered : Obs (Act β χ)) = some .closed) :
    Moved tool s t s.stopped :=
  .said rfl hstep (Or.inr (Or.inl rfl))

theorem fits_handOver {prepared : Prepared}
    (hform : prepared.form = .kept ↔ prepared.upload.isSome) :
    Fits tool (handOver prepared : Place β χ) .idle := by
  unfold handOver
  split
  · rfl
  · rename_i hnone
    have hother : prepared.form ≠ .kept := by
      intro hkept
      rw [hnone] at hform
      exact absurd (hform.mp hkept) (by decide)
    exact (if_neg hother).symm

theorem withContent_form (content : Content) :
    (withContent tool content).form = .kept ↔ (withContent tool content).upload.isSome := by
  unfold withContent
  split <;> simp

theorem moved_took {content : Content} :
    Moved tool s (.completed tool.child) (s.took content) :=
  .said rfl rfl rfl

theorem moved_settle {ended : SyncEnd} {delivered : Bool} :
    Moved tool s (.waiting tool.child delivered)
      ((s.say [.ended (.ok ended)]).settle tool ended) := by
  unfold Sys.settle
  split
  · exact .after (u := .completed tool.child) rfl moved_took
  · exact .after (u := .completed tool.child) rfl (.said rfl rfl rfl)
  · exact .after (u := .completed tool.child) rfl moved_took
  · exact .said rfl rfl (Or.inr (Or.inl rfl))
  · exact .said rfl rfl (Or.inr (Or.inl rfl))

theorem moved_process {result : Content} : Moved tool s .closed (s.process tool result) := by
  unfold Sys.process
  split
  · exact .said rfl rfl rfl
  · exact .silent rfl (Or.inr (Or.inl rfl))

theorem Fits.look {view : Bool} {work : Work} (h : Fits tool (.guard view work : Place β χ) t)
    (view' : Bool) : Fits tool (.guard view' work : Place β χ) t := by
  cases work <;> exact h

theorem moved_pollWork {work : Work} {answer : Answer β χ}
    (hfits : Fits tool (.guard false work : Place β χ) t)
    (hs : s.pollWork tool work answer = some s') : Moved tool s t s' := by
  unfold Sys.pollWork at hs
  split at hs
  · cases hs
    exact .silent rfl (hfits.look true)
  · obtain rfl : t = .idle := hfits
    cases hs
    exact .said rfl rfl (fits_handOver (withContent_form _))
  · obtain rfl : t = .idle := hfits
    rename_i service documentId
    cases hs
    have hform : (⟨.reference service documentId, none⟩ : Prepared).form = .kept ↔
        (none : Option Content).isSome := by simp
    exact .said rfl rfl (fits_handOver hform)
  · cases hs
    exact .said rfl rfl (Or.inl hfits)
  · obtain rfl : t = .completed tool.child := hfits
    cases hs
    exact moved_took
  · obtain rfl : t = .completed tool.child := hfits
    cases hs
    exact .said rfl rfl rfl
  · cases hs
    exact .said rfl rfl (Or.inr (Or.inl hfits))
  · cases hs
    exact .said rfl rfl (Or.inr (Or.inl hfits))
  · cases hs

theorem fits_created : Fits tool (tool.created : Place β χ) (.waiting tool.child false) := by
  unfold Tool.created
  split
  · rfl
  · rename_i hmode
    exact ⟨by simp [hmode], rfl⟩

theorem step_create {form : PayloadForm} (taken : Bool)
    (hfits : Fits tool (.create form : Place β χ) t) :
    t.step (.create (tool.createInput form) taken : Obs (Act β χ)) =
      some (if taken then .waiting tool.child false else .closed) := by
  obtain rfl : t = if form = .kept then .uploaded tool.child else .idle := hfits
  by_cases hkept : form = .kept
  · simp [Stage.step, Tool.createInput, CreateChildInput.new, hkept]
  · simp [Stage.step, Tool.createInput, CreateChildInput.new, hkept]

theorem moved_run {answer : Answer β χ} (hfits : Fits tool s.place t)
    (hs : s.run tool answer = some s') : Moved tool s t s' := by
  unfold Sys.run at hs
  split at hs
  any_goals
    rename_i hplace
    rw [hplace] at hfits
  · obtain rfl : t = .idle := hfits
    cases hs
    split
    · exact .said rfl rfl rfl
    · split
      · exact .silent rfl (fits_handOver (withContent_form _))
      · exact .silent rfl (Or.inl rfl)
  · rename_i work
    cases hs
    split
    · exact moved_stopped (by cases work <;> cases hfits <;> rfl)
    · exact .silent rfl (hfits.look false)
  · exact moved_pollWork hfits hs
  · obtain rfl : t = .idle := hfits
    cases hs
    split
    · exact moved_stopped rfl
    · exact .silent rfl rfl
  · obtain rfl : t = .idle := hfits
    cases hs
    exact .said rfl rfl rfl
  · obtain rfl : t = .idle := hfits
    cases hs
    exact .own (.said rfl rfl (Or.inr (Or.inl rfl)))
  · rename_i form
    cases hs
    split
    · have hform : t = if form = .kept then .uploaded tool.child else .idle := hfits
      refine moved_stopped ?_
      split at hform <;> cases hform <;> rfl
    · exact .silent rfl hfits
  · cases hs
    exact .said rfl (step_create true hfits) fits_created
  · cases hs
    exact .own (.said rfl (step_create false hfits) (Or.inr (Or.inl rfl)))
  · obtain rfl : t = .waiting tool.child _ := hfits
    cases hs
    split
    · exact .silent rfl rfl
    · exact moved_settle
    · exact .said rfl rfl rfl
  · cases hs
    exact .silent rfl hfits
  · obtain rfl : t = .waiting tool.child false := hfits
    cases hs
    split
    · exact .silent rfl rfl
    · exact .said rfl rfl rfl
    · exact .said rfl rfl (Or.inr (Or.inl rfl))
  · obtain rfl : t = .waiting tool.child _ := hfits
    cases hs
    split
    · exact .said rfl rfl rfl
    · exact .silent rfl rfl
  · rename_i createEnd stop
    obtain rfl : t = .stopped tool.child _ := hfits
    cases hs
    cases hdead : s.dead createEnd with
    | true =>
        have hwaits : createEnd = true := by
          simp only [Sys.dead, Bool.and_eq_true] at hdead
          exact hdead.1
        subst hwaits
        exact .said rfl rfl (Or.inr (Or.inl rfl))
    | false => exact .said rfl rfl rfl
  · obtain rfl : t = .owing tool.child := hfits
    cases hs
    refine .said (u := .closed) rfl ?_ (Or.inr (Or.inl rfl))
    simp [Stage.step]
  · obtain rfl : t = .completed tool.child := hfits
    cases hs
    split
    · exact moved_stopped rfl
    · exact .said rfl rfl rfl
  · obtain rfl : t = .due tool.child := hfits
    cases hs
    refine .after (u := .closed) (x := .finish tool.child tool.finishId) ?_ ?_
    · simp [Stage.step]
    · split
      · exact moved_process
      · exact .silent rfl (Or.inr (Or.inl rfl))
  · obtain ⟨hmode, rfl⟩ := hfits
    cases hs
    split
    · exact .said rfl rfl rfl
    · exact .silent rfl (Or.inr (Or.inr ⟨hmode, rfl⟩))
  · cases hs
    exact .said rfl rfl hfits
  · cases hs

/-- The host drops the call where it awaits something. -/
theorem moved_abandon (hfits : Fits tool s.place t) (hawaits : s.place.awaits = true) :
    Moved tool s t ((s.say [.gone]).goTo .done) := by
  have hstep : t.step (.gone : Obs (Act β χ)) = some .closed := by
    unfold Place.awaits at hawaits
    split at hawaits
    · rename_i work hplace
      rw [hplace] at hfits
      cases work <;> cases hfits <;> rfl
    · rename_i hplace
      rw [hplace] at hfits
      cases hfits
      rfl
    · cases hawaits
  exact .said rfl hstep (Or.inr (Or.inl rfl))

/-- A call of the tool refines the call of one child Job. -/
theorem refines (tool : Tool β χ) :
    (machine tool).Refines call Sys.log fun s t => Fits tool s.place t where
  empty := rfl
  init := rfl
  step := by
    intro s s' e t hfits hs
    cases e with
    | step answer => exact moved_run hfits hs
    | abandon =>
        simp only [machine, Sys.step] at hs
        split at hs <;> cases hs
        rename_i hawaits
        exact moved_abandon hfits hawaits
    | trigger =>
        cases hs
        exact .silent rfl hfits
    | createEnds result =>
        simp only [machine, Sys.step] at hs
        split at hs <;> cases hs
        exact .silent rfl hfits
    | waitEnds result =>
        simp only [machine, Sys.step] at hs
        split at hs <;> cases hs
        exact .silent rfl hfits

end RunnerKit.AsTool
