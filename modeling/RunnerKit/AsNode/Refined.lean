import RunnerKit.AsNode.Instance

/-!
# The call that an instance of a RunnerAsNode makes

The task of an instance refines the call of one child Job: each of its places has
a stage of the call, and each step appends to the log what the call can do there.
-/

namespace RunnerKit.AsNode

open RunnerKit.Jobs RunnerKit.Queue RunnerKit.Calls RunnerKit.Lib

variable {σ υ χ : Type} {node : Node} {s s' : Sys σ υ χ}

/-- The stage of the call at each place of the task. -/
def Fits (child : Uuid) : Place σ υ χ → Stage → Prop
  | .guard _ (.hear _ createEnd), t => t = .waiting child (!createEnd)
  | .guard _ (.response _ _), t => t = .closed
  | .guard _ _, t | .close _, t | .drain _, t => t = .idle
  | .upload _ spec content, t => t = .idle ∧ spec.payload = .kept content
  | .create _ spec, t =>
      match spec.payload with
      | .kept _ => t = .uploaded child
      | _ => t = .idle
  | .unlessDead createEnd _, t => t = .stopped child (!createEnd)
  | .cancel _, t => t = .owing child
  | .view _ outcome, t => t = if outcome.isCompleted then .completed child else .closed
  | .finish _ _, t => t = .due child
  | .settle _, t | .drop _, t | .send _, t | .done, t => t = .idle ∨ t = .closed

/-- A step appends what the call can do at its stage. -/
def Moved (child : Uuid) (s : Sys σ υ χ) (t : Stage) (s' : Sys σ υ χ) : Prop :=
  call.Takes s.log t s'.log (Fits child s'.place)

theorem Moved.said {child : Uuid} {t u : Stage} {x : Obs (Act σ υ χ)}
    (hlog : s'.log = s.log ++ [x]) (hstep : t.step x = some u)
    (hfits : Fits child s'.place u) : Moved child s t s' :=
  Machine.Takes.said hlog hstep hfits

/-- The response function is called when the call is closed. -/
theorem moved_responded {child : Uuid} {t : Stage} {x : Obs (Act σ υ χ)} {state : σ}
    {outcome : Outcome} (hstep : t.step x = some .closed) :
    Moved child s t ((s.say [x]).respond state outcome) := by
  have hlast : Moved child (s.say [x]) .closed ((s.say [x]).respond state outcome) :=
    .said rfl rfl rfl
  exact Machine.Takes.after hstep hlast

/-- What a caller does besides leaves the call where it is. -/
theorem Moved.own {child : Uuid} {t : Stage} {act : Act σ υ χ}
    (h : Moved child (s.say [.own act]) t s') : Moved child s t s' := by
  have hstep : call.step t (.own act : Obs (Act σ υ χ)) = some t := t.step_own act
  exact Machine.Takes.after hstep h

theorem Moved.answered {child : Uuid} {t : Stage} {answer : Answer υ χ}
    (h : Moved child (s.answered answer) t s') : Moved child s t s' := by
  cases answer with
  | nothing => exact h
  | _ => exact Moved.own h

/-- A function of the author panics only before the call, or when it is closed. -/
theorem moved_unwind {work : Work σ} {look : Look} {t : Stage}
    (hfits : Fits node.child (.guard look work : Place σ υ χ) t)
    (hs : s.unwind work = some s') : Moved node.child s t s' := by
  cases work with
  | request state =>
      cases hs
      exact .silent rfl (Or.inl hfits)
  | source state spec =>
      cases hs
      exact .silent rfl (Or.inl hfits)
  | response state outcome =>
      cases hs
      exact .silent rfl (Or.inr hfits)
  | input => cases hs
  | hear state createEnd => cases hs

theorem moved_pollWork {work : Work σ} {answer : Answer υ χ} {t : Stage}
    (hfits : Fits node.child (.guard .work work : Place σ υ χ) t)
    (hs : s.pollWork work answer = some s') : Moved node.child s t s' := by
  unfold Sys.pollWork at hs
  split at hs
  · split at hs
    · cases hs
      exact .silent rfl hfits
    · cases hs
      by_cases hend : s.inputEnd = true
      · rw [if_pos hend]
        exact .silent rfl hfits
      · rw [if_neg hend]
        exact .silent rfl (Or.inl hfits)
  · cases hs
    exact .silent rfl hfits
  · cases hs
    exact .said rfl rfl hfits
  · cases hs
    exact .silent rfl (Or.inl hfits)
  · cases hs
    exact .silent rfl hfits
  · -- the payload is handed over first
    rename_i state spec
    cases hs
    refine .silent rfl ?_
    show Fits node.child (handOver state spec) t
    unfold handOver
    split
    · rename_i content hpayload
      exact ⟨hfits, hpayload⟩
    · rename_i hkept
      unfold Fits
      dsimp only
      split
      · rename_i content hpayload
        exact absurd hpayload (hkept content)
      · exact hfits
  · cases hs
    exact .silent rfl (Or.inl hfits)
  · obtain rfl : t = .waiting node.child _ := hfits
    split at hs
    · cases hs
      exact .silent rfl rfl
    · rename_i ended _
      cases hs
      cases ended <;> exact .said rfl rfl rfl
    · cases hs
      exact .said rfl rfl rfl
  · cases hs
    exact .silent rfl hfits
  · cases hs
    exact .silent rfl (Or.inr hfits)
  · cases hs
    exact .silent rfl (Or.inr hfits)
  · exact moved_unwind hfits hs
  · cases hs

theorem moved_pollCreated {work : Work σ} {t : Stage}
    (hfits : Fits node.child (.guard .created work : Place σ υ χ) t)
    (hs : s.pollCreated work = some s') : Moved node.child s t s' := by
  unfold Sys.pollCreated at hs
  split at hs
  · obtain rfl : t = .waiting node.child _ := hfits
    split at hs <;> cases hs
    · exact .silent rfl rfl
    · exact .said rfl rfl rfl
    · exact .said rfl rfl rfl
    · exact .said rfl rfl (Or.inr rfl)
  · cases hs
    exact .silent rfl hfits
  · cases hs

/-- A guard sees that the event end is gone. -/
theorem moved_gone {work : Work σ} {look : Look} {t : Stage}
    (hfits : Fits node.child (.guard look work : Place σ υ χ) t) :
    Moved node.child s t (s.say [.gone]).leave := by
  have hstep : t.step (.gone : Obs (Act σ υ χ)) = some .closed := by
    cases work <;> cases hfits <;> rfl
  exact .said rfl hstep (Or.inr rfl)

/-- A guard sees the cancel view triggered. -/
theorem moved_triggered {work : Work σ} {look : Look} {t : Stage}
    (hfits : Fits node.child (.guard look work : Place σ υ χ) t) :
    Moved node.child s t ((s.say [.triggered]).goTo work.cancelled) := by
  cases work with
  | hear state createEnd =>
      cases hfits
      exact .said rfl rfl rfl
  | _ =>
      cases hfits
      exact .said rfl rfl (Or.inr rfl)

theorem Fits.look {work : Work σ} {look : Look} {t : Stage} {child : Uuid}
    (h : Fits child (.guard look work : Place σ υ χ) t) (look' : Look) :
    Fits child (.guard look' work : Place σ υ χ) t := by
  cases work <;> exact h

theorem Fits.create {state : σ} {spec : JobSpec} {t : Stage}
    (h : Fits node.child (.create state spec : Place σ υ χ) t) (taken : Bool) :
    t.step (.create (node.createInput spec) taken : Obs (Act σ υ χ)) =
      some (if taken then .waiting node.child false else .closed) := by
  unfold Fits at h
  dsimp only at h
  split at h
  · rename_i content hpayload
    subst h
    simp [Stage.step, Node.createInput, CreateChildInput.new, hpayload]
  · rename_i hkept
    subst h
    cases hpayload : spec.payload with
    | kept content => exact absurd hpayload (hkept content)
    | inline content => simp [Stage.step, Node.createInput, CreateChildInput.new, hpayload]
    | reference service documentId =>
        simp [Stage.step, Node.createInput, CreateChildInput.new, hpayload]

theorem moved_run {answer : Answer υ χ} {t : Stage} (hfits : Fits node.child s.place t)
    (hs : s.run node answer = some s') : Moved node.child s t s' := by
  unfold Sys.run at hs
  split at hs
  any_goals
    rename_i hplace
    rw [hplace] at hfits
  · cases hs
    exact .silent rfl (hfits.look .dropped)
  · exact moved_unwind hfits hs
  · cases hs
    split
    · exact moved_gone hfits
    · exact .silent rfl (hfits.look .cancel)
  · cases hs
    split
    · exact moved_triggered hfits
    · exact .silent rfl (hfits.look .work)
  · exact moved_pollWork hfits hs
  · exact moved_pollCreated hfits hs
  · cases hs
    exact .silent rfl hfits
  · cases hs
    exact .said rfl rfl hfits
  · rename_i state spec content
    obtain ⟨rfl, hpayload⟩ := hfits
    cases hs
    refine .said (u := .uploaded node.child) rfl rfl ?_
    show Fits node.child (.create state spec : Place σ υ χ) (.uploaded node.child)
    simp [Fits, hpayload]
  · obtain ⟨rfl, -⟩ := hfits
    cases hs
    exact .said rfl rfl (Or.inr rfl)
  · cases hs
    exact .said rfl (hfits.create true) rfl
  · cases hs
    exact .said rfl (hfits.create false) (Or.inr rfl)
  · rename_i createEnd event
    obtain rfl : t = .stopped node.child _ := hfits
    cases hs
    cases hdead : s.dead createEnd with
    | true =>
        have hwaits : createEnd = true := by
          simp only [Sys.dead, Bool.and_eq_true] at hdead
          exact hdead.1
        subst hwaits
        exact .said rfl rfl (Or.inr rfl)
    | false => exact .said rfl rfl rfl
  · obtain rfl : t = .owing node.child := hfits
    cases hs
    refine .said (u := .closed) rfl ?_ (Or.inr rfl)
    simp [Stage.step]
  · rename_i state outcome
    cases hs
    cases hcompleted : outcome.isCompleted with
    | true =>
        obtain rfl : t = .completed node.child := by simpa [Fits, hcompleted] using hfits
        split
        · exact .said rfl rfl (Or.inr rfl)
        · exact .said rfl rfl rfl
    | false =>
        obtain rfl : t = .closed := by simpa [Fits, hcompleted] using hfits
        split
        · exact .said rfl rfl (Or.inr rfl)
        · exact moved_responded rfl
  · obtain rfl : t = .due node.child := hfits
    cases hs
    refine moved_responded ?_
    simp [Stage.step]
  · cases hs
    exact .silent rfl hfits
  · cases hs
    exact .silent rfl hfits
  · cases hs
    exact .said rfl rfl hfits
  · cases hs

/-- The instance refines the call of one child Job. -/
theorem refines (node : Node) :
    (machine (σ := σ) (υ := υ) (χ := χ) node).Refines call Sys.log
      fun s t => Fits node.child s.place t where
  empty := rfl
  init := rfl
  step := by
    intro s s' e t hfits hs
    cases e with
    | step answer =>
        rw [← answered_place s answer] at hfits
        exact (moved_run hfits hs).answered
    | input state =>
        simp only [machine, Sys.step] at hs
        split at hs <;> cases hs
        exact .silent rfl hfits
    | createEnds result =>
        simp only [machine, Sys.step] at hs
        split at hs <;> cases hs
        exact .silent rfl hfits
    | waitEnds result =>
        simp only [machine, Sys.step] at hs
        split at hs <;> cases hs
        exact .silent rfl hfits
    | _ =>
        cases hs
        exact .silent rfl hfits

end RunnerKit.AsNode
