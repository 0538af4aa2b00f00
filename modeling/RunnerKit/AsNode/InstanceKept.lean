import RunnerKit.AsNode.Refined

/-!
# What an instance of a RunnerAsNode keeps

The call of the child Job keeps the rules of such a call in every run, and every
child Job that was created is accounted for when the task is done. The rest is
about the functions of the author and the event: who is called with what, what
the event says, and when none is sent.
-/

namespace RunnerKit.AsNode

open RunnerKit.Jobs RunnerKit.Queue RunnerKit.Calls RunnerKit.Lib

variable {σ υ χ : Type} {node : Node} {s s' : Sys σ υ χ}

/-! ## The author's functions and the event -/

/-- The states that the request function was called with. -/
def requests (log : List (Obs (Act σ υ χ))) : List σ :=
  log.filterMap fun
    | .own (.request state) => some state
    | _ => none

def responses (log : List (Obs (Act σ υ χ))) : List (σ × Outcome) :=
  log.filterMap fun
    | .own (.response state outcome) => some (state, outcome)
    | _ => none

def events (log : List (Obs (Act σ υ χ))) : List (NodeEvent υ χ) :=
  log.filterMap fun
    | .own (.sent event) => some event
    | _ => none

@[simp] theorem requests_append (log more : List (Obs (Act σ υ χ))) :
    requests (log ++ more) = requests log ++ requests more :=
  List.filterMap_append

@[simp] theorem responses_append (log more : List (Obs (Act σ υ χ))) :
    responses (log ++ more) = responses log ++ responses more :=
  List.filterMap_append

@[simp] theorem events_append (log more : List (Obs (Act σ υ χ))) :
    events (log ++ more) = events log ++ events more :=
  List.filterMap_append

/-- The outcome is the end of the call that was heard, or the refusal of its create. -/
def Heard (log : List (Obs (Act σ υ χ))) (outcome : Outcome) : Prop :=
  (∃ ended, .ended (.ok ended) ∈ log ∧ outcome = Outcome.fromEnd ended) ∨
    ∃ refusal, .created (.err (.refused (.refused refusal))) ∈ log ∧
      outcome = Outcome.fromRefusal refusal

/-- The request function was called with the last input that the channel took. -/
def Asked (s : Sys σ υ χ) (state : σ) : Prop :=
  requests s.log = [state] ∧ s.accepted.getLast? = some state ∧ s.reading = false

/-- The response function was called with that state and what was heard. -/
def Answered (s : Sys σ υ χ) (state : σ) (outcome : Outcome) : Prop :=
  responses s.log = [(state, outcome)] ∧ Heard s.log outcome

/-- The response function was not called yet. -/
def Asking (s : Sys σ υ χ) (state : σ) : Prop := Asked s state ∧ responses s.log = []

/-- At most one call of the request function, and after it at most one of the other. -/
def Called (s : Sys σ υ χ) : Prop :=
  (requests s.log = [] ∧ responses s.log = []) ∨
    ∃ state, Asking s state ∨ ∃ outcome, Asked s state ∧ Answered s state outcome

/-- What is known of the functions and of the inputs at each place. -/
def Told (s : Sys σ υ χ) : Prop :=
  match s.place with
  | .guard _ .input => requests s.log = [] ∧ responses s.log = [] ∧ s.accepted = s.inputs
  | .close first =>
      requests s.log = [] ∧ responses s.log = [] ∧ s.accepted = first :: s.inputs
  | .drain first =>
      requests s.log = [] ∧ responses s.log = [] ∧ s.accepted = first :: s.inputs ∧
        s.reading = false
  | .guard _ (.request state) | .guard _ (.source state _) | .guard _ (.hear state _)
  | .upload state _ _ | .create state _ => Asking s state
  | .view state outcome | .finish state outcome => Asking s state ∧ Heard s.log outcome
  | .guard _ (.response state outcome) => Asked s state ∧ Answered s state outcome
  | .unlessDead _ _ | .cancel _ | .settle _ | .drop _ | .send _ | .done => Called s

/-- The calls that were made are in order wherever the task is. -/
theorem Told.called (h : Told s) : Called s := by
  unfold Told at h
  split at h
  any_goals exact Or.inr ⟨_, Or.inl h⟩
  any_goals exact Or.inr ⟨_, Or.inl h.1⟩
  any_goals exact h
  · exact Or.inl ⟨h.1, h.2.1⟩
  · exact Or.inl ⟨h.1, h.2.1⟩
  · exact Or.inl ⟨h.1, h.2.1⟩
  · exact Or.inr ⟨_, Or.inr ⟨_, h⟩⟩

/-- The parts of a state that `Told` is about are the same, but for what the call of
the child Job does and hears. -/
structure Same (s s' : Sys σ υ χ) : Prop where
  asks : requests s'.log = requests s.log
  answers : responses s'.log = responses s.log
  heard : ∀ outcome, Heard s.log outcome → Heard s'.log outcome
  accepted : s'.accepted = s.accepted
  reading : s.reading = false → s'.reading = false

theorem Same.asked (h : Same s s') {state : σ} (hasked : Asked s state) : Asked s' state := by
  obtain ⟨hreq, hlast, hclosed⟩ := hasked
  exact ⟨h.asks.trans hreq, by rw [h.accepted]; exact hlast, h.reading hclosed⟩

theorem Same.asking (h : Same s s') {state : σ} (hasking : Asking s state) : Asking s' state :=
  ⟨h.asked hasking.1, h.answers.trans hasking.2⟩

theorem Same.answered (h : Same s s') {state : σ} {outcome : Outcome}
    (hanswered : Answered s state outcome) : Answered s' state outcome :=
  ⟨h.answers.trans hanswered.1, h.heard outcome hanswered.2⟩

theorem Same.called (h : Same s s') (hcalled : Called s) : Called s' := by
  rcases hcalled with ⟨hreq, hres⟩ | ⟨state, hasking | ⟨outcome, hasked, hanswered⟩⟩
  · exact Or.inl ⟨h.asks.trans hreq, h.answers.trans hres⟩
  · exact Or.inr ⟨state, Or.inl (h.asking hasking)⟩
  · exact Or.inr ⟨state, Or.inr ⟨outcome, h.asked hasked, h.answered hanswered⟩⟩

theorem Same.goTo (place : Place σ υ χ) : Same s (s.goTo place) :=
  ⟨rfl, rfl, fun _ h => h, rfl, id⟩

/-- What calls neither of the two functions leaves them as they were. -/
theorem Same.say {x : Obs (Act σ υ χ)} (hreq : requests [x] = []) (hres : responses [x] = [])
    (place : Place σ υ χ) : Same s ((s.say [x]).goTo place) := by
  have hmem : ∀ y ∈ s.log, y ∈ s.log ++ [x] := fun y hy => List.mem_append_left _ hy
  refine ⟨?_, ?_, ?_, rfl, id⟩
  · show requests (s.log ++ [x]) = requests s.log
    rw [requests_append, hreq, List.append_nil]
  · show responses (s.log ++ [x]) = responses s.log
    rw [responses_append, hres, List.append_nil]
  · rintro outcome (⟨ended, hin, heq⟩ | ⟨refusal, hin, heq⟩)
    · exact Or.inl ⟨ended, hmem _ hin, heq⟩
    · exact Or.inr ⟨refusal, hmem _ hin, heq⟩

/-- The task that leaves calls nobody any more. -/
theorem Called.leave (h : Called s) : Told s.leave :=
  Same.called (s := s) ⟨rfl, rfl, fun _ h => h, rfl, fun _ => rfl⟩ h

/-- What is known stays known at the same place. -/
theorem Same.told (h : Same s s') (hplace : s'.place = s.place) (hinputs : s'.inputs = s.inputs)
    (htold : Told s) : Told s' := by
  unfold Told at htold ⊢
  rw [hplace]
  cases hat : s.place with
  | guard look work =>
      rw [hat] at htold
      cases work with
      | input =>
          refine ⟨h.asks.trans htold.1, h.answers.trans htold.2.1, ?_⟩
          rw [h.accepted, hinputs]
          exact htold.2.2
      | response state outcome => exact ⟨h.asked htold.1, h.answered htold.2⟩
      | _ => exact h.asking htold
  | close first =>
      rw [hat] at htold
      refine ⟨h.asks.trans htold.1, h.answers.trans htold.2.1, ?_⟩
      rw [h.accepted, hinputs]
      exact htold.2.2
  | drain first =>
      rw [hat] at htold
      refine ⟨h.asks.trans htold.1, h.answers.trans htold.2.1, ?_, h.reading htold.2.2.2⟩
      rw [h.accepted, hinputs]
      exact htold.2.2.1
  | upload _ _ _ | create _ _ =>
      rw [hat] at htold
      exact h.asking htold
  | view _ _ | finish _ _ =>
      rw [hat] at htold
      exact ⟨h.asking htold.1, h.heard _ htold.2⟩
  | _ =>
      rw [hat] at htold
      exact h.called htold

/-- An answer calls nobody. -/
theorem Told.answered (h : Told s) (answer : Answer υ χ) : Told (s.answered answer) := by
  cases answer with
  | nothing => exact h
  | _ => exact (Same.say rfl rfl s.place).told rfl rfl h

/-- The task that unwinds leaves. -/
theorem eq_leave_of_unwind {work : Work σ} (hs : s.unwind work = some s') : s' = s.leave := by
  cases work with
  | input | hear _ _ => cases hs
  | _ =>
      cases hs
      rfl

theorem told_pollWork {work : Work σ} {answer : Answer υ χ} (h : Told s)
    (hplace : s.place = .guard .work work) (hs : s.pollWork work answer = some s') :
    Told s' := by
  have hcalled := h.called
  unfold Told at h
  rw [hplace] at h
  unfold Sys.pollWork at hs
  split at hs
  · dsimp only at h
    split at hs
    · rename_i first later hinputs
      cases hs
      exact ⟨h.1, h.2.1, h.2.2.trans hinputs⟩
    · cases hs
      by_cases hend : s.inputEnd = true
      · rw [if_pos hend]
        exact h
      · rw [if_neg hend]
        exact hcalled.leave
  · cases hs
    exact h
  · cases hs
    exact (Same.say rfl rfl _).asking h
  · cases hs
    exact hcalled
  · cases hs
    exact h
  · rename_i state spec
    cases hs
    show Told (s.goTo (handOver state spec))
    unfold handOver
    split <;> exact h
  · cases hs
    exact hcalled
  · rename_i state createEnd
    split at hs
    · cases hs
      exact h
    · rename_i ended _
      cases hs
      refine ⟨(Same.say rfl rfl _).asking h, Or.inl ⟨ended, ?_, rfl⟩⟩
      exact List.mem_append_right _ List.mem_cons_self
    · cases hs
      exact (Same.say rfl rfl _).called hcalled
  · cases hs
    exact h
  · cases hs
    exact hcalled
  · cases hs
    exact hcalled
  · rw [eq_leave_of_unwind hs]
    exact hcalled.leave
  · cases hs

theorem told_pollCreated {work : Work σ} (h : Told s) (hplace : s.place = .guard .created work)
    (hs : s.pollCreated work = some s') : Told s' := by
  have hcalled := h.called
  unfold Told at h
  rw [hplace] at h
  unfold Sys.pollCreated at hs
  split at hs
  · split at hs
    · cases hs
      exact h
    · cases hs
      exact (Same.say rfl rfl _).asking h
    · rename_i refusal _
      cases hs
      refine ⟨(Same.say rfl rfl _).asking h, Or.inr ⟨refusal, ?_, rfl⟩⟩
      exact List.mem_append_right _ List.mem_cons_self
    · cases hs
      exact (Same.say rfl rfl _).called hcalled
  · cases hs
    exact h
  · cases hs

/-- The response function is called. -/
theorem told_respond {state : σ} {outcome : Outcome} (hasking : Asking s state)
    (hheard : Heard s.log outcome) : Told (s.respond state outcome) := by
  obtain ⟨⟨hreq, hlast, hclosed⟩, hres⟩ := hasking
  have hmem : ∀ {y x : Obs (Act σ υ χ)}, y ∈ s.log → y ∈ s.log ++ [x] :=
    fun hy => List.mem_append_left _ hy
  refine ⟨⟨?_, hlast, hclosed⟩, ?_, ?_⟩
  · simpa [requests, Sys.respond, Sys.say, Sys.goTo] using hreq
  · simpa [responses, Sys.respond, Sys.say, Sys.goTo] using hres
  · rcases hheard with ⟨ended, hin, heq⟩ | ⟨refusal, hin, heq⟩
    · exact Or.inl ⟨ended, hmem hin, heq⟩
    · exact Or.inr ⟨refusal, hmem hin, heq⟩

theorem told_run {answer : Answer υ χ} (h : Told s) (hs : s.run node answer = some s') :
    Told s' := by
  have hcalled := h.called
  have hwhole := h
  unfold Sys.run at hs
  split at hs
  any_goals
    rename_i hplace
    unfold Told at h
    rw [hplace] at h
  · rename_i work
    cases hs
    cases work <;> exact h
  · rw [eq_leave_of_unwind hs]
    exact hcalled.leave
  · cases hs
    split
    · have hgone : Same s (s.say [.gone]) := Same.say rfl rfl s.place
      exact (hgone.called hcalled).leave
    · rename_i work _
      cases work <;> exact h
  · rename_i work
    cases hs
    split
    · cases work <;> exact (Same.say rfl rfl _).called hcalled
    · cases work <;> exact h
  · exact told_pollWork hwhole hplace hs
  · exact told_pollCreated hwhole hplace hs
  · cases hs
    exact ⟨h.1, h.2.1, h.2.2, rfl⟩
  · -- the last input that the channel took is the state
    rename_i first
    cases hs
    obtain ⟨hreq, hres, haccepted, hclosed⟩ := h
    refine ⟨⟨?_, ?_, hclosed⟩, ?_⟩
    · simpa [requests, Sys.say, Sys.goTo] using hreq
    · show s.accepted.getLast? = some (s.inputs.getLastD first)
      rw [haccepted, List.getLast?_cons, List.getLastD_eq_getLast?]
    · simpa [responses, Sys.say, Sys.goTo] using hres
  · cases hs
    exact (Same.say rfl rfl _).asking h
  · cases hs
    exact (Same.say rfl rfl _).called hcalled
  · cases hs
    exact (Same.say rfl rfl _).asking h
  · cases hs
    exact (Same.say rfl rfl _).called hcalled
  · cases hs
    split <;> exact (Same.say rfl rfl _).called hcalled
  · cases hs
    exact (Same.say rfl rfl _).called hcalled
  · cases hs
    obtain ⟨hasking, hheard⟩ := h
    split
    · exact (Same.say rfl rfl _).called hcalled
    · have hpassed : Same s (s.say [.passed]) := Same.say rfl rfl s.place
      split
      · exact ⟨hpassed.asking hasking, hpassed.heard _ hheard⟩
      · exact told_respond (hpassed.asking hasking) (hpassed.heard _ hheard)
  · rename_i state outcome
    cases hs
    obtain ⟨hasking, hheard⟩ := h
    have hsame : Same s (s.say [.finish node.child node.finishId]) := Same.say rfl rfl s.place
    exact told_respond (hsame.asking hasking) (hsame.heard _ hheard)
  · cases hs
    exact Same.called (s := s) ⟨rfl, rfl, fun _ h => h, rfl, fun _ => rfl⟩ hcalled
  · cases hs
    exact hcalled
  · cases hs
    exact (Same.say rfl rfl _).called hcalled
  · cases hs

/-- The channel takes one more input. -/
theorem Told.input (h : Told s) (hreading : s.reading = true) (state : σ) :
    Told { s with inputs := s.inputs ++ [state], accepted := s.accepted ++ [state] } := by
  have hopen : ∀ {state' : σ}, ¬Asked s state' := by
    intro state' hasked
    have hclosed := hasked.2.2
    rw [hreading] at hclosed
    exact absurd hclosed (by decide)
  unfold Told at h ⊢
  dsimp only at h ⊢
  split at h
  · exact ⟨h.1, h.2.1, by rw [h.2.2]⟩
  · exact ⟨h.1, h.2.1, by rw [h.2.2]; rfl⟩
  · rw [hreading] at h
    exact absurd h.2.2.2 (by decide)
  · exact absurd h.1 hopen
  · exact absurd h.1 hopen
  · exact absurd h.1 hopen
  · exact absurd h.1 hopen
  · exact absurd h.1 hopen
  · exact absurd h.1.1 hopen
  · exact absurd h.1.1 hopen
  · exact absurd h.1 hopen
  all_goals
    rcases h with h | ⟨state', h | ⟨outcome, h⟩⟩
    · exact Or.inl h
    · exact absurd h.1 hopen
    · exact absurd h.1 hopen

theorem told_step {e : Event σ υ χ} (h : Told s) (hs : s.step node e = some s') : Told s' := by
  cases e with
  | step answer => exact told_run (h.answered answer) hs
  | input state =>
      simp only [Sys.step] at hs
      split at hs <;> cases hs
      rename_i hboth
      simp only [Bool.and_eq_true] at hboth
      exact h.input hboth.2 state
  | createEnds result =>
      simp only [Sys.step] at hs
      split at hs <;> cases hs
      exact h
  | waitEnds result =>
      simp only [Sys.step] at hs
      split at hs <;> cases hs
      exact h
  | _ =>
      cases hs
      exact h

/-! ## What was heard is so -/

def Sys.world (s : Sys σ υ χ) : World where
  createEnd := s.createEnd
  waitEnd := s.waitEnd
  cancel := s.cancel
  gone := s.dropped

theorem answered_world (answer : Answer υ χ) : (s.answered answer).world = s.world := by
  cases answer <;> rfl

theorem answered_log {answer : Answer υ χ} (hne : answer ≠ .nothing) :
    (s.answered answer).log = s.log ++ [.own (.answered answer)] := by
  cases answer with
  | nothing => exact absurd rfl hne
  | _ => rfl

theorem says_answered {answer : Answer υ χ}
    (h : Says s.world (s.answered answer).log s'.world s'.log) :
    Says s.world s.log s'.world s'.log := by
  by_cases hnone : answer = .nothing
  · subst hnone
    exact h
  · rw [answered_log hnone] at h
    refine Says.after ?_ h
    trivial

theorem says_pollWork {work : Work σ} {answer : Answer υ χ}
    (hs : s.pollWork work answer = some s') : Says s.world s.log s'.world s'.log := by
  unfold Sys.pollWork at hs
  split at hs
  · split at hs
    · cases hs
      exact .nothing (.refl _) rfl
    · cases hs
      split <;> exact .nothing (.refl _) rfl
  · cases hs
    exact .nothing (.refl _) rfl
  · cases hs
    exact .one rfl trivial
  · cases hs
    exact .nothing (.refl _) rfl
  · cases hs
    exact .nothing (.refl _) rfl
  · cases hs
    exact .nothing (.refl _) rfl
  · cases hs
    exact .nothing (.refl _) rfl
  · split at hs
    · cases hs
      exact .nothing (.refl _) rfl
    · rename_i hend
      cases hs
      exact .one rfl hend
    · rename_i hend
      cases hs
      exact .one rfl hend
  · cases hs
    exact .nothing (.refl _) rfl
  · cases hs
    exact .nothing (.refl _) rfl
  · cases hs
    exact .nothing (.refl _) rfl
  · rw [eq_leave_of_unwind hs]
    exact .nothing (.refl _) rfl
  · cases hs

theorem says_pollCreated {work : Work σ} (hs : s.pollCreated work = some s') :
    Says s.world s.log s'.world s'.log := by
  unfold Sys.pollCreated at hs
  split at hs
  · split at hs
    · cases hs
      exact .nothing (.refl _) rfl
    all_goals
      rename_i hend
      cases hs
      exact .one rfl hend
  · cases hs
    exact .nothing (.refl _) rfl
  · cases hs

theorem says_run {answer : Answer υ χ} (hs : s.run node answer = some s') :
    Says s.world s.log s'.world s'.log := by
  unfold Sys.run at hs
  split at hs
  · cases hs
    exact .nothing (.refl _) rfl
  · rw [eq_leave_of_unwind hs]
    exact .nothing (.refl _) rfl
  · cases hs
    split
    · rename_i hgone
      exact .one rfl hgone
    · exact .nothing (.refl _) rfl
  · cases hs
    split
    · rename_i htriggered
      exact .one rfl htriggered
    · exact .nothing (.refl _) rfl
  · exact says_pollWork hs
  · exact says_pollCreated hs
  · cases hs
    exact .nothing (.refl _) rfl
  · cases hs
    exact .one rfl trivial
  · cases hs
    exact .one rfl trivial
  · cases hs
    exact .one rfl trivial
  · cases hs
    exact .one rfl trivial
  · cases hs
    exact .one rfl trivial
  · -- the create is dead only if its end is known to be a removal
    rename_i createEnd event _
    cases hs
    refine .one rfl ?_
    cases hdead : s.dead createEnd with
    | false => exact trivial
    | true =>
        simp only [Sys.dead, Bool.and_eq_true] at hdead
        have hremoved := hdead.2
        split at hremoved
        · rename_i removal hend
          exact ⟨removal, hend⟩
        · cases hremoved
  · cases hs
    exact .one rfl trivial
  · cases hs
    split
    · rename_i htriggered
      exact .one rfl htriggered
    · split
      · exact .one rfl trivial
      · exact .two rfl trivial trivial
  · cases hs
    exact .two rfl trivial trivial
  · cases hs
    exact .nothing (.refl _) rfl
  · cases hs
    exact .nothing (.refl _) rfl
  · cases hs
    exact .one rfl trivial
  · cases hs

theorem says_step {e : Event σ υ χ} (hs : s.step node e = some s') :
    Says s.world s.log s'.world s'.log := by
  cases e with
  | step answer =>
      have hsays := says_run (s := s.answered answer) hs
      rw [answered_world] at hsays
      exact says_answered hsays
  | input state =>
      simp only [Sys.step] at hs
      split at hs <;> cases hs
      exact .nothing (.refl _) rfl
  | dropInput =>
      cases hs
      exact .nothing (.refl _) rfl
  | dropEvents =>
      cases hs
      exact .nothing ⟨fun _ h => h, fun _ h => h, id, fun _ => rfl⟩ rfl
  | trigger =>
      cases hs
      exact .nothing ⟨fun _ h => h, fun _ h => h, fun _ => rfl, id⟩ rfl
  | createEnds result =>
      simp only [Sys.step] at hs
      split at hs <;> cases hs
      rename_i hnone
      exact .nothing (World.stays_createEnd hnone) rfl
  | waitEnds result =>
      simp only [Sys.step] at hs
      split at hs <;> cases hs
      rename_i hnone
      exact .nothing (World.stays_waitEnd hnone) rfl

/-- Everything that a task heard was so, and still is. -/
theorem bears_of_reachable (h : (machine node).Reachable s) : ∀ x ∈ s.log, s.world.Bears x := by
  refine h.invariant (P := fun s => ∀ x ∈ s.log, s.world.Bears x) ?_ ?_
  · intro x hx
    cases hx
  · exact fun hold hs => (says_step hs).bears hold

/-! ## The event -/

/-- The event end was seen dropped, or a function of the author panicked. -/
def vanishes : Obs (Act σ υ χ) → Bool
  | .gone | .own (.answered .panicked) => true
  | _ => false

def Vanished (log : List (Obs (Act σ υ χ))) : Prop := ∃ x ∈ log, vanishes x = true

/-- The cause of a failure of the library stands in the log, and the error of a call that
the handle did not take is the one it was answered with. -/
def Reason (log : List (Obs (Act σ υ χ))) : Error χ → Prop
  | .callerSource cause => .own (.answered (.caller (.error cause))) ∈ log
  | .upload error => ∃ child content,
      [.own (.answered (.taken (.error error))), .upload child content false] <:+: log
  | .create error => ∃ input,
      [.own (.answered (.taken (.error error))), .create input false] <:+: log
  | .createRemoved what source =>
      ∃ removal, .created (.err removal) ∈ log ∧
        (removed removal : Error χ) = .createRemoved what source
  | .endWait error => .ended (.error error) ∈ log

/-- What the log says of an event: it is a cancel if and only if the task saw the
cancel view triggered, and else it is what the author or the library answered. -/
def Suits (log : List (Obs (Act σ υ χ))) : NodeEvent υ χ → Prop
  | .cancelled => .triggered ∈ log
  | .result update => .triggered ∉ log ∧ .own (.answered (.update (.ok update))) ∈ log
  | .failed (.author cause) => .triggered ∉ log ∧
      (.own (.answered (.spec (.error cause))) ∈ log ∨
        .own (.answered (.update (.error cause))) ∈ log)
  | .failed (.library error) => .triggered ∉ log ∧ Reason log error

/-- No event is sent: the task vanished, or no input ever came. -/
def Silent (s : Sys σ υ χ) : Prop :=
  events s.log = [] ∧ (Vanished s.log ∨ s.accepted = [] ∧ s.inputEnd = false)

/-- Nothing is said yet that decides the event. -/
def Quiet (log : List (Obs (Act σ υ χ))) : Prop :=
  events log = [] ∧ ¬Vanished log ∧ .triggered ∉ log

/-- The event is decided, and not sent. -/
def Decided (log : List (Obs (Act σ υ χ))) (event : NodeEvent υ χ) : Prop :=
  events log = [] ∧ ¬Vanished log ∧ Suits log event

/-- The event was sent. -/
def Sent (log : List (Obs (Act σ υ χ))) (event : NodeEvent υ χ) : Prop :=
  events log = [event] ∧ ¬Vanished log ∧ Suits log event

def Ends (s : Sys σ υ χ) : Prop :=
  match s.place with
  | .unlessDead _ event | .cancel event | .settle event | .drop event | .send event =>
      Decided s.log event
  | .done => Silent s ∨ ∃ event, Sent s.log event
  | _ => Quiet s.log

/-- A task that runs has sent nothing, and one that is done has sent its event or none. -/
theorem Ends.ways (h : Ends s) :
    (s.place ≠ .done ∧ events s.log = [] ∧ ¬Vanished s.log) ∨
      s.place = .done ∧ (Silent s ∨ ∃ event, Sent s.log event) := by
  unfold Ends at h
  cases hat : s.place with
  | done =>
      rw [hat] at h
      exact Or.inr ⟨rfl, h⟩
  | _ =>
      rw [hat] at h
      exact Or.inl ⟨by simp, h.1, h.2.1⟩

/-- The answer of a step is what the log says last. -/
def Fresh (s : Sys σ υ χ) (answer : Answer υ χ) : Prop :=
  answer ≠ .nothing → ∃ past, s.log = past ++ [.own (.answered answer)]

section Log

variable {log : List (Obs (Act σ υ χ))} {x : Obs (Act σ υ χ)}

theorem not_vanished_nil : ¬Vanished ([] : List (Obs (Act σ υ χ))) := by
  rintro ⟨x, hx, -⟩
  cases hx

theorem not_vanished_snoc (h : ¬Vanished log) (hx : vanishes x = false) :
    ¬Vanished (log ++ [x]) := by
  rintro ⟨y, hy, hvanishes⟩
  rcases List.mem_append.mp hy with hy | hy
  · exact h ⟨y, hy, hvanishes⟩
  · rw [List.mem_singleton.mp hy, hx] at hvanishes
    cases hvanishes

theorem Vanished.mono (h : Vanished log) : Vanished (log ++ [x]) :=
  h.imp fun _ hy => ⟨List.mem_append_left _ hy.1, hy.2⟩

theorem Vanished.last (hx : vanishes x = true) : Vanished (log ++ [x]) :=
  ⟨x, List.mem_append_right _ List.mem_cons_self, hx⟩

theorem Reason.mono {error : Error χ} (h : Reason log error) : Reason (log ++ [x]) error := by
  have hmem : ∀ {y : Obs (Act σ υ χ)}, y ∈ log → y ∈ log ++ [x] := List.mem_append_left _
  have hpart : ∀ {part : List (Obs (Act σ υ χ))}, part <:+: log → part <:+: log ++ [x] :=
    fun hin => hin.trans (List.prefix_append log [x]).isInfix
  cases error with
  | callerSource cause => exact hmem h
  | upload error => exact h.imp fun _ => Exists.imp fun _ => hpart
  | create error => exact h.imp fun _ => hpart
  | createRemoved what source => exact h.imp fun _ hin => ⟨hmem hin.1, hin.2⟩
  | endWait error => exact hmem h

theorem mem_snoc_ne {y : Obs (Act σ υ χ)} (h : y ∉ log) (hne : x.kind ≠ y.kind) :
    y ∉ log ++ [x] := by
  intro hin
  rcases List.mem_append.mp hin with hin | hin
  · exact h hin
  · exact hne (congrArg Obs.kind (List.mem_singleton.mp hin).symm)

theorem Suits.mono {event : NodeEvent υ χ} (h : Suits log event) (hx : x.kind ≠ .triggered) :
    Suits (log ++ [x]) event := by
  have hno : .triggered ∉ log → .triggered ∉ log ++ [x] := fun h => mem_snoc_ne h hx
  have hmem : ∀ {y : Obs (Act σ υ χ)}, y ∈ log → y ∈ log ++ [x] := List.mem_append_left _
  cases event with
  | cancelled => exact hmem h
  | result update => exact ⟨hno h.1, hmem h.2⟩
  | failed failure =>
      cases failure with
      | author cause => exact ⟨hno h.1, h.2.imp hmem hmem⟩
      | library error => exact ⟨hno h.1, h.2.mono⟩

theorem Quiet.say (h : Quiet log) (hevents : events [x] = []) (hx : vanishes x = false)
    (htriggered : x.kind ≠ .triggered) : Quiet (log ++ [x]) :=
  ⟨by rw [events_append, h.1, hevents]; rfl, not_vanished_snoc h.2.1 hx,
    mem_snoc_ne h.2.2 htriggered⟩

/-- What the task hears decides the event. -/
theorem Quiet.decides {event : NodeEvent υ χ} (h : Quiet log) (hevents : events [x] = [])
    (hx : vanishes x = false) (hsuits : Suits (log ++ [x]) event) :
    Decided (log ++ [x]) event :=
  ⟨by rw [events_append, h.1, hevents]; rfl, not_vanished_snoc h.2.1 hx, hsuits⟩

theorem Quiet.triggered (h : Quiet log) : Decided (log ++ [.triggered]) .cancelled :=
  h.decides rfl rfl (List.mem_append_right _ List.mem_cons_self)

theorem Decided.say {event : NodeEvent υ χ} (h : Decided log event) (hevents : events [x] = [])
    (hx : vanishes x = false) (htriggered : x.kind ≠ .triggered) :
    Decided (log ++ [x]) event :=
  ⟨by rw [events_append, h.1, hevents]; rfl, not_vanished_snoc h.2.1 hx,
    h.2.2.mono htriggered⟩

theorem Decided.sent {event : NodeEvent υ χ} (h : Decided log event) :
    Sent (log ++ [.own (.sent event)]) event :=
  ⟨by rw [events_append, h.1]; rfl, not_vanished_snoc h.2.1 rfl,
    h.2.2.mono (by simp [Obs.kind])⟩

theorem Silent.say (h : Silent s) (hevents : events [x] = []) : Silent (s.say [x]) :=
  ⟨by rw [Sys.say, events_append, h.1, hevents]; rfl, h.2.imp_left Vanished.mono⟩

theorem Sent.say {event : NodeEvent υ χ} (h : Sent log event) (hevents : events [x] = [])
    (hx : vanishes x = false) (htriggered : x.kind ≠ .triggered) : Sent (log ++ [x]) event :=
  ⟨by rw [events_append, h.1, hevents]; rfl, not_vanished_snoc h.2.1 hx,
    h.2.2.mono htriggered⟩

end Log

/-! ### Answers -/

section Answers

variable {answer : Answer υ χ}

theorem fresh_answered : Fresh (s.answered answer) answer :=
  fun hne => ⟨s.log, answered_log hne⟩

theorem Fresh.mem (h : Fresh s answer) (hne : answer ≠ .nothing) :
    .own (.answered answer) ∈ s.log := by
  obtain ⟨past, hlog⟩ := h hne
  rw [hlog]
  exact List.mem_append_right _ List.mem_cons_self

/-- What is said next stands right behind the answer. -/
theorem Fresh.followed (h : Fresh s answer) (hne : answer ≠ .nothing) (x : Obs (Act σ υ χ)) :
    [.own (.answered answer), x] <:+: s.log ++ [x] := by
  obtain ⟨past, hlog⟩ := h hne
  exact ⟨past, [], by simp [hlog]⟩

/-- What neither calls for an event nor for none changes nothing of the end. -/
theorem Ends.say {x : Obs (Act σ υ χ)} (h : Ends s) (hevents : events [x] = [])
    (hx : vanishes x = false) (htriggered : x.kind ≠ .triggered) : Ends (s.say [x]) := by
  have hdecided : ∀ {event : NodeEvent υ χ}, Decided s.log event →
      Decided (s.say [x]).log event := fun hin => hin.say hevents hx htriggered
  unfold Ends at h ⊢
  rw [show (s.say [x]).place = s.place from rfl]
  cases hat : s.place with
  | unlessDead _ _ | cancel _ | settle _ | drop _ | send _ =>
      rw [hat] at h
      exact hdecided h
  | done =>
      rw [hat] at h
      exact h.imp (fun hsilent => hsilent.say hevents)
        fun hsent => hsent.imp fun _ hin => hin.say hevents hx htriggered
  | _ =>
      rw [hat] at h
      exact Quiet.say h hevents hx htriggered

/-- An answer that is no panic decides nothing by itself. -/
theorem Ends.answered (h : Ends s) (hne : answer ≠ .panicked) : Ends (s.answered answer) := by
  cases answer with
  | nothing => exact h
  | panicked => exact absurd rfl hne
  | _ => exact h.say rfl rfl (by simp [Obs.kind])

/-- Only a function of the author that is called or polled panics. -/
theorem run_panicked (hs : s.run node .panicked = some s') :
    ∃ look work, s.place = .guard look work ∧ s.unwind work = some s' := by
  unfold Sys.run at hs
  cases hplace : s.place with
  | guard look work =>
      rw [hplace] at hs
      refine ⟨look, work, rfl, ?_⟩
      cases look with
      | called => exact hs
      | work => cases work <;> exact hs
      | _ => cases hs
  | _ =>
      rw [hplace] at hs
      cases hs

/-- A function of the author panics, and no event is sent. -/
theorem ends_panicked (h : Ends s) (hs : (s.answered .panicked).run node .panicked = some s') :
    Ends s' := by
  obtain ⟨look, work, hplace, hunwind⟩ := run_panicked hs
  have hquiet : Quiet s.log := by
    unfold Ends at h
    rw [show s.place = .guard look work from hplace] at h
    exact h
  rw [eq_leave_of_unwind hunwind]
  refine Or.inl ⟨?_, Or.inl (Vanished.last rfl)⟩
  show events (s.log ++ [_]) = []
  rw [events_append, hquiet.1]
  rfl

end Answers

theorem ends_pollWork {work : Work σ} {answer : Answer υ χ} (h : Ends s) (htold : Told s)
    (hfresh : Fresh s answer) (hno : answer ≠ .panicked) (hplace : s.place = .guard .work work)
    (hs : s.pollWork work answer = some s') : Ends s' := by
  have hquiet : Quiet s.log := by
    unfold Ends at h
    rw [hplace] at h
    exact h
  have hlast : ∀ {x : Obs (Act σ υ χ)}, x ∈ s.log ++ [x] :=
    List.mem_append_right _ List.mem_cons_self
  unfold Told at htold
  rw [hplace] at htold
  unfold Sys.pollWork at hs
  split at hs
  · split at hs
    · cases hs
      exact hquiet
    · rename_i hinputs
      cases hs
      by_cases hend : s.inputEnd = true
      · rw [if_pos hend]
        exact hquiet
      · rw [if_neg hend]
        -- no input ever came
        have hgone : s.inputEnd = false := by simpa using hend
        exact Or.inl ⟨hquiet.1, Or.inr ⟨htold.2.2.trans hinputs, hgone⟩⟩
  · cases hs
    exact hquiet
  · cases hs
    exact hquiet.say rfl rfl (by simp [Obs.kind])
  · cases hs
    exact ⟨hquiet.1, hquiet.2.1, hquiet.2.2, Or.inl (hfresh.mem (by simp))⟩
  · cases hs
    exact hquiet
  · rename_i state spec
    cases hs
    show Ends (s.goTo (handOver state spec))
    unfold handOver
    split <;> exact hquiet
  · cases hs
    exact ⟨hquiet.1, hquiet.2.1, hquiet.2.2, hfresh.mem (by simp)⟩
  · split at hs
    · cases hs
      exact hquiet
    · cases hs
      exact hquiet.say rfl rfl (by simp [Obs.kind])
    · cases hs
      refine hquiet.decides rfl rfl ⟨?_, hlast⟩
      exact mem_snoc_ne hquiet.2.2 (by simp [Obs.kind])
  · cases hs
    exact hquiet
  · cases hs
    exact ⟨hquiet.1, hquiet.2.1, hquiet.2.2, hfresh.mem (by simp)⟩
  · cases hs
    exact ⟨hquiet.1, hquiet.2.1, hquiet.2.2, Or.inr (hfresh.mem (by simp))⟩
  · exact absurd rfl hno
  · cases hs

theorem ends_pollCreated {work : Work σ} (h : Quiet s.log)
    (hs : s.pollCreated work = some s') : Ends s' := by
  have hlast : ∀ {x : Obs (Act σ υ χ)}, x ∈ s.log ++ [x] :=
    List.mem_append_right _ List.mem_cons_self
  unfold Sys.pollCreated at hs
  split at hs
  · split at hs
    · cases hs
      exact h
    · cases hs
      exact h.say rfl rfl (by simp [Obs.kind])
    · cases hs
      exact h.say rfl rfl (by simp [Obs.kind])
    · rename_i removal _ _
      cases hs
      cases removal <;>
        exact h.decides rfl rfl ⟨mem_snoc_ne h.2.2 (by simp [Obs.kind]), _, hlast, rfl⟩
  · cases hs
    exact h
  · cases hs

theorem ends_run {answer : Answer υ χ} (h : Ends s) (htold : Told s) (hfresh : Fresh s answer)
    (hno : answer ≠ .panicked) (hs : s.run node answer = some s') : Ends s' := by
  have hlast : ∀ {x : Obs (Act σ υ χ)}, x ∈ s.log ++ [x] :=
    List.mem_append_right _ List.mem_cons_self
  have hwhole := h
  unfold Sys.run at hs
  split at hs
  any_goals
    rename_i hplace
    unfold Ends at h
    rw [hplace] at h
  · rename_i work
    cases hs
    cases work <;> exact h
  · exact absurd rfl hno
  · cases hs
    split
    · refine Or.inl ⟨?_, Or.inl (Vanished.last rfl)⟩
      rw [Sys.leave, Sys.say, events_append, h.1]
      rfl
    · rename_i work _
      cases work <;> exact h
  · rename_i work
    cases hs
    split
    · cases work <;> exact h.triggered
    · cases work <;> exact h
  · exact ends_pollWork hwhole htold hfresh hno hplace hs
  · exact ends_pollCreated h hs
  · cases hs
    exact h
  · cases hs
    exact h.say rfl rfl (by simp [Obs.kind])
  · cases hs
    exact h.say rfl rfl (by simp [Obs.kind])
  · cases hs
    exact h.decides rfl rfl
      ⟨mem_snoc_ne h.2.2 (by simp [Obs.kind]), _, _, hfresh.followed (by simp) _⟩
  · cases hs
    exact h.say rfl rfl (by simp [Obs.kind])
  · cases hs
    exact h.decides rfl rfl
      ⟨mem_snoc_ne h.2.2 (by simp [Obs.kind]), _, hfresh.followed (by simp) _⟩
  · cases hs
    split <;> exact h.say rfl rfl (by simp [Obs.kind])
  · cases hs
    exact h.say rfl rfl (by simp [Obs.kind])
  · cases hs
    split
    · exact h.triggered
    · have hpassed := h.say (x := .passed) rfl rfl (by simp [Obs.kind])
      split
      · exact hpassed
      · exact hpassed.say rfl rfl (by simp [Obs.kind])
  · cases hs
    have hfinished := h.say (x := .finish node.child node.finishId) rfl rfl
      (by simp [Obs.kind])
    exact hfinished.say rfl rfl (by simp [Obs.kind])
  · cases hs
    exact h
  · cases hs
    exact h
  · cases hs
    exact Or.inr ⟨_, h.sent⟩
  · cases hs

/-- An input comes only while an input end is there. -/
theorem ends_step {e : Event σ υ χ} (h : Ends s) (htold : Told s)
    (hs : s.step node e = some s') : Ends s' := by
  have hkeeps : ∀ {s' : Sys σ υ χ}, s'.place = s.place → s'.log = s.log →
      (Silent s → Silent s') → Ends s' := by
    intro s' hplace hlog hsilent
    unfold Ends at h ⊢
    rw [hplace, hlog]
    split at h
    any_goals exact h
    exact h.imp_left hsilent
  cases e with
  | step answer =>
      by_cases hpanicked : answer = .panicked
      · subst hpanicked
        exact ends_panicked h hs
      · exact ends_run (h.answered hpanicked) (htold.answered answer) fresh_answered hpanicked hs
  | input state =>
      simp only [Sys.step] at hs
      split at hs <;> cases hs
      rename_i hboth
      simp only [Bool.and_eq_true] at hboth
      refine hkeeps rfl rfl fun hsilent => ⟨hsilent.1, ?_⟩
      rcases hsilent.2 with hgone | ⟨-, hend⟩
      · exact Or.inl hgone
      · rw [hboth.1] at hend
        cases hend
  | dropInput =>
      cases hs
      exact hkeeps rfl rfl fun hsilent => ⟨hsilent.1, hsilent.2.imp_right fun h => ⟨h.1, rfl⟩⟩
  | dropEvents =>
      cases hs
      exact hkeeps rfl rfl id
  | trigger =>
      cases hs
      exact hkeeps rfl rfl id
  | createEnds result =>
      simp only [Sys.step] at hs
      split at hs <;> cases hs
      exact hkeeps rfl rfl id
  | waitEnds result =>
      simp only [Sys.step] at hs
      split at hs <;> cases hs
      exact hkeeps rfl rfl id

/-! ## Every reachable state -/

theorem told_of_reachable (h : (machine node).Reachable s) : Told s := by
  refine h.invariant (P := Told) ?_ fun hold hs => told_step hold hs
  exact ⟨rfl, rfl, rfl⟩

theorem ends_of_reachable (h : (machine node).Reachable s) : Ends s := by
  refine (h.invariant (P := fun s => Told s ∧ Ends s) ?_ ?_).2
  · exact ⟨⟨rfl, rfl, rfl⟩, rfl, not_vanished_nil, List.not_mem_nil⟩
  · rintro s s' e ⟨htold, hold⟩ hs
    exact ⟨told_step htold hs, ends_step hold htold hs⟩

/-- What holds of the call of the child Job. -/
structure CallKept (s : Sys σ υ χ) : Prop where
  rules : Rules s.log
  heard : ∀ x ∈ s.log, s.world.Bears x
  settled : s.place = .done → ∀ input, .create input true ∈ s.log → Settled s.log input.jobId

/-- What holds of the functions of the author and of the event. -/
structure AuthorKept (s : Sys σ υ χ) : Prop where
  called : Called s
  once : (events s.log).length ≤ 1
  sent : ∀ event ∈ events s.log, s.place = .done ∧ ¬Vanished s.log ∧ Suits s.log event
  vanished : Vanished s.log → s.place = .done ∧ events s.log = []
  silent : s.place = .done → events s.log = [] →
    Vanished s.log ∨ s.accepted = [] ∧ s.inputEnd = false

/-- In every run of an instance the call of its child Job keeps the rules, and the
child Job is accounted for when the task is done. -/
theorem instance_call (h : (machine node).Reachable s) : CallKept s := by
  obtain ⟨t, hrun, hfits⟩ := (refines node).accepted h
  have hkept := kept_of_run hrun
  refine ⟨hkept.rules, bears_of_reachable h, ?_⟩
  intro hdone input hcreated
  have hof := hkept.child input hcreated
  rw [hdone] at hfits
  rcases hfits with rfl | rfl
  · exact hof.elim
  · exact hof

/-- In every run of an instance each function of the author is called at most once,
with the last input and then with what was heard, and at most one event is sent,
last of all and as it was answered; none is sent only if nobody is there to take it
or to ask for it, or if a function of the author panicked. -/
theorem instance_author (h : (machine node).Reachable s) : AuthorKept s := by
  refine ⟨(told_of_reachable h).called, ?_, ?_, ?_, ?_⟩ <;>
    rcases (ends_of_reachable h).ways with
      ⟨hbusy, hnone, hthere⟩ | ⟨hdone, hsilent | ⟨event, hsent⟩⟩
  · simp [hnone]
  · simp [hsilent.1]
  · simp [hsent.1]
  · simp [hnone]
  · simp [hsilent.1]
  · intro sent hin
    rw [hsent.1] at hin
    cases List.mem_singleton.mp hin
    exact ⟨hdone, hsent.2⟩
  · exact fun hvanished => absurd hvanished hthere
  · exact fun _ => ⟨hdone, hsilent.1⟩
  · exact fun hvanished => absurd hvanished hsent.2.1
  · exact fun hdone => absurd hdone hbusy
  · exact fun _ _ => hsilent.2
  · intro _ hnone
    rw [hsent.1] at hnone
    cases hnone

/-- The node that the runs below are of. -/
def summarize : Node where
  runnerType := "summarize"
  maxAttempts := none
  child := 1
  createId := 2
  cancelId := 3
  finishId := 4

/-- A guard polls all there is to poll before the work gives its answer. -/
def guarded (answer : Answer ℕ ℕ) : List (Event ℕ ℕ ℕ) :=
  [.step .nothing, .step .nothing, .step answer]

/-- The author is called, and then what it gave is polled under the guard. -/
def asked (answer : Answer ℕ ℕ) : List (Event ℕ ℕ ℕ) := .step .nothing :: guarded answer

/-- The child Job whose payload is kept is called, and it completes. -/
def calledRun : List (Event ℕ ℕ ℕ) :=
  List.flatten [[.input 1, .input 2], guarded .nothing, [.step .nothing, .step .nothing],
    asked (.spec (.ok { payload := .kept ⟨"text", []⟩, config := none })),
    asked (.caller (.ok ())),
    [.step (.taken (.ok ())), .step (.taken (.ok ())), .createEnds .ok],
    guarded .nothing, [.step .nothing, .waitEnds (.ok (.completed none none))],
    guarded .nothing, [.step .nothing, .step (.taken (.ok ()))]]

/-- The response takes the result of the child Job. -/
def completedRun : List (Event ℕ ℕ ℕ) :=
  calledRun ++ (asked (.update (.ok 7)) ++ [.step .nothing, .step .nothing, .step .nothing])

/-- The response function panics, and there is no event. -/
def panickedRun : List (Event ℕ ℕ ℕ) := calledRun ++ [.step .panicked]

theorem instance_call_completedRun :
    ∃ s, (machine summarize).run completedRun = some s ∧ CallKept s ∧ s.place = .done ∧
      s.log.map Obs.kind =
        [.own, .own, .own, .own, .own, .upload, .own, .create, .created, .ended, .passed, .own,
          .finish, .own, .own, .own] :=
  ⟨_, rfl, instance_call (Machine.reachable_of_run completedRun rfl), rfl, rfl⟩

theorem instance_author_completedRun :
    ∃ s, (machine summarize).run completedRun = some s ∧ AuthorKept s ∧
      requests s.log = [2] ∧ responses s.log = [(2, .completed none none)] ∧
      events s.log = [.result 7] :=
  ⟨_, rfl, instance_author (Machine.reachable_of_run completedRun rfl), rfl, rfl, rfl⟩

/-- A panic of the response function leaves the graph with no event. -/
example : ∃ s, (machine summarize).run panickedRun = some s ∧ s.place = .done ∧
    responses s.log = [(2, .completed none none)] ∧ events s.log = [] :=
  ⟨_, rfl, rfl, rfl, rfl⟩

end RunnerKit.AsNode
