import RunnerKit.Queue.Task

/-!
# What one step of the queue can do

`Step s s'` lists the ways in which the machine can go on from `s`, one
constructor for each branch of the source with the guards that led there.
Every invariant of the queue is a case analysis on it; the step function
itself is unfolded in this module only.
-/

namespace RunnerKit.Queue

open RunnerKit.Jobs RunnerKit.Lib

/-- The task is at `point`, with no completion under way. -/
structure Sys.At (s : Sys) (point : Point) : Prop where
  free : s.task.completing = none
  point : s.task.point = point

inductive Step (s : Sys) : Sys → Prop where
  -- callers
  | enqueue (write : Write) (now : ℕ) (hopen : s.st.unqueuedBy write = none) :
      Step s (s.enqueue write now)
  | hold (write : Write) (follow : Option Write) (now : ℕ)
      (hopen : s.st.stopped = false) : Step s (s.hold write follow now)
  | unqueue (write : Write) (removal : Removal)
      (hwhy : s.st.unqueuedBy write = some removal) :
      Step s (s.unqueue write removal)
  | callNotify (chan : Chan) (hcall : s.calls chan = some .notify) :
      Step s (s.callNotify chan)
  | callTable (chan : Chan) (write : Write) (removal : Removal)
      (hcall : s.calls chan = some (.unqueued write removal .table)) :
      Step s (s.callTable chan write removal)
  | callAnswer (chan : Chan) (write : Write) (removal : Removal)
      (hcall : s.calls chan = some (.unqueued write removal .answer)) :
      Step s (s.callAnswer chan write removal)
  | callReport (chan : Chan) (write : Write) (removal : Removal)
      (hcall : s.calls chan = some (.unqueued write removal .report)) :
      Step s (s.callReport chan write removal)
  | stopNow : Step s { s with st := { s.st with stopped := true } }
  | stopCancel (hstop : s.st.stopped = true) : Step s { s with stop := true }
  -- the parts of `complete`
  | complete (entry : Entry) (result : WriteResult) (stage : Stage)
      (hc : s.task.completing = some ⟨entry, result, stage⟩) :
      Step s (s.completeStep entry result stage)
  -- the loop of the task
  | takeNewHeld (hfree : s.task.completing = none)
      (hpoint : s.task.point = .unpolled ∨ s.task.point = .looping) :
      Step s s.takeNewHeld
  | noHead (hat : s.At .heading) : Step s (s.atPoint .selecting)
  | takeHead (head : Entry) (rest : List Entry) (hat : s.At .heading)
      (hentry : s.task.entry = none) (hopen : s.st.stopped = false)
      (hfifo : s.st.fifo = head :: rest)
      (hblocked : blocked head.write s.st.ended = none) :
      Step s (s.takeHead head { s.st with fifo := rest })
  | skipHead (head : Entry) (rest : List Entry) (removal : Removal)
      (hat : s.At .heading)
      (hentry : s.task.entry = none) (hopen : s.st.stopped = false)
      (hfifo : s.st.fifo = head :: rest)
      (hblocked : blocked head.write s.st.ended = some removal) :
      Step s (s.skipHead head removal { s.st with fifo := rest })
  | send (attempt : Attempt) (hat : s.At .selecting)
      (hattempt : s.task.attempt = some attempt)
      (hphase : attempt.phase ≠ .sending) : Step s (s.send attempt)
  | retry (attempt : Attempt) (error : Error) (hat : s.At .selecting)
      (hattempt : s.task.attempt = some attempt)
      (hphase : attempt.phase = .sending) : Step s (s.retry attempt error)
  | attemptDone (attempt : Attempt) (outcome : Outcome) (result : WriteResult)
      (hat : s.At .selecting)
      (hattempt : s.task.attempt = some attempt)
      (hphase : attempt.phase = .sending)
      (hjudge : judge attempt.write outcome = .final result) :
      Step s (s.attemptDone result)
  | endHeld (seq : ℕ) (marker : Entry) (follow : Option Write)
      (held : List (Entry × Option Write)) (removal : Removal)
      (hat : s.At .selecting)
      (htake : Sys.takeHeld seq s.task.held = some ((marker, follow), held))
      (hwhy : removal = .dependsOnRemoved ∨
        removal = .leftUnsent ∧ s.st.stopped = true) :
      Step s (s.endHeld held marker removal)
  | joinHeld (seq : ℕ) (marker : Entry) (follow : Option Write)
      (held : List (Entry × Option Write)) (now : ℕ)
      (hat : s.At .selecting) (hopen : s.st.stopped = false)
      (htake : Sys.takeHeld seq s.task.held = some ((marker, follow), held)) :
      Step s (s.joinHeld held marker follow now)
  | woken (hat : s.At .selecting) (hwake : s.wake = true) :
      Step s ({ s with wake := false }.atPoint .looping)
  -- the drop of the task
  | dropTask (hfree : s.task.completing = none)
      (hpoint : s.task.point = .unpolled ∨ s.task.point = .selecting) :
      Step s s.dropTask
  | dropLocked (rest : List Entry) (hat : s.At (.dropping rest)) :
      Step s (s.dropLocked rest)
  | dropEntry (entry : Entry) (rest : List Entry)
      (hat : s.At (.draining (entry :: rest))) :
      Step s ((s.startCompletion entry (.err .leftUnsent)).atPoint
        (.draining rest))
  | dropEnd (hat : s.At (.draining [])) : Step s (s.atPoint .gone)
  -- drained calls
  | drain : Step s s.drain
  | drainRead (d seen : ℕ) (hd : s.drains d = some (.subscribed seen)) :
      Step s (s.readTarget d seen)
  | drainPark (d upto seen : ℕ) (hd : s.drains d = some (.checking upto seen))
      (hwaits : s.st.waitsBelow upto = true) :
      Step s (s.setDrain d (some (.parked upto seen)))
  | drainPass (d upto seen : ℕ) (hd : s.drains d = some (.checking upto seen))
      (hwaits : s.st.waitsBelow upto = false) :
      Step s (s.setDrain d (some .leaving))
  | drainWake (d upto seen : ℕ) (hd : s.drains d = some (.parked upto seen))
      (hseen : s.progress ≠ seen) :
      Step s (s.setDrain d (some (.checking upto s.progress)))
  | drainLeave (d : ℕ) (hd : s.drains d = some .leaving) :
      Step s ((s.setDrain d none).observe (.drainReturned d s.st.snapshot))
  | drainAbandon (d : ℕ) : Step s (s.setDrain d none)

namespace Sys

variable {s s' : Sys}

theorem popHead_some {st : State} {head : Entry} {st' : State}
    (h : st.popHead = some (head, st')) :
    st.stopped = false ∧ ∃ rest, st.fifo = head :: rest ∧
      st' = { st with fifo := rest } := by
  unfold State.popHead at h
  split at h
  · cases h
  · rename_i hopen
    split at h
    · cases h
    · rename_i rest hfifo
      cases h
      exact ⟨by simpa using hopen, rest, hfifo, rfl⟩

theorem callStep_cases {chan : Chan} (h : s.callStep chan = some s') :
    Step s s' := by
  obtain ⟨call, hcall, rfl⟩ := Option.map_eq_some_iff.mp h
  cases call with
  | notify => exact .callNotify chan hcall
  | unqueued write removal stage =>
      cases stage with
      | table => exact .callTable chan write removal hcall
      | answer => exact .callAnswer chan write removal hcall
      | report => exact .callReport chan write removal hcall

theorem nextHead_cases (hat : s.At .heading) : Step s s.nextHead := by
  unfold nextHead
  split
  · exact .noHead hat
  · rename_i hentry
    split
    · exact .noHead hat
    · rename_i head st hpop
      obtain ⟨hopen, rest, hfifo, rfl⟩ := popHead_some hpop
      split
      · rename_i removal hblocked
        exact .skipHead head rest removal hat hentry hopen hfifo hblocked
      · rename_i hblocked
        exact .takeHead head rest hat hentry hopen hfifo hblocked

theorem taskStep_cases {e : TaskEvent} (hfree : s.task.completing = none)
    (h : s.taskStep e = some s') : Step s s' := by
  cases e with
  | takeNewHeld =>
      simp only [taskStep] at h
      split at h <;> cases h
      · exact .takeNewHeld hfree (Or.inl ‹_›)
      · exact .takeNewHeld hfree (Or.inr ‹_›)
  | nextHead =>
      simp only [taskStep] at h
      split at h <;> cases h
      exact nextHead_cases ⟨hfree, ‹_›⟩
  | send =>
      simp only [taskStep] at h
      split at h
      · rename_i attempt hpoint hattempt
        split at h <;> cases h
        exact .send attempt ⟨hfree, hpoint⟩ hattempt ‹_›
      · cases h
  | attemptEnded outcome =>
      simp only [taskStep] at h
      split at h
      · rename_i attempt hpoint hattempt
        split at h
        · rename_i hphase
          split at h <;> cases h
          · rename_i error hjudge
            exact .retry attempt error ⟨hfree, hpoint⟩ hattempt hphase
          · rename_i result hjudge
            exact .attemptDone attempt outcome result ⟨hfree, hpoint⟩ hattempt
              hphase hjudge
        · cases h
      · cases h
  | gateEnded seq gate now =>
      simp only [taskStep] at h
      split at h
      · rename_i marker follow held hpoint htake
        cases h
        cases gate with
        | stored =>
            simp only [gateEnded]
            split
            · exact .endHeld seq marker follow held _ ⟨hfree, hpoint⟩ htake
                (Or.inr ⟨rfl, ‹_›⟩)
            · rename_i hopen
              exact .joinHeld seq marker follow held now ⟨hfree, hpoint⟩
                (by simpa using hopen) htake
        | dropped =>
            exact .endHeld seq marker follow held _ ⟨hfree, hpoint⟩ htake
              (Or.inl rfl)
      · cases h
  | woken =>
      simp only [taskStep] at h
      split at h
      · split at h <;> cases h
        exact .woken ⟨hfree, ‹_›⟩ ‹_›
      · cases h
  | stopSeen =>
      simp only [taskStep] at h
      split at h
      · split at h <;> cases h
        exact .dropTask hfree (Or.inr ‹_›)
      · cases h
  | drop =>
      simp only [taskStep] at h
      split at h <;> cases h
      · exact .dropTask hfree (Or.inl ‹_›)
      · exact .dropTask hfree (Or.inr ‹_›)
  | dropLocked =>
      simp only [taskStep] at h
      split at h <;> cases h
      exact .dropLocked _ ⟨hfree, ‹_›⟩
  | dropNext =>
      simp only [taskStep] at h
      split at h
      · rename_i rest hpoint
        cases h
        cases rest with
        | nil => exact .dropEnd ⟨hfree, hpoint⟩
        | cons entry rest => exact .dropEntry entry rest ⟨hfree, hpoint⟩
      · cases h

theorem drainedStep_cases {d : ℕ} {e : DrainEvent}
    (h : s.drainedStep d e = some s') : Step s s' := by
  cases e with
  | read =>
      simp only [drainedStep] at h
      split at h <;> cases h
      exact .drainRead d _ ‹_›
  | check =>
      simp only [drainedStep] at h
      split at h <;> cases h
      rename_i upto seen hd
      split
      · exact .drainPark d upto seen hd ‹_›
      · rename_i hwaits
        exact .drainPass d upto seen hd (by simpa using hwaits)
  | wake =>
      simp only [drainedStep] at h
      split at h
      · split at h <;> cases h
        exact .drainWake d _ _ ‹_› ‹_›
      · cases h
  | leave =>
      simp only [drainedStep] at h
      split at h <;> cases h
      exact .drainLeave d ‹_›
  | abandon =>
      cases h
      exact .drainAbandon d

/-- Every accepted event is one of the listed steps. -/
theorem step_cases {e : Event} (h : s.step e = some s') : Step s s' := by
  cases e with
  | enqueue write now =>
      cases h
      split
      · exact .unqueue write _ ‹_›
      · exact .enqueue write now ‹_›
  | hold write follow now =>
      cases h
      split
      · rename_i hstop
        exact .unqueue write _ (by simp [State.unqueuedBy, hstop])
      · rename_i hopen
        exact .hold write follow now (by simpa using hopen)
  | call chan => exact callStep_cases h
  | stopNow =>
      cases h
      exact .stopNow
  | stopCancel =>
      simp only [step] at h
      split at h <;> cases h
      exact .stopCancel ‹_›
  | complete =>
      obtain ⟨⟨entry, result, stage⟩, hc, rfl⟩ := Option.map_eq_some_iff.mp h
      exact .complete entry result stage hc
  | task event =>
      simp only [step] at h
      split at h
      · exact taskStep_cases ‹_› h
      · cases h
  | drain =>
      cases h
      exact .drain
  | drained d event => exact drainedStep_cases h

/-- The induction over runs, with the listed steps. -/
theorem invariant {P : Sys → Prop} (hinit : P init)
    (hstep : ∀ {s s' : Sys}, P s → Step s s' → P s')
    {s : Sys} (h : machine.Reachable s) : P s := by
  refine Machine.Reachable.invariant hinit ?_ h
  intro s s' e hp hs
  have hlisted : Step s s' := step_cases hs
  exact hstep hp hlisted

end Sys

end RunnerKit.Queue
