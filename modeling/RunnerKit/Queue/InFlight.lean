import RunnerKit.Queue.Custody

/-!
# The entry in flight and the last failure

The running attempt sends the write of the entry in flight, and the last
failure that the queue shows is one of that entry for as long as it is not
removed from `pending`.
-/

namespace RunnerKit.Queue

open RunnerKit.Jobs RunnerKit.Lib

/-- The drop of the task has begun. -/
def Point.leaving : Point → Bool
  | .dropping _ | .draining _ | .gone => true
  | _ => false

namespace Sys

/-- The entry is in flight, or the task is about to complete it. -/
def Failing (s : Sys) (e : Entry) : Prop :=
  s.task.entry = some e ∨ e ∈ s.task.point.rest ∨
    ∃ k, s.task.completing = some k ∧ k.entry = e ∧ k.stage.beforeRemoval = true

structure InFlight (s : Sys) : Prop where
  attempt : ∀ a, s.task.attempt = some a →
    ∃ e, s.task.entry = some e ∧ e.seq = a.seq ∧ e.write = a.write
  entry : ∀ e, s.task.entry = some e → ∃ a, s.task.attempt = some a
  emptied : s.task.point.leaving = true →
    s.task.held = [] ∧ s.task.entry = none ∧ s.task.attempt = none
  failure : ∀ q f, s.st.lastFailure = some (q, f) →
    ∃ e, s.Failing e ∧ e.seq = q ∧ f.write = e.write.name

variable {s s' : Sys}

theorem inFlight_init : init.InFlight where
  attempt := by simp [init]
  entry := by simp [init]
  emptied := by simp [init, Point.leaving]
  failure := by simp [init, State.new]

/-- A step that touches neither the task nor the failure. -/
theorem InFlight.frame (h : s.InFlight) (htask : s'.task = s.task)
    (hfailure : s'.st.lastFailure = s.st.lastFailure) : s'.InFlight where
  attempt := by
    rw [htask]
    exact h.attempt
  entry := by
    rw [htask]
    exact h.entry
  emptied := by
    rw [htask]
    exact h.emptied
  failure := by
    intro q f hf
    rw [hfailure] at hf
    obtain ⟨e, he, hq⟩ := h.failure q f hf
    refine ⟨e, ?_, hq⟩
    unfold Failing at he ⊢
    rwa [htask]

theorem InFlight.complete (h : s.InFlight) {entry : Entry} {result : WriteResult}
    {stage : Stage} (hc : s.task.completing = some ⟨entry, result, stage⟩) :
    (s.completeStep entry result stage).InFlight where
  attempt := by cases stage <;> exact h.attempt
  entry := by cases stage <;> exact h.entry
  emptied := by cases stage <;> exact h.emptied
  failure := by
    intro q f hf
    -- the entry of the failure, as it was before this part of the completion
    have hold : s.st.lastFailure = some (q, f) ∧
        (stage = .removing → q ≠ entry.seq) := by
      cases stage with
      | removing =>
          obtain ⟨hsame, hne⟩ := State.finish_lastFailure hf
          exact ⟨hsame, fun _ => hne⟩
      | _ => exact ⟨hf, fun hs => by cases hs⟩
    obtain ⟨e, he, hq, hname⟩ := h.failure q f hold.1
    refine ⟨e, ?_, hq, hname⟩
    rcases he with he | he | ⟨k, hk, hke, hstage⟩
    · left
      cases stage <;> exact he
    · right; left
      cases stage <;> exact he
    · right; right
      rw [hc] at hk
      cases hk
      cases stage with
      | reporting => exact ⟨_, rfl, hke, rfl⟩
      | removing =>
          have hne := hold.2 rfl
          rw [← hq, ← hke] at hne
          exact absurd rfl hne
      | sending => cases hstage
      | signalling => cases hstage

/-- Where the task waits or takes a head it has collected no entries. -/
theorem Failing.entry_of_free {e : Entry} {point : Point} (he : s.Failing e)
    (hat : s.At point) (hrest : point.rest = []) : s.task.entry = some e := by
  rcases he with he | he | ⟨k, hk, -⟩
  · exact he
  · rw [hat.point, hrest] at he
    cases he
  · rw [hat.free] at hk
    cases hk

/-- The task goes on with the same entry and attempt. -/
theorem InFlight.move (h : s.InFlight) {point : Point} (hat : s.At point)
    (hrest : point.rest = []) (hentry : s'.task.entry = s.task.entry)
    (hattempt : s'.task.attempt = s.task.attempt)
    (hfailure : s'.st.lastFailure = s.st.lastFailure)
    (hpoint : s'.task.point.leaving = false) : s'.InFlight where
  attempt := by
    rw [hentry, hattempt]
    exact h.attempt
  entry := by
    rw [hentry, hattempt]
    exact h.entry
  emptied := by simp [hpoint]
  failure := by
    intro q f hf
    rw [hfailure] at hf
    obtain ⟨e, he, hq⟩ := h.failure q f hf
    refine ⟨e, Or.inl ?_, hq⟩
    rw [hentry]
    exact he.entry_of_free hat hrest

theorem InFlight.drop (h : s.InFlight) (hfree : s.task.completing = none)
    (hrest : s.task.point.rest = []) : s.dropTask.InFlight where
  attempt := by simp [dropTask]
  entry := by simp [dropTask]
  emptied := fun _ => ⟨rfl, rfl, rfl⟩
  failure := by
    intro q f hf
    obtain ⟨e, he, hq⟩ := h.failure q f hf
    refine ⟨e, Or.inr (Or.inl ?_), hq⟩
    have hentry : s.task.entry = some e := he.entry_of_free ⟨hfree, rfl⟩ hrest
    simp [dropTask, hentry]

/-- The drop goes on: every entry collected before is still collected, or is
being completed. -/
theorem InFlight.dropped (h : s.InFlight) {point : Point} (hat : s.At point)
    (hleaving : point.leaving = true) (hheld : s'.task.held = s.task.held)
    (hentry : s'.task.entry = s.task.entry)
    (hattempt : s'.task.attempt = s.task.attempt)
    (hfailure : s'.st.lastFailure = s.st.lastFailure)
    (hrest : ∀ e ∈ point.rest, s'.Failing e) : s'.InFlight where
  attempt := by
    rw [hentry, hattempt]
    exact h.attempt
  entry := by
    rw [hentry, hattempt]
    exact h.entry
  emptied := by
    intro _
    rw [hheld, hentry, hattempt]
    exact h.emptied (by rw [hat.point]; exact hleaving)
  failure := by
    intro q f hf
    rw [hfailure] at hf
    obtain ⟨e, he, hq⟩ := h.failure q f hf
    refine ⟨e, ?_, hq⟩
    rcases he with he | he | ⟨k, hk, -⟩
    · left
      rw [hentry]
      exact he
    · rw [hat.point] at he
      exact hrest e he
    · rw [hat.free] at hk
      cases hk

theorem join_lastFailure (st : State) (marker : Entry) (follow : Option Write)
    (chan : Chan) (now : ℕ) :
    (st.join marker follow chan now).lastFailure = st.lastFailure := by
  cases follow <;> rfl

theorem InFlight.step (h : s.InFlight) (hs : Step s s') : s'.InFlight := by
  cases hs with
  | enqueue write now hopen => exact h.frame rfl rfl
  | hold write follow now hopen => exact h.frame rfl rfl
  | unqueue write removal hwhy => exact h.frame rfl rfl
  | callNotify chan hcall => exact h.frame rfl rfl
  | callTable chan write removal hcall =>
      exact h.frame rfl State.recordEnd_lastFailure
  | callAnswer chan write removal hcall => exact h.frame rfl rfl
  | callReport chan write removal hcall => exact h.frame rfl rfl
  | stopNow => exact h.frame rfl rfl
  | stopCancel hstop => exact h.frame rfl rfl
  | complete entry result stage hc => exact h.complete hc
  | takeNewHeld hfree hpoint =>
      have hrest : s.task.point.rest = [] := by
        rcases hpoint with hp | hp <;> rw [hp] <;> rfl
      exact h.move ⟨hfree, rfl⟩ hrest rfl rfl rfl rfl
  | noHead hat => exact h.move hat rfl rfl rfl rfl rfl
  | takeHead head rest hat hentry hopen hfifo hblocked =>
      refine ⟨?_, ?_, ?_, ?_⟩
      · intro a ha
        cases ha
        exact ⟨head, rfl, rfl, rfl⟩
      · intro e he
        exact ⟨_, rfl⟩
      · intro hleaving
        cases hleaving
      · intro q f hf
        obtain ⟨e, he, -⟩ := h.failure q f hf
        have hnone := he.entry_of_free hat rfl
        rw [hentry] at hnone
        cases hnone
  | skipHead head rest removal hat hentry hopen hfifo hblocked =>
      refine h.move hat rfl rfl rfl rfl ?_
      simp only [skipHead, hat.point]
      rfl
  | send attempt hat hattempt hphase =>
      obtain ⟨e, hentry, hseq, hwrite⟩ := h.attempt attempt hattempt
      refine ⟨?_, ?_, ?_, ?_⟩
      · intro a ha
        cases ha
        exact ⟨e, hentry, hseq, hwrite⟩
      · intro e' he'
        exact ⟨_, rfl⟩
      · intro hleaving
        simp only [send, setPhase, observe, hat.point] at hleaving
        cases hleaving
      · exact h.failure
  | retry attempt error hat hattempt hphase =>
      obtain ⟨e, hentry, hseq, hwrite⟩ := h.attempt attempt hattempt
      refine ⟨?_, ?_, ?_, ?_⟩
      · intro a ha
        cases ha
        exact ⟨e, hentry, hseq, hwrite⟩
      · intro e' he'
        exact ⟨_, rfl⟩
      · intro hleaving
        simp only [retry, setPhase, observe, hat.point] at hleaving
        cases hleaving
      · intro q f hf
        cases hf
        exact ⟨e, Or.inl hentry, hseq, by rw [hwrite]⟩
  | attemptDone attempt outcome result hat hattempt hphase hjudge =>
      refine ⟨?_, ?_, ?_, ?_⟩
      · intro a ha
        cases ha
      · intro e he
        cases he
      · intro hleaving
        cases hleaving
      · intro q f hf
        obtain ⟨e, he, hq⟩ := h.failure q f hf
        have hentry := he.entry_of_free hat rfl
        refine ⟨e, Or.inr (Or.inr ?_), hq⟩
        exact ⟨⟨e, result, .reporting⟩, by simp [attemptDone, hentry], rfl, rfl⟩
  | endHeld seq marker follow held removal hat htake hwhy =>
      exact h.move hat rfl rfl rfl rfl rfl
  | joinHeld seq marker follow held now hat hopen htake =>
      exact h.move hat rfl rfl rfl (join_lastFailure ..) rfl
  | woken hat hwake => exact h.move hat rfl rfl rfl rfl rfl
  | dropTask hfree hpoint =>
      have hrest : s.task.point.rest = [] := by
        rcases hpoint with hp | hp <;> rw [hp] <;> rfl
      exact h.drop hfree hrest
  | dropLocked rest hat =>
      refine h.dropped hat rfl rfl rfl rfl rfl fun e he => Or.inr (Or.inl ?_)
      refine (sortBySeq_perm _).mem_iff.mpr ?_
      exact List.mem_append_left _ (List.mem_append_left _ he)
  | dropEntry entry rest hat =>
      refine h.dropped hat rfl rfl rfl rfl rfl fun e he => ?_
      rcases List.mem_cons.mp he with rfl | he
      · exact Or.inr (Or.inr ⟨_, rfl, rfl, rfl⟩)
      · exact Or.inr (Or.inl he)
  | dropEnd hat =>
      exact h.dropped hat rfl rfl rfl rfl rfl fun e he => by cases he
  | drain => exact h.frame rfl rfl
  | drainRead d seen hd => exact h.frame rfl rfl
  | drainPark d upto seen hd hwaits => exact h.frame rfl rfl
  | drainPass d upto seen hd hwaits => exact h.frame rfl rfl
  | drainWake d upto seen hd hseen => exact h.frame rfl rfl
  | drainLeave d hd => exact h.frame rfl rfl
  | drainAbandon d => exact h.frame rfl rfl

theorem inFlight (h : machine.Reachable s) : s.InFlight :=
  invariant (P := InFlight) inFlight_init (fun hp hs => hp.step hs) h

end Sys

end RunnerKit.Queue
