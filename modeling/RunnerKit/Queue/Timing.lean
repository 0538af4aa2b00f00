import RunnerKit.Queue.Script
import RunnerKit.Queue.DrainReturns

/-!
# The ends of a script do not depend on timing

One caller hands over the writes of a script in their order, with each
hand-over over before the next, and nothing stops the queue. Every schedule of
these hand-overs with the steps of the task and of drained calls is a run of
`Script.machine`, which takes the steps of the queue and no others.
-/

namespace RunnerKit.Queue

open RunnerKit.Jobs RunnerKit.Lib

/-! ## The queue under a script -/

/-- What can happen next: the caller hands over its next write, or another
part of the queue goes on. -/
inductive Moment where
  | handOver (now : ℕ)
  | call (chan : Chan)
  | complete
  | takeNewHeld
  | nextHead
  | send
  | woken
  | attemptEnded (outcome : Outcome)
  | drain
  | drained (drain : ℕ) (event : DrainEvent)

namespace Script

variable (sc : Script)

/-- The event of the queue at this moment. A final attempt has the outcome
that the script fixes for its write. -/
def event? (s : Sys) : Moment → Option Event
  | .handOver now =>
      if s.nextChan < sc.length ∧ ∀ c < s.nextChan, (s.calls c).isNone = true then
        some (.enqueue (sc.write s.nextChan) now)
      else none
  | .call chan => some (.call chan)
  | .complete => some .complete
  | .takeNewHeld => some (.task .takeNewHeld)
  | .nextHead => some (.task .nextHead)
  | .send => some (.task .send)
  | .woken => some (.task .woken)
  | .attemptEnded outcome =>
      match s.task.attempt, s.task.entry with
      | some attempt, some entry =>
          match judge attempt.write outcome with
          | .resend _ => some (.task (.attemptEnded outcome))
          | .final result =>
              if result = sc.outcome entry.chan then
                some (.task (.attemptEnded outcome))
              else none
      | _, _ => none
  | .drain => some .drain
  | .drained d event => some (.drained d event)

def machine : Machine Sys Moment :=
  ⟨Sys.init, fun s moment => (sc.event? s moment).bind s.step⟩

/-- The runs of a script are runs of the queue. -/
theorem reachable {s : Sys} (h : sc.machine.Reachable s) :
    Sys.machine.Reachable s := by
  refine Machine.Reachable.invariant .init ?_ h
  intro s s' moment hr hs
  obtain ⟨e, -, he⟩ := Option.bind_eq_some_iff.mp hs
  exact hr.step he

/-! ## What one moment can do -/

/-- Nothing changes that an end depends on. -/
structure Quiet (s s' : Sys) : Prop where
  stopped : s'.st.stopped = s.st.stopped
  fifo : s'.st.fifo = s.st.fifo
  ended : s'.st.ended = s.st.ended
  entry : s'.task.entry = s.task.entry
  completing : s'.task.completing = s.task.completing
  calls : s'.calls = s.calls
  nextChan : s'.nextChan = s.nextChan
  results : results s'.log = results s.log

inductive Step (s : Sys) : Sys → Prop where
  | queued (now : ℕ) (hlt : s.nextChan < sc.length)
      (hsolo : ∀ c < s.nextChan, s.calls c = none)
      (hopen : s.st.unqueuedBy (sc.write s.nextChan) = none) :
      Step s (s.enqueue (sc.write s.nextChan) now)
  | removed (removal : Removal) (hlt : s.nextChan < sc.length)
      (hsolo : ∀ c < s.nextChan, s.calls c = none)
      (hwhy : s.st.unqueuedBy (sc.write s.nextChan) = some removal) :
      Step s (s.unqueue (sc.write s.nextChan) removal)
  | callNotify (chan : Chan) (hcall : s.calls chan = some .notify) :
      Step s (s.callNotify chan)
  | callTable (chan : Chan) (write : Write) (removal : Removal)
      (hcall : s.calls chan = some (.unqueued write removal .table)) :
      Step s (s.callTable chan write removal)
  | callAnswer (chan : Chan) (write : Write) (removal : Removal)
      (hcall : s.calls chan = some (.unqueued write removal .answer)) :
      Step s (s.callAnswer chan write removal)
  | callReport (chan : Chan) (write : Write) (removal : Removal)
      (hcall : s.calls chan = some (.unqueued write removal .report)) :
      Step s (s.callReport chan write removal)
  | complete (entry : Entry) (result : WriteResult) (stage : Stage)
      (hc : s.task.completing = some ⟨entry, result, stage⟩) :
      Step s (s.completeStep entry result stage)
  | takeHead (head : Entry) (rest : List Entry)
      (hfree : s.task.completing = none) (hentry : s.task.entry = none)
      (hfifo : s.st.fifo = head :: rest)
      (hblocked : blocked head.write s.st.ended = none) :
      Step s (s.takeHead head { s.st with fifo := rest })
  | skipHead (head : Entry) (rest : List Entry) (removal : Removal)
      (hfree : s.task.completing = none) (hentry : s.task.entry = none)
      (hfifo : s.st.fifo = head :: rest)
      (hblocked : blocked head.write s.st.ended = some removal) :
      Step s (s.skipHead head removal { s.st with fifo := rest })
  | attemptDone (entry : Entry) (hfree : s.task.completing = none)
      (hentry : s.task.entry = some entry) :
      Step s (s.attemptDone (sc.outcome entry.chan))
  | quiet {s' : Sys} (hquiet : Quiet s s') : Step s s'

variable {sc} {s s' : Sys}

theorem nextHead_step (hfree : s.task.completing = none) : sc.Step s s.nextHead := by
  unfold Sys.nextHead
  split
  · exact .quiet ⟨rfl, rfl, rfl, rfl, rfl, rfl, rfl, rfl⟩
  · rename_i hentry
    split
    · exact .quiet ⟨rfl, rfl, rfl, rfl, rfl, rfl, rfl, rfl⟩
    · rename_i head st hpop
      obtain ⟨-, rest, hfifo, rfl⟩ := Sys.popHead_some hpop
      split
      · rename_i removal hblocked
        exact .skipHead head rest removal hfree hentry hfifo hblocked
      · rename_i hblocked
        exact .takeHead head rest hfree hentry hfifo hblocked

theorem handOver_step {now : ℕ}
    (h : sc.machine.step s (.handOver now) = some s') : sc.Step s s' := by
  obtain ⟨e, he, hs⟩ := Option.bind_eq_some_iff.mp h
  simp only [event?] at he
  split at he
  · rename_i hguard
    cases he
    have hsolo : ∀ c < s.nextChan, s.calls c = none :=
      fun c hc => Option.isNone_iff_eq_none.mp (hguard.2 c hc)
    simp only [Sys.step] at hs
    split at hs <;> cases hs
    · exact .removed _ hguard.1 hsolo ‹_›
    · exact .queued now hguard.1 hsolo ‹_›
  · cases he

theorem call_step {chan : Chan}
    (h : sc.machine.step s (.call chan) = some s') : sc.Step s s' := by
  obtain ⟨call, hcall, rfl⟩ := Option.map_eq_some_iff.mp
    (show s.callStep chan = some s' from h)
  cases call with
  | notify => exact .callNotify chan hcall
  | unqueued write removal stage =>
      cases stage with
      | table => exact .callTable chan write removal hcall
      | answer => exact .callAnswer chan write removal hcall
      | report => exact .callReport chan write removal hcall

/-- The attempt that an outcome ends, with what `judge` makes of it. -/
theorem attemptEnded_some {outcome : Outcome}
    (h : s.step (.task (.attemptEnded outcome)) = some s') :
    s.task.completing = none ∧ ∃ attempt, s.task.attempt = some attempt ∧
      s' = match judge attempt.write outcome with
        | .resend error => s.retry attempt error
        | .final result => s.attemptDone result := by
  simp only [Sys.step] at h
  split at h
  · rename_i hfree
    simp only [Sys.taskStep] at h
    split at h
    · rename_i attempt hpoint hattempt
      refine ⟨hfree, attempt, hattempt, ?_⟩
      split at h
      · split at h <;> cases h <;> simp only [*]
      · cases h
    · cases h
  · cases h

theorem attempt_step {outcome : Outcome}
    (h : sc.machine.step s (.attemptEnded outcome) = some s') : sc.Step s s' := by
  obtain ⟨e, he, hs⟩ := Option.bind_eq_some_iff.mp h
  simp only [event?] at he
  split at he
  · rename_i attempt entry hattempt hentry
    have hevent : e = .task (.attemptEnded outcome) ∧
        ∀ result, judge attempt.write outcome = .final result →
          result = sc.outcome entry.chan := by
      split at he
      · cases he
        exact ⟨rfl, by simp [*]⟩
      · split at he <;> cases he
        exact ⟨rfl, by simp [*]⟩
    obtain ⟨rfl, hfinal⟩ := hevent
    obtain ⟨hfree, attempt', hattempt', rfl⟩ := attemptEnded_some hs
    rw [hattempt] at hattempt'
    cases hattempt'
    cases hjudge : judge attempt.write outcome with
    | resend error =>
        exact .quiet ⟨rfl, rfl, rfl, rfl, rfl, rfl, rfl, by
          simp [Sys.retry, Sys.observe, Sys.setPhase, Obs.result]⟩
    | final result =>
        rw [hfinal result hjudge]
        exact .attemptDone entry hfree hentry
  · cases he

theorem task_step {event : TaskEvent} (h : s.step (.task event) = some s')
    (hevent : event = .takeNewHeld ∨ event = .nextHead ∨ event = .send ∨
      event = .woken) : sc.Step s s' := by
  simp only [Sys.step] at h
  split at h
  · rename_i hfree
    rcases hevent with rfl | rfl | rfl | rfl
    · simp only [Sys.taskStep] at h
      split at h <;> cases h
      all_goals exact .quiet ⟨rfl, rfl, rfl, rfl, rfl, rfl, rfl, rfl⟩
    · simp only [Sys.taskStep] at h
      split at h <;> cases h
      exact nextHead_step hfree
    · simp only [Sys.taskStep] at h
      split at h
      · split at h <;> cases h
        exact .quiet ⟨rfl, rfl, rfl, rfl, rfl, rfl, rfl, by
          simp [Sys.send, Sys.observe, Sys.setPhase, Obs.result]⟩
      · cases h
    · simp only [Sys.taskStep] at h
      split at h
      · split at h <;> cases h
        exact .quiet ⟨rfl, rfl, rfl, rfl, rfl, rfl, rfl, rfl⟩
      · cases h
  · cases h

theorem drained_step {d : ℕ} {event : DrainEvent}
    (h : s.drainedStep d event = some s') : sc.Step s s' := by
  cases event with
  | abandon =>
      cases h
      exact .quiet ⟨rfl, rfl, rfl, rfl, rfl, rfl, rfl, rfl⟩
  | wake =>
      simp only [Sys.drainedStep] at h
      split at h
      · split at h <;> cases h
        exact .quiet ⟨rfl, rfl, rfl, rfl, rfl, rfl, rfl, rfl⟩
      · cases h
  | _ =>
      simp only [Sys.drainedStep] at h
      split at h <;> cases h
      exact .quiet ⟨rfl, rfl, rfl, rfl, rfl, rfl, rfl, by
        simp [Sys.readTarget, Sys.observe, Sys.setDrain, Obs.result]⟩

theorem step_cases {moment : Moment}
    (h : sc.machine.step s moment = some s') : sc.Step s s' := by
  cases moment with
  | handOver now => exact handOver_step h
  | call chan => exact call_step h
  | complete =>
      obtain ⟨⟨entry, result, stage⟩, hc, rfl⟩ := Option.map_eq_some_iff.mp
        (show s.step .complete = some s' from h)
      exact .complete entry result stage hc
  | takeNewHeld => exact task_step h (by simp)
  | nextHead => exact task_step h (by simp)
  | send => exact task_step h (by simp)
  | woken => exact task_step h (by simp)
  | attemptEnded outcome => exact attempt_step h
  | drain =>
      cases h
      exact .quiet ⟨rfl, rfl, rfl, rfl, rfl, rfl, rfl, rfl⟩
  | drained d event => exact drained_step h

end Script

/-! ## What has ended -/

def Completion.unended : Option Completion → List Entry
  | some c => if c.stage.beforeRemoval then [c.entry] else []
  | none => []

namespace Sys

/-- The queued writes whose end is not in the table, in their order. -/
def unended (s : Sys) : List Entry :=
  Completion.unended s.task.completing ++ s.task.entry.toList ++ s.st.fifo

/-- The end of the write `c` is in the table. -/
structure Done (s : Sys) (c : Chan) : Prop where
  lt : c < s.nextChan
  queued : ∀ e ∈ s.unended, e.chan ≠ c
  call : ∀ write removal, s.calls c ≠ some (.unqueued write removal .table)

/-- The queue under a script: what it does is what the one-after-another run
does. -/
structure Timely (sc : Script) (s : Sys) : Prop where
  opened : s.st.stopped = false
  length : s.nextChan ≤ sc.length
  order : s.unended.Pairwise fun a b => a.chan < b.chan
  queued : ∀ e ∈ s.unended, e.chan < s.nextChan ∧ e.write = sc.write e.chan
  latest : ∀ c call, s.calls c = some call → c + 1 = s.nextChan
  calls : ∀ c write removal stage, s.calls c = some (.unqueued write removal stage) →
    write = sc.write c ∧ sc.verdict c = some removal ∧ ∀ e ∈ s.unended, e.chan ≠ c
  early : ∀ c write removal, s.calls c = some (.unqueued write removal .table) →
    ∀ m < c, ¬ s.Done m → sc.Early m c
  seen : sc.Seen s.st.ended s.Done
  entry : ∀ e, s.task.entry = some e → sc.verdict e.chan = none
  completing : ∀ k, s.task.completing = some k → k.result = sc.result k.entry.chan
  results : ∀ c result, (c, result) ∈ Queue.results s.log → result = sc.result c

variable {sc : Script} {s s' : Sys}

theorem timely_init : Timely sc init where
  opened := rfl
  length := Nat.zero_le _
  order := List.Pairwise.nil
  queued := by simp [unended, init, State.new, Completion.unended]
  latest := by simp [init]
  calls := by simp [init]
  early := by simp [init]
  seen := Script.seen_init.congr fun j =>
    ⟨fun h => absurd h.lt (Nat.not_lt_zero j), False.elim⟩
  entry := by simp [init]
  completing := by simp [init]
  results := by simp [init]

/-- Everything before the first queued write has ended. -/
theorem Timely.done_below (h : Timely sc s) {e : Entry} {rest : List Entry}
    (hunended : s.unended = e :: rest) : ∀ i < e.chan, s.Done i := by
  intro i hi
  have horder := h.order
  rw [hunended, List.pairwise_cons] at horder
  have hlt : e.chan < s.nextChan := (h.queued e (by simp [hunended])).1
  refine ⟨hi.trans hlt, ?_, ?_⟩
  · intro x hx
    rw [hunended] at hx
    rcases List.mem_cons.mp hx with rfl | hx
    · exact hi.ne'
    · exact (hi.trans (horder.1 x hx)).ne'
  · intro write removal hcall
    have hnext := h.latest i _ hcall
    exact absurd (lt_of_lt_of_le hlt hnext.ge) (not_lt.mpr (Nat.succ_le_of_lt hi))

theorem not_done_of_unended {e : Entry} (he : e ∈ s.unended) : ¬ s.Done e.chan :=
  fun hdone => hdone.queued e he rfl

/-- The calls of `s'` with their end still to record are those of `s`. -/
theorem done_congr (hnext : s'.nextChan = s.nextChan) (hunended : s'.unended = s.unended)
    (hcalls : ∀ c write removal, s'.calls c = some (.unqueued write removal .table) ↔
      s.calls c = some (.unqueued write removal .table)) (c : Chan) :
    s'.Done c ↔ s.Done c := by
  constructor
  · rintro ⟨hlt, hqueued, hcall⟩
    rw [hnext] at hlt
    rw [hunended] at hqueued
    exact ⟨hlt, hqueued, fun w r hc => hcall w r ((hcalls c w r).mpr hc)⟩
  · rintro ⟨hlt, hqueued, hcall⟩
    refine ⟨by rw [hnext]; exact hlt, by rw [hunended]; exact hqueued, ?_⟩
    exact fun w r hc => hcall w r ((hcalls c w r).mp hc)

/-- A step at which no write ends. -/
theorem Timely.frame (h : Timely sc s) (hstopped : s'.st.stopped = s.st.stopped)
    (hnext : s'.nextChan = s.nextChan) (hunended : s'.unended = s.unended)
    (hended : s'.st.ended = s.st.ended)
    (htable : ∀ c write removal, s'.calls c = some (.unqueued write removal .table) ↔
      s.calls c = some (.unqueued write removal .table))
    (hcalls : ∀ c call, s'.calls c = some call → ∃ call', s.calls c = some call' ∧
      ∀ write removal stage, call = .unqueued write removal stage →
        ∃ stage', call' = .unqueued write removal stage')
    (hentry : ∀ e, s'.task.entry = some e → sc.verdict e.chan = none)
    (hcompleting : ∀ k, s'.task.completing = some k →
      k.result = sc.result k.entry.chan)
    (hresults : ∀ c result, (c, result) ∈ Queue.results s'.log →
      result = sc.result c) : Timely sc s' := by
  have hdone := done_congr hnext hunended htable
  refine ⟨hstopped.trans h.opened, hnext.trans_le h.length, by rw [hunended]; exact h.order,
    ?_, ?_, ?_, ?_, ?_, hentry, hcompleting, hresults⟩
  · rw [hunended, hnext]
    exact h.queued
  · intro c call hc
    obtain ⟨call', hc', -⟩ := hcalls c call hc
    rw [hnext]
    exact h.latest c call' hc'
  · intro c write removal stage hc
    obtain ⟨call', hc', hstage⟩ := hcalls c _ hc
    obtain ⟨stage', rfl⟩ := hstage write removal stage rfl
    rw [hunended]
    exact h.calls c write removal stage' hc'
  · intro c write removal hc m hm hopen
    exact h.early c write removal ((htable c write removal).mp hc) m hm
      fun hd => hopen ((hdone m).mpr hd)
  · rw [hended]
    exact h.seen.congr hdone

theorem Timely.quiet (h : Timely sc s) (hq : Script.Quiet s s') : Timely sc s' := by
  have hunended : s'.unended = s.unended := by
    unfold unended
    rw [hq.completing, hq.entry, hq.fifo]
  refine h.frame hq.stopped hq.nextChan hunended hq.ended (by rw [hq.calls]; simp) ?_ ?_ ?_ ?_
  · intro c call hc
    rw [hq.calls] at hc
    exact ⟨call, hc, fun w r stage heq => ⟨stage, heq⟩⟩
  · rw [hq.entry]
    exact h.entry
  · rw [hq.completing]
    exact h.completing
  · rw [hq.results]
    exact h.results

/-- A part of a hand-over other than the one that records its end. -/
theorem Timely.call (h : Timely sc s) {chan : Chan} {call : Call} {next : Option Call}
    {more : List Obs} (hcall : s.calls chan = some call)
    (hold : ∀ write removal, call ≠ .unqueued write removal .table)
    (hst : s'.st = s.st) (htask : s'.task = s.task) (hnext : s'.nextChan = s.nextChan)
    (hcalls : s'.calls = Function.update s.calls chan next)
    (hlog : s'.log = s.log ++ more)
    (hgoes : ∀ write removal stage, next = some (.unqueued write removal stage) →
      stage ≠ .table ∧ ∃ stage', call = .unqueued write removal stage')
    (hresults : ∀ c result, (c, result) ∈ Queue.results more → result = sc.result c) :
    Timely sc s' := by
  have hunended : s'.unended = s.unended := by
    unfold unended
    rw [hst, htask]
  refine h.frame (by rw [hst]) hnext hunended (by rw [hst]) ?_ ?_ ?_ ?_ ?_
  · intro c write removal
    rw [hcalls]
    by_cases hc : c = chan
    · subst hc
      rw [Function.update_self, hcall]
      constructor
      · intro hnow
        exact absurd rfl (hgoes write removal .table hnow).1
      · intro hwas
        exact absurd (Option.some.inj hwas) (hold write removal)
    · rw [Function.update_of_ne hc]
  · intro c call' hc'
    rw [hcalls] at hc'
    by_cases hc : c = chan
    · subst hc
      rw [Function.update_self] at hc'
      refine ⟨call, hcall, ?_⟩
      rintro write removal stage rfl
      exact (hgoes write removal stage hc').2
    · rw [Function.update_of_ne hc] at hc'
      exact ⟨call', hc', fun w r stage heq => ⟨stage, heq⟩⟩
  · rw [htask]
    exact h.entry
  · rw [htask]
    exact h.completing
  · intro c result hmem
    rw [hlog, results_append] at hmem
    rcases List.mem_append.mp hmem with hmem | hmem
    · exact h.results c result hmem
    · exact hresults c result hmem

/-! ### Hand-overs -/

theorem Timely.calls_none (h : Timely sc s) {c : Chan} (hc : s.nextChan ≤ c) :
    s.calls c = none := by
  cases hcall : s.calls c with
  | none => rfl
  | some call =>
      have hnext := h.latest c call hcall
      exact absurd (lt_of_lt_of_le (Nat.lt_succ_self c) hnext.le) (not_lt.mpr hc)

/-- A new hand-over leaves what has ended as it is. -/
theorem done_handOver {call : Call}
    (hnext : s'.nextChan = s.nextChan + 1)
    (hcalls : s'.calls = Function.update s.calls s.nextChan (some call))
    (hunended : ∀ c < s.nextChan, (∀ e ∈ s'.unended, e.chan ≠ c) ↔
      ∀ e ∈ s.unended, e.chan ≠ c)
    (hopen : (∃ e ∈ s'.unended, e.chan = s.nextChan) ∨
      ∃ write removal, call = .unqueued write removal .table) (c : Chan) :
    s'.Done c ↔ s.Done c := by
  have hsame : ∀ c < s.nextChan, s'.calls c = s.calls c := by
    intro c hc
    rw [hcalls, Function.update_of_ne hc.ne]
  constructor
  · rintro ⟨hlt, hqueued, hcall⟩
    have hc : c < s.nextChan := by
      rw [hnext] at hlt
      refine lt_of_le_of_ne (Nat.le_of_lt_succ hlt) ?_
      rintro rfl
      rcases hopen with ⟨e, he, heq⟩ | ⟨write, removal, rfl⟩
      · exact hqueued e he heq
      · exact hcall write removal (by rw [hcalls, Function.update_self])
    exact ⟨hc, (hunended c hc).mp hqueued, by rw [← hsame c hc]; exact hcall⟩
  · rintro ⟨hc, hqueued, hcall⟩
    refine ⟨?_, (hunended c hc).mpr hqueued, by rw [hsame c hc]; exact hcall⟩
    rw [hnext]
    exact Nat.lt_succ_of_lt hc

theorem Timely.latest_handOver (h : Timely sc s) {call : Call}
    (hsolo : ∀ c < s.nextChan, s.calls c = none)
    (hcalls : s'.calls = Function.update s.calls s.nextChan (some call)) {c : Chan}
    {call' : Call} (hc : s'.calls c = some call') : c = s.nextChan ∧ call' = call := by
  rw [hcalls] at hc
  by_cases heq : c = s.nextChan
  · subst heq
    rw [Function.update_self] at hc
    exact ⟨rfl, (Option.some.inj hc).symm⟩
  · rw [Function.update_of_ne heq] at hc
    have hnone : s.calls c = none := by
      rcases lt_or_ge c s.nextChan with hlt | hge
      · exact hsolo c hlt
      · exact h.calls_none hge
    rw [hnone] at hc
    cases hc

theorem Timely.handOver (h : Timely sc s) {now : ℕ} (hlt : s.nextChan < sc.length)
    (hsolo : ∀ c < s.nextChan, s.calls c = none) :
    Timely sc (s.enqueue (sc.write s.nextChan) now) := by
  have hunended : (s.enqueue (sc.write s.nextChan) now).unended =
      s.unended ++ [s.st.nextEntry (sc.write s.nextChan) s.nextChan] := by
    simp [unended, enqueue, State.enqueue]
  have hdone : ∀ c, (s.enqueue (sc.write s.nextChan) now).Done c ↔ s.Done c := by
    refine done_handOver rfl rfl ?_ (Or.inl ⟨s.st.nextEntry (sc.write s.nextChan)
      s.nextChan, by rw [hunended]; simp, rfl⟩)
    intro c hc
    rw [hunended]
    simp [State.nextEntry, hc.ne', or_imp, forall_and]
  have hcalls : ∀ c call', (s.enqueue (sc.write s.nextChan) now).calls c = some call' →
      c = s.nextChan ∧ call' = .notify :=
    fun c call' hc => h.latest_handOver hsolo rfl hc
  refine ⟨h.opened, hlt, ?_, ?_, ?_, ?_, ?_, h.seen.congr hdone, h.entry, h.completing, ?_⟩
  · rw [hunended, List.pairwise_append]
    refine ⟨h.order, List.pairwise_singleton _ _, ?_⟩
    intro a ha b hb
    cases List.mem_singleton.mp hb
    exact (h.queued a ha).1
  · intro e he
    rw [hunended] at he
    rcases List.mem_append.mp he with he | he
    · obtain ⟨hchan, hwrite⟩ := h.queued e he
      exact ⟨Nat.lt_succ_of_lt hchan, hwrite⟩
    · cases List.mem_singleton.mp he
      exact ⟨Nat.lt_succ_self _, rfl⟩
  · intro c call hc
    rw [(hcalls c call hc).1]
    rfl
  · intro c write removal stage hc
    cases (hcalls c _ hc).2
  · intro c write removal hc
    cases (hcalls c _ hc).2
  · intro c result hmem
    simp only [enqueue, results_append] at hmem
    exact h.results c result (by simpa [Obs.result] using hmem)

/-- The look at the hand-over finds what the write's turn will find. -/
theorem Timely.handOverRemoved (h : Timely sc s) (hc : sc.Coherent) {removal : Removal}
    (hlt : s.nextChan < sc.length) (hsolo : ∀ c < s.nextChan, s.calls c = none)
    (hwhy : s.st.unqueuedBy (sc.write s.nextChan) = some removal) :
    Timely sc (s.unqueue (sc.write s.nextChan) removal) := by
  have hblocked : blocked (sc.write s.nextChan) s.st.ended = some removal := by
    simpa [State.unqueuedBy, h.opened] using hwhy
  obtain ⟨hverdict, hearly⟩ := h.seen.blocked_handOver hc hlt (fun j hj => hj.lt) hblocked
  have hdone : ∀ c, (s.unqueue (sc.write s.nextChan) removal).Done c ↔ s.Done c :=
    done_handOver rfl rfl (fun c _ => Iff.rfl) (Or.inr ⟨_, _, rfl⟩)
  have hcalls : ∀ c call', (s.unqueue (sc.write s.nextChan) removal).calls c =
      some call' → c = s.nextChan ∧
        call' = .unqueued (sc.write s.nextChan) removal .table :=
    fun c call' hc => h.latest_handOver hsolo rfl hc
  refine ⟨h.opened, hlt, h.order, ?_, ?_, ?_, ?_, h.seen.congr hdone, h.entry,
    h.completing, ?_⟩
  · intro e he
    obtain ⟨hchan, hwrite⟩ := h.queued e he
    exact ⟨Nat.lt_succ_of_lt hchan, hwrite⟩
  · intro c call hc
    rw [(hcalls c call hc).1]
    rfl
  · intro c write removal' stage hc
    obtain ⟨rfl, hcall⟩ := hcalls c _ hc
    cases hcall
    exact ⟨rfl, hverdict, fun e he => (h.queued e he).1.ne⟩
  · intro c write removal' hc m hm hopen
    obtain ⟨rfl, -⟩ := hcalls c _ hc
    exact hearly m hm fun hd => hopen ((hdone m).mpr hd)
  · intro c result hmem
    simp only [unqueue, results_append] at hmem
    exact h.results c result (by simpa [Obs.result] using hmem)

/-! ### Ends -/

/-- The hand-over that queued nothing records its end. -/
theorem Timely.callTable (h : Timely sc s) {chan : Chan} {write : Write}
    {removal : Removal} (hcall : s.calls chan = some (.unqueued write removal .table)) :
    Timely sc (s.callTable chan write removal) := by
  obtain ⟨rfl, hverdict, hapart⟩ := h.calls chan write removal .table hcall
  have hunended : (s.callTable chan (sc.write chan) removal).unended = s.unended := by
    simp [unended, Sys.callTable]
  have hself : (s.callTable chan (sc.write chan) removal).calls chan =
      some (.unqueued (sc.write chan) removal .answer) :=
    Function.update_self ..
  have hother : ∀ c ≠ chan, (s.callTable chan (sc.write chan) removal).calls c =
      s.calls c := fun c hc => Function.update_of_ne hc ..
  have hnot : ∀ c, (∃ call, s.calls c = some call) → c = chan := by
    rintro c ⟨call, hc⟩
    exact Nat.succ.inj ((h.latest c call hc).trans (h.latest chan _ hcall).symm)
  have hdone : ∀ j, (s.callTable chan (sc.write chan) removal).Done j ↔
      s.Done j ∨ j = chan := by
    intro j
    by_cases hj : j = chan
    · subst hj
      refine ⟨fun _ => Or.inr rfl, fun _ => ⟨?_, by rw [hunended]; exact hapart, ?_⟩⟩
      · exact lt_of_lt_of_le (Nat.lt_succ_self _) (h.latest _ _ hcall).le
      · intro w r hc
        rw [hself] at hc
        cases hc
    · constructor
      · rintro ⟨hlt, hqueued, hc⟩
        exact Or.inl ⟨hlt, by rw [← hunended]; exact hqueued,
          by rw [← hother j hj]; exact hc⟩
      · rintro (⟨hlt, hqueued, hc⟩ | heq)
        · exact ⟨hlt, by rw [hunended]; exact hqueued, by rw [hother j hj]; exact hc⟩
        · exact absurd heq hj
  have hopen : ¬ s.Done chan := fun hd => hd.call _ _ hcall
  refine ⟨?_, h.length, by rw [hunended]; exact h.order, by rw [hunended]; exact h.queued,
    ?_, ?_, ?_, ?_, h.entry, h.completing, h.results⟩
  · simp [Sys.callTable, h.opened]
  · intro c call hc
    by_cases hne : c = chan
    · rw [hne]
      exact h.latest chan _ hcall
    · rw [hother c hne] at hc
      exact h.latest c call hc
  · intro c write removal' stage hc
    by_cases hne : c = chan
    · subst hne
      rw [hself] at hc
      cases hc
      exact ⟨rfl, hverdict, by rw [hunended]; exact hapart⟩
    · rw [hother c hne] at hc
      exact absurd (hnot c ⟨_, hc⟩) hne
  · intro c write removal' hc
    by_cases hne : c = chan
    · subst hne
      rw [hself] at hc
      cases hc
    · rw [hother c hne] at hc
      exact absurd (hnot c ⟨_, hc⟩) hne
  · have hseen := h.seen.record hdone hopen (h.early chan _ _ hcall)
    rw [Script.result_of_verdict hverdict] at hseen
    rw [show (s.callTable chan (sc.write chan) removal).st.ended =
      (s.st.recordEnd (sc.write chan) (.err removal)).ended from rfl, recordEnd_ended]
    exact hseen

/-- A completion records its end and removes its write from the queue. -/
theorem Timely.removing (h : Timely sc s) {entry : Entry} {result : WriteResult}
    (hc : s.task.completing = some ⟨entry, result, .removing⟩) :
    Timely sc (s.completeStep entry result .removing) := by
  have hwas : s.unended = entry :: (s.completeStep entry result .removing).unended := by
    simp [unended, hc, Completion.unended, completeStep, Stage.beforeRemoval]
  have hresult : result = sc.result entry.chan := h.completing _ hc
  have hmem : entry ∈ s.unended := by simp [hwas]
  have horder := h.order
  rw [hwas, List.pairwise_cons] at horder
  have hnocall : ∀ write removal stage,
      s.calls entry.chan ≠ some (.unqueued write removal stage) :=
    fun write removal stage hcall => (h.calls _ _ _ _ hcall).2.2 entry hmem rfl
  have hdone : ∀ j, (s.completeStep entry result .removing).Done j ↔
      s.Done j ∨ j = entry.chan := by
    intro j
    constructor
    · rintro ⟨hlt, hqueued, hcall⟩
      by_cases hj : j = entry.chan
      · exact Or.inr hj
      · refine Or.inl ⟨hlt, ?_, hcall⟩
        intro e he
        rw [hwas] at he
        rcases List.mem_cons.mp he with rfl | he
        · exact Ne.symm hj
        · exact hqueued e he
    · rintro (⟨hlt, hqueued, hcall⟩ | rfl)
      · refine ⟨hlt, fun e he => hqueued e ?_, hcall⟩
        rw [hwas]
        exact List.mem_cons_of_mem _ he
      · exact ⟨(h.queued entry hmem).1, fun e he => (horder.1 e he).ne',
          fun write removal => hnocall write removal .table⟩
  refine ⟨?_, h.length, horder.2, ?_, h.latest, ?_, ?_, ?_, h.entry, ?_, ?_⟩
  · simp [completeStep, h.opened]
  · intro e he
    refine h.queued e ?_
    rw [hwas]
    exact List.mem_cons_of_mem _ he
  · intro c write removal stage hcall
    obtain ⟨hwrite, hverdict, hapart⟩ := h.calls c write removal stage hcall
    refine ⟨hwrite, hverdict, fun e he => hapart e ?_⟩
    rw [hwas]
    exact List.mem_cons_of_mem _ he
  · intro c write removal hcall m hm hopen
    exact h.early c write removal hcall m hm fun hd => hopen ((hdone m).mpr (Or.inl hd))
  · have hseen := h.seen.record hdone (not_done_of_unended hmem)
      fun i hi hopen => absurd (h.done_below hwas i hi) hopen
    rw [← hresult, ← (h.queued entry hmem).2] at hseen
    rw [show (s.completeStep entry result .removing).st.ended =
      (s.st.finish entry result).ended from rfl, State.finish_ended, recordEnd_ended]
    exact hseen
  · intro k hk
    cases hk
    exact hresult
  · intro c r hr
    simp only [completeStep, results_append] at hr
    exact h.results c r (by simpa [Obs.result] using hr)

theorem Timely.complete (h : Timely sc s) {entry : Entry} {result : WriteResult}
    {stage : Stage} (hc : s.task.completing = some ⟨entry, result, stage⟩) :
    Timely sc (s.completeStep entry result stage) := by
  have hresult : result = sc.result entry.chan := h.completing _ hc
  have hsame : ∀ c call, s.calls c = some call → ∃ call', s.calls c = some call' ∧
      ∀ write removal stage, call = .unqueued write removal stage →
        ∃ stage', call' = .unqueued write removal stage' :=
    fun c call hcall => ⟨call, hcall, fun w r stage heq => ⟨stage, heq⟩⟩
  cases stage with
  | reporting =>
      have hunended : (s.completeStep entry result .reporting).unended = s.unended := by
        simp [unended, hc, Completion.unended, completeStep, Stage.beforeRemoval]
      refine h.frame rfl rfl hunended rfl (fun _ _ _ => Iff.rfl) hsame h.entry ?_ ?_
      · intro k hk
        cases hk
        exact hresult
      · intro c r hr
        simp only [completeStep, results_append] at hr
        exact h.results c r (by simpa [Obs.result] using hr)
  | removing => exact h.removing hc
  | sending =>
      have hunended : (s.completeStep entry result .sending).unended = s.unended := by
        simp [unended, hc, Completion.unended, completeStep, Stage.beforeRemoval]
      refine h.frame rfl rfl hunended rfl (fun _ _ _ => Iff.rfl) hsame h.entry ?_ ?_
      · intro k hk
        cases hk
        exact hresult
      · intro c r hr
        simp only [completeStep, results_append] at hr
        rcases List.mem_append.mp hr with hr | hr
        · exact h.results c r hr
        · cases List.mem_singleton.mp hr
          exact hresult
  | signalling =>
      have hunended : (s.completeStep entry result .signalling).unended = s.unended := by
        simp [unended, hc, Completion.unended, completeStep, Stage.beforeRemoval]
      refine h.frame rfl rfl hunended rfl (fun _ _ _ => Iff.rfl) hsame h.entry ?_ h.results
      intro k hk
      cases hk

/-! ### Turns -/

/-- The task moves a write from the queue into its hands, or from there into
`complete`. -/
theorem Timely.turn (h : Timely sc s) (hst : s'.st.stopped = s.st.stopped)
    (hended : s'.st.ended = s.st.ended) (hunended : s'.unended = s.unended)
    (hcalls : s'.calls = s.calls) (hnext : s'.nextChan = s.nextChan)
    (hlog : s'.log = s.log)
    (hentry : ∀ e, s'.task.entry = some e → sc.verdict e.chan = none)
    (hcompleting : ∀ k, s'.task.completing = some k →
      k.result = sc.result k.entry.chan) : Timely sc s' := by
  refine h.frame hst hnext hunended hended (by rw [hcalls]; simp) ?_ hentry hcompleting ?_
  · intro c call hc
    rw [hcalls] at hc
    exact ⟨call, hc, fun w r stage heq => ⟨stage, heq⟩⟩
  · rw [hlog]
    exact h.results

/-- The look at the head finds what its turn finds. -/
theorem Timely.blocked_head (h : Timely sc s) (hc : sc.Coherent) {head : Entry}
    {rest : List Entry} (hunended : s.unended = head :: rest) :
    blocked head.write s.st.ended = sc.verdict head.chan := by
  have hmem : head ∈ s.unended := by simp [hunended]
  obtain ⟨hlt, hwrite⟩ := h.queued head hmem
  rw [hwrite]
  exact h.seen.blocked_head hc (lt_of_lt_of_le hlt h.length) (h.done_below hunended)
    (not_done_of_unended hmem)

theorem Timely.step (h : Timely sc s) (hc : sc.Coherent) (hs : sc.Step s s') :
    Timely sc s' := by
  cases hs with
  | queued now hlt hsolo hopen => exact h.handOver hlt hsolo
  | removed removal hlt hsolo hwhy => exact h.handOverRemoved hc hlt hsolo hwhy
  | callNotify chan hcall =>
      exact h.call hcall (by simp) rfl rfl rfl rfl rfl (by simp) (by simp [Obs.result])
  | callTable chan write removal hcall =>
      obtain ⟨rfl, -⟩ := h.calls chan write removal .table hcall
      exact h.callTable hcall
  | callAnswer chan write removal hcall =>
      obtain ⟨-, hverdict, -⟩ := h.calls chan write removal .answer hcall
      refine h.call hcall (by simp) rfl rfl rfl rfl rfl ?_ ?_
      · intro w r stage hnext
        cases hnext
        exact ⟨by simp, .answer, rfl⟩
      · intro c result hmem
        cases List.mem_singleton.mp hmem
        exact (Script.result_of_verdict hverdict).symm
  | callReport chan write removal hcall =>
      exact h.call hcall (by simp) rfl rfl rfl rfl rfl (by simp) (by simp [Obs.result])
  | complete entry result stage hc => exact h.complete hc
  | takeHead head rest hfree hentry hfifo hblocked =>
      have hunended : s.unended = head :: rest := by
        simp [unended, hfree, hentry, hfifo, Completion.unended]
      refine h.turn rfl rfl ?_ rfl rfl rfl ?_ (by simp [Sys.takeHead, hfree])
      · rw [hunended]
        simp [unended, Sys.takeHead, hfree, Completion.unended]
      · intro e he
        cases he
        rw [← h.blocked_head hc hunended]
        exact hblocked
  | skipHead head rest removal hfree hentry hfifo hblocked =>
      have hunended : s.unended = head :: rest := by
        simp [unended, hfree, hentry, hfifo, Completion.unended]
      refine h.turn rfl rfl ?_ rfl rfl rfl h.entry ?_
      · rw [hunended]
        simp [unended, Sys.skipHead, hentry, Completion.unended, Stage.beforeRemoval]
      · intro k hk
        cases hk
        rw [h.blocked_head hc hunended] at hblocked
        exact (Script.result_of_verdict hblocked).symm
  | attemptDone entry hfree hentry =>
      refine h.turn rfl rfl ?_ rfl rfl rfl (by simp [Sys.attemptDone]) ?_
      · simp [unended, Sys.attemptDone, hfree, hentry, Completion.unended,
          Stage.beforeRemoval]
      · intro k hk
        simp only [Sys.attemptDone, hentry, Option.map_some] at hk
        cases hk
        exact (Script.result_of_none (h.entry entry hentry)).symm
  | quiet hquiet => exact h.quiet hquiet

theorem timely (hc : sc.Coherent) (h : sc.machine.Reachable s) : Timely sc s := by
  refine Machine.Reachable.invariant (P := Timely sc) timely_init ?_ h
  intro s s' moment hp hs
  exact hp.step hc (Script.step_cases hs)

end Sys

/-! ## Timing -/

namespace Script

variable {sc : Script} {s s' : Sys}

/-- Whatever the schedule, a write ends as it does when the writes are handed
over one after another. -/
theorem ends_alike (hc : sc.Coherent) (h : sc.machine.Reachable s)
    (h' : sc.machine.Reachable s') {c : Chan} {result result' : WriteResult}
    (hr : (c, result) ∈ results s.log) (hr' : (c, result') ∈ results s'.log) :
    result = result' ∧ result = sc.result c := by
  have heq := (Sys.timely hc h).results c result hr
  have heq' := (Sys.timely hc h').results c result' hr'
  exact ⟨heq.trans heq'.symm, heq⟩

/-! ### An answer handed over twice -/

/-- The answer is handed over twice, before the completed fact. -/
def answeredTwice (first second : WriteResult) : Script where
  length := 4
  write
    | 0 => .started 1 2
    | 1 => .answer ⟨"first", []⟩
    | 2 => .answer ⟨"second", []⟩
    | _ => .fact (.completed 1) 3
  outcome
    | 1 => first
    | 2 => second
    | _ => .ok

/-- The task takes the head, sends it and completes it. -/
def sent (outcome : Outcome) : List Moment :=
  [.takeNewHeld, .nextHead, .send, .attemptEnded outcome, .complete, .complete,
    .complete, .complete]

def queuedFirst (first second : Outcome) : List Moment :=
  ([.handOver 0, .call 0, .handOver 1, .call 1, .handOver 2, .call 2, .handOver 3,
    .call 3] : List Moment) ++ sent .ok ++ sent first ++ sent second

/-- The completed fact is handed over between the ends of the two answers. -/
def handedBetween (first : Outcome) : List Moment :=
  ([.handOver 0, .call 0] : List Moment) ++ sent .ok ++
    ([.handOver 1, .call 1] : List Moment) ++ sent first ++
    ([.handOver 2, .call 2, .handOver 3, .call 3, .call 3] : List Moment)

/-- The completed fact is in the queue when the second answer ends. -/
def removedInTurn : List Moment :=
  queuedFirst .ok (.error .unauthenticated) ++ [.takeNewHeld, .nextHead, .complete,
    .complete, .complete, .complete]

/-- The completed fact is handed over after the end of the second answer. -/
def removedAtOnce : List Moment :=
  ([.handOver 0, .call 0] : List Moment) ++ sent .ok ++
    ([.handOver 1, .call 1] : List Moment) ++ sent .ok ++
    ([.handOver 2, .call 2] : List Moment) ++ sent (.error .unauthenticated) ++
    ([.handOver 3, .call 3, .call 3] : List Moment)

theorem answeredTwice_coherent :
    (answeredTwice .ok (.err (.failed .unauthenticated))).Coherent :=
  coherent_of_steady (by decide) (by decide)

theorem ends_alike_answeredTwice :
    ∃ s s', (answeredTwice .ok (.err (.failed .unauthenticated))).machine.run
        removedInTurn = some s ∧
      (answeredTwice .ok (.err (.failed .unauthenticated))).machine.run
        removedAtOnce = some s' ∧
      (results s.log).getLast? = some (3, .err .dependsOnRemoved) ∧
      (answeredTwice .ok (.err (.failed .unauthenticated))).result 3 =
        .err .dependsOnRemoved :=
  ⟨_, _, rfl, rfl, rfl, (ends_alike answeredTwice_coherent
    (Machine.reachable_of_run removedInTurn rfl)
    (Machine.reachable_of_run removedAtOnce rfl) (List.mem_of_getLast? rfl)
    (List.mem_of_getLast? rfl)).2.symm⟩

/-- With the first answer removed and the second delivered the completed fact
is delivered when it was queued before, and removed when it is handed over
between the two ends. -/
theorem ends_turn_on_timing :
    ∃ s s', (answeredTwice (.err (.failed .unauthenticated)) .ok).machine.run
        (queuedFirst (.error .unauthenticated) .ok ++ sent .ok) = some s ∧
      (answeredTwice (.err (.failed .unauthenticated)) .ok).machine.run
        (handedBetween (.error .unauthenticated)) = some s' ∧
      (results s.log).getLast? = some (3, .ok) ∧
      (results s'.log).getLast? = some (3, .err .dependsOnRemoved) :=
  ⟨_, _, rfl, rfl, rfl, rfl⟩

end Script

end RunnerKit.Queue
