import RunnerKit.Queue.InFlight

/-!
# After the drop of the task

From the lock section of the drop on, the queue takes nothing more: what was
left is completed as left unsent in the order of its numbers, and a later
hand-over ends the same way in the call itself.
-/

namespace RunnerKit.Queue

open RunnerKit.Jobs RunnerKit.Lib

/-! ## The part of a log behind the drop -/

def afterDrop : List Obs → Option (List Obs)
  | [] => none
  | .dropped :: rest => some rest
  | _ :: rest => afterDrop rest

theorem afterDrop_append_some {log more post : List Obs}
    (h : afterDrop log = some post) :
    afterDrop (log ++ more) = some (post ++ more) := by
  induction log with
  | nil => cases h
  | cons obs rest ih =>
      cases obs <;> simp only [afterDrop, List.cons_append] at h ⊢ <;>
        first
          | exact ih h
          | (cases h; rfl)

theorem afterDrop_append_none {log more : List Obs}
    (h : afterDrop log = none) : afterDrop (log ++ more) = afterDrop more := by
  induction log with
  | nil => rfl
  | cons obs rest ih =>
      cases obs <;> simp only [afterDrop, List.cons_append] at h ⊢ <;>
        first
          | exact ih h
          | cases h

/-- The numbers of the entries whose end the task reported, in order. -/
def reportedSeqs (log : List Obs) : List ℕ :=
  log.filterMap fun
    | .reported entry _ => some entry.seq
    | _ => none

theorem reportedSeqs_append (log more : List Obs) :
    reportedSeqs (log ++ more) = reportedSeqs log ++ reportedSeqs more :=
  List.filterMap_append

/-- An observation that says nothing of a drop: no registration, no report of
the task and no hand-over. -/
def Obs.plain : Obs → Bool
  | .returned _ | .sent _ _ | .retrying _ _ | .callReported _ _ | .processed _
  | .ended _ _ | .drainCalled _ | .drainReturned _ _ => true
  | _ => false

theorem afterDrop_plain {more : List Obs} (h : ∀ obs ∈ more, obs.plain) :
    afterDrop more = none := by
  induction more with
  | nil => rfl
  | cons obs rest ih =>
      have hobs := h obs List.mem_cons_self
      have hrest := ih fun o ho => h o (List.mem_cons_of_mem _ ho)
      cases obs <;> first | exact hrest | cases hobs

theorem reportedSeqs_plain {more : List Obs} (h : ∀ obs ∈ more, obs.plain) :
    reportedSeqs more = [] := by
  refine List.filterMap_eq_nil_iff.mpr fun obs hobs => ?_
  have hplain := h obs hobs
  cases obs <;> first | rfl | cases hplain

theorem registered_plain {more : List Obs} (h : ∀ obs ∈ more, obs.plain) :
    registered more = [] := by
  refine List.filterMap_eq_nil_iff.mpr fun obs hobs => ?_
  have hplain := h obs hobs
  cases obs <;> first | rfl | cases hplain

/-! ## The invariant -/

/-- The lock section of the drop is over. -/
def Point.locked : Point → Bool
  | .draining _ | .gone => true
  | _ => false

namespace Sys

/-- The numbers that the drop has still to report. -/
def toReport (s : Sys) : List ℕ :=
  (match s.task.completing with
    | some k => if k.stage = .reporting then [k.entry.seq] else []
    | none => []) ++ s.task.point.rest.map Entry.seq

structure AfterDrop (s : Sys) (post : List Obs) : Prop where
  locked : s.task.point.locked = true
  stopped : s.st.stopped = true
  fifo : s.st.fifo = []
  newHeld : s.st.newHeld = []
  order : (reportedSeqs post ++ s.toReport).Pairwise (· < ·)
  unsent : ∀ e report, .reported e report ∈ post →
    report = .removed e.write.name .leftUnsent
  completing : ∀ k, s.task.completing = some k → k.result = .err .leftUnsent
  /-- Nothing is registered any more. -/
  closed : registered post = []
  refused : ∀ c w removal, .unqueued c w removal ∈ post → removal = .leftUnsent

structure DropInv (s : Sys) : Prop where
  before : afterDrop s.log = none → s.task.point.locked = false
  after : ∀ post, afterDrop s.log = some post → s.AfterDrop post

variable {s s' : Sys}

theorem dropInv_init : init.DropInv where
  before := fun _ => rfl
  after := by
    intro post hpost
    cases hpost

theorem DropInv.none_of_unlocked (h : s.DropInv)
    (hpoint : s.task.point.locked = false) : afterDrop s.log = none := by
  cases hlog : afterDrop s.log with
  | none => rfl
  | some post =>
      have hlocked := (h.after post hlog).locked
      rw [hpoint] at hlocked
      cases hlocked

theorem DropInv.of_some {post : List Obs} (hlog : afterDrop s.log = some post)
    (hafter : s.AfterDrop post) : s.DropInv where
  before := by
    intro hnone
    rw [hlog] at hnone
    cases hnone
  after := by
    intro post' hpost'
    rw [hlog] at hpost'
    cases hpost'
    exact hafter

/-- A step of a task that is not being dropped. -/
theorem DropInv.move (h : s.DropInv) {more : List Obs}
    (hpoint : s.task.point.locked = false)
    (hpoint' : s'.task.point.locked = false) (hlog : s'.log = s.log ++ more)
    (hmore : afterDrop more = none) : s'.DropInv where
  before := fun _ => hpoint'
  after := by
    intro post hpost
    rw [hlog, afterDrop_append_none (h.none_of_unlocked hpoint), hmore] at hpost
    cases hpost

/-- A step of a caller or of a drained call. -/
theorem DropInv.frame (h : s.DropInv) {more : List Obs}
    (htask : s'.task = s.task) (hstopped : s.st.stopped = true → s'.st.stopped = true)
    (hfifo : s'.st.fifo = s.st.fifo) (hnewHeld : s'.st.newHeld = s.st.newHeld)
    (hlog : s'.log = s.log ++ more) (hplain : ∀ obs ∈ more, obs.plain) :
    s'.DropInv where
  before := by
    intro hnone
    cases hold : afterDrop s.log with
    | none =>
        rw [htask]
        exact h.before hold
    | some post =>
        rw [hlog, afterDrop_append_some hold] at hnone
        cases hnone
  after := by
    intro post hpost
    rw [hlog] at hpost
    cases hold : afterDrop s.log with
    | none =>
        rw [afterDrop_append_none hold, afterDrop_plain hplain] at hpost
        cases hpost
    | some post' =>
        rw [afterDrop_append_some hold] at hpost
        cases hpost
        have hafter := h.after post' hold
        refine ⟨?_, hstopped hafter.stopped, ?_, ?_, ?_, ?_, ?_, ?_, ?_⟩
        · rw [htask]
          exact hafter.locked
        · rw [hfifo]
          exact hafter.fifo
        · rw [hnewHeld]
          exact hafter.newHeld
        · rw [reportedSeqs_append, reportedSeqs_plain hplain, List.append_nil]
          unfold toReport
          rw [htask]
          exact hafter.order
        · intro e report hmem
          rcases List.mem_append.mp hmem with hmem | hmem
          · exact hafter.unsent e report hmem
          · cases hplain _ hmem
        · rw [htask]
          exact hafter.completing
        · rw [registered_append, registered_plain hplain, List.append_nil]
          exact hafter.closed
        · intro c w removal hmem
          rcases List.mem_append.mp hmem with hmem | hmem
          · exact hafter.refused c w removal hmem
          · cases hplain _ hmem

theorem DropInv.unlocked_of_open (h : s.DropInv) (hopen : s.st.stopped = false) :
    s.task.point.locked = false := by
  cases hlog : afterDrop s.log with
  | none => exact h.before hlog
  | some post =>
      have hstopped := (h.after post hlog).stopped
      rw [hopen] at hstopped
      cases hstopped

theorem DropInv.some_of_locked (h : s.DropInv)
    (hpoint : s.task.point.locked = true) :
    ∃ post, afterDrop s.log = some post ∧ s.AfterDrop post := by
  cases hlog : afterDrop s.log with
  | none =>
      rw [h.before hlog] at hpoint
      cases hpoint
  | some post => exact ⟨post, rfl, h.after post hlog⟩

theorem open_of_unqueuedBy {st : State} {write : Write}
    (h : st.unqueuedBy write = none) : st.stopped = false := by
  unfold State.unqueuedBy at h
  split at h
  · cases h
  · rename_i hopen
    simpa using hopen

theorem DropInv.unqueue (h : s.DropInv) {write : Write} {removal : Removal}
    (hwhy : s.st.unqueuedBy write = some removal) :
    (s.unqueue write removal).DropInv := by
  cases hold : afterDrop s.log with
  | none => exact h.move (h.before hold) (h.before hold) rfl rfl
  | some post =>
      have hafter := h.after post hold
      have hremoval : removal = .leftUnsent := by
        rw [State.unqueuedBy, if_pos hafter.stopped] at hwhy
        exact (Option.some.inj hwhy).symm
      have hlog : afterDrop (s.unqueue write removal).log =
          some (post ++ [.unqueued s.nextChan write removal]) :=
        afterDrop_append_some hold
      refine .of_some hlog ?_
      refine ⟨hafter.locked, hafter.stopped, hafter.fifo, hafter.newHeld, ?_, ?_,
        hafter.completing, ?_, ?_⟩
      · rw [reportedSeqs_append]
        change (reportedSeqs post ++ [] ++ s.toReport).Pairwise (· < ·)
        rw [List.append_nil]
        exact hafter.order
      · intro e report hmem
        exact hafter.unsent e report (by simpa using hmem)
      · simp [hafter.closed, Obs.registered]
      · intro c w removal' hmem
        rcases List.mem_append.mp hmem with hmem | hmem
        · exact hafter.refused c w removal' hmem
        · cases List.mem_singleton.mp hmem
          exact hremoval

/-- A part of a completion behind the drop. -/
theorem AfterDrop.complete {post : List Obs} (h : s.AfterDrop post)
    {entry : Entry} {result : WriteResult} {stage : Stage}
    (hc : s.task.completing = some ⟨entry, result, stage⟩) {more : List Obs}
    (hlog : (s.completeStep entry result stage).log = s.log ++ more) :
    (s.completeStep entry result stage).AfterDrop (post ++ more) := by
  have hresult : result = .err .leftUnsent := h.completing _ hc
  subst hresult
  have horder := h.order
  refine ⟨?_, ?_, ?_, ?_, ?_, ?_, ?_, ?_, ?_⟩
  · cases stage <;> exact h.locked
  · cases stage <;> simpa [completeStep] using h.stopped
  · cases stage <;> simpa [completeStep] using h.fifo
  · cases stage <;> simpa [completeStep] using h.newHeld
  · rw [reportedSeqs_append]
    cases stage <;> simp [completeStep] at hlog <;> subst hlog <;>
      simpa [toReport, hc, completeStep, reportedSeqs] using horder
  · intro e report hmem
    rcases List.mem_append.mp hmem with hmem | hmem
    · exact h.unsent e report hmem
    · cases stage <;> simp [completeStep] at hlog <;> subst hlog <;>
        simp at hmem
      rw [hmem.1, hmem.2]
      rfl
  · intro k hk
    cases stage <;> cases hk <;> rfl
  · rw [registered_append, h.closed]
    cases stage <;> simp [completeStep] at hlog <;> subst hlog <;>
      simp [Obs.registered]
  · intro c w removal hmem
    rcases List.mem_append.mp hmem with hmem | hmem
    · exact h.refused c w removal hmem
    · cases stage <;> simp [completeStep] at hlog <;> subst hlog <;>
        simp at hmem

theorem completeStep_log (s : Sys) (entry : Entry) (result : WriteResult)
    (stage : Stage) :
    ∃ more, (s.completeStep entry result stage).log = s.log ++ more ∧
      afterDrop more = none := by
  cases stage with
  | signalling => exact ⟨[], by simp [completeStep], rfl⟩
  | _ => exact ⟨_, rfl, rfl⟩

theorem completeStep_point (s : Sys) (entry : Entry) (result : WriteResult)
    (stage : Stage) :
    (s.completeStep entry result stage).task.point = s.task.point := by
  cases stage <;> rfl

theorem DropInv.complete (h : s.DropInv) {entry : Entry} {result : WriteResult}
    {stage : Stage} (hc : s.task.completing = some ⟨entry, result, stage⟩) :
    (s.completeStep entry result stage).DropInv := by
  obtain ⟨more, hlog, hmore⟩ := completeStep_log s entry result stage
  cases hold : afterDrop s.log with
  | none =>
      have hpoint := h.before hold
      refine h.move hpoint ?_ hlog hmore
      rw [completeStep_point]
      exact hpoint
  | some post =>
      refine .of_some ?_ ((h.after post hold).complete hc hlog)
      rw [hlog]
      exact afterDrop_append_some hold

/-- The numbers of the entries that wait are all different. -/
theorem waiting_seqs_nodup (hgood : s.ledger.Good) :
    (s.waiting.map Entry.seq).Nodup := by
  refine Multiset.nodup_iff_count_le_one.mpr fun q => ?_
  have htotal := hgood.removals.total q
  have hle : (s.waiting.map Entry.seq).count q ≤ s.ledger.owesRemoval q :=
    Nat.le_add_right _ _
  split_ifs at htotal <;> omega

/-- Sorted entries with different numbers have increasing numbers. -/
theorem sortBySeq_increasing {entries : List Entry}
    (hnodup : (entries.map Entry.seq).Nodup) :
    ((sortBySeq entries).map Entry.seq).Pairwise (· < ·) := by
  have hle : ((sortBySeq entries).map Entry.seq).Pairwise (· ≤ ·) :=
    List.pairwise_map.mpr (List.pairwise_insertionSort _ _)
  have hne : ((sortBySeq entries).map Entry.seq).Nodup :=
    ((sortBySeq_perm entries).map Entry.seq).nodup_iff.mpr hnodup
  exact (hle.and hne).imp fun h => lt_of_le_of_ne h.1 h.2

theorem DropInv.dropLocked (h : s.DropInv) (hgood : s.ledger.Good)
    (hflight : s.InFlight) {rest : List Entry} (hat : s.At (.dropping rest)) :
    (s.dropLocked rest).DropInv := by
  have hnone : afterDrop s.log = none :=
    h.none_of_unlocked (by rw [hat.point]; rfl)
  have hlog : afterDrop (s.dropLocked rest).log = some [] :=
    afterDrop_append_none hnone
  obtain ⟨hheld, hentry, -⟩ := hflight.emptied (by rw [hat.point]; rfl)
  refine .of_some hlog ⟨rfl, rfl, rfl, rfl, ?_, by simp, ?_, rfl, by simp⟩
  · have hnodup : ((rest ++ s.st.fifo ++
        s.st.newHeld.map Held.entry).map Entry.seq).Nodup := by
      have hwaiting : s.waiting = ((rest ++ s.st.fifo ++
          s.st.newHeld.map Held.entry : List Entry) : Multiset Entry) := by
        simp only [waiting, hheld, hentry, hat.point, Point.rest_dropping,
          ← Multiset.coe_add, List.map_nil, Option.toList, Multiset.coe_nil]
        abel
      have hseqs := waiting_seqs_nodup hgood
      rw [hwaiting, Multiset.map_coe, Multiset.coe_nodup] at hseqs
      exact hseqs
    have htoReport : (s.dropLocked rest).toReport = (sortBySeq (rest ++
        s.st.fifo ++ s.st.newHeld.map Held.entry)).map Entry.seq := by
      simp [toReport, Sys.dropLocked, hat.free]
    rw [htoReport]
    exact sortBySeq_increasing hnodup
  · intro k hk
    rw [show (s.dropLocked rest).task.completing = none from hat.free] at hk
    cases hk

theorem DropInv.step (h : s.DropInv) (hgood : s.ledger.Good)
    (hflight : s.InFlight) (hs : Step s s') : s'.DropInv := by
  cases hs with
  | enqueue write now hopen =>
      have hpoint := h.unlocked_of_open (open_of_unqueuedBy hopen)
      exact h.move hpoint hpoint rfl rfl
  | hold write follow now hopen =>
      have hpoint := h.unlocked_of_open hopen
      exact h.move hpoint hpoint rfl rfl
  | unqueue write removal hwhy => exact h.unqueue hwhy
  | callNotify chan hcall => exact h.frame rfl id rfl rfl rfl (by simp [Obs.plain])
  | callTable chan write removal hcall =>
      have hlog : (s.callTable chan write removal).log = s.log ++ [] := by
        simp [callTable]
      exact h.frame rfl (by simp [callTable]) (by simp [callTable])
        (by simp [callTable]) hlog (by simp)
  | callAnswer chan write removal hcall =>
      exact h.frame rfl id rfl rfl rfl (by simp [Obs.plain])
  | callReport chan write removal hcall =>
      exact h.frame rfl id rfl rfl rfl (by simp [Obs.plain])
  | stopNow =>
      exact h.frame rfl (fun _ => rfl) rfl rfl (List.append_nil _).symm (by simp)
  | stopCancel hstop =>
      exact h.frame rfl id rfl rfl (List.append_nil _).symm (by simp)
  | complete entry result stage hc => exact h.complete hc
  | takeNewHeld hfree hpoint =>
      have hunlocked : s.task.point.locked = false := by
        rcases hpoint with hp | hp <;> rw [hp] <;> rfl
      exact h.move hunlocked rfl (List.append_nil _).symm rfl
  | noHead hat =>
      exact h.move (by rw [hat.point]; rfl) rfl (List.append_nil _).symm rfl
  | takeHead head rest hat hentry hopen hfifo hblocked =>
      exact h.move (by rw [hat.point]; rfl) rfl (List.append_nil _).symm rfl
  | skipHead head rest removal hat hentry hopen hfifo hblocked =>
      have hunlocked : s.task.point.locked = false := by rw [hat.point]; rfl
      exact h.move hunlocked hunlocked (List.append_nil _).symm rfl
  | send attempt hat hattempt hphase =>
      have hunlocked : s.task.point.locked = false := by rw [hat.point]; rfl
      exact h.move hunlocked hunlocked rfl rfl
  | retry attempt error hat hattempt hphase =>
      have hunlocked : s.task.point.locked = false := by rw [hat.point]; rfl
      exact h.move hunlocked hunlocked rfl rfl
  | attemptDone attempt outcome result hat hattempt hphase hjudge =>
      exact h.move (by rw [hat.point]; rfl) rfl (List.append_nil _).symm rfl
  | endHeld seq marker follow held removal hat htake hwhy =>
      exact h.move (by rw [hat.point]; rfl) rfl (List.append_nil _).symm rfl
  | joinHeld seq marker follow held now hat hopen htake =>
      exact h.move (by rw [hat.point]; rfl) rfl rfl rfl
  | woken hat hwake =>
      exact h.move (by rw [hat.point]; rfl) rfl (List.append_nil _).symm rfl
  | dropTask hfree hpoint =>
      have hunlocked : s.task.point.locked = false := by
        rcases hpoint with hp | hp <;> rw [hp] <;> rfl
      exact h.move hunlocked rfl (List.append_nil _).symm rfl
  | dropLocked rest hat => exact h.dropLocked hgood hflight hat
  | dropEntry entry rest hat =>
      obtain ⟨post, hlog, hafter⟩ := h.some_of_locked (by rw [hat.point]; rfl)
      refine .of_some hlog ⟨rfl, hafter.stopped, hafter.fifo, hafter.newHeld, ?_,
        hafter.unsent, ?_, hafter.closed, hafter.refused⟩
      · have horder := hafter.order
        simpa [toReport, hat.free, hat.point, startCompletion, atPoint] using horder
      · intro k hk
        cases hk
        rfl
  | dropEnd hat =>
      obtain ⟨post, hlog, hafter⟩ := h.some_of_locked (by rw [hat.point]; rfl)
      refine .of_some hlog ⟨rfl, hafter.stopped, hafter.fifo, hafter.newHeld, ?_,
        hafter.unsent, hafter.completing, hafter.closed, hafter.refused⟩
      have horder := hafter.order
      simpa [toReport, hat.free, hat.point, atPoint] using horder
  | drain => exact h.frame rfl id rfl rfl (List.append_nil _).symm (by simp)
  | drainRead d seen hd => exact h.frame rfl id rfl rfl rfl (by simp [Obs.plain])
  | drainPark d upto seen hd hwaits =>
      exact h.frame rfl id rfl rfl (List.append_nil _).symm (by simp)
  | drainPass d upto seen hd hwaits =>
      exact h.frame rfl id rfl rfl (List.append_nil _).symm (by simp)
  | drainWake d upto seen hd hseen =>
      exact h.frame rfl id rfl rfl (List.append_nil _).symm (by simp)
  | drainLeave d hd => exact h.frame rfl id rfl rfl rfl (by simp [Obs.plain])
  | drainAbandon d =>
      exact h.frame rfl id rfl rfl (List.append_nil _).symm (by simp)

theorem dropInv (h : machine.Reachable s) : s.DropInv := by
  refine Machine.Reach.invariant (P := DropInv) dropInv_init ?_ h
  intro s s' e hreach hp _ hs
  exact hp.step (good hreach) (inFlight hreach) (step_cases hs)

end Sys

end RunnerKit.Queue
