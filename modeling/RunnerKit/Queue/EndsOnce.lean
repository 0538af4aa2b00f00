import RunnerKit.Queue.Dropped

/-!
# Every write ends exactly once

The main result on the custody of the write queue. It holds in every reachable
state, so for every interleaving of hand-overs, holds, steps of the task, gate
ends, attempt outcomes, the stop and the drop.
-/

namespace RunnerKit.Queue

open RunnerKit.Jobs RunnerKit.Lib

/-- The write of `chan` is still in one of the places of the queue, is being
completed, or ends in a hand-over that is under way. -/
def Sys.UnderWay (s : Sys) (chan : Chan) : Prop :=
  (∃ e ∈ s.waiting, e.chan = chan) ∨
    (∃ k, s.task.completing = some k ∧ k.entry.chan = chan ∧
      k.stage ≠ .signalling) ∨
    ∃ write removal stage, s.calls chan = some (.unqueued write removal stage)

/-- The custody of the queue in one state. `handed`, `results` and `reports`
read the log: the writes handed over, what each `WriteEnd` gave, and the
terminal reports. -/
structure EndsOnce (s : Sys) : Prop where
  /-- Each write handed over has a `WriteEnd` of its own. -/
  own_end : ((handed s.log).map Prod.fst).Nodup
  one_result : ((results s.log).map Prod.fst).Nodup
  one_report : ((reports s.log).map Prod.fst).Nodup
  result_handed : ∀ c result, (c, result) ∈ results s.log →
    ∃ write, (c, write) ∈ handed s.log
  report_handed : ∀ c name result, (c, name, result) ∈ reports s.log →
    ∃ write, (c, write) ∈ handed s.log ∧ name = write.name
  /-- The result and the report of a write agree. -/
  agree : ∀ c result, (c, result) ∈ results s.log →
    ∀ name told, (c, name, told) ∈ reports s.log → told = result
  /-- A write is under way or has ended, with one result and its report, and
  never both. -/
  not_lost : ∀ c write, (c, write) ∈ handed s.log → ¬ s.UnderWay c →
    ∃ result, (c, result) ∈ results s.log ∧
      (c, write.name, result) ∈ reports s.log
  not_twice : ∀ c, s.UnderWay c →
    ¬ ((∃ result, (c, result) ∈ results s.log) ∧
      ∃ told, (c, told) ∈ reports s.log)
  /-- `pending` is what is registered and not processed, in hand-over order. -/
  pending : s.st.pending.entries.map (fun p => (p.1, p.2.name)) =
    (unprocessed s.log).map fun e => (e.seq, e.write.name)
  snapshot : s.st.snapshot.waiting =
    (unprocessed s.log).map fun e => e.write.name
  hand_over_order : ((registered s.log).map Entry.seq).Pairwise (· < ·)
  /-- The task reports what a drop left as left unsent, in sequence order. -/
  left_unsent : ∀ post, afterDrop s.log = some post →
    (reportedSeqs post).Pairwise (· < ·) ∧
      ∀ e report, .reported e report ∈ post →
        report = .removed e.write.name .leftUnsent
  /-- A hand-over behind the drop registers nothing and ends at once. -/
  later_unsent : ∀ post, afterDrop s.log = some post →
    registered post = [] ∧
      ∀ c write removal, .unqueued c write removal ∈ post →
        removal = .leftUnsent
  /-- Once the drop is over nothing waits and nothing is pending. -/
  gone : s.task.point = .gone → s.task.completing = none →
    s.waiting = 0 ∧ s.st.pending.entries = []
  /-- The last failure is one of a write that is still pending. -/
  last_failure : ∀ seq failure, s.st.lastFailure = some (seq, failure) →
    ∃ e ∈ unprocessed s.log, e.seq = seq ∧ failure.write = e.write.name
  /-- Before the drop that write is the one in flight. -/
  in_flight : ∀ seq failure, s.st.lastFailure = some (seq, failure) →
    s.task.point.leaving = false →
      ∃ e, e.seq = seq ∧ (s.task.entry = some e ∨
        ∃ k, s.task.completing = some k ∧ k.entry = e)

namespace Sys

variable {s : Sys}

/-- What is not under way owes nothing. -/
theorem owes_eq_zero {c : Chan} (h : ¬ s.UnderWay c) (due : Due) :
    s.ledger.owes due c = 0 := by
  have hwaiting : (s.waiting.map Entry.chan).count c = 0 := by
    refine Multiset.count_eq_zero.mpr fun hmem => h (Or.inl ?_)
    obtain ⟨e, he, hc⟩ := Multiset.mem_map.mp hmem
    exact ⟨e, he, hc⟩
  have hcompleting :
      Completion.owed Entry.chan due.before c s.task.completing = 0 := by
    cases hk : s.task.completing with
    | none => rfl
    | some k =>
        refine if_neg fun hdue => h (Or.inr (Or.inl ⟨k, hk, hdue.2.symm, ?_⟩))
        intro hstage
        rw [hstage] at hdue
        cases due <;> cases hdue.1
  have hcall : Unqueued.owed due.callBefore (Call.unqueued? (s.calls c)) = 0 := by
    cases hk : s.calls c with
    | none => rfl
    | some call =>
        cases call with
        | notify => rfl
        | unqueued write removal stage =>
            exact absurd (Or.inr (Or.inr ⟨write, removal, stage, hk⟩)) h
  change (s.waiting.map Entry.chan).count c +
    Completion.owed Entry.chan due.before c s.task.completing +
    Unqueued.owed due.callBefore (Call.unqueued? (s.calls c)) = 0
  omega

/-- What is under way owes its answer or its report. -/
theorem owes_pos {c : Chan} (h : s.UnderWay c) :
    ∃ due, 0 < s.ledger.owes due c := by
  rcases h with ⟨e, he, rfl⟩ | ⟨⟨entry, result, stage⟩, hk, rfl, hstage⟩ |
    ⟨write, removal, stage, hcall⟩
  · have hpos : 0 < (s.waiting.map Entry.chan).count e.chan :=
      Multiset.count_pos.mpr (Multiset.mem_map_of_mem _ he)
    refine ⟨.answer, ?_⟩
    change 0 < (s.waiting.map Entry.chan).count e.chan + _ + _
    omega
  · refine ⟨.answer, Ledger.owes_pos_of_completing hk ?_⟩
    cases stage <;> first | rfl | exact absurd rfl hstage
  · have hu : s.ledger.calls c = some ⟨write, removal, stage⟩ := by
      simp [ledger, hcall, Call.unqueued?]
    exact ⟨.report, Ledger.owes_pos_of_call hu rfl⟩

theorem write_unique (hgood : s.ledger.Good) {c : Chan} {w w' : Write}
    (h : (c, w) ∈ handed s.log) (h' : (c, w') ∈ handed s.log) : w = w' := by
  have hnodup : ((handed s.log).map Prod.fst).Nodup := by
    rw [show (handed s.log).map Prod.fst = List.range s.nextChan from
      hgood.handed_chans]
    exact List.nodup_range
  exact congrArg Prod.snd (List.inj_on_of_nodup_map hnodup h h' rfl)

theorem handed_lt (hgood : s.ledger.Good) {c : Chan} {write : Write}
    (h : (c, write) ∈ handed s.log) : c < s.nextChan := by
  have hmem : c ∈ (handed s.log).map Prod.fst := List.mem_map.mpr ⟨_, h, rfl⟩
  rw [show (handed s.log).map Prod.fst = List.range s.nextChan from
    hgood.handed_chans] at hmem
  exact List.mem_range.mp hmem

theorem ended_of_not_underWay (hgood : s.ledger.Good) {c : Chan} {write : Write}
    (hhanded : (c, write) ∈ handed s.log) (h : ¬ s.UnderWay c) :
    ∃ result, (c, result) ∈ results s.log ∧
      (c, write.name, result) ∈ reports s.log := by
  have hlt := handed_lt hgood hhanded
  have hanswer : c ∈ (results s.log).map Prod.fst :=
    (hgood.dues .answer).mem_of_not_owed hlt (owes_eq_zero h .answer)
  have hreport : c ∈ (reports s.log).map Prod.fst :=
    (hgood.dues .report).mem_of_not_owed hlt (owes_eq_zero h .report)
  obtain ⟨⟨c', result⟩, hresult, rfl⟩ := List.mem_map.mp hanswer
  obtain ⟨⟨c'', name, told⟩, htold, rfl⟩ := List.mem_map.mp hreport
  obtain ⟨write', hhanded', rfl⟩ := hgood.named _ name told htold
  have hwrite : write' = write := write_unique hgood hhanded' hhanded
  have hagree : told = result := hgood.agree _ result hresult _ told htold
  subst hwrite hagree
  exact ⟨told, hresult, htold⟩

theorem not_ended_of_underWay (hgood : s.ledger.Good) {c : Chan}
    (h : s.UnderWay c) :
    ¬ ((∃ result, (c, result) ∈ results s.log) ∧
      ∃ told, (c, told) ∈ reports s.log) := by
  rintro ⟨⟨result, hresult⟩, ⟨told, htold⟩⟩
  obtain ⟨due, hpos⟩ := owes_pos h
  have hnot := (hgood.dues due).not_mem_of_owed hpos
  cases due with
  | answer => exact hnot (List.mem_map.mpr ⟨_, hresult, rfl⟩)
  | report => exact hnot (List.mem_map.mpr ⟨_, htold, rfl⟩)

theorem result_handed (hgood : s.ledger.Good) {c : Chan} {result : WriteResult}
    (h : (c, result) ∈ results s.log) : ∃ write, (c, write) ∈ handed s.log := by
  have hlt : c < s.nextChan :=
    (hgood.dues .answer).lt_of_mem (List.mem_map.mpr ⟨_, h, rfl⟩)
  have hmem : c ∈ (handed s.log).map Prod.fst := by
    rw [show (handed s.log).map Prod.fst = List.range s.nextChan from
      hgood.handed_chans]
    exact List.mem_range.mpr hlt
  obtain ⟨⟨c', write⟩, hwrite, rfl⟩ := List.mem_map.mp hmem
  exact ⟨write, hwrite⟩

/-- An entry that fails is in custody, and its number is still pending. -/
theorem failing_unprocessed (hgood : s.ledger.Good) {e : Entry}
    (h : s.Failing e) : e ∈ unprocessed s.log := by
  have hwaiting : e ∈ s.waiting → s.ledger.Holds e ∧
      0 < s.ledger.owesRemoval e.seq := by
    intro he
    refine ⟨Or.inl he, ?_⟩
    have hpos : 0 < (s.waiting.map Entry.seq).count e.seq :=
      Multiset.count_pos.mpr (Multiset.mem_map_of_mem _ he)
    exact lt_of_lt_of_le hpos (Nat.le_add_right _ _)
  have hboth : s.ledger.Holds e ∧ 0 < s.ledger.owesRemoval e.seq := by
    rcases h with he | he | ⟨k, hk, rfl, hstage⟩
    · exact hwaiting (by simp [waiting, he])
    · exact hwaiting (by simp [waiting, he])
    · refine ⟨Or.inr ⟨k, hk, rfl⟩, ?_⟩
      have hone : Completion.owed Entry.seq Stage.beforeRemoval k.entry.seq
          s.task.completing = 1 := by
        simp [hk, Completion.owed, hstage]
      change 0 < (s.waiting.map Entry.seq).count k.entry.seq +
        Completion.owed Entry.seq Stage.beforeRemoval k.entry.seq s.task.completing
      omega
  have hnot : e.seq ∉ processed s.log :=
    hgood.removals.not_mem_of_owed hboth.2
  exact List.mem_filter.mpr ⟨hgood.holds e hboth.1, decide_eq_true hnot⟩

theorem rest_of_not_leaving {point : Point} (h : point.leaving = false) :
    point.rest = [] := by
  cases point <;> first | rfl | cases h

theorem waiting_of_gone (hflight : s.InFlight) (hdrop : s.DropInv)
    (hpoint : s.task.point = .gone) : s.waiting = 0 := by
  obtain ⟨post, -, hafter⟩ := hdrop.some_of_locked (by rw [hpoint]; rfl)
  obtain ⟨hheld, hentry, -⟩ := hflight.emptied (by rw [hpoint]; rfl)
  simp [waiting, hafter.fifo, hafter.newHeld, hheld, hentry, hpoint]

theorem pending_of_gone (hgood : s.ledger.Good) (hwaiting : s.waiting = 0)
    (hfree : s.task.completing = none) : s.st.pending.entries = [] := by
  have hempty : unprocessed s.log = [] := by
    refine List.filter_eq_nil_iff.mpr fun e he => ?_
    have howes : s.ledger.owesRemoval e.seq = 0 := by
      simp [ledger, Ledger.owesRemoval, hwaiting, hfree, Completion.owed]
    have hmem := hgood.removals.mem_of_not_owed
      (seq_lt_of_registered hgood he) howes
    change e.seq ∈ processed s.log at hmem
    simpa using hmem
  have heq : s.st.pending.entries.map (fun p => (p.1, p.2.name)) =
      (unprocessed s.log).map fun e => (e.seq, e.write.name) :=
    hgood.pending_eq
  rw [hempty] at heq
  exact List.map_eq_nil_iff.mp heq

theorem ends_once (h : machine.Reachable s) : EndsOnce s := by
  have hgood := good h
  have hflight := inFlight h
  have hdrop := dropInv h
  refine ⟨?_, ?_, ?_, ?_, ?_, ?_, ?_, ?_, ?_, ?_, ?_, ?_, ?_, ?_, ?_, ?_⟩
  · rw [show (handed s.log).map Prod.fst = List.range s.nextChan from
      hgood.handed_chans]
    exact List.nodup_range
  · exact (hgood.dues .answer).nodup
  · exact (hgood.dues .report).nodup
  · exact fun c result hresult => result_handed hgood hresult
  · exact hgood.named
  · exact hgood.agree
  · exact fun c write hhanded hnot => ended_of_not_underWay hgood hhanded hnot
  · exact fun c hunder => not_ended_of_underWay hgood hunder
  · exact hgood.pending_eq
  · have heq := congrArg (List.map Prod.snd) hgood.pending_eq
    simpa [ledger, State.snapshot, SortedMap.values, Function.comp_def] using heq
  · rw [show (registered s.log).map Entry.seq = List.range s.st.nextSeq from
      hgood.registered_seqs]
    exact List.pairwise_lt_range
  · intro post hpost
    have hafter := hdrop.after post hpost
    exact ⟨(List.pairwise_append.mp hafter.order).1, hafter.unsent⟩
  · intro post hpost
    have hafter := hdrop.after post hpost
    exact ⟨hafter.closed, hafter.refused⟩
  · intro hpoint hfree
    have hwaiting := waiting_of_gone hflight hdrop hpoint
    exact ⟨hwaiting, pending_of_gone hgood hwaiting hfree⟩
  · intro seq failure hfailure
    obtain ⟨e, he, hseq, hname⟩ := hflight.failure seq failure hfailure
    exact ⟨e, failing_unprocessed hgood he, hseq, hname⟩
  · intro seq failure hfailure hpoint
    obtain ⟨e, he, hseq, -⟩ := hflight.failure seq failure hfailure
    refine ⟨e, hseq, ?_⟩
    rcases he with he | he | ⟨k, hk, hke, -⟩
    · exact Or.inl he
    · rw [rest_of_not_leaving hpoint] at he
      cases he
    · exact Or.inr ⟨k, hk, hke⟩

/-- A marker is held with a follow-up, the started fact is in flight and has
failed once, the gate ends, and the task is dropped. -/
def droppedRun : List Event :=
  [.enqueue (.started 1 2) 0, .call 0, .hold (.marker 1 3 4 5)
    (some (.finish 1 3 6)) 1, .task .takeNewHeld, .task .nextHead, .task .send,
    .task (.attemptEnded .timedOut), .task (.gateEnded 1 .stored 2),
    .task .takeNewHeld, .task .nextHead, .task .drop, .task .dropLocked,
    .task .dropNext, .complete, .complete, .complete, .complete,
    .enqueue (.answer ⟨"late", []⟩) 3, .call 3]

theorem ends_once_droppedRun :
    ∃ s, machine.run droppedRun = some s ∧ EndsOnce s ∧
      s.st.pending.keys = [1, 2] ∧ results s.log = [(0, .err .leftUnsent)] :=
  ⟨_, rfl, ends_once (Machine.reachable_of_run droppedRun rfl), rfl, rfl⟩

end Sys

end RunnerKit.Queue
