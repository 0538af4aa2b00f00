import RunnerKit.Queue.Ledger

/-!
# What the ledger owes is settled once

Three kinds of obligations, each issued once and settled once: the end of a
`WriteEnd`, the terminal report of a write, and the removal of a sequence
number from `pending`. `Ledger.Good` collects them with what the log says of
each write, and every reachable state of the queue has a good ledger.
-/

namespace RunnerKit.Queue

open RunnerKit.Jobs RunnerKit.Lib

/-! ## What is owed -/

/-- The two things that are due for each channel. -/
inductive Due where
  | answer | report

/-- The part of a completion up to which it is due. -/
def Due.before : Due → Stage → Bool
  | .answer, .signalling => false
  | .answer, _ => true
  | .report, .reporting => true
  | .report, _ => false

def Due.callBefore : Due → CallStage → Bool
  | .answer, .report => false
  | _, _ => true

/-- Whether this part of a completion settles it. -/
def Due.pays : Due → Stage → Bool
  | .answer, .sending => true
  | .report, .reporting => true
  | _, _ => false

def Due.callPays : Due → CallStage → Bool
  | .answer, .answer => true
  | .report, .report => true
  | _, _ => false

def Due.paid : Due → List Obs → List Chan
  | .answer, log => (results log).map Prod.fst
  | .report, log => (reports log).map Prod.fst

def Stage.beforeRemoval : Stage → Bool
  | .reporting | .removing => true
  | _ => false

/-- What a completion owes of the entry whose `key` is `i`. -/
def Completion.owed (key : Entry → ℕ) (before : Stage → Bool) (i : ℕ) :
    Option Completion → ℕ
  | some c => if before c.stage = true ∧ i = key c.entry then 1 else 0
  | none => 0

def Unqueued.owed (before : CallStage → Bool) : Option Unqueued → ℕ
  | some u => if before u.stage = true then 1 else 0
  | none => 0

namespace Ledger

variable (L : Ledger)

def owes (due : Due) (c : Chan) : ℕ :=
  (L.waiting.map Entry.chan).count c +
    Completion.owed Entry.chan due.before c L.completing +
    Unqueued.owed due.callBefore (L.calls c)

def owesRemoval (q : ℕ) : ℕ :=
  (L.waiting.map Entry.seq).count q +
    Completion.owed Entry.seq Stage.beforeRemoval q L.completing

/-- The entry is in custody: it waits or is being completed. -/
def Holds (e : Entry) : Prop :=
  e ∈ L.waiting ∨ ∃ c, L.completing = some c ∧ c.entry = e

structure Good : Prop where
  dues : ∀ due : Due, Settles L.nextChan (L.owes due) (due.paid L.log)
  removals : Settles L.nextSeq L.owesRemoval (processed L.log)
  handed_chans : (handed L.log).map Prod.fst = List.range L.nextChan
  registered_seqs : (registered L.log).map Entry.seq = List.range L.nextSeq
  pending_eq : L.pending =
    (unprocessed L.log).map fun e => (e.seq, e.write.name)
  /-- What is in custody was registered. -/
  holds : ∀ e, L.Holds e → e ∈ registered L.log
  registered_handed : ∀ e ∈ registered L.log,
    (e.chan, e.write) ∈ handed L.log
  calls_handed : ∀ c u, L.calls c = some u → (c, u.write) ∈ handed L.log
  /-- A report names the write that was handed over. -/
  named : ∀ c name result, (c, name, result) ∈ reports L.log →
    ∃ write, (c, write) ∈ handed L.log ∧ name = write.name
  /-- The report of a completion tells the result that will be sent. -/
  reported : ∀ c, L.completing = some c → c.stage ≠ .reporting →
    (c.entry.chan, c.entry.write.name, c.result) ∈ reports L.log
  /-- The report still to be made tells the result that was sent. -/
  answered : ∀ c u, L.calls c = some u → u.stage = .report →
    (c, .err u.removal) ∈ results L.log
  agree : ∀ c result, (c, result) ∈ results L.log →
    ∀ name told, (c, name, told) ∈ reports L.log → told = result
  /-- A processed write was reported, and answered but for the last part. -/
  processed_done : ∀ e ∈ registered L.log, e.seq ∈ processed L.log →
    ∃ result, (e.chan, e.write.name, result) ∈ reports L.log ∧
      ((e.chan, result) ∈ results L.log ∨
        L.completing = some ⟨e, result, .sending⟩)

end Ledger

namespace Ledger

variable {L L' : Ledger}

/-! ## Answers and reports are given once -/

section Owes

variable {due : Due} {next : Option Completion} {call : Option Unqueued}

theorem owes_register {obs : Obs} {entry : Entry}
    {calls : Chan → Option Unqueued} (hchan : entry.chan = L.nextChan)
    (hcalls : ∀ c, calls c = L.calls c ∨ c = L.nextChan ∧ calls c = none)
    (hfresh : L.owes due L.nextChan = 0) (c : Chan) :
    (L.register obs entry calls).owes due c =
      L.owes due c + if c = L.nextChan then 1 else 0 := by
  have hcall : Unqueued.owed due.callBefore (calls c) =
      Unqueued.owed due.callBefore (L.calls c) := by
    rcases hcalls c with h | ⟨rfl, h⟩
    · rw [h]
    · have hzero : Unqueued.owed due.callBefore (L.calls L.nextChan) = 0 := by
        simp only [owes] at hfresh
        omega
      rw [h, hzero]
      rfl
  simp only [owes, register, hcall]
  rw [Multiset.map_cons, Multiset.count_cons, hchan]
  omega

theorem owes_unqueue {write : Write} {removal : Removal}
    (hfresh : L.owes due L.nextChan = 0) (c : Chan) :
    (L.unqueue write removal).owes due c =
      L.owes due c + if c = L.nextChan then 1 else 0 := by
  simp only [owes, unqueue, Function.update_apply] at hfresh ⊢
  split_ifs with hc
  · subst hc
    have hone : Unqueued.owed due.callBefore (some ⟨write, removal, .table⟩) = 1 := by
      cases due <;> rfl
    omega
  · rfl

theorem owes_start {entry : Entry} {result : WriteResult}
    {waiting : Multiset Entry} (hfree : L.completing = none)
    (hwaiting : L.waiting = entry ::ₘ waiting) (c : Chan) :
    (L.start entry result waiting).owes due c = L.owes due c := by
  have hstage : due.before .reporting = true := by cases due <;> rfl
  simp only [owes, start, hfree, Completion.owed, hstage, true_and]
  rw [hwaiting, Multiset.map_cons, Multiset.count_cons]
  omega

theorem owes_call {chan : Chan} {write : Write} {removal : Removal}
    {stage : CallStage}
    (hcall : L.calls chan = some ⟨write, removal, stage⟩) (c : Chan) :
    L.owes due c = (L.call chan write removal stage).owes due c +
      if c = chan then (due.callPays stage).toNat else 0 := by
  by_cases hc : c = chan
  · subst hc
    cases due <;> cases stage <;>
      simp [owes, call, hcall, Unqueued.owed, Due.callBefore, Due.callPays]
  · cases stage <;> simp [owes, call, hc]

theorem paid_call (chan : Chan) (write : Write) (removal : Removal)
    (stage : CallStage) :
    due.paid (L.call chan write removal stage).log =
      due.paid L.log ++ if due.callPays stage then [chan] else [] := by
  cases due <;> cases stage <;>
    simp [Due.paid, Due.callPays, call, Obs.result, Obs.report,
      QueueReport.terminal]

theorem owes_complete {entry : Entry} {result : WriteResult} {stage : Stage}
    (hc : L.completing = some ⟨entry, result, stage⟩) (c : Chan) :
    L.owes due c = (L.complete entry result stage).owes due c +
      if c = entry.chan then (due.pays stage).toNat else 0 := by
  cases due <;> cases stage <;>
    simp [owes, complete, hc, Completion.owed, Due.before, Due.pays] <;> omega

theorem paid_complete (entry : Entry) (result : WriteResult) (stage : Stage) :
    due.paid (L.complete entry result stage).log =
      due.paid L.log ++ if due.pays stage then [entry.chan] else [] := by
  cases due <;> cases stage <;>
    simp [Due.paid, Due.pays, complete, Obs.result, Obs.report]

end Owes

@[simp] theorem call_nextChan (chan : Chan) (write : Write) (removal : Removal)
    (stage : CallStage) :
    (L.call chan write removal stage).nextChan = L.nextChan := by
  cases stage <;> rfl

@[simp] theorem complete_nextChan (entry : Entry) (result : WriteResult)
    (stage : Stage) :
    (L.complete entry result stage).nextChan = L.nextChan := by
  cases stage <;> rfl

/-- Each channel is owed its answer and its report or has got it, and never
both. -/
theorem Good.dues_step (hgood : L.Good) (h : LedgerStep L L') (due : Due) :
    Settles L'.nextChan (L'.owes due) (due.paid L'.log) := by
  have hdue := hgood.dues due
  cases h with
  | keep => exact hdue
  | note obs hsilent =>
      have hlog : due.paid (L.note obs).log = due.paid L.log := by
        cases due <;> simp [Due.paid, note, hsilent.result, hsilent.report]
      rw [hlog]
      exact hdue
  | register obs entry calls hobs hseq hchan hcalls =>
      have hlog : due.paid (L.register obs entry calls).log = due.paid L.log := by
        obtain ⟨-, hresult, hreport, -⟩ := Obs.of_registered hobs
        cases due <;> simp [Due.paid, register, hresult, hreport]
      rw [hlog]
      exact hdue.issue (owes_register hchan hcalls hdue.fresh)
  | unqueue write removal =>
      have hlog : due.paid (L.unqueue write removal).log = due.paid L.log := by
        cases due <;> simp [Due.paid, unqueue, Obs.result, Obs.report]
      rw [hlog]
      exact hdue.issue (owes_unqueue hdue.fresh)
  | call chan write removal stage hcall =>
      rw [paid_call, call_nextChan]
      exact hdue.payIf (owes_call hcall)
  | start entry result waiting hfree hwaiting =>
      exact hdue.congr (owes_start hfree hwaiting)
  | complete entry result stage hc =>
      rw [paid_complete, complete_nextChan]
      exact hdue.payIf (owes_complete hc)

/-! ## Sequence numbers are removed once -/

theorem owesRemoval_complete {entry : Entry} {result : WriteResult}
    {stage : Stage} (hc : L.completing = some ⟨entry, result, stage⟩) (q : ℕ) :
    L.owesRemoval q = (L.complete entry result stage).owesRemoval q +
      if q = entry.seq then (decide (stage = .removing)).toNat else 0 := by
  cases stage <;>
    simp [owesRemoval, complete, hc, Completion.owed, Stage.beforeRemoval]

theorem processed_complete (entry : Entry) (result : WriteResult)
    (stage : Stage) :
    processed (L.complete entry result stage).log =
      processed L.log ++
        if decide (stage = .removing) then [entry.seq] else [] := by
  cases stage <;> simp [complete, Obs.processedSeq]

theorem processed_call (chan : Chan) (write : Write) (removal : Removal)
    (stage : CallStage) :
    processed (L.call chan write removal stage).log = processed L.log := by
  cases stage <;> simp [call, Obs.processedSeq]

theorem Good.removals_step (hgood : L.Good) (h : LedgerStep L L') :
    Settles L'.nextSeq L'.owesRemoval (processed L'.log) := by
  have hrem := hgood.removals
  cases h with
  | keep => exact hrem
  | note obs hsilent =>
      have hlog : processed (L.note obs).log = processed L.log := by
        simp [note, hsilent.processed]
      rw [hlog]
      exact hrem
  | register obs entry calls hobs hseq hchan hcalls =>
      have hlog : processed (L.register obs entry calls).log =
          processed L.log := by
        simp [register, (Obs.of_registered hobs).2.2.2]
      have howes (q : ℕ) : (L.register obs entry calls).owesRemoval q =
          L.owesRemoval q + if q = L.nextSeq then 1 else 0 := by
        simp only [owesRemoval, register]
        rw [Multiset.map_cons, Multiset.count_cons, hseq]
        omega
      rw [hlog]
      exact hrem.issue howes
  | unqueue write removal =>
      have hlog : processed (L.unqueue write removal).log = processed L.log := by
        simp [unqueue, Obs.processedSeq]
      rw [hlog]
      exact hrem
  | call chan write removal stage hcall =>
      rw [processed_call]
      cases stage <;> exact hrem
  | start entry result waiting hfree hwaiting =>
      refine hrem.congr fun q => ?_
      simp only [owesRemoval, start, hfree, Completion.owed,
        Stage.beforeRemoval, true_and]
      rw [hwaiting, Multiset.map_cons, Multiset.count_cons]
      omega
  | complete entry result stage hc =>
      have hpay := hrem.payIf (owesRemoval_complete hc)
      rw [processed_complete]
      cases stage <;> exact hpay

/-! ## What was handed over and registered -/

/-- A step only adds to the log. -/
theorem log_grows (h : LedgerStep L L') : ∃ more, L'.log = L.log ++ more := by
  cases h with
  | keep => exact ⟨[], by simp⟩
  | note obs hsilent => exact ⟨[obs], rfl⟩
  | register obs entry calls hobs hseq hchan hcalls => exact ⟨[obs], rfl⟩
  | unqueue write removal => exact ⟨_, rfl⟩
  | call chan write removal stage hcall =>
      cases stage with
      | table => exact ⟨[], by simp [call]⟩
      | answer => exact ⟨_, rfl⟩
      | report => exact ⟨_, rfl⟩
  | start entry result waiting hfree hwaiting => exact ⟨[], by simp [start]⟩
  | complete entry result stage hc =>
      cases stage with
      | signalling => exact ⟨[], by simp [complete]⟩
      | _ => exact ⟨_, rfl⟩

/-- The log of a hand-over that goes on, or of a completion, registers
nothing and hands nothing over. -/
theorem registered_call (chan : Chan) (write : Write) (removal : Removal)
    (stage : CallStage) :
    registered (L.call chan write removal stage).log = registered L.log ∧
      handed (L.call chan write removal stage).log = handed L.log := by
  cases stage <;> simp [call, Obs.registered, Obs.handed]

theorem registered_complete (entry : Entry) (result : WriteResult)
    (stage : Stage) :
    registered (L.complete entry result stage).log = registered L.log ∧
      handed (L.complete entry result stage).log = handed L.log := by
  cases stage <;> simp [complete, Obs.registered, Obs.handed]

theorem Good.handed_step (hgood : L.Good) (h : LedgerStep L L') :
    (handed L'.log).map Prod.fst = List.range L'.nextChan := by
  have hhanded := hgood.handed_chans
  cases h with
  | keep => exact hhanded
  | note obs hsilent => simpa [note, hsilent.handed] using hhanded
  | register obs entry calls hobs hseq hchan hcalls =>
      simp [register, (Obs.of_registered hobs).1, hhanded, hchan,
        List.range_succ]
  | unqueue write removal =>
      simp [unqueue, Obs.handed, hhanded, List.range_succ]
  | call chan write removal stage hcall =>
      rw [(registered_call ..).2, call_nextChan]
      exact hhanded
  | start entry result waiting hfree hwaiting => exact hhanded
  | complete entry result stage hc =>
      rw [(registered_complete ..).2, complete_nextChan]
      exact hhanded

theorem Good.registered_step (hgood : L.Good) (h : LedgerStep L L') :
    (registered L'.log).map Entry.seq = List.range L'.nextSeq := by
  have hreg := hgood.registered_seqs
  cases h with
  | keep => exact hreg
  | note obs hsilent => simpa [note, hsilent.registered] using hreg
  | register obs entry calls hobs hseq hchan hcalls =>
      simp [register, hobs, hreg, hseq, List.range_succ]
  | unqueue write removal =>
      simpa [unqueue, Obs.registered] using hreg
  | call chan write removal stage hcall =>
      rw [(registered_call ..).1]
      cases stage <;> exact hreg
  | start entry result waiting hfree hwaiting => exact hreg
  | complete entry result stage hc =>
      rw [(registered_complete ..).1]
      cases stage <;> exact hreg

theorem unprocessed_complete (entry : Entry) (result : WriteResult)
    (stage : Stage) :
    unprocessed (L.complete entry result stage).log =
      if stage = .removing then
        (unprocessed L.log).filter fun e => decide (e.seq ≠ entry.seq)
      else unprocessed L.log := by
  unfold unprocessed
  rw [(registered_complete ..).1, processed_complete]
  by_cases hs : stage = .removing
  · subst hs
    simp [List.filter_filter, not_or, and_comm]
  · simp [hs]

theorem Good.pending_step (hgood : L.Good) (h : LedgerStep L L') :
    L'.pending = (unprocessed L'.log).map fun e => (e.seq, e.write.name) := by
  have hpending := hgood.pending_eq
  cases h with
  | keep => exact hpending
  | note obs hsilent =>
      simpa [note, unprocessed, hsilent.registered, hsilent.processed]
        using hpending
  | register obs entry calls hobs hseq hchan hcalls =>
      have hfresh : entry.seq ∉ processed L.log := by
        intro hmem
        have hlt := hgood.removals.lt_of_mem hmem
        omega
      simp [register, unprocessed, hobs, (Obs.of_registered hobs).2.2.2,
        hpending, hfresh]
  | unqueue write removal =>
      simpa [unqueue, unprocessed, Obs.registered, Obs.processedSeq]
        using hpending
  | call chan write removal stage hcall =>
      have hlog : unprocessed (L.call chan write removal stage).log =
          unprocessed L.log := by
        unfold unprocessed
        rw [(registered_call ..).1, processed_call]
      rw [hlog]
      cases stage <;> exact hpending
  | start entry result waiting hfree hwaiting => exact hpending
  | complete entry result stage hc =>
      rw [unprocessed_complete]
      cases stage with
      | removing =>
          simp [complete, hpending, List.filter_map, Function.comp_def]
      | _ => exact hpending

/-! ## What is in custody, and what is told of it -/

theorem registered_mono (h : LedgerStep L L') {e : Entry}
    (he : e ∈ registered L.log) : e ∈ registered L'.log := by
  obtain ⟨more, hmore⟩ := log_grows h
  simp [hmore, he]

theorem handed_mono (h : LedgerStep L L') {p : Chan × Write}
    (hp : p ∈ handed L.log) : p ∈ handed L'.log := by
  obtain ⟨more, hmore⟩ := log_grows h
  simp [hmore, hp]

theorem Good.holds_step (hgood : L.Good) (h : LedgerStep L L') :
    ∀ e, L'.Holds e → e ∈ registered L'.log := by
  intro e he
  have hmono : L.Holds e → e ∈ registered L'.log :=
    fun hold => registered_mono h (hgood.holds e hold)
  cases h with
  | keep => exact hmono he
  | note obs hsilent => exact hmono he
  | register obs entry calls hobs hseq hchan hcalls =>
      rcases he with he | he
      · rcases Multiset.mem_cons.mp he with rfl | he
        · simp [register, hobs]
        · exact hmono (Or.inl he)
      · exact hmono (Or.inr he)
  | unqueue write removal => exact hmono he
  | call chan write removal stage hcall =>
      refine hmono ?_
      cases stage <;> exact he
  | start entry result waiting hfree hwaiting =>
      refine hmono (Or.inl ?_)
      rw [hwaiting]
      rcases he with he | ⟨c, hc, rfl⟩
      · exact Multiset.mem_cons_of_mem he
      · cases hc
        exact Multiset.mem_cons_self _ _
  | complete entry result stage hc =>
      refine hmono ?_
      rcases he with he | ⟨c, hnext, rfl⟩
      · left
        cases stage <;> exact he
      · right
        cases stage <;> cases hnext <;> exact ⟨_, hc, rfl⟩

theorem Good.registered_handed_step (hgood : L.Good) (h : LedgerStep L L') :
    ∀ e ∈ registered L'.log, (e.chan, e.write) ∈ handed L'.log := by
  intro e he
  have hmono : e ∈ registered L.log → (e.chan, e.write) ∈ handed L'.log :=
    fun hreg => handed_mono h (hgood.registered_handed e hreg)
  cases h with
  | keep => exact hmono he
  | note obs hsilent =>
      exact hmono (by simpa [note, hsilent.registered] using he)
  | register obs entry calls hobs hseq hchan hcalls =>
      simp only [register, registered_append, registered_cons, hobs,
        Option.toList, registered_nil, List.append_nil, List.mem_append,
        List.mem_singleton] at he
      rcases he with he | rfl
      · exact hmono he
      · simp [register, (Obs.of_registered hobs).1]
  | unqueue write removal =>
      exact hmono (by simpa [unqueue, Obs.registered] using he)
  | call chan write removal stage hcall =>
      rw [(registered_call ..).1] at he
      exact hmono he
  | start entry result waiting hfree hwaiting => exact hmono he
  | complete entry result stage hc =>
      rw [(registered_complete ..).1] at he
      exact hmono he

theorem Good.calls_handed_step (hgood : L.Good) (h : LedgerStep L L') :
    ∀ c u, L'.calls c = some u → (c, u.write) ∈ handed L'.log := by
  intro c u hu
  have hmono : L.calls c = some u → (c, u.write) ∈ handed L'.log :=
    fun hcall => handed_mono h (hgood.calls_handed c u hcall)
  cases h with
  | keep => exact hmono hu
  | note obs hsilent => exact hmono hu
  | register obs entry calls hobs hseq hchan hcalls =>
      change calls c = some u at hu
      rcases hcalls c with hsame | ⟨-, hnone⟩
      · exact hmono (hsame ▸ hu)
      · rw [hnone] at hu
        cases hu
  | unqueue write removal =>
      simp only [unqueue, Function.update_apply] at hu
      split_ifs at hu with hc
      · cases hu
        simp [unqueue, Obs.handed, hc]
      · exact hmono hu
  | call chan write removal stage hcall =>
      by_cases hc : c = chan
      · subst hc
        have hwrite : u.write = write := by
          cases stage <;> simp [call] at hu <;> rw [← hu]
        rw [hwrite]
        refine handed_mono (.call c write removal stage hcall) ?_
        exact hgood.calls_handed c _ hcall
      · refine hmono ?_
        cases stage <;> simpa [call, hc] using hu
  | start entry result waiting hfree hwaiting => exact hmono hu
  | complete entry result stage hc =>
      refine hmono ?_
      cases stage <;> exact hu

/-- Every report names the write that was handed over on its channel. -/
theorem Good.named_step (hgood : L.Good) (h : LedgerStep L L') :
    ∀ c name result, (c, name, result) ∈ reports L'.log →
      ∃ write, (c, write) ∈ handed L'.log ∧ name = write.name := by
  intro c name result hr
  have hmono : (c, name, result) ∈ reports L.log →
      ∃ write, (c, write) ∈ handed L'.log ∧ name = write.name := by
    intro hold
    obtain ⟨write, hhanded, hname⟩ := hgood.named c name result hold
    exact ⟨write, handed_mono h hhanded, hname⟩
  cases h with
  | keep => exact hmono hr
  | note obs hsilent => exact hmono (by simpa [note, hsilent.report] using hr)
  | register obs entry calls hobs hseq hchan hcalls =>
      exact hmono (by simpa [register, (Obs.of_registered hobs).2.2.1] using hr)
  | unqueue write removal =>
      exact hmono (by simpa [unqueue, Obs.report] using hr)
  | call chan write removal stage hcall =>
      cases stage with
      | table => exact hmono hr
      | answer => exact hmono (by simpa [call, Obs.report] using hr)
      | report =>
          simp only [call, reports_append, reports_cons, reports_nil, Obs.report,
            QueueReport.terminal, Option.map_some, Option.toList,
            List.mem_append, List.mem_singleton, List.not_mem_nil,
            or_false] at hr
          rcases hr with hr | hr
          · exact hmono hr
          · cases hr
            refine ⟨write, ?_, rfl⟩
            exact handed_mono (.call c write removal .report hcall)
              (hgood.calls_handed c _ hcall)
  | start entry result' waiting hfree hwaiting => exact hmono hr
  | complete entry result' stage hc =>
      cases stage with
      | reporting =>
          simp only [complete, reports_append, reports_cons, reports_nil,
            Obs.report, QueueReport.terminal_ofResult, Option.map_some,
            Option.toList, List.mem_append, List.mem_singleton,
            List.not_mem_nil, or_false] at hr
          rcases hr with hr | hr
          · exact hmono hr
          · cases hr
            refine ⟨entry.write, ?_, rfl⟩
            rw [(registered_complete ..).2]
            exact hgood.registered_handed entry
              (hgood.holds entry (Or.inr ⟨_, hc, rfl⟩))
      | removing => exact hmono (by simpa [complete, Obs.report] using hr)
      | sending => exact hmono (by simpa [complete, Obs.report] using hr)
      | signalling => exact hmono hr

theorem reports_mono (h : LedgerStep L L') {p : Chan × WriteName × WriteResult}
    (hp : p ∈ reports L.log) : p ∈ reports L'.log := by
  obtain ⟨more, hmore⟩ := log_grows h
  simp [hmore, hp]

theorem results_mono (h : LedgerStep L L') {p : Chan × WriteResult}
    (hp : p ∈ results L.log) : p ∈ results L'.log := by
  obtain ⟨more, hmore⟩ := log_grows h
  simp [hmore, hp]

/-- A completion past its report has told the result that it will send. -/
theorem Good.reported_step (hgood : L.Good) (h : LedgerStep L L') :
    ∀ c, L'.completing = some c → c.stage ≠ .reporting →
      (c.entry.chan, c.entry.write.name, c.result) ∈ reports L'.log := by
  intro c hc hstage
  have hmono : L.completing = some c →
      (c.entry.chan, c.entry.write.name, c.result) ∈ reports L'.log :=
    fun hold => reports_mono h (hgood.reported c hold hstage)
  cases h with
  | keep => exact hmono hc
  | note obs hsilent => exact hmono hc
  | register obs entry calls hobs hseq hchan hcalls => exact hmono hc
  | unqueue write removal => exact hmono hc
  | call chan write removal stage hcall =>
      refine hmono ?_
      cases stage <;> exact hc
  | start entry result waiting hfree hwaiting =>
      cases hc
      exact absurd rfl hstage
  | complete entry result stage hold =>
      cases stage with
      | reporting =>
          cases hc
          simp [complete, Obs.report]
      | removing =>
          cases hc
          have htold := hgood.reported _ hold (by simp)
          exact reports_mono (.complete entry result .removing hold) htold
      | sending =>
          cases hc
          have htold := hgood.reported _ hold (by simp)
          exact reports_mono (.complete entry result .sending hold) htold
      | signalling => cases hc

theorem Good.answered_step (hgood : L.Good) (h : LedgerStep L L') :
    ∀ c u, L'.calls c = some u → u.stage = .report →
      (c, .err u.removal) ∈ results L'.log := by
  intro c u hu hstage
  have hmono : L.calls c = some u → (c, .err u.removal) ∈ results L'.log :=
    fun hold => results_mono h (hgood.answered c u hold hstage)
  cases h with
  | keep => exact hmono hu
  | note obs hsilent => exact hmono hu
  | register obs entry calls hobs hseq hchan hcalls =>
      change calls c = some u at hu
      rcases hcalls c with hsame | ⟨-, hnone⟩
      · exact hmono (hsame ▸ hu)
      · rw [hnone] at hu
        cases hu
  | unqueue write removal =>
      simp only [unqueue, Function.update_apply] at hu
      split_ifs at hu
      · cases hu
        cases hstage
      · exact hmono hu
  | call chan write removal stage hcall =>
      by_cases hc : c = chan
      · subst hc
        cases stage with
        | table =>
            simp only [call, Function.update_self] at hu
            cases hu
            cases hstage
        | answer =>
            simp only [call, Function.update_self] at hu
            cases hu
            simp [call, Obs.result]
        | report => simp [call] at hu
      · refine hmono ?_
        cases stage <;> simpa [call, hc] using hu
  | start entry result waiting hfree hwaiting => exact hmono hu
  | complete entry result stage hc =>
      refine hmono ?_
      cases stage <;> exact hu

/-! ## The report and the answer agree -/

theorem owes_pos_of_completing {due : Due} {entry : Entry} {result : WriteResult}
    {stage : Stage} (hc : L.completing = some ⟨entry, result, stage⟩)
    (hbefore : due.before stage = true) : 0 < L.owes due entry.chan := by
  have hone : Completion.owed Entry.chan due.before entry.chan L.completing = 1 := by
    simp [hc, Completion.owed, hbefore]
  simp only [owes, hone]
  omega

theorem owes_pos_of_call {due : Due} {chan : Chan} {u : Unqueued}
    (hcall : L.calls chan = some u) (hbefore : due.callBefore u.stage = true) :
    0 < L.owes due chan := by
  simp [owes, hcall, Unqueued.owed, hbefore]

theorem Good.result_unique (hgood : L.Good) {c : Chan} {r r' : WriteResult}
    (h : (c, r) ∈ results L.log) (h' : (c, r') ∈ results L.log) : r = r' := by
  have hnodup := (hgood.dues .answer).nodup
  have heq := List.inj_on_of_nodup_map hnodup h h' rfl
  exact congrArg Prod.snd heq

theorem Good.report_unique (hgood : L.Good) {c : Chan}
    {p p' : WriteName × WriteResult} (h : (c, p) ∈ reports L.log)
    (h' : (c, p') ∈ reports L.log) : p = p' := by
  have hnodup := (hgood.dues .report).nodup
  have heq := List.inj_on_of_nodup_map hnodup h h' rfl
  exact congrArg Prod.snd heq

theorem Good.agree_step (hgood : L.Good) (h : LedgerStep L L') :
    ∀ c result, (c, result) ∈ results L'.log →
      ∀ name told, (c, name, told) ∈ reports L'.log → told = result := by
  intro c result hresult name told htold
  have hold := hgood.agree c
  cases h with
  | keep => exact hold result hresult name told htold
  | note obs hsilent =>
      simp only [note, results_append, results_cons, hsilent.result,
        reports_append, reports_cons, hsilent.report] at hresult htold
      exact hold result (by simpa using hresult) name told (by simpa using htold)
  | register obs entry calls hobs hseq hchan hcalls =>
      obtain ⟨-, hnoresult, hnoreport, -⟩ := Obs.of_registered hobs
      simp only [register, results_append, results_cons, hnoresult,
        reports_append, reports_cons, hnoreport] at hresult htold
      exact hold result (by simpa using hresult) name told (by simpa using htold)
  | unqueue write removal =>
      simp only [unqueue, results_append, results_cons, reports_append,
        reports_cons, Obs.result, Obs.report] at hresult htold
      exact hold result (by simpa using hresult) name told (by simpa using htold)
  | call chan write removal stage hcall =>
      cases stage with
      | table => exact hold result hresult name told htold
      | answer =>
          have htold' : (c, name, told) ∈ reports L.log := by
            simpa [call, Obs.report] using htold
          simp only [call, results_append, results_cons, results_nil, Obs.result,
            Option.toList, List.mem_append, List.mem_singleton,
            List.not_mem_nil, or_false] at hresult
          rcases hresult with hresult | hresult
          · exact hold result hresult name told htold'
          · -- the report of a hand-over comes after its answer
            cases hresult
            have hpos : 0 < L.owes .report c := owes_pos_of_call hcall rfl
            have hnot := (hgood.dues .report).not_mem_of_owed hpos
            exact absurd (List.mem_map_of_mem htold') hnot
      | report =>
          have hresult' : (c, result) ∈ results L.log := by
            simpa [call, Obs.result] using hresult
          simp only [call, reports_append, reports_cons, reports_nil, Obs.report,
            QueueReport.terminal, Option.map_some, Option.toList,
            List.mem_append, List.mem_singleton, List.not_mem_nil,
            or_false] at htold
          rcases htold with htold | htold
          · exact hold result hresult' name told htold
          · cases htold
            have hans := hgood.answered c _ hcall rfl
            exact hgood.result_unique hans hresult'
  | start entry result' waiting hfree hwaiting =>
      exact hold result hresult name told htold
  | complete entry result' stage hc =>
      cases stage with
      | reporting =>
          have hresult' : (c, result) ∈ results L.log := by
            simpa [complete, Obs.result] using hresult
          simp only [complete, reports_append, reports_cons, reports_nil,
            Obs.report, QueueReport.terminal_ofResult, Option.map_some,
            Option.toList, List.mem_append, List.mem_singleton,
            List.not_mem_nil, or_false] at htold
          rcases htold with htold | htold
          · exact hold result hresult' name told htold
          · -- the task answers after it has reported
            cases htold
            have hpos : 0 < L.owes .answer entry.chan :=
              owes_pos_of_completing hc rfl
            have hnot := (hgood.dues .answer).not_mem_of_owed hpos
            exact absurd (List.mem_map_of_mem hresult') hnot
      | removing =>
          exact hold result (by simpa [complete, Obs.result] using hresult) name
            told (by simpa [complete, Obs.report] using htold)
      | sending =>
          have htold' : (c, name, told) ∈ reports L.log := by
            simpa [complete, Obs.report] using htold
          simp only [complete, results_append, results_cons, results_nil,
            Obs.result, Option.toList, List.mem_append, List.mem_singleton,
            List.not_mem_nil, or_false] at hresult
          rcases hresult with hresult | hresult
          · exact hold result hresult name told htold'
          · cases hresult
            have hmade := hgood.reported _ hc (by simp)
            have heq := hgood.report_unique hmade htold'
            exact (congrArg Prod.snd heq).symm
      | signalling => exact hold result hresult name told htold

theorem Good.entry_unique (hgood : L.Good) {e e' : Entry}
    (h : e ∈ registered L.log) (h' : e' ∈ registered L.log)
    (hseq : e.seq = e'.seq) : e = e' := by
  have hnodup : ((registered L.log).map Entry.seq).Nodup := by
    rw [hgood.registered_seqs]
    exact List.nodup_range
  exact List.inj_on_of_nodup_map hnodup h h' hseq

theorem Good.processed_done_step (hgood : L.Good) (h : LedgerStep L L') :
    ∀ e ∈ registered L'.log, e.seq ∈ processed L'.log →
      ∃ result, (e.chan, e.write.name, result) ∈ reports L'.log ∧
        ((e.chan, result) ∈ results L'.log ∨
          L'.completing = some ⟨e, result, .sending⟩) := by
  intro e he hproc
  -- a step that neither registers nor processes, and keeps a completion
  have hkeep : e ∈ registered L.log → e.seq ∈ processed L.log →
      (∀ result, L.completing = some ⟨e, result, .sending⟩ →
        L'.completing = some ⟨e, result, .sending⟩ ∨
          (e.chan, result) ∈ results L'.log) →
      ∃ result, (e.chan, e.write.name, result) ∈ reports L'.log ∧
        ((e.chan, result) ∈ results L'.log ∨
          L'.completing = some ⟨e, result, .sending⟩) := by
    intro hreg hold hc
    obtain ⟨result, htold, hdone⟩ := hgood.processed_done e hreg hold
    refine ⟨result, reports_mono h htold, ?_⟩
    rcases hdone with hdone | hdone
    · exact Or.inl (results_mono h hdone)
    · exact (hc result hdone).symm
  cases h with
  | keep => exact hkeep he hproc fun result hc => Or.inl hc
  | note obs hsilent =>
      refine hkeep ?_ ?_ fun result hc => Or.inl hc
      · simpa [note, hsilent.registered] using he
      · simpa [note, hsilent.processed] using hproc
  | register obs entry calls hobs hseq hchan hcalls =>
      have hproc' : e.seq ∈ processed L.log := by
        simpa [register, (Obs.of_registered hobs).2.2.2] using hproc
      have hlt := hgood.removals.lt_of_mem hproc'
      have he' : e ∈ registered L.log := by
        simp only [register, registered_append, registered_cons, hobs,
          Option.toList, registered_nil, List.append_nil, List.mem_append,
          List.mem_singleton] at he
        rcases he with he | rfl
        · exact he
        · omega
      exact hkeep he' hproc' fun result hc => Or.inl hc
  | unqueue write removal =>
      refine hkeep ?_ ?_ fun result hc => Or.inl hc
      · simpa [unqueue, Obs.registered] using he
      · simpa [unqueue, Obs.processedSeq] using hproc
  | call chan write removal stage hcall =>
      rw [(registered_call ..).1] at he
      rw [processed_call] at hproc
      refine hkeep he hproc fun result hc => Or.inl ?_
      cases stage <;> exact hc
  | start entry result waiting hfree hwaiting =>
      refine hkeep he hproc fun result hc => ?_
      rw [hfree] at hc
      cases hc
  | complete entry result stage hc =>
      rw [(registered_complete ..).1] at he
      rw [processed_complete] at hproc
      by_cases hs : stage = .removing
      · subst hs
        have hreported := hgood.reported _ hc (by simp)
        rcases List.mem_append.mp hproc with hproc | hproc
        · refine hkeep he hproc fun result' hc' => ?_
          rw [hc] at hc'
          cases hc'
        · have hseq : e.seq = entry.seq := by simpa using hproc
          have hentry : entry ∈ registered L.log :=
            hgood.holds entry (Or.inr ⟨_, hc, rfl⟩)
          obtain rfl := hgood.entry_unique he hentry hseq
          exact ⟨result, reports_mono (.complete e result .removing hc) hreported,
            Or.inr rfl⟩
      · refine hkeep he (by simpa [hs] using hproc) fun result' hc' => ?_
        rw [hc] at hc'
        cases hc'
        right
        simp [complete, Obs.result]

theorem Good.step (hgood : L.Good) (h : LedgerStep L L') : L'.Good where
  dues := hgood.dues_step h
  removals := hgood.removals_step h
  handed_chans := hgood.handed_step h
  registered_seqs := hgood.registered_step h
  pending_eq := hgood.pending_step h
  holds := hgood.holds_step h
  registered_handed := hgood.registered_handed_step h
  calls_handed := hgood.calls_handed_step h
  named := hgood.named_step h
  reported := hgood.reported_step h
  answered := hgood.answered_step h
  agree := hgood.agree_step h
  processed_done := hgood.processed_done_step h

end Ledger

/-! ## The ledger of a reachable queue is good -/

namespace Sys

variable {s : Sys}

theorem good_init : init.ledger.Good where
  dues := by
    intro due
    refine ⟨fun i => ?_⟩
    cases due <;>
      simp [ledger, init, waiting, Ledger.owes, Completion.owed, Unqueued.owed,
        Due.paid, State.new, Call.unqueued?]
  removals := by
    refine ⟨fun i => ?_⟩
    simp [ledger, init, waiting, Ledger.owesRemoval, Completion.owed, State.new]
  handed_chans := rfl
  registered_seqs := rfl
  pending_eq := rfl
  holds := by
    intro e he
    simp [Ledger.Holds, ledger, init, waiting, State.new] at he
  registered_handed := by simp [ledger, init]
  calls_handed := by simp [ledger, init, Call.unqueued?]
  named := by simp [ledger, init]
  reported := by simp [ledger, init]
  answered := by simp [ledger, init, Call.unqueued?]
  agree := by simp [ledger, init]
  processed_done := by simp [ledger, init]

theorem seq_lt_of_registered (hgood : s.ledger.Good) {e : Entry}
    (he : e ∈ registered s.log) : e.seq < s.st.nextSeq := by
  have hseqs : (registered s.log).map Entry.seq = List.range s.st.nextSeq :=
    hgood.registered_seqs
  have hmem : e.seq ∈ (registered s.log).map Entry.seq :=
    List.mem_map_of_mem he
  rw [hseqs] at hmem
  exact List.mem_range.mp hmem

/-- The keys of `pending` are the numbers of the unprocessed entries. -/
theorem pending_keys (hgood : s.ledger.Good) :
    s.st.pending.keys = (unprocessed s.log).map Entry.seq := by
  have heq : s.st.pending.entries.map (fun p => (p.1, p.2.name)) =
      (unprocessed s.log).map fun e => (e.seq, e.write.name) :=
    hgood.pending_eq
  have hkeys := congrArg (List.map Prod.fst) heq
  simpa [SortedMap.keys, Function.comp_def] using hkeys

theorem mem_pending_keys (hgood : s.ledger.Good) {k : ℕ} :
    k ∈ s.st.pending.keys ↔ k < s.st.nextSeq ∧ k ∉ processed s.log := by
  have hseqs : (registered s.log).map Entry.seq = List.range s.st.nextSeq :=
    hgood.registered_seqs
  rw [pending_keys hgood, ← List.mem_range, ← hseqs]
  simp only [unprocessed, List.mem_map, List.mem_filter, decide_eq_true_eq]
  constructor
  · rintro ⟨e, ⟨he, hnot⟩, rfl⟩
    exact ⟨⟨e, he, rfl⟩, hnot⟩
  · rintro ⟨⟨e, he, rfl⟩, hnot⟩
    exact ⟨e, ⟨he, hnot⟩, rfl⟩

/-- Every reachable state has a good ledger. -/
theorem good (h : machine.Reachable s) : s.ledger.Good := by
  refine invariant (P := fun s => s.ledger.Good) good_init ?_ h
  intro s s' hgood hstep
  have hlt : ∀ k ∈ s.st.pending.keys, k < s.st.nextSeq :=
    fun k hk => ((mem_pending_keys hgood).mp hk).1
  exact hgood.step (ledger_step hlt hstep)

end Sys

end RunnerKit.Queue
