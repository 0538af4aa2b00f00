import RunnerKit.Lib.Obligations
import RunnerKit.Queue.Steps

/-!
# The ledger of a delivery queue

What the queue is for, apart from order and dependencies: a write that is
handed over is in its custody until it ends. The ledger forgets in which of
the places of the queue an entry lies and keeps only that it waits, or which
part of its completion comes next. Every step of the queue is a step of the
ledger, and what the ledger owes is settled exactly once.
-/

namespace RunnerKit.Queue

open RunnerKit.Jobs RunnerKit.Lib

/-! ## What a log tells -/

namespace Obs

/-- The entry that got a sequence number. -/
def registered : Obs → Option Entry
  | .enqueued entry => some entry
  | .held entry _ => some entry
  | .joined _ follow => follow
  | _ => none

/-- The write that was handed over; a follow-up is handed over when its
marker joins. -/
def handed : Obs → Option (Chan × Write)
  | .unqueued chan write _ => some (chan, write)
  | .enqueued entry => some (entry.chan, entry.write)
  | .held entry _ => some (entry.chan, entry.write)
  | .joined _ follow => follow.map fun entry => (entry.chan, entry.write)
  | _ => none

def result : Obs → Option (Chan × WriteResult)
  | .ended chan result => some (chan, result)
  | _ => none

/-- The terminal report of a write. -/
def report : Obs → Option (Chan × WriteName × WriteResult)
  | .reported entry report => report.terminal.map fun told => (entry.chan, told)
  | .callReported chan report => report.terminal.map fun told => (chan, told)
  | _ => none

def processedSeq : Obs → Option ℕ
  | .processed seq => some seq
  | _ => none

/-- The observation is none of the above. -/
structure Silent (obs : Obs) : Prop where
  registered : obs.registered = none
  handed : obs.handed = none
  result : obs.result = none
  report : obs.report = none
  processed : obs.processedSeq = none

end Obs

def registered (log : List Obs) : List Entry := log.filterMap Obs.registered

def handed (log : List Obs) : List (Chan × Write) := log.filterMap Obs.handed

def results (log : List Obs) : List (Chan × WriteResult) :=
  log.filterMap Obs.result

def reports (log : List Obs) : List (Chan × WriteName × WriteResult) :=
  log.filterMap Obs.report

def processed (log : List Obs) : List ℕ := log.filterMap Obs.processedSeq

/-- The registered entries whose end has not been processed. -/
def unprocessed (log : List Obs) : List Entry :=
  (registered log).filter fun e => decide (e.seq ∉ processed log)

theorem filterMap_cons_toList {α β : Type*} (f : α → Option β) (a : α)
    (l : List α) : (a :: l).filterMap f = (f a).toList ++ l.filterMap f := by
  cases h : f a <;> simp [h]

section Reading

variable (log more : List Obs) (obs : Obs)

@[simp] theorem registered_nil : registered [] = [] := rfl

@[simp] theorem registered_cons :
    registered (obs :: log) = obs.registered.toList ++ registered log :=
  filterMap_cons_toList ..

@[simp] theorem registered_append :
    registered (log ++ more) = registered log ++ registered more :=
  List.filterMap_append

@[simp] theorem handed_nil : handed [] = [] := rfl

@[simp] theorem handed_cons :
    handed (obs :: log) = obs.handed.toList ++ handed log :=
  filterMap_cons_toList ..

@[simp] theorem handed_append :
    handed (log ++ more) = handed log ++ handed more :=
  List.filterMap_append

@[simp] theorem results_nil : results [] = [] := rfl

@[simp] theorem results_cons :
    results (obs :: log) = obs.result.toList ++ results log :=
  filterMap_cons_toList ..

@[simp] theorem results_append :
    results (log ++ more) = results log ++ results more :=
  List.filterMap_append

@[simp] theorem reports_nil : reports [] = [] := rfl

@[simp] theorem reports_cons :
    reports (obs :: log) = obs.report.toList ++ reports log :=
  filterMap_cons_toList ..

@[simp] theorem reports_append :
    reports (log ++ more) = reports log ++ reports more :=
  List.filterMap_append

@[simp] theorem processed_nil : processed [] = [] := rfl

@[simp] theorem processed_cons :
    processed (obs :: log) = obs.processedSeq.toList ++ processed log :=
  filterMap_cons_toList ..

@[simp] theorem processed_append :
    processed (log ++ more) = processed log ++ processed more :=
  List.filterMap_append

end Reading

/-- A registration hands its write over and tells nothing else. -/
theorem Obs.of_registered {obs : Obs} {e : Entry}
    (h : obs.registered = some e) :
    obs.handed = some (e.chan, e.write) ∧ obs.result = none ∧
      obs.report = none ∧ obs.processedSeq = none := by
  cases obs with
  | enqueued entry =>
      cases h
      exact ⟨rfl, rfl, rfl, rfl⟩
  | held entry follow =>
      cases h
      exact ⟨rfl, rfl, rfl, rfl⟩
  | joined marker follow =>
      cases h
      exact ⟨rfl, rfl, rfl, rfl⟩
  | _ => cases h

/-! ## The ledger and its steps -/

/-- A hand-over that ends its write itself. -/
structure Unqueued where
  write : Write
  removal : Removal
  stage : CallStage

structure Ledger where
  waiting : Multiset Entry
  completing : Option Completion
  calls : Chan → Option Unqueued
  nextChan : Chan
  nextSeq : ℕ
  pending : List (ℕ × WriteName)
  log : List Obs

namespace Ledger

def note (L : Ledger) (obs : Obs) : Ledger := { L with log := L.log ++ [obs] }

def register (L : Ledger) (obs : Obs) (entry : Entry)
    (calls : Chan → Option Unqueued) : Ledger :=
  { L with
    waiting := entry ::ₘ L.waiting
    calls := calls
    nextChan := L.nextChan + 1
    nextSeq := L.nextSeq + 1
    pending := L.pending ++ [(entry.seq, entry.write.name)]
    log := L.log ++ [obs] }

def unqueue (L : Ledger) (write : Write) (removal : Removal) : Ledger :=
  { L with
    calls := Function.update L.calls L.nextChan (some ⟨write, removal, .table⟩)
    nextChan := L.nextChan + 1
    log := L.log ++ [.unqueued L.nextChan write removal] }

/-- One part of a hand-over that ends its write itself. -/
def call (L : Ledger) (chan : Chan) (write : Write) (removal : Removal) :
    CallStage → Ledger
  | .table =>
      { L with
        calls := Function.update L.calls chan (some ⟨write, removal, .answer⟩) }
  | .answer =>
      { L with
        calls := Function.update L.calls chan (some ⟨write, removal, .report⟩)
        log := L.log ++ [.ended chan (.err removal)] }
  | .report =>
      { L with
        calls := Function.update L.calls chan none
        log := L.log ++
          [.callReported chan (.removed write.name removal), .returned chan] }

def start (L : Ledger) (entry : Entry) (result : WriteResult)
    (waiting : Multiset Entry) : Ledger :=
  { L with
    waiting := waiting
    completing := some ⟨entry, result, .reporting⟩ }

def complete (L : Ledger) (entry : Entry) (result : WriteResult) :
    Stage → Ledger
  | .reporting =>
      { L with
        completing := some ⟨entry, result, .removing⟩
        log := L.log ++
          [.reported entry (QueueReport.ofResult entry.write.name result)] }
  | .removing =>
      { L with
        completing := some ⟨entry, result, .sending⟩
        pending := L.pending.filter fun p => decide (p.1 ≠ entry.seq)
        log := L.log ++ [.processed entry.seq] }
  | .sending =>
      { L with
        completing := some ⟨entry, result, .signalling⟩
        log := L.log ++ [.ended entry.chan result] }
  | .signalling => { L with completing := none }

end Ledger

inductive LedgerStep (L : Ledger) : Ledger → Prop where
  | keep : LedgerStep L L
  | note (obs : Obs) (hsilent : obs.Silent) : LedgerStep L (L.note obs)
  | register (obs : Obs) (entry : Entry) (calls : Chan → Option Unqueued)
      (hobs : obs.registered = some entry)
      (hseq : entry.seq = L.nextSeq) (hchan : entry.chan = L.nextChan)
      (hcalls : ∀ c, calls c = L.calls c ∨ c = L.nextChan ∧ calls c = none) :
      LedgerStep L (L.register obs entry calls)
  | unqueue (write : Write) (removal : Removal) :
      LedgerStep L (L.unqueue write removal)
  | call (chan : Chan) (write : Write) (removal : Removal) (stage : CallStage)
      (hcall : L.calls chan = some ⟨write, removal, stage⟩) :
      LedgerStep L (L.call chan write removal stage)
  | start (entry : Entry) (result : WriteResult) (waiting : Multiset Entry)
      (hfree : L.completing = none) (hwaiting : L.waiting = entry ::ₘ waiting) :
      LedgerStep L (L.start entry result waiting)
  | complete (entry : Entry) (result : WriteResult) (stage : Stage)
      (hc : L.completing = some ⟨entry, result, stage⟩) :
      LedgerStep L (L.complete entry result stage)

/-! ## The ledger of a state -/

/-- The entries that the drop of the task has collected. -/
def Point.rest : Point → List Entry
  | .dropping rest => rest
  | .draining rest => rest
  | _ => []

@[simp] theorem Point.rest_unpolled : Point.unpolled.rest = [] := rfl
@[simp] theorem Point.rest_looping : Point.looping.rest = [] := rfl
@[simp] theorem Point.rest_heading : Point.heading.rest = [] := rfl
@[simp] theorem Point.rest_selecting : Point.selecting.rest = [] := rfl
@[simp] theorem Point.rest_gone : Point.gone.rest = [] := rfl
@[simp] theorem Point.rest_dropping (rest : List Entry) :
    (Point.dropping rest).rest = rest := rfl
@[simp] theorem Point.rest_draining (rest : List Entry) :
    (Point.draining rest).rest = rest := rfl

def Call.unqueued? : Option Call → Option Unqueued
  | some (.unqueued write removal stage) => some ⟨write, removal, stage⟩
  | _ => none

namespace Sys

variable {s s' : Sys}

/-- The five places of an entry that is not being completed. -/
def waiting (s : Sys) : Multiset Entry :=
  (s.st.fifo : Multiset Entry) + (s.st.newHeld.map Held.entry : List Entry) +
    (s.task.held.map Prod.fst : List Entry) +
    (s.task.entry.toList : List Entry) + (s.task.point.rest : List Entry)

def ledger (s : Sys) : Ledger :=
  { waiting := s.waiting
    completing := s.task.completing
    calls := Call.unqueued? ∘ s.calls
    nextChan := s.nextChan
    nextSeq := s.st.nextSeq
    pending := s.st.pending.entries.map fun p => (p.1, p.2.name)
    log := s.log }

/-! ## The queue refines its ledger -/

theorem takeHeld_perm {seq : ℕ} {item : Entry × Option Write} :
    ∀ {held rest : List (Entry × Option Write)},
      takeHeld seq held = some (item, rest) → held.Perm (item :: rest)
  | [], _, h => by simp [takeHeld] at h
  | first :: more, rest, h => by
      unfold takeHeld at h
      split at h
      · cases h
        exact List.Perm.refl _
      · obtain ⟨⟨item', rest'⟩, hfound, heq⟩ := Option.map_eq_some_iff.mp h
        cases heq
        exact ((takeHeld_perm hfound).cons first).trans (.swap ..)

theorem takeHeld_entries {seq : ℕ} {marker : Entry} {follow : Option Write}
    {held rest : List (Entry × Option Write)}
    (h : takeHeld seq held = some ((marker, follow), rest)) :
    (held.map Prod.fst : Multiset Entry) = marker ::ₘ (rest.map Prod.fst) := by
  rw [Multiset.cons_coe, Multiset.coe_eq_coe]
  exact (takeHeld_perm h).map Prod.fst

theorem sortBySeq_perm (entries : List Entry) :
    (sortBySeq entries).Perm entries :=
  List.perm_insertionSort _ _

/-- A registration is the same in the ledger, wherever the entry went. -/
theorem ledger_register (s' : Sys) (obs : Obs) {entry : Entry} {write : Write}
    {now : ℕ} (hlt : ∀ k ∈ s.st.pending.keys, k < s.st.nextSeq)
    (hentry : entry = s.st.nextEntry write s.nextChan)
    (hst : ∃ fifo newHeld, s'.st =
      { s.st.register write now with fifo := fifo, newHeld := newHeld })
    (hwaiting : s'.waiting = entry ::ₘ s.waiting)
    (hc : s'.task.completing = s.task.completing)
    (hchan : s'.nextChan = s.nextChan + 1) (hlog : s'.log = s.log ++ [obs]) :
    s'.ledger = s.ledger.register obs entry (Call.unqueued? ∘ s'.calls) := by
  obtain ⟨fifo, newHeld, hst⟩ := hst
  simp only [ledger, Ledger.register, hwaiting, hc, hchan, hlog, hst, hentry,
    State.register, State.nextEntry, SortedMap.entries_insert_of_lt hlt,
    List.map_append, List.map_cons, List.map_nil]

theorem calls_update_none {chan : Chan} {c : Chan} {call : Option Call}
    (h : Call.unqueued? call = none) :
    (Call.unqueued? ∘ Function.update s.calls chan call) c =
        (Call.unqueued? ∘ s.calls) c ∨
      c = chan ∧ (Call.unqueued? ∘ Function.update s.calls chan call) c = none := by
  by_cases hc : c = chan
  · subst hc
    right
    simpa using h
  · left
    simp [Function.update_of_ne hc]

/-- One step of the queue is one step of its ledger. -/
theorem ledger_step (hlt : ∀ k ∈ s.st.pending.keys, k < s.st.nextSeq)
    (h : Step s s') : LedgerStep s.ledger s'.ledger := by
  cases h with
  | enqueue write now hopen =>
      have hwaiting : (s.enqueue write now).waiting =
          s.st.nextEntry write s.nextChan ::ₘ s.waiting := by
        simp only [waiting, enqueue, State.enqueue, State.register,
          ← Multiset.coe_add, ← Multiset.singleton_add, Multiset.coe_singleton]
        abel
      rw [ledger_register (s.enqueue write now) _ hlt rfl ⟨_, _, rfl⟩ hwaiting
        rfl rfl rfl]
      exact .register _ _ _ rfl rfl rfl fun c => calls_update_none rfl
  | hold write follow now hopen =>
      have hwaiting : (s.hold write follow now).waiting =
          s.st.nextEntry write s.nextChan ::ₘ s.waiting := by
        simp only [waiting, hold, State.hold, State.register, List.map_append,
          List.map_cons, List.map_nil,
          ← Multiset.coe_add, ← Multiset.singleton_add, Multiset.coe_singleton]
        abel
      rw [ledger_register (s.hold write follow now) _ hlt rfl ⟨_, _, rfl⟩
        hwaiting rfl rfl rfl]
      exact .register _ _ _ rfl rfl rfl fun c => calls_update_none rfl
  | unqueue write removal hwhy =>
      have heq : (s.unqueue write removal).ledger =
          s.ledger.unqueue write removal := by
        simp only [ledger, unqueue, waiting, Ledger.unqueue,
          Function.comp_update, Call.unqueued?]
      rw [heq]
      exact .unqueue write removal
  | callNotify chan hcall =>
      have heq : (s.callNotify chan).ledger = s.ledger.note (.returned chan) := by
        have hcalls : Function.update (Call.unqueued? ∘ s.calls) chan none =
            Call.unqueued? ∘ s.calls :=
          Function.update_eq_self_iff.mpr (by simp [hcall, Call.unqueued?])
        simp only [ledger, callNotify, waiting, Ledger.note,
          Function.comp_update, Call.unqueued?, hcalls]
      rw [heq]
      exact .note _ ⟨rfl, rfl, rfl, rfl, rfl⟩
  | callTable chan write removal hcall =>
      have heq : (s.callTable chan write removal).ledger =
          s.ledger.call chan write removal .table := by
        simp only [ledger, callTable, waiting, Ledger.call,
          Function.comp_update, Call.unqueued?, State.recordEnd_fifo,
          State.recordEnd_newHeld, State.recordEnd_pending,
          State.recordEnd_nextSeq]
      rw [heq]
      exact .call chan write removal .table
        (by simp [ledger, hcall, Call.unqueued?])
  | callAnswer chan write removal hcall =>
      have heq : (s.callAnswer chan write removal).ledger =
          s.ledger.call chan write removal .answer := by
        simp only [ledger, callAnswer, waiting, Ledger.call,
          Function.comp_update, Call.unqueued?]
      rw [heq]
      exact .call chan write removal .answer
        (by simp [ledger, hcall, Call.unqueued?])
  | callReport chan write removal hcall =>
      have heq : (s.callReport chan write removal).ledger =
          s.ledger.call chan write removal .report := by
        simp only [ledger, callReport, waiting, Ledger.call,
          Function.comp_update, Call.unqueued?]
      rw [heq]
      exact .call chan write removal .report
        (by simp [ledger, hcall, Call.unqueued?])
  | stopNow => exact .keep
  | stopCancel hstop => exact .keep
  | complete entry result stage hc =>
      have heq : (s.completeStep entry result stage).ledger =
          s.ledger.complete entry result stage := by
        cases stage <;> simp [ledger, completeStep, waiting, Ledger.complete,
          List.filter_map, Function.comp_def]
      rw [heq]
      exact .complete entry result stage hc
  | takeNewHeld hfree hpoint =>
      have heq : s.takeNewHeld.ledger = s.ledger := by
        have hrest : s.task.point.rest = [] := by
          rcases hpoint with h | h <;> rw [h] <;> rfl
        have hwaiting : s.takeNewHeld.waiting = s.waiting := by
          simp only [waiting, takeNewHeld, hrest, Point.rest_heading,
            List.map_append, List.map_map, ← Multiset.coe_add,
            Function.comp_def, List.map_nil, Multiset.coe_nil]
          abel
        simp only [ledger, hwaiting]
        rfl
      rw [heq]
      exact .keep
  | noHead hat =>
      have heq : (s.atPoint .selecting).ledger = s.ledger := by
        simp only [ledger, waiting, atPoint, hat.point, Point.rest]
      rw [heq]
      exact .keep
  | takeHead head rest hat hentry hopen hfifo hblocked =>
      have heq : (s.takeHead head { s.st with fifo := rest }).ledger =
          s.ledger := by
        have hwaiting :
            (s.takeHead head { s.st with fifo := rest }).waiting = s.waiting := by
          simp only [waiting, takeHead, hat.point, hentry, hfifo, Point.rest,
            Option.toList, ← Multiset.cons_coe, ← Multiset.singleton_add,
            Multiset.coe_nil]
          abel
        simp only [ledger, hwaiting]
        rfl
      rw [heq]
      exact .keep
  | skipHead head rest removal hat hentry hopen hfifo hblocked =>
      have hwaiting : s.waiting = head ::ₘ
          (s.skipHead head removal { s.st with fifo := rest }).waiting := by
        simp only [waiting, skipHead, hfifo, ← Multiset.cons_coe,
          ← Multiset.singleton_add]
        abel
      exact .start head (.err removal) _ hat.free hwaiting
  | send attempt hat hattempt hphase =>
      exact .note (.sent attempt.seq attempt.write) ⟨rfl, rfl, rfl, rfl, rfl⟩
  | retry attempt error hat hattempt hphase =>
      exact .note (.retrying attempt.seq (.retrying attempt.write.name error))
        ⟨rfl, rfl, rfl, rfl, rfl⟩
  | attemptDone attempt outcome result hat hattempt hphase hjudge =>
      cases hentry : s.task.entry with
      | none =>
          have heq : (s.attemptDone result).ledger = s.ledger := by
            simp only [ledger, waiting, attemptDone, hentry, hat.point, hat.free,
              Option.map_none, Point.rest_looping, Point.rest_selecting]
          rw [heq]
          exact .keep
      | some entry =>
          have heq : (s.attemptDone result).ledger =
              s.ledger.start entry result (s.attemptDone result).waiting := by
            simp only [ledger, Ledger.start, attemptDone, hentry, Option.map_some]
          have hwaiting : s.waiting = entry ::ₘ (s.attemptDone result).waiting := by
            simp only [waiting, attemptDone, hentry, hat.point, Option.toList,
              Point.rest_looping, Point.rest_selecting, Multiset.coe_nil,
              Multiset.coe_singleton, ← Multiset.singleton_add]
            abel
          rw [heq]
          exact .start entry result _ hat.free hwaiting
  | endHeld seq marker follow held removal hat htake hwhy =>
      have hwaiting : s.waiting = marker ::ₘ
          (s.endHeld held marker removal).waiting := by
        simp only [waiting, endHeld, takeHeld_entries htake, hat.point,
          Point.rest, ← Multiset.singleton_add]
        abel
      exact .start marker (.err removal) _ hat.free hwaiting
  | joinHeld seq marker follow held now hat hopen htake =>
      cases follow with
      | none =>
          have heq : (s.joinHeld held marker none now).ledger =
              s.ledger.note (.joined marker none) := by
            have hwaiting : (s.joinHeld held marker none now).waiting =
                s.waiting := by
              simp only [waiting, joinHeld, State.join, takeHeld_entries htake,
                hat.point, Point.rest_looping, Point.rest_selecting,
                ← Multiset.coe_add, Multiset.coe_singleton,
                ← Multiset.singleton_add]
              abel
            simp only [ledger, hwaiting]
            rfl
          rw [heq]
          exact .note _ ⟨rfl, rfl, rfl, rfl, rfl⟩
      | some write =>
          have hwaiting : (s.joinHeld held marker (some write) now).waiting =
              s.st.nextEntry write s.nextChan ::ₘ s.waiting := by
            simp only [waiting, joinHeld, State.join, State.register,
              takeHeld_entries htake, hat.point, Point.rest_looping,
              Point.rest_selecting, ← Multiset.coe_add, ← Multiset.cons_coe,
              ← Multiset.singleton_add, Multiset.coe_nil]
            abel
          rw [ledger_register (s.joinHeld held marker (some write) now) _ hlt rfl
            ⟨_, _, rfl⟩ hwaiting rfl rfl rfl]
          exact .register _ _ _ rfl rfl rfl fun c => Or.inl rfl
  | woken hat hwake =>
      have heq : ({ s with wake := false }.atPoint .looping).ledger = s.ledger := by
        simp only [ledger, waiting, atPoint, hat.point, Point.rest]
      rw [heq]
      exact .keep
  | dropTask hfree hpoint =>
      have heq : s.dropTask.ledger = s.ledger := by
        have hrest : s.task.point.rest = [] := by
          rcases hpoint with h | h <;> rw [h] <;> rfl
        have hwaiting : s.dropTask.waiting = s.waiting := by
          simp only [waiting, dropTask, hrest, Point.rest_dropping,
            ← Multiset.coe_add, List.map_nil, Option.toList, Multiset.coe_nil]
          abel
        simp only [ledger, hwaiting]
        rfl
      rw [heq]
      exact .keep
  | dropLocked rest hat =>
      have heq : (s.dropLocked rest).ledger = s.ledger.note .dropped := by
        have hsorted (entries : List Entry) :
            (sortBySeq entries : Multiset Entry) = entries :=
          Multiset.coe_eq_coe.mpr (sortBySeq_perm entries)
        have hwaiting : (s.dropLocked rest).waiting = s.waiting := by
          simp only [waiting, dropLocked, hat.point, Point.rest_dropping,
            Point.rest_draining, hsorted, ← Multiset.coe_add, List.map_nil,
            Multiset.coe_nil]
          abel
        simp only [ledger, hwaiting]
        rfl
      rw [heq]
      exact .note _ ⟨rfl, rfl, rfl, rfl, rfl⟩
  | dropEntry entry rest hat =>
      have hwaiting : s.waiting = entry ::ₘ
          ((s.startCompletion entry (.err .leftUnsent)).atPoint
            (.draining rest)).waiting := by
        simp only [waiting, startCompletion, atPoint, hat.point, Point.rest,
          ← Multiset.cons_coe, ← Multiset.singleton_add]
        abel
      exact .start entry (.err .leftUnsent) _ hat.free hwaiting
  | dropEnd hat =>
      have heq : (s.atPoint .gone).ledger = s.ledger := by
        simp only [ledger, waiting, atPoint, hat.point, Point.rest]
      rw [heq]
      exact .keep
  | drain => exact .keep
  | drainRead d seen hd =>
      exact .note (.drainCalled d) ⟨rfl, rfl, rfl, rfl, rfl⟩
  | drainPark d upto seen hd hwaits => exact .keep
  | drainPass d upto seen hd hwaits => exact .keep
  | drainWake d upto seen hd hseen => exact .keep
  | drainLeave d hd =>
      exact .note (.drainReturned d s.st.snapshot) ⟨rfl, rfl, rfl, rfl, rfl⟩
  | drainAbandon d => exact .keep

end Sys

end RunnerKit.Queue
