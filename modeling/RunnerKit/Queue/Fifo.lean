import RunnerKit.Lib.Collapse
import RunnerKit.Lib.Log
import RunnerKit.Queue.Joins

/-!
# First in, first out, one write in flight

The writes that joined are, in their order: those that have ended, at most one
that is being sent or completed, and the queue itself. So nothing is sent
before everything that joined ahead of it has ended.
-/

namespace RunnerKit.Queue

open RunnerKit.Jobs RunnerKit.Lib

def Obs.sentWrite : Obs → Option (ℕ × Write)
  | .sent seq write => some (seq, write)
  | _ => none

/-- The sends in their order, each with the number and the write it sent. -/
def sends (log : List Obs) : List (ℕ × Write) := log.filterMap Obs.sentWrite

@[simp] theorem sends_append (log more : List Obs) :
    sends (log ++ more) = sends log ++ sends more :=
  List.filterMap_append

@[simp] theorem sends_nil : sends [] = [] := rfl

@[simp] theorem sends_cons (obs : Obs) (log : List Obs) :
    sends (obs :: log) = obs.sentWrite.toList ++ sends log :=
  filterMap_cons_toList ..

/-- The sends with the repeats of one write collapsed, by their numbers. -/
def collapsed (log : List Obs) : List ℕ :=
  ((sends log).map Prod.fst).destutter (· ≠ ·)

/-- The `WriteEnd` of the entry has got its result. -/
def EndedIn (log : List Obs) (e : Entry) : Prop :=
  ∃ result, (e.chan, result) ∈ results log

theorem EndedIn.append {log more : List Obs} {e : Entry} (h : EndedIn log e) :
    EndedIn (log ++ more) e := by
  obtain ⟨result, hresult⟩ := h
  exact ⟨result, by simp [hresult]⟩

/-- A send comes after the end of every write that joined before it. -/
def SentInTurn (pre : List Obs) (obs : Obs) : Prop :=
  ∀ seq write, obs = .sent seq write →
    ∃ before e after, joins pre = before ++ e :: after ∧ e.seq = seq ∧
      e.write = write ∧ ∀ b ∈ before, EndedIn pre b

namespace Sys

/-- The write that has left the queue and has not ended: in flight, or being
completed after that. -/
inductive Current (s : Sys) : List Entry → Prop where
  | idle (hentry : s.task.entry = none) : Current s []
  | inFlight (e : Entry) (hentry : s.task.entry = some e) : Current s [e]
  | ending (k : Completion) (hentry : s.task.entry = none)
      (hk : s.task.completing = some k) (hstage : k.stage ≠ .signalling) :
      Current s [k.entry]

structure Line (s : Sys) (done cur : List Entry) : Prop where
  joins : joins s.log = done ++ cur ++ s.st.fifo
  current : s.Current cur
  ended : ∀ d ∈ done, EndedIn s.log d
  sent : (collapsed s.log).Sublist ((done ++ cur).map Entry.seq)
  /-- An attempt that was only made has sent nothing. -/
  created : ∀ a, s.task.attempt = some a → a.phase = .created →
    (collapsed s.log).Sublist (done.map Entry.seq)

structure FifoInv (s : Sys) : Prop where
  line : s.task.point.leaving = false → ∃ done cur, s.Line done cur
  sent : (collapsed s.log).Sublist ((joins s.log).map Entry.seq)
  /-- An attempt that has sent is the last that has. -/
  again : ∀ a, s.task.attempt = some a → a.phase ≠ .created →
    (sends s.log).getLast? = some (a.seq, a.write)
  turns : Always SentInTurn s.log

variable {s s' : Sys}

theorem fifoInv_init : init.FifoInv where
  line := fun _ => ⟨[], [], rfl, .idle rfl, by simp, by simp [collapsed, init],
    by simp [init]⟩
  sent := by simp [collapsed, init]
  again := by simp [init]
  turns := always_nil

theorem Line.sublist {done cur : List Entry} (h : s.Line done cur) :
    (collapsed s.log).Sublist ((Queue.joins s.log).map Entry.seq) := by
  rw [h.joins, List.map_append]
  exact h.sent.trans (List.sublist_append_left _ _)

theorem turns_append {log more : List Obs} (h : Always SentInTurn log)
    (hmore : ∀ obs ∈ more, obs.sentWrite = none) :
    Always SentInTurn (log ++ more) := by
  induction more using List.reverseRecOn with
  | nil => simpa using h
  | append_singleton more obs ih =>
      rw [← List.append_assoc, always_snoc]
      refine ⟨ih fun o ho => hmore o (List.mem_append_left _ ho), ?_⟩
      intro seq write hobs
      have hnone := hmore obs (by simp)
      rw [hobs] at hnone
      cases hnone

theorem sends_quiet {more : List Obs}
    (hmore : ∀ obs ∈ more, obs.sentWrite = none) : sends more = [] :=
  List.filterMap_eq_nil_iff.mpr hmore

theorem collapsed_quiet {log more : List Obs}
    (hmore : ∀ obs ∈ more, obs.sentWrite = none) :
    collapsed (log ++ more) = collapsed log := by
  unfold collapsed
  rw [sends_append, sends_quiet hmore, List.append_nil]

/-- A step that sends nothing and makes no attempt: what is left to show is
the line. -/
theorem FifoInv.of_line (h : s.FifoInv) {more : List Obs}
    (hlog : s'.log = s.log ++ more)
    (hmore : ∀ obs ∈ more, obs.sentWrite = none)
    (hattempt : ∀ a, s'.task.attempt = some a → s.task.attempt = some a)
    (hline : s'.task.point.leaving = false → ∃ done cur, s'.Line done cur) :
    s'.FifoInv where
  line := hline
  sent := by
    rw [hlog, collapsed_quiet hmore, joins_append, List.map_append]
    exact h.sent.trans (List.sublist_append_left _ _)
  again := by
    intro a ha hphase
    rw [hlog, sends_append, sends_quiet hmore, List.append_nil]
    exact h.again a (hattempt a ha) hphase
  turns := by
    rw [hlog]
    exact turns_append h.turns hmore

/-- The line after a step that keeps the attempt: the queue may grow by what
joins. -/
theorem Line.extend {done cur : List Entry} (h : s.Line done cur)
    {more : List Obs} (hlog : s'.log = s.log ++ more)
    (hmore : ∀ obs ∈ more, obs.sentWrite = none)
    (hattempt : s'.task.attempt = s.task.attempt)
    (hfifo : s'.st.fifo = s.st.fifo ++ Queue.joins more)
    (hcurrent : s'.Current cur) : s'.Line done cur where
  joins := by
    rw [hlog, joins_append, h.joins, hfifo, List.append_assoc]
  current := hcurrent
  ended := by
    intro d hd
    rw [hlog]
    exact (h.ended d hd).append
  sent := by
    rw [hlog, collapsed_quiet hmore]
    exact h.sent
  created := by
    intro a ha hphase
    rw [hlog, collapsed_quiet hmore]
    exact h.created a (hattempt ▸ ha) hphase

theorem Current.of_task {cur : List Entry} (h : s.Current cur)
    (htask : s'.task = s.task) : s'.Current cur := by
  cases h with
  | idle hentry => exact .idle (by rw [htask]; exact hentry)
  | inFlight e hentry => exact .inFlight e (by rw [htask]; exact hentry)
  | ending k hentry hk hstage =>
      exact .ending k (by rw [htask]; exact hentry) (by rw [htask]; exact hk) hstage

/-- With no completion under way only the entry decides. -/
theorem Current.of_free {cur : List Entry} (h : s.Current cur)
    (hfree : s.task.completing = none) (hentry : s'.task.entry = s.task.entry) :
    s'.Current cur := by
  cases h with
  | idle hnone => exact .idle (by rw [hentry]; exact hnone)
  | inFlight e he => exact .inFlight e (by rw [hentry]; exact he)
  | ending k hnone hk hstage =>
      rw [hfree] at hk
      cases hk

theorem Current.eq_nil {cur : List Entry} (h : s.Current cur)
    (hfree : s.task.completing = none) (hentry : s.task.entry = none) :
    cur = [] := by
  cases h with
  | idle _ => rfl
  | inFlight e he =>
      rw [hentry] at he
      cases he
  | ending k _ hk _ =>
      rw [hfree] at hk
      cases hk

theorem Current.eq_entry {cur : List Entry} (h : s.Current cur) {e : Entry}
    (hentry : s.task.entry = some e) : cur = [e] := by
  cases h with
  | idle hnone =>
      rw [hentry] at hnone
      cases hnone
  | inFlight e' he =>
      rw [hentry] at he
      cases he
      rfl
  | ending k hnone _ _ =>
      rw [hentry] at hnone
      cases hnone

/-- A step of a caller or of a drained call. -/
theorem FifoInv.frame (h : s.FifoInv) {more : List Obs}
    (hlog : s'.log = s.log ++ more)
    (hmore : ∀ obs ∈ more, obs.sentWrite = none) (htask : s'.task = s.task)
    (hfifo : s'.st.fifo = s.st.fifo ++ Queue.joins more) : s'.FifoInv := by
  refine h.of_line hlog hmore (by rw [htask]; exact fun a ha => ha) ?_
  intro hpoint
  rw [htask] at hpoint
  obtain ⟨done, cur, hline⟩ := h.line hpoint
  exact ⟨done, cur, hline.extend hlog hmore (by rw [htask]) hfifo
    (hline.current.of_task htask)⟩

/-- The task goes on with the entry and the attempt it has. -/
theorem FifoInv.move (h : s.FifoInv) {point : Point} (hat : s.At point)
    (hstay : point.leaving = false) {more : List Obs}
    (hlog : s'.log = s.log ++ more)
    (hmore : ∀ obs ∈ more, obs.sentWrite = none)
    (hentry : s'.task.entry = s.task.entry)
    (hattempt : s'.task.attempt = s.task.attempt)
    (hfifo : s'.st.fifo = s.st.fifo ++ Queue.joins more) : s'.FifoInv := by
  refine h.of_line hlog hmore (by rw [hattempt]; exact fun a ha => ha) ?_
  intro _
  obtain ⟨done, cur, hline⟩ := h.line (by rw [hat.point]; exact hstay)
  exact ⟨done, cur, hline.extend hlog hmore hattempt hfifo
    (hline.current.of_free hat.free hentry)⟩

/-- The drop of the task sends nothing. -/
theorem FifoInv.leave (h : s.FifoInv) {more : List Obs}
    (hlog : s'.log = s.log ++ more)
    (hmore : ∀ obs ∈ more, obs.sentWrite = none)
    (hattempt : ∀ a, s'.task.attempt = some a → s.task.attempt = some a)
    (hpoint : s'.task.point.leaving = true) : s'.FifoInv := by
  refine h.of_line hlog hmore hattempt ?_
  intro hstay
  rw [hpoint] at hstay
  cases hstay

theorem InFlight.attempt_none (h : s.InFlight) (hentry : s.task.entry = none) :
    s.task.attempt = none := by
  cases hattempt : s.task.attempt with
  | none => rfl
  | some a =>
      obtain ⟨e, he, -⟩ := h.attempt a hattempt
      rw [hentry] at he
      cases he

theorem FifoInv.takeHead (h : s.FifoInv) {head : Entry} {rest : List Entry}
    (hat : s.At .heading) (hentry : s.task.entry = none)
    (hfifo : s.st.fifo = head :: rest) :
    (s.takeHead head { s.st with fifo := rest }).FifoInv where
  line := by
    intro _
    obtain ⟨done, cur, hline⟩ := h.line (by rw [hat.point]; rfl)
    obtain rfl := hline.current.eq_nil hat.free hentry
    have hsent : (collapsed s.log).Sublist (done.map Entry.seq) := by
      simpa using hline.sent
    refine ⟨done, [head], ?_, .inFlight head rfl, hline.ended, ?_, ?_⟩
    · have hjoins := hline.joins
      rw [hfifo] at hjoins
      simpa [Sys.takeHead] using hjoins
    · rw [List.map_append]
      exact hsent.trans (List.sublist_append_left _ _)
    · exact fun _ _ _ => hsent
  sent := h.sent
  again := by
    intro a ha hphase
    cases ha
    exact absurd rfl hphase
  turns := h.turns

theorem FifoInv.skipHead (h : s.FifoInv) (hflight : s.InFlight) {head : Entry}
    {rest : List Entry} {removal : Removal} (hat : s.At .heading)
    (hentry : s.task.entry = none) (hfifo : s.st.fifo = head :: rest) :
    (s.skipHead head removal { s.st with fifo := rest }).FifoInv := by
  refine h.of_line (List.append_nil _).symm (by simp) (fun a ha => ha) ?_
  intro _
  obtain ⟨done, cur, hline⟩ := h.line (by rw [hat.point]; rfl)
  obtain rfl := hline.current.eq_nil hat.free hentry
  have hnone := hflight.attempt_none hentry
  refine ⟨done, [head], ?_, .ending ⟨head, .err removal, .reporting⟩ hentry rfl
    (by simp), hline.ended, ?_, ?_⟩
  · have hjoins := hline.joins
    rw [hfifo] at hjoins
    simpa [Sys.skipHead] using hjoins
  · have hsent := hline.sent
    rw [List.append_nil] at hsent
    rw [List.map_append]
    exact hsent.trans (List.sublist_append_left _ _)
  · intro a ha
    rw [show (s.skipHead head removal _).task.attempt = none from hnone] at ha
    cases ha

theorem collapsed_sent (log : List Obs) (seq : ℕ) (write : Write) :
    collapsed (log ++ [.sent seq write]) =
      if ((sends log).map Prod.fst).getLast? = some seq then collapsed log
      else collapsed log ++ [seq] := by
  have hsends : (sends (log ++ [.sent seq write])).map Prod.fst =
      (sends log).map Prod.fst ++ [seq] := by
    simp [Obs.sentWrite]
  unfold collapsed
  rw [hsends, destutter_ne_snoc]

/-- The first send of a write goes behind the writes that have ended; a resend
repeats the last one. -/
theorem FifoInv.send (h : s.FifoInv) (hflight : s.InFlight) {a : Attempt}
    (hat : s.At .selecting) (hattempt : s.task.attempt = some a) :
    (s.send a).FifoInv := by
  obtain ⟨e, hentry, hseq, hwrite⟩ := hflight.attempt a hattempt
  obtain ⟨done, cur, hline⟩ := h.line (by rw [hat.point]; rfl)
  obtain rfl := hline.current.eq_entry hentry
  have hjoins : joins s.log = done ++ e :: s.st.fifo := by
    simpa using hline.joins
  have hsame : joins (s.send a).log = joins s.log := by
    simp [Sys.send, observe, setPhase, Obs.joins]
  have hsent : (collapsed (s.send a).log).Sublist
      ((done ++ [e]).map Entry.seq) := by
    change (collapsed (s.log ++ [.sent a.seq a.write])).Sublist _
    rw [collapsed_sent]
    split_ifs with hlast
    · exact hline.sent
    · by_cases hphase : a.phase = .created
      · rw [List.map_append, List.map_singleton, hseq]
        exact (hline.created a hattempt hphase).append (List.Sublist.refl _)
      · have hagain := h.again a hattempt hphase
        exact absurd (by simp [hagain]) hlast
  refine ⟨fun _ => ⟨done, [e], ?_, .inFlight e hentry, ?_, hsent, ?_⟩, ?_, ?_, ?_⟩
  · rw [hsame]
    exact hline.joins
  · exact fun d hd => (hline.ended d hd).append
  · intro a' ha' hphase
    cases ha'
    cases hphase
  · rw [hsame, hjoins]
    have hsub : ((done ++ [e]).map Entry.seq).Sublist
        ((done ++ e :: s.st.fifo).map Entry.seq) := by
      simp
    exact hsent.trans hsub
  · intro a' ha' _
    cases ha'
    simp [Sys.send, observe, setPhase, Obs.sentWrite]
  · change Always SentInTurn (s.log ++ [.sent a.seq a.write])
    rw [always_snoc]
    refine ⟨h.turns, ?_⟩
    intro seq write hobs
    cases hobs
    exact ⟨done, e, s.st.fifo, hjoins, hseq, hwrite, hline.ended⟩

theorem FifoInv.retry (h : s.FifoInv) {a : Attempt} {error : Error}
    (hat : s.At .selecting) (hattempt : s.task.attempt = some a)
    (hphase : a.phase = .sending) : (s.retry a error).FifoInv := by
  have hquiet : collapsed (s.retry a error).log = collapsed s.log :=
    collapsed_quiet (by simp [Obs.sentWrite])
  have hjoins : joins (s.retry a error).log = joins s.log := by
    simp [Sys.retry, observe, setPhase, Obs.joins]
  refine ⟨?_, ?_, ?_, turns_append h.turns (by simp [Obs.sentWrite])⟩
  · intro _
    obtain ⟨done, cur, hline⟩ := h.line (by rw [hat.point]; rfl)
    refine ⟨done, cur, ?_, hline.current.of_free hat.free rfl, ?_, ?_, ?_⟩
    · rw [hjoins]
      exact hline.joins
    · exact fun d hd => (hline.ended d hd).append
    · rw [hquiet]
      exact hline.sent
    · intro a' ha' hcreated
      cases ha'
      cases hcreated
  · rw [hquiet, hjoins]
    exact h.sent
  · intro a' ha' _
    cases ha'
    have hagain := h.again a hattempt (by rw [hphase]; simp)
    simpa [Sys.retry, observe, setPhase, Obs.sentWrite] using hagain

theorem FifoInv.attemptDone (h : s.FifoInv) (hflight : s.InFlight) {a : Attempt}
    {result : WriteResult} (hat : s.At .selecting)
    (hattempt : s.task.attempt = some a) : (s.attemptDone result).FifoInv := by
  obtain ⟨e, hentry, -⟩ := hflight.attempt a hattempt
  refine h.of_line (List.append_nil _).symm (by simp) (by simp [Sys.attemptDone]) ?_
  intro _
  obtain ⟨done, cur, hline⟩ := h.line (by rw [hat.point]; rfl)
  obtain rfl := hline.current.eq_entry hentry
  refine ⟨done, [e], hline.joins, ?_, hline.ended, hline.sent, ?_⟩
  · exact .ending ⟨e, result, .reporting⟩ rfl
      (by simp [Sys.attemptDone, hentry]) (by simp)
  · intro a' ha'
    cases ha'

/-- A part of a completion before the answer, or one that is not of a write
from the queue. -/
theorem Current.complete {cur : List Entry} (h : s.Current cur) {entry : Entry}
    {result : WriteResult} {stage : Stage}
    (hc : s.task.completing = some ⟨entry, result, stage⟩)
    (hstage : stage = .sending → ∃ e, s.task.entry = some e) :
    (s.completeStep entry result stage).Current cur := by
  cases h with
  | idle hentry =>
      cases stage <;> exact .idle hentry
  | inFlight e hentry =>
      cases stage <;> exact .inFlight e hentry
  | ending k hentry hk hnot =>
      rw [hc] at hk
      cases hk
      cases stage with
      | reporting => exact .ending ⟨entry, result, .removing⟩ hentry rfl (by simp)
      | removing => exact .ending ⟨entry, result, .sending⟩ hentry rfl (by simp)
      | sending =>
          obtain ⟨e, he⟩ := hstage rfl
          rw [hentry] at he
          cases he
      | signalling => exact absurd rfl hnot

theorem completeStep_sends (s : Sys) (entry : Entry) (result : WriteResult)
    (stage : Stage) :
    ∃ more, (s.completeStep entry result stage).log = s.log ++ more ∧
      joins more = [] ∧ ∀ obs ∈ more, obs.sentWrite = none := by
  cases stage with
  | signalling => exact ⟨[], by simp [completeStep], rfl, by simp⟩
  | _ => exact ⟨_, rfl, by simp [Obs.joins], by simp [Obs.sentWrite]⟩

theorem FifoInv.complete (h : s.FifoInv) (hflight : s.InFlight) {entry : Entry}
    {result : WriteResult} {stage : Stage}
    (hc : s.task.completing = some ⟨entry, result, stage⟩) :
    (s.completeStep entry result stage).FifoInv := by
  obtain ⟨more, hlog, hjoins, hmore⟩ := completeStep_sends s entry result stage
  have hattempt : (s.completeStep entry result stage).task.attempt =
      s.task.attempt := by
    cases stage <;> rfl
  have hfifo : (s.completeStep entry result stage).st.fifo =
      s.st.fifo ++ joins more := by
    rw [hjoins, List.append_nil]
    cases stage <;> simp [completeStep]
  refine h.of_line hlog hmore (by rw [hattempt]; exact fun a ha => ha) ?_
  intro hpoint
  rw [completeStep_point] at hpoint
  obtain ⟨done, cur, hline⟩ := h.line hpoint
  by_cases hsending : stage = .sending ∧ s.task.entry = none
  · obtain ⟨rfl, hentry⟩ := hsending
    have hnone := hflight.attempt_none hentry
    cases hcur : hline.current with
    | idle _ =>
        exact ⟨done, [], hline.extend hlog hmore hattempt hfifo (.idle hentry)⟩
    | inFlight e he =>
        rw [hentry] at he
        cases he
    | ending k _ hk _ =>
        -- its answer is sent: from now on it counts as ended
        rw [hc] at hk
        cases hk
        refine ⟨done ++ [entry], [], ?_, .idle hentry, ?_, ?_, ?_⟩
        · have hline' := hline.joins
          simpa [completeStep, Obs.joins] using hline'
        · intro d hd
          rcases List.mem_append.mp hd with hd | hd
          · exact (hline.ended d hd).append
          · cases List.mem_singleton.mp hd
            exact ⟨result, by simp [completeStep, Obs.result]⟩
        · rw [hlog, collapsed_quiet hmore]
          simpa using hline.sent
        · intro a ha
          rw [hattempt, hnone] at ha
          cases ha
  · refine ⟨done, cur, hline.extend hlog hmore hattempt hfifo ?_⟩
    refine hline.current.complete hc fun hs => ?_
    cases hentry : s.task.entry with
    | none => exact absurd ⟨hs, hentry⟩ hsending
    | some e => exact ⟨e, rfl⟩

theorem FifoInv.step (h : s.FifoInv) (hflight : s.InFlight) (hs : Step s s') :
    s'.FifoInv := by
  have hnone : s.log = s.log ++ [] := (List.append_nil _).symm
  have hfifo : s.st.fifo = s.st.fifo ++ joins [] := (List.append_nil _).symm
  cases hs with
  | enqueue write now hopen => exact h.frame rfl (by simp [Obs.sentWrite]) rfl rfl
  | hold write follow now hopen =>
      exact h.frame rfl (by simp [Obs.sentWrite]) rfl hfifo
  | unqueue write removal hwhy =>
      exact h.frame rfl (by simp [Obs.sentWrite]) rfl hfifo
  | callNotify chan hcall =>
      exact h.frame rfl (by simp [Obs.sentWrite]) rfl hfifo
  | callTable chan write removal hcall =>
      exact h.frame hnone (by simp) rfl (by simp [callTable])
  | callAnswer chan write removal hcall =>
      exact h.frame rfl (by simp [Obs.sentWrite]) rfl hfifo
  | callReport chan write removal hcall =>
      exact h.frame rfl (by simp [Obs.sentWrite]) rfl hfifo
  | stopNow => exact h.frame hnone (by simp) rfl hfifo
  | stopCancel hstop => exact h.frame hnone (by simp) rfl hfifo
  | complete entry result stage hc => exact h.complete hflight hc
  | takeNewHeld hfree hpoint =>
      have hstay : s.task.point.leaving = false := by
        rcases hpoint with hp | hp <;> rw [hp] <;> rfl
      exact h.move ⟨hfree, rfl⟩ hstay hnone (by simp) rfl rfl hfifo
  | noHead hat => exact h.move hat rfl hnone (by simp) rfl rfl hfifo
  | takeHead head rest hat hentry hopen hhead hblocked =>
      exact h.takeHead hat hentry hhead
  | skipHead head rest removal hat hentry hopen hhead hblocked =>
      exact h.skipHead hflight hat hentry hhead
  | send attempt hat hattempt hphase => exact h.send hflight hat hattempt
  | retry attempt error hat hattempt hphase => exact h.retry hat hattempt hphase
  | attemptDone attempt outcome result hat hattempt hphase hjudge =>
      exact h.attemptDone hflight hat hattempt
  | endHeld seq marker follow held removal hat htake hwhy =>
      exact h.move hat rfl hnone (by simp) rfl rfl hfifo
  | joinHeld seq marker follow held now hat hopen htake =>
      refine h.move hat rfl rfl (by simp [Obs.sentWrite]) rfl rfl ?_
      cases follow <;> simp [joinHeld, State.join, Obs.joins]
  | woken hat hwake => exact h.move hat rfl hnone (by simp) rfl rfl hfifo
  | dropTask hfree hpoint =>
      exact h.leave hnone (by simp) (by simp [dropTask]) rfl
  | dropLocked rest hat =>
      exact h.leave rfl (by simp [Obs.sentWrite]) (fun a ha => ha) rfl
  | dropEntry entry rest hat => exact h.leave hnone (by simp) (fun a ha => ha) rfl
  | dropEnd hat => exact h.leave hnone (by simp) (fun a ha => ha) rfl
  | drain => exact h.frame hnone (by simp) rfl hfifo
  | drainRead d seen hd => exact h.frame rfl (by simp [Obs.sentWrite]) rfl hfifo
  | drainPark d upto seen hd hwaits => exact h.frame hnone (by simp) rfl hfifo
  | drainPass d upto seen hd hwaits => exact h.frame hnone (by simp) rfl hfifo
  | drainWake d upto seen hd hseen => exact h.frame hnone (by simp) rfl hfifo
  | drainLeave d hd => exact h.frame rfl (by simp [Obs.sentWrite]) rfl hfifo
  | drainAbandon d => exact h.frame hnone (by simp) rfl hfifo

theorem fifoInv (h : machine.Reachable s) : s.FifoInv := by
  refine Machine.Reach.invariant (P := FifoInv) fifoInv_init ?_ h
  intro s s' e hreach hp _ hs
  exact hp.step (inFlight hreach) (step_cases hs)

end Sys

/-! ## The order of a run -/

/-- First in, first out, with one write in flight. -/
structure InOrder (s : Sys) : Prop where
  /-- The one running attempt sends the write in flight. -/
  one_attempt : ∀ a, s.task.attempt = some a →
    ∃ e, s.task.entry = some e ∧ e.seq = a.seq ∧ e.write = a.write
  in_turn : Always SentInTurn s.log
  /-- With the resends collapsed the sends keep the order of joining. -/
  order : (collapsed s.log).Sublist ((joins s.log).map Entry.seq)
  /-- The sends of one write are contiguous. -/
  contiguous : (collapsed s.log).Nodup
  same_write : ∀ seq write, (seq, write) ∈ sends s.log →
    ∃ e ∈ joins s.log, e.seq = seq ∧ e.write = write
  join_once : ((joins s.log).map Entry.seq).Nodup
  /-- An ordinary write joins where it is handed over, a held marker where its gate ends
  `Stored` in a queue that is not stopped, right behind its follow-up, and nothing else
  joins. -/
  joining : ∀ e s', s.step e = some s' →
    (joins s'.log).map Sys.named = (joins s.log).map Sys.named ++ s.joinsAt e
  enqueued_joins : ∀ e, .enqueued e ∈ s.log → e ∈ joins s.log
  /-- A held marker joins with its follow-up directly before it. -/
  held_joins : ∀ marker follow, .held marker follow ∈ s.log →
    marker ∈ joins s.log →
      ∃ before ahead after, joins s.log = before ++ (ahead ++ [marker]) ++ after ∧
        ahead.map Entry.write = follow.toList

/-- An entry is registered by one observation only. -/
theorem registered_once {log : List Obs} (hnodup : (registered log).Nodup)
    {o o' : Obs} {e : Entry} (ho : o ∈ log) (ho' : o' ∈ log)
    (he : o.registered = some e) (he' : o'.registered = some e) : o = o' := by
  induction log with
  | nil => cases ho
  | cons obs rest ih =>
      rw [registered_cons] at hnodup
      have hrest := (List.nodup_append.mp hnodup).2.1
      have hnot : obs.registered = some e → ∀ x ∈ rest, x.registered ≠ some e := by
        intro hobs x hx hxe
        have hmem : e ∈ registered rest := List.mem_filterMap.mpr ⟨x, hx, hxe⟩
        rw [hobs] at hnodup
        exact (List.nodup_cons.mp hnodup).1 hmem
      rcases List.mem_cons.mp ho with rfl | hin <;>
        rcases List.mem_cons.mp ho' with rfl | hin'
      · rfl
      · exact absurd he' (hnot he o' hin')
      · exact absurd he (hnot he' o hin)
      · exact ih hrest hin hin'

namespace Sys

variable {s : Sys}

theorem registered_nodup (hgood : s.ledger.Good) : (registered s.log).Nodup := by
  have hseqs : (registered s.log).map Entry.seq = List.range s.st.nextSeq :=
    hgood.registered_seqs
  refine List.Nodup.of_map Entry.seq ?_
  rw [hseqs]
  exact List.nodup_range

theorem held_joins (hgood : s.ledger.Good) (hjoin : s.JoinInv) {marker : Entry}
    {follow : Option Write} (hheld : .held marker follow ∈ s.log)
    (hmem : marker ∈ joins s.log) :
    ∃ before ahead after, joins s.log = before ++ (ahead ++ [marker]) ++ after ∧
      ahead.map Entry.write = follow.toList := by
  have hnodup := registered_nodup hgood
  obtain ⟨obs, hobs, hin⟩ := List.mem_flatMap.mp hmem
  -- no other observation registers the marker, so it joined as a marker
  have honly : obs.registered = some marker → False := by
    intro hreg
    have heq := registered_once hnodup hheld hobs rfl hreg
    rw [← heq] at hin
    cases hin
  cases obs with
  | enqueued e =>
      cases List.mem_singleton.mp hin
      exact absurd rfl honly
  | joined m f =>
      rcases List.mem_append.mp hin with hin | hin
      · exact absurd (Option.mem_toList.mp hin) honly
      · cases List.mem_singleton.mp hin
        have heq := registered_once hnodup hheld (hjoin.joined marker f hobs) rfl rfl
        cases heq
        obtain ⟨before, after, hjoins⟩ := joins_of_mem hobs
        exact ⟨before, f.toList, after, hjoins, by cases f <;> rfl⟩
  | _ => cases hin

/-- What was sent had joined. -/
theorem joined_of_sent (hfifo : s.FifoInv) {seq : ℕ} {write : Write}
    (hsent : (seq, write) ∈ sends s.log) :
    ∃ e ∈ joins s.log, e.seq = seq ∧ e.write = write := by
  obtain ⟨obs, hobs, heq⟩ := List.mem_filterMap.mp hsent
  obtain ⟨pre, post, hlog⟩ := List.append_of_mem hobs
  have hsentObs : obs = .sent seq write := by
    cases obs <;> cases heq
    rfl
  obtain ⟨before, e, after, hjoins, hseq, hwrite, -⟩ :=
    hfifo.turns pre obs post hlog seq write hsentObs
  refine ⟨e, ?_, hseq, hwrite⟩
  rw [hlog, joins_append, hjoins]
  simp

theorem in_order (h : machine.Reachable s) : InOrder s := by
  have hgood := good h
  have hjoin := joinInv h
  have hfifo := fifoInv h
  refine ⟨(inFlight h).attempt, hfifo.turns, hfifo.sent, ?_, ?_, joins_nodup hjoin,
    fun _ _ => step_joins, ?_, fun marker follow => held_joins hgood hjoin⟩
  · exact hfifo.sent.nodup (joins_nodup hjoin)
  · exact fun seq write hsent => joined_of_sent hfifo hsent
  · intro e he
    exact List.mem_flatMap.mpr ⟨_, he, List.mem_singleton.mpr rfl⟩

/-- The started fact is sent twice; the marker that was held meanwhile joins
behind its finish, and the finish is sent next. -/
def resentRun : List Event :=
  [.enqueue (.started 1 2) 0, .call 0, .hold (.marker 1 3 4 5)
    (some (.finish 1 3 6)) 1, .call 1, .task .takeNewHeld, .task .nextHead,
    .task .send, .task (.attemptEnded .timedOut),
    .task (.gateEnded 1 .stored 2), .task .takeNewHeld, .task .nextHead,
    .task .send, .task (.attemptEnded .ok), .complete, .complete, .complete,
    .complete, .task .takeNewHeld, .task .nextHead, .task .send]

theorem in_order_resentRun :
    ∃ s, machine.run resentRun = some s ∧ InOrder s ∧
      (sends s.log).map Prod.fst = [0, 0, 2] ∧
      (joins s.log).map Entry.seq = [0, 2, 1] :=
  ⟨_, rfl, in_order (Machine.reachable_of_run resentRun rfl), rfl, rfl⟩

end Sys

end RunnerKit.Queue
