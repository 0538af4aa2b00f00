import RunnerKit.Queue.Drained

/-!
# When a drained call returns

A call returns once everything registered before it is processed, it waits for
nothing else, and the signal that lets it look again is never missed. A
follow-up that joined for a marker from before the call has ended too, since
it joined directly before its marker.

The drop of the task does not keep to that order: it ends what is left by
sequence number, and a follow-up has a later one than its marker.
-/

namespace RunnerKit.Queue

open RunnerKit.Jobs RunnerKit.Lib

/-! ## Hand-overs that queue nothing -/

namespace Sys

/-- A hand-over that queues nothing answers its `WriteEnd` before it
returns. -/
structure UnqueuedInv (s : Sys) : Prop where
  fresh : ∀ c, s.nextChan ≤ c → s.calls c = none
  answered : ∀ c write removal, .unqueued c write removal ∈ s.log →
    (c, .err removal) ∈ results s.log ∨
      ∃ stage, stage ≠ .report ∧ s.calls c = some (.unqueued write removal stage)
  returned : ∀ c, .returned c ∈ s.log → c < s.nextChan ∧ s.calls c = none

variable {s s' : Sys}

theorem unqueuedInv_init : init.UnqueuedInv where
  fresh := fun _ _ => rfl
  answered := by simp [init]
  returned := by simp [init]

/-- A step that touches no hand-over. -/
theorem UnqueuedInv.frame (h : s.UnqueuedInv) {more : List Obs}
    (hlog : s'.log = s.log ++ more) (hcalls : s'.calls = s.calls)
    (hnext : s.nextChan ≤ s'.nextChan)
    (hunqueued : ∀ c write removal, .unqueued c write removal ∉ more)
    (hreturned : ∀ c, .returned c ∉ more) : s'.UnqueuedInv where
  fresh := by
    intro c hc
    rw [hcalls]
    exact h.fresh c (hnext.trans hc)
  answered := by
    intro c write removal hmem
    rw [hlog] at hmem
    rcases List.mem_append.mp hmem with hmem | hmem
    · rw [hlog, hcalls, results_append]
      rcases h.answered c write removal hmem with hr | hstage
      · exact Or.inl (List.mem_append_left _ hr)
      · exact Or.inr hstage
    · exact absurd hmem (hunqueued c write removal)
  returned := by
    intro c hmem
    rw [hlog] at hmem
    rcases List.mem_append.mp hmem with hmem | hmem
    · obtain ⟨hlt, hnone⟩ := h.returned c hmem
      exact ⟨lt_of_lt_of_le hlt hnext, by rw [hcalls]; exact hnone⟩
    · exact absurd hmem (hreturned c)

/-- A new hand-over. -/
theorem UnqueuedInv.handOver (h : s.UnqueuedInv) {obs : Obs} {call : Call}
    (hlog : s'.log = s.log ++ [obs])
    (hcalls : s'.calls = Function.update s.calls s.nextChan (some call))
    (hnext : s'.nextChan = s.nextChan + 1)
    (hlt : ∀ c write removal, .unqueued c write removal ∈ s.log → c < s.nextChan)
    (hobs : ∀ c write removal, obs = .unqueued c write removal →
      c = s.nextChan ∧ call = .unqueued write removal .table)
    (hreturned : ∀ c, obs ≠ .returned c) : s'.UnqueuedInv where
  fresh := by
    intro c hc
    rw [hnext] at hc
    have hlt : s.nextChan < c := hc
    rw [hcalls, Function.update_of_ne hlt.ne']
    exact h.fresh c hlt.le
  answered := by
    intro c write removal hmem
    rw [hlog] at hmem
    rcases List.mem_append.mp hmem with hmem | hmem
    · have hne : c ≠ s.nextChan := (hlt c write removal hmem).ne
      rw [hlog, hcalls, results_append, Function.update_of_ne hne]
      rcases h.answered c write removal hmem with hr | hstage
      · exact Or.inl (List.mem_append_left _ hr)
      · exact Or.inr hstage
    · obtain ⟨rfl, rfl⟩ := hobs c write removal (List.mem_singleton.mp hmem).symm
      refine Or.inr ⟨.table, by simp, ?_⟩
      rw [hcalls, Function.update_self]
  returned := by
    intro c hmem
    rw [hlog] at hmem
    rcases List.mem_append.mp hmem with hmem | hmem
    · obtain ⟨hc, hnone⟩ := h.returned c hmem
      refine ⟨by rw [hnext]; exact Nat.lt_succ_of_lt hc, ?_⟩
      rw [hcalls, Function.update_of_ne hc.ne]
      exact hnone
    · exact absurd (List.mem_singleton.mp hmem).symm (hreturned c)

/-- The next part of a hand-over `chan`. -/
theorem UnqueuedInv.call (h : s.UnqueuedInv) {chan : Chan} {call : Call}
    {next : Option Call} {more : List Obs} (hcall : s.calls chan = some call)
    (hlog : s'.log = s.log ++ more)
    (hcalls : s'.calls = Function.update s.calls chan next)
    (hnext : s'.nextChan = s.nextChan)
    (hunqueued : ∀ c write removal, .unqueued c write removal ∉ more)
    (hreturned : ∀ c, .returned c ∈ more → c = chan ∧ next = none)
    (hgoes : ∀ write removal stage, stage ≠ .report →
      call = .unqueued write removal stage →
        (chan, .err removal) ∈ results more ∨
          ∃ stage', stage' ≠ .report ∧ next = some (.unqueued write removal stage')) :
    s'.UnqueuedInv where
  fresh := by
    intro c hc
    rw [hnext] at hc
    have hne : c ≠ chan := by
      rintro rfl
      rw [h.fresh c hc] at hcall
      cases hcall
    rw [hcalls, Function.update_of_ne hne]
    exact h.fresh c hc
  answered := by
    intro c write removal hmem
    rw [hlog] at hmem
    rcases List.mem_append.mp hmem with hmem | hmem
    · rw [hlog, hcalls, results_append]
      rcases h.answered c write removal hmem with hr | ⟨stage, hstage, hc⟩
      · exact Or.inl (List.mem_append_left _ hr)
      · by_cases hne : c = chan
        · subst hne
          rw [hcall] at hc
          rcases hgoes write removal stage hstage (Option.some.inj hc) with hr | hs
          · exact Or.inl (List.mem_append_right _ hr)
          · rw [Function.update_self]
            exact Or.inr hs
        · rw [Function.update_of_ne hne]
          exact Or.inr ⟨stage, hstage, hc⟩
    · exact absurd hmem (hunqueued c write removal)
  returned := by
    intro c hmem
    rw [hlog] at hmem
    rw [hnext, hcalls]
    rcases List.mem_append.mp hmem with hmem | hmem
    · obtain ⟨hlt, hnone⟩ := h.returned c hmem
      have hne : c ≠ chan := by
        rintro rfl
        rw [hnone] at hcall
        cases hcall
      refine ⟨hlt, ?_⟩
      rw [Function.update_of_ne hne]
      exact hnone
    · obtain ⟨rfl, rfl⟩ := hreturned c hmem
      refine ⟨?_, Function.update_self ..⟩
      by_contra hge
      rw [h.fresh c (not_lt.mp hge)] at hcall
      cases hcall

theorem unqueued_lt (hgood : s.ledger.Good) {c : Chan} {write : Write}
    {removal : Removal} (h : .unqueued c write removal ∈ s.log) :
    c < s.nextChan := by
  have hhanded : (c, write) ∈ handed s.log :=
    List.mem_filterMap.mpr ⟨_, h, rfl⟩
  exact handed_lt hgood hhanded

theorem UnqueuedInv.step (h : s.UnqueuedInv) (hgood : s.ledger.Good)
    (hs : Step s s') : s'.UnqueuedInv := by
  have hnone : s.log = s.log ++ [] := (List.append_nil _).symm
  have hlt : ∀ c write removal, .unqueued c write removal ∈ s.log → c < s.nextChan :=
    fun c write removal hmem => unqueued_lt hgood hmem
  cases hs with
  | enqueue write now hopen =>
      exact h.handOver rfl rfl rfl hlt (by simp) (by simp)
  | hold write follow now hopen =>
      exact h.handOver rfl rfl rfl hlt (by simp) (by simp)
  | unqueue write removal hwhy =>
      refine h.handOver rfl rfl rfl hlt ?_ (by simp)
      rintro c w r hobs
      cases hobs
      exact ⟨rfl, rfl⟩
  | callNotify chan hcall =>
      exact h.call hcall rfl rfl rfl (by simp) (by simp) (by simp)
  | callTable chan write removal hcall =>
      refine h.call hcall hnone rfl rfl (by simp) (by simp) ?_
      rintro w r stage - hc
      cases hc
      exact Or.inr ⟨.answer, by simp, rfl⟩
  | callAnswer chan write removal hcall =>
      refine h.call hcall rfl rfl rfl (by simp) (by simp) ?_
      rintro w r stage - hc
      cases hc
      exact Or.inl (by simp [Obs.result])
  | callReport chan write removal hcall =>
      refine h.call hcall rfl rfl rfl (by simp) (by simp) ?_
      rintro w r stage hstage hc
      cases hc
      exact absurd rfl hstage
  | stopNow => exact h.frame hnone rfl le_rfl (by simp) (by simp)
  | stopCancel hstop => exact h.frame hnone rfl le_rfl (by simp) (by simp)
  | complete entry result stage hc =>
      cases stage with
      | signalling => exact h.frame hnone rfl le_rfl (by simp) (by simp)
      | _ => exact h.frame rfl rfl le_rfl (by simp) (by simp)
  | send attempt hat hattempt hphase =>
      exact h.frame rfl rfl le_rfl (by simp) (by simp)
  | retry attempt error hat hattempt hphase =>
      exact h.frame rfl rfl le_rfl (by simp) (by simp)
  | joinHeld seq marker follow held now hat hopen htake =>
      refine h.frame rfl rfl ?_ (by simp) (by simp)
      cases follow with
      | none => exact le_rfl
      | some write => exact Nat.le_succ _
  | dropLocked rest hat => exact h.frame rfl rfl le_rfl (by simp) (by simp)
  | drainRead d seen hd => exact h.frame rfl rfl le_rfl (by simp) (by simp)
  | drainLeave d hd => exact h.frame rfl rfl le_rfl (by simp) (by simp)
  | _ => exact h.frame hnone rfl le_rfl (by simp) (by simp)

theorem unqueuedInv (h : machine.Reachable s) : s.UnqueuedInv := by
  refine Machine.Reach.invariant (P := UnqueuedInv) unqueuedInv_init ?_ h
  intro s s' e hr hp _ hs
  exact hp.step (good hr) (step_cases hs)

/-! ## Behind a processed marker -/

theorem not_processed_of_waiting (hgood : s.ledger.Good) {e : Entry}
    (he : e ∈ s.waiting) : e.seq ∉ processed s.log := by
  refine hgood.removals.not_mem_of_owed ?_
  have hpos : 0 < (s.waiting.map Entry.seq).count e.seq :=
    Multiset.count_pos.mpr (Multiset.mem_map_of_mem _ he)
  exact lt_of_lt_of_le hpos (Nat.le_add_right _ _)

/-- All that joined before a processed write has ended. -/
theorem Line.ended_before {done cur : List Entry} (hline : s.Line done cur)
    (hgood : s.ledger.Good) (hjoin : s.JoinInv) {before after : List Entry}
    {m : Entry} (hjoins : Queue.joins s.log = before ++ m :: after)
    (hproc : m.seq ∈ processed s.log) : ∀ b ∈ before, EndedIn s.log b := by
  have hnodup : (Queue.joins s.log).Nodup := (joins_nodup hjoin).of_map _
  have hsplit := hline.joins
  have hmem : m ∈ done ++ cur ++ s.st.fifo := by
    rw [← hsplit, hjoins]
    simp
  -- what stands before the marker in the line stands before it in the joins
  have hcut : ∀ d rest, Queue.joins s.log = d ++ m :: rest → before = d := by
    intro d rest hd
    rw [hjoins, List.nodup_append] at hnodup
    obtain ⟨-, hafter, hdisjoint⟩ := hnodup
    have hbefore : m ∉ before := fun hin => hdisjoint m hin m List.mem_cons_self rfl
    have heq : before ++ m :: after = d ++ m :: rest := by rw [← hjoins, hd]
    exact ((List.append_cons_inj_of_notMem hbefore
      (List.nodup_cons.mp hafter).1).mp heq).1
  have hwait : m ∈ s.waiting → False :=
    fun hin => not_processed_of_waiting hgood hin hproc
  rcases List.mem_append.mp hmem with hin | hin
  · rcases List.mem_append.mp hin with hin | hin
    · obtain ⟨d1, d2, rfl⟩ := List.append_of_mem hin
      obtain rfl := hcut d1 (d2 ++ cur ++ s.st.fifo) (by rw [hsplit]; simp)
      exact fun b hb => hline.ended b (List.mem_append_left _ hb)
    · have hcur : cur = [m] := by
        cases hline.current with
        | idle _ => cases hin
        | inFlight e he => rw [List.mem_singleton.mp hin]
        | ending k _ _ _ => rw [List.mem_singleton.mp hin]
      subst hcur
      obtain rfl := hcut done s.st.fifo (by rw [hsplit]; simp)
      exact hline.ended
  · exact absurd (by simp [waiting, hin]) hwait

end Sys

/-! ## Drained -/

/-- What the drained calls wait for; `leaving` is the place right before the
return. `beforeCall` is the log up to the call. -/
structure DrainWaits (s : Sys) : Prop where
  /-- What was registered before the call is processed: it is reported and,
  but for the last part of a completion, answered. -/
  returns : ∀ d, s.drains d = some .leaving →
    ∃ pre, beforeCall d s.log = some pre ∧
      ∀ e ∈ registered pre, e.seq ∈ processed s.log ∧
        ∃ result, (e.chan, e.write.name, result) ∈ reports s.log ∧
          ((e.chan, result) ∈ results s.log ∨
            s.task.completing = some ⟨e, result, .sending⟩)
  /-- A hand-over that queued nothing has ended before it returned. -/
  unqueued : ∀ c write removal, .unqueued c write removal ∈ s.log →
    .returned c ∈ s.log → (c, .err removal) ∈ results s.log
  /-- The follow-up of a marker from before the call has ended, whenever it
  was registered. -/
  follow_ups : ∀ d, s.drains d = some .leaving → s.task.point.leaving = false →
    ∀ pre, beforeCall d s.log = some pre →
      ∀ marker follow, .joined marker (some follow) ∈ s.log →
        marker ∈ registered pre → EndedIn s.log follow
  /-- It goes on to wait for the writes from before the call only. -/
  waits_only : ∀ d upto seen, s.drains d = some (.checking upto seen) →
    ∃ pre, beforeCall d s.log = some pre ∧
      (s.st.waitsBelow upto = true ↔ ∃ e ∈ registered pre, e.seq ∉ processed s.log)
  /-- With nothing left below its target a parked call can look again, at the
  latest after the rest of the completion under way. -/
  no_missed : ∀ d upto seen, s.drains d = some (.parked upto seen) →
    (∀ e ∈ registered s.log, e.seq < upto → e.seq ∈ processed s.log) →
      ∃ n ≤ 2, ∃ s', Sys.machine.runFrom s (List.replicate n .complete) = some s' ∧
        ∃ t, s'.step (.drained d .wake) = some t

namespace Sys

variable {s s' : Sys}

theorem waitsBelow_iff_unprocessed (hgood : s.ledger.Good) {upto : ℕ} :
    s.st.waitsBelow upto = true ↔
      ∃ e ∈ registered s.log, e.seq < upto ∧ e.seq ∉ processed s.log := by
  rw [waitsBelow_iff]
  constructor
  · rintro ⟨k, hk, hlt⟩
    rw [pending_keys hgood] at hk
    obtain ⟨e, he, rfl⟩ := List.mem_map.mp hk
    obtain ⟨hreg, hnot⟩ := List.mem_filter.mp he
    exact ⟨e, hreg, hlt, of_decide_eq_true hnot⟩
  · rintro ⟨e, he, hlt, hnot⟩
    exact ⟨e.seq, (mem_pending_keys hgood).mpr ⟨seq_lt_of_registered hgood he, hnot⟩, hlt⟩

/-- The numbers below the target are those registered before the call. -/
theorem mem_before_iff (hgood : s.ledger.Good) {d upto : ℕ} {pre : List Obs}
    (hpre : beforeCall d s.log = some pre)
    (hseqs : (registered pre).map Entry.seq = List.range upto) {e : Entry} :
    e ∈ registered pre ↔ e ∈ registered s.log ∧ e.seq < upto := by
  obtain ⟨post, hlog⟩ := beforeCall_sublist hpre
  have hsub : ∀ x ∈ registered pre, x ∈ registered s.log := by
    intro x hx
    rw [hlog, registered_append]
    exact List.mem_append_left _ hx
  constructor
  · intro he
    have hmem : e.seq ∈ (registered pre).map Entry.seq := List.mem_map_of_mem he
    rw [hseqs] at hmem
    exact ⟨hsub e he, List.mem_range.mp hmem⟩
  · rintro ⟨he, hlt⟩
    have hmem : e.seq ∈ (registered pre).map Entry.seq := by
      rw [hseqs]
      exact List.mem_range.mpr hlt
    obtain ⟨e', he', hseq⟩ := List.mem_map.mp hmem
    rwa [← hgood.entry_unique (hsub e' he') he hseq]

/-- The rest of a completion that has left `pending` ends in the signal. -/
theorem Signalling.signals (h : s.Signalling) {d : ℕ} :
    ∃ n ≤ 2, ∃ s', machine.runFrom s (List.replicate n .complete) = some s' ∧
      s'.progress = s.progress + 1 ∧ s'.drains d = s.drains d := by
  obtain ⟨⟨entry, result, stage⟩, hk, hstage⟩ := h
  rcases hstage with hstage | hstage
  · cases hstage
    refine ⟨2, le_rfl, (s.completeStep entry result .sending).completeStep entry
      result .signalling, ?_, rfl, rfl⟩
    simp only [List.replicate, Machine.runFrom, machine, Sys.step, hk, Option.map_some,
      Option.bind_some, completeStep]
  · cases hstage
    refine ⟨1, by decide, s.completeStep entry result .signalling, ?_, rfl, rfl⟩
    simp only [List.replicate, Machine.runFrom, machine, Sys.step, hk, Option.map_some,
      Option.bind_some]

theorem wake_enabled {d upto seen : ℕ} (hd : s.drains d = some (.parked upto seen))
    (hseen : s.progress ≠ seen) : ∃ t, s.step (.drained d .wake) = some t :=
  ⟨_, by simp [Sys.step, drainedStep, hd, hseen]; rfl⟩

theorem drain_waits (h : machine.Reachable s) : DrainWaits s := by
  have hgood := good h
  have hdrain := drainInv h
  refine ⟨?_, ?_, ?_, ?_, ?_⟩
  · intro d hd
    obtain ⟨pre, hpre, hproc⟩ := hdrain.ok d _ hd
    refine ⟨pre, hpre, fun e he => ⟨hproc e he, ?_⟩⟩
    obtain ⟨post, hlog⟩ := beforeCall_sublist hpre
    have hreg : e ∈ registered s.log := by
      rw [hlog, registered_append]
      exact List.mem_append_left _ he
    exact hgood.processed_done e hreg (hproc e he)
  · intro c write removal hunqueued hreturned
    have hinv := unqueuedInv h
    rcases hinv.answered c write removal hunqueued with hr | ⟨stage, -, hc⟩
    · exact hr
    · rw [(hinv.returned c hreturned).2] at hc
      cases hc
  · intro d hd hstay pre hpre marker follow hjoined hmarker
    obtain ⟨pre', hpre', hproc⟩ := hdrain.ok d _ hd
    rw [hpre] at hpre'
    cases hpre'
    obtain ⟨done, cur, hline⟩ := (fifoInv h).line hstay
    obtain ⟨before, after, hjoins⟩ := joins_of_mem hjoined
    have hsplit : joins s.log = (before ++ [follow]) ++ marker :: after := by
      simpa [Obs.joins] using hjoins
    exact hline.ended_before hgood (joinInv h) hsplit (hproc marker hmarker) follow
      (by simp)
  · intro d upto seen hd
    obtain ⟨-, pre, hpre, hseqs⟩ := hdrain.ok d _ hd
    refine ⟨pre, hpre, ?_⟩
    rw [waitsBelow_iff_unprocessed hgood]
    constructor
    · rintro ⟨e, he, hlt, hnot⟩
      exact ⟨e, (mem_before_iff hgood hpre hseqs).mpr ⟨he, hlt⟩, hnot⟩
    · rintro ⟨e, he, hnot⟩
      obtain ⟨hreg, hlt⟩ := (mem_before_iff hgood hpre hseqs).mp he
      exact ⟨e, hreg, hlt, hnot⟩
  · intro d upto seen hd hdone
    obtain ⟨hseen, -, hwait⟩ := hdrain.ok d _ hd
    rcases hwait with hw | hlt | hsig
    · obtain ⟨e, he, hlt, hnot⟩ := (waitsBelow_iff_unprocessed hgood).mp hw
      exact absurd (hdone e he hlt) hnot
    · exact ⟨0, by decide, s, rfl, wake_enabled hd hlt.ne'⟩
    · obtain ⟨n, hn, s', hrun, hprogress, hsame⟩ := hsig.signals (d := d)
      refine ⟨n, hn, s', hrun, wake_enabled (hsame.trans hd) ?_⟩
      rw [hprogress]
      exact (Nat.lt_succ_of_le hseen).ne'

/-- A held marker and its follow-up end before a drained call that was made
while the marker was held. -/
def drainedRun : List Event :=
  [.hold (.marker 1 3 4 5) (some (.finish 1 3 6)) 1, .call 0, .drain,
    .drained 0 .read, .drained 0 .check, .task .takeNewHeld, .task .nextHead,
    .task (.gateEnded 0 .stored 2), .task .takeNewHeld, .task .nextHead, .task .send,
    .task (.attemptEnded .ok), .complete, .complete, .complete, .complete,
    .drained 0 .wake, .drained 0 .check, .task .takeNewHeld, .task .nextHead,
    .task .send, .task (.attemptEnded .ok), .complete, .complete, .complete,
    .complete, .drained 0 .wake, .drained 0 .check]

theorem drain_waits_drainedRun :
    ∃ s, machine.run drainedRun = some s ∧ DrainWaits s ∧
      s.drains 0 = some .leaving ∧ results s.log = [(1, .ok), (0, .ok)] :=
  ⟨_, rfl, drain_waits (Machine.reachable_of_run drainedRun rfl), rfl, rfl⟩

/-- The one write has left `pending`; its completion has not signalled yet. -/
def beforeSignalRun : List Event :=
  [.enqueue (.started 1 2) 0, .call 0, .drain, .drained 0 .read, .drained 0 .check,
    .task .takeNewHeld, .task .nextHead, .task .send, .task (.attemptEnded .ok),
    .complete, .complete]

/-- The drop ends the marker, and the call returns, before the follow-up that
joined ahead of it ends. -/
def overtakenRun : List Event :=
  [.hold (.marker 1 3 4 5) (some (.finish 1 3 6)) 1, .call 0, .drain,
    .drained 0 .read, .task .takeNewHeld, .task .nextHead,
    .task (.gateEnded 0 .stored 2), .task .takeNewHeld, .task .nextHead, .task .drop,
    .task .dropLocked, .task .dropNext, .complete, .complete, .complete, .complete,
    .drained 0 .check, .drained 0 .leave]

/-- A call can be parked with nothing pending and no unseen progress value, and
with the drop of the task it can return before the follow-up has ended. -/
theorem parked_and_overtaken :
    (∃ s, machine.run beforeSignalRun = some s ∧
      s.drains 0 = some (.parked 1 0) ∧ s.st.pending.keys = [] ∧ s.progress = 0) ∧
    ∃ s, machine.run overtakenRun = some s ∧ s.log.getLast? =
        some (.drainReturned 0 s.st.snapshot) ∧
      (joins s.log).map Entry.chan = [1, 0] ∧
      results s.log = [(0, .err .leftUnsent)] :=
  ⟨⟨_, rfl, rfl, rfl, rfl⟩, ⟨_, rfl, rfl, rfl, rfl⟩⟩

end Sys

end RunnerKit.Queue
