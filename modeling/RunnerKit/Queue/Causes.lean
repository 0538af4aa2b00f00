import RunnerKit.Queue.Gated

/-!
# What the caller of a hand-over learns

The owner of a `WriteEnd` sees the end of its write and its cause. A write is
removed as dependent or as left unsent only for a reason of the queue: the end
of a sent write is a delivery, a refusal or a failure. And once a hand-over has
returned, its write has joined the queue or its end stands in the table, so
what is handed over next is behind it.
-/

namespace RunnerKit.Queue

open RunnerKit.Jobs RunnerKit.Lib

/-! ## The cause of an end -/

/-- A removal that no attempt gives has a reason of the queue. -/
def Caused (s : Sys) (notes : List Note) (write : Write) : WriteResult → Prop
  | .err .dependsOnRemoved => Reason s notes write .dependsOnRemoved
  | .err .leftUnsent => Reason s notes write .leftUnsent
  | _ => True

theorem Reason.caused {s : Sys} {notes : List Note} {write : Write}
    {removal : Removal} (h : Reason s notes write removal) :
    Caused s notes write (.err removal) := by
  cases removal <;> first | exact h | exact trivial

theorem caused_of_judged {s : Sys} {notes : List Note} {write sent : Write}
    {outcome : Outcome} {result : WriteResult}
    (h : judge sent outcome = .final result) : Caused s notes write result := by
  rcases judge_final h with rfl | ⟨error, rfl⟩
  · trivial
  · cases error <;> exact trivial

theorem Caused.mono {s s' : Sys} {notes more : List Note} {obs : List Obs}
    {write : Write} {result : WriteResult} (h : Caused s notes write result)
    (hlog : s'.log = s.log ++ obs)
    (hstop : s.st.stopped = true → s'.st.stopped = true) :
    Caused s' (notes ++ more) write result := by
  cases result with
  | ok => trivial
  | err removal =>
      cases removal with
      | dependsOnRemoved => exact Reason.mono hlog hstop h
      | leftUnsent => exact Reason.mono hlog hstop h
      | _ => trivial

/-- Only a stopped queue leaves a write unsent. -/
theorem Caused.stopped {s : Sys} {notes : List Note} {write : Write}
    (h : Caused s notes write (.err .leftUnsent)) : s.st.stopped = true := by
  cases h
  assumption

namespace Sys

/-! ## What the hand-overs leave -/

structure CauseInv (s : Sys) (notes : List Note) : Prop where
  called : ∀ c write removal stage,
    s.calls c = some (.unqueued write removal stage) →
      .unqueued c write removal ∈ s.log
  /-- What was not queued is still being ended by its caller, or has ended. -/
  unqueued : ∀ c write removal, .unqueued c write removal ∈ s.log →
    (∃ stage, s.calls c = some (.unqueued write removal stage)) ∨
      (c, .err removal) ∈ results s.log
  noted : ∀ c write removal, .unqueued c write removal ∈ s.log →
    s.calls c = some (.unqueued write removal .table) ∨
      .recorded none write (.err removal) ∈ notes
  recorded : ∀ write result, .recorded none write result ∈ notes →
    ∃ c removal, .unqueued c write removal ∈ s.log ∧ result = .err removal
  completing : ∀ k, s.task.completing = some k →
    Caused s notes k.entry.write k.result
  ended : ∀ c result, (c, result) ∈ results s.log →
    ∃ write, (c, write) ∈ handed s.log ∧ Caused s notes write result

theorem causeInv_init : init.CauseInv [] where
  called := by simp [init]
  unqueued := by simp [init]
  noted := by simp [init]
  recorded := by simp
  completing := by simp [init]
  ended := by simp [init]

variable {s s' : Sys} {notes new : List Note}

/-- No hand-over is under way on a channel that was not given out. -/
theorem calls_next (hgood : s.ledger.Good) {write : Write} {removal : Removal}
    {stage : CallStage} :
    s.calls s.nextChan ≠ some (.unqueued write removal stage) := by
  intro hcall
  have hu : s.ledger.calls s.nextChan = some ⟨write, removal, stage⟩ := by
    simp [ledger, hcall, Call.unqueued?]
  exact absurd (handed_lt hgood (hgood.calls_handed _ _ hu)) (Nat.lt_irrefl _)

/-- A step that queues nothing unqueued, keeps the calls that end a write, and
answers nobody. -/
theorem CauseInv.frame (h : CauseInv s notes) {more : List Obs}
    (hlog : s'.log = s.log ++ more)
    (hmore : ∀ c write removal, .unqueued c write removal ∉ more)
    (hresults : results more = [])
    (hstop : s.st.stopped = true → s'.st.stopped = true)
    (hnew : ∀ write result, .recorded none write result ∉ new)
    (hcalls : ∀ c write removal stage,
      s'.calls c = some (.unqueued write removal stage) ↔
        s.calls c = some (.unqueued write removal stage))
    (hcompleting : ∀ k, s'.task.completing = some k →
      (∃ stage, s.task.completing = some ⟨k.entry, k.result, stage⟩) ∨
        Caused s notes k.entry.write k.result) :
    CauseInv s' (notes ++ new) := by
  have hmem : ∀ {c write removal}, .unqueued c write removal ∈ s'.log →
      .unqueued c write removal ∈ s.log := by
    intro c write removal hin
    rw [hlog] at hin
    exact (List.mem_append.mp hin).resolve_right (hmore c write removal)
  have hold : results s'.log = results s.log := by
    rw [hlog, results_append, hresults, List.append_nil]
  constructor
  · intro c write removal stage hcall
    rw [hlog]
    exact List.mem_append_left _ (h.called c write removal stage ((hcalls ..).mp hcall))
  · intro c write removal hin
    rw [hold]
    rcases h.unqueued c write removal (hmem hin) with ⟨stage, hcall⟩ | htold
    · exact Or.inl ⟨stage, (hcalls ..).mpr hcall⟩
    · exact Or.inr htold
  · intro c write removal hin
    rcases h.noted c write removal (hmem hin) with hcall | hnoted
    · exact Or.inl ((hcalls ..).mpr hcall)
    · exact Or.inr (List.mem_append_left _ hnoted)
  · intro write result hin
    obtain ⟨c, removal, hlogged, rfl⟩ := h.recorded write result
      ((List.mem_append.mp hin).resolve_right (hnew write result))
    rw [hlog]
    exact ⟨c, removal, List.mem_append_left _ hlogged, rfl⟩
  · intro k hk
    rcases hcompleting k hk with ⟨stage, hsame⟩ | hcaused
    · exact (h.completing _ hsame).mono hlog hstop
    · exact hcaused.mono hlog hstop
  · intro c result hin
    rw [hold] at hin
    obtain ⟨write, hhanded, hcaused⟩ := h.ended c result hin
    refine ⟨write, ?_, hcaused.mono hlog hstop⟩
    rw [hlog, handed_append]
    exact List.mem_append_left _ hhanded

/-- A step of the task or of a drained call. -/
theorem CauseInv.quiet (h : CauseInv s notes) {more : List Obs}
    (hlog : s'.log = s.log ++ more)
    (hmore : ∀ c write removal, .unqueued c write removal ∉ more)
    (hresults : results more = []) (hcalls : s'.calls = s.calls)
    (hstop : s.st.stopped = true → s'.st.stopped = true)
    (hcompleting : ∀ k, s'.task.completing = some k →
      (∃ stage, s.task.completing = some ⟨k.entry, k.result, stage⟩) ∨
        Caused s notes k.entry.write k.result) :
    CauseInv s' (notes ++ more.flatMap Obs.notes) := by
  refine h.frame hlog hmore hresults hstop ?_ ?_ hcompleting
  · exact fun write result => recorded_not_mem_notes
  · intro c write removal stage
    rw [hcalls]

/-- A hand-over that queued its write, or the notify that ends it. -/
theorem CauseInv.notify (h : CauseInv s notes) {obs : Obs} {chan : Chan}
    {call : Option Call} (hlog : s'.log = s.log ++ [obs])
    (hobs : ∀ c write removal, obs ≠ .unqueued c write removal)
    (hresults : obs.result = none)
    (hstop : s.st.stopped = true → s'.st.stopped = true)
    (hcalls : s'.calls = Function.update s.calls chan call)
    (hbefore : ∀ write removal stage,
      s.calls chan ≠ some (.unqueued write removal stage))
    (hafter : ∀ write removal stage, call ≠ some (.unqueued write removal stage))
    (hcompleting : s'.task.completing = s.task.completing) :
    CauseInv s' (notes ++ [obs].flatMap Obs.notes) := by
  refine h.frame hlog ?_ (by simp [results, hresults]) hstop ?_ ?_ ?_
  · intro c write removal hin
    exact hobs c write removal (List.mem_singleton.mp hin).symm
  · exact fun write result => recorded_not_mem_notes
  · intro c write removal stage
    rw [hcalls]
    by_cases hc : c = chan
    · subst hc
      rw [Function.update_self]
      exact iff_of_false (hafter write removal stage) (hbefore write removal stage)
    · rw [Function.update_of_ne hc]
  · intro k hk
    rw [hcompleting] at hk
    exact Or.inl ⟨k.stage, hk⟩

/-- The section of a hand-over that queues nothing. -/
theorem CauseInv.unqueue (h : CauseInv s notes) (hgood : s.ledger.Good)
    {write : Write} {removal : Removal} :
    CauseInv (s.unqueue write removal)
      (notes ++ [Obs.unqueued s.nextChan write removal].flatMap Obs.notes) := by
  have hcalls : ∀ {c w r stage}, s.calls c = some (.unqueued w r stage) →
      (s.unqueue write removal).calls c = some (.unqueued w r stage) := by
    intro c w r stage hcall
    have hc : c ≠ s.nextChan := by
      rintro rfl
      exact calls_next hgood hcall
    exact (Function.update_of_ne hc _ _).trans hcall
  have hself : (s.unqueue write removal).calls s.nextChan =
      some (.unqueued write removal .table) := Function.update_self ..
  have hmono : ∀ {w result}, Caused s notes w result →
      Caused (s.unqueue write removal)
        (notes ++ [Obs.unqueued s.nextChan write removal].flatMap Obs.notes) w result :=
    fun hcaused => hcaused.mono rfl id
  have hold : results (s.unqueue write removal).log = results s.log := by
    simp [Sys.unqueue, Obs.result]
  constructor
  · intro c w r stage hcall
    by_cases hc : c = s.nextChan
    · subst hc
      rw [hself] at hcall
      cases hcall
      exact List.mem_append_right _ (List.mem_singleton.mpr rfl)
    · simp only [Sys.unqueue, Function.update_of_ne hc] at hcall
      exact List.mem_append_left _ (h.called c w r stage hcall)
  · intro c w r hin
    rcases List.mem_append.mp hin with hin | hin
    · rw [hold]
      exact (h.unqueued c w r hin).imp_left (Exists.imp fun _ => hcalls)
    · cases List.mem_singleton.mp hin
      exact Or.inl ⟨.table, hself⟩
  · intro c w r hin
    rcases List.mem_append.mp hin with hin | hin
    · exact (h.noted c w r hin).imp hcalls (List.mem_append_left _)
    · cases List.mem_singleton.mp hin
      exact Or.inl hself
  · intro w result hin
    obtain ⟨c, r, hlogged, rfl⟩ := h.recorded w result
      ((List.mem_append.mp hin).resolve_right recorded_not_mem_notes)
    exact ⟨c, r, List.mem_append_left _ hlogged, rfl⟩
  · exact fun k hk => hmono (h.completing k hk)
  · intro c result hin
    rw [hold] at hin
    obtain ⟨w, hhanded, hcaused⟩ := h.ended c result hin
    refine ⟨w, ?_, hmono hcaused⟩
    show _ ∈ handed (s.log ++ [_])
    rw [handed_append]
    exact List.mem_append_left _ hhanded

/-- A hand-over that queued nothing goes on to its next part. -/
theorem CauseInv.call (h : CauseInv s notes) {chan : Chan} {write : Write}
    {removal : Removal} {stage : CallStage} {call : Option Call} {more : List Obs}
    (hcall : s.calls chan = some (.unqueued write removal stage))
    (hlog : s'.log = s.log ++ more)
    (hmore : ∀ c w r, .unqueued c w r ∉ more)
    (hstop : s.st.stopped = true → s'.st.stopped = true)
    (hcalls : s'.calls = Function.update s.calls chan call)
    (hnext : (∃ later, call = some (.unqueued write removal later)) ∨
      call = none ∧ (chan, .err removal) ∈ results s.log)
    (htable : stage = .table → .recorded none write (.err removal) ∈ new)
    (hnew : ∀ w result, .recorded none w result ∈ new →
      w = write ∧ result = .err removal)
    (hcompleting : s'.task.completing = s.task.completing)
    (hresults : ∀ c result, (c, result) ∈ results more →
      (c, write) ∈ handed s.log ∧ Caused s notes write result) :
    CauseInv s' (notes ++ new) := by
  have hmem : ∀ {c w r}, .unqueued c w r ∈ s'.log → .unqueued c w r ∈ s.log := by
    intro c w r hin
    rw [hlog] at hin
    exact (List.mem_append.mp hin).resolve_right (hmore c w r)
  have hold : ∀ {p}, p ∈ results s.log → p ∈ results s'.log := by
    intro p hp
    rw [hlog, results_append]
    exact List.mem_append_left _ hp
  have hhanded : ∀ {p}, p ∈ handed s.log → p ∈ handed s'.log := by
    intro p hp
    rw [hlog, handed_append]
    exact List.mem_append_left _ hp
  constructor
  · intro c w r st hc
    rw [hlog]
    rw [hcalls] at hc
    by_cases hchan : c = chan
    · subst hchan
      rw [Function.update_self] at hc
      rcases hnext with ⟨later, rfl⟩ | ⟨rfl, -⟩
      · cases hc
        exact List.mem_append_left _ (h.called c _ _ stage hcall)
      · cases hc
    · rw [Function.update_of_ne hchan] at hc
      exact List.mem_append_left _ (h.called c w r st hc)
  · intro c w r hin
    rcases h.unqueued c w r (hmem hin) with ⟨st, hc⟩ | htold
    · by_cases hchan : c = chan
      · subst hchan
        rw [hcall] at hc
        cases hc
        rcases hnext with ⟨later, hlater⟩ | ⟨-, htold⟩
        · exact Or.inl ⟨later, by rw [hcalls, Function.update_self, hlater]⟩
        · exact Or.inr (hold htold)
      · exact Or.inl ⟨st, by rw [hcalls, Function.update_of_ne hchan, hc]⟩
    · exact Or.inr (hold htold)
  · intro c w r hin
    rcases h.noted c w r (hmem hin) with hc | hnoted
    · by_cases hchan : c = chan
      · subst hchan
        rw [hcall] at hc
        injection hc with hc
        injection hc with hwrite hremoval hstage
        subst hwrite hremoval
        exact Or.inr (List.mem_append_right _ (htable hstage))
      · exact Or.inl (by rw [hcalls, Function.update_of_ne hchan, hc])
    · exact Or.inr (List.mem_append_left _ hnoted)
  · intro w result hin
    rw [hlog]
    rcases List.mem_append.mp hin with hin | hin
    · obtain ⟨c, r, hlogged, rfl⟩ := h.recorded w result hin
      exact ⟨c, r, List.mem_append_left _ hlogged, rfl⟩
    · obtain ⟨rfl, rfl⟩ := hnew w result hin
      exact ⟨chan, removal,
        List.mem_append_left _ (h.called chan w removal stage hcall), rfl⟩
  · intro k hk
    rw [hcompleting] at hk
    exact (h.completing k hk).mono hlog hstop
  · intro c result hin
    rw [hlog, results_append] at hin
    rcases List.mem_append.mp hin with hin | hin
    · obtain ⟨w, hw, hcaused⟩ := h.ended c result hin
      exact ⟨w, hhanded hw, hcaused.mono hlog hstop⟩
    · obtain ⟨hw, hcaused⟩ := hresults c result hin
      exact ⟨write, hhanded hw, hcaused.mono hlog hstop⟩

/-- The answer of a completion. -/
theorem CauseInv.answer (h : CauseInv s notes) (hgood : s.ledger.Good)
    {entry : Entry} {result : WriteResult}
    (hc : s.task.completing = some ⟨entry, result, .sending⟩) :
    CauseInv (s.completeStep entry result .sending)
      (notes ++ [Obs.ended entry.chan result].flatMap Obs.notes) := by
  have hheld : entry ∈ registered s.log :=
    hgood.holds entry (Or.inr ⟨_, hc, rfl⟩)
  have hmem : ∀ {c write removal},
      .unqueued c write removal ∈ (s.completeStep entry result .sending).log →
        .unqueued c write removal ∈ s.log := by
    intro c write removal hin
    refine (List.mem_append.mp hin).resolve_right fun hlast => ?_
    cases List.mem_singleton.mp hlast
  have hmono : ∀ {write told}, Caused s notes write told →
      Caused (s.completeStep entry result .sending)
        (notes ++ [Obs.ended entry.chan result].flatMap Obs.notes) write told :=
    fun hcaused => hcaused.mono rfl id
  constructor
  · intro c write removal stage hcall
    exact List.mem_append_left _ (h.called c write removal stage hcall)
  · intro c write removal hin
    refine (h.unqueued c write removal (hmem hin)).imp_right fun htold => ?_
    show _ ∈ results (s.log ++ [_])
    rw [results_append]
    exact List.mem_append_left _ htold
  · intro c write removal hin
    exact (h.noted c write removal (hmem hin)).imp_right (List.mem_append_left _)
  · intro write told hin
    obtain ⟨c, removal, hlogged, rfl⟩ := h.recorded write told
      ((List.mem_append.mp hin).resolve_right recorded_not_mem_notes)
    exact ⟨c, removal, List.mem_append_left _ hlogged, rfl⟩
  · intro k hk
    cases hk
    exact hmono (h.completing ⟨entry, result, .sending⟩ hc)
  · intro c told hin
    have hhanded : ∀ {p}, p ∈ handed s.log →
        p ∈ handed (s.completeStep entry result .sending).log := by
      intro p hp
      show _ ∈ handed (s.log ++ [_])
      rw [handed_append]
      exact List.mem_append_left _ hp
    rcases List.mem_append.mp (by simpa [completeStep, Obs.result] using hin :
      (c, told) ∈ results s.log ++ [(entry.chan, result)]) with hin | hin
    · obtain ⟨write, hw, hcaused⟩ := h.ended c told hin
      exact ⟨write, hhanded hw, hmono hcaused⟩
    · cases List.mem_singleton.mp hin
      exact ⟨entry.write, hhanded (hgood.registered_handed entry hheld),
        hmono (h.completing _ hc)⟩

theorem CauseInv.plain (h : CauseInv s notes) (hist : HistoryInv s notes)
    (hreach : machine.Reachable s) {more : List Obs} (hs : Step s s')
    (hended : s'.st.ended = s.st.ended) (hlog : s'.log = s.log ++ more)
    (hprocessed : Queue.processed more = [])
    (htable : ∀ chan write removal,
      s.calls chan = some (.unqueued write removal .table) →
        s' ≠ s.callTable chan write removal) :
    CauseInv s' (notes ++ more.flatMap Obs.notes) := by
  have hgood := good hreach
  have hmore : ∀ {obs : List Obs}, s'.log = s.log ++ obs → more = obs :=
    fun hobs => List.append_cancel_left (hlog.symm.trans hobs)
  have hnone : s'.log = s.log → more = [] :=
    fun hsame => hmore (by rw [hsame, List.append_nil])
  cases hs with
  | enqueue write now hopen =>
      obtain rfl := hmore rfl
      exact h.notify rfl (by simp) rfl id rfl (fun _ _ _ => calls_next hgood)
        (by simp) rfl
  | hold write follow now hopen =>
      obtain rfl := hmore rfl
      exact h.notify rfl (by simp) rfl id rfl (fun _ _ _ => calls_next hgood)
        (by simp) rfl
  | unqueue write removal hwhy =>
      obtain rfl := hmore rfl
      exact h.unqueue hgood
  | callNotify chan hcall =>
      obtain rfl := hmore rfl
      exact h.notify rfl (by simp) rfl id rfl (by simp [hcall]) (by simp) rfl
  | callTable chan write removal hcall =>
      exact absurd rfl (htable chan write removal hcall)
  | callAnswer chan write removal hcall =>
      obtain rfl := hmore rfl
      have hu : s.ledger.calls chan = some ⟨write, removal, .answer⟩ := by
        simp [ledger, hcall, Call.unqueued?]
      have hreason : Reason s notes write removal :=
        hist.refusing chan write removal .answer hcall
      refine h.call hcall rfl (by simp) id rfl (Or.inl ⟨.report, rfl⟩) (by simp)
        (fun w told hin => absurd hin recorded_not_mem_notes) rfl ?_
      intro c result hin
      have heq : (c, result) = (chan, .err removal) := by
        simpa [Obs.result] using hin
      cases heq
      exact ⟨hgood.calls_handed chan _ hu, hreason.caused⟩
  | callReport chan write removal hcall =>
      obtain rfl := hmore rfl
      have hu : s.ledger.calls chan = some ⟨write, removal, .report⟩ := by
        simp [ledger, hcall, Call.unqueued?]
      exact h.call hcall rfl (by simp) id rfl
        (Or.inr ⟨rfl, hgood.answered chan _ hu rfl⟩) (by simp)
        (fun w told hin => absurd hin recorded_not_mem_notes) rfl
        (by simp [Obs.result])
  | stopNow =>
      obtain rfl := hnone rfl
      exact h.quiet hlog (by simp) rfl rfl (fun _ => rfl) fun k hk => Or.inl ⟨_, hk⟩
  | complete entry result stage hc =>
      cases stage with
      | reporting =>
          obtain rfl := hmore rfl
          refine h.quiet hlog (by simp) rfl rfl id fun k hk => Or.inl ?_
          cases hk
          exact ⟨_, hc⟩
      | removing =>
          obtain rfl := hmore rfl
          cases hprocessed
      | sending =>
          obtain rfl := hmore rfl
          exact h.answer hgood hc
      | signalling =>
          obtain rfl := hnone rfl
          refine h.quiet hlog (by simp) rfl rfl id fun k hk => ?_
          cases hk
  | skipHead head rest removal hat hentry hopen hfifo hblocked =>
      obtain rfl := hnone rfl
      refine h.quiet hlog (by simp) rfl rfl id fun k hk => Or.inr ?_
      cases hk
      exact (hist.reason_of_blocked hblocked).caused
  | attemptDone a outcome result hat hattempt hphase hjudge =>
      obtain rfl := hnone rfl
      refine h.quiet hlog (by simp) rfl rfl id fun k hk => Or.inr ?_
      obtain ⟨e, -, rfl⟩ := Option.map_eq_some_iff.mp hk
      exact caused_of_judged hjudge
  | endHeld seq marker follow held removal hat htake hwhy =>
      obtain rfl := hnone rfl
      refine h.quiet hlog (by simp) rfl rfl id fun k hk => Or.inr ?_
      cases hk
      have hreason : Reason s notes marker.write removal := by
        rcases hwhy with rfl | ⟨rfl, hstopped⟩
        · refine .gate marker follow ((joinInv hreach).held (marker, follow) ?_) rfl
          exact (takeHeld_perm htake).mem_iff.mpr List.mem_cons_self
        · exact .stopped hstopped
      exact hreason.caused
  | joinHeld seq marker follow held now hat hopen htake =>
      obtain rfl := hmore rfl
      refine h.quiet hlog (by simp) rfl rfl ?_ fun k hk => Or.inl ⟨_, hk⟩
      rw [hopen]
      intro hstopped
      cases hstopped
  | send a hat hattempt hphase =>
      obtain rfl := hmore rfl
      exact h.quiet hlog (by simp) rfl rfl id fun k hk => Or.inl ⟨_, hk⟩
  | retry a error hat hattempt hphase =>
      obtain rfl := hmore rfl
      exact h.quiet hlog (by simp) rfl rfl id fun k hk => Or.inl ⟨_, hk⟩
  | dropLocked rest hat =>
      obtain rfl := hmore rfl
      exact h.quiet hlog (by simp) rfl rfl (fun _ => rfl) fun k hk => Or.inl ⟨_, hk⟩
  | dropEntry entry rest hat =>
      obtain rfl := hnone rfl
      refine h.quiet hlog (by simp) rfl rfl id fun k hk => Or.inr ?_
      cases hk
      have hlocked : s.task.point.locked = true := by
        rw [hat.point]
        rfl
      obtain ⟨post, -, hafter⟩ := (dropInv hreach).some_of_locked hlocked
      exact Reason.stopped hafter.stopped
  | drainRead d seen hd =>
      obtain rfl := hmore rfl
      exact h.quiet hlog (by simp) rfl rfl id fun k hk => Or.inl ⟨_, hk⟩
  | drainLeave d hd =>
      obtain rfl := hmore rfl
      exact h.quiet hlog (by simp) rfl rfl id fun k hk => Or.inl ⟨_, hk⟩
  | _ =>
      obtain rfl := hnone rfl
      exact h.quiet hlog (by simp) rfl rfl id fun k hk => Or.inl ⟨_, hk⟩

/-! ## The table part is a step of its caller -/

theorem nextHead_calls : s.nextHead.calls = s.calls := by
  unfold nextHead
  split
  · rfl
  · split
    · rfl
    · split <;> rfl

theorem gateEnded_calls {held : List (Entry × Option Write)} {marker : Entry}
    {follow : Option Write} {gate : Gate} {now : ℕ} :
    (s.gateEnded held marker follow gate now).calls = s.calls := by
  cases gate with
  | stored =>
      simp only [gateEnded]
      split <;> rfl
  | dropped => rfl

theorem taskStep_calls {e : TaskEvent} (h : s.taskStep e = some s') :
    s'.calls = s.calls := by
  cases e <;> simp only [taskStep] at h <;> (repeat' split at h) <;> cases h <;>
    first | rfl | exact nextHead_calls | exact gateEnded_calls | skip
  rename_i rest hpoint
  cases rest <;> rfl

theorem drainedStep_calls {d : ℕ} {e : DrainEvent}
    (h : s.drainedStep d e = some s') : s'.calls = s.calls := by
  cases e <;> simp only [drainedStep] at h <;> (repeat' split at h) <;> cases h <;> rfl

/-- Only its caller takes a hand-over past the table. -/
theorem table_passed {e : Event} {chan : Chan} {write : Write} {removal : Removal}
    (h : s.step e = some s')
    (hcall : s.calls chan = some (.unqueued write removal .table))
    (hcall' : s'.calls chan = some (.unqueued write removal .answer)) :
    e = .call chan := by
  have hsame : s'.calls ≠ s.calls := by
    intro heq
    rw [heq, hcall] at hcall'
    cases hcall'
  have hother : ∀ {c call}, s'.calls = Function.update s.calls c (some call) →
      call = .unqueued write removal .answer := by
    intro c call heq
    by_cases hc : chan = c
    · subst hc
      rw [heq, Function.update_self] at hcall'
      exact Option.some.inj hcall'
    · rw [heq, Function.update_of_ne hc, hcall] at hcall'
      cases hcall'
  cases e with
  | call c =>
      obtain ⟨call, hc, heq⟩ := Option.map_eq_some_iff.mp h
      by_cases hchan : chan = c
      · rw [hchan]
      · have hkept : s'.calls chan = s.calls chan := by
          subst heq
          cases call with
          | notify => exact Function.update_of_ne hchan _ _
          | unqueued w r stage => cases stage <;> exact Function.update_of_ne hchan _ _
        rw [hkept, hcall] at hcall'
        cases hcall'
  | enqueue w now =>
      cases h
      split at hother <;> cases hother rfl
  | hold w follow now =>
      cases h
      split at hother <;> cases hother rfl
  | stopNow =>
      cases h
      exact absurd rfl hsame
  | stopCancel =>
      simp only [step] at h
      split at h <;> cases h
      exact absurd rfl hsame
  | complete =>
      obtain ⟨⟨entry, result, stage⟩, -, rfl⟩ := Option.map_eq_some_iff.mp h
      cases stage <;> exact absurd rfl hsame
  | task event =>
      simp only [step] at h
      split at h
      · exact absurd (taskStep_calls h) hsame
      · cases h
  | drain =>
      cases h
      exact absurd rfl hsame
  | drained d event => exact absurd (drainedStep_calls h) hsame

theorem noted_table {e : Event} {chan : Chan} {write : Write} {removal : Removal}
    (h : history.step (s, notes) e = some (s.callTable chan write removal, notes ++ new))
    (hcall : s.calls chan = some (.unqueued write removal .table)) :
    .recorded none write (.err removal) ∈ new := by
  obtain ⟨t, ht, heq⟩ := Option.map_eq_some_iff.mp h
  obtain ⟨rfl, hnotes⟩ := Prod.mk.inj heq
  obtain rfl := table_passed ht hcall (Function.update_self ..)
  rw [List.append_assoc] at hnotes
  rw [← List.append_cancel_left hnotes]
  refine List.mem_append_left _ ?_
  simp [recordedBy, hcall]

theorem causeInv {p : Sys × List Note} (h : history.Reachable p) :
    CauseInv p.1 p.2 := by
  refine Machine.Reach.invariant (P := fun p => CauseInv p.1 p.2) causeInv_init ?_ h
  rintro ⟨s, notes⟩ ⟨s', notes'⟩ e hreach hp - hs
  obtain ⟨-, new, rfl, hnoted⟩ := noted_cases hs
  have hqueue := reachable_of_history hreach
  cases hnoted with
  | completed entry result hc =>
      have hmore : ∀ c write removal,
          Obs.unqueued c write removal ∉ [Obs.processed entry.seq] := by
        simp
      refine CauseInv.frame hp rfl hmore rfl ?_ (by simp) (fun _ _ _ _ => Iff.rfl) ?_
      · exact fun hstopped => (State.finish_stopped ..).trans hstopped
      · intro k hk
        cases hk
        exact Or.inl ⟨_, hc⟩
  | called chan write removal hcall =>
      refine CauseInv.call hp hcall (List.append_nil _).symm (by simp) ?_ rfl
        (Or.inl ⟨.answer, rfl⟩) (by simp) (by simp) rfl (by simp)
      exact fun hstopped => (State.recordEnd_stopped ..).trans hstopped
  | plain more hstep hended hlog hprocessed =>
      refine hp.plain (historyInv hreach) hqueue hstep hended hlog hprocessed ?_
      rintro chan write removal hcall rfl
      exact recorded_not_mem_notes (noted_table hs hcall)

end Sys

/-! ## What is handed over next is behind it -/

/-- An owner of `key` has joined, or its end stands in the table. -/
def Known (key : DepKey) (notes : List Note) : Prop :=
  (∃ o ∈ entries notes, ownKey o.write = some key) ∨
    ∃ owner result, .recorded none owner result ∈ notes ∧ ownKey owner = some key

theorem Known.append {key : DepKey} {notes more : List Note} (h : Known key notes) :
    Known key (notes ++ more) := by
  refine h.imp ?_ ?_
  · rintro ⟨o, ho, hown⟩
    refine ⟨o, ?_, hown⟩
    rw [entries_append]
    exact List.mem_append_left _ ho
  · rintro ⟨owner, result, hin, hown⟩
    exact ⟨owner, result, List.mem_append_left _ hin, hown⟩

/-- A write is handed over by one observation only. -/
theorem handed_once {log : List Obs} (hnodup : ((handed log).map Prod.fst).Nodup)
    {o o' : Obs} {c : Chan} {write write' : Write} (ho : o ∈ log) (ho' : o' ∈ log)
    (h : o.handed = some (c, write)) (h' : o'.handed = some (c, write')) : o = o' := by
  induction log with
  | nil => cases ho
  | cons obs rest ih =>
      rw [handed_cons, List.map_append] at hnodup
      have hrest := (List.nodup_append.mp hnodup).2.1
      have hnot : ∀ {w}, obs.handed = some (c, w) →
          ∀ x ∈ rest, ∀ w', x.handed ≠ some (c, w') := by
        intro w hobs x hx w' hxe
        have hmem : c ∈ (handed rest).map Prod.fst :=
          List.mem_map.mpr ⟨_, List.mem_filterMap.mpr ⟨x, hx, hxe⟩, rfl⟩
        rw [hobs] at hnodup
        exact (List.nodup_cons.mp hnodup).1 hmem
      rcases List.mem_cons.mp ho with rfl | hin <;>
        rcases List.mem_cons.mp ho' with rfl | hin'
      · rfl
      · exact absurd h' (hnot h o' hin' _)
      · exact absurd h (hnot h' o hin _)
      · exact ih hrest hin hin'

namespace Sys

variable {s : Sys} {notes : List Note}

theorem handed_nodup (hgood : s.ledger.Good) :
    ((handed s.log).map Prod.fst).Nodup := by
  have hchans : (handed s.log).map Prod.fst = List.range s.nextChan :=
    hgood.handed_chans
  rw [hchans]
  exact List.nodup_range

/-- An entry has a channel of its own. -/
theorem entry_of_chan (hgood : s.ledger.Good) {e e' : Entry}
    (he : e ∈ registered s.log) (he' : e' ∈ registered s.log)
    (hchan : e.chan = e'.chan) : e = e' := by
  obtain ⟨o, ho, hoe⟩ := List.mem_filterMap.mp he
  obtain ⟨o', ho', hoe'⟩ := List.mem_filterMap.mp he'
  have hh := (Obs.of_registered hoe).1
  have hh' := (Obs.of_registered hoe').1
  rw [← hchan] at hh'
  obtain rfl := handed_once (handed_nodup hgood) ho ho' hh hh'
  rw [hoe] at hoe'
  exact Option.some.inj hoe'

/-- A hand-over that has returned left its write in the queue or its end in the
table. -/
theorem CauseInv.known (h : CauseInv s notes) (hist : HistoryInv s notes)
    {c : Chan} {write : Write} {key : DepKey} (hhanded : (c, write) ∈ handed s.log)
    (hreturned : s.calls c = none) (hown : ownKey write = some key)
    (hheld : ∀ e follow, .held e follow ∈ s.log → ownKey e.write ≠ some key) :
    Known key notes := by
  have hjoined : ∀ {e}, e ∈ joins s.log → e.write = write → Known key notes := by
    intro e he hwrite
    rw [← hist.joins] at he
    exact Or.inl ⟨e, he, hwrite ▸ hown⟩
  obtain ⟨obs, hobs, heq⟩ := List.mem_filterMap.mp hhanded
  cases obs with
  | unqueued chan w removal =>
      cases heq
      rcases h.noted c write removal hobs with hcall | hnoted
      · rw [hreturned] at hcall
        cases hcall
      · exact Or.inr ⟨write, _, hnoted, hown⟩
  | enqueued entry =>
      cases heq
      exact hjoined (List.mem_flatMap.mpr ⟨_, hobs, List.mem_singleton.mpr rfl⟩) rfl
  | held entry follow =>
      cases heq
      exact absurd hown (hheld entry follow hobs)
  | joined marker follow =>
      obtain ⟨e, rfl, heq⟩ := Option.map_eq_some_iff.mp heq
      cases heq
      exact hjoined (List.mem_flatMap.mpr ⟨_, hobs, List.mem_cons_self⟩) rfl
  | _ => cases heq

theorem CauseInv.result_of_unqueued (h : CauseInv s notes) (hgood : s.ledger.Good)
    {c : Chan} {write : Write} {removal : Removal} {result : WriteResult}
    (hin : .unqueued c write removal ∈ s.log) (htold : (c, result) ∈ results s.log) :
    result = .err removal := by
  rcases h.unqueued c write removal hin with ⟨stage, hcall⟩ | hended
  · have hu : s.ledger.calls c = some ⟨write, removal, stage⟩ := by
      simp [ledger, hcall, Call.unqueued?]
    have hmem : c ∈ (results s.log).map Prod.fst := List.mem_map.mpr ⟨_, htold, rfl⟩
    cases stage with
    | report => exact hgood.result_unique htold (hgood.answered c _ hu rfl)
    | _ =>
        have howed : 0 < s.ledger.owes .answer c :=
          Ledger.owes_pos_of_call hu rfl
        exact absurd hmem ((hgood.dues .answer).not_mem_of_owed howed)
  · exact hgood.result_unique htold hended

/-- Where one write only owns a key and is delivered, no end of the key removes
anything. -/
theorem CauseInv.recorded_ok (h : CauseInv s notes) (hist : HistoryInv s notes)
    (hgood : s.ledger.Good) {c : Chan} {key : DepKey}
    (hok : (c, .ok) ∈ results s.log)
    (hone : ∀ c' write, (c', write) ∈ handed s.log → ownKey write = some key → c' = c)
    {seq : Option ℕ} {owner : Write} {result : WriteResult}
    (hin : .recorded seq owner result ∈ notes) (hown : ownKey owner = some key) :
    result = .ok := by
  cases seq with
  | some q =>
      obtain ⟨e, he, -, rfl, hsame⟩ := hist.same_end hgood hin
      have hchan := hone _ _ (hgood.registered_handed e he) hown
      rw [hchan] at hsame
      exact (hsame .ok hok).symm
  | none =>
      obtain ⟨c', removal, hlogged, rfl⟩ := h.recorded owner result hin
      have hhanded : (c', owner) ∈ handed s.log :=
        List.mem_filterMap.mpr ⟨_, hlogged, rfl⟩
      obtain rfl := hone c' owner hhanded hown
      exact (h.result_of_unqueued hgood hlogged hok).symm

end Sys

end RunnerKit.Queue
